import ReductStore.Api.LabelDelta

set_option autoImplicit false

namespace ReductStore

namespace DeltaHeader

open Text BatchHeader

section Headers

structure NameChar (char : Char) : Prop where
  comma : char ≠ ','
  blank : isWhitespace char = false
  visible : Visible char

theorem nameChar_of {char : Char} (checked : char ≠ ',' ∧ isWhitespace char = false ∧ 32 ≤ char.toNat ∧ char.toNat < 127) :
    NameChar char := ⟨checked.1, checked.2.1, .inr checked.2.2⟩

theorem nameChar_encoded (text : List Char) : ∀ char ∈ encodeEntryName text, NameChar char := by
  refine Percent.encode_forall (fun byte kept => nameChar_of ?_) (nameChar_of (by decide)) (fun value small => nameChar_of ?_) _
  · have table : ∀ number < 256, isTchar (UInt8.ofNat number) = true →
        Char.ofNat number ≠ ',' ∧ isWhitespace (Char.ofNat number) = false ∧ 32 ≤ (Char.ofNat number).toNat ∧
          (Char.ofNat number).toNat < 127 := by
      decide +kernel
    exact table byte.toNat byte.toNat_lt (by rwa [UInt8.ofNat_toNat])
  · interval_cases value <;> decide

theorem trim_names {text : List Char} (plain : ∀ char ∈ text, NameChar char) : trim text = text :=
  trim_eq_self (fun char member => (plain char (List.mem_of_mem_head? member)).blank)
    fun char member => (plain char (List.mem_of_mem_getLast? member)).blank

theorem decodeEntryName_encoded {text : List Char} (clear : '%' ∉ text) :
    decodeEntryName (encodeEntryName text) = .ok text := by
  have plain : ∀ byte ∈ Percent.utf8 text, isTchar byte = true → byte.toNat < 128 ∧ byte ≠ 37 := by
    intro byte member kept
    have table : ∀ number < 256, isTchar (UInt8.ofNat number) = true → number < 128 := by decide +kernel
    have small := table byte.toNat byte.toNat_lt (by rwa [UInt8.ofNat_toNat])
    refine ⟨small, ?_⟩
    rintro rfl
    exact clear (Percent.mem_utf8 small member)
  rw [decodeEntryName, encodeEntryName, Percent.decode_encode _ plain]
  dsimp only
  rw [Percent.fromUtf8_utf8]

theorem mapM_eq_ok {Source Target Failure : Type} (read : Source → Except Failure Target) (items : List Source)
    (values : List Target) : items.mapM read = .ok values ↔ List.Forall₂ (fun item value => read item = .ok value) items values := by
  induction items generalizing values with
  | nil => cases values <;> simp [pure, Except.pure]
  | cons item items ih =>
    rw [List.mapM_cons]
    cases first : read item with
    | error failure =>
      refine ⟨fun impossible => (nomatch impossible), fun pairs => ?_⟩
      cases pairs with
      | cons same _ => rw [first] at same; cases same
    | ok value =>
      cases rest : items.mapM read with
      | error failure =>
        refine ⟨fun impossible => (nomatch impossible), fun pairs => ?_⟩
        cases pairs with
        | cons _ others => rw [(ih _).mpr others] at rest; cases rest
      | ok others =>
        constructor
        · rintro ⟨⟩
          exact .cons first ((ih others).mp rest)
        · intro pairs
          cases pairs with
          | cons same pairs =>
            obtain rfl := Except.ok.inj (first.symm.trans same)
            obtain rfl := Except.ok.inj (rest.symm.trans ((ih _).mpr pairs))
            rfl

theorem splitOn_joinNames {names : List String} (filled : names ≠ []) :
    (joinNames names).splitOn ',' = names.map fun name => encodeEntryName name.toList := by
  refine List.splitOn_intercalate ',' (List.forall_mem_map.mpr fun name _ member => ?_) (by simpa using filled)
  exact (nameChar_encoded _ _ member).comma rfl

theorem mem_joinNames {names : List String} {char : Char} (member : char ∈ joinNames names) :
    char = ',' ∨ NameChar char := by
  induction names with
  | nil => simp [joinNames] at member
  | cons name names ih =>
    cases names with
    | nil => exact .inr (nameChar_encoded name.toList char (by simpa [joinNames] using member))
    | cons next names =>
      have whole : joinNames (name :: next :: names) = encodeEntryName name.toList ++ ',' :: joinNames (next :: names) := by
        simp [joinNames, List.intercalate_cons_cons]
      rw [whole, List.mem_append, List.mem_cons] at member
      rcases member with here | comma | later
      · exact .inr (nameChar_encoded name.toList char here)
      · exact .inl comma
      · exact ih later

theorem trim_joinNames (names : List String) : trim (joinNames names) = joinNames names := by
  have plain : ∀ char ∈ joinNames names, isWhitespace char = false := by
    intro char member
    rcases mem_joinNames member with rfl | name
    · rfl
    · exact name.blank
  exact trim_eq_self (fun char member => plain char (List.mem_of_mem_head? member))
    fun char member => plain char (List.mem_of_mem_getLast? member)

theorem encodeEntryName_eq_nil {name : String} (empty : encodeEntryName name.toList = []) : name = "" := by
  have bytes : Percent.utf8 name.toList = [] := Percent.encode_eq_nil empty
  have text := Percent.fromUtf8_utf8 name.toList
  rw [bytes] at text
  exact String.toList_inj.mp (Option.some.inj text).symm

theorem joinNames_filled {names : List String} (filled : names ≠ []) (named : names ≠ [""]) : joinNames names ≠ [] := by
  intro empty
  have parts := splitOn_joinNames filled
  rw [empty] at parts
  have single : names.map (fun name => encodeEntryName name.toList) = [[]] := parts.symm
  obtain ⟨name, rfl⟩ : ∃ name, names = [name] := List.length_eq_one_iff.mp (by simpa using congrArg List.length single)
  have nameless : encodeEntryName name.toList = [] := by simpa using single
  rw [encodeEntryName_eq_nil nameless] at named
  exact named rfl

theorem parseEntriesHeader_joined {entries : List String} (filled : entries ≠ [])
    (plain : ∀ entry ∈ entries, entry ≠ "" ∧ '%' ∉ entry.toList) :
    parseEntriesHeader (joinNames entries) = .ok (entries.map String.toList) := by
  have named : entries ≠ [""] := by
    rintro rfl
    exact (plain "" List.mem_cons_self).1 rfl
  rw [parseEntriesHeader, trim_joinNames, if_neg (joinNames_filled filled named), splitOn_joinNames filled,
    List.mapM_map]
  rw [mapM_eq_ok, List.forall₂_map_right_iff, List.forall₂_same]
  intro entry member
  obtain ⟨named, clear⟩ := plain entry member
  rw [Function.comp_apply, trim_names (nameChar_encoded _), if_neg fun empty => named (encodeEntryName_eq_nil empty),
    decodeEntryName_encoded clear]

end Headers

def responseOrder (entries : List String) (records : List RecordMeta) : List RecordMeta :=
  records.insertionSort fun first second =>
    entries.idxOf first.entryName < entries.idxOf second.entryName ∨
      entries.idxOf first.entryName = entries.idxOf second.entryName ∧ first.timestamp ≤ second.timestamp

end DeltaHeader

end ReductStore
