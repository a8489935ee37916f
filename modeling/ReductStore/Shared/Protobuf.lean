import Mathlib

set_option autoImplicit false

namespace ReductStore.Protobuf

def varint : Nat → Nat → List UInt8
  | 0, _ => []
  | fuel + 1, value =>
    if value < 128 then [UInt8.ofNat value] else UInt8.ofNat (value % 128 + 128) :: varint fuel (value / 128)

-- a 64-bit value takes at most ten bytes
def encodeVarint (value : Nat) : List UInt8 := varint 10 value

def decodeVarint : List UInt8 → Option (Nat × List UInt8)
  | [] => none
  | byte :: rest =>
    if byte.toNat < 128 then some (byte.toNat, rest)
    else (decodeVarint rest).map (fun decoded => (byte.toNat % 128 + 128 * decoded.1, decoded.2))

section Varint

theorem length_varint (fuel value : Nat) : (varint fuel value).length ≤ fuel := by
  induction fuel generalizing value with
  | zero => simp [varint]
  | succ fuel ih =>
    rw [varint]
    split
    · simp
    · simpa using ih (value / 128)

theorem decodeVarint_small (value : Nat) (small : value < 128) (rest : List UInt8) :
    decodeVarint (UInt8.ofNat value :: rest) = some (value, rest) := by
  have byte : (UInt8.ofNat value).toNat = value := by
    rw [UInt8.toNat_ofNat']
    omega
  simp only [decodeVarint, byte, small, if_true]

theorem decodeVarint_varint (fuel value : Nat) (fits : value < 128 ^ (fuel + 1)) (rest : List UInt8) :
    decodeVarint (varint (fuel + 1) value ++ rest) = some (value, rest) := by
  induction fuel generalizing value with
  | zero =>
    rw [varint, if_pos (by omega)]
    exact decodeVarint_small value (by omega) rest
  | succ fuel ih =>
    rw [varint]
    split
    · exact decodeVarint_small value (by omega) rest
    · have byte : (UInt8.ofNat (value % 128 + 128)).toNat = value % 128 + 128 := by
        rw [UInt8.toNat_ofNat']
        omega
      have shifted : value / 128 < 128 ^ (fuel + 1) := by
        rw [Nat.pow_succ] at fits
        omega
      have continued : ¬ value % 128 + 128 < 128 := by omega
      simp only [List.cons_append, decodeVarint, byte, ih _ shifted, Option.map_some, continued, if_false]
      congr 2
      omega

theorem encodeVarint_ne_nil (value : Nat) : encodeVarint value ≠ [] := by
  unfold encodeVarint varint
  split <;> simp

theorem decodeVarint_encode (value : Nat) (fits : value < 2 ^ 64) (rest : List UInt8) :
    decodeVarint (encodeVarint value ++ rest) = some (value, rest) :=
  decodeVarint_varint 9 value (by omega) rest

theorem decodeVarint_cut (fuel value : Nat) (bytes : List UInt8) (part : bytes <+: varint fuel value)
    (proper : bytes ≠ varint fuel value) : decodeVarint bytes = none := by
  induction fuel generalizing value bytes with
  | zero =>
    rw [varint] at part proper
    exact absurd (List.prefix_nil.mp part) proper
  | succ fuel ih =>
    cases bytes with
    | nil => rfl
    | cons byte rest =>
      rw [varint] at part proper
      split at part
      · rename_i small
        obtain ⟨rfl, tail⟩ := List.cons_prefix_cons.mp part
        rw [if_pos small, List.prefix_nil.mp tail] at proper
        exact absurd rfl proper
      · rename_i large
        obtain ⟨rfl, tail⟩ := List.cons_prefix_cons.mp part
        rw [if_neg large] at proper
        have continued : (UInt8.ofNat (value % 128 + 128)).toNat = value % 128 + 128 := by
          rw [UInt8.toNat_ofNat']
          omega
        have missing := ih (value / 128) rest tail (fun same => proper (by rw [same]))
        rw [decodeVarint, continued, if_neg (by omega), missing, Option.map_none]

end Varint

def varintField (number value : Nat) : List UInt8 := encodeVarint (number * 8) ++ encodeVarint value

def bytesField (number : Nat) (bytes : List UInt8) : List UInt8 :=
  encodeVarint (number * 8 + 2) ++ encodeVarint bytes.length ++ bytes

-- a scalar with its default value is left out
def scalarField (number value : Nat) : List UInt8 := if value = 0 then [] else varintField number value

def stringField (number : Nat) (value : String) : List UInt8 :=
  if value = "" then [] else bytesField number value.toUTF8.toList

inductive Value where
  | scalar (value : Nat)
  | bytes (value : List UInt8)
  deriving DecidableEq

def decodeFields : Nat → List UInt8 → Option (List (Nat × Value))
  | 0, bytes => if bytes = [] then some [] else none
  | fuel + 1, bytes =>
    if bytes = [] then some []
    else do
      let (tag, rest) ← decodeVarint bytes
      let (value, rest) ← decodeVarint rest
      if tag % 8 = 0 then
        let fields ← decodeFields fuel rest
        pure ((tag / 8, .scalar value) :: fields)
      else if tag % 8 = 2 ∧ value ≤ rest.length then
        let fields ← decodeFields fuel (rest.drop value)
        pure ((tag / 8, .bytes (rest.take value)) :: fields)
      else none

def fields (bytes : List UInt8) : Option (List (Nat × Value)) := decodeFields bytes.length bytes

def scalarOf (found : List (Nat × Value)) (number : Nat) : Nat :=
  found.foldl (fun last field =>
    match field with
    | (key, .scalar value) => if key = number then value else last
    | (_, .bytes _) => last) 0

def stringOf (found : List (Nat × Value)) (number : Nat) : Option String :=
  found.foldl (fun last field =>
    match field with
    | (key, .bytes value) => if key = number then String.fromUTF8? value.toByteArray else last
    | (_, .scalar _) => last) (some "")

def messagesOf (found : List (Nat × Value)) (number : Nat) : List (List UInt8) :=
  found.filterMap (fun field =>
    match field with
    | (key, .bytes value) => if key = number then some value else none
    | (_, .scalar _) => none)

section Truncation

def encodeField : Nat × Value → List UInt8
  | (number, .scalar value) => varintField number value
  | (number, .bytes value) => bytesField number value

def encodeFields (fields : List (Nat × Value)) : List UInt8 := fields.flatMap encodeField

def Fits : Nat × Value → Prop
  | (number, .scalar value) => number < 2 ^ 29 ∧ value < 2 ^ 64
  | (number, .bytes value) => number < 2 ^ 29 ∧ value.length < 2 ^ 64

theorem length_encodeField (field : Nat × Value) : 0 < (encodeField field).length := by
  have key (tag : Nat) : 0 < (encodeVarint tag).length := List.length_pos_iff.mpr (encodeVarint_ne_nil tag)
  obtain ⟨number, value⟩ := field
  cases value with
  | scalar value => simp [encodeField, varintField, key]
  | bytes value => simp [encodeField, bytesField, key]

theorem decodeFields_encodeField (field : Nat × Value) (fits : Fits field) (fuel : Nat) (rest : List UInt8) :
    decodeFields (fuel + 1) (encodeField field ++ rest) = (decodeFields fuel rest).map (field :: ·) := by
  have nonempty (tag : Nat) (more : List UInt8) : encodeVarint tag ++ more ≠ [] := fun empty =>
    encodeVarint_ne_nil tag (List.append_eq_nil_iff.mp empty).1
  obtain ⟨number, value⟩ := field
  cases value with
  | scalar value =>
    have kind : number * 8 % 8 = 0 := by omega
    have name : number * 8 / 8 = number := by omega
    simp only [encodeField, varintField, List.append_assoc, decodeFields, nonempty, if_false,
      decodeVarint_encode (number * 8) (by have := fits.1; omega), decodeVarint_encode value fits.2,
      Option.bind_eq_bind, Option.bind_some, kind, if_true, name]
    cases decodeFields fuel rest <;> rfl
  | bytes value =>
    have kind : (number * 8 + 2) % 8 = 2 := by omega
    have name : (number * 8 + 2) / 8 = number := by omega
    simp only [encodeField, bytesField, List.append_assoc, decodeFields, nonempty, if_false,
      decodeVarint_encode (number * 8 + 2) (by have := fits.1; omega), decodeVarint_encode value.length fits.2,
      Option.bind_eq_bind, Option.bind_some, kind, name]
    simp
    cases decodeFields fuel rest <;> rfl

theorem decodeFields_nil (fuel : Nat) : decodeFields fuel [] = some [] := by
  cases fuel <;> rfl

theorem decodeFields_encodeFields (fields : List (Nat × Value)) (fits : ∀ field ∈ fields, Fits field) (fuel : Nat)
    (enough : (encodeFields fields).length ≤ fuel) : decodeFields fuel (encodeFields fields) = some fields := by
  induction fields generalizing fuel with
  | nil => exact decodeFields_nil fuel
  | cons field rest ih =>
    have taken := length_encodeField field
    rw [encodeFields, List.flatMap_cons, List.length_append] at enough
    obtain ⟨fuel, rfl⟩ : ∃ less, fuel = less + 1 := ⟨fuel - 1, by omega⟩
    have decoded := ih (fun other member => fits other (List.mem_cons_of_mem _ member)) fuel
      (by rw [encodeFields]; omega)
    rw [encodeFields, List.flatMap_cons, decodeFields_encodeField field (fits field (by simp))]
    rw [encodeFields] at decoded
    rw [decoded, Option.map_some]

theorem fields_encodeFields (fields : List (Nat × Value)) (fits : ∀ field ∈ fields, Fits field) :
    Protobuf.fields (encodeFields fields) = some fields :=
  decodeFields_encodeFields fields fits _ le_rfl

theorem prefix_append_split {α : Type} {part first second : List α} (short : part <+: first ++ second) :
    (part <+: first ∧ part ≠ first) ∨ ∃ rest, part = first ++ rest ∧ rest <+: second := by
  rcases List.prefix_or_prefix_of_prefix short (List.prefix_append first second) with inside | ⟨rest, rfl⟩
  · by_cases whole : part = first
    · exact Or.inr ⟨[], by simp [whole], List.nil_prefix⟩
    · exact Or.inl ⟨inside, whole⟩
  · exact Or.inr ⟨rest, rfl, (List.prefix_append_right_inj first).mp short⟩

theorem decodeFields_cutField (field : Nat × Value) (fits : Fits field) (bytes : List UInt8)
    (part : bytes <+: encodeField field) (proper : bytes ≠ encodeField field) (begun : bytes ≠ []) (fuel : Nat) :
    decodeFields fuel bytes = none := by
  cases fuel with
  | zero => simp [decodeFields, begun]
  | succ fuel =>
    have untagged (missing : decodeVarint bytes = none) : decodeFields (fuel + 1) bytes = none := by
      simp [decodeFields, begun, missing]
    have unvalued (tag : Nat) (rest : List UInt8) (key : decodeVarint bytes = some (tag, rest))
        (missing : decodeVarint rest = none) : decodeFields (fuel + 1) bytes = none := by
      simp [decodeFields, begun, key, missing]
    obtain ⟨number, value⟩ := field
    cases value with
    | scalar value =>
      rcases prefix_append_split part with ⟨inside, strict⟩ | ⟨rest, rfl, short⟩
      · exact untagged (decodeVarint_cut 10 _ bytes inside strict)
      · have key := decodeVarint_encode (number * 8) (by have := fits.1; omega) rest
        refine unvalued _ rest key (decodeVarint_cut 10 value rest short fun whole => proper ?_)
        rw [whole]
        rfl
    | bytes value =>
      rw [encodeField, bytesField, List.append_assoc] at part proper
      rcases prefix_append_split part with ⟨inside, strict⟩ | ⟨rest, rfl, short⟩
      · exact untagged (decodeVarint_cut 10 _ bytes inside strict)
      · have key := decodeVarint_encode (number * 8 + 2) (by have := fits.1; omega) rest
        rcases prefix_append_split short with ⟨inside, strict⟩ | ⟨content, rfl, cut⟩
        · exact unvalued _ rest key (decodeVarint_cut 10 _ rest inside strict)
        · have length := decodeVarint_encode value.length fits.2 content
          have shorter : ¬ value.length ≤ content.length := fun enough =>
            proper (by rw [cut.eq_of_length_le enough])
          have kind : (number * 8 + 2) % 8 = 2 := by omega
          simp [decodeFields, begun, key, length, kind, shorter]

theorem decodeFields_cut (fields : List (Nat × Value)) (fits : ∀ field ∈ fields, Fits field) (bytes : List UInt8)
    (part : bytes <+: encodeFields fields) (fuel : Nat) (enough : bytes.length ≤ fuel) :
    decodeFields fuel bytes = none ∨
      ∃ count, bytes = encodeFields (fields.take count) ∧ decodeFields fuel bytes = some (fields.take count) := by
  induction fields generalizing bytes fuel with
  | nil =>
    obtain rfl := List.prefix_nil.mp part
    exact Or.inr ⟨0, rfl, decodeFields_nil fuel⟩
  | cons field rest ih =>
    by_cases begun : bytes = []
    · subst begun
      exact Or.inr ⟨0, rfl, decodeFields_nil fuel⟩
    · rw [encodeFields, List.flatMap_cons] at part
      rcases prefix_append_split part with ⟨inside, strict⟩ | ⟨more, rfl, short⟩
      · exact Or.inl (decodeFields_cutField field (fits field (by simp)) bytes inside strict begun fuel)
      · have taken := length_encodeField field
        rw [List.length_append] at enough
        obtain ⟨fuel, rfl⟩ : ∃ less, fuel = less + 1 := ⟨fuel - 1, by omega⟩
        rw [decodeFields_encodeField field (fits field (by simp))]
        rcases ih (fun other member => fits other (List.mem_cons_of_mem _ member)) more short fuel (by omega) with
          none | ⟨count, whole, decoded⟩
        · exact Or.inl (by rw [none, Option.map_none])
        · refine Or.inr ⟨count + 1, ?_, by rw [decoded, Option.map_some, List.take_succ_cons]⟩
          rw [whole, List.take_succ_cons, encodeFields, encodeFields, List.flatMap_cons]

theorem fields_cut (fields : List (Nat × Value)) (fits : ∀ field ∈ fields, Fits field) (bytes : List UInt8)
    (part : bytes <+: encodeFields fields) :
    Protobuf.fields bytes = none ∨
      ∃ count, bytes = encodeFields (fields.take count) ∧ Protobuf.fields bytes = some (fields.take count) :=
  decodeFields_cut fields fits bytes part bytes.length le_rfl

end Truncation

end ReductStore.Protobuf
