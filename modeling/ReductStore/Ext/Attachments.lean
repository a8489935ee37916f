import Mathlib
import ReductStore.Storage.Record
import ReductStore.Storage.EntryPattern
import ReductStore.Storage.EntrySelection

set_option autoImplicit false

namespace ReductStore

open EntryPattern

structure MetaRecord (Json : Type) where
  key : Option (List Char)
  content : Except ReductError (Except String Json)

structure ExtBucket (Json : Type) where
  entries : List (List Char)
  received : List Char → List (Except ReductError (MetaRecord Json))
  named : ∀ name ∈ entries, checkEntryNameConvention name = .ok ()

namespace ExtRepository

variable {Json : Type}

def maxMetaAttachments : Nat := 100

def insertKey (entryMap : List (List Char × Json)) (key : List Char) (value : Json) : List (List Char × Json) :=
  entryMap.filter (·.1 ≠ key) ++ [(key, value)]

def collectMetaAttachments (bucketName metaName : List Char) :
    Nat → List (List Char × Json) → List (Except ReductError (MetaRecord Json)) →
      Except ReductError (List (List Char × Json))
  | _, entryMap, [] => .ok entryMap
  | _, entryMap, .error failure :: _ => if failure.status = .noContent then .ok entryMap else .error failure
  | recordsRead, entryMap, .ok record :: items =>
    let key := record.key.getD []
    if key.isEmpty then collectMetaAttachments bucketName metaName recordsRead entryMap items
    else if maxMetaAttachments < recordsRead + 1 then
      .error (unprocessableEntity ("Too many meta attachments in '" ++ String.ofList bucketName ++ "/" ++
        String.ofList metaName ++ "': maximum " ++ toString maxMetaAttachments ++ " records are supported"))
    else
      match record.content with
      | .error failure => .error failure
      | .ok (.error reason) =>
        .error (unprocessableEntity ("Meta attachment '" ++ String.ofList key ++ "' in '" ++ String.ofList bucketName ++
          "/" ++ String.ofList metaName ++ "' must be valid JSON: " ++ reason))
      | .ok (.ok parsed) =>
        collectMetaAttachments bucketName metaName (recordsRead + 1) (insertKey entryMap key parsed) items

def matchesPattern (patterns : List (List Char)) (entry : List Char) : Bool :=
  if patterns.any (· = ['*']) then true
  else
    patterns.any fun pattern =>
      if pattern.getLast? = some '*' then pattern.dropLast.isPrefixOf entry else entry = pattern

def attachEntries (bucketName : List Char) (bucket : ExtBucket Json) (patterns : List (List Char)) :
    List (List Char) → List (List Char × List (List Char × Json)) →
      Except ReductError (List (List Char × List (List Char × Json)))
  | [], attachments => .ok attachments
  | entry :: entries, attachments =>
    if isSystemMetaEntry entry || ! matchesPattern patterns entry then
      attachEntries bucketName bucket patterns entries attachments
    else if metaEntryName entry ∉ bucket.entries then attachEntries bucketName bucket patterns entries attachments
    else
      match collectMetaAttachments bucketName (metaEntryName entry) 0 [] (bucket.received (metaEntryName entry)) with
      | .error failure => .error failure
      | .ok entryMap =>
        if entryMap.isEmpty then attachEntries bucketName bucket patterns entries attachments
        else attachEntries bucketName bucket patterns entries (attachments ++ [(entry, entryMap)])

def getExtAttachments (bucketName : List Char) (bucket : ExtBucket Json) (entryName : List Char)
    (requested : Option (List (List Char))) :
    Except ReductError (Option (List (List Char × List (List Char × Json)))) := do
  let patterns := match requested with
    | some entries => entries
    | none => if ! entryName.isEmpty then [entryName] else []
  if patterns.isEmpty then .ok none
  else
    -- the bucket's information lists the visible entries only
    let visible := bucket.entries.filter (! isSystemMetaEntry ·)
    let attachments ← attachEntries bucketName bucket patterns visible []
    if attachments.isEmpty then .ok none else .ok (some attachments)

section Collect

variable {bucketName metaName : List Char}

def live : List (Except ReductError (MetaRecord Json)) → List (MetaRecord Json)
  | .ok record :: items => record :: live items
  | _ => []

def Keyed (record : MetaRecord Json) : Prop := record.key.getD [] ≠ []

instance (record : MetaRecord Json) : Decidable (Keyed record) := inferInstanceAs (Decidable (_ ≠ _))

def keyedCount (items : List (Except ReductError (MetaRecord Json))) : Nat := (live items).countP (Keyed ·)

structure Loadable (recordsRead : Nat) (items : List (Except ReductError (MetaRecord Json))) : Prop where
  parsed : ∀ record ∈ live items, Keyed record → ∃ value, record.content = .ok (.ok value)
  few : recordsRead + keyedCount items ≤ maxMetaAttachments
  ended : ∀ failure, items[(live items).length]? = some (.error failure) → failure.status = .noContent

variable {bucketName metaName : List Char} {recordsRead : Nat} {record : MetaRecord Json}
  {items : List (Except ReductError (MetaRecord Json))} {entryMap result : List (List Char × Json)}

theorem keyedCount_cons : keyedCount (.ok record :: items) = keyedCount items + if Keyed record then 1 else 0 := by
  simp [keyedCount, live, List.countP_cons]

theorem loadable_nil : Loadable recordsRead ([] : List (Except ReductError (MetaRecord Json))) ↔
    recordsRead ≤ maxMetaAttachments :=
  ⟨fun loads => loads.few, fun few => ⟨by simp [live], few, by simp⟩⟩

theorem loadable_error {failure : ReductError} : Loadable recordsRead (.error failure :: items) ↔
    recordsRead ≤ maxMetaAttachments ∧ failure.status = .noContent := by
  constructor
  · intro loads
    exact ⟨loads.few, loads.ended failure rfl⟩
  · rintro ⟨few, ended⟩
    exact ⟨by simp [live], few, by simp [live, ended]⟩

theorem loadable_keyless (keyless : ¬ Keyed record) :
    Loadable recordsRead (.ok record :: items) ↔ Loadable recordsRead items := by
  constructor
  · rintro ⟨parsed, few, ended⟩
    rw [keyedCount_cons, if_neg keyless] at few
    exact ⟨fun other member => parsed other (List.mem_cons_of_mem _ member), few, ended⟩
  · rintro ⟨parsed, few, ended⟩
    refine ⟨List.forall_mem_cons.mpr ⟨fun keyed => absurd keyed keyless, parsed⟩, ?_, ended⟩
    rwa [keyedCount_cons, if_neg keyless]

theorem loadable_keyed (keyed : Keyed record) :
    Loadable recordsRead (.ok record :: items) ↔
      (∃ value, record.content = .ok (.ok value)) ∧ Loadable (recordsRead + 1) items := by
  constructor
  · rintro ⟨parsed, few, ended⟩
    rw [keyedCount_cons, if_pos keyed] at few
    exact ⟨parsed record List.mem_cons_self keyed, fun other member => parsed other (List.mem_cons_of_mem _ member),
      by omega, ended⟩
  · rintro ⟨valid, parsed, few, ended⟩
    refine ⟨List.forall_mem_cons.mpr ⟨fun _ => valid, parsed⟩, ?_, ended⟩
    rw [keyedCount_cons, if_pos keyed]
    omega

theorem collect_ok_iff (few : recordsRead ≤ maxMetaAttachments) :
    (∃ result, collectMetaAttachments bucketName metaName recordsRead entryMap items = .ok result) ↔
      Loadable recordsRead items := by
  induction items generalizing recordsRead entryMap with
  | nil => exact iff_of_true ⟨entryMap, rfl⟩ (loadable_nil.mpr few)
  | cons item items ih =>
    cases item with
    | error failure =>
      rw [collectMetaAttachments, loadable_error]
      by_cases ended : failure.status = .noContent <;> simp [ended, few]
    | ok record =>
      rw [collectMetaAttachments]
      by_cases keyed : Keyed record
      · rw [if_neg (by simpa [Keyed] using keyed), loadable_keyed keyed]
        split_ifs with many
        · refine iff_of_false (by simp) fun loads => ?_
          have := loads.2.few
          omega
        · cases content : record.content with
          | error failure => simp
          | ok read =>
            cases read with
            | error reason => simp
            | ok value => simpa using ih (by omega)
      · rw [if_pos (by simpa [Keyed] using keyed), loadable_keyless keyed, ih few]

theorem collect_empty_iff
    (collected : collectMetaAttachments bucketName metaName recordsRead entryMap items = .ok result) :
    result = [] ↔ entryMap = [] ∧ ∀ record ∈ live items, ¬ Keyed record := by
  induction items generalizing recordsRead entryMap with
  | nil =>
    obtain rfl := Except.ok.inj collected
    simp [live]
  | cons item items ih =>
    cases item with
    | error failure =>
      rw [collectMetaAttachments] at collected
      split_ifs at collected
      obtain rfl := Except.ok.inj collected
      simp [live]
    | ok record =>
      rw [collectMetaAttachments] at collected
      by_cases keyed : Keyed record
      · rw [if_neg (by simpa [Keyed] using keyed)] at collected
        split_ifs at collected
        split at collected
        · cases collected
        · cases collected
        · -- the map has a key from here on
          rw [ih collected]
          simp [insertKey, live, keyed]
      · rw [if_pos (by simpa [Keyed] using keyed)] at collected
        rw [ih collected, live, List.forall_mem_cons]
        simp [keyed]

end Collect

section Attach

variable {bucketName entry : List Char} {bucket : ExtBucket Json} {patterns entries : List (List Char)}
  {attachments : List (List Char × List (List Char × Json))}

def visits (bucket : ExtBucket Json) (patterns : List (List Char)) (entry : List Char) : Bool :=
  ! isSystemMetaEntry entry && matchesPattern patterns entry && metaEntryName entry ∈ bucket.entries

def attached (bucketName : List Char) (bucket : ExtBucket Json) (patterns : List (List Char)) (entry : List Char) :
    Option (List Char × List (List Char × Json)) :=
  if visits bucket patterns entry then
    match collectMetaAttachments bucketName (metaEntryName entry) 0 [] (bucket.received (metaEntryName entry)) with
    | .error _ => none
    | .ok entryMap => if entryMap.isEmpty then none else some (entry, entryMap)
  else none

theorem attachEntries_cons :
    attachEntries bucketName bucket patterns (entry :: entries) attachments =
      if visits bucket patterns entry then
        match collectMetaAttachments bucketName (metaEntryName entry) 0 [] (bucket.received (metaEntryName entry)) with
        | .error failure => .error failure
        | .ok _ =>
          attachEntries bucketName bucket patterns entries
            (attachments ++ (attached bucketName bucket patterns entry).toList)
      else attachEntries bucketName bucket patterns entries attachments := by
  rw [attachEntries]
  by_cases system : isSystemMetaEntry entry = true
  · simp [visits, system]
  by_cases reached : matchesPattern patterns entry = true
  swap
  · simp [visits, reached]
  by_cases present : metaEntryName entry ∈ bucket.entries
  swap
  · simp [visits, present]
  have visited : visits bucket patterns entry = true := by simp [visits, system, reached, present]
  rw [if_neg (by simp [system, reached]), if_neg (not_not.mpr present), if_pos visited]
  cases collected : collectMetaAttachments bucketName (metaEntryName entry) 0 [] (bucket.received (metaEntryName entry)) with
  | error failure => rfl
  | ok entryMap =>
    by_cases empty : entryMap = [] <;> simp [attached, visited, collected, empty]

theorem attachEntries_ok (loads : ∀ entry ∈ entries, visits bucket patterns entry = true →
      Loadable 0 (bucket.received (metaEntryName entry))) :
    attachEntries bucketName bucket patterns entries attachments =
      .ok (attachments ++ entries.filterMap (attached bucketName bucket patterns)) := by
  induction entries generalizing attachments with
  | nil => simp [attachEntries]
  | cons entry entries ih =>
    rw [List.forall_mem_cons] at loads
    rw [attachEntries_cons]
    by_cases visited : visits bucket patterns entry = true
    · obtain ⟨entryMap, collected⟩ :=
        (collect_ok_iff (Nat.zero_le _)).mpr (loads.1 visited)
      rw [if_pos visited, collected]
      dsimp only
      rw [ih loads.2, List.append_assoc]
      cases found : attached bucketName bucket patterns entry <;> simp [found]
    · rw [if_neg visited, ih loads.2]
      simp [attached, visited]

theorem attachEntries_error {failing : List Char} (member : failing ∈ entries)
    (visited : visits bucket patterns failing = true) (fails : ¬ Loadable 0 (bucket.received (metaEntryName failing))) :
    ∃ failure, attachEntries bucketName bucket patterns entries attachments = .error failure := by
  induction entries generalizing attachments with
  | nil => cases member
  | cons entry entries ih =>
    rw [attachEntries_cons]
    rcases List.mem_cons.mp member with rfl | later
    · rw [if_pos visited]
      cases collected : collectMetaAttachments bucketName (metaEntryName failing) 0 []
          (bucket.received (metaEntryName failing)) with
      | error failure => exact ⟨failure, rfl⟩
      | ok entryMap => exact absurd ((collect_ok_iff (Nat.zero_le _)).mp ⟨entryMap, collected⟩) fails
    · split_ifs
      · split
        · exact ⟨_, rfl⟩
        · exact ih later
      · exact ih later

end Attach

section Selection

variable {patterns : List (List Char)} {entry : List Char}

def Named (patterns : List (List Char)) (entry : List Char) : Prop :=
  entry ∈ patterns ∨ ∃ init more, init ++ ['*'] ∈ patterns ∧ entry = init ++ more ∧ ('/' ∉ init ∨ '/' ∉ more)

def Overreached (patterns : List (List Char)) (entry : List Char) : Prop :=
  ∃ init more, init ++ ['*'] ∈ patterns ∧ entry = init ++ more ∧ '/' ∈ init ∧ '/' ∈ more

def Plain (pattern : List Char) : Prop := pattern.head? ≠ some '/' ∧ '*' ∉ pattern.dropLast

def MatchedByForm (patterns : List (List Char)) (entry : List Char) : Prop :=
  ∃ pattern ∈ includePatterns patterns, ¬ Plain pattern ∧ entryMatchesPattern entry pattern = true

def Excluded (patterns : List (List Char)) (entry : List Char) : Prop :=
  ∃ pattern ∈ excludePatterns patterns, entryMatchesPattern entry pattern = true

theorem reaches_iff (name_ok : RegularName entry) (pattern : List Char) :
    (if pattern.getLast? = some '*' then pattern.dropLast.isPrefixOf entry else decide (entry = pattern)) = true ↔
      pattern = entry ∨ ∃ init more, pattern = init ++ ['*'] ∧ entry = init ++ more := by
  by_cases starred : pattern.getLast? = some '*'
  · obtain ⟨init, rfl⟩ := List.getLast?_eq_some_iff.mp starred
    have other : init ++ ['*'] ≠ entry := by
      rintro rfl
      exact name_ok.no_star (by simp)
    rw [if_pos starred, List.dropLast_concat, List.isPrefixOf_iff_prefix]
    constructor
    · rintro ⟨more, rfl⟩
      exact Or.inr ⟨init, more, rfl, rfl⟩
    · rintro (same | ⟨init', more, whole, rfl⟩)
      · exact absurd same other
      · obtain rfl := List.append_cancel_right whole
        exact List.prefix_append _ _
  · rw [if_neg starred, decide_eq_true_eq]
    constructor
    · exact fun same => Or.inl same.symm
    · rintro (same | ⟨init, more, rfl, _⟩)
      · exact same.symm
      · simp at starred

theorem matchesPattern_iff (name_ok : RegularName entry) :
    matchesPattern patterns entry = true ↔ Named patterns entry ∨ Overreached patterns entry := by
  have reached : matchesPattern patterns entry = true ↔
      entry ∈ patterns ∨ ∃ init more, init ++ ['*'] ∈ patterns ∧ entry = init ++ more := by
    rw [matchesPattern]
    by_cases all : ['*'] ∈ patterns
    · rw [if_pos (List.any_eq_true.mpr ⟨_, all, by simp⟩)]
      exact iff_of_true rfl (Or.inr ⟨[], entry, all, rfl⟩)
    · rw [if_neg (by simpa using all), List.any_eq_true]
      simp only [reaches_iff name_ok]
      constructor
      · rintro ⟨pattern, member, rfl | ⟨init, more, rfl, whole⟩⟩
        · exact Or.inl member
        · exact Or.inr ⟨init, more, member, whole⟩
      · rintro (member | ⟨init, more, member, whole⟩)
        · exact ⟨entry, member, Or.inl rfl⟩
        · exact ⟨_, member, Or.inr ⟨init, more, rfl, whole⟩⟩
  rw [reached, Named, Overreached, or_assoc, ← exists_or]
  refine or_congr_right (exists_congr fun init => ?_)
  rw [← exists_or]
  refine exists_congr fun more => ?_
  tauto

theorem mem_includePatterns {pattern : List Char} :
    pattern ∈ includePatterns patterns ↔ pattern ∈ patterns ∧ (pattern.head? = some '!' → pattern.length ≤ 1) := by
  simp [includePatterns, imp_iff_not_or]

-- No entry name has an exclamation mark, so an excluding pattern never reads as one of them.
theorem included_of_named {init more : List Char} (name_ok : RegularName entry) (member : init ++ ['*'] ∈ patterns)
    (whole : entry = init ++ more) : init ++ ['*'] ∈ includePatterns patterns := by
  refine mem_includePatterns.mpr ⟨member, fun marked => ?_⟩
  cases init with
  | nil => simp at marked
  | cons first init =>
    obtain rfl : first = '!' := by simpa using marked
    exact absurd (name_ok.chars '!' (by simp [whole])) (by decide)

theorem included_of_mem (name_ok : RegularName entry) (member : entry ∈ patterns) : entry ∈ includePatterns patterns := by
  refine mem_includePatterns.mpr ⟨member, fun marked => ?_⟩
  exact absurd (name_ok.chars '!' (List.mem_of_mem_head? marked)) (by decide)

theorem matches_init {init more : List Char} (name_ok : RegularName entry) (whole : entry = init ++ more)
    (inside : '/' ∉ init ∨ '/' ∉ more) : entryMatchesPattern entry (init ++ ['*']) = true := by
  have clear : '*' ∉ init := fun member => name_ok.no_star (by simp [whole, member])
  have front : init.head? ≠ some '/' := by
    cases init with
    | nil => simp
    | cons first init => simpa [whole] using name_ok.front
  by_cases deep : '/' ∈ init
  · exact (matches_last_star clear front deep).mpr ⟨more, whole, inside.resolve_left (not_not.mpr deep)⟩
  · exact (matches_flat_star deep).mpr ⟨more, whole.symm⟩

theorem named_of_matches {pattern : List Char} (member : pattern ∈ patterns)
    (plain : Plain pattern) (matched : entryMatchesPattern entry pattern = true) : Named patterns entry := by
  by_cases starred : '*' ∈ pattern
  · -- the only star stands at the end
    obtain ⟨init, rfl⟩ : ∃ init, pattern = init ++ ['*'] := by
      rcases List.eq_nil_or_concat pattern with rfl | ⟨init, last, rfl⟩
      · cases starred
      · have clear : '*' ∉ init := by simpa using plain.2
        obtain rfl : '*' = last := by simpa [clear] using starred
        exact ⟨init, List.concat_eq_append⟩
    have clear : '*' ∉ init := by simpa using plain.2
    have front : init.head? ≠ some '/' := by
      cases init with
      | nil => simp
      | cons first init => simpa using plain.1
    by_cases deep : '/' ∈ init
    · obtain ⟨more, whole, inside⟩ := (matches_last_star clear front deep).mp matched
      exact Or.inr ⟨init, more, member, whole, Or.inr inside⟩
    · obtain ⟨more, whole⟩ := (matches_flat_star deep).mp matched
      exact Or.inr ⟨init, more, member, whole.symm, Or.inl deep⟩
  · obtain rfl : entry = pattern := by
      simpa [entryMatchesPattern, trimSlashes_eq_self plain.1, starred] using matched
    exact Or.inl member

theorem any_includes_iff (name_ok : RegularName entry) :
    (∃ pattern ∈ includePatterns patterns, entryMatchesPattern entry pattern = true) ↔
      Named patterns entry ∨ MatchedByForm patterns entry := by
  constructor
  · rintro ⟨pattern, member, matched⟩
    by_cases plain : Plain pattern
    · exact Or.inl (named_of_matches (mem_includePatterns.mp member).1 plain matched)
    · exact Or.inr ⟨pattern, member, plain, matched⟩
  · rintro ((member | ⟨init, more, member, whole, inside⟩) | ⟨pattern, member, _, matched⟩)
    · exact ⟨entry, included_of_mem name_ok member, name_ok.matches_self⟩
    · exact ⟨_, included_of_named name_ok member whole, matches_init name_ok whole inside⟩
    · exact ⟨pattern, member, matched⟩

theorem entryMatchesPatterns_iff (name_ok : RegularName entry) :
    Bucket.entryMatchesPatterns entry patterns = true ↔
      (includePatterns patterns = [] ∨ Named patterns entry ∨ MatchedByForm patterns entry) ∧
        ¬ Excluded patterns entry := by
  rw [← any_includes_iff name_ok, Excluded]
  simp [Bucket.entryMatchesPatterns]

theorem none_of_no_includes (name_ok : RegularName entry) (none_included : includePatterns patterns = []) :
    ¬ Named patterns entry ∧ ¬ Overreached patterns entry := by
  refine ⟨?_, ?_⟩
  · rintro (member | ⟨init, more, member, whole, _⟩)
    · exact absurd (included_of_mem name_ok member) (by simp [none_included])
    · exact absurd (included_of_named name_ok member whole) (by simp [none_included])
  · rintro ⟨init, more, member, whole, _⟩
    exact absurd (included_of_named name_ok member whole) (by simp [none_included])

structure Consistent (patterns : List (List Char)) (entry : List Char) : Prop where
  excluded : Excluded patterns entry → ¬ Named patterns entry ∧ ¬ Overreached patterns entry
  others : ¬ Excluded patterns entry → ¬ Named patterns entry →
    includePatterns patterns ≠ [] ∧ (Overreached patterns entry ↔ MatchedByForm patterns entry)

theorem consistent_iff (name_ok : RegularName entry) :
    (matchesPattern patterns entry = true ↔ Bucket.entryMatchesPatterns entry patterns = true) ↔
      Consistent patterns entry := by
  have alone : includePatterns patterns = [] → _ := none_of_no_includes name_ok
  rw [matchesPattern_iff name_ok, entryMatchesPatterns_iff name_ok]
  constructor
  · exact fun agree => ⟨by tauto, by tauto⟩
  · rintro ⟨excluded, others⟩
    tauto

end Selection

section Includes

variable {bucketName entryName entry : List Char} {bucket : ExtBucket Json} {patterns : List (List Char)}

def Includes (result : Except ReductError (Option (List (List Char × List (List Char × Json))))) (entry : List Char) :
    Prop :=
  ∃ attachments, result = .ok (some attachments) ∧ entry ∈ attachments.map Prod.fst

structure Loads (bucket : ExtBucket Json) (patterns : List (List Char)) (entry : List Char) : Prop where
  reached : ∀ other ∈ bucket.entries, isSystemMetaEntry other = false → metaEntryName other ∈ bucket.entries →
    Named patterns other ∨ Overreached patterns other → Loadable 0 (bucket.received (metaEntryName other))
  keyed : ∃ record ∈ live (bucket.received (metaEntryName entry)), Keyed record

theorem visits_iff {other : List Char} (member : other ∈ bucket.entries) :
    visits bucket patterns other = true ↔
      isSystemMetaEntry other = false ∧ metaEntryName other ∈ bucket.entries ∧
        (Named patterns other ∨ Overreached patterns other) := by
  cases system : isSystemMetaEntry other with
  | true => simp [visits, system]
  | false =>
    rw [← matchesPattern_iff (.of_accepted (bucket.named other member) system)]
    simp [visits, system, and_comm]

theorem attached_fst {found : List Char × List (List Char × Json)}
    (result : attached bucketName bucket patterns entry = some found) : found.1 = entry := by
  unfold attached at result
  split_ifs at result
  split at result
  · cases result
  · split_ifs at result
    obtain rfl := Option.some.inj result
    rfl

theorem attached_isSome (visited : visits bucket patterns entry = true)
    (loads : Loadable 0 (bucket.received (metaEntryName entry))) :
    (attached bucketName bucket patterns entry).isSome ↔
      ∃ record ∈ live (bucket.received (metaEntryName entry)), Keyed record := by
  obtain ⟨entryMap, collected⟩ : ∃ entryMap, collectMetaAttachments bucketName (metaEntryName entry) 0 []
      (bucket.received (metaEntryName entry)) = .ok entryMap := (collect_ok_iff (Nat.zero_le _)).mpr loads
  have empty := collect_empty_iff collected
  simp only [true_and] at empty
  rw [attached, if_pos visited, collected]
  dsimp only
  by_cases none_kept : entryMap = []
  · simpa [none_kept] using empty.mp none_kept
  · simpa [none_kept] using (not_congr empty).mp none_kept

theorem getExtAttachments_eq (filled : patterns ≠ []) :
    getExtAttachments bucketName bucket entryName (some patterns) =
      (attachEntries bucketName bucket patterns (bucket.entries.filter (! isSystemMetaEntry ·)) []).map fun attachments =>
        if attachments.isEmpty then none else some attachments := by
  simp only [getExtAttachments, List.isEmpty_iff, if_neg filled]
  cases attachEntries bucketName bucket patterns (bucket.entries.filter (! isSystemMetaEntry ·)) [] with
  | error failure => rfl
  | ok attachments =>
    change (if attachments = [] then _ else _) = Except.ok (if attachments = [] then _ else _)
    split_ifs <;> rfl

theorem mem_attachments (member : entry ∈ bucket.entries) (regular : isSystemMetaEntry entry = false) :
    entry ∈ ((bucket.entries.filter (! isSystemMetaEntry ·)).filterMap (attached bucketName bucket patterns)).map Prod.fst ↔
      (attached bucketName bucket patterns entry).isSome := by
  rw [List.mem_map, Option.isSome_iff_exists]
  constructor
  · rintro ⟨found, collected, rfl⟩
    obtain ⟨other, _, result⟩ := List.mem_filterMap.mp collected
    exact ⟨found, attached_fst result ▸ result⟩
  · rintro ⟨found, result⟩
    exact ⟨found, List.mem_filterMap.mpr ⟨entry, List.mem_filter.mpr ⟨member, by simp [regular]⟩, result⟩,
      attached_fst result⟩

theorem includes_iff (filled : patterns ≠ []) (member : entry ∈ bucket.entries)
    (regular : isSystemMetaEntry entry = false) (present : metaEntryName entry ∈ bucket.entries) :
    Includes (getExtAttachments bucketName bucket entryName (some patterns)) entry ↔
      Loads bucket patterns entry ∧ matchesPattern patterns entry = true := by
  have reached : (∀ other ∈ bucket.entries, isSystemMetaEntry other = false → metaEntryName other ∈ bucket.entries →
      Named patterns other ∨ Overreached patterns other → Loadable 0 (bucket.received (metaEntryName other))) ↔
      ∀ other ∈ bucket.entries, visits bucket patterns other = true → Loadable 0 (bucket.received (metaEntryName other)) := by
    refine forall₂_congr fun other inside => ?_
    rw [visits_iff inside]
    tauto
  rw [getExtAttachments_eq filled]
  by_cases all : ∀ other ∈ bucket.entries, visits bucket patterns other = true →
      Loadable 0 (bucket.received (metaEntryName other))
  · have among : ∀ other ∈ bucket.entries.filter (! isSystemMetaEntry ·), visits bucket patterns other = true →
        Loadable 0 (bucket.received (metaEntryName other)) := fun other inside => all other (List.mem_filter.mp inside).1
    have included : Includes ((attachEntries bucketName bucket patterns (bucket.entries.filter (! isSystemMetaEntry ·))
        []).map fun attachments => if attachments.isEmpty then none else some attachments) entry ↔
        (attached bucketName bucket patterns entry).isSome := by
      rw [attachEntries_ok among, List.nil_append, ← mem_attachments member regular, Includes]
      generalize (bucket.entries.filter (! isSystemMetaEntry ·)).filterMap (attached bucketName bucket patterns) = kept
      cases kept with
      | nil => simp [Except.map]
      | cons first rest =>
        constructor
        · rintro ⟨attachments, same, inside⟩
          obtain rfl : first :: rest = attachments := by simpa [Except.map] using same
          exact inside
        · exact fun inside => ⟨_, rfl, inside⟩
    rw [included]
    by_cases matched : matchesPattern patterns entry = true
    · have visited : visits bucket patterns entry = true := by simp [visits, regular, matched, present]
      rw [attached_isSome visited (all entry member visited)]
      exact ⟨fun keyed => ⟨⟨reached.mpr all, keyed⟩, matched⟩, fun loads => loads.1.keyed⟩
    · have skipped : visits bucket patterns entry ≠ true := by simp [visits, matched]
      simp [attached, skipped, matched]
  · -- one entry that cannot be loaded fails the whole call
    refine iff_of_false ?_ fun loads => all (reached.mp loads.1.reached)
    push Not at all
    obtain ⟨other, inside, visited, fails⟩ := all
    have visible : other ∈ bucket.entries.filter (! isSystemMetaEntry ·) :=
      List.mem_filter.mpr ⟨inside, by simp [((visits_iff inside).mp visited).1]⟩
    obtain ⟨failure, result⟩ := attachEntries_error visible visited fails
    rw [result]
    rintro ⟨attachments, wrong, _⟩
    cases wrong

def Selected (patterns : List (List Char)) (entry : List Char) : Prop :=
  (includePatterns patterns = [] ∨ Named patterns entry ∨ MatchedByForm patterns entry) ∧ ¬ Excluded patterns entry

/-- The attachments that extensions receive belong to the entries of the query exactly under `Consistent` patterns. -/
theorem attachments_iff (bucketName entryName : List Char) (bucket : ExtBucket Json) (patterns : List (List Char))
    (filled : patterns ≠ []) (entry : List Char) (member : entry ∈ bucket.entries)
    (regular : isSystemMetaEntry entry = false) (present : metaEntryName entry ∈ bucket.entries) :
    (Includes (getExtAttachments bucketName bucket entryName (some patterns)) entry ↔
        entry ∈ Bucket.filterEntries bucket.entries (some patterns)) ↔
      (Loads bucket patterns entry → Consistent patterns entry) ∧
        (¬ Loads bucket patterns entry → ¬ Selected patterns entry) := by
  have name_ok : RegularName entry := .of_accepted (bucket.named entry member) regular
  rw [includes_iff filled member regular present, mem_filterEntries name_ok, Selected, ← entryMatchesPatterns_iff name_ok,
    ← consistent_iff name_ok]
  by_cases loads : Loads bucket patterns entry <;> simp [loads, member]

def attachedBucket : ExtBucket Unit where
  entries := ["a".toList, "a/$meta".toList, "b".toList, "b/$meta".toList]
  received _ := [.ok { key := some "schema".toList, content := .ok (.ok ()) }]
  named := by decide +kernel

theorem excluded_attached :
    ¬ (Includes (getExtAttachments "bucket".toList attachedBucket [] (some ["*".toList, "!b".toList])) "b".toList ↔
      "b".toList ∈ Bucket.filterEntries attachedBucket.entries (some ["*".toList, "!b".toList])) := by
  have attaches : Includes (getExtAttachments "bucket".toList attachedBucket [] (some ["*".toList, "!b".toList]))
      "b".toList := ⟨[("a".toList, [("schema".toList, ())]), ("b".toList, [("schema".toList, ())])], by rfl, by decide⟩
  have dropped : "b".toList ∉ Bucket.filterEntries attachedBucket.entries (some ["*".toList, "!b".toList]) := by
    decide +kernel
  exact fun agree => dropped (agree.mp attaches)

theorem attachedBucket_loads (patterns : List (List Char)) (entry : List Char) : Loads attachedBucket patterns entry := by
  have loadable : ∀ other, Loadable 0 (attachedBucket.received other) := by
    intro other
    refine ⟨fun record member _ => ?_, ?_, fun failure found => ?_⟩
    · obtain rfl := List.mem_singleton.mp member
      exact ⟨(), rfl⟩
    · simp [attachedBucket, keyedCount, live, maxMetaAttachments, Keyed]
    · simp [attachedBucket, live] at found
  exact ⟨fun other _ _ _ _ => loadable _, _, List.mem_singleton_self _, by decide⟩

def oneExcluded : List (List Char) := ["a".toList, "!b".toList]

theorem consistent_oneExcluded {entry : List Char}
    (one : entry ∈ oneExcluded ↔ ¬ entryMatchesPattern entry "b".toList = true) : Consistent oneExcluded entry := by
  have unstarred (init : List Char) : init ++ ['*'] ∉ oneExcluded := fun member =>
    (by decide : ∀ pattern ∈ oneExcluded, pattern.getLast? ≠ some '*') _ member (by simp)
  have excluded : Excluded oneExcluded entry ↔ entryMatchesPattern entry "b".toList = true := by
    simp [Excluded, show excludePatterns oneExcluded = ["b".toList] by decide +kernel]
  refine ⟨fun gone => ⟨?_, ?_⟩, ?_⟩
  · rintro (named | ⟨init, _, starred, _⟩)
    · exact one.mp named (excluded.mp gone)
    · exact unstarred init starred
  · exact fun ⟨init, _, starred, _⟩ => unstarred init starred
  · exact fun kept unnamed => absurd (Or.inl (one.mpr (mt excluded.mpr kept))) unnamed

theorem attachments_iff_named :
    (Includes (getExtAttachments "bucket".toList attachedBucket [] (some oneExcluded)) "a".toList ↔
      "a".toList ∈ Bucket.filterEntries attachedBucket.entries (some oneExcluded)) ∧
    (Includes (getExtAttachments "bucket".toList attachedBucket [] (some oneExcluded)) "b".toList ↔
      "b".toList ∈ Bucket.filterEntries attachedBucket.entries (some oneExcluded)) := by
  constructor
  all_goals
    refine (attachments_iff "bucket".toList [] attachedBucket oneExcluded (by decide) _ (by decide +kernel)
      (by decide +kernel) (by decide +kernel)).mpr ⟨fun _ => consistent_oneExcluded (by decide +kernel), fun fails => ?_⟩
    exact absurd (attachedBucket_loads _ _) fails

end Includes

end ExtRepository

end ReductStore
