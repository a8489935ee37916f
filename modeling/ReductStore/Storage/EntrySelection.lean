import Mathlib
import ReductStore.Shared.Glob
import ReductStore.Storage.Record
import ReductStore.Storage.EntryPattern

set_option autoImplicit false

namespace ReductStore

open Glob EntryPattern

def metaEntrySegment : List Char := ['$', 'm', 'e', 't', 'a']

def isSystemMetaEntry (entryName : List Char) : Bool :=
  entryName = metaEntrySegment || ('/' :: metaEntrySegment).isSuffixOf entryName

def metaEntryParent (entryName : List Char) : Option (List Char) :=
  if ('/' :: metaEntrySegment).isSuffixOf entryName then
    some (entryName.take (entryName.length - ('/' :: metaEntrySegment).length)) |>.filter (! ·.isEmpty)
  else none

def metaEntryName (entryName : List Char) : List Char := entryName ++ '/' :: metaEntrySegment

def isQueryableByWildcard (entryName : List Char) : Bool := ! isSystemMetaEntry entryName

def isNameChar (char : Char) : Bool :=
  ('A' ≤ char && char ≤ 'Z') || ('a' ≤ char && char ≤ 'z') || ('0' ≤ char && char ≤ '9') ||
    char = '_' || char = '/' || char = '-'

def checkEntryNameConvention (name : List Char) : Except ReductError Unit :=
  if name.isEmpty || name.head? = some '/' || name.getLast? = some '/' || (name.splitOn '/').any (·.isEmpty) then
    .error (unprocessableEntity "Entry name must be non-empty and must not contain empty path segments")
  else if name.all isNameChar then .ok ()
  else if name = metaEntrySegment then .ok ()
  else if ('/' :: metaEntrySegment).isSuffixOf name &&
      (name.take (name.length - ('/' :: metaEntrySegment).length)).all isNameChar then .ok ()
  else
    .error (unprocessableEntity
      "Entry name can contain only letters, digits and [-,_,/] symbols or end with '/$meta'")

def includePatterns (patterns : List (List Char)) : List (List Char) :=
  patterns.filter fun pattern => ! (pattern.head? = some '!' && 1 < pattern.length)

def excludePatterns (patterns : List (List Char)) : List (List Char) :=
  (patterns.filterMap fun pattern => if pattern.head? = some '!' then some pattern.tail else none).filter (! ·.isEmpty)

namespace Bucket

def filterEntries (entries : List (List Char)) (requested : Option (List (List Char))) : List (List Char) :=
  match requested with
  | none => entries.filter isQueryableByWildcard
  | some requested =>
    entries.filter fun name =>
      let included :=
        if (includePatterns requested).any (· = ['*']) then isQueryableByWildcard name
        else if (includePatterns requested).isEmpty then isQueryableByWildcard name
        else if (includePatterns requested).any (· = name) then true
        else (includePatterns requested).any (entryMatchesPattern name) && isQueryableByWildcard name
      included && ! (excludePatterns requested).any fun pattern => pattern = name || entryMatchesPattern name pattern

def requestedEntries (entries : Option (List (List Char))) : Option (List (List Char)) :=
  match entries with
  | some entries => if ! entries.isEmpty then some entries else none
  | none => none

def entryMatchesPatterns (entry : List Char) (patterns : List (List Char)) : Bool :=
  let included := (includePatterns patterns).isEmpty || (includePatterns patterns).any (entryMatchesPattern entry)
  included && ! (excludePatterns patterns).any (entryMatchesPattern entry)

def isRequestedEntry (entryName : List Char) (requestedEntries : Option (List (List Char))) : Bool :=
  (requestedEntries.map (entryMatchesPatterns entryName)).getD true

end Bucket

namespace TransactionFilter

def entryMatches (entryFilter entryName : List Char) : Bool :=
  let entryFilter := trimSlashes entryFilter
  entryMatchesPattern entryName entryFilter ||
    (metaEntryParent entryName).any fun parent => entryMatchesPattern parent entryFilter

def entryIsSelected (entries : List (List Char)) (entryName : List Char) : Bool :=
  if entries.isEmpty then true
  else
    let included := (includePatterns entries).isEmpty || (includePatterns entries).any (entryMatches · entryName)
    included && ! (excludePatterns entries).any (entryMatches · entryName)

end TransactionFilter

namespace Lifecycle

def requestedEntries (entries : List (List Char)) : Option (List (List Char)) :=
  if entries.isEmpty then none else some entries

def entryMatchesPatterns (entryName : List Char) (patterns : List (List Char)) : Bool :=
  let included := (includePatterns patterns).isEmpty || (includePatterns patterns).any (entryMatchesPattern entryName)
  included && ! (excludePatterns patterns).any (entryMatchesPattern entryName)

def isRequestedEntry (entryName : List Char) (requestedEntries : Option (List (List Char))) : Bool :=
  (requestedEntries.map (entryMatchesPatterns entryName)).getD true

end Lifecycle

structure RegularName (name : List Char) : Prop where
  chars : ∀ char ∈ name, isNameChar char = true
  segments : ∀ segment ∈ name.splitOn '/', segment ≠ []
  front : name.head? ≠ some '/'
  regular : isSystemMetaEntry name = false

namespace RegularName

variable {name : List Char}

theorem of_accepted (accepted : checkEntryNameConvention name = .ok ()) (regular : isSystemMetaEntry name = false) :
    RegularName name := by
  unfold checkEntryNameConvention at accepted
  split_ifs at accepted with misplaced chars system attached
  all_goals simp only [Bool.or_eq_true, decide_eq_true_eq, List.any_eq_true, not_or, List.isEmpty_iff] at misplaced
  · refine ⟨List.all_eq_true.mp chars, fun segment member empty => ?_, misplaced.1.1.2, regular⟩
    exact misplaced.2 ⟨segment, member, empty⟩
  -- what the other two branches accept belongs to the system
  · simp [isSystemMetaEntry, system] at regular
  · rw [Bool.and_eq_true] at attached
    simp [isSystemMetaEntry, attached.1] at regular

theorem no_star (name_ok : RegularName name) : '*' ∉ name := fun member => absurd (name_ok.chars _ member) (by decide)

theorem matches_self (name_ok : RegularName name) : entryMatchesPattern name name = true := by
  simp [entryMatchesPattern, trimSlashes_eq_self name_ok.front, name_ok.no_star]

theorem queryable (name_ok : RegularName name) : isQueryableByWildcard name = true := by
  simp [isQueryableByWildcard, name_ok.regular]

theorem no_parent (name_ok : RegularName name) : metaEntryParent name = none := by
  have other := name_ok.regular
  rw [isSystemMetaEntry, Bool.or_eq_false_iff] at other
  simp [metaEntryParent, other.2]

end RegularName

theorem trimSlashes_trimSlashes (pattern : List Char) : trimSlashes (trimSlashes pattern) = trimSlashes pattern := by
  exact List.dropWhile_idempotent _ _

theorem matches_star (name : List Char) : entryMatchesPattern name ['*'] = true := by
  simp [entryMatchesPattern, trimSlashes]

section Selectors

variable {name : List Char} {patterns entries : List (List Char)}

theorem any_include (name_ok : RegularName name) (patterns : List (List Char)) :
    (if patterns.any (· = ['*']) then isQueryableByWildcard name
      else if patterns.isEmpty then isQueryableByWildcard name
      else if patterns.any (· = name) then true
      else patterns.any (entryMatchesPattern name) && isQueryableByWildcard name) =
      (patterns.isEmpty || patterns.any (entryMatchesPattern name)) := by
  rw [name_ok.queryable]
  split_ifs with star empty exact_name
  · rw [List.any_eq_true] at star
    obtain ⟨pattern, member, same⟩ := star
    obtain rfl := of_decide_eq_true same
    simp [List.any_eq_true.mpr ⟨_, member, matches_star name⟩]
  · simp [empty]
  · rw [List.any_eq_true] at exact_name
    obtain ⟨pattern, member, same⟩ := exact_name
    obtain rfl := of_decide_eq_true same
    simp [List.any_eq_true.mpr ⟨_, member, name_ok.matches_self⟩]
  · simp [empty]

theorem any_exclude (name_ok : RegularName name) (patterns : List (List Char)) :
    (patterns.any fun pattern => pattern = name || entryMatchesPattern name pattern) =
      patterns.any (entryMatchesPattern name) := by
  congr 1
  funext pattern
  by_cases same : pattern = name
  · simp [same, name_ok.matches_self]
  · simp [same]

theorem mem_filterEntries (name_ok : RegularName name) :
    name ∈ Bucket.filterEntries entries (some patterns) ↔
      name ∈ entries ∧ Bucket.entryMatchesPatterns name patterns = true := by
  simp only [Bucket.filterEntries, List.mem_filter, any_include name_ok, any_exclude name_ok,
    Bucket.entryMatchesPatterns]

theorem entryMatches_regular (name_ok : RegularName name) (pattern : List Char) :
    TransactionFilter.entryMatches pattern name = entryMatchesPattern name pattern := by
  simp only [TransactionFilter.entryMatches, name_ok.no_parent, Option.any_none, Bool.or_false]
  unfold entryMatchesPattern
  rw [trimSlashes_trimSlashes]

theorem entryIsSelected_regular (name_ok : RegularName name) (patterns : List (List Char)) :
    TransactionFilter.entryIsSelected patterns name = Bucket.entryMatchesPatterns name patterns := by
  cases patterns with
  | nil => rfl
  | cons pattern patterns =>
    simp only [TransactionFilter.entryIsSelected, entryMatches_regular name_ok]
    rfl

theorem isRequestedEntry_bucket (patterns : List (List Char)) :
    Bucket.isRequestedEntry name (Bucket.requestedEntries (some patterns)) = Bucket.entryMatchesPatterns name patterns := by
  cases patterns <;> rfl

theorem isRequestedEntry_lifecycle (patterns : List (List Char)) :
    Lifecycle.isRequestedEntry name (Lifecycle.requestedEntries patterns) = Bucket.entryMatchesPatterns name patterns := by
  cases patterns <;> rfl

/-- The selectors of queries, removals, replications and lifecycle policies select the same entries. -/
theorem selectors_agree (patterns entries : List (List Char)) (name : List Char) (member : name ∈ entries)
    (accepted : checkEntryNameConvention name = .ok ()) (regular : isSystemMetaEntry name = false) :
    (name ∈ Bucket.filterEntries entries (some patterns) ↔
        Bucket.isRequestedEntry name (Bucket.requestedEntries (some patterns)) = true) ∧
      (name ∈ Bucket.filterEntries entries (some patterns) ↔
        TransactionFilter.entryIsSelected patterns name = true) ∧
      (name ∈ Bucket.filterEntries entries (some patterns) ↔
        Lifecycle.isRequestedEntry name (Lifecycle.requestedEntries patterns) = true) := by
  have name_ok := RegularName.of_accepted accepted regular
  rw [mem_filterEntries name_ok, isRequestedEntry_bucket, entryIsSelected_regular name_ok, isRequestedEntry_lifecycle]
  simp [member]

theorem selectors_agree_excluded :
    "cam-1/raw".toList ∉ Bucket.filterEntries ["cam-1/raw".toList, "cam-2".toList] (some ["cam-*".toList, "!*/raw".toList]) ∧
      TransactionFilter.entryIsSelected ["cam-*".toList, "!*/raw".toList] "cam-1/raw".toList = false := by
  have agree := selectors_agree ["cam-*".toList, "!*/raw".toList] ["cam-1/raw".toList, "cam-2".toList] "cam-1/raw".toList
    (by decide) (by decide +kernel) (by decide +kernel)
  have other : "cam-1/raw".toList ∉
      Bucket.filterEntries ["cam-1/raw".toList, "cam-2".toList] (some ["cam-*".toList, "!*/raw".toList]) := by
    decide +kernel
  exact ⟨other, Bool.eq_false_iff.mpr fun selected => other (agree.2.1.mpr selected)⟩

end Selectors

end ReductStore
