import Mathlib
import ReductStore.Shared.Pieces
import ReductStore.Shared.Glob

set_option autoImplicit false

namespace ReductStore

open Glob Pieces

def anySegments : List Char := ['*', '*']

namespace EntryPattern

def matchParts (closing : Bool) : List (List Char) → List Char → Bool
  | [], rest => closing || rest.isEmpty
  | part :: parts, rest =>
    if part.isEmpty then matchParts closing parts rest
    else if parts.isEmpty then part.isSuffixOf rest
    else
      match findAfter part rest with
      | none => false
      | some rest => matchParts closing parts rest

def segmentMatches (entry pattern : List Char) : Bool :=
  if pattern = anySegments then true
  else
    let closing := pattern.getLast? = some '*'
    match pattern.splitOn '*' with
    | [] => closing || entry.isEmpty
    | first :: parts =>
      match first.isPrefixOf? entry with
      | none => false
      | some rest => matchParts closing parts rest

def matchesFrom (entryParts patternParts : List (List Char)) : Bool :=
  match patternParts with
  | [] => entryParts.isEmpty
  | pattern :: tail =>
    if pattern = anySegments then
      matchesFrom entryParts tail ||
        match entryParts with
        | [] => false
        | _ :: rest => matchesFrom rest (pattern :: tail)
    else
      match entryParts with
      | [] => false
      | part :: rest => segmentMatches part pattern && matchesFrom rest tail
termination_by entryParts.length + patternParts.length

end EntryPattern

def trimSlashes (pattern : List Char) : List Char := pattern.dropWhile (· = '/')

open EntryPattern in
def entryMatchesPattern (entry pattern : List Char) : Bool :=
  let pattern := trimSlashes pattern
  if '*' ∉ pattern then entry = pattern
  else if '/' ∉ pattern ∧ pattern.getLast? = some '*' then pattern.dropLast.isPrefixOf entry
  else matchesFrom (entry.splitOn '/') (pattern.splitOn '/')

namespace EntryPattern

section Segments

variable {entry pattern rest : List Char} {parts : List (List Char)}

theorem matchParts_iff {closing : Bool} (clear : ∀ part ∈ parts, '*' ∉ part)
    (closes : closing = true ↔ parts.getLast? = some []) :
    matchParts closing parts rest = true ↔ Wildcards '*' (parts.flatMap ('*' :: ·)) rest := by
  induction parts generalizing rest with
  | nil =>
    have open_ : closing = false := by simpa using closes
    simp [matchParts, open_, spread_nil]
  | cons part parts ih =>
    rw [List.forall_mem_cons] at clear
    rw [matchParts, List.flatMap_cons, List.cons_append]
    cases parts with
    | nil =>
      by_cases empty : part = []
      · subst empty
        have closed : closing = true := closes.mpr rfl
        simp [matchParts, closed, wildcards_star_only]
      · simp [empty, wildcards_ending clear.1]
    | cons next later =>
      rw [List.getLast?_cons_cons] at closes
      have behind : ∀ rest, matchParts closing (next :: later) rest = true ↔
          Wildcards '*' ('*' :: (next ++ later.flatMap ('*' :: ·))) rest := by
        intro rest
        simpa using ih clear.2 closes
      by_cases empty : part = []
      · -- two stars in a row stand for what one stands for
        subst empty
        rw [List.isEmpty_nil, if_pos rfl, behind, List.nil_append, List.flatMap_cons, List.cons_append]
        constructor
        · exact fun fitted => wildcards_star.mpr ⟨_, List.suffix_rfl, fitted⟩
        · intro fitted
          obtain ⟨last, inside, fitted⟩ := wildcards_star.mp fitted
          exact fitted.of_suffix rfl inside
      · rw [if_neg (by simpa using empty), if_neg (by simp), List.flatMap_cons, List.cons_append,
          wildcards_first clear.1]
        cases findAfter part rest with
        | none => simp
        | some found => simp [behind]

theorem getLast?_flatMap {first : List Char} (clear : '*' ∉ first) (parts_clear : ∀ part ∈ parts, '*' ∉ part) :
    (first ++ parts.flatMap ('*' :: ·)).getLast? = some '*' ↔ parts.getLast? = some [] := by
  rcases List.eq_nil_or_concat parts with rfl | ⟨front, part, rfl⟩
  · simp only [List.flatMap_nil, List.append_nil, List.getLast?_nil, reduceCtorEq, iff_false]
    exact fun last => clear (List.mem_of_getLast? last)
  · have part_clear := parts_clear part (by simp)
    rw [List.concat_eq_append, List.flatMap_append, List.flatMap_singleton, ← List.append_assoc, List.getLast?_append_cons,
      List.getLast?_append]
    rcases List.eq_nil_or_concat part with rfl | ⟨letters, letter, rfl⟩
    · simp
    · rw [List.concat_eq_append] at part_clear ⊢
      have other : letter ≠ '*' := fun same => part_clear (by simp [same])
      simp [List.getLast?_cons, other]

theorem segmentMatches_iff : segmentMatches entry pattern = true ↔ Wildcards '*' pattern entry := by
  unfold segmentMatches
  by_cases many : pattern = anySegments
  · rw [if_pos many, many]
    simpa [anySegments] using wildcards_star.mpr ⟨entry, List.suffix_rfl, wildcards_star_only⟩
  rw [if_neg many]
  cases split : pattern.splitOn '*' with
  | nil => exact absurd split (List.splitOn_ne_nil _ _)
  | cons first parts =>
    have clear : ∀ part ∈ first :: parts, '*' ∉ part := fun part member => clear_of_mem_splitOn (split ▸ member)
    rw [List.forall_mem_cons] at clear
    have whole := eq_append_flatMap_of_splitOn split
    have closes : decide (pattern.getLast? = some '*') = true ↔ parts.getLast? = some [] := by
      rw [decide_eq_true_eq, whole, getLast?_flatMap clear.1 clear.2]
    rw [show Wildcards '*' pattern entry ↔ Wildcards '*' (first ++ parts.flatMap ('*' :: ·)) entry by rw [← whole],
      wildcards_literal clear.1]
    dsimp only
    cases stripped : first.isPrefixOf? entry with
    | none =>
      refine iff_of_false Bool.false_ne_true ?_
      rintro ⟨rest, rfl, _⟩
      rw [List.isPrefixOf?_eq_some_iff_append_eq.mpr rfl] at stripped
      cases stripped
    | some rest =>
      obtain rfl := List.append_eq_of_isPrefixOf?_eq_some stripped
      simp [matchParts_iff clear.2 closes]

abbrev Paths : List (List Char) → List (List Char) → Prop := Spread (· = anySegments) (Wildcards '*')

theorem paths_many {tail rest : List (List Char)} (part : List Char) :
    Paths (anySegments :: tail) (part :: rest) ↔ Paths tail (part :: rest) ∨ Paths (anySegments :: tail) rest :=
  spread_wild_cons (by rfl) part

theorem paths_one {tail entryParts : List (List Char)} (single : pattern ≠ anySegments) :
    Paths (pattern :: tail) entryParts ↔
      ∃ part rest, entryParts = part :: rest ∧ Wildcards '*' pattern part ∧ Paths tail rest := spread_single single

theorem matchesFrom_iff (entryParts patternParts : List (List Char)) :
    matchesFrom entryParts patternParts = true ↔ Paths patternParts entryParts := by
  fun_induction matchesFrom entryParts patternParts with
  | case1 entryParts => simp [spread_nil]
  | case2 entryParts tail fewer longer =>
    cases entryParts with
    | nil => simpa [spread_wild_nil] using fewer
    | cons part rest =>
      dsimp only at longer
      rw [Bool.or_eq_true, fewer, longer, paths_many]
  | case3 pattern tail single => simp [paths_one single]
  | case4 pattern tail single part rest later =>
    rw [Bool.and_eq_true, segmentMatches_iff, later, paths_one single]
    simp

end Segments

section Language

variable {entry pattern : List Char}

def InLanguage (entry pattern : List Char) : Prop :=
  let pattern := trimSlashes pattern
  Paths (pattern.splitOn '/') (entry.splitOn '/') ∨
    ∃ init front back, pattern = init ++ ['*'] ∧ '/' ∉ init ∧
      entry = front ++ back ∧ '/' ∉ front ∧ Wildcards '*' init front

-- Without a star the segments have to be the same.
theorem paths_clear {parts entryParts : List (List Char)} (clear : ∀ part ∈ parts, '*' ∉ part) :
    Paths parts entryParts ↔ entryParts = parts := by
  induction parts generalizing entryParts with
  | nil => exact spread_nil
  | cons part parts ih =>
    rw [List.forall_mem_cons] at clear
    have single : part ≠ anySegments := fun same => clear.1 (by simp [same, anySegments])
    simp only [paths_one single, wildcards_clear clear.1]
    constructor
    · rintro ⟨_, rest, rfl, rfl, behind⟩
      rw [(ih clear.2).mp behind]
    · rintro rfl
      exact ⟨part, parts, rfl, rfl, (ih clear.2).mpr rfl⟩

theorem mem_of_mem_splitOn {separator symbol : Char} {text part : List Char} (member : part ∈ text.splitOn separator)
    (inside : symbol ∈ part) : symbol ∈ text := by
  cases split : text.splitOn separator with
  | nil => exact absurd split (List.splitOn_ne_nil _ _)
  | cons first parts =>
    rw [eq_append_flatMap_of_splitOn split]
    rw [split] at member
    rcases List.mem_cons.mp member with rfl | later
    · exact List.mem_append_left _ inside
    · exact List.mem_append_right _ (List.mem_flatMap.mpr ⟨part, later, List.mem_cons_of_mem _ inside⟩)

theorem paths_literal (clear : '*' ∉ pattern) : Paths (pattern.splitOn '/') (entry.splitOn '/') ↔ entry = pattern := by
  rw [paths_clear fun part member inside => clear (mem_of_mem_splitOn member inside)]
  exact ⟨splitOn_injective, congrArg _⟩

theorem paths_concat {parts entryParts : List (List Char)} {last : List Char} (clear : ∀ part ∈ parts, '*' ∉ part)
    (last_clear : '*' ∉ last) :
    Paths (parts ++ [last ++ ['*']]) entryParts ↔ ∃ more, entryParts = parts ++ [last ++ more] := by
  induction parts generalizing entryParts with
  | nil =>
    have single : last ++ ['*'] ≠ anySegments := by
      intro same
      obtain rfl : last = ['*'] := List.append_cancel_right (same.trans (show anySegments = ['*'] ++ ['*'] from rfl))
      simp at last_clear
    rw [List.nil_append, paths_one single]
    simp only [wildcards_literal last_clear, wildcards_star_only, spread_nil]
    constructor
    · rintro ⟨_, _, rfl, ⟨more, rfl, _⟩, rfl⟩
      exact ⟨more, rfl⟩
    · rintro ⟨more, rfl⟩
      exact ⟨_, [], rfl, ⟨more, rfl, trivial⟩, rfl⟩
  | cons part parts ih =>
    rw [List.forall_mem_cons] at clear
    have single : part ≠ anySegments := fun same => clear.1 (by simp [same, anySegments])
    simp only [List.cons_append, paths_one single, wildcards_clear clear.1, ih clear.2]
    constructor
    · rintro ⟨_, _, rfl, rfl, more, rfl⟩
      exact ⟨more, rfl⟩
    · rintro ⟨more, rfl⟩
      exact ⟨part, _, rfl, rfl, more, rfl⟩

theorem trimSlashes_eq_self (front : pattern.head? ≠ some '/') : trimSlashes pattern = pattern := by
  cases pattern with
  | nil => rfl
  | cons first rest =>
    have other : first ≠ '/' := fun same => front (by simp [same])
    simp [trimSlashes, other]

theorem trimSlashes_concat {init : List Char} (front : init.head? ≠ some '/') :
    trimSlashes (init ++ ['*']) = init ++ ['*'] := by
  refine trimSlashes_eq_self ?_
  cases init with
  | nil => decide
  | cons first rest => simpa using front

theorem matches_flat_star {init : List Char} (flat : '/' ∉ init) :
    entryMatchesPattern entry (init ++ ['*']) = true ↔ init <+: entry := by
  have front : init.head? ≠ some '/' := fun first => flat (List.mem_of_mem_head? first)
  simp [entryMatchesPattern, trimSlashes_concat front, flat]

theorem matches_last_star {init : List Char} (clear : '*' ∉ init) (front : init.head? ≠ some '/') (deep : '/' ∈ init) :
    entryMatchesPattern entry (init ++ ['*']) = true ↔ ∃ more, entry = init ++ more ∧ '/' ∉ more := by
  obtain ⟨parts, last, split⟩ : ∃ parts last, init.splitOn '/' = parts ++ [last] := by
    rcases List.eq_nil_or_concat (init.splitOn '/') with empty | ⟨parts, last, split⟩
    · exact absurd empty (List.splitOn_ne_nil _ _)
    · exact ⟨parts, last, by rw [split, List.concat_eq_append]⟩
  have pieces : ∀ part ∈ parts ++ [last], '*' ∉ part :=
    fun part member inside => clear (mem_of_mem_splitOn (split ▸ member) inside)
  rw [List.forall_mem_append, List.forall_mem_singleton] at pieces
  rw [entryMatchesPattern, trimSlashes_concat front, if_neg (by simp), if_neg (by simp [deep]), matchesFrom_iff,
    splitOn_append_clear split (by decide), paths_concat pieces.1 pieces.2]
  refine exists_congr fun more => ⟨fun parted => ?_, ?_⟩
  · have inside : '/' ∉ last ++ more := clear_of_mem_splitOn (by rw [parted]; simp)
    have flat : '/' ∉ more := fun member => inside (List.mem_append_right _ member)
    exact ⟨splitOn_injective (parted.trans (splitOn_append_clear split flat).symm), flat⟩
  · rintro ⟨rfl, flat⟩
    exact splitOn_append_clear split flat

def Begins (init entry : List Char) : Prop := ∃ front, front <+: entry ∧ '/' ∉ front ∧ Wildcards '*' init front

theorem begins_of_paths {init : List Char} (flat : '/' ∉ init)
    (paths : Paths ((init ++ ['*']).splitOn '/') (entry.splitOn '/')) : Begins init entry := by
  by_cases many : init ++ ['*'] = anySegments
  · obtain rfl : init = ['*'] := List.append_cancel_right (many.trans (show anySegments = ['*'] ++ ['*'] from rfl))
    exact ⟨[], List.nil_prefix, List.not_mem_nil, wildcards_star_only⟩
  · rw [List.splitOn_eq_singleton (by simp [flat]), paths_one many] at paths
    obtain ⟨part, rest, parts, fitted, ended⟩ := paths
    rw [spread_nil.mp ended] at parts
    have inside : '/' ∉ part := clear_of_mem_splitOn (by rw [parts]; exact List.mem_singleton_self part)
    obtain rfl : entry = part := by simpa using eq_append_flatMap_of_splitOn parts
    obtain ⟨front, before, fitted⟩ := wildcards_concat.mp fitted
    exact ⟨front, before, fun member => inside (before.subset member), fitted⟩

theorem language_last {init : List Char} (flat : '/' ∉ init) :
    (Paths ((init ++ ['*']).splitOn '/') (entry.splitOn '/') ∨
      ∃ init' front back, init ++ ['*'] = init' ++ ['*'] ∧ '/' ∉ init' ∧
        entry = front ++ back ∧ '/' ∉ front ∧ Wildcards '*' init' front) ↔ Begins init entry := by
  constructor
  · rintro (paths | ⟨init', front, back, whole, _, rfl, inside, fitted⟩)
    · exact begins_of_paths flat paths
    · obtain rfl := List.append_cancel_right whole
      exact ⟨front, List.prefix_append _ _, inside, fitted⟩
  · rintro ⟨front, ⟨back, rfl⟩, inside, fitted⟩
    exact Or.inr ⟨init, front, back, rfl, flat, rfl, inside, fitted⟩

theorem Begins.of_literal {init : List Char} (flat : '/' ∉ init) (before : init <+: entry) : Begins init entry :=
  ⟨init, before, flat, wildcards_self '*' init⟩

theorem begins_clear {init : List Char} (clear : '*' ∉ init) (begins : Begins init entry) : init <+: entry := by
  obtain ⟨front, before, _, fitted⟩ := begins
  rwa [(wildcards_clear clear).mp fitted] at before

/-- The matcher reads the text before the last star of a pattern without slashes literally. -/
theorem entryMatchesPattern_iff (entry pattern : List Char) :
    (entryMatchesPattern entry pattern = true ↔ InLanguage entry pattern) ↔
      ∀ init, trimSlashes pattern = init ++ ['*'] → '/' ∉ init → '*' ∈ init →
        init <+: entry ∨ ¬ Begins init entry := by
  unfold entryMatchesPattern InLanguage
  generalize trimSlashes pattern = pattern
  dsimp only
  by_cases literal : '*' ∉ pattern
  · -- no star: both say that the names are the same
    rw [if_pos literal, decide_eq_true_eq, paths_literal literal]
    refine iff_of_true ⟨Or.inl, ?_⟩ fun init whole => absurd (by simp [whole]) literal
    rintro (same | ⟨init, _, _, whole, _⟩)
    · exact same
    · exact absurd (by simp [whole]) literal
  rw [if_neg literal]
  by_cases last : '/' ∉ pattern ∧ pattern.getLast? = some '*'
  · obtain ⟨flat, last⟩ := last
    obtain ⟨init, rfl⟩ := List.getLast?_eq_some_iff.mp last
    have flat_init : '/' ∉ init := fun inside => flat (List.mem_append_left _ inside)
    rw [if_pos ⟨flat, last⟩, List.dropLast_concat, List.isPrefixOf_iff_prefix, language_last flat_init]
    constructor
    · intro agrees init' whole _ _
      obtain rfl := List.append_cancel_right whole
      exact (em (init <+: entry)).imp_right fun other begins => other (agrees.mpr begins)
    · intro condition
      refine ⟨.of_literal flat_init, fun begins => ?_⟩
      by_cases starred : '*' ∈ init
      · exact (condition init rfl flat_init starred).resolve_right (not_not.mpr begins)
      · exact begins_clear starred begins
  · -- otherwise the segments decide, and the last star is an ordinary one
    rw [if_neg last, matchesFrom_iff]
    have closed : ∀ init, pattern = init ++ ['*'] → '/' ∉ init → False := by
      rintro init rfl flat
      exact last ⟨by simp [flat], by simp⟩
    refine iff_of_true ⟨Or.inl, ?_⟩ fun init whole flat => (closed init whole flat).elim
    rintro (paths | ⟨init, _, _, whole, flat, _⟩)
    · exact paths
    · exact (closed init whole flat).elim

theorem inner_star_missed :
    ¬ (entryMatchesPattern "axb".toList "a*b*".toList = true ↔ InLanguage "axb".toList "a*b*".toList) := by
  have missed : entryMatchesPattern "axb".toList "a*b*".toList = false := by decide +kernel
  have fitted : Wildcards '*' ['a', '*', 'b'] ['a', 'x', 'b'] :=
    .one (by decide) rfl (.skip ['x'] rfl (.one (by decide) rfl .done))
  rw [missed]
  exact fun agrees => Bool.false_ne_true (agrees.mpr (.inr ⟨_, _, [], rfl, by decide, rfl, by decide, fitted⟩))

end Language

end EntryPattern

end ReductStore
