import Mathlib

set_option autoImplicit false

namespace ReductStore.Glob

inductive Spread {β γ : Type*} (wild : β → Prop) (fits : β → γ → Prop) : List β → List γ → Prop where
  | done : Spread wild fits [] []
  | skip {item : β} {pattern : List β} {rest : List γ} (skipped : List γ) (many : wild item)
      (behind : Spread wild fits pattern rest) : Spread wild fits (item :: pattern) (skipped ++ rest)
  | one {item : β} {pattern : List β} {symbol : γ} {rest : List γ} (single : ¬ wild item) (same : fits item symbol)
      (behind : Spread wild fits pattern rest) : Spread wild fits (item :: pattern) (symbol :: rest)

section Spread

variable {β γ : Type*} {wild : β → Prop} {fits : β → γ → Prop} {item : β} {pattern : List β} {text rest : List γ}

theorem spread_nil : Spread wild fits [] text ↔ text = [] := by
  constructor
  · intro spread
    cases spread
    rfl
  · rintro rfl
    exact .done

theorem spread_wild (many : wild item) :
    Spread wild fits (item :: pattern) text ↔ ∃ rest, rest <:+ text ∧ Spread wild fits pattern rest := by
  constructor
  · intro spread
    cases spread with
    | skip skipped _ behind => exact ⟨_, List.suffix_append _ _, behind⟩
    | one single => exact absurd many single
  · rintro ⟨rest, ⟨skipped, rfl⟩, behind⟩
    exact .skip skipped many behind

theorem spread_single (single : ¬ wild item) :
    Spread wild fits (item :: pattern) text ↔
      ∃ symbol rest, text = symbol :: rest ∧ fits item symbol ∧ Spread wild fits pattern rest := by
  constructor
  · intro spread
    cases spread with
    | skip _ many => exact absurd many single
    | one _ same behind => exact ⟨_, _, rfl, same, behind⟩
  · rintro ⟨symbol, rest, rfl, same, behind⟩
    exact .one single same behind

-- A wild item at the front makes the texts closed under anything put before them.
theorem Spread.of_suffix (many : wild item) (spread : Spread wild fits (item :: pattern) rest) (behind : rest <:+ text) :
    Spread wild fits (item :: pattern) text := by
  obtain ⟨last, inside, fitted⟩ := (spread_wild many).mp spread
  exact (spread_wild many).mpr ⟨last, inside.trans behind, fitted⟩

theorem spread_wild_nil (many : wild item) :
    Spread wild fits (item :: pattern) [] ↔ Spread wild fits pattern [] := by
  simp [spread_wild many]

theorem spread_wild_cons (many : wild item) (symbol : γ) :
    Spread wild fits (item :: pattern) (symbol :: rest) ↔
      Spread wild fits pattern (symbol :: rest) ∨ Spread wild fits (item :: pattern) rest := by
  simp only [spread_wild many, List.suffix_cons_iff, or_and_right, exists_or, exists_eq_left]

end Spread

section Wildcards

variable {α : Type*} {star : α} {piece pattern text rest : List α}

abbrev Wildcards (star : α) : List α → List α → Prop := Spread (· = star) Eq

theorem wildcards_star :
    Wildcards star (star :: pattern) text ↔ ∃ rest, rest <:+ text ∧ Wildcards star pattern rest := spread_wild rfl

theorem wildcards_symbol {symbol : α} (other : symbol ≠ star) :
    Wildcards star (symbol :: pattern) text ↔ ∃ rest, text = symbol :: rest ∧ Wildcards star pattern rest := by
  refine Iff.trans (spread_single other) ?_
  simp

theorem wildcards_literal (clear : star ∉ piece) :
    Wildcards star (piece ++ pattern) text ↔ ∃ rest, text = piece ++ rest ∧ Wildcards star pattern rest := by
  induction piece generalizing text with
  | nil => simp
  | cons symbol piece ih =>
    rw [List.mem_cons, not_or] at clear
    rw [List.cons_append, wildcards_symbol (Ne.symm clear.1)]
    constructor
    · rintro ⟨behind, rfl, spread⟩
      obtain ⟨rest, rfl, fitted⟩ := (ih clear.2).mp spread
      exact ⟨rest, rfl, fitted⟩
    · rintro ⟨rest, rfl, fitted⟩
      exact ⟨piece ++ rest, rfl, (ih clear.2).mpr ⟨rest, rfl, fitted⟩⟩

theorem wildcards_clear (clear : star ∉ piece) : Wildcards star piece text ↔ text = piece := by
  rw [← List.append_nil piece, wildcards_literal clear]
  simp [spread_nil]

theorem wildcards_star_only : Wildcards star [star] text :=
  wildcards_star.mpr ⟨[], List.nil_suffix, .done⟩

theorem wildcards_ending (clear : star ∉ piece) : Wildcards star (star :: piece) text ↔ piece <:+ text := by
  simp [wildcards_star, wildcards_clear clear]

theorem wildcards_self (star : α) (pattern : List α) : Wildcards star pattern pattern := by
  induction pattern with
  | nil => exact .done
  | cons symbol pattern ih =>
    by_cases wild : symbol = star
    · exact .skip [symbol] wild ih
    · exact .one wild rfl ih

theorem wildcards_concat :
    Wildcards star (pattern ++ [star]) text ↔ ∃ front, front <+: text ∧ Wildcards star pattern front := by
  induction pattern generalizing text with
  | nil => exact iff_of_true wildcards_star_only ⟨[], List.nil_prefix, .done⟩
  | cons symbol pattern ih =>
    by_cases wild : symbol = star
    · subst wild
      simp only [List.cons_append, wildcards_star, ih]
      constructor
      · rintro ⟨rest, ⟨skipped, rfl⟩, front, before, fitted⟩
        exact ⟨skipped ++ front, (List.prefix_append_right_inj skipped).mpr before, front, List.suffix_append _ _, fitted⟩
      · rintro ⟨_, ⟨behind, rfl⟩, front, ⟨skipped, rfl⟩, fitted⟩
        exact ⟨front ++ behind, ⟨skipped, by simp⟩, front, List.prefix_append _ _, fitted⟩
    · simp only [List.cons_append, wildcards_symbol wild, ih]
      constructor
      · rintro ⟨rest, rfl, front, before, fitted⟩
        exact ⟨symbol :: front, by simpa using before, front, rfl, fitted⟩
      · rintro ⟨_, ⟨behind, rfl⟩, front, rfl, fitted⟩
        exact ⟨front ++ behind, rfl, front, List.prefix_append _ _, fitted⟩

variable [DecidableEq α]

def findAfter (piece : List α) : List α → Option (List α)
  | [] => if piece = [] then some [] else none
  | symbol :: text =>
    if piece.isPrefixOf (symbol :: text) then some ((symbol :: text).drop piece.length) else findAfter piece text

theorem findAfter_some (found : findAfter piece text = some rest) :
    piece ++ rest <:+ text ∧ ∀ other, piece ++ other <:+ text → other <:+ rest := by
  induction text with
  | nil =>
    rw [findAfter, Option.ite_none_right_eq_some] at found
    obtain ⟨rfl, rfl⟩ := found.imp id Option.some.inj
    simp
  | cons symbol text ih =>
    rw [findAfter] at found
    split_ifs at found with here
    · obtain ⟨behind, whole⟩ := List.isPrefixOf_iff_prefix.mp here
      rw [← whole, List.drop_left, Option.some.injEq] at found
      subst found
      refine ⟨by rw [whole], fun other inside => ?_⟩
      -- the piece stands at the very front, so nothing behind it is longer
      rw [← whole] at inside
      refine List.suffix_of_suffix_length_le ((List.suffix_append piece other).trans inside)
        (List.suffix_append piece behind) ?_
      simpa using inside.length_le
    · obtain ⟨inside, first⟩ := ih found
      refine ⟨inside.trans (List.suffix_cons _ _), fun other occurs => ?_⟩
      rcases List.suffix_cons_iff.mp occurs with front | later
      · exact absurd (List.isPrefixOf_iff_prefix.mpr ⟨other, front⟩) here
      · exact first other later

theorem findAfter_none (missing : findAfter piece text = none) (other : List α) : ¬ piece ++ other <:+ text := by
  induction text with
  | nil =>
    intro occurs
    have empty := (List.append_eq_nil_iff.mp (List.suffix_nil.mp occurs)).1
    simp [findAfter, empty] at missing
  | cons symbol text ih =>
    rw [findAfter] at missing
    split_ifs at missing with here
    intro occurs
    rcases List.suffix_cons_iff.mp occurs with front | later
    · exact here (List.isPrefixOf_iff_prefix.mpr ⟨other, front⟩)
    · exact ih missing later

-- With another star behind the piece, taking its first occurrence loses no text.
theorem wildcards_first (clear : star ∉ piece) :
    Wildcards star (star :: (piece ++ star :: pattern)) text ↔
      ∃ rest ∈ findAfter piece text, Wildcards star (star :: pattern) rest := by
  have occurrence : Wildcards star (star :: (piece ++ star :: pattern)) text ↔
      ∃ other, piece ++ other <:+ text ∧ Wildcards star (star :: pattern) other := by
    rw [wildcards_star]
    simp only [wildcards_literal clear]
    constructor
    · rintro ⟨_, inside, other, rfl, fitted⟩
      exact ⟨other, inside, fitted⟩
    · rintro ⟨other, inside, fitted⟩
      exact ⟨_, inside, other, rfl, fitted⟩
  rw [occurrence]
  cases found : findAfter piece text with
  | none => simp [findAfter_none found]
  | some rest =>
    obtain ⟨inside, first⟩ := findAfter_some found
    constructor
    · rintro ⟨other, occurs, fitted⟩
      exact ⟨rest, rfl, fitted.of_suffix rfl (first other occurs)⟩
    · rintro ⟨_, ⟨⟩, fitted⟩
      exact ⟨rest, inside, fitted⟩

end Wildcards

end ReductStore.Glob
