import Mathlib
import ReductStore.Query.Filters

set_option autoImplicit false

namespace ReductStore

section Windows

variable (before after : Padding) (records : List Record) (matched : Nat → Bool)

def recordTime (index : Nat) : Nat := (records[index]?.map (·.timestamp)).getD 0

def Padding.Covers (padding : Padding) (first last : Nat) : Prop :=
  match padding with
  | .records count => last - first ≤ count
  | .duration us => recordTime records last - recordTime records first ≤ us

instance (padding : Padding) (first last : Nat) : Decidable (padding.Covers records first last) := by
  unfold Padding.Covers
  cases padding <;> infer_instance

def Shown (index : Nat) : Prop :=
  ∃ hit < records.length, matched hit = true ∧
    (index ≤ hit ∧ before.Covers records index hit ∨ hit ≤ index ∧ after.Covers records hit index)

instance (index : Nat) : Decidable (Shown before after records matched index) :=
  inferInstanceAs (Decidable (∃ hit, hit < records.length ∧ _))

def PassesAt (index : Nat) : Prop := ∃ hit ≤ index, matched hit = true ∧ after.Covers records hit index

def shownFrom (names : List String) (index : Nat) : List Record :=
  ((records.zipIdx.drop index).filter fun item => Shown before after records matched item.2).map fun item =>
    selectLabels names item.1

end Windows

namespace WhenFilter

def contextOf (record : Record) : Context := { timestamp := record.timestamp, labels := uniqueLabels record.labels }

theorem filter_value {filter : WhenFilter} {record : Record} {value : Bool}
    (evaluates : filter.evaluate (filter.applied ++ [contextOf record]) = .ok (some value)) :
    filter.filter record =
      if (filter.ctxAfter.check value record.timestamp).1 then
        (.ok (some ((queueRecord filter.ctxBefore filter.ctxBuffer record).map (selectLabels filter.labelSelector))),
          { filter with
            ctxBuffer := []
            applied := filter.applied ++ [contextOf record]
            ctxAfter := (filter.ctxAfter.check value record.timestamp).2 })
      else
        (.ok (some []),
          { filter with
            ctxBuffer := queueRecord filter.ctxBefore filter.ctxBuffer record
            applied := filter.applied ++ [contextOf record]
            ctxAfter := (filter.ctxAfter.check value record.timestamp).2 }) := by
  simp only [contextOf] at evaluates
  simp only [WhenFilter.filter, evaluates, contextOf]

def filterAll : WhenFilter → List Record → List Record
  | _, [] => []
  | filter, record :: records =>
    let filtered := filter.filter record
    (match filtered.1 with
      | .ok (some found) => found
      | _ => []) ++ filterAll filtered.2 records

def Yields (condition : Condition) (records : List Record) (matched : Nat → Bool) : Prop :=
  ∀ index < records.length,
    condition ((records.take (index + 1)).map contextOf) = .ok (.ok (matched index))

end WhenFilter

section Covers

variable {before after padding : Padding} {records : List Record} {matched : Nat → Bool}

def InOrder (records : List Record) : Prop := records.Pairwise fun earlier later => earlier.timestamp ≤ later.timestamp

theorem InOrder.time_le (ordered : InOrder records) {first last : Nat} (behind : first ≤ last)
    (inside : last < records.length) : recordTime records first ≤ recordTime records last := by
  have inside' : first < records.length := by omega
  simp only [recordTime, List.getElem?_eq_getElem inside, List.getElem?_eq_getElem inside', Option.map_some, Option.getD_some]
  rcases Nat.eq_or_lt_of_le behind with rfl | behind
  · exact le_rfl
  · exact List.pairwise_iff_getElem.mp ordered first last inside' inside behind

theorem Padding.covers_self (index : Nat) : padding.Covers records index index := by
  cases padding <;> simp [Padding.Covers]

theorem Padding.Covers.inner (ordered : InOrder records) {first first' last' last : Nat}
    (covers : padding.Covers records first last) (left : first ≤ first') (right : last' ≤ last)
    (inside : last < records.length) (nonempty : first' ≤ last') : padding.Covers records first' last' := by
  cases padding with
  | records count =>
    simp only [Padding.Covers] at covers ⊢
    omega
  | duration us =>
    simp only [Padding.Covers] at covers ⊢
    have start := ordered.time_le left (by omega)
    have stop := ordered.time_le right inside
    omega

theorem shown_iff {index : Nat} (inside : index < records.length) :
    Shown before after records matched index ↔ PassesAt after records matched index ∨
      ∃ hit < records.length, index ≤ hit ∧ matched hit = true ∧ before.Covers records index hit := by
  constructor
  · rintro ⟨hit, within, isHit, ⟨behind, covers⟩ | ⟨ahead, covers⟩⟩
    · exact Or.inr ⟨hit, within, behind, isHit, covers⟩
    · exact Or.inl ⟨hit, ahead, isHit, covers⟩
  · rintro (⟨hit, ahead, isHit, covers⟩ | ⟨hit, within, behind, isHit, covers⟩)
    · exact ⟨hit, by omega, isHit, Or.inr ⟨ahead, covers⟩⟩
    · exact ⟨hit, within, isHit, Or.inl ⟨behind, covers⟩⟩

theorem passesAt_of_match {index : Nat} (isHit : matched index = true) : PassesAt after records matched index :=
  ⟨index, le_rfl, isHit, Padding.covers_self index⟩

end Covers

section Segments

variable {records : List Record}

def segment (records : List Record) (first stop : Nat) : List Record := (records.take stop).drop first

theorem segment_push {first stop : Nat} (behind : first ≤ stop) (inside : stop < records.length) :
    segment records first stop ++ [records[stop]] = segment records first (stop + 1) := by
  have length : first ≤ (records.take stop).length := by simp; omega
  rw [segment, segment, List.take_add_one, List.getElem?_eq_getElem inside, Option.toList_some,
    List.drop_append_of_le_length length]

theorem segment_cons {first stop : Nat} (behind : first < stop) (inside : stop ≤ records.length) :
    segment records first stop = records[first] :: segment records (first + 1) stop := by
  have length : first < (records.take stop).length := by simp; omega
  rw [segment, List.drop_eq_getElem_cons length, List.getElem_take]
  rfl

theorem length_segment {first stop : Nat} (inside : stop ≤ records.length) :
    (segment records first stop).length = stop - first := by
  simp [segment, inside]

theorem queueRecord_records (count : Nat) {first stop : Nat} (behind : first ≤ stop) (inside : stop < records.length)
    (near : first < stop → stop - 1 - first ≤ count) :
    ∃ first', first ≤ first' ∧ first' ≤ stop ∧ stop - first' ≤ count ∧
      (∀ index, first ≤ index → index < first' → ¬ stop - index ≤ count) ∧
      queueRecord (.records count) (segment records first stop) records[stop] = segment records first' (stop + 1) := by
  simp only [queueRecord, segment_push behind inside]
  have length : (segment records first (stop + 1)).length = stop + 1 - first := length_segment inside
  by_cases full : stop + 1 - first > count + 1
  · refine ⟨first + 1, by omega, by omega, by omega, by omega, ?_⟩
    rw [if_pos (by omega), segment_cons (by omega) (by omega), List.tail_cons]
  · exact ⟨first, le_rfl, behind, by omega, by omega, if_neg (by omega)⟩

theorem queueRecord_duration (us : Nat) {first stop : Nat} (behind : first ≤ stop)
    (inside : stop < records.length) :
    ∃ first', first ≤ first' ∧ first' ≤ stop ∧ (Padding.duration us).Covers records first' stop ∧
      (∀ index, first ≤ index → index < first' → ¬ (Padding.duration us).Covers records index stop) ∧
      queueRecord (.duration us) (segment records first stop) records[stop] = segment records first' (stop + 1) := by
  simp only [queueRecord, segment_push behind inside]
  -- one record after the other is dropped, up to the new one at the latest
  induction left : stop - first generalizing first with
  | zero =>
    obtain rfl : first = stop := by omega
    refine ⟨first, le_rfl, le_rfl, Padding.covers_self first, by omega, ?_⟩
    rw [segment_cons (by omega) inside, List.dropWhile_cons_of_neg (by simp)]
  | succ left ih =>
    have inside' : first < records.length := by omega
    have time : recordTime records stop = records[stop].timestamp := by
      simp [recordTime, List.getElem?_eq_getElem inside]
    have time' : recordTime records first = records[first].timestamp := by
      simp [recordTime, List.getElem?_eq_getElem inside']
    by_cases far : records[stop].timestamp - records[first].timestamp > us
    · obtain ⟨first', later, within, covers, dropped, queue⟩ := ih (show first + 1 ≤ stop by omega) (by omega)
      refine ⟨first', by omega, within, covers, fun index fromFirst before => ?_, ?_⟩
      · rcases Nat.eq_or_lt_of_le fromFirst with rfl | later'
        · simp only [Padding.Covers, time, time']
          omega
        · exact dropped index later' before
      · rw [segment_cons (by omega) inside, List.dropWhile_cons_of_pos (by simpa using far), queue]
    · refine ⟨first, le_rfl, behind, ?_, by omega, ?_⟩
      · simp only [Padding.Covers, time, time']
        omega
      · rw [segment_cons (by omega) inside, List.dropWhile_cons_of_neg (by simpa using far)]

theorem queueRecord_segment (before : Padding) {first stop : Nat} (behind : first ≤ stop)
    (inside : stop < records.length) (near : first < stop → before.Covers records first (stop - 1)) :
    ∃ first', first ≤ first' ∧ first' ≤ stop ∧ before.Covers records first' stop ∧
      (∀ index, first ≤ index → index < first' → ¬ before.Covers records index stop) ∧
      queueRecord before (segment records first stop) records[stop] = segment records first' (stop + 1) := by
  cases before with
  | records count => exact queueRecord_records count behind inside near
  | duration us => exact queueRecord_duration us behind inside

end Segments

section After

variable {after : Padding} {records : List Record} {matched : Nat → Bool}

def CtxAfter.Remembers (ctx : CtxAfter) (records : List Record) (matched : Nat → Bool) (index : Nat) : Prop :=
  match ctx.after with
  -- what is left of the count at each later index, as long as there is no other match
  | .records count => ∀ ahead : Nat, 0 ≤ ctx.count - (ahead + 1) ↔
      ∃ hit < index, matched hit = true ∧ index + ahead - hit ≤ count
  | .duration _ => (ctx.lastTs = none ∧ ∀ hit < index, matched hit ≠ true) ∨
      ∃ last < index, matched last = true ∧ ctx.lastTs = some (recordTime records last) ∧
        ∀ hit < index, matched hit = true → hit ≤ last

theorem remembers_start (after : Padding) :
    CtxAfter.Remembers { after, count := 0, lastTs := none } records matched 0 := by
  cases after with
  | records count =>
    intro ahead
    simp
    omega
  | duration us => exact Or.inl ⟨rfl, by simp⟩

theorem earlier_hit {index : Nat} (noHit : matched index = false) : ∀ hit ≤ index, matched hit = true → hit < index := by
  intro hit within hits
  rcases Nat.eq_or_lt_of_le within with rfl | earlier
  · simp [noHit] at hits
  · exact earlier

theorem check_records {ctx : CtxAfter} {count index : Nat} (isAfter : ctx.after = .records count) (time : Nat)
    (remembers : ctx.Remembers records matched index) :
    ((ctx.check (matched index) time).1 = true ↔ PassesAt (.records count) records matched index) ∧
      (ctx.check (matched index) time).2.Remembers records matched (index + 1) := by
  simp only [CtxAfter.Remembers, isAfter] at remembers
  simp only [CtxAfter.check, CtxAfter.Remembers, isAfter, PassesAt, Padding.Covers]
  cases isHit : matched index with
  | true =>
    refine ⟨?_, fun ahead => ?_⟩
    · simpa using ⟨index, le_rfl, isHit, by omega⟩
    · simp only [if_true]
      constructor
      · intro left
        exact ⟨index, by omega, isHit, by omega⟩
      · rintro ⟨hit, within, -, close⟩
        omega
  | false =>
    have other := @earlier_hit _ _ isHit
    refine ⟨?_, fun ahead => ?_⟩
    · have now := remembers 0
      simp only [Nat.cast_zero, zero_add, Nat.add_zero] at now
      simp only [Bool.false_eq_true, if_false, decide_eq_true_eq, ge_iff_le, now]
      constructor
      · rintro ⟨hit, within, hits, close⟩
        exact ⟨hit, within.le, hits, close⟩
      · rintro ⟨hit, within, hits, close⟩
        exact ⟨hit, other hit within hits, hits, close⟩
    · have later := remembers (ahead + 1)
      have same : ctx.count - 1 - ((ahead : Int) + 1) = ctx.count - (((ahead + 1 : Nat) : Int) + 1) := by
        push_cast
        ring
      simp only [Bool.false_eq_true, if_false, same, later]
      constructor
      · rintro ⟨hit, within, hits, close⟩
        exact ⟨hit, by omega, hits, by omega⟩
      · rintro ⟨hit, within, hits, close⟩
        exact ⟨hit, other hit (by omega) hits, hits, by omega⟩

theorem check_duration (ordered : InOrder records) {ctx : CtxAfter} {us index : Nat}
    (isAfter : ctx.after = .duration us) (inside : index < records.length)
    (fits : ∀ record ∈ records, record.timestamp + us < 2 ^ 64) (remembers : ctx.Remembers records matched index) :
    ((ctx.check (matched index) (recordTime records index)).1 = true ↔
        PassesAt (.duration us) records matched index) ∧
      (ctx.check (matched index) (recordTime records index)).2.Remembers records matched (index + 1) := by
  have fit : ∀ earlier < records.length, (recordTime records earlier + us) % 2 ^ 64 = recordTime records earlier + us := by
    intro earlier within
    rw [Nat.mod_eq_of_lt]
    simpa [recordTime, List.getElem?_eq_getElem within] using fits _ (List.getElem_mem within)
  simp only [CtxAfter.Remembers, isAfter] at remembers
  simp only [CtxAfter.check, CtxAfter.Remembers, isAfter, PassesAt, Padding.Covers]
  cases isHit : matched index with
  | true =>
    refine ⟨?_, Or.inr ⟨index, by omega, isHit, rfl, by omega⟩⟩
    simp only [if_true, Option.any_some, fit index inside, decide_eq_true_eq]
    exact ⟨fun _ => ⟨index, le_rfl, isHit, by omega⟩, fun _ => by omega⟩
  | false =>
    have other := @earlier_hit _ _ isHit
    simp only [Bool.false_eq_true, if_false]
    rcases remembers with ⟨none, noHit⟩ | ⟨last, within, hits, isLast, greatest⟩
    · refine ⟨?_, Or.inl ⟨none, fun hit ahead hits => noHit hit (other hit (by omega) hits) hits⟩⟩
      simp only [none, Option.any_none, Bool.false_eq_true, false_iff]
      rintro ⟨hit, ahead, hits, -⟩
      exact noHit hit (other hit ahead hits) hits
    · refine ⟨?_, Or.inr ⟨last, by omega, hits, isLast, fun hit ahead hits' => greatest hit (other hit (by omega) hits') hits'⟩⟩
      have ordered' := ordered.time_le within.le inside
      simp only [isLast, Option.any_some, fit last (by omega), decide_eq_true_eq]
      constructor
      · intro recent
        exact ⟨last, within.le, hits, by omega⟩
      · rintro ⟨hit, ahead, hits', close⟩
        have := ordered.time_le (greatest hit (other hit ahead hits') hits') (by omega)
        omega

theorem check_remembers (ordered : InOrder records) {ctx : CtxAfter} {index : Nat} (inside : index < records.length)
    (fits : ∀ us, ctx.after = .duration us → ∀ record ∈ records, record.timestamp + us < 2 ^ 64)
    (remembers : ctx.Remembers records matched index) :
    ((ctx.check (matched index) (recordTime records index)).1 = true ↔ PassesAt ctx.after records matched index) ∧
      (ctx.check (matched index) (recordTime records index)).2.Remembers records matched (index + 1) := by
  cases isAfter : ctx.after with
  | records count => exact check_records isAfter _ remembers
  | duration us => exact check_duration ordered isAfter inside (fits us isAfter) remembers

theorem check_after (ctx : CtxAfter) (condition : Bool) (time : Nat) : (ctx.check condition time).2.after = ctx.after := by
  unfold CtxAfter.check
  split <;> rfl

end After

section Shown

variable {before after : Padding} {records : List Record} {matched : Nat → Bool} {names : List String}

theorem shownFrom_cons {index : Nat} (inside : index < records.length) :
    shownFrom before after records matched names index =
      (if Shown before after records matched index then [selectLabels names records[index]] else []) ++
        shownFrom before after records matched names (index + 1) := by
  have inside' : index < records.zipIdx.length := by simpa using inside
  rw [shownFrom, List.drop_eq_getElem_cons inside', List.getElem_zipIdx, Nat.zero_add]
  by_cases shown : Shown before after records matched index
  · rw [List.filter_cons_of_pos (by simpa using shown), if_pos shown]
    rfl
  · rw [List.filter_cons_of_neg (by simpa using shown), if_neg shown]
    rfl

theorem shownFrom_skip {first stop : Nat} (behind : first ≤ stop) (inside : stop ≤ records.length)
    (hidden : ∀ index, first ≤ index → index < stop → ¬ Shown before after records matched index) :
    shownFrom before after records matched names first = shownFrom before after records matched names stop := by
  induction behind using Nat.decreasingInduction with
  | self => rfl
  | of_succ first behind ih =>
    have later := ih fun index fromFirst => hidden index (by omega)
    rw [shownFrom_cons (by omega), if_neg (hidden first le_rfl behind), List.nil_append, later]

theorem shownFrom_take {first stop : Nat} (behind : first ≤ stop) (inside : stop ≤ records.length)
    (shown : ∀ index, first ≤ index → index < stop → Shown before after records matched index) :
    shownFrom before after records matched names first =
      (segment records first stop).map (selectLabels names) ++ shownFrom before after records matched names stop := by
  induction behind using Nat.decreasingInduction with
  | self => simp [segment]
  | of_succ first behind ih =>
    have later := ih fun index fromFirst => shown index (by omega)
    rw [shownFrom_cons (by omega), if_pos (shown first le_rfl behind), later, segment_cons behind inside]
    rfl

end Shown

namespace WhenFilter

section Run

variable (condition : Condition) (before after : Padding) (names : List String) (records : List Record)
  (matched : Nat → Bool)

structure Tracks (filter : WhenFilter) (first index : Nat) : Prop where
  isCondition : filter.condition = condition
  isBefore : filter.ctxBefore = before
  isAfter : filter.ctxAfter.after = after
  selects : filter.labelSelector = names
  waiting : filter.ctxBuffer = segment records first index
  contexts : filter.applied = (records.take index).map contextOf
  remembers : filter.ctxAfter.Remembers records matched index
  behind : first ≤ index
  near : first < index → before.Covers records first (index - 1)
  silent : ∀ earlier, first ≤ earlier → earlier < index → ¬ PassesAt after records matched earlier

variable {condition before after names records matched}

theorem tracks_new (strict : Bool) :
    Tracks condition before after names records matched (new condition strict before after names) 0 0 where
  isCondition := rfl
  isBefore := rfl
  isAfter := rfl
  selects := rfl
  waiting := by simp [new, segment]
  contexts := by simp [new]
  remembers := remembers_start after
  behind := le_rfl
  near := by omega
  silent := by omega

theorem Tracks.hidden (ordered : InOrder records) {filter : WhenFilter} {first index earlier : Nat}
    (tracks : Tracks condition before after names records matched filter first index) (inside : index < records.length)
    (fromFirst : first ≤ earlier) (waits : earlier < index) (far : ¬ before.Covers records earlier index) :
    ¬ Shown before after records matched earlier := by
  rw [shown_iff (by omega)]
  rintro (passes | ⟨hit, within, ahead, isHit, covers⟩)
  · exact tracks.silent earlier fromFirst waits passes
  · rcases Nat.lt_or_ge hit index with seen | later
    · exact tracks.silent hit (by omega) seen (passesAt_of_match isHit)
    · exact far (covers.inner ordered le_rfl later within waits.le)

theorem Tracks.shown (ordered : InOrder records) {filter : WhenFilter} {first first' index earlier : Nat}
    (tracks : Tracks condition before after names records matched filter first index) (inside : index < records.length)
    (later : first ≤ first') (covers : before.Covers records first' index)
    (passes : PassesAt after records matched index) (fromFirst : first' ≤ earlier) (upTo : earlier ≤ index) :
    Shown before after records matched earlier := by
  rw [shown_iff (by omega)]
  cases isHit : matched index with
  | true => exact Or.inr ⟨index, inside, upTo, isHit, covers.inner ordered fromFirst le_rfl inside upTo⟩
  | false =>
    rcases Nat.eq_or_lt_of_le upTo with rfl | waits
    · exact Or.inl passes
    · -- the window after the match would have let the record before this one through
      obtain ⟨hit, ahead, hits, window⟩ := passes
      have behind := earlier_hit isHit hit ahead hits
      have passed : PassesAt after records matched (index - 1) :=
        ⟨hit, by omega, hits, window.inner ordered le_rfl (by omega) inside (by omega)⟩
      exact absurd passed (tracks.silent (index - 1) (by omega) (by omega))

theorem Tracks.step (ordered : InOrder records) (yields : Yields condition records matched)
    (fits : ∀ us, after = .duration us → ∀ record ∈ records, record.timestamp + us < 2 ^ 64)
    {filter : WhenFilter} {first index : Nat} (inside : index < records.length)
    (tracks : Tracks condition before after names records matched filter first index) :
    ∃ first' found next, filter.filter records[index] = (.ok (some found), next) ∧
      Tracks condition before after names records matched next first' (index + 1) ∧
      shownFrom before after records matched names first =
        found ++ shownFrom before after records matched names first' := by
  obtain ⟨first', later, within, covers, dropped, queue⟩ := queueRecord_segment before tracks.behind inside tracks.near
  have time : recordTime records index = records[index].timestamp := by
    simp [recordTime, List.getElem?_eq_getElem inside]
  have contexts : filter.applied ++ [contextOf records[index]] = (records.take (index + 1)).map contextOf := by
    rw [tracks.contexts, List.take_add_one, List.getElem?_eq_getElem inside, List.map_append]
    rfl
  have value : filter.evaluate ((records.take (index + 1)).map contextOf) = .ok (some (matched index)) := by
    rw [evaluate, tracks.isCondition, yields index inside]
    rfl
  obtain ⟨passes, remembers⟩ := check_remembers ordered inside (tracks.isAfter ▸ fits) tracks.remembers
  rw [time, tracks.isAfter] at passes
  rw [time] at remembers
  have skipped : shownFrom before after records matched names first = shownFrom before after records matched names first' :=
    shownFrom_skip later (by omega) fun earlier fromFirst upTo =>
      tracks.hidden ordered inside fromFirst (by omega) (dropped earlier fromFirst upTo)
  have filtered := filter_value (contexts ▸ value)
  rw [tracks.waiting, tracks.isBefore, queue, contexts] at filtered
  by_cases passed : (filter.ctxAfter.check (matched index) records[index].timestamp).1 = true
  · rw [if_pos passed] at filtered
    refine ⟨index + 1, _, _, filtered, ?_, ?_⟩
    · exact ⟨tracks.isCondition, rfl, (check_after _ _ _).trans tracks.isAfter, tracks.selects, by simp [segment], rfl,
        remembers, le_rfl, by omega, by omega⟩
    · rw [skipped, tracks.selects]
      exact shownFrom_take (by omega) inside fun earlier fromFirst upTo =>
        tracks.shown ordered inside later covers (passes.mp passed) fromFirst (by omega)
  · rw [if_neg passed] at filtered
    refine ⟨first', _, _, filtered, ?_, skipped⟩
    refine ⟨tracks.isCondition, rfl, (check_after _ _ _).trans tracks.isAfter, tracks.selects, rfl, rfl, remembers,
      by omega, fun _ => covers, fun earlier fromFirst upTo => ?_⟩
    rcases Nat.lt_succ_iff_lt_or_eq.mp upTo with before | rfl
    · exact tracks.silent earlier (by omega) before
    · exact fun passing => passed (passes.mpr passing)

theorem Tracks.filterAll_eq (ordered : InOrder records) (yields : Yields condition records matched)
    (fits : ∀ us, after = .duration us → ∀ record ∈ records, record.timestamp + us < 2 ^ 64)
    {filter : WhenFilter} {first index : Nat} (inside : index ≤ records.length)
    (tracks : Tracks condition before after names records matched filter first index) :
    filterAll filter (records.drop index) = shownFrom before after records matched names first := by
  induction left : records.length - index generalizing filter first index with
  | zero =>
    obtain rfl : index = records.length := by omega
    have none : shownFrom before after records matched names first =
        shownFrom before after records matched names records.length := by
      refine shownFrom_skip tracks.behind le_rfl fun earlier fromFirst upTo => ?_
      rw [shown_iff upTo]
      rintro (passes | ⟨hit, within, ahead, isHit, -⟩)
      · exact tracks.silent earlier fromFirst upTo passes
      · exact tracks.silent hit (by omega) within (passesAt_of_match isHit)
    have rest : records.drop records.length = [] := List.drop_eq_nil_of_le le_rfl
    have rest' : records.zipIdx.drop records.length = [] := List.drop_eq_nil_of_le (by simp)
    rw [none, rest, shownFrom, rest']
    rfl
  | succ left ih =>
    have inside' : index < records.length := by omega
    obtain ⟨first', found, next, filtered, tracks', shown⟩ := tracks.step ordered yields fits inside'
    rw [List.drop_eq_getElem_cons inside', filterAll, filtered, shown, ih inside' tracks' (by omega)]

/-- The filter lets through, in their order and each once, the records in the window of a match. -/
theorem filterAll_windows (condition : Condition) (strict : Bool) (before after : Padding) (names : List String)
    (records : List Record) (matched : Nat → Bool) (ordered : InOrder records)
    (yields : Yields condition records matched)
    (fits : ∀ us, after = .duration us → ∀ record ∈ records, record.timestamp + us < 2 ^ 64) :
    filterAll (new condition strict before after names) records =
      (records.zipIdx.filter fun item => Shown before after records matched item.2).map fun item =>
        selectLabels names item.1 := by
  have tracks : Tracks condition before after names records matched (new condition strict before after names) 0 0 :=
    tracks_new strict
  simpa [shownFrom] using tracks.filterAll_eq ordered yields fits (Nat.zero_le records.length)

def plainRecord (timestamp : Nat) : Record :=
  { timestamp, beginPos := 0, endPos := 0, state := .finished, labels := [], contentType := "" }

theorem filterAll_windows_match :
    filterAll (new (fun contexts => .ok (.ok (contexts.getLast?.any (·.timestamp = 5)))) true (.records 1) (.duration 2) [])
      ([1, 3, 5, 6, 7, 8].map plainRecord) = [3, 5, 6, 7].map plainRecord := by
  have fits : ∀ us, Padding.duration 2 = .duration us →
      ∀ record ∈ [1, 3, 5, 6, 7, 8].map plainRecord, record.timestamp + us < 2 ^ 64 := by
    rintro us ⟨rfl⟩
    decide
  rw [filterAll_windows _ true (.records 1) (.duration 2) [] ([1, 3, 5, 6, 7, 8].map plainRecord) (· = 2)
    (by unfold InOrder; decide) (by unfold Yields; decide) fits]
  decide

end Run

end WhenFilter

end ReductStore
