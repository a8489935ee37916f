import ReductStore.Shared.Machine

set_option autoImplicit false

namespace ReductStore

namespace LockFile

inductive InstanceRole where
  | primary
  | secondary
  deriving DecidableEq

inductive State where
  | waiting
  | locked
  | failed
  deriving DecidableEq

inductive Phase where
  | polling
  | pausing
  | atHead (first : Bool)
  | writing (first : Bool)
  | written
  | sleeping
  | ended
  deriving DecidableEq

structure Instance where
  role : InstanceRole
  phase : Phase := .polling
  state : State := .waiting
  stopFlag : Bool := false
  dropped : Bool := false
  deriving DecidableEq

structure Shared (I : Type) where
  file : Option I
  instances : I → Instance

inductive Turn (I : Type) where
  | run (id : I) (timedOut : Bool)
  | drop (id : I)
  | removeLockFile (id : I)

variable {I : Type} [DecidableEq I]

omit [DecidableEq I] in
def start (roles : I → InstanceRole) (file : Option I) : Shared I :=
  { file, instances := fun id => { role := roles id } }

def Shared.set (shared : Shared I) (id : I) (task : Instance) : Shared I :=
  { shared with instances := Function.update shared.instances id task }

omit [DecidableEq I] in
/-- One step of the task. No lock is older than its time to live, and the task aborts when it has waited too long. -/
def Instance.next (task : Instance) (locked foreign timedOut : Bool) : Instance :=
  match task.phase with
  | .polling =>
    if task.stopFlag then { task with phase := .ended }
    else if locked then if timedOut then { task with state := .failed, phase := .ended } else task
    else
      match task.role with
      | .primary => { task with phase := .atHead true }
      | .secondary => { task with phase := .pausing }
  | .pausing => { task with phase := if locked then .polling else .atHead true }
  | .atHead first => { task with phase := if task.stopFlag then .ended else .writing first }
  | .writing first => { task with phase := if first then .written else .sleeping }
  | .written => { task with state := .locked, phase := .sleeping }
  -- `check_lock_owner_id`: a secondary instance panics at another owner.
  | .sleeping => { task with phase := if task.role = .secondary ∧ foreign then .ended else .atHead false }
  | .ended => task

omit [DecidableEq I] in
def Instance.writes (task : Instance) : Bool :=
  match task.phase with
  | .writing _ => true
  | _ => false

def runLockTask (shared : Shared I) (id : I) (timedOut : Bool) : Shared I :=
  let task := shared.instances id
  let foreign := shared.file.any (· ≠ id)
  { shared.set id (task.next shared.file.isSome foreign timedOut) with
    file := if task.writes then some id else shared.file }

def apply (shared : Shared I) : Turn I → Shared I
  | .run id timedOut => runLockTask shared id timedOut
  | .drop id => shared.set id { shared.instances id with stopFlag := true }
  | .removeLockFile id =>
    if (shared.instances id).stopFlag then
      { shared.set id { shared.instances id with dropped := true } with file := none }
    else shared

omit [DecidableEq I] in
def Shared.Locked (shared : Shared I) (id : I) : Prop :=
  (shared.instances id).dropped = false ∧ (shared.instances id).state = .locked

def Instance.Pending (task : Instance) : Prop :=
  task.dropped = false ∧ (task.phase = .atHead true ∨ task.phase = .writing true)

def Instance.Contends (task : Instance) : Prop :=
  task.dropped = false ∧
    (task.phase = .atHead true ∨ task.phase = .writing true ∨ task.phase = .written ∨ task.state = .locked)

def Instance.Ordered (task : Instance) : Prop :=
  task.state = .locked → task.phase ∈ [.atHead false, .writing false, .sleeping, .ended]

-- the look after which an instance that finds no file goes on to write it: for a secondary one the look behind its pause
def Instance.LooksLast (task : Instance) : Prop :=
  task.phase = .polling ∧ task.role = .primary ∧ task.stopFlag = false ∨ task.phase = .pausing

/-- The last look of an instance finds no lock file only while no other one is about to write it, and the file is removed only
while no other instance has found none before. -/
def Careful (shared : Shared I) : Turn I → Prop
  | .run id _ => shared.file = none → (shared.instances id).LooksLast →
      ∀ other, other ≠ id → ¬ (shared.instances other).Pending
  | .drop _ => True
  | .removeLockFile id => ∀ other, other ≠ id → ¬ (shared.instances other).Contends

structure Exclusive (shared : Shared I) : Prop where
  ordered : ∀ id, (shared.instances id).Ordered
  single : ∀ first second, (shared.instances first).Contends → (shared.instances second).Contends → first = second
  present : ∀ id, (shared.instances id).Contends → ¬ (shared.instances id).Pending → shared.file.isSome

section Turns

variable {shared : Shared I}

omit [DecidableEq I] in
theorem next_ordered (task : Instance) (ordered : task.Ordered) (locked foreign timedOut : Bool) :
    (task.next locked foreign timedOut).Ordered := by
  unfold Instance.Ordered at ordered ⊢
  unfold Instance.next
  split <;> grind

omit [DecidableEq I] in
theorem next_contends (task : Instance) (ordered : task.Ordered) (locked foreign timedOut : Bool)
    (after : (task.next locked foreign timedOut).Contends) :
    (task.Contends ∧ ((task.next locked foreign timedOut).Pending ∨ ¬ task.Pending ∨ task.writes = true)) ∨
      (locked = false ∧ task.LooksLast ∧ (task.next locked foreign timedOut).Pending) := by
  unfold Instance.Ordered at ordered
  unfold Instance.Contends Instance.Pending Instance.writes Instance.LooksLast at *
  unfold Instance.next at *
  -- one case for each phase
  split <;> grind

theorem set_self (id : I) (task : Instance) : (shared.set id task).instances id = task := Function.update_self ..

theorem set_other {id other : I} (task : Instance) (apart : other ≠ id) :
    (shared.set id task).instances other = shared.instances other := Function.update_of_ne apart ..

theorem Exclusive.ordered_set (exclusive : Exclusive shared) (id : I) {task : Instance} (own : task.Ordered) (other : I) :
    ((shared.set id task).instances other).Ordered := by
  by_cases same : other = id
  · rw [same, set_self]
    exact own
  · rw [set_other task same]
    exact exclusive.ordered other

theorem Exclusive.run (exclusive : Exclusive shared) (id : I) (timedOut : Bool) (careful : Careful shared (.run id timedOut)) :
    Exclusive (runLockTask shared id timedOut) := by
  have ordered := next_ordered _ (exclusive.ordered id) shared.file.isSome (shared.file.any (· ≠ id)) timedOut
  have step := next_contends _ (exclusive.ordered id) shared.file.isSome (shared.file.any (· ≠ id)) timedOut
  have kept : shared.file.isSome → (runLockTask shared id timedOut).file.isSome := by
    intro exists_
    simp only [runLockTask]
    split_ifs
    · rfl
    · exact exists_
  have others (other : I) (apart : other ≠ id) :
      (runLockTask shared id timedOut).instances other = shared.instances other := set_other _ apart
  have own : (runLockTask shared id timedOut).instances id =
      (shared.instances id).next shared.file.isSome (shared.file.any (· ≠ id)) timedOut := set_self ..
  -- Beside a claim that the step makes or keeps there is no other one.
  have alone (other : I) (apart : other ≠ id) (claimed : ((runLockTask shared id timedOut).instances id).Contends) :
      ¬ ((runLockTask shared id timedOut).instances other).Contends := by
    rw [own] at claimed
    rw [others other apart]
    intro contends
    rcases step claimed with ⟨before, _⟩ | ⟨absent, last, _⟩
    · exact apart (exclusive.single other id contends before)
    · have none : shared.file = none := by simpa using absent
      have pending := careful none last other apart
      rw [exclusive.present other contends pending] at absent
      exact Bool.noConfusion absent
  refine ⟨exclusive.ordered_set id ordered, fun first second claimed claims => ?_, fun other claimed settled => ?_⟩
  · by_cases left : first = id
    · by_cases right : second = id
      · rw [left, right]
      · exact absurd claims (alone second right (left ▸ claimed))
    · by_cases right : second = id
      · exact absurd claimed (alone first left (right ▸ claims))
      · rw [others first left] at claimed
        rw [others second right] at claims
        exact exclusive.single first second claimed claims
  · by_cases same : other = id
    · subst same
      rw [own] at claimed settled
      rcases step claimed with ⟨before, pending | done | writes⟩ | ⟨_, _, pending⟩
      · exact absurd pending settled
      · exact kept (exclusive.present other before done)
      · simp [runLockTask, writes]
      · exact absurd pending settled
    · rw [others other same] at claimed settled
      exact kept (exclusive.present other claimed settled)

theorem Exclusive.drop (exclusive : Exclusive shared) (id : I) : Exclusive (apply shared (.drop id)) := by
  have ordered : ({ shared.instances id with stopFlag := true } : Instance).Ordered := exclusive.ordered id
  have same (other : I) : (((apply shared (.drop id)).instances other).Contends ↔ (shared.instances other).Contends) ∧
      (((apply shared (.drop id)).instances other).Pending ↔ (shared.instances other).Pending) := by
    by_cases equal : other = id
    · subst equal
      exact ⟨by rw [apply, set_self]; rfl, by rw [apply, set_self]; rfl⟩
    · exact ⟨by rw [apply, set_other _ equal], by rw [apply, set_other _ equal]⟩
  refine ⟨exclusive.ordered_set id ordered, fun first second claimed claims => ?_, fun other claimed settled => ?_⟩
  · exact exclusive.single first second ((same first).1.mp claimed) ((same second).1.mp claims)
  · exact exclusive.present other ((same other).1.mp claimed) (mt (same other).2.mpr settled)

theorem Exclusive.removeLockFile (exclusive : Exclusive shared) (id : I) (careful : Careful shared (.removeLockFile id)) :
    Exclusive (apply shared (.removeLockFile id)) := by
  by_cases stopped : (shared.instances id).stopFlag = true
  · have ordered : ({ shared.instances id with dropped := true } : Instance).Ordered := exclusive.ordered id
    have none (other : I) : ¬ ((shared.set id { shared.instances id with dropped := true }).instances other).Contends := by
      by_cases same : other = id
      · rw [same, set_self]
        exact fun contends => Bool.noConfusion contends.1
      · rw [set_other _ same]
        exact careful other same
    rw [LockFile.apply, if_pos stopped]
    exact ⟨exclusive.ordered_set id ordered, fun first _ claimed => absurd claimed (none first),
      fun other claimed => absurd claimed (none other)⟩
  · rwa [LockFile.apply, if_neg stopped]

theorem Exclusive.apply (exclusive : Exclusive shared) (turn : Turn I) (careful : Careful shared turn) :
    Exclusive (apply shared turn) := by
  cases turn with
  | run id timedOut => exact exclusive.run id timedOut careful
  | drop id => exact exclusive.drop id
  | removeLockFile id => exact exclusive.removeLockFile id careful

omit [DecidableEq I] in
theorem exclusive_start (roles : I → InstanceRole) (file : Option I) : Exclusive (start roles file) := by
  have idle (id : I) : ¬ ((start roles file).instances id).Contends := by simp [start, Instance.Contends]
  exact ⟨fun id held => (nomatch held), fun first _ claimed => absurd claimed (idle first),
    fun id claimed => absurd claimed (idle id)⟩

end Turns

/-- In every run of the instances that keeps the condition at most one is locked, and a turn that removes the file while an
instance is locked is the end of the drop of that instance. -/
theorem locked_single {roles : I → InstanceRole} {file : Option I} {shared : Shared I}
    (run : Runs apply Careful (start roles file) shared) :
    (∀ first second, shared.Locked first → shared.Locked second → first = second) ∧
    ∀ turn, Careful shared turn → ∀ id, shared.Locked id → shared.file.isSome → (apply shared turn).file = none →
      turn = .removeLockFile id := by
  have exclusive : Exclusive shared :=
    run.invariant Exclusive (exclusive_start roles file) fun _ turn held careful => held.apply turn careful
  have contends (id : I) (locked : shared.Locked id) : (shared.instances id).Contends :=
    ⟨locked.1, .inr (.inr (.inr locked.2))⟩
  refine ⟨fun first second left right => exclusive.single first second (contends first left) (contends second right), ?_⟩
  intro turn careful id locked present removed
  cases turn with
  | run other timedOut =>
    simp only [apply, runLockTask] at removed
    split_ifs at removed
    rw [removed] at present
    exact Bool.noConfusion present
  | drop other =>
    change shared.file = none at removed
    rw [removed] at present
    exact Bool.noConfusion present
  | removeLockFile other =>
    by_cases same : other = id
    · rw [same]
    · exact absurd (contends id locked) (careful id (Ne.symm same))

section Sample

instance (task : Instance) : Decidable task.Pending := inferInstanceAs (Decidable (_ ∧ _))

instance (task : Instance) : Decidable task.Contends := inferInstanceAs (Decidable (_ ∧ _))

instance (task : Instance) : Decidable task.LooksLast := inferInstanceAs (Decidable (_ ∨ _))

instance (shared : Shared Bool) (id : Bool) : Decidable (shared.Locked id) := inferInstanceAs (Decidable (_ ∧ _))

instance (shared : Shared Bool) (turn : Turn Bool) : Decidable (Careful shared turn) :=
  match turn with
  | .run id _ => inferInstanceAs (Decidable (shared.file = none → (shared.instances id).LooksLast →
      ∀ other, other ≠ id → ¬ (shared.instances other).Pending))
  | .drop _ => .isTrue trivial
  | .removeLockFile id => inferInstanceAs (Decidable (∀ other, other ≠ id → ¬ (shared.instances other).Contends))

def rivals : Shared Bool := start (fun id => if id then .secondary else .primary) none

-- the secondary instance looks first while the primary one is about to write, and again when the file is there
def yielding : List (Turn Bool) :=
  [.run false false, .run true false, .run false false, .run false false, .run true false, .run false false]

theorem locked_single_acquired :
    (yielding.foldl apply rivals).Locked false ∧ ∀ other, (yielding.foldl apply rivals).Locked other → other = false := by
  have run : Runs apply Careful rivals (yielding.foldl apply rivals) := by
    simp only [yielding, List.foldl_cons, List.foldl_nil]
    refine .step (.step (.step (.step (.step (.step .start _ ?_) _ ?_) _ ?_) _ ?_) _ ?_) _ ?_
    all_goals decide +kernel
  have locked : (yielding.foldl apply rivals).Locked false := by decide +kernel
  exact ⟨locked, fun other held => (locked_single run).1 other false held locked⟩

def primaries : Shared Bool := start (fun _ => .primary) none

def acquiring : List (Turn Bool) :=
  [.run false false, .run false false, .run false false, .run true false, .run false false, .run true false]

theorem both_locked :
    (∃ shared, shared = ([.run false false, .run true false, .run false false, .run true false, .run false false,
        .run true false, .run false false, .run true false] : List (Turn Bool)).foldl apply primaries ∧
      shared.Locked false ∧ shared.Locked true) ∧
    ∃ shared, shared = apply (acquiring.foldl apply primaries) (.drop true) ∧ shared.Locked false ∧ ¬ shared.Locked true ∧
      shared.file = some false ∧ (apply shared (.removeLockFile true)).file = none :=
  ⟨⟨_, rfl, by decide +kernel, by decide +kernel⟩,
    ⟨_, rfl, by decide +kernel, by decide +kernel, by decide +kernel, by decide +kernel⟩⟩

end Sample

end LockFile

end ReductStore
