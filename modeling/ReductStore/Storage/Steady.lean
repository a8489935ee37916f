import ReductStore.Storage.Persistence

set_option autoImplicit false

namespace ReductStore.BlockManager

open Std TreeMap

/-- The block that an id stands for: what `load_block` returns for a block in service. -/
def view (manager : BlockManager) (blockId : Nat) : Option Block :=
  if blockId ∈ manager.blockIndex.activeTree then
    match manager.getRead blockId with
    | some ref => some (manager.heap ref)
    | none => manager.disk.desc[blockId]?.map Block.ofProto
  else none

variable [Codec]

/-- Between two operations every block in service has one content, wherever it is read from. -/
structure Steady (manager : BlockManager) : Prop extends Wired manager where
  backed : ∀ blockId, manager.InService blockId → manager.Backed blockId
  settled : ∀ blockId first second, manager.Candidate blockId first → manager.Candidate blockId second →
    first = second

theorem Wired.view_candidate {manager : BlockManager} (wired : manager.Wired) {blockId : Nat} {block : Block}
    (seen : manager.view blockId = some block) : manager.InService blockId ∧ manager.Candidate blockId block := by
  unfold view at seen
  split_ifs at seen with served
  refine ⟨served, ?_⟩
  cases cached : manager.getRead blockId with
  | some ref =>
    simp only [cached, Option.some.injEq] at seen
    exact Or.inl ⟨ref, (wired.getRead_iff blockId ref).mp cached, seen⟩
  | none =>
    simp only [cached, Option.map_eq_some_iff] at seen
    have missing : manager.writeCache[blockId]? = none := (Option.or_eq_none_iff.mp cached).1
    exact Or.inr ⟨missing, seen⟩

theorem Steady.view_iff {manager : BlockManager} (steady : manager.Steady) (blockId : Nat) (block : Block) :
    manager.view blockId = some block ↔ manager.InService blockId ∧ manager.Candidate blockId block := by
  constructor
  · exact steady.toWired.view_candidate
  · rintro ⟨served, candidate⟩
    cases seen : manager.view blockId with
    | some other =>
      rw [steady.settled blockId other block (steady.toWired.view_candidate seen).2 candidate]
    | none =>
      unfold view at seen
      rw [if_pos (show blockId ∈ manager.blockIndex.activeTree from served)] at seen
      cases cached : manager.getRead blockId with
      | some ref => simp [cached] at seen
      | none =>
        have absent := Option.or_eq_none_iff.mp cached
        simp only [cached, Option.map_eq_none_iff] at seen
        rcases steady.backed blockId served with ⟨ref, write⟩ | ⟨proto, desc⟩
        · simp [absent.1] at write
        · simp [seen] at desc

theorem Steady.view_none {manager : BlockManager} (steady : manager.Steady) (blockId : Nat) :
    manager.view blockId = none ↔ ¬ manager.InService blockId := by
  constructor
  · intro missing served
    obtain ⟨block, candidate⟩ := (steady.backed blockId served).candidate
    have seen := (steady.view_iff blockId block).mpr ⟨served, candidate⟩
    simp [missing] at seen
  · intro outside
    cases seen : manager.view blockId with
    | none => rfl
    | some block => exact absurd ((steady.view_iff blockId block).mp seen).1 outside

theorem Steady.view_named {manager : BlockManager} (steady : manager.Steady) {blockId : Nat} {block : Block}
    (seen : manager.view blockId = some block) : block.blockId = blockId :=
  steady.toWired.candidate_named ((steady.view_iff blockId block).mp seen).2

theorem view_update {before after : BlockManager} (old : before.Steady) (new : after.Steady) (target : Nat)
    (block : Block) (served : ∀ blockId, after.InService blockId ↔ before.InService blockId ∨ blockId = target)
    (candidate : ∀ blockId other, after.Candidate blockId other →
      (blockId = target ∧ other = block) ∨ (blockId ≠ target ∧ before.Candidate blockId other)) :
    after.view = Function.update before.view target (some block) := by
  funext blockId
  by_cases same : blockId = target
  · subst same
    rw [Function.update_self, new.view_iff]
    have inService := (served blockId).mpr (Or.inr rfl)
    obtain ⟨found, present⟩ := (new.backed blockId inService).candidate
    rcases candidate blockId found present with ⟨_, rfl⟩ | ⟨apart, _⟩
    · exact ⟨inService, present⟩
    · exact absurd rfl apart
  · rw [Function.update_of_ne same]
    cases seen : after.view blockId with
    | some found =>
      obtain ⟨inService, present⟩ := (new.view_iff blockId found).mp seen
      rcases candidate blockId found present with ⟨equal, _⟩ | ⟨_, was⟩
      · exact absurd equal same
      · have inServiceBefore := ((served blockId).mp inService).resolve_right same
        exact ((old.view_iff blockId found).mpr ⟨inServiceBefore, was⟩).symm
    | none =>
      refine ((old.view_none blockId).mpr ?_).symm
      intro inService
      exact (new.view_none blockId).mp seen ((served blockId).mpr (Or.inl inService))

theorem view_same {before after : BlockManager} (old : before.Steady) (new : after.Steady)
    (served : ∀ blockId, after.InService blockId ↔ before.InService blockId)
    (candidate : ∀ blockId block, after.Candidate blockId block → before.Candidate blockId block) :
    after.view = before.view := by
  funext blockId
  cases seen : after.view blockId with
  | some found =>
    obtain ⟨inService, present⟩ := (new.view_iff blockId found).mp seen
    exact ((old.view_iff blockId found).mpr ⟨(served blockId).mp inService, candidate _ _ present⟩).symm
  | none =>
    refine ((old.view_none blockId).mpr ?_).symm
    intro inService
    exact (new.view_none blockId).mp seen ((served blockId).mpr inService)

theorem Steady.settled_update {before after : BlockManager} (steady : before.Steady) {target : Nat} {block : Block}
    (candidate : ∀ blockId other, after.Candidate blockId other →
      (blockId = target ∧ other = block) ∨ (blockId ≠ target ∧ before.Candidate blockId other))
    (blockId : Nat) (first second : Block) (left : after.Candidate blockId first) (right : after.Candidate blockId second) :
    first = second := by
  rcases candidate blockId first left with ⟨same, rfl⟩ | ⟨apart, leftWas⟩ <;>
    rcases candidate blockId second right with ⟨rightSame, rfl⟩ | ⟨rightApart, rightWas⟩
  · rfl
  · exact absurd same rightApart
  · exact absurd rightSame apart
  · exact steady.settled blockId first second leftWas rightWas

theorem Steady.cached_view {manager : BlockManager} (steady : manager.Steady) {blockId : Nat} {ref : BlockRef}
    (cached : manager.Cached blockId ref) : manager.view blockId = some (manager.heap ref) :=
  (steady.view_iff blockId _).mpr ⟨steady.served blockId ref cached, Or.inl ⟨ref, cached, rfl⟩⟩

theorem Loaded.steady {manager after : BlockManager} {blockId : Nat} {ref : BlockRef}
    (loaded : Loaded manager after blockId ref) (steady : manager.Steady) : after.Steady :=
  { loaded.wired with
    backed := fun other inService => (loaded.backed other).mpr (steady.backed other ((loaded.inService other).mp inService))
    settled := fun other first second left right =>
      steady.settled other first second (loaded.candidates other first left) (loaded.candidates other second right) }

theorem Loaded.view {manager after : BlockManager} {blockId : Nat} {ref : BlockRef}
    (loaded : Loaded manager after blockId ref) (steady : manager.Steady) : after.view = manager.view :=
  view_same steady (loaded.steady steady) loaded.inService loaded.candidates

theorem Steady.load {manager : BlockManager} (steady : manager.Steady) (blockId : Nat)
    (served : manager.InService blockId) :
    ∃ ref after, manager.loadBlock blockId = (.ok ref, after) ∧ Loaded manager after blockId ref :=
  loadBlock_loaded steady.toWired blockId served (steady.backed blockId served)

structure Edited (before changed : BlockManager) (ref : BlockRef) (block : Block) : Prop where
  heap : changed.heap = Function.update before.heap ref block
  next : changed.next = before.next
  write : changed.writeCache = before.writeCache
  read : changed.readCache = before.readCache
  desc : changed.disk.desc = before.disk.desc
  index : changed.blockIndex = before.blockIndex ∨ changed.blockIndex = (before.indexBlock block).blockIndex

theorem Edited.wired {before changed : BlockManager} {ref : BlockRef} {block : Block}
    (edited : Edited before changed ref block) (wired : before.Wired)
    (name : block.blockId = (before.heap ref).blockId) : changed.Wired := by
  rcases edited.index with same | indexed
  · exact (wired.setBlock ref block name).congr edited.heap edited.next edited.write edited.read edited.desc same
  · exact ((wired.setBlock ref block name).indexBlock block).congr edited.heap edited.next edited.write edited.read
      edited.desc indexed

omit [Codec] in
theorem Edited.inService {before changed : BlockManager} {ref : BlockRef} {block : Block}
    (edited : Edited before changed ref block) (served : before.InService block.blockId) (blockId : Nat) :
    changed.InService blockId ↔ before.InService blockId := by
  rcases edited.index with same | indexed
  · simp only [InService, same]
  · have listed := inService_indexBlock before block blockId
    simp only [InService, indexed] at listed ⊢
    rw [listed]
    constructor
    · rintro (old | rfl)
      · exact old
      · exact served
    · exact Or.inl

theorem Edited.candidate {before changed : BlockManager} {ref : BlockRef} {block : Block}
    (edited : Edited before changed ref block) (wired : before.Wired) (blockId : Nat) (other : Block)
    (different : (before.heap ref).blockId ≠ blockId) (candidate : changed.Candidate blockId other) :
    before.Candidate blockId other := by
  refine candidate_setBlock wired ref block blockId other different ?_
  simpa only [Candidate, Cached, edited.heap, edited.write, edited.read, edited.desc, BlockManager.setBlock]
    using candidate

theorem Steady.commit {before changed : BlockManager} (steady : before.Steady) {blockId : Nat} {ref : BlockRef}
    (cached : before.Cached blockId ref) {block : Block} (name : block.blockId = blockId)
    (edited : Edited before changed ref block) :
    (changed.saveBlock ref).Steady ∧ (changed.saveBlock ref).Cached blockId ref ∧
      (changed.saveBlock ref).view = Function.update before.view blockId (some block) := by
  have served := steady.served blockId ref cached
  have oldTitle := steady.named blockId ref cached
  have wired := edited.wired steady.toWired (name.trans oldTitle.symm)
  have content : changed.heap ref = block := by rw [edited.heap, Function.update_self]
  have title : (changed.heap ref).blockId = blockId := by rw [content, name]
  have effect := saveBlock_effect ref (fun other found write => wired.named other found (Or.inl write))
  have changedServed (other : Nat) := edited.inService (name ▸ served) other
  have target : changed.InService (changed.heap ref).blockId := by rw [title, changedServed]; exact served
  have only (other : BlockRef) (read : changed.readCache[(changed.heap ref).blockId]? = some other) : other = ref := by
    rw [title, edited.read] at read
    exact steady.agree blockId other ref (Or.inr read) cached
  have fresh : ref < changed.next := by rw [edited.next]; exact steady.fresh blockId ref cached
  have candidate (other : Nat) (found : Block) (present : (changed.saveBlock ref).Candidate other found) :
      (other = blockId ∧ found = block) ∨ (other ≠ blockId ∧ before.Candidate other found) := by
    rcases effect.candidate only other found present with ⟨same, rfl⟩ | ⟨apart, was⟩
    · exact Or.inl ⟨same.trans title, content⟩
    · rw [title] at apart
      exact Or.inr ⟨apart, edited.candidate steady.toWired other found (oldTitle ▸ apart.symm) was⟩
  have after : (changed.saveBlock ref).Steady := by
    refine { effect.wired wired fresh target only with backed := ?_, settled := steady.settled_update candidate }
    intro other inService
    apply effect.backed
    intro _
    rw [effect.inService wired target, changedServed] at inService
    simpa only [Backed, edited.write, edited.desc] using steady.backed other inService
  refine ⟨after, Or.inl (title ▸ effect.target), view_update steady after blockId block ?_ candidate⟩
  intro other
  rw [effect.inService wired target, changedServed]
  constructor
  · exact Or.inl
  · rintro (old | rfl)
    · exact old
    · exact served

end ReductStore.BlockManager
