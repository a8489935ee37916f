import ReductStore.Storage.Steady

set_option autoImplicit false

namespace ReductStore.BlockManager

open Std TreeMap

variable [Codec]

section Start

def opened (manager : BlockManager) (blockId maxBlockSize : Nat) : BlockManager :=
  (((manager.modifyData blockId (if manager.backendType = .filesystem then (File.setLen · maxBlockSize) else id)).indexBlock
    (Block.new blockId)).allocate (Block.new blockId)).2

theorem startNewBlock_eq (manager : BlockManager) (blockId maxBlockSize : Nat) :
    manager.startNewBlock blockId maxBlockSize =
      (manager.next, (manager.opened blockId maxBlockSize).saveBlock manager.next) := rfl

omit [Codec] in
theorem opened_heap (manager : BlockManager) (blockId maxBlockSize : Nat) :
    (manager.opened blockId maxBlockSize).heap manager.next = Block.new blockId := by
  simp [opened, allocate, setBlock, indexBlock, modifyData]

theorem startNewBlock_heap (manager : BlockManager) (blockId maxBlockSize : Nat) :
    (manager.startNewBlock blockId maxBlockSize).2.heap (manager.startNewBlock blockId maxBlockSize).1 =
      Block.new blockId := by
  rw [startNewBlock_eq]
  exact (congrFun (saveMetas_memory _ _).heap manager.next).trans (opened_heap manager blockId maxBlockSize)

theorem Wired.opened {manager : BlockManager} (wired : manager.Wired) (blockId maxBlockSize : Nat) :
    (manager.opened blockId maxBlockSize).Wired := by
  refine Wired.allocate (Wired.indexBlock ?_ _) _
  exact wired.congr rfl rfl rfl rfl rfl rfl

omit [Codec] in
theorem inService_opened (manager : BlockManager) (blockId maxBlockSize other : Nat) :
    (manager.opened blockId maxBlockSize).InService other ↔ manager.InService other ∨ other = blockId :=
  inService_indexBlock _ (Block.new blockId) other

theorem candidate_opened {manager : BlockManager} (wired : manager.Wired) (blockId maxBlockSize other : Nat)
    (block : Block) (candidate : (manager.opened blockId maxBlockSize).Candidate other block) :
    manager.Candidate other block := by
  have created : (manager.modifyData blockId
      (if manager.backendType = .filesystem then (File.setLen · maxBlockSize) else id)).Wired :=
    wired.congr rfl rfl rfl rfl rfl rfl
  exact (candidate_allocate (created.indexBlock (Block.new blockId)) (Block.new blockId) other block).mp candidate

structure StartEffect (before after : BlockManager) (blockId maxBlockSize : Nat) (ref : BlockRef) : Prop where
  save : SaveEffect (before.opened blockId maxBlockSize) after ref
  wired : after.Wired
  cached : after.Cached blockId ref
  content : after.heap ref = Block.new blockId
  served : ∀ other, after.InService other ↔ before.InService other ∨ other = blockId
  backed : ∀ other, (other ≠ blockId → before.Backed other) → after.Backed other
  candidate : ∀ other block, after.Candidate other block →
    (other = blockId ∧ block = Block.new blockId) ∨ (other ≠ blockId ∧ before.Candidate other block)

theorem startNewBlock_effect {manager : BlockManager} (wired : manager.Wired) (blockId maxBlockSize : Nat)
    (uncached : manager.readCache[blockId]? = none) :
    StartEffect manager (manager.startNewBlock blockId maxBlockSize).2 blockId maxBlockSize manager.next := by
  have openedWired := wired.opened blockId maxBlockSize
  have content := opened_heap manager blockId maxBlockSize
  have effect := saveBlock_effect manager.next (fun other found write => openedWired.named other found (Or.inl write))
  have title : ((manager.opened blockId maxBlockSize).heap manager.next).blockId = blockId := by rw [content]; rfl
  have only (other : BlockRef)
      (read : (manager.opened blockId maxBlockSize).readCache[((manager.opened blockId maxBlockSize).heap
        manager.next).blockId]? = some other) : other = manager.next := by
    rw [title] at read
    exact absurd (read.symm.trans uncached) (by simp)
  have served := (inService_opened manager blockId maxBlockSize _).mpr (Or.inr title)
  have cached := effect.target
  rw [title] at cached
  refine { save := effect, wired := effect.wired openedWired (Nat.lt_succ_self _) served only
           cached := Or.inl cached, content := (congrFun effect.heap manager.next).trans content
           served := ?_, backed := ?_, candidate := ?_ }
  · intro other
    exact (effect.inService openedWired served other).trans (inService_opened manager blockId maxBlockSize other)
  · intro other backed
    apply effect.backed
    rw [title]
    exact backed
  · intro other block candidate
    rcases effect.candidate only other block candidate with ⟨same, rfl⟩ | ⟨apart, was⟩
    · exact Or.inl ⟨same.trans title, content⟩
    · exact Or.inr ⟨by rwa [title] at apart, candidate_opened wired blockId maxBlockSize other block was⟩

theorem Steady.start {manager : BlockManager} (steady : manager.Steady) (blockId maxBlockSize : Nat)
    (uncached : manager.readCache[blockId]? = none) :
    (manager.startNewBlock blockId maxBlockSize).2.Steady ∧
      (manager.startNewBlock blockId maxBlockSize).2.Cached blockId manager.next ∧
      (manager.startNewBlock blockId maxBlockSize).2.view =
        Function.update manager.view blockId (some (Block.new blockId)) := by
  have effect := startNewBlock_effect steady.toWired blockId maxBlockSize uncached
  have after : (manager.startNewBlock blockId maxBlockSize).2.Steady := by
    refine { effect.wired with backed := ?_, settled := steady.settled_update effect.candidate }
    intro other served
    apply effect.backed
    intro apart
    exact steady.backed other (((effect.served other).mp served).resolve_right apart)
  exact ⟨after, effect.cached, view_update steady after blockId (Block.new blockId) effect.served effect.candidate⟩

end Start

section Save

theorem Wired.saveMeta {manager : BlockManager} (wired : manager.Wired) (ref : BlockRef) :
    (manager.saveMetaOnDisk ref).Wired ∧ ∀ blockId, (manager.saveMetaOnDisk ref).InService blockId ↔
      manager.InService blockId ∨ blockId = (manager.heap ref).blockId := by
  obtain ⟨proto, entry, desc, content, title, indexed, sound, crc, _⟩ := saveMeta_saved manager ref
  have served (blockId : Nat) : (manager.saveMetaOnDisk ref).InService blockId ↔
      manager.InService blockId ∨ blockId = (manager.heap ref).blockId := by
    by_cases same : blockId = (manager.heap ref).blockId
    · subst same
      simp only [or_true, iff_true, inService_iff]
      exact ⟨entry, indexed, by simp [sound]⟩
    · have untouched := (saveMeta_untouched manager ref blockId (Ne.symm same)).2.2
      simp only [inService_iff, untouched, same, or_false]
  refine ⟨?_, served⟩
  refine { fresh := wired.fresh, agree := wired.agree, named := wired.named, titled := ?_, served := ?_, checked := ?_ }
  · intro blockId found present
    by_cases same : blockId = (manager.heap ref).blockId
    · subst same
      obtain rfl := Option.some.inj (desc.symm.trans present)
      exact title
    · rw [(saveMeta_untouched manager ref blockId (Ne.symm same)).1] at present
      exact wired.titled blockId found present
  · intro blockId other cached
    exact (served blockId).mpr (Or.inl (wired.served blockId other cached))
  · intro blockId found sum present valid checksum
    by_cases same : blockId = (manager.heap ref).blockId
    · subst same
      obtain rfl := Option.some.inj (indexed.symm.trans present)
      exact ⟨proto, desc, Option.some.inj (crc.symm.trans checksum)⟩
    · have untouched := saveMeta_untouched manager ref blockId (Ne.symm same)
      rw [untouched.2.2] at present
      rw [untouched.1]
      exact wired.checked blockId found sum present valid checksum

theorem candidate_saveMeta {manager : BlockManager} (ref : BlockRef)
    (only : ∀ other, manager.Cached (manager.heap ref).blockId other → other = ref) (blockId : Nat) (block : Block)
    (candidate : (manager.saveMetaOnDisk ref).Candidate blockId block) :
    (blockId = (manager.heap ref).blockId ∧ block = manager.heap ref) ∨
      (blockId ≠ (manager.heap ref).blockId ∧ manager.Candidate blockId block) := by
  by_cases same : blockId = (manager.heap ref).blockId
  · subst same
    refine Or.inl ⟨rfl, ?_⟩
    rcases candidate with ⟨other, cached, rfl⟩ | ⟨_, proto, found, rfl⟩
    · rw [only other cached]
      rfl
    · obtain ⟨saved, _, desc, content, _⟩ := saveMeta_saved manager ref
      obtain rfl := Option.some.inj (desc.symm.trans found)
      exact content
  · refine Or.inr ⟨same, ?_⟩
    rcases candidate with cached | ⟨write, proto, found, rfl⟩
    · exact Or.inl cached
    · rw [(saveMeta_untouched manager ref blockId (Ne.symm same)).1] at found
      exact Or.inr ⟨write, proto, found, rfl⟩

theorem Steady.saveMeta {manager : BlockManager} (steady : manager.Steady) {blockId : Nat} {ref : BlockRef}
    (cached : manager.Cached blockId ref) :
    (manager.saveMetaOnDisk ref).Steady ∧ (manager.saveMetaOnDisk ref).view = manager.view := by
  obtain ⟨wired, inService⟩ := steady.toWired.saveMeta ref
  obtain rfl := steady.named blockId ref cached
  have served := steady.served _ ref cached
  have only (other : BlockRef) (found : manager.Cached (manager.heap ref).blockId other) : other = ref :=
    steady.agree _ other ref found cached
  have candidate (other : Nat) (block : Block) (present : (manager.saveMetaOnDisk ref).Candidate other block) :
      manager.Candidate other block := by
    rcases candidate_saveMeta ref only other block present with ⟨rfl, rfl⟩ | ⟨_, was⟩
    · exact Or.inl ⟨ref, cached, rfl⟩
    · exact was
  have same (other : Nat) : (manager.saveMetaOnDisk ref).InService other ↔ manager.InService other := by
    rw [inService]
    constructor
    · rintro (old | rfl)
      · exact old
      · exact served
    · exact Or.inl
  have after : (manager.saveMetaOnDisk ref).Steady := by
    refine { wired with backed := ?_, settled := ?_ }
    · intro other inService
      rcases steady.backed other ((same other).mp inService) with write | ⟨proto, desc⟩
      · exact Or.inl write
      · by_cases title : other = (manager.heap ref).blockId
        · subst title
          obtain ⟨saved, _, found, _⟩ := saveMeta_saved manager ref
          exact Or.inr ⟨saved, found⟩
        · exact Or.inr ⟨proto, by rw [(saveMeta_untouched manager ref other (Ne.symm title)).1, desc]⟩
    · intro other first second left right
      exact steady.settled other first second (candidate other first left) (candidate other second right)
  exact ⟨after, view_same steady after same candidate⟩

theorem Steady.modifyData {manager : BlockManager} (steady : manager.Steady) (blockId : Nat) (change : File → File) :
    (manager.modifyData blockId change).Steady ∧ (manager.modifyData blockId change).view = manager.view := by
  have wired : (manager.modifyData blockId change).Wired := steady.toWired.congr rfl rfl rfl rfl rfl rfl
  exact ⟨{ wired with backed := steady.backed, settled := steady.settled }, rfl⟩

theorem Steady.finish {manager : BlockManager} (steady : manager.Steady) {blockId : Nat} {ref : BlockRef}
    (cached : manager.Cached blockId ref) :
    (manager.finishBlock ref).Steady ∧ (manager.finishBlock ref).view = manager.view := by
  obtain ⟨resized, same⟩ := steady.modifyData (manager.heap ref).blockId (File.setLen · (manager.heap ref).size)
  obtain ⟨after, view⟩ := resized.saveMeta (show (manager.modifyData _ _).Cached blockId ref from cached)
  exact ⟨after, view.trans same⟩

end Save

end ReductStore.BlockManager
