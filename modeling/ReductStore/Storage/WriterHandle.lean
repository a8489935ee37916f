import ReductStore.Storage.Retention

set_option autoImplicit false

namespace ReductStore

open BlockManager

def channelBufferSize : Nat := 16

inductive Receiver where
  | unstarted
  | receiving (written : Nat)
  | finishing (result : Except ReductError Unit)
  | ended
  | lost
  deriving DecidableEq

inductive Sender where
  | idle
  | closing
  | dropped
  deriving DecidableEq

structure RecordWriter where
  manager : BlockManager
  context : WriteContext
  sender : Sender
  channel : List WriteChunk
  receiver : Receiver
  sent : List WriteChunk
  writes : List (Nat × List UInt8)
  finishes : List RecordState

inductive HandleEvent where
  | send (message : WriteChunk)
  | receive (granted : Bool)
  | leave
  | elapse
  | drop

def WriteChunk.isStop : WriteChunk → Bool
  | .ok (some _) => false
  | _ => true

def deliveredChunks : List WriteChunk → List (List UInt8)
  | .ok (some chunk) :: messages => chunk :: deliveredChunks messages
  | _ => []

def endsInFailure : List WriteChunk → Bool
  | .ok (some _) :: messages => endsInFailure messages
  | .error _ :: _ => true
  | _ => false

namespace WriteContext

def Spawned (context : WriteContext) : Prop := maxIoBufferSize ≤ context.contentSize

instance (context : WriteContext) : Decidable context.Spawned := inferInstanceAs (Decidable (_ ≤ _))

def capacity (context : WriteContext) : Nat := if context.Spawned then channelBufferSize else maxIoBufferSize

def deserved (context : WriteContext) (messages : List WriteChunk) : RecordState :=
  if endsInFailure messages = false ∧ (deliveredChunks messages).flatten.length = context.contentSize then .finished
  else .errored

end WriteContext

namespace RecordWriter

def tryNew (manager : BlockManager) (context : WriteContext) : RecordWriter :=
  { manager, context
    sender := .idle
    channel := []
    receiver := if context.Spawned then .receiving 0 else .unstarted
    sent := []
    writes := []
    finishes := [] }

def send (state : RecordWriter) (message : WriteChunk) : RecordWriter :=
  if state.sender = .idle ∧ state.receiver ≠ .ended ∧ state.receiver ≠ .lost ∧
      state.channel.length < state.context.capacity then
    { state with
      channel := state.channel ++ [message]
      sent := state.sent ++ [message]
      sender := if message.isStop then .closing else .idle
      receiver := if message.isStop ∧ state.receiver = .unstarted then .receiving 0 else state.receiver }
  else state

variable [Codec]

def advance (state : RecordWriter) (granted : Bool) : RecordWriter :=
  match state.receiver with
  | .receiving written =>
    match state.channel with
    | [] =>
      if state.sender = .dropped then { state with receiver := .finishing (contentReceived state.context written) }
      else state
    | .error failure :: channel => { state with channel, receiver := .finishing (.error failure) }
    | .ok none :: channel => { state with channel, receiver := .finishing (contentReceived state.context written) }
    | .ok (some chunk) :: channel =>
      match state.manager.receiveChunk state.context written chunk with
      | (.error failure, manager) => { state with manager, channel, receiver := .finishing (.error failure) }
      | (.ok written, manager) =>
        { state with
          manager, channel
          receiver := .receiving written
          writes := state.writes ++ [(state.context.offset + written - chunk.length, chunk)] }
  | .finishing result =>
    if granted then
      { state with
        manager :=
          (state.manager.finishWriteRecord state.context.blockId (writtenState result) state.context.recordTimestamp).2
        channel := []
        receiver := .ended
        finishes := state.finishes ++ [writtenState result] }
    else { state with channel := [], receiver := .ended }
  | .unstarted | .ended | .lost => state

omit [Codec] in
def release (state : RecordWriter) : RecordWriter :=
  if state.context.Spawned ∨ state.receiver = .ended then state
  else { state with channel := [], receiver := .lost }

def apply (state : RecordWriter) : HandleEvent → RecordWriter
  | .send message => state.send message
  | .receive granted => state.advance granted
  | .leave =>
    if state.sender = .closing ∧ (state.receiver = .ended ∨ state.receiver = .lost) then { state with sender := .idle }
    else state
  | .elapse => if state.sender = .closing then { state.release with sender := .idle } else state
  | .drop => { state.release with sender := .dropped }

def drain : Nat → RecordWriter → RecordWriter
  | 0, state => state
  | steps + 1, state => drain steps (state.advance true)

def settle (state : RecordWriter) : RecordWriter := state.drain (state.channel.length + 2)

def recordState (state : RecordWriter) : Option RecordState :=
  ((state.manager.view state.context.blockId).bind (·.getRecord state.context.recordTimestamp)).map Record.state

end RecordWriter

section Content

variable {context : WriteContext}

theorem receive_state (context : WriteContext) (manager : BlockManager) (written : Nat) (messages : List WriteChunk)
    (bounded : written ≤ context.contentSize) :
    (receive context manager written messages).1 = .ok () ↔
      endsInFailure messages = false ∧ written + (deliveredChunks messages).flatten.length = context.contentSize := by
  have received (written : Nat) (bounded : written ≤ context.contentSize) :
      contentReceived context written = .ok () ↔ written = context.contentSize := by
    rw [contentReceived]
    split_ifs with short
    · simp; omega
    · simp; omega
  induction messages generalizing manager written with
  | nil => simp [receive, received written bounded, endsInFailure, deliveredChunks]
  | cons message messages ih =>
    rcases message with failure | _ | chunk
    · simp [receive, endsInFailure]
    · simp [receive, received written bounded, endsInFailure, deliveredChunks]
    · by_cases large : written + chunk.length > context.contentSize
      · simp only [receive, receiveChunk, if_pos large, reduceCtorEq, false_iff, deliveredChunks, List.flatten_cons,
          List.length_append]
        omega
      · simp only [receive, receiveChunk, if_neg large]
        refine (ih _ _ (by omega)).trans ?_
        simp [endsInFailure, deliveredChunks, Nat.add_assoc]

theorem writtenState_receive (context : WriteContext) (manager : BlockManager) (messages : List WriteChunk) :
    writtenState (receive context manager 0 messages).1 = context.deserved messages := by
  have accepted := receive_state context manager 0 messages (Nat.zero_le _)
  rw [Nat.zero_add] at accepted
  rw [WriteContext.deserved]
  split_ifs with complete
  · rw [accepted.mpr complete]
    rfl
  · rcases result : (receive context manager 0 messages).1 with failure | ⟨⟩
    · rfl
    · exact absurd (accepted.mp result) complete

theorem dataOf_modifyData (manager : BlockManager) (blockId : Nat) (change : File → File) :
    (manager.modifyData blockId change).dataOf blockId = change (manager.dataOf blockId) := by
  simp [modifyData, dataOf]

theorem receive_keeps (context : WriteContext) (manager : BlockManager) (written : Nat) (messages : List WriteChunk)
    {index : Nat} (before : index < context.offset + written) (present : index < (manager.dataOf context.blockId).length) :
    ((receive context manager written messages).2.dataOf context.blockId)[index]? =
      (manager.dataOf context.blockId)[index]? := by
  induction messages generalizing manager written with
  | nil => rfl
  | cons message messages ih =>
    rcases message with failure | _ | chunk
    · rfl
    · rfl
    · by_cases large : written + chunk.length > context.contentSize
      · simp only [receive, receiveChunk, if_pos large]
      · simp only [receive, receiveChunk, if_neg large]
        rw [ih _ _ (by omega), dataOf_modifyData]
        · exact File.get_writeAt_outside _ _ _ _ present (by omega)
        · rw [dataOf_modifyData]
          exact Nat.lt_of_lt_of_le present (File.length_writeAt _ _ _)

theorem receive_content (context : WriteContext) (manager : BlockManager) (written : Nat) (messages : List WriteChunk)
    (accepted : (receive context manager written messages).1 = .ok ()) {index : Nat}
    (inside : index < (deliveredChunks messages).flatten.length) :
    ((receive context manager written messages).2.dataOf context.blockId)[context.offset + written + index]? =
      (deliveredChunks messages).flatten[index]? := by
  induction messages generalizing manager written index with
  | nil => simp [deliveredChunks] at inside
  | cons message messages ih =>
    rcases message with failure | _ | chunk
    · simp [deliveredChunks] at inside
    · simp [deliveredChunks] at inside
    · by_cases large : written + chunk.length > context.contentSize
      · simp [receive, receiveChunk, if_pos large] at accepted
      · simp only [receive, receiveChunk, if_neg large] at accepted ⊢
        simp only [deliveredChunks, List.flatten_cons, List.length_append] at inside ⊢
        by_cases own : index < chunk.length
        · -- the bytes of this chunk are not written again
          have place : context.offset + (written + chunk.length) - chunk.length = context.offset + written := by omega
          have there : (File.writeAt (manager.dataOf context.blockId) (context.offset + written) chunk)[
              context.offset + written + index]? = chunk[index]? := by
            rw [File.get_writeAt_inside _ _ _ _ (by omega), Nat.add_sub_cancel_left]
          rw [place, receive_keeps _ _ _ _ (by omega), dataOf_modifyData, there, List.getElem?_append_left own]
          rw [dataOf_modifyData]
          by_contra short
          rw [List.getElem?_eq_none (by omega), List.getElem?_eq_getElem own] at there
          cases there
        · have next := ih _ _ accepted (show index - chunk.length < _ by omega)
          rw [List.getElem?_append_right (by omega), ← next]
          congr 1
          omega

theorem receive_range (context : WriteContext) (manager : BlockManager) (messages : List WriteChunk)
    (accepted : (receive context manager 0 messages).1 = .ok ()) :
    File.range ((receive context manager 0 messages).2.dataOf context.blockId) context.offset
      (context.offset + context.contentSize) = (deliveredChunks messages).flatten := by
  have total := ((receive_state context manager 0 messages (Nat.zero_le _)).mp accepted).2
  rw [Nat.zero_add] at total
  apply List.ext_getElem?
  intro index
  rw [File.get_range]
  split_ifs with inside
  · exact receive_content context manager 0 messages accepted (by omega)
  · rw [List.getElem?_eq_none (by omega)]

end Content

def HasStop (messages : List WriteChunk) : Prop := ∃ message ∈ messages, WriteChunk.isStop message = true

namespace RecordWriter

section Invariant

variable [Codec] {manager : BlockManager} {context : WriteContext} {state : RecordWriter}

def Follows (manager : BlockManager) (context : WriteContext) (state : RecordWriter) : Receiver → Prop
  | .unstarted =>
    state.manager = manager ∧ state.finishes = [] ∧ state.channel = state.sent ∧ state.sender = .idle ∧ ¬ HasStop state.sent
  | .receiving written =>
    state.manager.view = manager.view ∧ state.finishes = [] ∧ written ≤ context.contentSize ∧
      (HasStop state.sent → HasStop state.channel) ∧
      ∀ future, receive context state.manager written (state.channel ++ future) =
        receive context manager 0 (state.sent ++ future)
  | .finishing result =>
    state.manager.view = manager.view ∧ state.finishes = [] ∧
      ∀ future, (state.sender = .dropped → future = []) →
        receive context manager 0 (state.sent ++ future) = (result, state.manager)
  | .ended =>
    state.finishes = [writtenState (receive context manager 0 state.sent).1] ∧
      state.manager = (manager.runWriter context state.sent).2
  | .lost => state.manager.view = manager.view ∧ state.finishes = []

structure Writes (manager : BlockManager) (context : WriteContext) (state : RecordWriter) : Prop where
  same : state.context = context
  inside : ∀ write ∈ state.writes,
    context.offset ≤ write.1 ∧ write.1 + write.2.length ≤ context.offset + context.contentSize
  spawned : context.Spawned → state.receiver ≠ .unstarted ∧ state.receiver ≠ .lost
  follows : state.Follows manager context state.receiver

theorem writes_start (manager : BlockManager) (context : WriteContext) :
    Writes manager context (tryNew manager context) where
  same := rfl
  inside := by simp [tryNew]
  spawned large := by simp [tryNew, large]
  follows := by
    simp only [tryNew]
    split_ifs
    · exact ⟨rfl, rfl, Nat.zero_le _, fun stop => stop, fun _ => rfl⟩
    · exact ⟨rfl, rfl, rfl, rfl, by simp [HasStop]⟩

omit [Codec] in
theorem hasStop_append {messages : List WriteChunk} {message : WriteChunk} :
    HasStop (messages ++ [message]) ↔ HasStop messages ∨ message.isStop = true := by
  simp [HasStop, or_and_right, exists_or]

theorem Writes.send (writes : Writes manager context state) (message : WriteChunk) :
    Writes manager context (state.send message) := by
  obtain ⟨rfl, inside, spawned, follows⟩ := writes
  rw [RecordWriter.send]
  by_cases accepted : state.sender = .idle ∧ state.receiver ≠ .ended ∧ state.receiver ≠ .lost ∧
      state.channel.length < state.context.capacity
  · rw [if_pos accepted]
    obtain ⟨idle, alive, there, -⟩ := accepted
    cases receiver : state.receiver with
    | unstarted =>
      rw [receiver] at follows
      obtain ⟨same, fresh, queued, -, endless⟩ := follows
      refine ⟨rfl, inside, fun large => absurd receiver (spawned large).1, ?_⟩
      by_cases stop : message.isStop = true
      · simp only [stop, true_and, if_true]
        -- the call that sends the last message begins to receive
        refine ⟨by rw [same], fresh, Nat.zero_le _, fun _ => hasStop_append.mpr (Or.inr stop), fun future => ?_⟩
        rw [same, queued]
      · simp only [stop, false_and, if_false, Bool.false_eq_true]
        exact ⟨same, fresh, by rw [queued], rfl, fun has => (hasStop_append.mp has).elim endless stop⟩
    | receiving written =>
      rw [receiver] at follows
      obtain ⟨view, fresh, bounded, pending, course⟩ := follows
      refine ⟨rfl, inside, by simp, ?_⟩
      simp only [reduceCtorEq, and_false, if_false]
      refine ⟨view, fresh, bounded, fun has => ?_, fun future => ?_⟩
      · exact hasStop_append.mpr ((hasStop_append.mp has).imp_left pending)
      · rw [List.append_assoc, List.append_assoc]
        exact course _
    | finishing result =>
      rw [receiver] at follows
      obtain ⟨view, fresh, course⟩ := follows
      refine ⟨rfl, inside, by simp, ?_⟩
      simp only [reduceCtorEq, and_false, if_false]
      refine ⟨view, fresh, fun future _ => ?_⟩
      rw [List.append_assoc]
      exact course _ fun gone => by simp [idle] at gone
    | ended => exact absurd receiver alive
    | lost => exact absurd receiver there
  · rw [if_neg accepted]
    exact ⟨rfl, inside, spawned, follows⟩

theorem Writes.advance (writes : Writes manager context state) : Writes manager context (state.advance true) := by
  obtain ⟨rfl, inside, spawned, follows⟩ := writes
  rw [RecordWriter.advance]
  cases receiver : state.receiver with
  | unstarted | ended | lost => exact ⟨rfl, inside, spawned, follows⟩
  | finishing result =>
    rw [receiver] at follows
    obtain ⟨-, fresh, course⟩ := follows
    have over_ := course [] fun _ => rfl
    rw [List.append_nil] at over_
    refine ⟨rfl, inside, by simp, ?_, ?_⟩
    · simp [fresh, over_]
    · simp only [runWriter, over_, if_true]
  | receiving written =>
    rw [receiver] at follows
    obtain ⟨view, fresh, bounded, pending, course⟩ := follows
    rcases queue : state.channel with _ | ⟨failure | _ | chunk, channel⟩ <;> rw [queue] at course <;> simp only
    · split_ifs with gone
      · refine ⟨rfl, inside, by simp, view, fresh, fun future none => ?_⟩
        rw [none gone, ← course []]
        rfl
      · exact ⟨rfl, inside, spawned, by rw [receiver]; exact ⟨view, fresh, bounded, pending, by rwa [queue]⟩⟩
    · exact ⟨rfl, inside, by simp, view, fresh, fun future _ => (course future).symm⟩
    · exact ⟨rfl, inside, by simp, view, fresh, fun future _ => (course future).symm⟩
    · by_cases large : written + chunk.length > state.context.contentSize
      · simp only [receiveChunk, if_pos large]
        refine ⟨rfl, inside, by simp, view, fresh, fun future _ => ?_⟩
        rw [← course future]
        simp [receive, receiveChunk, if_pos large]
      · simp only [receiveChunk, if_neg large]
        refine ⟨rfl, fun write member => ?_, by simp, view, fresh, by omega, fun has => ?_, fun future => ?_⟩
        · rcases List.mem_append.mp member with earlier | new
          · exact inside write earlier
          · rw [List.mem_singleton.mp new]
            simp only
            omega
        · -- a chunk is not the last message
          rw [queue] at pending
          obtain ⟨message, present, stop⟩ := pending has
          rcases List.mem_cons.mp present with rfl | later
          · cases stop
          · exact ⟨message, later, stop⟩
        · rw [← course future]
          simp [receive, receiveChunk, if_neg large]

theorem Writes.release (writes : Writes manager context state) : Writes manager context state.release := by
  obtain ⟨rfl, inside, spawned, follows⟩ := writes
  rw [RecordWriter.release]
  split_ifs with keeps
  · exact ⟨rfl, inside, spawned, follows⟩
  · rw [not_or] at keeps
    refine ⟨rfl, inside, fun large => absurd large keeps.1, ?_⟩
    cases receiver : state.receiver with
    | unstarted =>
      rw [receiver] at follows
      exact ⟨by rw [follows.1], follows.2.1⟩
    | receiving written | finishing result =>
      rw [receiver] at follows
      exact ⟨follows.1, follows.2.1⟩
    | lost =>
      rw [receiver] at follows
      exact follows
    | ended => exact absurd receiver keeps.2

theorem Writes.turn (writes : Writes manager context state) {sender : Sender} (started : state.receiver ≠ .unstarted)
    (final : state.sender = .dropped → sender = .dropped) :
    Writes manager context { state with sender } := by
  obtain ⟨rfl, inside, spawned, follows⟩ := writes
  refine ⟨rfl, inside, spawned, ?_⟩
  cases receiver : state.receiver with
  | unstarted => exact absurd receiver started
  | finishing result =>
    rw [receiver] at follows
    exact ⟨follows.1, follows.2.1, fun future none => follows.2.2 future fun gone => none (final gone)⟩
  | receiving written | ended | lost =>
    rw [receiver] at follows
    exact follows

omit [Codec] in
theorem release_receiver (state : RecordWriter) (small : ¬ state.context.Spawned) :
    state.release.receiver = .ended ∨ state.release.receiver = .lost := by
  rw [RecordWriter.release]
  split_ifs with keeps
  · exact Or.inl (keeps.resolve_left small)
  · exact Or.inr rfl

def Granted (_ : RecordWriter) : HandleEvent → Prop
  | .receive granted => granted = true
  | _ => True

theorem Writes.apply (writes : Writes manager context state) {event : HandleEvent} (granted : Granted state event) :
    Writes manager context (state.apply event) := by
  have started (after : RecordWriter) (kept : Writes manager context after) (small : ¬ context.Spawned →
      after.receiver = .ended ∨ after.receiver = .lost) : after.receiver ≠ .unstarted := by
    by_cases large : context.Spawned
    · exact (kept.spawned large).1
    · rcases small large with ended | lost
      · simp [ended]
      · simp [lost]
  have released : state.release.receiver ≠ .unstarted :=
    started _ writes.release fun small => state.release_receiver (writes.same ▸ small)
  have same : state.release.sender = state.sender := by
    rw [RecordWriter.release]
    split_ifs <;> rfl
  cases event with
  | send message => exact writes.send message
  | receive allowed =>
    obtain rfl : allowed = true := granted
    exact writes.advance
  | leave =>
    simp only [RecordWriter.apply]
    split_ifs with done
    · refine writes.turn ?_ fun gone => ?_
      · rcases done.2 with ended | lost
        · simp [ended]
        · simp [lost]
      · rw [done.1] at gone
        cases gone
    · exact writes
  | elapse =>
    simp only [RecordWriter.apply]
    split_ifs with closing
    · refine writes.release.turn released fun gone => ?_
      rw [same, closing] at gone
      cases gone
    · exact writes
  | drop => exact writes.release.turn released fun _ => rfl

end Invariant

section Settling

variable [Codec] {manager : BlockManager} {context : WriteContext} {state : RecordWriter}

theorem advance_sent (state : RecordWriter) (granted : Bool) :
    (state.advance granted).sent = state.sent ∧ (state.advance granted).sender = state.sender := by
  rw [RecordWriter.advance]
  split
  · split
    · split_ifs <;> exact ⟨rfl, rfl⟩
    · exact ⟨rfl, rfl⟩
    · exact ⟨rfl, rfl⟩
    · split <;> exact ⟨rfl, rfl⟩
  · split_ifs <;> exact ⟨rfl, rfl⟩
  · exact ⟨rfl, rfl⟩
  · exact ⟨rfl, rfl⟩
  · exact ⟨rfl, rfl⟩

theorem Writes.drain (writes : Writes manager context state) (steps : Nat) :
    Writes manager context (state.drain steps) ∧ (state.drain steps).sent = state.sent := by
  induction steps generalizing state with
  | zero => exact ⟨writes, rfl⟩
  | succ steps ih =>
    obtain ⟨kept, same⟩ := ih writes.advance
    exact ⟨kept, same.trans (state.advance_sent true).1⟩

theorem drain_resting {steps : Nat} (resting : state.receiver = .unstarted ∨ state.receiver = .ended ∨ state.receiver = .lost) :
    state.drain steps = state := by
  have stays : state.advance true = state := by
    rcases resting with rests | rests | rests <;> simp [RecordWriter.advance, rests]
  induction steps with
  | zero => rfl
  | succ steps ih => rw [RecordWriter.drain, stays, ih]

theorem drain_finishing {steps : Nat} (result : Except ReductError Unit) (finishing : state.receiver = .finishing result)
    (enough : 0 < steps) : (state.drain steps).receiver = .ended := by
  obtain ⟨steps, rfl⟩ := Nat.exists_eq_succ_of_ne_zero (Nat.ne_of_gt enough)
  have ended : (state.advance true).receiver = .ended := by simp [RecordWriter.advance, finishing]
  rw [RecordWriter.drain, drain_resting (Or.inr (Or.inl ended)), ended]

theorem drain_receiving {steps written : Nat} (receiving : state.receiver = .receiving written)
    (closed : state.sender = .dropped ∨ HasStop state.channel) (enough : state.channel.length + 2 ≤ steps) :
    (state.drain steps).receiver = .ended := by
  induction steps generalizing state written with
  | zero => omega
  | succ steps ih =>
    rw [RecordWriter.drain]
    rcases queue : state.channel with _ | ⟨failure | _ | chunk, channel⟩
    · have gone : state.sender = .dropped := closed.resolve_right (by simp [queue, HasStop])
      exact drain_finishing (contentReceived state.context written)
        (by simp [RecordWriter.advance, receiving, queue, gone]) (by omega)
    · refine drain_finishing (.error failure) (by simp [RecordWriter.advance, receiving, queue]) ?_
      simp only [queue, List.length_cons] at enough
      omega
    · refine drain_finishing (contentReceived state.context written)
        (by simp [RecordWriter.advance, receiving, queue]) ?_
      simp only [queue, List.length_cons] at enough
      omega
    · simp only [queue, List.length_cons] at enough
      by_cases large : written + chunk.length > state.context.contentSize
      · refine drain_finishing (.error (badRequest "Content is bigger than in content-length")) ?_ (by omega)
        simp [RecordWriter.advance, receiving, queue, receiveChunk, if_pos large]
      · have rest : (state.advance true).channel = channel := by
          simp [RecordWriter.advance, receiving, queue, receiveChunk, if_neg large]
        refine @ih (state.advance true) (written + chunk.length) ?_ ?_ (by rw [rest]; omega)
        · simp [RecordWriter.advance, receiving, queue, receiveChunk, if_neg large]
        · rw [(state.advance_sent true).2, rest]
          refine closed.imp_right ?_
          rintro ⟨message, present, stop⟩
          rw [queue] at present
          rcases List.mem_cons.mp present with rfl | later
          · cases stop
          · exact ⟨message, later, stop⟩

theorem Writes.settles (writes : Writes manager context state) (started : state.receiver ≠ .unstarted)
    (alive : state.receiver ≠ .lost) (closed : state.sender = .dropped ∨ HasStop state.sent) :
    state.settle.receiver = .ended := by
  have follows := writes.follows
  cases receiver : state.receiver with
  | unstarted => exact absurd receiver started
  | lost => exact absurd receiver alive
  | ended =>
    rw [settle, drain_resting (Or.inr (Or.inl receiver)), receiver]
  | finishing result => exact drain_finishing result receiver (by omega)
  | receiving written =>
    rw [receiver] at follows
    exact drain_receiving receiver (closed.imp_right follows.2.2.2.1) le_rfl

end Settling

section Runs

variable [Codec] {manager : BlockManager} {context : WriteContext} {state : RecordWriter}

def Undisturbed (state : RecordWriter) : HandleEvent → Prop
  | .receive granted => granted = true
  | .elapse | .drop => state.context.Spawned ∨ state.receiver = .unstarted ∨ state.receiver = .ended ∨ state.receiver = .lost
  | _ => True

omit [Codec] in
theorem Undisturbed.granted {event : HandleEvent} (undisturbed : state.Undisturbed event) : Granted state event := by
  cases event with
  | receive granted => exact undisturbed
  | send | leave | elapse | drop => trivial

theorem writes_run (run : Runs apply Granted (tryNew manager context) state) : Writes manager context state :=
  run.invariant (Writes manager context) (writes_start manager context) fun _ _ writes granted => writes.apply granted

def Spared (state : RecordWriter) : Prop :=
  state.receiver = .lost → state.sender = .dropped ∧ ¬ HasStop state.sent

omit [Codec] in
theorem Spared.release (spared : state.Spared) (writes : state.receiver = .unstarted → ¬ HasStop state.sent)
    (resting : state.context.Spawned ∨ state.receiver = .unstarted ∨ state.receiver = .ended ∨ state.receiver = .lost) :
    state.release.receiver = .lost → ¬ HasStop state.release.sent := by
  rw [RecordWriter.release]
  split_ifs with keeps
  · exact fun lost => (spared lost).2
  · rw [not_or] at keeps
    intro _
    rcases resting with large | fresh | ended | lost
    · exact absurd large keeps.1
    · exact writes fresh
    · exact absurd ended keeps.2
    · exact (spared lost).2

theorem Spared.apply (spared : state.Spared) (writes : Writes manager context state) {event : HandleEvent}
    (undisturbed : state.Undisturbed event) : (state.apply event).Spared := by
  have endless (fresh : state.receiver = .unstarted) : state.sender = .idle ∧ ¬ HasStop state.sent := by
    have follows := writes.follows
    rw [fresh] at follows
    exact follows.2.2.2
  cases event with
  | send message =>
    simp only [RecordWriter.apply, RecordWriter.send]
    by_cases accepted : state.sender = .idle ∧ state.receiver ≠ .ended ∧ state.receiver ≠ .lost ∧
        state.channel.length < state.context.capacity
    · rw [if_pos accepted]
      intro lost
      simp only at lost
      split_ifs at lost
      exact absurd lost accepted.2.2.1
    · rw [if_neg accepted]
      exact spared
  | receive granted =>
    simp only [RecordWriter.apply]
    intro lost
    rw [(state.advance_sent granted).1, (state.advance_sent granted).2]
    refine spared ?_
    -- no step of `receive` loses the writer
    revert lost
    rw [RecordWriter.advance]
    split
    · split
      · split_ifs <;> simp_all
      · simp
      · simp
      · split <;> simp
    · split_ifs <;> simp
    · simp_all
    · simp_all
    · simp_all
  | leave =>
    simp only [RecordWriter.apply]
    split_ifs with done
    · intro lost
      have dropped := (spared lost).1
      rw [done.1] at dropped
      cases dropped
    · exact spared
  | elapse =>
    simp only [RecordWriter.apply]
    split_ifs with closing
    · intro lost
      exfalso
      -- a call of `send` with the last message is under way
      rcases undisturbed with large | fresh | ended | gone
      · simp only [RecordWriter.release, large, true_or, if_true] at lost
        have dropped := (spared lost).1
        rw [closing] at dropped
        cases dropped
      · have idle := (endless fresh).1
        rw [closing] at idle
        cases idle
      · simp [RecordWriter.release, ended] at lost
      · have dropped := (spared gone).1
        rw [closing] at dropped
        cases dropped
    · exact spared
  | drop => exact fun lost => ⟨rfl, spared.release (fun fresh => (endless fresh).2) undisturbed lost⟩

theorem Writes.ended_state (writes : Writes manager context state) (ended : state.receiver = .ended) (sound : manager.Sound)
    {block : Block} {record : Record} (seen : manager.view context.blockId = some block)
    (held : block.getRecord context.recordTimestamp = some record) :
    state.recordState = some .finished ∨ state.recordState = some .errored := by
  have follows := writes.follows
  rw [ended] at follows
  have view := (sound.runWriter context state.sent seen held).2.2
  rw [recordState, writes.same, follows.2, view, Function.update_self]
  simp only [Option.bind_some, Block.getRecord_modifyRecord, held, Option.map_some]
  rcases (receive context manager 0 state.sent).1 with failure | ⟨⟩
  · exact Or.inr rfl
  · exact Or.inl rfl

theorem Writes.lost_state (writes : Writes manager context state) (lost : state.receiver = .lost)
    {block : Block} {record : Record} (seen : manager.view context.blockId = some block)
    (held : block.getRecord context.recordTimestamp = some record) : state.recordState = some record.state := by
  have follows := writes.follows
  rw [lost] at follows
  rw [recordState, writes.same, follows.1, seen]
  simp [held]

/-- A handle that is dropped leaves a record that was ended or will be, unless the record is small and its sender had not
    come to an end. -/
theorem dropped_settles (path bucket entry : String) (backendType : BackendType) (evictions : List (List Nat))
    {manager middle : BlockManager}
    (history : Runs perform (fun current operation => current.Sequential operation ∧ current.Harmless operation)
      (created path bucket entry backendType evictions) manager)
    (call : WriteCall) (safe : manager.displaces call = false)
    (accepted : manager.beginWrite call = (.ok context, middle))
    (run : Runs apply Granted (tryNew middle context) state) :
    ((state.apply .drop).settle.recordState = some .finished ∨ (state.apply .drop).settle.recordState = some .errored) ↔
      maxIoBufferSize ≤ call.contentSize ∨ state.receiver = .ended := by
  have stocked := stocked_of_history path bucket entry backendType evictions history
  have written := beginWrite_written stocked.toSound call safe
  rw [accepted] at written
  have sound : middle.Sound := written.run.sound stocked.toSound
  obtain ⟨block, opened⟩ := written.outcome.opened stocked.toSteady
  obtain ⟨record, held, -, -, begun⟩ := opened.held
  have seen : middle.view context.blockId = some block := by
    rw [show middle.view = _ from opened.view, Function.update_self]
  rw [← opened.time] at held
  have writes := writes_run run
  have after := writes.apply (show Granted state .drop from trivial)
  have large : context.Spawned ↔ maxIoBufferSize ≤ call.contentSize := by rw [WriteContext.Spawned, opened.size]
  have unsettled (lost : (state.apply .drop).receiver = .lost) : (state.apply .drop).settle.recordState = some .started := by
    rw [settle, drain_resting (Or.inr (Or.inr lost)), after.lost_state lost seen held, begun]
  rw [← large]
  constructor
  · intro ended
    by_contra neither
    rw [not_or] at neither
    have lost : (state.apply .drop).receiver = .lost := by
      have small : ¬ state.context.Spawned := writes.same ▸ neither.1
      simp [RecordWriter.apply, RecordWriter.release, small, neither.2]
    rw [unsettled lost] at ended
    simp at ended
  · intro safe
    refine (after.drain _).1.ended_state (after.settles ?_ ?_ (Or.inl rfl)) sound seen held
    · rcases safe with spawned | ended
      · exact (after.spawned spawned).1
      · simp [RecordWriter.apply, RecordWriter.release, ended]
    · rcases safe with spawned | ended
      · exact (after.spawned spawned).2
      · simp [RecordWriter.apply, RecordWriter.release, ended]

end Runs

end RecordWriter

end ReductStore

namespace ReductStore.RecordWriter

open BlockManager

instance (state : RecordWriter) (event : HandleEvent) : Decidable (Granted state event) := by
  cases event <;> unfold Granted <;> infer_instance

instance (state : RecordWriter) (event : HandleEvent) : Decidable (state.Undisturbed event) := by
  cases event <;> unfold Undisturbed <;> infer_instance

def smallContext : WriteContext := { blockId := 1, recordTimestamp := 1, offset := 0, contentSize := 1 }

def startedEntry : BlockManager := (smallEntry.beginWrite (smallWrite 1 1)).2

def afterEvents (events : List HandleEvent) : RecordWriter := events.foldl apply (tryNew startedEntry smallContext)

def wholeContent : List HandleEvent := [.send (.ok (some [5])), .send (.ok none)]

theorem dropped_settles_ended :
    (afterEvents (wholeContent ++ List.replicate 3 (.receive true) ++ [.drop])).settle.recordState = some .finished ∨
      (afterEvents (wholeContent ++ List.replicate 3 (.receive true) ++ [.drop])).settle.recordState = some .errored := by
  have run : Runs apply Granted (tryNew startedEntry smallContext)
      (afterEvents (wholeContent ++ List.replicate 3 (.receive true))) := .of_list _ _ (by decide +kernel)
  have accepted : (smallEntry.beginWrite (smallWrite 1 1)).1 = .ok smallContext := by decide +kernel
  exact (dropped_settles "entry" "bucket" "entry" .filesystem [] .start (smallWrite 1 1) (by decide +kernel)
    (Prod.ext accepted rfl) run).mpr (Or.inr (by decide +kernel))

theorem dropped_unsettled :
    (afterEvents [.send (.ok (some [5])), .drop]).settle.recordState = some .started ∧
      ((afterEvents [.send (.ok (some [5])), .drop]).settle.manager.beginWrite (smallWrite 1 1)).1 =
        .error (alreadyExists 1) := by
  decide +kernel

end ReductStore.RecordWriter
