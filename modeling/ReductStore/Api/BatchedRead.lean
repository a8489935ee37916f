import ReductStore.Api.DeltaBatch
import ReductStore.Api.Limits
import ReductStore.Query.Historical
import ReductStore.Shared.Machine

set_option autoImplicit false

namespace ReductStore

namespace BatchedRead

open BatchHeader DeltaHeader

section Source

structure Readers where
  records : List RecordMeta
  errors : List ReductError
  deriving DecidableEq

structure Source where
  queryId : Nat
  pending : List (Option Readers)
  removed : Bool
  deriving DecidableEq

def Source.ofItems (queryId : Nat) (items : List (Except ReductError RecordMeta)) : Source :=
  { queryId
    pending := items.map fun item => match item with
      | .ok record => some { records := [record], errors := [] }
      | .error failure => some { records := [], errors := [failure] }
    removed := false }

def Source.fetch (source : Source) : Option Readers × Source :=
  match source.pending with
  | [] => (some { records := [], errors := [HistoricalQuery.noContent] }, source)
  | readers :: pending => (readers, { source with pending })

theorem Source.fetch_nil {source : Source} (closed : source.pending = []) :
    source.fetch = (some { records := [], errors := [HistoricalQuery.noContent] }, source) := by
  rw [Source.fetch, closed]

theorem Source.fetch_cons {source : Source} {group : Option Readers} {groups : List (Option Readers)}
    (next : source.pending = group :: groups) : source.fetch = (group, { source with pending := groups }) := by
  rw [Source.fetch, next]

def recordsOf (groups : List (Option Readers)) : List RecordMeta :=
  groups.flatMap fun readers => (readers.map Readers.records).getD []

def Source.produced (source : Source) : List RecordMeta := recordsOf source.pending

end Source

section Protocols

structure IoConfig where
  batchMaxSize : Nat
  batchMaxMetadataSize : Nat
  batchMaxRecords : Nat

structure Protocol where
  headerSize : List RecordMeta → Option Nat
  quits : Bool → List RecordMeta → Bool
  order : List RecordMeta → List RecordMeta

def entryProtocol : Protocol where
  headerSize records :=
    if records.all fun record => BucketWrapper.isHeaderText (makeBatchHeader record) then
      some (records.map fun record =>
        ("x-reduct-time-" ++ toString record.timestamp).length + (makeBatchHeader record).length + 2).sum
    else none
  quits _ _ := false
  order records := records

def entriesOf (records : List RecordMeta) : List String :=
  records.foldl (fun entries record => (ensure entries record.entryName).2) []

def calculateHeaderSize (records : List RecordMeta) : Nat :=
  ((encodeRecords (fun _ => none) [] records).1.map fun item =>
    (makeBatchedHeaderName ((entriesOf records).idxOf item.1.entryName) (item.1.timestamp - startTs records)).length +
      item.2.length + 2).sum

def firstTs (records : List RecordMeta) (entry : String) : Nat :=
  (((records.filter (·.entryName = entry)).map RecordMeta.timestamp).min?).getD (2 ^ 64 - 1)

def orderedEntries (records : List RecordMeta) : List String :=
  (entriesOf records).insertionSort fun first second =>
    firstTs records first < firstTs records second ∨ firstTs records first = firstTs records second ∧ first ≤ second

def bucketProtocol : Protocol where
  headerSize records :=
    if (encodeRecords (fun _ => none) [] records).1.all fun item =>
        BucketWrapper.isHeaderText (String.ofList item.2) then
      some (calculateHeaderSize records)
    else none
  quits elapsed records := elapsed || !records.isEmpty
  order records := responseOrder (orderedEntries records) records

def bodySize (records : List RecordMeta) : Nat := (records.map RecordMeta.contentLength).sum

end Protocols

section Loop

inductive Round where
  | removed
  | silent (elapsed : Bool)
  | interrupted (elapsed : Bool)
  | fetched (elapsed : Bool)
  deriving DecidableEq

def limitReached (io : IoConfig) (emptyBody : Bool) (headerSize : Nat) (records : List RecordMeta) (elapsed : Bool) : Bool :=
  headerSize > io.batchMaxMetadataSize || (!emptyBody && bodySize records > io.batchMaxSize) ||
    records.length ≥ io.batchMaxRecords || elapsed

abbrev Ended := Except ReductError (List RecordMeta × Bool)

/-- The loop of `fetch_and_response_batched_records` up to its end; it has none if it waits for another round or panics. -/
def fetchLoop (protocol : Protocol) (io : IoConfig) (emptyBody : Bool) :
    List Round → Source → List RecordMeta → Option (Ended × Source)
  | [], _, _ => none
  | .removed :: _, source, _ =>
    some (.error (internalServerError "Weak reference is no longer valid"), { source with removed := true })
  | .silent elapsed :: rounds, source, records =>
    if protocol.quits elapsed records then some (.ok (records, false), source)
    else fetchLoop protocol io emptyBody rounds source records
  | .interrupted elapsed :: rounds, source, records =>
    let source := source.fetch.2
    if protocol.quits elapsed records then some (.ok (records, false), source)
    else fetchLoop protocol io emptyBody rounds source records
  | .fetched elapsed :: rounds, source, records =>
    match source.fetch with
    | (none, source) =>
      if protocol.quits elapsed records then some (.ok (records, false), source)
      else fetchLoop protocol io emptyBody rounds source records
    | (some readers, source) =>
      let records := records ++ readers.records
      match protocol.headerSize records with
      | none => none
      | some headerSize =>
        match readers.errors with
        | failure :: _ =>
          if records = [] then some (.error failure, source)
          else if failure.status = .noContent then some (.ok (records, true), source)
          else some (.error failure, source)
        | [] =>
          if limitReached io emptyBody headerSize records elapsed then some (.ok (records, false), source)
          else fetchLoop protocol io emptyBody rounds source records

end Loop

section Requests

inductive Version where
  | entry
  | bucket
  deriving DecidableEq

def Version.protocol : Version → Protocol
  | .entry => entryProtocol
  | .bucket => bucketProtocol

structure Request where
  version : Version
  emptyBody : Bool
  scope : LimitScope
  nowSecs : Nat
  rounds : List Round
  expired : Bool
  gone : Bool

inductive Response where
  | success (version : Version) (records : List RecordMeta) (last : Bool)
  | failure (error : ReductError)
  | limited (exceeded : LimitExceeded)
  deriving DecidableEq

structure Server where
  source : Source
  egress : Counters
  responses : List Response

variable (io : IoConfig) (limit : Option WindowLimit)

def respond (request : Request) (records : List RecordMeta) (last : Bool) (source : Source) (egress : Counters) :
    Response × Source × Counters :=
  if records = [] ∧ (request.gone ∨ source.removed) then
    (.failure { status := .noContent, message := "No more records" }, { source with removed := true }, egress)
  else if request.emptyBody then (.success request.version (request.version.protocol.order records) last, source, egress)
  else
    match egress.consumeForScope limit request.scope (.egressBytes (bodySize records)) request.nowSecs with
    | (.ok (), egress) => (.success request.version (request.version.protocol.order records) last, source, egress)
    | (.error exceeded, egress) => (.limited exceeded, source, egress)

def Request.answer (request : Request) (server : Server) : Option (Response × Source × Counters) :=
  if request.expired ∨ server.source.removed then
    some (.failure (notFound ("Query " ++ toString server.source.queryId ++
        " not found and it might have expired. Check TTL in your query request.")),
      { server.source with removed := true }, server.egress)
  else
    match fetchLoop request.version.protocol io request.emptyBody request.rounds server.source [] with
    | none => none
    | some (.error failure, source) => some (.failure failure, source, server.egress)
    | some (.ok (records, last), source) => some (respond limit request records last source server.egress)

inductive Event where
  | read (request : Request)
  | traffic (scope : LimitScope) (bytes nowSecs : Nat)

def Server.perform (server : Server) : Event → Server
  | .read request =>
    match request.answer io limit server with
    | none => server
    | some (response, source, egress) => { source, egress, responses := server.responses ++ [response] }
  | .traffic scope bytes nowSecs =>
    { server with egress := (server.egress.consumeForScope limit scope (.egressBytes bytes) nowSecs).2 }

def Server.delivered (server : Server) : List (Version × List RecordMeta) :=
  server.responses.filterMap fun response => match response with
    | .success version records _ => some (version, records)
    | _ => none

end Requests

section Taken

def reach : Nat → List (Option Readers) → List (Option Readers)
  | _, [] => []
  | count, none :: groups => none :: reach count groups
  | count, some readers :: groups =>
    some readers ::
      if count ≤ readers.records.length ∨ readers.errors ≠ [] then [] else reach (count - readers.records.length) groups

@[simp]
theorem recordsOf_nil : recordsOf [] = [] := rfl

@[simp]
theorem recordsOf_none (groups : List (Option Readers)) : recordsOf (none :: groups) = recordsOf groups := rfl

@[simp]
theorem recordsOf_some (readers : Readers) (groups : List (Option Readers)) :
    recordsOf (some readers :: groups) = readers.records ++ recordsOf groups := rfl

@[simp]
theorem recordsOf_append (front back : List (Option Readers)) :
    recordsOf (front ++ back) = recordsOf front ++ recordsOf back := List.flatMap_append

structure Failing (groups : List (Option Readers)) : Prop where
  failing : ∃ front readers failure, groups = front ++ [some readers] ∧ readers.errors.head? = some failure ∧
    failure.status ≠ .noContent

structure Done (count : Nat) (source : Source) (records : List RecordMeta) (ended : Ended) (after : Source)
    (taken : List (Option Readers)) : Prop where
  pending : source.pending = taken ++ after.pending
  within : taken <+: reach count source.pending
  batch : ∀ result last, ended = .ok (result, last) → result = records ++ recordsOf taken
  failure : ∀ failure, ended = .error failure →
    after.removed = true ∨ records ++ recordsOf taken = [] ∨ Failing taken

theorem Failing.cons {groups : List (Option Readers)} (failing : Failing groups) (group : Option Readers) :
    Failing (group :: groups) := by
  obtain ⟨front, readers, failure, rfl, first, status⟩ := failing
  exact ⟨group :: front, readers, failure, rfl, first, status⟩

theorem Done.stay (count : Nat) (source : Source) (records : List RecordMeta) (last : Bool) :
    Done count source records (.ok (records, last)) source [] := by
  refine ⟨rfl, List.nil_prefix, fun result last same => ?_, fun _ same => (by cases same)⟩
  rw [← (Prod.mk.inj (Except.ok.inj same)).1, recordsOf_nil, List.append_nil]

theorem Done.refuse (count : Nat) (source : Source) (failure : ReductError) :
    Done count source [] (.error failure) source [] :=
  ⟨rfl, List.nil_prefix, fun _ _ same => (by cases same), fun _ _ => .inr (.inl rfl)⟩

theorem Done.cons {count next : Nat} {source : Source} {records current : List RecordMeta} {ended : Ended}
    {after : Source} {taken groups : List (Option Readers)} {group : Option Readers}
    (done : Done next { source with pending := groups } current ended after taken)
    (whole : source.pending = group :: groups) (sum : current = records ++ recordsOf [group])
    (within : group :: taken <+: reach count (group :: groups)) :
    Done count source records ended after (group :: taken) := by
  have joined : records ++ recordsOf (group :: taken) = current ++ recordsOf taken := by
    rw [sum, ← List.singleton_append, recordsOf_append, List.append_assoc]
  refine ⟨?_, ?_, fun result last same => ?_, fun failure same => ?_⟩
  · rw [whole, show groups = _ from done.pending, List.cons_append]
  · rw [whole]
    exact within
  · rw [joined]
    exact done.batch result last same
  · rw [joined]
    rcases done.failure failure same with removed | empty | failing
    · exact .inl removed
    · exact .inr (.inl empty)
    · exact .inr (.inr (failing.cons group))

theorem single_reach (count : Nat) (group : Option Readers) (groups : List (Option Readers)) :
    [group] <+: reach count (group :: groups) := by
  cases group <;> exact (List.prefix_cons_inj _).mpr List.nil_prefix

theorem fetchLoop_done (protocol : Protocol) (io : IoConfig) (emptyBody : Bool) (rounds : List Round)
    (calm : ∀ elapsed, Round.interrupted elapsed ∉ rounds) (source : Source) (records : List RecordMeta)
    {ended : Ended} {after : Source}
    (result : fetchLoop protocol io emptyBody rounds source records = some (ended, after)) :
    ∃ taken, Done (io.batchMaxRecords - records.length) source records ended after taken := by
  induction rounds generalizing source records with
  | nil => cases result
  | cons round rounds ih =>
    have later : ∀ elapsed, Round.interrupted elapsed ∉ rounds := fun elapsed member =>
      calm elapsed (List.mem_cons_of_mem _ member)
    cases round with
    | removed =>
      obtain ⟨rfl, rfl⟩ := Prod.mk.inj (Option.some.inj result)
      exact ⟨[], rfl, List.nil_prefix, fun _ _ same => (by cases same), fun _ _ => .inl rfl⟩
    | silent elapsed =>
      rw [fetchLoop] at result
      split at result
      · obtain ⟨rfl, rfl⟩ := Prod.mk.inj (Option.some.inj result)
        exact ⟨[], .stay _ source records false⟩
      · exact ih later source records result
    | interrupted elapsed => exact absurd List.mem_cons_self (calm elapsed)
    | fetched elapsed =>
      rw [fetchLoop] at result
      cases pending : source.pending with
      | nil =>
        rw [source.fetch_nil pending] at result
        dsimp only at result
        rw [List.append_nil] at result
        split at result
        · cases result
        · split at result
          next empty =>
            obtain ⟨rfl, rfl⟩ := Prod.mk.inj (Option.some.inj result)
            subst empty
            exact ⟨[], .refuse _ source _⟩
          next =>
            rw [if_pos (show HistoricalQuery.noContent.status = .noContent from rfl)] at result
            obtain ⟨rfl, rfl⟩ := Prod.mk.inj (Option.some.inj result)
            exact ⟨[], .stay _ source records true⟩
      | cons group groups =>
        rw [source.fetch_cons pending] at result
        cases group with
        | none =>
          dsimp only at result
          have same : records = records ++ recordsOf [none] := (List.append_nil records).symm
          split at result
          · obtain ⟨rfl, rfl⟩ := Prod.mk.inj (Option.some.inj result)
            exact ⟨[none], (Done.stay 0 _ records false).cons pending same (single_reach _ _ _)⟩
          · obtain ⟨taken, done⟩ := ih later _ records result
            exact ⟨none :: taken, done.cons pending same ((List.prefix_cons_inj none).mpr done.within)⟩
        | some readers =>
          dsimp only at result
          have sum : records ++ readers.records = records ++ recordsOf [some readers] := by simp
          split at result
          · cases result
          · split at result
            next failure others errors =>
              -- the request ends with this group
              split at result
              next empty =>
                obtain ⟨rfl, rfl⟩ := Prod.mk.inj (Option.some.inj result)
                have refused := Done.refuse 0 { source with pending := groups } failure
                exact ⟨[some readers], refused.cons pending (empty.symm.trans sum) (single_reach _ _ _)⟩
              next =>
                split at result
                next =>
                  obtain ⟨rfl, rfl⟩ := Prod.mk.inj (Option.some.inj result)
                  exact ⟨[some readers], (Done.stay 0 _ _ true).cons pending sum (single_reach _ _ _)⟩
                next status =>
                  obtain ⟨rfl, rfl⟩ := Prod.mk.inj (Option.some.inj result)
                  refine ⟨[some readers], pending, pending ▸ single_reach _ _ _, fun _ _ same => (by cases same),
                    fun _ _ => .inr (.inr ⟨[], readers, failure, rfl, by rw [errors]; rfl, status⟩)⟩
            next errors =>
              split at result
              next =>
                obtain ⟨rfl, rfl⟩ := Prod.mk.inj (Option.some.inj result)
                exact ⟨[some readers], (Done.stay 0 _ _ false).cons pending sum (single_reach _ _ _)⟩
              next open_ =>
                obtain ⟨taken, done⟩ := ih later _ _ result
                refine ⟨some readers :: taken, done.cons pending sum ?_⟩
                -- the batch is not full yet
                have space : ¬ (io.batchMaxRecords - records.length ≤ readers.records.length ∨ readers.errors ≠ []) := by
                  rintro (full | failed)
                  · apply open_
                    have filled : io.batchMaxRecords ≤ records.length + readers.records.length := by omega
                    simp [limitReached, filled]
                  · exact failed errors
                have rest := done.within
                rw [List.length_append, ← Nat.sub_sub] at rest
                rw [reach, if_neg space]
                exact (List.prefix_cons_inj _).mpr rest

end Taken

section Runs

variable (io : IoConfig) (limit : Option WindowLimit)

/-- A request that loses no record and moves none: it is not interrupted, the limit has room for what it can take, an error
    behind records that it can take is the end of the query, and its response has what it takes in the same order. -/
structure Safe (server : Server) (request : Request) : Prop where
  calm : ∀ elapsed, Round.interrupted elapsed ∉ request.rounds
  egress : request.emptyBody = false → ∀ window, limit = some window →
    WindowCounter.saturatingAdd (server.egress.usedIn window request.scope request.nowSecs)
      (bodySize (recordsOf (reach io.batchMaxRecords server.source.pending))) ≤ window.amount
  errors : ∀ front readers failure behind, server.source.pending = front ++ some readers :: behind →
    front ++ [some readers] <+: reach io.batchMaxRecords server.source.pending →
    readers.errors.head? = some failure → failure.status ≠ .noContent →
    recordsOf (front ++ [some readers]) = [] ∨ recordsOf behind = []
  ordered : ∀ taken, taken <+: reach io.batchMaxRecords server.source.pending →
    request.version.protocol.order (recordsOf taken) = recordsOf taken

def Permitted (server : Server) : Event → Prop
  | .read request => (request.answer io limit server).isSome = true ∧ Safe io limit server request
  | .traffic .. => True

def Intact (produced : List RecordMeta) (source : Source) (batches : List (List RecordMeta)) : Prop :=
  batches.flatten ++ source.produced = produced ∨
    batches.flatten <+: produced ∧ (source.removed = true ∨ source.produced = [])

structure Kept (produced : List RecordMeta) (server : Server) : Prop where
  made : ∀ window, limit = some window → server.egress.Made window
  batches : Intact produced server.source (server.delivered.map Prod.snd)

variable {io limit}

theorem bodySize_mono {taken groups : List (Option Readers)} (within : taken <+: groups) :
    bodySize (recordsOf taken) ≤ bodySize (recordsOf groups) := by
  obtain ⟨rest, rfl⟩ := within
  simp [bodySize]

theorem Safe.admitted {server : Server} {request : Request} (safe : Safe io limit server request)
    (made : ∀ window, limit = some window → server.egress.Made window) (sends : request.emptyBody = false)
    {taken : List (Option Readers)} (within : taken <+: reach io.batchMaxRecords server.source.pending) :
    (server.egress.consumeForScope limit request.scope (.egressBytes (bodySize (recordsOf taken))) request.nowSecs).1 =
      .ok () := by
  cases limited : limit with
  | none => rfl
  | some window =>
    rw [Counters.consumeForScope_ok_iff (made window limited)]
    have room := safe.egress sends window limited
    have smaller := bodySize_mono within
    simp only [WindowCounter.saturatingAdd, LimitKind.amount] at room ⊢
    omega

theorem kept_traffic {counters : Counters} (made : ∀ window, limit = some window → counters.Made window)
    (scope : LimitScope) (kind : LimitKind) (nowSecs : Nat) :
    ∀ window, limit = some window → (counters.consumeForScope limit scope kind nowSecs).2.Made window := by
  rintro window rfl
  exact Counters.made_consumeForScope (made window rfl) scope kind nowSecs

section Batches

variable {produced : List RecordMeta} {source after : Source} {batches : List (List RecordMeta)}
  {taken : List (Option Readers)}

theorem Intact.start (intact : Intact produced source batches) : batches.flatten <+: produced := by
  rcases intact with rfl | ⟨front, -⟩
  · exact List.prefix_append _ _
  · exact front

theorem Intact.ended (intact : Intact produced source batches) (finished : after.removed = true ∨ after.produced = []) :
    Intact produced after batches := .inr ⟨intact.start, finished⟩

theorem produced_split (pending : source.pending = taken ++ after.pending) :
    source.produced = recordsOf taken ++ after.produced := by
  rw [Source.produced, pending, recordsOf_append]
  rfl

theorem Intact.take (intact : Intact produced source batches) (present : source.removed = false)
    (pending : source.pending = taken ++ after.pending) : Intact produced after (batches ++ [recordsOf taken]) := by
  have split := produced_split pending
  rw [Intact, List.flatten_append, List.flatten_singleton]
  rcases intact with whole | ⟨front, removed | nothing⟩
  · left
    rw [List.append_assoc, ← split, whole]
  · rw [present] at removed
    cases removed
  · obtain ⟨none, rest⟩ := List.append_eq_nil_iff.mp (split.symm.trans nothing)
    right
    rw [none, List.append_nil]
    exact ⟨front, .inr rest⟩

theorem Intact.skip (intact : Intact produced source batches) (present : source.removed = false)
    (pending : source.pending = taken ++ after.pending) (nothing : recordsOf taken = []) :
    Intact produced after batches := by
  have taken := intact.take present pending
  rwa [nothing, Intact, List.flatten_append, List.flatten_singleton, List.append_nil] at taken

end Batches

theorem delivered_append (source : Source) (egress : Counters) (responses : List Response) (response : Response) :
    ({ source, egress, responses := responses ++ [response] } : Server).delivered =
      ({ source, egress, responses } : Server).delivered ++
        match response with
        | .success version records _ => [(version, records)]
        | _ => [] := by
  unfold Server.delivered
  cases response <;> simp

structure Answered (produced : List RecordMeta) (limit : Option WindowLimit) (batches : List (List RecordMeta))
    (answer : Response × Source × Counters) : Prop where
  made : ∀ window, limit = some window → answer.2.2.Made window
  batches : match answer.1 with
    | .success _ records _ => Intact produced answer.2.1 (batches ++ [records])
    | _ => Intact produced answer.2.1 batches

theorem Safe.answered {produced : List RecordMeta} {server : Server} {request : Request}
    (safe : Safe io limit server request) (made : ∀ window, limit = some window → server.egress.Made window)
    {batches : List (List RecordMeta)} (intact : Intact produced server.source batches)
    {answer : Response × Source × Counters} (answered : request.answer io limit server = some answer) :
    Answered produced limit batches answer := by
  unfold Request.answer at answered
  split at answered
  · obtain rfl := Option.some.inj answered
    exact ⟨made, intact.ended (.inl rfl)⟩
  · next present =>
    have kept : server.source.removed = false := by
      simpa using (not_or.mp present).2
    split at answered
    · cases answered
    · next failure after looped =>
      obtain rfl := Option.some.inj answered
      obtain ⟨taken, done⟩ := fetchLoop_done _ _ _ _ safe.calm _ _ looped
      refine ⟨made, ?_⟩
      rcases done.failure failure rfl with removed | nothing | ⟨front, readers, error, rfl, first, status⟩
      · exact intact.ended (.inl removed)
      · exact intact.skip kept done.pending nothing
      · have pending : server.source.pending = front ++ some readers :: after.pending := by
          rw [done.pending, List.append_assoc]
          rfl
        rcases safe.errors front readers error after.pending pending done.within first status with nothing | ended
        · exact intact.skip kept done.pending nothing
        · exact intact.ended (.inr ended)
    · next records last after looped =>
      obtain rfl := Option.some.inj answered
      obtain ⟨taken, done⟩ := fetchLoop_done _ _ _ _ safe.calm _ _ looped
      have batch : records = recordsOf taken := done.batch records last rfl
      have sent : Intact produced after (batches ++ [request.version.protocol.order records]) := by
        rw [batch, safe.ordered taken done.within]
        exact intact.take kept done.pending
      unfold respond
      split
      · exact ⟨made, intact.ended (.inl rfl)⟩
      · split
        · exact ⟨made, sent⟩
        · next sends =>
          have admitted := safe.admitted made (by simpa using sends) done.within
          have later := kept_traffic made request.scope (.egressBytes (bodySize records)) request.nowSecs
          rw [← batch] at admitted
          split
          next consumed =>
            rw [consumed] at later
            exact ⟨later, sent⟩
          next consumed =>
            rw [consumed] at admitted
            cases admitted

theorem Kept.step {produced : List RecordMeta} {server : Server} (kept : Kept limit produced server) {event : Event}
    (permitted : Permitted io limit server event) : Kept limit produced (server.perform io limit event) := by
  obtain ⟨made, intact⟩ := kept
  cases event with
  | traffic scope bytes nowSecs => exact ⟨kept_traffic made scope _ nowSecs, intact⟩
  | read request =>
    obtain ⟨some_, safe⟩ := permitted
    obtain ⟨⟨response, source, egress⟩, answered⟩ := Option.isSome_iff_exists.mp some_
    have result := safe.answered made intact answered
    simp only [Server.perform, answered]
    refine ⟨result.made, ?_⟩
    rw [delivered_append, List.map_append]
    have same : ({ source, egress, responses := server.responses } : Server).delivered = server.delivered := rfl
    rw [same]
    have ended := result.batches
    cases response with
    | success version records last => exact ended
    | failure error => simpa using ended
    | limited exceeded => simpa using ended

def InOrder (first second : RecordMeta) : Prop :=
  first.entryName = second.entryName ∧ first.timestamp ≤ second.timestamp

instance : DecidableRel InOrder := fun _ _ => inferInstanceAs (Decidable (_ ∧ _))

theorem order_eq {version : Version} {batch : List RecordMeta}
    (same : version = .entry ∨ batch.Pairwise InOrder) : version.protocol.order batch = batch := by
  cases version with
  | entry => rfl
  | bucket =>
    rcases same with contrary | sorted
    · cases contrary
    · refine List.Pairwise.insertionSort_eq (sorted.imp fun pair => .inr ⟨?_, pair.2⟩)
      rw [pair.1]

/-- In a run of such requests the responses have, one after the other, the first records of the query. -/
theorem reads_prefix {start server : Server} (fresh : start.responses = [])
    (made : ∀ window, limit = some window → start.egress.Made window)
    (run : Runs (Server.perform io limit) (Permitted io limit) start server) :
    (server.delivered.map Prod.snd).flatten <+: start.source.produced := by
  have initial : Kept limit start.source.produced start := by
    refine ⟨made, .inl ?_⟩
    rw [Server.delivered, fresh]
    rfl
  exact (run.invariant (Kept limit start.source.produced) initial
    fun current event kept permitted => kept.step permitted).batches.start

def bytesRecord (timestamp contentLength : Nat) : RecordMeta :=
  { entryName := "entry", timestamp, labels := [], contentType := "text/plain", contentLength, computedLabels := [] }

def fullBucket : IoConfig := { batchMaxSize := 100, batchMaxMetadataSize := 1000, batchMaxRecords := 1 }

def twoRecords : Server :=
  { source := .ofItems 1 [.ok (bytesRecord 1 6), .ok (bytesRecord 2 3), .error HistoricalQuery.noContent]
    egress := fun _ => none
    responses := [] }

def readAt (nowSecs : Nat) : Event :=
  .read {
    version := .bucket
    emptyBody := false
    scope := .globalFallback
    nowSecs
    rounds := [.fetched false]
    expired := false
    gone := false }

def twoReads : Server := [readAt 0, readAt 1].foldl (Server.perform fullBucket (some { amount := 10, window := 60 })) twoRecords

theorem Safe.of_clean {server : Server} {request : Request} (calm : ∀ elapsed, Round.interrupted elapsed ∉ request.rounds)
    (egress : request.emptyBody = false → ∀ window, limit = some window →
      WindowCounter.saturatingAdd (server.egress.usedIn window request.scope request.nowSecs)
        (bodySize (recordsOf (reach io.batchMaxRecords server.source.pending))) ≤ window.amount)
    (clean : ∀ readers ∈ (reach io.batchMaxRecords server.source.pending).filterMap id, readers.errors = [])
    (sorted : request.version = .entry ∨ (recordsOf (reach io.batchMaxRecords server.source.pending)).Pairwise InOrder) :
    Safe io limit server request := by
  refine ⟨calm, egress, fun front readers failure behind _ within first => ?_, fun taken within => ?_⟩
  · have member : some readers ∈ reach io.batchMaxRecords server.source.pending := within.subset (by simp)
    rw [clean readers (List.mem_filterMap.mpr ⟨some readers, member, rfl⟩)] at first
    cases first
  · obtain ⟨rest, whole⟩ := within
    rw [← whole, recordsOf_append] at sorted
    exact order_eq (sorted.imp id fun pairs => (List.pairwise_append.mp pairs).1)

theorem run_twoReads : Runs (Server.perform fullBucket (some { amount := 10, window := 60 }))
    (Permitted fullBucket (some { amount := 10, window := 60 })) twoRecords twoReads := by
  refine Runs.of_list _ _ fun index inside => ?_
  have cases : index = 0 ∨ index = 1 := by
    simp only [List.length_cons, List.length_nil] at inside
    omega
  rcases cases with rfl | rfl
  all_goals
    refine ⟨by decide +kernel, .of_clean (by simp) (fun _ window same => ?_) (by decide +kernel) (.inr (by decide +kernel))⟩
    obtain rfl := Option.some.inj same
    decide +kernel

theorem reads_prefix_two :
    twoReads.delivered.map Prod.snd = [[bytesRecord 1 6], [bytesRecord 2 3]] ∧
      (twoReads.delivered.map Prod.snd).flatten <+: twoRecords.source.produced :=
  ⟨by decide +kernel, reads_prefix rfl (fun _ _ _ _ absent => by cases absent) run_twoReads⟩

theorem limit_loses_record :
    ¬ ((([readAt 0, readAt 1].foldl (Server.perform fullBucket (some { amount := 5, window := 60 })) twoRecords).delivered.map
      Prod.snd).flatten <+: twoRecords.source.produced) := by
  decide +kernel

end Runs

end BatchedRead

end ReductStore
