import DataCollectionLab.Core.Outbox
import DataCollectionLab.Core.StatusColumn
import DataCollectionLab.Lib.Runs
import DataCollectionLab.Sync.Pull

/-!
A device's sync passes against a server that runs `push`, over a network that loses, delays and
repeats what it carries. A request may reach the server any number of times and at any time after it
was sent; a response reaches the device at most while the device still waits for that exchange; the
device appends ops throughout, and the server serves others meanwhile.
-/

namespace DataCollectionLab.Core

def SyncOp.wire (op : SyncOp) (sealing : Option (Bytes × String × Bytes)) : Sync.RawOp :=
  if given : Sync.needsPath op.kind = true → op.path.getD "" ≠ "" then
    .wellFormed
      { opId := op.opId
        submissionId := op.submissionId
        formId := op.formId
        formVersion := op.formVersion
        kind := op.kind
        path := op.path
        payload := match sealing with
          | none => .plain (op.valueJson.getD .null)
          | some (ciphertext, contentKeyId, nonce) => .sealed ciphertext contentKeyId nonce
        deviceId := op.deviceId
        actorId := some op.actorId
        caseId := op.caseId
        counter := op.counter
        wallClock := op.wallClock
        pathGiven := given }
  else .malformed (some op.opId)

/-- `WirePulledOp.toSyncOp`. -/
def pulledOp (op : Sync.PulledOp) : SyncOp where
  opId := op.row.id
  submissionId := op.row.submissionId
  formId := op.formId
  formVersion := op.formVersion
  kind := op.row.opKind
  path := op.row.path
  valueJson := match op.row.value with
    | .null => none
    | json => some json
  valueCiphertext := op.row.valueCiphertext
  contentKeyId := op.row.contentKeyId
  nonce := op.row.nonce
  deviceId := op.row.deviceId
  actorId := op.row.actorId.getD "unknown"
  counter := op.row.counter
  wallClock := op.row.wallClock
  synced := .acknowledged

/-- A push request under way: the batch it was prepared from, and what it says. -/
structure Message where
  exchange : Nat
  batch : List SyncOp
  deviceId : String
  ops : List Sync.RawOp
  keys : List Sync.ContentKeyIn
  pendingOps : Nat

structure Answer where
  exchange : Nat
  batch : List SyncOp
  response : Sync.PushResponse

/-- Where the device is in a pass: at the head of the push loop, waiting for a batch's verdicts, or
past the loop and pulling. -/
inductive Phase where
  | idle | looping | awaiting | pulling
  deriving DecidableEq, Repr

structure PassNotes where
  /-- The ops that were not synced when the pass began. -/
  due : List String := []
  /-- The ops the pass has put on the wire. -/
  offered : List String := []
  /-- The batches answered, the ops pending at the start, and those appended since. -/
  rounds : Nat := 0
  found : Nat := 0
  appended : Nat := 0

structure World where
  store : SubmissionStore
  server : Sync.Db
  phase : Phase := .idle
  /-- The exchange the device is in, and its batch as it was sent. -/
  exchange : Nat := 0
  current : Message := ⟨0, [], "", [], [], 0⟩
  requests : List Message := []
  answers : List Answer := []
  pages : List Sync.PullResponse := []
  /-- Every op the device ever recorded. -/
  recorded : List SyncOp := []
  pass : PassNotes := {}

inductive Act where
  | createDraft (id formId : String) (formVersion : Nat) (caseId : Option String) (now : Timestamp)
  | append (opId submissionId formId : String) (formVersion : Nat) (kind : OpKind)
      (path : Option String) (valueJson : Option Json) (now : Timestamp)
  | startPass
  /-- The next batch, sealed and sent; or the end of the loop, when nothing is pending. -/
  | offer (sealing : SyncOp → Option (Bytes × String × Bytes)) (keys : List Sync.ContentKeyIn)
  /-- `withRetry` sends the batch again. -/
  | resend
  /-- A request that was sent reaches the server, in some session of it. -/
  | serve (request : Nat) (pol : Sync.Policies) (actorId : Option String) (now : Timestamp)
  | receive (answer : Nat)
  | servePage (pol : Sync.Policies) (cursor limit : Nat)
  | receivePage (page : Nat)
  /-- The pass fails or is cancelled, wherever it is. -/
  | abort
  /-- Whatever else happens on the server: nothing removes a row of its op log. -/
  | elsewhere (change : Sync.Db → Sync.Db)
      (appendOnly : ∀ db, ∀ row ∈ db.ops.rows, row ∈ (change db).ops.rows)

namespace World

def recordSeals (store : SubmissionStore) (batch : List SyncOp)
    (sealing : SyncOp → Option (Bytes × String × Bytes)) : SubmissionStore :=
  batch.foldl (fun store op =>
    match sealing op with
    | none => store
    | some sealed => store.recordOpCiphertext op.opId sealed) store

def offer (config : SyncConfig) (world : World)
    (sealing : SyncOp → Option (Bytes × String × Bytes)) (keys : List Sync.ContentKeyIn) : World :=
  let batch := world.store.pendingOps config.batchSize
  if batch.isEmpty then { world with phase := .pulling }
  else
    let store := recordSeals world.store batch sealing
    let message : Message :=
      { exchange := world.exchange + 1
        batch := batch
        deviceId := store.deviceId
        ops := batch.map fun op => op.wire (sealing op)
        keys := keys
        pendingOps := store.pendingCount }
    { world with
      store := store
      phase := .awaiting
      exchange := world.exchange + 1
      current := message
      requests := world.requests ++ [message]
      pass := { world.pass with offered := world.pass.offered ++ batch.map (·.opId) } }

def receive (world : World) (answer : Answer) : World :=
  { world with
    store := world.store.takeVerdicts world.current.batch answer.response
    phase := if noProgress world.current.batch answer.response then .idle else .looping
    pass := { world.pass with rounds := world.pass.rounds + 1 } }

def startPass (world : World) : World :=
  let store := world.store.requeueRejectedOps
  { world with
    store := store
    phase := .looping
    pass :=
      { due := (world.store.outbox.rows.filter (·.synced ≠ .acknowledged)).map (·.opId)
        found := store.pending } }

/-- `none` is a step the device or the network cannot make now. -/
def step (config : SyncConfig) (world : World) : Act → Option World
  | .createDraft id formId formVersion caseId now =>
    (world.store.createDraft id formId formVersion caseId now).map fun store =>
      { world with store := store }
  | .append opId submissionId formId formVersion kind path valueJson now =>
    let op := world.store.newOp opId submissionId formId formVersion kind path valueJson now
    (world.store.append op).map fun store =>
      { world with
        store := store
        recorded := world.recorded ++ [op]
        pass := { world.pass with appended := world.pass.appended + 1 } }
  | .startPass => if world.phase = .idle then some world.startPass else none
  | .offer sealing keys =>
    if world.phase = .looping then some (world.offer config sealing keys) else none
  | .resend =>
    if world.phase = .awaiting then
      some { world with
        requests := world.requests ++
          [{ world.current with pendingOps := world.store.pendingCount }] }
    else none
  | .serve request pol actorId now =>
    match world.requests[request]? with
    | none => none
    | some message =>
      let req : Sync.PushRequest :=
        { deviceId := message.deviceId
          ops := message.ops
          keys := message.keys
          actorId := actorId
          pendingOps := some message.pendingOps
          now := now }
      match Sync.push pol world.server req with
      | .error _ => some world
      | .ok (response, db) => some
        { world with
          server := db
          answers := world.answers ++ [⟨message.exchange, message.batch, response⟩] }
  | .receive answer =>
    match world.answers[answer]? with
    | none => none
    | some answer =>
      if world.phase = .awaiting ∧ answer.exchange = world.exchange then some (world.receive answer)
      else none
  | .servePage pol cursor limit =>
    match Sync.pull pol world.server cursor limit with
    | none => some world
    | some page => some { world with pages := world.pages ++ [page] }
  | .receivePage page =>
    match world.pages[page]? with
    | none => none
    | some page =>
      if world.phase = .pulling then some
        { world with
          store := world.store.applyPullBatch (page.ops.map pulledOp) page.nextCursor
          phase := if page.hasMore then .pulling else .idle }
      else none
  | .abort => some { world with phase := .idle }
  | .elsewhere change _ => some { world with server := change world.server }

def start (deviceId actorId : String) (server : Sync.Db) : World where
  store := { deviceId := deviceId, actorId := actorId }
  server := server

end World

def Holds (server : Sync.Db) (op : SyncOp) : Prop :=
  ∃ row ∈ server.ops.rows, row.id = op.opId ∨ row.slot = op.slot

structure OutboxSafe (config : SyncConfig) (world : World) : Prop where
  /-- What is marked synced is on the server. -/
  synced_stored : ∀ op ∈ world.store.outbox.rows, op.synced = .acknowledged → Holds world.server op
  stored_once : world.server.ops.rows.Pairwise fun a b => a.id ≠ b.id ∧ a.slot ≠ b.slot
  /-- What was recorded is still in the outbox, as it was recorded. -/
  kept : ∀ op ∈ world.recorded, ∃ row ∈ world.store.outbox.rows, row.SameOp op
  /-- A pass that comes through its push loop has offered what was not synced when it began. -/
  offered : world.phase = .pulling → ∀ id ∈ world.pass.due, id ∈ world.pass.offered
  /-- Every op that the server's answer is about has its verdict in it. -/
  answered : ∀ answer ∈ world.answers, ∀ op ∈ answer.batch,
    op.opId ∈ answer.response.accepted ∨ answer.response.Refuses op.opId
  /-- The loop of a pass has no more rounds than ops were pending or were appended since. -/
  rounds : world.phase ≠ .idle →
    world.pass.rounds + world.store.pending ≤ world.pass.found + world.pass.appended
  /-- Whatever the server would answer, the loop ends. -/
  ends : ∀ verdicts, (pushLoop config.batchSize (world.store.pending + 1) world.store verdicts).isSome

/-! ### What the server answers about a device's batch -/

theorem wire_cases (op : SyncOp) (sealing : Option (Bytes × String × Bytes)) :
    (∃ sent, op.wire sealing = .wellFormed sent ∧ sent.opId = op.opId ∧ sent.slot = op.slot) ∨
      op.wire sealing = .malformed (some op.opId) := by
  unfold SyncOp.wire
  split
  · exact Or.inl ⟨_, rfl, rfl, rfl⟩
  · exact Or.inr rfl

def Carries (batch : List SyncOp) (ops : List Sync.RawOp) : Prop :=
  batch.Pairwise (fun a b => ¬ a.Clash b) ∧
    ∃ sealing : SyncOp → Option (Bytes × String × Bytes), ops = batch.map fun op => op.wire (sealing op)

namespace Carries

variable {batch : List SyncOp} {ops : List Sync.RawOp}

theorem exists_of_wellFormed (carries : Carries batch ops) {sent : Sync.SyncOp}
    (member : .wellFormed sent ∈ ops) :
    ∃ op ∈ batch, sent.opId = op.opId ∧ sent.slot = op.slot := by
  obtain ⟨-, sealing, rfl⟩ := carries
  obtain ⟨op, present, same⟩ := List.mem_map.mp member
  rcases wire_cases op (sealing op) with ⟨sent', wired, id, slot⟩ | malformed
  · rw [same] at wired
    cases wired
    exact ⟨op, present, id, slot⟩
  · rw [same] at malformed
    cases malformed

theorem eq_of_clash (carries : Carries batch ops) {a b : SyncOp} (left : a ∈ batch) (right : b ∈ batch)
    (clash : a.Clash b) : a = b := by
  have symm : Std.Symm fun a b : SyncOp => ¬ a.Clash b :=
    ⟨fun a b apart clash => apart (clash.imp Eq.symm Eq.symm)⟩
  by_contra differ
  exact carries.1.forall left right differ clash

theorem ids_nodup (carries : Carries batch ops) : (Sync.wellFormedIds ops).Nodup := by
  obtain ⟨apart, sealing, rfl⟩ := carries
  have sub : (Sync.wellFormedIds (batch.map fun op => op.wire (sealing op))).Sublist
      (batch.map (·.opId)) := by
    clear apart
    induction batch with
    | nil => exact List.Sublist.refl _
    | cons op batch ih =>
      rcases wire_cases op (sealing op) with ⟨sent, wired, id, -⟩ | malformed
      · simp only [List.map_cons, Sync.wellFormedIds, List.filterMap_cons, wired, id]
        exact ih.cons_cons _
      · simp only [List.map_cons, Sync.wellFormedIds, List.filterMap_cons, malformed]
        exact ih.cons _
  refine sub.nodup (List.pairwise_map.mpr (apart.imp fun apart same => apart (Or.inl same)))

theorem holds (carries : Carries batch ops) {c : Sync.Call} (given : c.req.ops = ops)
    {response : Sync.PushResponse} {final : Sync.Db}
    (returned : Sync.push c.pol c.db c.req = .ok (response, final)) {op : SyncOp}
    (member : op ∈ batch) (accepted : op.opId ∈ response.accepted) : Holds final op := by
  rw [(c.push_verdicts returned).1] at accepted
  obtain ⟨sent, inBatch, same⟩ := c.accepted_named accepted
  have found : .wellFormed sent ∈ ops := given ▸ Sync.readBatch_mem inBatch
  obtain ⟨op', present, id, slot⟩ := carries.exists_of_wellFormed found
  obtain rfl : op = op' := carries.eq_of_clash member present (Or.inl (same.symm.trans id))
  rw [← same] at accepted
  have stands : ¬ c.Refuses sent := by
    rcases (c.mem_accepted_iff inBatch).mp accepted with stands | twice
    · exact stands
    · have once := List.nodup_iff_count_le_one.mp carries.ids_nodup sent.opId
      rw [given] at twice
      omega
  have leaders : c.LeadersStand := by
    intro a inA _ b before _ slots _
    -- No two ops of the batch share a place, so nothing is taken for a replay of another.
    have inB := c.earlier_subset inA before
    obtain ⟨x, presentX, idX, slotX⟩ :=
      carries.exists_of_wellFormed (given ▸ Sync.readBatch_mem inA)
    obtain ⟨y, presentY, idY, slotY⟩ :=
      carries.exists_of_wellFormed (given ▸ Sync.readBatch_mem inB)
    obtain rfl := carries.eq_of_clash presentX presentY
      (Or.inr (slotX.symm.trans (slots.symm.trans slotY)))
    have other := List.all_eq_true.mp (List.all_takeWhile (l := c.ops)) b before
    rw [idX, idY, bne_self_eq_false] at other
    cases other
  obtain ⟨row, stored, held⟩ := c.held_of_accepted returned leaders inBatch stands
  exact ⟨row, stored, by rwa [id, slot] at held⟩

theorem answered (carries : Carries batch ops) {c : Sync.Call} (given : c.req.ops = ops)
    {response : Sync.PushResponse} {final : Sync.Db}
    (returned : Sync.push c.pol c.db c.req = .ok (response, final)) {op : SyncOp}
    (member : op ∈ batch) : op.opId ∈ response.accepted ∨ response.Refuses op.opId := by
  obtain ⟨-, sealing, rfl⟩ := carries
  have sent : op.wire (sealing op) ∈ c.req.ops := given ▸ List.mem_map_of_mem member
  rcases wire_cases op (sealing op) with ⟨wellFormed, wired, id, -⟩ | malformed
  · rw [wired] at sent
    rw [← id]
    exact c.answered returned sent
  · rw [malformed] at sent
    exact Or.inr (c.refuses_malformed returned sent)

end Carries

end DataCollectionLab.Core
