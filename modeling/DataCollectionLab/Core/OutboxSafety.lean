import DataCollectionLab.Core.SyncPass

/-!
The outbox neither loses nor duplicates. What carries the proof is that an answer says of its own
batch only what the server's log bears out, and that the log never shrinks: a late answer is as true
as a prompt one.
-/

namespace DataCollectionLab.Core

/-! ### Changes of the store that mark nothing -/

/-- The new store has every row of the old one, pending where it was pending, and what it has
acknowledged beyond those the server holds. -/
structure Quiet (server : Sync.Db) (old new : SubmissionStore) : Prop where
  rows : ∀ row ∈ old.outbox.rows, ∃ row' ∈ new.outbox.rows, row'.SameOp row ∧
    (row.synced = .pending → row'.synced = .pending)
  synced : ∀ row' ∈ new.outbox.rows, row'.synced = .acknowledged →
    Holds server row' ∨ ∃ row ∈ old.outbox.rows, row.synced = .acknowledged ∧ row'.SameOp row

theorem Holds.congr {server : Sync.Db} {a b : SyncOp} (same : a.SameOp b) (holds : Holds server b) :
    Holds server a := by
  obtain ⟨row, stored, found⟩ := holds
  exact ⟨row, stored, by rwa [same.1, same.2.1]⟩

theorem Holds.mono {server server' : Sync.Db} (grows : ∀ row ∈ server.ops.rows, row ∈ server'.ops.rows)
    {op : SyncOp} (holds : Holds server op) : Holds server' op := by
  obtain ⟨row, stored, found⟩ := holds
  exact ⟨row, grows row stored, found⟩

namespace Quiet

variable {server : Sync.Db} {old new : SubmissionStore}

theorem of_outbox (same : new.outbox = old.outbox) : Quiet server old new where
  rows row stored := ⟨row, same ▸ stored, SyncOp.SameOp.refl row, id⟩
  synced row stored acknowledged := Or.inr ⟨row, same ▸ stored, acknowledged, SyncOp.SameOp.refl row⟩

theorem trans {mid : SubmissionStore} (one : Quiet server old mid) (two : Quiet server mid new) :
    Quiet server old new where
  rows row stored := by
    obtain ⟨row', stored', same, pending⟩ := one.rows row stored
    obtain ⟨row'', stored'', same', pending'⟩ := two.rows row' stored'
    exact ⟨row'', stored'', same'.trans same, pending' ∘ pending⟩
  synced row stored acknowledged := by
    rcases two.synced row stored acknowledged with held | ⟨row', stored', acknowledged', same⟩
    · exact Or.inl held
    · rcases one.synced row' stored' acknowledged' with held | ⟨row'', stored'', acknowledged'', same'⟩
      · exact Or.inl (held.congr same)
      · exact Or.inr ⟨row'', stored'', acknowledged'', same.trans same'⟩

theorem of_append {op : SyncOp} (rows : new.outbox.rows = old.outbox.rows ++ [op])
    (told : op.synced = .acknowledged → Holds server op) : Quiet server old new where
  rows row stored :=
    ⟨row, by rw [rows]; exact List.mem_append_left _ stored, SyncOp.SameOp.refl row, id⟩
  synced row stored acknowledged := by
    rw [rows] at stored
    rcases List.mem_append.mp stored with kept | added
    · exact Or.inr ⟨row, kept, acknowledged, SyncOp.SameOp.refl row⟩
    · obtain rfl := List.mem_singleton.mp added
      exact Or.inl (told acknowledged)

theorem of_map {change : SyncOp → SyncOp} (rows : new.outbox.rows = old.outbox.rows.map change)
    (same : ∀ op, (change op).SameOp op) (synced : ∀ op, (change op).synced = op.synced) :
    Quiet server old new where
  rows row stored :=
    ⟨change row, by rw [rows]; exact List.mem_map_of_mem stored, same row,
      fun pending => (synced row).trans pending⟩
  synced row stored acknowledged := by
    rw [rows] at stored
    obtain ⟨kept, present, rfl⟩ := List.mem_map.mp stored
    exact Or.inr ⟨kept, present, (synced kept).symm.trans acknowledged, same kept⟩

end Quiet

theorem quiet_createDraft {server : Sync.Db} {store store' : SubmissionStore} {id formId : String}
    {formVersion : Nat} {caseId : Option String} {now : Timestamp}
    (made : store.createDraft id formId formVersion caseId now = some store') :
    Quiet server store store' ∧ store'.pending = store.pending := by
  unfold SubmissionStore.createDraft at made
  split at made
  · cases made
  · cases made
    exact ⟨Quiet.of_outbox rfl, rfl⟩

theorem quiet_recordSeals (server : Sync.Db) (batch : List SyncOp)
    (sealing : SyncOp → Option (Bytes × String × Bytes)) (store : SubmissionStore) :
    Quiet server store (World.recordSeals store batch sealing) ∧
      (World.recordSeals store batch sealing).pending = store.pending ∧
      (World.recordSeals store batch sealing).deviceId = store.deviceId := by
  induction batch generalizing store with
  | nil => exact ⟨Quiet.of_outbox rfl, rfl, rfl⟩
  | cons op batch ih =>
    cases given : sealing op with
    | none =>
      have step : World.recordSeals store (op :: batch) sealing = World.recordSeals store batch sealing := by
        unfold World.recordSeals
        rw [List.foldl_cons, given]
      rw [step]
      exact ih store
    | some sealed =>
      have step : World.recordSeals store (op :: batch) sealing =
          World.recordSeals (store.recordOpCiphertext op.opId sealed) batch sealing := by
        unfold World.recordSeals
        rw [List.foldl_cons, given]
      rw [step]
      obtain ⟨quiet, pending, device⟩ := ih (store.recordOpCiphertext op.opId sealed)
      have synced : ∀ row : SyncOp, (row.recordCiphertext op.opId sealed).synced = row.synced := by
        intro row
        unfold SyncOp.recordCiphertext
        split <;> rfl
      refine ⟨(Quiet.of_map rfl (SyncOp.recordCiphertext_same op.opId sealed) synced).trans quiet,
        pending.trans ?_, device⟩
      show List.countP _ (List.map _ _) = _
      rw [List.countP_map]
      refine List.countP_congr fun row _ => ?_
      simp [synced]

theorem quiet_applyPullBatch {server : Sync.Db} {ops : List SyncOp}
    (held : ∀ op ∈ ops, Holds server op) (store : SubmissionStore) (nextCursor : Nat) :
    Quiet server store (store.applyPullBatch ops nextCursor) ∧
      (store.applyPullBatch ops nextCursor).pending = store.pending := by
  suffices walk : Quiet server store (ops.foldl SubmissionStore.applyPulled store) ∧
      (ops.foldl SubmissionStore.applyPulled store).pending = store.pending from
    ⟨walk.1.trans (Quiet.of_outbox rfl), walk.2⟩
  induction ops generalizing store with
  | nil => exact ⟨Quiet.of_outbox rfl, rfl⟩
  | cons op ops ih =>
    obtain ⟨quiet, pending⟩ := ih (fun op member => held op (by simp [member])) (store.applyPulled op)
    have outbox := store.outbox_applyPulled op
    rw [List.foldl_cons]
    rcases store.outbox.insertOrIgnore_rows op.acknowledged with added | ignored
    · rw [← outbox] at added
      refine ⟨(Quiet.of_append added fun _ => ?_).trans quiet, pending.trans ?_⟩
      · exact (held op (by simp)).congr (SyncOp.SameOp.refl _)
      · unfold SubmissionStore.pending
        rw [added, List.countP_append]
        simp [SyncOp.acknowledged]
    · rw [← outbox] at ignored
      refine ⟨(Quiet.of_outbox ignored).trans quiet, pending.trans ?_⟩
      unfold SubmissionStore.pending
      rw [ignored]

/-- What the outbox says of the server, and that nothing recorded has left it. -/
structure OutboxInv (server : Sync.Db) (store : SubmissionStore) (recorded : List SyncOp) : Prop where
  synced : ∀ op ∈ store.outbox.rows, op.synced = .acknowledged → Holds server op
  kept : ∀ op ∈ recorded, ∃ row ∈ store.outbox.rows, row.SameOp op

/-- What is on the wire: batches as they were prepared, and answers the server stands by. -/
structure WireInv (world : World) : Prop where
  requests : ∀ message ∈ world.requests, Carries message.batch message.ops ∧
    message.exchange ≤ world.exchange ∧
    (message.exchange = world.exchange → message.batch = world.current.batch)
  answers : ∀ answer ∈ world.answers, answer.exchange ≤ world.exchange ∧
    (answer.exchange = world.exchange → answer.batch = world.current.batch)
  held : ∀ answer ∈ world.answers, ∀ op ∈ answer.batch,
    op.opId ∈ answer.response.accepted → Holds world.server op
  answered : ∀ answer ∈ world.answers, ∀ op ∈ answer.batch,
    op.opId ∈ answer.response.accepted ∨ answer.response.Refuses op.opId
  pages : ∀ page ∈ world.pages, ∀ op ∈ page.ops, op.row ∈ world.server.ops.rows

structure PassInv (phase : Phase) (exchange : Nat) (current : Message) (store : SubmissionStore)
    (pass : PassNotes) : Prop where
  sent : phase = .awaiting → Carries current.batch current.ops ∧ current.exchange = exchange
  waiting : phase = .awaiting → ∀ op ∈ current.batch, op.opId ∈ pass.offered ∧
    ∃ row ∈ store.outbox.rows, row.synced = .pending ∧ op.SameOp row
  due : phase ≠ .idle → ∀ id ∈ pass.due, id ∈ pass.offered ∨
    ∃ row ∈ store.outbox.rows, row.opId = id ∧ row.synced = .pending
  drained : phase = .pulling → ∀ id ∈ pass.due, id ∈ pass.offered
  rounds : phase ≠ .idle → pass.rounds + store.pending ≤ pass.found + pass.appended

structure World.Inv (world : World) : Prop where
  outbox : OutboxInv world.server world.store world.recorded
  wire : WireInv world
  pass : PassInv world.phase world.exchange world.current world.store world.pass

theorem OutboxInv.quiet {server : Sync.Db} {old new : SubmissionStore} {recorded : List SyncOp}
    (inv : OutboxInv server old recorded) (quiet : Quiet server old new) :
    OutboxInv server new recorded where
  synced row stored acknowledged := by
    rcases quiet.synced row stored acknowledged with held | ⟨row', stored', acknowledged', same⟩
    · exact held
    · exact (inv.synced row' stored' acknowledged').congr same
  kept op member := by
    obtain ⟨row, stored, same⟩ := inv.kept op member
    obtain ⟨row', stored', same', -⟩ := quiet.rows row stored
    exact ⟨row', stored', same'.trans same⟩

theorem OutboxInv.mono {server server' : Sync.Db} {store : SubmissionStore} {recorded : List SyncOp}
    (inv : OutboxInv server store recorded)
    (grows : ∀ row ∈ server.ops.rows, row ∈ server'.ops.rows) : OutboxInv server' store recorded where
  synced op stored acknowledged := (inv.synced op stored acknowledged).mono grows
  kept := inv.kept

theorem PassInv.quiet {server : Sync.Db} {phase : Phase} {exchange : Nat} {current : Message}
    {old new : SubmissionStore} {pass : PassNotes} (inv : PassInv phase exchange current old pass)
    (quiet : Quiet server old new) (added : Nat) (pending : new.pending = old.pending + added) :
    PassInv phase exchange current new { pass with appended := pass.appended + added } where
  sent := inv.sent
  waiting awaiting op member := by
    obtain ⟨offered, row, stored, pending, same⟩ := inv.waiting awaiting op member
    obtain ⟨row', stored', same', still⟩ := quiet.rows row stored
    exact ⟨offered, row', stored', still pending, same.trans same'.symm⟩
  due running id member := by
    refine (inv.due running id member).imp_right ?_
    rintro ⟨row, stored, same, pending⟩
    obtain ⟨row', stored', same', still⟩ := quiet.rows row stored
    exact ⟨row', stored', same'.1.trans same, still pending⟩
  drained := inv.drained
  rounds running := by
    have bound := inv.rounds running
    simp only
    omega

theorem WireInv.mono {world : World} (inv : WireInv world) {server : Sync.Db}
    (grows : ∀ row ∈ world.server.ops.rows, row ∈ server.ops.rows) :
    WireInv { world with server := server } where
  requests := inv.requests
  answers := inv.answers
  held answer member op present accepted := (inv.held answer member op present accepted).mono grows
  answered := inv.answered
  pages page member op present := grows _ (inv.pages page member op present)

theorem WireInv.congr {world world' : World} (inv : WireInv world)
    (server : world'.server = world.server) (exchange : world'.exchange = world.exchange)
    (current : world'.current = world.current) (requests : world'.requests = world.requests)
    (answers : world'.answers = world.answers) (pages : world'.pages = world.pages) :
    WireInv world' where
  requests := by rw [requests, exchange, current]; exact inv.requests
  answers := by rw [answers, exchange, current]; exact inv.answers
  held := by rw [answers, server]; exact inv.held
  answered := by rw [answers]; exact inv.answered
  pages := by rw [pages, server]; exact inv.pages

theorem PassInv.idle {exchange : Nat} {current : Message} {store : SubmissionStore} {pass : PassNotes} :
    PassInv .idle exchange current store pass where
  sent awaiting := by cases awaiting
  waiting awaiting := by cases awaiting
  due running := absurd rfl running
  drained pulling := by cases pulling
  rounds running := absurd rfl running

theorem PassInv.looping {exchange : Nat} {current : Message} {store : SubmissionStore}
    {pass : PassNotes}
    (due : ∀ id ∈ pass.due, id ∈ pass.offered ∨
      ∃ row ∈ store.outbox.rows, row.opId = id ∧ row.synced = .pending)
    (rounds : pass.rounds + store.pending ≤ pass.found + pass.appended) :
    PassInv .looping exchange current store pass where
  sent awaiting := by cases awaiting
  waiting awaiting := by cases awaiting
  due _ := due
  drained pulling := by cases pulling
  rounds _ := rounds

namespace World

variable {config : SyncConfig} {world : World}

theorem inv_start (deviceId actorId : String) (server : Sync.Db) :
    (start deviceId actorId server).Inv where
  outbox := ⟨List.forall_mem_nil _, List.forall_mem_nil _⟩
  wire :=
    ⟨List.forall_mem_nil _, List.forall_mem_nil _, List.forall_mem_nil _, List.forall_mem_nil _,
      List.forall_mem_nil _⟩
  pass := PassInv.idle

theorem inv_startPass (inv : world.Inv) : world.startPass.Inv where
  outbox := by
    constructor
    · intro row stored acknowledged
      obtain ⟨old, present, rfl⟩ := List.mem_map.mp stored
      have before : old.synced = .acknowledged := by
        unfold SyncOp.requeue at acknowledged
        split at acknowledged
        · cases acknowledged
        · exact acknowledged
      exact (inv.outbox.synced old present before).congr (SyncOp.requeue_same old)
    · intro op member
      obtain ⟨row, stored, same⟩ := inv.outbox.kept op member
      exact ⟨row.requeue, List.mem_map_of_mem stored, (SyncOp.requeue_same row).trans same⟩
  wire := inv.wire.congr rfl rfl rfl rfl rfl rfl
  pass := by
    refine PassInv.looping (fun id member => ?_) (Nat.le_of_eq (Nat.zero_add _))
    -- What was rejected is pending again, and what was pending still is.
    obtain ⟨row, stored, rfl⟩ := List.mem_map.mp member
    obtain ⟨present, unsynced⟩ := List.mem_filter.mp stored
    refine Or.inr ⟨row.requeue, List.mem_map_of_mem present, (SyncOp.requeue_same row).1, ?_⟩
    unfold SyncOp.requeue
    cases state : row.synced <;> simp [state] at unsynced ⊢

theorem receive_rows (world : World) (answer : Answer) :
    (world.receive answer).store.outbox.rows = world.store.outbox.rows.map
      (SyncOp.marked (acceptedOf world.current.batch answer.response)
        (rejectedOf world.current.batch answer.response)) :=
  SubmissionStore.markPushResult_rows _ _ _

theorem outbox_receive (inv : world.Inv) {answer : Answer} (member : answer ∈ world.answers)
    (awaiting : world.phase = .awaiting) (here : answer.exchange = world.exchange) :
    OutboxInv world.server (world.receive answer).store world.recorded := by
  have batch : answer.batch = world.current.batch := (inv.wire.answers answer member).2 here
  constructor
  · intro row stored acknowledged
    rw [receive_rows] at stored
    obtain ⟨old, present, rfl⟩ := List.mem_map.mp stored
    refine Holds.congr (SyncOp.marked_same _ _ old) ?_
    rw [SyncOp.marked_synced] at acknowledged
    split at acknowledged
    · cases acknowledged
    · split at acknowledged
      · rename_i accepted
        -- An op is marked synced only by an answer about a batch it was in.
        obtain ⟨listed, inBatch⟩ := List.mem_filter.mp accepted
        obtain ⟨op, offered, same⟩ := List.mem_map.mp (List.contains_iff_mem.mp inBatch)
        obtain ⟨-, row, stored', -, sameOp⟩ := inv.pass.waiting awaiting op offered
        obtain rfl : old = row := world.store.outbox.eq_of_id present stored' (same.symm.trans sameOp.1)
        exact (inv.wire.held answer member op (batch ▸ offered) (same ▸ listed)).congr sameOp.symm
      · exact inv.outbox.synced old present acknowledged
  · intro op recorded
    obtain ⟨row, stored, same⟩ := inv.outbox.kept op recorded
    have present := List.mem_map_of_mem (f := SyncOp.marked
      (acceptedOf world.current.batch answer.response)
      (rejectedOf world.current.batch answer.response)) stored
    rw [← receive_rows] at present
    exact ⟨_, present, (SyncOp.marked_same _ _ row).trans same⟩

theorem pass_receive (inv : world.Inv) {answer : Answer} (awaiting : world.phase = .awaiting) :
    PassInv (world.receive answer).phase world.exchange world.current (world.receive answer).store
      (world.receive answer).pass := by
  have running : world.phase ≠ .idle := by simp [awaiting]
  cases progress : noProgress world.current.batch answer.response with
  | true =>
    rw [show (world.receive answer).phase = .idle by simp [receive, progress]]
    exact PassInv.idle
  | false =>
    rw [show (world.receive answer).phase = .looping by simp [receive, progress]]
    have less := takeVerdicts_pending_lt
      (fun op member => (inv.pass.waiting awaiting op member).2) progress
    have bound := inv.pass.rounds running
    refine PassInv.looping (fun id member => ?_) ?_
    · rcases inv.pass.due running id member with offered | ⟨row, stored, rfl, pending⟩
      · exact Or.inl offered
      · -- A verdict is about an op of the batch, and the batch was offered.
        by_cases named : row.opId ∈ world.current.batch.map (·.opId)
        · obtain ⟨op, present, same⟩ := List.mem_map.mp named
          exact Or.inl (same ▸ (inv.pass.waiting awaiting op present).1)
        · refine Or.inr ⟨_, (receive_rows world answer) ▸ List.mem_map_of_mem stored,
            (SyncOp.marked_same _ _ row).1, ?_⟩
          rw [SyncOp.marked_synced, if_neg, if_neg, pending]
          · exact fun accepted => named (mem_batch_of_accepted accepted)
          · exact fun rejected => named (mem_batch_of_rejected rejected)
    · show world.pass.rounds + 1 + (world.store.takeVerdicts _ _).pending ≤ _
      show _ ≤ world.pass.found + world.pass.appended
      omega

theorem inv_receive (inv : world.Inv) {answer : Answer} (member : answer ∈ world.answers)
    (awaiting : world.phase = .awaiting) (here : answer.exchange = world.exchange) :
    (world.receive answer).Inv where
  outbox := outbox_receive inv member awaiting here
  wire := inv.wire.congr rfl rfl rfl rfl rfl rfl
  pass := pass_receive inv awaiting

theorem Inv.quiet (inv : world.Inv) {store : SubmissionStore} (quiet : Quiet world.server world.store store)
    (added : Nat) (pending : store.pending = world.store.pending + added) :
    Inv { world with
      store := store
      pass := { world.pass with appended := world.pass.appended + added } } where
  outbox := inv.outbox.quiet quiet
  wire := inv.wire.congr rfl rfl rfl rfl rfl rfl
  pass := inv.pass.quiet quiet _ pending

theorem inv_append (inv : world.Inv) {op : SyncOp} {store : SubmissionStore}
    (made : world.store.append op = some store) (new : op.synced = .pending) :
    Inv { world with
      store := store
      recorded := world.recorded ++ [op]
      pass := { world.pass with appended := world.pass.appended + 1 } } := by
  have rows := SubmissionStore.append_rows made
  have quiet : Quiet world.server world.store store :=
    Quiet.of_append rows fun acknowledged => by rw [new] at acknowledged; cases acknowledged
  have pending : store.pending = world.store.pending + 1 := by
    unfold SubmissionStore.pending
    rw [rows, List.countP_append]
    simp [new]
  refine ⟨⟨(inv.outbox.quiet quiet).synced, ?_⟩, inv.wire.congr rfl rfl rfl rfl rfl rfl,
    inv.pass.quiet quiet _ pending⟩
  intro recorded member
  rcases List.mem_append.mp member with old | last
  · exact (inv.outbox.quiet quiet).kept recorded old
  · obtain rfl := List.mem_singleton.mp last
    exact ⟨_, by rw [rows]; simp, SyncOp.SameOp.refl _⟩

theorem inv_offer (inv : world.Inv) (looping : world.phase = .looping)
    (sealing : SyncOp → Option (Bytes × String × Bytes)) (keys : List Sync.ContentKeyIn) :
    (world.offer config sealing keys).Inv := by
  have running : world.phase ≠ .idle := by simp [looping]
  unfold offer
  dsimp only
  split
  · -- Nothing is pending, so what was due has been offered.
    rename_i empty
    have none := (SubmissionStore.pendingOps_eq_nil_iff config.positive).mp (List.isEmpty_iff.mp empty)
    have drained : ∀ id ∈ world.pass.due, id ∈ world.pass.offered := by
      intro id member
      rcases inv.pass.due running id member with offered | ⟨row, stored, -, pending⟩
      · exact offered
      · exact absurd pending (none row stored)
    refine ⟨inv.outbox, inv.wire.congr rfl rfl rfl rfl rfl rfl, ?_⟩
    exact ⟨(by simp), (by simp), fun _ id member => Or.inl (drained id member), fun _ => drained,
      fun _ => inv.pass.rounds running⟩
  · set batch := world.store.pendingOps config.batchSize with batch_eq
    obtain ⟨quiet, pending, -⟩ := quiet_recordSeals world.server batch sealing world.store
    have carries : Carries batch (batch.map fun op => op.wire (sealing op)) :=
      ⟨world.store.pendingOps_unique _, sealing, rfl⟩
    have passed := inv.pass.quiet quiet 0 pending
    refine ⟨inv.outbox.quiet quiet, ⟨?_, ?_, inv.wire.held, inv.wire.answered, inv.wire.pages⟩,
      ⟨fun _ => ⟨carries, rfl⟩, ?_, ?_, ?_, fun _ => passed.rounds running⟩⟩
    · intro message member
      rcases List.mem_append.mp member with old | last
      · obtain ⟨carried, earlier, -⟩ := inv.wire.requests message old
        exact ⟨carried, by simp only; omega, fun same => by simp only at same; omega⟩
      · obtain rfl := List.mem_singleton.mp last
        exact ⟨carries, Nat.le_refl _, fun _ => rfl⟩
    · intro answer member
      have earlier := (inv.wire.answers answer member).1
      exact ⟨by simp only; omega, fun same => by simp only at same; omega⟩
    · intro _ op member
      obtain ⟨row, stored, pending, same⟩ := SubmissionStore.exists_of_mem_pendingOps member
      obtain ⟨row', stored', same', still⟩ := quiet.rows row stored
      exact ⟨List.mem_append_right _ (List.mem_map_of_mem member), row', stored', still pending,
        same.trans same'.symm⟩
    · intro _ id member
      exact (passed.due running id member).imp_left (List.mem_append_left _)
    · intro pulling
      cases pulling

theorem inv_resend (inv : world.Inv) (awaiting : world.phase = .awaiting) (n : Nat) :
    Inv { world with requests := world.requests ++ [{ world.current with pendingOps := n }] } := by
  obtain ⟨carries, here⟩ := inv.pass.sent awaiting
  refine ⟨inv.outbox, ⟨?_, inv.wire.answers, inv.wire.held, inv.wire.answered, inv.wire.pages⟩, inv.pass⟩
  intro message member
  rcases List.mem_append.mp member with old | last
  · exact inv.wire.requests message old
  · obtain rfl := List.mem_singleton.mp last
    exact ⟨carries, Nat.le_of_eq here, fun _ => rfl⟩

theorem Inv.mono (inv : world.Inv) {server : Sync.Db}
    (grows : ∀ row ∈ world.server.ops.rows, row ∈ server.ops.rows) :
    Inv { world with server := server } :=
  ⟨inv.outbox.mono grows, inv.wire.mono grows, inv.pass⟩

theorem inv_serve (inv : world.Inv) {message : Message} (member : message ∈ world.requests)
    {c : Sync.Call} (db : c.db = world.server) (given : c.req.ops = message.ops)
    {response : Sync.PushResponse} {final : Sync.Db}
    (returned : Sync.push c.pol c.db c.req = .ok (response, final)) :
    Inv { world with
      server := final
      answers := world.answers ++ [⟨message.exchange, message.batch, response⟩] } := by
  obtain ⟨carries, earlier, here⟩ := inv.wire.requests message member
  have grown : Inv { world with server := final } :=
    inv.mono (db ▸ fun row => c.log_grows returned)
  refine ⟨grown.outbox, ⟨inv.wire.requests, ?_, ?_, ?_, grown.wire.pages⟩, inv.pass⟩
  · intro answer listed
    rcases List.mem_append.mp listed with old | last
    · exact inv.wire.answers answer old
    · obtain rfl := List.mem_singleton.mp last
      exact ⟨earlier, here⟩
  · intro answer listed
    rcases List.mem_append.mp listed with old | last
    · exact grown.wire.held answer old
    · obtain rfl := List.mem_singleton.mp last
      exact fun op => carries.holds given returned
  · intro answer listed
    rcases List.mem_append.mp listed with old | last
    · exact inv.wire.answered answer old
    · obtain rfl := List.mem_singleton.mp last
      exact fun op => carries.answered given returned

theorem inv_servePage (inv : world.Inv) {pol : Sync.Policies} {cursor limit : Nat}
    {page : Sync.PullResponse} (pulled : Sync.pull pol world.server cursor limit = some page) :
    Inv { world with pages := world.pages ++ [page] } := by
  refine ⟨inv.outbox, ⟨inv.wire.requests, inv.wire.answers, inv.wire.held, inv.wire.answered, ?_⟩,
    inv.pass⟩
  intro page' listed
  rcases List.mem_append.mp listed with old | last
  · exact inv.wire.pages page' old
  · obtain rfl := List.mem_singleton.mp last
    exact fun op => Sync.pull_stored pulled

theorem inv_receivePage (inv : world.Inv) {page : Sync.PullResponse} (member : page ∈ world.pages)
    (pulling : world.phase = .pulling) :
    Inv { world with
      store := world.store.applyPullBatch (page.ops.map pulledOp) page.nextCursor
      phase := if page.hasMore then .pulling else .idle } := by
  have held : ∀ op ∈ page.ops.map pulledOp, Holds world.server op := by
    intro op listed
    obtain ⟨pulled, present, rfl⟩ := List.mem_map.mp listed
    exact ⟨pulled.row, inv.wire.pages page member pulled present, Or.inl rfl⟩
  obtain ⟨quiet, pending⟩ := quiet_applyPullBatch held world.store page.nextCursor
  have next := inv.quiet quiet 0 pending
  refine ⟨next.outbox, inv.wire.congr rfl rfl rfl rfl rfl rfl, ?_⟩
  simp only
  split
  · exact pulling ▸ next.pass
  · exact PassInv.idle

theorem inv_step {act : Act} {world' : World} (inv : world.Inv)
    (stepped : world.step config act = some world') : world'.Inv := by
  cases act with
  | createDraft id formId formVersion caseId now =>
    obtain ⟨store, made, rfl⟩ := Option.map_eq_some_iff.mp stepped
    obtain ⟨quiet, pending⟩ := quiet_createDraft made
    exact inv.quiet quiet 0 pending
  | append opId submissionId formId formVersion kind path valueJson now =>
    obtain ⟨store, made, rfl⟩ := Option.map_eq_some_iff.mp stepped
    exact inv_append inv made rfl
  | startPass =>
    simp only [step] at stepped
    split at stepped
    · cases stepped
      exact inv_startPass inv
    · cases stepped
  | offer sealing keys =>
    simp only [step] at stepped
    split at stepped
    · rename_i looping
      cases stepped
      exact inv_offer inv looping sealing keys
    · cases stepped
  | resend =>
    simp only [step] at stepped
    split at stepped
    · rename_i awaiting
      cases stepped
      exact inv_resend inv awaiting _
    · cases stepped
  | serve request pol actorId now =>
    simp only [step] at stepped
    split at stepped
    · cases stepped
    · rename_i message found
      split at stepped
      · cases stepped
        exact inv
      · rename_i response db returned
        cases stepped
        exact inv_serve (c := ⟨pol, world.server, _⟩) inv (List.mem_of_getElem? found) rfl rfl returned
  | receive answer =>
    simp only [step] at stepped
    split at stepped
    · cases stepped
    · rename_i answer found
      split at stepped
      · rename_i waits
        cases stepped
        exact inv_receive inv (List.mem_of_getElem? found) waits.1 waits.2
      · cases stepped
  | servePage pol cursor limit =>
    simp only [step] at stepped
    split at stepped
    · cases stepped
      exact inv
    · rename_i page pulled
      cases stepped
      exact inv_servePage inv pulled
  | receivePage page =>
    simp only [step] at stepped
    split at stepped
    · cases stepped
    · rename_i page found
      split at stepped
      · rename_i pulling
        cases stepped
        exact inv_receivePage inv (List.mem_of_getElem? found) pulling
      · cases stepped
  | abort =>
    cases stepped
    exact ⟨inv.outbox, inv.wire.congr rfl rfl rfl rfl rfl rfl, PassInv.idle⟩
  | elsewhere change appendOnly =>
    cases stepped
    exact inv.mono (appendOnly world.server)

theorem Inv.safe (inv : world.Inv) : OutboxSafe config world where
  synced_stored := inv.outbox.synced
  stored_once := world.server.ops.unique.imp fun apart =>
    ⟨fun same => apart (Or.inl same), fun same => apart (Or.inr (Or.inr same))⟩
  kept := inv.outbox.kept
  offered := inv.pass.drained
  answered := inv.wire.answered
  rounds := inv.pass.rounds
  ends verdicts := pushLoop_isSome _ (Nat.lt_succ_self _) verdicts

end World

/-- In every run of a device against the server, however the network treats what they say, the outbox
neither loses nor duplicates. -/
theorem outboxSafe_of_run (config : SyncConfig) (deviceId actorId : String) (server : Sync.Db)
    {acts : List Act} {world : World}
    (ran : Lib.run (World.step config) (World.start deviceId actorId server) acts = some world) :
    OutboxSafe config world :=
  (Lib.run_keeps (fun _ _ _ inv => World.inv_step inv) (World.inv_start deviceId actorId server) ran).safe

def lostResponse : List Act :=
  [.createDraft "s1" "household" 1 none 0,
    .append "o1" "s1" "household" 1 .finalize none none 1,
    .startPass, .offer (fun _ => none) [], .serve 0 .unrestricted (some "u1") 2, .abort,
    .startPass, .offer (fun _ => none) [], .serve 1 .unrestricted (some "u1") 3, .receive 1,
    .offer (fun _ => none) [], .serve 0 .unrestricted (some "u1") 4]

def lostResponseRun : Option World :=
  Lib.run (World.step {}) (World.start "d1" "u1" (Sync.oneForm [("d1", some "u1")])) lostResponse

set_option maxRecDepth 20000 in
theorem lostResponse_safe : ∃ world, lostResponseRun = some world ∧
    world.store.outbox.rows.map (fun op => (op.opId, op.synced)) = [("o1", .acknowledged)] ∧
    world.server.ops.rows.map (·.id) = ["o1"] ∧ OutboxSafe {} world := by
  have shown : lostResponseRun.map (fun world =>
      (world.store.outbox.rows.map fun op => (op.opId, op.synced), world.server.ops.rows.map (·.id))) =
        some ([("o1", .acknowledged)], ["o1"]) := rfl
  obtain ⟨world, ran, same⟩ := Option.map_eq_some_iff.mp shown
  exact ⟨world, ran, congrArg Prod.fst same, congrArg Prod.snd same, outboxSafe_of_run _ _ _ _ ran⟩

end DataCollectionLab.Core
