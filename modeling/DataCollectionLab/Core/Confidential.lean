import DataCollectionLab.Core.SyncCrypto
import DataCollectionLab.Core.SyncPass

/-!
What a device's push requests carry in the clear, over every run of its passes: whatever the config fetches
answer, whatever the server says to a push, and wherever a pass ends.
-/

namespace DataCollectionLab.Core

open Lib
open Media (SecurityMode)

section Paths

theorem cutAt_none {mark : Char} {others cs : List Char} (absent : mark ∉ cs) :
    Form.cutAt (mark :: others) cs = none := by
  induction cs with
  | nil => rfl
  | cons c rest ih =>
    obtain ⟨apart, later⟩ := not_or.mp fun member => absent (List.mem_cons.mpr member)
    have first : (mark :: others).isPrefixOf (c :: rest) = false := by
      rw [List.isPrefixOf_cons_cons, beq_false_of_ne apart, Bool.false_and]
    rw [Form.cutAt, first, ih later]
    rfl

theorem cutAt_isSome {mark front back : List Char} (nonempty : mark ≠ []) :
    (Form.cutAt mark (front ++ mark ++ back)).isSome := by
  induction front with
  | nil =>
    cases whole : mark ++ back with
    | nil => exact absurd (List.append_eq_nil_iff.mp whole).1 nonempty
    | cons c rest =>
      have here : mark.isPrefixOf (c :: rest) = true := by
        rw [← whole, List.isPrefixOf_iff_prefix]
        exact List.prefix_append mark back
      rw [List.nil_append, whole, Form.cutAt, if_pos here]
      rfl
  | cons c front ih =>
    rw [List.cons_append, List.cons_append, Form.cutAt]
    split
    · rfl
    · rw [Option.isSome_map]
      exact ih

theorem afterLast_field {fid : List Char} (plain : ']' ∉ fid) (front : List Char) :
    afterLast "].".toList (front ++ ']' :: '.' :: fid) = fid := by
  have mark : "].".toList = [']', '.'] := rfl
  rw [mark]
  induction front with
  | nil =>
    have none : Form.cutAt [']', '.'] ('.' :: fid) = none := cutAt_none (by simp [plain])
    have here : List.isPrefixOf [']', '.'] (']' :: '.' :: fid) = true := rfl
    rw [List.nil_append, afterLast, none]
    simp only [Option.isSome_none, Bool.false_eq_true, if_false]
    rw [Form.cutAt, if_pos here]
    rfl
  | cons c front ih =>
    have later : (Form.cutAt [']', '.'] (front ++ ']' :: '.' :: fid)).isSome = true := by
      have := @cutAt_isSome [']', '.'] front fid (by simp)
      simpa using this
    rw [List.cons_append, afterLast, if_pos later, ih]

def AnswersField (path fid : String) : Prop :=
  Form.Plain fid ∧ (path = fid ∨ ∃ rid iid, path = Form.instancePath rid iid fid)

theorem referencedFieldOf_eq {path fid : String} (answers : AnswersField path fid) :
    referencedFieldOf path = fid := by
  obtain ⟨plain, rfl | ⟨rid, iid, rfl⟩⟩ := answers
  · have none : Form.cutAt "].".toList path.toList = none := cutAt_none fun member => (plain _ member).2.1 rfl
    rw [referencedFieldOf, none]
    rfl
  · have chars : (Form.instancePath rid iid fid).toList =
        (rid.toList ++ '[' :: iid.toList) ++ ']' :: '.' :: fid.toList := by
      rw [Form.toList_instancePath]
      simp
    have some : (Form.cutAt "].".toList (Form.instancePath rid iid fid).toList).isSome = true := by
      have := @cutAt_isSome "].".toList (rid.toList ++ '[' :: iid.toList) fid.toList (by decide)
      rw [chars]
      simpa using this
    rw [referencedFieldOf, if_pos some, chars, afterLast_field fun member => (plain _ member).2.1 rfl]
    exact String.ofList_toList

end Paths

/-- What a mode keeps from leaving in the clear: every value, or that of a sensitive field and of a form
version the device has no copy of. -/
def Protects (mode : SecurityMode) (sensitivity : FormSensitivity) (op : SyncOp) : Prop :=
  op.valueJson.isSome ∧
    match mode with
    | .standard => False
    | .projectE2e => True
    | .fieldLevel => sensitivity op.formId op.formVersion = none ∨
        ∃ fields path fid, sensitivity op.formId op.formVersion = some fields ∧ op.path = some path ∧
          AnswersField path fid ∧ fid ∈ fields

def Pathed (op : SyncOp) : Prop := op.valueJson.isSome → op.path.isSome

theorem shouldEncrypt_of_protects {mode : SecurityMode} {sensitivity : FormSensitivity} {op : SyncOp}
    (pathed : Pathed op) (protects : Protects mode sensitivity op) : shouldEncrypt sensitivity op mode = true := by
  obtain ⟨valued, kept⟩ := protects
  have given : op.valueJson.isNone = false := by rw [Option.isNone_eq_false_iff]; exact valued
  obtain ⟨path, at_⟩ := Option.isSome_iff_exists.mp (pathed valued)
  unfold shouldEncrypt
  rw [given]
  cases mode with
  | standard => exact kept.elim
  | projectE2e => rfl
  | fieldLevel =>
    simp only [at_]
    rcases kept with unknown | ⟨fields, path', fid, known, same, answers, sensitive⟩
    · rw [unknown]
      rfl
    · obtain rfl := Option.some.inj (same.symm.trans at_)
      rw [known, referencedFieldOf_eq answers]
      exact decide_eq_true sensitive

/-- What one fetch of the project's crypto config comes to: a config, a 404, or an exception. -/
inductive Fetch where
  | config (crypto : ProjectCrypto)
  | notFound
  | failed

/-- `refreshCrypto`: the config cached after it; `none` is its exception. -/
def refreshCrypto (cached : Option ProjectCrypto) : Fetch → Option (Option ProjectCrypto)
  | .config crypto => some (some crypto)
  | .notFound => some cached
  | .failed => if cached.isSome then some cached else none

def DeviceDb.markUploadedKeys (db : DeviceDb) (prepared : PreparedBatch) (accepted : List String) : DeviceDb :=
  let landed := (prepared.ops.filter (·.opId ∈ accepted)).filterMap (·.contentKeyId)
  let named := (prepared.keys.filter (·.contentKeyId ∈ landed)).map (·.contentKeyId)
  { db with
    contentKeys := db.contentKeys.map fun key => if key.contentKeyId ∈ named then { key with uploaded := true } else key }

/-- What the app records: an answer or its removal, a row of a repeat, a status. A value comes with its path. -/
inductive Entry where
  | set (path : String) (value : Json)
  | unset (path : String)
  | repeatAdd (path : String)
  | repeatDelete (path : String)
  | finalize
  | reopen

namespace Entry

def kind : Entry → OpKind
  | .set _ _ => .set
  | .unset _ => .unset
  | .repeatAdd _ => .repeatAdd
  | .repeatDelete _ => .repeatDelete
  | .finalize => .finalize
  | .reopen => .reopen

def path : Entry → Option String
  | .set path _ | .unset path | .repeatAdd path | .repeatDelete path => some path
  | .finalize | .reopen => none

def value : Entry → Option Json
  | .set _ value => some value
  | _ => none

end Entry

/-- A push request: the ops it was prepared from and what was known of their forms then, what it says, and the
config that was cached when it left. -/
structure PushSent where
  batch : List SyncOp := []
  sensitivity : FormSensitivity := fun _ _ => none
  prepared : PreparedBatch := {}
  config : Option ProjectCrypto := none

structure SyncDevice where
  db : DeviceDb
  phase : Phase := .idle
  /-- The request the device waits for. -/
  current : PushSent := {}
  sent : List PushSent := []

inductive SyncAct where
  | createDraft (id formId : String) (formVersion : Nat) (caseId : Option String) (now : Timestamp)
  | record (opId submissionId formId : String) (formVersion : Nat) (entry : Entry) (now : Timestamp)
  /-- A pass begins with the config, fetched as often as `withRetry` asks. -/
  | startPass (fetches : List Fetch)
  | offer (sensitivity : FormSensitivity) (draws : String → Draw)
  | resend
  | receive (response : Sync.PushResponse)
  | receivePage (ops : List SyncOp) (nextCursor : Nat) (hasMore : Bool)
  /-- The pass fails or is cancelled, wherever it is. -/
  | abort

namespace SyncDevice

variable (prim : Primitives) (config : SyncConfig)

def offer (device : SyncDevice) (sensitivity : FormSensitivity) (draws : String → Draw) : SyncDevice :=
  let batch := device.db.store.pendingOps config.batchSize
  if batch.isEmpty then { device with phase := .pulling }
  else
    match prepare prim sensitivity draws batch device.db with
    | .error _ db => { device with db := db, phase := .idle }
    | .ok prepared db =>
      let request : PushSent :=
        { batch := batch, sensitivity := sensitivity, prepared := prepared, config := db.projectCrypto }
      { device with db := db, phase := .awaiting, current := request, sent := device.sent ++ [request] }

def receive (device : SyncDevice) (response : Sync.PushResponse) : SyncDevice :=
  let batch := device.current.batch
  let db := { device.db with store := device.db.store.takeVerdicts batch response }
  { device with
    db := db.markUploadedKeys device.current.prepared (acceptedOf batch response)
    phase := if noProgress batch response then .idle else .looping }

/-- `withRetry { refreshCrypto }`, and what the pass does before its push loop. -/
def startPass (device : SyncDevice) (fetches : List Fetch) : SyncDevice :=
  match fetches.findSome? (refreshCrypto device.db.projectCrypto) with
  | none => device
  | some cached =>
    { device with
      db := { device.db with projectCrypto := cached, store := device.db.store.requeueRejectedOps }
      phase := .looping }

/-- `none` is a step the device cannot make now. -/
def step (device : SyncDevice) : SyncAct → Option SyncDevice
  | .createDraft id formId formVersion caseId now =>
    (device.db.store.createDraft id formId formVersion caseId now).map fun store =>
      { device with db := { device.db with store := store } }
  | .record opId submissionId formId formVersion entry now =>
    (device.db.store.appendOp opId submissionId formId formVersion entry.kind entry.path entry.value now).map
      fun store => { device with db := { device.db with store := store } }
  | .startPass fetches => if device.phase = .idle then some (device.startPass fetches) else none
  | .offer sensitivity draws =>
    if device.phase = .looping then some (device.offer prim config sensitivity draws) else none
  | .resend =>
    if device.phase = .awaiting then
      some { device with sent := device.sent ++ [{ device.current with config := device.db.projectCrypto }] }
    else none
  | .receive response => if device.phase = .awaiting then some (device.receive response) else none
  | .receivePage ops nextCursor hasMore =>
    if device.phase = .pulling then some
      { device with
        db := { device.db with store := device.db.store.applyPullBatch ops nextCursor }
        phase := if hasMore then .pulling else .idle }
    else none
  | .abort => some { device with phase := .idle }

def start (deviceId actorId : String) : SyncDevice where
  db := { store := { deviceId := deviceId, actorId := actorId } }

end SyncDevice

/-! ### What a step of the device leaves of its outbox -/

def Kept (store store' : SubmissionStore) : Prop :=
  ∀ row ∈ store.outbox.rows, ∃ row' ∈ store'.outbox.rows, row'.SameOp row

def OwnPathed (store : SubmissionStore) : Prop :=
  ∀ row ∈ store.outbox.rows, row.synced ≠ .acknowledged → Pathed row

theorem Pathed.congr {a b : SyncOp} (same : a.SameOp b) (pathed : Pathed b) : Pathed a := by
  unfold Pathed
  rw [same.2.2.2.2.1, same.2.2.2.2.2]
  exact pathed

namespace Kept

variable {store store' : SubmissionStore}

theorem of_rows (same : store'.outbox.rows = store.outbox.rows) : Kept store store' :=
  fun row stored => ⟨row, same ▸ stored, SyncOp.SameOp.refl row⟩

theorem of_append {ops : List SyncOp} (rows : store'.outbox.rows = store.outbox.rows ++ ops) : Kept store store' :=
  fun row stored => ⟨row, by rw [rows]; exact List.mem_append_left _ stored, SyncOp.SameOp.refl row⟩

theorem of_map {change : SyncOp → SyncOp} (rows : store'.outbox.rows = store.outbox.rows.map change)
    (same : ∀ op, (change op).SameOp op) : Kept store store' :=
  fun row stored => ⟨change row, by rw [rows]; exact List.mem_map_of_mem stored, same row⟩

end Kept

theorem applyPullBatch_rows (store : SubmissionStore) (ops : List SyncOp) (nextCursor : Nat) :
    ∃ new, (store.applyPullBatch ops nextCursor).outbox.rows = store.outbox.rows ++ new ∧
      ∀ op ∈ new, op.synced = .acknowledged := by
  suffices walk : ∃ new, (ops.foldl SubmissionStore.applyPulled store).outbox.rows = store.outbox.rows ++ new ∧
      ∀ op ∈ new, op.synced = .acknowledged from walk
  induction ops generalizing store with
  | nil => exact ⟨[], (List.append_nil _).symm, by simp⟩
  | cons op ops ih =>
    obtain ⟨new, rows, told⟩ := ih (store.applyPulled op)
    rw [List.foldl_cons, rows, store.outbox_applyPulled op]
    rcases store.outbox.insertOrIgnore_rows op.acknowledged with added | ignored
    · refine ⟨op.acknowledged :: new, by rw [added, List.append_assoc]; rfl, fun op' member => ?_⟩
      rcases List.mem_cons.mp member with rfl | later
      · rfl
      · exact told op' later
    · exact ⟨new, by rw [ignored], told⟩

theorem Extends.kept {prim : Primitives} {batch : List SyncOp} {db db' : DeviceDb}
    (extended : Extends prim batch db db') : Kept db.store db'.store := by
  intro row stored
  obtain ⟨n, bound, rfl⟩ := List.getElem_of_mem stored
  have there : n < db'.store.outbox.rows.length := by rw [extended.rows.length_eq]; exact bound
  exact ⟨_, List.getElem_mem there, (extended.rows.get there bound).1⟩

theorem Extends.ownPathed {prim : Primitives} {batch : List SyncOp} {db db' : DeviceDb}
    (extended : Extends prim batch db db') (pathed : OwnPathed db.store) : OwnPathed db'.store := by
  intro row' stored open'
  obtain ⟨n, bound, rfl⟩ := List.getElem_of_mem stored
  have there : n < db.store.outbox.rows.length := by rw [← extended.rows.length_eq]; exact bound
  obtain ⟨same, synced⟩ := extended.rows.get bound there
  exact Pathed.congr same (pathed _ (List.getElem_mem there) fun closed => open' (synced.trans closed))

theorem Entry.pathed (entry : Entry) : entry.value.isSome → entry.path.isSome := by
  cases entry <;> simp [Entry.value, Entry.path]

/-- Under the config that was cached when it left, the request carries nothing in the clear that its mode
protects. -/
def Discreet (request : PushSent) : Prop :=
  ∀ crypto, request.config = some crypto →
    List.Forall₂ (fun op wire => wire.opId = op.opId ∧
      (Protects crypto.securityMode request.sensitivity op → wire.value = none)) request.batch request.prepared.ops

namespace SyncDevice

variable {prim : Primitives} {config : SyncConfig} {device device' : SyncDevice}

/-- What the device has still to push, what it waits for, and what it has sent. -/
structure Inv (device : SyncDevice) : Prop where
  pathed : OwnPathed device.db.store
  batch : device.phase = .awaiting → ∀ op ∈ device.current.batch,
    Pathed op ∧ ∃ row ∈ device.db.store.outbox.rows, op.SameOp row
  cached : device.phase = .awaiting → device.current.config = device.db.projectCrypto
  current : device.phase = .awaiting → Discreet device.current
  sent : ∀ request ∈ device.sent, Discreet request

theorem inv_start (deviceId actorId : String) : (start deviceId actorId).Inv where
  pathed _ stored := absurd stored List.not_mem_nil
  batch waiting := by cases waiting
  cached waiting := by cases waiting
  current waiting := by cases waiting
  sent _ sent := absurd sent List.not_mem_nil

theorem Inv.of_kept (inv : device.Inv) {db : DeviceDb} (kept : Kept device.db.store db.store)
    (pathed : OwnPathed db.store) (config : db.projectCrypto = device.db.projectCrypto) :
    Inv { device with db := db } where
  pathed := pathed
  batch waiting op member := by
    obtain ⟨own, row, stored, same⟩ := inv.batch waiting op member
    obtain ⟨row', stored', same'⟩ := kept row stored
    exact ⟨own, row', stored', same.trans same'.symm⟩
  cached waiting := (inv.cached waiting).trans config.symm
  current := inv.current
  sent := inv.sent

theorem Inv.of_phase (inv : device.Inv) {db : DeviceDb} {phase : Phase} (pathed : OwnPathed db.store)
    (resting : phase ≠ .awaiting) : Inv { device with db := db, phase := phase } where
  pathed := pathed
  batch waiting := absurd waiting resting
  cached waiting := absurd waiting resting
  current waiting := absurd waiting resting
  sent := inv.sent

theorem ownPathed_requeue {store : SubmissionStore} (pathed : OwnPathed store) :
    OwnPathed store.requeueRejectedOps := by
  intro row' stored open'
  obtain ⟨row, present, rfl⟩ := List.mem_map.mp stored
  refine Pathed.congr (SyncOp.requeue_same row) (pathed row present fun closed => open' ?_)
  unfold SyncOp.requeue
  rw [closed]
  simp [closed]

theorem inv_startPass (inv : device.Inv) (fetches : List Fetch) : (device.startPass fetches).Inv := by
  unfold startPass
  split
  · exact inv
  · exact inv.of_phase (ownPathed_requeue inv.pathed) (by decide)

theorem ownPathed_takeVerdicts {store : SubmissionStore} {batch : List SyncOp} (response : Sync.PushResponse)
    (pathed : OwnPathed store) (own : ∀ op ∈ batch, Pathed op ∧ ∃ row ∈ store.outbox.rows, op.SameOp row) :
    OwnPathed (store.takeVerdicts batch response) := by
  intro row' stored open'
  rw [SubmissionStore.takeVerdicts, SubmissionStore.markPushResult_rows] at stored
  obtain ⟨row, present, rfl⟩ := List.mem_map.mp stored
  refine Pathed.congr (SyncOp.marked_same _ _ row) ?_
  rw [SyncOp.marked_synced] at open'
  split at open'
  · rename_i rejected
    obtain ⟨op, member, id⟩ := List.mem_map.mp (mem_batch_of_rejected rejected)
    obtain ⟨opPathed, row₀, stored₀, same⟩ := own op member
    obtain rfl := store.outbox.eq_of_id stored₀ present (same.1.symm.trans id)
    exact Pathed.congr same.symm opPathed
  · split at open'
    · exact absurd rfl open'
    · exact pathed row present open'

theorem inv_receive (inv : device.Inv) (awaiting : device.phase = .awaiting) (response : Sync.PushResponse) :
    (device.receive response).Inv := by
  apply inv.of_phase (ownPathed_takeVerdicts response inv.pathed (inv.batch awaiting))
  split <;> decide

theorem inv_offer (inv : device.Inv) (sensitivity : FormSensitivity) (draws : String → Draw) :
    (device.offer prim config sensitivity draws).Inv := by
  have spec := @prepare_triple prim sensitivity draws device.db
    (device.db.store.pendingOps config.batchSize) device.db rfl
  have own : ∀ op ∈ device.db.store.pendingOps config.batchSize,
      Pathed op ∧ ∃ row ∈ device.db.store.outbox.rows, op.SameOp row := by
    intro op member
    obtain ⟨row, stored, pending, same⟩ := SubmissionStore.exists_of_mem_pendingOps member
    exact ⟨Pathed.congr same (inv.pathed row stored (by rw [pending]; decide)), row, stored, same⟩
  unfold offer
  simp only
  split
  · exact inv.of_phase inv.pathed (by decide)
  · split
    · rename_i failed
      rw [failed] at spec
      exact inv.of_phase (spec.ownPathed inv.pathed) (by decide)
    · rename_i prepared db done
      rw [done] at spec
      obtain ⟨extended, leaves⟩ := spec
      have discreet : Discreet
          ⟨device.db.store.pendingOps config.batchSize, sensitivity, prepared, db.projectCrypto⟩ := by
        intro crypto given
        rw [extended.config] at given
        refine List.Forall₂.imp ?_ ((List.forall₂_and_left _ _).mpr ⟨own, leaves crypto given⟩)
        rintro op wire ⟨⟨pathed, -⟩, same, sealed⟩
        exact ⟨same, fun protects => sealed (shouldEncrypt_of_protects pathed protects)⟩
      exact
        { pathed := extended.ownPathed inv.pathed
          batch := fun _ op member => by
            obtain ⟨pathed, row, stored, same⟩ := own op member
            obtain ⟨row', stored', same'⟩ := extended.kept row stored
            exact ⟨pathed, row', stored', same.trans same'.symm⟩
          cached := fun _ => rfl
          current := fun _ => discreet
          sent := fun request member => by
            rcases List.mem_append.mp member with earlier | now
            · exact inv.sent request earlier
            · obtain rfl := List.mem_singleton.mp now
              exact discreet }

theorem inv_step {act : SyncAct} (inv : device.Inv) (stepped : device.step prim config act = some device') :
    device'.Inv := by
  cases act with
  | createDraft id formId formVersion caseId now =>
    obtain ⟨store, made, rfl⟩ := Option.map_eq_some_iff.mp stepped
    have rows : store.outbox = device.db.store.outbox := by
      unfold SubmissionStore.createDraft at made
      split at made <;> cases made
      rfl
    refine inv.of_kept (Kept.of_rows (congrArg _ rows)) ?_ rfl
    unfold OwnPathed
    rw [rows]
    exact inv.pathed
  | record opId submissionId formId formVersion entry now =>
    obtain ⟨store, made, rfl⟩ := Option.map_eq_some_iff.mp stepped
    have rows := SubmissionStore.append_rows made
    refine inv.of_kept (Kept.of_append rows) (fun row stored unsynced => ?_) rfl
    rw [rows] at stored
    rcases List.mem_append.mp stored with old | new
    · exact inv.pathed row old unsynced
    · obtain rfl := List.mem_singleton.mp new
      exact entry.pathed
  | startPass fetches =>
    simp only [step, Option.ite_none_right_eq_some, Option.some.injEq] at stepped
    obtain ⟨-, rfl⟩ := stepped
    exact inv_startPass inv fetches
  | offer sensitivity draws =>
    simp only [step, Option.ite_none_right_eq_some, Option.some.injEq] at stepped
    obtain ⟨-, rfl⟩ := stepped
    exact inv_offer inv sensitivity draws
  | resend =>
    simp only [step, Option.ite_none_right_eq_some, Option.some.injEq] at stepped
    obtain ⟨awaiting, rfl⟩ := stepped
    refine { inv with sent := fun request member => ?_ }
    rcases List.mem_append.mp member with earlier | now
    · exact inv.sent request earlier
    · obtain rfl := List.mem_singleton.mp now
      rw [← inv.cached awaiting]
      exact inv.current awaiting
  | receive response =>
    simp only [step, Option.ite_none_right_eq_some, Option.some.injEq] at stepped
    obtain ⟨awaiting, rfl⟩ := stepped
    exact inv_receive inv awaiting response
  | receivePage ops nextCursor hasMore =>
    simp only [step, Option.ite_none_right_eq_some, Option.some.injEq] at stepped
    obtain ⟨-, rfl⟩ := stepped
    obtain ⟨new, rows, told⟩ := applyPullBatch_rows device.db.store ops nextCursor
    refine inv.of_phase (fun row stored unsynced => ?_) (by split <;> decide)
    rw [rows] at stored
    rcases List.mem_append.mp stored with old | pulled
    · exact inv.pathed row old unsynced
    · exact absurd (told row pulled) unsynced
  | abort =>
    cases stepped
    exact inv.of_phase inv.pathed (by decide)

theorem silent_step {act : SyncAct} (silent : device.db.projectCrypto = none ∧ device.phase = .idle ∧ device.sent = [])
    (failing : ∀ fetches, act = .startPass fetches → ∀ fetch ∈ fetches, fetch = .failed)
    (stepped : device.step prim config act = some device') :
    device'.db.projectCrypto = none ∧ device'.phase = .idle ∧ device'.sent = [] := by
  obtain ⟨uncached, idle, empty⟩ := silent
  cases act with
  | createDraft | record =>
    obtain ⟨store, -, rfl⟩ := Option.map_eq_some_iff.mp stepped
    exact ⟨uncached, idle, empty⟩
  | startPass fetches =>
    simp only [step, Option.ite_none_right_eq_some, Option.some.injEq] at stepped
    obtain ⟨-, rfl⟩ := stepped
    have none : fetches.findSome? (refreshCrypto device.db.projectCrypto) = none := by
      refine List.findSome?_eq_none_iff.mpr fun fetch member => ?_
      rw [failing fetches rfl fetch member, uncached]
      rfl
    rw [startPass, none]
    exact ⟨uncached, idle, empty⟩
  | offer | resend | receive | receivePage =>
    simp only [step, Option.ite_none_right_eq_some, idle] at stepped
    cases stepped.1
  | abort =>
    cases stepped
    exact ⟨uncached, rfl, empty⟩

end SyncDevice

def plainPrimitives : Primitives where
  sha256 := List.reverse
  encryptWithIv key nonce text data := key ++ nonce ++ text ++ data
  canonicalJson _ := []
  wrapContentKey _ contentKey _ recipient projectKeyId := .ok ⟨projectKeyId, recipient, [], contentKey⟩

def sensitiveVisit : List SyncAct :=
  [.createDraft "s1" "visit" 1 none 0,
    .record "o1" "s1" "visit" 1 (.set "age" (.int 41)) 1,
    .record "o2" "s1" "visit" 1 (.set "members[i1].status" (.str "positive")) 2,
    .startPass [.failed],
    .startPass [.failed, .config ⟨.fieldLevel, [⟨"k1", [], "owner", ""⟩]⟩],
    .offer (fun _ _ => some ["status"]) fun submissionId => ⟨"c-" ++ submissionId, [], fun _ => []⟩,
    .resend]

def sensitiveVisitRun : Option SyncDevice :=
  run (SyncDevice.step plainPrimitives {}) (SyncDevice.start "d1" "u1") sensitiveVisit

end DataCollectionLab.Core
