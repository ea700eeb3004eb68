import DataCollectionLab.Sync.Carried

/-!
Convergence. Ops that reach the server in any order, in any batches and any number of times
leave the same log, the same answers and the same statuses.
-/

namespace DataCollectionLab.Sync

/-- Plaintext ops of registered devices, with distinct ids and slots; those of one submission
name one form version, and the server has it. -/
structure Shipment (db : Db) where
  ops : List SyncOp
  version : String → String
  plaintext : ∀ op ∈ ops, op.payload.isEncrypted = false
  ids : ∀ a ∈ ops, ∀ b ∈ ops, a.opId = b.opId → a = b
  slots : ∀ a ∈ ops, ∀ b ∈ ops, a.slot = b.slot → a = b
  registered : ∀ op ∈ ops, ∃ device, db.devices.lookup op.deviceId = some device ∧
    resolveFormVersion db device.projectId op.formId op.formVersion =
      some (version op.submissionId)

/-- Requests that carry ops of the shipment and nothing else, each in the session of the person
its device is bound to. -/
structure Carries {db : Db} (shipment : Shipment db) (req : PushRequest) : Prop where
  keyless : req.keys = []
  only : ∀ raw ∈ req.ops, ∃ op ∈ shipment.ops, raw = .wellFormed op
  bound : ∃ device person, db.devices.lookup req.deviceId = some device ∧
    device.userId = some person ∧ req.actorId = some person

def attempt (st : Db × List RawOp) (req : PushRequest) : Db × List RawOp :=
  match push .unrestricted st.1 req with
  | .ok (_, db) => (db, st.2 ++ req.ops)
  | .error _ => st

def deliver (db : Db) (batches : List PushRequest) : Db × List RawOp :=
  batches.foldl attempt (db, [])

structure Delivers {db : Db} (shipment : Shipment db) (batches : List PushRequest) : Prop where
  carries : ∀ req ∈ batches, Carries shipment req
  whole : ∀ op ∈ shipment.ops, .wellFormed op ∈ (deliver db batches).2

/-- `(op id, submission, kind, path, value, device, counter)`. -/
def SubmissionOp.content (row : SubmissionOp) :
    String × String × OpKind × Option String × Json × String × Nat :=
  (row.id, row.submissionId, row.opKind, row.path, row.value, row.deviceId, row.counter)

structure Agree (a b : Db) : Prop where
  log : ∀ entry, entry ∈ a.ops.rows.map SubmissionOp.content ↔
    entry ∈ b.ops.rows.map SubmissionOp.content
  states : ∀ id, (a.states.lookup id).map (·.data) = (b.states.lookup id).map (·.data)
  statuses : ∀ id, (a.submissions.lookup id).map (·.status) =
    (b.submissions.lookup id).map (·.status)

/-- Where a delivery stands when it has brought the ops `done`. -/
structure Delivered {start : Db} (shipment : Shipment start) (done : List SyncOp) (db : Db) :
    Prop where
  settled : Settled db
  ground : SameGround start db
  unreviewed : ∀ id, Unreviewed start id → Unreviewed db id
  within : ∀ op ∈ done, op ∈ shipment.ops
  log : ∀ row, row ∈ db.ops.rows.map (·.core) ↔ row ∈ start.ops.rows.map (·.core) ∨
    ∃ op ∈ done, ¬ start.Holds op ∧ Welcome start op ∧ op.row none = row
  welcome : ∀ op ∈ shipment.ops, Welcome db op ↔ Welcome start op
  kept : ∀ id row, start.submissions.lookup id = some row → ∃ row',
    db.submissions.lookup id = some row' ∧ row'.status.closed = row.status.closed ∧
      (row.status.closed = true → row'.status = row.status)
  opened : ∀ id row', start.submissions.lookup id = none → db.submissions.lookup id = some row' →
    row'.status.closed = false ∧ ∃ row ∈ db.ops.rows, row.submissionId = id
  unnamed : ∀ id, (∀ op ∈ shipment.ops, op.submissionId ≠ id) →
    db.submissions.lookup id = start.submissions.lookup id

theorem holds_iff_cores {db : Db} {op : SyncOp} : db.Holds op ↔
    ∃ row ∈ db.ops.rows.map (·.core), row.id = op.opId ∨ row.slot = op.slot := by
  constructor
  · rintro ⟨row, member, same⟩
    exact ⟨row.core, List.mem_map_of_mem member, same⟩
  · rintro ⟨_, member, same⟩
    obtain ⟨row, stored, rfl⟩ := List.mem_map.mp member
    exact ⟨row, stored, same⟩

theorem Carries.mem_ops_iff {start db : Db} {shipment : Shipment start} {req : PushRequest}
    (carries : Carries shipment req) {op : SyncOp} :
    op ∈ Call.ops ⟨.unrestricted, db, req⟩ ↔ .wellFormed op ∈ req.ops := by
  have mine : ∀ {o}, .wellFormed o ∈ req.ops → o ∈ shipment.ops := by
    intro o given
    obtain ⟨o', present, same⟩ := carries.only _ given
    cases same
    exact present
  refine ⟨readBatch_mem, fun given => ?_⟩
  obtain ⟨o, member, same⟩ := readBatch_covers (mem_wellFormedIds given)
  obtain rfl := shipment.ids o (mine (readBatch_mem member)) op (mine given) same
  exact member

theorem Carries.mem_ops {start db : Db} {shipment : Shipment start} {req : PushRequest}
    (carries : Carries shipment req) {op : SyncOp}
    (member : op ∈ Call.ops ⟨.unrestricted, db, req⟩) : op ∈ shipment.ops := by
  obtain ⟨op', present, same⟩ := carries.only _ (readBatch_mem member)
  cases same
  exact present

namespace Delivered

variable {start : Db} {shipment : Shipment start}

theorem nil (settled : Settled start) : Delivered shipment [] start where
  settled := settled
  ground := ⟨rfl, rfl, rfl, rfl, fun _ => rfl⟩
  unreviewed := fun _ same => same
  within := by simp
  log := by simp
  welcome := fun _ _ => Iff.rfl
  kept := fun _ row found => ⟨row, found, rfl, fun _ => rfl⟩
  opened := by
    intro id row' absent found
    rw [absent] at found
    cases found
  unnamed := fun _ _ => rfl

variable {done : List SyncOp} {db : Db} (delivered : Delivered shipment done db)
include delivered

theorem resolves {op : SyncOp} (member : op ∈ shipment.ops) {device : Device}
    (found : db.devices.lookup op.deviceId = some device) :
    resolveFormVersion db device.projectId op.formId op.formVersion =
      some (shipment.version op.submissionId) := by
  obtain ⟨device', found', project, -, -⟩ := delivered.ground.symm.device found
  obtain ⟨registered, found'', resolved⟩ := shipment.registered op member
  cases found'.symm.trans found''
  rw [delivered.ground.resolveFormVersion, ← project]
  exact resolved

theorem call {req : PushRequest} (carries : Carries shipment req) :
    CarriedCall shipment.version ⟨.unrestricted, db, req⟩ where
  free := rfl
  keyless := carries.keyless
  plain := by
    intro op member
    have plain := shipment.plaintext op (carries.mem_ops member)
    unfold SyncOp.envelope
    cases payload : op.payload with
    | plain value => rfl
    | «sealed» ciphertext key nonce => simp [payload, Payload.isEncrypted] at plain
  slots := fun a left b right same => shipment.slots a (carries.mem_ops left) b
    (carries.mem_ops right) same
  owned := delivered.settled.owned
  bound := by
    obtain ⟨device, person, found, holder, session⟩ := carries.bound
    obtain ⟨device', found', -, user, -⟩ := delivered.ground.device found
    exact ⟨device', person, found', user.trans holder, session⟩
  versions := fun op member device found =>
    delivered.resolves (carries.mem_ops member) found

theorem step {req : PushRequest} (carries : Carries shipment req) {response : PushResponse}
    {final : Db} (returned : push .unrestricted db req = .ok (response, final)) :
    Delivered shipment (done ++ Call.ops ⟨.unrestricted, db, req⟩) final := by
  let c : Call := ⟨.unrestricted, db, req⟩
  have carried : CarriedCall shipment.version c := delivered.call carries
  have returned : push c.pol c.db c.req = .ok (response, final) := returned
  have inShipment : ∀ op ∈ c.ops, op ∈ shipment.ops := fun op => carries.mem_ops
  refine ⟨carried.final_settled returned delivered.settled,
    delivered.ground.trans (c.push_ground returned), ?_, ?_, ?_, ?_, ?_, ?_, ?_⟩
  · intro id unreviewed
    exact carried.final_unreviewed returned delivered.settled (delivered.unreviewed id unreviewed)
  · intro op member
    rcases List.mem_append.mp member with old | new
    · exact delivered.within op old
    · exact inShipment op new
  · intro row
    rw [carried.mem_final_cores returned, delivered.log]
    constructor
    · rintro ((first | ⟨op, old, rest⟩) | ⟨op, new, fresh, welcome, same⟩)
      · exact Or.inl first
      · exact Or.inr ⟨op, List.mem_append_left _ old, rest⟩
      · refine Or.inr ⟨op, List.mem_append_right _ new, fun held => fresh ?_,
          (delivered.welcome op (inShipment op new)).mp welcome, same⟩
        obtain ⟨r, stored, equal⟩ := holds_iff_cores.mp held
        exact holds_iff_cores.mpr ⟨r, (delivered.log r).mpr (Or.inl stored), equal⟩
    · rintro (first | ⟨op, member, fresh, welcome, same⟩)
      · exact Or.inl (Or.inl first)
      · rcases List.mem_append.mp member with old | new
        · exact Or.inl (Or.inr ⟨op, old, fresh, welcome, same⟩)
        · have mine := inShipment op new
          by_cases held : db.Holds op
          · -- The op is in the log already, so an earlier request brought it.
            obtain ⟨r, stored, equal⟩ := holds_iff_cores.mp held
            rcases (delivered.log r).mp stored with first | ⟨op', old, fresh', welcome', rfl⟩
            · exact absurd (holds_iff_cores.mpr ⟨r, first, equal⟩) fresh
            · obtain rfl : op' = op := by
                rcases equal with id | slot
                · exact shipment.ids _ (delivered.within op' old) _ mine id
                · exact shipment.slots _ (delivered.within op' old) _ mine slot
              exact Or.inl (Or.inr ⟨op', old, fresh, welcome, same⟩)
          · exact Or.inr ⟨op, new, held, (delivered.welcome op mine).mpr welcome, same⟩
  · intro op member
    rw [carried.final_welcome returned fun device found => delivered.resolves member found]
    exact delivered.welcome op member
  · intro id row found
    obtain ⟨row', found', closed, same⟩ := delivered.kept id row found
    obtain ⟨row'', found'', -, -, closed', same'⟩ := carried.final_kept returned found'
    refine ⟨row'', found'', closed'.trans closed, fun shut => ?_⟩
    rw [same' (closed.trans shut), same shut]
  · intro id row' absent found
    cases before : db.submissions.lookup id with
    | some row =>
      obtain ⟨open', row₀, stored, on⟩ := delivered.opened id row absent before
      obtain ⟨row'', found'', -, -, closed, -⟩ := carried.final_kept returned before
      cases found.symm.trans found''
      exact ⟨closed.trans open', row₀, c.log_grows returned stored, on⟩
    | none =>
      obtain ⟨opener, member, row, _, -, opens, on, stores, rfl⟩ :=
        carried.final_opened returned before found
      obtain ⟨n, -, stored⟩ := c.exists_row returned member stores
      obtain ⟨-, _, _, _, _, -, -, -, -, -, rfl⟩ := c.judge_opens_iff.mp opens
      refine ⟨?_, _, stored, on⟩
      rw [applyFolded_closed]
      rfl
  · intro id unnamed
    rw [carried.final_unnamed returned fun op member => unnamed op (inShipment op member)]
    exact delivered.unnamed id unnamed

theorem run {answered : List RawOp} (same : ∀ op, op ∈ done ↔ .wellFormed op ∈ answered)
    {batches : List PushRequest} (carries : ∀ req ∈ batches, Carries shipment req) :
    ∃ done', Delivered shipment done' (batches.foldl attempt (db, answered)).1 ∧
      ∀ op, op ∈ done' ↔ .wellFormed op ∈ (batches.foldl attempt (db, answered)).2 := by
  induction batches generalizing db done answered with
  | nil => exact ⟨done, delivered, same⟩
  | cons req rest ih =>
    rw [List.forall_mem_cons] at carries
    rw [List.foldl_cons]
    unfold attempt
    cases returned : push .unrestricted db req with
    | error _ => exact ih delivered same carries.2
    | ok result =>
      refine ih (delivered.step carries.1 returned) (fun op => ?_) carries.2
      rw [List.mem_append, List.mem_append, same, carries.1.mem_ops_iff]

theorem run_answered (media : db.MediaOwned)
    (known : ∀ op ∈ shipment.ops, ∀ caseId, op.caseId = some caseId →
      (start.cases.lookup caseId).isSome = true)
    {batches : List PushRequest} (carries : ∀ req ∈ batches, Carries shipment req)
    (answered : List RawOp) :
    (batches.foldl attempt (db, answered)).2 = answered ++ batches.flatMap (·.ops) := by
  induction batches generalizing db done answered with
  | nil => simp
  | cons req rest ih =>
    rw [List.forall_mem_cons] at carries
    have carried := delivered.call carries.1
    obtain ⟨response, final, returned⟩ := carried.exists_return media <| by
      intro op member caseId named
      rw [delivered.ground.cases]
      exact known op (carries.1.mem_ops member) caseId named
    have next : attempt (db, answered) req = (final, answered ++ req.ops) := by
      unfold attempt
      rw [show push .unrestricted db req = .ok (response, final) from returned]
    rw [List.foldl_cons, next, ih (delivered.step carries.1 returned)
      (Call.push_mediaOwned ⟨.unrestricted, db, req⟩ returned media) carries.2, List.flatMap_cons, List.append_assoc]

omit delivered

/-! ### Two deliveries of one shipment -/

variable {done' : List SyncOp} {a b : Db} (left : Delivered shipment done a)
  (right : Delivered shipment done' b) (same : ∀ op, op ∈ done ↔ op ∈ done')
include left right same

theorem same_cores (row : SubmissionOp) :
    row ∈ a.ops.rows.map (·.core) ↔ row ∈ b.ops.rows.map (·.core) := by
  rw [left.log, right.log]
  simp only [same]

theorem twin {row : SubmissionOp} (stored : row ∈ a.ops.rows) :
    ∃ row' ∈ b.ops.rows, row'.core = row.core :=
  List.mem_map.mp ((left.same_cores right same _).mp (List.mem_map_of_mem stored))

theorem twin_on {row : SubmissionOp} (stored : row ∈ a.ops.rows) :
    ∃ row' ∈ b.ops.rows, row'.submissionId = row.submissionId := by
  obtain ⟨row', stored', equal⟩ := left.twin right same stored
  have on := congrArg SubmissionOp.submissionId equal
  exact ⟨row', stored', on⟩

theorem content_subset {entry : String × String × OpKind × Option String × Json × String × Nat}
    (member : entry ∈ a.ops.rows.map SubmissionOp.content) :
    entry ∈ b.ops.rows.map SubmissionOp.content := by
  obtain ⟨row, stored, rfl⟩ := List.mem_map.mp member
  obtain ⟨row', stored', equal⟩ := left.twin right same stored
  have content := congrArg SubmissionOp.content equal
  exact List.mem_map.mpr ⟨row', stored', content⟩

theorem same_states (id : String) :
    (a.states.lookup id).map (·.data) = (b.states.lookup id).map (·.data) := by
  have data := congrArg Fold.data (Db.fold_of_cores (left.same_cores right same) id)
  by_cases some : ∃ row ∈ a.ops.rows, row.submissionId = id
  · obtain ⟨row, stored, rfl⟩ := some
    obtain ⟨row', stored', on⟩ := left.twin_on right same stored
    have answers := right.settled.state row' stored'
    rw [on] at answers
    rw [left.settled.state row stored, answers]
    exact congrArg Option.some data
  · push Not at some
    have none : ∀ row ∈ b.ops.rows, row.submissionId ≠ id := by
      intro row stored on
      obtain ⟨row', stored', on'⟩ := right.twin_on left (fun op => (same op).symm) stored
      exact some row' stored' (on'.trans on)
    rw [left.settled.stateless id some, right.settled.stateless id none]

theorem opened_twice {id : String} {x : Submission} (absent : start.submissions.lookup id = none)
    (found : a.submissions.lookup id = some x) :
    x.status.closed = false ∧ ∃ y, b.submissions.lookup id = some y ∧ y.status.closed = false := by
  obtain ⟨open', row, stored, rfl⟩ := left.opened id x absent found
  obtain ⟨row', stored', on⟩ := left.twin_on right same stored
  have owner := right.settled.owned row' stored'
  rw [on] at owner
  obtain ⟨y, found'⟩ := Option.isSome_iff_exists.mp owner
  exact ⟨open', y, found', (right.opened _ y absent found').1⟩

theorem open_status {id : String} (unreviewed : Unreviewed start id) {x y : Submission}
    (found : a.submissions.lookup id = some x) (found' : b.submissions.lookup id = some y)
    (openLeft : x.status.closed = false) (openRight : y.status.closed = false) :
    x.status = y.status := by
  have said := congrArg Fold.status (Db.fold_of_cores (left.same_cores right same) id)
  rcases left.unreviewed id unreviewed x found with closed | agrees
  · exact absurd closed (by rw [openLeft]; decide)
  · rcases right.unreviewed id unreviewed y found' with closed | agrees'
    · exact absurd closed (by rw [openRight]; decide)
    · rw [agrees, agrees']
      exact congrArg statusOf said

theorem same_status {id : String} (unreviewed : Unreviewed start id) :
    (a.submissions.lookup id).map (·.status) = (b.submissions.lookup id).map (·.status) := by
  cases first : start.submissions.lookup id with
  | some row =>
    obtain ⟨x, foundLeft, closedLeft, fixedLeft⟩ := left.kept _ row first
    obtain ⟨y, foundRight, closedRight, fixedRight⟩ := right.kept _ row first
    rw [foundLeft, foundRight, Option.map_some, Option.map_some, Option.some_inj]
    cases closed : row.status.closed with
    | true => rw [fixedLeft closed, fixedRight closed]
    | false =>
      exact left.open_status right same unreviewed foundLeft foundRight (closedLeft.trans closed)
        (closedRight.trans closed)
  | none =>
    cases foundLeft : a.submissions.lookup id with
    | some x =>
      obtain ⟨openLeft, y, foundRight, openRight⟩ := left.opened_twice right same first foundLeft
      rw [foundRight, Option.map_some, Option.map_some, Option.some_inj]
      exact left.open_status right same unreviewed foundLeft foundRight openLeft openRight
    | none =>
      cases foundRight : b.submissions.lookup id with
      | none => rfl
      | some y =>
        obtain ⟨-, x, found, -⟩ :=
          right.opened_twice left (fun op => (same op).symm) first foundRight
        rw [foundLeft] at found
        cases found

theorem agree (unreviewed : ∀ op ∈ shipment.ops, Unreviewed start op.submissionId) : Agree a b where
  log entry := ⟨left.content_subset right same,
    right.content_subset left fun op => (same op).symm⟩
  states := left.same_states right same
  statuses := by
    intro id
    by_cases named : ∃ op ∈ shipment.ops, op.submissionId = id
    · obtain ⟨op, member, rfl⟩ := named
      exact left.same_status right same (unreviewed op member)
    · push Not at named
      rw [left.unnamed id named, right.unnamed id named]

end Delivered

theorem deliver_settled {db : Db} (settled : Settled db) {shipment : Shipment db}
    {batches : List PushRequest} (carries : ∀ req ∈ batches, Carries shipment req) :
    Settled (deliver db batches).1 := by
  have start : Delivered shipment [] db := Delivered.nil settled
  have nothing : ∀ op : SyncOp, op ∈ [] ↔ .wellFormed op ∈ ([] : List RawOp) := by simp
  obtain ⟨_, delivered, -⟩ := start.run nothing carries
  exact delivered.settled

/-- Whatever the order, the batches and the repetitions, a shipment leaves the same log, the same
answers and the same statuses, and the answers are the fold of the log. -/
theorem push_converges {db : Db} (settled : Settled db) (shipment : Shipment db)
    (unreviewed : ∀ op ∈ shipment.ops, Unreviewed db op.submissionId) {one two : List PushRequest}
    (first : Delivers shipment one) (second : Delivers shipment two) :
    Agree (deliver db one).1 (deliver db two).1 ∧
      (∀ row ∈ (deliver db one).1.ops.rows,
        ((deliver db one).1.states.lookup row.submissionId).map (·.data) =
          some (foldOps (orderedLog (deliver db one).1.ops.rows row.submissionId)).data) ∧
      (db.MediaOwned →
        (∀ op ∈ shipment.ops, ∀ caseId, op.caseId = some caseId →
          (db.cases.lookup caseId).isSome = true) →
        ∀ batches, (∀ req ∈ batches, Carries shipment req) →
          (deliver db batches).2 = batches.flatMap (·.ops)) := by
  have start : Delivered shipment [] db := Delivered.nil settled
  have nothing : ∀ op : SyncOp, op ∈ [] ↔ .wellFormed op ∈ ([] : List RawOp) := by simp
  obtain ⟨done, left, all⟩ := start.run nothing first.carries
  obtain ⟨done', right, all'⟩ := start.run nothing second.carries
  refine ⟨left.agree right (fun op => ⟨fun member => ?_, fun member => ?_⟩) unreviewed,
    left.settled.state, ?_⟩
  · exact (all' op).mpr (second.whole op (left.within op member))
  · exact (all op).mpr (first.whole op (right.within op member))
  · intro media known batches carries
    have answered := start.run_answered media known carries []
    rw [List.nil_append] at answered
    exact answered

def twoDevices : Db := oneForm [("d1", some "u1"), ("d2", some "u2")]

def twoHands : Shipment twoDevices where
  ops := [answerOp "o1" "s1" "d1" 1, finalizeOp "o2" "s1" "d2" 2 1]
  version _ := "ver"
  plaintext := by decide
  ids := by
    intro a left b right
    simp only [List.mem_cons, List.not_mem_nil, or_false] at left right
    rcases left with rfl | rfl <;> rcases right with rfl | rfl <;>
      simp [answerOp, finalizeOp]
  slots := by
    intro a left b right
    simp only [List.mem_cons, List.not_mem_nil, or_false] at left right
    rcases left with rfl | rfl <;> rcases right with rfl | rfl <;>
      simp [answerOp, finalizeOp, SyncOp.slot]
  registered := by
    intro op member
    simp only [List.mem_cons, List.not_mem_nil, or_false] at member
    rcases member with rfl | rfl <;> exact ⟨_, rfl, rfl⟩

theorem twoDevices_settled : Settled twoDevices := by
  refine ⟨?_, ?_, fun _ _ => rfl⟩ <;> intro row stored <;> cases stored

theorem carrying_carries {device person : String} {ops : List SyncOp}
    (sub : ∀ op ∈ ops, op ∈ twoHands.ops)
    (bound : ∃ d, twoDevices.devices.lookup device = some d ∧ d.userId = some person) :
    Carries twoHands (carrying device person ops) := by
  obtain ⟨d, found, holder⟩ := bound
  refine ⟨rfl, ?_, d, person, found, holder, rfl⟩
  intro raw member
  obtain ⟨op, inBatch, rfl⟩ := List.mem_map.mp member
  exact ⟨op, sub op inBatch, rfl⟩

set_option maxRecDepth 10000 in
/-- Both ops together; or the finalize first, the answer after it, the finalize once more. -/
theorem twoHands_converge :
    Agree
      (deliver twoDevices [carrying "d1" "u1" twoHands.ops]).1
      (deliver twoDevices [carrying "d2" "u2" [finalizeOp "o2" "s1" "d2" 2 1],
        carrying "d1" "u1" [answerOp "o1" "s1" "d1" 1, finalizeOp "o2" "s1" "d2" 2 1]]).1 := by
  have unreviewed : ∀ op ∈ twoHands.ops, Unreviewed twoDevices op.submissionId := by
    intro op _ submission found
    cases found
  refine (push_converges twoDevices_settled twoHands unreviewed ⟨?_, ?_⟩ ⟨?_, ?_⟩).1
  · intro req member
    obtain rfl := List.mem_singleton.mp member
    exact carrying_carries (fun op inBatch => inBatch) ⟨_, rfl, rfl⟩
  · intro op member
    show _ ∈ twoHands.ops.map RawOp.wellFormed
    exact List.mem_map_of_mem member
  · intro req member
    simp only [List.mem_cons, List.not_mem_nil, or_false] at member
    rcases member with rfl | rfl
    · exact carrying_carries (by simp [twoHands]) ⟨_, rfl, rfl⟩
    · exact carrying_carries (by simp [twoHands]) ⟨_, rfl, rfl⟩
  · intro op member
    show _ ∈ RawOp.wellFormed (finalizeOp "o2" "s1" "d2" 2 1) :: twoHands.ops.map RawOp.wellFormed
    exact List.mem_cons_of_mem _ (List.mem_map_of_mem member)

end DataCollectionLab.Sync
