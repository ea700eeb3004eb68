import DataCollectionLab.Sync.Log
import DataCollectionLab.Sync.Plain
import DataCollectionLab.Sync.Returns

/-!
One push of plaintext ops whose submissions are each of one form version. Whether an op gets in
does not depend on the ops before it, and what is stored about a submission follows from its log.
-/

namespace DataCollectionLab.Sync

def Welcome (db : Db) (op : SyncOp) : Prop :=
  ∃ device person version, db.devices.lookup op.deviceId = some device ∧
    device.revokedAt = none ∧ device.userId = some person ∧
    (op.actorId = none ∨ op.actorId = some localActor ∨ op.actorId = some person) ∧
    resolveFormVersion db device.projectId op.formId op.formVersion = some version ∧
    match db.submissions.lookup op.submissionId with
    | some submission => Call.refusalOn submission device version = none
    | none => (resolveEnvironment db device.projectId).isSome = true

theorem resolveFormVersion_project {db : Db} {project project' formKey formKey' version : String}
    {n n' : Nat} (resolved : resolveFormVersion db project formKey n = some version)
    (resolved' : resolveFormVersion db project' formKey' n' = some version) : project = project' := by
  have owner : ∀ {p k m}, resolveFormVersion db p k m = some version →
      ∃ fv form, db.formVersions.lookup version = some fv ∧ db.forms.lookup fv.formId = some form ∧
        form.projectId = p := by
    intro p k m found
    obtain ⟨entry, isFirst, rfl⟩ := Option.map_eq_some_iff.mp found
    have member := List.mem_of_find?_eq_some isFirst
    have holds := List.find?_some isFirst
    rw [Bool.and_eq_true] at holds
    cases named : db.forms.lookup entry.2.formId with
    | none => simp [named] at holds
    | some form =>
      refine ⟨entry.2, form, List.mem_dlookup db.formVersions.nodupKeys member, named, ?_⟩
      have both := holds.2
      rw [named, Option.any_some, Bool.and_eq_true] at both
      simpa using both.1
  obtain ⟨fv, form, listed, named, rfl⟩ := owner resolved
  obtain ⟨fv', form', listed', named', rfl⟩ := owner resolved'
  cases listed.symm.trans listed'
  cases named.symm.trans named'
  rfl

/-- A plain call in the session of its device's person, whose ops of one submission name one
form version. -/
structure CarriedCall (version : String → String) (c : Call) : Prop extends PlainCall c where
  bound : ∃ device person, c.db.devices.lookup c.req.deviceId = some device ∧
    device.userId = some person ∧ c.req.actorId = some person
  versions : ∀ op ∈ c.ops, ∀ device, c.db.devices.lookup op.deviceId = some device →
    resolveFormVersion c.db device.projectId op.formId op.formVersion =
      some (version op.submissionId)

namespace CarriedCall

variable {version : String → String} {c : Call} (carried : CarriedCall version c)
include carried

theorem identify_iff {op : SyncOp} {device : Device} {named : Option String} :
    c.identify op = .ok (device, named) ↔
      c.db.devices.lookup op.deviceId = some device ∧ device.revokedAt = none ∧
        ∃ person, device.userId = some person ∧ named = some person ∧
          (op.actorId = none ∨ op.actorId = some localActor ∨ op.actorId = some person) := by
  obtain ⟨pushing, actor, registered, holder, session⟩ := carried.bound
  rw [c.identify_ok_iff, carried.device]
  refine and_congr_right fun found => and_congr_right fun _ => ?_
  have person : (if op.deviceId = c.req.deviceId then some actor else device.userId) =
      device.userId := by
    split
    · rename_i own
      rw [own, registered] at found
      cases found
      exact holder.symm
    · rfl
  unfold attributeOp
  rw [session]
  dsimp only
  rw [person]
  cases device.userId with
  | none => simp
  | some q =>
    dsimp only
    split
    · rename_i agrees
      constructor
      · intro answer
        cases answer
        exact ⟨q, rfl, rfl, agrees⟩
      · rintro ⟨_, ⟨⟩, rfl, -⟩
        rfl
    · rename_i differs
      simp only [reduceCtorEq, false_iff]
      rintro ⟨_, ⟨⟩, -, agrees⟩
      exact differs agrees

theorem joins_opened {opener op : SyncOp} {device : Device} {row : Submission} {v : String}
    {db : Db} (ground : resolveFormVersion db = resolveFormVersion c.db)
    (inBatch : opener ∈ c.ops) (opens : c.judge db opener = .opens row)
    (same : opener.submissionId = op.submissionId)
    (resolved : resolveFormVersion c.db device.projectId op.formId op.formVersion = some v)
    (named : v = version op.submissionId) : Call.refusalOn row device v = none := by
  obtain ⟨-, device', person', version', environment', identity', resolved', -, -, -, rfl⟩ :=
    c.judge_opens_iff.mp opens
  obtain ⟨found', -, -⟩ := carried.identify_iff.mp identity'
  have known := carried.versions opener inBatch device' found'
  rw [ground] at resolved'
  cases known.symm.trans resolved'
  rw [same] at known resolved' ⊢
  subst named
  exact Call.refusalOn_eq_none_iff.mpr ⟨resolveFormVersion_project known resolved, rfl, rfl⟩

theorem admits_iff (free : c.OpensFree c.ops) {op : SyncOp} (member : op ∈ c.ops) :
    (c.judgement op).admits = true ↔ ¬ c.db.Holds op ∧ Welcome c.db op := by
  obtain ⟨before, after, split⟩ := List.append_of_mem member
  have ground : resolveFormVersion (c.dbAfter before) = resolveFormVersion c.db := by
    rw [c.dbAfter_frame]
    rfl
  have placed : resolveEnvironment (c.dbAfter before) = resolveEnvironment c.db := by
    rw [c.dbAfter_frame]
    rfl
  have here := c.judge_here split
  have openers : ∀ row, (c.dbAfter before).submissions.lookup op.submissionId = some row →
      c.db.submissions.lookup op.submissionId = some row ∨
        c.db.submissions.lookup op.submissionId = none ∧
          ∃ opener ∈ c.ops, opener.submissionId = op.submissionId ∧ ∃ db,
            resolveFormVersion db = resolveFormVersion c.db ∧
            resolveEnvironment db = resolveEnvironment c.db ∧ c.judge db opener = .opens row := by
    intro row found
    rcases c.opened_of_lookup split found with start | ⟨opener, earlier, on, opens⟩
    · exact Or.inl start
    · have inBatch : opener ∈ c.ops := by rw [split]; exact List.mem_append_left _ earlier
      obtain ⟨front, back, split'⟩ := List.append_of_mem inBatch
      refine Or.inr ⟨?_, opener, inBatch, on, c.dbAfter front, ?_, ?_, ?_⟩
      · have openable := (free opener inBatch row opens).1
        rw [c.earlier_eq split'] at openable
        rw [← on]
        exact c.start_none split' free openable
      · rw [c.dbAfter_frame]
        rfl
      · rw [c.dbAfter_frame]
        rfl
      · rw [c.judge_here split', opens]
  constructor
  · intro admits
    refine ⟨fun held => c.fresh_of_admits admits ((carried.replayed_iff op).mpr held), ?_⟩
    cases judged : c.judgement op with
    | replay => simp [judged, Judgement.admits] at admits
    | refuse reason => simp [judged, Judgement.admits] at admits
    | join =>
      obtain ⟨-, device, named, v, row, identity, resolved, found, joins⟩ :=
        c.judge_join_iff.mp (here.trans judged)
      obtain ⟨registered, active, person, holder, -, actor⟩ := carried.identify_iff.mp identity
      rw [ground] at resolved
      rw [carried.submission] at found
      refine ⟨device, person, v, registered, active, holder, actor, resolved, ?_⟩
      rcases openers row found with start | ⟨start, opener, -, -, db, -, placed', opens⟩
      · rw [start]
        exact joins
      · rw [start]
        obtain ⟨-, device', _, _, environment, -, -, -, environment', -, rfl⟩ :=
          c.judge_opens_iff.mp opens
        have project : device'.projectId = device.projectId :=
          (Call.refusalOn_eq_none_iff.mp joins).1
        rw [placed', project] at environment'
        simp [environment']
    | opens row =>
      obtain ⟨-, device, named, v, environment, identity, resolved, found, environment', -, -⟩ :=
        c.judge_opens_iff.mp (here.trans judged)
      obtain ⟨registered, active, person, holder, -, actor⟩ := carried.identify_iff.mp identity
      rw [ground] at resolved
      rw [placed] at environment'
      rw [carried.submission] at found
      refine ⟨device, person, v, registered, active, holder, actor, resolved, ?_⟩
      rw [c.start_none split free found]
      simp [environment']
  · rintro ⟨fresh, device, person, v, registered, active, holder, actor, resolved, room⟩
    have new : ¬ c.Replayed op := fun replayed => fresh ((carried.replayed_iff op).mp replayed)
    have identity : c.identify op = .ok (device, some person) :=
      carried.identify_iff.mpr ⟨registered, active, person, holder, rfl, actor⟩
    have named : v = version op.submissionId :=
      Option.some.inj (resolved.symm.trans (carried.versions op member device registered))
    rw [← here]
    cases found : (c.dbAfter before).submissions.lookup op.submissionId with
    | some row =>
      have joins : Call.refusalOn row device v = none := by
        rcases openers row found with start | ⟨start, opener, inBatch, on, db, ground', -, opens⟩
        · rw [start] at room
          exact room
        · exact carried.joins_opened ground' inBatch opens on resolved named
      rw [c.judge_join_iff.mpr ⟨new, device, some person, v, row, identity,
        by rw [ground]; exact resolved, by rw [carried.submission]; exact found, joins⟩]
      rfl
    | none =>
      rw [c.start_none split free found] at room
      obtain ⟨environment, environment'⟩ := Option.isSome_iff_exists.mp room
      rw [c.judge_opens_iff.mpr ⟨new, device, some person, v, environment, identity,
        by rw [ground]; exact resolved, by rw [carried.submission]; exact found,
        by rw [placed]; exact environment', carried.admitted _, rfl⟩]
      rfl

end CarriedCall

/-! ### What the log decides -/

def statusOf : Option Status → Status
  | some .finalized => .finalized
  | _ => .draft

/-- A state in which the answers stored about a submission follow from its log. -/
structure Settled (db : Db) : Prop where
  owned : db.Owned
  state : ∀ row ∈ db.ops.rows,
    (db.states.lookup row.submissionId).map (·.data) = some (db.fold row.submissionId).data
  stateless : ∀ id, (∀ row ∈ db.ops.rows, row.submissionId ≠ id) → db.states.lookup id = none

def Unreviewed (db : Db) (id : String) : Prop :=
  ∀ submission, db.submissions.lookup id = some submission →
    submission.status.closed = true ∨ submission.status = statusOf (db.fold id).status

theorem fold_status_none {db db' : Db} {id : String} (grows : ∀ row ∈ db.ops.rows, row ∈ db'.ops.rows)
    (silent : (db'.fold id).status = none) : (db.fold id).status = none := by
  unfold Db.fold at silent ⊢
  rw [foldOps_status, List.getLast?_eq_none_iff, List.filterMap_eq_nil_iff] at silent ⊢
  intro row member
  obtain ⟨stored, on⟩ := mem_orderedLog.mp member
  exact silent row (mem_orderedLog.mpr ⟨grows row stored, on⟩)

theorem applyFolded_status {submission : Submission} {folded : Fold} {before : Option Status}
    (current : submission.status = statusOf before) (said : folded.status = none → before = none) :
    (applyFolded submission folded).status = statusOf folded.status := by
  have open' : submission.status = .draft ∨ submission.status = .finalized := by
    rw [current]
    unfold statusOf
    split
    · exact Or.inr rfl
    · exact Or.inl rfl
  unfold applyFolded
  cases net : folded.status with
  | none =>
    rw [said net] at current
    exact current
  | some status =>
    rcases open' with draft | finalized
    · rw [draft]
      cases status <;> rfl
    · rw [finalized]
      cases status <;> rfl

theorem applyFolded_of_closed {submission : Submission} (closed : submission.status.closed = true)
    (folded : Fold) : applyFolded submission folded = submission := by
  unfold applyFolded
  split
  · rfl
  · rw [nextStatus_of_closed closed]

theorem applyFolded_closed (submission : Submission) (folded : Fold) :
    (applyFolded submission folded).status.closed = submission.status.closed := by
  cases closed : submission.status.closed with
  | true => rw [applyFolded_of_closed closed, closed]
  | false =>
    unfold applyFolded
    cases folded.status with
    | none => exact closed
    | some said =>
      cases current : submission.status <;> rw [current] at closed <;>
        first
          | exact absurd closed (by decide)
          | (cases said <;> rfl)

structure SameGround (db db' : Db) : Prop where
  environments : db'.environments = db.environments
  forms : db'.forms = db.forms
  formVersions : db'.formVersions = db.formVersions
  cases : db'.cases = db.cases
  devices : ∀ id, (db'.devices.lookup id).map Device.identity =
    (db.devices.lookup id).map Device.identity

theorem Call.push_ground (c : Call) {response : PushResponse} {final : Db}
    (returned : push c.pol c.db c.req = .ok (response, final)) : SameGround c.db final := by
  obtain ⟨-, keyed, flushed, -, rfl, -⟩ := c.push_returns_iff.mp returned
  have frame := c.inserted_frame flushed
  refine ⟨?_, ?_, ?_, ?_, ?_⟩
  · rw [c.settle_frame, frame]
  · rw [c.settle_frame, frame]
  · rw [c.settle_frame, frame]
  · rw [c.settle_frame, frame]
  · intro id
    rw [c.settle_identity, frame]

theorem SameGround.resolveFormVersion {db db' : Db} (same : SameGround db db') :
    resolveFormVersion db' = Sync.resolveFormVersion db := by
  funext project formKey n
  simp only [Sync.resolveFormVersion, same.formVersions, same.forms]

theorem SameGround.resolveEnvironment {db db' : Db} (same : SameGround db db') :
    resolveEnvironment db' = Sync.resolveEnvironment db := by
  funext project
  simp only [Sync.resolveEnvironment, same.environments]

theorem SameGround.device {db db' : Db} (same : SameGround db db') {id : String} {device : Device}
    (found : db.devices.lookup id = some device) :
    ∃ device', db'.devices.lookup id = some device' ∧ device'.projectId = device.projectId ∧
      device'.userId = device.userId ∧ device'.revokedAt = device.revokedAt := by
  have identity := same.devices id
  rw [found, Option.map_some] at identity
  obtain ⟨device', found', equal⟩ := Option.map_eq_some_iff.mp identity
  simp only [Device.identity, Prod.mk.injEq] at equal
  exact ⟨device', found', equal⟩

theorem SameGround.symm {db db' : Db} (same : SameGround db db') : SameGround db' db :=
  ⟨same.environments.symm, same.forms.symm, same.formVersions.symm, same.cases.symm,
    fun id => (same.devices id).symm⟩

theorem SameGround.trans {a b c : Db} (first : SameGround a b) (second : SameGround b c) :
    SameGround a c :=
  ⟨second.environments.trans first.environments, second.forms.trans first.forms,
    second.formVersions.trans first.formVersions, second.cases.trans first.cases,
    fun id => (second.devices id).trans (first.devices id)⟩

namespace CarriedCall

variable {version : String → String} {c : Call} (carried : CarriedCall version c)
  {response : PushResponse} {final : Db}
  (returned : push c.pol c.db c.req = .ok (response, final))
include carried returned

theorem stores_iff_welcome {op : SyncOp} (member : op ∈ c.ops) :
    c.Stores op ↔ ¬ c.db.Holds op ∧ Welcome c.db op := by
  have free := (carried.returns_iff.mp returned).1
  rw [carried.stores_iff member, carried.admits_iff free member]

theorem mem_final_cores (row : SubmissionOp) :
    row ∈ final.ops.rows.map (·.core) ↔ row ∈ c.db.ops.rows.map (·.core) ∨
      ∃ op ∈ c.ops, ¬ c.db.Holds op ∧ Welcome c.db op ∧ op.row none = row := by
  constructor
  · intro member
    obtain ⟨r, stored, rfl⟩ := List.mem_map.mp member
    rcases c.mem_push_log returned stored with old | ⟨op, inBatch, stores, n, -, rfl⟩
    · exact Or.inl (List.mem_map_of_mem old)
    · obtain ⟨new, welcome⟩ := (carried.stores_iff_welcome returned inBatch).mp stores
      exact Or.inr ⟨op, inBatch, new, welcome, rfl⟩
  · rintro (old | ⟨op, inBatch, new, welcome, rfl⟩)
    · obtain ⟨r, stored, rfl⟩ := List.mem_map.mp old
      exact List.mem_map_of_mem (c.log_grows returned stored)
    · have stores := (carried.stores_iff_welcome returned inBatch).mpr ⟨new, welcome⟩
      obtain ⟨n, -, stored⟩ := c.exists_row returned inBatch stores
      exact List.mem_map.mpr ⟨_, stored, rfl⟩

theorem final_lookup (id : String) :
    final.submissions.lookup id = ((c.dbAfter c.ops).submissions.lookup id).map fun row =>
      if id ∈ touched c.stored then applyFolded row (final.fold id) else row := by
  obtain ⟨-, -, rfl, -⟩ := carried.returns_iff.mp returned
  have folds : (c.settle (c.inserted (c.dbAfter c.ops)) c.stored).fold =
      (c.inserted (c.dbAfter c.ops)).fold := by
    funext id
    unfold Db.fold
    rw [c.settle_ops]
  rw [c.settle_submission, folds]
  congr 1
  funext row
  have sees : c.pol.seesSubmission row.scope = true := by
    rw [carried.free]
    rfl
  simp only [sees, and_true]
  rfl

theorem final_state (id : String) :
    (final.states.lookup id).map (·.data) = if id ∈ touched c.stored then some (final.fold id).data
      else (c.db.states.lookup id).map (·.data) := by
  obtain ⟨free, -, rfl, -⟩ := carried.returns_iff.mp returned
  have folds : (c.settle (c.inserted (c.dbAfter c.ops)) c.stored).fold =
      (c.inserted (c.dbAfter c.ops)).fold := by
    funext id
    unfold Db.fold
    rw [c.settle_ops]
  have frame := c.inserted_frame (c.flushed_of_keyless carried.keyless)
  rw [c.settle_state, folds]
  by_cases hit : id ∈ touched c.stored
  · obtain ⟨op, member, stores, rfl⟩ := c.mem_touched_stored.mp hit
    have shown := c.shown_of_admits free member stores.1.1.1.1
    have shown : c.pol.shows (c.inserted (c.dbAfter c.ops)) op.submissionId = true := by
      rw [frame]
      exact shown
    simp [hit, shown]
  · have states : (c.inserted (c.dbAfter c.ops)).states = c.db.states := by rw [frame]
    simp [hit, states]

theorem final_fold {id : String} (untouched : id ∉ touched c.stored) :
    final.fold id = c.db.fold id := by
  have same : (c.inserted (c.dbAfter c.ops)).fold id = c.db.fold id := c.fold_untouched untouched
  obtain ⟨-, -, rfl, -⟩ := carried.returns_iff.mp returned
  rw [← same]
  unfold Db.fold
  rw [c.settle_ops]

theorem final_kept {id : String} {row : Submission}
    (found : c.db.submissions.lookup id = some row) :
    ∃ row', final.submissions.lookup id = some row' ∧ row'.projectId = row.projectId ∧
      row'.formVersionId = row.formVersionId ∧ row'.status.closed = row.status.closed ∧
      (row.status.closed = true → row' = row) := by
  have free := (carried.returns_iff.mp returned).1
  have split : c.ops = [] ++ (c.ops ++ []) := by simp
  have present := c.lookup_dbAfter split free found
  rw [List.nil_append] at present
  have last := carried.final_lookup returned id
  rw [present, Option.map_some] at last
  refine ⟨_, last, ?_⟩
  split
  · refine ⟨?_, ?_, applyFolded_closed row _, fun closed => applyFolded_of_closed closed _⟩
    · exact congrArg Scope.projectId (applyFolded_scope row (final.fold id))
    · unfold applyFolded
      split
      · rfl
      · split <;> rfl
  · exact ⟨rfl, rfl, rfl, fun _ => rfl⟩

theorem final_opened {id : String} {row' : Submission}
    (absent : c.db.submissions.lookup id = none)
    (found : final.submissions.lookup id = some row') :
    ∃ opener ∈ c.ops, ∃ row db, SameGround c.db db ∧ c.judge db opener = .opens row ∧
      opener.submissionId = id ∧ c.Stores opener ∧ row' = applyFolded row (final.fold id) := by
  have free := (carried.returns_iff.mp returned).1
  have last := carried.final_lookup returned id
  rw [found] at last
  obtain ⟨row, present, equal⟩ := Option.map_eq_some_iff.mp last.symm
  rcases c.opened_of_lookup (List.append_nil _).symm present with start | ⟨opener, member, rfl, opens⟩
  · rw [absent] at start
    cases start
  · obtain ⟨before, after, split⟩ := List.append_of_mem member
    have stores : c.Stores opener := (carried.stores_iff member).mpr (by rw [opens]; rfl)
    refine ⟨opener, member, row, c.dbAfter before, ?_, ?_, rfl, stores, ?_⟩
    · rw [c.dbAfter_frame]
      exact ⟨rfl, rfl, rfl, rfl, fun _ => rfl⟩
    · rw [c.judge_here split, opens]
    · rw [if_pos (c.mem_touched_stored.mpr ⟨opener, member, stores, rfl⟩)] at equal
      exact equal.symm

theorem final_owned (settled : Settled c.db) : final.Owned := by
  intro row member
  rcases c.mem_push_log returned member with old | ⟨op, inBatch, stores, n, -, rfl⟩
  · obtain ⟨s, found⟩ := Option.isSome_iff_exists.mp (settled.owned row old)
    obtain ⟨s', found', -⟩ := carried.final_kept returned found
    simp [found']
  · have free := (carried.returns_iff.mp returned).1
    have shown := c.shown_of_admits free inBatch stores.1.1.1.1
    rw [carried.shows] at shown
    show (final.submissions.lookup op.submissionId).isSome = true
    rw [carried.final_lookup returned, Option.isSome_map]
    exact shown

theorem status_before (settled : Settled c.db) {id : String} (unreviewed : Unreviewed c.db id)
    {row : Submission} (found : (c.dbAfter c.ops).submissions.lookup id = some row) :
    row.status.closed = true ∨ row.status = statusOf (c.db.fold id).status := by
  rcases c.opened_of_lookup (List.append_nil _).symm found with start | ⟨opener, member, rfl, opens⟩
  · exact unreviewed row start
  · have free := (carried.returns_iff.mp returned).1
    obtain ⟨before, after, split⟩ := List.append_of_mem member
    have openable := (free opener member row opens).1
    rw [c.earlier_eq split] at openable
    have absent := c.start_none split free openable
    have bare : orderedLog c.db.ops.rows opener.submissionId = [] := by
      rw [List.eq_nil_iff_forall_not_mem]
      intro r present
      obtain ⟨stored, on⟩ := mem_orderedLog.mp present
      have owner := settled.owned r stored
      rw [on, absent] at owner
      cases owner
    obtain ⟨-, _, _, _, _, -, -, -, -, -, rfl⟩ := c.judge_opens_iff.mp opens
    refine Or.inr ?_
    unfold Db.fold
    rw [bare]
    rfl

theorem final_settled (settled : Settled c.db) : Settled final := by
  have grows : ∀ row ∈ c.db.ops.rows, row ∈ final.ops.rows := fun row => c.log_grows returned
  refine ⟨carried.final_owned returned settled, ?_, ?_⟩
  · intro row member
    rw [carried.final_state returned]
    split
    · rfl
    · rename_i untouched
      rcases c.mem_push_log returned member with old | ⟨op, inBatch, stores, n, -, rfl⟩
      · rw [settled.state row old, carried.final_fold returned untouched]
      · exact absurd (c.mem_touched_stored.mpr ⟨op, inBatch, stores, rfl⟩) untouched
  · intro id none
    have untouched : id ∉ touched c.stored := by
      intro hit
      obtain ⟨op, inBatch, stores, rfl⟩ := c.mem_touched_stored.mp hit
      obtain ⟨n, -, stored⟩ := c.exists_row returned inBatch stores
      exact none _ stored rfl
    have data := carried.final_state returned id
    rw [if_neg untouched, settled.stateless id fun row old => none row (grows row old)] at data
    exact Option.map_eq_none_iff.mp data

theorem final_unreviewed (settled : Settled c.db) {id : String} (unreviewed : Unreviewed c.db id) :
    Unreviewed final id := by
  have grows : ∀ row ∈ c.db.ops.rows, row ∈ final.ops.rows := fun row => c.log_grows returned
  intro row' found
  have last := carried.final_lookup returned id
  rw [found] at last
  obtain ⟨row, present, rfl⟩ := Option.map_eq_some_iff.mp last.symm
  rcases carried.status_before returned settled unreviewed present with closed | agrees
  · left
    split
    · rw [applyFolded_closed, closed]
    · exact closed
  · right
    split
    · exact applyFolded_status agrees (fold_status_none grows)
    · rename_i untouched
      rw [carried.final_fold returned untouched, agrees]

theorem final_unnamed {id : String} (unnamed : ∀ op ∈ c.ops, op.submissionId ≠ id) :
    final.submissions.lookup id = c.db.submissions.lookup id := by
  have untouched : id ∉ touched c.stored := by
    intro hit
    obtain ⟨op, inBatch, -, on⟩ := c.mem_touched_stored.mp hit
    exact unnamed op inBatch on
  cases found : c.db.submissions.lookup id with
  | some row =>
    have free := (carried.returns_iff.mp returned).1
    have split : c.ops = [] ++ (c.ops ++ []) := by simp
    have present := c.lookup_dbAfter split free found
    rw [List.nil_append] at present
    rw [carried.final_lookup returned, present, Option.map_some, if_neg untouched]
  | none =>
    cases last : final.submissions.lookup id with
    | none => rfl
    | some row' =>
      obtain ⟨opener, inBatch, _, _, -, -, on, -⟩ := carried.final_opened returned found last
      exact absurd on (unnamed opener inBatch)

theorem final_welcome {op : SyncOp}
    (resolves : ∀ device, c.db.devices.lookup op.deviceId = some device →
      resolveFormVersion c.db device.projectId op.formId op.formVersion =
        some (version op.submissionId)) :
    Welcome final op ↔ Welcome c.db op := by
  have ground := c.push_ground returned
  have room : ∀ device, c.db.devices.lookup op.deviceId = some device →
      ((match final.submissions.lookup op.submissionId with
        | some s => Call.refusalOn s device (version op.submissionId) = none
        | none => (resolveEnvironment c.db device.projectId).isSome = true) ↔
      match c.db.submissions.lookup op.submissionId with
        | some s => Call.refusalOn s device (version op.submissionId) = none
        | none => (resolveEnvironment c.db device.projectId).isSome = true) := by
    intro device registered
    have resolved := resolves device registered
    cases found : c.db.submissions.lookup op.submissionId with
    | some row =>
      obtain ⟨row', found', project, versions, closed, -⟩ := carried.final_kept returned found
      rw [found']
      simp only [Call.refusalOn_eq_none_iff, project, versions, closed]
    | none =>
      cases found' : final.submissions.lookup op.submissionId with
      | none => rfl
      | some row' =>
        obtain ⟨opener, member, row, db, ground', opens, on, -, rfl⟩ :=
          carried.final_opened returned found found'
        have joins := carried.joins_opened ground'.resolveFormVersion member opens on resolved rfl
        rw [Call.refusalOn_eq_none_iff] at joins
        have project : (applyFolded row (final.fold op.submissionId)).projectId = row.projectId :=
          congrArg Scope.projectId (applyFolded_scope row _)
        have pinned : (applyFolded row (final.fold op.submissionId)).formVersionId =
            row.formVersionId := applyFolded_formVersionId row _
        obtain ⟨-, device', _, _, environment, -, -, -, placed, -, rfl⟩ :=
          c.judge_opens_iff.mp opens
        rw [ground'.resolveEnvironment, show device'.projectId = device.projectId from joins.1]
          at placed
        simp only [Call.refusalOn_eq_none_iff, project, pinned, applyFolded_closed, joins, placed,
          Option.isSome_some, and_self]
  constructor
  · rintro ⟨device', person, v, registered', active, holder, actor, resolved, fits⟩
    obtain ⟨device, registered, project, user, revoked⟩ := ground.symm.device registered'
    rw [ground.resolveFormVersion, ← project] at resolved
    cases resolved.symm.trans (resolves device registered)
    refine ⟨device, person, _, registered, by rw [revoked, active], by rw [user, holder], actor,
      resolved, (room device registered).mp ?_⟩
    rw [ground.resolveEnvironment, ← project] at fits
    simpa only [Call.refusalOn_eq_none_iff, project] using fits
  · rintro ⟨device, person, v, registered, active, holder, actor, resolved, fits⟩
    obtain ⟨device', registered', project, user, revoked⟩ := ground.device registered
    cases resolved.symm.trans (resolves device registered)
    have fits := (room device registered).mpr fits
    refine ⟨device', person, _, registered', by rw [revoked, active], by rw [user, holder], actor,
      by rw [ground.resolveFormVersion, project]; exact resolved, ?_⟩
    rw [ground.resolveEnvironment, project]
    simpa only [Call.refusalOn_eq_none_iff, project] using fits

omit returned

theorem exists_return (media : c.db.MediaOwned)
    (known : ∀ op ∈ c.ops, ∀ caseId, op.caseId = some caseId → (c.db.cases.lookup caseId).isSome = true) :
    ∃ response final, push c.pol c.db c.req = .ok (response, final) := by
  have writes : ∀ id, DeviceWritable c.pol c.db id := by
    intro id device _
    rw [carried.free]
    rfl
  refine (c.returns_iff carried.keyless media (writes _)).mpr
    ⟨c.opensFree_iff.mp ?_, ?_, fun _ _ _ => writes _, ?_⟩
  · intro op member row opens
    obtain ⟨before, after, split⟩ := List.append_of_mem member
    rw [← c.judge_here split] at opens
    obtain ⟨-, _, _, _, _, -, -, absent, -, -, rfl⟩ := c.judge_opens_iff.mp opens
    rw [carried.submission] at absent
    rw [c.earlier_eq split]
    refine ⟨absent, fun caseId named => ?_⟩
    rw [c.dbAfter_frame]
    exact known op member caseId named
  · intro op _ _ row _
    rw [carried.free]
    exact Or.inr rfl
  · intro reference _ row found
    rw [carried.shows]
    exact media _ row found

end CarriedCall

end DataCollectionLab.Sync
