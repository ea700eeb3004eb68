import DataCollectionLab.Sync.Returns
import DataCollectionLab.Sync.RowSecurity
import DataCollectionLab.Sync.Soundness

/-!
Which batches `push` answers, in every state that pushes, decisions, assignments and logins lead
to. The policy of `submission` shows a person the work they created and lets them write it only
while they hold its case; and a row that a session is not shown still has its primary key.
-/

namespace DataCollectionLab.Sync

/-- A batch that a bound device pushes in its person's session. Content keys come with sealed ops
only, so a plaintext batch has none. -/
structure InSession (p : Principal) (db : Db) (req : PushRequest) : Prop where
  bound : ∃ device, db.devices.lookup req.deviceId = some device ∧ device.userId = some p.userId
  actor : req.actorId = some p.userId
  keyless : req.keys = []

/-- The call returns, it says of every op whether it is accepted, and it refuses nobody's work on
a submission they opened for want of the case. -/
def Answers (p : Principal) (db : Db) (req : PushRequest) : Prop :=
  ∃ response final, push (p.policies db) db req = .ok (response, final) ∧
    (∀ op, .wellFormed op ∈ req.ops → op.opId ∈ response.accepted ∨ response.Refuses op.opId) ∧
    ∀ op ∈ (readBatch req.ops).ops, ∀ row, db.submissions.lookup op.submissionId = some row →
      row.status.closed = false → row.createdBy = some p.userId →
      p.seesProject db row.projectId = true →
      ⟨some op.opId, .notAssigned⟩ ∉ response.rejected

namespace Call

variable (c : Call)

theorem judge_notAssigned {db : Db} {op : SyncOp} (refused : c.judge db op = .refuse .notAssigned) :
    c.pol.submission db op.submissionId = none := by
  unfold judge at refused
  split at refused
  · cases refused
  · cases identity : c.identify op with
    | error reason =>
      rw [identity, c.identify_error identity] at refused
      cases refused
    | ok entry =>
      rw [identity] at refused
      unfold judgeEntry at refused
      dsimp only at refused
      split at refused
      · cases refused
      · split at refused
        · split at refused
          · rename_i reason on
            cases refused
            simpa using refusalOn_reason on
          · cases refused
        · assumption

theorem judgement_of_notAssigned {op : SyncOp} (member : op ∈ c.ops)
    (listed : ⟨some op.opId, .notAssigned⟩ ∈ c.rejected) :
    c.judgement op = .refuse .notAssigned := by
  simp only [rejected, List.mem_append, List.mem_filterMap, List.mem_map, List.mem_filter,
    Option.map_eq_some_iff, RejectedOp.mk.injEq] at listed
  obtain ((read | ⟨o, present, reason, refused, same, rfl⟩) | ⟨o, -, reason, refused, -, rfl⟩) |
    ⟨o, -, -, wrong⟩ := listed
  · cases readBatch_malformed read
  · obtain rfl := List.inj_on_of_nodup_map c.ops_nodup present member (Option.some.inj same)
    cases judged : c.judgement o with
    | refuse reason =>
      rw [judged] at refused
      cases refused
      rfl
    | replay | join | opens _ =>
      rw [judged] at refused
      cases refused
  · simpa using c.cryptoRefusal_reason refused
  · cases wrong

theorem never_notAssigned (free : c.OpensFree c.ops) {op : SyncOp} (member : op ∈ c.ops)
    {row : Submission} (found : c.db.submissions.lookup op.submissionId = some row)
    (sees : c.pol.seesSubmission row.scope = true) :
    ⟨some op.opId, .notAssigned⟩ ∉ c.rejected := by
  intro listed
  obtain ⟨before, after, split⟩ := List.append_of_mem member
  have split' : c.ops = [] ++ (before ++ (op :: after)) := split
  have present := c.lookup_dbAfter split' free found
  have hidden := c.judge_notAssigned
    ((c.judge_here split).trans (c.judgement_of_notAssigned member listed))
  rw [List.nil_append] at present
  rw [Policies.submission, present, Option.filter_some, if_pos sees] at hidden
  cases hidden

end Call

/-! ### Every reachable state -/

theorem FieldAct.run_mediaOwned (roster : Roster) {db : Db} (owned : db.MediaOwned)
    (act : FieldAct) : (act.run roster db).MediaOwned := by
  cases act with
  | push p req =>
    unfold FieldAct.run
    dsimp only
    split
    · rename_i response final returned
      exact Call.push_mediaOwned ⟨p.policies db, db, req⟩ returned owned
    · exact owned
  | decide p req =>
    unfold FieldAct.run
    dsimp only
    split
    · rename_i recorded db' decided
      obtain ⟨submission, moved, -, -, -, -, submissions, rfl, there, others⟩ :=
        Quality.decide_ok decided
      intro id row found
      show (submissions.lookup row.submissionId).isSome = true
      by_cases same : row.submissionId = req.submissionId
      · rw [same, there]
        rfl
      · rw [others _ same]
        exact owned id row found
    · exact owned
  | assign p now caseId holder =>
    unfold FieldAct.run
    dsimp only
    split
    · rename_i db' assigned
      rw [dcpAssignCase_frame assigned]
      exact owned
    · exact owned
  | login deviceId person =>
    show (dcpBindDevice db deviceId person).MediaOwned
    unfold dcpBindDevice
    split <;> exact owned

theorem runField_mediaOwned (roster : Roster) {start : Db} (owned : start.MediaOwned)
    (acts : List FieldAct) : (runField roster start acts).MediaOwned := by
  unfold runField
  induction acts generalizing start with
  | nil => exact owned
  | cons act acts ih => exact ih (act.run_mediaOwned roster owned)

theorem InSession.writable {p : Principal} {db : Db} {req : PushRequest}
    (session : InSession p db req) : DeviceWritable (p.policies db) db req.deviceId := by
  intro device shown
  obtain ⟨registered, found, holder⟩ := session.bound
  obtain ⟨stored, sees⟩ := Option.filter_eq_some_iff.mp shown
  rw [found] at stored
  cases stored
  have project : p.seesProject db device.projectId = true := (Bool.and_eq_true_iff.mp sees).1
  simp [Principal.policies, project, holder]

theorem Principal.sees_created {p : Principal} {db : Db} {row : Submission}
    (created : row.createdBy = some p.userId) (project : p.seesProject db row.projectId = true) :
    (p.policies db).seesSubmission row.scope = true := by
  simp [Principal.policies, Submission.scope, created, project]

theorem answers_iff {p : Principal} {db : Db} {req : PushRequest} (session : InSession p db req)
    (owned : db.MediaOwned) :
    Answers p db req ↔ Call.Unobstructed ⟨p.policies db, db, req⟩ := by
  have returns := Call.returns_iff ⟨p.policies db, db, req⟩ session.keyless owned session.writable
  rw [← returns]
  constructor
  · rintro ⟨response, final, returned, -⟩
    exact ⟨response, final, returned⟩
  · rintro ⟨response, final, returned⟩
    let c : Call := ⟨p.policies db, db, req⟩
    refine ⟨response, final, returned, fun op member => c.answered returned member, ?_⟩
    intro op member row found _ created project
    obtain ⟨free, -⟩ := c.push_returns_iff.mp returned
    rw [(c.push_verdicts returned).2]
    exact c.never_notAssigned free member found (Principal.sees_created created project)

def oneCase : Db :=
  { oneForm [("d1", some "u1"), ("d2", some "u2")] with cases := AList.singleton "c1" "prj" }

def oneTeam : Roster where
  teams := AList.singleton "t1" "prj"
  members := [("t1", "u1"), ("t1", "u2")]

def collector (userId : String) : Principal where
  orgId := "org"
  userId := userId
  visibleUserIds := [userId]

def supervisor : Principal where
  orgId := "org"
  userId := "u9"
  visibleUserIds := ["u1", "u2", "u9"]
  projectIds := ["prj"]
  permissions := [.sampleAssign]

def workBegun : List FieldAct :=
  [.assign supervisor 1 "c1" (.team "t1"), .assign supervisor 2 "c1" (.person "u1"),
    .push (collector "u1")
      (carrying "d1" "u1" [{ answerOp "o1" "s1" "d1" 1 with caseId := some "c1" }])]

def workMoved : List FieldAct := workBegun ++ [.assign supervisor 3 "c1" (.person "u2")]

def lastPush : PushRequest := carrying "d1" "u1" [finalizeOp "o2" "s1" "d1" 2 1]

end DataCollectionLab.Sync
