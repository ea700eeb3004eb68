import DataCollectionLab.Lib.Except
import DataCollectionLab.Quality.Review
import DataCollectionLab.Sync.Push

/-!
The policies of migrations 008 to 016 as predicates of the database and the session's principal,
and the transactions that move what they read: a case is assigned, a device changes hands, a
reviewer decides, a device pushes.
-/

namespace DataCollectionLab.Sync

inductive Permission where
  | submissionView | submissionReview | sampleAssign
  deriving DecidableEq, Repr

/-- What the session says about its person: the settings `app.*` of the connection. -/
structure Principal where
  orgId : String
  userId : String
  /-- `app.scope_kind = 'organization'`. -/
  orgWide : Bool := false
  visibleUserIds : List String
  projectIds : List String := []
  teamIds : List String := []
  permissions : List Permission := []

/-- The tables nothing here writes: teams with their projects, and the people active in them. -/
structure Roster where
  teams : Dict String := ∅
  members : List (String × String) := []

def dcpInList (list : List String) (value : Option String) : Bool := value.any list.contains

namespace Principal

variable (p : Principal) (db : Db)

def dcpHas (permission : Permission) : Bool := p.permissions.contains permission

/-- `project_id IN (SELECT id FROM project)`. -/
def seesProject (projectId : String) : Bool := db.projects.lookup projectId == some p.orgId

def dcpCaseInScope (caseId : String) : Bool :=
  p.orgWide || dcpInList p.projectIds (db.cases.lookup caseId) ||
    db.assignments.any fun a => a.caseId == caseId && a.releasedAt.isNone &&
      (a.userId == some p.userId || (p.dcpHas .sampleAssign &&
        (dcpInList p.teamIds a.teamId || dcpInList p.visibleUserIds a.userId)))

def dcpCaseAssignedToMe (caseId : String) : Bool :=
  db.assignments.any fun a => a.caseId == caseId && a.releasedAt.isNone &&
    a.userId == some p.userId

/-- The policies of `project`, `device` (015), `submission` and `review` (016). -/
def policies : Policies where
  seesProject := p.seesProject db
  seesDevice projectId userId :=
    p.seesProject db projectId && (p.orgWide || dcpInList p.visibleUserIds userId)
  writesDevice projectId userId :=
    p.seesProject db projectId && (p.orgWide || userId.isNone || userId == some p.userId)
  seesSubmission scope :=
    p.seesProject db scope.projectId &&
      (p.orgWide || scope.createdBy == some p.userId ||
        match scope.caseId with
        | some caseId => p.dcpCaseInScope db caseId
        | none => p.dcpHas .submissionView && dcpInList p.visibleUserIds scope.createdBy)
  writesSubmission scope :=
    p.seesProject db scope.projectId &&
      (p.orgWide ||
        (scope.createdBy == some p.userId &&
          match scope.caseId with
          | some caseId => p.dcpCaseAssignedToMe db caseId
          | none => true) ||
        (p.dcpHas .submissionReview &&
          match scope.caseId with
          | some caseId => p.dcpCaseInScope db caseId
          | none => dcpInList p.visibleUserIds scope.createdBy))
  writesReview := p.dcpHas .submissionReview

end Principal

def dcpPersonUnderLiveTeam (roster : Roster) (db : Db) (caseId person : String) : Bool :=
  db.assignments.any fun a => a.caseId == caseId && a.releasedAt.isNone &&
    a.teamId.any fun team => roster.members.contains (team, person)

/-- WITH CHECK of `assignment`. -/
def writesAssignment (roster : Roster) (p : Principal) (db : Db) (row : Assignment) : Bool :=
  p.dcpHas .sampleAssign && p.dcpCaseInScope db row.caseId &&
    ((row.teamId.any fun team => p.orgWide || dcpInList p.projectIds (roster.teams.lookup team)) ||
      (row.userId.any fun user => (p.orgWide || dcpInList p.visibleUserIds (some user)) &&
        dcpPersonUnderLiveTeam roster db row.caseId user))

/-- UPDATE assignment SET released_at = now(), for the live rows of a case at one level. USING
shows the rows of a case that is in scope; a released row is held to the check as well. -/
def releaseAssignments (roster : Roster) (p : Principal) (now : Timestamp) (db : Db)
    (caseId : String) (level : Assignment → Bool) : Except DbError Db :=
  let hit := fun row : Assignment => row.caseId == caseId && row.releasedAt.isNone && level row &&
    p.dcpCaseInScope db caseId
  let release := fun row : Assignment => { row with releasedAt := some now }
  if (db.assignments.filter hit).all fun row => writesAssignment roster p db (release row) then
    .ok { db with assignments := db.assignments.map fun row => if hit row then release row else row }
  else .error (.rowSecurity "assignment")

/-- INSERT INTO assignment, under the check, the two partial unique indexes and the foreign keys. -/
def insertAssignment (roster : Roster) (p : Principal) (db : Db) (row : Assignment) :
    Except DbError Db :=
  let live := fun level : Assignment → Bool =>
    level row && db.assignments.any fun a => a.caseId == row.caseId && a.releasedAt.isNone && level a
  if !writesAssignment roster p db row then .error (.rowSecurity "assignment")
  else if live (·.teamId.isSome) then .error (.uniqueViolation "assignment_live_team_idx")
  else if live (·.userId.isSome) then .error (.uniqueViolation "assignment_live_person_idx")
  else if (db.cases.lookup row.caseId).isNone then
    .error (.foreignKeyViolation "assignment_case_id_fkey")
  else if row.teamId.any fun team => (roster.teams.lookup team).isNone then
    .error (.foreignKeyViolation "assignment_team_id_fkey")
  else .ok { db with assignments := db.assignments ++ [row] }

/-- Exactly one of `to_team` and `to_person`. -/
inductive Assignee where
  | team (id : String)
  | person (id : String)

/-- `dcp_assign_case`: release and write, at one level. A team takes the person's hold with it. -/
def dcpAssignCase (roster : Roster) (p : Principal) (now : Timestamp) (db : Db) (caseId : String) :
    Assignee → Except DbError Db
  | .team team => do
    let db ← releaseAssignments roster p now db caseId (·.userId.isSome)
    let db ← releaseAssignments roster p now db caseId (·.teamId.isSome)
    insertAssignment roster p db { caseId := caseId, userId := none, teamId := some team }
  | .person person => do
    let db ← releaseAssignments roster p now db caseId (·.userId.isSome)
    insertAssignment roster p db { caseId := caseId, userId := some person, teamId := none }

theorem releaseAssignments_frame {roster : Roster} {p : Principal} {now : Timestamp} {db db' : Db}
    {caseId : String} {level : Assignment → Bool}
    (released : releaseAssignments roster p now db caseId level = .ok db') :
    db' = { db with assignments := db'.assignments } := by
  unfold releaseAssignments at released
  dsimp only at released
  split at released
  · cases released
    rfl
  · cases released

theorem insertAssignment_frame {roster : Roster} {p : Principal} {db db' : Db} {row : Assignment}
    (inserted : insertAssignment roster p db row = .ok db') :
    db' = { db with assignments := db'.assignments } := by
  unfold insertAssignment at inserted
  dsimp only at inserted
  repeat' split at inserted
  all_goals cases inserted
  rfl

theorem dcpAssignCase_frame {roster : Roster} {p : Principal} {now : Timestamp} {db db' : Db}
    {caseId : String} {holder : Assignee}
    (assigned : dcpAssignCase roster p now db caseId holder = .ok db') :
    db' = { db with assignments := db'.assignments } := by
  cases holder with
  | team team =>
    obtain ⟨one, first, rest⟩ := Lib.bind_ok_iff.mp assigned
    obtain ⟨two, second, third⟩ := Lib.bind_ok_iff.mp rest
    rw [insertAssignment_frame third, releaseAssignments_frame second,
      releaseAssignments_frame first]
  | person person =>
    obtain ⟨one, first, second⟩ := Lib.bind_ok_iff.mp assigned
    rw [insertAssignment_frame second, releaseAssignments_frame first]

/-- `dcp_bind_device`, at login. -/
def dcpBindDevice (db : Db) (deviceId person : String) : Db :=
  match db.devices.lookup deviceId with
  | some device =>
    { db with devices := db.devices.insert deviceId { device with userId := some person } }
  | none => db

/-- What happens to a deployment. A transaction that raises leaves nothing. -/
inductive FieldAct where
  | push (p : Principal) (req : PushRequest)
  | decide (p : Principal) (req : Quality.ReviewRequest)
  | assign (p : Principal) (now : Timestamp) (caseId : String) (holder : Assignee)
  | login (deviceId person : String)

def FieldAct.run (roster : Roster) (db : Db) : FieldAct → Db
  | .push p req =>
    match Sync.push (p.policies db) db req with
    | .ok (_, db') => db'
    | .error _ => db
  | .decide p req =>
    match Quality.decide (p.policies db) db req with
    | .ok (_, db') => db'
    | .error _ => db
  | .assign p now caseId holder =>
    match dcpAssignCase roster p now db caseId holder with
    | .ok db' => db'
    | .error _ => db
  | .login deviceId person => dcpBindDevice db deviceId person

def runField (roster : Roster) (db : Db) (acts : List FieldAct) : Db :=
  acts.foldl (FieldAct.run roster) db

end DataCollectionLab.Sync
