import DataCollectionLab.Submissions.Fold
import DataCollectionLab.Sync.Schemas

/-!
The tables `push` reads and writes, with the constraints the schema puts on them, and
row-level security as it reaches one session: predicates on the columns the policies read.
A SELECT returns the rows its policy shows; a write its policy does not admit raises.
-/

namespace DataCollectionLab.Sync

structure Device where
  projectId : String
  userId : Option String
  revokedAt : Option Timestamp := none
  lastCounter : Nat := 0
  lastSyncAt : Option Timestamp := none
  reportedPendingOps : Option Nat := none
  reportedAt : Option Timestamp := none

inductive EnvironmentKind where
  | production | staging | development
  deriving DecidableEq, Repr

structure Environment where
  id : String
  projectId : String
  kind : EnvironmentKind

structure Form where
  projectId : String
  formKey : String

structure FormVersion where
  formId : String
  version : Nat

structure ProjectKey where
  projectId : String
  revokedAt : Option Timestamp := none

/-- One row of `assignment`: a team's or a person's hold on a case. -/
structure Assignment where
  caseId : String
  userId : Option String
  teamId : Option String
  releasedAt : Option Timestamp := none
  deriving DecidableEq

structure Scope where
  projectId : String
  createdBy : Option String
  caseId : Option String
  deriving DecidableEq

structure Submission where
  projectId : String
  environmentId : String
  formVersionId : String
  caseId : Option String
  originDeviceId : String
  createdBy : Option String
  status : Status
  startedAt : Timestamp
  finalizedAt : Option Timestamp := none
  deriving DecidableEq

def Submission.scope (s : Submission) : Scope := ⟨s.projectId, s.createdBy, s.caseId⟩

/-- `submission_state`. -/
structure SubmissionState where
  data : Dict Json
  opHighWater : Nat

structure ContentKey where
  submissionId : String
  deviceId : String

structure WrappedKey where
  contentKeyId : String
  projectKeyId : String
  submissionId : String
  ephemeralPublic : Bytes
  nonce : Bytes
  wrappedKey : Bytes

/-- A deletion, carried in the pull stream. Its own id is a fresh ULID that nothing reads. -/
structure Tombstone where
  projectId : String
  subjectType : String
  subjectId : String
  submissionId : Option String
  path : Option String
  deviceId : Option String
  counter : Option Nat
  serverSeq : Nat
  deriving DecidableEq

structure Media where
  submissionId : String
  opId : Option String
  fieldPath : Option String

structure OutboxEvent where
  projectId : String
  topic : String
  submissionId : String
  opIds : List String
  pushedBy : String
  deriving DecidableEq

/-- `review.decision`, and what the review API takes for one. -/
inductive Decision where
  | approved | rejected | correctionRequired | comment
  deriving DecidableEq, Repr

/-- One row of `review`. -/
structure Review where
  submissionId : String
  reviewerId : String
  decision : Decision
  comment : Option String
  deriving DecidableEq

inductive DbError where
  | rowSecurity (table : String)
  | uniqueViolation (constraint : String)
  | foreignKeyViolation (constraint : String)
  deriving DecidableEq, Repr

/-! ### The op log and its unique constraints -/

/-- The unique constraints of `submission_op` that an insert can trip over. -/
inductive OpConstraint where
  | pkey | nonce | counter
  deriving DecidableEq, Repr

theorem none_clash : ([] : List SubmissionOp).Pairwise fun a b => ¬ a.Clash b := .nil

/-- `submission_op`: append-only, and no two rows share an id, a nonce or a counter. -/
structure OpLog where
  rows : List SubmissionOp
  unique : rows.Pairwise fun a b => ¬ a.Clash b

def sealedAs (envelope : Option (String × Bytes)) (row : SubmissionOp) : Bool :=
  envelope.isSome && row.envelope == envelope

/-- The index that refuses `row`, in the order the schema made them. -/
def OpLog.violation (log : OpLog) (row : SubmissionOp) : Option OpConstraint :=
  if log.rows.any (·.id == row.id) then some .pkey
  else if log.rows.any (sealedAs row.envelope) then some .nonce
  else if log.rows.any (·.slot == row.slot) then some .counter
  else none

theorem OpLog.violation_eq_none_iff {log : OpLog} {row : SubmissionOp} :
    log.violation row = none ↔ ∀ r ∈ log.rows, ¬ r.Clash row := by
  have sealed : ∀ r : SubmissionOp, sealedAs row.envelope r = true ↔
      ∃ s, r.envelope = some s ∧ row.envelope = some s := by
    intro r
    cases h : row.envelope <;> simp [sealedAs]
  unfold OpLog.violation
  constructor
  · intro h r member clash
    split at h
    · cases h
    · split at h
      · cases h
      · split at h
        · cases h
        · rename_i fresh unsealed slot
          rcases clash with same | same | same
          · exact fresh (List.any_eq_true.mpr ⟨r, member, by simp [same]⟩)
          · exact unsealed (List.any_eq_true.mpr ⟨r, member, (sealed r).mpr same⟩)
          · exact slot (List.any_eq_true.mpr ⟨r, member, by simp [same]⟩)
  · intro free
    have none_of : ∀ p : SubmissionOp → Bool, (∀ r, p r = true → r.Clash row) →
        ¬ log.rows.any p = true := by
      intro p clashes found
      obtain ⟨r, member, hit⟩ := List.any_eq_true.mp found
      exact free r member (clashes r hit)
    rw [if_neg (none_of _ fun r hit => Or.inl (by simpa using hit)),
      if_neg (none_of _ fun r hit => Or.inr (Or.inl ((sealed r).mp hit))),
      if_neg (none_of _ fun r hit => Or.inr (Or.inr (by simpa using hit)))]

def OpLog.insert (log : OpLog) (row : SubmissionOp) : Except OpConstraint OpLog :=
  match h : log.violation row with
  | some constraint => .error constraint
  | none => .ok ⟨log.rows ++ [row], by
      refine List.pairwise_append.mpr ⟨log.unique, List.pairwise_singleton _ _, ?_⟩
      intro r member new last
      obtain rfl := List.mem_singleton.mp last
      exact OpLog.violation_eq_none_iff.mp h r member⟩

structure Db where
  /-- Project to organisation. -/
  projects : Dict String := ∅
  environments : List Environment := []
  forms : Dict Form := ∅
  formVersions : Dict FormVersion := ∅
  /-- `case_record`: case to project. -/
  cases : Dict String := ∅
  assignments : List Assignment := []
  projectKeys : Dict ProjectKey := ∅
  devices : Dict Device := ∅
  submissions : Dict Submission := ∅
  contentKeys : Dict ContentKey := ∅
  wrappedKeys : List WrappedKey := []
  ops : OpLog := ⟨[], none_clash⟩
  states : Dict SubmissionState := ∅
  tombstones : List Tombstone := []
  media : Dict Media := ∅
  outbox : List OutboxEvent := []
  reviews : List Review := []
  /-- What `sync_stream_seq` hands out next. -/
  nextSeq : Nat := 1

/-- Row-level security as one session meets it: what USING shows it and what WITH CHECK lets
it write. The tables under a submission show a row exactly when its submission is shown. -/
structure Policies where
  seesProject : String → Bool
  seesDevice : (projectId : String) → (userId : Option String) → Bool
  writesDevice : (projectId : String) → (userId : Option String) → Bool
  seesSubmission : Scope → Bool
  writesSubmission : Scope → Bool
  /-- `dcp_has('submission.review')`. -/
  writesReview : Bool

def Policies.unrestricted : Policies where
  seesProject _ := true
  seesDevice _ _ := true
  writesDevice _ _ := true
  seesSubmission _ := true
  writesSubmission _ := true
  writesReview := true

namespace Policies

variable (pol : Policies) (db : Db)

def device (id : String) : Option Device :=
  (db.devices.lookup id).filter fun d => pol.seesDevice d.projectId d.userId

def submission (id : String) : Option Submission :=
  (db.submissions.lookup id).filter fun s => pol.seesSubmission s.scope

def shows (submissionId : String) : Bool := (pol.submission db submissionId).isSome

/-- INSERT INTO submission. The ORM reads the new row back, so both sides of the policy apply,
and they apply before the primary key and the foreign key are looked at. -/
def insertSubmission (id : String) (row : Submission) : Except DbError Db :=
  if !(pol.writesSubmission row.scope && pol.seesSubmission row.scope) then
    .error (.rowSecurity "submission")
  else if (db.submissions.lookup id).isSome then .error (.uniqueViolation "submission_pkey")
  else if row.caseId.any fun c => (db.cases.lookup c).isNone then
    .error (.foreignKeyViolation "submission_case_id_fkey")
  else .ok { db with submissions := db.submissions.insert id row }

end Policies

end DataCollectionLab.Sync
