import DataCollectionLab.Sync.Store

/-!
`decide`: a reviewer's decision is appended to `review` and the status moves through the
machine, in one transaction.
-/

namespace DataCollectionLab.Quality

open Sync

def returnsWork : Decision → Bool
  | .rejected | .correctionRequired => true
  | .approved | .comment => false

/-- `_EVENT`. -/
def eventOf : Decision → Event
  | .approved => .approve
  | .rejected => .reject
  | .correctionRequired => .requestCorrection
  | .comment => .comment

/-- The characters `str.strip` takes away. -/
def isSpace (c : Char) : Bool :=
  let n := c.toNat
  (9 ≤ n && n ≤ 13) || (28 ≤ n && n ≤ 32) || n == 0x85 || n == 0xa0 || n == 0x1680 ||
    (0x2000 ≤ n && n ≤ 0x200a) || n == 0x2028 || n == 0x2029 || n == 0x202f || n == 0x205f ||
    n == 0x3000

/-- `not (comment or "").strip()`. -/
def blank (comment : Option String) : Bool := (comment.getD "").toList.all isSpace

inductive RefusalReason where
  | notFound | reasonRequired | notAllowed
  deriving DecidableEq, Repr

/-- `ReviewRefused`, or an error of the database. -/
inductive ReviewError where
  | refused (reason : RefusalReason) (message : String)
  | database (error : DbError)

/-- `Recorded`, without the fresh id of the review. -/
structure Recorded where
  status : Status
  returnsWork : Bool

/-- The arguments of `decide`. -/
structure ReviewRequest where
  submissionId : String
  reviewerId : String
  decision : Decision
  comment : Option String := none

/-- What `decide` settles on the status it read, before it writes. -/
def ReviewRequest.moves (req : ReviewRequest) (current : Status) : Except ReviewError Status :=
  if returnsWork req.decision && blank req.comment then
    .error (.refused .reasonRequired ("Say what needs correcting. Work sent back without a " ++
      "reason arrives as a repeat of the same visit."))
  else match nextStatus current (eventOf req.decision) with
    | .error refusal => .error (.refused .notAllowed refusal.message)
    | .ok moved => .ok moved

def ReviewRequest.review (req : ReviewRequest) : Review :=
  ⟨req.submissionId, req.reviewerId, req.decision, req.comment⟩

/-- `decide`. An UPDATE touches the rows its session is shown; the new row must pass the check. -/
def decide (pol : Policies) (db : Db) (req : ReviewRequest) : Except ReviewError (Recorded × Db) :=
  match pol.submission db req.submissionId with
  | none => .error (.refused .notFound "No such submission, or not one you may review.")
  | some submission => do
    let moved ← req.moves submission.status
    let recorded : Recorded := ⟨moved, returnsWork req.decision⟩
    if !pol.writesReview then throw (.database (.rowSecurity "review"))
    else
      let db := { db with reviews := db.reviews ++ [req.review] }
      if moved = submission.status then return (recorded, db)
      else if pol.writesSubmission submission.scope then
        let row := { submission with status := moved }
        return (recorded, { db with submissions := db.submissions.insert req.submissionId row })
      else throw (.database (.rowSecurity "submission"))

theorem decide_ok {pol : Policies} {db : Db} {req : ReviewRequest} {recorded : Recorded} {db' : Db}
    (decided : decide pol db req = .ok (recorded, db')) :
    ∃ submission moved, db.submissions.lookup req.submissionId = some submission ∧
      pol.seesSubmission submission.scope = true ∧
      req.moves submission.status = .ok moved ∧ recorded = ⟨moved, returnsWork req.decision⟩ ∧
      ∃ submissions,
        db' = { db with reviews := db.reviews ++ [req.review], submissions := submissions } ∧
        submissions.lookup req.submissionId = some { submission with status := moved } ∧
        ∀ id, id ≠ req.submissionId → submissions.lookup id = db.submissions.lookup id := by
  unfold decide at decided
  split at decided
  · cases decided
  · rename_i submission shown
    obtain ⟨found, sees⟩ := Option.filter_eq_some_iff.mp shown
    cases moves : req.moves submission.status with
    | error e => rw [moves] at decided; cases decided
    | ok moved =>
      rw [moves] at decided
      replace decided : (if !pol.writesReview then _ else _) = Except.ok (recorded, db') := decided
      refine ⟨submission, moved, found, sees, moves, ?_⟩
      split at decided
      · cases decided
      · split at decided
        · rename_i same
          cases decided
          refine ⟨rfl, db.submissions, rfl, ?_, fun _ _ => rfl⟩
          rw [found, same]
        · split at decided
          · cases decided
            refine ⟨rfl, _, rfl, AList.lookup_insert _, fun id apart => ?_⟩
            exact AList.lookup_insert_ne apart
          · cases decided

end DataCollectionLab.Quality
