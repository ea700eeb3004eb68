import DataCollectionLab.Quality.Review
import DataCollectionLab.Sync.Log
import DataCollectionLab.Sync.Convergence

/-!
Work sent back. A push reads the device's event off the net of the whole log, so a submission that
waits for a correction leaves that state whenever a push adds to a log that ends in a finalize,
the one before the decision included.
-/

namespace DataCollectionLab.Sync

/-- The transactions of a sequential run: a call that raises leaves nothing. -/
inductive Act where
  | push (pol : Policies) (req : PushRequest)
  | decide (pol : Policies) (req : Quality.ReviewRequest)

def Act.run (db : Db) : Act → Db
  | .push pol req =>
    match Sync.push pol db req with
    | .ok (_, db') => db'
    | .error _ => db
  | .decide pol req =>
    match Quality.decide pol db req with
    | .ok (_, db') => db'
    | .error _ => db

def runActs (db : Db) (acts : List Act) : Db := acts.foldl Act.run db

theorem Act.log_grows {db : Db} (act : Act) {row : SubmissionOp} (stored : row ∈ db.ops.rows) :
    row ∈ (act.run db).ops.rows := by
  cases act with
  | push pol req =>
    cases returned : Sync.push pol db req with
    | error e => simpa only [Act.run, returned] using stored
    | ok result =>
      simpa only [Act.run, returned] using Call.log_grows ⟨pol, db, req⟩ returned stored
  | decide pol req =>
    cases decided : Quality.decide pol db req with
    | error e => simpa only [Act.run, decided] using stored
    | ok result =>
      obtain ⟨_, _, -, -, -, -, _, same, -⟩ := Quality.decide_ok decided
      simpa only [Act.run, decided, same] using stored

theorem runActs_log_grows {db : Db} (acts : List Act) {row : SubmissionOp}
    (stored : row ∈ db.ops.rows) : row ∈ (runActs db acts).ops.rows := by
  induction acts generalizing db with
  | nil => exact stored
  | cons act acts ih => exact ih (act.log_grows stored)

theorem applyFolded_owed {submission : Submission} (owed : submission.status = .correctionRequired)
    (folded : Fold) : (applyFolded submission folded).status =
      if folded.status = some .finalized then .finalized else .correctionRequired := by
  unfold applyFolded
  rw [owed]
  cases said : folded.status with
  | none => exact owed
  | some status => cases status <;> rfl

namespace Call

variable (c : Call)

theorem stores_new {op : SyncOp} (stores : c.Stores op) (n : Nat) :
    { op.row c.lastAttributed with serverSeq := n } ∉ c.db.ops.rows := by
  intro stored
  have free := OpLog.violation_eq_none_iff.mp stores.2
  exact free _ stored (Or.inl rfl)

/-- What the push stores of `id` has a finalize in it, or leaves a log that does not end in one:
it did not before, or a reopen comes after the last. -/
def Resubmits (id : String) : Prop :=
  (∀ op ∈ c.ops, c.Stores op → op.submissionId ≠ id) ∨
    (∃ op ∈ c.ops, c.Stores op ∧ op.submissionId = id ∧ op.kind = .finalize) ∨
    (c.db.fold id).status ≠ some .finalized ∨
    ∃ op ∈ c.ops, c.Stores op ∧ op.submissionId = id ∧ op.kind = .reopen ∧
      ∀ row ∈ c.db.ops.rows, row.submissionId = id → row.opKind = .finalize →
        OpLe row (op.row none)

variable {c} {response : PushResponse} {final : Db}
  (returned : push c.pol c.db c.req = .ok (response, final)) {id : String}
include returned

theorem final_net (quiet : ∀ op ∈ c.ops, c.Stores op → op.submissionId = id → op.kind ≠ .finalize) :
    (final.fold id).status = some .finalized ↔ (c.db.fold id).status = some .finalized ∧
      ∀ op ∈ c.ops, c.Stores op → op.submissionId = id → op.kind = .reopen →
        ∃ row ∈ c.db.ops.rows, row.submissionId = id ∧ row.opKind = .finalize ∧
          ¬ OpLe row (op.row none) := by
  have finalizes : ∀ row : SubmissionOp, statusSaid row = some .finalized ↔ row.opKind = .finalize := by
    intro row
    unfold statusSaid
    cases row.opKind <;> simp
  have speaks : ∀ row : SubmissionOp, (statusSaid row).isSome = true →
      row.opKind = .finalize ∨ row.opKind = .reopen := by
    intro row
    unfold statusSaid
    cases row.opKind <;> simp
  constructor
  · intro net
    obtain ⟨top, stored, on, said, above⟩ := Db.fold_status_said net
    have kind := (finalizes top).mp said
    have old : top ∈ c.db.ops.rows := by
      rcases c.mem_push_log returned stored with old | ⟨op, inBatch, stores, n, -, rfl⟩
      · exact old
      · exact absurd kind (quiet op inBatch stores on)
    constructor
    · subst on
      rw [Db.fold_status_of_last old (by rw [said]; rfl) fun row' stored' on' =>
        above row' (c.log_grows returned stored') on', said]
    · intro op inBatch stores mine reopens
      refine ⟨top, old, on, kind, fun below => ?_⟩
      obtain ⟨n, -, new⟩ := c.exists_row returned inBatch stores
      have ahead := above _ new mine (by simp [statusSaid, SyncOp.row, reopens])
      have slots : top.slot = op.slot := slot_of_opLe below ahead
      have same := final.ops.eq_of_clash stored new (Or.inr (Or.inr slots))
      rw [same] at kind
      exact absurd (reopens.symm.trans kind) (by decide)
  · rintro ⟨net, reopens⟩
    obtain ⟨top, stored, on, said, above⟩ := Db.fold_status_said net
    subst on
    rw [Db.fold_status_of_last (c.log_grows returned stored) (by rw [said]; rfl) ?_, said]
    intro row' stored' on' said'
    rcases c.mem_push_log returned stored' with old | ⟨op, inBatch, stores, n, -, rfl⟩
    · exact above row' old on' said'
    · rcases speaks _ said' with finalize | reopen
      · exact absurd finalize (quiet op inBatch stores on')
      · obtain ⟨ahead, present, mine, kind, beyond⟩ := reopens op inBatch stores on' reopen
        have below : OpLe (op.row none) ahead := (Std.Total.total ahead _).resolve_left beyond
        have top' := above ahead present mine (by rw [(finalizes ahead).mpr kind]; rfl)
        exact IsTrans.trans _ _ _ below top'

/-- A push finishes a submission that waits for a correction exactly when it stores an op of it
and leaves a log that ends in a finalize. -/
theorem owed_status {row : Submission} (found : c.db.submissions.lookup id = some row)
    (owed : row.status = .correctionRequired) :
    ∃ row', final.submissions.lookup id = some row' ∧ row'.status =
      if (∃ op ∈ c.ops, c.Stores op ∧ op.submissionId = id) ∧
        (final.fold id).status = some .finalized then .finalized else .correctionRequired := by
  refine ⟨_, c.push_lookup returned found, ?_⟩
  simp only [← c.mem_touched_stored]
  by_cases hit : id ∈ touched c.stored
  · simp only [hit, if_true, true_and, applyFolded_owed owed]
  · simp only [hit, if_false, false_and, owed]

theorem resubmitted_iff {row row' : Submission} (found : c.db.submissions.lookup id = some row)
    (owed : row.status = .correctionRequired) (found' : final.submissions.lookup id = some row') :
    (row'.status = .finalized → ∃ op ∈ final.ops.rows, op.submissionId = id ∧
      op.opKind = .finalize ∧ op ∉ c.db.ops.rows) ↔ c.Resubmits id := by
  obtain ⟨_, last, status⟩ := c.owed_status returned found owed
  cases found'.symm.trans last
  constructor
  · intro kept
    by_cases touches : ∃ op ∈ c.ops, c.Stores op ∧ op.submissionId = id
    · by_cases resubmits : ∃ op ∈ c.ops, c.Stores op ∧ op.submissionId = id ∧ op.kind = .finalize
      · exact Or.inr (Or.inl resubmits)
      · have quiet : ∀ op ∈ c.ops, c.Stores op → op.submissionId = id → op.kind ≠ .finalize :=
          fun op member stores on kind => resubmits ⟨op, member, stores, on, kind⟩
        have open' : (final.fold id).status ≠ some .finalized := by
          intro net
          rw [if_pos ⟨touches, net⟩] at status
          obtain ⟨row, stored, on, kind, new⟩ := kept status
          rcases c.mem_push_log returned stored with old | ⟨op, inBatch, stores, n, -, rfl⟩
          · exact new old
          · exact quiet op inBatch stores on kind
        rw [Ne, c.final_net returned quiet, not_and_or] at open'
        rcases open' with net | reopened
        · exact Or.inr (Or.inr (Or.inl net))
        · push Not at reopened
          obtain ⟨op, member, stores, on, kind, after⟩ := reopened
          exact Or.inr (Or.inr (Or.inr ⟨op, member, stores, on, kind, after⟩))
    · exact Or.inl fun op member stores on => touches ⟨op, member, stores, on⟩
  · intro resubmits moved
    rw [moved] at status
    have ⟨touches, net⟩ : (∃ op ∈ c.ops, c.Stores op ∧ op.submissionId = id) ∧
        (final.fold id).status = some .finalized := by
      by_contra not
      rw [if_neg not] at status
      cases status
    by_cases again : ∃ op ∈ c.ops, c.Stores op ∧ op.submissionId = id ∧ op.kind = .finalize
    · obtain ⟨op, member, stores, on, kind⟩ := again
      obtain ⟨n, -, stored⟩ := c.exists_row returned member stores
      exact ⟨_, stored, on, kind, c.stores_new stores n⟩
    · have quiet : ∀ op ∈ c.ops, c.Stores op → op.submissionId = id → op.kind ≠ .finalize :=
        fun op member stores on kind => again ⟨op, member, stores, on, kind⟩
      obtain ⟨before, reopens⟩ := (c.final_net returned quiet).mp net
      rcases resubmits with none | again' | open' | ⟨op, member, stores, on, kind, after⟩
      · obtain ⟨op, member, stores, on⟩ := touches
        exact absurd on (none op member stores)
      · exact absurd again' again
      · exact absurd before open'
      · obtain ⟨row, stored, mine, finalize, beyond⟩ := reopens op member stores on kind
        exact absurd (after row stored mine finalize) beyond

end Call

/-- Along a run, a push that finishes a submission which waits for a correction stores a finalize
of it that no earlier log has; one that stores edits only leaves it waiting. -/
def StaysOwed (start : Db) (acts : List Act) (id : String) : Prop :=
  ∀ earlier pol req later, acts = earlier ++ .push pol req :: later →
    ∀ response final, push pol (runActs start earlier) req = .ok (response, final) →
      ∀ row row', (runActs start earlier).submissions.lookup id = some row →
        final.submissions.lookup id = some row' → row.status = .correctionRequired →
          (row'.status = .finalized → ∃ op ∈ final.ops.rows, op.submissionId = id ∧
            op.opKind = .finalize ∧ ∀ past, past <+: earlier → op ∉ (runActs start past).ops.rows) ∧
          ((∀ op ∈ final.ops.rows, op.submissionId = id → op ∉ (runActs start earlier).ops.rows →
            op.opKind ≠ .finalize ∧ op.opKind ≠ .reopen) → row'.status = .correctionRequired)

/-- Work sent back stays owed in the runs whose pushes resubmit what they finish, and in no
other. -/
theorem stays_owed_iff (start : Db) (acts : List Act) (id : String) :
    StaysOwed start acts id ↔
      ∀ earlier pol req later, acts = earlier ++ .push pol req :: later →
        ∀ response final, push pol (runActs start earlier) req = .ok (response, final) →
          ∀ row, (runActs start earlier).submissions.lookup id = some row →
            row.status = .correctionRequired →
              Call.Resubmits ⟨pol, runActs start earlier, req⟩ id := by
  constructor
  · intro stays earlier pol req later split response final returned row found owed
    let c : Call := ⟨pol, runActs start earlier, req⟩
    obtain ⟨row', found', -⟩ := c.owed_status returned found owed
    refine (c.resubmitted_iff returned found owed found').mp fun moved => ?_
    obtain ⟨first, -⟩ :=
      stays earlier pol req later split response final returned row row' found found' owed
    obtain ⟨op, stored, on, kind, new⟩ := first moved
    exact ⟨op, stored, on, kind, new earlier (List.prefix_refl _)⟩
  · intro resubmits earlier pol req later split response final returned row row' found found' owed
    let c : Call := ⟨pol, runActs start earlier, req⟩
    have meets := resubmits earlier pol req later split response final returned row found owed
    have finished := (c.resubmitted_iff returned found owed found').mpr meets
    constructor
    · intro moved
      obtain ⟨op, stored, on, kind, new⟩ := finished moved
      refine ⟨op, stored, on, kind, ?_⟩
      rintro past ⟨rest, rfl⟩ known
      apply new
      show op ∈ (runActs start (past ++ rest)).ops.rows
      rw [runActs, List.foldl_append]
      exact runActs_log_grows rest known
    · intro edits
      obtain ⟨_, last, status⟩ := c.owed_status returned found owed
      cases found'.symm.trans last
      rw [status, if_neg]
      intro both
      rw [if_pos both] at status
      obtain ⟨op, stored, on, kind, new⟩ := finished status
      exact (edits op stored on new).1 kind

def lateEdit : List Act :=
  [.push .unrestricted (carrying "d1" "u1" [finalizeOp "o1" "s1" "d1" 1 1]),
    .decide .unrestricted ⟨"s1", "u3", .correctionRequired, some "Ask again."⟩,
    .push .unrestricted (carrying "d2" "u2" [answerOp "o2" "s1" "d2" 1])]

set_option maxRecDepth 10000 in
/-- The edit alone takes the submission out of the reviewer's hands. -/
theorem lateEdit_finishes : ¬ StaysOwed twoDevices lateEdit "s1" := by
  intro stays
  obtain ⟨-, edits⟩ := stays (lateEdit.take 2) _ _ [] rfl _ _ rfl _ _ rfl rfl rfl
  refine absurd (edits ?_) (by decide)
  intro op stored _ new
  replace stored : op ∈ [_, _] := stored
  rcases List.mem_pair.mp stored with rfl | rfl
  · exact absurd List.mem_cons_self new
  · decide

end DataCollectionLab.Sync
