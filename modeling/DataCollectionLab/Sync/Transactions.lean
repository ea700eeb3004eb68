import DataCollectionLab.Lib.Runs
import DataCollectionLab.Quality.Review
import DataCollectionLab.Sync.Pull
import DataCollectionLab.Sync.Push

/-!
Pushes, decisions and pulls side by side, statement by statement, under READ COMMITTED. A
statement sees what is committed and what its own transaction wrote; a write becomes visible at
commit. A write that meets an uncommitted write of the same row or key waits: here it is not
enabled until the other transaction is over.
-/

namespace DataCollectionLab.Sync

/-- One transaction: what it has read, and what it has written and nobody else sees. -/
structure Tx where
  /-- The status of each submission when it was loaded. -/
  seen : String → Option Status := fun _ => none
  ops : List SubmissionOp := []
  tombstones : List Tombstone := []
  /-- The fold of each submission whose log has been read. -/
  folds : String → Option Fold := fun _ => none
  /-- Set by the first of them. -/
  folding : Bool := false
  states : String → Option (Dict Json) := fun _ => none
  statuses : String → Option Status := fun _ => none

structure Client where
  cursor : Nat := 0
  held : List SubmissionOp := []

structure Server where
  ops : List SubmissionOp := []
  tombstones : List Tombstone := []
  /-- `submission_state.data`. -/
  states : String → Option (Dict Json) := fun _ => none
  /-- `submission.status`. -/
  statuses : String → Option Status := fun _ => none
  /-- What `sync_stream_seq` hands out next, committed or not. -/
  nextSeq : Nat := 1
  txs : AList (fun _ : Nat => Tx) := ∅
  nextTx : Nat := 0
  client : Client := {}

def Server.atRest (db : Db) : Server where
  ops := db.ops.rows
  tombstones := db.tombstones
  states := fun id => (db.states.lookup id).map (·.data)
  statuses := fun id => (db.submissions.lookup id).map (·.status)
  nextSeq := db.nextSeq

/-- The statements of `push` and of `decide` that read or write what the transactions share. -/
inductive Statement where
  /-- SELECT of a submission, at the head of `push` and of `decide`. -/
  | load (id : String)
  /-- INSERT INTO submission, for the op that opens it. -/
  | opens (id : String)
  /-- INSERT INTO submission_op, in `_insert_ops`. -/
  | insertOp (row : SubmissionOp)
  | insertTombstone (row : Tombstone)
  /-- SELECT of the log, in `_fold_submission`. -/
  | foldLog (id : String)
  /-- UPDATE of the status, when `_fold_submission` is flushed. -/
  | updateStatus (id : String)
  /-- INSERT … ON CONFLICT DO UPDATE INTO submission_state. -/
  | upsertState (id : String)
  /-- UPDATE of the status in `decide`. -/
  | decides (req : Quality.ReviewRequest)

inductive Action where
  | start
  | exec (t : Nat) (statement : Statement)
  | commit (t : Nat)
  | abort (t : Nat)
  /-- A pull and its `applyPullBatch`. -/
  | pull (limit : Nat)

instance : DecidableRel SubmissionOp.Clash := fun a b =>
  decidable_of_iff (a.id = b.id ∨ (a.envelope.isSome = true ∧ b.envelope = a.envelope) ∨ a.slot = b.slot)
    (by
      unfold SubmissionOp.Clash
      cases a.envelope with
      | none => simp
      | some e => simp)

namespace Server

variable (s : Server)

def Alone (t : Nat) (blocks : Tx → Prop) : Prop :=
  ∀ entry ∈ s.txs.entries, entry.1 ≠ t → ¬ blocks entry.2

instance (t : Nat) (blocks : Tx → Prop) [DecidablePred blocks] : Decidable (s.Alone t blocks) :=
  inferInstanceAs (Decidable (∀ entry ∈ s.txs.entries, entry.1 ≠ t → ¬ blocks entry.2))

theorem alone_iff {s : Server} {t : Nat} {blocks : Tx → Prop} :
    s.Alone t blocks ↔ ∀ other tx, other ≠ t → s.txs.lookup other = some tx → ¬ blocks tx := by
  constructor
  · intro alone other tx apart found
    exact alone ⟨other, tx⟩ (AList.mem_lookup_iff.mp found) apart
  · intro alone entry member apart
    exact alone entry.1 entry.2 apart (AList.mem_lookup_iff.mpr member)

end Server

namespace Tx

variable (tx : Tx)

def statusDue (id : String) : Option Status := do
  let fold ← tx.folds id
  let seen ← tx.seen id
  let event ← eventForFolded fold.status
  match nextStatus seen event with
  | .ok status => if status = seen then none else some status
  | .error _ => none

def Ready : Prop :=
  ∀ op ∈ tx.ops, (tx.states op.submissionId).isSome = true ∧
    (tx.statusDue op.submissionId = none ∨
      tx.statusDue op.submissionId = tx.statuses op.submissionId)

instance : Decidable tx.Ready :=
  inferInstanceAs (Decidable (∀ op ∈ tx.ops, (tx.states op.submissionId).isSome = true ∧
    (tx.statusDue op.submissionId = none ∨
      tx.statusDue op.submissionId = tx.statuses op.submissionId)))

end Tx

/-- One statement of transaction `t`: the transaction after it, and the sequence. `none` is a
statement that waits, or one the code does not issue here. -/
def Statement.exec (s : Server) (t : Nat) (tx : Tx) : Statement → Option (Tx × Nat)
  | .load id =>
    some ({ tx with seen := Function.update tx.seen id ((tx.statuses id).or (s.statuses id)) },
      s.nextSeq)
  | .opens id =>
    if s.statuses id = none ∧ tx.statuses id = none ∧
        s.Alone t (fun other => (other.statuses id).isSome = true) then
      some ({ tx with
        seen := Function.update tx.seen id (some .draft)
        statuses := Function.update tx.statuses id (some .draft) }, s.nextSeq)
    else none
  | .insertOp row =>
    if (tx.seen row.submissionId).any (fun status => !status.closed) ∧ tx.folding = false ∧
        s.Alone t (fun other => ∃ r ∈ other.ops, r.Clash row) then
      -- A row the index refuses has drawn its number all the same.
      if ∃ r ∈ s.ops ++ tx.ops, r.Clash row then some (tx, s.nextSeq + 1)
      else some ({ tx with ops := tx.ops ++ [{ row with serverSeq := s.nextSeq }] }, s.nextSeq + 1)
    else none
  | .insertTombstone row =>
    some ({ tx with tombstones := tx.tombstones ++ [{ row with serverSeq := s.nextSeq }] },
      s.nextSeq + 1)
  | .foldLog id =>
    if ∃ op ∈ tx.ops, op.submissionId = id then
      some ({ tx with
        folds := Function.update tx.folds id (some (foldOps (orderedLog (s.ops ++ tx.ops) id)))
        folding := true }, s.nextSeq)
    else none
  | .updateStatus id =>
    match tx.statusDue id with
    | some status =>
      if s.Alone t (fun other => (other.statuses id).isSome = true) then
        some ({ tx with statuses := Function.update tx.statuses id (some status) }, s.nextSeq)
      else none
    | none => none
  | .upsertState id =>
    match tx.folds id with
    | some fold =>
      if s.Alone t (fun other => (other.states id).isSome = true) then
        some ({ tx with states := Function.update tx.states id (some fold.data) }, s.nextSeq)
      else none
    | none => none
  | .decides req =>
    match tx.seen req.submissionId with
    | some current =>
      match req.moves current with
      | .ok moved =>
        if moved = current then some (tx, s.nextSeq)
        else if s.Alone t (fun other => (other.statuses req.submissionId).isSome = true) then
          some ({ tx with statuses := Function.update tx.statuses req.submissionId (some moved) },
            s.nextSeq)
        else none
      | .error _ => none
    | none => none

inductive Statement.Effect (s : Server) (t : Nat) (tx : Tx) : Statement → Tx → Nat → Prop where
  | load (id : String) : Effect s t tx (.load id)
      { tx with seen := Function.update tx.seen id ((tx.statuses id).or (s.statuses id)) } s.nextSeq
  | opens {id : String} (absent : s.statuses id = none) (unopened : tx.statuses id = none)
      (alone : s.Alone t fun other => (other.statuses id).isSome = true) :
      Effect s t tx (.opens id)
        { tx with
          seen := Function.update tx.seen id (some .draft)
          statuses := Function.update tx.statuses id (some .draft) } s.nextSeq
  | refused (row : SubmissionOp) : Effect s t tx (.insertOp row) tx (s.nextSeq + 1)
  | insertOp {row : SubmissionOp} {status : Status} (seen : tx.seen row.submissionId = some status)
      (admits : status.closed = false) (early : tx.folding = false) :
      Effect s t tx (.insertOp row)
        { tx with ops := tx.ops ++ [{ row with serverSeq := s.nextSeq }] } (s.nextSeq + 1)
  | insertTombstone (row : Tombstone) : Effect s t tx (.insertTombstone row)
      { tx with tombstones := tx.tombstones ++ [{ row with serverSeq := s.nextSeq }] }
      (s.nextSeq + 1)
  | foldLog {id : String} (touched : ∃ op ∈ tx.ops, op.submissionId = id) :
      Effect s t tx (.foldLog id)
        { tx with
          folds := Function.update tx.folds id (some (foldOps (orderedLog (s.ops ++ tx.ops) id)))
          folding := true } s.nextSeq
  | updateStatus {id : String} {status : Status} (due : tx.statusDue id = some status)
      (alone : s.Alone t fun other => (other.statuses id).isSome = true) :
      Effect s t tx (.updateStatus id)
        { tx with statuses := Function.update tx.statuses id (some status) } s.nextSeq
  | upsertState {id : String} {fold : Fold} (read : tx.folds id = some fold)
      (alone : s.Alone t fun other => (other.states id).isSome = true) :
      Effect s t tx (.upsertState id)
        { tx with states := Function.update tx.states id (some fold.data) } s.nextSeq
  | stands (req : Quality.ReviewRequest) : Effect s t tx (.decides req) tx s.nextSeq
  | decides {req : Quality.ReviewRequest} {current moved : Status}
      (seen : tx.seen req.submissionId = some current) (moves : req.moves current = .ok moved)
      (changed : moved ≠ current)
      (alone : s.Alone t fun other => (other.statuses req.submissionId).isSome = true) :
      Effect s t tx (.decides req)
        { tx with statuses := Function.update tx.statuses req.submissionId (some moved) } s.nextSeq

theorem Statement.effect_of_exec {s : Server} {t : Nat} {tx tx' : Tx} {seq : Nat}
    {statement : Statement} (ran : statement.exec s t tx = some (tx', seq)) :
    Effect s t tx statement tx' seq := by
  cases statement with
  | load id =>
    cases ran
    exact .load id
  | opens id =>
    simp only [Statement.exec] at ran
    split at ran
    · rename_i guards
      cases ran
      exact .opens guards.1 guards.2.1 guards.2.2
    · cases ran
  | insertOp row =>
    simp only [Statement.exec] at ran
    split at ran
    · rename_i guards
      obtain ⟨status, seen, admits⟩ := (Option.any_eq_true _ _).mp guards.1
      split at ran
      · cases ran
        exact .refused row
      · cases ran
        exact .insertOp seen (by simpa using admits) guards.2.1
    · cases ran
  | insertTombstone row =>
    cases ran
    exact .insertTombstone row
  | foldLog id =>
    simp only [Statement.exec] at ran
    split at ran
    · rename_i touched
      cases ran
      exact .foldLog touched
    · cases ran
  | updateStatus id =>
    simp only [Statement.exec] at ran
    cases due : tx.statusDue id with
    | none => simp [due] at ran
    | some status =>
      simp only [due] at ran
      split at ran
      · rename_i alone
        cases ran
        exact .updateStatus due alone
      · cases ran
  | upsertState id =>
    simp only [Statement.exec] at ran
    cases read : tx.folds id with
    | none => simp [read] at ran
    | some fold =>
      simp only [read] at ran
      split at ran
      · rename_i alone
        cases ran
        exact .upsertState read alone
      · cases ran
  | decides req =>
    simp only [Statement.exec] at ran
    cases seen : tx.seen req.submissionId with
    | none => simp [seen] at ran
    | some current =>
      cases moves : req.moves current with
      | error e => simp [seen, moves] at ran
      | ok moved =>
        simp only [seen, moves] at ran
        split at ran
        · cases ran
          exact .stands req
        · split at ran
          · rename_i changed alone
            cases ran
            exact .decides seen moves changed alone
          · cases ran

namespace Server

variable (s : Server)

def publish (t : Nat) (tx : Tx) : Server :=
  { s with
    ops := s.ops ++ tx.ops
    tombstones := s.tombstones ++ tx.tombstones
    states := fun id => (tx.states id).or (s.states id)
    statuses := fun id => (tx.statuses id).or (s.statuses id)
    txs := s.txs.erase t }

/-- `pull`, and `applyPullBatch` on its answer: the ops and the cursor in one transaction. -/
def pulled (limit : Nat) : Server :=
  let page := page s.ops s.tombstones s.client.cursor limit
  { s with client :=
    { cursor := page.nextCursor
      held := s.client.held ++ page.batch.filterMap StreamRow.op? } }

def step : Action → Option Server
  | .start => some { s with txs := s.txs.insert s.nextTx {}, nextTx := s.nextTx + 1 }
  | .exec t statement =>
    match s.txs.lookup t with
    | some tx => (statement.exec s t tx).map fun result =>
        { s with txs := s.txs.insert t result.1, nextSeq := result.2 }
    | none => none
  | .commit t =>
    match s.txs.lookup t with
    | some tx => if tx.Ready then some (s.publish t tx) else none
    | none => none
  | .abort t => some { s with txs := s.txs.erase t }
  | .pull limit => some (s.pulled limit)

inductive Effect (s : Server) : Action → Server → Prop where
  | start : Effect s .start { s with txs := s.txs.insert s.nextTx {}, nextTx := s.nextTx + 1 }
  | exec {t : Nat} {tx tx' : Tx} {statement : Statement} {seq : Nat}
      (mine : s.txs.lookup t = some tx) (ran : statement.exec s t tx = some (tx', seq)) :
      Effect s (.exec t statement) { s with txs := s.txs.insert t tx', nextSeq := seq }
  | commit {t : Nat} {tx : Tx} (mine : s.txs.lookup t = some tx) (ready : tx.Ready) :
      Effect s (.commit t) (s.publish t tx)
  | abort (t : Nat) : Effect s (.abort t) { s with txs := s.txs.erase t }
  | pull (limit : Nat) : Effect s (.pull limit) (s.pulled limit)

theorem effect_of_step {s s' : Server} {action : Action} (stepped : s.step action = some s') :
    Effect s action s' := by
  cases action with
  | start =>
    cases stepped
    exact .start
  | exec t statement =>
    unfold step at stepped
    cases mine : s.txs.lookup t with
    | none => simp [mine] at stepped
    | some tx =>
      simp only [mine, Option.map_eq_some_iff] at stepped
      obtain ⟨⟨tx', seq⟩, ran, rfl⟩ := stepped
      exact .exec mine ran
  | commit t =>
    unfold step at stepped
    cases mine : s.txs.lookup t with
    | none => simp [mine] at stepped
    | some tx =>
      simp only [mine] at stepped
      split at stepped
      · rename_i ready
        cases stepped
        exact .commit mine ready
      · cases stepped
  | abort t =>
    cases stepped
    exact .abort t
  | pull limit =>
    cases stepped
    exact .pull limit

end Server

end DataCollectionLab.Sync
