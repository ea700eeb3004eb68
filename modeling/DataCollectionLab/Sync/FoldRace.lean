import DataCollectionLab.Sync.Convergence
import DataCollectionLab.Sync.Transactions

/-!
The stored fold under concurrency. A push reads the whole log of a submission and later overwrites
one row of `submission_state`; nothing holds the submission in between. The row is the fold of the
log as long as no two pushes stand between the two at once.
-/

namespace DataCollectionLab.Sync

def Server.FoldKept (s : Server) : Prop :=
  ∀ op ∈ s.ops, s.states op.submissionId =
    some (foldOps (orderedLog s.ops op.submissionId)).data

def FoldsApart (s : Server) : Action → Prop
  | .exec t (.foldLog id) => s.Alone t fun other => (other.folds id).isSome = true
  | _ => True

instance (s : Server) : DecidablePred (FoldsApart s) := fun action => by
  unfold FoldsApart
  split <;> infer_instance

theorem orderedLog_append {rows new : List SubmissionOp} {id : String}
    (none : ∀ row ∈ new, row.submissionId ≠ id) : orderedLog (rows ++ new) id = orderedLog rows id := by
  have quiet : new.filter (·.submissionId == id) = [] := by
    rw [List.filter_eq_nil_iff]
    intro row member
    simpa using none row member
  unfold orderedLog
  rw [List.filter_append, quiet, List.append_nil]

theorem orderedLog_insert {rows middle new : List SubmissionOp} {id : String}
    (none : ∀ row ∈ middle, row.submissionId ≠ id) :
    orderedLog ((rows ++ middle) ++ new) id = orderedLog (rows ++ new) id := by
  have quiet : middle.filter (·.submissionId == id) = [] := by
    rw [List.filter_eq_nil_iff]
    intro row member
    simpa using none row member
  unfold orderedLog
  rw [List.filter_append, List.filter_append, quiet, List.append_nil, List.filter_append]

structure FoldsOf (committed : List SubmissionOp) (tx : Tx) : Prop where
  read : ∀ id fold, tx.folds id = some fold → tx.folding = true ∧
    fold = foldOps (orderedLog (committed ++ tx.ops) id) ∧ ∃ op ∈ tx.ops, op.submissionId = id
  wrote : ∀ id data, tx.states id = some data → ∃ fold, tx.folds id = some fold ∧ data = fold.data

structure FoldInv (s : Server) : Prop where
  kept : s.FoldKept
  folds : Lib.Each (FoldsOf s.ops) s.txs
  apart : Lib.Pairs (fun tx tx' => ∀ id, (tx.folds id).isSome = true → tx'.folds id = none) s.txs

theorem FoldsOf.fresh (committed : List SubmissionOp) : FoldsOf committed {} := by
  constructor
  · intro id fold read
    cases read
  · intro id data wrote
    cases wrote

theorem FoldsOf.exec {s : Server} {t : Nat} {tx tx' : Tx} {statement : Statement} {seq : Nat}
    (folds : FoldsOf s.ops tx) (effect : statement.Effect s t tx tx' seq) : FoldsOf s.ops tx' := by
  cases effect with
  | insertOp seen admits early =>
    -- Nothing has been folded yet.
    refine ⟨fun id fold read => ?_, folds.wrote⟩
    rw [(folds.read id fold read).1] at early
    cases early
  | @foldLog id touched =>
    constructor
    · intro other fold read
      by_cases same : other = id
      · subst same
        simp only [Function.update_self, Option.some_inj] at read
        exact ⟨rfl, read.symm, touched⟩
      · simp only [Function.update_of_ne same] at read
        exact ⟨rfl, (folds.read other fold read).2⟩
    · intro other data wrote
      obtain ⟨fold, read, rfl⟩ := folds.wrote other data wrote
      by_cases same : other = id
      · subst same
        refine ⟨_, Function.update_self .., ?_⟩
        rw [(folds.read other fold read).2.1]
      · exact ⟨fold, (Function.update_of_ne same ..).trans read, rfl⟩
  | @upsertState id fold read alone =>
    refine ⟨folds.read, fun other data wrote => ?_⟩
    by_cases same : other = id
    · subst same
      simp only [Function.update_self, Option.some_inj] at wrote
      exact ⟨fold, read, wrote.symm⟩
    · simp only [Function.update_of_ne same] at wrote
      exact folds.wrote other data wrote
  | load | opens | refused | insertTombstone | updateStatus | stands | decides =>
    exact ⟨folds.read, folds.wrote⟩

theorem exec_folds {s : Server} {t : Nat} {tx tx' : Tx} {statement : Statement} {seq : Nat}
    (effect : statement.Effect s t tx tx' seq) (apart : FoldsApart s (.exec t statement))
    {id : String} (read : (tx'.folds id).isSome = true) :
    (tx.folds id).isSome = true ∨ s.Alone t fun other => (other.folds id).isSome = true := by
  cases effect with
  | @foldLog id' touched =>
    by_cases same : id = id'
    · subst same
      exact Or.inr apart
    · simp only [Function.update_of_ne same] at read
      exact Or.inl read
  | load | opens | refused | insertOp | insertTombstone | updateStatus | upsertState | stands
    | decides => exact Or.inl read

theorem FoldsOf.publish {committed : List SubmissionOp} {tx other : Tx} (folds : FoldsOf committed tx)
    (apart : ∀ id, (tx.folds id).isSome = true → ∀ op ∈ other.ops, op.submissionId ≠ id) :
    FoldsOf (committed ++ other.ops) tx where
  read id fold read := by
    obtain ⟨folding, equal, touched⟩ := folds.read id fold read
    refine ⟨folding, ?_, touched⟩
    rw [orderedLog_insert (apart id (by rw [read]; rfl))]
    exact equal
  wrote := folds.wrote

namespace FoldInv

variable {s : Server} (inv : FoldInv s)
include inv

theorem ready_folds {t : Nat} {tx : Tx} (mine : s.txs.lookup t = some tx) (ready : tx.Ready)
    {op : SubmissionOp} (member : op ∈ tx.ops) :
    ∃ fold, tx.folds op.submissionId = some fold ∧ tx.states op.submissionId = some fold.data := by
  obtain ⟨data, wrote⟩ := Option.isSome_iff_exists.mp (ready op member).1
  obtain ⟨fold, read, rfl⟩ := (inv.folds t tx mine).wrote _ data wrote
  exact ⟨fold, read, wrote⟩

theorem commit {t : Nat} {tx : Tx} (mine : s.txs.lookup t = some tx) (ready : tx.Ready) :
    FoldInv (s.publish t tx) := by
  refine ⟨?_, ?_, inv.apart.erase t⟩
  · intro op member
    show (tx.states op.submissionId).or (s.states op.submissionId) =
      some (foldOps (orderedLog (s.ops ++ tx.ops) op.submissionId)).data
    by_cases touched : ∃ row ∈ tx.ops, row.submissionId = op.submissionId
    · obtain ⟨row, present, same⟩ := touched
      obtain ⟨fold, read, wrote⟩ := inv.ready_folds mine ready present
      rw [same] at read wrote
      rw [wrote, ((inv.folds t tx mine).read _ fold read).2.1]
      rfl
    · push Not at touched
      have silent : tx.states op.submissionId = none := by
        rw [Option.eq_none_iff_forall_not_mem]
        intro data wrote
        obtain ⟨fold, read, -⟩ := (inv.folds t tx mine).wrote _ data wrote
        obtain ⟨-, -, row, present, same⟩ := (inv.folds t tx mine).read _ fold read
        exact touched row present same
      rcases List.mem_append.mp member with old | new
      · rw [silent, Option.none_or, inv.kept op old, orderedLog_append touched]
      · exact absurd rfl (touched op new)
  · intro t' tx' found
    obtain ⟨differ, found⟩ := Lib.lookup_erase_some found
    -- Had the committed transaction an op of a log this one has read, both would have read it.
    refine (inv.folds t' tx' found).publish fun id read op member same => ?_
    obtain ⟨fold, mine', -⟩ := inv.ready_folds mine ready member
    rw [same, inv.apart t' t tx' tx differ found mine id read] at mine'
    cases mine'

theorem step {s' : Server} {action : Action} (apart : FoldsApart s action)
    (stepped : s.step action = some s') : FoldInv s' := by
  cases Server.effect_of_step stepped with
  | start =>
    refine ⟨inv.kept, inv.folds.insert (FoldsOf.fresh _) _, inv.apart.insert ?_⟩
    refine fun _ _ _ _ => ⟨fun id read => ?_, fun _ _ => rfl⟩
    cases read
  | @exec t tx tx' statement seq mine ran =>
    have effect := Statement.effect_of_exec ran
    refine ⟨inv.kept, inv.folds.insert ((inv.folds t tx mine).exec effect) t,
      inv.apart.insert fun t' other differ found => ?_⟩
    have silent : ∀ id, (tx'.folds id).isSome = true → other.folds id = none := by
      intro id read
      rcases exec_folds effect apart read with before | alone
      · exact inv.apart t t' tx other (Ne.symm differ) mine found id before
      · rw [← Option.not_isSome_iff_eq_none]
        exact Server.alone_iff.mp alone t' other differ found
    refine ⟨silent, fun id read => ?_⟩
    rw [← Option.not_isSome_iff_eq_none]
    intro both
    rw [silent id both] at read
    cases read
  | commit mine ready => exact inv.commit mine ready
  | abort t => exact ⟨inv.kept, inv.folds.erase t, inv.apart.erase t⟩
  | pull limit => exact ⟨inv.kept, inv.folds, inv.apart⟩

end FoldInv

theorem foldInv_atRest {db : Db} (settled : Settled db) : FoldInv (Server.atRest db) where
  kept := settled.state
  folds := by
    intro t tx found
    cases found
  apart := by
    intro t t' tx tx' _ found
    cases found

/-- No fold is lost in a run in which no two pushes have read one log to fold it. -/
theorem fold_kept_of_apart {db : Db} (settled : Settled db) {actions : List Action} {s : Server}
    (ran : Lib.run Server.step (Server.atRest db) actions = some s)
    (apart : Lib.Along Server.step FoldsApart (Server.atRest db) actions) : s.FoldKept := by
  have inv : FoldInv s := Lib.run_invariant (fun s a s' inv here stepped => inv.step here stepped)
    (foldInv_atRest settled) apart ran
  exact inv.kept

def oneAnswer : Db := (deliver twoDevices [carrying "d1" "u1" [answerOp "o1" "s1" "d1" 1]]).1

/-- A row another device adds: its answer to `path`. -/
def edit (opId path device : String) (counter : Nat) (value : Int) : SubmissionOp :=
  ⟨opId, "s1", .set, some path, .int value, none, none, none, device, none, counter, 0, 0⟩

def overlapping : List Action :=
  [.start, .start, .exec 0 (.load "s1"), .exec 1 (.load "s1"),
    .exec 0 (.insertOp (edit "o2" "age" "d1" 2 8)), .exec 1 (.insertOp (edit "o3" "size" "d2" 1 4)),
    .exec 0 (.foldLog "s1"), .exec 1 (.foldLog "s1"),
    .exec 0 (.upsertState "s1"), .commit 0, .exec 1 (.upsertState "s1"), .commit 1]

set_option maxRecDepth 20000 in
/-- Both have committed, and the answer of the first is not in the stored state. -/
theorem overlapping_loses : ∃ s, Lib.run Server.step (Server.atRest oneAnswer) overlapping = some s ∧
    s.txs.entries = [] ∧ s.ops.map (·.id) = ["o1", "o2", "o3"] ∧ ¬ s.FoldKept := by
  refine ⟨_, rfl, rfl, rfl, ?_⟩
  intro kept
  have stored := congrArg (Option.map (AList.lookup "age")) (kept _ List.mem_cons_self)
  replace stored : some (some (Json.int 7)) = some (some (Json.int 8)) := stored
  cases stored

def inTurn : List Action :=
  [.start, .start, .exec 0 (.load "s1"), .exec 1 (.load "s1"),
    .exec 0 (.insertOp (edit "o2" "age" "d1" 2 8)), .exec 1 (.insertOp (edit "o3" "size" "d2" 1 4)),
    .exec 0 (.foldLog "s1"), .exec 0 (.upsertState "s1"), .commit 0,
    .exec 1 (.foldLog "s1"), .exec 1 (.upsertState "s1"), .commit 1]

set_option maxRecDepth 20000 in
theorem inTurn_kept : ∃ s, Lib.run Server.step (Server.atRest oneAnswer) inTurn = some s ∧
    s.txs.entries = [] ∧ s.FoldKept := by
  have settled : Settled oneAnswer := by
    have carries : Carries twoHands (carrying "d1" "u1" [answerOp "o1" "s1" "d1" 1]) :=
      carrying_carries (by simp [twoHands]) ⟨_, rfl, rfl⟩
    exact deliver_settled twoDevices_settled (List.forall_mem_singleton.mpr carries)
  have apart : Lib.Along Server.step FoldsApart (Server.atRest oneAnswer) inTurn := by decide
  exact ⟨_, rfl, rfl, @fold_kept_of_apart oneAnswer settled inTurn _ rfl apart⟩

end DataCollectionLab.Sync
