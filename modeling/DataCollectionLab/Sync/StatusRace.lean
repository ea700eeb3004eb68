import DataCollectionLab.Sync.Convergence
import DataCollectionLab.Sync.Transactions

/-!
Closed submissions under concurrency. The machine leaves no closed state, but it is asked about the
status a transaction loaded, and the answer is written later. A closed status stands as long as no
decision closes a submission between the two.
-/

namespace DataCollectionLab.Sync

def Server.Closed (s : Server) (id : String) : Prop :=
  (s.statuses id).any (·.closed) = true

instance (s : Server) (id : String) : Decidable (s.Closed id) :=
  inferInstanceAs (Decidable ((s.statuses id).any (·.closed) = true))

def Tx.updates (tx : Tx) : Statement → Option String
  | .updateStatus id => (tx.statusDue id).map fun _ => id
  | .decides req =>
    match tx.seen req.submissionId with
    | some current =>
      match req.moves current with
      | .ok moved => if moved = current then none else some req.submissionId
      | .error _ => none
    | none => none
  | _ => none

/-- A submission that is closed when a transaction updates its status was closed when the
transaction loaded it: no decision has closed it in between. -/
def NotOvertaken (s : Server) : Action → Prop
  | .exec t statement =>
    match s.txs.lookup t with
    | some tx =>
      match tx.updates statement with
      | some id => s.Closed id → (tx.seen id).any (·.closed) = true
      | none => True
    | none => True
  | _ => True

instance (s : Server) : DecidablePred (NotOvertaken s) := fun action => by
  unfold NotOvertaken
  split
  · split
    · split <;> infer_instance
    · infer_instance
  · infer_instance

theorem nextStatus_ok_open {current moved : Status} {event : Event}
    (moves : nextStatus current event = .ok moved) : current.closed = false := by
  rw [← Bool.not_eq_true]
  intro closed
  rw [nextStatus_of_closed closed] at moves
  cases moves

theorem statusDue_open {tx : Tx} {id : String} {status : Status} (due : tx.statusDue id = some status) :
    ∃ current, tx.seen id = some current ∧ current.closed = false := by
  unfold Tx.statusDue at due
  simp only [Option.bind_eq_bind, Option.bind_eq_some_iff] at due
  obtain ⟨fold, -, current, seen, event, -, rest⟩ := due
  refine ⟨current, seen, ?_⟩
  cases moves : nextStatus current event with
  | ok moved => exact nextStatus_ok_open moves
  | error refusal => simp [moves] at rest

theorem moves_open {req : Quality.ReviewRequest} {current moved : Status}
    (moves : req.moves current = .ok moved) : current.closed = false := by
  unfold Quality.ReviewRequest.moves at moves
  split at moves
  · cases moves
  · split at moves
    · cases moves
    · rename_i next
      exact nextStatus_ok_open next

/-- A status in flight is of a submission that is open, and nobody else has it in hand. -/
structure StatusInv (s : Server) : Prop where
  named : ∀ t tx, s.txs.lookup t = some tx → t < s.nextTx
  held : Lib.Each (fun tx => ∀ id, (tx.statuses id).isSome = true → ¬ s.Closed id) s.txs
  locked : Lib.Pairs
    (fun tx tx' => ∀ id, (tx.statuses id).isSome = true → tx'.statuses id = none) s.txs

theorem exec_statuses {s : Server} {t : Nat} {tx tx' : Tx} {statement : Statement} {seq : Nat}
    (mine : s.txs.lookup t = some tx) (effect : statement.Effect s t tx tx' seq)
    (here : NotOvertaken s (.exec t statement)) {id : String}
    (wrote : (tx'.statuses id).isSome = true) :
    (tx.statuses id).isSome = true ∨
      ¬ s.Closed id ∧ s.Alone t fun other => (other.statuses id).isSome = true := by
  unfold NotOvertaken at here
  simp only [mine] at here
  cases effect with
  | @opens id' absent unopened alone =>
    by_cases same : id = id'
    · subst same
      refine Or.inr ⟨?_, alone⟩
      unfold Server.Closed
      rw [absent]
      decide
    · simp only [Function.update_of_ne same] at wrote
      exact Or.inl wrote
  | @updateStatus id' status due alone =>
    by_cases same : id = id'
    · subst same
      obtain ⟨current, seen, open'⟩ := statusDue_open due
      refine Or.inr ⟨fun closed => ?_, alone⟩
      simp only [Tx.updates, due, Option.map_some, seen, Option.any_some, open'] at here
      exact absurd (here closed) (by decide)
    · simp only [Function.update_of_ne same] at wrote
      exact Or.inl wrote
  | @decides req current moved seen moves changed alone =>
    by_cases same : id = req.submissionId
    · subst same
      refine Or.inr ⟨fun closed => ?_, alone⟩
      simp only [Tx.updates, seen, moves, changed, if_false, Option.any_some,
        moves_open moves] at here
      exact absurd (here closed) (by decide)
    · simp only [Function.update_of_ne same] at wrote
      exact Or.inl wrote
  | load | refused | insertOp | insertTombstone | foldLog | upsertState | stands => exact Or.inl wrote

namespace StatusInv

variable {s : Server} (inv : StatusInv s)
include inv

theorem step {s' : Server} {action : Action} (here : NotOvertaken s action)
    (stepped : s.step action = some s') : StatusInv s' := by
  cases Server.effect_of_step stepped with
  | start =>
    refine ⟨fun t tx found => ?_, inv.held.insert (fun id wrote => ?_) _,
      inv.locked.insert fun _ _ _ _ => ⟨fun id wrote => ?_, fun _ _ => rfl⟩⟩
    · rcases Lib.lookup_insert_some found with ⟨rfl, -⟩ | ⟨-, old⟩
      · exact Nat.lt_succ_self _
      · exact Nat.lt_succ_of_lt (inv.named t tx old)
    · cases wrote
    · cases wrote
  | @exec t tx tx' statement seq mine ran =>
    have effect := Statement.effect_of_exec ran
    refine ⟨fun t' other found => ?_, inv.held.insert (fun id wrote => ?_) t,
      inv.locked.insert fun t' other differ found => ?_⟩
    · rcases Lib.lookup_insert_some found with ⟨rfl, -⟩ | ⟨-, old⟩
      · exact inv.named t' tx mine
      · exact inv.named t' other old
    · rcases exec_statuses mine effect here wrote with before | ⟨open', -⟩
      · exact inv.held t tx mine id before
      · exact open'
    · have silent : ∀ id, (tx'.statuses id).isSome = true → other.statuses id = none := by
        intro id wrote
        rcases exec_statuses mine effect here wrote with before | ⟨-, alone⟩
        · exact inv.locked t t' tx other (Ne.symm differ) mine found id before
        · rw [← Option.not_isSome_iff_eq_none]
          exact Server.alone_iff.mp alone t' other differ found
      refine ⟨silent, fun id wrote => ?_⟩
      rw [← Option.not_isSome_iff_eq_none]
      intro both
      rw [silent id both] at wrote
      cases wrote
  | @commit t tx mine ready =>
    refine ⟨fun t' other found => inv.named t' other (Lib.lookup_erase_some found).2, ?_,
      inv.locked.erase t⟩
    intro t' other found id wrote
    obtain ⟨differ, found⟩ := Lib.lookup_erase_some found
    have silent := inv.locked t' t other tx differ found mine id wrote
    have same : (s.publish t tx).statuses id = s.statuses id := by
      show (tx.statuses id).or (s.statuses id) = _
      rw [silent, Option.none_or]
    unfold Server.Closed
    rw [same]
    exact inv.held t' other found id wrote
  | abort t =>
    exact ⟨fun t' other found => inv.named t' other (Lib.lookup_erase_some found).2,
      inv.held.erase t, inv.locked.erase t⟩
  | pull limit => exact ⟨inv.named, inv.held, inv.locked⟩

theorem closed_kept {s' : Server} {action : Action} (stepped : s.step action = some s')
    {id : String} {status : Status} (found : s.statuses id = some status)
    (closed : status.closed = true) : s'.statuses id = some status := by
  cases Server.effect_of_step stepped with
  | @commit t tx mine ready =>
    have silent : tx.statuses id = none := by
      rw [← Option.not_isSome_iff_eq_none]
      intro wrote
      apply inv.held t tx mine id wrote
      unfold Server.Closed
      rw [found]
      exact closed
    show (tx.statuses id).or (s.statuses id) = some status
    rw [silent, found]
    rfl
  | start | exec | abort | pull => exact found

end StatusInv

structure ShutOut (id : String) (tx : Tx) : Prop where
  seen : ∀ status, tx.seen id = some status → status.closed = true
  ops : ∀ op ∈ tx.ops, op.submissionId ≠ id
  statuses : tx.statuses id = none

theorem ShutOut.exec {s : Server} {t : Nat} {tx tx' : Tx} {statement : Statement} {seq : Nat}
    {id : String} {status : Status} (found : s.statuses id = some status)
    (closed : status.closed = true) (out : ShutOut id tx)
    (effect : statement.Effect s t tx tx' seq) : ShutOut id tx' := by
  cases effect with
  | load id' =>
    refine ⟨fun current seen => ?_, out.ops, out.statuses⟩
    by_cases same : id = id'
    · subst same
      simp only [Function.update_self, out.statuses, found, Option.none_or, Option.some_inj] at seen
      rw [← seen, closed]
    · simp only [Function.update_of_ne same] at seen
      exact out.seen current seen
  | @opens id' absent unopened alone =>
    by_cases same : id = id'
    · subst same
      rw [found] at absent
      cases absent
    · refine ⟨fun current seen => ?_, out.ops, (Function.update_of_ne same ..).trans out.statuses⟩
      simp only [Function.update_of_ne same] at seen
      exact out.seen current seen
  | @insertOp row current seen admits early =>
    refine ⟨out.seen, fun op member on => ?_, out.statuses⟩
    rcases List.mem_append.mp member with old | new
    · exact out.ops op old on
    · rw [List.mem_singleton.mp new] at on
      rw [show row.submissionId = id from on] at seen
      rw [out.seen current seen] at admits
      cases admits
  | @updateStatus id' moved due alone =>
    refine ⟨out.seen, out.ops, ?_⟩
    by_cases same : id = id'
    · subst same
      obtain ⟨current, seen, open'⟩ := statusDue_open due
      rw [out.seen current seen] at open'
      cases open'
    · exact (Function.update_of_ne same ..).trans out.statuses
  | @decides req current moved seen moves changed alone =>
    refine ⟨out.seen, out.ops, ?_⟩
    by_cases same : id = req.submissionId
    · subst same
      have open' := moves_open moves
      rw [out.seen current seen] at open'
      cases open'
    · exact (Function.update_of_ne same ..).trans out.statuses
  | refused | insertTombstone | foldLog | upsertState | stands =>
    exact ⟨out.seen, out.ops, out.statuses⟩

/-- From some point on a submission is closed, and whoever starts after it is shut out. -/
structure Shut (id : String) (status : Status) (since : Nat) (s : Server) : Prop where
  inv : StatusInv s
  found : s.statuses id = some status
  late : ∀ t tx, since ≤ t → s.txs.lookup t = some tx → ShutOut id tx

theorem Shut.step {id : String} {status : Status} (closed : status.closed = true) {since : Nat}
    {s s' : Server} {action : Action} (shut : Shut id status since s) (here : NotOvertaken s action)
    (stepped : s.step action = some s') : Shut id status since s' := by
  refine ⟨shut.inv.step here stepped, shut.inv.closed_kept stepped shut.found closed, ?_⟩
  intro t tx after found
  cases Server.effect_of_step stepped with
  | start =>
    rcases Lib.lookup_insert_some found with ⟨-, rfl⟩ | ⟨-, old⟩
    · refine ⟨fun current seen => ?_, fun op member => ?_, rfl⟩
      · cases seen
      · cases member
    · exact shut.late t tx after old
  | @exec t' before after' statement seq mine ran =>
    rcases Lib.lookup_insert_some found with ⟨rfl, rfl⟩ | ⟨-, old⟩
    · exact (shut.late t before after mine).exec shut.found closed (Statement.effect_of_exec ran)
    · exact shut.late t tx after old
  | commit mine ready => exact shut.late t tx after (Lib.lookup_erase_some found).2
  | abort t' => exact shut.late t tx after (Lib.lookup_erase_some found).2
  | pull limit => exact shut.late t tx after found

theorem statusInv_atRest (db : Db) : StatusInv (Server.atRest db) := by
  refine ⟨?_, ?_, ?_⟩
  · intro t tx found
    cases found
  · intro t tx found
    cases found
  · intro t t' tx tx' _ found
    cases found

/-- Once a submission is closed it stays so, and no transaction that starts later stores an op of
it, in a run in which no decision overtakes an update. -/
theorem closed_stays_closed {db : Db} {earlier later : List Action} {s₁ s₂ : Server}
    (ran : Lib.run Server.step (Server.atRest db) earlier = some s₁)
    (ran' : Lib.run Server.step s₁ later = some s₂)
    (kept : Lib.Along Server.step NotOvertaken (Server.atRest db) (earlier ++ later))
    {id : String} {status : Status} (found : s₁.statuses id = some status)
    (closed : status.closed = true) :
    s₂.statuses id = some status ∧
      ∀ t s₃, s₁.nextTx ≤ t → s₂.step (.commit t) = some s₃ →
        ∀ op ∈ s₃.ops, op.submissionId = id → op ∈ s₂.ops := by
  obtain ⟨first, second⟩ := kept.append ran
  have inv : StatusInv s₁ := Lib.run_invariant (fun s a s' inv here stepped => inv.step here stepped)
    (statusInv_atRest db) first ran
  have shut : Shut id status s₁.nextTx s₁ := by
    refine ⟨inv, found, fun t tx after mine => ?_⟩
    exact absurd (inv.named t tx mine) (Nat.not_lt.mpr after)
  have shut' : Shut id status s₁.nextTx s₂ := Lib.run_invariant
    (fun s a s' shut here stepped => shut.step closed here stepped) shut second ran'
  refine ⟨shut'.found, fun t s₃ after stepped op member on => ?_⟩
  cases Server.effect_of_step stepped with
  | @commit _ tx mine ready =>
    rcases List.mem_append.mp member with old | new
    · exact old
    · exact absurd on ((shut'.late t tx after mine).ops op new)

def handedIn : Db := (deliver twoDevices [carrying "d2" "u2" [finalizeOp "o2" "s1" "d2" 2 1]]).1

def reopening : SubmissionOp :=
  ⟨"o3", "s1", .reopen, none, .null, none, none, none, "d2", none, 3, 0, 0⟩

def approvedMeanwhile : List Action :=
  [.start, .exec 0 (.load "s1"), .exec 0 (.insertOp reopening),
    .start, .exec 1 (.load "s1"), .exec 1 (.decides ⟨"s1", "u3", .approved, none⟩), .commit 1]

def writtenOver : List Action :=
  [.exec 0 (.foldLog "s1"), .exec 0 (.updateStatus "s1"), .exec 0 (.upsertState "s1"), .commit 0]

set_option maxRecDepth 20000 in
/-- An approved submission is a draft again. -/
theorem writtenOver_reopens : ∃ s₁ s₂,
    Lib.run Server.step (Server.atRest handedIn) approvedMeanwhile = some s₁ ∧
      Lib.run Server.step s₁ writtenOver = some s₂ ∧
      s₁.statuses "s1" = some .approved ∧ s₂.statuses "s1" = some .draft :=
  ⟨_, _, rfl, rfl, rfl, rfl⟩

def approval : List Action :=
  [.start, .exec 0 (.load "s1"), .exec 0 (.decides ⟨"s1", "u3", .approved, none⟩), .commit 0]

set_option maxRecDepth 20000 in
theorem approval_stands : ∃ s₁ s₂,
    Lib.run Server.step (Server.atRest handedIn) approval = some s₁ ∧
      Lib.run Server.step s₁ [.start, .exec 1 (.load "s1")] = some s₂ ∧
      s₂.statuses "s1" = some .approved := by
  have kept : Lib.Along Server.step NotOvertaken (Server.atRest handedIn)
      (approval ++ [.start, .exec 1 (.load "s1")]) := by decide
  exact ⟨_, _, rfl, rfl,
    (@closed_stays_closed handedIn approval [.start, .exec 1 (.load "s1")] _ _ rfl rfl kept "s1"
      .approved rfl rfl).1⟩

end DataCollectionLab.Sync
