import Mathlib.Data.List.Flatten
import DataCollectionLab.Sync.Convergence
import DataCollectionLab.Sync.Transactions

/-!
The pull cursor under concurrency. Numbers are drawn at insert and shown at commit, so a number may
appear below a cursor that has passed it. Nothing is skipped as long as every pull stops short of
the numbers still in flight.
-/

namespace DataCollectionLab.Sync

def Tx.stream (tx : Tx) : List StreamRow := streamRows tx.ops tx.tombstones

def inFlight (txs : AList fun _ : Nat => Tx) : List StreamRow :=
  txs.entries.flatMap fun entry => entry.2.stream

def Server.stream (s : Server) : List StreamRow := streamRows s.ops s.tombstones

def Server.NothingSkipped (s : Server) : Prop :=
  ∀ op ∈ s.ops, op.serverSeq ≤ s.client.cursor → op ∈ s.client.held

/-- A pull stops short of every number in flight above its cursor: its page is full before it, or
nothing committed lies beyond it. -/
def StopsShort (s : Server) : Action → Prop
  | .pull limit => ∀ row ∈ inFlight s.txs, s.client.cursor < row.serverSeq →
      limit ≤ ((streamAbove s.stream s.client.cursor).filter
        fun r => r.serverSeq < row.serverSeq).length ∨
      ∀ r ∈ s.stream, r.serverSeq ≤ row.serverSeq
  | _ => True

instance (s : Server) : DecidablePred (StopsShort s) := fun action => by
  unfold StopsShort
  split <;> infer_instance

/-- Numbers drawn once each from a sequence that stands at `next`. -/
structure Drawn (rows : List StreamRow) (next : Nat) : Prop where
  numbered : Numbered rows
  below : ∀ row ∈ rows, row.serverSeq < next

namespace Drawn

variable {rows rows' : List StreamRow} {next : Nat} (drawn : Drawn rows next)
include drawn

theorem perm (same : rows.Perm rows') : Drawn rows' next :=
  ⟨(same.pairwise_iff fun differ => differ.symm).mp drawn.numbered,
    fun row member => drawn.below row (same.mem_iff.mpr member)⟩

theorem sublist (sub : rows'.Sublist rows) : Drawn rows' next :=
  ⟨drawn.numbered.sublist sub, fun row member => drawn.below row (sub.subset member)⟩

theorem mono {next' : Nat} (le : next ≤ next') : Drawn rows next' :=
  ⟨drawn.numbered, fun row member => Nat.lt_of_lt_of_le (drawn.below row member) le⟩

theorem cons {row : StreamRow} (fresh : row.serverSeq = next) : Drawn (row :: rows) (next + 1) := by
  refine ⟨List.pairwise_cons.mpr ⟨fun other member => ?_, drawn.numbered⟩, fun other member => ?_⟩
  · have := drawn.below other member
    omega
  · rcases List.mem_cons.mp member with rfl | old
    · omega
    · have := drawn.below other old
      omega

end Drawn

theorem inFlight_insert (txs : AList fun _ : Nat => Tx) (t : Nat) (tx : Tx) :
    inFlight (txs.insert t tx) = tx.stream ++ inFlight (txs.erase t) := by
  unfold inFlight
  rw [AList.entries_insert, List.flatMap_cons]
  rfl

theorem inFlight_erase_sublist (txs : AList fun _ : Nat => Tx) (t : Nat) :
    (inFlight (txs.erase t)).Sublist (inFlight txs) :=
  (List.kerase_sublist t txs.entries).flatMap _

theorem inFlight_perm {txs : AList fun _ : Nat => Tx} {t : Nat} {tx : Tx}
    (mine : txs.lookup t = some tx) : (inFlight txs).Perm (tx.stream ++ inFlight (txs.erase t)) := by
  have member : (⟨t, tx⟩ : Sigma fun _ : Nat => Tx) ∈ txs.entries := AList.mem_lookup_iff.mp mine
  obtain ⟨other, before, after, -, split, erased⟩ :=
    List.exists_of_kerase (List.mem_keys_of_mem member)
  have same : other = tx := by
    have found : txs.lookup t = some other := by
      apply AList.mem_lookup_iff.mpr
      rw [split]
      simp
    exact Option.some.inj (found.symm.trans mine)
  subst same
  have rest : (txs.erase t).entries = before ++ after := erased
  unfold inFlight
  rw [rest, split]
  exact (List.perm_middle.flatMap_right _)

theorem exec_stream {s : Server} {t : Nat} {tx tx' : Tx} {statement : Statement} {seq : Nat}
    (effect : statement.Effect s t tx tx' seq) :
    (tx'.stream = tx.stream ∧ s.nextSeq ≤ seq) ∨
      ∃ row, tx'.stream.Perm (row :: tx.stream) ∧ row.serverSeq = s.nextSeq ∧
        seq = s.nextSeq + 1 := by
  cases effect with
  | @insertOp row status seen admits early =>
    refine Or.inr ⟨.op { row with serverSeq := s.nextSeq }, ?_, rfl, rfl⟩
    show (streamRows (tx.ops ++ [_]) tx.tombstones).Perm _
    unfold streamRows
    rw [List.map_append, List.append_assoc]
    exact List.perm_middle
  | insertTombstone row =>
    refine Or.inr ⟨.tombstone { row with serverSeq := s.nextSeq }, ?_, rfl, rfl⟩
    show (streamRows tx.ops (tx.tombstones ++ [_])).Perm _
    unfold streamRows
    rw [List.map_append, ← List.append_assoc]
    exact List.perm_append_singleton _ _
  | refused row => exact Or.inl ⟨rfl, Nat.le_succ _⟩
  | load | opens | foldLog | updateStatus | upsertState | stands | decides =>
    exact Or.inl ⟨rfl, Nat.le_refl _⟩

/-- Every number in flight is ahead of the cursor, and every committed op behind it delivered. -/
structure CursorInv (s : Server) : Prop where
  drawn : Drawn (s.stream ++ inFlight s.txs) s.nextSeq
  ahead : ∀ row ∈ inFlight s.txs, s.client.cursor < row.serverSeq
  behind : s.client.cursor < s.nextSeq
  delivered : s.NothingSkipped

theorem publish_stream (s : Server) (t : Nat) (tx : Tx) :
    (s.publish t tx).stream.Perm (s.stream ++ tx.stream) := by
  show (streamRows (s.ops ++ tx.ops) (s.tombstones ++ tx.tombstones)).Perm _
  unfold Server.stream Tx.stream streamRows
  simp only [List.map_append, List.append_assoc]
  refine List.Perm.append_left _ ?_
  rw [← List.append_assoc, ← List.append_assoc]
  exact List.Perm.append_right _ List.perm_append_comm

namespace CursorInv

variable {s : Server} (inv : CursorInv s)
include inv

theorem pull {limit : Nat} (short : StopsShort s (.pull limit)) : CursorInv (s.pulled limit) := by
  have committed : Numbered s.stream := (inv.drawn.sublist (List.sublist_append_left _ _)).numbered
  have batch := page_batch committed s.client.cursor limit
  have rest := page_rest committed s.client.cursor limit
  have up := streamAbove_ascending committed s.client.cursor
  -- The new cursor is the old one or the number of a row of the page.
  have stands : (s.pulled limit).client.cursor = s.client.cursor ∨
      ∃ row ∈ (streamAbove s.stream s.client.cursor).take limit,
        (s.pulled limit).client.cursor = row.serverSeq := by
    show Lib.resumeAt StreamRow.serverSeq s.client.cursor (page s.ops s.tombstones _ limit).batch =
      _ ∨ _
    rw [batch]
    unfold Lib.resumeAt
    cases last : ((streamAbove (streamRows s.ops s.tombstones) s.client.cursor).take limit).getLast? with
    | none => exact Or.inl rfl
    | some row =>
      refine Or.inr ⟨row, List.mem_of_getLast? last, ?_⟩
      show Lib.resumeAt StreamRow.serverSeq s.client.cursor (page s.ops s.tombstones _ limit).batch =
        row.serverSeq
      rw [batch, Lib.resumeAt, last]
      rfl
  refine ⟨inv.drawn, ?_, ?_, ?_⟩
  · intro row flying
    have above := inv.ahead row flying
    rcases stands with same | ⟨last, front, same⟩
    · rw [same]
      exact above
    · rw [same]
      rcases short row flying above with full | top
      · exact Lib.lt_of_mem_take up full front
      · have member := (mem_streamAbove.mp (List.mem_of_mem_take front)).1
        have apart := (List.pairwise_append.mp inv.drawn.numbered).2.2 last member row flying
        exact Nat.lt_of_le_of_ne (top last member) apart
  · rcases stands with same | ⟨last, front, same⟩
    · rw [same]
      exact inv.behind
    · rw [same]
      exact inv.drawn.below last
        (List.mem_append_left _ (mem_streamAbove.mp (List.mem_of_mem_take front)).1)
  · intro op stored reached
    show op ∈ s.client.held ++ (page s.ops s.tombstones s.client.cursor limit).batch.filterMap _
    by_cases old : op.serverSeq ≤ s.client.cursor
    · exact List.mem_append_left _ (inv.delivered op stored old)
    · have inStream : StreamRow.op op ∈ streamAbove s.stream s.client.cursor :=
        mem_streamAbove.mpr ⟨List.mem_append_left _ (List.mem_map_of_mem stored),
          Nat.not_le.mp old⟩
      rw [← List.take_append_drop limit (streamAbove s.stream s.client.cursor),
        List.mem_append] at inStream
      refine List.mem_append_right _ (List.mem_filterMap.mpr ⟨.op op, ?_, rfl⟩)
      rw [batch]
      refine inStream.resolve_right fun beyond => ?_
      rw [show (streamAbove s.stream s.client.cursor).drop limit = _ from rest.symm] at beyond
      exact absurd (mem_streamAbove.mp beyond).2 (Nat.not_lt.mpr reached)

theorem step {s' : Server} {action : Action} (short : StopsShort s action)
    (stepped : s.step action = some s') : CursorInv s' := by
  cases Server.effect_of_step stepped with
  | start =>
    have fewer := inFlight_erase_sublist s.txs s.nextTx
    have same : inFlight (s.txs.insert s.nextTx {}) = inFlight (s.txs.erase s.nextTx) :=
      inFlight_insert s.txs s.nextTx {}
    refine ⟨?_, fun row flying => ?_, inv.behind, inv.delivered⟩
    · rw [same]
      exact inv.drawn.sublist (fewer.append_left _)
    · rw [same] at flying
      exact inv.ahead row (fewer.subset flying)
  | @exec t tx tx' statement seq mine ran =>
    have perm := inFlight_perm mine
    have same : inFlight (s.txs.insert t tx') = tx'.stream ++ inFlight (s.txs.erase t) :=
      inFlight_insert s.txs t tx'
    have before : Drawn (s.stream ++ (tx.stream ++ inFlight (s.txs.erase t))) s.nextSeq :=
      inv.drawn.perm (perm.append_left _)
    rcases exec_stream (Statement.effect_of_exec ran) with ⟨quiet, le⟩ | ⟨row, new, fresh, rfl⟩
    · rw [← quiet, ← same] at before
      refine ⟨before.mono le, fun row flying => ?_, Nat.lt_of_lt_of_le inv.behind le, inv.delivered⟩
      rw [same, quiet] at flying
      exact inv.ahead row (perm.mem_iff.mpr flying)
    · refine ⟨(before.cons fresh).perm ?_, fun other flying => ?_,
        Nat.lt_succ_of_lt inv.behind, inv.delivered⟩
      · show (row :: (s.stream ++ (tx.stream ++ inFlight (s.txs.erase t)))).Perm
          (s.stream ++ inFlight (s.txs.insert t tx'))
        rw [same]
        refine List.perm_middle.symm.trans (List.Perm.append_left _ ?_)
        exact (new.append_right _).symm
      · rw [same] at flying
        rcases List.mem_append.mp flying with mine' | others
        · rcases List.mem_cons.mp (new.mem_iff.mp mine') with rfl | old
          · rw [fresh]
            exact inv.behind
          · exact inv.ahead other (perm.mem_iff.mpr (List.mem_append_left _ old))
        · exact inv.ahead other (perm.mem_iff.mpr (List.mem_append_right _ others))
  | @commit t tx mine ready =>
    have perm := inFlight_perm mine
    refine ⟨inv.drawn.perm ?_, fun row flying => ?_, inv.behind, ?_⟩
    · show (s.stream ++ inFlight s.txs).Perm ((s.publish t tx).stream ++ inFlight (s.txs.erase t))
      refine (perm.append_left _).trans ?_
      rw [← List.append_assoc]
      exact (publish_stream s t tx).symm.append_right _
    · exact inv.ahead row ((inFlight_erase_sublist s.txs t).subset flying)
    · intro op stored reached
      rcases List.mem_append.mp stored with old | new
      · exact inv.delivered op old reached
      · have flying : StreamRow.op op ∈ inFlight s.txs :=
          perm.mem_iff.mpr (List.mem_append_left _ (List.mem_append_left _ (List.mem_map_of_mem new)))
        exact absurd reached (Nat.not_le.mpr (inv.ahead _ flying))
  | abort t =>
    have fewer := inFlight_erase_sublist s.txs t
    exact ⟨inv.drawn.sublist (fewer.append_left _), fun row flying => inv.ahead row (fewer.subset flying),
      inv.behind, inv.delivered⟩
  | pull limit => exact inv.pull short

end CursorInv

structure Db.Sequenced (db : Db) : Prop where
  drawn : Drawn (streamRows db.ops.rows db.tombstones) db.nextSeq
  positive : ∀ row ∈ streamRows db.ops.rows db.tombstones, 0 < row.serverSeq
  begun : 0 < db.nextSeq

/-- A client that pulls from 0 skips nothing, in a run whose pulls stop short of the numbers in
flight. -/
theorem nothing_skipped_of_short {db : Db} (sequenced : db.Sequenced) {actions : List Action}
    {s : Server} (ran : Lib.run Server.step (Server.atRest db) actions = some s)
    (short : Lib.Along Server.step StopsShort (Server.atRest db) actions) : s.NothingSkipped := by
  have start : CursorInv (Server.atRest db) := by
    refine ⟨?_, ?_, sequenced.begun, ?_⟩
    · exact sequenced.drawn.perm (by simp [Server.atRest, Server.stream, inFlight])
    · intro row flying
      cases flying
    · intro op stored reached
      have := sequenced.positive (.op op) (List.mem_append_left _ (List.mem_map_of_mem stored))
      exact absurd reached (Nat.not_le.mpr this)
  have inv : CursorInv s := Lib.run_invariant (fun s a s' inv here stepped => inv.step here stepped)
    start short ran
  exact inv.delivered

def answering (opId submission device : String) : SubmissionOp :=
  ⟨opId, submission, .set, some "age", .int 7, none, none, none, device, none, 1, 0, 0⟩

def bothInserted : List Action :=
  [.start, .start, .exec 0 (.load "s1"), .exec 1 (.load "s2"), .exec 0 (.opens "s1"),
    .exec 1 (.opens "s2"), .exec 0 (.insertOp (answering "o1" "s1" "d1")),
    .exec 1 (.insertOp (answering "o2" "s2" "d2"))]

def finishing (t : Nat) (id : String) : List Action :=
  [.exec t (.foldLog id), .exec t (.upsertState id), .commit t]

def pulledBetween : List Action :=
  bothInserted ++ finishing 1 "s2" ++ [.pull 10] ++ finishing 0 "s1" ++ [.pull 10]

set_option maxRecDepth 20000 in
/-- The first op is behind the cursor for good. -/
theorem pulledBetween_skips : ∃ s,
    Lib.run Server.step (Server.atRest twoDevices) pulledBetween = some s ∧
      s.client.cursor = 2 ∧ s.client.held.map (·.id) = ["o2"] ∧ ¬ s.NothingSkipped := by
  refine ⟨_, rfl, rfl, rfl, ?_⟩
  intro kept
  have held := kept (⟨"o1", "s1", .set, some "age", .int 7, none, none, none, "d1", none, 1, 0, 1⟩)
    (List.mem_cons_of_mem _ List.mem_cons_self) (by decide)
  have ids := List.mem_map_of_mem (f := SubmissionOp.id) held
  exact absurd ids (by decide)

def pulledAfter : List Action :=
  bothInserted ++ finishing 1 "s2" ++ finishing 0 "s1" ++ [.pull 1, .pull 10]

set_option maxRecDepth 20000 in
theorem pulledAfter_whole : ∃ s,
    Lib.run Server.step (Server.atRest twoDevices) pulledAfter = some s ∧
      s.client.held.map (·.id) = ["o1", "o2"] ∧ s.NothingSkipped := by
  have sequenced : twoDevices.Sequenced :=
    ⟨⟨List.Pairwise.nil, by decide⟩, by decide, by decide⟩
  have short : Lib.Along Server.step StopsShort (Server.atRest twoDevices) pulledAfter := by decide
  exact ⟨_, rfl, rfl, @nothing_skipped_of_short twoDevices sequenced pulledAfter _ rfl short⟩

end DataCollectionLab.Sync
