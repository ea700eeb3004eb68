import DataCollectionLab.Sync.Answers
import DataCollectionLab.Sync.CursorRace
import DataCollectionLab.Sync.Plain

/-!
What every transaction keeps of the database: the numbers of the shared sequence, and the foreign keys from an op to its
submission and from there to its form.
-/

namespace DataCollectionLab.Sync

structure Db.Consistent (db : Db) : Prop where
  sequenced : db.Sequenced
  owned : db.Owned
  formed : db.Formed

/-! ### Numbers drawn in a row -/

theorem Drawn.append {rows new : List StreamRow} {next count : Nat} (drawn : Drawn rows next)
    (numbers : (new.map (·.serverSeq)).Sublist (List.range' next count)) : Drawn (rows ++ new) (next + count) := by
  have bounds : ∀ row ∈ new, next ≤ row.serverSeq ∧ row.serverSeq < next + count := fun row member =>
    List.mem_range'_1.mp (numbers.subset (List.mem_map_of_mem member))
  refine ⟨List.pairwise_append.mpr ⟨drawn.numbered, ?_, fun a left b right => ?_⟩, fun row member => ?_⟩
  · refine (List.pairwise_map.mp (List.Pairwise.sublist numbers List.pairwise_lt_range')).imp ?_
    exact fun less => Nat.ne_of_lt less
  · have below := drawn.below a left
    have above := (bounds b right).1
    omega
  · rcases List.mem_append.mp member with old | recent
    · have below := drawn.below row old
      omega
    · exact (bounds row recent).2

theorem OpLog.numbered_numbers (seq : Nat) (rows : List SubmissionOp) :
    (OpLog.numbered seq rows).map (·.serverSeq) = List.range' seq rows.length := by
  induction rows generalizing seq with
  | nil => rfl
  | cons row rest ih => rw [numbered, List.map_cons, ih, List.length_cons, List.range'_succ]

theorem addTombstones_numbers (db : Db) (stones : List Tombstone) : ∃ new,
    (addTombstones db stones).tombstones = db.tombstones ++ new ∧
      new.map (·.serverSeq) = List.range' db.nextSeq stones.length := by
  refine ⟨_, rfl, ?_⟩
  rw [List.map_map, List.range'_eq_map_range]
  refine List.ext_getElem (by simp) fun i left right => ?_
  simp

theorem streamRows_append (ops ops' : List SubmissionOp) (stones stones' : List Tombstone) :
    (streamRows ops stones ++ ops'.map StreamRow.op ++ stones'.map StreamRow.tombstone).Perm
      (streamRows (ops ++ ops') (stones ++ stones')) := by
  unfold streamRows
  simp only [List.map_append, List.append_assoc]
  refine List.Perm.append_left _ ?_
  rw [← List.append_assoc, ← List.append_assoc]
  exact List.Perm.append_right _ List.perm_append_comm

namespace Call

variable (c : Call) {response : PushResponse} {final : Db}

theorem push_frame (returned : push c.pol c.db c.req = .ok (response, final)) :
    final.projects = c.db.projects ∧ final.cases = c.db.cases ∧ final.assignments = c.db.assignments ∧
      final.forms = c.db.forms ∧ final.formVersions = c.db.formVersions := by
  obtain ⟨-, keyed, flushed, -, rfl, -⟩ := c.push_returns_iff.mp returned
  rw [c.settle_frame, c.inserted_frame flushed]
  exact ⟨rfl, rfl, rfl, rfl, rfl⟩

theorem push_sequenced (returned : push c.pol c.db c.req = .ok (response, final)) (sequenced : c.db.Sequenced) :
    final.Sequenced ∧ c.db.nextSeq ≤ final.nextSeq := by
  obtain ⟨-, keyed, flushed, -, rfl, -⟩ := c.push_returns_iff.mp returned
  obtain ⟨start, bound, rows, next, -⟩ := c.logged_spec
  have frame := c.inserted_frame flushed
  set stones := c.stored.filterMap (tombstoneOf (c.inserted keyed)) with stones_eq
  obtain ⟨new, tombstones, numbers⟩ := addTombstones_numbers (c.inserted keyed) stones
  set ops := (OpLog.numbered start c.rows).filter fun row => (c.db.ops.violation row).isNone with ops_eq
  have stood : (c.inserted keyed).tombstones = c.db.tombstones := by rw [frame]
  have number : (c.inserted keyed).nextSeq = start + c.rows.length := by rw [frame, ← next]
  have last : (c.settle (c.inserted keyed) c.stored).nextSeq = start + c.rows.length + stones.length := by
    rw [settle_frame, ← number]
    rfl
  have opNumbers : ((ops.map StreamRow.op).map (·.serverSeq)).Sublist (List.range' start c.rows.length) := by
    rw [List.map_map, ← OpLog.numbered_numbers]
    exact List.filter_sublist.map _
  have stoneNumbers : ((new.map StreamRow.tombstone).map (·.serverSeq)).Sublist
      (List.range' (start + c.rows.length) stones.length) := by
    rw [List.map_map, ← number, ← numbers]
    exact List.Sublist.refl _
  have stream : (streamRows c.db.ops.rows c.db.tombstones ++ ops.map StreamRow.op ++ new.map StreamRow.tombstone).Perm
      (streamRows (c.settle (c.inserted keyed) c.stored).ops.rows (c.settle (c.inserted keyed) c.stored).tombstones) := by
    rw [settle_ops, settle_tombstones, tombstones, stood, frame, rows]
    exact streamRows_append _ _ _ _
  refine ⟨⟨?_, fun row member => ?_, ?_⟩, ?_⟩
  · rw [last]
    exact (((sequenced.drawn.mono bound).append opNumbers).append stoneNumbers).perm stream
  · have begun := sequenced.begun
    rcases List.mem_append.mp (stream.mem_iff.mpr member) with member | stone
    · rcases List.mem_append.mp member with old | op
      · exact sequenced.positive row old
      · have above := (List.mem_range'_1.mp (opNumbers.subset (List.mem_map_of_mem op))).1
        omega
    · have above := (List.mem_range'_1.mp (stoneNumbers.subset (List.mem_map_of_mem stone))).1
      omega
  · have begun := sequenced.begun
    omega
  · omega

theorem push_owned (returned : push c.pol c.db c.req = .ok (response, final)) (owned : c.db.Owned) : final.Owned := by
  intro row member
  rcases c.mem_push_log returned member with old | ⟨op, inBatch, stores, n, -, rfl⟩
  · obtain ⟨submission, found⟩ := Option.isSome_iff_exists.mp (owned row old)
    rw [c.push_lookup returned found]
    rfl
  · exact c.push_owns returned inBatch stores

theorem formed_of_opens {db : Db} {op : SyncOp} {row : Submission} (opens : c.judge db op = .opens row) :
    ∃ version form, db.formVersions.lookup row.formVersionId = some version ∧
      db.forms.lookup version.formId = some form := by
  obtain ⟨-, device, person, formVersionId, environmentId, -, resolved, -, -, -, rfl⟩ := c.judge_opens_iff.mp opens
  obtain ⟨entry, found, rfl⟩ := Option.map_eq_some_iff.mp resolved
  have matched := List.find?_some found
  rw [Bool.and_eq_true, Option.any_eq_true] at matched
  obtain ⟨form, named, -⟩ := matched.2
  exact ⟨entry.2, form, AList.mem_lookup_iff.mpr (List.mem_of_find?_eq_some found), named⟩

theorem push_formed (returned : push c.pol c.db c.req = .ok (response, final)) (formed : c.db.Formed) :
    final.Formed := by
  intro id submission found
  obtain ⟨-, -, -, forms, versions⟩ := c.push_frame returned
  rw [forms, versions]
  obtain ⟨-, keyed, flushed, -, rfl, -⟩ := c.push_returns_iff.mp returned
  rw [c.settle_submission, c.inserted_frame flushed] at found
  obtain ⟨row, present, same⟩ := Option.map_eq_some_iff.mp found
  have version : submission.formVersionId = row.formVersionId := by
    rw [← same]
    split
    · exact applyFolded_formVersionId _ _
    · rfl
  rw [version]
  rcases c.opened_of_lookup (List.append_nil _).symm present with start | ⟨op, member, -, opens⟩
  · exact formed id row start
  · obtain ⟨before, after, split⟩ := List.append_of_mem member
    have here := c.formed_of_opens ((c.judge_here split).trans opens)
    rw [c.dbAfter_frame] at here
    exact here

end Call

theorem Db.Sequenced.congr {db db' : Db} (sequenced : db.Sequenced) (ops : db'.ops = db.ops)
    (tombstones : db'.tombstones = db.tombstones) (nextSeq : db'.nextSeq = db.nextSeq) : db'.Sequenced := by
  obtain ⟨drawn, positive, begun⟩ := sequenced
  refine ⟨?_, ?_, ?_⟩
  · rw [ops, tombstones, nextSeq]
    exact drawn
  · rw [ops, tombstones]
    exact positive
  · rw [nextSeq]
    exact begun

structure SameWork (db db' : Db) : Prop where
  ops : db'.ops = db.ops
  tombstones : db'.tombstones = db.tombstones
  nextSeq : db'.nextSeq = db.nextSeq
  forms : db'.forms = db.forms
  formVersions : db'.formVersions = db.formVersions
  projects : db'.projects = db.projects
  cases : db'.cases = db.cases
  submissions : ∀ id, (db'.submissions.lookup id).map (fun row => (row.scope, row.formVersionId)) =
    (db.submissions.lookup id).map fun row => (row.scope, row.formVersionId)

theorem SameWork.lookup {db db' : Db} (same : SameWork db db') {id : String} {row' : Submission}
    (found : db'.submissions.lookup id = some row') : ∃ row, db.submissions.lookup id = some row ∧
      row.scope = row'.scope ∧ row.formVersionId = row'.formVersionId := by
  have both := same.submissions id
  rw [found, Option.map_some] at both
  obtain ⟨row, found', equal⟩ := Option.map_eq_some_iff.mp both.symm
  exact ⟨row, found', (Prod.mk.inj equal).1, (Prod.mk.inj equal).2⟩

theorem SameWork.consistent {db db' : Db} (same : SameWork db db') (consistent : db.Consistent) : db'.Consistent := by
  refine ⟨consistent.sequenced.congr same.ops same.tombstones same.nextSeq, fun row member => ?_, ?_⟩
  · rw [same.ops] at member
    have both := congrArg Option.isSome (same.submissions row.submissionId)
    rw [Option.isSome_map, Option.isSome_map] at both
    exact both.trans (consistent.owned row member)
  · intro id row' found
    obtain ⟨row, found', -, version⟩ := same.lookup found
    rw [← version, same.formVersions, same.forms]
    exact consistent.formed id row found'

theorem decide_sameWork {pol : Policies} {db db' : Db} {req : Quality.ReviewRequest} {recorded : Quality.Recorded}
    (decided : Quality.decide pol db req = .ok (recorded, db')) :
    SameWork db db' ∧ db'.assignments = db.assignments := by
  obtain ⟨submission, moved, found, -, -, -, submissions, rfl, there, others⟩ := Quality.decide_ok decided
  refine ⟨⟨rfl, rfl, rfl, rfl, rfl, rfl, rfl, fun id => ?_⟩, rfl⟩
  show (submissions.lookup id).map _ = _
  by_cases same : id = req.submissionId
  · rw [same, there, found]
    rfl
  · rw [others id same]

theorem assign_sameWork {roster : Roster} {p : Principal} {now : Timestamp} {db db' : Db} {caseId : String}
    {holder : Assignee} (assigned : dcpAssignCase roster p now db caseId holder = .ok db') : SameWork db db' := by
  rw [dcpAssignCase_frame assigned]
  exact ⟨rfl, rfl, rfl, rfl, rfl, rfl, rfl, fun _ => rfl⟩

theorem bind_sameWork (db : Db) (deviceId person : String) :
    SameWork db (dcpBindDevice db deviceId person) ∧ (dcpBindDevice db deviceId person).assignments = db.assignments := by
  unfold dcpBindDevice
  split <;> exact ⟨⟨rfl, rfl, rfl, rfl, rfl, rfl, rfl, fun _ => rfl⟩, rfl⟩

theorem FieldAct.run_cases (roster : Roster) (db : Db) (act : FieldAct) :
    (∃ p req response, act = .push p req ∧ Sync.push (p.policies db) db req = .ok (response, act.run roster db)) ∨
    (∃ p now caseId holder, act = .assign p now caseId holder ∧
      dcpAssignCase roster p now db caseId holder = .ok (act.run roster db)) ∨
    (SameWork db (act.run roster db) ∧ (act.run roster db).assignments = db.assignments) := by
  have still : SameWork db db ∧ db.assignments = db.assignments :=
    ⟨⟨rfl, rfl, rfl, rfl, rfl, rfl, rfl, fun _ => rfl⟩, rfl⟩
  cases act with
  | push p req =>
    unfold FieldAct.run
    dsimp only
    split
    · rename_i response final returned
      exact .inl ⟨p, req, response, rfl, returned⟩
    · exact .inr (.inr still)
  | decide p req =>
    unfold FieldAct.run
    dsimp only
    split
    · rename_i recorded db' decided
      exact .inr (.inr (decide_sameWork decided))
    · exact .inr (.inr still)
  | assign p now caseId holder =>
    unfold FieldAct.run
    dsimp only
    split
    · rename_i db' assigned
      exact .inr (.inl ⟨p, now, caseId, holder, rfl, assigned⟩)
    · exact .inr (.inr still)
  | login deviceId person => exact .inr (.inr (bind_sameWork db deviceId person))

theorem FieldAct.run_consistent (roster : Roster) {db : Db} (consistent : db.Consistent) (act : FieldAct) :
    (act.run roster db).Consistent ∧ db.nextSeq ≤ (act.run roster db).nextSeq := by
  rcases act.run_cases roster db with ⟨p, req, response, -, returned⟩ | ⟨p, now, caseId, holder, -, assigned⟩ | ⟨same, -⟩
  · let c : Call := ⟨p.policies db, db, req⟩
    obtain ⟨sequenced, later⟩ := c.push_sequenced returned consistent.sequenced
    exact ⟨⟨sequenced, c.push_owned returned consistent.owned, c.push_formed returned consistent.formed⟩, later⟩
  · have same := assign_sameWork assigned
    exact ⟨same.consistent consistent, Nat.le_of_eq same.nextSeq.symm⟩
  · exact ⟨same.consistent consistent, Nat.le_of_eq same.nextSeq.symm⟩

end DataCollectionLab.Sync
