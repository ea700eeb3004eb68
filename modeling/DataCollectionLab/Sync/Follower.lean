import DataCollectionLab.Lib.Runs
import DataCollectionLab.Sync.Consistency
import DataCollectionLab.Sync.View

/-!
One person's device that pulls from 0 and resumes from the cursor it stored, while pushes, decisions, logins and
assignments go on. The cursor is one number; what the person may see moves with the assignments.
-/

namespace DataCollectionLab.Sync

structure Follower where
  db : Db
  cursor : Nat := 0
  held : List SubmissionOp := []

inductive FollowerAct where
  | field (act : FieldAct)
  | pull (limit : Nat)

def Principal.covers (me : Principal) : Assignee → Bool
  | .team team => me.dcpHas .sampleAssign && me.teamIds.contains team
  | .person user => user == me.userId || (me.dcpHas .sampleAssign && me.visibleUserIds.contains user)

namespace Follower

variable (roster : Roster) (me : Principal)

def take (s : Follower) (response : PullResponse) : Follower :=
  { s with cursor := response.nextCursor, held := s.held ++ response.ops.map (·.row) }

def step (s : Follower) : FollowerAct → Follower
  | .field act => { s with db := act.run roster s.db }
  | .pull limit =>
    match Sync.pull (me.policies s.db) s.db s.cursor limit with
    | some response => s.take response
    | none => s

def shown (s : Follower) : List SubmissionOp := shownOps (me.policies s.db) s.db

def CatchesUp (s : Follower) : Prop :=
  ∀ limit response, 1 ≤ limit → Sync.pull (me.policies s.db) s.db s.cursor limit = some response →
    response.hasMore = false → ∀ op ∈ s.shown me, op ∈ (s.take response).held

def opsOn (s : Follower) (caseId : String) : List SubmissionOp :=
  s.db.ops.rows.filter fun op => (s.db.submissions.lookup op.submissionId).any fun row =>
    row.caseId == some caseId && me.seesProject s.db row.projectId

def NothingBehind (s : Follower) : FollowerAct → Prop
  | .field (.assign p now caseId holder) =>
    me.covers holder = true → (dcpAssignCase roster p now s.db caseId holder).isOk = true →
      ∀ op ∈ s.opsOn me caseId, op.serverSeq ≤ s.cursor → op ∈ s.held
  | _ => True

end Follower

/-! ### What an assignment shows -/

def Assignee.row (caseId : String) : Assignee → Assignment
  | .team id => { caseId := caseId, userId := none, teamId := some id }
  | .person id => { caseId := caseId, userId := some id, teamId := none }

section Assignments

variable {roster : Roster} {p me : Principal} {now : Timestamp} {db db' : Db} {caseId : String} {holder : Assignee}

theorem live_of_release {level : Assignment → Bool}
    (released : releaseAssignments roster p now db caseId level = .ok db') {a : Assignment} (member : a ∈ db'.assignments)
    (live : a.releasedAt = none) : a ∈ db.assignments := by
  unfold releaseAssignments at released
  dsimp only at released
  split at released
  · obtain rfl := Except.ok.inj released
    obtain ⟨before, present, rfl⟩ := List.mem_map.mp member
    split at live
    · cases live
    · rename_i unhit
      rw [if_neg unhit]
      exact present
  · cases released

theorem assignments_of_insert {row : Assignment} (inserted : insertAssignment roster p db row = .ok db') :
    db'.assignments = db.assignments ++ [row] := by
  unfold insertAssignment at inserted
  dsimp only at inserted
  repeat' split at inserted
  all_goals cases inserted
  rfl

theorem live_of_assign (assigned : dcpAssignCase roster p now db caseId holder = .ok db') :
    holder.row caseId ∈ db'.assignments ∧
      ∀ a ∈ db'.assignments, a.releasedAt = none → a ∈ db.assignments ∨ a = holder.row caseId := by
  cases holder with
  | team team =>
    obtain ⟨one, first, rest⟩ := Lib.bind_ok_iff.mp assigned
    obtain ⟨two, second, third⟩ := Lib.bind_ok_iff.mp rest
    rw [assignments_of_insert third]
    refine ⟨List.mem_append_right _ (List.mem_singleton_self _), fun a member live => ?_⟩
    rcases List.mem_append.mp member with old | new
    · exact .inl (live_of_release first (live_of_release second old live) live)
    · exact .inr (List.mem_singleton.mp new)
  | person user =>
    obtain ⟨one, first, second⟩ := Lib.bind_ok_iff.mp assigned
    rw [assignments_of_insert second]
    refine ⟨List.mem_append_right _ (List.mem_singleton_self _), fun a member live => ?_⟩
    rcases List.mem_append.mp member with old | new
    · exact .inl (live_of_release first old live)
    · exact .inr (List.mem_singleton.mp new)

theorem covers_iff : me.covers holder = true ↔ ((holder.row caseId).userId == some me.userId ||
    (me.dcpHas .sampleAssign && (dcpInList me.teamIds (holder.row caseId).teamId ||
      dcpInList me.visibleUserIds (holder.row caseId).userId))) = true := by
  cases holder with
  | team team => simp [Principal.covers, Assignee.row, dcpInList]
  | person user => simp [Principal.covers, Assignee.row, dcpInList]

theorem caseInScope_of_assign (assigned : dcpAssignCase roster p now db caseId holder = .ok db') (k : String)
    (seen : me.dcpCaseInScope db' k = true) :
    me.dcpCaseInScope db k = true ∨ (k = caseId ∧ me.covers holder = true) := by
  have same := assign_sameWork assigned
  unfold Principal.dcpCaseInScope at seen ⊢
  rw [same.cases, Bool.or_eq_true] at seen
  rcases seen with already | through
  · exact .inl (by rw [already, Bool.true_or])
  · obtain ⟨a, member, holds⟩ := List.any_eq_true.mp through
    simp only [Bool.and_eq_true, beq_iff_eq, Option.isNone_iff_eq_none] at holds
    rcases (live_of_assign assigned).2 a member holds.1.2 with old | rfl
    · refine .inl (Bool.or_eq_true_iff.mpr (.inr (List.any_eq_true.mpr ⟨a, old, ?_⟩)))
      simp only [Bool.and_eq_true, beq_iff_eq, Option.isNone_iff_eq_none]
      exact holds
    · refine .inr ⟨?_, covers_iff.mpr holds.2⟩
      rw [← holds.1.1]
      cases holder <;> rfl

theorem caseInScope_of_covers (assigned : dcpAssignCase roster p now db caseId holder = .ok db')
    (covers : me.covers holder = true) : me.dcpCaseInScope db' caseId = true := by
  unfold Principal.dcpCaseInScope
  refine Bool.or_eq_true_iff.mpr (.inr (List.any_eq_true.mpr ⟨_, (live_of_assign assigned).1, ?_⟩))
  have named : (holder.row caseId).caseId = caseId ∧ (holder.row caseId).releasedAt = none := by
    cases holder <;> exact ⟨rfl, rfl⟩
  rw [named.1, named.2, Bool.and_eq_true]
  exact ⟨by simp, covers_iff.mp covers⟩

end Assignments

theorem Principal.policies_congr {me : Principal} {db db' : Db} (projects : db'.projects = db.projects)
    (cases : db'.cases = db.cases) (assignments : db'.assignments = db.assignments) :
    me.policies db' = me.policies db := by
  unfold Principal.policies Principal.seesProject Principal.dcpCaseInScope Principal.dcpCaseAssignedToMe
  rw [projects, cases, assignments]

theorem resumeAt_lt {cursor bound : Nat} {batch : List StreamRow} (start : cursor < bound)
    (below : ∀ row ∈ batch, row.serverSeq < bound) : Lib.resumeAt StreamRow.serverSeq cursor batch < bound := by
  unfold Lib.resumeAt
  cases last : batch.getLast? with
  | none => exact start
  | some row => exact below row (List.mem_of_getLast? last)

namespace Follower

variable {roster : Roster} {me : Principal} {s : Follower}

structure Inv (me : Principal) (s : Follower) : Prop where
  consistent : s.db.Consistent
  behind : s.cursor < s.db.nextSeq
  delivered : ∀ op ∈ s.shown me, op.serverSeq ≤ s.cursor → op ∈ s.held

theorem mem_shown {op : SubmissionOp} : op ∈ s.shown me ↔ op ∈ s.db.ops.rows ∧
    ∃ row, s.db.submissions.lookup op.submissionId = some row ∧
      (me.policies s.db).seesSubmission row.scope = true := by
  simp only [shown, shownOps, List.mem_filter, Policies.shows, Policies.submission, Option.isSome_filter,
    Option.any_eq_true]

theorem shown_iff_stream {op : SubmissionOp} :
    op ∈ s.shown me ↔ .op op ∈ shownStream (me.policies s.db) s.db := mem_op_streamRows.symm

theorem take_delivered (inv : Inv me s) {limit : Nat} {response : PullResponse}
    (given : Sync.pull (me.policies s.db) s.db s.cursor limit = some response) {op : SubmissionOp}
    (shown : op ∈ s.shown me) (passed : op.serverSeq ≤ response.nextCursor) : op ∈ (s.take response).held := by
  obtain ⟨response', given', page⟩ := @pull_exact (me.policies s.db) s.db inv.consistent.formed
    inv.consistent.sequenced.drawn.numbered s.cursor limit
  obtain rfl := Option.some.inj (given.symm.trans given')
  show op ∈ s.held ++ _
  rcases Nat.lt_or_ge s.cursor op.serverSeq with above | below
  · have ahead : .op op ∈ streamAbove (shownStream (me.policies s.db) s.db) s.cursor :=
      mem_streamAbove.mpr ⟨shown_iff_stream.mp shown, above⟩
    rw [← List.take_append_drop limit (streamAbove _ _), List.mem_append, ← page.rows, ← page.rest] at ahead
    rcases ahead with carried | left
    · exact List.mem_append_right _ (mem_op_streamRows.mp (PullResponse.mem_rows.mp carried))
    · have beyond : response.nextCursor < op.serverSeq := (mem_streamAbove.mp left).2
      omega
  · exact List.mem_append_left _ (inv.delivered op shown below)

theorem Inv.take (inv : Inv me s) {limit : Nat} {response : PullResponse}
    (given : Sync.pull (me.policies s.db) s.db s.cursor limit = some response) : Inv me (s.take response) := by
  refine ⟨inv.consistent, ?_, fun op shown passed => take_delivered inv given shown passed⟩
  obtain ⟨ops, -, whole⟩ := Option.bind_eq_some_iff.mp given
  cases whole
  have numbered := inv.consistent.sequenced.drawn
  refine resumeAt_lt inv.behind fun row member => ?_
  have member : row ∈ (page (shownOps (me.policies s.db) s.db) (shownTombstones (me.policies s.db) s.db) s.cursor
    limit).batch := member
  rw [page_batch (shownStream_numbered numbered.numbered)] at member
  have inStream := (mem_streamAbove.mp (List.mem_of_mem_take member)).1
  refine numbered.below row ?_
  exact ((List.filter_sublist.map _).append (List.filter_sublist.map _)).subset inStream

theorem Inv.catchesUp (inv : Inv me s) : s.CatchesUp me := by
  intro limit response positive given ended op shown
  obtain ⟨response', given', page⟩ := @pull_exact (me.policies s.db) s.db inv.consistent.formed
    inv.consistent.sequenced.drawn.numbered s.cursor limit
  obtain rfl := Option.some.inj (given.symm.trans given')
  refine take_delivered inv given shown ?_
  by_contra ahead
  have left : .op op ∈ streamAbove (shownStream (me.policies s.db) s.db) response.nextCursor :=
    mem_streamAbove.mpr ⟨shown_iff_stream.mp shown, Nat.lt_of_not_le ahead⟩
  have none : streamAbove (shownStream (me.policies s.db) s.db) response.nextCursor = [] := by
    by_contra some'
    rw [(page.more positive).mpr some'] at ended
    cases ended
  rw [none] at left
  cases left

theorem shown_of_push {p : Principal} {req : PushRequest} {response : PushResponse} {db' : Db} (owned : s.db.Owned)
    (returned : Sync.push (p.policies s.db) s.db req = .ok (response, db')) {op : SubmissionOp}
    (shown : op ∈ Follower.shown me { s with db := db' }) : op ∈ s.shown me ∨ s.db.nextSeq ≤ op.serverSeq := by
  let c : Call := ⟨p.policies s.db, s.db, req⟩
  obtain ⟨member, row', found', sees⟩ := mem_shown.mp shown
  rcases c.mem_push_log returned member with old | ⟨op', -, -, n, above, rfl⟩
  · obtain ⟨row, found⟩ := Option.isSome_iff_exists.mp (owned op old)
    obtain ⟨projects, cases, assignments, -⟩ := c.push_frame returned
    have same := c.push_lookup returned found
    have row_eq := Option.some.inj (found'.symm.trans same)
    have scope : row'.scope = row.scope := by
      rw [row_eq]
      split
      · exact applyFolded_scope _ _
      · rfl
    have policies : me.policies db' = me.policies s.db := Principal.policies_congr projects cases assignments
    refine .inl (mem_shown.mpr ⟨old, row, found, ?_⟩)
    rw [← scope, ← policies]
    exact sees
  · exact .inr above

theorem shown_of_same {db' : Db} (same : SameWork s.db db') {op : SubmissionOp}
    (shown : op ∈ Follower.shown me { s with db := db' }) : op ∈ s.db.ops.rows ∧
      ∃ row, s.db.submissions.lookup op.submissionId = some row ∧ (me.policies db').seesSubmission row.scope = true := by
  obtain ⟨member, row', found', sees⟩ := mem_shown.mp shown
  obtain ⟨row, found, scope, -⟩ := same.lookup found'
  refine ⟨by rw [← same.ops]; exact member, row, found, ?_⟩
  rw [scope]
  exact sees

theorem seesProject_congr {db' : Db} (same : SameWork s.db db') (projectId : String) :
    me.seesProject db' projectId = me.seesProject s.db projectId := by
  unfold Principal.seesProject
  rw [same.projects]

theorem mem_opsOn {op : SubmissionOp} {caseId : String} : op ∈ s.opsOn me caseId ↔ op ∈ s.db.ops.rows ∧
    ∃ row, s.db.submissions.lookup op.submissionId = some row ∧ row.caseId = some caseId ∧
      me.seesProject s.db row.projectId = true := by
  simp only [opsOn, List.mem_filter, Option.any_eq_true, Bool.and_eq_true, beq_iff_eq]

theorem shown_of_assign {p : Principal} {now : Timestamp} {caseId : String} {holder : Assignee} {db' : Db}
    (assigned : dcpAssignCase roster p now s.db caseId holder = .ok db') {op : SubmissionOp}
    (shown : op ∈ Follower.shown me { s with db := db' }) :
    op ∈ s.shown me ∨ (me.covers holder = true ∧ op ∈ s.opsOn me caseId) := by
  have same := assign_sameWork assigned
  obtain ⟨member, row, found, sees⟩ := shown_of_same same shown
  have before : (me.policies s.db).seesSubmission row.scope = true → op ∈ s.shown me :=
    fun shows => mem_shown.mpr ⟨member, row, found, shows⟩
  cases cased : row.caseId with
  | none =>
    simp only [Principal.policies, Submission.scope, cased, seesProject_congr same] at sees before
    exact .inl (before sees)
  | some k =>
    simp only [Principal.policies, Submission.scope, cased, Bool.and_eq_true, Bool.or_eq_true, beq_iff_eq,
      seesProject_congr same] at sees before
    rcases sees.2 with own | through
    · exact .inl (before ⟨sees.1, .inl own⟩)
    · rcases caseInScope_of_assign assigned k through with already | ⟨rfl, covers⟩
      · exact .inl (before ⟨sees.1, .inr already⟩)
      · exact .inr ⟨covers, mem_opsOn.mpr ⟨member, row, found, cased, sees.1⟩⟩

theorem Inv.step (inv : Inv me s) {act : FollowerAct} (free : s.NothingBehind roster me act) :
    Inv me (s.step roster me act) := by
  cases act with
  | pull limit =>
    unfold Follower.step
    dsimp only
    split
    · rename_i response given
      exact inv.take given
    · exact inv
  | field act =>
    obtain ⟨consistent, later⟩ := act.run_consistent roster inv.consistent
    refine ⟨consistent, Nat.lt_of_lt_of_le inv.behind later, fun op shown passed => ?_⟩
    rcases act.run_cases roster s.db with ⟨p, req, response, -, returned⟩ |
      ⟨p, now, caseId, holder, rfl, assigned⟩ | ⟨same, assignments⟩
    · rcases shown_of_push inv.consistent.owned returned shown with before | recent
      · exact inv.delivered op before passed
      · have behind := inv.behind
        have here : op.serverSeq ≤ s.cursor := passed
        omega
    · rcases shown_of_assign assigned shown with before | ⟨covers, on⟩
      · exact inv.delivered op before passed
      · exact free covers (by rw [assigned]; rfl) op on passed
    · obtain ⟨member, row, found, sees⟩ := shown_of_same same shown
      rw [Principal.policies_congr same.projects same.cases assignments] at sees
      exact inv.delivered op (mem_shown.mpr ⟨member, row, found, sees⟩) passed

theorem not_catchesUp (inv : Inv me s) {act : FollowerAct} (unfree : ¬ s.NothingBehind roster me act) :
    ¬ (s.step roster me act).CatchesUp me := by
  intro catches
  refine unfree ?_
  cases act with
  | pull limit => trivial
  | field act =>
    cases act with
    | push p req => trivial
    | decide p req => trivial
    | login deviceId person => trivial
    | assign p now caseId holder =>
      intro covers accepted op on passed
      obtain ⟨consistent, -⟩ := (FieldAct.assign p now caseId holder).run_consistent roster inv.consistent
      obtain ⟨db', assigned⟩ : ∃ db', dcpAssignCase roster p now s.db caseId holder = .ok db' := by
        cases outcome : dcpAssignCase roster p now s.db caseId holder with
        | ok db' => exact ⟨db', rfl⟩
        | error e =>
          rw [outcome] at accepted
          cases accepted
      have after : (FieldAct.assign p now caseId holder).run roster s.db = db' := by
        unfold FieldAct.run
        dsimp only
        rw [assigned]
      have same := assign_sameWork assigned
      rw [after] at consistent
      have moved : s.step roster me (.field (.assign p now caseId holder)) = { s with db := db' } := by
        unfold Follower.step
        dsimp only
        rw [after]
      rw [moved] at catches
      obtain ⟨member, row, found, cased, project⟩ := mem_opsOn.mp on
      have shown : op ∈ Follower.shown me { s with db := db' } := by
        obtain ⟨row', found', equal⟩ : ∃ row', db'.submissions.lookup op.submissionId = some row' ∧
            row'.scope = row.scope := by
          have both := same.submissions op.submissionId
          rw [found, Option.map_some] at both
          obtain ⟨row', found', equal⟩ := Option.map_eq_some_iff.mp both
          exact ⟨row', found', (Prod.mk.inj equal).1⟩
        refine mem_shown.mpr ⟨by rw [same.ops]; exact member, row', found', ?_⟩
        rw [equal]
        simp only [Principal.policies, Submission.scope, cased, Bool.and_eq_true, Bool.or_eq_true]
        exact ⟨(seesProject_congr same _).trans project, .inr (caseInScope_of_covers assigned covers)⟩
      obtain ⟨limit, response, positive, given, ended, rows⟩ :=
        @pull_whole (me.policies db') db' consistent.formed consistent.sequenced.drawn.numbered s.cursor
      rcases List.mem_append.mp (catches limit response positive given ended op shown) with held | carried
      · exact held
      · have above : .op op ∈ response.rows := PullResponse.mem_rows.mpr (mem_op_streamRows.mpr carried)
        rw [rows, mem_streamAbove] at above
        exact absurd above.2 (Nat.not_lt.mpr passed)

/-- In a run from cursor 0, every loop that ends leaves the device with all its person is shown exactly when no
assignment brings in what the cursor has passed. -/
theorem catchesUp_iff_nothingBehind (roster : Roster) (me : Principal) {db : Db} (consistent : db.Consistent)
    (acts : List FollowerAct) :
    (∀ first rest, acts = first ++ rest → (first.foldl (step roster me) { db := db }).CatchesUp me) ↔
      ∀ first a rest, acts = first ++ a :: rest →
        (first.foldl (step roster me) { db := db }).NothingBehind roster me a := by
  have start : Inv me { db := db } := by
    refine ⟨consistent, consistent.sequenced.begun, fun op shown passed => ?_⟩
    have positive := consistent.sequenced.positive (.op op) (mem_op_streamRows.mpr (mem_shown.mp shown).1)
    exact absurd passed (Nat.not_le.mpr positive)
  have safe : ∀ s, Inv me s → CatchesUp me s := fun _ inv => inv.catchesUp
  have keeps : ∀ s a, Inv me s → NothingBehind roster me s a → Inv me (step roster me s a) :=
    fun _ _ inv free => inv.step free
  have breaks : ∀ s a, Inv me s → ¬ NothingBehind roster me s a → ¬ CatchesUp me (step roster me s a) :=
    fun _ _ inv unfree => not_catchesUp inv unfree
  exact Lib.safe_reached_iff safe keeps breaks start acts

/-! ### A case that changes hands -/

def given : List FollowerAct :=
  workBegun.map .field ++ [.pull 10, .field (.assign supervisor 3 "c1" (.person "u2"))]

def givenLate : List FollowerAct :=
  workBegun.map .field ++ [.field (handing "d2" "u2" (answerOp "o2" "s2" "d2" 1)), .pull 10,
    .field (.assign supervisor 3 "c1" (.person "u2"))]

set_option maxRecDepth 20000 in
theorem given_catchesUp :
    (given.foldl (step oneTeam (collector "u2")) { db := oneCase }).CatchesUp (collector "u2") := by
  have consistent : oneCase.Consistent := by
    refine ⟨⟨⟨List.Pairwise.nil, by decide⟩, by decide, by decide⟩, fun row member => ?_, fun id row found => ?_⟩
    · cases member
    · cases found
  refine (catchesUp_iff_nothingBehind oneTeam (collector "u2") consistent given).mpr (Lib.along_total_iff.mp ?_) given []
    (List.append_nil _).symm
  refine ⟨fun covers => ?_, fun _ one => ⟨fun covers => ?_, fun _ two => ⟨trivial, fun _ three => ⟨trivial, fun _ four =>
    ⟨fun covers _ op on passed => ?_, fun _ _ => trivial⟩⟩⟩⟩⟩
  · cases covers
  · cases covers
  · obtain rfl := Option.some.inj one
    obtain rfl := Option.some.inj two
    obtain rfl := Option.some.inj three
    obtain rfl := Option.some.inj four
    obtain rfl := List.mem_singleton.mp on
    exact absurd passed (by decide)

set_option maxRecDepth 20000 in
/-- The work begun on the case has a number that the second collector's own has taken their cursor past. -/
theorem givenLate_missing : ¬ ∀ first rest, givenLate = first ++ rest →
    (first.foldl (step oneTeam (collector "u2")) { db := oneCase }).CatchesUp (collector "u2") := by
  intro catches
  have last := catches givenLate [] (List.append_nil _).symm 10 _ (by decide) rfl rfl _ List.mem_cons_self
  have ids := List.mem_map_of_mem (f := SubmissionOp.id) last
  revert ids
  decide

end Follower

end DataCollectionLab.Sync
