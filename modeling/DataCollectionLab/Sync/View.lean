import DataCollectionLab.Sync.Answers
import DataCollectionLab.Sync.CursorRace

/-!
What a pull lets a person see. Ops reach them through the policy of their submission; the policy of `tombstone` asks for
the project alone.
-/

namespace DataCollectionLab.Sync

section View

variable (p : Principal) (db : Db)

def Principal.inView (t : Tombstone) : Bool :=
  match t.subjectType with
  | "repeat_instance" => t.submissionId.any ((p.policies db).shows db)
  | "case" => p.dcpCaseInScope db t.subjectId
  | _ => true

def Principal.TombstonesInView : Prop :=
  ∀ t ∈ shownTombstones (p.policies db) db, p.inView db t = true

instance : Decidable (p.TombstonesInView db) :=
  inferInstanceAs (Decidable (∀ t ∈ shownTombstones (p.policies db) db, p.inView db t = true))

def Principal.viewedTombstones : List Tombstone := (shownTombstones (p.policies db) db).filter (p.inView db)

def Discreet : Prop :=
  ∀ cursor limit response, pull (p.policies db) db cursor limit = some response →
    (∀ op ∈ response.ops, (p.policies db).shows db op.row.submissionId = true) ∧
      ∀ t ∈ response.tombstones, p.inView db t = true

structure SameView (db db' : Db) : Prop where
  ops : ∀ op, op ∈ shownOps (p.policies db) db ↔ op ∈ shownOps (p.policies db') db'
  forms : ∀ op ∈ shownOps (p.policies db) db,
    formInfo (p.policies db) db op.submissionId = formInfo (p.policies db') db' op.submissionId
  tombstones : ∀ t, t ∈ p.viewedTombstones db ↔ t ∈ p.viewedTombstones db'

end View

/-! ### Pages of the same rows -/

theorem mem_streamRows {ops : List SubmissionOp} {tombstones : List Tombstone} {row : StreamRow} :
    row ∈ streamRows ops tombstones ↔
      (∃ op ∈ ops, row = .op op) ∨ ∃ t ∈ tombstones, row = .tombstone t := by
  simp only [streamRows, List.mem_append, List.mem_map, eq_comm]

theorem mem_op_streamRows {ops : List SubmissionOp} {tombstones : List Tombstone} {op : SubmissionOp} :
    .op op ∈ streamRows ops tombstones ↔ op ∈ ops := by
  rw [mem_streamRows]
  constructor
  · rintro (⟨op', member, same⟩ | ⟨t, -, same⟩)
    · cases same
      exact member
    · cases same
  · exact fun member => .inl ⟨op, member, rfl⟩

theorem mem_tombstone_streamRows {ops : List SubmissionOp} {tombstones : List Tombstone} {t : Tombstone} :
    .tombstone t ∈ streamRows ops tombstones ↔ t ∈ tombstones := by
  rw [mem_streamRows]
  constructor
  · rintro (⟨op, -, same⟩ | ⟨t', member, same⟩)
    · cases same
    · cases same
      exact member
  · exact fun member => .inr ⟨t, member, rfl⟩

theorem PullResponse.mem_rows {response : PullResponse} {row : StreamRow} :
    row ∈ response.rows ↔ row ∈ streamRows (response.ops.map (·.row)) response.tombstones := by
  rw [PullResponse.rows, Lib.mem_orderBy]

theorem page_congr {ops ops' : List SubmissionOp} {tombstones tombstones' : List Tombstone}
    (numbered : Numbered (streamRows ops tombstones)) (numbered' : Numbered (streamRows ops' tombstones'))
    (same : ∀ row, row ∈ streamRows ops tombstones ↔ row ∈ streamRows ops' tombstones') (cursor limit : Nat) :
    page ops tombstones cursor limit = page ops' tombstones' cursor limit := by
  have stream : streamAbove (streamRows ops tombstones) cursor = streamAbove (streamRows ops' tombstones') cursor :=
    (streamAbove_ascending numbered cursor).eq_of_mem_iff (streamAbove_ascending numbered' cursor) fun row => by
      rw [mem_streamAbove, mem_streamAbove, same]
  have batch : (page ops tombstones cursor limit).batch = (page ops' tombstones' cursor limit).batch := by
    rw [page_batch numbered, page_batch numbered', stream]
  have more : (page ops tombstones cursor limit).hasMore = (page ops' tombstones' cursor limit).hasMore := by
    rcases Nat.eq_zero_or_pos limit with rfl | positive
    · simp [page]
    · rw [Bool.eq_iff_iff, page_hasMore positive, page_hasMore positive, stream]
  have next : (page ops tombstones cursor limit).nextCursor = (page ops' tombstones' cursor limit).nextCursor := by
    show Lib.resumeAt _ cursor (page ops tombstones cursor limit).batch = Lib.resumeAt _ cursor (page ops' _ _ _).batch
    rw [batch]
  calc page ops tombstones cursor limit
      = ⟨(page ops tombstones cursor limit).batch, (page ops tombstones cursor limit).nextCursor,
          (page ops tombstones cursor limit).hasMore⟩ := rfl
    _ = page ops' tombstones' cursor limit := by rw [batch, next, more]

section Whole

variable {pol : Policies} {db : Db} (formed : db.Formed) (numbered : Numbered (streamRows db.ops.rows db.tombstones))
include formed numbered

theorem pull_whole (cursor : Nat) : ∃ limit response, 1 ≤ limit ∧ pull pol db cursor limit = some response ∧
    response.hasMore = false ∧ response.rows = streamAbove (shownStream pol db) cursor := by
  obtain ⟨response, given, page'⟩ :=
    @pull_exact pol db formed numbered cursor ((streamAbove (shownStream pol db) cursor).length + 1)
  refine ⟨_, response, Nat.le_add_left 1 _, given, ?_, ?_⟩
  · rw [← Bool.not_eq_true, page'.more (Nat.le_add_left 1 _), page'.rest, not_not]
    exact List.drop_eq_nil_of_le (Nat.le_succ _)
  · rw [page'.rows, List.take_of_length_le (Nat.le_succ _)]

theorem pull_shown {cursor limit : Nat} {response : PullResponse} (given : pull pol db cursor limit = some response) :
    ∀ row ∈ response.rows, row ∈ shownStream pol db := by
  obtain ⟨response', given', page'⟩ := @pull_exact pol db formed numbered cursor limit
  obtain rfl := Option.some.inj (given.symm.trans given')
  intro row member
  rw [page'.rows] at member
  exact (mem_streamAbove.mp (List.mem_of_mem_take member)).1

end Whole

variable {p : Principal} {db db' : Db}

theorem tombstonesInView_of_discreet (formed : db.Formed) (sequenced : db.Sequenced) (discreet : Discreet p db) :
    p.TombstonesInView db := by
  intro t shown
  obtain ⟨limit, response, -, given, -, rows⟩ := @pull_whole (p.policies db) db formed sequenced.drawn.numbered 0
  have stored : t ∈ db.tombstones := (List.mem_filter.mp shown).1
  have above : 0 < t.serverSeq := sequenced.positive (.tombstone t) (mem_tombstone_streamRows.mpr stored)
  have carried : StreamRow.tombstone t ∈ response.rows := by
    rw [rows, mem_streamAbove]
    exact ⟨mem_tombstone_streamRows.mpr shown, above⟩
  rw [PullResponse.mem_rows, mem_tombstone_streamRows] at carried
  exact (discreet 0 limit response given).2 t carried

theorem discreet_of_tombstonesInView (formed : db.Formed) (sequenced : db.Sequenced)
    (inView : p.TombstonesInView db) : Discreet p db := by
  intro cursor limit response given
  have shown := pull_shown formed sequenced.drawn.numbered given
  constructor
  · intro op member
    have row := shown (.op op.row)
      (PullResponse.mem_rows.mpr (mem_op_streamRows.mpr (List.mem_map_of_mem member)))
    exact (List.mem_filter.mp (mem_op_streamRows.mp row)).2
  · intro t member
    have row := shown (.tombstone t) (PullResponse.mem_rows.mpr (mem_tombstone_streamRows.mpr member))
    exact inView t (mem_tombstone_streamRows.mp row)

theorem viewedTombstones_eq (inView : p.TombstonesInView db) :
    p.viewedTombstones db = shownTombstones (p.policies db) db :=
  List.filter_eq_self.mpr inView

theorem pull_congr (sequenced : db.Sequenced) (sequenced' : db'.Sequenced) (inView : p.TombstonesInView db)
    (inView' : p.TombstonesInView db') (same : SameView p db db') (cursor limit : Nat) :
    pull (p.policies db) db cursor limit = pull (p.policies db') db' cursor limit := by
  have stones : ∀ t, t ∈ shownTombstones (p.policies db) db ↔ t ∈ shownTombstones (p.policies db') db' := by
    intro t
    rw [← viewedTombstones_eq inView, ← viewedTombstones_eq inView']
    exact same.tombstones t
  have shown := @shownStream_numbered (p.policies db) db sequenced.drawn.numbered
  have shown' := @shownStream_numbered (p.policies db') db' sequenced'.drawn.numbered
  have pages : page (shownOps (p.policies db) db) (shownTombstones (p.policies db) db) cursor limit =
      page (shownOps (p.policies db') db') (shownTombstones (p.policies db') db') cursor limit := by
    refine page_congr shown shown' (fun row => ?_) cursor limit
    simp only [mem_streamRows, same.ops, stones]
  have forms : ∀ op ∈ (page (shownOps (p.policies db) db) (shownTombstones (p.policies db) db) cursor limit).batch.filterMap
      StreamRow.op?, formInfo (p.policies db) db op.submissionId = formInfo (p.policies db') db' op.submissionId := by
    intro op member
    obtain ⟨row, inBatch, isOp⟩ := List.mem_filterMap.mp member
    rw [page_batch shown] at inBatch
    have inStream := (mem_streamAbove.mp (List.mem_of_mem_take inBatch)).1
    cases row with
    | op row =>
      obtain rfl := Option.some.inj isOp
      exact same.forms _ (mem_op_streamRows.mp inStream)
    | tombstone t => cases isOp
  unfold pull
  rw [← pages]
  dsimp only
  congr 1
  refine Lib.mapM_congr fun op member => ?_
  rw [forms op member]

/-- Pages keep to the view, and are settled by it, exactly where every tombstone of the organisation's projects is of
work in view. -/
theorem pull_keeps_to_view_iff (p : Principal) {db db' : Db} (formed : db.Formed) (formed' : db'.Formed)
    (sequenced : db.Sequenced) (sequenced' : db'.Sequenced) :
    (Discreet p db ∧ Discreet p db' ∧ (SameView p db db' → ∀ cursor limit,
      pull (p.policies db) db cursor limit = pull (p.policies db') db' cursor limit)) ↔
      p.TombstonesInView db ∧ p.TombstonesInView db' := by
  constructor
  · rintro ⟨discreet, discreet', -⟩
    exact ⟨tombstonesInView_of_discreet formed sequenced discreet,
      tombstonesInView_of_discreet formed' sequenced' discreet'⟩
  · rintro ⟨inView, inView'⟩
    exact ⟨discreet_of_tombstonesInView formed sequenced inView,
      discreet_of_tombstonesInView formed' sequenced' inView',
      fun same cursor limit => pull_congr sequenced sequenced' inView inView' same cursor limit⟩

/-! ### Two collectors of one form -/

def handing (device person : String) (op : SyncOp) : FieldAct :=
  .push (collector person) (carrying device person [op])

def deletion (opId submission device : String) : SyncOp where
  opId := opId
  submissionId := submission
  formId := "household"
  formVersion := 1
  kind := .repeatDelete
  path := some "kids[a]"
  deviceId := device
  counter := 1

def collected (acts : List FieldAct) : Db := runField {} (oneForm [("d1", some "u1"), ("d2", some "u2")]) acts

def ownDeletion : Db := collected [handing "d1" "u1" (deletion "o1" "s1" "d1")]

def besideOthers : Db :=
  collected [handing "d1" "u1" (deletion "o1" "s1" "d1"), handing "d2" "u2" (answerOp "o2" "s2" "d2" 1)]

def othersDeletion : Db := collected [handing "d2" "u2" (deletion "o2" "s2" "d2")]

set_option maxRecDepth 20000 in
theorem besideOthers_pulls : Discreet (collector "u1") ownDeletion ∧ Discreet (collector "u1") besideOthers ∧
    ∀ cursor limit, pull ((collector "u1").policies ownDeletion) ownDeletion cursor limit =
      pull ((collector "u1").policies besideOthers) besideOthers cursor limit := by
  have formed : ownDeletion.Formed := by
    intro id submission found
    have stored : (⟨id, submission⟩ : Sigma fun _ => Submission) ∈ ownDeletion.submissions.entries :=
      AList.mem_lookup_iff.mp found
    cases List.mem_singleton.mp stored
    exact ⟨_, _, rfl, rfl⟩
  have formed' : besideOthers.Formed := by
    intro id submission found
    have stored : (⟨id, submission⟩ : Sigma fun _ => Submission) ∈ besideOthers.submissions.entries :=
      AList.mem_lookup_iff.mp found
    rcases List.mem_cons.mp stored with same | stored
    · cases same
      exact ⟨_, _, rfl, rfl⟩
    · cases List.mem_singleton.mp stored
      exact ⟨_, _, rfl, rfl⟩
  have sequenced : ownDeletion.Sequenced := ⟨⟨by unfold Numbered; decide, by decide⟩, by decide, by decide⟩
  have sequenced' : besideOthers.Sequenced := ⟨⟨by unfold Numbered; decide, by decide⟩, by decide, by decide⟩
  obtain ⟨discreet, discreet', same⟩ :=
    (pull_keeps_to_view_iff (collector "u1") formed formed' sequenced sequenced').mpr ⟨by decide, by decide⟩
  refine ⟨discreet, discreet', same ⟨fun op => ?_, fun op member => ?_, fun t => ?_⟩⟩
  · exact Iff.rfl
  · obtain rfl := List.mem_singleton.mp member
    rfl
  · exact Iff.rfl

set_option maxRecDepth 20000 in
/-- The first collector sees no work, and is told of the second's deletion; without it their page would be another. -/
theorem othersDeletion_told : ¬ Discreet (collector "u1") othersDeletion ∧
    SameView (collector "u1") othersDeletion { othersDeletion with tombstones := [] } ∧
    pull ((collector "u1").policies othersDeletion) othersDeletion 0 10 ≠
      pull ((collector "u1").policies { othersDeletion with tombstones := [] })
        { othersDeletion with tombstones := [] } 0 10 := by
  refine ⟨fun discreet => ?_, ⟨fun op => Iff.rfl, fun op member => ?_, fun t => Iff.rfl⟩, fun same => ?_⟩
  · have told := (discreet 0 10 _ rfl).2 _ List.mem_cons_self
    revert told
    decide
  · cases member
  · have cursors := congrArg (Option.map PullResponse.nextCursor) same
    revert cursors
    decide

end DataCollectionLab.Sync
