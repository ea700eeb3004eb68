import Mathlib.Algebra.BigOperators.Group.List.Basic
import Mathlib.Algebra.Ring.Nat
import DataCollectionLab.Lib.Paging
import DataCollectionLab.Sync.Store

/-!
`pull`: ops and tombstones share one sequence, so one integer resumes both. Each stream is read up
to one row past the limit, the two are merged, and the merged stream is cut.
-/

namespace DataCollectionLab.Sync

inductive StreamRow where
  | op (row : SubmissionOp)
  | tombstone (row : Tombstone)

namespace StreamRow

def serverSeq : StreamRow → Nat
  | .op row => row.serverSeq
  | .tombstone row => row.serverSeq

def kind : StreamRow → String
  | .op _ => "op"
  | .tombstone _ => "tombstone"

def op? : StreamRow → Option SubmissionOp
  | .op row => some row
  | .tombstone _ => none

def tombstone? : StreamRow → Option Tombstone
  | .op _ => none
  | .tombstone row => some row

/-- The order of the tuples `(server_seq, kind, row)`. No table has a number twice, so two rows
are never compared. -/
def Le (a b : StreamRow) : Prop :=
  a.serverSeq < b.serverSeq ∨ (a.serverSeq = b.serverSeq ∧ a.kind ≤ b.kind)

instance : DecidableRel Le := fun a b =>
  inferInstanceAs
    (Decidable (a.serverSeq < b.serverSeq ∨ (a.serverSeq = b.serverSeq ∧ a.kind ≤ b.kind)))

instance : IsTrans StreamRow Le where
  trans a b c := by
    rintro (less | ⟨equal, le⟩) (less' | ⟨equal', le'⟩)
    · exact Or.inl (by omega)
    · exact Or.inl (by omega)
    · exact Or.inl (by omega)
    · exact Or.inr ⟨equal.trans equal', String.le_trans le le'⟩

instance : Std.Total Le where
  total a b := by
    rcases Nat.lt_trichotomy a.serverSeq b.serverSeq with less | equal | more
    · exact Or.inl (Or.inl less)
    · rcases String.le_total a.kind b.kind with le | ge
      · exact Or.inl (Or.inr ⟨equal, le⟩)
      · exact Or.inr (Or.inr ⟨equal.symm, ge⟩)
    · exact Or.inr (Or.inl more)

end StreamRow

def selectAfter {α : Type} (serverSeq : α → Nat) (rows : List α) (cursor n : Nat) : List α :=
  (Lib.orderBy serverSeq (rows.filter fun row => cursor < serverSeq row)).take n

/-- What `pull` settles about the two streams before it reads anything else. -/
structure Page where
  batch : List StreamRow
  nextCursor : Nat
  hasMore : Bool

def merged (ops : List SubmissionOp) (tombstones : List Tombstone) (cursor limit : Nat) :
    List StreamRow :=
  if 0 < limit then
    ((selectAfter (·.serverSeq) ops cursor (limit + 1)).map StreamRow.op ++
      (selectAfter (·.serverSeq) tombstones cursor (limit + 1)).map StreamRow.tombstone).insertionSort
      StreamRow.Le
  else []

def page (ops : List SubmissionOp) (tombstones : List Tombstone) (cursor limit : Nat) : Page :=
  let merged := merged ops tombstones cursor limit
  let batch := merged.take limit
  { batch := batch
    nextCursor := Lib.resumeAt StreamRow.serverSeq cursor batch
    hasMore := decide (0 < limit ∧ batch.length < merged.length) }

structure PulledOp where
  row : SubmissionOp
  formId : String
  formVersion : Nat

structure PullResponse where
  ops : List PulledOp
  tombstones : List Tombstone
  nextCursor : Nat
  hasMore : Bool

def formInfo (pol : Policies) (db : Db) (submissionId : String) : Option (String × Nat) := do
  let submission ← pol.submission db submissionId
  let version ← db.formVersions.lookup submission.formVersionId
  let form ← db.forms.lookup version.formId
  return (form.formKey, version.version)

def shownOps (pol : Policies) (db : Db) : List SubmissionOp :=
  db.ops.rows.filter fun row => pol.shows db row.submissionId

def shownTombstones (pol : Policies) (db : Db) : List Tombstone :=
  db.tombstones.filter fun row => pol.seesProject row.projectId

/-- `pull`, as far as the streams go. `none` is the KeyError of an op without its form. -/
def pull (pol : Policies) (db : Db) (cursor limit : Nat) : Option PullResponse := do
  let page := page (shownOps pol db) (shownTombstones pol db) cursor limit
  let ops ← (page.batch.filterMap StreamRow.op?).mapM fun row =>
    (formInfo pol db row.submissionId).map fun info => (⟨row, info.1, info.2⟩ : PulledOp)
  return { ops := ops
           tombstones := page.batch.filterMap StreamRow.tombstone?
           nextCursor := page.nextCursor
           hasMore := page.hasMore }

def pulls (pol : Policies) (db : Db) : Nat → List Nat → Option (List PullResponse)
  | _, [] => some []
  | cursor, limit :: limits => do
    let response ← pull pol db cursor limit
    let later ← pulls pol db response.nextCursor limits
    return response :: later

/-! ### The stream the pages are cut from -/

def streamRows (ops : List SubmissionOp) (tombstones : List Tombstone) : List StreamRow :=
  ops.map .op ++ tombstones.map .tombstone

def streamAbove (rows : List StreamRow) (cursor : Nat) : List StreamRow :=
  Lib.orderBy StreamRow.serverSeq (rows.filter fun row => cursor < row.serverSeq)

def Numbered (rows : List StreamRow) : Prop := rows.Pairwise fun a b => a.serverSeq ≠ b.serverSeq

section Page

variable {ops : List SubmissionOp} {tombstones : List Tombstone}

theorem mem_streamAbove {rows : List StreamRow} {cursor : Nat} {row : StreamRow} :
    row ∈ streamAbove rows cursor ↔ row ∈ rows ∧ cursor < row.serverSeq := by
  rw [streamAbove, Lib.mem_orderBy, List.mem_filter, decide_eq_true_eq]

theorem streamAbove_ascending {rows : List StreamRow} (numbered : Numbered rows) (cursor : Nat) :
    Lib.Ascending StreamRow.serverSeq (streamAbove rows cursor) :=
  Lib.orderBy_ascending (numbered.filter _)

def tableAbove {α : Type} (seq : α → Nat) (lift : α → StreamRow) (rows : List α) (cursor : Nat) :
    List StreamRow :=
  (Lib.orderBy seq (rows.filter fun row => cursor < seq row)).map lift

theorem mem_tableAbove {α : Type} {seq : α → Nat} {lift : α → StreamRow} {rows : List α}
    (same : ∀ row, (lift row).serverSeq = seq row) {cursor : Nat} {row : StreamRow} :
    row ∈ tableAbove seq lift rows cursor ↔ row ∈ rows.map lift ∧ cursor < row.serverSeq := by
  simp only [tableAbove, List.mem_map, Lib.mem_orderBy, List.mem_filter, decide_eq_true_eq]
  constructor
  · rintro ⟨r, ⟨member, above⟩, rfl⟩
    exact ⟨⟨r, member, rfl⟩, by rwa [same]⟩
  · rintro ⟨⟨r, member, rfl⟩, above⟩
    exact ⟨r, ⟨member, by rwa [same] at above⟩, rfl⟩

theorem tableAbove_ascending {α : Type} {seq : α → Nat} {lift : α → StreamRow} {rows : List α}
    (same : ∀ row, (lift row).serverSeq = seq row) (numbered : Numbered (rows.map lift))
    (cursor : Nat) : Lib.Ascending StreamRow.serverSeq (tableAbove seq lift rows cursor) := by
  have apart : rows.Pairwise fun a b => seq a ≠ seq b := by
    refine (List.pairwise_map.mp numbered).imp fun {a b} differ => ?_
    rwa [same, same] at differ
  refine List.pairwise_map.mpr ((Lib.orderBy_ascending (apart.filter _)).imp fun {a b} less => ?_)
  rwa [same, same]

def selected (ops : List SubmissionOp) (tombstones : List Tombstone) (cursor n : Nat) :
    List StreamRow :=
  (tableAbove SubmissionOp.serverSeq .op ops cursor).take n ++
    (tableAbove Tombstone.serverSeq .tombstone tombstones cursor).take n

theorem merged_eq {limit : Nat} (positive : 0 < limit) (cursor : Nat) :
    merged ops tombstones cursor limit =
      (selected ops tombstones cursor (limit + 1)).insertionSort StreamRow.Le := by
  unfold merged selected tableAbove selectAfter
  rw [if_pos positive, List.map_take, List.map_take]

theorem streamAbove_length (cursor : Nat) :
    (streamAbove (streamRows ops tombstones) cursor).length =
      (tableAbove SubmissionOp.serverSeq .op ops cursor).length +
        (tableAbove Tombstone.serverSeq .tombstone tombstones cursor).length := by
  unfold streamAbove tableAbove streamRows Lib.orderBy
  simp only [List.length_insertionSort, List.length_map, List.filter_append, List.length_append,
    List.filter_map]
  rfl

theorem page_hasMore {limit : Nat} (positive : 0 < limit) (cursor : Nat) :
    (page ops tombstones cursor limit).hasMore = true ↔
      limit < (streamAbove (streamRows ops tombstones) cursor).length := by
  show decide (0 < limit ∧ ((merged ops tombstones cursor limit).take limit).length <
    (merged ops tombstones cursor limit).length) = true ↔ _
  rw [decide_eq_true_eq, streamAbove_length, merged_eq positive, List.length_take,
    List.length_insertionSort, selected, List.length_append, List.length_take, List.length_take]
  omega

variable (numbered : Numbered (streamRows ops tombstones))
include numbered

theorem selected_numbered (cursor n : Nat) : Numbered (selected ops tombstones cursor n) := by
  obtain ⟨left, right, cross⟩ := List.pairwise_append.mp numbered
  have part : ∀ {l : List StreamRow}, Lib.Ascending StreamRow.serverSeq l →
      Numbered (l.take n) := fun {l} up =>
    (up.sublist (List.take_sublist n l)).imp fun less => Nat.ne_of_lt less
  refine List.pairwise_append.mpr ⟨part (tableAbove_ascending (fun _ => rfl) left cursor),
    part (tableAbove_ascending (fun _ => rfl) right cursor), ?_⟩
  intro a one b two
  exact cross a ((mem_tableAbove fun _ => rfl).mp (List.mem_of_mem_take one)).1 b
    ((mem_tableAbove fun _ => rfl).mp (List.mem_of_mem_take two)).1

theorem page_batch (cursor limit : Nat) : (page ops tombstones cursor limit).batch =
    (streamAbove (streamRows ops tombstones) cursor).take limit := by
  show (merged ops tombstones cursor limit).take limit = _
  rcases Nat.eq_zero_or_pos limit with rfl | positive
  · simp
  · obtain ⟨left, right, -⟩ := List.pairwise_append.mp numbered
    have ops' : Lib.Ascending _ (tableAbove SubmissionOp.serverSeq .op ops cursor) :=
      tableAbove_ascending (fun _ => rfl) left cursor
    have tombstones' : Lib.Ascending _ (tableAbove Tombstone.serverSeq .tombstone tombstones cursor) :=
      tableAbove_ascending (fun _ => rfl) right cursor
    rw [merged_eq positive]
    refine Lib.take_merge (Nat.le_succ limit) ops' tombstones' ?_
      (streamAbove_ascending numbered cursor) ?_ ?_
    · exact Lib.ascending_of_perm (List.perm_insertionSort _ _) (List.pairwise_insertionSort _ _)
        (fun a b le => le.elim Nat.le_of_lt fun both => Nat.le_of_eq both.1)
        (selected_numbered numbered cursor (limit + 1))
    · intro row
      rw [List.mem_insertionSort, selected, List.mem_append]
    · intro row
      have inOps : row ∈ tableAbove SubmissionOp.serverSeq .op ops cursor ↔ _ :=
        mem_tableAbove fun _ => rfl
      have inTombstones : row ∈ tableAbove Tombstone.serverSeq .tombstone tombstones cursor ↔ _ :=
        mem_tableAbove fun _ => rfl
      rw [mem_streamAbove, inOps, inTombstones, streamRows, List.mem_append, or_and_right]

theorem page_rest (cursor limit : Nat) :
    streamAbove (streamRows ops tombstones) (page ops tombstones cursor limit).nextCursor =
      (streamAbove (streamRows ops tombstones) cursor).drop limit := by
  have up := streamAbove_ascending numbered cursor
  have resumes : (page ops tombstones cursor limit).nextCursor =
      Lib.resumeAt StreamRow.serverSeq cursor
        ((streamAbove (streamRows ops tombstones) cursor).take limit) := by
    rw [← page_batch numbered]
    rfl
  rw [resumes, ← Lib.filter_resumeAt up (fun row member => (mem_streamAbove.mp member).2) limit]
  have further : cursor ≤ Lib.resumeAt StreamRow.serverSeq cursor
      ((streamAbove (streamRows ops tombstones) cursor).take limit) := by
    unfold Lib.resumeAt
    cases last : ((streamAbove (streamRows ops tombstones) cursor).take limit).getLast? with
    | none => exact Nat.le_refl _
    | some row =>
      have member := List.mem_of_mem_take (List.mem_of_getLast? last)
      exact Nat.le_of_lt (mem_streamAbove.mp member).2
  refine (streamAbove_ascending numbered _).eq_of_mem_iff (up.filter _) fun row => ?_
  rw [mem_streamAbove, List.mem_filter, mem_streamAbove, decide_eq_true_eq]
  constructor
  · rintro ⟨member, beyond⟩
    exact ⟨⟨member, Nat.lt_of_le_of_lt further beyond⟩, beyond⟩
  · rintro ⟨⟨member, -⟩, beyond⟩
    exact ⟨member, beyond⟩

end Page

def PullResponse.rows (response : PullResponse) : List StreamRow :=
  Lib.orderBy StreamRow.serverSeq
    (streamRows (response.ops.map (·.row)) response.tombstones)

def Db.Formed (db : Db) : Prop :=
  ∀ id submission, db.submissions.lookup id = some submission →
    ∃ version form, db.formVersions.lookup submission.formVersionId = some version ∧
      db.forms.lookup version.formId = some form

def shownStream (pol : Policies) (db : Db) : List StreamRow :=
  streamRows (shownOps pol db) (shownTombstones pol db)

structure ExactPage (pol : Policies) (db : Db) (cursor limit : Nat) (response : PullResponse) :
    Prop where
  rows : response.rows = (streamAbove (shownStream pol db) cursor).take limit
  rest : streamAbove (shownStream pol db) response.nextCursor =
    (streamAbove (shownStream pol db) cursor).drop limit
  none : limit = 0 → response.nextCursor = cursor ∧ response.ops = [] ∧ response.tombstones = []
  count : 1 ≤ limit → response.ops.length + response.tombstones.length =
    min limit (streamAbove (shownStream pol db) cursor).length
  more : 1 ≤ limit →
    (response.hasMore = true ↔ streamAbove (shownStream pol db) response.nextCursor ≠ [])

inductive ExactPages (pol : Policies) (db : Db) : Nat → List Nat → List PullResponse → Prop where
  | nil (cursor : Nat) : ExactPages pol db cursor [] []
  | cons {cursor limit : Nat} {limits : List Nat} {response : PullResponse}
      {later : List PullResponse} (first : ExactPage pol db cursor limit response)
      (rest : ExactPages pol db response.nextCursor limits later) :
      ExactPages pol db cursor (limit :: limits) (response :: later)

theorem parts_perm (batch : List StreamRow) :
    (streamRows (batch.filterMap StreamRow.op?) (batch.filterMap StreamRow.tombstone?)).Perm
      batch := by
  induction batch with
  | nil => exact List.Perm.refl _
  | cons row batch ih =>
    cases row with
    | op row => exact ih.cons _
    | tombstone row => exact List.perm_middle.trans (ih.cons _)

theorem mapM_rows {rows : List SubmissionOp} {f : SubmissionOp → Option PulledOp}
    (each : ∀ row ∈ rows, ∃ pulled, f row = some pulled ∧ pulled.row = row) :
    ∃ pulled, rows.mapM f = some pulled ∧ pulled.map (·.row) = rows := by
  induction rows with
  | nil => exact ⟨[], rfl, rfl⟩
  | cons row rows ih =>
    obtain ⟨⟨first, given, same⟩, others⟩ := List.forall_mem_cons.mp each
    obtain ⟨later, given', same'⟩ := ih others
    refine ⟨first :: later, ?_, by rw [List.map_cons, same, same']⟩
    rw [List.mapM_cons, given, given']
    rfl

theorem rows_of_mapM {rows : List SubmissionOp} {f : SubmissionOp → Option PulledOp}
    (each : ∀ row pulled, f row = some pulled → pulled.row = row) {pulled : List PulledOp}
    (given : rows.mapM f = some pulled) : pulled.map (·.row) = rows := by
  induction rows generalizing pulled with
  | nil =>
    cases given
    rfl
  | cons row rows ih =>
    rw [List.mapM_cons] at given
    obtain ⟨first, one, given⟩ := Option.bind_eq_some_iff.mp given
    obtain ⟨later, others, whole⟩ := Option.bind_eq_some_iff.mp given
    cases whole
    rw [List.map_cons, each row first one, ih others]

theorem pull_stored {pol : Policies} {db : Db} {cursor limit : Nat} {response : PullResponse}
    (pulled : pull pol db cursor limit = some response) {op : PulledOp} (member : op ∈ response.ops) :
    op.row ∈ db.ops.rows := by
  obtain ⟨ops, given, whole⟩ := Option.bind_eq_some_iff.mp pulled
  cases whole
  have rows := rows_of_mapM (fun row pulled made => by
    obtain ⟨_, -, rfl⟩ := Option.map_eq_some_iff.mp made
    rfl) given
  have present : op.row ∈ (page (shownOps pol db) (shownTombstones pol db) cursor limit).batch.filterMap
      StreamRow.op? := rows ▸ List.mem_map_of_mem member
  obtain ⟨row, inBatch, same⟩ := List.mem_filterMap.mp present
  have inMerged := List.mem_of_mem_take inBatch
  unfold merged at inMerged
  split at inMerged
  · rw [List.mem_insertionSort] at inMerged
    rcases List.mem_append.mp inMerged with isOp | isTombstone
    · obtain ⟨stored, selected, rfl⟩ := List.mem_map.mp isOp
      cases same
      have shown := (Lib.mem_orderBy.mp (List.mem_of_mem_take selected))
      exact (List.mem_filter.mp (List.mem_filter.mp shown).1).1
    · obtain ⟨_, -, rfl⟩ := List.mem_map.mp isTombstone
      cases same
  · cases inMerged

section Runs

variable {pol : Policies} {db : Db} (formed : db.Formed)
  (numbered : Numbered (streamRows db.ops.rows db.tombstones))
include numbered

theorem shownStream_numbered : Numbered (shownStream pol db) :=
  numbered.sublist ((List.filter_sublist.map _).append (List.filter_sublist.map _))

include formed

theorem pull_exact (cursor limit : Nat) :
    ∃ response, pull pol db cursor limit = some response ∧
      ExactPage pol db cursor limit response := by
  have shown : Numbered (shownStream pol db) := shownStream_numbered numbered
  set p := page (shownOps pol db) (shownTombstones pol db) cursor limit with p_eq
  have batch : p.batch = (streamAbove (shownStream pol db) cursor).take limit :=
    page_batch shown cursor limit
  have mine : ∀ row ∈ p.batch.filterMap StreamRow.op?, ∃ pulled : PulledOp,
      (formInfo pol db row.submissionId).map (fun info => (⟨row, info.1, info.2⟩ : PulledOp)) =
        some pulled ∧ pulled.row = row := by
    intro row member
    have present := (parts_perm p.batch).subset (List.mem_append_left _ (List.mem_map_of_mem member))
    rw [batch] at present
    have inStream := (mem_streamAbove.mp (List.mem_of_mem_take present)).1
    have visible : row ∈ shownOps pol db := by
      rcases List.mem_append.mp inStream with op | tombstone
      · obtain ⟨r, stored, same⟩ := List.mem_map.mp op
        cases same
        exact stored
      · obtain ⟨r, -, same⟩ := List.mem_map.mp tombstone
        cases same
    obtain ⟨submission, found⟩ := Option.isSome_iff_exists.mp (List.mem_filter.mp visible).2
    obtain ⟨version, form, pinned, named⟩ :=
      formed row.submissionId submission (Option.filter_eq_some_iff.mp found).1
    refine ⟨⟨row, form.formKey, version.version⟩, ?_, rfl⟩
    have info : formInfo pol db row.submissionId = some (form.formKey, version.version) := by
      simp [formInfo, found, pinned, named]
    rw [info]
    rfl
  obtain ⟨ops, given, same⟩ := mapM_rows mine
  refine ⟨⟨ops, p.batch.filterMap StreamRow.tombstone?, p.nextCursor, p.hasMore⟩, ?_, ?_⟩
  · unfold pull
    rw [← p_eq]
    simp only [given, Option.bind_eq_bind, Option.bind_some]
    rfl
  · have perm := parts_perm p.batch
    rw [← same] at perm
    have up : Lib.Ascending StreamRow.serverSeq p.batch := by
      rw [batch]
      exact (streamAbove_ascending shown cursor).sublist (List.take_sublist _ _)
    have rest : streamAbove (shownStream pol db) p.nextCursor = _ := page_rest shown cursor limit
    refine ⟨?_, rest, ?_, ?_, ?_⟩
    · rw [← batch]
      refine (Lib.orderBy_ascending ?_).eq_of_mem_iff up fun row => ?_
      · exact (perm.pairwise_iff fun {a b} differ => differ.symm).mpr
          (up.imp fun less => Nat.ne_of_lt less)
      · rw [Lib.mem_orderBy]
        exact perm.mem_iff
    · rintro rfl
      rw [List.take_zero] at batch
      rw [batch] at same
      refine ⟨?_, List.map_eq_nil_iff.mp same, by rw [batch]; rfl⟩
      show Lib.resumeAt StreamRow.serverSeq cursor p.batch = cursor
      rw [batch]
      rfl
    · intro _
      have count := perm.length_eq
      rw [batch, List.length_take] at count
      rw [← count, ← batch]
      simp [streamRows]
    · intro positive
      rw [rest, Ne, List.drop_eq_nil_iff, Nat.not_le]
      exact page_hasMore positive cursor

theorem pulls_exact (cursor : Nat) (limits : List Nat) :
    ∃ responses, pulls pol db cursor limits = some responses ∧
      ExactPages pol db cursor limits responses := by
  induction limits generalizing cursor with
  | nil => exact ⟨[], rfl, .nil cursor⟩
  | cons limit limits ih =>
    obtain ⟨response, given, first⟩ := pull_exact formed numbered cursor limit
    obtain ⟨later, given', rest⟩ := ih response.nextCursor
    refine ⟨response :: later, ?_, .cons first rest⟩
    rw [pulls, given]
    simp only [Option.bind_eq_bind, Option.bind_some, given']
    rfl

end Runs

theorem ExactPages.flatMap_rows {pol : Policies} {db : Db} {cursor : Nat} {limits : List Nat}
    {responses : List PullResponse} (run : ExactPages pol db cursor limits responses) :
    responses.flatMap (·.rows) = (streamAbove (shownStream pol db) cursor).take limits.sum := by
  induction run with
  | nil cursor => rfl
  | cons first rest ih =>
    rw [List.flatMap_cons, List.sum_cons, List.take_add, ih, first.rest, first.rows]

theorem ExactPages.ends {pol : Policies} {db : Db} {cursor : Nat} {limits : List Nat}
    {responses : List PullResponse} (run : ExactPages pol db cursor limits responses)
    (positive : ∀ limit ∈ limits, 1 ≤ limit) (asked : limits ≠ [])
    (enough : (streamAbove (shownStream pol db) cursor).length ≤ limits.length) :
    ∃ last, responses.getLast? = some last ∧ last.hasMore = false ∧
      streamAbove (shownStream pol db) last.nextCursor = [] := by
  induction run with
  | nil cursor => exact absurd rfl asked
  | @cons cursor limit limits response later first rest ih =>
    obtain ⟨here, others⟩ := List.forall_mem_cons.mp positive
    cases rest with
    | nil =>
      have none : streamAbove (shownStream pol db) response.nextCursor = [] := by
        rw [first.rest, List.drop_eq_nil_iff]
        exact Nat.le_trans enough here
      refine ⟨response, rfl, ?_, none⟩
      rw [← Bool.not_eq_true, first.more here]
      exact fun left => left none
    | cons second rest =>
      rw [List.getLast?_cons_cons]
      refine ih others (List.cons_ne_nil _ _) ?_
      rw [first.rest, List.length_drop]
      rw [List.length_cons] at enough
      omega

def straddling : Db where
  formVersions := AList.singleton "ver" ⟨"frm", 1⟩
  forms := AList.singleton "frm" ⟨"prj", "household"⟩
  submissions := AList.singleton "s1" ⟨"prj", "env", "ver", none, "d1", some "u1", .draft, 0, none⟩
  ops := ⟨[⟨"o1", "s1", .set, some "age", .int 7, none, none, none, "d1", some "u1", 1, 0, 1⟩,
      ⟨"o2", "s1", .repeatDelete, some "kids[a]", .null, none, none, none, "d1", some "u1", 2, 0, 2⟩],
    by simp [SubmissionOp.Clash, SubmissionOp.envelope, SubmissionOp.slot]⟩
  tombstones := [⟨"prj", "repeat_instance", "s1:kids[a]", some "s1", some "kids[a]", some "d1", some 2, 3⟩]

end DataCollectionLab.Sync
