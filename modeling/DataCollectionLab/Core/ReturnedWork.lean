import DataCollectionLab.Core.StatusColumn

/-!
Work a reviewer has handed back. The first page of a pull carries the server's complete statement of
it, and the device applies the statement right after that page's ops: what it does not hold by then
is skipped, and what later pages bring is filed over it.
-/

namespace DataCollectionLab.Core

/-- `ReturnedWork`: one submission a reviewer sent back. -/
structure ReturnedWork where
  submissionId : String
  status : Status
  caseId : Option String := none
  formId : String
  formVersion : Nat
  reason : Option String
  decidedAt : Timestamp
  decidedBy : Option String := none
  deriving DecidableEq

def Status.isReturned (status : Status) : Bool :=
  status == .rejected || status == .correctionRequired

/-- What `returned_to` selects: one entry for each submission that stands handed back, with the
comment of the decision, which `decide` refuses to record without one. -/
structure ReturnedStatement where
  entries : List ReturnedWork
  once : (entries.map (·.submissionId)).Nodup
  handedBack : ∀ entry ∈ entries, Status.isReturned entry.status = true
  reasoned : ∀ entry ∈ entries, entry.reason.isSome = true

structure PulledPage where
  ops : List SyncOp
  returned : Option (List ReturnedWork) := none
  nextCursor : Nat

namespace SubmissionStore

variable (store : SubmissionStore)

def clearReturned : SubmissionStore :=
  { store with
    submissions := Lib.mapValues (fun _ row =>
      { row with returnedReason := none, returnedAt := none, returnedBy := none }) store.submissions }

def markReturned (item : ReturnedWork) : SubmissionStore :=
  store.updateSubmission item.submissionId fun row =>
    { row with
      status := item.status
      returnedReason := item.reason
      returnedAt := some item.decidedAt
      returnedBy := item.decidedBy
      updatedAt := item.decidedAt }

def applyReturned (returned : List ReturnedWork) : SubmissionStore :=
  returned.foldl (fun store item =>
    if (store.submissions.lookup item.submissionId).isSome then store.markReturned item else store)
    store.clearReturned

/-- `ORDER BY returned_at DESC, submission_id`. -/
def returnedBefore (a b : ReturnedWork) : Prop :=
  b.decidedAt < a.decidedAt ∨ (a.decidedAt = b.decidedAt ∧ a.submissionId ≤ b.submissionId)

instance : DecidableRel returnedBefore := fun a b =>
  inferInstanceAs (Decidable
    (b.decidedAt < a.decidedAt ∨ (a.decidedAt = b.decidedAt ∧ a.submissionId ≤ b.submissionId)))

def returnedWork : List ReturnedWork :=
  ((store.submissions.entries.filter fun entry => entry.2.returnedReason.isSome).map fun entry =>
    { submissionId := entry.1
      status := entry.2.status
      caseId := entry.2.caseId
      formId := entry.2.formId
      formVersion := entry.2.formVersion
      reason := entry.2.returnedReason
      decidedAt := entry.2.returnedAt.getD 0
      decidedBy := entry.2.returnedBy }).insertionSort returnedBefore

def pullLoop (first : Bool) : List PulledPage → SubmissionStore → SubmissionStore
  | [], store => store
  | page :: pages, store =>
    let statement := if first then page.returned else none
    let store := store.applyPullBatch page.ops page.nextCursor
    pullLoop false pages (match statement with
      | some returned => store.applyReturned returned
      | none => store)

def HoldsWork (id : String) : Prop :=
  (store.submissions.lookup id).isSome = true ∨ ∃ op ∈ store.outbox.rows, op.submissionId = id

/-- The submissions listed as returned are those of the statement that the device holds, each as the
statement has it. -/
structure Returns (statement : ReturnedStatement) : Prop where
  listed : ∀ id, (∃ item ∈ store.returnedWork, item.submissionId = id) ↔
    (∃ entry ∈ statement.entries, entry.submissionId = id) ∧ store.HoldsWork id
  said : ∀ item ∈ store.returnedWork, ∀ entry ∈ statement.entries,
    entry.submissionId = item.submissionId → item.reason = entry.reason ∧ item.status = entry.status

/-! ### The columns a page and a statement write -/

def reasonOf (id : String) : Option String := (store.submissions.lookup id).bind (·.returnedReason)

theorem mem_returnedWork_iff (item : ReturnedWork) :
    item ∈ store.returnedWork ↔ ∃ row, store.submissions.lookup item.submissionId = some row ∧
      row.returnedReason.isSome = true ∧
      item = ⟨item.submissionId, row.status, row.caseId, row.formId, row.formVersion,
        row.returnedReason, row.returnedAt.getD 0, row.returnedBy⟩ := by
  rw [returnedWork, List.mem_insertionSort, List.mem_map]
  constructor
  · rintro ⟨⟨id, row⟩, member, rfl⟩
    obtain ⟨present, reason⟩ := List.mem_filter.mp member
    exact ⟨row, AList.mem_lookup_iff.mpr present, reason, rfl⟩
  · rintro ⟨row, found, reason, same⟩
    refine ⟨⟨item.submissionId, row⟩, List.mem_filter.mpr ⟨AList.mem_lookup_iff.mp found, reason⟩, ?_⟩
    exact same.symm

theorem listed_iff (id : String) :
    (∃ item ∈ store.returnedWork, item.submissionId = id) ↔ (store.reasonOf id).isSome = true := by
  constructor
  · rintro ⟨item, member, rfl⟩
    obtain ⟨row, found, reason, -⟩ := (store.mem_returnedWork_iff item).mp member
    rw [reasonOf, found]
    exact reason
  · intro reason
    obtain ⟨text, said⟩ := Option.isSome_iff_exists.mp reason
    obtain ⟨row, found, given⟩ := Option.bind_eq_some_iff.mp said
    exact ⟨⟨id, row.status, row.caseId, row.formId, row.formVersion, row.returnedReason,
      row.returnedAt.getD 0, row.returnedBy⟩,
      (store.mem_returnedWork_iff _).mpr ⟨row, found, by rw [given]; rfl, rfl⟩, rfl⟩

theorem said_of_mem {item : ReturnedWork} (member : item ∈ store.returnedWork) :
    item.reason = store.reasonOf item.submissionId ∧
      item.status = store.statusOf item.submissionId := by
  obtain ⟨row, found, -, same⟩ := (store.mem_returnedWork_iff item).mp member
  rw [reasonOf, statusOf, found, same]
  exact ⟨rfl, rfl⟩

theorem reasonOf_moveStatus (op : SyncOp) (id : String) :
    (store.moveStatus op).reasonOf id = store.reasonOf id := by
  unfold moveStatus reasonOf
  split
  · rw [lookup_updateSubmission]
    split <;> cases store.submissions.lookup id <;> rfl
  · rw [lookup_updateSubmission]
    split <;> cases store.submissions.lookup id <;> rfl
  · rfl

theorem reasonOf_insertSubmissionIfAbsent (op : SyncOp) (id : String) :
    (store.insertSubmissionIfAbsent op).reasonOf id = store.reasonOf id := by
  unfold insertSubmissionIfAbsent
  split
  · rfl
  · rename_i absent
    unfold reasonOf
    rw [Lib.lookup_insert_eq_ite]
    split
    · rename_i here
      rw [here, Option.not_isSome_iff_eq_none.mp absent]
      rfl
    · rfl

theorem reasonOf_foldl_applyPulled (ops : List SyncOp) (id : String) :
    (ops.foldl applyPulled store).reasonOf id = store.reasonOf id := by
  induction ops generalizing store with
  | nil => rfl
  | cons op ops ih =>
    rw [List.foldl_cons, ih, applyPulled, reasonOf_moveStatus]
    exact store.reasonOf_insertSubmissionIfAbsent op id

theorem lookup_markReturned (item : ReturnedWork) (id : String) :
    ((store.markReturned item).submissions.lookup id).isSome = (store.submissions.lookup id).isSome ∧
    ((store.submissions.lookup id).isSome = true →
      (store.markReturned item).reasonOf id =
        (if id = item.submissionId then item.reason else store.reasonOf id) ∧
      (store.markReturned item).statusOf id =
        if id = item.submissionId then item.status else store.statusOf id) := by
  unfold markReturned reasonOf statusOf
  rw [lookup_updateSubmission]
  by_cases here : id = item.submissionId
  · simp only [if_pos here]
    cases found : store.submissions.lookup id with
    | none => exact ⟨rfl, fun held => by cases held⟩
    | some row => exact ⟨rfl, fun _ => ⟨rfl, rfl⟩⟩
  · simp [here]

theorem lookup_clearReturned (id : String) :
    (store.clearReturned.submissions.lookup id).isSome = (store.submissions.lookup id).isSome ∧
      store.clearReturned.reasonOf id = none ∧ store.clearReturned.statusOf id = store.statusOf id := by
  unfold clearReturned reasonOf statusOf
  rw [Lib.lookup_mapValues]
  cases store.submissions.lookup id <;> exact ⟨rfl, rfl, rfl⟩

/-- One round of the loop in `applyReturned`. -/
def returnOne (store : SubmissionStore) (item : ReturnedWork) : SubmissionStore :=
  if (store.submissions.lookup item.submissionId).isSome then store.markReturned item else store

theorem returnOne_spec (item : ReturnedWork) (id : String) :
    ((store.returnOne item).submissions.lookup id).isSome = (store.submissions.lookup id).isSome ∧
      (store.returnOne item).reasonOf id =
        (if id = item.submissionId ∧ (store.submissions.lookup id).isSome = true then item.reason
        else store.reasonOf id) ∧
      (store.returnOne item).statusOf id =
        if id = item.submissionId ∧ (store.submissions.lookup id).isSome = true then item.status
        else store.statusOf id := by
  obtain ⟨rows, marked⟩ := store.lookup_markReturned item id
  unfold returnOne
  by_cases here : id = item.submissionId
  · rw [← here]
    by_cases held : (store.submissions.lookup id).isSome = true
    · simp only [if_pos held, if_pos (And.intro trivial held)]
      refine ⟨rows, ?_⟩
      simpa only [if_pos here] using marked held
    · simp [held]
  · simp only [if_neg fun both : id = item.submissionId ∧ _ => here both.1]
    split
    · refine ⟨rows, ?_⟩
      by_cases held : (store.submissions.lookup id).isSome = true
      · simpa only [if_neg here] using marked held
      · have absent := Option.not_isSome_iff_eq_none.mp held
        have still : (store.markReturned item).submissions.lookup id = none := by
          rw [← Option.not_isSome_iff_eq_none, rows]
          exact held
        rw [reasonOf, reasonOf, statusOf, statusOf, absent, still]
        exact ⟨rfl, rfl⟩
    · exact ⟨rfl, rfl, rfl⟩

theorem foldl_returnOne_rows (entries : List ReturnedWork) (id : String) :
    ((entries.foldl returnOne store).submissions.lookup id).isSome =
      (store.submissions.lookup id).isSome := by
  induction entries generalizing store with
  | nil => rfl
  | cons item entries ih => rw [List.foldl_cons, ih, (store.returnOne_spec item id).1]

theorem foldl_returnOne_other {entries : List ReturnedWork} {id : String}
    (other : id ∉ entries.map (·.submissionId)) :
    (entries.foldl returnOne store).reasonOf id = store.reasonOf id ∧
      (entries.foldl returnOne store).statusOf id = store.statusOf id := by
  induction entries generalizing store with
  | nil => exact ⟨rfl, rfl⟩
  | cons item entries ih =>
    rw [List.map_cons, List.mem_cons, not_or] at other
    obtain ⟨-, reason, status⟩ := store.returnOne_spec item id
    rw [if_neg fun both => other.1 both.1] at reason status
    rw [List.foldl_cons, ← reason, ← status]
    exact ih _ other.2

theorem foldl_returnOne_entry {entries : List ReturnedWork} {entry : ReturnedWork}
    (once : (entries.map (·.submissionId)).Nodup) (member : entry ∈ entries)
    (held : (store.submissions.lookup entry.submissionId).isSome = true) :
    (entries.foldl returnOne store).reasonOf entry.submissionId = entry.reason ∧
      (entries.foldl returnOne store).statusOf entry.submissionId = entry.status := by
  induction entries generalizing store with
  | nil => cases member
  | cons item entries ih =>
    rw [List.map_cons, List.nodup_cons] at once
    obtain ⟨rows, reason, status⟩ := store.returnOne_spec item entry.submissionId
    rw [List.foldl_cons]
    rcases List.mem_cons.mp member with rfl | later
    · rw [if_pos ⟨rfl, held⟩] at reason status
      rw [← reason, ← status]
      exact foldl_returnOne_other _ once.1
    · exact ih _ once.2 later (rows.trans held)

theorem applyReturned_spec (statement : ReturnedStatement) :
    (∀ id, ((store.applyReturned statement.entries).submissions.lookup id).isSome =
      (store.submissions.lookup id).isSome) ∧
    (∀ id, id ∉ statement.entries.map (·.submissionId) ∨ store.submissions.lookup id = none →
      (store.applyReturned statement.entries).reasonOf id = none) ∧
    ∀ entry ∈ statement.entries, (store.submissions.lookup entry.submissionId).isSome = true →
      (store.applyReturned statement.entries).reasonOf entry.submissionId = entry.reason ∧
        (store.applyReturned statement.entries).statusOf entry.submissionId = entry.status := by
  have cleared := store.lookup_clearReturned
  have rows : ∀ id, ((store.applyReturned statement.entries).submissions.lookup id).isSome =
      (store.submissions.lookup id).isSome :=
    fun id => (foldl_returnOne_rows _ _ id).trans (cleared id).1
  refine ⟨rows, ?_, ?_⟩
  · rintro id (other | absent)
    · exact (foldl_returnOne_other _ other).1.trans (cleared id).2.1
    · have still := rows id
      rw [absent, Option.isSome_none, Option.isSome_eq_false_iff, Option.isNone_iff_eq_none] at still
      rw [reasonOf, still]
      rfl
  · intro entry member held
    exact foldl_returnOne_entry _ statement.once member ((cleared _).1.trans held)

theorem applyPulled_cursor (op : SyncOp) (cursor : Nat) :
    { store with pullCursor := cursor }.applyPulled op =
      { store.applyPulled op with pullCursor := cursor } := by
  have opened : { store with pullCursor := cursor }.insertSubmissionIfAbsent op =
      { store.insertSubmissionIfAbsent op with pullCursor := cursor } := by
    unfold insertSubmissionIfAbsent
    dsimp only
    split <;> rfl
  have updated : ∀ (s : SubmissionStore) (change : LocalSubmission → LocalSubmission),
      { s with pullCursor := cursor }.updateSubmission op.submissionId change =
        { s.updateSubmission op.submissionId change with pullCursor := cursor } := by
    intro s change
    unfold updateSubmission
    dsimp only
    split <;> rfl
  rw [applyPulled, opened, applyPulled]
  unfold moveStatus
  split
  · exact updated ((store.insertSubmissionIfAbsent op).insertRemoteOp op) _
  · exact updated ((store.insertSubmissionIfAbsent op).insertRemoteOp op) _
  · rfl

theorem foldl_applyPulled_cursor (ops : List SyncOp) (cursor : Nat) :
    ops.foldl applyPulled { store with pullCursor := cursor } =
      { ops.foldl applyPulled store with pullCursor := cursor } := by
  induction ops generalizing store with
  | nil => rfl
  | cons op ops ih => rw [List.foldl_cons, applyPulled_cursor, ih, List.foldl_cons]

theorem pullLoop_later (pages : List PulledPage) :
    ∃ cursor, pullLoop false pages store =
      { (pages.flatMap (·.ops)).foldl applyPulled store with pullCursor := cursor } := by
  induction pages generalizing store with
  | nil => exact ⟨store.pullCursor, rfl⟩
  | cons page pages ih =>
    obtain ⟨cursor, later⟩ := ih (store.applyPullBatch page.ops page.nextCursor)
    refine ⟨cursor, later.trans ?_⟩
    rw [applyPullBatch, foldl_applyPulled_cursor, List.flatMap_cons, List.foldl_append]

def pull (statement : ReturnedStatement) (first : PulledPage) (rest : List PulledPage) :
    SubmissionStore :=
  pullLoop true ({ first with returned := some statement.entries } :: rest) store

def RowedBy (first : PulledPage) (id : String) : Prop :=
  (store.submissions.lookup id).isSome = true ∨ ∃ op ∈ first.ops, op.submissionId = id

theorem rows_foldl_applyPulled (ops : List SyncOp) (id : String) :
    ((ops.foldl applyPulled store).submissions.lookup id).isSome = true ↔
      (store.submissions.lookup id).isSome = true ∨ ∃ op ∈ ops, op.submissionId = id := by
  obtain ⟨rows, -⟩ := store.lookup_foldl_applyPulled ops id
  have counted := congrArg Option.isSome rows
  rw [Option.isSome_map] at counted
  rw [counted]
  by_cases named : ops.any (·.submissionId == id) = true
  · rw [if_pos named]
    obtain ⟨op, member, here⟩ := List.any_eq_true.mp named
    exact iff_of_true rfl (Or.inr ⟨op, member, by simpa using here⟩)
  · rw [if_neg named, Option.isSome_map]
    refine (or_iff_left ?_).symm
    rintro ⟨op, member, here⟩
    exact named (List.any_eq_true.mpr ⟨op, member, by simpa using here⟩)

section Pulled

variable (statement : ReturnedStatement) (first : PulledPage) (rest : List PulledPage)

theorem rows_pull (id : String) :
    ((store.pull statement first rest).submissions.lookup id).isSome = true ↔
      store.RowedBy first id ∨ ∃ op ∈ rest.flatMap (·.ops), op.submissionId = id := by
  obtain ⟨cursor, later⟩ := pullLoop_later
    ((store.applyPullBatch first.ops first.nextCursor).applyReturned statement.entries) rest
  rw [pull, pullLoop]
  refine (iff_of_eq (congrArg (fun s : SubmissionStore => (s.submissions.lookup id).isSome = true)
    later)).trans ((rows_foldl_applyPulled _ _ id).trans (or_congr_left ?_))
  rw [(applyReturned_spec _ statement).1 id]
  exact rows_foldl_applyPulled store first.ops id

theorem reasonOf_pull (id : String) :
    (store.pull statement first rest).reasonOf id =
      ((store.applyPullBatch first.ops first.nextCursor).applyReturned statement.entries).reasonOf
        id := by
  obtain ⟨cursor, later⟩ := pullLoop_later
    ((store.applyPullBatch first.ops first.nextCursor).applyReturned statement.entries) rest
  exact (congrArg (·.reasonOf id) later).trans (reasonOf_foldl_applyPulled _ _ id)

theorem statusOf_pull (id : String) :
    (store.pull statement first rest).statusOf id =
      (((rest.flatMap (·.ops)).filter (·.submissionId == id)).filterMap
        (statusSaid ·.stored)).getLast?.getD
        (((store.applyPullBatch first.ops first.nextCursor).applyReturned
          statement.entries).statusOf id) := by
  obtain ⟨cursor, later⟩ := pullLoop_later
    ((store.applyPullBatch first.ops first.nextCursor).applyReturned statement.entries) rest
  exact (congrArg (·.statusOf id) later).trans (lookup_foldl_applyPulled _ _ id).2

theorem outbox_applyReturned (returned : List ReturnedWork) :
    (store.applyReturned returned).outbox = store.outbox := by
  have folded : ∀ (items : List ReturnedWork) (s : SubmissionStore),
      (items.foldl returnOne s).outbox = s.outbox := by
    intro items
    induction items with
    | nil => intro s; rfl
    | cons item items ih =>
      intro s
      rw [List.foldl_cons, ih, returnOne]
      split
      · exact outbox_updateSubmission _ _ _
      · rfl
  exact folded returned _

theorem rows_foldl_insertOrIgnore (ops : List SyncOp) (outbox : OpOutbox) :
    (∀ op ∈ outbox.rows, op ∈ (ops.foldl (·.insertOrIgnore ·) outbox).rows) ∧
      ∀ op ∈ (ops.foldl (·.insertOrIgnore ·) outbox).rows, op ∈ outbox.rows ∨ op ∈ ops := by
  induction ops generalizing outbox with
  | nil => exact ⟨fun _ member => member, fun _ member => Or.inl member⟩
  | cons new ops ih =>
    rw [List.foldl_cons]
    obtain ⟨kept, only⟩ := ih (outbox.insertOrIgnore new)
    rcases outbox.insertOrIgnore_rows new with filed | ignored
    · rw [filed] at kept only
      refine ⟨fun op member => kept op (List.mem_append_left _ member), fun op member => ?_⟩
      rcases only op member with before | later
      · rcases List.mem_append.mp before with old | last
        · exact Or.inl old
        · exact Or.inr (List.mem_singleton.mp last ▸ List.mem_cons_self)
      · exact Or.inr (List.mem_cons_of_mem _ later)
    · rw [ignored] at kept only ⊢
      exact ⟨kept, fun op member => (only op member).imp_right (List.mem_cons_of_mem _)⟩

theorem holdsWork_pull (id : String) :
    (store.pull statement first rest).HoldsWork id ↔
      store.RowedBy first id ∨
        ∃ op ∈ store.outbox.rows ++ rest.flatMap (·.ops), op.submissionId = id := by
  have log : (store.pull statement first rest).outbox =
      ((first.ops ++ rest.flatMap (·.ops)).map (·.acknowledged)).foldl (·.insertOrIgnore ·)
        store.outbox := by
    obtain ⟨cursor, later⟩ := pullLoop_later
      ((store.applyPullBatch first.ops first.nextCursor).applyReturned statement.entries) rest
    refine (congrArg SubmissionStore.outbox later).trans ?_
    refine (outbox_foldl_applyPulled _ _).trans ?_
    rw [outbox_applyReturned, List.map_append, List.foldl_append, ← outbox_foldl_applyPulled store]
    rfl
  obtain ⟨kept, only⟩ := rows_foldl_insertOrIgnore
    ((first.ops ++ rest.flatMap (·.ops)).map (·.acknowledged)) store.outbox
  rw [← log] at kept only
  rw [HoldsWork, rows_pull]
  constructor
  · rintro ((rowed | ⟨op, member, here⟩) | ⟨op, member, here⟩)
    · exact Or.inl rowed
    · exact Or.inr ⟨op, List.mem_append_right _ member, here⟩
    · rcases only op member with old | pulled
      · exact Or.inr ⟨op, List.mem_append_left _ old, here⟩
      · obtain ⟨sent, arrived, rfl⟩ := List.mem_map.mp pulled
        rcases List.mem_append.mp arrived with early | late
        · exact Or.inl (Or.inr ⟨sent, early, here⟩)
        · exact Or.inr ⟨sent, List.mem_append_right _ late, here⟩
  · rintro (rowed | ⟨op, member, here⟩)
    · exact Or.inl (Or.inl rowed)
    · rcases List.mem_append.mp member with old | late
      · exact Or.inr ⟨op, kept op old, here⟩
      · exact Or.inl (Or.inr ⟨op, late, here⟩)

theorem statusOf_pull_of_moved {op : SyncOp} (late : op ∈ rest.flatMap (·.ops))
    (moved : (statusSaid op.stored).isSome = true) :
    Status.isReturned ((store.pull statement first rest).statusOf op.submissionId) = false := by
  obtain ⟨status, moved⟩ := Option.isSome_iff_exists.mp moved
  have member : status ∈ ((rest.flatMap (·.ops)).filter
      (·.submissionId == op.submissionId)).filterMap (statusSaid ·.stored) :=
    List.mem_filterMap.mpr ⟨op, List.mem_filter.mpr ⟨late, beq_self_eq_true _⟩, moved⟩
  rw [statusOf_pull, List.getLast?_eq_some_getLast (List.ne_nil_of_mem member), Option.getD_some]
  obtain ⟨last, -, spoken⟩ := List.mem_filterMap.mp (List.getLast_mem (List.ne_nil_of_mem member))
  generalize List.getLast _ _ = final at spoken
  unfold statusSaid at spoken
  split at spoken <;> cases spoken <;> rfl

theorem rowed_applyPullBatch_iff (id : String) :
    ((store.applyPullBatch first.ops first.nextCursor).submissions.lookup id).isSome = true ↔
      store.RowedBy first id :=
  rows_foldl_applyPulled store first.ops id

/-- A pull ends with the statement applied whole exactly when, for every submission it names, the
device has a row by the end of the first page if it has an op of it in the end, and no later page
brings a finalize or reopen of it. -/
theorem pull_returns_iff :
    (store.pull statement first rest).Returns statement ↔
      ∀ entry ∈ statement.entries,
        ((∃ op ∈ store.outbox.rows ++ rest.flatMap (·.ops), op.submissionId = entry.submissionId) →
          store.RowedBy first entry.submissionId) ∧
        ∀ op ∈ rest.flatMap (·.ops), op.submissionId = entry.submissionId →
          op.kind ≠ .finalize ∧ op.kind ≠ .reopen := by
  obtain ⟨-, silent, marked⟩ :=
    (store.applyPullBatch first.ops first.nextCursor).applyReturned_spec statement
  constructor
  · intro whole entry member
    have kept : (∃ op ∈ store.outbox.rows ++ rest.flatMap (·.ops),
        op.submissionId = entry.submissionId) → store.RowedBy first entry.submissionId := by
      intro held
      have listed := ((store.pull statement first rest).listed_iff _).mp
        ((whole.listed entry.submissionId).mpr
          ⟨⟨entry, member, rfl⟩, (store.holdsWork_pull statement first rest _).mpr (Or.inr held)⟩)
      rw [reasonOf_pull] at listed
      rw [← rowed_applyPullBatch_iff, ← Option.ne_none_iff_isSome]
      intro absent
      rw [silent _ (Or.inr absent)] at listed
      cases listed
    refine ⟨kept, fun op late here => ?_⟩
    have rowed := kept ⟨op, List.mem_append_right _ late, here⟩
    obtain ⟨item, listed, named⟩ := (whole.listed entry.submissionId).mpr
      ⟨⟨entry, member, rfl⟩, (store.holdsWork_pull statement first rest _).mpr (Or.inl rowed)⟩
    have status := (whole.said item listed entry member named.symm).2
    have stands : Status.isReturned ((store.pull statement first rest).statusOf op.submissionId) =
        true := by
      rw [here, ← named, ← (said_of_mem _ listed).2, status]
      exact statement.handedBack entry member
    constructor
    · intro finalize
      refine Bool.false_ne_true ((store.statusOf_pull_of_moved statement first rest late ?_).symm.trans
        stands)
      simp [statusSaid, SyncOp.stored, finalize]
    · intro reopen
      refine Bool.false_ne_true ((store.statusOf_pull_of_moved statement first rest late ?_).symm.trans
        stands)
      simp [statusSaid, SyncOp.stored, reopen]
  · intro clear
    have rowed : ∀ entry ∈ statement.entries,
        (store.pull statement first rest).HoldsWork entry.submissionId →
          (store.pull statement first rest).reasonOf entry.submissionId = entry.reason ∧
          (store.pull statement first rest).statusOf entry.submissionId = entry.status := by
      intro entry member holds
      obtain ⟨kept, still⟩ := clear entry member
      have early : store.RowedBy first entry.submissionId := by
        rcases (store.holdsWork_pull statement first rest _).mp holds with early | later
        · exact early
        · exact kept later
      obtain ⟨reason, status⟩ := marked entry member ((rowed_applyPullBatch_iff store first _).mpr early)
      have quiet : ((rest.flatMap (·.ops)).filter (·.submissionId == entry.submissionId)).filterMap
          (statusSaid ·.stored) = [] := by
        refine List.filterMap_eq_nil_iff.mpr fun op chosen => ?_
        obtain ⟨late, here⟩ := List.mem_filter.mp chosen
        obtain ⟨finalize, reopen⟩ := still op late (by simpa using here)
        unfold statusSaid SyncOp.stored
        cases kind : op.kind <;> simp_all
      rw [reasonOf_pull, statusOf_pull, quiet]
      exact ⟨reason, status⟩
    refine ⟨fun id => ?_, ?_⟩
    · rw [listed_iff]
      constructor
      · intro reason
        by_cases named : id ∈ statement.entries.map (·.submissionId)
        · obtain ⟨entry, member, rfl⟩ := List.mem_map.mp named
          refine ⟨⟨entry, member, rfl⟩, Or.inl ?_⟩
          obtain ⟨text, given⟩ := Option.isSome_iff_exists.mp reason
          obtain ⟨row, found, -⟩ := Option.bind_eq_some_iff.mp given
          rw [found]
          rfl
        · rw [reasonOf_pull, silent id (Or.inl named)] at reason
          cases reason
      · rintro ⟨⟨entry, member, rfl⟩, holds⟩
        rw [(rowed entry member holds).1]
        exact statement.reasoned entry member
    · intro item listed entry member same
      have holds : (store.pull statement first rest).HoldsWork entry.submissionId := by
        obtain ⟨row, found, -⟩ := (mem_returnedWork_iff _ item).mp listed
        left
        rw [same, found]
        rfl
      obtain ⟨reason, status⟩ := rowed entry member holds
      obtain ⟨said, stands⟩ := said_of_mem _ listed
      rw [said, stands, ← same]
      exact ⟨reason, status⟩

end Pulled

end SubmissionStore

/-! ### Work sent back before its ops arrive -/

def sentBack : ReturnedStatement where
  entries := [⟨"s1", .correctionRequired, none, "household", 1, some "Ask again", 7, none⟩]
  once := by decide
  handedBack := by decide
  reasoned := by decide

def answeredElsewhere : SyncOp where
  opId := "op_b1"
  submissionId := "s1"
  formId := "household"
  formVersion := 1
  kind := .set
  path := some "name"
  deviceId := "dev_2"
  actorId := "usr_1"
  counter := 1
  synced := .acknowledged

/-- On a fresh device whose first page is filled with other work, the reason is dropped: the
submission is held and not listed. -/
theorem sentBack_not_listed :
    ¬ ((SubmissionStore.fresh "dev_1" "usr_1").pull sentBack ⟨[], none, 1⟩
      [⟨[answeredElsewhere], none, 2⟩]).Returns sentBack := by
  intro whole
  have listed := (whole.listed "s1").mpr ⟨⟨_, List.mem_singleton_self _, rfl⟩, Or.inl rfl⟩
  obtain ⟨item, member, -⟩ := listed
  have none : ((SubmissionStore.fresh "dev_1" "usr_1").pull sentBack ⟨[], none, 1⟩
      [⟨[answeredElsewhere], none, 2⟩]).returnedWork = [] := rfl
  rw [none] at member
  cases member

end DataCollectionLab.Core
