import DataCollectionLab.Sync.Insertion

/-!
What a `push` that returns has done. `push_ok_iff` says it for the whole call: the verdicts and
the new rows come from the gates alone, and `store` is run on the rows the indexes took.
-/

namespace DataCollectionLab.Sync

namespace Call

variable (c : Call)

/-! ### The submissions the admission loop opened -/

theorem book_frame (db : Db) (op : SyncOp) :
    c.book db op = { db with submissions := (c.book db op).submissions } := by
  unfold book
  split <;> rfl

theorem dbAfter_frame (ops : List SyncOp) :
    c.dbAfter ops = { c.db with submissions := (c.dbAfter ops).submissions } := by
  induction ops using List.reverseRecOn with
  | nil => rfl
  | append_singleton ops op ih =>
    have booked : c.dbAfter (ops ++ [op]) = c.book (c.dbAfter ops) op := by simp [dbAfter]
    rw [booked, c.book_frame, ih]

theorem dbAfter_concat (ops : List SyncOp) (op : SyncOp) :
    c.dbAfter (ops ++ [op]) = c.book (c.dbAfter ops) op := by
  simp [dbAfter]

theorem judge_here {before after : List SyncOp} {op : SyncOp}
    (split : c.ops = before ++ op :: after) : c.judge (c.dbAfter before) op = c.judgement op := by
  rw [judgement, c.earlier_eq split]

theorem lookup_dbAfter {before middle after : List SyncOp}
    (split : c.ops = before ++ (middle ++ after)) (free : c.OpensFree c.ops) {id : String}
    {row : Submission} (present : (c.dbAfter before).submissions.lookup id = some row) :
    (c.dbAfter (before ++ middle)).submissions.lookup id = some row := by
  induction middle generalizing before with
  | nil => rwa [List.append_nil]
  | cons op middle ih =>
    have here : c.ops = before ++ op :: (middle ++ after) := split
    have further : c.ops = (before ++ [op]) ++ (middle ++ after) := by simpa using split
    rw [List.append_cons]
    refine ih further ?_
    rw [dbAfter_concat, book, c.judge_here here]
    split
    · rename_i new opens
      have openable := free op (by simp [split]) new opens
      rw [c.earlier_eq here] at openable
      have other : id ≠ op.submissionId := by
        rintro rfl
        rw [openable.1] at present
        cases present
      simpa [AList.lookup_insert_ne other] using present
    · exact present

theorem submission_of_admits (free : c.OpensFree c.ops) {before after : List SyncOp} {op : SyncOp}
    (split : c.ops = before ++ after) (member : op ∈ before)
    (admitted : (c.judgement op).admits = true) :
    ∃ row, (c.dbAfter before).submissions.lookup op.submissionId = some row ∧
      c.pol.seesSubmission row.scope = true := by
  obtain ⟨front, back, rfl⟩ := List.append_of_mem member
  have whole : c.ops = front ++ op :: (back ++ after) := by simpa using split
  have here := c.judge_here whole
  have shown : ∃ row, (c.dbAfter (front ++ [op])).submissions.lookup op.submissionId = some row ∧
      c.pol.seesSubmission row.scope = true := by
    rw [dbAfter_concat, book, here]
    cases judged : c.judgement op with
    | replay => simp [judged, Judgement.admits] at admitted
    | refuse reason => simp [judged, Judgement.admits] at admitted
    | join =>
      obtain ⟨-, _, _, _, row, -, -, found, -⟩ := c.judge_join_iff.mp (here.trans judged)
      obtain ⟨present, sees⟩ := Option.filter_eq_some_iff.mp found
      exact ⟨row, present, sees⟩
    | opens row =>
      obtain ⟨-, _, _, _, _, -, -, -, -, admitted, -⟩ := c.judge_opens_iff.mp (here.trans judged)
      exact ⟨row, AList.lookup_insert _, (Bool.and_eq_true_iff.mp admitted).2⟩
  obtain ⟨row, present, sees⟩ := shown
  have further : c.ops = (front ++ [op]) ++ (back ++ after) := by simpa using whole
  refine ⟨row, ?_, sees⟩
  rw [List.append_cons]
  exact c.lookup_dbAfter further free present

theorem shown_of_admits (free : c.OpensFree c.ops) {op : SyncOp} (member : op ∈ c.ops)
    (admitted : (c.judgement op).admits = true) :
    c.pol.shows (c.dbAfter c.ops) op.submissionId = true := by
  obtain ⟨row, present, sees⟩ :=
    c.submission_of_admits free (List.append_nil _).symm member admitted
  simp [Policies.shows, Policies.submission, present, sees]

theorem opened_of_lookup {before after : List SyncOp} (split : c.ops = before ++ after)
    {id : String} {row : Submission}
    (present : (c.dbAfter before).submissions.lookup id = some row) :
    c.db.submissions.lookup id = some row ∨
      ∃ op ∈ before, op.submissionId = id ∧ c.judgement op = .opens row := by
  induction before using List.reverseRecOn generalizing after with
  | nil => exact Or.inl present
  | append_singleton before op ih =>
    have here : c.ops = before ++ op :: after := by simpa using split
    rw [dbAfter_concat, book, c.judge_here here] at present
    have earlier : (c.dbAfter before).submissions.lookup id = some row →
        c.db.submissions.lookup id = some row ∨
          ∃ o ∈ before ++ [op], o.submissionId = id ∧ c.judgement o = .opens row := by
      intro old
      rcases ih here old with start | ⟨o, member, rest⟩
      · exact Or.inl start
      · exact Or.inr ⟨o, List.mem_append_left _ member, rest⟩
    split at present
    · rename_i new opens
      by_cases same : id = op.submissionId
      · subst same
        rw [AList.lookup_insert] at present
        cases present
        exact Or.inr ⟨op, by simp, rfl, opens⟩
      · rw [AList.lookup_insert_ne same] at present
        exact earlier present
    · exact earlier present

theorem start_none {before after : List SyncOp} (split : c.ops = before ++ after)
    (free : c.OpensFree c.ops) {id : String}
    (absent : (c.dbAfter before).submissions.lookup id = none) :
    c.db.submissions.lookup id = none := by
  cases found : c.db.submissions.lookup id with
  | none => rfl
  | some row =>
    have split' : c.ops = [] ++ (before ++ after) := split
    have kept := c.lookup_dbAfter split' free found
    rw [List.nil_append, absent] at kept
    cases kept

theorem lookup_opened (free : c.OpensFree c.ops) {op : SyncOp} {row : Submission}
    (member : op ∈ c.ops) (opens : c.judgement op = .opens row) :
    (c.dbAfter c.ops).submissions.lookup op.submissionId = some row := by
  obtain ⟨before, after, split⟩ := List.append_of_mem member
  have here : (c.dbAfter (before ++ [op])).submissions.lookup op.submissionId = some row := by
    rw [dbAfter_concat, book, c.judge_here split, opens]
    exact AList.lookup_insert _
  have further : c.ops = (before ++ [op]) ++ (after ++ []) := by simpa using split
  have whole : c.ops = (before ++ [op]) ++ after := by simpa using split
  rw [whole]
  exact c.lookup_dbAfter further free here

def rows : List SubmissionOp := (c.ops.filter (c.Leads ·)).map (·.row c.lastAttributed)

def indexed (op : SyncOp) : Option OpConstraint := c.db.ops.violation (op.row none)

def Stores (op : SyncOp) : Prop := c.Leads op ∧ c.indexed op = none

instance : DecidablePred c.Stores := fun op =>
  inferInstanceAs (Decidable (c.Leads op ∧ c.indexed op = none))

def stored : List SubmissionOp := (c.ops.filter (c.Stores ·)).map (·.row c.lastAttributed)

def logged : Inserted := c.db.ops.insertOps c.db.nextSeq c.rows

def TakenBack (op : SyncOp) : Prop := c.Leads op ∧ c.indexed op = some .nonce

instance : DecidablePred c.TakenBack := fun op =>
  inferInstanceAs (Decidable (c.Leads op ∧ c.indexed op = some .nonce))

def accepted : List String :=
  ((readBatch c.req.ops).accepted ++ (c.ops.filter (c.Replayed ·)).map (·.opId) ++
    (c.ops.filter (c.Passes ·)).map (·.opId)).diff ((c.ops.filter (c.TakenBack ·)).map (·.opId))

def rejected : List RejectedOp :=
  (readBatch c.req.ops).rejected ++
    (c.ops.filterMap fun op => (c.judgement op).refusal.map (⟨some op.opId, ·⟩)) ++
    (c.ops.filterMap fun op => (c.cryptoRefusal op).map (⟨some op.opId, ·⟩)) ++
    (c.ops.filter (c.TakenBack ·)).map (⟨some ·.opId, .nonceReused⟩)

theorem violation_row (log : OpLog) (op : SyncOp) (actorId : Option String) :
    log.violation (op.row actorId) = log.violation (op.row none) := rfl

theorem earlier_subset {o op : SyncOp} (member : op ∈ c.ops) (before : o ∈ c.earlier op) :
    o ∈ c.ops := by
  obtain ⟨front, back, split⟩ := List.append_of_mem member
  rw [c.earlier_eq split] at before
  rw [split]
  exact List.mem_append_left _ before

theorem rows_apart : c.rows.Pairwise fun a b => ¬ a.Clash b := by
  have apart : c.ops.Pairwise fun a b =>
      c.Leads a → c.Leads b → ¬ (a.row c.lastAttributed).Clash (b.row c.lastAttributed) := by
    refine Lib.pairwise_of_splits fun front b back split a present leads leads' => ?_
    have before : a ∈ c.earlier b := by rwa [c.earlier_eq split]
    rintro (same | ⟨e, mine, other⟩ | same)
    · have distinct := c.ops_nodup
      rw [split, List.map_append, List.nodup_append] at distinct
      exact distinct.2.2 _ (List.mem_map_of_mem present) _ (by simp) same
    · rw [SyncOp.row_envelope] at mine other
      exact leads'.1.2 ⟨e, other, Or.inr ⟨a, before, leads.1.1, mine⟩⟩
    · exact leads'.2 a before leads.1 same
  unfold rows
  rw [List.pairwise_map, List.pairwise_filter]
  exact apart.imp fun {a b} related leads leads' =>
    related (of_decide_eq_true leads) (of_decide_eq_true leads')

theorem logged_spec : ∃ start, c.db.nextSeq ≤ start ∧
    c.logged.log.rows = c.db.ops.rows ++
      (OpLog.numbered start c.rows).filter (fun row => (c.db.ops.violation row).isNone) ∧
    c.logged.nextSeq = start + c.rows.length ∧
    c.logged.refused = c.rows.filterMap fun row => (c.db.ops.violation row).map (row.id, ·) := by
  obtain ⟨start, bound, -, same⟩ := c.db.ops.insertOps_eq c.db.nextSeq c.rows_apart
  obtain ⟨rows, number, refused⟩ := c.db.ops.insertEach_spec start c.rows c.rows_apart
  refine ⟨start, bound, ?_, ?_, ?_⟩
  · rw [logged, same, rows]
  · rw [logged, same, number]
  · rw [logged, same, refused]

theorem logged_new : ∃ new, c.logged.log.rows = c.db.ops.rows ++ new ∧
    ∀ row ∈ new, ∃ op ∈ c.ops, c.Stores op ∧ ∃ n, c.db.nextSeq ≤ n ∧
      row = { op.row c.lastAttributed with serverSeq := n } := by
  obtain ⟨start, bound, rows, -, -⟩ := c.logged_spec
  refine ⟨_, rows, fun row member => ?_⟩
  obtain ⟨numbered, free⟩ := List.mem_filter.mp member
  obtain ⟨r, present, n, above, rfl⟩ := OpLog.mem_numbered numbered
  obtain ⟨op, leads, rfl⟩ := List.mem_map.mp present
  obtain ⟨inBatch, leads⟩ := List.mem_filter.mp leads
  refine ⟨op, inBatch, ⟨of_decide_eq_true leads, ?_⟩, n, by omega, rfl⟩
  exact Option.isNone_iff_eq_none.mp free

theorem numbered_unnumbered (seq : Nat) (rows : List SubmissionOp) (p : SubmissionOp → Bool)
    (unread : ∀ row n, p { row with serverSeq := n } = p row) :
    ((OpLog.numbered seq rows).filter p).map (·.unnumbered) = (rows.filter p).map (·.unnumbered) := by
  induction rows generalizing seq with
  | nil => rfl
  | cons row rest ih =>
    unfold OpLog.numbered
    rw [List.filter_cons, List.filter_cons, unread]
    split
    · rw [List.map_cons, List.map_cons, ih]
      rfl
    · exact ih (seq + 1)

theorem logged_unnumbered : c.logged.log.rows.map (·.unnumbered) =
    c.db.ops.rows.map (·.unnumbered) ++ c.stored := by
  obtain ⟨start, -, rows, -, -⟩ := c.logged_spec
  rw [rows, List.map_append, numbered_unnumbered _ _ _ fun _ _ => rfl]
  congr 1
  unfold Call.rows stored
  rw [List.filter_map, List.map_map, List.filter_filter]
  refine congrArg _ (List.filter_congr fun op _ => ?_)
  cases index : c.indexed op <;>
    simp [Stores, index, show c.db.ops.violation (op.row c.lastAttributed) = _ from index]

theorem logged_refused :
    c.logged.refused =
      (c.ops.filter (c.Leads ·)).filterMap fun op => (c.indexed op).map (op.opId, ·) := by
  obtain ⟨_, -, -, -, refused⟩ := c.logged_spec
  rw [refused, rows, List.filterMap_map]
  rfl

theorem refused_iff {op : SyncOp} (member : op ∈ c.ops) (leads : c.Leads op) :
    op.opId ∈ c.logged.refused.map (·.1) ↔ (c.indexed op).isSome = true := by
  simp only [logged_refused, List.mem_map, List.mem_filterMap, List.mem_filter, decide_eq_true_eq,
    Option.map_eq_some_iff, Option.isSome_iff_exists]
  constructor
  · rintro ⟨_, ⟨o, ⟨present, -⟩, constraint, index, rfl⟩, same⟩
    obtain rfl := List.inj_on_of_nodup_map c.ops_nodup present member same
    exact ⟨constraint, index⟩
  · rintro ⟨constraint, index⟩
    exact ⟨_, ⟨op, ⟨member, leads⟩, constraint, index, rfl⟩, rfl⟩

theorem kept_rows : kept c.rows c.logged.refused = c.stored := by
  have split : c.ops.filter (c.Stores ·) =
      (c.ops.filter (c.Leads ·)).filter fun op => (c.indexed op).isNone := by
    rw [List.filter_filter]
    refine List.filter_congr fun op _ => ?_
    cases index : c.indexed op <;> simp [Stores, index]
  unfold kept stored
  rw [split, rows, List.filter_map]
  refine congrArg _ (List.filter_congr fun op member => ?_)
  obtain ⟨present, leads⟩ := List.mem_filter.mp member
  have refused := c.refused_iff present (of_decide_eq_true leads)
  show (!(c.logged.refused.map (·.1)).contains op.opId) = (c.indexed op).isNone
  rw [← Option.not_isSome, Bool.not_inj_iff, Bool.eq_iff_iff, List.contains_iff_mem]
  exact refused

theorem nonceRefused_logged :
    nonceRefused c.logged.refused = (c.ops.filter (c.TakenBack ·)).map (·.opId) := by
  have split : c.ops.filter (c.TakenBack ·) =
      (c.ops.filter (c.Leads ·)).filter fun op => c.indexed op = some .nonce := by
    rw [List.filter_filter]
    refine List.filter_congr fun op _ => ?_
    rw [Bool.and_comm, ← Bool.decide_and]
    rfl
  rw [logged_refused, split]
  unfold nonceRefused
  induction c.ops.filter (c.Leads ·) with
  | nil => rfl
  | cons op rest ih =>
    cases index : c.indexed op with
    | none => simpa [index] using ih
    | some constraint =>
      cases constraint <;> simpa [index] using ih

def inserted (keyed : Db) : Db :=
  { keyed with ops := c.logged.log, nextSeq := c.logged.nextSeq }

theorem inserted_frame {keyed : Db}
    (flushed : c.keys.added.foldlM insertKey (c.dbAfter c.ops) = .ok keyed) :
    c.inserted keyed = { c.db with
      submissions := (c.dbAfter c.ops).submissions
      contentKeys := keyed.contentKeys
      wrappedKeys := keyed.wrappedKeys
      ops := c.logged.log
      nextSeq := c.logged.nextSeq } := by
  unfold inserted
  rw [insertKeys_frame flushed, c.dbAfter_frame]

theorem flushed_of_keyless (keyless : c.req.keys = []) :
    c.keys.added.foldlM insertKey (c.dbAfter c.ops) = .ok (c.dbAfter c.ops) := by
  have none : c.keys.added = [] := by
    unfold Call.keys KeyIntake.run
    rw [keyless]
    rfl
  rw [none]
  rfl

theorem intake_ok_iff {found : Intake} : c.intake = .ok found ↔
    c.OpensFree c.ops ∧ ∃ keyed, c.keys.added.foldlM insertKey (c.dbAfter c.ops) = .ok keyed ∧
      ⟨keyed, c.siftedAfter c.ops⟩ = found := by
  -- The insertion loop starts where `siftedAfter []` says it does.
  have sifted : ∀ keyed, c.keys.added.foldlM insertKey (c.dbAfter c.ops) = .ok keyed →
      (c.settledAfter c.ops).admitted.foldl
        (Sift.step (keySubmission c.pol keyed c.keys.admitted) (c.settledAfter c.ops).attributed)
        { accepted := (c.settledAfter c.ops).accepted
          rejected := (c.settledAfter c.ops).rejected
          taken := takenNonces c.pol keyed
          counters := c.knownCounters } = c.siftedAfter c.ops := by
    intro keyed flushed
    rw [c.keySubmission_flushed flushed, c.takenNonces_flushed flushed,
      ← c.sift_spec (List.append_nil _).symm]
    simp [siftedAfter, settledAfter, lastAttributed]
  unfold Call.intake
  simp only [Lib.bind_ok_iff, c.admission_spec]
  constructor
  · rintro ⟨_, ⟨free, rfl⟩, keyed, flushed, same⟩
    refine ⟨free, keyed, flushed, ?_⟩
    rw [← sifted keyed flushed]
    exact Except.ok.inj same
  · rintro ⟨free, keyed, flushed, rfl⟩
    refine ⟨_, ⟨free, rfl⟩, keyed, flushed, ?_⟩
    rw [← sifted keyed flushed]
    rfl

/-- A call returns exactly when the tables take the submissions it opens and the keys it
carries, and storing what follows from its rows goes through. -/
theorem push_ok_iff {response : PushResponse} {final : Db} :
    push c.pol c.db c.req = .ok (response, final) ↔
      c.OpensFree c.ops ∧ ∃ keyed, c.keys.added.foldlM insertKey (c.dbAfter c.ops) = .ok keyed ∧
        c.store (c.inserted keyed) c.stored = .ok final ∧
        response = ⟨c.accepted, c.rejected, serverCursor c.pol final⟩ := by
  have answer : c.logged.refused.foldl settleRefused
      ((c.siftedAfter c.ops).accepted, (c.siftedAfter c.ops).rejected) =
        (c.accepted, c.rejected) := by
    rw [settleRefused_fold, nonceRefused_logged, List.map_map]
    rfl
  have frame : ∀ keyed, c.keys.added.foldlM insertKey (c.dbAfter c.ops) = .ok keyed →
      keyed.ops = c.db.ops ∧ keyed.nextSeq = c.db.nextSeq ∧
        keyed.submissions = (c.dbAfter c.ops).submissions := by
    intro keyed flushed
    rw [insertKeys_frame flushed, c.dbAfter_frame]
    exact ⟨rfl, rfl, rfl⟩
  have shown : c.OpensFree c.ops → ∀ keyed,
      c.keys.added.foldlM insertKey (c.dbAfter c.ops) = .ok keyed →
      c.rows.all (fun row => c.pol.shows keyed row.submissionId) = true := by
    intro free keyed flushed
    simp only [rows, List.all_eq_true, List.mem_map, List.mem_filter, decide_eq_true_eq]
    rintro _ ⟨op, ⟨member, leads⟩, rfl⟩
    have := c.shown_of_admits free member leads.1.1.1
    simpa [Policies.shows, Policies.submission, (frame keyed flushed).2.2] using this
  have tail : ∀ keyed, keyed.ops = c.db.ops → keyed.nextSeq = c.db.nextSeq →
      (do
        let inserted := keyed.ops.insertOps keyed.nextSeq c.rows
        let verdicts := inserted.refused.foldl settleRefused
          ((c.siftedAfter c.ops).accepted, (c.siftedAfter c.ops).rejected)
        let db ← c.store { keyed with ops := inserted.log, nextSeq := inserted.nextSeq }
          (kept c.rows inserted.refused)
        return (⟨verdicts.1, verdicts.2, serverCursor c.pol db⟩, db)) =
      (do
        let db ← c.store (c.inserted keyed) c.stored
        return ((⟨c.accepted, c.rejected, serverCursor c.pol db⟩ : PushResponse), db)) := by
    intro keyed logs numbers
    have same : keyed.ops.insertOps keyed.nextSeq c.rows = c.logged := by rw [logs, numbers, logged]
    simp only [same, answer, kept_rows, inserted]
  have rows_eq : (c.siftedAfter c.ops).toInsert = c.rows := rfl
  unfold push
  simp only [Lib.bind_ok_iff]
  constructor
  · rintro ⟨_, taken, result⟩
    obtain ⟨free, keyed, flushed, rfl⟩ := c.intake_ok_iff.mp taken
    obtain ⟨logs, numbers, -⟩ := frame keyed flushed
    rw [rows_eq, if_pos (shown free keyed flushed)] at result
    obtain ⟨db, stored, same⟩ := Lib.bind_ok_iff.mp ((tail keyed logs numbers).symm.trans result)
    cases same
    exact ⟨free, keyed, flushed, stored, rfl⟩
  · rintro ⟨free, keyed, flushed, stored, rfl⟩
    refine ⟨_, c.intake_ok_iff.mpr ⟨free, keyed, flushed, rfl⟩, ?_⟩
    obtain ⟨logs, numbers, -⟩ := frame keyed flushed
    rw [rows_eq, if_pos (shown free keyed flushed)]
    exact (tail keyed logs numbers).trans (Lib.bind_ok_iff.mpr ⟨final, stored, rfl⟩)

end Call

end DataCollectionLab.Sync
