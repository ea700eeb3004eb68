import DataCollectionLab.Sync.Soundness
import DataCollectionLab.Sync.Transactions

/-!
A transaction that runs alone. Its statements, one after another with nothing in between, leave
what `push` and `decide` leave: the machine of concurrent transactions is the two functions taken
apart.
-/

namespace DataCollectionLab.Sync

namespace Server

variable (s : Server)

def hosting (tx : Tx) (seq : Nat) : Server :=
  { s with txs := AList.singleton 0 tx, nextSeq := seq, nextTx := 1 }

theorem hosting_alone (tx : Tx) (seq : Nat) (blocks : Tx → Prop) :
    (s.hosting tx seq).Alone 0 blocks := by
  intro entry member apart
  exact absurd (congrArg Sigma.fst (List.mem_singleton.mp member)) apart

def alone (state : Tx × Nat) (statement : Statement) : Option (Tx × Nat) :=
  statement.exec (s.hosting state.1 state.2) 0 state.1

theorem run_hosting (statements : List Statement) (state : Tx × Nat) :
    Lib.run step (s.hosting state.1 state.2) (statements.map (.exec 0)) =
      (Lib.run s.alone state statements).map fun last => s.hosting last.1 last.2 := by
  induction statements generalizing state with
  | nil => rfl
  | cons statement rest ih =>
    have here : (s.hosting state.1 state.2).step (.exec 0 statement) =
        (s.alone state statement).map fun next => s.hosting next.1 next.2 := by
      have mine : (s.hosting state.1 state.2).txs.lookup 0 = some state.1 := rfl
      simp only [step, mine]
      rfl
    rw [List.map_cons, Lib.run, Lib.run, here]
    cases s.alone state statement with
    | none => rfl
    | some next => exact ih next

theorem run_alone {db : Db} {statements : List Statement} {tx : Tx} {seq : Nat}
    (ran : Lib.run (atRest db).alone ({}, db.nextSeq) statements = some (tx, seq))
    (ready : tx.Ready) :
    Lib.run step (atRest db) (.start :: (statements.map (.exec 0) ++ [.commit 0])) =
      some (((atRest db).hosting tx seq).publish 0 tx) := by
  have executed := (atRest db).run_hosting statements ({}, db.nextSeq)
  rw [ran] at executed
  have committed : ((atRest db).hosting tx seq).step (.commit 0) =
      some (((atRest db).hosting tx seq).publish 0 tx) := if_pos ready
  refine Lib.run_cons_iff.mpr ⟨_, rfl, Lib.run_append_iff.mpr ⟨_, executed, ?_⟩⟩
  rw [Lib.run, committed]
  rfl

theorem run_loads (tx : Tx) (unwritten : ∀ id, tx.statuses id = none) (seq : Nat)
    (ids : List String) :
    Lib.run s.alone (tx, seq) (ids.map .load) =
      some ({ tx with seen := fun id => if id ∈ ids then s.statuses id else tx.seen id }, seq) := by
  induction ids generalizing tx with
  | nil => simp [Lib.run]
  | cons first ids ih =>
    have here : s.alone (tx, seq) (.load first) =
        some ({ tx with seen := Function.update tx.seen first (s.statuses first) }, seq) := by
      have read : (tx.statuses first).or (s.statuses first) = s.statuses first := by
        rw [unwritten, Option.none_or]
      rw [← read]
      rfl
    rw [List.map_cons, Lib.run, here, Option.bind_some, ih _ (by exact unwritten)]
    congr 3
    funext id
    by_cases listed : id ∈ ids
    · simp [listed]
    · by_cases same : id = first <;> simp [listed, same]

theorem run_opens (tx : Tx) (seq : Nat) {ids : List String} (distinct : ids.Nodup)
    (absent : ∀ id ∈ ids, s.statuses id = none) (unopened : ∀ id ∈ ids, tx.statuses id = none) :
    Lib.run s.alone (tx, seq) (ids.map .opens) =
      some ({ tx with
        seen := fun id => if id ∈ ids then some .draft else tx.seen id
        statuses := fun id => if id ∈ ids then some .draft else tx.statuses id }, seq) := by
  induction ids generalizing tx with
  | nil => simp [Lib.run]
  | cons first ids ih =>
    obtain ⟨fresh, distinct⟩ := List.nodup_cons.mp distinct
    rw [List.forall_mem_cons] at absent unopened
    have here : s.alone (tx, seq) (.opens first) =
        some ({ tx with
          seen := Function.update tx.seen first (some .draft)
          statuses := Function.update tx.statuses first (some .draft) }, seq) :=
      if_pos ⟨absent.1, unopened.1, s.hosting_alone tx seq _⟩
    rw [List.map_cons, Lib.run, here, Option.bind_some, ih _ distinct absent.2]
    · congr 3 <;> funext id <;> by_cases listed : id ∈ ids <;>
        by_cases same : id = first <;> simp [listed, same]
    · intro id member
      have apart : id ≠ first := by
        rintro rfl
        exact fresh member
      exact (Function.update_of_ne apart _ _).trans (unopened.2 id member)

theorem run_wasted (tx : Tx) (early : tx.folding = false) (seq : Nat) {rows : List SubmissionOp}
    (admits : ∀ row ∈ rows, (tx.seen row.submissionId).any (fun status => !status.closed) = true)
    (refused : ∀ row ∈ rows, ∃ r ∈ s.ops, r.Clash row) :
    Lib.run s.alone (tx, seq) (rows.map .insertOp) = some (tx, seq + rows.length) := by
  induction rows generalizing seq with
  | nil => rfl
  | cons row rest ih =>
    rw [List.forall_mem_cons] at admits refused
    obtain ⟨r, stored, clash⟩ := refused.1
    have here : s.alone (tx, seq) (.insertOp row) = some (tx, seq + 1) := by
      refine (if_pos ⟨admits.1, early, s.hosting_alone tx seq _⟩).trans (if_pos ?_)
      exact ⟨r, List.mem_append_left _ stored, clash⟩
    rw [List.map_cons, Lib.run, here, Option.bind_some, ih (seq + 1) admits.2 refused.2]
    congr 2
    rw [List.length_cons]
    omega

theorem run_inserts (tx : Tx) (early : tx.folding = false) (seq : Nat) {rows : List SubmissionOp}
    (admits : ∀ row ∈ rows, (tx.seen row.submissionId).any (fun status => !status.closed) = true)
    (apart : rows.Pairwise fun a b => ¬ a.Clash b)
    (fresh : ∀ r ∈ tx.ops, ∀ row ∈ rows, ¬ r.Clash row) :
    Lib.run s.alone (tx, seq) (rows.map .insertOp) =
      some ({ tx with
        ops := tx.ops ++ (OpLog.numbered seq rows).filter fun row => ∀ r ∈ s.ops, ¬ r.Clash row },
        seq + rows.length) := by
  induction rows generalizing tx seq with
  | nil => simp [Lib.run, OpLog.numbered]
  | cons row rest ih =>
    rw [List.forall_mem_cons] at admits
    obtain ⟨first, apart⟩ := List.pairwise_cons.mp apart
    have issued : (tx.seen row.submissionId).any (fun status => !status.closed) = true ∧
        tx.folding = false ∧ (s.hosting tx seq).Alone 0 (fun other => ∃ r ∈ other.ops, r.Clash row) :=
      ⟨admits.1, early, s.hosting_alone tx seq _⟩
    have length : seq + (row :: rest).length = seq + 1 + rest.length := by
      rw [List.length_cons]
      omega
    rw [List.map_cons, Lib.run, length]
    by_cases refused : ∃ r ∈ s.ops, r.Clash row
    · have here : s.alone (tx, seq) (.insertOp row) = some (tx, seq + 1) := by
        obtain ⟨r, stored, clash⟩ := refused
        exact (if_pos issued).trans (if_pos ⟨r, List.mem_append_left _ stored, clash⟩)
      have out : ¬ ∀ r ∈ s.ops, ¬ r.Clash { row with serverSeq := seq } := by
        obtain ⟨r, stored, clash⟩ := refused
        exact fun none => none r stored clash
      rw [here, Option.bind_some, ih tx early (seq + 1) admits.2 apart
        fun r member other listed => fresh r member other (List.mem_cons_of_mem _ listed)]
      have dropped : (OpLog.numbered seq (row :: rest)).filter (∀ r ∈ s.ops, ¬ r.Clash ·) =
          (OpLog.numbered (seq + 1) rest).filter (∀ r ∈ s.ops, ¬ r.Clash ·) :=
        List.filter_cons_of_neg (by exact fun none => out (of_decide_eq_true none))
      rw [dropped]
    · have new : ¬ ∃ r ∈ s.ops ++ tx.ops, r.Clash row := by
        rintro ⟨r, member, clash⟩
        rcases List.mem_append.mp member with committed | own
        · exact refused ⟨r, committed, clash⟩
        · exact fresh r own row List.mem_cons_self clash
      have here : s.alone (tx, seq) (.insertOp row) =
          some ({ tx with ops := tx.ops ++ [{ row with serverSeq := seq }] }, seq + 1) :=
        (if_pos issued).trans (if_neg new)
      have taken : ∀ r ∈ s.ops, ¬ r.Clash { row with serverSeq := seq } :=
        fun r stored clash => refused ⟨r, stored, clash⟩
      rw [here, Option.bind_some, ih _ (by exact early) (seq + 1) (by exact admits.2) apart]
      · have kept : (OpLog.numbered seq (row :: rest)).filter (∀ r ∈ s.ops, ¬ r.Clash ·) =
            { row with serverSeq := seq } ::
              (OpLog.numbered (seq + 1) rest).filter (∀ r ∈ s.ops, ¬ r.Clash ·) :=
          List.filter_cons_of_pos (by exact decide_eq_true taken)
        rw [kept]
        simp only [List.append_assoc, List.singleton_append]
      · intro r member other listed
        rcases List.mem_append.mp member with own | last
        · exact fresh r own other (List.mem_cons_of_mem _ listed)
        · rw [List.mem_singleton.mp last]
          exact first other listed

theorem run_tombstones (tx : Tx) (seq : Nat) (stones : List Tombstone) :
    Lib.run s.alone (tx, seq) (stones.map .insertTombstone) =
      some ({ tx with
        tombstones := tx.tombstones ++
          stones.zipIdx.map fun entry => { entry.1 with serverSeq := seq + entry.2 } },
        seq + stones.length) := by
  induction stones generalizing tx seq with
  | nil => simp [Lib.run]
  | cons stone rest ih =>
    rw [List.map_cons, Lib.run]
    show Lib.run s.alone
      ({ tx with tombstones := tx.tombstones ++ [{ stone with serverSeq := seq }] }, seq + 1) _ = _
    rw [ih, List.zipIdx_cons, List.map_cons, List.length_cons, List.append_assoc,
      List.singleton_append, List.zipIdx_succ, List.map_map]
    have shift : ∀ n, seq + 1 + n = seq + (n + 1) := by
      intro n
      omega
    simp only [Function.comp_def, shift, Nat.add_zero]

end Server

/-- What `statusDue` makes of a fold and a status. -/
def dueFrom (fold : Fold) (seen : Option Status) : Option Status := do
  let current ← seen
  let event ← eventForFolded fold.status
  match nextStatus current event with
  | .ok status => if status = current then none else some status
  | .error _ => none

theorem Tx.statusDue_eq {tx : Tx} {id : String} {fold : Fold} (read : tx.folds id = some fold) :
    tx.statusDue id = dueFrom fold (tx.seen id) := by
  unfold Tx.statusDue
  rw [read]
  rfl

theorem applyFolded_status_due (submission : Submission) (folded : Fold) :
    some (applyFolded submission folded).status =
      (dueFrom folded (some submission.status)).or (some submission.status) := by
  unfold applyFolded dueFrom
  cases eventForFolded folded.status with
  | none => rfl
  | some event =>
    cases moved : nextStatus submission.status event with
    | error refusal => simp [moved]
    | ok status =>
      by_cases same : status = submission.status <;> simp [moved, same]

/-- `_fold_submission`, and the flush of the status if there is one. -/
def foldStatements (due : Option Status) (id : String) : List Statement :=
  if due.isSome then [.foldLog id, .updateStatus id, .upsertState id]
  else [.foldLog id, .upsertState id]

/-- A transaction after it has folded the submissions `ids`. -/
structure Folded (s : Server) (tx : Tx) (ids : List String) (tx' : Tx) : Prop where
  ops : tx'.ops = tx.ops
  tombstones : tx'.tombstones = tx.tombstones
  seen : tx'.seen = tx.seen
  folds : ∀ id, tx'.folds id =
    if id ∈ ids then some (foldOps (orderedLog (s.ops ++ tx.ops) id)) else tx.folds id
  states : ∀ id, tx'.states id =
    if id ∈ ids then some (foldOps (orderedLog (s.ops ++ tx.ops) id)).data else tx.states id
  statuses : ∀ id, tx'.statuses id =
    if id ∈ ids then
      (dueFrom (foldOps (orderedLog (s.ops ++ tx.ops) id)) (tx.seen id)).or (tx.statuses id)
    else tx.statuses id

namespace Server

variable (s : Server)

theorem run_foldStatements {tx : Tx} (seq : Nat) {id : String}
    (touched : ∃ op ∈ tx.ops, op.submissionId = id) :
    ∃ tx', Lib.run s.alone (tx, seq)
        (foldStatements (dueFrom (foldOps (orderedLog (s.ops ++ tx.ops) id)) (tx.seen id)) id) =
          some (tx', seq) ∧ Folded s tx [id] tx' := by
  generalize read : foldOps (orderedLog (s.ops ++ tx.ops) id) = fold
  have folds : s.alone (tx, seq) (.foldLog id) =
      some ({ tx with folds := Function.update tx.folds id (some fold), folding := true }, seq) := by
    rw [← read]
    exact if_pos touched
  have upserts : ∀ tx₁ : Tx, tx₁.folds id = some fold →
      s.alone (tx₁, seq) (.upsertState id) =
        some ({ tx₁ with states := Function.update tx₁.states id (some fold.data) }, seq) := by
    intro tx₁ known
    unfold alone Statement.exec
    dsimp only
    rw [known]
    exact if_pos (s.hosting_alone tx₁ seq _)
  have written : ∀ {β : Type} (f : String → Option β) (value : β) (other : String),
      Function.update f id (some value) other = if other ∈ [id] then some value else f other := by
    intro β f value other
    by_cases same : other = id <;> simp [same]
  have one : ∀ other, other ∈ [id] → other = id := fun other => List.mem_singleton.mp
  unfold foldStatements
  cases due : dueFrom fold (tx.seen id) with
  | none =>
    refine ⟨{ tx with
      folds := Function.update tx.folds id (some fold)
      folding := true
      states := Function.update tx.states id (some fold.data) }, ?_, rfl, rfl, rfl, ?_, ?_, ?_⟩
    · rw [Option.isSome_none, if_neg Bool.false_ne_true, Lib.run, folds, Option.bind_some, Lib.run,
        upserts _ (by exact Function.update_self ..), Option.bind_some, Lib.run]
    · intro other
      refine (written _ _ _).trans ?_
      split
      · rename_i member
        rw [one other member, read]
      · rfl
    · intro other
      refine (written _ _ _).trans ?_
      split
      · rename_i member
        rw [one other member, read]
      · rfl
    · intro other
      split
      · rename_i member
        rw [one other member, read, due, Option.none_or]
      · rfl
  | some status =>
    have updates : s.alone ({ tx with
        folds := Function.update tx.folds id (some fold), folding := true }, seq)
          (.updateStatus id) = some ({ tx with
            folds := Function.update tx.folds id (some fold)
            folding := true
            statuses := Function.update tx.statuses id (some status) }, seq) := by
      have owed := @Tx.statusDue_eq { tx with
        folds := Function.update tx.folds id (some fold), folding := true } id fold
        (Function.update_self ..)
      unfold alone Statement.exec
      dsimp only
      rw [owed, due]
      exact if_pos (s.hosting_alone _ seq _)
    refine ⟨{ tx with
      folds := Function.update tx.folds id (some fold)
      folding := true
      states := Function.update tx.states id (some fold.data)
      statuses := Function.update tx.statuses id (some status) }, ?_, rfl, rfl, rfl, ?_, ?_, ?_⟩
    · rw [Option.isSome_some, if_pos rfl, Lib.run, folds, Option.bind_some, Lib.run, updates,
        Option.bind_some, Lib.run, upserts _ (by exact Function.update_self ..), Option.bind_some,
        Lib.run]
    · intro other
      refine (written _ _ _).trans ?_
      split
      · rename_i member
        rw [one other member, read]
      · rfl
    · intro other
      refine (written _ _ _).trans ?_
      split
      · rename_i member
        rw [one other member, read]
      · rfl
    · intro other
      refine (written _ _ _).trans ?_
      split
      · rename_i member
        rw [one other member, read, due, Option.some_or]
      · rfl

theorem run_folds {tx : Tx} (seq : Nat) {ids : List String} (distinct : ids.Nodup)
    (touched : ∀ id ∈ ids, ∃ op ∈ tx.ops, op.submissionId = id) :
    ∃ tx', Lib.run s.alone (tx, seq) (ids.flatMap fun id =>
        foldStatements (dueFrom (foldOps (orderedLog (s.ops ++ tx.ops) id)) (tx.seen id)) id) =
          some (tx', seq) ∧ Folded s tx ids tx' := by
  induction ids using List.reverseRecOn with
  | nil => exact ⟨tx, rfl, rfl, rfl, rfl, by simp, by simp, by simp⟩
  | append_singleton ids id ih =>
    obtain ⟨distinct, -, apart⟩ := List.nodup_append.mp distinct
    obtain ⟨tx₁, ran, first⟩ := ih distinct fun i member => touched i (List.mem_append_left _ member)
    have touched₁ : ∃ op ∈ tx₁.ops, op.submissionId = id := by
      rw [first.ops]
      exact touched id (by simp)
    obtain ⟨tx₂, ran', last⟩ := s.run_foldStatements seq touched₁
    rw [first.ops, first.seen] at ran'
    refine ⟨tx₂, ?_, ?_⟩
    · rw [List.flatMap_append, Lib.run_append_iff]
      exact ⟨_, ran, by simpa using ran'⟩
    · have fresh : id ∉ ids := fun member => apart id member id (by simp) rfl
      refine ⟨last.ops.trans first.ops, last.tombstones.trans first.tombstones,
        last.seen.trans first.seen, ?_, ?_, ?_⟩ <;> intro other
      · rw [last.folds, first.folds, first.ops]
        by_cases same : other = id <;> by_cases listed : other ∈ ids <;> simp [same, listed]
      · rw [last.states, first.states, first.ops]
        by_cases same : other = id <;> by_cases listed : other ∈ ids <;> simp [same, listed]
      · rw [last.statuses, first.statuses, first.ops, first.seen]
        by_cases same : other = id
        · subst same
          simp [fresh]
        · simp [same]

end Server

/-! ### The statements of `push` -/

def Judgement.opens? : Judgement → Bool
  | .opens _ => true
  | .replay | .refuse _ | .join => false

theorem Judgement.opens?_iff {judgement : Judgement} :
    judgement.opens? = true ↔ ∃ row, judgement = .opens row := by
  cases judgement <;> simp [Judgement.opens?]

namespace Call

variable (c : Call)

def opened : List String :=
  (c.ops.filter fun op => (c.judgement op).opens?).map (·.submissionId)

def seen (id : String) : Option Status :=
  if id ∈ c.opened then some .draft
  else if id ∈ (c.ops.map (·.submissionId)).filter (c.pol.shows c.db) then
    (c.db.submissions.lookup id).map (·.status)
  else none

def due (id : String) : Option Status :=
  dueFrom (foldOps (orderedLog c.logged.log.rows id)) (c.seen id)

/-- What the call asks of the tables that transactions share, in its order. `wasted` are the
inserts of a flush that was rolled back. -/
def script (wasted : List SubmissionOp) : List Statement :=
  ((c.ops.map (·.submissionId)).filter (c.pol.shows c.db)).map .load ++
    c.opened.map .opens ++ (wasted ++ c.rows).map .insertOp ++
    (c.stored.filterMap (tombstoneOf c.db)).map .insertTombstone ++
    (touched c.stored).flatMap fun id => foldStatements (c.due id) id

theorem mem_opened {id : String} :
    id ∈ c.opened ↔ ∃ op ∈ c.ops, (∃ row, c.judgement op = .opens row) ∧ op.submissionId = id := by
  simp only [opened, List.mem_map, List.mem_filter, Judgement.opens?_iff, and_assoc]

section Returned

variable {c} (free : c.OpensFree c.ops)
include free

theorem opened_nodup : c.opened.Nodup := by
  have apart : c.ops.Pairwise fun a b => (c.judgement a).opens? = true →
      (c.judgement b).opens? = true → a.submissionId ≠ b.submissionId := by
    refine Lib.pairwise_of_splits fun before op after split earlier member opens opens' same => ?_
    obtain ⟨row, opens⟩ := Judgement.opens?_iff.mp opens
    obtain ⟨row', opens'⟩ := Judgement.opens?_iff.mp opens'
    obtain ⟨present, found, -⟩ := c.submission_of_admits free split member (by rw [opens]; rfl)
    have absent := (free op (by simp [split]) row' opens').1
    rw [c.earlier_eq split, ← same, found] at absent
    cases absent
  unfold opened List.Nodup
  rw [List.pairwise_map, List.pairwise_filter]
  exact apart

theorem opened_absent {id : String} (member : id ∈ c.opened) :
    c.db.submissions.lookup id = none := by
  obtain ⟨op, inBatch, ⟨row, opens⟩, rfl⟩ := c.mem_opened.mp member
  obtain ⟨before, after, split⟩ := List.append_of_mem inBatch
  have absent := (free op inBatch row opens).1
  rw [c.earlier_eq split] at absent
  exact c.start_none split free absent

theorem seen_admitted {op : SyncOp} (member : op ∈ c.ops)
    (admitted : (c.judgement op).admits = true) :
    ∃ row, (c.dbAfter c.ops).submissions.lookup op.submissionId = some row ∧
      row.status.closed = false ∧ c.seen op.submissionId = some row.status := by
  obtain ⟨row, found, sees⟩ :=
    c.submission_of_admits free (List.append_nil _).symm member admitted
  rcases c.opened_of_lookup (List.append_nil _).symm found with start | ⟨o, inBatch, same, opens⟩
  · have unopened : op.submissionId ∉ c.opened := by
      intro listed
      rw [opened_absent free listed] at start
      cases start
    have loaded : op.submissionId ∈ (c.ops.map (·.submissionId)).filter (c.pol.shows c.db) := by
      refine List.mem_filter.mpr ⟨List.mem_map_of_mem member, ?_⟩
      simp [Policies.shows, Policies.submission, start, sees]
    obtain ⟨before, after, split⟩ := List.append_of_mem member
    refine ⟨row, found, ?_, ?_⟩
    · cases judged : c.judgement op with
      | replay | refuse _ =>
        rw [judged] at admitted
        cases admitted
      | opens new => exact absurd (c.mem_opened.mpr ⟨op, member, ⟨new, judged⟩, rfl⟩) unopened
      | join =>
        obtain ⟨-, device, _, version, there, -, -, shown, fits⟩ :=
          c.judge_join_iff.mp ((c.judge_here split).trans judged)
        have split' : c.ops = [] ++ (before ++ (op :: after)) := split
        have kept := c.lookup_dbAfter split' free start
        rw [List.nil_append, (Option.filter_eq_some_iff.mp shown).1] at kept
        cases kept
        exact (refusalOn_eq_none_iff.mp fits).2.1
    · rw [seen, if_neg unopened, if_pos loaded, start]
      rfl
  · have draft : row.status = .draft := by
      obtain ⟨-, _, _, _, _, -, -, -, -, -, rfl⟩ := c.judge_opens_iff.mp opens
      rfl
    have listed : op.submissionId ∈ c.opened := c.mem_opened.mpr ⟨o, inBatch, ⟨row, opens⟩, same⟩
    refine ⟨row, found, ?_, ?_⟩
    · rw [draft]
      rfl
    · rw [seen, if_pos listed, draft]

theorem status_dbAfter (id : String) :
    ((c.dbAfter c.ops).submissions.lookup id).map (·.status) =
      (if id ∈ c.opened then some .draft else none).or
        ((c.db.submissions.lookup id).map (·.status)) := by
  by_cases listed : id ∈ c.opened
  · obtain ⟨op, inBatch, ⟨row, opens⟩, rfl⟩ := c.mem_opened.mp listed
    obtain ⟨-, _, _, _, _, -, -, -, -, -, made⟩ := c.judge_opens_iff.mp opens
    rw [c.lookup_opened free inBatch opens, if_pos listed, Option.some_or, ← made]
    rfl
  · rw [if_neg listed, Option.none_or]
    cases start : c.db.submissions.lookup id with
    | some row =>
      have split : c.ops = [] ++ (c.ops ++ []) := by simp
      have kept := c.lookup_dbAfter split free start
      rw [List.nil_append] at kept
      rw [kept]
    | none =>
      cases found : (c.dbAfter c.ops).submissions.lookup id with
      | none => rfl
      | some row =>
        rcases c.opened_of_lookup (List.append_nil _).symm found with old | ⟨op, member, on, opens⟩
        · rw [start] at old
          cases old
        · exact absurd (c.mem_opened.mpr ⟨op, member, ⟨row, opens⟩, on⟩) listed

theorem rows_admitted {row : SubmissionOp} (member : row ∈ c.rows) :
    (c.seen row.submissionId).any (fun status => !status.closed) = true := by
  obtain ⟨op, listed, rfl⟩ := List.mem_map.mp member
  obtain ⟨inBatch, leads⟩ := List.mem_filter.mp listed
  obtain ⟨row, -, opened, seen⟩ := seen_admitted free inBatch (of_decide_eq_true leads).1.1.1
  rw [SyncOp.row_submissionId, seen, Option.any_some, opened]
  rfl

end Returned

def booked : Tx where
  seen := c.seen
  statuses := fun id => if id ∈ c.opened then some .draft else none

def unfolded (start : Nat) : Tx :=
  { c.booked with
    ops := (OpLog.numbered start c.rows).filter fun row => ∀ r ∈ c.db.ops.rows, ¬ r.Clash row
    tombstones := (c.stored.filterMap (tombstoneOf c.db)).zipIdx.map fun entry =>
      { entry.1 with serverSeq := start + c.rows.length + entry.2 } }

theorem exists_start : ∃ start wasted,
    c.logged.log.rows = c.db.ops.rows ++ (c.unfolded start).ops ∧
    c.logged.nextSeq = start + c.rows.length ∧
    c.db.nextSeq + List.length wasted = start ∧
    ∀ row ∈ wasted, row ∈ c.rows ∧ ∃ r ∈ c.db.ops.rows, r.Clash row := by
  obtain ⟨start, bound, cause, same⟩ := c.db.ops.insertOps_eq c.db.nextSeq c.rows_apart
  obtain ⟨rows, number, -⟩ := c.db.ops.insertEach_spec start c.rows c.rows_apart
  have log : c.logged.log.rows = c.db.ops.rows ++ (c.unfolded start).ops := by
    rw [logged, same, rows]
    refine congrArg _ (List.filter_congr fun row _ => ?_)
    rw [Bool.eq_iff_iff, decide_eq_true_eq, Option.isNone_iff_eq_none, OpLog.violation_eq_none_iff]
  have sequence : c.logged.nextSeq = start + c.rows.length := by
    rw [logged, same, number]
  rcases cause with rfl | ⟨row, listed, refused⟩
  · exact ⟨c.db.nextSeq, [], log, sequence, rfl, by simp⟩
  · refine ⟨start, List.replicate (start - c.db.nextSeq) row, log, sequence, ?_, ?_⟩
    · rw [List.length_replicate]
      omega
    · intro other member
      rw [List.eq_of_mem_replicate member]
      refine ⟨listed, ?_⟩
      by_contra free
      have taken : c.db.ops.violation row = none :=
        OpLog.violation_eq_none_iff.mpr fun r stored clash => free ⟨r, stored, clash⟩
      rw [taken] at refused
      cases refused

theorem mem_unfolded_ops {start : Nat}
    (log : c.logged.log.rows = c.db.ops.rows ++ (c.unfolded start).ops) {id : String} :
    (∃ op ∈ (c.unfolded start).ops, op.submissionId = id) ↔ id ∈ touched c.stored := by
  have stored : (c.unfolded start).ops.map (·.unnumbered) = c.stored := by
    have both := c.logged_unnumbered
    rw [log, List.map_append] at both
    exact List.append_cancel_left both
  rw [mem_touched, ← stored]
  constructor
  · rintro ⟨op, member, rfl⟩
    exact ⟨_, List.mem_map_of_mem member, rfl⟩
  · rintro ⟨row, member, rfl⟩
    obtain ⟨op, listed, rfl⟩ := List.mem_map.mp member
    exact ⟨op, listed, rfl⟩

theorem run_booked (free : c.OpensFree c.ops) :
    Lib.run (Server.atRest c.db).alone ({}, c.db.nextSeq)
      (((c.ops.map (·.submissionId)).filter (c.pol.shows c.db)).map .load ++
        c.opened.map .opens) = some (c.booked, c.db.nextSeq) := by
  have absent : ∀ id ∈ c.opened, (Server.atRest c.db).statuses id = none := by
    intro id member
    show (c.db.submissions.lookup id).map _ = none
    rw [opened_absent free member]
    rfl
  refine Lib.run_append_iff.mpr ⟨_, Server.run_loads _ {} (fun _ => rfl) _ _, ?_⟩
  exact Server.run_opens _ _ _ (opened_nodup free) absent fun _ _ => rfl

theorem run_unfolded (free : c.OpensFree c.ops) {start : Nat} {wasted : List SubmissionOp}
    (drawn : c.db.nextSeq + wasted.length = start)
    (refused : ∀ row ∈ wasted, row ∈ c.rows ∧ ∃ r ∈ c.db.ops.rows, r.Clash row) :
    Lib.run (Server.atRest c.db).alone (c.booked, c.db.nextSeq)
      ((wasted ++ c.rows).map .insertOp ++
        (c.stored.filterMap (tombstoneOf c.db)).map .insertTombstone) =
      some (c.unfolded start,
        start + c.rows.length + (c.stored.filterMap (tombstoneOf c.db)).length) := by
  have admits : ∀ row ∈ c.rows,
      (c.booked.seen row.submissionId).any (fun status => !status.closed) = true :=
    fun row member => rows_admitted free member
  have wastes := (Server.atRest c.db).run_wasted c.booked rfl c.db.nextSeq
    (fun row member => admits row (refused row member).1) (fun row member => (refused row member).2)
  have inserts := (Server.atRest c.db).run_inserts c.booked rfl start admits c.rows_apart
    fun _ member => by cases member
  rw [drawn] at wastes
  rw [List.map_append, List.append_assoc]
  refine Lib.run_append_iff.mpr ⟨_, wastes, Lib.run_append_iff.mpr ⟨_, inserts, ?_⟩⟩
  exact Server.run_tombstones _ _ _ _

theorem run_script (free : c.OpensFree c.ops) {start : Nat} {wasted : List SubmissionOp}
    (log : c.logged.log.rows = c.db.ops.rows ++ (c.unfolded start).ops)
    (drawn : c.db.nextSeq + wasted.length = start)
    (refused : ∀ row ∈ wasted, row ∈ c.rows ∧ ∃ r ∈ c.db.ops.rows, r.Clash row) :
    ∃ tx, Lib.run (Server.atRest c.db).alone ({}, c.db.nextSeq) (c.script wasted) =
        some (tx, start + c.rows.length + (c.stored.filterMap (tombstoneOf c.db)).length) ∧
      Folded (Server.atRest c.db) (c.unfolded start) (touched c.stored) tx := by
  obtain ⟨tx, folds, folded⟩ := (Server.atRest c.db).run_folds
    (start + c.rows.length + (c.stored.filterMap (tombstoneOf c.db)).length)
    (touched_nodup c.stored) fun id member => (c.mem_unfolded_ops log).mpr member
  refine ⟨tx, ?_, folded⟩
  have same : (Server.atRest c.db).ops ++ (c.unfolded start).ops = c.logged.log.rows := log.symm
  rw [same] at folds
  unfold script
  rw [List.append_assoc _ ((wasted ++ c.rows).map _)]
  refine Lib.run_append_iff.mpr ⟨_, Lib.run_append_iff.mpr ⟨_, c.run_booked free, ?_⟩, folds⟩
  exact c.run_unfolded free drawn refused

section Final

variable {c} {start : Nat} {tx : Tx}
  (log : c.logged.log.rows = c.db.ops.rows ++ (c.unfolded start).ops)
  (folded : Folded (Server.atRest c.db) (c.unfolded start) (touched c.stored) tx)
include log folded

theorem folded_ready : tx.Ready := by
  have rows : (Server.atRest c.db).ops ++ (c.unfolded start).ops = c.logged.log.rows := log.symm
  intro op member
  have listed : op.submissionId ∈ touched c.stored :=
    (c.mem_unfolded_ops log).mp ⟨op, folded.ops ▸ member, rfl⟩
  have read := folded.folds op.submissionId
  rw [if_pos listed] at read
  rw [folded.states, if_pos listed, folded.statuses, if_pos listed, Tx.statusDue_eq read, folded.seen]
  refine ⟨rfl, ?_⟩
  cases dueFrom _ _ with
  | none => exact Or.inl rfl
  | some status => exact Or.inr rfl

theorem folded_states {keyed : Db} (free : c.OpensFree c.ops)
    (flushed : c.keys.added.foldlM insertKey (c.dbAfter c.ops) = .ok keyed) (id : String) :
    (tx.states id).or ((c.db.states.lookup id).map (·.data)) =
      ((c.settle (c.inserted keyed) c.stored).states.lookup id).map (·.data) := by
  have rows : (Server.atRest c.db).ops ++ (c.unfolded start).ops = c.logged.log.rows := log.symm
  rw [folded.states, c.settle_state, rows]
  by_cases listed : id ∈ touched c.stored
  · obtain ⟨op, inBatch, stores, rfl⟩ := c.mem_touched_stored.mp listed
    have shown : c.pol.shows (c.inserted keyed) op.submissionId = true := by
      rw [c.inserted_frame flushed]
      exact c.shown_of_admits free inBatch stores.1.1.1.1
    rw [if_pos listed, if_pos ⟨listed, shown⟩]
    rfl
  · rw [if_neg listed, if_neg fun both => listed both.1, c.inserted_frame flushed]
    rfl

theorem folded_statuses {keyed : Db} (free : c.OpensFree c.ops)
    (flushed : c.keys.added.foldlM insertKey (c.dbAfter c.ops) = .ok keyed) (id : String) :
    (tx.statuses id).or ((c.db.submissions.lookup id).map (·.status)) =
      ((c.settle (c.inserted keyed) c.stored).submissions.lookup id).map (·.status) := by
  have rows : (Server.atRest c.db).ops ++ (c.unfolded start).ops = c.logged.log.rows := log.symm
  have table : (c.inserted keyed).submissions = (c.dbAfter c.ops).submissions := by
    rw [c.inserted_frame flushed]
  have before := status_dbAfter free id
  rw [folded.statuses, c.settle_submission, table, rows]
  by_cases listed : id ∈ touched c.stored
  · obtain ⟨op, inBatch, stores, rfl⟩ := c.mem_touched_stored.mp listed
    obtain ⟨row, found, -, seen⟩ := seen_admitted free inBatch stores.1.1.1.1
    have shown := c.shown_of_admits free inBatch stores.1.1.1.1
    rw [Policies.shows, Policies.submission, found, Option.isSome_filter] at shown
    rw [found, Option.map_some] at before
    rw [if_pos listed, found, Option.map_some, Option.map_some, if_pos ⟨listed, shown⟩,
      Option.or_assoc]
    show (dueFrom _ (c.seen op.submissionId)).or (Option.or (if op.submissionId ∈ c.opened then some .draft else none) _) = _
    rw [← before, seen]
    exact (applyFolded_status_due row _).symm
  · rw [if_neg listed, Option.map_map]
    refine before.symm.trans ?_
    congr 1
    funext row
    rw [Function.comp_apply, if_neg fun both => listed both.1]

end Final

theorem push_runs_alone {response : PushResponse} {final : Db}
    (returned : push c.pol c.db c.req = .ok (response, final)) :
    ∃ wasted, Lib.run Server.step (Server.atRest c.db)
      (.start :: ((c.script wasted).map (.exec 0) ++ [.commit 0])) =
        some { Server.atRest final with nextTx := 1 } := by
  obtain ⟨free, keyed, flushed, -, rfl, -⟩ := c.push_returns_iff.mp returned
  obtain ⟨start, wasted, log, sequence, drawn, refused⟩ := c.exists_start
  obtain ⟨tx, ran, folded⟩ := c.run_script free log drawn refused
  refine ⟨wasted, (Server.run_alone ran (folded_ready log folded)).trans (congrArg some ?_)⟩
  have stones : tombstoneOf (c.inserted keyed) = tombstoneOf c.db := by
    rw [c.inserted_frame flushed]
    rfl
  have frame := c.settle_frame (c.inserted keyed) c.stored
  rw [stones] at frame
  simp only [Server.publish, Server.hosting, Server.atRest, Server.mk.injEq]
  refine ⟨?_, ?_, ?_, ?_, ?_, rfl, trivial, trivial⟩
  · rw [folded.ops, ← log, c.settle_ops]
    rfl
  · rw [frame, folded.tombstones, c.inserted_frame flushed]
    unfold addTombstones
    dsimp only
    rw [sequence]
    rfl
  · funext id
    exact folded_states log folded free flushed id
  · funext id
    exact folded_statuses log folded free flushed id
  · rw [frame, c.inserted_frame flushed]
    unfold addTombstones
    dsimp only
    rw [sequence]

end Call

set_option maxRecDepth 10000 in
theorem mixedBatch_runs_alone : ∃ response final wasted,
    push .unrestricted (oneForm [("d1", some "u1")]) mixedBatch = .ok (response, final) ∧
      response.accepted = ["o1"] ∧
      Lib.run Server.step (Server.atRest (oneForm [("d1", some "u1")]))
        (.start :: ((Call.script ⟨.unrestricted, oneForm [("d1", some "u1")], mixedBatch⟩
          wasted).map (.exec 0) ++ [.commit 0])) =
            some { Server.atRest final with nextTx := 1 } := by
  let c : Call := ⟨.unrestricted, oneForm [("d1", some "u1")], mixedBatch⟩
  obtain ⟨wasted, ran⟩ := c.push_runs_alone rfl
  exact ⟨_, _, wasted, rfl, by decide, ran⟩

theorem run_decision {db : Db} {req : Quality.ReviewRequest} {submission : Submission}
    {moved : Status} (found : db.submissions.lookup req.submissionId = some submission)
    (moves : req.moves submission.status = .ok moved) :
    ∃ tx, Lib.run (Server.atRest db).alone ({}, db.nextSeq)
        [.load req.submissionId, .decides req] = some (tx, db.nextSeq) ∧
      tx.ops = [] ∧ tx.tombstones = [] ∧ (∀ id, tx.states id = none) ∧
      ∀ id, (tx.statuses id).or ((db.submissions.lookup id).map (·.status)) =
        if id = req.submissionId then some moved
        else (db.submissions.lookup id).map (·.status) := by
  have read : (db.submissions.lookup req.submissionId).map (·.status) = some submission.status := by
    rw [found]
    rfl
  have loaded : (Server.atRest db).alone ({}, db.nextSeq) (.load req.submissionId) = some
      ({ seen := Function.update (fun _ => none) req.submissionId (some submission.status) },
        db.nextSeq) := by
    rw [← read]
    rfl
  by_cases still : moved = submission.status
  · refine ⟨{ seen := Function.update (fun _ => none) req.submissionId (some submission.status) },
      Lib.run_cons_iff.mpr ⟨_, loaded, Lib.run_cons_iff.mpr ⟨_, ?_, rfl⟩⟩, rfl, rfl,
      fun _ => rfl, fun id => ?_⟩
    · simp only [Server.alone, Statement.exec, Function.update_self, moves, still, if_true]
      rfl
    · rw [Option.none_or]
      by_cases same : id = req.submissionId
      · rw [if_pos same, same, read, still]
      · rw [if_neg same]
  · refine ⟨{
      seen := Function.update (fun _ => none) req.submissionId (some submission.status)
      statuses := Function.update (fun _ => none) req.submissionId (some moved) },
      Lib.run_cons_iff.mpr ⟨_, loaded, Lib.run_cons_iff.mpr ⟨_, ?_, rfl⟩⟩, rfl, rfl,
      fun _ => rfl, fun id => ?_⟩
    · simp only [Server.alone, Statement.exec, Function.update_self, moves, still, if_false,
        Server.hosting_alone, if_true]
      rfl
    · by_cases same : id = req.submissionId <;> simp [same]

def approving : Quality.ReviewRequest where
  submissionId := "s1"
  reviewerId := "u2"
  decision := .approved

def finalized : Submission where
  projectId := "prj"
  environmentId := "env"
  formVersionId := "ver"
  caseId := none
  originDeviceId := "d1"
  createdBy := some "u1"
  status := .finalized
  startedAt := 0

def awaitingReview : Db :=
  { oneForm [("d1", some "u1")] with submissions := AList.singleton "s1" finalized }

end DataCollectionLab.Sync
