import DataCollectionLab.Sync.Attribution

/-!
What a refused op leaves behind. The call is compared with the call on the ops it accepted: the
second one opens its own submissions, so an op that opened one and was refused later is missed
unless an accepted op opens the same row in its place.
-/

namespace DataCollectionLab.Sync

def PushResponse.acceptsId (response : PushResponse) (id : String) : Bool :=
  response.accepted.contains id &&
    !response.rejected.any fun entry => entry.opId == some id && entry.reason != .malformed

/-- A well-formed op the response accepts. A `malformed` verdict is about another entry. -/
def PushResponse.accepts (response : PushResponse) : RawOp → Bool
  | .malformed _ => false
  | .wellFormed op => response.acceptsId op.opId

def PushRequest.only (req : PushRequest) (response : PushResponse) : PushRequest :=
  { req with ops := req.ops.filter response.accepts }

def Submission.view (s : Submission) : String × Option String × Option String × Status :=
  (s.formVersionId, s.caseId, s.createdBy, s.status)

def Submission.unsigned (s : Submission) : Submission :=
  { s with originDeviceId := "", startedAt := 0 }

theorem scope_of_unsigned {s t : Submission} (same : s.unsigned = t.unsigned) : s.scope = t.scope := by
  have scopes := congrArg Submission.scope same
  exact scopes

theorem view_of_unsigned {s t : Submission} (same : s.unsigned = t.unsigned) : s.view = t.view := by
  have views := congrArg Submission.view same
  exact views

def Tombstone.unnumbered (t : Tombstone) : Tombstone := { t with serverSeq := 0 }

/-- Two databases agree on everything a batch is for, up to the numbers they drew. -/
structure SameTrace (db db' : Db) : Prop where
  log : db.ops.rows.map (·.unnumbered) = db'.ops.rows.map (·.unnumbered)
  tombstones : db.tombstones.map (·.unnumbered) = db'.tombstones.map (·.unnumbered)
  states : ∀ id, (db.states.lookup id).map (·.data) = (db'.states.lookup id).map (·.data)
  submissions : ∀ id, (db.submissions.lookup id).map (·.view) = (db'.submissions.lookup id).map (·.view)

namespace Call

variable (c : Call)

def LeavesNoTrace (response : PushResponse) (final : Db) : Prop :=
  ∃ response' final', push c.pol c.db (c.req.only response) = .ok (response', final') ∧
    (∀ raw ∈ (c.req.only response).ops, response'.accepts raw = true) ∧ SameTrace final final'

def kept : Call := ⟨c.pol, c.db, c.req.only ⟨c.accepted, c.rejected, 0⟩⟩

def Settles (op : SyncOp) : Prop := c.Passes op ∧ ¬ c.TakenBack op

instance : DecidablePred c.Settles := fun op =>
  inferInstanceAs (Decidable (c.Passes op ∧ ¬ c.TakenBack op))

def FirstOn (op : SyncOp) : Prop :=
  c.Settles op ∧ ∀ o ∈ c.earlier op, o.submissionId = op.submissionId → ¬ c.Settles o

/-- Each submission the batch opens has an accepted op, and the first of them names the case
and the person of the op that opened it. -/
def OpenersStand : Prop :=
  ∀ opener ∈ c.ops, ∀ row, c.judgement opener = .opens row →
    ∃ op ∈ c.ops, c.FirstOn op ∧ op.submissionId = opener.submissionId ∧
      op.caseId = opener.caseId ∧ c.person op = c.person opener

def FollowersStand : Prop :=
  ∀ op ∈ c.ops, c.Settles op → ¬ c.Leads op →
    (∀ o ∈ c.earlier op, c.Passes o → o.slot = op.slot → c.TakenBack o) →
    c.indexed op = some .pkey ∨ c.indexed op = some .counter

def AuthorStands : Prop :=
  (∃ op ∈ c.ops, c.Stores op) →
    c.attributions.getLast? = ((c.ops.filter (¬ c.Refuses ·)).filterMap c.person).getLast?

/-! ### The ops of the two calls -/

@[simp] theorem kept_pol : c.kept.pol = c.pol := rfl

theorem settles_iff {op : SyncOp} : c.Settles op ↔ ¬ c.Refuses op ∧ ¬ c.Replayed op := by
  have fresh : c.Passes op → ¬ c.Replayed op := fun passes => c.fresh_of_admits passes.1.1
  rw [c.not_refuses_iff]
  constructor
  · exact fun settles => ⟨Or.inr settles, fresh settles.1⟩
  · exact fun ⟨fate, new⟩ => fate.resolve_left new

theorem accepts_iff {op : SyncOp} (member : op ∈ c.ops) :
    (⟨c.accepted, c.rejected, 0⟩ : PushResponse).accepts (.wellFormed op) = true ↔
      ¬ c.Refuses op := by
  have refused := c.mem_rejected_iff member
  have taken : op.opId ∈ c.accepted ∨ c.Refuses op := by
    rw [c.mem_accepted_iff member]
    by_cases c.Refuses op <;> simp_all
  have found : (c.rejected.any fun entry =>
      entry.opId == some op.opId && entry.reason != .malformed) = true ↔ c.Refuses op := by
    rw [← refused]
    simp
  unfold PushResponse.accepts PushResponse.acceptsId
  rw [Bool.and_eq_true, Bool.not_eq_true', ← Bool.not_eq_true, found, List.contains_iff_mem]
  exact ⟨fun both => both.2, fun stands => ⟨taken.resolve_right stands, stands⟩⟩

theorem kept_ops : c.kept.ops = c.ops.filter (¬ c.Refuses ·) := by
  let response : PushResponse := ⟨c.accepted, c.rejected, 0⟩
  have byId : ∀ op, response.accepts (.wellFormed op) = response.acceptsId op.opId := fun _ => rfl
  have read := readBatch_filter byId c.req.ops
  refine read.trans (List.filter_congr fun op member => ?_)
  rw [Bool.eq_iff_iff, decide_eq_true_iff]
  exact c.accepts_iff member

theorem mem_kept {op : SyncOp} : op ∈ c.kept.ops ↔ op ∈ c.ops ∧ ¬ c.Refuses op := by
  rw [c.kept_ops, List.mem_filter, decide_eq_true_iff]

theorem kept_split {before after : List SyncOp} {op : SyncOp}
    (split : c.ops = before ++ op :: after) (stands : ¬ c.Refuses op) :
    c.kept.ops = before.filter (¬ c.Refuses ·) ++ op :: after.filter (¬ c.Refuses ·) := by
  rw [c.kept_ops, split, List.filter_append, List.filter_cons_of_pos (by simpa using stands)]

theorem kept_earlier {op : SyncOp} (member : op ∈ c.ops) (stands : ¬ c.Refuses op) :
    c.kept.earlier op = (c.earlier op).filter (¬ c.Refuses ·) := by
  obtain ⟨before, after, split⟩ := List.append_of_mem member
  rw [c.earlier_eq split, c.kept.earlier_eq (c.kept_split split stands)]

theorem firstOn_unique {a b : SyncOp} (inBatch : a ∈ c.ops) (inBatch' : b ∈ c.ops)
    (first : c.FirstOn a) (first' : c.FirstOn b) (same : a.submissionId = b.submissionId) :
    a = b := by
  apply c.first_unique (P := fun o => c.Settles o ∧ o.submissionId = a.submissionId) inBatch inBatch'
  · exact ⟨first.1, rfl⟩
  · exact ⟨first'.1, same.symm⟩
  · exact fun o before on => first.2 o before on.2 on.1
  · exact fun o before on => first'.2 o before (on.2.trans same) on.1

/-! ### The submissions the two calls open -/

theorem resolveFormVersion_dbAfter (ops : List SyncOp) :
    resolveFormVersion (c.dbAfter ops) = resolveFormVersion c.db := by
  rw [dbAfter_frame]
  rfl

theorem resolveEnvironment_dbAfter (ops : List SyncOp) :
    resolveEnvironment (c.dbAfter ops) = resolveEnvironment c.db := by
  rw [dbAfter_frame]
  rfl

/-- The kept call's database when the call has walked `before`. -/
def keptAfter (before : List SyncOp) : Db := c.kept.dbAfter (before.filter (¬ c.Refuses ·))

def Tracks (before : List SyncOp) (id : String) : Prop :=
  ((c.dbAfter before).submissions.lookup id).map (·.unsigned) =
      ((c.keptAfter before).submissions.lookup id).map (·.unsigned) ∨
    (c.keptAfter before).submissions.lookup id = none ∧ c.db.submissions.lookup id = none ∧
      ∀ o ∈ before, o.submissionId = id → ¬ c.Settles o

theorem keptAfter_refused {before : List SyncOp} {op : SyncOp} (refused : c.Refuses op) :
    c.keptAfter (before ++ [op]) = c.keptAfter before := by
  unfold keptAfter
  rw [List.filter_append, List.filter_cons_of_neg (by simpa using refused), List.filter_nil,
    List.append_nil]

theorem keptAfter_stands {before : List SyncOp} {op : SyncOp} (stands : ¬ c.Refuses op) :
    c.keptAfter (before ++ [op]) = c.book (c.keptAfter before) op := by
  unfold keptAfter
  rw [List.filter_append, List.filter_cons_of_pos (by simpa using stands), List.filter_nil,
    dbAfter_concat]
  rfl

theorem lookup_book_ne {db : Db} {op : SyncOp} {id : String} (other : id ≠ op.submissionId) :
    (c.book db op).submissions.lookup id = db.submissions.lookup id := by
  unfold book
  split
  · exact AList.lookup_insert_ne other
  · rfl

theorem none_settles {before after : List SyncOp} (split : c.ops = before ++ after)
    (free : c.OpensFree c.ops) {id : String}
    (absent : (c.dbAfter before).submissions.lookup id = none) :
    ∀ o ∈ before, o.submissionId = id → ¬ c.Settles o := by
  rintro o member rfl settles
  obtain ⟨row, present, -⟩ := c.submission_of_admits free split member settles.1.1.1
  rw [absent] at present
  cases present

theorem tracks_refused {before after : List SyncOp} {op : SyncOp}
    (split : c.ops = before ++ op :: after) (free : c.OpensFree c.ops) (refused : c.Refuses op)
    {id : String} (tracks : c.Tracks before id) : c.Tracks (before ++ [op]) id := by
  have stays : ¬ c.Settles op := fun settles => (c.settles_iff.mp settles).1 refused
  have extend : (∀ o ∈ before, o.submissionId = id → ¬ c.Settles o) →
      ∀ o ∈ before ++ [op], o.submissionId = id → ¬ c.Settles o := by
    intro none o member on
    rcases List.mem_append.mp member with old | last
    · exact none o old on
    · rwa [List.mem_singleton.mp last]
  unfold Tracks
  rw [c.keptAfter_refused refused, dbAfter_concat]
  rcases tracks with agree | ⟨absent, start, none⟩
  · by_cases other : id = op.submissionId
    · subst other
      unfold book
      rw [c.judge_here split]
      split
      · rename_i row opens
        have openable := (free op (by simp [split]) row opens).1
        rw [c.earlier_eq split] at openable
        rw [openable] at agree
        refine Or.inr ⟨by simpa using agree.symm, c.start_none split free openable, ?_⟩
        exact extend (c.none_settles split free openable)
      · exact Or.inl agree
    · rw [c.lookup_book_ne other]
      exact Or.inl agree
  · exact Or.inr ⟨absent, start, extend none⟩

theorem judge_tracked {before after : List SyncOp} {op : SyncOp}
    (split : c.ops = before ++ op :: after) (free : c.OpensFree c.ops) (stand : c.OpenersStand)
    (settles : c.Settles op) (tracks : c.Tracks before op.submissionId) :
    (c.judgement op = .join ∧ c.judge (c.keptAfter before) op = .join ∧
      (c.keptAfter before).submissions.lookup op.submissionId ≠ none) ∨
    ∃ row, c.judge (c.keptAfter before) op = .opens row ∧
      Openable (c.keptAfter before) op.submissionId row ∧
      ((c.book (c.dbAfter before) op).submissions.lookup op.submissionId).map (·.unsigned) =
        some row.unsigned := by
  have member : op ∈ c.ops := by simp [split]
  have cases_eq : ∀ ops, (c.kept.dbAfter ops).cases = c.db.cases := fun ops => by
    rw [dbAfter_frame]
    rfl
  have here := c.judge_here split
  have admitted := settles.1.1.1
  cases judged : c.judgement op with
  | replay => simp [judged, Judgement.admits] at admitted
  | refuse reason => simp [judged, Judgement.admits] at admitted
  | opens row =>
    rw [judged] at here
    obtain ⟨fresh, device, person, version, environment, identity, resolved, -, placed, writes,
      equal⟩ := c.judge_opens_iff.mp here
    have openable := free op member row judged
    rw [c.earlier_eq split] at openable
    have absent : (c.keptAfter before).submissions.lookup op.submissionId = none := by
      rcases tracks with agree | ⟨absent, -, -⟩
      · rw [openable.1] at agree
        simpa using agree.symm
      · exact absent
    refine Or.inr ⟨row, c.judge_opens_iff.mpr ⟨fresh, device, person, version, environment,
      identity, ?_, ?_, ?_, writes, equal⟩, ⟨absent, ?_⟩, ?_⟩
    · rw [resolveFormVersion_dbAfter] at resolved
      rw [keptAfter, c.kept.resolveFormVersion_dbAfter]
      exact resolved
    · rw [Policies.submission, absent]
      rfl
    · rw [resolveEnvironment_dbAfter] at placed
      rw [keptAfter, c.kept.resolveEnvironment_dbAfter]
      exact placed
    · have known := openable.2
      rw [dbAfter_frame] at known
      rw [keptAfter, cases_eq]
      exact known
    · rw [book, here]
      dsimp only
      rw [AList.lookup_insert]
      rfl
  | join =>
    rw [judged] at here
    obtain ⟨fresh, device, person, version, submission, identity, resolved, found, joins⟩ :=
      c.judge_join_iff.mp here
    obtain ⟨present, sees⟩ := Option.filter_eq_some_iff.mp found
    rw [resolveFormVersion_dbAfter] at resolved
    have resolved' : resolveFormVersion (c.keptAfter before) device.projectId op.formId
        op.formVersion = some version := by
      rw [keptAfter, c.kept.resolveFormVersion_dbAfter]
      exact resolved
    rcases tracks with agree | ⟨absent, start, none⟩
    · rw [present, Option.map_some] at agree
      obtain ⟨submission', present', alike⟩ := Option.map_eq_some_iff.mp agree.symm
      simp only [Submission.unsigned, Submission.mk.injEq] at alike
      refine Or.inl ⟨rfl, c.judge_join_iff.mpr ⟨fresh, device, person, version, submission',
        identity, resolved', ?_, ?_⟩, by simp [present']⟩
      · refine Option.filter_eq_some_iff.mpr ⟨present', ?_⟩
        simpa [Submission.scope, alike] using sees
      · rw [refusalOn_eq_none_iff] at joins ⊢
        simpa [alike] using joins
    · -- The submission is this batch's, and no accepted op was there before: `op` is the first.
      have opened := c.opened_of_lookup split present
      rw [start] at opened
      obtain ⟨opener, earlier, on, opens⟩ := opened.resolve_left (by simp)
      have inBatch : opener ∈ c.ops := by rw [split]; exact List.mem_append_left _ earlier
      obtain ⟨first, present', isFirst, on', sameCase, samePerson⟩ :=
        stand opener inBatch submission opens
      have own : c.FirstOn op := ⟨settles, by rw [c.earlier_eq split]; exact none⟩
      obtain rfl := c.firstOn_unique present' member isFirst own (on'.trans on)
      obtain ⟨fresh', device', person', version', environment', identity', -, -, placed, writes,
        equal⟩ := c.judge_opens_iff.mp opens
      have person_eq : person' = person := by
        simpa [Call.person, fresh, fresh', identity, identity'] using samePerson.symm
      obtain ⟨projects, -, versions⟩ := refusalOn_eq_none_iff.mp joins
      subst equal
      simp only [opening] at projects versions
      refine Or.inr ⟨opening first device person environment' version,
        c.judge_opens_iff.mpr ⟨fresh, device, person, version, environment', identity, resolved',
          ?_, ?_, ?_, rfl⟩, ⟨absent, ?_⟩, ?_⟩
      · rw [Policies.submission, absent]
        rfl
      · rw [resolveEnvironment_dbAfter, projects] at placed
        rw [keptAfter, c.kept.resolveEnvironment_dbAfter]
        exact placed
      · simpa [Submission.scope, opening, projects, sameCase, person_eq] using writes
      · have openable := free opener inBatch _ opens
        have known := openable.2
        rw [dbAfter_frame] at known
        rw [keptAfter, cases_eq]
        simpa [opening, sameCase] using known
      · rw [book, here]
        dsimp only
        rw [present]
        simp [Submission.unsigned, opening, projects, versions, sameCase, person_eq]

theorem tracks_stands {before after : List SyncOp} {op : SyncOp}
    (split : c.ops = before ++ op :: after) (free : c.OpensFree c.ops) (stand : c.OpenersStand)
    (stands : ¬ c.Refuses op) (tracks : ∀ id, c.Tracks before id) (id : String) :
    c.Tracks (before ++ [op]) id := by
  unfold Tracks
  rw [c.keptAfter_stands stands, dbAfter_concat]
  by_cases replayed : c.Replayed op
  · have unmoved : ∀ db, c.book db op = db := by
      intro db
      rw [book, c.judge_eq_replay_iff.mpr replayed]
    rw [unmoved, unmoved]
    rcases tracks id with agree | ⟨absent, start, quiet⟩
    · exact Or.inl agree
    · refine Or.inr ⟨absent, start, ?_⟩
      intro o member on
      rcases List.mem_append.mp member with old | last
      · exact quiet o old on
      · rw [List.mem_singleton.mp last]
        exact fun settles => (c.settles_iff.mp settles).2 replayed
  · have settles : c.Settles op := c.settles_iff.mpr ⟨stands, replayed⟩
    have met := c.judge_tracked split free stand settles (tracks op.submissionId)
    by_cases same : id = op.submissionId
    · subst same
      rcases met with ⟨joins, joins', present⟩ | ⟨row, opens, -, alike⟩
      · rw [book, book, c.judge_here split, joins, joins']
        rcases tracks op.submissionId with agree | ⟨absent, -, -⟩
        · exact Or.inl agree
        · exact absurd absent present
      · refine Or.inl (alike.trans ?_)
        rw [book, opens]
        dsimp only
        rw [AList.lookup_insert]
        rfl
    · rw [c.lookup_book_ne same, c.lookup_book_ne same]
      rcases tracks id with agree | ⟨absent, start, quiet⟩
      · exact Or.inl agree
      · refine Or.inr ⟨absent, start, ?_⟩
        intro o member on
        rcases List.mem_append.mp member with old | last
        · exact quiet o old on
        · rw [List.mem_singleton.mp last] at on
          exact absurd on.symm same

theorem tracks_all (free : c.OpensFree c.ops) (stand : c.OpenersStand) {before after : List SyncOp}
    (split : c.ops = before ++ after) (id : String) : c.Tracks before id := by
  induction before using List.reverseRecOn generalizing after id with
  | nil => exact Or.inl rfl
  | append_singleton before op ih =>
    have here : c.ops = before ++ op :: after := by simpa using split
    by_cases refused : c.Refuses op
    · exact c.tracks_refused here free refused (ih here id)
    · exact c.tracks_stands here free stand refused (ih here) id

theorem opened_alike (free : c.OpensFree c.ops) (stand : c.OpenersStand) (id : String) :
    ((c.dbAfter c.ops).submissions.lookup id).map (·.unsigned) =
      ((c.kept.dbAfter c.kept.ops).submissions.lookup id).map (·.unsigned) := by
  have whole : c.ops = c.ops ++ [] := (List.append_nil _).symm
  rw [c.kept_ops]
  rcases c.tracks_all free stand whole id with agree | ⟨absent, start, none⟩
  · exact agree
  · cases found : (c.dbAfter c.ops).submissions.lookup id with
    | none => exact (congrArg (Option.map _) absent).symm
    | some row =>
      have opened := c.opened_of_lookup whole found
      rw [start] at opened
      obtain ⟨opener, member, rfl, opens⟩ := opened.resolve_left (by simp)
      obtain ⟨op, present, first, on, -⟩ := stand opener member row opens
      exact absurd first.1 (none op present on)

theorem kept_judgement {op : SyncOp} (free : c.OpensFree c.ops) (stand : c.OpenersStand)
    (member : op ∈ c.ops) (stands : ¬ c.Refuses op) :
    (c.kept.judgement op).admits = (c.judgement op).admits ∧
      ∀ row, c.kept.judgement op = .opens row →
        Openable (c.kept.dbAfter (c.kept.earlier op)) op.submissionId row := by
  obtain ⟨before, after, split⟩ := List.append_of_mem member
  have there : c.kept.dbAfter (c.kept.earlier op) = c.keptAfter before := by
    rw [c.kept_earlier member stands, c.earlier_eq split]
    rfl
  have judged : c.kept.judgement op = c.judge (c.keptAfter before) op := by
    rw [← there]
    rfl
  by_cases replayed : c.Replayed op
  · rw [judged, c.judge_eq_replay_iff.mpr replayed, c.judgement_replay_iff.mpr replayed]
    exact ⟨rfl, nofun⟩
  · have settles : c.Settles op := c.settles_iff.mpr ⟨stands, replayed⟩
    rw [judged, there, settles.1.1.1]
    rcases c.judge_tracked split free stand settles (c.tracks_all free stand split _) with
      ⟨-, joins, -⟩ | ⟨row, opens, openable, -⟩
    · rw [joins]
      exact ⟨rfl, nofun⟩
    · rw [opens]
      refine ⟨rfl, ?_⟩
      rintro _ ⟨⟩
      exact openable

theorem kept_opensFree (free : c.OpensFree c.ops) (stand : c.OpenersStand) :
    c.kept.OpensFree c.kept.ops := by
  intro op member row opens
  obtain ⟨inBatch, stands⟩ := c.mem_kept.mp member
  exact (c.kept_judgement free stand inBatch stands).2 row opens

/-! ### The gates of the two calls -/

section Gates

variable {c} (free : c.OpensFree c.ops) (stand : c.OpenersStand)
include free stand

theorem submission_alike (id : String) :
    (c.pol.submission (c.dbAfter c.ops) id).map (·.unsigned) =
      (c.pol.submission (c.kept.dbAfter c.kept.ops) id).map (·.unsigned) := by
  have alike := c.opened_alike free stand id
  unfold Policies.submission
  cases found : (c.dbAfter c.ops).submissions.lookup id with
  | none =>
    rw [found] at alike
    rw [Option.map_eq_none_iff.mp alike.symm]
  | some row =>
    rw [found] at alike
    obtain ⟨row', found', same⟩ := Option.map_eq_some_iff.mp alike.symm
    have scope : row'.scope = row.scope := scope_of_unsigned same
    rw [found']
    cases sees : c.pol.seesSubmission row.scope <;>
      simp [Option.filter, scope, sees, same]

theorem shows_alike (id : String) :
    c.pol.shows (c.kept.dbAfter c.kept.ops) id = c.pol.shows (c.dbAfter c.ops) id := by
  have same := congrArg Option.isSome (submission_alike free stand id)
  simpa [Policies.shows] using same.symm

theorem kept_keys : c.kept.keys = c.keys := by
  refine KeyIntake.run_congr c.req.keys ?_ ?_ ?_ ?_
  · rw [dbAfter_frame, c.dbAfter_frame]
    rfl
  · rw [dbAfter_frame, c.dbAfter_frame]
    rfl
  · rw [dbAfter_frame, c.dbAfter_frame]
    rfl
  · intro id
    have alike := congrArg (Option.map Submission.projectId) (submission_alike free stand id)
    simpa [Option.map_map, Function.comp_def, Submission.unsigned] using alike.symm

theorem kept_keyed (op : SyncOp) : c.kept.Keyed op ↔ c.Keyed op := by
  have tables : c.kept.keyTable = c.keyTable := by
    have entries : (c.kept.dbAfter c.kept.ops).contentKeys = (c.dbAfter c.ops).contentKeys := by
      rw [dbAfter_frame, c.dbAfter_frame]
      rfl
    funext id
    unfold keyTable keySubmission
    rw [kept_keys free stand, entries]
    cases (c.dbAfter c.ops).contentKeys.lookup id with
    | none => rfl
    | some key =>
      dsimp only
      rw [kept_pol, shows_alike free stand]
  unfold Keyed
  rw [tables]

theorem kept_taken :
    takenNonces c.kept.pol (c.kept.dbAfter c.kept.ops) = takenNonces c.pol (c.dbAfter c.ops) := by
  have logs : (c.kept.dbAfter c.kept.ops).ops = (c.dbAfter c.ops).ops := by
    rw [dbAfter_frame, c.dbAfter_frame]
    rfl
  unfold takenNonces
  rw [logs]
  simp only [kept_pol, shows_alike free stand]

theorem kept_passes {op : SyncOp} (member : op ∈ c.ops) (stands : ¬ c.Refuses op) :
    c.kept.Passes op ↔ c.Passes op := by
  have admits : ∀ o ∈ c.ops, ¬ c.Refuses o → (c.kept.judgement o).admits = (c.judgement o).admits :=
    fun o present fair => (c.kept_judgement free stand present fair).1
  constructor
  · intro passes
    have fresh : ¬ c.Replayed op := c.kept.fresh_of_admits passes.1.1
    exact (c.settles_iff.mpr ⟨stands, fresh⟩).1
  · intro passes
    refine ⟨⟨?_, (kept_keyed free stand op).mpr passes.1.2⟩, ?_⟩
    · rw [admits op member stands]
      exact passes.1.1
    · rintro ⟨e, named, stored | ⟨o, before, candidate, used⟩⟩
      · rw [kept_taken free stand] at stored
        exact passes.2 ⟨e, named, Or.inl stored⟩
      · rw [c.kept_earlier member stands, List.mem_filter, decide_eq_true_iff] at before
        have present := c.earlier_subset member before.1
        refine passes.2 ⟨e, named, Or.inr ⟨o, before.1, ⟨?_, ?_⟩, used⟩⟩
        · rw [← admits o present before.2]
          exact candidate.1
        · exact (kept_keyed free stand o).mp candidate.2

theorem kept_leads {op : SyncOp} (member : op ∈ c.ops) (stands : ¬ c.Refuses op) :
    c.kept.Leads op ↔ c.Passes op ∧
      ∀ o ∈ c.earlier op, c.Passes o → o.slot = op.slot → c.TakenBack o := by
  unfold Leads
  rw [kept_passes free stand member stands, c.kept_earlier member stands]
  refine and_congr_right fun _ => ⟨?_, ?_⟩
  · intro alone o before passes same
    by_contra kept
    have fair : ¬ c.Refuses o := (c.settles_iff.mp ⟨passes, kept⟩).1
    refine alone o (List.mem_filter.mpr ⟨before, by simpa using fair⟩) ?_ same
    exact (kept_passes free stand (c.earlier_subset member before) fair).mpr passes
  · intro back o before passes same
    obtain ⟨before, fair⟩ := List.mem_filter.mp before
    have fair : ¬ c.Refuses o := by simpa using fair
    have passes := (kept_passes free stand (c.earlier_subset member before) fair).mp passes
    exact fair (Or.inr (Or.inr (back o before passes same)))

theorem leads_kept {op : SyncOp} (member : op ∈ c.ops) (stands : ¬ c.Refuses op)
    (leads : c.Leads op) : c.kept.Leads op := by
  rw [kept_leads free stand member stands]
  exact ⟨leads.1, fun o before passes same => absurd same (leads.2 o before passes)⟩

theorem kept_stores (followers : c.FollowersStand) {op : SyncOp} (member : op ∈ c.ops)
    (stands : ¬ c.Refuses op) : c.kept.Stores op ↔ c.Stores op := by
  constructor
  · rintro ⟨leads, index⟩
    refine ⟨?_, index⟩
    by_contra follows
    obtain ⟨passes, back⟩ := (kept_leads free stand member stands).mp leads
    have fresh : ¬ c.Replayed op := c.fresh_of_admits passes.1.1
    have held := followers op member (c.settles_iff.mpr ⟨stands, fresh⟩) follows back
    rw [show c.indexed op = none from index] at held
    simp at held
  · exact fun stores => ⟨leads_kept free stand member stands stores.1, stores.2⟩

theorem kept_fair (followers : c.FollowersStand) {op : SyncOp} (member : op ∈ c.kept.ops) :
    ¬ c.kept.Refuses op := by
  obtain ⟨inBatch, stands⟩ := c.mem_kept.mp member
  refine c.kept.not_refuses_iff.mpr ?_
  by_cases replayed : c.Replayed op
  · exact Or.inl replayed
  · have settles : c.Settles op := c.settles_iff.mpr ⟨stands, replayed⟩
    refine Or.inr ⟨(kept_passes free stand inBatch stands).mpr settles.1, ?_⟩
    rintro ⟨leads, index⟩
    by_cases own : c.Leads op
    · exact settles.2 ⟨own, index⟩
    · have back := ((kept_leads free stand inBatch stands).mp leads).2
      have held := followers op inBatch settles own back
      rw [show c.indexed op = some .nonce from index] at held
      simp at held

end Gates

theorem stores_fair {op : SyncOp} (stores : c.Stores op) : ¬ c.Refuses op := by
  refine c.not_refuses_iff.mpr (Or.inr ⟨stores.1.1, ?_⟩)
  rintro ⟨-, index⟩
  rw [stores.2] at index
  cases index

theorem kept_lastAttributed : c.kept.lastAttributed =
    (((c.ops.filter (¬ c.Refuses ·)).filterMap c.person).getLast?).getD none := by
  rw [c.kept.lastAttributed_eq, attributions, c.kept_ops]
  rfl

theorem kept_stored (free : c.OpensFree c.ops) (stand : c.OpenersStand)
    (followers : c.FollowersStand) (author : c.AuthorStands) : c.kept.stored = c.stored := by
  have ops : c.kept.ops.filter (c.kept.Stores ·) = c.ops.filter (c.Stores ·) := by
    rw [c.kept_ops, List.filter_filter]
    refine List.filter_congr fun op member => ?_
    by_cases stands : c.Refuses op
    · have stays : ¬ c.Stores op := fun stores => c.stores_fair stores stands
      simp [stands, stays]
    · simp [stands, kept_stores free stand followers member stands]
  unfold stored
  rw [ops]
  refine List.map_congr_left fun op member => ?_
  obtain ⟨inBatch, stores⟩ := List.mem_filter.mp member
  have last := author ⟨op, inBatch, of_decide_eq_true stores⟩
  rw [c.kept_lastAttributed, c.lastAttributed_eq, last]

end Call

/-! ### What the two calls leave -/

theorem addTombstones_unnumbered (db : Db) (stones : List Tombstone) :
    (addTombstones db stones).tombstones.map (·.unnumbered) =
      db.tombstones.map (·.unnumbered) ++ stones.map (·.unnumbered) := by
  unfold addTombstones
  rw [List.map_append, List.map_map]
  congr 1
  calc stones.zipIdx.map _ = (stones.zipIdx.map Prod.fst).map (·.unnumbered) := by
        rw [List.map_map]
        rfl
    _ = stones.map (·.unnumbered) := by rw [List.zipIdx_map_fst]

theorem applyFolded_unsigned (submission : Submission) (folded : Fold) :
    (applyFolded submission folded).unsigned = applyFolded submission.unsigned folded := by
  unfold applyFolded
  split
  · rfl
  · rw [show submission.unsigned.status = submission.status from rfl]
    split <;> rfl

theorem eq_of_unsigned {a b : Submission} (same : a.unsigned = b.unsigned)
    (origin : a.originDeviceId = b.originDeviceId) (started : a.startedAt = b.startedAt) : a = b := by
  cases a
  cases b
  simp_all [Submission.unsigned]

theorem applyFolded_still {s s' : Submission} (alike : s.unsigned = s'.unsigned) {folded : Fold}
    (still : applyFolded s folded = s) : applyFolded s' folded = s' := by
  have opener : ∀ t : Submission, (applyFolded t folded).originDeviceId = t.originDeviceId ∧
      (applyFolded t folded).startedAt = t.startedAt := by
    intro t
    unfold applyFolded
    split
    · exact ⟨rfl, rfl⟩
    · split <;> exact ⟨rfl, rfl⟩
  refine eq_of_unsigned ?_ (opener s').1 (opener s').2
  rw [applyFolded_unsigned, ← alike, ← applyFolded_unsigned, still]

namespace Call

variable (c : Call)

section Store

variable {c} (free : c.OpensFree c.ops) (stand : c.OpenersStand) (followers : c.FollowersStand)
  (author : c.AuthorStands) {keyed keyed' : Db}
  (flushed : c.keys.added.foldlM insertKey (c.dbAfter c.ops) = .ok keyed)
  (flushed' : c.kept.keys.added.foldlM insertKey (c.kept.dbAfter c.kept.ops) = .ok keyed')
include free stand flushed flushed'

theorem shows_inserted (id : String) :
    c.pol.shows (c.kept.inserted keyed') id = c.pol.shows (c.inserted keyed) id := by
  have alike := shows_alike free stand id
  rw [c.inserted_frame flushed, c.kept.inserted_frame flushed']
  exact alike

include followers author

theorem fold_inserted (id : String) : { (c.inserted keyed).fold id with opHighWater := 0 } =
    { (c.kept.inserted keyed').fold id with opHighWater := 0 } := by
  apply foldOps_congr
  rw [c.inserted_frame flushed, c.kept.inserted_frame flushed']
  show c.logged.log.rows.map (·.unnumbered) = c.kept.logged.log.rows.map (·.unnumbered)
  rw [logged_unnumbered, logged_unnumbered, c.kept_stored free stand followers author]
  rfl

theorem kept_storable (storable : c.Storable (c.inserted keyed) c.stored) :
    c.kept.Storable (c.kept.inserted keyed') c.kept.stored := by
  have frame := c.inserted_frame flushed
  have frame' := c.kept.inserted_frame flushed'
  have media : (c.kept.inserted keyed').media = (c.inserted keyed).media := by
    rw [frame, frame']
    rfl
  have devices : ∀ id, DeviceWritable c.pol (c.inserted keyed) id →
      DeviceWritable c.pol (c.kept.inserted keyed') id := by
    intro id
    refine (deviceWritable_congr c.pol ?_).mpr
    rw [frame, frame']
    rfl
  have same := c.kept_stored free stand followers author
  refine ⟨?_, ?_, ?_, ?_⟩
  · intro reference member row found
    rw [same] at member
    rw [media] at found
    rw [kept_pol, shows_inserted free stand flushed flushed']
    exact storable.media reference member row found
  · intro row member submission' found'
    rw [same] at member
    have alike := submission_alike free stand row.submissionId
    rw [frame'] at found'
    have found' : c.pol.submission (c.kept.dbAfter c.kept.ops) row.submissionId =
      some submission' := found'
    rw [found', Option.map_some] at alike
    obtain ⟨submission, found, unsigned⟩ := Option.map_eq_some_iff.mp alike
    have moved := storable.moves row member submission (by rw [frame]; exact found)
    have scope : submission'.scope = submission.scope := (scope_of_unsigned unsigned).symm
    rw [kept_pol, scope]
    refine moved.imp_left fun still => ?_
    refine applyFolded_still unsigned ?_
    rw [← applyFolded_congr _ (fold_inserted free stand followers author flushed flushed' _)]
    exact still
  · exact fun given => devices _ (storable.reports given)
  · intro row member
    rw [same] at member
    exact devices _ (storable.devices row member)

theorem kept_sameTrace : SameTrace (c.settle (c.inserted keyed) c.stored)
    (c.kept.settle (c.kept.inserted keyed') c.kept.stored) := by
  have frame := c.inserted_frame flushed
  have frame' := c.kept.inserted_frame flushed'
  have same := c.kept_stored free stand followers author
  have folds := fold_inserted free stand followers author flushed flushed'
  refine ⟨?_, ?_, ?_, ?_⟩
  · rw [settle_ops, settle_ops]
    show c.logged.log.rows.map (·.unnumbered) = c.kept.logged.log.rows.map (·.unnumbered)
    rw [logged_unnumbered, logged_unnumbered, same]
    rfl
  · rw [settle_tombstones, settle_tombstones, addTombstones_unnumbered, addTombstones_unnumbered,
      same, frame, frame']
    rfl
  · intro id
    have data : ((c.inserted keyed).fold id).data = ((c.kept.inserted keyed').fold id).data := by
      have fold := folds id
      simp only [Fold.mk.injEq] at fold
      exact fold.1
    have states : (c.kept.inserted keyed').states = (c.inserted keyed).states := by
      rw [frame, frame']
      rfl
    rw [settle_state, settle_state, same, states, kept_pol,
      shows_inserted free stand flushed flushed']
    split
    · exact congrArg some data
    · rfl
  · intro id
    have alike := c.opened_alike free stand id
    have here : (c.inserted keyed).submissions = (c.dbAfter c.ops).submissions := by rw [frame]
    have there : (c.kept.inserted keyed').submissions =
        (c.kept.dbAfter c.kept.ops).submissions := by rw [frame']
    rw [settle_submission, settle_submission, same, here, there]
    cases found : (c.dbAfter c.ops).submissions.lookup id with
    | none =>
      rw [found] at alike
      rw [Option.map_eq_none_iff.mp alike.symm]
      rfl
    | some row =>
      rw [found] at alike
      obtain ⟨row', found', unsigned⟩ := Option.map_eq_some_iff.mp alike.symm
      have scope : row'.scope = row.scope := scope_of_unsigned unsigned
      have moved : ((c.kept.inserted keyed').moved id row').unsigned =
          ((c.inserted keyed).moved id row).unsigned := by
        unfold Db.moved
        rw [applyFolded_unsigned, applyFolded_unsigned, unsigned, applyFolded_congr _ (folds id)]
      simp only [found', Option.map_some, Option.some.injEq, kept_pol, scope]
      split
      · exact (view_of_unsigned moved).symm
      · exact (view_of_unsigned unsigned).symm

end Store

/-! ### The two calls compared -/

section Compare

variable {c} {response response' : PushResponse} {final final' : Db}

theorem only_eq (returned : push c.pol c.db c.req = .ok (response, final)) :
    c.req.only response = c.kept.req := by
  obtain ⟨-, _, -, -, -, rfl⟩ := c.push_returns_iff.mp returned
  rfl

theorem final_pinned (returned : push c.pol c.db c.req = .ok (response, final)) (id : String) :
    (final.submissions.lookup id).map (fun s => (s.caseId, s.createdBy)) =
      ((c.dbAfter c.ops).submissions.lookup id).map fun s => (s.caseId, s.createdBy) := by
  obtain ⟨-, keyed, flushed, -, rfl, -⟩ := c.push_returns_iff.mp returned
  have opened : (c.inserted keyed).submissions = (c.dbAfter c.ops).submissions := by
    rw [c.inserted_frame flushed]
  rw [settle_submission, opened, Option.map_map]
  congr 1
  funext row
  have scope := applyFolded_scope row ((c.inserted keyed).fold id)
  simp only [Submission.scope, Scope.mk.injEq] at scope
  simp only [Function.comp_apply]
  split
  · simp only [Db.moved, scope]
  · rfl

theorem stored_of_sameTrace (returned : push c.pol c.db c.req = .ok (response, final))
    (returned' : push c.kept.pol c.kept.db c.kept.req = .ok (response', final'))
    (same : SameTrace final final') : c.stored = c.kept.stored := by
  have log := same.log
  rw [c.push_log returned, c.kept.push_log returned', logged_unnumbered, logged_unnumbered] at log
  exact List.append_cancel_left log

section Returned

variable (returned : push c.pol c.db c.req = .ok (response, final))
  (returned' : push c.kept.pol c.kept.db c.kept.req = .ok (response', final'))
  (fair : ∀ op ∈ c.kept.ops, ¬ c.kept.Refuses op) (same : SameTrace final final')
include returned returned' fair same

theorem openers_of_sameTrace : c.OpenersStand := by
  intro opener member row opens
  have free := (c.push_returns_iff.mp returned).1
  have free' := (c.kept.push_returns_iff.mp returned').1
  have start : c.db.submissions.lookup opener.submissionId = none := by
    obtain ⟨before, after, split⟩ := List.append_of_mem member
    have openable := (free opener member row opens).1
    rw [c.earlier_eq split] at openable
    exact c.start_none split free openable
  -- The kept call has the submission too, so an accepted op opened it there.
  have pinned := congrArg (Option.map fun view => (view.2.1, view.2.2.1))
    (same.submissions opener.submissionId)
  rw [Option.map_map, Option.map_map] at pinned
  have pinned := ((final_pinned returned _).symm.trans pinned).trans (final_pinned returned' _)
  rw [c.lookup_opened free member opens, Option.map_some] at pinned
  obtain ⟨rowKept, found, columns⟩ := Option.map_eq_some_iff.mp pinned.symm
  have settled : ∀ o ∈ c.kept.ops, ∀ r, c.kept.judgement o = .opens r → o ∈ c.ops ∧ c.Settles o := by
    intro o present r opens'
    obtain ⟨inBatch, stands⟩ := c.mem_kept.mp present
    exact ⟨inBatch, c.settles_iff.mpr ⟨stands, (c.kept.judge_opens_iff.mp opens').1⟩⟩
  have opened := c.kept.opened_of_lookup (List.append_nil _).symm found
  rw [show c.kept.db.submissions.lookup _ = none from start] at opened
  obtain ⟨o, present, on, opens'⟩ := opened.resolve_left (by simp)
  obtain ⟨inBatch, settles⟩ := settled o present rowKept opens'
  obtain ⟨first, inBatch', ⟨settles', on'⟩, earliest⟩ :=
    c.exists_first_op (P := fun o => c.Settles o ∧ o.submissionId = opener.submissionId)
      (List.append_nil _).symm ⟨o, inBatch, settles, on⟩
  have stands := c.settles_iff.mp settles'
  have kept : first ∈ c.kept.ops := c.mem_kept.mpr ⟨inBatch', stands.1⟩
  refine ⟨first, inBatch', ⟨settles', fun e before equal settles'' =>
    earliest e before ⟨settles'', equal.trans on'⟩⟩, on', ?_⟩
  have judged : ∃ r, c.kept.judgement first = .opens r := by
    cases judged : c.kept.judgement first with
    | replay => exact absurd (c.kept.judgement_replay_iff.mp judged) stands.2
    | refuse reason => exact absurd (Or.inl (by simp [judged, Judgement.refusal])) (fair first kept)
    | opens r => exact ⟨r, rfl⟩
    | join =>
      obtain ⟨-, _, _, _, r, -, -, shown, -⟩ := c.kept.judge_join_iff.mp judged
      obtain ⟨present', -⟩ := Option.filter_eq_some_iff.mp shown
      obtain ⟨before, after, split⟩ := List.append_of_mem kept
      rw [c.kept.earlier_eq split, on'] at present'
      have opened := c.kept.opened_of_lookup split present'
      rw [show c.kept.db.submissions.lookup _ = none from start] at opened
      obtain ⟨e, before', on'', opens''⟩ := opened.resolve_left (by simp)
      have earlier : e ∈ c.earlier first := by
        have : e ∈ c.kept.earlier first := by rwa [c.kept.earlier_eq split]
        rw [c.kept_earlier inBatch' stands.1] at this
        exact (List.mem_filter.mp this).1
      have member' : e ∈ c.kept.ops := by rw [split]; exact List.mem_append_left _ before'
      exact absurd ⟨(settled e member' r opens'').2, on''⟩ (earliest e earlier)
  obtain ⟨r, opens''⟩ := judged
  have found' := c.kept.lookup_opened free' kept opens''
  rw [on', found] at found'
  cases found'
  obtain ⟨-, _, person, _, _, identity, -, -, -, -, rfl⟩ := c.kept.judge_opens_iff.mp opens''
  obtain ⟨fresh, _, person', _, _, identity', -, -, -, -, rfl⟩ := c.judge_opens_iff.mp opens
  simp only [opening, Prod.mk.injEq] at columns
  refine ⟨columns.1, ?_⟩
  have identity : c.identify first = _ := identity
  simp [Call.person, stands.2, fresh, identity, identity', columns.2]

theorem followers_of_sameTrace : c.FollowersStand := by
  have free := (c.push_returns_iff.mp returned).1
  have stand := openers_of_sameTrace returned returned' fair same
  have stored := stored_of_sameTrace returned returned' same
  intro op member settles follows back
  have stands := (c.settles_iff.mp settles).1
  have kept : op ∈ c.kept.ops := c.mem_kept.mpr ⟨member, stands⟩
  have leads : c.kept.Leads op := (kept_leads free stand member stands).mpr ⟨settles.1, back⟩
  cases index : c.indexed op with
  | some constraint =>
    cases constraint with
    | pkey => exact Or.inl rfl
    | counter => exact Or.inr rfl
    | nonce => exact absurd (Or.inr (Or.inr ⟨leads, index⟩)) (fair op kept)
  | none =>
    have listed : op.row c.kept.lastAttributed ∈ c.stored := by
      rw [stored]
      exact List.mem_map_of_mem (List.mem_filter.mpr ⟨kept, decide_eq_true ⟨leads, index⟩⟩)
    obtain ⟨o, stores, equal⟩ := List.mem_map.mp listed
    obtain ⟨inBatch, stores⟩ := List.mem_filter.mp stores
    obtain rfl := List.inj_on_of_nodup_map c.ops_nodup inBatch member
      (congrArg SubmissionOp.id equal)
    exact absurd (of_decide_eq_true stores).1 follows

theorem author_of_sameTrace : c.AuthorStands := by
  have free := (c.push_returns_iff.mp returned).1
  have stand := openers_of_sameTrace returned returned' fair same
  rintro ⟨op, member, stores⟩
  have stands := c.stores_fair stores
  have kept : op ∈ c.kept.ops := c.mem_kept.mpr ⟨member, stands⟩
  have admitted : (c.kept.judgement op).admits = true := by
    rw [(c.kept_judgement free stand member stands).1]
    exact stores.1.1.1.1
  have listed : op.row c.lastAttributed ∈ c.kept.stored := by
    rw [← stored_of_sameTrace returned returned' same]
    exact List.mem_map_of_mem (List.mem_filter.mpr ⟨member, decide_eq_true stores⟩)
  obtain ⟨o, -, equal⟩ := List.mem_map.mp listed
  have last : c.kept.lastAttributed = c.lastAttributed := congrArg SubmissionOp.actorId equal
  have answers : c.kept.attributions = (c.ops.filter (¬ c.Refuses ·)).filterMap c.person := by
    rw [attributions, c.kept_ops]
    rfl
  rw [c.getLast_attributions member stores.1.1.1.1, ← answers,
    c.kept.getLast_attributions kept admitted, last]

end Returned

theorem accepts_kept_iff (returned' : push c.kept.pol c.kept.db c.kept.req = .ok (response', final')) :
    (∀ raw ∈ c.kept.req.ops, response'.accepts raw = true) ↔
      ∀ op ∈ c.kept.ops, ¬ c.kept.Refuses op := by
  obtain ⟨-, _, -, -, -, rfl⟩ := c.kept.push_returns_iff.mp returned'
  constructor
  · intro all op member
    exact (c.kept.accepts_iff member).mp (all _ (readBatch_mem member))
  · intro fair raw member
    cases raw with
    | malformed opId => exact absurd (List.mem_filter.mp member).2 (by simp [PushResponse.accepts])
    | wellFormed op =>
      obtain ⟨first, present, equal⟩ := readBatch_covers (mem_wellFormedIds member)
      have taken := (c.kept.accepts_iff present).mpr (fair first present)
      show PushResponse.acceptsId ⟨c.kept.accepted, c.kept.rejected, 0⟩ op.opId = true
      rw [← equal]
      exact taken

/-- A refused op leaves no trace exactly when the submissions it opened are opened alike by an
accepted op, no accepted op was its replay, and it was not the last one asked for. -/
theorem push_leaves_no_trace_iff (returned : push c.pol c.db c.req = .ok (response, final)) :
    c.LeavesNoTrace response final ↔ c.AuthorStands ∧ c.OpenersStand ∧ c.FollowersStand := by
  unfold LeavesNoTrace
  rw [only_eq returned]
  constructor
  · rintro ⟨response', final', returned', all, same⟩
    have fair := (accepts_kept_iff returned').mp all
    exact ⟨author_of_sameTrace returned returned' fair same,
      openers_of_sameTrace returned returned' fair same,
      followers_of_sameTrace returned returned' fair same⟩
  · rintro ⟨author, stand, followers⟩
    obtain ⟨free, keyed, flushed, storable, rfl, rfl⟩ := c.push_returns_iff.mp returned
    have flushed' : c.kept.keys.added.foldlM insertKey (c.kept.dbAfter c.kept.ops) =
        .ok { keyed with submissions := (c.kept.dbAfter c.kept.ops).submissions } := by
      rw [kept_keys free stand, c.kept.dbAfter_frame]
      have moved := insertKeys_submissions flushed (c.kept.dbAfter c.kept.ops).submissions
      rw [c.dbAfter_frame] at moved
      exact moved
    have storable' := kept_storable free stand followers author flushed flushed' storable
    have returned' := c.kept.push_returns_iff.mpr
      ⟨kept_opensFree c free stand, _, flushed', storable', rfl, rfl⟩
    refine ⟨_, _, returned', (accepts_kept_iff returned').mpr ?_,
      kept_sameTrace free stand followers author flushed flushed'⟩
    exact fun op member => kept_fair free stand followers member

end Compare

end Call

def unkeyedOp : SyncOp where
  opId := "o1"
  submissionId := "s1"
  formId := "household"
  formVersion := 1
  kind := .set
  path := some "name"
  payload := .sealed [1] "key" (List.replicate 12 2)
  deviceId := "d1"
  counter := 1

def strayOpener : PushRequest where
  deviceId := "d1"
  ops := [.wellFormed unkeyedOp, .wellFormed (finalizeOp "o2" "s1" "d1" 2 2)]
  actorId := some "u1"

def twoVersions : Db :=
  { oneForm [("d1", some "u1")] with
    formVersions := (AList.singleton "ver" ⟨"frm", 1⟩).insert "ver2" ⟨"frm", 2⟩ }

set_option maxRecDepth 10000 in
/-- Both ops are refused, the second one because of the first, and a submission is left. -/
theorem strayOpener_leaves_trace : ∃ response final,
    push .unrestricted twoVersions strayOpener = .ok (response, final) ∧
      response.accepted = [] ∧
      response.rejected = [⟨some "o2", .unknownFormVersion⟩, ⟨some "o1", .unknownContentKey⟩] ∧
      (final.submissions.lookup "s1").isSome = true ∧
      ¬ Call.LeavesNoTrace ⟨.unrestricted, twoVersions, strayOpener⟩ response final := by
  refine ⟨_, _, rfl, by decide, by decide, by decide, ?_⟩
  rintro ⟨response', final', returned', -, same⟩
  have nothing : push .unrestricted twoVersions { strayOpener with ops := [] } =
      .ok (⟨[], [], 0⟩, twoVersions) := rfl
  cases nothing.symm.trans returned'
  exact absurd (same.submissions "s1") (by decide)

set_option maxRecDepth 10000 in
/-- The op `mixedBatch` refuses is refused before it opens anything. -/
theorem mixedBatch_leaves_no_trace : ∃ response final,
    push .unrestricted (oneForm [("d1", some "u1")]) mixedBatch = .ok (response, final) ∧
      response.rejected = [⟨some "o2", .unknownFormVersion⟩] ∧
      Call.LeavesNoTrace ⟨.unrestricted, oneForm [("d1", some "u1")], mixedBatch⟩ response final := by
  let c : Call := ⟨.unrestricted, oneForm [("d1", some "u1")], mixedBatch⟩
  have read : c.ops = [finalizeOp "o1" "s1" "d1" 1 1, finalizeOp "o2" "s1" "d1" 2 2] := rfl
  refine ⟨_, _, rfl, by decide, (Call.push_leaves_no_trace_iff (c := c) rfl).mpr ⟨?_, ?_, ?_⟩⟩
  · unfold Call.AuthorStands
    decide
  · intro opener member row opens
    rw [read] at member
    simp only [List.mem_cons, List.not_mem_nil, or_false] at member
    rcases member with rfl | rfl
    · refine ⟨_, List.mem_cons_self, ⟨by decide, ?_⟩, rfl, rfl, rfl⟩
      decide
    · have refused : (c.judgement (finalizeOp "o2" "s1" "d1" 2 2)).admits = false := by decide
      rw [opens] at refused
      cases refused
  · unfold Call.FollowersStand
    decide

end DataCollectionLab.Sync
