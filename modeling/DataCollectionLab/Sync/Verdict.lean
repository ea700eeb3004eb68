import DataCollectionLab.Lib.Except
import DataCollectionLab.Sync.Push

/-!
What the gates of `push` make of one op, said without the loops: from the database the call
finds, its arguments, and the ops that stand before this one in the batch. The loops refine
this: `admission_spec` for the admission loop, `sift_spec` for the insertion loop.
-/

namespace DataCollectionLab.Sync

theorem readBatch_concat (raw : List RawOp) (next : RawOp) :
    readBatch (raw ++ [next]) = readOp (readBatch raw) next := by
  simp [readBatch]

theorem readOp_known {batch : Batch} {op : SyncOp} (known : ∃ o ∈ batch.ops, o.opId = op.opId) :
    readOp batch (.wellFormed op) = { batch with accepted := batch.accepted ++ [op.opId] } := by
  have found : batch.ops.any (·.opId == op.opId) = true := by simpa using known
  simp [readOp, found]

theorem readOp_fresh {batch : Batch} {op : SyncOp} (fresh : ¬ ∃ o ∈ batch.ops, o.opId = op.opId) :
    readOp batch (.wellFormed op) = { batch with ops := batch.ops ++ [op] } := by
  have missing : batch.ops.any (·.opId == op.opId) = false := by simpa using fresh
  simp [readOp, missing]

def wellFormedIds (raw : List RawOp) : List String :=
  raw.filterMap fun
    | .wellFormed op => some op.opId
    | .malformed _ => none

theorem wellFormedIds_malformed (raw : List RawOp) (opId : Option String) :
    wellFormedIds (raw ++ [.malformed opId]) = wellFormedIds raw := by
  simp [wellFormedIds]

theorem wellFormedIds_wellFormed (raw : List RawOp) (op : SyncOp) :
    wellFormedIds (raw ++ [.wellFormed op]) = wellFormedIds raw ++ [op.opId] := by
  simp [wellFormedIds]

theorem readBatch_ids_nodup (raw : List RawOp) : ((readBatch raw).ops.map (·.opId)).Nodup := by
  induction raw using List.reverseRecOn with
  | nil => simp [readBatch]
  | append_singleton raw next ih =>
    rw [readBatch_concat]
    cases next with
    | malformed opId => exact ih
    | wellFormed op =>
      by_cases known : ∃ o ∈ (readBatch raw).ops, o.opId = op.opId
      · rw [readOp_known known]
        exact ih
      · rw [readOp_fresh known, List.map_append, List.nodup_append]
        refine ⟨ih, by simp, ?_⟩
        intro id member other last same
        obtain ⟨old, present, rfl⟩ := List.mem_map.mp member
        obtain rfl : other = op.opId := by simpa using last
        exact known ⟨old, present, same⟩

theorem readBatch_mem {raw : List RawOp} {op : SyncOp} (member : op ∈ (readBatch raw).ops) :
    RawOp.wellFormed op ∈ raw := by
  induction raw using List.reverseRecOn with
  | nil => simp [readBatch] at member
  | append_singleton raw next ih =>
    rw [readBatch_concat] at member
    cases next with
    | malformed opId => exact List.mem_append_left _ (ih member)
    | wellFormed new =>
      by_cases known : ∃ o ∈ (readBatch raw).ops, o.opId = new.opId
      · rw [readOp_known known] at member
        exact List.mem_append_left _ (ih member)
      · rw [readOp_fresh known] at member
        rcases List.mem_append.mp member with old | last
        · exact List.mem_append_left _ (ih old)
        · obtain rfl := List.mem_singleton.mp last
          simp

theorem readBatch_covers {raw : List RawOp} {id : String} (member : id ∈ wellFormedIds raw) :
    ∃ op ∈ (readBatch raw).ops, op.opId = id := by
  induction raw using List.reverseRecOn with
  | nil => simp [wellFormedIds] at member
  | append_singleton raw next ih =>
    rw [readBatch_concat]
    cases next with
    | malformed opId => exact ih (by rwa [wellFormedIds_malformed] at member)
    | wellFormed op =>
      rw [wellFormedIds_wellFormed, List.mem_append, List.mem_singleton] at member
      by_cases known : ∃ o ∈ (readBatch raw).ops, o.opId = op.opId
      · rw [readOp_known known]
        rcases member with old | rfl
        · exact ih old
        · exact known
      · rw [readOp_fresh known]
        rcases member with old | rfl
        · obtain ⟨first, present, same⟩ := ih old
          exact ⟨first, List.mem_append_left _ present, same⟩
        · exact ⟨op, by simp, rfl⟩

theorem readBatch_accepted_count (raw : List RawOp) (id : String) :
    (readBatch raw).accepted.count id + ((readBatch raw).ops.map (·.opId)).count id =
      (wellFormedIds raw).count id := by
  induction raw using List.reverseRecOn with
  | nil => simp [readBatch, wellFormedIds]
  | append_singleton raw next ih =>
    rw [readBatch_concat]
    cases next with
    | malformed opId => rw [wellFormedIds_malformed]; exact ih
    | wellFormed op =>
      rw [wellFormedIds_wellFormed, List.count_append]
      by_cases known : ∃ o ∈ (readBatch raw).ops, o.opId = op.opId
      · rw [readOp_known known]
        simp only [List.count_append]
        omega
      · rw [readOp_fresh known]
        simp only [List.map_append, List.count_append, List.map_cons, List.map_nil]
        omega

theorem mem_readBatch_rejected {raw : List RawOp} {opId : Option String}
    (member : .malformed opId ∈ raw) : ⟨opId, .malformed⟩ ∈ (readBatch raw).rejected := by
  induction raw using List.reverseRecOn with
  | nil => cases member
  | append_singleton raw next ih =>
    rw [readBatch_concat]
    rcases List.mem_append.mp member with old | new
    · have kept := ih old
      cases next with
      | malformed _ => exact List.mem_append_left _ kept
      | wellFormed op =>
        rw [readOp]
        split
        · exact kept
        · exact kept
    · obtain rfl := List.mem_singleton.mp new
      exact List.mem_append_right _ (List.mem_singleton.mpr rfl)

theorem readBatch_rejected {raw : List RawOp} (allWellFormed : ∀ r ∈ raw, ∃ op, r = .wellFormed op) :
    (readBatch raw).rejected = [] := by
  induction raw using List.reverseRecOn with
  | nil => rfl
  | append_singleton raw next ih =>
    obtain ⟨op, rfl⟩ := allWellFormed next (by simp)
    have before := ih fun r member => allWellFormed r (List.mem_append_left _ member)
    rw [readBatch_concat]
    by_cases known : ∃ o ∈ (readBatch raw).ops, o.opId = op.opId
    · rw [readOp_known known]
      exact before
    · rw [readOp_fresh known]
      exact before

theorem readBatch_malformed {raw : List RawOp} {entry : RejectedOp}
    (member : entry ∈ (readBatch raw).rejected) : entry.reason = .malformed := by
  induction raw using List.reverseRecOn with
  | nil => cases member
  | append_singleton raw next ih =>
    rw [readBatch_concat] at member
    cases next with
    | malformed opId =>
      rcases List.mem_append.mp member with old | last
      · exact ih old
      · rw [List.mem_singleton.mp last]
    | wellFormed op =>
      by_cases known : ∃ o ∈ (readBatch raw).ops, o.opId = op.opId
      · rw [readOp_known known] at member
        exact ih member
      · rw [readOp_fresh known] at member
        exact ih member

theorem readBatch_filter {keep : String → Bool} {p : RawOp → Bool}
    (byId : ∀ op, p (.wellFormed op) = keep op.opId) (raw : List RawOp) :
    (readBatch (raw.filter p)).ops = (readBatch raw).ops.filter (keep ·.opId) := by
  induction raw using List.reverseRecOn with
  | nil => rfl
  | append_singleton raw next ih =>
    rw [List.filter_append, readBatch_concat]
    cases next with
    | malformed opId =>
      by_cases kept : p (.malformed opId) = true
      · rw [List.filter_cons_of_pos kept, List.filter_nil, readBatch_concat]
        exact ih
      · rw [List.filter_cons_of_neg kept, List.filter_nil, List.append_nil]
        exact ih
    | wellFormed op =>
      by_cases kept : keep op.opId = true
      · rw [List.filter_cons_of_pos (by rwa [byId]), List.filter_nil, readBatch_concat]
        have same : (∃ o ∈ (readBatch (raw.filter p)).ops, o.opId = op.opId) ↔
            ∃ o ∈ (readBatch raw).ops, o.opId = op.opId := by
          rw [ih]
          constructor
          · rintro ⟨o, member, equal⟩
            exact ⟨o, (List.mem_filter.mp member).1, equal⟩
          · rintro ⟨o, member, equal⟩
            exact ⟨o, List.mem_filter.mpr ⟨member, by rwa [equal]⟩, equal⟩
        by_cases known : ∃ o ∈ (readBatch raw).ops, o.opId = op.opId
        · rw [readOp_known known, readOp_known (same.mpr known)]
          exact ih
        · rw [readOp_fresh known, readOp_fresh (mt same.mp known)]
          simp [ih, kept]
      · rw [List.filter_cons_of_neg (by rwa [byId]), List.filter_nil, List.append_nil]
        by_cases known : ∃ o ∈ (readBatch raw).ops, o.opId = op.opId
        · rw [readOp_known known]
          exact ih
        · rw [readOp_fresh known]
          simp [ih, kept]

theorem mem_wellFormedIds {raw : List RawOp} {op : SyncOp} (member : .wellFormed op ∈ raw) :
    op.opId ∈ wellFormedIds raw :=
  List.mem_filterMap.mpr ⟨_, member, rfl⟩

/-! ### What the admission loop decides about one op -/

inductive Judgement where
  | replay
  | refuse (reason : RejectReason)
  | join
  | opens (row : Submission)

namespace Judgement

def refusal : Judgement → Option RejectReason
  | .refuse reason => some reason
  | _ => none

def admits : Judgement → Bool
  | .join | .opens _ => true
  | .replay | .refuse _ => false

end Judgement

namespace Call

variable (c : Call)

def Replayed (op : SyncOp) : Prop :=
  ∃ r ∈ c.db.ops.rows, c.pol.shows c.db r.submissionId = true ∧ (r.id = op.opId ∨ r.slot = op.slot)

instance : DecidablePred c.Replayed := fun op =>
  inferInstanceAs (Decidable (∃ r ∈ c.db.ops.rows,
    c.pol.shows c.db r.submissionId = true ∧ (r.id = op.opId ∨ r.slot = op.slot)))

/-- The judgement on an op past `_attribute`, over the database as the ops before it left it. -/
def judgeEntry (db : Db) (op : SyncOp) (device : Device) (person : Option String) : Judgement :=
  match resolveFormVersion db device.projectId op.formId op.formVersion with
  | none => .refuse .unknownFormVersion
  | some formVersionId =>
    match c.pol.submission db op.submissionId with
    | some submission =>
      match refusalOn submission device formVersionId with
      | some reason => .refuse reason
      | none => .join
    | none =>
      match resolveEnvironment db device.projectId with
      | none => .refuse .notAuthorized
      | some environmentId =>
        let row := opening op device person environmentId formVersionId
        if c.pol.writesSubmission row.scope && c.pol.seesSubmission row.scope then .opens row
        else .refuse .notAssigned

def judge (db : Db) (op : SyncOp) : Judgement :=
  if c.Replayed op then .replay
  else
    match c.identify op with
    | .error reason => .refuse reason
    | .ok (device, person) => c.judgeEntry db op device person

def book (db : Db) (op : SyncOp) : Db :=
  match c.judge db op with
  | .opens row => { db with submissions := db.submissions.insert op.submissionId row }
  | _ => db

def dbAfter (ops : List SyncOp) : Db := ops.foldl c.book c.db

/-- The ops of the batch that stand before `op`. -/
def earlier (op : SyncOp) : List SyncOp := c.ops.takeWhile fun o => o.opId != op.opId

def judgement (op : SyncOp) : Judgement := c.judge (c.dbAfter (c.earlier op)) op

/-- The admission loop's `attributed` after `op`. -/
def noted (attributed : Option String) (op : SyncOp) : Option String :=
  if c.Replayed op then attributed
  else
    match c.identify op with
    | .error _ => attributed
    | .ok (_, person) => person

/-- What `attributed` is when the loop is over: the last op past `_attribute` decides. -/
def lastAttributed : Option String := c.ops.foldl c.noted none

def Openable (db : Db) (id : String) (row : Submission) : Prop :=
  db.submissions.lookup id = none ∧
    ∀ caseId, row.caseId = some caseId → (db.cases.lookup caseId).isSome = true

theorem ops_nodup : (c.ops.map (·.opId)).Nodup := readBatch_ids_nodup _

theorem known_iff {op : SyncOp} (member : op ∈ c.ops) :
    (op.opId ∈ c.knownIds ∨ op.slot ∈ c.knownCounters) ↔ c.Replayed op := by
  have byId : c.ops.any (·.opId == op.opId) = true := List.any_eq_true.mpr ⟨op, member, by simp⟩
  have bySlot : c.ops.any (·.slot == op.slot) = true := List.any_eq_true.mpr ⟨op, member, by simp⟩
  simp only [knownIds, knownCounters, knownRows, List.mem_map, List.mem_filter, Bool.and_eq_true,
    Bool.or_eq_true, Replayed]
  constructor
  · rintro (⟨r, ⟨stored, shown, -⟩, same⟩ | ⟨r, ⟨stored, shown, -⟩, same⟩)
    · exact ⟨r, stored, shown, Or.inl same⟩
    · exact ⟨r, stored, shown, Or.inr same⟩
  · rintro ⟨r, stored, shown, same | same⟩
    · exact Or.inl ⟨r, ⟨stored, shown, Or.inl (by rw [same]; exact byId)⟩, same⟩
    · exact Or.inr ⟨r, ⟨stored, shown, Or.inr (by rw [same]; exact bySlot)⟩, same⟩

theorem insertSubmission_refused {pol : Policies} {db : Db} {id : String} {row : Submission}
    (refused : (pol.writesSubmission row.scope && pol.seesSubmission row.scope) = false) :
    pol.insertSubmission db id row = .error (.rowSecurity "submission") := by
  simp [Policies.insertSubmission, refused]

theorem insertSubmission_openable {pol : Policies} {db : Db} {id : String} {row : Submission}
    (admitted : (pol.writesSubmission row.scope && pol.seesSubmission row.scope) = true)
    (openable : Openable db id row) :
    pol.insertSubmission db id row =
      .ok { db with submissions := db.submissions.insert id row } := by
  have known : (row.caseId.any fun c => (db.cases.lookup c).isNone) = false := by
    cases named : row.caseId with
    | none => rfl
    | some caseId => simpa [Option.isSome_iff_ne_none] using openable.2 caseId named
  simp [Policies.insertSubmission, admitted, openable.1, known]

theorem insertSubmission_unopenable {pol : Policies} {db : Db} {id : String} {row : Submission}
    (admitted : (pol.writesSubmission row.scope && pol.seesSubmission row.scope) = true)
    (blocked : ¬ Openable db id row) :
    pol.insertSubmission db id row = .error (.uniqueViolation "submission_pkey") ∨
      pol.insertSubmission db id row = .error (.foreignKeyViolation "submission_case_id_fkey") := by
  simp only [Policies.insertSubmission, admitted, Bool.not_true, Bool.false_eq_true, if_false]
  by_cases taken : (db.submissions.lookup id).isSome = true
  · exact Or.inl (if_pos taken)
  · rw [if_neg taken]
    refine Or.inr (if_pos ?_)
    by_contra known
    refine blocked ⟨by simpa using taken, ?_⟩
    intro caseId named
    simp only [named, Option.any_some, Bool.not_eq_true] at known
    simpa [Option.isSome_iff_ne_none] using known

/-- The admission loop's variables after `op`, when the database raises nothing. -/
def advance (st : Admission) (op : SyncOp) : Admission :=
  match c.judge st.db op with
  | .replay => { st with accepted := st.accepted ++ [op.opId] }
  | .refuse reason => { st with attributed := c.noted st.attributed op }.refuse op reason
  | .join => { st with attributed := c.noted st.attributed op }.enrol op
  | .opens _ => { st with
      db := c.book st.db op
      attributed := c.noted st.attributed op }.enrol op

/-- Where `judge` sends the loop's variables, once the op is past `_attribute`. -/
def entered (st : Admission) (op : SyncOp) : Judgement → Admission
  | .replay => st
  | .refuse reason => st.refuse op reason
  | .join => st.enrol op
  | .opens row => { st with
      db := { st.db with submissions := st.db.submissions.insert op.submissionId row } }.enrol op

theorem judgeEntry_ne_replay (db : Db) (op : SyncOp) (device : Device) (person : Option String) :
    c.judgeEntry db op device person ≠ .replay := by
  unfold judgeEntry
  split
  · nofun
  · split
    · split <;> nofun
    · split
      · nofun
      · dsimp only
        split <;> nofun

theorem identify_ok_iff {op : SyncOp} {device : Device} {person : Option String} :
    c.identify op = .ok (device, person) ↔
      c.pol.device c.db op.deviceId = some device ∧ device.revokedAt = none ∧
        attributeOp op device c.req.deviceId c.req.actorId = .ok person := by
  unfold identify
  cases found : c.pol.device c.db op.deviceId with
  | none => simp
  | some registered =>
    dsimp only
    by_cases revoked : registered.revokedAt.isSome = true
    · simp only [revoked, if_true, reduceCtorEq, Option.some.injEq, false_iff, not_and]
      rintro rfl active
      simp [active] at revoked
    · have active : registered.revokedAt = none := by simpa using revoked
      rw [if_neg revoked]
      constructor
      · intro identified
        cases answer : attributeOp op registered c.req.deviceId c.req.actorId with
        | error reason => simp [answer, Except.map] at identified
        | ok given =>
          rw [answer] at identified
          cases identified
          exact ⟨rfl, active, answer⟩
      · rintro ⟨same, -, answer⟩
        cases same
        rw [answer]
        rfl

theorem identify_error {op : SyncOp} {reason : RejectReason} (failed : c.identify op = .error reason) :
    reason = .notAuthorized := by
  unfold identify at failed
  split at failed
  · cases failed
    rfl
  · split at failed
    · cases failed
      rfl
    · unfold attributeOp at failed
      split at failed
      · cases failed
      · split at failed
        · cases failed
          rfl
        · split at failed
          · cases failed
          · cases failed
            rfl

theorem refusalOn_eq_none_iff {submission : Submission} {device : Device} {formVersionId : String} :
    refusalOn submission device formVersionId = none ↔
      submission.projectId = device.projectId ∧ submission.status.closed = false ∧
        submission.formVersionId = formVersionId := by
  unfold refusalOn
  by_cases project : submission.projectId = device.projectId
  · cases closed : submission.status.closed
    · by_cases version : submission.formVersionId = formVersionId <;> simp [project, version]
    · simp [project]
  · simp [project]

theorem refusalOn_reason {submission : Submission} {device : Device} {formVersionId : String}
    {reason : RejectReason} (refused : refusalOn submission device formVersionId = some reason) :
    reason = .notAuthorized ∨ reason = .submissionClosed ∨ reason = .unknownFormVersion := by
  unfold refusalOn at refused
  split at refused
  · cases refused
    exact Or.inl rfl
  · split at refused
    · cases refused
      exact Or.inr (Or.inl rfl)
    · split at refused
      · cases refused
        exact Or.inr (Or.inr rfl)
      · cases refused

theorem judge_ne_malformed (db : Db) (op : SyncOp) : c.judge db op ≠ .refuse .malformed := by
  unfold judge
  split
  · nofun
  · cases identity : c.identify op with
    | error reason =>
      rw [c.identify_error identity]
      nofun
    | ok entry =>
      unfold judgeEntry
      dsimp only
      split
      · nofun
      · split
        · split
          · rename_i reason refused
            rintro ⟨⟩
            simpa using refusalOn_reason refused
          · nofun
        · split
          · nofun
          · split <;> nofun

theorem judge_join_iff {db : Db} {op : SyncOp} : c.judge db op = .join ↔
    ¬ c.Replayed op ∧ ∃ device person formVersionId submission,
      c.identify op = .ok (device, person) ∧
      resolveFormVersion db device.projectId op.formId op.formVersion = some formVersionId ∧
      c.pol.submission db op.submissionId = some submission ∧
      refusalOn submission device formVersionId = none := by
  unfold judge judgeEntry
  by_cases replayed : c.Replayed op
  · simp [replayed]
  · rw [if_neg replayed]
    cases identity : c.identify op with
    | error reason => simp
    | ok entry =>
      obtain ⟨device, person⟩ := entry
      dsimp only
      cases version : resolveFormVersion db device.projectId op.formId op.formVersion with
      | none => simp [replayed, version]
      | some formVersionId =>
        cases found : c.pol.submission db op.submissionId with
        | some submission =>
          cases refusal : refusalOn submission device formVersionId <;>
            simp [replayed, version, refusal]
        | none =>
          cases environment : resolveEnvironment db device.projectId with
          | none => simp
          | some environmentId =>
            dsimp only
            split <;> simp

theorem judge_opens_iff {db : Db} {op : SyncOp} {row : Submission} : c.judge db op = .opens row ↔
    ¬ c.Replayed op ∧ ∃ device person formVersionId environmentId,
      c.identify op = .ok (device, person) ∧
      resolveFormVersion db device.projectId op.formId op.formVersion = some formVersionId ∧
      c.pol.submission db op.submissionId = none ∧
      resolveEnvironment db device.projectId = some environmentId ∧
      (c.pol.writesSubmission row.scope && c.pol.seesSubmission row.scope) = true ∧
      opening op device person environmentId formVersionId = row := by
  unfold judge judgeEntry
  by_cases replayed : c.Replayed op
  · simp [replayed]
  · rw [if_neg replayed]
    cases identity : c.identify op with
    | error reason => simp
    | ok entry =>
      obtain ⟨device, person⟩ := entry
      dsimp only
      cases version : resolveFormVersion db device.projectId op.formId op.formVersion with
      | none => simp [version]
      | some formVersionId =>
        cases found : c.pol.submission db op.submissionId with
        | some submission =>
          cases refusal : refusalOn submission device formVersionId <;> simp [refusal]
        | none =>
          cases environment : resolveEnvironment db device.projectId with
          | none => simp [environment]
          | some environmentId =>
            simp only [replayed, not_false_eq_true, true_and]
            constructor
            · intro judged
              split at judged
              · rename_i admitted
                cases judged
                exact ⟨_, _, _, _, rfl, version, environment, admitted, rfl⟩
              · cases judged
            · rintro ⟨_, _, _, _, same, version', environment', admitted, rfl⟩
              cases same
              rw [version] at version'
              rw [environment] at environment'
              cases version'
              cases environment'
              rw [if_pos admitted]

theorem enter_ok_iff {st st' : Admission} {op : SyncOp} {device : Device} {person : Option String} :
    st.enter c.pol op device person = .ok st' ↔
      (∀ row, c.judgeEntry st.db op device person = .opens row →
        Openable st.db op.submissionId row) ∧
      entered st op (c.judgeEntry st.db op device person) = st' := by
  unfold Admission.enter judgeEntry
  cases version : resolveFormVersion st.db device.projectId op.formId op.formVersion with
  | none => simp [entered]
  | some formVersionId =>
    cases found : c.pol.submission st.db op.submissionId with
    | some submission =>
      cases refusal : refusalOn submission device formVersionId <;>
        simp [refusal, entered]
    | none =>
      cases environment : resolveEnvironment st.db device.projectId with
      | none => simp [entered]
      | some environmentId =>
        simp only
        generalize opening op device person environmentId formVersionId = row
        cases admitted : c.pol.writesSubmission row.scope && c.pol.seesSubmission row.scope with
        | false =>
          rw [insertSubmission_refused admitted]
          simp [entered]
        | true =>
          by_cases openable : Openable st.db op.submissionId row
          · rw [insertSubmission_openable admitted openable]
            simp [entered, openable]
          · rcases insertSubmission_unopenable admitted openable with raised | raised <;>
              simp [raised, openable]

/-- One round of the admission loop raises exactly when it would open a submission that the
tables cannot take; otherwise it does what `judge` says. -/
theorem step_ok_iff {st st' : Admission} {op : SyncOp} (member : op ∈ c.ops) :
    Admission.step c st op = .ok st' ↔
      (∀ row, c.judge st.db op = .opens row → Openable st.db op.submissionId row) ∧
      c.advance st op = st' := by
  unfold Admission.step advance book judge noted
  by_cases replayed : c.Replayed op
  · rw [if_pos ((c.known_iff member).mpr replayed)]
    simp [replayed]
  · rw [if_neg (fun known => replayed ((c.known_iff member).mp known))]
    simp only [if_neg replayed]
    cases identity : c.identify op with
    | error reason => simp
    | ok entry =>
      obtain ⟨device, person⟩ := entry
      simp only [c.enter_ok_iff]
      cases judged : c.judgeEntry st.db op device person with
      | replay => exact absurd judged (c.judgeEntry_ne_replay _ _ _ _)
      | refuse reason => simp [entered]
      | join => simp [entered]
      | opens row => simp [entered]

theorem earlier_eq {before after : List SyncOp} {op : SyncOp}
    (split : c.ops = before ++ op :: after) : c.earlier op = before := by
  have distinct := c.ops_nodup
  rw [split, List.map_append, List.map_cons, List.nodup_append] at distinct
  unfold earlier
  rw [split, List.takeWhile_append_of_pos, List.takeWhile_cons_of_neg (by simp), List.append_nil]
  intro o member
  simpa using distinct.2.2 o.opId (List.mem_map_of_mem member) op.opId List.mem_cons_self

/-- The admission loop's variables after the ops `before`, one component at a time. -/
def settledAfter (before : List SyncOp) : Admission where
  db := c.dbAfter before
  accepted := (readBatch c.req.ops).accepted ++ (before.filter (c.Replayed ·)).map (·.opId)
  rejected := (readBatch c.req.ops).rejected ++
    before.filterMap fun op => (c.judgement op).refusal.map (⟨some op.opId, ·⟩)
  admitted := before.filter fun op => (c.judgement op).admits
  attributed := before.foldl c.noted none

theorem judge_eq_replay_iff {db : Db} {op : SyncOp} : c.judge db op = .replay ↔ c.Replayed op := by
  unfold judge
  split
  · rename_i replayed
    simpa using replayed
  · rename_i fresh
    split
    · simpa using fresh
    · simpa [c.judgeEntry_ne_replay] using fresh

theorem advance_settled {before after : List SyncOp} {op : SyncOp}
    (split : c.ops = before ++ op :: after) :
    c.advance (c.settledAfter before) op = c.settledAfter (before ++ [op]) := by
  have here : c.judgement op = c.judge (c.dbAfter before) op := by
    rw [judgement, c.earlier_eq split]
  have booked : c.dbAfter (before ++ [op]) = c.book (c.dbAfter before) op := by
    simp [dbAfter]
  have replay : c.judge (c.dbAfter before) op = .replay ↔ c.Replayed op := c.judge_eq_replay_iff
  unfold advance settledAfter
  simp only [booked, here, List.filter_append, List.filterMap_append, List.foldl_append,
    List.filter_cons, List.filter_nil, List.filterMap_cons, List.filterMap_nil, List.foldl_cons,
    List.foldl_nil, List.map_append]
  cases judged : c.judge (c.dbAfter before) op with
  | replay =>
    have replayed : c.Replayed op := replay.mp judged
    simp [replayed, book, judged, noted, Judgement.refusal, Judgement.admits]
  | refuse reason =>
    have fresh : ¬ c.Replayed op := fun replayed => by simp [replay.mpr replayed] at judged
    simp [fresh, book, judged, Judgement.refusal, Judgement.admits, Admission.refuse]
  | join =>
    have fresh : ¬ c.Replayed op := fun replayed => by simp [replay.mpr replayed] at judged
    simp [fresh, book, judged, Judgement.refusal, Judgement.admits, Admission.enrol]
  | opens row =>
    have fresh : ¬ c.Replayed op := fun replayed => by simp [replay.mpr replayed] at judged
    simp [fresh, book, judged, Judgement.refusal, Judgement.admits, Admission.enrol]

def OpensFree (ops : List SyncOp) : Prop :=
  ∀ op ∈ ops, ∀ row, c.judgement op = .opens row →
    Openable (c.dbAfter (c.earlier op)) op.submissionId row

theorem admission_prefix {before after : List SyncOp} (split : c.ops = before ++ after)
    {st : Admission} :
    before.foldlM (Admission.step c) (c.settledAfter []) = .ok st ↔
      c.OpensFree before ∧ c.settledAfter before = st := by
  induction before using List.reverseRecOn generalizing after st with
  | nil => simp [OpensFree, pure, Except.pure]
  | append_singleton before op ih =>
    have here : c.ops = before ++ op :: after := by simpa using split
    have member : op ∈ c.ops := by simp [here]
    have judged : c.judge (c.settledAfter before).db op = c.judgement op := by
      rw [judgement, c.earlier_eq here]; rfl
    simp only [Lib.foldlM_concat_ok_iff, ih here, c.step_ok_iff member]
    constructor
    · rintro ⟨_, ⟨free, rfl⟩, openable, rfl⟩
      refine ⟨?_, (c.advance_settled here).symm⟩
      intro o present row opens
      rcases List.mem_append.mp present with old | last
      · exact free o old row opens
      · obtain rfl := List.mem_singleton.mp last
        rw [c.earlier_eq here]
        exact openable row (judged.trans opens)
    · rintro ⟨free, rfl⟩
      refine ⟨_, ⟨fun o old => free o (List.mem_append_left _ old), rfl⟩, ?_,
        c.advance_settled here⟩
      intro row opens
      have := free op (by simp) row (judged.symm.trans opens)
      rwa [c.earlier_eq here] at this

theorem admission_spec {st : Admission} :
    c.admission = .ok st ↔ c.OpensFree c.ops ∧ c.settledAfter c.ops = st := by
  have started : c.admission = c.ops.foldlM (Admission.step c) (c.settledAfter []) := by
    simp [admission, settledAfter, dbAfter, ops]
  rw [started]
  exact c.admission_prefix (List.append_nil _).symm

end Call

end DataCollectionLab.Sync
