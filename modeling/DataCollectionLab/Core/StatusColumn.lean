import DataCollectionLab.Core.Answers
import DataCollectionLab.Lib.Runs

/-!
The status a device keeps for a submission, against its log. `appendOp` and `applyPullBatch` write it
op by op as the ops arrive; the fold reads the log in the order of counters and device ids. The two
agree as long as the finalize or reopen that arrives last is the one that counts.
-/

namespace DataCollectionLab.Core

def OpOutbox.netStatus (outbox : OpOutbox) (id : String) : Status :=
  (foldOps ((outbox.opsFor id).map (·.stored))).status.getD .draft

def SubmissionStore.StatusIsFold (store : SubmissionStore) : Prop :=
  ∀ id row, store.submissions.lookup id = some row → row.status = store.outbox.netStatus id

inductive StoreCall where
  | createDraft (id formId : String) (formVersion : Nat) (caseId : Option String) (now : Timestamp)
  | appendOp (opId submissionId formId : String) (formVersion : Nat) (kind : OpKind)
      (path : Option String) (valueJson : Option Json) (now : Timestamp)
  | applyPullBatch (ops : List SyncOp) (nextCursor : Nat)

namespace StoreCall

variable (store : SubmissionStore)

def run : StoreCall → Option SubmissionStore
  | createDraft id formId formVersion caseId now => store.createDraft id formId formVersion caseId now
  | appendOp opId submissionId formId formVersion kind path valueJson now =>
    store.appendOp opId submissionId formId formVersion kind path valueJson now
  | applyPullBatch ops nextCursor => some (store.applyPullBatch ops nextCursor)

def apply (call : StoreCall) : SubmissionStore := (call.run store).getD store

def arrivals : StoreCall → List SyncOp
  | createDraft .. => []
  | appendOp opId submissionId formId formVersion kind path valueJson now =>
    [store.newOp opId submissionId formId formVersion kind path valueJson now]
  | applyPullBatch ops _ => ops.map (·.acknowledged)

def filed (call : StoreCall) : OpOutbox := (call.arrivals store).foldl (·.insertOrIgnore ·) store.outbox

def opens (id : String) : StoreCall → Bool
  | createDraft draft .. => draft == id
  | appendOp .. => false
  | applyPullBatch ops _ => ops.any (·.submissionId == id)

def lastArrived (call : StoreCall) (id : String) : Option Status :=
  (((call.arrivals store).filter (·.submissionId == id)).filterMap (statusSaid ·.stored)).getLast?

/-- Whatever the call writes as a submission's status, the finalize or reopen that is last in the
order of counters and device ids says too. -/
def LastWordStands (call : StoreCall) : Prop :=
  (call.run store).isSome = true → ∀ id, store.submissions.lookup id ≠ none ∨ call.opens id = true →
    match call.lastArrived store id with
    | some said => (call.filed store).netStatus id = said
    | none => store.submissions.lookup id = none → (call.filed store).netStatus id = .draft

end StoreCall

/-! ### What decides the status of a log -/

def OpOutbox.moves (outbox : OpOutbox) (id : String) : List SyncOp :=
  outbox.rows.filter fun op => (statusSaid op.stored).isSome && op.submissionId == id

theorem OpOutbox.netStatus_eq (outbox : OpOutbox) (id : String) :
    outbox.netStatus id =
      ((((outbox.moves id).insertionSort SyncOp.Le).filterMap (statusSaid ·.stored)).getLast?).getD
        .draft := by
  have chosen : (outbox.opsFor id).filterMap (statusSaid ·.stored) =
      ((outbox.opsFor id).filter fun op => (statusSaid op.stored).isSome).filterMap
        (statusSaid ·.stored) := by
    rw [List.filterMap_filter]
    refine List.filterMap_congr fun op _ => ?_
    cases statusSaid op.stored <;> rfl
  unfold OpOutbox.netStatus
  rw [foldOps_status, List.filterMap_map]
  show ((outbox.opsFor id).filterMap (statusSaid ·.stored)).getLast?.getD .draft = _
  rw [chosen, OpOutbox.opsFor, Lib.filter_insertionSort, List.filter_filter]
  rfl

theorem OpOutbox.netStatus_insertOrIgnore {outbox : OpOutbox} {op : SyncOp} {id : String}
    (silent : op.submissionId = id → statusSaid op.stored = none) :
    (outbox.insertOrIgnore op).netStatus id = outbox.netStatus id := by
  have same : (outbox.insertOrIgnore op).moves id = outbox.moves id := by
    unfold OpOutbox.insertOrIgnore OpOutbox.insert
    split
    · show (outbox.rows ++ [op]).filter _ = _
      rw [List.filter_append, List.filter_singleton]
      by_cases here : op.submissionId = id
      · simp [silent here, OpOutbox.moves]
      · have other : (op.submissionId == id) = false := by simpa using here
        simp [other, OpOutbox.moves]
    · rfl
  rw [OpOutbox.netStatus_eq, OpOutbox.netStatus_eq, same]

theorem netStatus_foldl {ops : List SyncOp} {id : String}
    (silent : ∀ op ∈ ops, op.submissionId = id → statusSaid op.stored = none) (outbox : OpOutbox) :
    (ops.foldl (·.insertOrIgnore ·) outbox).netStatus id = outbox.netStatus id := by
  induction ops generalizing outbox with
  | nil => rfl
  | cons op ops ih =>
    rw [List.foldl_cons, ih fun op member => silent op (by simp [member])]
    exact OpOutbox.netStatus_insertOrIgnore (silent op (by simp))

namespace SubmissionStore

/-- The status column, `draft` where there is no row. -/
def statusOf (store : SubmissionStore) (id : String) : Status :=
  ((store.submissions.lookup id).map (·.status)).getD .draft

theorem lookup_updateSubmission (store : SubmissionStore) (id id' : String)
    (change : LocalSubmission → LocalSubmission) :
    (store.updateSubmission id change).submissions.lookup id' =
      if id' = id then (store.submissions.lookup id').map change
      else store.submissions.lookup id' := by
  unfold updateSubmission
  by_cases same : id' = id
  · subst same
    rw [if_pos rfl]
    cases found : store.submissions.lookup id' with
    | none => exact found
    | some row => exact AList.lookup_insert _
  · rw [if_neg same]
    cases store.submissions.lookup id with
    | none => rfl
    | some row => exact AList.lookup_insert_ne same

theorem outbox_updateSubmission (store : SubmissionStore) (id : String)
    (change : LocalSubmission → LocalSubmission) :
    (store.updateSubmission id change).outbox = store.outbox := by
  unfold updateSubmission
  split <;> rfl

theorem outbox_moveStatus (store : SubmissionStore) (op : SyncOp) :
    (store.moveStatus op).outbox = store.outbox := by
  unfold moveStatus
  split
  · exact outbox_updateSubmission _ _ _
  · exact outbox_updateSubmission _ _ _
  · rfl

theorem lookup_moveStatus (store : SubmissionStore) (op : SyncOp) (id : String) :
    ((store.moveStatus op).submissions.lookup id).map (·.status) =
      (store.submissions.lookup id).map fun row =>
        if op.submissionId = id then (statusSaid op.stored).getD row.status else row.status := by
  have same : op.stored.opKind = op.kind := rfl
  unfold moveStatus statusSaid
  rw [same]
  cases op.kind <;> simp only [lookup_updateSubmission]
  case finalize | reopen =>
    by_cases here : op.submissionId = id
    · rw [if_pos here.symm]
      simp [here, Function.comp_def]
    · rw [if_neg (Ne.symm here)]
      simp [here]
  all_goals
    by_cases here : op.submissionId = id <;> simp [here]

theorem lookup_insertSubmissionIfAbsent (store : SubmissionStore) (op : SyncOp) (id : String) :
    ((store.insertSubmissionIfAbsent op).submissions.lookup id).map (·.status) =
      if op.submissionId = id then some (store.statusOf id)
      else (store.submissions.lookup id).map (·.status) := by
  unfold insertSubmissionIfAbsent statusOf
  by_cases here : op.submissionId = id
  · subst here
    rw [if_pos rfl]
    cases found : store.submissions.lookup op.submissionId with
    | none => simp
    | some row => simp [found]
  · rw [if_neg here]
    split
    · rfl
    · exact congrArg _ (AList.lookup_insert_ne (Ne.symm here))

theorem lookup_applyPulled (store : SubmissionStore) (op : SyncOp) (id : String) :
    ((store.applyPulled op).submissions.lookup id).map (·.status) =
      if op.submissionId = id then some ((statusSaid op.stored).getD (store.statusOf id))
      else (store.submissions.lookup id).map (·.status) := by
  have inner : ((store.insertSubmissionIfAbsent op).insertRemoteOp op).submissions =
    (store.insertSubmissionIfAbsent op).submissions := rfl
  have row := lookup_insertSubmissionIfAbsent store op id
  rw [applyPulled, lookup_moveStatus, inner]
  by_cases here : op.submissionId = id
  · simp only [here, if_true] at row ⊢
    obtain ⟨entry, found, status⟩ := Option.map_eq_some_iff.mp row
    rw [found, Option.map_some, status]
  · simpa only [here, if_false] using row

theorem outbox_applyPulled (store : SubmissionStore) (op : SyncOp) :
    (store.applyPulled op).outbox = store.outbox.insertOrIgnore op.acknowledged := by
  have absent : (store.insertSubmissionIfAbsent op).outbox = store.outbox := by
    unfold insertSubmissionIfAbsent
    split <;> rfl
  rw [applyPulled, outbox_moveStatus, insertRemoteOp, absent]

theorem statusOf_applyPulled (store : SubmissionStore) (op : SyncOp) (id : String) :
    (store.applyPulled op).statusOf id =
      if op.submissionId = id then (statusSaid op.stored).getD (store.statusOf id)
      else store.statusOf id := by
  rw [statusOf, lookup_applyPulled]
  split <;> rfl

theorem lookup_foldl_applyPulled (store : SubmissionStore) (ops : List SyncOp) (id : String) :
    ((ops.foldl applyPulled store).submissions.lookup id).map (·.status) =
        (if ops.any (·.submissionId == id) then some ((ops.foldl applyPulled store).statusOf id)
        else (store.submissions.lookup id).map (·.status)) ∧
      (ops.foldl applyPulled store).statusOf id =
        ((ops.filter (·.submissionId == id)).filterMap (statusSaid ·.stored)).getLast?.getD
          (store.statusOf id) := by
  induction ops using List.reverseRecOn with
  | nil => exact ⟨rfl, rfl⟩
  | append_singleton ops op ih =>
    obtain ⟨rows, status⟩ := ih
    rw [List.foldl_append, List.foldl_cons, List.foldl_nil, lookup_applyPulled, statusOf_applyPulled,
      rows, status, List.any_append, List.filter_append]
    by_cases here : op.submissionId = id
    · cases said : statusSaid op.stored <;> simp [here, said]
    · simp [here]

theorem outbox_foldl_applyPulled (store : SubmissionStore) (ops : List SyncOp) :
    (ops.foldl applyPulled store).outbox =
      (ops.map (·.acknowledged)).foldl (·.insertOrIgnore ·) store.outbox := by
  induction ops generalizing store with
  | nil => rfl
  | cons op ops ih => rw [List.foldl_cons, ih, outbox_applyPulled, List.map_cons, List.foldl_cons]

theorem append_rows {store store' : SubmissionStore} {op : SyncOp}
    (made : store.append op = some store') : store'.outbox.rows = store.outbox.rows ++ [op] := by
  obtain ⟨outbox, inserted, rfl⟩ := Option.map_eq_some_iff.mp made
  rw [outbox_moveStatus, outbox_updateSubmission]
  exact OpOutbox.insert_rows inserted

theorem append_spec {store after : SubmissionStore} {op : SyncOp} (ran : store.append op = some after) :
    after.outbox = store.outbox.insertOrIgnore op ∧
      ∀ id, (after.submissions.lookup id).map (·.status) =
        (store.submissions.lookup id).map fun row =>
          if op.submissionId = id then (statusSaid op.stored).getD row.status else row.status := by
  obtain ⟨outbox, inserted, rfl⟩ := Option.map_eq_some_iff.mp ran
  refine ⟨?_, fun id => ?_⟩
  · rw [outbox_moveStatus, outbox_updateSubmission, OpOutbox.insertOrIgnore, inserted]
    rfl
  · rw [lookup_moveStatus, lookup_updateSubmission]
    by_cases here : id = op.submissionId
    · rw [if_pos here, Option.map_map]
      rfl
    · rw [if_neg here]

end SubmissionStore

namespace StoreCall

theorem run_spec {store after : SubmissionStore} {call : StoreCall} (ran : call.run store = some after) :
    after.outbox = call.filed store ∧
      ∀ id, (after.submissions.lookup id).map (·.status) =
        if store.submissions.lookup id ≠ none ∨ call.opens id = true then
          some ((call.lastArrived store id).getD (store.statusOf id))
        else none := by
  cases call with
  | createDraft draft formId formVersion caseId now =>
    simp only [run, SubmissionStore.createDraft] at ran
    split at ran
    · cases ran
    · rename_i absent
      cases ran
      refine ⟨rfl, fun id => ?_⟩
      show ((AList.insert draft _ store.submissions).lookup id).map (·.status) =
        if _ ∨ (draft == id) = true then some (store.statusOf id) else none
      rw [Lib.lookup_insert_eq_ite]
      by_cases here : id = draft
      · subst here
        simp only [Bool.not_eq_true, Option.isSome_eq_false_iff, Option.isNone_iff_eq_none] at absent
        simp [SubmissionStore.statusOf, absent]
      · cases found : store.submissions.lookup id <;>
          simp [here, Ne.symm here, SubmissionStore.statusOf, found]
  | appendOp opId submissionId formId formVersion kind path valueJson now =>
    obtain ⟨outbox, rows⟩ := SubmissionStore.append_spec ran
    refine ⟨outbox, fun id => ?_⟩
    rw [rows]
    simp only [opens, lastArrived, arrivals, SubmissionStore.statusOf]
    generalize store.newOp opId submissionId formId formVersion kind path valueJson now = op
    by_cases here : op.submissionId = id
    · cases said : statusSaid op.stored <;> cases store.submissions.lookup id <;> simp [here, said]
    · cases store.submissions.lookup id <;> simp [here]
  | applyPullBatch ops nextCursor =>
    cases ran
    refine ⟨SubmissionStore.outbox_foldl_applyPulled store ops, fun id => ?_⟩
    obtain ⟨rows, status⟩ := SubmissionStore.lookup_foldl_applyPulled store ops id
    show ((ops.foldl SubmissionStore.applyPulled store).submissions.lookup id).map (·.status) = _
    have arrived : (applyPullBatch ops nextCursor).lastArrived store id =
        ((ops.filter (·.submissionId == id)).filterMap (statusSaid ·.stored)).getLast? := by
      rw [lastArrived, arrivals, List.filter_map, List.filterMap_map]
      rfl
    rw [rows, status, arrived]
    cases named : ops.any (·.submissionId == id) with
    | true => simp [opens, named]
    | false =>
      have none : ops.filter (·.submissionId == id) = [] := by
        simpa [List.filter_eq_nil_iff] using named
      cases found : store.submissions.lookup id <;>
        simp [opens, named, none, found, SubmissionStore.statusOf]

theorem statusIsFold_apply_iff {store : SubmissionStore} (call : StoreCall)
    (inv : store.StatusIsFold) : (call.apply store).StatusIsFold ↔ call.LastWordStands store := by
  unfold LastWordStands apply
  cases ran : call.run store with
  | none => exact iff_of_true inv fun refused => by cases refused
  | some after =>
    obtain ⟨outbox, rows⟩ := run_spec ran
    simp only [Option.isSome_some, Option.getD_some, true_implies]
    refine forall_congr' fun id => ?_
    have here := rows id
    rw [outbox]
    split at here
    · rename_i row
      obtain ⟨entry, found, status⟩ := Option.map_eq_some_iff.mp here
      simp only [found, Option.some_inj, forall_eq', row, true_implies, status]
      cases arrived : call.lastArrived store id with
      | some said => exact eq_comm
      | none =>
        have silent : ∀ op ∈ call.arrivals store, op.submissionId = id → statusSaid op.stored = none := by
          rw [lastArrived, List.getLast?_eq_none_iff, List.filterMap_eq_nil_iff] at arrived
          exact fun op member on => arrived op (List.mem_filter.mpr ⟨member, by simpa using on⟩)
        cases stood : store.submissions.lookup id with
        | none => simp [SubmissionStore.statusOf, stood, eq_comm]
        | some old =>
          refine iff_of_true ?_ fun none => by cases none
          rw [filed, netStatus_foldl silent, ← inv id old stood]
          simp [SubmissionStore.statusOf, stood]
    · rename_i absent
      have gone := Option.map_eq_none_iff.mp here
      simp [gone, absent]

end StoreCall

def SubmissionStore.fresh (deviceId actorId : String) : SubmissionStore where
  deviceId := deviceId
  actorId := actorId

/-- In a run of the store every state reached has the fold in its status column exactly when no call
of the run files a finalize or reopen out of turn. -/
theorem statusIsFold_reached_iff (deviceId actorId : String) (calls : List StoreCall) :
    (∀ first rest, calls = first ++ rest →
      (first.foldl StoreCall.apply (SubmissionStore.fresh deviceId actorId)).StatusIsFold) ↔
    ∀ first call rest, calls = first ++ call :: rest →
      call.LastWordStands (first.foldl StoreCall.apply (SubmissionStore.fresh deviceId actorId)) := by
  refine Lib.reached_iff (fun _ call inv => call.statusIsFold_apply_iff inv) ?_ calls
  intro id row found
  cases found

/-! ### Two handsets, one draft -/

def finalizedElsewhere : SyncOp where
  opId := "op_b5"
  submissionId := "s1"
  formId := "household"
  formVersion := 1
  kind := .finalize
  deviceId := "dev_2"
  actorId := "usr_1"
  counter := 5

def reopenedHere : List StoreCall :=
  [.createDraft "s1" "household" 1 none 0,
    .applyPullBatch [finalizedElsewhere] 1,
    .appendOp "op_a1" "s1" "household" 1 .reopen none none 1]

theorem reopenedHere_status_not_fold :
    ¬ ∀ first rest, reopenedHere = first ++ rest →
      (first.foldl StoreCall.apply (SubmissionStore.fresh "dev_1" "usr_1")).StatusIsFold := by
  intro holds
  have last := holds reopenedHere [] (by rw [List.append_nil])
  have row : (reopenedHere.foldl StoreCall.apply
      (SubmissionStore.fresh "dev_1" "usr_1")).submissions.lookup "s1" =
        some { formId := "household", formVersion := 1, createdAt := 0, updatedAt := 1 } := rfl
  have net : (reopenedHere.foldl StoreCall.apply
      (SubmissionStore.fresh "dev_1" "usr_1")).outbox.netStatus "s1" = .finalized := rfl
  cases (last "s1" _ row).trans net

end DataCollectionLab.Core
