import DataCollectionLab.Core.Answers
import DataCollectionLab.Sync.Soundness

/-!
The outbox as the push loop drives it: oldest pending ops first, one batch at a time, each op marked
by the verdict the server gives it. A rejected op stays in the outbox and is pending again at the next
pass; an op the server did not mention stays pending.
-/

namespace DataCollectionLab.Core

theorem defaultBatchSize_positive : 0 < 500 := by decide

/-- `SyncConfig`, as far as the push loop reads it. -/
structure SyncConfig where
  batchSize : Nat := 500
  positive : 0 < batchSize := by first | exact defaultBatchSize_positive | decide

def reasonText : Sync.RejectReason → String
  | .unknownFormVersion => "unknown_form_version"
  | .notAuthorized => "not_authorized"
  | .submissionClosed => "submission_closed"
  | .malformed => "malformed"
  | .unknownContentKey => "unknown_content_key"
  | .nonceReused => "nonce_reused"
  | .notAssigned => "not_assigned"

structure RejectedPush where
  opId : String
  reason : String

namespace SyncOp

/-- `markOpSynced`, on the row it names. -/
def markSynced (opId : String) (op : SyncOp) : SyncOp :=
  if op.opId = opId then { op with synced := .acknowledged, rejectReason := none } else op

/-- `markOpRejected`. -/
def markRejected (rejected : RejectedPush) (op : SyncOp) : SyncOp :=
  if op.opId = rejected.opId then
    { op with synced := .rejected, rejectReason := some rejected.reason }
  else op

/-- `requeueRejectedOps`. -/
def requeue (op : SyncOp) : SyncOp :=
  if op.synced = .rejected then { op with synced := .pending } else op

/-- `recordOpCiphertext`. -/
def recordCiphertext (opId : String) (sealing : Bytes × String × Bytes) (op : SyncOp) : SyncOp :=
  if op.opId = opId then
    { op with valueCiphertext := some sealing.1, contentKeyId := some sealing.2.1, nonce := some sealing.2.2 }
  else op

def SameOp (a b : SyncOp) : Prop :=
  a.opId = b.opId ∧ a.slot = b.slot ∧ a.submissionId = b.submissionId ∧ a.kind = b.kind ∧
    a.path = b.path ∧ a.valueJson = b.valueJson

theorem SameOp.refl (op : SyncOp) : op.SameOp op := ⟨rfl, rfl, rfl, rfl, rfl, rfl⟩

theorem SameOp.trans {a b c : SyncOp} (one : a.SameOp b) (two : b.SameOp c) : a.SameOp c :=
  ⟨one.1.trans two.1, one.2.1.trans two.2.1, one.2.2.1.trans two.2.2.1,
    one.2.2.2.1.trans two.2.2.2.1, one.2.2.2.2.1.trans two.2.2.2.2.1,
    one.2.2.2.2.2.trans two.2.2.2.2.2⟩

theorem SameOp.symm {a b : SyncOp} (same : a.SameOp b) : b.SameOp a :=
  ⟨same.1.symm, same.2.1.symm, same.2.2.1.symm, same.2.2.2.1.symm, same.2.2.2.2.1.symm,
    same.2.2.2.2.2.symm⟩

theorem markSynced_same (opId : String) (op : SyncOp) : (op.markSynced opId).SameOp op := by
  unfold markSynced
  split <;> exact SameOp.refl _

theorem markRejected_same (rejected : RejectedPush) (op : SyncOp) :
    (op.markRejected rejected).SameOp op := by
  unfold markRejected
  split <;> exact SameOp.refl _

theorem requeue_same (op : SyncOp) : op.requeue.SameOp op := by
  unfold requeue
  split <;> exact SameOp.refl _

theorem recordCiphertext_same (opId : String) (sealing : Bytes × String × Bytes) (op : SyncOp) :
    (op.recordCiphertext opId sealing).SameOp op := by
  unfold recordCiphertext
  split <;> exact SameOp.refl _

end SyncOp

def OpOutbox.amend (outbox : OpOutbox) (change : SyncOp → SyncOp)
    (same : ∀ op, (change op).SameOp op) : OpOutbox :=
  outbox.update change fun op => ⟨(same op).1, (same op).2.1⟩

namespace SubmissionStore

variable (store : SubmissionStore)

/-- `SELECT * FROM op_outbox WHERE synced = 0 ORDER BY counter ASC`. -/
def pendingRows : List SyncOp :=
  (store.outbox.rows.filter (·.synced = .pending)).insertionSort fun a b => a.counter ≤ b.counter

def pendingOps (limit : Nat) : List SyncOp :=
  (store.pendingRows.take limit).map fun op => { op with caseId := store.caseIdFor op.submissionId }

/-- `countPendingOps`: everything the server has not accepted. -/
def pendingCount : Nat := (store.outbox.rows.filter (·.synced ≠ .acknowledged)).length

def requeueRejectedOps : SubmissionStore :=
  { store with outbox := store.outbox.amend SyncOp.requeue SyncOp.requeue_same }

def markOpSynced (opId : String) : SubmissionStore :=
  { store with outbox := store.outbox.amend (SyncOp.markSynced opId) (SyncOp.markSynced_same opId) }

def markOpRejected (rejected : RejectedPush) : SubmissionStore :=
  { store with
    outbox := store.outbox.amend (SyncOp.markRejected rejected) (SyncOp.markRejected_same rejected) }

def markPushResult (accepted : List String) (rejected : List RejectedPush) : SubmissionStore :=
  rejected.foldl markOpRejected (accepted.foldl markOpSynced store)

def recordOpCiphertext (opId : String) (sealing : Bytes × String × Bytes) : SubmissionStore :=
  { store with
    outbox := store.outbox.amend (SyncOp.recordCiphertext opId sealing)
      (SyncOp.recordCiphertext_same opId sealing) }

end SubmissionStore

/-! ### One round of the push loop -/

/-- `response.accepted`, as far as it is about this batch. -/
def acceptedOf (batch : List SyncOp) (response : Sync.PushResponse) : List String :=
  response.accepted.filter fun id => (batch.map (·.opId)).contains id

def rejectedOf (batch : List SyncOp) (response : Sync.PushResponse) : List RejectedPush :=
  response.rejected.filterMap fun entry =>
    match entry.opId with
    | some id => if (batch.map (·.opId)).contains id then some ⟨id, reasonText entry.reason⟩ else none
    | none => none

def SubmissionStore.takeVerdicts (store : SubmissionStore) (batch : List SyncOp)
    (response : Sync.PushResponse) : SubmissionStore :=
  store.markPushResult (acceptedOf batch response) (rejectedOf batch response)

def noProgress (batch : List SyncOp) (response : Sync.PushResponse) : Bool :=
  (acceptedOf batch response).isEmpty && (rejectedOf batch response).isEmpty

inductive LoopEnd where
  | drained | noProgress
  deriving DecidableEq, Repr

/-- The push loop of one pass against a sequence of responses; `none` is more rounds than `fuel`. -/
def pushLoop (limit : Nat) :
    (fuel : Nat) → SubmissionStore → (Nat → Sync.PushResponse) → Option (LoopEnd × SubmissionStore)
  | 0, _, _ => none
  | fuel + 1, store, verdicts =>
    let batch := store.pendingOps limit
    if batch.isEmpty then some (.drained, store)
    else if noProgress batch (verdicts 0) then
      some (.noProgress, store.takeVerdicts batch (verdicts 0))
    else pushLoop limit fuel (store.takeVerdicts batch (verdicts 0)) fun n => verdicts (n + 1)

/-! ### What the marks leave -/

def SyncOp.marked (accepted : List String) (rejected : List RejectedPush) (op : SyncOp) : SyncOp :=
  rejected.foldl (fun op entry => op.markRejected entry)
    (accepted.foldl (fun op opId => op.markSynced opId) op)

namespace SyncOp

theorem foldl_markSynced (accepted : List String) (op : SyncOp) :
    (accepted.foldl (fun op opId => op.markSynced opId) op).SameOp op ∧
      (accepted.foldl (fun op opId => op.markSynced opId) op).synced =
        if op.opId ∈ accepted then .acknowledged else op.synced := by
  induction accepted generalizing op with
  | nil => exact ⟨SameOp.refl op, by simp⟩
  | cons id accepted ih =>
    obtain ⟨same, synced⟩ := ih (op.markSynced id)
    have first := markSynced_same id op
    refine ⟨same.trans first, ?_⟩
    rw [List.foldl_cons, synced, first.1]
    by_cases here : op.opId = id <;> simp [markSynced, here]

theorem foldl_markRejected (rejected : List RejectedPush) (op : SyncOp) :
    (rejected.foldl (fun op entry => op.markRejected entry) op).SameOp op ∧
      (rejected.foldl (fun op entry => op.markRejected entry) op).synced =
        if op.opId ∈ rejected.map (·.opId) then .rejected else op.synced := by
  induction rejected generalizing op with
  | nil => exact ⟨SameOp.refl op, by simp⟩
  | cons entry rejected ih =>
    obtain ⟨same, synced⟩ := ih (op.markRejected entry)
    have first := markRejected_same entry op
    refine ⟨same.trans first, ?_⟩
    rw [List.foldl_cons, synced, first.1]
    by_cases here : op.opId = entry.opId <;> simp [markRejected, here]

theorem marked_same (accepted : List String) (rejected : List RejectedPush) (op : SyncOp) :
    (op.marked accepted rejected).SameOp op :=
  (foldl_markRejected _ _).1.trans (foldl_markSynced _ _).1

theorem marked_synced (accepted : List String) (rejected : List RejectedPush) (op : SyncOp) :
    (op.marked accepted rejected).synced =
      if op.opId ∈ rejected.map (·.opId) then .rejected
      else if op.opId ∈ accepted then .acknowledged else op.synced := by
  rw [marked, (foldl_markRejected _ _).2, (foldl_markSynced _ _).1.1, (foldl_markSynced _ _).2]

end SyncOp

namespace SubmissionStore

theorem markPushResult_rows (store : SubmissionStore) (accepted : List String)
    (rejected : List RejectedPush) :
    (store.markPushResult accepted rejected).outbox.rows =
      store.outbox.rows.map (SyncOp.marked accepted rejected) := by
  have synced : ∀ (accepted : List String) (store : SubmissionStore),
      (accepted.foldl markOpSynced store).outbox.rows =
        store.outbox.rows.map fun op => accepted.foldl (fun op opId => op.markSynced opId) op := by
    intro accepted
    induction accepted with
    | nil => simp
    | cons id accepted ih =>
      intro store
      rw [List.foldl_cons, ih]
      exact List.map_map
  have refused : ∀ (rejected : List RejectedPush) (store : SubmissionStore),
      (rejected.foldl markOpRejected store).outbox.rows =
        store.outbox.rows.map fun op => rejected.foldl (fun op entry => op.markRejected entry) op := by
    intro rejected
    induction rejected with
    | nil => simp
    | cons entry rejected ih =>
      intro store
      rw [List.foldl_cons, ih]
      exact List.map_map
  rw [markPushResult, refused, synced, List.map_map]
  rfl

def pending (store : SubmissionStore) : Nat := store.outbox.rows.countP (·.synced = .pending)

theorem mem_pendingRows {store : SubmissionStore} {op : SyncOp} :
    op ∈ store.pendingRows ↔ op ∈ store.outbox.rows ∧ op.synced = .pending := by
  unfold pendingRows
  rw [List.mem_insertionSort, List.mem_filter, decide_eq_true_iff]

theorem exists_of_mem_pendingOps {store : SubmissionStore} {limit : Nat} {op : SyncOp}
    (member : op ∈ store.pendingOps limit) :
    ∃ row ∈ store.outbox.rows, row.synced = .pending ∧ op.SameOp row := by
  obtain ⟨row, taken, rfl⟩ := List.mem_map.mp member
  obtain ⟨stored, pending⟩ := mem_pendingRows.mp (List.mem_of_mem_take taken)
  exact ⟨row, stored, pending, SyncOp.SameOp.refl row⟩

theorem pendingOps_eq_nil_iff {store : SubmissionStore} {limit : Nat} (positive : 0 < limit) :
    store.pendingOps limit = [] ↔ ∀ op ∈ store.outbox.rows, op.synced ≠ .pending := by
  rw [pendingOps, List.map_eq_nil_iff, List.take_eq_nil_iff]
  constructor
  · intro empty op stored pending
    have present := mem_pendingRows.mpr ⟨stored, pending⟩
    rcases empty with zero | empty
    · omega
    · rw [empty] at present
      cases present
  · intro none
    refine Or.inr (List.eq_nil_iff_forall_not_mem.mpr fun op member => ?_)
    obtain ⟨stored, pending⟩ := mem_pendingRows.mp member
    exact none op stored pending

theorem pendingOps_unique (store : SubmissionStore) (limit : Nat) :
    (store.pendingOps limit).Pairwise fun a b => ¬ a.Clash b := by
  have sorted : store.pendingRows.Pairwise fun a b => ¬ a.Clash b := by
    have perm := List.perm_insertionSort (fun a b : SyncOp => a.counter ≤ b.counter)
      (store.outbox.rows.filter (·.synced = .pending))
    refine perm.symm.pairwise (store.outbox.unique.filter _) ?_
    exact fun apart clash => apart (clash.imp Eq.symm Eq.symm)
  exact List.pairwise_map.mpr (sorted.sublist (List.take_sublist _ _))

theorem markPushResult_pending_lt {store : SubmissionStore} {accepted : List String}
    {rejected : List RejectedPush} {row : SyncOp} (stored : row ∈ store.outbox.rows)
    (pending : row.synced = .pending)
    (resolved : row.opId ∈ accepted ∨ row.opId ∈ rejected.map (·.opId)) :
    (store.markPushResult accepted rejected).pending < store.pending := by
  unfold SubmissionStore.pending
  rw [markPushResult_rows, List.countP_map]
  refine Lib.countP_lt_countP (fun op _ still => ?_) stored ?_ (by simpa using pending)
  · simp only [Function.comp_apply, SyncOp.marked_synced, decide_eq_true_iff] at still ⊢
    split at still
    · cases still
    · split at still
      · cases still
      · exact still
  · simp only [Function.comp_apply, SyncOp.marked_synced, decide_eq_false_iff_not]
    split
    · exact fun same => by cases same
    · rename_i kept
      rw [if_pos (resolved.resolve_right kept)]
      exact fun same => by cases same

end SubmissionStore

theorem mem_batch_of_accepted {batch : List SyncOp} {response : Sync.PushResponse} {id : String}
    (accepted : id ∈ acceptedOf batch response) : id ∈ batch.map (·.opId) :=
  List.contains_iff_mem.mp (List.mem_filter.mp accepted).2

theorem mem_batch_of_rejected {batch : List SyncOp} {response : Sync.PushResponse} {id : String}
    (rejected : id ∈ (rejectedOf batch response).map (·.opId)) : id ∈ batch.map (·.opId) := by
  obtain ⟨entry, member, rfl⟩ := List.mem_map.mp rejected
  obtain ⟨given, -, named⟩ := List.mem_filterMap.mp member
  cases opId : given.opId with
  | none => rw [opId] at named; cases named
  | some id =>
    rw [opId] at named
    simp only at named
    split at named
    · rename_i inBatch
      cases named
      exact List.contains_iff_mem.mp inBatch
    · cases named

theorem exists_resolved {batch : List SyncOp} {response : Sync.PushResponse}
    (progress : noProgress batch response = false) :
    ∃ op ∈ batch, op.opId ∈ acceptedOf batch response ∨
      op.opId ∈ (rejectedOf batch response).map (·.opId) := by
  rw [noProgress, Bool.and_eq_false_iff] at progress
  rcases progress with some | some
  · obtain ⟨id, member⟩ := List.exists_mem_of_ne_nil _ (List.isEmpty_eq_false_iff.mp some)
    obtain ⟨op, present, rfl⟩ := List.mem_map.mp (mem_batch_of_accepted member)
    exact ⟨op, present, Or.inl member⟩
  · obtain ⟨entry, member⟩ := List.exists_mem_of_ne_nil _ (List.isEmpty_eq_false_iff.mp some)
    have listed : entry.opId ∈ (rejectedOf batch response).map (·.opId) := List.mem_map_of_mem member
    obtain ⟨op, present, same⟩ := List.mem_map.mp (mem_batch_of_rejected listed)
    exact ⟨op, present, Or.inr (same ▸ listed)⟩

theorem takeVerdicts_pending_lt {store : SubmissionStore} {batch : List SyncOp}
    {response : Sync.PushResponse}
    (offered : ∀ op ∈ batch, ∃ row ∈ store.outbox.rows, row.synced = .pending ∧ op.SameOp row)
    (progress : noProgress batch response = false) :
    (store.takeVerdicts batch response).pending < store.pending := by
  obtain ⟨op, member, resolved⟩ := exists_resolved progress
  obtain ⟨row, stored, pending, same⟩ := offered op member
  rw [same.1] at resolved
  exact SubmissionStore.markPushResult_pending_lt stored pending resolved

theorem pushLoop_isSome (limit : Nat) {fuel : Nat} {store : SubmissionStore}
    (enough : store.pending < fuel) (verdicts : Nat → Sync.PushResponse) :
    (pushLoop limit fuel store verdicts).isSome = true := by
  induction fuel generalizing store verdicts with
  | zero => omega
  | succ fuel ih =>
    rw [pushLoop]
    split
    · rfl
    · split
      · rfl
      · rename_i progress
        apply ih
        have less := takeVerdicts_pending_lt
          (fun op member => SubmissionStore.exists_of_mem_pendingOps member)
          (Bool.eq_false_iff.mpr progress)
        omega

end DataCollectionLab.Core
