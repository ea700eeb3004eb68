import DataCollectionLab.Sync.Soundness

/-!
Batches of plaintext ops in a session no policy restricts. The key and nonce gates are open and
every row of the log is shown, so an op is stored exactly when the admission loop lets it in.
-/

namespace DataCollectionLab.Sync

theorem unrestricted_submission (db : Db) (id : String) :
    Policies.unrestricted.submission db id = db.submissions.lookup id := by
  unfold Policies.submission
  cases db.submissions.lookup id <;> rfl

theorem unrestricted_device (db : Db) (id : String) :
    Policies.unrestricted.device db id = db.devices.lookup id := by
  unfold Policies.device
  cases db.devices.lookup id <;> rfl

/-- The foreign key of `submission_op`. -/
def Db.Owned (db : Db) : Prop :=
  ∀ row ∈ db.ops.rows, (db.submissions.lookup row.submissionId).isSome = true

/-- A call without keys whose well-formed ops are plaintext and claim distinct slots. -/
structure PlainCall (c : Call) : Prop where
  free : c.pol = .unrestricted
  keyless : c.req.keys = []
  plain : ∀ op ∈ c.ops, op.envelope = none
  slots : ∀ a ∈ c.ops, ∀ b ∈ c.ops, a.slot = b.slot → a = b
  owned : c.db.Owned

namespace PlainCall

variable {c : Call} (plain : PlainCall c)
include plain

theorem submission (db : Db) (id : String) : c.pol.submission db id = db.submissions.lookup id := by
  rw [plain.free, unrestricted_submission]

theorem device (db : Db) (id : String) : c.pol.device db id = db.devices.lookup id := by
  rw [plain.free, unrestricted_device]

theorem shows (db : Db) (id : String) : c.pol.shows db id = (db.submissions.lookup id).isSome := by
  rw [Policies.shows, plain.submission]

theorem admitted (row : Submission) :
    (c.pol.writesSubmission row.scope && c.pol.seesSubmission row.scope) = true := by
  rw [plain.free]
  rfl

theorem replayed_iff (op : SyncOp) : c.Replayed op ↔ c.db.Holds op := by
  constructor
  · rintro ⟨row, member, -, same⟩
    exact ⟨row, member, same⟩
  · rintro ⟨row, member, same⟩
    refine ⟨row, member, ?_, same⟩
    rw [plain.shows]
    exact plain.owned row member

theorem passes_iff {op : SyncOp} (member : op ∈ c.ops) :
    c.Passes op ↔ (c.judgement op).admits = true := by
  have bare := plain.plain op member
  have keyed : c.Keyed op := fun e named => by simp [bare] at named
  have untaken : ¬ c.NonceTaken op := fun ⟨e, named, _⟩ => by simp [bare] at named
  exact ⟨fun passes => passes.1.1, fun admits => ⟨⟨admits, keyed⟩, untaken⟩⟩

theorem leads_iff {op : SyncOp} (member : op ∈ c.ops) :
    c.Leads op ↔ (c.judgement op).admits = true := by
  rw [← plain.passes_iff member]
  refine ⟨fun leads => leads.1, fun passes => ⟨passes, ?_⟩⟩
  intro o before _ same
  obtain ⟨front, back, split⟩ := List.append_of_mem member
  obtain rfl := plain.slots o (c.earlier_subset member before) op member same
  rw [c.earlier_eq split] at before
  have distinct := c.ops_nodup
  rw [split, List.map_append, List.nodup_append] at distinct
  exact distinct.2.2 _ (List.mem_map_of_mem before) _ (by simp) rfl

theorem indexed_eq_none {op : SyncOp} (member : op ∈ c.ops)
    (admits : (c.judgement op).admits = true) : c.indexed op = none := by
  have fresh := c.fresh_of_admits admits
  rw [plain.replayed_iff] at fresh
  refine OpLog.violation_eq_none_iff.mpr ?_
  rintro row stored (same | ⟨e, -, named⟩ | same)
  · exact fresh ⟨row, stored, Or.inl same⟩
  · rw [SyncOp.row_envelope, plain.plain op member] at named
    cases named
  · exact fresh ⟨row, stored, Or.inr same⟩

theorem stores_iff {op : SyncOp} (member : op ∈ c.ops) :
    c.Stores op ↔ (c.judgement op).admits = true := by
  unfold Call.Stores
  rw [plain.leads_iff member]
  exact ⟨fun stores => stores.1, fun admits => ⟨admits, plain.indexed_eq_none member admits⟩⟩

theorem returns_iff {response : PushResponse} {final : Db} :
    push c.pol c.db c.req = .ok (response, final) ↔
      c.OpensFree c.ops ∧ c.Storable (c.inserted (c.dbAfter c.ops)) c.stored ∧
        c.settle (c.inserted (c.dbAfter c.ops)) c.stored = final ∧
        response = ⟨c.accepted, c.rejected, serverCursor c.pol final⟩ := by
  have unkeyed := c.flushed_of_keyless plain.keyless
  rw [c.push_returns_iff]
  refine and_congr_right fun _ => ⟨?_, ?_⟩
  · rintro ⟨keyed, flushed, rest⟩
    obtain rfl := Except.ok.inj (unkeyed.symm.trans flushed)
    exact rest
  · exact fun rest => ⟨_, unkeyed, rest⟩

end PlainCall

end DataCollectionLab.Sync
