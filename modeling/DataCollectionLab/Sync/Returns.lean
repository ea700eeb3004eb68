import DataCollectionLab.Sync.Effects

/-!
When a call without content keys returns, said of the database it finds: no submission it opens is
there already, and every row it goes on to write is one the session may write.
-/

namespace DataCollectionLab.Sync

namespace Call

variable (c : Call)

def foldAfter (id : String) : Fold := foldOps (orderedLog (c.db.ops.rows ++ c.stored) id)

/-- No statement of the call meets a policy or a key that refuses it, said of the database the
call finds. -/
structure Unobstructed : Prop where
  opens : ∀ op ∈ c.ops, ∀ row, c.judgement op = .opens row → Openable c.db op.submissionId row
  moves : ∀ op ∈ c.ops, c.Stores op → ∀ row, c.db.submissions.lookup op.submissionId = some row →
    applyFolded row (c.foldAfter op.submissionId) = row ∨ c.pol.writesSubmission row.scope = true
  devices : ∀ op ∈ c.ops, c.Stores op → DeviceWritable c.pol c.db op.deviceId
  media : ∀ reference ∈ mediaReferences c.stored, MediaShown c.pol c.db reference.1

theorem opensFree_iff :
    c.OpensFree c.ops ↔
      ∀ op ∈ c.ops, ∀ row, c.judgement op = .opens row → Openable c.db op.submissionId row := by
  have cases : ∀ ops, (c.dbAfter ops).cases = c.db.cases := by
    intro ops
    rw [c.dbAfter_frame]
  constructor
  · intro free op member row opens
    obtain ⟨before, after, split⟩ := List.append_of_mem member
    obtain ⟨absent, known⟩ := free op member row opens
    rw [cases] at known
    rw [c.earlier_eq split] at absent
    exact ⟨c.start_none split free absent, known⟩
  · intro openable op member row opens
    obtain ⟨before, after, split⟩ := List.append_of_mem member
    obtain ⟨absent, known⟩ := openable op member row opens
    rw [Openable, cases]
    refine ⟨?_, known⟩
    rw [c.earlier_eq split]
    obtain ⟨-, _, _, _, _, -, -, hidden, -⟩ := c.judge_opens_iff.mp ((c.judge_here split).trans opens)
    cases present : (c.dbAfter before).submissions.lookup op.submissionId with
    | none => rfl
    | some old =>
      -- An earlier op opened it, so the session is shown it and this op joins it.
      rcases c.opened_of_lookup split present with start | ⟨o, earlier, -, opened⟩
      · rw [absent] at start
        cases start
      · have inBatch : o ∈ c.ops := by
          rw [split]
          exact List.mem_append_left _ earlier
        obtain ⟨-, _, _, _, _, -, -, -, -, admitted, -⟩ := c.judge_opens_iff.mp opened
        rw [Policies.submission, present, Option.filter_some,
          if_pos (Bool.and_eq_true_iff.mp admitted).2] at hidden
        cases hidden

theorem moved_inserted (keyed : Db) (id : String) (submission : Submission) :
    (c.inserted keyed).moved id submission = applyFolded submission (c.foldAfter id) := by
  refine applyFolded_congr submission (foldOps_congr id ?_)
  show c.logged.log.rows.map (·.unnumbered) = _
  rw [c.logged_unnumbered, List.map_append]
  congr 1
  unfold stored
  rw [List.map_map]
  rfl

section Stored

variable {c} (free : c.OpensFree c.ops) {keyed : Db}
  (flushed : c.keys.added.foldlM insertKey (c.dbAfter c.ops) = .ok keyed)
include free flushed

theorem lookup_inserted {id : String} {row : Submission}
    (found : c.db.submissions.lookup id = some row) :
    (c.inserted keyed).submissions.lookup id = some row := by
  have split : c.ops = [] ++ (c.ops ++ []) := by simp
  rw [c.inserted_frame flushed]
  exact c.lookup_dbAfter split free found

theorem shows_inserted_iff {id : String} {row : Submission}
    (found : c.db.submissions.lookup id = some row) :
    c.pol.shows (c.inserted keyed) id = c.pol.shows c.db id := by
  rw [Policies.shows, Policies.shows, Policies.submission, Policies.submission, found,
    lookup_inserted free flushed found]

theorem mediaShown_inserted_iff (owned : c.db.MediaOwned) (id : String) :
    MediaShown c.pol (c.inserted keyed) id ↔ MediaShown c.pol c.db id := by
  have table : (c.inserted keyed).media = c.db.media := by rw [c.inserted_frame flushed]
  unfold MediaShown
  rw [table]
  refine forall_congr' fun m => imp_congr_right fun present => ?_
  obtain ⟨row, found⟩ := Option.isSome_iff_exists.mp (owned id m present)
  rw [shows_inserted_iff free flushed found]

theorem refoldable_inserted_iff {op : SyncOp} (member : op ∈ c.ops) (stores : c.Stores op) :
    Refoldable c.pol (c.inserted keyed) op.submissionId ↔
      ∀ row, c.db.submissions.lookup op.submissionId = some row →
        applyFolded row (c.foldAfter op.submissionId) = row ∨
          c.pol.writesSubmission row.scope = true := by
  have table : (c.inserted keyed).submissions = (c.dbAfter c.ops).submissions := by
    rw [c.inserted_frame flushed]
  constructor
  · intro refoldable row found
    have shown := c.shown_of_admits free member stores.1.1.1.1
    have present := lookup_inserted free flushed found
    rw [table] at present
    rw [← c.moved_inserted keyed]
    refine refoldable row ?_
    rw [Policies.shows, Policies.submission, present, Option.isSome_filter] at shown
    rw [Policies.submission, table, present]
    exact Option.filter_eq_some_iff.mpr ⟨rfl, shown⟩
  · intro moves submission visible
    rw [c.moved_inserted]
    have present := (Option.filter_eq_some_iff.mp visible).1
    rw [table] at present
    rcases c.opened_of_lookup (List.append_nil _).symm present with start | ⟨o, -, -, opened⟩
    · exact moves submission start
    · obtain ⟨-, _, _, _, _, -, -, -, -, admitted, -⟩ := c.judge_opens_iff.mp opened
      exact Or.inr (Bool.and_eq_true_iff.mp admitted).1

end Stored

theorem forall_stored {P : SubmissionOp → Prop} :
    (∀ row ∈ c.stored, P row) ↔ ∀ op ∈ c.ops, c.Stores op → P (op.row c.lastAttributed) := by
  constructor
  · intro all op member stores
    exact all _ (List.mem_map_of_mem (List.mem_filter.mpr ⟨member, decide_eq_true stores⟩))
  · intro all row member
    obtain ⟨op, listed, rfl⟩ := List.mem_map.mp member
    obtain ⟨inBatch, stores⟩ := List.mem_filter.mp listed
    exact all op inBatch (of_decide_eq_true stores)

theorem returns_iff (keyless : c.req.keys = []) (owned : c.db.MediaOwned)
    (own : DeviceWritable c.pol c.db c.req.deviceId) :
    (∃ response final, push c.pol c.db c.req = .ok (response, final)) ↔ c.Unobstructed := by
  have writable : ∀ keyed, c.keys.added.foldlM insertKey (c.dbAfter c.ops) = .ok keyed → ∀ id,
      DeviceWritable c.pol (c.inserted keyed) id ↔ DeviceWritable c.pol c.db id := by
    intro keyed flushed id
    refine deviceWritable_congr c.pol ?_
    rw [c.inserted_frame flushed]
  constructor
  · rintro ⟨response, final, returned⟩
    obtain ⟨free, keyed, flushed, storable, -⟩ := c.push_returns_iff.mp returned
    refine ⟨c.opensFree_iff.mp free, ?_, ?_, ?_⟩
    · intro op member stores
      exact (refoldable_inserted_iff free flushed member stores).mp
        (c.forall_stored.mp storable.moves op member stores)
    · intro op member stores
      exact (writable keyed flushed _).mp (c.forall_stored.mp storable.devices op member stores)
    · intro reference member
      exact (mediaShown_inserted_iff free flushed owned _).mp (storable.media reference member)
  · intro clear
    have free := c.opensFree_iff.mpr clear.opens
    have flushed := c.flushed_of_keyless keyless
    refine ⟨_, _, c.push_returns_iff.mpr ⟨free, _, flushed, ⟨?_, ?_, ?_, ?_⟩, rfl, rfl⟩⟩
    · intro reference member
      exact (mediaShown_inserted_iff free flushed owned _).mpr (clear.media reference member)
    · refine c.forall_stored.mpr fun op member stores => ?_
      exact (refoldable_inserted_iff free flushed member stores).mpr (clear.moves op member stores)
    · exact fun _ => (writable _ flushed _).mpr own
    · refine c.forall_stored.mpr fun op member stores => ?_
      exact (writable _ flushed _).mpr (clear.devices op member stores)

end Call

end DataCollectionLab.Sync
