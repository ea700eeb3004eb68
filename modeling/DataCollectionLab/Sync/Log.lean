import DataCollectionLab.Sync.Effects

/-!
The op log in conflict order. Which rows it has decides its fold, and the last finalize or reopen
decides what the fold says of the status.
-/

namespace DataCollectionLab.Sync

instance : IsTrans SubmissionOp OpLe where
  trans a b c := by
    rintro (less | ⟨equal, le⟩) (less' | ⟨equal', le'⟩)
    · exact Or.inl (by omega)
    · exact Or.inl (by omega)
    · exact Or.inl (by omega)
    · exact Or.inr ⟨equal.trans equal', String.le_trans le le'⟩

instance : Std.Total OpLe where
  total a b := by
    rcases Nat.lt_trichotomy a.counter b.counter with less | equal | more
    · exact Or.inl (Or.inl less)
    · exact (String.le_total a.deviceId b.deviceId).imp (fun le => Or.inr ⟨equal, le⟩)
        fun le => Or.inr ⟨equal.symm, le⟩
    · exact Or.inr (Or.inl more)

theorem slot_of_opLe {a b : SubmissionOp} (le : OpLe a b) (ge : OpLe b a) : a.slot = b.slot := by
  rcases le with less | ⟨counter, le⟩
  · rcases ge with more | ⟨counter, -⟩ <;> omega
  · rcases ge with more | ⟨-, ge⟩
    · omega
    · exact Prod.ext (String.le_antisymm le ge) counter

theorem OpLog.eq_of_clash (log : OpLog) {a b : SubmissionOp} (left : a ∈ log.rows)
    (right : b ∈ log.rows) (clash : a.Clash b) : a = b := by
  have : Std.Symm fun a b : SubmissionOp => ¬ a.Clash b := by
    refine ⟨fun a b apart same => ?_⟩
    apply apart
    rcases same with id | ⟨e, one, two⟩ | slot
    · exact Or.inl id.symm
    · exact Or.inr (Or.inl ⟨e, two, one⟩)
    · exact Or.inr (Or.inr slot.symm)
  by_contra differ
  exact log.unique.forall left right differ clash

theorem OpLog.cores_nodup (log : OpLog) : (log.rows.map (·.core)).Nodup := by
  refine List.pairwise_map.mpr (log.unique.imp fun {a b} apart same => apart ?_)
  have ids := congrArg SubmissionOp.id same
  exact Or.inl ids

theorem Db.fold_of_cores {db db' : Db}
    (same : ∀ row, row ∈ db.ops.rows.map (·.core) ↔ row ∈ db'.ops.rows.map (·.core)) (id : String) :
    { db.fold id with opHighWater := 0 } = { db'.fold id with opHighWater := 0 } := by
  have stripped : ∀ d : Db, { d.fold id with opHighWater := 0 } =
      foldOps (orderedLog (d.ops.rows.map (·.core)) id) := by
    intro d
    rw [orderedLog_stripped SubmissionOp.core (fun _ => rfl) (fun _ => rfl),
      foldOps_stripped SubmissionOp.core (fun _ _ => rfl) (fun _ => rfl)]
    rfl
  rw [stripped, stripped]
  unfold orderedLog
  congr 1
  refine Lib.insertionSort_eq_of_mem_iff OpLe (db.ops.cores_nodup.filter _)
    (db'.ops.cores_nodup.filter _) ?_ ?_
  · intro a b left right le ge
    have present := (List.mem_filter.mp left).1
    have present' := (same b).mpr (List.mem_filter.mp right).1
    obtain ⟨r, stored, rfl⟩ := List.mem_map.mp present
    obtain ⟨r', stored', rfl⟩ := List.mem_map.mp present'
    have slots : r.slot = r'.slot := slot_of_opLe le ge
    rw [db.ops.eq_of_clash stored stored' (Or.inr (Or.inr slots))]
  · intro row
    rw [List.mem_filter, List.mem_filter, same]

theorem mem_orderedLog {rows : List SubmissionOp} {id : String} {row : SubmissionOp} :
    row ∈ orderedLog rows id ↔ row ∈ rows ∧ row.submissionId = id := by
  unfold orderedLog
  rw [List.mem_insertionSort, List.mem_filter, beq_iff_eq]

theorem Db.fold_status_said {db : Db} {id : String} {status : Status}
    (net : (db.fold id).status = some status) :
    ∃ row ∈ db.ops.rows, row.submissionId = id ∧ statusSaid row = some status ∧
      ∀ row' ∈ db.ops.rows, row'.submissionId = id → (statusSaid row').isSome = true →
        OpLe row' row := by
  unfold Db.fold at net
  rw [foldOps_status] at net
  obtain ⟨row, member, said, last⟩ := Lib.getLast?_filterMap_sorted
    (List.pairwise_insertionSort OpLe _) (fun row => Or.inr ⟨rfl, String.le_refl _⟩) net
  obtain ⟨stored, on⟩ := mem_orderedLog.mp member
  exact ⟨row, stored, on, said, fun row' stored' on' =>
    last row' (mem_orderedLog.mpr ⟨stored', on'⟩)⟩

theorem Db.fold_status_isSome {db : Db} {row : SubmissionOp} (stored : row ∈ db.ops.rows)
    (said : (statusSaid row).isSome = true) : (db.fold row.submissionId).status.isSome = true := by
  unfold Db.fold
  rw [foldOps_status, List.getLast?_isSome]
  obtain ⟨status, said⟩ := Option.isSome_iff_exists.mp said
  exact List.ne_nil_of_mem
    (List.mem_filterMap.mpr ⟨row, mem_orderedLog.mpr ⟨stored, rfl⟩, said⟩)

theorem Db.fold_status_of_last {db : Db} {row : SubmissionOp} (stored : row ∈ db.ops.rows)
    (said : (statusSaid row).isSome = true)
    (last : ∀ row' ∈ db.ops.rows, row'.submissionId = row.submissionId →
      (statusSaid row').isSome = true → OpLe row' row) :
    (db.fold row.submissionId).status = statusSaid row := by
  obtain ⟨status, net⟩ := Option.isSome_iff_exists.mp (Db.fold_status_isSome stored said)
  obtain ⟨top, stored', on, said', above⟩ := Db.fold_status_said net
  have slots := slot_of_opLe (above row stored rfl said)
    (last top stored' on (by rw [said']; rfl))
  obtain rfl := db.ops.eq_of_clash stored stored' (Or.inr (Or.inr slots))
  rw [net, said']

end DataCollectionLab.Sync
