import DataCollectionLab.Sync.Outcome

/-!
What `store` does with the rows the indexes took, said without errors: each of its stages is a
fold of guarded updates, and the guards can be read off the database the stage finds.
-/

namespace DataCollectionLab.Sync

variable (pol : Policies)

def MediaShown (db : Db) (mediaId : String) : Prop :=
  ∀ row, db.media.lookup mediaId = some row → pol.shows db row.submissionId = true

def noteReference (db : Db) (reference : String × String × String × String) : Db :=
  let (mediaId, submissionId, opId, path) := reference
  match db.media.lookup mediaId with
  | none => { db with media := db.media.insert mediaId ⟨submissionId, some opId, some path⟩ }
  | some row =>
    if row.submissionId = submissionId then
      let filled : Media :=
        ⟨row.submissionId, orElseText row.opId opId, orElseText row.fieldPath path⟩
      { db with media := db.media.insert mediaId filled }
    else db

theorem registerReference_ok_iff (db : Db) (reference : String × String × String × String)
    (db' : Db) :
    registerReference pol db reference = .ok db' ↔
      MediaShown pol db reference.1 ∧ noteReference db reference = db' := by
  obtain ⟨mediaId, submissionId, opId, path⟩ := reference
  unfold registerReference noteReference MediaShown
  cases found : db.media.lookup mediaId with
  | none => simp [found]
  | some row =>
    cases shown : pol.shows db row.submissionId with
    | false => simp [found, shown]
    | true =>
      by_cases same : row.submissionId = submissionId
      · subst same
        simp [found, shown]
      · simp [found, shown, same]

theorem noteReference_frame (db : Db) (reference : String × String × String × String) :
    noteReference db reference = { db with media := (noteReference db reference).media } := by
  unfold noteReference
  dsimp only
  split
  · rfl
  · split <;> rfl

theorem lookup_noteReference (db : Db) (reference : String × String × String × String)
    {id : String} (other : id ≠ reference.1) :
    (noteReference db reference).media.lookup id = db.media.lookup id := by
  obtain ⟨mediaId, submissionId, opId, path⟩ := reference
  unfold noteReference
  dsimp only
  split
  · exact AList.lookup_insert_ne other
  · split
    · exact AList.lookup_insert_ne other
    · rfl

def noteReferences (db : Db) (rows : List SubmissionOp) : Db :=
  (Lib.firstBy (·.1) (mediaReferences rows)).foldl noteReference db

theorem noteReferences_frame (db : Db) (rows : List SubmissionOp) :
    noteReferences db rows = { db with media := (noteReferences db rows).media } := by
  unfold noteReferences
  induction Lib.firstBy (·.1) (mediaReferences rows) generalizing db with
  | nil => rfl
  | cons reference rest ih =>
    rw [List.foldl_cons, ih, noteReference_frame]

theorem noteReferences_origin {db : Db} {rows : List SubmissionOp} {id : String} {media : Media}
    (found : (noteReferences db rows).media.lookup id = some media) :
    (∃ old, db.media.lookup id = some old ∧ media.submissionId = old.submissionId) ∨
      ∃ row ∈ rows, media.submissionId = row.submissionId := by
  have step : ∀ (b : Db) (reference : String × String × String × String) (m : Media),
      (noteReference b reference).media.lookup id = some m →
      (∃ old, b.media.lookup id = some old ∧ m.submissionId = old.submissionId) ∨
        m.submissionId = reference.2.1 := by
    intro b reference m found
    by_cases same : id = reference.1
    · subst same
      unfold noteReference at found
      dsimp only at found
      split at found
      · rw [AList.lookup_insert] at found
        cases found
        exact Or.inr rfl
      · rename_i row present
        split at found
        · rw [AList.lookup_insert] at found
          cases found
          exact Or.inl ⟨row, present, rfl⟩
        · exact Or.inl ⟨m, found, rfl⟩
    · rw [lookup_noteReference b reference same] at found
      exact Or.inl ⟨m, found, rfl⟩
  have listed : ∀ reference ∈ Lib.firstBy (·.1) (mediaReferences rows),
      ∃ row ∈ rows, reference.2.1 = row.submissionId := by
    intro reference member
    obtain ⟨row, present, made⟩ := List.mem_filterMap.mp (Lib.firstBy_subset member)
    split at made
    · obtain ⟨mediaId, -, rfl⟩ := Option.map_eq_some_iff.mp made
      exact ⟨row, present, rfl⟩
    · cases made
  unfold noteReferences at found
  generalize Lib.firstBy (·.1) (mediaReferences rows) = references at found listed
  induction references using List.reverseRecOn generalizing media with
  | nil => exact Or.inl ⟨media, found, rfl⟩
  | append_singleton references reference ih =>
    rw [List.foldl_append] at found
    rcases step _ _ _ found with ⟨old, before, same⟩ | named
    · rcases ih before fun r member => listed r (List.mem_append_left _ member) with
        ⟨older, first, equal⟩ | ⟨row, member, equal⟩
      · exact Or.inl ⟨older, first, same.trans equal⟩
      · exact Or.inr ⟨row, member, same.trans equal⟩
    · obtain ⟨row, member, equal⟩ := listed reference (by simp)
      exact Or.inr ⟨row, member, named.trans equal⟩

theorem registerPendingReferences_ok_iff {db db' : Db} {rows : List SubmissionOp} :
    registerPendingReferences pol db (mediaReferences rows) = .ok db' ↔
      (∀ reference ∈ mediaReferences rows, MediaShown pol db reference.1) ∧
        noteReferences db rows = db' := by
  have stable : (Lib.firstBy (·.1) (mediaReferences rows)).Pairwise fun a a' => ∀ b,
      MediaShown pol (noteReference b a) a'.1 ↔ MediaShown pol b a'.1 := by
    have distinct := Lib.firstBy_keys_nodup
      (fun reference : String × String × String × String => reference.1) (mediaReferences rows)
    refine (List.pairwise_map.mp distinct).imp fun {a a'} apart b => ?_
    have shown : ∀ id, pol.shows (noteReference b a) id = pol.shows b id := by
      intro id
      rw [noteReference_frame]
      rfl
    simp only [MediaShown, lookup_noteReference b a (Ne.symm apart), shown]
  unfold registerPendingReferences noteReferences
  rw [Lib.foldlM_guarded (fun b a r => registerReference_ok_iff pol b a r) stable]
  refine and_congr_left fun _ => ⟨?_, ?_⟩
  · intro shown reference member
    obtain ⟨first, present, same⟩ := Lib.exists_firstBy (·.1) member
    rw [← same]
    exact shown first present
  · intro shown reference member
    exact shown reference (Lib.firstBy_subset member)

/-! ### Folding the touched submissions -/

/-- `fold_ops` of a submission's whole log. -/
def Db.fold (db : Db) (id : String) : Fold := foldOps (orderedLog db.ops.rows id)

def Db.moved (db : Db) (id : String) (submission : Submission) : Submission :=
  applyFolded submission (db.fold id)

theorem orderedLog_stripped (strip : SubmissionOp → SubmissionOp)
    (owner : ∀ op, (strip op).submissionId = op.submissionId)
    (slot : ∀ op, (strip op).slot = op.slot) (rows : List SubmissionOp) (id : String) :
    orderedLog (rows.map strip) id = (orderedLog rows id).map strip := by
  have order : ∀ a b, OpLe a b ↔ OpLe (strip a) (strip b) := by
    intro a b
    have left := slot a
    have right := slot b
    simp only [SubmissionOp.slot, Prod.mk.injEq] at left right
    simp only [OpLe, left, right]
  unfold orderedLog
  rw [List.filter_map]
  have same : (fun row : SubmissionOp => row.submissionId == id) ∘ strip =
      fun row => row.submissionId == id := by
    funext row
    simp only [Function.comp_apply, owner]
  rw [same]
  exact (List.map_insertionSort OpLe OpLe _ _ fun a _ b _ => order a b).symm

theorem foldOps_congr {rows rows' : List SubmissionOp} (id : String)
    (same : rows.map (·.unnumbered) = rows'.map (·.unnumbered)) :
    { foldOps (orderedLog rows id) with opHighWater := 0 } =
      { foldOps (orderedLog rows' id) with opHighWater := 0 } := by
  have stripped : ∀ log : List SubmissionOp, { foldOps (orderedLog log id) with opHighWater := 0 } =
      foldOps (orderedLog (log.map (·.unnumbered)) id) := by
    intro log
    rw [orderedLog_stripped SubmissionOp.unnumbered (fun _ => rfl) (fun _ => rfl),
      foldOps_stripped SubmissionOp.unnumbered (fun _ _ => rfl) (fun _ => rfl)]
  rw [stripped, stripped, same]

theorem applyFolded_scope (submission : Submission) (folded : Fold) :
    (applyFolded submission folded).scope = submission.scope := by
  unfold applyFolded
  split
  · rfl
  · split <;> rfl

theorem applyFolded_formVersionId (submission : Submission) (folded : Fold) :
    (applyFolded submission folded).formVersionId = submission.formVersionId := by
  unfold applyFolded
  split
  · rfl
  · split <;> rfl

theorem applyFolded_congr {folded folded' : Fold} (submission : Submission)
    (same : { folded with opHighWater := 0 } = { folded' with opHighWater := 0 }) :
    applyFolded submission folded = applyFolded submission folded' := by
  simp only [Fold.mk.injEq] at same
  obtain ⟨-, -, -, status, finalized, -⟩ := same
  unfold applyFolded
  rw [status, finalized]

def Refoldable (db : Db) (id : String) : Prop :=
  ∀ submission, pol.submission db id = some submission →
    db.moved id submission = submission ∨ pol.writesSubmission submission.scope = true

def refold (pushedBy : String) (rows : List SubmissionOp) (db : Db) (id : String) : Db :=
  match pol.submission db id with
  | none => db
  | some submission =>
    { db with
      submissions := if db.moved id submission = submission then db.submissions
        else db.submissions.insert id (db.moved id submission)
      states := db.states.insert id ⟨(db.fold id).data, (db.fold id).opHighWater⟩
      outbox := db.outbox ++ [
        { projectId := submission.projectId
          topic := "sync.submission.ops_accepted"
          submissionId := id
          opIds := (rows.filter (·.submissionId == id)).map (·.id)
          pushedBy := pushedBy }] }

theorem foldTouched_ok_iff (pushedBy : String) (rows : List SubmissionOp) (db : Db) (id : String)
    (db' : Db) :
    foldTouched pol pushedBy rows db id = .ok db' ↔
      Refoldable pol db id ∧ refold pol pushedBy rows db id = db' := by
  unfold foldTouched refold Refoldable
  cases found : pol.submission db id with
  | none => simp
  | some submission =>
    have unfolded : applyFolded submission (foldOps (orderedLog db.ops.rows id)) =
        db.moved id submission := rfl
    simp only [Lib.bind_ok_iff, foldSubmission, unfolded]
    by_cases still : db.moved id submission = submission
    · simp [still, pure, Except.pure, Db.fold]
    · cases writes : pol.writesSubmission submission.scope <;>
        simp [still, writes, pure, Except.pure, Db.fold]

theorem refold_frame (pushedBy : String) (rows : List SubmissionOp) (db : Db) (id : String) :
    refold pol pushedBy rows db id =
      { db with
        submissions := (refold pol pushedBy rows db id).submissions
        states := (refold pol pushedBy rows db id).states
        outbox := (refold pol pushedBy rows db id).outbox } := by
  unfold refold
  split <;> rfl

theorem refold_fold (pushedBy : String) (rows : List SubmissionOp) (db : Db) (id : String) :
    (refold pol pushedBy rows db id).fold = db.fold := by
  rw [refold_frame]
  rfl

theorem lookup_refold (pushedBy : String) (rows : List SubmissionOp) (db : Db) (id other : String) :
    (refold pol pushedBy rows db id).submissions.lookup other =
      (db.submissions.lookup other).map fun row =>
        if other = id ∧ pol.seesSubmission row.scope = true then db.moved other row else row := by
  unfold refold
  by_cases same : other = id
  · subst same
    cases found : db.submissions.lookup other with
    | none => simp [Policies.submission, found]
    | some row =>
      cases sees : pol.seesSubmission row.scope with
      | false =>
        have hidden : pol.submission db other = none := by
          simp [Policies.submission, found, sees, Option.filter]
        simp [hidden, found, sees]
      | true =>
        have shown : pol.submission db other = some row := by
          simp [Policies.submission, found, sees]
        by_cases still : db.moved other row = row
        · simp [shown, found, sees, still]
        · simp [shown, sees, still, AList.lookup_insert]
  · simp only [same, false_and, if_false, Option.map_id']
    split
    · rfl
    · dsimp only
      split
      · rfl
      · exact AList.lookup_insert_ne same

theorem submission_refold (pushedBy : String) (rows : List SubmissionOp) (db : Db)
    {id other : String} (apart : other ≠ id) :
    pol.submission (refold pol pushedBy rows db id) other = pol.submission db other := by
  simp [Policies.submission, lookup_refold, apart]

theorem state_refold (pushedBy : String) (rows : List SubmissionOp) (db : Db) (id other : String) :
    (refold pol pushedBy rows db id).states.lookup other =
      if other = id ∧ pol.shows db id = true then
        some ⟨(db.fold id).data, (db.fold id).opHighWater⟩
      else db.states.lookup other := by
  unfold refold
  cases found : pol.submission db id with
  | none => simp [Policies.shows, found]
  | some submission =>
    by_cases same : other = id
    · subst same
      simp [Policies.shows, found, AList.lookup_insert]
    · simp [same, AList.lookup_insert_ne same]

theorem shows_refold (pushedBy : String) (rows : List SubmissionOp) (db : Db) (id other : String) :
    pol.shows (refold pol pushedBy rows db id) other = pol.shows db other := by
  unfold Policies.shows Policies.submission
  rw [lookup_refold]
  cases db.submissions.lookup other with
  | none => rfl
  | some row =>
    simp only [Option.map_some]
    split
    · simp [Option.filter, Db.moved, applyFolded_scope]
      split <;> rfl
    · rfl

def refoldAll (pushedBy : String) (rows : List SubmissionOp) (db : Db) (ids : List String) : Db :=
  ids.foldl (refold pol pushedBy rows) db

theorem foldTouched_all_ok_iff {pushedBy : String} {rows : List SubmissionOp} {db db' : Db}
    {ids : List String} (distinct : ids.Nodup) :
    ids.foldlM (foldTouched pol pushedBy rows) db = .ok db' ↔
      (∀ id ∈ ids, Refoldable pol db id) ∧ refoldAll pol pushedBy rows db ids = db' := by
  refine Lib.foldlM_guarded (foldTouched_ok_iff pol pushedBy rows) (distinct.imp ?_)
  intro id other apart b
  simp only [Refoldable, submission_refold pol pushedBy rows b (Ne.symm apart), Db.moved,
    refold_fold]

theorem refoldAll_frame (pushedBy : String) (rows : List SubmissionOp) (db : Db)
    (ids : List String) :
    refoldAll pol pushedBy rows db ids =
      { db with
        submissions := (refoldAll pol pushedBy rows db ids).submissions
        states := (refoldAll pol pushedBy rows db ids).states
        outbox := (refoldAll pol pushedBy rows db ids).outbox } := by
  unfold refoldAll
  induction ids generalizing db with
  | nil => rfl
  | cons id ids ih =>
    rw [List.foldl_cons, ih, refold_frame]

theorem lookup_refoldAll (pushedBy : String) (rows : List SubmissionOp) (db : Db)
    {ids : List String} (distinct : ids.Nodup) (id : String) :
    (refoldAll pol pushedBy rows db ids).submissions.lookup id =
      (db.submissions.lookup id).map fun row =>
        if id ∈ ids ∧ pol.seesSubmission row.scope = true then db.moved id row else row := by
  unfold refoldAll
  induction ids generalizing db with
  | nil => simp
  | cons first ids ih =>
    obtain ⟨fresh, distinct⟩ := List.nodup_cons.mp distinct
    have still : (refold pol pushedBy rows db first).moved = db.moved := by
      funext other row
      simp only [Db.moved, refold_fold]
    rw [List.foldl_cons, ih _ distinct, lookup_refold, still, Option.map_map]
    congr 1
    funext row
    by_cases same : id = first
    · subst same
      simp [fresh]
    · simp [same]

theorem state_refoldAll (pushedBy : String) (rows : List SubmissionOp) (db : Db)
    (ids : List String) (id : String) :
    (refoldAll pol pushedBy rows db ids).states.lookup id =
      if id ∈ ids ∧ pol.shows db id = true then
        some ⟨(db.fold id).data, (db.fold id).opHighWater⟩
      else db.states.lookup id := by
  unfold refoldAll
  induction ids generalizing db with
  | nil => simp
  | cons first ids ih =>
    rw [List.foldl_cons, ih, state_refold, shows_refold, refold_fold]
    by_cases same : id = first
    · subst same
      by_cases shown : pol.shows db id = true <;> simp [shown]
    · simp [same]

def DeviceWritable (db : Db) (id : String) : Prop :=
  ∀ device, pol.device db id = some device →
    pol.writesDevice device.projectId device.userId = true

/-- What `push` reads of a device, and never writes. -/
def Device.identity (device : Device) : String × Option String × Option Timestamp :=
  (device.projectId, device.userId, device.revokedAt)

def alterDevice (change : Device → Device) (db : Db) (id : String) : Db :=
  match pol.device db id with
  | none => db
  | some device => { db with devices := db.devices.insert id (change device) }

theorem updateDevice_ok_iff (change : Device → Device) (db : Db) (id : String) (db' : Db) :
    updateDevice pol change db id = .ok db' ↔
      DeviceWritable pol db id ∧ alterDevice pol change db id = db' := by
  unfold updateDevice DeviceWritable alterDevice
  cases found : pol.device db id with
  | none => simp
  | some device => cases writes : pol.writesDevice device.projectId device.userId <;> simp [writes]

theorem alterDevice_frame (change : Device → Device) (db : Db) (id : String) :
    alterDevice pol change db id = { db with devices := (alterDevice pol change db id).devices } := by
  unfold alterDevice
  split <;> rfl

theorem identity_alterDevice {change : Device → Device}
    (same : ∀ device, (change device).identity = device.identity) (db : Db) (id other : String) :
    ((alterDevice pol change db id).devices.lookup other).map Device.identity =
      (db.devices.lookup other).map Device.identity := by
  unfold alterDevice
  split
  · rfl
  · rename_i device found
    by_cases equal : other = id
    · subst equal
      rw [(Option.filter_eq_some_iff.mp found).1, AList.lookup_insert]
      exact congrArg some (same device)
    · rw [AList.lookup_insert_ne equal]

theorem deviceWritable_congr {db db' : Db} {id : String}
    (same : (db'.devices.lookup id).map Device.identity = (db.devices.lookup id).map Device.identity) :
    DeviceWritable pol db' id ↔ DeviceWritable pol db id := by
  have one : ∀ {a b : Db}, (a.devices.lookup id).map Device.identity =
      (b.devices.lookup id).map Device.identity → DeviceWritable pol b id →
      DeviceWritable pol a id := by
    intro a b same writable device found
    obtain ⟨stored, sees⟩ := Option.filter_eq_some_iff.mp found
    rw [stored, Option.map_some] at same
    obtain ⟨device', stored', identity⟩ := Option.map_eq_some_iff.mp same.symm
    simp only [Device.identity, Prod.mk.injEq] at identity
    have := writable device' (Option.filter_eq_some_iff.mpr
      ⟨stored', by rw [identity.1, identity.2.1]; exact sees⟩)
    rwa [identity.1, identity.2.1] at this
  exact ⟨one same.symm, one same⟩

def pendingNoted (req : PushRequest) (db : Db) : Db :=
  match req.pendingOps with
  | none => db
  | some pending =>
    alterDevice pol
      (fun device => { device with reportedPendingOps := some pending, reportedAt := some req.now })
      db req.deviceId

def counterNoted (now : Timestamp) (rows : List SubmissionOp) (db : Db) (deviceId : String) : Db :=
  alterDevice pol
    (fun device => { device with
      lastCounter := max device.lastCounter (topCounter rows deviceId)
      lastSyncAt := some now })
    db deviceId

/-- Both notes on the devices, in the order `push` makes them. -/
def devicesNoted (req : PushRequest) (rows : List SubmissionOp) (db : Db) : Db :=
  ((Lib.firstBy (·.deviceId) rows).map (·.deviceId)).foldl (counterNoted pol req.now rows)
    (pendingNoted pol req db)

theorem notePending_ok_iff (req : PushRequest) (db db' : Db) :
    notePending pol req db = .ok db' ↔
      (req.pendingOps.isSome = true → DeviceWritable pol db req.deviceId) ∧
        pendingNoted pol req db = db' := by
  unfold notePending pendingNoted
  cases req.pendingOps with
  | none => simp
  | some pending => simp [updateDevice_ok_iff]

theorem identity_pendingNoted (req : PushRequest) (db : Db) (id : String) :
    ((pendingNoted pol req db).devices.lookup id).map Device.identity =
      (db.devices.lookup id).map Device.identity := by
  unfold pendingNoted
  split
  · rfl
  · refine identity_alterDevice pol ?_ db req.deviceId id
    exact fun device => rfl

theorem identity_counterNoted (now : Timestamp) (rows : List SubmissionOp) (db : Db)
    (deviceId id : String) :
    ((counterNoted pol now rows db deviceId).devices.lookup id).map Device.identity =
      (db.devices.lookup id).map Device.identity := by
  refine identity_alterDevice pol ?_ db deviceId id
  exact fun device => rfl

theorem identity_devicesNoted (req : PushRequest) (rows : List SubmissionOp) (db : Db)
    (id : String) :
    ((devicesNoted pol req rows db).devices.lookup id).map Device.identity =
      (db.devices.lookup id).map Device.identity := by
  have walk : ∀ (ids : List String) (b : Db),
      ((ids.foldl (counterNoted pol req.now rows) b).devices.lookup id).map Device.identity =
        (b.devices.lookup id).map Device.identity := by
    intro ids
    induction ids with
    | nil => exact fun _ => rfl
    | cons first ids ih => exact fun b => (ih _).trans (identity_counterNoted pol _ _ b first id)
  exact (walk _ _).trans (identity_pendingNoted pol req db id)

theorem devicesNoted_frame (req : PushRequest) (rows : List SubmissionOp) (db : Db) :
    devicesNoted pol req rows db =
      { db with devices := (devicesNoted pol req rows db).devices } := by
  have pending : pendingNoted pol req db =
      { db with devices := (pendingNoted pol req db).devices } := by
    unfold pendingNoted
    split
    · rfl
    · exact alterDevice_frame _ _ _ _
  unfold devicesNoted
  generalize (Lib.firstBy SubmissionOp.deviceId rows).map SubmissionOp.deviceId = ids
  generalize pendingNoted pol req db = b at pending
  induction ids generalizing b with
  | nil => exact pending
  | cons id ids ih =>
    refine ih _ ?_
    rw [counterNoted, alterDevice_frame, pending]

theorem devices_ok_iff {req : PushRequest} {rows : List SubmissionOp} {db db' : Db} :
    (do
      let db ← notePending pol req db
      ((Lib.firstBy SubmissionOp.deviceId rows).map SubmissionOp.deviceId).foldlM
        (noteCounter pol req.now rows) db) = .ok db' ↔
      (req.pendingOps.isSome = true → DeviceWritable pol db req.deviceId) ∧
      (∀ row ∈ rows, DeviceWritable pol db row.deviceId) ∧ devicesNoted pol req rows db = db' := by
  have step : ∀ b id r, noteCounter pol req.now rows b id = .ok r ↔
      DeviceWritable pol b id ∧ counterNoted pol req.now rows b id = r :=
    fun b id r => updateDevice_ok_iff pol _ b id r
  have stable : ((Lib.firstBy (·.deviceId) rows).map (·.deviceId)).Pairwise fun id id' => ∀ b,
      DeviceWritable pol (counterNoted pol req.now rows b id) id' ↔ DeviceWritable pol b id' :=
    (Lib.firstBy_keys_nodup _ _).imp fun {id id'} _ b =>
      deviceWritable_congr pol (identity_counterNoted pol _ _ b id id')
  have same : (∀ id ∈ (Lib.firstBy (·.deviceId) rows).map (·.deviceId),
      DeviceWritable pol (pendingNoted pol req db) id) ↔
        ∀ row ∈ rows, DeviceWritable pol db row.deviceId := by
    constructor
    · intro writable row member
      obtain ⟨first, present, equal⟩ := Lib.exists_firstBy (·.deviceId) member
      have := writable _ (List.mem_map_of_mem present)
      rw [equal] at this
      exact (deviceWritable_congr pol (identity_pendingNoted pol req db _)).mp this
    · intro writable id member
      obtain ⟨row, present, rfl⟩ := List.mem_map.mp member
      exact (deviceWritable_congr pol (identity_pendingNoted pol req db _)).mpr
        (writable row (Lib.firstBy_subset present))
  simp only [Lib.bind_ok_iff, notePending_ok_iff]
  constructor
  · rintro ⟨_, ⟨pending, rfl⟩, noted⟩
    obtain ⟨counters, rfl⟩ := (Lib.foldlM_guarded step stable).mp noted
    exact ⟨pending, same.mp counters, rfl⟩
  · rintro ⟨pending, counters, rfl⟩
    exact ⟨_, ⟨pending, rfl⟩, (Lib.foldlM_guarded step stable).mpr ⟨same.mpr counters, rfl⟩⟩

/-! ### The whole of `store` -/

/-- The foreign key of `media`. -/
def Db.MediaOwned (db : Db) : Prop :=
  ∀ id row, db.media.lookup id = some row → (db.submissions.lookup row.submissionId).isSome = true

theorem mem_touched {rows : List SubmissionOp} {id : String} :
    id ∈ touched rows ↔ ∃ row ∈ rows, row.submissionId = id := by
  unfold touched
  constructor
  · intro member
    obtain ⟨row, present, rfl⟩ := List.mem_map.mp member
    exact ⟨row, Lib.firstBy_subset present, rfl⟩
  · rintro ⟨row, member, rfl⟩
    obtain ⟨first, present, same⟩ := Lib.exists_firstBy (·.submissionId) member
    exact List.mem_map.mpr ⟨first, present, same⟩

theorem touched_nodup (rows : List SubmissionOp) : (touched rows).Nodup :=
  Lib.firstBy_keys_nodup _ _

namespace Call

variable (c : Call) (db : Db) (rows : List SubmissionOp)

structure Storable : Prop where
  media : ∀ reference ∈ mediaReferences rows, MediaShown c.pol db reference.1
  moves : ∀ row ∈ rows, Refoldable c.pol db row.submissionId
  reports : c.req.pendingOps.isSome = true → DeviceWritable c.pol db c.req.deviceId
  devices : ∀ row ∈ rows, DeviceWritable c.pol db row.deviceId

def annotated : Db :=
  noteReferences (addTombstones db (rows.filterMap (tombstoneOf db))) rows

/-- What `store` leaves when no write is refused. -/
def settle : Db :=
  devicesNoted c.pol c.req rows
    (refoldAll c.pol c.req.deviceId rows (annotated db rows) (touched rows))

theorem annotated_frame : annotated db rows =
    { db with
      tombstones := (addTombstones db (rows.filterMap (tombstoneOf db))).tombstones
      nextSeq := (addTombstones db (rows.filterMap (tombstoneOf db))).nextSeq
      media := (annotated db rows).media } := by
  unfold annotated
  rw [noteReferences_frame]
  rfl

theorem store_ok_iff {final : Db} :
    c.store db rows = .ok final ↔ c.Storable db rows ∧ c.settle db rows = final := by
  have distinct := touched_nodup rows
  have frame := annotated_frame db rows
  have moves : (∀ id ∈ touched rows, Refoldable c.pol (annotated db rows) id) ↔
      ∀ row ∈ rows, Refoldable c.pol db row.submissionId := by
    rw [frame]
    constructor
    · intro refoldable row member
      exact refoldable _ (mem_touched.mpr ⟨row, member, rfl⟩)
    · intro refoldable id member
      obtain ⟨row, present, rfl⟩ := mem_touched.mp member
      exact refoldable row present
  have devices : ∀ id, DeviceWritable c.pol
      (refoldAll c.pol c.req.deviceId rows (annotated db rows) (touched rows)) id ↔
        DeviceWritable c.pol db id := by
    intro id
    refine deviceWritable_congr c.pol ?_
    rw [refoldAll_frame, frame]
  unfold store settle
  simp only [Lib.bind_ok_iff, registerPendingReferences_ok_iff]
  constructor
  · rintro ⟨_, ⟨media, rfl⟩, _, folded, noted⟩
    obtain ⟨refoldable, rfl⟩ := (foldTouched_all_ok_iff c.pol distinct).mp folded
    obtain ⟨reports, writable, rfl⟩ := (devices_ok_iff c.pol).mp (Lib.bind_ok_iff.mpr noted)
    exact ⟨⟨media, moves.mp refoldable, fun given => (devices _).mp (reports given),
      fun row member => (devices _).mp (writable row member)⟩, rfl⟩
  · rintro ⟨storable, rfl⟩
    refine ⟨_, ⟨storable.media, rfl⟩, _,
      (foldTouched_all_ok_iff c.pol distinct).mpr ⟨moves.mpr storable.moves, rfl⟩, ?_⟩
    refine Lib.bind_ok_iff.mp ((devices_ok_iff c.pol).mpr ⟨?_, ?_, rfl⟩)
    · exact fun given => (devices _).mpr (storable.reports given)
    · exact fun row member => (devices _).mpr (storable.devices row member)

theorem settle_frame : c.settle db rows =
    { db with
      tombstones := (addTombstones db (rows.filterMap (tombstoneOf db))).tombstones
      nextSeq := (addTombstones db (rows.filterMap (tombstoneOf db))).nextSeq
      media := (c.settle db rows).media
      submissions := (c.settle db rows).submissions
      states := (c.settle db rows).states
      outbox := (c.settle db rows).outbox
      devices := (c.settle db rows).devices } := by
  unfold settle
  rw [devicesNoted_frame, refoldAll_frame, annotated_frame]

theorem settle_ops : (c.settle db rows).ops = db.ops := by rw [settle_frame]

theorem settle_media : (c.settle db rows).media = (annotated db rows).media := by
  unfold settle
  rw [devicesNoted_frame, refoldAll_frame]

theorem settle_tombstones : (c.settle db rows).tombstones =
    (addTombstones db (rows.filterMap (tombstoneOf db))).tombstones := by rw [settle_frame]

theorem settle_submission (id : String) :
    (c.settle db rows).submissions.lookup id =
      (db.submissions.lookup id).map fun row =>
        if id ∈ touched rows ∧ c.pol.seesSubmission row.scope = true then db.moved id row
        else row := by
  unfold settle
  rw [devicesNoted_frame]
  dsimp only
  rw [lookup_refoldAll _ _ _ _ (touched_nodup rows), annotated_frame]
  rfl

theorem settle_state (id : String) :
    (c.settle db rows).states.lookup id =
      if id ∈ touched rows ∧ c.pol.shows db id = true then
        some ⟨(db.fold id).data, (db.fold id).opHighWater⟩
      else db.states.lookup id := by
  unfold settle
  rw [devicesNoted_frame]
  dsimp only
  rw [state_refoldAll, annotated_frame]
  rfl

theorem settle_identity (id : String) :
    ((c.settle db rows).devices.lookup id).map Device.identity =
      (db.devices.lookup id).map Device.identity := by
  unfold settle
  rw [identity_devicesNoted, refoldAll_frame, annotated_frame]

theorem mem_touched_stored {id : String} :
    id ∈ touched c.stored ↔ ∃ op ∈ c.ops, c.Stores op ∧ op.submissionId = id := by
  rw [mem_touched]
  constructor
  · rintro ⟨row, member, rfl⟩
    obtain ⟨op, stores, rfl⟩ := List.mem_map.mp member
    obtain ⟨inBatch, stores⟩ := List.mem_filter.mp stores
    exact ⟨op, inBatch, of_decide_eq_true stores, rfl⟩
  · rintro ⟨op, member, stores, rfl⟩
    exact ⟨_, List.mem_map_of_mem (List.mem_filter.mpr ⟨member, decide_eq_true stores⟩), rfl⟩

theorem fold_untouched {keyed : Db} {id : String} (untouched : id ∉ touched c.stored) :
    (c.inserted keyed).fold id = c.db.fold id := by
  obtain ⟨new, rows, origin⟩ := c.logged_new
  have quiet : new.filter (·.submissionId == id) = [] := by
    rw [List.filter_eq_nil_iff]
    intro row member equal
    obtain ⟨op, inBatch, stores, n, -, rfl⟩ := origin row member
    exact untouched (c.mem_touched_stored.mpr ⟨op, inBatch, stores, by simpa using equal⟩)
  unfold Db.fold orderedLog
  show foldOps ((c.logged.log.rows.filter (·.submissionId == id)).insertionSort OpLe) = _
  rw [rows, List.filter_append, quiet, List.append_nil]

theorem push_returns_iff {response : PushResponse} {final : Db} :
    push c.pol c.db c.req = .ok (response, final) ↔
      c.OpensFree c.ops ∧ ∃ keyed, c.keys.added.foldlM insertKey (c.dbAfter c.ops) = .ok keyed ∧
        c.Storable (c.inserted keyed) c.stored ∧ c.settle (c.inserted keyed) c.stored = final ∧
        response = ⟨c.accepted, c.rejected, serverCursor c.pol final⟩ := by
  simp only [push_ok_iff, store_ok_iff, and_assoc]

theorem push_verdicts {response : PushResponse} {final : Db}
    (returned : push c.pol c.db c.req = .ok (response, final)) :
    response.accepted = c.accepted ∧ response.rejected = c.rejected := by
  obtain ⟨-, _, -, -, -, rfl⟩ := c.push_returns_iff.mp returned
  exact ⟨rfl, rfl⟩

theorem push_log {response : PushResponse} {final : Db}
    (returned : push c.pol c.db c.req = .ok (response, final)) : final.ops = c.logged.log := by
  obtain ⟨-, keyed, -, -, rfl, -⟩ := c.push_returns_iff.mp returned
  rw [settle_ops]
  rfl

theorem mem_push_log {response : PushResponse} {final : Db}
    (returned : push c.pol c.db c.req = .ok (response, final)) {row : SubmissionOp} :
    row ∈ final.ops.rows → row ∈ c.db.ops.rows ∨
      ∃ op ∈ c.ops, c.Stores op ∧ ∃ n, c.db.nextSeq ≤ n ∧
        row = { op.row c.lastAttributed with serverSeq := n } := by
  intro member
  obtain ⟨new, rows, origin⟩ := c.logged_new
  rw [c.push_log returned, rows] at member
  exact (List.mem_append.mp member).imp_right (origin row)

theorem log_grows {response : PushResponse} {final : Db}
    (returned : push c.pol c.db c.req = .ok (response, final)) {row : SubmissionOp}
    (member : row ∈ c.db.ops.rows) : row ∈ final.ops.rows := by
  obtain ⟨start, -, rows, -, -⟩ := c.logged_spec
  rw [c.push_log returned, rows]
  exact List.mem_append_left _ member

theorem exists_row {response : PushResponse} {final : Db}
    (returned : push c.pol c.db c.req = .ok (response, final)) {op : SyncOp} (member : op ∈ c.ops)
    (stores : c.Stores op) :
    ∃ n, c.db.nextSeq ≤ n ∧ { op.row c.lastAttributed with serverSeq := n } ∈ final.ops.rows := by
  obtain ⟨start, bound, rows, -, -⟩ := c.logged_spec
  have listed : op.row c.lastAttributed ∈ c.rows :=
    List.mem_map_of_mem (List.mem_filter.mpr ⟨member, decide_eq_true stores.1⟩)
  obtain ⟨n, above, numbered⟩ := OpLog.exists_numbered start listed
  refine ⟨n, by omega, ?_⟩
  rw [c.push_log returned, rows]
  refine List.mem_append_right _ (List.mem_filter.mpr ⟨numbered, ?_⟩)
  exact Option.isNone_iff_eq_none.mpr stores.2

theorem push_lookup {response : PushResponse} {final : Db}
    (returned : push c.pol c.db c.req = .ok (response, final)) {id : String} {row : Submission}
    (found : c.db.submissions.lookup id = some row) :
    final.submissions.lookup id =
      some (if id ∈ touched c.stored then applyFolded row (final.fold id) else row) := by
  obtain ⟨free, keyed, flushed, -, rfl, -⟩ := c.push_returns_iff.mp returned
  have split : c.ops = [] ++ (c.ops ++ []) := by simp
  have present := c.lookup_dbAfter split free found
  rw [List.nil_append] at present
  have kept : (c.inserted keyed).submissions.lookup id = some row := by
    rw [c.inserted_frame flushed]
    exact present
  have folds : (c.settle (c.inserted keyed) c.stored).fold id = (c.inserted keyed).fold id := by
    unfold Db.fold
    rw [c.settle_ops]
  rw [c.settle_submission, kept, folds, Option.map_some]
  congr 1
  by_cases hit : id ∈ touched c.stored
  · obtain ⟨op, member, stores, rfl⟩ := c.mem_touched_stored.mp hit
    have shown := c.shown_of_admits free member stores.1.1.1.1
    have sees : c.pol.seesSubmission row.scope = true := by
      rw [Policies.shows, Policies.submission, present] at shown
      simpa [Option.isSome_filter] using shown
    rw [if_pos ⟨hit, sees⟩, if_pos hit]
    rfl
  · rw [if_neg fun both => hit both.1, if_neg hit]

theorem push_owns {response : PushResponse} {final : Db}
    (returned : push c.pol c.db c.req = .ok (response, final)) {op : SyncOp} (member : op ∈ c.ops)
    (stores : c.Stores op) : (final.submissions.lookup op.submissionId).isSome = true := by
  obtain ⟨free, keyed, flushed, -, rfl, -⟩ := c.push_returns_iff.mp returned
  obtain ⟨row, present, -⟩ :=
    c.submission_of_admits free (List.append_nil _).symm member stores.1.1.1.1
  rw [c.settle_submission, Option.isSome_map, c.inserted_frame flushed]
  exact Option.isSome_of_eq_some present

theorem push_mediaOwned {response : PushResponse} {final : Db}
    (returned : push c.pol c.db c.req = .ok (response, final)) (media : c.db.MediaOwned) :
    final.MediaOwned := by
  intro id m found
  have origin : (∃ old, c.db.media.lookup id = some old ∧ m.submissionId = old.submissionId) ∨
      ∃ row ∈ c.stored, m.submissionId = row.submissionId := by
    obtain ⟨-, keyed, flushed, -, rfl, -⟩ := c.push_returns_iff.mp returned
    rw [c.settle_media] at found
    have start : (addTombstones (c.inserted keyed)
        (c.stored.filterMap (tombstoneOf (c.inserted keyed)))).media = c.db.media := by
      unfold addTombstones
      rw [c.inserted_frame flushed]
    rcases noteReferences_origin found with ⟨old, present, same⟩ | new
    · rw [start] at present
      exact Or.inl ⟨old, present, same⟩
    · exact Or.inr new
  rcases origin with ⟨old, present, same⟩ | ⟨row, member, same⟩
  · obtain ⟨s, stored⟩ := Option.isSome_iff_exists.mp (media id old present)
    rw [same, c.push_lookup returned stored]
    rfl
  · obtain ⟨op, inBatch, stores, on⟩ := c.mem_touched_stored.mp (mem_touched.mpr ⟨row, member, rfl⟩)
    rw [same, ← on]
    exact c.push_owns returned inBatch stores

end Call

end DataCollectionLab.Sync
