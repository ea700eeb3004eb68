import DataCollectionLab.Sync.Effects

/-!
The content keys the server holds and the encrypted ops it stores under them. A push adds keys and never
touches one that is there; an op under a key is stored only where the key is one of its own submission.
-/

namespace DataCollectionLab.Sync

def Db.wrapsOf (db : Db) (contentKeyId : String) : List WrappedKey :=
  db.wrappedKeys.filter (·.contentKeyId = contentKeyId)

def KeysStand (old new : Db) : Prop :=
  ∀ id key, old.contentKeys.lookup id = some key →
    new.contentKeys.lookup id = some key ∧ new.wrapsOf id = old.wrapsOf id

def SingleKeys (db : Db) : Prop :=
  ∀ id id' key, db.contentKeys.lookup id = some key → db.contentKeys.lookup id' = some key → id = id'

structure Enveloped (db : Db) : Prop where
  /-- No two ops were sealed under one key with one nonce. -/
  nonces : db.ops.rows.Pairwise fun a b => ∀ envelope, a.envelope = some envelope → b.envelope ≠ some envelope
  single : SingleKeys db
  /-- An encrypted op names a stored key of its own submission. -/
  keyed : ∀ row ∈ db.ops.rows, row.valueCiphertext.isSome → ∃ id deviceId, row.contentKeyId = some id ∧
    db.contentKeys.lookup id = some ⟨row.submissionId, deviceId⟩

namespace KeysStand

theorem refl (db : Db) : KeysStand db db := fun _ _ found => ⟨found, rfl⟩

theorem of_tables {old new : Db} (keys : new.contentKeys = old.contentKeys) (wraps : new.wrappedKeys = old.wrappedKeys) :
    KeysStand old new := by
  intro id key found
  rw [Db.wrapsOf, keys, wraps]
  exact ⟨found, rfl⟩

theorem trans {old mid new : Db} (one : KeysStand old mid) (two : KeysStand mid new) : KeysStand old new := by
  intro id key found
  obtain ⟨found', wraps⟩ := one id key found
  obtain ⟨found'', wraps'⟩ := two id key found'
  exact ⟨found'', wraps'.trans wraps⟩

end KeysStand

theorem insertKey_spec {db db' : Db} {key : ContentKeyIn} (inserted : insertKey db key = .ok db') :
    db.contentKeys.lookup key.contentKeyId = none ∧
      (∀ id row, db.contentKeys.lookup id = some row → row ≠ ⟨key.submissionId, key.deviceId⟩) ∧
      db'.contentKeys = db.contentKeys.insert key.contentKeyId ⟨key.submissionId, key.deviceId⟩ ∧
      db'.wrappedKeys = db.wrappedKeys ++ key.wraps.map fun wrap =>
        ⟨key.contentKeyId, wrap.projectKeyId, key.submissionId, wrap.ephemeralPublic, wrap.nonce, wrap.wrappedKey⟩ := by
  unfold insertKey at inserted
  split at inserted
  · cases inserted
  · rename_i fresh
    split at inserted
    · cases inserted
    · rename_i alone
      split at inserted
      · cases inserted
      · cases inserted
        refine ⟨by simpa using fresh, fun id row found same => alone ?_, rfl, rfl⟩
        refine List.any_eq_true.mpr ⟨⟨id, row⟩, AList.mem_lookup_iff.mp found, ?_⟩
        rw [same]
        simp

theorem insertKey_stands {db db' : Db} {key : ContentKeyIn} (inserted : insertKey db key = .ok db') :
    KeysStand db db' := by
  obtain ⟨fresh, -, keys, wraps⟩ := insertKey_spec inserted
  intro id row found
  have other : id ≠ key.contentKeyId := fun same => by
    rw [same, fresh] at found
    cases found
  have none : (key.wraps.map fun wrap => (⟨key.contentKeyId, wrap.projectKeyId, key.submissionId, wrap.ephemeralPublic,
      wrap.nonce, wrap.wrappedKey⟩ : WrappedKey)).filter (·.contentKeyId = id) = [] := by
    refine List.filter_eq_nil_iff.mpr fun wrap member => ?_
    obtain ⟨given, -, rfl⟩ := List.mem_map.mp member
    simpa using Ne.symm other
  refine ⟨by rw [keys, AList.lookup_insert_ne other, found], ?_⟩
  rw [Db.wrapsOf, wraps, List.filter_append, none, List.append_nil]
  rfl

theorem insertKey_single {db db' : Db} {key : ContentKeyIn} (inserted : insertKey db key = .ok db')
    (single : SingleKeys db) : SingleKeys db' := by
  obtain ⟨-, alone, keys, -⟩ := insertKey_spec inserted
  intro id id' row found found'
  rw [keys] at found found'
  by_cases here : id = key.contentKeyId
  · by_cases here' : id' = key.contentKeyId
    · exact here.trans here'.symm
    · rw [here, AList.lookup_insert] at found
      rw [AList.lookup_insert_ne here'] at found'
      exact absurd (Option.some.inj found).symm (alone id' row found')
  · rw [AList.lookup_insert_ne here] at found
    by_cases here' : id' = key.contentKeyId
    · rw [here', AList.lookup_insert] at found'
      exact absurd (Option.some.inj found').symm (alone id row found)
    · rw [AList.lookup_insert_ne here'] at found'
      exact single id id' row found found'

theorem insertKeys_stand {db db' : Db} {keys : List ContentKeyIn} (inserted : keys.foldlM insertKey db = .ok db')
    (single : SingleKeys db) : KeysStand db db' ∧ SingleKeys db' :=
  Lib.foldlM_invariant (fun t => KeysStand db t ∧ SingleKeys t)
    (fun _ _ _ _ before step => ⟨before.1.trans (insertKey_stands step), insertKey_single step before.2⟩)
    ⟨KeysStand.refl db, single⟩ inserted

namespace KeyIntake

variable {pol : Policies} {db : Db}

theorem run_admitted (pol : Policies) (db : Db) (keys : List ContentKeyIn) {id submissionId : String}
    (answered : (run pol db keys).admitted.lookup id = some submissionId) :
    (∃ row, db.contentKeys.lookup id = some row ∧ row.submissionId = submissionId) ∨
      ∃ key ∈ (run pol db keys).added, key.contentKeyId = id ∧ key.submissionId = submissionId := by
  have stored : ∀ row, (existing pol db keys).lookup id = some row → db.contentKeys.lookup id = some row := by
    intro row found
    obtain ⟨front, back, split, -⟩ := List.lookup_eq_some_iff.mp found
    have listed : (id, row) ∈ existing pol db keys := by
      rw [split]
      simp
    obtain ⟨entry, member, same⟩ := List.mem_map.mp (List.mem_filter.mp listed).1
    cases same
    exact AList.mem_lookup_iff.mpr member
  suffices walk : ∀ (rest : List ContentKeyIn) (st : KeyIntake),
      (∀ submissionId, st.admitted.lookup id = some submissionId →
        (∃ row, db.contentKeys.lookup id = some row ∧ row.submissionId = submissionId) ∨
          ∃ key ∈ st.added, key.contentKeyId = id ∧ key.submissionId = submissionId) →
      ∀ submissionId, (rest.foldl (step pol db (existing pol db keys)) st).admitted.lookup id = some submissionId →
        (∃ row, db.contentKeys.lookup id = some row ∧ row.submissionId = submissionId) ∨
          ∃ key ∈ (rest.foldl (step pol db (existing pol db keys)) st).added,
            key.contentKeyId = id ∧ key.submissionId = submissionId from
    walk keys _ (fun _ found => by simp at found) submissionId answered
  intro rest
  induction rest with
  | nil => exact fun _ holds => holds
  | cons key rest ih =>
    intro st holds
    refine ih _ fun submissionId found => ?_
    unfold step at found ⊢
    cases known : (existing pol db keys).lookup key.contentKeyId with
    | some row =>
      rw [known] at found
      by_cases here : id = key.contentKeyId
      · subst here
        simp only [AList.lookup_insert, Option.some.injEq] at found
        exact Or.inl ⟨row, stored row known, found⟩
      · simp only [AList.lookup_insert_ne here] at found
        exact holds submissionId found
    | none =>
      rw [known] at found
      dsimp only at found ⊢
      split at found
      · rename_i resolved
        rw [if_pos resolved]
        by_cases here : id = key.contentKeyId
        · subst here
          simp only [AList.lookup_insert, Option.some.injEq] at found
          exact Or.inr ⟨key, by simp, rfl, found⟩
        · simp only [AList.lookup_insert_ne here] at found
          refine (holds submissionId found).imp_right ?_
          rintro ⟨other, member, named⟩
          exact ⟨other, List.mem_append_left _ member, named⟩
      · rename_i unresolved
        rw [if_neg unresolved]
        exact holds submissionId found

end KeyIntake

namespace Call

variable (c : Call)

theorem keyTable_stored {keyed : Db} (flushed : c.keys.added.foldlM insertKey (c.dbAfter c.ops) = .ok keyed)
    {id submissionId : String} (known : c.keyTable id = some submissionId) :
    ∃ deviceId, keyed.contentKeys.lookup id = some ⟨submissionId, deviceId⟩ := by
  rw [← c.keySubmission_flushed flushed] at known
  have admitted : c.keys.admitted.lookup id = some submissionId →
      ∃ deviceId, keyed.contentKeys.lookup id = some ⟨submissionId, deviceId⟩ := by
    intro answered
    rcases KeyIntake.run_admitted _ _ _ answered with ⟨row, found, rfl⟩ | ⟨key, member, rfl, rfl⟩
    · rcases insertKeys_lookup flushed id with ⟨_, _, _, absent, _⟩ | ⟨-, kept⟩
      · rw [found] at absent
        cases absent
      · exact ⟨row.deviceId, kept.trans found⟩
    · rcases insertKeys_lookup flushed key.contentKeyId with ⟨other, present, same, -, found⟩ | ⟨absent, -⟩
      · obtain rfl := List.inj_on_of_nodup_map (insertKeys_ids_nodup flushed) present member same
        exact ⟨_, found⟩
      · exact absurd rfl (absent key member)
  unfold keySubmission at known
  split at known
  · rename_i key found
    split at known
    · exact ⟨key.deviceId, by rw [found, ← Option.some.inj known]⟩
    · exact admitted known
  · exact admitted known

theorem push_enveloped {response : PushResponse} {final : Db}
    (returned : push c.pol c.db c.req = .ok (response, final)) (before : Enveloped c.db) :
    KeysStand c.db final ∧ Enveloped final := by
  obtain ⟨-, keyed, flushed, -, rfl, -⟩ := c.push_returns_iff.mp returned
  have frame : (c.settle (c.inserted keyed) c.stored).contentKeys = keyed.contentKeys ∧
      (c.settle (c.inserted keyed) c.stored).wrappedKeys = keyed.wrappedKeys := by
    rw [settle_frame]
    exact ⟨rfl, rfl⟩
  have opened : (c.dbAfter c.ops).contentKeys = c.db.contentKeys ∧
      (c.dbAfter c.ops).wrappedKeys = c.db.wrappedKeys := by
    rw [c.dbAfter_frame]
    exact ⟨rfl, rfl⟩
  have single : SingleKeys (c.dbAfter c.ops) := by
    unfold SingleKeys
    rw [opened.1]
    exact before.single
  obtain ⟨stand, singles⟩ := insertKeys_stand flushed single
  have stands : KeysStand c.db (c.settle (c.inserted keyed) c.stored) :=
    ((KeysStand.of_tables opened.1 opened.2).trans stand).trans (KeysStand.of_tables frame.1 frame.2)
  refine ⟨stands, ?_, ?_, ?_⟩
  · refine (c.settle (c.inserted keyed) c.stored).ops.unique.imp fun apart envelope left right => ?_
    exact apart (Or.inr (Or.inl ⟨envelope, left, right⟩))
  · unfold SingleKeys
    rw [frame.1]
    exact singles
  · intro row member sealed
    rcases c.mem_push_log returned member with old | ⟨op, inBatch, stores, n, -, rfl⟩
    · obtain ⟨id, deviceId, named, found⟩ := before.keyed row old sealed
      exact ⟨id, deviceId, named, (stands id _ found).1⟩
    · cases payload : op.payload with
      | plain value => simp [SyncOp.row, payload] at sealed
      | «sealed» ciphertext id nonce =>
        have known : c.keyTable id = some op.submissionId :=
          stores.1.1.1.2 (id, nonce) (by simp [SyncOp.envelope, payload])
        obtain ⟨deviceId, found⟩ := c.keyTable_stored flushed known
        exact ⟨id, deviceId, by simp [SyncOp.row, payload], by rw [frame.1]; exact found⟩

end Call

end DataCollectionLab.Sync
