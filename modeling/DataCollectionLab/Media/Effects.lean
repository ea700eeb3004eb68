import DataCollectionLab.Lib.Lists
import DataCollectionLab.Media.Service

/-!
What a request that goes through leaves of each table, and that it leaves every other file alone.
-/

namespace DataCollectionLab.Media

theorem padded_injective : Function.Injective padded := by
  intro a b same
  have value : ∀ n, Nat.ofDigitChars 10 (padded n) 0 = n := by
    intro n
    rw [padded, List.leftpad, Nat.ofDigitChars_append, Nat.ofDigitChars_replicate_zero, Nat.mul_zero,
      Nat.ofDigitChars_ten_toDigits]
  rw [← value a, same, value b]

theorem slash_not_mem_padded (n : Nat) : '/' ∉ padded n := by
  intro member
  rw [padded, List.leftpad, List.mem_append] at member
  rcases member with zero | digit
  · have := (List.mem_replicate.mp zero).2
    simp at this
  · have := Nat.isDigit_of_mem_toDigits (by decide) (by decide) digit
    simp at this

theorem chunkStorageKey_inj {a b : String} {i j : Nat} (same : chunkStorageKey a i = chunkStorageKey b j) :
    a = b ∧ i = j := by
  unfold chunkStorageKey at same
  -- The index has no slash, so both keys are cut at their last one.
  obtain ⟨ids, indexes⟩ := Lib.append_cons_inj (slash_not_mem_padded i) (slash_not_mem_padded j)
    (String.ofList_inj.mp same)
  exact ⟨String.toList_inj.mp (List.append_cancel_left ids), padded_injective indexes⟩

namespace Server

variable {env : Envelope} {server final : Server}

theorem mem_chunkRows {id : String} {i : Nat} {chunk : MediaChunk} :
    (i, chunk) ∈ server.chunkRows id ↔ server.chunks.lookup (id, i) = some chunk := by
  rw [chunkRows, Lib.mem_orderBy, List.mem_filterMap]
  constructor
  · rintro ⟨⟨⟨id', i'⟩, chunk'⟩, stored, same⟩
    split at same
    · rename_i here
      simp only [Option.some_inj, Prod.mk.injEq] at same here
      obtain ⟨rfl, rfl⟩ := same
      subst here
      exact AList.mem_lookup_iff.mpr stored
    · cases same
  · intro found
    exact ⟨⟨(id, i), chunk⟩, AList.mem_lookup_iff.mp found, by simp⟩

theorem chunkRows_ascending (server : Server) (id : String) :
    Lib.Ascending Prod.fst (server.chunkRows id) := by
  apply Lib.orderBy_ascending
  have apart : server.chunks.entries.Pairwise fun a b => a.1 ≠ b.1 := List.pairwise_map.mp server.chunks.nodupKeys
  refine List.pairwise_filterMap.mpr (apart.imp ?_)
  rintro ⟨⟨id₁, i₁⟩, c₁⟩ ⟨⟨id₂, i₂⟩, c₂⟩ differ x left y right
  split at left
  · split at right
    · cases left
      cases right
      rename_i here there
      exact fun same => differ (by simp_all)
    · cases right
  · cases left

theorem mem_receivedIndexes {id : String} {i : Nat} :
    i ∈ server.receivedIndexes id ↔ ∃ chunk, server.chunks.lookup (id, i) = some chunk := by
  rw [receivedIndexes, List.mem_map]
  constructor
  · rintro ⟨⟨i', chunk⟩, member, rfl⟩
    exact ⟨chunk, mem_chunkRows.mp member⟩
  · rintro ⟨chunk, found⟩
    exact ⟨(i, chunk), mem_chunkRows.mpr found, rfl⟩

theorem chunkRows_congr {id : String} (same : ∀ i, final.chunks.lookup (id, i) = server.chunks.lookup (id, i)) :
    final.chunkRows id = server.chunkRows id := by
  refine (final.chunkRows_ascending id).eq_of_mem_iff (server.chunkRows_ascending id) ?_
  rintro ⟨i, chunk⟩
  rw [mem_chunkRows, mem_chunkRows, same]

theorem object_congr {id : String}
    (same : ∀ i, final.chunks.lookup (id, i) = server.chunks.lookup (id, i))
    (stored : ∀ i chunk, server.chunks.lookup (id, i) = some chunk →
      final.objects.lookup chunk.storageKey = server.objects.lookup chunk.storageKey) :
    final.object id = server.object id := by
  unfold object
  rw [chunkRows_congr same]
  congr 1
  apply Lib.mapM_congr
  rintro ⟨i, chunk⟩ member
  exact stored i chunk (mem_chunkRows.mp member)

theorem sessionAndMedia_ok_iff {now : Timestamp} {uploadId : String} {upload : MediaUploadSession}
    {row : MediaRow} : server.sessionAndMedia now uploadId = .ok (upload, row) ↔
      server.sessions.lookup uploadId = some upload ∧ now < upload.expiresAt ∧
        server.media.lookup upload.mediaId = some row := by
  unfold sessionAndMedia
  cases found : server.sessions.lookup uploadId with
  | none => simp
  | some upload' =>
    simp only
    split
    · rename_i expired
      simp only [reduceCtorEq, Option.some_inj, false_iff, not_and]
      rintro rfl unexpired
      exact absurd expired (Int.not_le.mpr unexpired)
    · rename_i unexpired
      cases media : server.media.lookup upload'.mediaId with
      | none =>
        simp only [reduceCtorEq, Option.some_inj, false_iff, not_and]
        rintro rfl - same
        rw [media] at same
        cases same
      | some row' =>
        simp only [Except.ok.injEq, Prod.mk.injEq, Option.some_inj]
        constructor
        · rintro ⟨rfl, rfl⟩
          exact ⟨rfl, Int.not_le.mp unexpired, media⟩
        · rintro ⟨rfl, -, same⟩
          exact ⟨rfl, Option.some_inj.mp (media.symm.trans same)⟩

/-- What `put_chunk` checks. -/
structure TakesChunk (server : Server) (now : Timestamp) (uploadId : String) (chunkIndex : Nat)
    (data : Bytes) (upload : MediaUploadSession) (row : MediaRow) : Prop where
  session : server.sessions.lookup uploadId = some upload
  unexpired : now < upload.expiresAt
  media : server.media.lookup upload.mediaId = some row
  inRange : chunkIndex < row.chunkCount
  fits : chunkFits row chunkIndex data = true

theorem putChunk_ok_iff {now : Timestamp} {uploadId : String} {chunkIndex : Nat} {data : Bytes}
    {done : ChunkResponse × Server} : server.putChunk env now uploadId chunkIndex data = .ok done ↔
      ∃ upload row, TakesChunk server now uploadId chunkIndex data upload row ∧
        server.takeChunk env uploadId upload row chunkIndex data = done := by
  unfold putChunk
  cases found : server.sessionAndMedia now uploadId with
  | error fault =>
    simp only [Except.bind, reduceCtorEq, false_iff]
    rintro ⟨upload, row, takes, -⟩
    rw [sessionAndMedia_ok_iff.mpr ⟨takes.session, takes.unexpired, takes.media⟩] at found
    cases found
  | ok pair =>
    obtain ⟨upload, row⟩ := pair
    obtain ⟨session, unexpired, media⟩ := sessionAndMedia_ok_iff.mp found
    have only : ∀ upload' row', TakesChunk server now uploadId chunkIndex data upload' row' →
        upload' = upload ∧ row' = row := by
      intro upload' row' takes
      obtain rfl := Option.some_inj.mp (takes.session.symm.trans session)
      exact ⟨rfl, Option.some_inj.mp (takes.media.symm.trans media)⟩
    simp only [Except.bind]
    constructor
    · intro returned
      split at returned
      · cases returned
      · rename_i inRange
        split at returned
        · cases returned
        · rename_i fits
          cases returned
          exact ⟨upload, row, ⟨session, unexpired, media, by omega, by simpa using fits⟩, rfl⟩
    · rintro ⟨upload', row', takes, rfl⟩
      obtain ⟨rfl, rfl⟩ := only upload' row' takes
      rw [if_neg (Nat.not_le.mpr takes.inRange), if_neg (by simp [takes.fits])]

theorem complete_ok {now : Timestamp} {uploadId hash : String} {response : CompleteResponse}
    (returned : server.complete env now uploadId hash = .ok (response, final)) :
    ∃ upload row bytes, server.sessions.lookup uploadId = some upload ∧
      server.media.lookup upload.mediaId = some row ∧
      (∀ i < row.chunkCount, ∃ chunk, server.chunks.lookup (upload.mediaId, i) = some chunk) ∧
      server.object upload.mediaId = some bytes ∧ env.sha256 bytes = hash ∧
      response = ⟨upload.mediaId, env.sha256 bytes, bytes.length, row.chunkCount⟩ ∧
      final = { server with
        media := server.media.insert upload.mediaId (sealedRow env now upload.mediaId row bytes) } := by
  unfold complete at returned
  cases found : server.sessionAndMedia now uploadId with
  | error fault =>
    rw [found] at returned
    cases returned
  | ok pair =>
    obtain ⟨upload, row⟩ := pair
    obtain ⟨session, -, media⟩ := sessionAndMedia_ok_iff.mp found
    rw [found] at returned
    simp only [Except.bind] at returned
    split at returned
    · cases returned
    · rename_i present
      cases read : server.object upload.mediaId with
      | none =>
        rw [read] at returned
        cases returned
      | some bytes =>
        rw [read] at returned
        simp only at returned
        split at returned
        · cases returned
        · rename_i same
          cases returned
          refine ⟨upload, row, bytes, session, media, fun i less => ?_, read, not_not.mp same, rfl, rfl⟩
          simp only [not_not, List.all_eq_true, List.mem_range] at present
          exact mem_receivedIndexes.mp (List.contains_iff_mem.mp (present i less))

theorem sessionOf_eq_some {id uploadId : String} (found : server.sessionOf id = some uploadId) :
    ∃ upload, server.sessions.lookup uploadId = some upload ∧ upload.mediaId = id := by
  obtain ⟨⟨id', upload⟩, listed, rfl⟩ := Option.map_eq_some_iff.mp found
  have here := List.find?_some listed
  exact ⟨upload, AList.mem_lookup_iff.mpr (List.mem_of_find?_eq_some listed), by simpa using here⟩

/-- What opening a session makes of the file's row: it is as it was where the file is complete, and is
being uploaded where it is not, with the count declared now unless something has landed. -/
inductive OpensRow (server : Server) (request : SessionRequest) (row : MediaRow) : Prop where
  | complete (same : server.media.lookup request.mediaId = some row) (status : row.status = .complete)
  | first (new : server.media.lookup request.mediaId = none) (status : row.status = .uploading)
      (count : row.chunkCount = request.chunkCount)
  | again (old : MediaRow) (found : server.media.lookup request.mediaId = some old)
      (unfinished : old.status ≠ .complete) (status : row.status = .uploading)
      (count : row.chunkCount = request.chunkCount ∨
        server.receivedIndexes request.mediaId ≠ [] ∧ row.chunkCount = old.chunkCount)

theorem openMedia_ok {request : SessionRequest} {row : MediaRow}
    (returned : server.openMedia request = .ok (row, final)) :
    OpensRow server request row ∧ final.chunks = server.chunks ∧ final.objects = server.objects ∧
      final.sessions = server.sessions ∧ final.media.lookup request.mediaId = some row ∧
      ∀ id ≠ request.mediaId, final.media.lookup id = server.media.lookup id := by
  unfold openMedia at returned
  cases found : server.media.lookup request.mediaId with
  | none =>
    rw [found] at returned
    cases returned
    exact ⟨.first found rfl rfl, rfl, rfl, rfl, AList.lookup_insert _, fun id other => AList.lookup_insert_ne other⟩
  | some old =>
    rw [found] at returned
    simp only at returned
    split at returned
    · cases returned
    · split at returned
      · rename_i complete
        cases returned
        exact ⟨.complete found complete, rfl, rfl, rfl, found, fun _ _ => rfl⟩
      · rename_i unfinished
        cases returned
        refine ⟨.again old found unfinished rfl ?_, rfl, rfl, rfl, AList.lookup_insert _,
          fun id other => AList.lookup_insert_ne other⟩
        cases landed : (server.receivedIndexes request.mediaId).isEmpty with
        | true => exact Or.inl (by simp [resumed])
        | false => exact Or.inr ⟨by simpa using landed, by simp [resumed]⟩

/-- A request about the file `m` goes through: what it may have touched. -/
structure Touches (m : String) (server final : Server) : Prop where
  media : ∀ id ≠ m, final.media.lookup id = server.media.lookup id
  chunks : ∀ id ≠ m, ∀ i, final.chunks.lookup (id, i) = server.chunks.lookup (id, i)
  objects : ∀ key, (∀ i, key ≠ chunkStorageKey m i) → final.objects.lookup key = server.objects.lookup key
  kept : ∀ uploadId upload, server.sessions.lookup uploadId = some upload →
    ∃ upload', final.sessions.lookup uploadId = some upload' ∧ upload'.mediaId = upload.mediaId
  opened : ∀ uploadId upload, final.sessions.lookup uploadId = some upload →
    upload.mediaId = m ∨
      ∃ upload', server.sessions.lookup uploadId = some upload' ∧ upload'.mediaId = upload.mediaId

theorem openUpload_spec (server : Server) (id newId : String) (expiresAt : Timestamp)
    (fresh : server.sessions.lookup newId = none) :
    let done := server.openUpload id newId expiresAt
    (∃ upload, done.2.sessions.lookup done.1 = some upload ∧ upload.mediaId = id) ∧
      done.2.chunks = server.chunks ∧ done.2.objects = server.objects ∧ done.2.media = server.media ∧
      Touches id server done.2 := by
  have touches : ∀ (uploadId : String) (upload : MediaUploadSession), upload.mediaId = id →
      (∀ old, server.sessions.lookup uploadId = some old → old.mediaId = id) →
      Touches id server { server with sessions := server.sessions.insert uploadId upload } := by
    intro uploadId upload mine old
    refine ⟨fun _ _ => rfl, fun _ _ _ => rfl, fun _ _ => rfl, fun uploadId' upload' found => ?_,
      fun uploadId' upload' found => ?_⟩
    · by_cases here : uploadId' = uploadId
      · subst here
        exact ⟨upload, AList.lookup_insert _, mine.trans (old upload' found).symm⟩
      · exact ⟨upload', (AList.lookup_insert_ne here).trans found, rfl⟩
    · rcases Lib.lookup_insert_some found with ⟨-, rfl⟩ | ⟨-, kept⟩
      · exact Or.inl mine
      · exact Or.inr ⟨upload', kept, rfl⟩
  intro done
  simp only [done, openUpload]
  cases found : server.sessionOf id with
  | none =>
    refine ⟨⟨_, AList.lookup_insert _, rfl⟩, rfl, rfl, rfl, touches newId _ rfl ?_⟩
    intro old present
    rw [fresh] at present
    cases present
  | some uploadId =>
    obtain ⟨upload, present, mine⟩ := sessionOf_eq_some found
    refine ⟨⟨_, AList.lookup_insert _, rfl⟩, rfl, rfl, rfl, touches uploadId _ rfl ?_⟩
    intro old present'
    obtain rfl := Option.some_inj.mp (present.symm.trans present')
    exact mine

theorem openSession_ok {now : Timestamp} {newId : String} {request : SessionRequest}
    {response : SessionResponse} (fresh : server.sessions.lookup newId = none)
    (returned : server.openSession now newId request = .ok (response, final)) :
    ∃ row, OpensRow server request row ∧ response.status = row.status ∧
      final.media.lookup request.mediaId = some row ∧ final.chunks = server.chunks ∧
      final.objects = server.objects ∧
      (∃ upload, final.sessions.lookup response.uploadId = some upload ∧
        upload.mediaId = request.mediaId) ∧ Touches request.mediaId server final := by
  unfold openSession at returned
  split at returned
  · cases returned
  · split at returned
    · cases returned
    · split at returned
      · cases returned
      · obtain ⟨-, -, returned⟩ := Lib.bind_ok_iff.mp returned
        obtain ⟨-, -, returned⟩ := Lib.bind_ok_iff.mp returned
        obtain ⟨⟨row, opened⟩, given, returned⟩ := Lib.bind_ok_iff.mp returned
        obtain ⟨opens, chunks, objects, sessions, here, others⟩ := openMedia_ok given
        obtain ⟨session, chunks', objects', media', touches⟩ := opened.openUpload_spec request.mediaId newId
          (now + server.registry.sessionTtl) (sessions ▸ fresh)
        cases returned
        have same := fun id => congrArg (AList.lookup id) media'
        refine ⟨row, opens, rfl, (same _).trans here, chunks'.trans chunks, objects'.trans objects, session, ?_⟩
        refine ⟨fun id other => (same id).trans (others id other),
          fun id _ i => congrArg (AList.lookup (id, i)) (chunks'.trans chunks),
          fun key _ => congrArg (AList.lookup key) (objects'.trans objects), ?_, ?_⟩
        · rw [← sessions]
          exact touches.kept
        · rw [← sessions]
          exact touches.opened

def Keyed (server : Server) : Prop :=
  ∀ id i chunk, server.chunks.lookup (id, i) = some chunk → chunk.storageKey = chunkStorageKey id i

theorem storeChunk_spec (env : Envelope) (keyed : server.Keyed) (m : String) (index : Nat) (data : Bytes) :
    let stored := server.storeChunk env m index data
    stored.media = server.media ∧ stored.sessions = server.sessions ∧
      (∀ id i, (id, i) ≠ (m, index) → stored.chunks.lookup (id, i) = server.chunks.lookup (id, i)) ∧
      (∀ key ≠ chunkStorageKey m index, stored.objects.lookup key = server.objects.lookup key) ∧
      ∃ chunk, stored.chunks.lookup (m, index) = some chunk ∧
        chunk.storageKey = chunkStorageKey m index ∧
        (server.chunks.lookup (m, index) = some chunk ∧ stored.objects = server.objects ∨
          stored.objects.lookup (chunkStorageKey m index) = some data) := by
  intro stored
  simp only [stored, storeChunk]
  cases found : server.chunks.lookup (m, index) with
  | none =>
    exact ⟨rfl, rfl, fun id i other => AList.lookup_insert_ne other, fun key other => AList.lookup_insert_ne other,
      _, AList.lookup_insert _, rfl, Or.inr (AList.lookup_insert _)⟩
  | some existing =>
    simp only
    split
    · exact ⟨rfl, rfl, fun id i other => AList.lookup_insert_ne other,
        fun key other => AList.lookup_insert_ne other, _, AList.lookup_insert _, keyed m index existing found,
        Or.inr (AList.lookup_insert _)⟩
    · exact ⟨rfl, rfl, fun _ _ _ => rfl, fun _ _ => rfl, existing, found, keyed m index existing found,
        Or.inl ⟨rfl, rfl⟩⟩

theorem takeChunk_spec (env : Envelope) (keyed : server.Keyed) {uploadId : String} {upload : MediaUploadSession}
    (session : server.sessions.lookup uploadId = some upload) (row : MediaRow) (index : Nat)
    (data : Bytes) :
    let final := (server.takeChunk env uploadId upload row index data).2
    Touches upload.mediaId server final ∧ final.Keyed ∧
      final.media.lookup upload.mediaId = some { row with status := .uploading } ∧
      ∀ i chunk, final.chunks.lookup (upload.mediaId, i) = some chunk →
        i = index ∧ final.objects.lookup chunk.storageKey = some data ∨
          server.chunks.lookup (upload.mediaId, i) = some chunk ∧
            final.objects.lookup chunk.storageKey = server.objects.lookup chunk.storageKey := by
  intro final
  obtain ⟨media, sessions, chunks, objects, chunk, here, key, object⟩ :=
    storeChunk_spec env keyed upload.mediaId index data
  have keyed' : final.Keyed := by
    intro id i chunk' found
    by_cases same : (id, i) = (upload.mediaId, index)
    · cases same
      obtain rfl := Option.some_inj.mp (here.symm.trans found)
      exact key
    · exact keyed id i chunk' ((chunks id i same).symm.trans found)
  refine ⟨⟨?_, ?_, ?_, ?_, ?_⟩, keyed', AList.lookup_insert _, ?_⟩
  · intro id other
    exact (AList.lookup_insert_ne other).trans (congrArg (AList.lookup id) media)
  · intro id other i
    exact chunks id i fun same => other (congrArg Prod.fst same)
  · intro key other
    exact objects key (other index)
  · intro uploadId' upload' found
    by_cases same : uploadId' = uploadId
    · subst same
      obtain rfl := Option.some_inj.mp (session.symm.trans found)
      exact ⟨_, AList.lookup_insert _, rfl⟩
    · exact ⟨upload', (AList.lookup_insert_ne same).trans ((congrArg (AList.lookup uploadId') sessions).trans found),
        rfl⟩
  · intro uploadId' upload' found
    rcases Lib.lookup_insert_some found with ⟨-, rfl⟩ | ⟨-, kept⟩
    · exact Or.inl rfl
    · exact Or.inr ⟨upload', (congrArg (AList.lookup uploadId') sessions).symm.trans kept, rfl⟩
  · intro i chunk' found
    by_cases same : i = index
    · subst same
      obtain rfl := Option.some_inj.mp (here.symm.trans found)
      rcases object with ⟨old, unchanged⟩ | new
      · exact Or.inr ⟨old, congrArg (AList.lookup _) unchanged⟩
      · exact Or.inl ⟨rfl, by rw [key]; exact new⟩
    · have old := (chunks upload.mediaId i fun pair => same (congrArg Prod.snd pair)).symm.trans found
      refine Or.inr ⟨old, objects _ ?_⟩
      rw [keyed upload.mediaId i chunk' old]
      exact fun equal => same (chunkStorageKey_inj equal).2

theorem Touches.object {m id : String} (touches : Touches m server final) (keyed : server.Keyed)
    (other : id ≠ m) : final.object id = server.object id := by
  apply object_congr (touches.chunks id other)
  intro i chunk found
  apply touches.objects
  intro j equal
  rw [keyed id i chunk found] at equal
  exact other (chunkStorageKey_inj equal).1

end Server

end DataCollectionLab.Media
