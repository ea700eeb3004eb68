import DataCollectionLab.Lib.Runs
import DataCollectionLab.Media.Effects
import DataCollectionLab.Media.Uploader

/-!
Uploads are exact, and final as long as no chunk is taken for a file that is complete: `put_chunk` puts
the file back to `uploading` and does not look whether it was sealed.
-/

namespace DataCollectionLab.Media

namespace StagedFile

variable {env : Envelope} {id : String} (file : StagedFile env id)

/-- The file as it is sent: the ciphertext, or in `standard` mode what it decrypts to. -/
def wire (encrypted : Bool) : Bytes := if encrypted then file.files.flatten else file.plaintext

def declaredSize (encrypted : Bool) : Nat :=
  if encrypted then file.row.ciphertextSize else file.row.plaintextSize

def assembled (encrypted : Nat → Bool) : Option Bytes :=
  wireBytes env id file.row.mediaKey file.files encrypted

def Addressed : Prop :=
  ∀ forms bytes encrypted, file.assembled forms = some bytes →
    env.sha256 bytes = env.sha256 (file.wire encrypted) → bytes = file.wire encrypted

theorem wire_length (encrypted : Bool) : (file.wire encrypted).length = file.declaredSize encrypted := by
  cases encrypted with
  | false => exact file.sized.2.symm
  | true => exact file.sized.1.symm

end StagedFile

variable {env : Envelope}

def SealedNote.Exact (staged : AList (StagedFile env)) (note : SealedNote) : Prop :=
  ∃ file encrypted, staged.lookup note.mediaId = some file ∧ note.bytes = file.wire encrypted ∧
    note.ciphertextHash = env.sha256 (file.wire encrypted) ∧ note.sizeBytes = file.declaredSize encrypted

def SealedNote.Stands (server : Server) (note : SealedNote) : Prop :=
  (∃ row, server.media.lookup note.mediaId = some row ∧ row.status = .complete) ∧
    server.object note.mediaId = some note.bytes

/-- Uploads are exact and final, and a copy is dropped only once its file was sealed. -/
structure UploadsSafe (staged : AList (StagedFile env)) (world : World) : Prop where
  exact : ∀ note ∈ world.sealings, note.Exact staged
  final : ∀ note ∈ world.sealings, note.Stands world.server
  dropped : ∀ id file, staged.lookup id = some file → world.files.lookup id = none →
    ∃ note ∈ world.sealings, note.mediaId = id

/-- A request that puts a chunk of a complete file, and that `put_chunk` takes. -/
def PutsAfterSeal (world : World) : Act → Prop
  | .serve request now newId =>
    world.server.sessions.lookup newId = none ∧
      ∃ message uploadId chunkIndex data upload row, world.requests[request]? = some message ∧
        message.request = .putChunk uploadId chunkIndex data ∧
        world.server.TakesChunk now uploadId chunkIndex data upload row ∧ row.status = .complete
  | _ => False

structure FileInv {id : String} (file : StagedFile env id) (server : Server)
    (sealings : List SealedNote) : Prop where
  counted : ∀ uploadId upload, server.sessions.lookup uploadId = some upload → upload.mediaId = id →
    ∃ row, server.media.lookup id = some row ∧ row.chunkCount = file.files.length
  landed : ∀ i chunk, server.chunks.lookup (id, i) = some chunk → i < file.files.length ∧
    (∃ encrypted data, chunkBytes env id file.row.mediaKey file.files encrypted i = some data ∧
      server.objects.lookup chunk.storageKey = some data) ∧
    ∃ row, server.media.lookup id = some row ∧ row.chunkCount = file.files.length
  noted : ∀ row, server.media.lookup id = some row → row.status = .complete →
    row.chunkCount = file.files.length ∧ ∃ note ∈ sealings, note.mediaId = id
  stands : ∀ note ∈ sealings, note.mediaId = id → note.Stands server

namespace FileInv

open Server

variable {id m : String} {file : StagedFile env id} {server final : Server}
  {sealings : List SealedNote}

theorem touches (inv : FileInv file server sealings) (touches : Touches m server final)
    (keyed : server.Keyed) (other : id ≠ m) {notes : List SealedNote}
    (theirs : ∀ note ∈ notes, note.mediaId = m) : FileInv file final (sealings ++ notes) where
  counted uploadId upload found mine := by
    rw [touches.media id other]
    rcases touches.opened uploadId upload found with same | ⟨upload', found', same⟩
    · exact absurd (mine.symm.trans same) other
    · exact inv.counted uploadId upload' found' (same.trans mine)
  landed i chunk found := by
    rw [touches.chunks id other] at found
    obtain ⟨bound, ⟨encrypted, data, piece, object⟩, row⟩ := inv.landed i chunk found
    rw [touches.media id other]
    refine ⟨bound, ⟨encrypted, data, piece, ?_⟩, row⟩
    rw [touches.objects, object]
    intro j equal
    rw [keyed id i chunk found] at equal
    exact other (chunkStorageKey_inj equal).1
  noted row found complete := by
    rw [touches.media id other] at found
    obtain ⟨counted, note, member, mine⟩ := inv.noted row found complete
    exact ⟨counted, note, List.mem_append_left _ member, mine⟩
  stands note member mine := by
    rcases List.mem_append.mp member with old | new
    · obtain ⟨complete, object⟩ := inv.stands note old mine
      subst mine
      refine ⟨?_, ?_⟩
      · rw [touches.media _ other]
        exact complete
      · rw [touches.object keyed other, object]
    · exact absurd (mine.symm.trans (theirs note new)) other

theorem stands_congr {note : SealedNote} (stands : note.Stands server) {row : MediaRow}
    (found : final.media.lookup note.mediaId = some row) (complete : row.status = .complete)
    (chunks : final.chunks = server.chunks) (objects : final.objects = server.objects) :
    note.Stands final := by
  refine ⟨⟨row, found, complete⟩, ?_⟩
  rw [← stands.2]
  exact object_congr (fun i => by rw [chunks]) fun i chunk _ => by rw [objects]

theorem openSession (inv : FileInv file server sealings) {now : Timestamp} {newId : String}
    {request : SessionRequest} {response : SessionResponse} (mine : request.mediaId = id)
    (count : request.chunkCount = file.files.length) (fresh : server.sessions.lookup newId = none)
    (returned : server.openSession now newId request = .ok (response, final)) :
    FileInv file final sealings := by
  obtain ⟨row, opens, -, found, chunks, objects, -, touches⟩ := openSession_ok fresh returned
  rw [mine] at found
  have counted : row.chunkCount = file.files.length := by
    cases opens with
    | complete same status =>
      exact (inv.noted row (mine ▸ same) status).1
    | first new status count' => exact count'.trans count
    | again old same unfinished status count' =>
      rcases count' with stated | ⟨landed, kept⟩
      · exact stated.trans count
      · obtain ⟨i, received⟩ := List.exists_mem_of_ne_nil _ landed
        obtain ⟨chunk, stored⟩ := mem_receivedIndexes.mp received
        rw [mine] at stored same
        obtain ⟨-, -, old', same', counted⟩ := inv.landed i chunk stored
        obtain rfl := Option.some_inj.mp (same.symm.trans same')
        exact kept.trans counted
  refine ⟨fun _ _ _ _ => ⟨row, found, counted⟩, ?_, ?_, ?_⟩
  · intro i chunk stored
    rw [chunks] at stored
    obtain ⟨bound, ⟨encrypted, data, piece, object⟩, -⟩ := inv.landed i chunk stored
    exact ⟨bound, ⟨encrypted, data, piece, by rw [objects]; exact object⟩, row, found, counted⟩
  · intro row' found' complete
    obtain rfl := Option.some_inj.mp (found.symm.trans found')
    cases opens with
    | complete same status => exact inv.noted row (mine ▸ same) status
    | first new status count' => rw [status] at complete; cases complete
    | again old same unfinished status count' => rw [status] at complete; cases complete
  · intro note member here
    have stands := inv.stands note member here
    obtain ⟨old, present, complete⟩ := stands.1
    refine stands_congr stands (here ▸ found) ?_ chunks objects
    cases opens with
    | complete same status => exact status
    | first new status count' =>
      rw [mine, ← here, present] at new
      cases new
    | again old' same unfinished status count' =>
      rw [mine, ← here, present] at same
      obtain rfl := Option.some_inj.mp same
      exact absurd complete unfinished

theorem takeChunk (inv : FileInv file server sealings) (keyed : server.Keyed) {now : Timestamp}
    {uploadId : String} {index : Nat} {data : Bytes} {upload : MediaUploadSession} {row : MediaRow}
    (takes : TakesChunk server now uploadId index data upload row) (mine : upload.mediaId = id)
    {encrypted : Bool} (piece : chunkBytes env id file.row.mediaKey file.files encrypted index = some data)
    (unfinished : row.status ≠ .complete) :
    FileInv file (server.takeChunk env uploadId upload row index data).2 sealings := by
  obtain ⟨-, -, found, chunks⟩ := takeChunk_spec env keyed takes.session row index data
  have media := takes.media
  subst mine
  obtain ⟨row', media', counted⟩ := inv.counted uploadId upload takes.session rfl
  obtain rfl := Option.some_inj.mp (media.symm.trans media')
  have none : ∀ note ∈ sealings, note.mediaId ≠ upload.mediaId := by
    intro note member here
    obtain ⟨⟨row', present, complete⟩, -⟩ := inv.stands note member here
    rw [here, media] at present
    cases present
    exact unfinished complete
  refine ⟨fun _ _ _ _ => ⟨_, found, counted⟩, ?_, ?_, ?_⟩
  · intro i chunk stored
    rcases chunks i chunk stored with ⟨rfl, object⟩ | ⟨old, object⟩
    · exact ⟨counted ▸ takes.inRange, ⟨encrypted, data, piece, object⟩, _, found, counted⟩
    · obtain ⟨bound, ⟨encrypted', data', piece', object'⟩, -⟩ := inv.landed i chunk old
      exact ⟨bound, ⟨encrypted', data', piece', object.trans object'⟩, _, found, counted⟩
  · intro row' found' complete
    obtain rfl := Option.some_inj.mp (found.symm.trans found')
    cases complete
  · intro note member here
    exact absurd here (none note member)

theorem object_assembled (inv : FileInv file server sealings)
    (present : ∀ i < file.files.length, ∃ chunk, server.chunks.lookup (id, i) = some chunk) :
    ∃ forms, server.object id = file.assembled forms := by
  have form : ∀ i, ∃ encrypted, ∀ chunk, server.chunks.lookup (id, i) = some chunk →
      server.objects.lookup chunk.storageKey =
        chunkBytes env id file.row.mediaKey file.files encrypted i := by
    intro i
    cases stored : server.chunks.lookup (id, i) with
    | none => exact ⟨true, fun chunk found => by cases found⟩
    | some chunk =>
      obtain ⟨-, ⟨encrypted, data, piece, object⟩, -⟩ := inv.landed i chunk stored
      refine ⟨encrypted, fun chunk' found => ?_⟩
      cases found
      exact object.trans piece.symm
  choose forms objects using form
  have indexes : (server.chunkRows id).map Prod.fst = List.range file.files.length := by
    refine @Lib.Ascending.eq_of_mem_iff Nat (fun i => i) _ _ ?_ ?_ ?_
    · exact List.pairwise_map.mpr (server.chunkRows_ascending id)
    · exact List.pairwise_lt_range
    · intro i
      rw [List.mem_range]
      constructor
      · intro received
        obtain ⟨chunk, stored⟩ := mem_receivedIndexes.mp received
        exact (inv.landed i chunk stored).1
      · intro bound
        exact mem_receivedIndexes.mpr (present i bound)
  refine ⟨forms, congrArg (Option.map List.flatten) ?_⟩
  rw [← indexes, List.mapM_map]
  apply Lib.mapM_congr
  rintro ⟨i, chunk⟩ member
  exact objects i chunk (mem_chunkRows.mp member)

theorem complete (inv : FileInv file server sealings) (addressed : file.Addressed) {now : Timestamp}
    {uploadId : String} {encrypted : Bool} {response : CompleteResponse} {upload : MediaUploadSession}
    (session : server.sessions.lookup uploadId = some upload) (mine : upload.mediaId = id)
    (returned : server.complete env now uploadId (env.sha256 (file.wire encrypted)) =
      .ok (response, final)) :
    response.mediaId = id ∧ final.object id = some (file.wire encrypted) ∧
      response.hash = env.sha256 (file.wire encrypted) ∧
      response.sizeBytes = file.declaredSize encrypted ∧
      FileInv file final (sealings ++
        [⟨id, file.wire encrypted, response.hash, response.sizeBytes⟩]) := by
  obtain ⟨upload', row, bytes, session', media, present, object, hash, rfl, rfl⟩ := complete_ok returned
  obtain rfl := Option.some_inj.mp (session.symm.trans session')
  subst mine
  obtain ⟨row', media', counted⟩ := inv.counted uploadId upload session rfl
  obtain rfl := Option.some_inj.mp (media.symm.trans media')
  obtain ⟨forms, assembled⟩ := inv.object_assembled fun i bound => present i (counted ▸ bound)
  obtain rfl : bytes = file.wire encrypted :=
    addressed forms bytes encrypted (assembled.symm.trans object) hash
  refine ⟨rfl, object, rfl, file.wire_length encrypted, ⟨?_, ?_, ?_, ?_⟩⟩
  · exact fun _ _ _ _ => ⟨_, AList.lookup_insert _, counted⟩
  · intro i chunk stored
    obtain ⟨bound, data, -⟩ := inv.landed i chunk stored
    exact ⟨bound, data, _, AList.lookup_insert _, counted⟩
  · intro row' found complete
    rw [AList.lookup_insert] at found
    cases found
    exact ⟨counted, _, List.mem_append_right _ (List.mem_singleton_self _), rfl⟩
  · intro note member here
    refine ⟨⟨_, by rw [here]; exact AList.lookup_insert _, rfl⟩, ?_⟩
    rcases List.mem_append.mp member with old | new
    · exact (inv.stands note old here).2
    · rw [List.mem_singleton.mp new]
      exact object

theorem register_row (server : Server) (m submissionId opId path : String) :
    let final := server.registerReference m submissionId opId path
    final.chunks = server.chunks ∧ final.objects = server.objects ∧ final.sessions = server.sessions ∧
      (∀ id row, server.media.lookup id = some row → ∃ row', final.media.lookup id = some row' ∧
        row'.status = row.status ∧ row'.chunkCount = row.chunkCount) ∧
      ∀ id row', final.media.lookup id = some row' → row'.status = .complete →
        ∃ row, server.media.lookup id = some row ∧ row.status = .complete ∧ row'.chunkCount = row.chunkCount := by
  intro final
  simp only [final, registerReference]
  cases found : server.media.lookup m with
  | none =>
    refine ⟨rfl, rfl, rfl, fun id row present => ?_, fun id row' present complete => ?_⟩
    · have other : id ≠ m := by
        rintro rfl
        rw [found] at present
        cases present
      exact ⟨row, (AList.lookup_insert_ne other).trans present, rfl, rfl⟩
    · rcases Lib.lookup_insert_some present with ⟨-, rfl⟩ | ⟨-, old⟩
      · cases complete
      · exact ⟨row', old, complete, rfl⟩
  | some row =>
    simp only
    split
    · refine ⟨rfl, rfl, rfl, fun id row₀ present => ?_, fun id row' present complete => ?_⟩
      · by_cases here : id = m
        · subst here
          obtain rfl := Option.some_inj.mp (found.symm.trans present)
          exact ⟨_, AList.lookup_insert _, rfl, rfl⟩
        · exact ⟨row₀, (AList.lookup_insert_ne here).trans present, rfl, rfl⟩
      · rcases Lib.lookup_insert_some present with ⟨rfl, rfl⟩ | ⟨-, old⟩
        · exact ⟨row, found, complete, rfl⟩
        · exact ⟨row', old, complete, rfl⟩
    · exact ⟨rfl, rfl, rfl, fun id row₀ present => ⟨row₀, present, rfl, rfl⟩,
        fun id row' present complete => ⟨row', present, complete, rfl⟩⟩

theorem register (inv : FileInv file server sealings) (m submissionId opId path : String) :
    FileInv file (server.registerReference m submissionId opId path) sealings := by
  obtain ⟨chunks, objects, sessions, kept, complete⟩ := register_row server m submissionId opId path
  have counted : ∀ {row : MediaRow}, server.media.lookup id = some row →
      row.chunkCount = file.files.length → ∃ row',
        (server.registerReference m submissionId opId path).media.lookup id = some row' ∧
          row'.chunkCount = file.files.length := by
    intro row found count
    obtain ⟨row', found', -, count'⟩ := kept id row found
    exact ⟨row', found', count'.trans count⟩
  refine ⟨fun uploadId upload found mine => ?_, fun i chunk stored => ?_, fun row' found' done => ?_,
    fun note member mine => ?_⟩
  · rw [sessions] at found
    obtain ⟨row, found, count⟩ := inv.counted uploadId upload found mine
    exact counted found count
  · rw [chunks] at stored
    obtain ⟨bound, data, row, found, count⟩ := inv.landed i chunk stored
    rw [objects]
    exact ⟨bound, data, counted found count⟩
  · obtain ⟨row, found, done, count⟩ := complete id row' found' done
    obtain ⟨count', noted⟩ := inv.noted row found done
    exact ⟨count.trans count', noted⟩
  · have stands := inv.stands note member mine
    obtain ⟨row, found, done⟩ := stands.1
    obtain ⟨row', found', status, -⟩ := kept note.mediaId row found
    exact stands_congr stands found' (status.trans done) chunks objects

end FileInv

end DataCollectionLab.Media
