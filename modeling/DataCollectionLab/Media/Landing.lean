import DataCollectionLab.Media.Uploads

/-!
What holds of a file and its uploads in every run, late chunks for complete files among them: every
chunk that has landed is one of the file's in one of its two forms, and the device keeps its copy as
long as its row is not marked uploaded.
-/

namespace DataCollectionLab.Media

variable {env : Envelope} {staged : AList (StagedFile env)}

structure Landing {id : String} (file : StagedFile env id) (server : Server) : Prop where
  counted : ∀ uploadId upload, server.sessions.lookup uploadId = some upload → upload.mediaId = id →
    ∃ row, server.media.lookup id = some row ∧ row.chunkCount = file.files.length
  landed : ∀ i chunk, server.chunks.lookup (id, i) = some chunk → i < file.files.length ∧
    (∃ encrypted data, chunkBytes env id file.row.mediaKey file.files encrypted i = some data ∧
      server.objects.lookup chunk.storageKey = some data) ∧
    ∃ row, server.media.lookup id = some row ∧ row.chunkCount = file.files.length
  whole : ∀ row, server.media.lookup id = some row → row.status = .complete →
    row.chunkCount = file.files.length ∧
      ∀ i < file.files.length, ∃ chunk, server.chunks.lookup (id, i) = some chunk

namespace Landing

open Server

variable {id m : String} {file : StagedFile env id} {server final : Server}

theorem touches (inv : Landing file server) (touches : Touches m server final) (keyed : server.Keyed)
    (other : id ≠ m) : Landing file final where
  counted uploadId upload found mine := by
    rw [touches.media id other]
    rcases touches.opened uploadId upload found with same | ⟨upload', found', same⟩
    · exact absurd (mine.symm.trans same) other
    · exact inv.counted uploadId upload' found' (same.trans mine)
  landed i chunk found := by
    rw [touches.chunks id other] at found
    obtain ⟨bound, ⟨encrypted, data, piece, object⟩, row⟩ := inv.landed i chunk found
    rw [touches.media id other]
    refine ⟨bound, ⟨encrypted, data, piece, ?_⟩, row⟩
    rw [touches.objects, object]
    intro j equal
    rw [keyed id i chunk found] at equal
    exact other (chunkStorageKey_inj equal).1
  whole row found complete := by
    rw [touches.media id other] at found
    obtain ⟨counted, landed⟩ := inv.whole row found complete
    refine ⟨counted, fun i bound => ?_⟩
    rw [touches.chunks id other]
    exact landed i bound

theorem opened_count (inv : Landing file server) {request : SessionRequest} {row : MediaRow}
    (mine : request.mediaId = id) (count : request.chunkCount = file.files.length)
    (opens : OpensRow server request row) : row.chunkCount = file.files.length := by
  subst mine
  cases opens with
  | complete same status => exact (inv.whole row same status).1
  | first new status count' => exact count'.trans count
  | again old same unfinished status count' =>
    rcases count' with stated | ⟨landed, kept⟩
    · exact stated.trans count
    · obtain ⟨i, received⟩ := List.exists_mem_of_ne_nil _ landed
      obtain ⟨chunk, stored⟩ := mem_receivedIndexes.mp received
      obtain ⟨-, -, old', same', counted⟩ := inv.landed i chunk stored
      obtain rfl := Option.some_inj.mp (same.symm.trans same')
      exact kept.trans counted

theorem openSession (inv : Landing file server) {now : Timestamp} {newId : String}
    {request : SessionRequest} {response : SessionResponse} (mine : request.mediaId = id)
    (count : request.chunkCount = file.files.length) (fresh : server.sessions.lookup newId = none)
    (returned : server.openSession now newId request = .ok (response, final)) : Landing file final := by
  obtain ⟨row, opens, -, found, chunks, objects, -, -⟩ := openSession_ok fresh returned
  have counted := inv.opened_count mine count opens
  rw [mine] at found
  refine ⟨fun _ _ _ _ => ⟨row, found, counted⟩, fun i chunk stored => ?_, fun row' found' complete => ?_⟩
  · rw [chunks] at stored
    obtain ⟨bound, ⟨encrypted, data, piece, object⟩, -⟩ := inv.landed i chunk stored
    exact ⟨bound, ⟨encrypted, data, piece, by rw [objects]; exact object⟩, row, found, counted⟩
  · obtain rfl := Option.some_inj.mp (found.symm.trans found')
    rw [chunks]
    cases opens with
    | complete same status => exact inv.whole row (mine ▸ same) status
    | first new status count' => rw [status] at complete; cases complete
    | again old same unfinished status count' => rw [status] at complete; cases complete

theorem takeChunk (inv : Landing file server) (keyed : server.Keyed) {now : Timestamp}
    {uploadId : String} {index : Nat} {data : Bytes} {upload : MediaUploadSession} {row : MediaRow}
    (takes : TakesChunk server now uploadId index data upload row) (mine : upload.mediaId = id)
    {encrypted : Bool}
    (piece : chunkBytes env id file.row.mediaKey file.files encrypted index = some data) :
    Landing file (server.takeChunk env uploadId upload row index data).2 := by
  obtain ⟨-, -, found, chunks⟩ := takeChunk_spec env keyed takes.session row index data
  have media := takes.media
  subst mine
  obtain ⟨row', media', counted⟩ := inv.counted uploadId upload takes.session rfl
  obtain rfl := Option.some_inj.mp (media.symm.trans media')
  refine ⟨fun _ _ _ _ => ⟨_, found, counted⟩, fun i chunk stored => ?_, fun row' found' complete => ?_⟩
  · rcases chunks i chunk stored with ⟨rfl, object⟩ | ⟨old, object⟩
    · exact ⟨counted ▸ takes.inRange, ⟨encrypted, data, piece, object⟩, _, found, counted⟩
    · obtain ⟨bound, ⟨encrypted', data', piece', object'⟩, -⟩ := inv.landed i chunk old
      exact ⟨bound, ⟨encrypted', data', piece', object.trans object'⟩, _, found, counted⟩
  · obtain rfl := Option.some_inj.mp (found.symm.trans found')
    cases complete

theorem complete (inv : Landing file server) {now : Timestamp} {uploadId hash : String}
    {response : CompleteResponse} {upload : MediaUploadSession}
    (session : server.sessions.lookup uploadId = some upload) (mine : upload.mediaId = id)
    (returned : server.complete env now uploadId hash = .ok (response, final)) : Landing file final := by
  obtain ⟨upload', row, bytes, session', media, present, -, -, -, rfl⟩ := complete_ok returned
  obtain rfl := Option.some_inj.mp (session.symm.trans session')
  subst mine
  obtain ⟨row', media', counted⟩ := inv.counted uploadId upload session rfl
  obtain rfl := Option.some_inj.mp (media.symm.trans media')
  refine ⟨fun _ _ _ _ => ⟨_, AList.lookup_insert _, counted⟩, fun i chunk stored => ?_,
    fun row' found _ => ?_⟩
  · obtain ⟨bound, data, -⟩ := inv.landed i chunk stored
    exact ⟨bound, data, _, AList.lookup_insert _, counted⟩
  · rw [AList.lookup_insert] at found
    cases found
    exact ⟨counted, fun i bound => present i (counted ▸ bound)⟩

theorem register (inv : Landing file server) (m submissionId opId path : String) :
    Landing file (server.registerReference m submissionId opId path) := by
  obtain ⟨chunks, objects, sessions, kept, complete⟩ :=
    FileInv.register_row server m submissionId opId path
  have counted : ∀ {row : MediaRow}, server.media.lookup id = some row →
      row.chunkCount = file.files.length → ∃ row',
        (server.registerReference m submissionId opId path).media.lookup id = some row' ∧
          row'.chunkCount = file.files.length := by
    intro row found count
    obtain ⟨row', found', -, count'⟩ := kept id row found
    exact ⟨row', found', count'.trans count⟩
  refine ⟨fun uploadId upload found mine => ?_, fun i chunk stored => ?_, fun row' found' done => ?_⟩
  · rw [sessions] at found
    obtain ⟨row, found, count⟩ := inv.counted uploadId upload found mine
    exact counted found count
  · rw [chunks] at stored
    obtain ⟨bound, data, row, found, count⟩ := inv.landed i chunk stored
    rw [objects]
    exact ⟨bound, data, counted found count⟩
  · obtain ⟨row, found, done, count⟩ := complete id row' found' done
    obtain ⟨count', landed⟩ := inv.whole row found done
    rw [chunks]
    exact ⟨count.trans count', landed⟩

end Landing

def Answer.Owns (server : Server) (answer : Answer) : Prop :=
  match answer.response with
  | .session response => server.Owned response.uploadId answer.mediaId
  | _ => True

structure World.Sound (staged : AList (StagedFile env)) (world : World) : Prop where
  keyed : world.server.Keyed
  held : ∀ id file, staged.lookup id = some file → Landing file world.server
  requests : ∀ message ∈ world.requests, message.Fits staged world.server ∧
    message.exchange ≤ world.exchange ∧
    (message.exchange = world.exchange → world.task = .idle ∨ world.task.subject = some message.mediaId)
  answers : ∀ answer ∈ world.answers, answer.Owns world.server ∧
    answer.exchange ≤ world.exchange ∧
    (answer.exchange = world.exchange → world.task = .idle ∨ world.task.subject = some answer.mediaId)
  task : world.task.Fits staged world.server
  rows : ∀ id file, staged.lookup id = some file → ∃ row, world.rows.lookup id = some row ∧
    row.Of file ∧ (row.uploaded = false → world.files.lookup id = some file.files)
  known : ∀ id row, world.rows.lookup id = some row → ∃ file, staged.lookup id = some file
  copies : ∀ id file files, staged.lookup id = some file → world.files.lookup id = some files →
    files = file.files

namespace World

variable {world : World}

theorem Sound.served (sound : world.Sound staged) {final : Server}
    (grows : world.server.Grows final) (sealings : List SealedNote)
    (held : ∀ id file, staged.lookup id = some file → Landing file final) :
    Sound staged { world with server := final, sealings := sealings } := by
  refine { sound with
    keyed := grows.keyed sound.keyed
    held := held
    requests := fun message member => (sound.requests message member).imp_left fun fits => fits.mono grows
    answers := fun answer member => (sound.answers answer member).imp_left fun owns => ?_
    task := sound.task.mono grows }
  unfold Answer.Owns at owns ⊢
  split
  · rename_i response given
    rw [given] at owns
    exact grows.owned _ _ owns
  · trivial

theorem Sound.handled (sound : world.Sound staged) {m : String} {final : Server}
    (touches : Server.Touches m world.server final) (grows : world.server.Grows final)
    (sealings : List SealedNote)
    (own : ∀ file, staged.lookup m = some file → Landing file final) :
    Sound staged { world with server := final, sealings := sealings } := by
  refine sound.served grows sealings fun id file found => ?_
  by_cases here : id = m
  · subst here
    exact own file found
  · exact (sound.held id file found).touches touches sound.keyed here

theorem Sound.answered (sound : world.Sound staged) {message : Message} (sent : message ∈ world.requests)
    {response : Response}
    (owns : Answer.Owns world.server ⟨message.exchange, message.mediaId, response⟩) :
    Sound staged { world with
      answers := world.answers ++ [⟨message.exchange, message.mediaId, response⟩] } := by
  refine { sound with answers := fun answer member => ?_ }
  rcases List.mem_append.mp member with old | new
  · exact sound.answers answer old
  · obtain rfl := List.mem_singleton.mp new
    exact ⟨owns, (sound.requests message sent).2⟩

theorem sound_serve (sound : world.Sound staged) {message : Message} (member : message ∈ world.requests)
    {now : Timestamp} {newId : String} (fresh : world.server.sessions.lookup newId = none) :
    (world.serve env message now newId).Sound staged := by
  obtain ⟨exchange, mediaId, asked⟩ := message
  obtain ⟨⟨file, found, about⟩, -⟩ := sound.requests _ member
  unfold serve
  simp only at file found about ⊢
  cases returned : world.server.handle env now newId asked with
  | error fault => exact sound
  | ok done =>
    obtain ⟨response, final⟩ := done
    obtain ⟨m, subject, touches, grows⟩ := Server.handle_touches sound.keyed fresh returned
    have own := sound.held mediaId file found
    have only : ∀ file', staged.lookup mediaId = some file' → file' = file := fun file' found' =>
      Option.some_inj.mp (found'.symm.trans found)
    cases asked with
    | openSession request =>
      obtain ⟨rfl, count⟩ := about
      cases subject
      obtain ⟨⟨response, final⟩, opened, same⟩ := Lib.map_ok_iff.mp returned
      cases same
      have next := sound.handled touches grows (world.sealings ++ []) fun file' found' => by
        obtain rfl := only file' found'
        exact own.openSession rfl count fresh opened
      obtain ⟨row, -, -, -, -, -, session, -⟩ := Server.openSession_ok fresh opened
      exact next.answered member session
    | putChunk uploadId chunkIndex data =>
      obtain ⟨⟨upload, session, rfl⟩, encrypted, piece⟩ := about
      obtain ⟨done, put, same⟩ := Lib.map_ok_iff.mp returned
      obtain ⟨upload', row, takes, rfl⟩ := Server.putChunk_ok_iff.mp put
      cases same
      obtain rfl := Option.some_inj.mp (session.symm.trans takes.session)
      obtain rfl : upload.mediaId = m := by simpa [Server.subject, session] using subject
      have next := sound.handled touches grows (world.sealings ++ []) fun file' found' => by
        obtain rfl := only file' found'
        exact own.takeChunk sound.keyed takes rfl piece
      exact next.answered member trivial
    | complete uploadId hash =>
      obtain ⟨⟨upload, session, rfl⟩, encrypted, rfl⟩ := about
      obtain rfl : upload.mediaId = m := by simpa [Server.subject, session] using subject
      obtain ⟨⟨response, final⟩, completed, same⟩ := Lib.map_ok_iff.mp returned
      cases same
      have next := sound.handled touches grows (world.sealings ++
          [⟨response.mediaId, (final.object response.mediaId).getD [], response.hash, response.sizeBytes⟩])
          fun file' found' => by
        obtain rfl := only file' found'
        exact own.complete session rfl completed
      exact next.answered member trivial

theorem Sound.send (sound : world.Sound staged) {mediaId : String} {task : Task} {request : Request}
    (subject : task.subject = some mediaId) (fits : task.Fits staged world.server)
    (sends : Message.Fits staged world.server ⟨world.exchange + 1, mediaId, request⟩) :
    (world.send mediaId task request).Sound staged := by
  refine { sound with
    requests := fun message member => ?_, answers := fun answer member => ?_, task := fits }
  · rcases List.mem_append.mp member with old | new
    · obtain ⟨fits, earlier, -⟩ := sound.requests message old
      refine ⟨fits, Nat.le_succ_of_le earlier, fun same => ?_⟩
      simp only [World.send] at same
      omega
    · obtain rfl := List.mem_singleton.mp new
      exact ⟨sends, Nat.le_refl _, fun _ => Or.inr subject⟩
  · obtain ⟨owns, earlier, -⟩ := sound.answers answer member
    refine ⟨owns, Nat.le_succ_of_le earlier, fun same => ?_⟩
    simp only [World.send] at same
    omega

theorem sound_idle (sound : world.Sound staged) : Sound staged { world with task := .idle } := by
  refine { sound with
    requests := fun message member => ?_, answers := fun answer member => ?_, task := trivial }
  · obtain ⟨fits, earlier, -⟩ := sound.requests message member
    exact ⟨fits, earlier, fun _ => Or.inl rfl⟩
  · obtain ⟨owns, earlier, -⟩ := sound.answers answer member
    exact ⟨owns, earlier, fun _ => Or.inl rfl⟩

theorem Sound.write (sound : world.Sound staged) {mediaId : String} {row : StagedMedia}
    (found : world.rows.lookup mediaId = some row) (row' : StagedMedia)
    (of : ∀ file : StagedFile env mediaId, row.Of file → row'.Of file)
    (still : row'.uploaded = false → row.uploaded = false) :
    Sound staged { world with rows := world.rows.insert mediaId row' } := by
  refine { sound with rows := fun id file known => ?_, known := fun id row known => ?_ }
  · obtain ⟨old, present, mine, copy⟩ := sound.rows id file known
    by_cases here : id = mediaId
    · subst here
      obtain rfl := Option.some_inj.mp (found.symm.trans present)
      exact ⟨row', AList.lookup_insert _, of file mine, fun staged => copy (still staged)⟩
    · exact ⟨old, (AList.lookup_insert_ne here).trans present, mine, copy⟩
  · rcases Lib.lookup_insert_some known with ⟨rfl, -⟩ | ⟨-, old⟩
    · exact sound.known _ _ found
    · exact sound.known id row old

theorem resolveEncryption_uploaded {media resolved : StagedMedia} {crypto : Option ProjectCrypto}
    (settled : resolveEncryption media crypto = some resolved) :
    resolved.uploaded = media.uploaded := by
  unfold resolveEncryption at settled
  split at settled
  · cases settled
    rfl
  · split at settled
    · cases settled
    · split at settled
      · cases settled
        rfl
      · split at settled
        · cases settled
        · cases settled
          rfl

theorem sound_begin (sound : world.Sound staged) {mediaId : String} {crypto : Option ProjectCrypto}
    {world' : World} (begun : world.beginUpload mediaId crypto = some world') :
    world'.Sound staged := by
  unfold beginUpload at begun
  cases found : world.rows.lookup mediaId with
  | none =>
    rw [found] at begun
    cases begun
  | some row =>
    rw [found] at begun
    simp only at begun
    split at begun
    · cases begun
    · obtain ⟨media, settled, rfl⟩ := Option.map_eq_some_iff.mp begun
      obtain ⟨file, known⟩ := sound.known mediaId row found
      obtain ⟨row', present, of, -⟩ := sound.rows mediaId file known
      obtain rfl := Option.some_inj.mp (found.symm.trans present)
      have of' := resolveEncryption_of settled of
      have next := sound.write found media (fun _ => resolveEncryption_of settled)
        fun still => (resolveEncryption_uploaded settled).symm.trans still
      exact next.send rfl ⟨file, known, of'⟩ ⟨file, known, rfl, of'.2.1⟩

theorem sound_next (sound : world.Sound staged) {mediaId uploadId : String} {media : StagedMedia}
    (known : ∃ file, staged.lookup mediaId = some file ∧ media.Of file)
    (owned : world.server.Owned uploadId mediaId) {chunks : List Nat} {world' : World}
    (sent : world.next env mediaId media uploadId chunks = some world') : world'.Sound staged := by
  obtain ⟨file, found, of⟩ := known
  cases chunks with
  | nil =>
    obtain ⟨files, present, sent⟩ := Option.bind_eq_some_iff.mp sent
    obtain ⟨hash, hashed, sent⟩ := Option.bind_eq_some_iff.mp sent
    cases sent
    obtain rfl := sound.copies mediaId file files found present
    rw [uploadHash_of of] at hashed
    cases hashed
    exact sound.send rfl ⟨⟨file, found, of⟩, owned⟩ ⟨file, found, owned, media.encrypted, rfl⟩
  | cons index rest =>
    obtain ⟨files, present, sent⟩ := Option.bind_eq_some_iff.mp sent
    obtain ⟨data, piece, sent⟩ := Option.bind_eq_some_iff.mp sent
    cases sent
    obtain rfl := sound.copies mediaId file files found present
    rw [of.1] at piece
    exact sound.send rfl ⟨⟨file, found, of⟩, owned⟩ ⟨file, found, owned, media.encrypted, piece⟩

theorem sound_finish (sound : world.Sound staged) (mediaId : String) :
    (world.finish mediaId).Sound staged := by
  have written : Sound staged { world.finish mediaId with files := world.files } := by
    unfold finish
    cases found : world.rows.lookup mediaId with
    | none => exact sound_idle sound
    | some row =>
      exact sound_idle (sound.write found { row with uploaded := true, lastError := none }
        (fun _ of => of) fun still => by cases still)
  have erased : ∀ id, (world.finish mediaId).files.lookup id =
      if world.deleteAfterUpload ∧ id = mediaId then none else world.files.lookup id := by
    intro id
    show (if world.deleteAfterUpload then world.files.erase mediaId else world.files).lookup id = _
    split
    · rw [Lib.lookup_erase_eq_ite]
      simp_all
    · simp_all
  refine { written with rows := fun id file known => ?_, copies := fun id file files known present => ?_ }
  · obtain ⟨row, present, of, copy⟩ := written.rows id file known
    refine ⟨row, present, of, fun still => ?_⟩
    rw [erased, if_neg]
    · exact copy still
    · rintro ⟨-, rfl⟩
      obtain ⟨old, stood, -⟩ := sound.rows id file known
      simp only [finish, stood, AList.lookup_insert, Option.some_inj] at present
      subst present
      cases still
  · rw [erased] at present
    split at present
    · cases present
    · exact sound.copies id file files known present

theorem sound_receive (sound : world.Sound staged) {answer : Answer} (member : answer ∈ world.answers)
    (here : answer.exchange = world.exchange) {world' : World}
    (received : world.receive env answer.response = some world') : world'.Sound staged := by
  obtain ⟨owns, -, mine⟩ := sound.answers answer member
  have task := sound.task
  have subject := mine here
  unfold receive at received
  split at received
  · rename_i mediaId media response waits answered
    rw [waits] at task subject
    obtain rfl : mediaId = answer.mediaId := by simpa [Task.subject] using subject
    unfold Answer.Owns at owns
    rw [answered] at owns
    split at received
    · cases received
      exact sound_finish sound _
    · exact sound_next sound task owns received
  · rename_i mediaId media uploadId index rest response waits answered
    rw [waits] at task
    exact sound_next sound task.1 task.2 received
  · obtain ⟨files, -, received⟩ := Option.bind_eq_some_iff.mp received
    obtain ⟨hash, -, received⟩ := Option.bind_eq_some_iff.mp received
    split at received
    · cases received
      exact sound_finish sound _
    · cases received
  · cases received

theorem sound_step (sound : world.Sound staged) {act : Act} {world' : World}
    (stepped : world.step env act = some world') : world'.Sound staged := by
  cases act with
  | begin mediaId crypto =>
    simp only [step] at stepped
    split at stepped
    · exact sound_begin sound stepped
    · cases stepped
  | serve request now newId =>
    simp only [step] at stepped
    split at stepped
    · cases stepped
    · rename_i fresh
      obtain ⟨message, sent, rfl⟩ := Option.map_eq_some_iff.mp stepped
      exact sound_serve sound (List.mem_of_getElem? sent) (by simpa using fresh)
  | receive answer =>
    obtain ⟨answer, listed, received⟩ := Option.bind_eq_some_iff.mp stepped
    split at received
    · rename_i here
      exact sound_receive sound (List.mem_of_getElem? listed) here received
    · cases received
  | abort message =>
    cases stepped
    unfold fail
    split
    · exact sound
    · rename_i mediaId _
      cases found : world.rows.lookup mediaId with
      | none => exact sound_idle sound
      | some row =>
        exact sound_idle (sound.write found { row with lastError := some message } (fun _ of => of)
          fun still => still)
  | other request now newId =>
    simp only [step] at stepped
    split at stepped
    · cases stepped
    · rename_i fresh
      split at stepped
      · cases stepped
      · rename_i theirs
        split at stepped
        · cases stepped
        · rename_i response final returned
          cases stepped
          obtain ⟨m, subject, touches, grows⟩ :=
            Server.handle_touches sound.keyed (by simpa using fresh) returned
          refine sound.handled touches grows world.sealings fun file found => ?_
          obtain ⟨row, present, -⟩ := sound.rows m file found
          simp [subject, present] at theirs
  | register mediaId submissionId opId path =>
    cases stepped
    obtain ⟨chunks, -, sessions, -⟩ :=
      FileInv.register_row world.server mediaId submissionId opId path
    refine sound.served ⟨fun keyed id i chunk found => ?_, fun uploadId id owned => ?_⟩ world.sealings
      fun id file found => (sound.held id file found).register mediaId submissionId opId path
    · exact keyed id i chunk (congrArg (AList.lookup (id, i)) chunks ▸ found)
    · obtain ⟨upload, found, mine⟩ := owned
      exact ⟨upload, (congrArg (AList.lookup uploadId) sessions).trans found, mine⟩
  | registry registry =>
    cases stepped
    have grows : world.server.Grows { world.server with registry := registry } :=
      ⟨fun keyed => keyed, fun _ _ owned => owned⟩
    exact sound.served grows world.sealings fun id file found =>
      ⟨(sound.held id file found).counted, (sound.held id file found).landed,
        (sound.held id file found).whole⟩

theorem sound_start (deviceId : String) (deleteAfterUpload : Bool) (registry : Registry)
    (staged : AList (StagedFile env)) :
    (start deviceId deleteAfterUpload registry staged).Sound staged where
  keyed _ _ _ found := by cases found
  held _ _ _ :=
    ⟨fun _ _ found => (by cases found), fun _ _ found => (by cases found), fun _ found => (by cases found)⟩
  requests := List.forall_mem_nil _
  answers := List.forall_mem_nil _
  task := trivial
  rows id file found := by
    refine ⟨file.row, ?_, ⟨rfl, file.counted, rfl⟩, fun _ => ?_⟩
    · show (Lib.mapValues _ staged).lookup id = _
      rw [Lib.lookup_mapValues, found]
      rfl
    · show (Lib.mapValues _ staged).lookup id = _
      rw [Lib.lookup_mapValues, found]
      rfl
  known id row found := by
    have given : (Lib.mapValues (fun _ file => file.row) staged).lookup id = some row := found
    rw [Lib.lookup_mapValues] at given
    obtain ⟨file, known, -⟩ := Option.map_eq_some_iff.mp given
    exact ⟨file, known⟩
  copies id file files known found := by
    have given : (Lib.mapValues (fun _ file => file.files) staged).lookup id = some files := found
    rw [Lib.lookup_mapValues, known] at given
    exact (Option.some_inj.mp given).symm

theorem sound_reached (deviceId : String) (deleteAfterUpload : Bool) (registry : Registry)
    (staged : AList (StagedFile env)) (acts : List Act) :
    (acts.foldl (after env) (start deviceId deleteAfterUpload registry staged)).Sound staged := by
  induction acts using List.reverseRecOn with
  | nil => exact sound_start deviceId deleteAfterUpload registry staged
  | append_singleton acts act ih =>
    rw [List.foldl_append, List.foldl_cons, List.foldl_nil]
    unfold after
    cases stepped : World.step env _ act with
    | none => exact ih
    | some world' => exact sound_step ih stepped

end World

end DataCollectionLab.Media
