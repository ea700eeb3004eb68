import DataCollectionLab.Media.Sealing

/-!
Whole runs of the uploader. What is on the wire is about files as they were staged, and a session once
opened stays its file's, so a late request does to the server what a prompt one would have done.
-/

namespace DataCollectionLab.Media

variable {env : Envelope} {staged : AList (StagedFile env)}

def Server.Owned (server : Server) (uploadId mediaId : String) : Prop :=
  ∃ upload, server.sessions.lookup uploadId = some upload ∧ upload.mediaId = mediaId

def Noted (sealings : List SealedNote) (mediaId : String) : Prop :=
  ∃ note ∈ sealings, note.mediaId = mediaId

def StagedMedia.Of {id : String} (file : StagedFile env id) (media : StagedMedia) : Prop :=
  media.mediaKey = file.row.mediaKey ∧ media.chunkCount = file.files.length ∧
    media.ciphertextHash = file.row.ciphertextHash

def Message.Fits (staged : AList (StagedFile env)) (server : Server) (message : Message) : Prop :=
  ∃ file, staged.lookup message.mediaId = some file ∧
    match message.request with
    | .openSession request =>
      request.mediaId = message.mediaId ∧ request.chunkCount = file.files.length
    | .putChunk uploadId chunkIndex data => server.Owned uploadId message.mediaId ∧
      ∃ encrypted,
        chunkBytes env message.mediaId file.row.mediaKey file.files encrypted chunkIndex = some data
    | .complete uploadId hash => server.Owned uploadId message.mediaId ∧
      ∃ encrypted, hash = env.sha256 (file.wire encrypted)

def Answer.Fits (server : Server) (sealings : List SealedNote) (answer : Answer) : Prop :=
  match answer.response with
  | .session response => server.Owned response.uploadId answer.mediaId ∧
    (response.status = .complete → Noted sealings answer.mediaId)
  | .chunk _ => True
  | .completed _ => Noted sealings answer.mediaId

def Task.Fits (staged : AList (StagedFile env)) (server : Server) : Task → Prop
  | .idle => True
  | .opening mediaId media => ∃ file, staged.lookup mediaId = some file ∧ media.Of file
  | .sending mediaId media uploadId _ | .finishing mediaId media uploadId =>
    (∃ file, staged.lookup mediaId = some file ∧ media.Of file) ∧ server.Owned uploadId mediaId

structure World.Inv (staged : AList (StagedFile env)) (world : World) : Prop where
  keyed : world.server.Keyed
  held : ∀ id file, staged.lookup id = some file → FileInv file world.server world.sealings
  exact : ∀ note ∈ world.sealings, note.Exact staged
  requests : ∀ message ∈ world.requests, message.Fits staged world.server ∧
    message.exchange ≤ world.exchange ∧
    (message.exchange = world.exchange → world.task = .idle ∨ world.task.subject = some message.mediaId)
  answers : ∀ answer ∈ world.answers, answer.Fits world.server world.sealings ∧
    answer.exchange ≤ world.exchange ∧
    (answer.exchange = world.exchange → world.task = .idle ∨ world.task.subject = some answer.mediaId)
  task : world.task.Fits staged world.server
  rows : ∀ id file, staged.lookup id = some file →
    ∃ row, world.rows.lookup id = some row ∧ row.Of file
  known : ∀ id row, world.rows.lookup id = some row → ∃ file, staged.lookup id = some file
  copies : ∀ id file, staged.lookup id = some file → world.files.lookup id = some file.files ∨
    world.files.lookup id = none ∧ Noted world.sealings id

theorem World.Inv.safe {world : World} (inv : world.Inv staged) : UploadsSafe staged world where
  exact := inv.exact
  final note member := by
    obtain ⟨file, _, found, -⟩ := inv.exact note member
    exact (inv.held note.mediaId file found).stands note member rfl
  dropped id file found gone := by
    rcases inv.copies id file found with here | ⟨-, noted⟩
    · rw [gone] at here
      cases here
    · exact noted

structure Server.Grows (server final : Server) : Prop where
  keyed : server.Keyed → final.Keyed
  owned : ∀ uploadId mediaId, server.Owned uploadId mediaId → final.Owned uploadId mediaId

theorem Noted.mono {sealings notes : List SealedNote} {id : String} (noted : Noted sealings id) :
    Noted (sealings ++ notes) id := by
  obtain ⟨note, member, same⟩ := noted
  exact ⟨note, List.mem_append_left _ member, same⟩

theorem Message.Fits.mono {server final : Server} {message : Message}
    (fits : message.Fits staged server) (grows : server.Grows final) : message.Fits staged final := by
  obtain ⟨file, found, about⟩ := fits
  refine ⟨file, found, ?_⟩
  cases request : message.request with
  | openSession => simpa only [request] using about
  | putChunk => exact (by simpa only [request] using about : _ ∧ _).imp_left (grows.owned _ _)
  | complete => exact (by simpa only [request] using about : _ ∧ _).imp_left (grows.owned _ _)

theorem Answer.Fits.mono {server final : Server} {sealings notes : List SealedNote} {answer : Answer}
    (fits : answer.Fits server sealings) (grows : server.Grows final) :
    answer.Fits final (sealings ++ notes) := by
  unfold Answer.Fits at fits ⊢
  cases response : answer.response with
  | session =>
    simp only [response] at fits ⊢
    exact ⟨grows.owned _ _ fits.1, fun complete => (fits.2 complete).mono⟩
  | chunk => trivial
  | completed =>
    simp only [response] at fits ⊢
    exact fits.mono

theorem Task.Fits.mono {server final : Server} {task : Task} (fits : task.Fits staged server)
    (grows : server.Grows final) : task.Fits staged final := by
  cases task with
  | idle => trivial
  | opening => exact fits
  | sending => exact ⟨fits.1, grows.owned _ _ fits.2⟩
  | finishing => exact ⟨fits.1, grows.owned _ _ fits.2⟩

theorem World.Inv.served {world : World} (inv : world.Inv staged) {final : Server}
    (grows : world.server.Grows final) (notes : List SealedNote)
    (held : ∀ id file, staged.lookup id = some file → FileInv file final (world.sealings ++ notes))
    (exact : ∀ note ∈ notes, note.Exact staged) :
    Inv staged { world with server := final, sealings := world.sealings ++ notes } where
  keyed := grows.keyed inv.keyed
  held := held
  exact note member := by
    rcases List.mem_append.mp member with old | new
    · exact inv.exact note old
    · exact exact note new
  requests message member := (inv.requests message member).imp_left fun fits => fits.mono grows
  answers answer member := (inv.answers answer member).imp_left fun fits => fits.mono grows
  task := inv.task.mono grows
  rows := inv.rows
  known := inv.known
  copies id file found := (inv.copies id file found).imp_right fun gone => gone.imp_right Noted.mono

namespace Server

variable {server final : Server}

theorem Touches.grows {m : String} (touches : Touches m server final)
    (keyed : server.Keyed → final.Keyed) : server.Grows final := by
  refine ⟨keyed, fun uploadId mediaId owned => ?_⟩
  obtain ⟨upload, found, mine⟩ := owned
  obtain ⟨upload', found', same⟩ := touches.kept uploadId upload found
  exact ⟨upload', found', same.trans mine⟩

theorem touches_media (server : Server) (m : String) (row : MediaRow) :
    Touches m server { server with media := server.media.insert m row } where
  media _ other := AList.lookup_insert_ne other
  chunks _ _ _ := rfl
  objects _ _ := rfl
  kept _ upload found := ⟨upload, found, rfl⟩
  opened _ upload found := Or.inr ⟨upload, found, rfl⟩

theorem handle_touches {now : Timestamp} {newId : String} {request : Request} {response : Response}
    (keyed : server.Keyed) (fresh : server.sessions.lookup newId = none)
    (returned : server.handle env now newId request = .ok (response, final)) :
    ∃ m, server.subject request = some m ∧ Touches m server final ∧ server.Grows final := by
  cases request with
  | openSession request =>
    obtain ⟨⟨response, final⟩, opened, same⟩ := Lib.map_ok_iff.mp returned
    cases same
    obtain ⟨row, -, -, -, chunks, -, -, touches⟩ := openSession_ok fresh opened
    refine ⟨request.mediaId, rfl, touches, touches.grows fun keyed id i chunk found => ?_⟩
    exact keyed id i chunk (congrArg (AList.lookup (id, i)) chunks ▸ found)
  | putChunk uploadId chunkIndex data =>
    obtain ⟨done, put, same⟩ := Lib.map_ok_iff.mp returned
    obtain ⟨upload, row, takes, rfl⟩ := putChunk_ok_iff.mp put
    obtain ⟨touches, keyed', -⟩ := takeChunk_spec env keyed takes.session row chunkIndex data
    cases same
    exact ⟨upload.mediaId, by simp [subject, takes.session], touches, touches.grows fun _ => keyed'⟩
  | complete uploadId hash =>
    obtain ⟨⟨response, final⟩, completed, same⟩ := Lib.map_ok_iff.mp returned
    cases same
    obtain ⟨upload, row, bytes, session, -, -, -, -, -, rfl⟩ := complete_ok completed
    have touches := server.touches_media upload.mediaId (sealedRow env now upload.mediaId row bytes)
    exact ⟨upload.mediaId, by simp [subject, session], touches, touches.grows fun keyed => keyed⟩

end Server

namespace World

variable {world : World}

theorem Inv.handled (inv : world.Inv staged) {m : String} {final : Server}
    (touches : Server.Touches m world.server final) (grows : world.server.Grows final)
    (notes : List SealedNote) (theirs : ∀ note ∈ notes, note.mediaId = m)
    (own : ∀ file, staged.lookup m = some file → FileInv file final (world.sealings ++ notes))
    (exact : ∀ note ∈ notes, note.Exact staged) :
    Inv staged { world with server := final, sealings := world.sealings ++ notes } := by
  refine inv.served grows notes (fun id file found => ?_) exact
  by_cases here : id = m
  · subst here
    exact own file found
  · exact (inv.held id file found).touches touches inv.keyed here theirs

theorem Inv.answered (inv : world.Inv staged) {message : Message} (sent : message ∈ world.requests)
    {response : Response}
    (fits : Answer.Fits world.server world.sealings ⟨message.exchange, message.mediaId, response⟩) :
    Inv staged { world with
      answers := world.answers ++ [⟨message.exchange, message.mediaId, response⟩] } := by
  refine { inv with answers := fun answer member => ?_ }
  rcases List.mem_append.mp member with old | new
  · exact inv.answers answer old
  · obtain rfl := List.mem_singleton.mp new
    exact ⟨fits, (inv.requests message sent).2⟩

theorem inv_serve (inv : world.Inv staged)
    (addressed : ∀ id file, staged.lookup id = some file → file.Addressed) {request : Nat}
    {message : Message} (sent : world.requests[request]? = some message) {now : Timestamp}
    {newId : String} (fresh : world.server.sessions.lookup newId = none)
    (prompt : ¬ PutsAfterSeal world (.serve request now newId)) :
    (world.serve env message now newId).Inv staged := by
  have member := List.mem_of_getElem? sent
  obtain ⟨exchange, mediaId, asked⟩ := message
  obtain ⟨⟨file, found, about⟩, -⟩ := inv.requests _ member
  unfold serve
  simp only at file found about ⊢
  cases returned : world.server.handle env now newId asked with
  | error fault => exact inv
  | ok done =>
    obtain ⟨response, final⟩ := done
    obtain ⟨m, subject, touches, grows⟩ := Server.handle_touches inv.keyed fresh returned
    have own := inv.held mediaId file found
    have only : ∀ file', staged.lookup mediaId = some file' → file' = file := fun file' found' =>
      Option.some_inj.mp (found'.symm.trans found)
    cases asked with
    | openSession request =>
      obtain ⟨rfl, count⟩ := about
      cases subject
      obtain ⟨⟨response, final⟩, opened, same⟩ := Lib.map_ok_iff.mp returned
      cases same
      have next := inv.handled touches grows [] (List.forall_mem_nil _) (fun file' found' => by
        obtain rfl := only file' found'
        rw [List.append_nil]
        exact own.openSession rfl count fresh opened) (List.forall_mem_nil _)
      obtain ⟨row, opens, status, -, -, -, session, -⟩ := Server.openSession_ok fresh opened
      refine next.answered member ⟨session, fun complete => Noted.mono ?_⟩
      rw [status] at complete
      cases opens with
      | complete same _ => exact (own.noted row same complete).2
      | first _ uploading _ => rw [uploading] at complete; cases complete
      | again _ _ _ uploading _ => rw [uploading] at complete; cases complete
    | putChunk uploadId chunkIndex data =>
      obtain ⟨⟨upload, session, rfl⟩, encrypted, piece⟩ := about
      obtain ⟨done, put, same⟩ := Lib.map_ok_iff.mp returned
      obtain ⟨upload', row, takes, rfl⟩ := Server.putChunk_ok_iff.mp put
      cases same
      obtain rfl := Option.some_inj.mp (session.symm.trans takes.session)
      obtain rfl : upload.mediaId = m := by simpa [Server.subject, session] using subject
      have unfinished : row.status ≠ .complete := fun complete =>
        prompt ⟨fresh, _, uploadId, chunkIndex, data, upload, row, sent, rfl, takes, complete⟩
      have next := inv.handled touches grows [] (List.forall_mem_nil _) (fun file' found' => by
        obtain rfl := only file' found'
        rw [List.append_nil]
        exact own.takeChunk inv.keyed takes rfl piece unfinished) (List.forall_mem_nil _)
      exact next.answered member trivial
    | complete uploadId hash =>
      obtain ⟨⟨upload, session, rfl⟩, encrypted, rfl⟩ := about
      obtain rfl : upload.mediaId = m := by simpa [Server.subject, session] using subject
      obtain ⟨⟨response, final⟩, completed, same⟩ := Lib.map_ok_iff.mp returned
      cases same
      obtain ⟨rid, object, hash, size, done⟩ :=
        own.complete (addressed _ file found) session rfl completed
      have noted : ({ mediaId := response.mediaId
                      bytes := (final.object response.mediaId).getD []
                      ciphertextHash := response.hash
                      sizeBytes := response.sizeBytes } : SealedNote) =
          ⟨upload.mediaId, file.wire encrypted, response.hash, response.sizeBytes⟩ := by
        rw [rid, object]
        rfl
      simp only [noted]
      have next := inv.handled touches grows
        [⟨upload.mediaId, file.wire encrypted, response.hash, response.sizeBytes⟩]
        (fun note last => by rw [List.mem_singleton.mp last])
        (fun file' found' => by
          obtain rfl := only file' found'
          exact done)
        (fun note last => by
          rw [List.mem_singleton.mp last]
          exact ⟨file, encrypted, found, rfl, hash, size⟩)
      exact next.answered member ⟨_, List.mem_append_right _ (List.mem_singleton_self _), rfl⟩

theorem Inv.moved (inv : world.Inv staged) {final : Server} (grows : world.server.Grows final)
    (held : ∀ id file, staged.lookup id = some file → FileInv file final world.sealings) :
    Inv staged { world with server := final } := by
  have next := inv.served grows [] (by rwa [List.append_nil]) (List.forall_mem_nil _)
  rwa [List.append_nil] at next

theorem inv_other (inv : world.Inv staged) {request : Request} {now : Timestamp} {newId : String}
    {response : Response} {final : Server} (fresh : world.server.sessions.lookup newId = none)
    (theirs : ∀ id, world.server.subject request = some id → world.rows.lookup id = none)
    (returned : world.server.handle env now newId request = .ok (response, final)) :
    Inv staged { world with server := final } := by
  obtain ⟨m, subject, touches, grows⟩ := Server.handle_touches inv.keyed fresh returned
  refine inv.moved grows fun id file found => ?_
  have other : id ≠ m := by
    rintro rfl
    obtain ⟨row, present, -⟩ := inv.rows id file found
    rw [theirs id subject] at present
    cases present
  have kept := (inv.held id file found).touches touches inv.keyed other (List.forall_mem_nil _)
  rwa [List.append_nil] at kept

theorem inv_register (inv : world.Inv staged) (mediaId submissionId opId path : String) :
    Inv staged { world with
      server := world.server.registerReference mediaId submissionId opId path } := by
  obtain ⟨chunks, -, sessions, -⟩ := FileInv.register_row world.server mediaId submissionId opId path
  refine inv.moved ⟨fun keyed id i chunk found => ?_, fun uploadId id owned => ?_⟩ fun id file found =>
    (inv.held id file found).register mediaId submissionId opId path
  · exact keyed id i chunk (congrArg (AList.lookup (id, i)) chunks ▸ found)
  · obtain ⟨upload, found, mine⟩ := owned
    exact ⟨upload, (congrArg (AList.lookup uploadId) sessions).trans found, mine⟩

theorem Inv.send (inv : world.Inv staged) {mediaId : String} {task : Task} {request : Request}
    (subject : task.subject = some mediaId) (fits : task.Fits staged world.server)
    (sends : Message.Fits staged world.server ⟨world.exchange + 1, mediaId, request⟩) :
    (world.send mediaId task request).Inv staged := by
  refine { inv with requests := fun message member => ?_, answers := fun answer member => ?_, task := fits }
  · rcases List.mem_append.mp member with old | new
    · obtain ⟨fits, earlier, -⟩ := inv.requests message old
      refine ⟨fits, Nat.le_succ_of_le earlier, fun same => ?_⟩
      simp only [World.send] at same
      omega
    · obtain rfl := List.mem_singleton.mp new
      exact ⟨sends, Nat.le_refl _, fun _ => Or.inr subject⟩
  · obtain ⟨fits, earlier, -⟩ := inv.answers answer member
    refine ⟨fits, Nat.le_succ_of_le earlier, fun same => ?_⟩
    simp only [World.send] at same
    omega

theorem Inv.write (inv : world.Inv staged) {mediaId : String} {row : StagedMedia}
    (found : world.rows.lookup mediaId = some row) (row' : StagedMedia)
    (of : ∀ file : StagedFile env mediaId, row.Of file → row'.Of file) (task : Task)
    (idle : task = .idle ∨ task = world.task) :
    Inv staged { world with task := task, rows := world.rows.insert mediaId row' } := by
  refine { inv with requests := fun message member => ?_, answers := fun answer member => ?_, task := ?_
                    rows := fun id file known => ?_, known := fun id row known => ?_ }
  · obtain ⟨fits, earlier, here⟩ := inv.requests message member
    refine ⟨fits, earlier, fun same => ?_⟩
    rcases idle with rfl | rfl
    · exact Or.inl rfl
    · exact here same
  · obtain ⟨fits, earlier, here⟩ := inv.answers answer member
    refine ⟨fits, earlier, fun same => ?_⟩
    rcases idle with rfl | rfl
    · exact Or.inl rfl
    · exact here same
  · rcases idle with rfl | rfl
    · trivial
    · exact inv.task
  · obtain ⟨old, present, mine⟩ := inv.rows id file known
    by_cases here : id = mediaId
    · subst here
      obtain rfl := Option.some_inj.mp (found.symm.trans present)
      exact ⟨row', AList.lookup_insert _, of file mine⟩
    · exact ⟨old, (AList.lookup_insert_ne here).trans present, mine⟩
  · rcases Lib.lookup_insert_some known with ⟨rfl, -⟩ | ⟨-, old⟩
    · exact inv.known _ _ found
    · exact inv.known id row old

theorem inv_idle (inv : world.Inv staged) : Inv staged { world with task := .idle } := by
  refine { inv with requests := fun message member => ?_, answers := fun answer member => ?_, task := trivial }
  · obtain ⟨fits, earlier, -⟩ := inv.requests message member
    exact ⟨fits, earlier, fun _ => Or.inl rfl⟩
  · obtain ⟨fits, earlier, -⟩ := inv.answers answer member
    exact ⟨fits, earlier, fun _ => Or.inl rfl⟩

theorem resolveEncryption_of {media resolved : StagedMedia} {crypto : Option ProjectCrypto}
    (settled : resolveEncryption media crypto = some resolved) {id : String} {file : StagedFile env id}
    (of : media.Of file) : resolved.Of file := by
  unfold resolveEncryption at settled
  split at settled
  · cases settled
    exact of
  · split at settled
    · cases settled
    · split at settled
      · cases settled
        exact of
      · split at settled
        · cases settled
        · cases settled
          exact of

theorem uploadHash_of {id : String} {file : StagedFile env id} {media : StagedMedia} (of : media.Of file) :
    uploadHash env id media file.files = some (env.sha256 (file.wire media.encrypted)) := by
  unfold uploadHash StagedFile.wire
  cases media.encrypted with
  | false =>
    rw [if_neg (by simp), of.1, file.opens]
    rfl
  | true => rw [if_pos rfl, of.2.2, file.hashed, if_pos rfl]

theorem inv_begin (inv : world.Inv staged) {mediaId : String} {crypto : Option ProjectCrypto}
    {world' : World} (begun : world.beginUpload mediaId crypto = some world') : world'.Inv staged := by
  unfold beginUpload at begun
  cases found : world.rows.lookup mediaId with
  | none =>
    rw [found] at begun
    cases begun
  | some row =>
    rw [found] at begun
    simp only at begun
    split at begun
    · cases begun
    · obtain ⟨media, settled, rfl⟩ := Option.map_eq_some_iff.mp begun
      obtain ⟨file, known⟩ := inv.known mediaId row found
      obtain ⟨row', present, of⟩ := inv.rows mediaId file known
      obtain rfl := Option.some_inj.mp (found.symm.trans present)
      have of' := resolveEncryption_of settled of
      have next := inv.write found media (fun _ => resolveEncryption_of settled) world.task (Or.inr rfl)
      exact next.send rfl ⟨file, known, of'⟩ ⟨file, known, rfl, of'.2.1⟩

theorem inv_next (inv : world.Inv staged) {mediaId uploadId : String} {media : StagedMedia}
    (known : ∃ file, staged.lookup mediaId = some file ∧ media.Of file)
    (owned : world.server.Owned uploadId mediaId) {chunks : List Nat} {world' : World}
    (sent : world.next env mediaId media uploadId chunks = some world') : world'.Inv staged := by
  obtain ⟨file, found, of⟩ := known
  have copy : ∀ files, world.files.lookup mediaId = some files → files = file.files := by
    intro files present
    rcases inv.copies mediaId file found with here | ⟨gone, -⟩
    · exact Option.some_inj.mp (present.symm.trans here)
    · rw [gone] at present
      cases present
  cases chunks with
  | nil =>
    obtain ⟨files, present, sent⟩ := Option.bind_eq_some_iff.mp sent
    obtain ⟨hash, hashed, sent⟩ := Option.bind_eq_some_iff.mp sent
    cases sent
    obtain rfl := copy files present
    rw [uploadHash_of of] at hashed
    cases hashed
    exact inv.send rfl ⟨⟨file, found, of⟩, owned⟩ ⟨file, found, owned, media.encrypted, rfl⟩
  | cons index rest =>
    obtain ⟨files, present, sent⟩ := Option.bind_eq_some_iff.mp sent
    obtain ⟨data, piece, sent⟩ := Option.bind_eq_some_iff.mp sent
    cases sent
    obtain rfl := copy files present
    rw [of.1] at piece
    exact inv.send rfl ⟨⟨file, found, of⟩, owned⟩ ⟨file, found, owned, media.encrypted, piece⟩

theorem inv_finish (inv : world.Inv staged) {mediaId : String} (noted : Noted world.sealings mediaId) :
    (world.finish mediaId).Inv staged := by
  have written : Inv staged { world.finish mediaId with files := world.files } := by
    unfold finish
    cases found : world.rows.lookup mediaId with
    | none => exact inv_idle inv
    | some row =>
      exact inv.write found { row with uploaded := true, lastError := none } (fun _ of => of) .idle
        (Or.inl rfl)
  refine { written with copies := fun id file known => ?_ }
  have kept := inv.copies id file known
  show (if world.deleteAfterUpload then world.files.erase mediaId else world.files).lookup id = _ ∨
    (if world.deleteAfterUpload then world.files.erase mediaId else world.files).lookup id = none ∧ _
  split
  · rw [Lib.lookup_erase_eq_ite]
    split
    · rename_i here
      exact Or.inr ⟨rfl, here ▸ noted⟩
    · exact kept
  · exact kept

theorem inv_receive (inv : world.Inv staged) {answer : Answer} (member : answer ∈ world.answers)
    (here : answer.exchange = world.exchange) {world' : World}
    (received : world.receive env answer.response = some world') : world'.Inv staged := by
  obtain ⟨fits, -, mine⟩ := inv.answers answer member
  have task := inv.task
  have subject := mine here
  unfold receive at received
  split at received
  · rename_i mediaId media response waits answered
    rw [waits] at task subject
    obtain rfl : mediaId = answer.mediaId := by simpa [Task.subject] using subject
    unfold Answer.Fits at fits
    rw [answered] at fits
    split at received
    · rename_i complete
      cases received
      exact inv_finish inv (fits.2 complete)
    · exact inv_next inv task fits.1 received
  · rename_i mediaId media uploadId index rest response waits answered
    rw [waits] at task
    exact inv_next inv task.1 task.2 received
  · rename_i mediaId media uploadId response waits answered
    rw [waits] at subject
    obtain rfl : mediaId = answer.mediaId := by simpa [Task.subject] using subject
    unfold Answer.Fits at fits
    rw [answered] at fits
    obtain ⟨files, -, received⟩ := Option.bind_eq_some_iff.mp received
    obtain ⟨hash, -, received⟩ := Option.bind_eq_some_iff.mp received
    split at received
    · cases received
      exact inv_finish inv fits
    · cases received
  · cases received

theorem inv_fail (inv : world.Inv staged) (message : String) : (world.fail message).Inv staged := by
  unfold fail
  split
  · exact inv
  · rename_i mediaId _
    cases found : world.rows.lookup mediaId with
    | none => exact inv_idle inv
    | some row =>
      exact inv.write found { row with lastError := some message } (fun _ of => of) .idle (Or.inl rfl)

theorem inv_step (inv : world.Inv staged)
    (addressed : ∀ id file, staged.lookup id = some file → file.Addressed) {act : Act}
    (prompt : ¬ PutsAfterSeal world act) {world' : World} (stepped : world.step env act = some world') :
    world'.Inv staged := by
  cases act with
  | begin mediaId crypto =>
    simp only [step] at stepped
    split at stepped
    · exact inv_begin inv stepped
    · cases stepped
  | serve request now newId =>
    simp only [step] at stepped
    split at stepped
    · cases stepped
    · rename_i fresh
      obtain ⟨message, sent, rfl⟩ := Option.map_eq_some_iff.mp stepped
      exact inv_serve inv addressed sent (by simpa using fresh) prompt
  | receive answer =>
    obtain ⟨answer, listed, received⟩ := Option.bind_eq_some_iff.mp stepped
    split at received
    · rename_i here
      exact inv_receive inv (List.mem_of_getElem? listed) here received
    · cases received
  | abort message =>
    cases stepped
    exact inv_fail inv message
  | other request now newId =>
    simp only [step] at stepped
    split at stepped
    · cases stepped
    · rename_i fresh
      split at stepped
      · cases stepped
      · rename_i theirs
        split at stepped
        · cases stepped
        · rename_i response final returned
          cases stepped
          refine inv_other inv (by simpa using fresh) (fun id subject => ?_) returned
          simpa [subject] using theirs
  | register mediaId submissionId opId path =>
    cases stepped
    exact inv_register inv mediaId submissionId opId path
  | registry registry =>
    cases stepped
    exact inv.moved ⟨fun keyed => keyed, fun _ _ owned => owned⟩ fun id file found =>
      ⟨(inv.held id file found).counted, (inv.held id file found).landed, (inv.held id file found).noted,
        (inv.held id file found).stands⟩

theorem inv_start (deviceId : String) (deleteAfterUpload : Bool) (registry : Registry)
    (staged : AList (StagedFile env)) :
    (start deviceId deleteAfterUpload registry staged).Inv staged where
  keyed _ _ _ found := by cases found
  held _ _ _ :=
    ⟨fun _ _ found => (by cases found), fun _ _ found => (by cases found),
      fun _ found => (by cases found), List.forall_mem_nil _⟩
  exact := List.forall_mem_nil _
  requests := List.forall_mem_nil _
  answers := List.forall_mem_nil _
  task := trivial
  rows id file found := by
    refine ⟨file.row, ?_, rfl, file.counted, rfl⟩
    show (Lib.mapValues _ staged).lookup id = _
    rw [Lib.lookup_mapValues, found]
    rfl
  known id row found := by
    have given : (Lib.mapValues (fun _ file => file.row) staged).lookup id = some row := found
    rw [Lib.lookup_mapValues] at given
    obtain ⟨file, known, -⟩ := Option.map_eq_some_iff.mp given
    exact ⟨file, known⟩
  copies id file found := by
    refine Or.inl ?_
    show (Lib.mapValues _ staged).lookup id = _
    rw [Lib.lookup_mapValues, found]
    rfl

theorem not_safe_of_putsAfterSeal (inv : world.Inv staged) {act : Act}
    (late : PutsAfterSeal world act) : ¬ UploadsSafe staged (world.after env act) := by
  cases act with
  | serve request now newId =>
    obtain ⟨fresh, ⟨exchange, mediaId, asked⟩, uploadId, chunkIndex, data, upload, row, sent, rfl, takes,
      complete⟩ := late
    obtain ⟨⟨file, found, ⟨upload', session, rfl⟩, -⟩, -⟩ := inv.requests _ (List.mem_of_getElem? sent)
    obtain rfl := Option.some_inj.mp (takes.session.symm.trans session)
    obtain ⟨-, note, member, mine⟩ := (inv.held upload.mediaId file found).noted row takes.media complete
    intro safe
    have stepped : world.after env (.serve request now newId) = world.serve env
        ⟨exchange, upload.mediaId, .putChunk uploadId chunkIndex data⟩ now newId := by
      simp [after, step, fresh, sent]
    have put : world.server.putChunk env now uploadId chunkIndex data = .ok _ :=
      Server.putChunk_ok_iff.mpr ⟨upload, row, takes, rfl⟩
    have served : world.server.handle env now newId (.putChunk uploadId chunkIndex data) = .ok _ :=
      Lib.map_ok_iff.mpr ⟨_, put, rfl⟩
    simp only [stepped, serve, served] at safe
    obtain ⟨⟨row', present, still⟩, -⟩ := safe.final note (List.mem_append_left _ member)
    obtain ⟨-, -, here, -⟩ := Server.takeChunk_spec env inv.keyed takes.session row chunkIndex data
    rw [mine, here] at present
    cases present
    cases still
  | _ => exact late.elim

/-- Uploads are exact and final, and no copy is dropped early, exactly as long as no chunk is taken for
a file that is complete. -/
theorem uploadsSafe_reached_iff (deviceId : String) (deleteAfterUpload : Bool) (registry : Registry)
    (staged : AList (StagedFile env))
    (addressed : ∀ id file, staged.lookup id = some file → file.Addressed) (acts : List Act) :
    (∀ first rest, acts = first ++ rest → UploadsSafe staged
        (first.foldl (after env) (start deviceId deleteAfterUpload registry staged))) ↔
      ∀ first act rest, acts = first ++ act :: rest →
        ¬ PutsAfterSeal (first.foldl (after env) (start deviceId deleteAfterUpload registry staged)) act := by
  refine @Lib.safe_reached_iff World Act (after env) (Inv staged) (UploadsSafe staged)
    (fun world act => ¬ PutsAfterSeal world act) (fun _ inv => inv.safe) ?_ ?_ _ (inv_start deviceId deleteAfterUpload registry staged)
    acts
  · intro world act inv prompt
    unfold after
    cases stepped : world.step env act with
    | none => exact inv
    | some world' => exact inv_step inv addressed prompt stepped
  · intro world act inv late
    exact not_safe_of_putsAfterSeal inv (not_not.mp late)

end World
/-- `PutsAfterSeal`, computed. -/
def World.putsAfterSeal (world : World) : Act → Bool
  | .serve request now newId =>
    (world.server.sessions.lookup newId).isNone && (world.requests[request]?).any fun message =>
      match message.request with
      | .putChunk uploadId chunkIndex data =>
        (world.server.sessions.lookup uploadId).any fun upload =>
          (world.server.media.lookup upload.mediaId).any fun row =>
            decide (now < upload.expiresAt ∧ chunkIndex < row.chunkCount ∧ row.status = .complete) &&
              chunkFits row chunkIndex data
      | _ => false
  | _ => false

theorem World.putsAfterSeal_iff {world : World} {act : Act} :
    world.putsAfterSeal act = true ↔ PutsAfterSeal world act := by
  cases act with
  | serve request now newId =>
    simp only [World.putsAfterSeal, PutsAfterSeal, Bool.and_eq_true, Option.isNone_iff_eq_none,
      Option.any_eq_true]
    refine and_congr_right fun _ => ?_
    constructor
    · rintro ⟨message, sent, late⟩
      split at late
      · rename_i uploadId chunkIndex data asked
        simp only [Option.any_eq_true, Bool.and_eq_true, decide_eq_true_iff] at late
        obtain ⟨upload, session, row, media, ⟨unexpired, inRange, complete⟩, fits⟩ := late
        exact ⟨message, uploadId, chunkIndex, data, upload, row, sent, asked,
          ⟨session, unexpired, media, inRange, fits⟩, complete⟩
      · cases late
    · rintro ⟨message, uploadId, chunkIndex, data, upload, row, sent, asked, takes, complete⟩
      refine ⟨message, sent, ?_⟩
      simp only [asked, Option.any_eq_true, Bool.and_eq_true, decide_eq_true_iff]
      exact ⟨upload, takes.session, row, takes.media, ⟨takes.unexpired, takes.inRange, complete⟩, takes.fits⟩
  | _ => simp [World.putsAfterSeal, PutsAfterSeal]

instance (world : World) (act : Act) : Decidable (PutsAfterSeal world act) :=
  decidable_of_iff _ World.putsAfterSeal_iff

/-- One photograph of one byte. Its key is all zeros; the ciphertext and the two digests are what
AES-256-GCM and SHA-256 give for it. -/
def photoCiphertext : Bytes :=
  [205, 88, 57, 171, 125, 203, 173, 79, 155, 253, 124, 31, 63, 21, 207, 111, 72]

def photoEnvelope : Envelope where
  sha256 bytes :=
    if bytes = [0x41] then "559aead08264d5795d3909718cdd05abd49572e84fe55590eef31a88a08fdffd"
    else if bytes = photoCiphertext then "f6e18c94327cc85d761aee3f96c79bc937ef5ba634152b9934a777ebd7578466"
    else ""
  encryptMediaChunk chunk mediaKey mediaId chunkIndex :=
    if chunk = [0x41] ∧ mediaKey = List.replicate 32 0 ∧ mediaId = "m1" ∧ chunkIndex = 0 then photoCiphertext
    else 0 :: chunk
  decryptMediaChunk ciphertext mediaKey mediaId chunkIndex :=
    if ciphertext = photoCiphertext ∧ mediaKey = List.replicate 32 0 ∧ mediaId = "m1" ∧ chunkIndex = 0 then
      some [0x41]
    else if ciphertext.head? = some 0 then some ciphertext.tail else none
  decrypts chunk mediaKey mediaId chunkIndex := by
    split
    · rename_i here
      rw [if_pos ⟨rfl, here.2⟩, here.1]
    · rw [if_neg]
      · rfl
      · rintro ⟨same, -⟩
        cases same

def e2e : ProjectCrypto := ⟨.projectE2e, ["k1"]⟩

set_option maxRecDepth 20000 in
def photo : StagedFile photoEnvelope "m1" :=
  (stage photoEnvelope "m1" "s1" "photo" "image/jpeg" [0x41] (some e2e) "ck1" (List.replicate 32 0)).get
    (by decide)

def photoStaged : AList (StagedFile photoEnvelope) := AList.insert "m1" photo ∅

def photoRegistry : Registry where
  devices := AList.singleton "d1" { projectId := "prj", userId := some "u1" }
  submissions := AList.singleton "s1" "prj"
  projectKeys := AList.singleton "k1" { projectId := "prj" }
  sessionTtl := 3600

def photoStart : World := World.start "d1" true photoRegistry photoStaged

def photoUpload : List Act :=
  [.begin "m1" (some e2e), .serve 0 0 "up1", .receive 0, .serve 1 1 "up2", .receive 1, .serve 2 2 "up2",
    .receive 2]

set_option maxRecDepth 20000 in
theorem photo_addressed (id : String) (file : StagedFile photoEnvelope id)
    (found : photoStaged.lookup id = some file) : file.Addressed := by
  obtain rfl : id = "m1" := by
    by_contra other
    rw [photoStaged, AList.lookup_insert_ne other] at found
    cases found
  obtain rfl : photo = file := by
    rw [photoStaged, AList.lookup_insert] at found
    exact Option.some_inj.mp found
  have sent : ∀ encrypted, photo.assembled (fun _ => encrypted) = some (photo.wire encrypted) := by decide
  intro forms bytes encrypted assembled same
  have one : photo.assembled forms = photo.assembled fun _ => forms 0 := by
    refine congrArg (Option.map List.flatten) (Lib.mapM_congr fun index member => ?_)
    have count : photo.files.length = 1 := by decide
    rw [count] at member
    obtain rfl : index = 0 := by simpa using member
    rfl
  rw [one, sent] at assembled
  cases assembled
  revert same
  cases forms 0 <;> cases encrypted <;> decide

set_option maxRecDepth 20000 in
/-- Without a late chunk the photograph is sealed as it was staged, and its copy goes after that. -/
theorem photoUpload_safe :
    (photoUpload.foldl (World.after photoEnvelope) photoStart).sealings.map (·.bytes) = [photoCiphertext] ∧
      ∀ first rest, photoUpload = first ++ rest →
        UploadsSafe photoStaged (first.foldl (World.after photoEnvelope) photoStart) := by
  have prompt : Lib.Along (fun world act => some (World.after photoEnvelope world act))
      (fun world act => ¬ PutsAfterSeal world act) photoStart photoUpload := by decide
  exact ⟨by decide, (World.uploadsSafe_reached_iff "d1" true photoRegistry photoStaged photo_addressed
    photoUpload).mpr (Lib.along_total_iff.mp prompt)⟩

set_option maxRecDepth 20000 in
/-- The chunk comes a second time, after the seal: the photograph is no longer complete, and the device
has no copy. -/
theorem photoUpload_unsealed :
    let world := (photoUpload ++ [Act.serve 1 3 "up2"]).foldl (World.after photoEnvelope) photoStart
    world.files.lookup "m1" = none ∧
      (world.server.media.lookup "m1").map (·.status) = some .uploading ∧
      ¬ UploadsSafe photoStaged world := by
  intro world
  have status : (world.server.media.lookup "m1").map (·.status) = some .uploading := by decide
  refine ⟨by decide, status, fun safe => ?_⟩
  have sealed : ∃ note ∈ world.sealings, note.mediaId = "m1" := by decide
  obtain ⟨note, member, mine⟩ := sealed
  obtain ⟨⟨row, found, complete⟩, -⟩ := safe.final note member
  rw [mine] at found
  rw [found, Option.map_some, complete] at status
  cases status

end DataCollectionLab.Media
