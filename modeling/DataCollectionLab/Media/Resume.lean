import Mathlib.Algebra.Order.BigOperators.Group.List
import Mathlib.Algebra.Order.Ring.Nat
import DataCollectionLab.Media.Landing

/-!
One upload that nothing interrupts, from any state the device and the server can be in. The uploader
skips the chunks the server lists, and a file whose mode changed since they were sent is sealed only
if what landed is what would be sent now.
-/

namespace DataCollectionLab.Media

variable {env : Envelope}

/-- `upload`, from the session on. Each request is made at its own time by the server's clock, and
none is lost. -/
def sendChunk (env : Envelope) (clock : Nat → Timestamp) (uploadId mediaId : String)
    (media : StagedMedia) (files : List Bytes) (server : Server) (index : Nat) : Except Fault Server :=
  match chunkBytes env mediaId media.mediaKey files media.encrypted index with
  | none => .error .raised
  | some data => (server.putChunk env (clock (index + 1)) uploadId index data).map Prod.snd

def World.upload (env : Envelope) (world : World) (clock : Nat → Timestamp) (newId mediaId : String)
    (media : StagedMedia) : Except Fault Server := do
  let files := (world.files.lookup mediaId).getD []
  let (session, server) ←
    world.server.openSession (clock 0) newId (world.sessionRequest mediaId media)
  if session.status = .complete then return server
  else
    let server ← ((List.range media.chunkCount).filter fun index =>
        !session.receivedChunks.contains index).foldlM
      (sendChunk env clock session.uploadId mediaId media files) server
    match uploadHash env mediaId media files with
    | none => throw .raised
    | some hash =>
      (server.complete env (clock (media.chunkCount + 1)) session.uploadId hash).map Prod.snd

def Server.Seals (server : Server) (env : Envelope) (mediaId : String) (hash : Option String) : Prop :=
  (∃ row, server.media.lookup mediaId = some row ∧ row.status = .complete) ∧
    ∃ bytes, server.object mediaId = some bytes ∧ hash = some (env.sha256 bytes)

/-! ### The sizes of a file's chunks -/

def Envelope.Tagged (env : Envelope) : Prop :=
  ∀ chunk mediaKey mediaId index,
    (env.encryptMediaChunk chunk mediaKey mediaId index).length = chunk.length + gcmTagBytes

/-- The file is as `stage` made it. -/
def StagedFile.Made {id : String} (file : StagedFile env id) : Prop :=
  ∃ submissionId fieldPath mimeType plaintext crypto contentKeyId mediaKey,
    stage env id submissionId fieldPath mimeType plaintext crypto contentKeyId mediaKey = some file

theorem mediaChunks_sizes {fuel : Nat} {plaintext : Bytes} {i : Nat} {chunk : Bytes}
    (found : (mediaChunks fuel plaintext)[i]? = some chunk) :
    0 < chunk.length ∧ chunk.length ≤ chunkSizeBytes ∧
      (i + 1 < (mediaChunks fuel plaintext).length → chunk.length = chunkSizeBytes) := by
  induction fuel generalizing plaintext i with
  | zero => cases found
  | succ fuel ih =>
    rw [mediaChunks] at found ⊢
    split at found
    · cases found
    · rename_i given
      rw [if_neg given]
      have positive : 0 < plaintext.length := List.length_pos_iff.mpr (by simpa using given)
      cases i with
      | zero =>
        cases found
        rw [List.length_take]
        have size : 0 < chunkSizeBytes := by decide
        refine ⟨by omega, by omega, fun more => ?_⟩
        -- A chunk follows, so the file is longer than this one.
        rw [List.length_cons] at more
        have rest : mediaChunks fuel (plaintext.drop chunkSizeBytes) ≠ [] := by
          intro none
          rw [none] at more
          simp at more
        cases fuel with
        | zero => exact absurd rfl rest
        | succ fuel =>
          have left : ¬ (plaintext.drop chunkSizeBytes).isEmpty = true := by
            intro empty
            rw [mediaChunks, if_pos empty] at rest
            exact rest rfl
          have longer := List.length_pos_iff.mpr (by simpa using left : plaintext.drop chunkSizeBytes ≠ [])
          rw [List.length_drop] at longer
          omega
      | succ i =>
        obtain ⟨positive, bound, full⟩ := ih found
        refine ⟨positive, bound, fun more => full ?_⟩
        rw [List.length_cons] at more
        omega

def tagBytes (encrypted : Bool) : Nat := if encrypted then gcmTagBytes else 0

namespace StagedFile

variable {id : String} {file : StagedFile env id}

theorem files_of_made (made : file.Made) :
    file.files = encryptedChunks env id file.row.mediaKey file.plaintext := by
  obtain ⟨submissionId, fieldPath, mimeType, plaintext, crypto, contentKeyId, mediaKey, given⟩ := made
  unfold stage at given
  simp only at given
  split at given
  · cases given
  · split at given
    · cases given
    · cases given
      rfl

def pieceLength (file : StagedFile env id) (i : Nat) : Nat :=
  ((mediaChunks file.plaintext.length file.plaintext)[i]?.map List.length).getD 0

theorem chunk_sizes (tagged : env.Tagged) (made : file.Made) {encrypted : Bool} {i : Nat}
    (bound : i < file.files.length) :
    ∃ data, chunkBytes env id file.row.mediaKey file.files encrypted i = some data ∧
      data.length = file.pieceLength i + tagBytes encrypted ∧ 0 < file.pieceLength i ∧
      file.pieceLength i ≤ chunkSizeBytes ∧
      (i + 1 < file.files.length → file.pieceLength i = chunkSizeBytes) := by
  have files := files_of_made made
  have count : file.files.length = (mediaChunks file.plaintext.length file.plaintext).length := by
    rw [files, encryptedChunks, List.length_mapIdx]
  obtain ⟨piece, found⟩ : ∃ piece, (mediaChunks file.plaintext.length file.plaintext)[i]? = some piece :=
    ⟨_, List.getElem?_eq_getElem (count ▸ bound)⟩
  obtain ⟨positive, most, full⟩ := mediaChunks_sizes found
  have length : file.pieceLength i = piece.length := by
    rw [pieceLength, found]
    rfl
  have stored : file.files[i]? = some (env.encryptMediaChunk piece file.row.mediaKey id i) := by
    rw [files, encryptedChunks, List.getElem?_mapIdx, found]
    rfl
  rw [length, count]
  cases encrypted with
  | true =>
    refine ⟨env.encryptMediaChunk piece file.row.mediaKey id i, ?_, tagged _ _ _ _, positive, most, full⟩
    rw [chunkBytes, stored]
    rfl
  | false =>
    refine ⟨piece, ?_, rfl, positive, most, full⟩
    rw [chunkBytes, stored]
    exact env.decrypts _ _ _ _

theorem fits_of_mode (tagged : env.Tagged) (made : file.Made) {row : MediaRow}
    (count : row.chunkCount = file.files.length) {i : Nat} (bound : i < file.files.length) {data : Bytes}
    (piece : chunkBytes env id file.row.mediaKey file.files row.encrypted i = some data) :
    chunkFits row i data = true := by
  obtain ⟨data', piece', length, positive, most, full⟩ :=
    @chunk_sizes env id file tagged made row.encrypted i bound
  obtain rfl := Option.some_inj.mp (piece.symm.trans piece')
  have wire : wireChunkSize row.encrypted = chunkSizeBytes + tagBytes row.encrypted := rfl
  have given : data.isEmpty = false := by
    rw [List.isEmpty_eq_false_iff, ← List.length_pos_iff]
    omega
  rw [chunkFits, given, wire, length, count]
  by_cases last : i + 1 < file.files.length
  · simp [full last]
  · have here : i = file.files.length - 1 := by omega
    simp [here]
    rw [here] at most
    omega

theorem assembled_length (tagged : env.Tagged) (made : file.Made) (forms : Nat → Bool) :
    ∃ bytes, file.assembled forms = some bytes ∧ bytes.length =
      ((List.range file.files.length).map fun i => file.pieceLength i + tagBytes (forms i)).sum := by
  have pieces : ∀ i, ∃ data, i < file.files.length →
      chunkBytes env id file.row.mediaKey file.files (forms i) i = some data ∧
        data.length = file.pieceLength i + tagBytes (forms i) := by
    intro i
    by_cases bound : i < file.files.length
    · obtain ⟨data, piece, length, -⟩ := @chunk_sizes env id file tagged made (forms i) i bound
      exact ⟨data, fun _ => ⟨piece, length⟩⟩
    · exact ⟨[], fun bound' => absurd bound' bound⟩
  choose data given using pieces
  have all : (List.range file.files.length).mapM (fun i =>
      chunkBytes env id file.row.mediaKey file.files (forms i) i) =
        some ((List.range file.files.length).map data) := by
    rw [Lib.mapM_eq_some_iff, List.map_map]
    exact List.map_congr_left fun i member => (given i (List.mem_range.mp member)).1
  refine ⟨((List.range file.files.length).map data).flatten, ?_, ?_⟩
  · rw [assembled, wireBytes, all]
    rfl
  · rw [List.length_flatten, List.map_map]
    congr 1
    exact List.map_congr_left fun i member => (given i (List.mem_range.mp member)).2

theorem forms_of_assembled (tagged : env.Tagged) (made : file.Made) {forms : Nat → Bool}
    {encrypted : Bool} (same : file.assembled forms = file.assembled fun _ => encrypted) :
    ∀ i < file.files.length, forms i = encrypted := by
  obtain ⟨bytes, read, length⟩ := assembled_length tagged made forms
  obtain ⟨bytes', read', length'⟩ := assembled_length tagged made fun _ => encrypted
  rw [read, read', Option.some_inj] at same
  subst same
  have total := length.symm.trans length'
  intro i bound
  by_contra other
  have member := List.mem_range.mpr bound
  have tag : tagBytes false < tagBytes true := by decide
  have most : ∀ b, tagBytes false ≤ tagBytes b ∧ tagBytes b ≤ tagBytes true := by decide
  cases encrypted with
  | true =>
    obtain here : forms i = false := by simpa using other
    refine absurd total (Nat.ne_of_lt (List.sum_lt_sum _ _ (fun j _ => ?_) ⟨i, member, ?_⟩))
    · exact Nat.add_le_add_left (most _).2 _
    · rw [here]
      exact Nat.add_lt_add_left tag _
  | false =>
    obtain here : forms i = true := by simpa using other
    refine absurd total (Nat.ne_of_gt (List.sum_lt_sum _ _ (fun j _ => ?_) ⟨i, member, ?_⟩))
    · exact Nat.add_le_add_left (most _).1 _
    · rw [here]
      exact Nat.add_lt_add_left tag _

theorem assembled_wire (file : StagedFile env id) (encrypted : Bool) :
    (file.assembled fun _ => encrypted) = some (file.wire encrypted) := by
  cases encrypted with
  | false => exact file.opens
  | true =>
    have all : (List.range file.files.length).mapM (fun i =>
        chunkBytes env id file.row.mediaKey file.files true i) = some file.files := by
      rw [Lib.mapM_eq_some_iff]
      apply List.ext_getElem
      · simp
      · intro i left right
        simp [chunkBytes]
    rw [assembled, wireBytes, all]
    rfl

end StagedFile

namespace Server

variable {server final : Server}

theorem openUpload_session (server : Server) (id newId : String) (expiresAt : Timestamp) :
    ∃ upload, (server.openUpload id newId expiresAt).2.sessions.lookup
        (server.openUpload id newId expiresAt).1 = some upload ∧
      upload.mediaId = id ∧ upload.expiresAt = expiresAt := by
  unfold openUpload
  cases server.sessionOf id with
  | none => exact ⟨_, AList.lookup_insert _, rfl, rfl⟩
  | some id => exact ⟨_, AList.lookup_insert _, rfl, rfl⟩

theorem openSession_terms {now : Timestamp} {newId : String} {request : SessionRequest}
    {response : SessionResponse} (fresh : server.sessions.lookup newId = none)
    (returned : server.openSession now newId request = .ok (response, final)) :
    response.receivedChunks = final.receivedIndexes request.mediaId ∧
      (∃ upload, final.sessions.lookup response.uploadId = some upload ∧
        upload.mediaId = request.mediaId ∧ upload.expiresAt = now + server.registry.sessionTtl) ∧
      ∃ row, final.media.lookup request.mediaId = some row ∧ response.status = row.status ∧
        (server.receivedIndexes request.mediaId = [] → row.status ≠ .complete →
          row.encrypted = request.encrypted) ∧
        (server.receivedIndexes request.mediaId ≠ [] → ∀ old,
          server.media.lookup request.mediaId = some old → row.encrypted = old.encrypted) := by
  unfold openSession at returned
  split at returned
  · cases returned
  · split at returned
    · cases returned
    · split at returned
      · cases returned
      · obtain ⟨-, -, returned⟩ := Lib.bind_ok_iff.mp returned
        obtain ⟨-, -, returned⟩ := Lib.bind_ok_iff.mp returned
        obtain ⟨⟨row, opened⟩, given, returned⟩ := Lib.bind_ok_iff.mp returned
        obtain ⟨-, -, -, sessions, here, -⟩ := openMedia_ok given
        obtain ⟨-, -, -, media, -⟩ := opened.openUpload_spec request.mediaId newId
          (now + server.registry.sessionTtl) (sessions ▸ fresh)
        cases returned
        refine ⟨rfl, ?_, row, (congrArg (AList.lookup request.mediaId) media).trans here, rfl, ?_⟩
        · exact opened.openUpload_session request.mediaId newId _
        · unfold openMedia at given
          cases found : server.media.lookup request.mediaId with
          | none =>
            rw [found] at given
            cases given
            exact ⟨fun _ _ => rfl, fun _ old present => by cases present⟩
          | some old =>
            rw [found] at given
            simp only at given
            split at given
            · cases given
            · split at given
              · rename_i complete
                cases given
                refine ⟨fun _ unfinished => absurd complete unfinished, fun _ old' present => ?_⟩
                rw [Option.some_inj.mp present]
              · cases given
                refine ⟨fun none _ => ?_, fun some old' present => ?_⟩
                · simp [resumed, none]
                · obtain rfl := Option.some_inj.mp present
                  simp [resumed, some]

end Server

/-! ### The loop over the chunks -/

/-- Where the loop is: the chunks sent so far are in the form they are sent in, and all others are as
the session found them. -/
structure Receiving {id : String} (file : StagedFile env id) (encrypted : Bool) (uploadId : String)
    (expiresAt : Timestamp) (row : MediaRow) (before : Server) (sent : List Nat) (server : Server) :
    Prop where
  keyed : server.Keyed
  session : ∃ upload, server.sessions.lookup uploadId = some upload ∧ upload.mediaId = id ∧
    upload.expiresAt = expiresAt
  media : server.media.lookup id = some row
  taken : ∀ i ∈ sent, ∃ chunk, server.chunks.lookup (id, i) = some chunk ∧
    server.objects.lookup chunk.storageKey =
      chunkBytes env id file.row.mediaKey file.files encrypted i
  found : ∀ i ∉ sent, server.chunks.lookup (id, i) = before.chunks.lookup (id, i) ∧
    ∀ chunk, before.chunks.lookup (id, i) = some chunk →
      server.objects.lookup chunk.storageKey = before.objects.lookup chunk.storageKey

namespace Receiving

variable {id uploadId : String} {file : StagedFile env id} {media : StagedMedia} {row : MediaRow}
  {expiresAt : Timestamp} {clock : Nat → Timestamp} {before server final : Server} {sent : List Nat}

theorem send (state : Receiving file media.encrypted uploadId expiresAt row before sent server)
    (of : media.Of file) (uploading : row.status = .uploading)
    (count : row.chunkCount = file.files.length) {index : Nat} (bound : index < file.files.length)
    (unexpired : clock (index + 1) < expiresAt) (new : index ∉ sent)
    (absent : before.chunks.lookup (id, index) = none) {data : Bytes}
    (piece : chunkBytes env id file.row.mediaKey file.files media.encrypted index = some data) :
    (chunkFits row index data = false →
      ∀ final, sendChunk env clock uploadId id media file.files server index ≠ .ok final) ∧
    (chunkFits row index data = true →
      ∃ final, sendChunk env clock uploadId id media file.files server index = .ok final ∧
        Receiving file media.encrypted uploadId expiresAt row before (index :: sent) final) := by
  obtain ⟨upload, session, mine, expires⟩ := state.session
  have asked : sendChunk env clock uploadId id media file.files server index =
      (server.putChunk env (clock (index + 1)) uploadId index data).map Prod.snd := by
    rw [sendChunk, of.1, piece]
  rw [asked]
  constructor
  · intro unfit final put
    obtain ⟨done, put, -⟩ := Lib.map_ok_iff.mp put
    obtain ⟨upload', row', takes, -⟩ := Server.putChunk_ok_iff.mp put
    obtain rfl := Option.some_inj.mp (session.symm.trans takes.session)
    have same := takes.media
    rw [mine, state.media] at same
    obtain rfl := Option.some_inj.mp same
    rw [takes.fits] at unfit
    cases unfit
  · intro fit
    subst mine
    have takes : Server.TakesChunk server (clock (index + 1)) uploadId index data upload row :=
      ⟨session, expires ▸ unexpired, state.media, count ▸ bound, fit⟩
    refine ⟨_, Lib.map_ok_iff.mpr ⟨_, Server.putChunk_ok_iff.mpr ⟨upload, row, takes, rfl⟩, rfl⟩, ?_⟩
    obtain ⟨-, keyed, media, -⟩ := Server.takeChunk_spec env state.keyed session row index data
    obtain ⟨-, -, chunks, objects, chunk, here, key, object⟩ :=
      Server.storeChunk_spec env state.keyed upload.mediaId index data
    have stored : (server.storeChunk env upload.mediaId index data).objects.lookup chunk.storageKey =
        some data := by
      rcases object with ⟨old, -⟩ | stored
      · rw [(state.found index new).1, absent] at old
        cases old
      · rw [key]
        exact stored
    refine ⟨keyed, ⟨_, AList.lookup_insert _, rfl, expires⟩, ?_, ?_, ?_⟩
    · rw [media, ← uploading]
    · intro i member
      by_cases same : i = index
      · subst same
        exact ⟨chunk, here, stored.trans piece.symm⟩
      · obtain ⟨chunk', old, object'⟩ := state.taken i ((List.mem_cons.mp member).resolve_left same)
        refine ⟨chunk', (chunks _ i fun pair => same (congrArg Prod.snd pair)).trans old, ?_⟩
        rw [← object']
        refine objects _ ?_
        rw [state.keyed _ i chunk' old]
        exact fun equal => same (chunkStorageKey_inj equal).2
    · intro i apart
      rw [List.mem_cons, not_or] at apart
      obtain ⟨rows, kept⟩ := state.found i apart.2
      refine ⟨(chunks _ i fun pair => apart.1 (congrArg Prod.snd pair)).trans rows, fun old stood => ?_⟩
      rw [← kept old stood]
      refine objects _ ?_
      rw [state.keyed _ i old (rows.trans stood)]
      exact fun equal => apart.1 (chunkStorageKey_inj equal).2

theorem sendAll (state : Receiving file media.encrypted uploadId expiresAt row before sent server)
    (of : media.Of file) (uploading : row.status = .uploading)
    (count : row.chunkCount = file.files.length) (unexpired : ∀ k, clock k < expiresAt)
    {chunks : List Nat} (once : chunks.Nodup)
    (missing : ∀ i ∈ chunks, i < file.files.length ∧ i ∉ sent ∧ before.chunks.lookup (id, i) = none)
    (pieces : ∀ i ∈ chunks, ∃ data,
      chunkBytes env id file.row.mediaKey file.files media.encrypted i = some data) :
    (∀ final, chunks.foldlM (sendChunk env clock uploadId id media file.files) server = .ok final →
      (∀ i ∈ chunks, ∀ data, chunkBytes env id file.row.mediaKey file.files media.encrypted i =
        some data → chunkFits row i data = true) ∧
      ∃ sent', (∀ i, i ∈ sent' ↔ i ∈ chunks ∨ i ∈ sent) ∧
        Receiving file media.encrypted uploadId expiresAt row before sent' final) ∧
    ((∀ i ∈ chunks, ∀ data, chunkBytes env id file.row.mediaKey file.files media.encrypted i =
        some data → chunkFits row i data = true) →
      ∃ final, chunks.foldlM (sendChunk env clock uploadId id media file.files) server = .ok final) := by
  induction chunks generalizing server sent with
  | nil =>
    refine ⟨fun final ran => ?_, fun _ => ⟨server, rfl⟩⟩
    cases ran
    exact ⟨List.forall_mem_nil _, sent, fun i => by simp, state⟩
  | cons index chunks ih =>
    obtain ⟨apart, once⟩ := List.nodup_cons.mp once
    obtain ⟨bound, new, absent⟩ := missing index List.mem_cons_self
    obtain ⟨data, piece⟩ := pieces index List.mem_cons_self
    obtain ⟨refused, taken⟩ := state.send of uploading count bound (unexpired _) new absent piece
    have rest : ∀ i ∈ chunks, i < file.files.length ∧ i ∉ index :: sent ∧
        before.chunks.lookup (id, i) = none := by
      intro i member
      obtain ⟨bound, new, absent⟩ := missing i (List.mem_cons_of_mem _ member)
      refine ⟨bound, fun either => ?_, absent⟩
      rcases List.mem_cons.mp either with rfl | old
      · exact apart member
      · exact new old
    have pieces' := fun i member => pieces i (List.mem_cons_of_mem _ member)
    constructor
    · intro final ran
      obtain ⟨server', one, ran⟩ := Lib.foldlM_cons_ok_iff.mp ran
      cases fits : chunkFits row index data with
      | false => exact absurd one (refused fits server')
      | true =>
        obtain ⟨server'', one', state'⟩ := taken fits
        obtain rfl := Except.ok.inj (one.symm.trans one')
        obtain ⟨all, sent', listed, last⟩ := (ih state' once rest pieces').1 final ran
        refine ⟨fun i member data' piece' => ?_, sent', fun i => ?_, last⟩
        · rcases List.mem_cons.mp member with rfl | later
          · obtain rfl := Option.some_inj.mp (piece.symm.trans piece')
            exact fits
          · exact all i later data' piece'
        · rw [listed, List.mem_cons, List.mem_cons]
          tauto
    · intro all
      obtain ⟨server', one, state'⟩ := taken (all index List.mem_cons_self data piece)
      obtain ⟨final, ran⟩ := (ih state' once rest pieces').2 fun i member =>
        all i (List.mem_cons_of_mem _ member)
      exact ⟨final, Lib.foldlM_cons_ok_iff.mpr ⟨server', one, ran⟩⟩

end Receiving

/-! ### Sealing what has landed -/

namespace StagedFile

variable {id : String} {file : StagedFile env id} {server : Server} {forms : Nat → Bool}

theorem object_eq (only : ∀ i chunk, server.chunks.lookup (id, i) = some chunk → i < file.files.length)
    (each : ∀ i < file.files.length, ∃ chunk, server.chunks.lookup (id, i) = some chunk ∧
      server.objects.lookup chunk.storageKey =
        chunkBytes env id file.row.mediaKey file.files (forms i) i) :
    server.object id = file.assembled forms := by
  have indexes : (server.chunkRows id).map Prod.fst = List.range file.files.length := by
    refine @Lib.Ascending.eq_of_mem_iff Nat (fun i => i) _ _ ?_ ?_ ?_
    · exact List.pairwise_map.mpr (server.chunkRows_ascending id)
    · exact List.pairwise_lt_range
    · intro i
      rw [List.mem_range]
      constructor
      · intro received
        obtain ⟨chunk, stored⟩ := Server.mem_receivedIndexes.mp received
        exact only i chunk stored
      · intro bound
        obtain ⟨chunk, stored, -⟩ := each i bound
        exact Server.mem_receivedIndexes.mpr ⟨chunk, stored⟩
  refine congrArg (Option.map List.flatten) ?_
  rw [← indexes, List.mapM_map]
  apply Lib.mapM_congr
  rintro ⟨i, chunk⟩ member
  have stored := Server.mem_chunkRows.mp member
  obtain ⟨chunk', stored', object⟩ := each i (only i chunk stored)
  obtain rfl := Option.some_inj.mp (stored.symm.trans stored')
  exact object

theorem hash_eq_iff (tagged : env.Tagged) (made : file.Made) (addressed : file.Addressed)
    {encrypted : Bool} {bytes : Bytes} (read : file.assembled forms = some bytes) :
    env.sha256 bytes = env.sha256 (file.wire encrypted) ↔
      ∀ i < file.files.length, forms i = encrypted := by
  constructor
  · intro same
    refine forms_of_assembled tagged made ?_
    rw [read, addressed forms bytes encrypted read same, assembled_wire]
  · intro all
    have same : file.assembled forms = file.assembled fun _ => encrypted := by
      refine congrArg (Option.map List.flatten) (Lib.mapM_congr fun i member => ?_)
      rw [all i (List.mem_range.mp member)]
    rw [read, assembled_wire, Option.some_inj] at same
    rw [same]

end StagedFile

theorem Server.complete_iff {server : Server} {now : Timestamp} {uploadId hash : String}
    {upload : MediaUploadSession} {row : MediaRow} {bytes : Bytes}
    (session : server.sessions.lookup uploadId = some upload) (unexpired : now < upload.expiresAt)
    (media : server.media.lookup upload.mediaId = some row)
    (present : ∀ i < row.chunkCount, ∃ chunk, server.chunks.lookup (upload.mediaId, i) = some chunk)
    (object : server.object upload.mediaId = some bytes) {final : Server} :
    (server.complete env now uploadId hash).map Prod.snd = .ok final ↔
      env.sha256 bytes = hash ∧ final = { server with
        media := server.media.insert upload.mediaId (sealedRow env now upload.mediaId row bytes) } := by
  have all : (List.range row.chunkCount).all (server.receivedIndexes upload.mediaId).contains = true := by
    refine List.all_eq_true.mpr fun i member => List.contains_iff_mem.mpr ?_
    exact Server.mem_receivedIndexes.mpr (present i (List.mem_range.mp member))
  have asked : server.complete env now uploadId hash =
      if env.sha256 bytes ≠ hash then .error (.mediaError .hashMismatch)
      else .ok (⟨upload.mediaId, env.sha256 bytes, bytes.length, row.chunkCount⟩,
        { server with
          media := server.media.insert upload.mediaId (sealedRow env now upload.mediaId row bytes) }) := by
    rw [Server.complete, Server.sessionAndMedia_ok_iff.mpr ⟨session, unexpired, media⟩]
    simp only [Except.bind, all, not_true_eq_false, if_false, object]
  rw [asked]
  by_cases same : env.sha256 bytes = hash
  · rw [if_neg (not_not.mpr same)]
    simp [Except.map, same, eq_comm]
  · rw [if_pos same]
    simp [Except.map, same]

/-- What the server holds of the file is what an upload would send now, and what is still to be sent
has the sizes of the mode that the first chunk was taken under. -/
structure StagedFile.Resumable {id : String} (file : StagedFile env id) (encrypted : Bool)
    (server : Server) : Prop where
  same : ∀ i chunk, server.chunks.lookup (id, i) = some chunk →
    server.objects.lookup chunk.storageKey =
      chunkBytes env id file.row.mediaKey file.files encrypted i
  fits : ∀ row, server.media.lookup id = some row → server.receivedIndexes id ≠ [] →
    ∀ i < file.files.length, server.chunks.lookup (id, i) = none → ∀ data,
      chunkBytes env id file.row.mediaKey file.files encrypted i = some data →
        chunkFits row i data = true

theorem Landing.exists_forms {id : String} {file : StagedFile env id} {server : Server}
    (landing : Landing file server) (encrypted : Bool) :
    ∃ forms : Nat → Bool, (∀ i chunk, server.chunks.lookup (id, i) = some chunk →
        server.objects.lookup chunk.storageKey =
          chunkBytes env id file.row.mediaKey file.files (forms i) i) ∧
      ∀ i, server.chunks.lookup (id, i) = none → forms i = encrypted := by
  have form : ∀ i, ∃ form, (∀ chunk, server.chunks.lookup (id, i) = some chunk →
      server.objects.lookup chunk.storageKey =
        chunkBytes env id file.row.mediaKey file.files form i) ∧
      (server.chunks.lookup (id, i) = none → form = encrypted) := by
    intro i
    cases stored : server.chunks.lookup (id, i) with
    | none => exact ⟨encrypted, fun chunk found => (by cases found), fun _ => rfl⟩
    | some chunk =>
      obtain ⟨-, ⟨form, data, piece, object⟩, -⟩ := landing.landed i chunk stored
      refine ⟨form, fun chunk' found => ?_, fun none => by cases none⟩
      cases found
      exact object.trans piece.symm
  choose forms landed otherwise using form
  exact ⟨forms, landed, otherwise⟩

theorem StagedFile.same_iff {id : String} {file : StagedFile env id} {server : Server}
    (tagged : env.Tagged) (made : file.Made) (landing : Landing file server) {encrypted : Bool}
    {forms : Nat → Bool}
    (landed : ∀ i chunk, server.chunks.lookup (id, i) = some chunk →
      server.objects.lookup chunk.storageKey =
        chunkBytes env id file.row.mediaKey file.files (forms i) i)
    (otherwise : ∀ i, server.chunks.lookup (id, i) = none → forms i = encrypted) :
    (∀ i < file.files.length, forms i = encrypted) ↔
      ∀ i chunk, server.chunks.lookup (id, i) = some chunk →
        server.objects.lookup chunk.storageKey =
          chunkBytes env id file.row.mediaKey file.files encrypted i := by
  constructor
  · intro all i chunk stored
    rw [← all i (landing.landed i chunk stored).1]
    exact landed i chunk stored
  · intro same i bound
    cases stored : server.chunks.lookup (id, i) with
    | none => exact otherwise i stored
    | some chunk =>
      have equal := (landed i chunk stored).symm.trans (same i chunk stored)
      obtain ⟨data, piece, length, -⟩ := @StagedFile.chunk_sizes env id file tagged made (forms i) i bound
      obtain ⟨data', piece', length', -⟩ := @StagedFile.chunk_sizes env id file tagged made encrypted i bound
      rw [piece, piece', Option.some_inj] at equal
      subst equal
      have tags : tagBytes (forms i) = tagBytes encrypted := by omega
      have injective : ∀ a b, tagBytes a = tagBytes b → a = b := by decide
      exact injective _ _ tags

theorem chunkFits_congr {row row' : MediaRow} (count : row.chunkCount = row'.chunkCount)
    (mode : row.encrypted = row'.encrypted) (i : Nat) (data : Bytes) :
    chunkFits row i data = chunkFits row' i data := by
  rw [chunkFits, chunkFits, count, mode]

/-- The chunks to be sent fit the row the session leaves exactly when they fit the one it found; where
nothing has landed the mode is restated, and they do. -/
theorem Landing.fits_iff {id : String} {file : StagedFile env id} {server : Server}
    (landing : Landing file server) (tagged : env.Tagged) (made : file.Made) {entry : MediaRow}
    (count : entry.chunkCount = file.files.length) {encrypted : Bool}
    (restated : server.receivedIndexes id = [] → entry.encrypted = encrypted)
    (stood : server.receivedIndexes id ≠ [] → ∀ old, server.media.lookup id = some old →
      entry.encrypted = old.encrypted) :
    (∀ i, i < file.files.length ∧ server.chunks.lookup (id, i) = none → ∀ data,
      chunkBytes env id file.row.mediaKey file.files encrypted i = some data →
        chunkFits entry i data = true) ↔
    ∀ row, server.media.lookup id = some row → server.receivedIndexes id ≠ [] →
      ∀ i < file.files.length, server.chunks.lookup (id, i) = none → ∀ data,
        chunkBytes env id file.row.mediaKey file.files encrypted i = some data →
          chunkFits row i data = true := by
  have counted : server.receivedIndexes id ≠ [] → ∃ row, server.media.lookup id = some row ∧
      row.chunkCount = file.files.length := by
    intro some
    obtain ⟨i, received⟩ := List.exists_mem_of_ne_nil _ some
    obtain ⟨chunk, stored⟩ := Server.mem_receivedIndexes.mp received
    exact (landing.landed i chunk stored).2.2
  constructor
  · intro fits row found some i bound absent data piece
    obtain ⟨row', found', count'⟩ := counted some
    obtain rfl := Option.some_inj.mp (found.symm.trans found')
    rw [← chunkFits_congr (count.trans count'.symm) (stood some row found)]
    exact fits i ⟨bound, absent⟩ data piece
  · intro fits i missing data piece
    by_cases none : server.receivedIndexes id = []
    · refine StagedFile.fits_of_mode tagged made count missing.1 ?_
      rw [restated none]
      exact piece
    · obtain ⟨row, found, count'⟩ := counted none
      rw [chunkFits_congr (count.trans count'.symm) (stood none row found)]
      exact fits row found none i missing.1 missing.2 data piece

namespace World

variable {staged : AList (StagedFile env)} {world : World} {id newId : String} {file : StagedFile env id}
  {row media : StagedMedia} {crypto : Option ProjectCrypto} {clock : Nat → Timestamp}
  {opened : SessionResponse × Server}

theorem Sound.upload_sealed_iff (sound : world.Sound staged) (tagged : env.Tagged)
    (found : staged.lookup id = some file) (made : file.Made) (addressed : file.Addressed)
    (kept : world.rows.lookup id = some row) (unsealed : row.uploaded = false)
    (settled : resolveEncryption row crypto = some media)
    (fresh : world.server.sessions.lookup newId = none)
    (opens : world.server.openSession (clock 0) newId (world.sessionRequest id media) = .ok opened)
    (unexpired : ∀ k, clock k < clock 0 + world.server.registry.sessionTtl) :
    (∃ final, world.upload env clock newId id media = .ok final ∧
      final.Seals env id (uploadHash env id media ((world.files.lookup id).getD []))) ↔
    file.Resumable media.encrypted world.server := by
  obtain ⟨row', present, of, copy⟩ := sound.rows id file found
  obtain rfl := Option.some_inj.mp (kept.symm.trans present)
  have files : (world.files.lookup id).getD [] = file.files := by rw [copy unsealed]; rfl
  replace of := resolveEncryption_of settled of
  rw [files, uploadHash_of of]
  have landing := sound.held id file found
  obtain ⟨forms, landed, otherwise⟩ := landing.exists_forms media.encrypted
  have same := StagedFile.same_iff tagged made landing landed otherwise
  obtain ⟨session, server⟩ := opened
  obtain ⟨entry, opensRow, status, media', chunks, objects, -, -⟩ := Server.openSession_ok fresh opens
  obtain ⟨listed, ⟨upload, live, mine, expires⟩, entry', media'', -, restated, stood⟩ :=
    Server.openSession_terms fresh opens
  obtain rfl := Option.some_inj.mp (media'.symm.trans media'')
  have count := landing.opened_count rfl of.2.1 opensRow
  have after := landing.openSession rfl of.2.1 fresh opens
  have ran : world.upload env clock newId id media = if session.status = .complete then .ok server
      else (((List.range media.chunkCount).filter fun index =>
          !session.receivedChunks.contains index).foldlM
        (sendChunk env clock session.uploadId id media file.files) server).bind fun server =>
          (server.complete env (clock (media.chunkCount + 1)) session.uploadId
            (env.sha256 (file.wire media.encrypted))).map Prod.snd := by
    simp only [World.upload, opens, files, uploadHash_of of]
    rfl
  rw [ran]
  by_cases complete : session.status = .complete
  · rw [if_pos complete]
    have sealed := status.symm.trans complete
    obtain ⟨-, all⟩ := after.whole entry media' sealed
    rw [chunks] at all
    have object : server.object id = file.assembled forms := by
      refine StagedFile.object_eq (fun i chunk stored => (after.landed i chunk stored).1) fun i bound => ?_
      obtain ⟨chunk, stored⟩ := all i bound
      rw [chunks, objects]
      exact ⟨chunk, stored, landed i chunk stored⟩
    obtain ⟨bytes, read, -⟩ := StagedFile.assembled_length tagged made forms
    have exactly := (StagedFile.hash_eq_iff tagged made addressed read).trans same
    constructor
    · rintro ⟨final, returned, -, bytes', read', hash⟩
      cases returned
      rw [object, read, Option.some_inj] at read'
      subst read'
      refine ⟨exactly.mp (Option.some_inj.mp hash).symm, fun row _ _ i bound absent => ?_⟩
      obtain ⟨chunk, stored⟩ := all i bound
      rw [absent] at stored
      cases stored
    · intro resumable
      refine ⟨server, rfl, ⟨entry, media', sealed⟩, bytes, object.trans read, ?_⟩
      rw [exactly.mpr resumable.same]
  · rw [if_neg complete]
    have uploading : entry.status = .uploading := by
      rw [status] at complete
      cases opensRow with
      | complete _ sealed => exact absurd sealed complete
      | first _ uploading _ => exact uploading
      | again _ _ _ uploading _ => exact uploading
    have missing : ∀ i, i ∈ (List.range media.chunkCount).filter (fun index =>
        !session.receivedChunks.contains index) ↔
          i < file.files.length ∧ world.server.chunks.lookup (id, i) = none := by
      intro i
      have received : session.receivedChunks.contains i = true ↔
          ∃ chunk, world.server.chunks.lookup (id, i) = some chunk := by
        rw [List.contains_iff_mem, listed, ← chunks]
        exact Server.mem_receivedIndexes
      rw [List.mem_filter, List.mem_range, of.2.1]
      refine and_congr_right fun _ => ?_
      rw [Bool.not_eq_true', ← Bool.not_eq_true, received, not_exists, Option.eq_none_iff_forall_ne_some]
    have start : Receiving file media.encrypted session.uploadId
        (clock 0 + world.server.registry.sessionTtl) entry server [] server :=
      ⟨fun id' i chunk stored => sound.keyed id' i chunk (chunks ▸ stored), ⟨upload, live, mine, expires⟩,
        media', List.forall_mem_nil _, fun _ _ => ⟨rfl, fun _ _ => rfl⟩⟩
    obtain ⟨passed, total⟩ := start.sendAll of uploading count unexpired
      (List.nodup_range.filter fun index => !session.receivedChunks.contains index)
      (fun i member => by
        obtain ⟨bound, absent⟩ := (missing i).mp member
        exact ⟨bound, List.not_mem_nil, chunks ▸ absent⟩)
      fun i member => by
        obtain ⟨data, piece, -⟩ := @StagedFile.chunk_sizes env id file tagged made media.encrypted i
          ((missing i).mp member).1
        exact ⟨data, piece⟩
    have unfinished : entry.status ≠ .complete := by
      rw [uploading]
      intro sealed
      cases sealed
    have fits := landing.fits_iff tagged made count (fun none => restated none unfinished) stood
    -- Whatever the loop leaves, it reads as the chunks in the forms they landed in.
    have left : ∀ {last sent}, (∀ i, i ∈ sent ↔
        (i < file.files.length ∧ world.server.chunks.lookup (id, i) = none) ∨ i ∈ ([] : List Nat)) →
        Receiving file media.encrypted session.uploadId (clock 0 + world.server.registry.sessionTtl)
          entry server sent last →
        (∀ i < file.files.length, ∃ chunk, last.chunks.lookup (id, i) = some chunk) ∧
          last.object id = file.assembled forms := by
      intro last sent listed state
      have each : ∀ i < file.files.length, ∃ chunk, last.chunks.lookup (id, i) = some chunk ∧
          last.objects.lookup chunk.storageKey =
            chunkBytes env id file.row.mediaKey file.files (forms i) i := by
        intro i bound
        cases stored : world.server.chunks.lookup (id, i) with
        | none =>
          rw [otherwise i stored]
          exact state.taken i ((listed i).mpr (Or.inl ⟨bound, stored⟩))
        | some chunk =>
          have other : i ∉ sent := by
            rw [listed, stored]
            simp
          obtain ⟨rows, kept⟩ := state.found i other
          rw [chunks] at rows kept
          exact ⟨chunk, rows.trans stored, (kept chunk stored).trans (objects ▸ landed i chunk stored)⟩
      refine ⟨fun i bound => (each i bound).imp fun _ both => both.1, StagedFile.object_eq ?_ each⟩
      intro i chunk stored
      by_cases member : i ∈ sent
      · rcases (listed i).mp member with missing | none
        · exact missing.1
        · cases none
      · rw [(state.found i member).1] at stored
        exact (after.landed i chunk stored).1
    obtain ⟨bytes, read, -⟩ := StagedFile.assembled_length tagged made forms
    have exactly := (StagedFile.hash_eq_iff tagged made addressed read).trans same
    simp only [missing] at passed total
    -- The seal, over what the loop has left.
    have seals : ∀ last, (List.filter (fun index => !session.receivedChunks.contains index)
        (List.range media.chunkCount)).foldlM (sendChunk env clock session.uploadId id media file.files)
          server = .ok last → ∀ final,
        ((last.complete env (clock (media.chunkCount + 1)) session.uploadId
          (env.sha256 (file.wire media.encrypted))).map Prod.snd = .ok final ↔
          env.sha256 bytes = env.sha256 (file.wire media.encrypted) ∧ final = { last with
            media := last.media.insert id
              (Server.sealedRow env (clock (media.chunkCount + 1)) id entry bytes) }) ∧
          last.object id = some bytes := by
      intro last looped final
      obtain ⟨-, sent, listed, state⟩ := passed last looped
      obtain ⟨present, object⟩ := left listed state
      obtain ⟨upload', live', rfl, expires'⟩ := state.session
      refine ⟨Server.complete_iff live' (expires' ▸ unexpired _) state.media (fun i bound => ?_)
        (object.trans read), object.trans read⟩
      exact present i (count ▸ bound)
    constructor
    · rintro ⟨final, ran, -⟩
      obtain ⟨last, looped, ran⟩ := Lib.bind_ok_iff.mp ran
      obtain ⟨hash, -⟩ := (seals last looped final).1.mp ran
      exact ⟨exactly.mp hash, fits.mp (passed last looped).1⟩
    · intro resumable
      obtain ⟨last, looped⟩ := total (fits.mpr resumable.fits)
      have hash := exactly.mpr resumable.same
      obtain ⟨done, object⟩ := seals last looped _
      refine ⟨_, Lib.bind_ok_iff.mpr ⟨last, looped, done.mpr ⟨hash, rfl⟩⟩,
        ⟨_, AList.lookup_insert _, rfl⟩, bytes, object, by rw [hash]⟩

/-- In every state a run reaches, a file that is staged and not sealed is sealed by one more upload
whose session opens, exactly when the chunks the server lists are in the form the upload sends and the
others have the sizes of the mode on record. -/
theorem upload_seals_iff (tagged : env.Tagged)
    (made : ∀ id file, staged.lookup id = some file → file.Made)
    (addressed : ∀ id file, staged.lookup id = some file → file.Addressed) (deviceId : String)
    (deleteAfterUpload : Bool) (registry : Registry) (acts : List Act)
    (reached : world = acts.foldl (after env) (start deviceId deleteAfterUpload registry staged))
    (found : staged.lookup id = some file) (kept : world.rows.lookup id = some row)
    (unsealed : row.uploaded = false) (settled : resolveEncryption row crypto = some media)
    (fresh : world.server.sessions.lookup newId = none)
    (opens : world.server.openSession (clock 0) newId (world.sessionRequest id media) = .ok opened)
    (unexpired : ∀ k, clock k < clock 0 + world.server.registry.sessionTtl) :
    (∃ final, world.upload env clock newId id media = .ok final ∧
      final.Seals env id (uploadHash env id media ((world.files.lookup id).getD []))) ↔
    file.Resumable media.encrypted world.server := by
  have sound := sound_reached deviceId deleteAfterUpload registry staged acts
  rw [← reached] at sound
  exact sound.upload_sealed_iff tagged found (made id file found) (addressed id file found) kept unsealed
    settled fresh opens unexpired

end World

/-! ### A portrait taken before the mode changed -/

def portraitEnvelope : Envelope where
  sha256 bytes := photoEnvelope.sha256 bytes
  encryptMediaChunk chunk mediaKey mediaId chunkIndex :=
    if chunk = [0x41] ∧ mediaKey = List.replicate 32 0 ∧ mediaId = "m1" ∧ chunkIndex = 0 then photoCiphertext
    else chunk ++ List.replicate 16 0
  decryptMediaChunk ciphertext mediaKey mediaId chunkIndex :=
    if ciphertext = photoCiphertext ∧ mediaKey = List.replicate 32 0 ∧ mediaId = "m1" ∧ chunkIndex = 0 then
      some [0x41]
    else some (ciphertext.take (ciphertext.length - 16))
  decrypts chunk mediaKey mediaId chunkIndex := by
    split
    · rename_i here
      rw [if_pos ⟨rfl, here.2⟩, here.1]
    · rw [if_neg]
      · simp
      · rintro ⟨same, -⟩
        have last := congrArg List.getLast? same
        rw [List.getLast?_append] at last
        cases last

theorem portraitEnvelope_tagged : portraitEnvelope.Tagged := by
  intro chunk mediaKey mediaId index
  show (if _ then photoCiphertext else chunk ++ List.replicate 16 0).length = chunk.length + 16
  split
  · rename_i here
    rw [here.1]
    rfl
  · simp

set_option maxRecDepth 20000 in
def portrait : StagedFile portraitEnvelope "m1" :=
  (stage portraitEnvelope "m1" "s1" "photo" "image/jpeg" [0x41] (some ⟨.standard, []⟩) "ck1"
    (List.replicate 32 0)).get (by decide)

def portraitStaged : AList (StagedFile portraitEnvelope) := AList.insert "m1" portrait ∅

def portraitStart : World := World.start "d1" true photoRegistry portraitStaged

theorem portraitStaged_lookup {id : String} {file : StagedFile portraitEnvelope id}
    (found : portraitStaged.lookup id = some file) : id = "m1" ∧ HEq file portrait := by
  obtain rfl : id = "m1" := by
    by_contra other
    rw [portraitStaged, AList.lookup_insert_ne other] at found
    cases found
  rw [portraitStaged, AList.lookup_insert] at found
  exact ⟨rfl, heq_of_eq (Option.some_inj.mp found).symm⟩

theorem portrait_made (id : String) (file : StagedFile portraitEnvelope id)
    (found : portraitStaged.lookup id = some file) : file.Made := by
  obtain ⟨rfl, same⟩ := portraitStaged_lookup found
  obtain rfl := eq_of_heq same
  exact ⟨_, _, _, _, _, _, _, (Option.some_get _).symm⟩

set_option maxRecDepth 20000 in
theorem portrait_addressed (id : String) (file : StagedFile portraitEnvelope id)
    (found : portraitStaged.lookup id = some file) : file.Addressed := by
  obtain ⟨rfl, same⟩ := portraitStaged_lookup found
  obtain rfl := eq_of_heq same
  intro forms bytes encrypted assembled same
  have one : portrait.assembled forms = portrait.assembled fun _ => forms 0 := by
    refine congrArg (Option.map List.flatten) (Lib.mapM_congr fun index member => ?_)
    have count : portrait.files.length = 1 := by decide
    rw [count] at member
    obtain rfl : index = 0 := by simpa using member
    rfl
  rw [one, StagedFile.assembled_wire] at assembled
  cases assembled
  revert same
  cases forms 0 <;> cases encrypted <;> decide

set_option maxRecDepth 20000 in
/-- Taken up at once, the portrait is sealed. -/
theorem portrait_seals :
    ∃ final, portraitStart.upload portraitEnvelope (fun _ => 0) "up1" "m1" portrait.row = .ok final ∧
      final.Seals portraitEnvelope "m1" (uploadHash portraitEnvelope "m1" portrait.row
        ((portraitStart.files.lookup "m1").getD [])) := by
  have kept : portraitStart.rows.lookup "m1" = some portrait.row := rfl
  have settled : resolveEncryption portrait.row (some ⟨.standard, []⟩) = some portrait.row := rfl
  refine (World.upload_seals_iff portraitEnvelope_tagged portrait_made portrait_addressed "d1" true
    photoRegistry [] rfl (AList.lookup_insert _) kept rfl settled rfl rfl (fun _ => by decide)).mpr
      ⟨?_, ?_⟩
  · intro i chunk found
    cases found
  · intro row found
    cases found

/-- The chunk is sent in the clear, and is late; the project turns to `project_e2e`, and the next
session restates the mode before the chunk lands. -/
def lateChunk : List Act :=
  [.begin "m1" (some ⟨.standard, []⟩), .serve 0 0 "up1", .receive 0, .abort "timeout",
    .begin "m1" (some e2e), .serve 2 1 "up2", .serve 1 2 "up2", .abort "timeout"]

def portraitRow : StagedMedia :=
  { portrait.row with encrypted := true, wraps := ["k1"], lastError := some "timeout" }

set_option maxRecDepth 20000 in
/-- The portrait is staged and unsealed and its session opens for ciphertext; the upload skips the one
chunk the server lists, and is refused for the hash. -/
theorem lateChunk_never_seals :
    let world := lateChunk.foldl (World.after portraitEnvelope) portraitStart
    world.rows.lookup "m1" = some portraitRow ∧ portraitRow.uploaded = false ∧
      resolveEncryption portraitRow (some e2e) = some portraitRow ∧
      (world.server.media.lookup "m1").map (·.encrypted) = some true ∧
      (world.server.openSession 3 "up3" (world.sessionRequest "m1" portraitRow)).isOk = true ∧
      ¬ ∃ final, world.upload portraitEnvelope (fun _ => 3) "up3" "m1" portraitRow = .ok final ∧
        final.Seals portraitEnvelope "m1" (uploadHash portraitEnvelope "m1" portraitRow
          ((world.files.lookup "m1").getD [])) := by
  intro world
  have refused : world.upload portraitEnvelope (fun _ => 3) "up3" "m1" portraitRow =
    .error (.mediaError .hashMismatch) := rfl
  refine ⟨rfl, rfl, rfl, rfl, rfl, ?_⟩
  rintro ⟨final, sealed, -⟩
  rw [refused] at sealed
  cases sealed

end DataCollectionLab.Media
