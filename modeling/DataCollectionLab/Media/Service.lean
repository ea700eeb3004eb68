import DataCollectionLab.Lib.Except
import DataCollectionLab.Lib.Paging
import DataCollectionLab.Sync.Store

/-!
Resumable chunked upload: `open_session`, `put_chunk` and `complete`, each in a transaction of its own
that an exception rolls back. Chunks are objects in a store beside the database, one for each media id
and index, and are never joined: the object is what they read as, one after another.
-/

namespace DataCollectionLab.Media

/-- What the code takes from elsewhere: SHA-256 in hex, and AES-256-GCM of one chunk under a media
key, with the media id and the index bound to it. -/
structure Envelope where
  sha256 : Bytes → String
  encryptMediaChunk : (chunk mediaKey : Bytes) → (mediaId : String) → (chunkIndex : Nat) → Bytes
  decryptMediaChunk : (ciphertext mediaKey : Bytes) → (mediaId : String) → (chunkIndex : Nat) → Option Bytes
  decrypts : ∀ chunk mediaKey mediaId chunkIndex, decryptMediaChunk
    (encryptMediaChunk chunk mediaKey mediaId chunkIndex) mediaKey mediaId chunkIndex = some chunk

def chunkSizeBytes : Nat := 4 * 1024 * 1024

def gcmTagBytes : Nat := 16

def wireChunkSize (encrypted : Bool) : Nat := chunkSizeBytes + if encrypted then gcmTagBytes else 0

/-- `{chunk_index:08d}`. -/
def padded (n : Nat) : List Char := (Nat.toDigits 10 n).leftpad 8 '0'

def chunkStorageKey (mediaId : String) (chunkIndex : Nat) : String :=
  String.ofList ("media/".toList ++ mediaId.toList ++ '/' :: padded chunkIndex)

inductive MediaStatus where
  | pending | uploading | complete | failed
  deriving DecidableEq, Repr

/-- One row of `media`. -/
structure MediaRow where
  submissionId : String
  opId : Option String
  deviceId : Option String
  fieldPath : Option String
  mimeType : String
  sizeBytes : Nat
  chunkCount : Nat
  encrypted : Bool
  contentKeyId : Option String
  status : MediaStatus
  ciphertextHash : Option String := none
  storageKey : Option String := none
  uploadedAt : Option Timestamp := none

structure MediaChunk where
  sizeBytes : Nat
  chunkHash : String
  storageKey : String

structure MediaUploadSession where
  mediaId : String
  receivedChunks : Nat := 0
  expiresAt : Timestamp

structure Registry where
  devices : Dict Sync.Device := ∅
  /-- The project of each submission. -/
  submissions : Dict String := ∅
  projectKeys : Dict Sync.ProjectKey := ∅
  sessionTtl : Int := 0

structure Server where
  registry : Registry := {}
  media : Dict MediaRow := ∅
  /-- The project keys each media key is wrapped to. -/
  wraps : Dict (List String) := ∅
  chunks : AList (fun _ : String × Nat => MediaChunk) := ∅
  sessions : Dict MediaUploadSession := ∅
  /-- The media store, by storage key. -/
  objects : Dict Bytes := ∅

inductive MediaUploadFailure where
  | submissionNotFound | deviceNotAuthorized | mediaConflict | sessionNotFound | sessionExpired
  | chunkOutOfRange | chunkSizeMismatch | chunksMissing | hashMismatch | unknownRecipient
  | unwrappedMediaKey
  deriving DecidableEq, Repr

inductive Fault where
  | mediaError (reason : MediaUploadFailure)
  /-- Anything else that ends the request: a row or an object that is not there. -/
  | raised
  deriving DecidableEq, Repr

structure SessionRequest where
  mediaId : String
  submissionId : String
  deviceId : String
  opId : Option String
  fieldPath : Option String
  mimeType : String
  sizeBytes : Nat
  chunkCount : Nat
  encrypted : Bool
  contentKeyId : Option String
  /-- The project keys the media key comes wrapped to. -/
  wraps : List String

structure SessionResponse where
  uploadId : String
  mediaId : String
  chunkCount : Nat
  receivedChunks : List Nat
  status : MediaStatus
  expiresAt : Timestamp

structure ChunkResponse where
  mediaId : String
  chunkIndex : Nat
  sizeBytes : Nat
  receivedChunks : Nat
  chunkCount : Nat

structure CompleteResponse where
  mediaId : String
  hash : String
  sizeBytes : Nat
  chunkCount : Nat

namespace Server

variable (server : Server)

def chunkRows (mediaId : String) : List (Nat × MediaChunk) :=
  Lib.orderBy Prod.fst (server.chunks.entries.filterMap fun entry =>
    if entry.1.1 = mediaId then some (entry.1.2, entry.2) else none)

def receivedIndexes (mediaId : String) : List Nat := (server.chunkRows mediaId).map Prod.fst

/-- What the stored chunks read as. `none` is an object that is not there. -/
def object (mediaId : String) : Option Bytes :=
  ((server.chunkRows mediaId).mapM fun row => server.objects.lookup row.2.storageKey).map List.flatten

def checkMediaKey (request : SessionRequest) : Except Fault Unit :=
  if !request.encrypted then .ok ()
  else if request.contentKeyId = none then .error (.mediaError .unwrappedMediaKey)
  else if request.wraps.isEmpty then .error (.mediaError .unwrappedMediaKey)
  else .ok ()

/-- `_check_recipients`: every wrap is to an active key of the device's project. -/
def checkRecipients (projectId : String) (request : SessionRequest) : Except Fault Unit :=
  let active := fun id => (server.registry.projectKeys.lookup id).any fun key =>
    key.projectId = projectId ∧ key.revokedAt = none
  if request.wraps.all active then .ok () else .error (.mediaError .unknownRecipient)

/-- `old or new`, for two nullable texts. -/
def orElse (old new : Option String) : Option String :=
  match old with
  | some text => if text = "" then new else some text
  | none => new

def declared (request : SessionRequest) : MediaRow where
  submissionId := request.submissionId
  opId := request.opId
  deviceId := some request.deviceId
  fieldPath := request.fieldPath
  mimeType := request.mimeType
  sizeBytes := request.sizeBytes
  chunkCount := request.chunkCount
  encrypted := request.encrypted
  contentKeyId := request.contentKeyId
  status := .uploading

def resumed (row : MediaRow) (landed : Bool) (request : SessionRequest) : MediaRow :=
  let stated := if landed then row else
    { row with
      mimeType := request.mimeType
      sizeBytes := request.sizeBytes
      chunkCount := request.chunkCount
      encrypted := request.encrypted
      contentKeyId := request.contentKeyId }
  { stated with
    status := .uploading
    opId := orElse row.opId request.opId
    fieldPath := orElse row.fieldPath request.fieldPath
    deviceId := orElse row.deviceId (some request.deviceId) }

def openMedia (request : SessionRequest) : Except Fault (MediaRow × Server) :=
  match server.media.lookup request.mediaId with
  | none =>
    let row := declared request
    .ok (row, { server with
      media := server.media.insert request.mediaId row
      wraps := server.wraps.insert request.mediaId request.wraps })
  | some row =>
    if row.submissionId ≠ request.submissionId ∨
        (row.deviceId ≠ none ∧ row.deviceId ≠ some request.deviceId) then
      .error (.mediaError .mediaConflict)
    else if row.status = .complete then .ok (row, server)
    else
      let landed := !(server.receivedIndexes request.mediaId).isEmpty
      let row := resumed row landed request
      .ok (row, { server with
        media := server.media.insert request.mediaId row
        wraps := if landed then server.wraps else server.wraps.insert request.mediaId request.wraps })

def sessionOf (mediaId : String) : Option String :=
  (server.sessions.entries.find? fun entry => entry.2.mediaId = mediaId).map fun entry => entry.1

/-- The session's row: a new one under `newId`, or the one there with its time extended. -/
def openUpload (mediaId newId : String) (expiresAt : Timestamp) : String × Server :=
  match server.sessionOf mediaId with
  | none =>
    (newId, { server with
      sessions := server.sessions.insert newId { mediaId := mediaId, expiresAt := expiresAt } })
  | some id =>
    let received := ((server.sessions.lookup id).map (·.receivedChunks)).getD 0
    (id, { server with
      sessions := server.sessions.insert id
        { mediaId := mediaId, receivedChunks := received, expiresAt := expiresAt } })

def openSession (now : Timestamp) (newId : String) (request : SessionRequest) :
    Except Fault (SessionResponse × Server) :=
  match server.registry.devices.lookup request.deviceId with
  | none => .error (.mediaError .deviceNotAuthorized)
  | some device =>
    if device.revokedAt ≠ none then .error (.mediaError .deviceNotAuthorized)
    else if server.registry.submissions.lookup request.submissionId ≠ some device.projectId then
      .error (.mediaError .submissionNotFound)
    else do
      checkMediaKey request
      server.checkRecipients device.projectId request
      let (row, opened) ← server.openMedia request
      let expiresAt := now + server.registry.sessionTtl
      let (uploadId, final) := opened.openUpload request.mediaId newId expiresAt
      return ({ uploadId := uploadId
                mediaId := request.mediaId
                chunkCount := row.chunkCount
                receivedChunks := final.receivedIndexes request.mediaId
                status := row.status
                expiresAt := expiresAt }, final)

def sessionAndMedia (now : Timestamp) (uploadId : String) :
    Except Fault (MediaUploadSession × MediaRow) :=
  match server.sessions.lookup uploadId with
  | none => .error (.mediaError .sessionNotFound)
  | some upload =>
    if upload.expiresAt ≤ now then .error (.mediaError .sessionExpired)
    else match server.media.lookup upload.mediaId with
      | none => .error .raised
      | some row => .ok (upload, row)

end Server

/-- The sizes `put_chunk` takes: every chunk but the last is full, and none is empty. -/
def chunkFits (row : MediaRow) (chunkIndex : Nat) (data : Bytes) : Bool :=
  !data.isEmpty && (chunkIndex == row.chunkCount - 1 || data.length == wireChunkSize row.encrypted) &&
    data.length ≤ wireChunkSize row.encrypted

namespace Server

variable (env : Envelope) (server : Server)

def storeChunk (mediaId : String) (chunkIndex : Nat) (data : Bytes) : Server :=
  let digest := env.sha256 data
  let key := chunkStorageKey mediaId chunkIndex
  match server.chunks.lookup (mediaId, chunkIndex) with
  | none =>
    { server with
      objects := server.objects.insert key data
      chunks := server.chunks.insert (mediaId, chunkIndex) ⟨data.length, digest, key⟩ }
  | some existing =>
    if existing.chunkHash ≠ digest then
      { server with
        objects := server.objects.insert key data
        chunks := server.chunks.insert (mediaId, chunkIndex) ⟨data.length, digest, existing.storageKey⟩ }
    else server

def takeChunk (uploadId : String) (upload : MediaUploadSession) (row : MediaRow) (chunkIndex : Nat)
    (data : Bytes) : ChunkResponse × Server :=
  let stored := server.storeChunk env upload.mediaId chunkIndex data
  let received := (stored.receivedIndexes upload.mediaId).length
  (⟨upload.mediaId, chunkIndex, data.length, received, row.chunkCount⟩,
    { stored with
      media := stored.media.insert upload.mediaId { row with status := .uploading }
      sessions := stored.sessions.insert uploadId { upload with receivedChunks := received } })

def putChunk (now : Timestamp) (uploadId : String) (chunkIndex : Nat) (data : Bytes) :
    Except Fault (ChunkResponse × Server) :=
  (server.sessionAndMedia now uploadId).bind fun (upload, row) =>
    if row.chunkCount ≤ chunkIndex then .error (.mediaError .chunkOutOfRange)
    else if chunkFits row chunkIndex data = false then .error (.mediaError .chunkSizeMismatch)
    else .ok (server.takeChunk env uploadId upload row chunkIndex data)

/-- The row of a file that is sealed over `bytes`. -/
def sealedRow (now : Timestamp) (mediaId : String) (row : MediaRow) (bytes : Bytes) : MediaRow :=
  { row with
    ciphertextHash := some (env.sha256 bytes)
    sizeBytes := bytes.length
    storageKey := some ("media/" ++ mediaId)
    status := .complete
    uploadedAt := some now }

def complete (now : Timestamp) (uploadId ciphertextHash : String) :
    Except Fault (CompleteResponse × Server) :=
  (server.sessionAndMedia now uploadId).bind fun (upload, row) =>
    let present := server.receivedIndexes upload.mediaId
    if ¬ (List.range row.chunkCount).all present.contains then .error (.mediaError .chunksMissing)
    else match server.object upload.mediaId with
      | none => .error .raised
      | some bytes =>
        if env.sha256 bytes ≠ ciphertextHash then .error (.mediaError .hashMismatch)
        else .ok (⟨upload.mediaId, env.sha256 bytes, bytes.length, row.chunkCount⟩,
          { server with
            media := server.media.insert upload.mediaId (sealedRow env now upload.mediaId row bytes) })

/-- `register_pending_references`, for one reference of an op that was pushed. -/
def registerReference (mediaId submissionId opId path : String) : Server :=
  match server.media.lookup mediaId with
  | none =>
    { server with
      media := server.media.insert mediaId
        { submissionId := submissionId, opId := some opId, deviceId := none, fieldPath := some path
          mimeType := "application/octet-stream", sizeBytes := 0, chunkCount := 0, encrypted := false
          contentKeyId := none, status := .pending } }
  | some row =>
    if row.submissionId = submissionId then
      { server with
        media := server.media.insert mediaId
          { row with
            opId := orElse row.opId (some opId)
            fieldPath := orElse row.fieldPath (some path) } }
    else server

end Server

end DataCollectionLab.Media
