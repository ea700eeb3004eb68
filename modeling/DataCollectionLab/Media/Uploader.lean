import Mathlib.Algebra.Ring.Nat
import DataCollectionLab.Lib.Lists
import DataCollectionLab.Media.Service

/-!
The device's side of an upload, and a run of it against the service. A file is encrypted once, when it
is staged, and is sent as it lies; in `standard` mode each chunk is decrypted on the way out. Requests
may reach the server any number of times and in any order, and a response only while its upload waits.
-/

namespace DataCollectionLab.Media

inductive SecurityMode where
  | standard | fieldLevel | projectE2e
  deriving DecidableEq, Repr

/-- `ProjectCrypto`: the project's mode, and the keys a media key is wrapped to. -/
structure ProjectCrypto where
  securityMode : SecurityMode
  projectKeys : List String

/-- One row of the device's `media`. -/
structure StagedMedia where
  submissionId : String
  opId : Option String := none
  fieldPath : String
  mimeType : String
  plaintextSize : Nat
  ciphertextSize : Nat
  chunkCount : Nat
  ciphertextHash : String
  mediaKey : Bytes
  contentKeyId : String
  encrypted : Bool
  wraps : List String := []
  uploaded : Bool := false
  lastError : Option String := none

/-- `chunkBytes`, of the ciphertext chunks on disk. -/
def chunkBytes (env : Envelope) (mediaId : String) (mediaKey : Bytes) (files : List Bytes)
    (encrypted : Bool) (index : Nat) : Option Bytes :=
  (files[index]?).bind fun chunk =>
    if encrypted then some chunk else env.decryptMediaChunk chunk mediaKey mediaId index

/-- The chunks one after another, each sent as `encrypted` says for it. -/
def wireBytes (env : Envelope) (mediaId : String) (mediaKey : Bytes) (files : List Bytes)
    (encrypted : Nat → Bool) : Option Bytes :=
  ((List.range files.length).mapM fun index =>
    chunkBytes env mediaId mediaKey files (encrypted index) index).map List.flatten

/-- A file as it was staged: its row, the chunks on disk, and what they decrypt to. -/
structure StagedFile (env : Envelope) (mediaId : String) where
  row : StagedMedia
  files : List Bytes
  plaintext : Bytes
  counted : row.chunkCount = files.length
  hashed : row.ciphertextHash = env.sha256 files.flatten
  sized : row.ciphertextSize = files.flatten.length ∧ row.plaintextSize = plaintext.length
  opens : wireBytes env mediaId row.mediaKey files (fun _ => false) = some plaintext
  staged : row.uploaded = false

/-- The pieces `stage` cuts a file into. -/
def mediaChunks : (fuel : Nat) → Bytes → List Bytes
  | 0, _ => []
  | fuel + 1, plaintext =>
    if plaintext.isEmpty then []
    else plaintext.take chunkSizeBytes :: mediaChunks fuel (plaintext.drop chunkSizeBytes)

theorem mediaChunks_flatten {fuel : Nat} {plaintext : Bytes} (enough : plaintext.length ≤ fuel) :
    (mediaChunks fuel plaintext).flatten = plaintext := by
  induction fuel generalizing plaintext with
  | zero =>
    rw [List.length_eq_zero_iff.mp (Nat.le_zero.mp enough)]
    rfl
  | succ fuel ih =>
    rw [mediaChunks]
    split
    · rename_i empty
      rw [List.isEmpty_iff.mp empty]
      rfl
    · have shorter : (plaintext.drop chunkSizeBytes).length ≤ fuel := by
        rw [List.length_drop]
        have : 0 < chunkSizeBytes := by decide
        omega
      rw [List.flatten_cons, ih shorter, List.take_append_drop]

/-- The ciphertext chunks `stage` writes. -/
def encryptedChunks (env : Envelope) (mediaId : String) (mediaKey plaintext : Bytes) : List Bytes :=
  (mediaChunks plaintext.length plaintext).mapIdx fun index chunk =>
    env.encryptMediaChunk chunk mediaKey mediaId index

theorem encryptedChunks_open (env : Envelope) (mediaId : String) (mediaKey plaintext : Bytes) :
    wireBytes env mediaId mediaKey (encryptedChunks env mediaId mediaKey plaintext) (fun _ => false) =
      some plaintext := by
  have pieces : (List.range (encryptedChunks env mediaId mediaKey plaintext).length).mapM
      (fun index => chunkBytes env mediaId mediaKey (encryptedChunks env mediaId mediaKey plaintext)
        false index) = some (mediaChunks plaintext.length plaintext) := by
    rw [Lib.mapM_eq_some_iff]
    apply List.ext_getElem
    · simp [encryptedChunks]
    · intro index left right
      have bound : index < (mediaChunks plaintext.length plaintext).length := by simpa using right
      simp [chunkBytes, encryptedChunks, bound, env.decrypts]
  rw [wireBytes, pieces, Option.map_some, mediaChunks_flatten (Nat.le_refl _)]

/-- `stage`: `none` is an empty file, or one that would be wrapped to nobody. -/
def stage (env : Envelope) (mediaId submissionId fieldPath mimeType : String) (plaintext : Bytes)
    (crypto : Option ProjectCrypto) (contentKeyId : String) (mediaKey : Bytes) :
    Option (StagedFile env mediaId) :=
  let uploadEncrypted := crypto.any (·.securityMode ≠ .standard)
  let wraps := (crypto.map (·.projectKeys)).getD []
  if plaintext.isEmpty then none
  else if uploadEncrypted ∧ wraps.isEmpty then none
  else
    let files := encryptedChunks env mediaId mediaKey plaintext
    some
      { row :=
          { submissionId := submissionId
            fieldPath := fieldPath
            mimeType := mimeType
            plaintextSize := plaintext.length
            ciphertextSize := (files.map List.length).sum
            chunkCount := files.length
            ciphertextHash := env.sha256 files.flatten
            mediaKey := mediaKey
            contentKeyId := contentKeyId
            encrypted := uploadEncrypted
            wraps := if uploadEncrypted then wraps else [] }
        files := files
        plaintext := plaintext
        counted := rfl
        hashed := rfl
        sized := ⟨List.length_flatten.symm, rfl⟩
        opens := encryptedChunks_open env mediaId mediaKey plaintext
        staged := rfl }

/-- `resolveEncryption`: `none` refuses to upload. -/
def resolveEncryption (media : StagedMedia) (crypto : Option ProjectCrypto) : Option StagedMedia :=
  if media.encrypted then some media
  else match crypto with
    | none => none
    | some crypto =>
      if crypto.securityMode = .standard then some media
      else if crypto.projectKeys.isEmpty then none
      else some { media with encrypted := true, wraps := crypto.projectKeys }

/-- `uploadHash`: over what is uploaded. -/
def uploadHash (env : Envelope) (mediaId : String) (media : StagedMedia) (files : List Bytes) :
    Option String :=
  if media.encrypted then some media.ciphertextHash
  else (wireBytes env mediaId media.mediaKey files fun _ => false).map env.sha256

inductive Request where
  | openSession (request : SessionRequest)
  | putChunk (uploadId : String) (chunkIndex : Nat) (data : Bytes)
  | complete (uploadId ciphertextHash : String)

inductive Response where
  | session (response : SessionResponse)
  | chunk (response : ChunkResponse)
  | completed (response : CompleteResponse)

def Server.handle (env : Envelope) (server : Server) (now : Timestamp) (newId : String) :
    Request → Except Fault (Response × Server)
  | .openSession request =>
    (server.openSession now newId request).map fun done => (.session done.1, done.2)
  | .putChunk uploadId chunkIndex data =>
    (server.putChunk env now uploadId chunkIndex data).map fun done => (.chunk done.1, done.2)
  | .complete uploadId hash =>
    (server.complete env now uploadId hash).map fun done => (.completed done.1, done.2)

def Server.subject (server : Server) : Request → Option String
  | .openSession request => some request.mediaId
  | .putChunk uploadId _ _ => (server.sessions.lookup uploadId).map (·.mediaId)
  | .complete uploadId _ => (server.sessions.lookup uploadId).map (·.mediaId)

structure Message where
  exchange : Nat
  mediaId : String
  request : Request

structure Answer where
  exchange : Nat
  mediaId : String
  response : Response

inductive Task where
  | idle
  | opening (mediaId : String) (media : StagedMedia)
  /-- The chunks not sent yet; the first of them is on its way. -/
  | sending (mediaId : String) (media : StagedMedia) (uploadId : String) (chunks : List Nat)
  | finishing (mediaId : String) (media : StagedMedia) (uploadId : String)

def Task.subject : Task → Option String
  | .idle => none
  | .opening mediaId _ | .sending mediaId _ _ _ | .finishing mediaId _ _ => some mediaId

structure SealedNote where
  mediaId : String
  bytes : Bytes
  ciphertextHash : String
  sizeBytes : Nat

structure World where
  deviceId : String
  deleteAfterUpload : Bool
  server : Server
  rows : Dict StagedMedia
  files : Dict (List Bytes)
  task : Task := .idle
  exchange : Nat := 0
  requests : List Message := []
  answers : List Answer := []
  sealings : List SealedNote := []

inductive Act where
  /-- `uploadPending` comes to this file, under the project's mode as it is known now. -/
  | begin (mediaId : String) (crypto : Option ProjectCrypto)
  /-- A request that was sent reaches the server. -/
  | serve (request : Nat) (now : Timestamp) (newId : String)
  | receive (answer : Nat)
  /-- The upload fails or is cancelled, wherever it is. -/
  | abort (message : String)
  /-- A request from elsewhere, about another file. -/
  | other (request : Request) (now : Timestamp) (newId : String)
  /-- A pushed op that names a file. -/
  | register (mediaId submissionId opId path : String)
  | registry (registry : Registry)

namespace World

variable (env : Envelope) (world : World)

def send (mediaId : String) (task : Task) (request : Request) : World :=
  { world with
    task := task
    exchange := world.exchange + 1
    requests := world.requests ++ [⟨world.exchange + 1, mediaId, request⟩] }

/-- `recordError`. -/
def fail (message : String) : World :=
  match world.task.subject with
  | none => world
  | some mediaId =>
    match world.rows.lookup mediaId with
    | none => { world with task := .idle }
    | some row =>
      { world with
        task := .idle
        rows := world.rows.insert mediaId { row with lastError := some message } }

def sessionRequest (mediaId : String) (media : StagedMedia) : SessionRequest where
  mediaId := mediaId
  submissionId := media.submissionId
  deviceId := world.deviceId
  opId := media.opId
  fieldPath := some media.fieldPath
  mimeType := media.mimeType
  sizeBytes := if media.encrypted then media.ciphertextSize else media.plaintextSize
  chunkCount := media.chunkCount
  encrypted := media.encrypted
  contentKeyId := if media.encrypted then some media.contentKeyId else none
  wraps := if media.encrypted then media.wraps else []

def beginUpload (mediaId : String) (crypto : Option ProjectCrypto) : Option World :=
  match world.rows.lookup mediaId with
  | none => none
  | some row =>
    if row.uploaded then none
    else (resolveEncryption row crypto).map fun media =>
      { world with rows := world.rows.insert mediaId media }.send mediaId (.opening mediaId media)
        (.openSession (world.sessionRequest mediaId media))

def finish (mediaId : String) : World :=
  let rows := match world.rows.lookup mediaId with
    | none => world.rows
    | some row => world.rows.insert mediaId { row with uploaded := true, lastError := none }
  { world with
    task := .idle
    rows := rows
    files := if world.deleteAfterUpload then world.files.erase mediaId else world.files }

/-- The loop over the chunks: the next one, or the end of the upload. `none` is a chunk that cannot
be read. -/
def next (mediaId : String) (media : StagedMedia) (uploadId : String) : List Nat → Option World
  | [] => do
    let files ← world.files.lookup mediaId
    let hash ← uploadHash env mediaId media files
    return world.send mediaId (.finishing mediaId media uploadId) (.complete uploadId hash)
  | index :: rest => do
    let files ← world.files.lookup mediaId
    let data ← chunkBytes env mediaId media.mediaKey files media.encrypted index
    return world.send mediaId (.sending mediaId media uploadId (index :: rest))
      (.putChunk uploadId index data)

def receive (answer : Response) : Option World :=
  match world.task, answer with
  | .opening mediaId media, .session response =>
    if response.status = .complete then some (world.finish mediaId)
    else world.next env mediaId media response.uploadId
      ((List.range media.chunkCount).filter fun index => !response.receivedChunks.contains index)
  | .sending mediaId media uploadId (_ :: rest), .chunk _ => world.next env mediaId media uploadId rest
  | .finishing mediaId media _, .completed response => do
    let files ← world.files.lookup mediaId
    let hash ← uploadHash env mediaId media files
    if response.hash = hash then some (world.finish mediaId) else none
  | _, _ => none

def serve (message : Message) (now : Timestamp) (newId : String) : World :=
  match world.server.handle env now newId message.request with
  | .error _ => world
  | .ok (response, server) =>
    let sealings := match response with
      | .completed done =>
        [⟨done.mediaId, (server.object done.mediaId).getD [], done.hash, done.sizeBytes⟩]
      | _ => []
    { world with
      server := server
      answers := world.answers ++ [⟨message.exchange, message.mediaId, response⟩]
      sealings := world.sealings ++ sealings }

/-- `none` is a step that nobody can make now. -/
def step : Act → Option World
  | .begin mediaId crypto =>
    match world.task with
    | .idle => world.beginUpload mediaId crypto
    | _ => none
  | .serve request now newId =>
    if (world.server.sessions.lookup newId).isSome then none
    else (world.requests[request]?).map fun message => world.serve env message now newId
  | .receive answer =>
    (world.answers[answer]?).bind fun answer =>
      if answer.exchange = world.exchange then world.receive env answer.response else none
  | .abort message => some (world.fail message)
  | .other request now newId =>
    if (world.server.sessions.lookup newId).isSome then none
    else if (world.server.subject request).any fun id => (world.rows.lookup id).isSome then none
    else match world.server.handle env now newId request with
      | .error _ => none
      | .ok (_, server) => some { world with server := server }
  | .register mediaId submissionId opId path =>
    some { world with server := world.server.registerReference mediaId submissionId opId path }
  | .registry registry => some { world with server := { world.server with registry := registry } }

def after (act : Act) : World := (world.step env act).getD world

def start {env : Envelope} (deviceId : String) (deleteAfterUpload : Bool) (registry : Registry)
    (staged : AList (StagedFile env)) : World where
  deviceId := deviceId
  deleteAfterUpload := deleteAfterUpload
  server := { registry := registry }
  rows := Lib.mapValues (fun _ file => file.row) staged
  files := Lib.mapValues (fun _ file => file.files) staged

end World

end DataCollectionLab.Media
