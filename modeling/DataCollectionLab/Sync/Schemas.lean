import DataCollectionLab.Submissions.Models

/-!
Wire types of the sync API. Ops arrive as raw dicts and are validated one at a time, so
a malformed op rejects itself and never the batch.
-/

namespace DataCollectionLab.Sync

inductive RejectReason where
  | unknownFormVersion
  | notAuthorized
  | submissionClosed
  | malformed
  /-- The op names a content key the server neither holds nor was sent with it. -/
  | unknownContentKey
  /-- `(contentKeyId, nonce)` is already taken. -/
  | nonceReused
  /-- The op opens a submission against a case that is not assigned to the session's person. -/
  | notAssigned
  deriving DecidableEq, Repr

/-- What an op carries: a value, or the three encryption fields, which travel together and
never beside a value. -/
inductive Payload where
  | plain (value : Json)
  | sealed (valueCiphertext : Bytes) (contentKeyId : String) (nonce : Bytes)

def Payload.isEncrypted : Payload → Bool
  | .plain _ => false
  | .sealed .. => true

/-- `_PATH_KINDS`. -/
def needsPath : OpKind → Bool
  | .set | .unset | .repeatAdd | .repeatDelete => true
  | .finalize | .reopen => false

structure SyncOp where
  opId : String
  submissionId : String
  formId : String
  formVersion : Nat
  kind : OpKind
  path : Option String := none
  payload : Payload := .plain .null
  deviceId : String
  actorId : Option String := none
  /-- Read on the op that opens the submission; carried on the rest for the record. -/
  caseId : Option String := none
  counter : Nat
  wallClock : Timestamp := 0
  pathGiven : needsPath kind = true → path.getD "" ≠ "" := by decide

def SyncOp.slot (op : SyncOp) : String × Nat := (op.deviceId, op.counter)

/-- A raw dict of the batch, by what `SyncOp.model_validate` makes of it. -/
inductive RawOp where
  | wellFormed (op : SyncOp)
  | malformed (opId : Option String)

structure WrappedKeyIn where
  projectKeyId : String
  ephemeralPublic : Bytes
  nonce : Bytes
  wrappedKey : Bytes

structure ContentKeyIn where
  contentKeyId : String
  submissionId : String
  deviceId : String
  wraps : List WrappedKeyIn

/-- The arguments of `push`. `now` is the clock it reads when it notes the device. -/
structure PushRequest where
  deviceId : String
  ops : List RawOp
  keys : List ContentKeyIn := []
  /-- The person whose app session pushed the batch. -/
  actorId : Option String := none
  pendingOps : Option Nat := none
  now : Timestamp := 0

structure RejectedOp where
  opId : Option String
  reason : RejectReason
  deriving DecidableEq, Repr

structure PushResponse where
  accepted : List String
  rejected : List RejectedOp
  serverCursor : Nat

end DataCollectionLab.Sync
