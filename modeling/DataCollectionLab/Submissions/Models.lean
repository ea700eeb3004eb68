import Mathlib.Data.List.AList

/-!
The rows of the operation log. `submission_op` is append-only and is both the sync
mechanism and the correction audit trail; everything else about a submission is
derived from it.
-/

namespace DataCollectionLab

abbrev Dict (ν : Type) := AList (fun _ : String => ν)

abbrev Bytes := List UInt8

abbrev Timestamp := Int

/-- A JSON document, as a JSONB column holds it. A float is its IEEE bit pattern. -/
inductive Json where
  | null
  | bool (b : Bool)
  | int (n : Int)
  | float (bits : UInt64)
  | str (s : String)
  | arr (items : List Json)
  | obj (fields : List (String × Json))

inductive OpKind where
  | set | unset | repeatAdd | repeatDelete | finalize | reopen
  deriving DecidableEq, Repr

/-- `SubmissionOp`, one row of `submission_op`. -/
structure SubmissionOp where
  id : String
  submissionId : String
  opKind : OpKind
  path : Option String
  /-- SQL NULL reads back as `None`, the same Python value JSON `null` reads back as. -/
  value : Json
  valueCiphertext : Option Bytes
  contentKeyId : Option String
  nonce : Option Bytes
  deviceId : String
  actorId : Option String
  counter : Nat
  wallClock : Timestamp
  /-- Arrival order; only the pull cursor reads it. -/
  serverSeq : Nat

namespace SubmissionOp

def slot (op : SubmissionOp) : String × Nat := (op.deviceId, op.counter)

/-- `(content_key_id, nonce)`; with a NULL on either side it equals nothing. -/
def envelope (op : SubmissionOp) : Option (String × Bytes) :=
  match op.contentKeyId, op.nonce with
  | some key, some nonce => some (key, nonce)
  | _, _ => none

/-- Two rows `submission_op` cannot hold together. -/
def Clash (a b : SubmissionOp) : Prop :=
  a.id = b.id ∨ (∃ s, a.envelope = some s ∧ b.envelope = some s) ∨ a.slot = b.slot

def core (op : SubmissionOp) : SubmissionOp := { op with serverSeq := 0, actorId := none }

def unnumbered (op : SubmissionOp) : SubmissionOp := { op with serverSeq := 0 }

end SubmissionOp

end DataCollectionLab
