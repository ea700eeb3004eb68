import Mathlib.Data.List.Induction
import DataCollectionLab.Lib.Dict
import DataCollectionLab.Submissions.Models
import DataCollectionLab.Submissions.Status

/-!
`fold_ops`: the op log folded into current state, field-level last writer wins. The
caller orders the log by `(counter, device_id)`; the fold takes the order it is given.
-/

namespace DataCollectionLab

structure Fold where
  /-- Path to current plaintext value; a path whose value is ciphertext is absent. -/
  data : Dict Json := ∅
  /-- Path to content key, for the paths whose current value is ciphertext. -/
  unreadable : Dict String := ∅
  /-- Repeat id to stable instance ids, in the order the log created them. -/
  instances : Dict (List String) := ∅
  status : Option Status := none
  finalizedAt : Option Timestamp := none
  opHighWater : Nat := 0

/-- What `(?:\.(?P<field>.+))?$` accepts. `$` also matches before one final newline. -/
def fieldTail : List Char → Bool
  | [] => true
  | ['\n'] => true
  | '.' :: rest =>
    let field := rest.takeWhile (· != '\n')
    let after := rest.dropWhile (· != '\n')
    !field.isEmpty && (after.isEmpty || after == ['\n'])
  | _ => false

/-- `INSTANCE_PATH.match`: the repeat and the instance that a path names. -/
def instancePath (path : String) : Option (String × String) :=
  let chars := path.toList
  let repeatId := chars.takeWhile fun c => c.isLower || c.isDigit || c == '_'
  match repeatId, chars.drop repeatId.length with
  | first :: _, '[' :: rest =>
    let inst := rest.takeWhile (· != ']')
    match rest.drop inst.length with
    | ']' :: tail =>
      if first.isLower && !inst.isEmpty && fieldTail tail then
        some (String.ofList repeatId, String.ofList inst)
      else none
    | _ => none
  | _, _ => none

def noteInstance (instances : Dict (List String)) (path : String) : Dict (List String) :=
  match instancePath path with
  | none => instances
  | some (repeatId, inst) =>
    let ordered := (instances.lookup repeatId).getD []
    instances.insert repeatId (if ordered.contains inst then ordered else ordered ++ [inst])

/-- Whether `forget(prefix)` deletes this key: the path itself, or one below it. -/
def covers (deleted key : String) : Bool :=
  key == deleted || (deleted ++ ".").toList.isPrefixOf key.toList ||
    (deleted ++ "[").toList.isPrefixOf key.toList

/-- What a `repeat_delete` leaves of the instance lists. -/
def dropInstance (instances : Dict (List String)) (path : String) : Dict (List String) :=
  match instancePath path with
  | none => instances.erase path
  | some (repeatId, inst) =>
    match instances.lookup repeatId with
    | none => instances
    | some ordered => instances.insert repeatId (ordered.erase inst)

/-- One round of the loop in `fold_ops`, after `high_water` is advanced. -/
def foldOp (fold : Fold) (op : SubmissionOp) : Fold :=
  match op.opKind, op.path with
  | .set, some path =>
    let fold := { fold with instances := noteInstance fold.instances path }
    match op.valueCiphertext with
    | some _ =>
      -- The superseded plaintext is removed, or it would be reported as current.
      { fold with
        data := fold.data.erase path
        unreadable := match op.contentKeyId with
          | some key => fold.unreadable.insert path key
          | none => fold.unreadable }
    | none =>
      { fold with
        data := fold.data.insert path op.value
        unreadable := fold.unreadable.erase path }
  | .unset, some path =>
    { fold with data := fold.data.erase path, unreadable := fold.unreadable.erase path }
  | .repeatAdd, some path => { fold with instances := noteInstance fold.instances path }
  | .repeatDelete, some path =>
    { fold with
      data := Lib.dropKeys (covers path) fold.data
      unreadable := Lib.dropKeys (covers path) fold.unreadable
      instances := dropInstance fold.instances path }
  | .finalize, _ => { fold with status := some .finalized, finalizedAt := some op.wallClock }
  | .reopen, _ => { fold with status := some .draft, finalizedAt := none }
  | _, none => fold

def foldStep (fold : Fold) (op : SubmissionOp) : Fold :=
  { foldOp fold op with opHighWater := max fold.opHighWater op.serverSeq }

/-- `fold_ops`, over ops already ordered by `(counter, device_id)`. -/
def foldOps (ops : List SubmissionOp) : Fold := ops.foldl foldStep {}

theorem foldOp_opHighWater (fold : Fold) (op : SubmissionOp) (n : Nat) :
    foldOp { fold with opHighWater := n } op = { foldOp fold op with opHighWater := n } := by
  unfold foldOp
  cases kind : op.opKind <;> cases given : op.path <;> try rfl
  cases op.valueCiphertext <;> rfl

theorem foldOps_stripped (strip : SubmissionOp → SubmissionOp)
    (unread : ∀ fold op, foldOp fold (strip op) = foldOp fold op)
    (zero : ∀ op, (strip op).serverSeq = 0) (ops : List SubmissionOp) :
    foldOps (ops.map strip) = { foldOps ops with opHighWater := 0 } := by
  have step : ∀ fold op, foldStep { fold with opHighWater := 0 } (strip op) =
      { foldStep fold op with opHighWater := 0 } := by
    intro fold op
    unfold foldStep
    rw [unread, foldOp_opHighWater, zero]
    rfl
  have walk : ∀ (ops : List SubmissionOp) (fold : Fold),
      (ops.map strip).foldl foldStep { fold with opHighWater := 0 } =
        { ops.foldl foldStep fold with opHighWater := 0 } := by
    intro ops
    induction ops with
    | nil => exact fun _ => rfl
    | cons op rest ih =>
      intro fold
      rw [List.map_cons, List.foldl_cons, List.foldl_cons, step]
      exact ih (foldStep fold op)
  exact walk ops {}

def statusSaid (op : SubmissionOp) : Option Status :=
  match op.opKind with
  | .finalize => some .finalized
  | .reopen => some .draft
  | _ => none

theorem foldOps_status (ops : List SubmissionOp) :
    (foldOps ops).status = (ops.filterMap statusSaid).getLast? := by
  induction ops using List.reverseRecOn with
  | nil => rfl
  | append_singleton ops op ih =>
    have step : (foldOps (ops ++ [op])).status =
        (statusSaid op).or (foldOps ops).status := by
      have last : foldOps (ops ++ [op]) = foldStep (foldOps ops) op := by simp [foldOps]
      rw [last]
      show (foldOp (foldOps ops) op).status = _
      unfold foldOp statusSaid
      cases kind : op.opKind <;> cases given : op.path <;> try rfl
      cases op.valueCiphertext <;> rfl
    rw [step, ih, List.filterMap_append]
    cases said : statusSaid op <;> simp [said]

end DataCollectionLab
