import DataCollectionLab.Lib.LastWriter
import DataCollectionLab.Submissions.Fold

/-!
The fold read path by path: what it holds under a path is what the last op that touched the path
wrote there. A `repeat_delete` touches every path below the instance it names.
-/

namespace DataCollectionLab

/-- What an op writes to `data` under `key`. -/
def dataWrite (op : SubmissionOp) (key : String) : Option (Option Json) :=
  match op.opKind, op.path with
  | .set, some path =>
    if key = path then some (if op.valueCiphertext.isSome then none else some op.value) else none
  | .unset, some path => if key = path then some none else none
  | .repeatDelete, some path => if covers path key then some none else none
  | _, _ => none

/-- What an op writes to `unreadable` under `key`. -/
def unreadableWrite (op : SubmissionOp) (key : String) : Option (Option String) :=
  match op.opKind, op.path with
  | .set, some path =>
    if key = path then
      if op.valueCiphertext.isSome then op.contentKeyId.map some else some none
    else none
  | .unset, some path => if key = path then some none else none
  | .repeatDelete, some path => if covers path key then some none else none
  | _, _ => none

theorem foldStep_data (fold : Fold) (op : SubmissionOp) (key : String) :
    (foldStep fold op).data.lookup key = (dataWrite op key).getD (fold.data.lookup key) := by
  show (foldOp fold op).data.lookup key = _
  unfold foldOp dataWrite
  cases op.opKind <;> cases op.path <;> try rfl
  case set.some path =>
    cases op.valueCiphertext <;> by_cases here : key = path <;>
      simp [Lib.lookup_insert_eq_ite, Lib.lookup_erase_eq_ite, here]
  case unset.some path =>
    by_cases here : key = path <;> simp [Lib.lookup_erase_eq_ite, here]
  case repeatDelete.some path =>
    cases here : covers path key <;> simp [Lib.lookup_dropKeys, here]

theorem foldStep_unreadable (fold : Fold) (op : SubmissionOp) (key : String) :
    (foldStep fold op).unreadable.lookup key =
      (unreadableWrite op key).getD (fold.unreadable.lookup key) := by
  show (foldOp fold op).unreadable.lookup key = _
  unfold foldOp unreadableWrite
  cases op.opKind <;> cases op.path <;> try rfl
  case set.some path =>
    cases op.valueCiphertext <;> cases op.contentKeyId <;> by_cases here : key = path <;>
      simp [Lib.lookup_insert_eq_ite, Lib.lookup_erase_eq_ite, here]
  case unset.some path =>
    by_cases here : key = path <;> simp [Lib.lookup_erase_eq_ite, here]
  case repeatDelete.some path =>
    cases here : covers path key <;> simp [Lib.lookup_dropKeys, here]

theorem foldOps_data (ops : List SubmissionOp) (key : String) :
    (foldOps ops).data.lookup key = (Lib.lastWrite dataWrite key ops).getD none :=
  @Lib.foldl_lookup _ _ _ _ dataWrite foldStep (fun fold key => fold.data.lookup key) ops
    (fun fold op _ => foldStep_data fold op) {} key

theorem foldOps_unreadable (ops : List SubmissionOp) (key : String) :
    (foldOps ops).unreadable.lookup key = (Lib.lastWrite unreadableWrite key ops).getD none :=
  @Lib.foldl_lookup _ _ _ _ unreadableWrite foldStep (fun fold key => fold.unreadable.lookup key) ops
    (fun fold op _ => foldStep_unreadable fold op) {} key

end DataCollectionLab
