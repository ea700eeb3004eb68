import DataCollectionLab.Lib.Standing
import DataCollectionLab.Submissions.Paths
import Mathlib.Data.List.TakeWhile

/-!
What the log means by its answers and its rows. An answer stands until its path is written again or a deletion
covers it; a row stands until it or its whole repeat is deleted. The fold finds every answer. It finds the rows
where no deletion names a path inside a row that stands, and none leaves an answer behind that it does not cover.
-/

namespace DataCollectionLab

open Lib

section Meaning

def Overwrites (path : String) (op : SubmissionOp) : Prop :=
  ((op.opKind = .set ∨ op.opKind = .unset) ∧ op.path = some path) ∨
    (op.opKind = .repeatDelete ∧ ∃ deleted, op.path = some deleted ∧ covers deleted path = true)

def SetsPlain (path : String) (value : Json) (op : SubmissionOp) : Prop :=
  op.opKind = .set ∧ op.path = some path ∧ op.valueCiphertext = none ∧ op.value = value

def SetsSealed (path : String) (key : String) (op : SubmissionOp) : Prop :=
  op.opKind = .set ∧ op.path = some path ∧ op.valueCiphertext.isSome ∧ op.contentKeyId = some key

def rowPathOf (repeatId inst : String) : String := repeatId ++ "[" ++ inst ++ "]"

/-- A set or a `repeat_add` under a row. -/
def NotesRow (repeatId inst : String) (op : SubmissionOp) : Prop :=
  (op.opKind = .set ∨ op.opKind = .repeatAdd) ∧ ∃ path, op.path = some path ∧ instancePath path = some (repeatId, inst)

/-- A `repeat_delete` of a row or of its repeat. -/
def DeletesRow (repeatId inst : String) (op : SubmissionOp) : Prop :=
  op.opKind = .repeatDelete ∧ (op.path = some (rowPathOf repeatId inst) ∨ op.path = some repeatId)

/-- `submission_op_encryption_check`: ciphertext comes with its key. -/
def Checked (ops : List SubmissionOp) : Prop := ∀ op ∈ ops, op.valueCiphertext.isSome → op.contentKeyId.isSome

def Fold.rowsOf (fold : Fold) (repeatId : String) : List String := (fold.instances.lookup repeatId).getD []

structure Meant (ops : List SubmissionOp) (fold : Fold) : Prop where
  data : ∀ path value, fold.data.lookup path = some value ↔ Stands (SetsPlain path value) (Overwrites path) ops
  unreadable : ∀ path key, fold.unreadable.lookup path = some key ↔ Stands (SetsSealed path key) (Overwrites path) ops
  apart : ∀ path, ¬(path ∈ fold.data ∧ path ∈ fold.unreadable)
  rows : ∀ repeatId inst,
    inst ∈ fold.rowsOf repeatId ↔ Stands (NotesRow repeatId inst) (DeletesRow repeatId inst) ops
  once : ∀ repeatId, (fold.rowsOf repeatId).Nodup
  ordered : ∀ repeatId, (fold.rowsOf repeatId).Pairwise fun inst later => ∀ m n,
    Since (NotesRow repeatId inst) (DeletesRow repeatId inst) ops m →
      Since (NotesRow repeatId later) (DeletesRow repeatId later) ops n → m.length < n.length
  owned : ∀ path repeatId inst, instancePath path = some (repeatId, inst) →
    path ∈ fold.data ∨ path ∈ fold.unreadable → inst ∈ fold.rowsOf repeatId

/-- A deletion of a row leaves no answer at the row's path with a line break after it; one of a path inside a row
finds the row deleted. -/
def Meets (before : List SubmissionOp) (op : SubmissionOp) : Prop :=
  ∀ path repeatId inst, op.opKind = .repeatDelete → op.path = some path → instancePath path = some (repeatId, inst) →
    (path = rowPathOf repeatId inst ∧
        ¬Stands (fun o => o.opKind = .set ∧ o.path = some (path ++ "\n")) (Overwrites (path ++ "\n")) before) ∨
      (path ≠ rowPathOf repeatId inst ∧ ¬Stands (NotesRow repeatId inst) (DeletesRow repeatId inst) before)

end Meaning

section InstancePaths

theorem toList_rowPathOf (repeatId inst : String) :
    (rowPathOf repeatId inst).toList = repeatId.toList ++ '[' :: (inst.toList ++ [']']) := by
  simp [rowPathOf]

structure RowName (repeatId inst : String) : Prop where
  lower : ∃ first rest, repeatId.toList = first :: rest ∧ first.isLower = true
  plain : ∀ c ∈ repeatId.toList, (c.isLower || c.isDigit || c == '_') = true
  nonempty : inst.toList ≠ []
  closed : ']' ∉ inst.toList

theorem drop_takeWhile (p : Char → Bool) (l : List Char) : l.drop (l.takeWhile p).length = l.dropWhile p := by
  induction l with
  | nil => rfl
  | cons c l ih => cases here : p c <;> simp [List.takeWhile_cons, List.dropWhile_cons, here, ih]

theorem takeWhile_stop {p : Char → Bool} {front rest : List Char} {stop : Char} (all : ∀ c ∈ front, p c = true)
    (ends : p stop = false) : (front ++ stop :: rest).takeWhile p = front := by
  rw [List.takeWhile_append_of_pos all, List.takeWhile_cons_of_neg (by simp [ends]), List.append_nil]

theorem rowName_of {path repeatId inst : String} (is : instancePath path = some (repeatId, inst)) :
    RowName repeatId inst ∧
      ∃ tail, path.toList = repeatId.toList ++ '[' :: (inst.toList ++ ']' :: tail) ∧ fieldTail tail = true := by
  unfold instancePath at is
  dsimp only at is
  split at is
  · rename_i first others rest name after
    rw [drop_takeWhile] at after
    split at is
    · rename_i tail close
      rw [drop_takeWhile] at close
      split at is
      · rename_i holds
        obtain ⟨rfl, rfl⟩ := Prod.mk.inj (Option.some.inj is)
        simp only [Bool.and_eq_true, Bool.not_eq_true', List.isEmpty_eq_false_iff] at holds
        have front := @List.takeWhile_append_dropWhile _ (fun c => c.isLower || c.isDigit || c == '_') path.toList
        have inside := @List.takeWhile_append_dropWhile _ (· != ']') rest
        rw [after] at front
        rw [close] at inside
        refine ⟨⟨⟨first, others, ?_, holds.1.1⟩, ?_, ?_, ?_⟩, tail, ?_, holds.2⟩
        · rw [String.toList_ofList, name]
        · intro c member
          rw [String.toList_ofList] at member
          exact @List.mem_takeWhile_imp _ (fun c => c.isLower || c.isDigit || c == '_') _ _ member
        · rw [String.toList_ofList]
          exact holds.1.2
        · intro member
          rw [String.toList_ofList] at member
          simpa using List.mem_takeWhile_imp member
        · rw [String.toList_ofList, String.toList_ofList, inside, front]
      · cases is
    · cases is
  · cases is

theorem instancePath_of {path repeatId inst : String} {tail : List Char} (name : RowName repeatId inst)
    (is : path.toList = repeatId.toList ++ '[' :: (inst.toList ++ ']' :: tail)) (ends : fieldTail tail = true) :
    instancePath path = some (repeatId, inst) := by
  obtain ⟨⟨first, rest, split, lower⟩, plain, nonempty, closed⟩ := name
  have front : path.toList.takeWhile (fun c => c.isLower || c.isDigit || c == '_') = repeatId.toList := by
    rw [is]
    exact takeWhile_stop plain (by decide)
  have inside : (inst.toList ++ ']' :: tail).takeWhile (· != ']') = inst.toList := by
    apply takeWhile_stop
    · intro c member
      have apart : c ≠ ']' := by
        rintro rfl
        exact closed member
      simpa using apart
    · decide
  have filled : inst.toList.isEmpty = false := by simpa using nonempty
  unfold instancePath
  simp only [front]
  rw [is, List.drop_left, split]
  simp only [inside, List.drop_left, lower, filled, ends, Bool.not_false, Bool.and_self, if_true]
  rw [← split, String.ofList_toList, String.ofList_toList]

theorem fieldTail_cases {tail : List Char} (is : fieldTail tail = true) :
    tail = [] ∨ tail = ['\n'] ∨ ∃ rest, tail = '.' :: rest := by
  unfold fieldTail at is
  split at is
  · exact Or.inl rfl
  · exact Or.inr (Or.inl rfl)
  · exact Or.inr (Or.inr ⟨_, rfl⟩)
  · cases is

theorem instancePath_rowPathOf {repeatId inst : String} (name : RowName repeatId inst) :
    instancePath (rowPathOf repeatId inst) = some (repeatId, inst) :=
  instancePath_of name (toList_rowPathOf repeatId inst) rfl

theorem instancePath_repeat {repeatId inst : String} (name : RowName repeatId inst) : instancePath repeatId = none := by
  have all : repeatId.toList.takeWhile (fun c => c.isLower || c.isDigit || c == '_') = repeatId.toList :=
    List.takeWhile_eq_self_iff.mpr name.plain
  unfold instancePath
  simp only [all, List.drop_length]
  split
  · rename_i none
    cases none
  · rfl

theorem covers_iff {deleted path : String} :
    covers deleted path = true ↔ path = deleted ∨ (∃ rest, path.toList = deleted.toList ++ '.' :: rest) ∨
      ∃ rest, path.toList = deleted.toList ++ '[' :: rest := by
  unfold covers
  rw [Bool.or_eq_true, Bool.or_eq_true, beq_iff_eq, List.isPrefixOf_iff_prefix, List.isPrefixOf_iff_prefix, or_assoc]
  have below (mark : Char) (text : String) (is : text.toList = [mark]) :
      (deleted ++ text).toList <+: path.toList ↔ ∃ rest, path.toList = deleted.toList ++ mark :: rest := by
    rw [String.toList_append, is]
    constructor
    · rintro ⟨rest, same⟩
      exact ⟨rest, by rw [← same]; simp⟩
    · rintro ⟨rest, same⟩
      exact ⟨rest, by rw [same]; simp⟩
  rw [below '.' "." rfl, below '[' "[" rfl]

theorem covers_repeat {path repeatId inst : String} (is : instancePath path = some (repeatId, inst)) :
    covers repeatId path = true := by
  obtain ⟨-, tail, split, -⟩ := rowName_of is
  exact covers_iff.mpr (Or.inr (Or.inr ⟨_, split⟩))

theorem covers_row {path repeatId inst : String} (is : instancePath path = some (repeatId, inst)) :
    covers (rowPathOf repeatId inst) path = true ∨ path = rowPathOf repeatId inst ++ "\n" := by
  obtain ⟨-, tail, split, ends⟩ := rowName_of is
  have own : (rowPathOf repeatId inst).toList ++ tail = path.toList := by
    rw [toList_rowPathOf, split]
    simp
  rcases fieldTail_cases ends with rfl | rfl | ⟨rest, rfl⟩
  · refine Or.inl (covers_iff.mpr (Or.inl (String.toList_inj.mp ?_)))
    rw [← own, List.append_nil]
  · refine Or.inr (String.toList_inj.mp ?_)
    rw [String.toList_append, ← own]
    rfl
  · exact Or.inl (covers_iff.mpr (Or.inr (Or.inl ⟨rest, own.symm⟩)))

theorem not_covers_break (path : String) : covers path (path ++ "\n") = false := by
  rw [Bool.eq_false_iff]
  intro covered
  have whole : (path ++ "\n").toList = path.toList ++ ['\n'] := by
    rw [String.toList_append]
    rfl
  rcases covers_iff.mp covered with same | ⟨rest, same⟩ | ⟨rest, same⟩
  · have lists := congrArg String.toList same
    rw [whole] at lists
    simp at lists
  · rw [whole] at same
    simp at same
  · rw [whole] at same
    simp at same

theorem deletesRow_iff {repeatId inst path : String} {op : SubmissionOp} (kind : op.opKind = .repeatDelete) (given : op.path = some path) :
    DeletesRow repeatId inst op ↔ path = rowPathOf repeatId inst ∨ path = repeatId := by
  simp [DeletesRow, kind, given]

theorem name_of_notes {repeatId inst : String} {op : SubmissionOp} (notes : NotesRow repeatId inst op) :
    RowName repeatId inst := by
  obtain ⟨-, path, -, is⟩ := notes
  exact (rowName_of is).1

theorem name_of_stands {repeatId inst : String} {ops : List SubmissionOp} {drops : SubmissionOp → Prop}
    (stands : Stands (NotesRow repeatId inst) drops ops) : RowName repeatId inst := by
  obtain ⟨-, op, -, -, notes, -⟩ := stands
  exact name_of_notes notes

theorem notes_not_deletes {repeatId inst : String} (op : SubmissionOp) :
    ¬(NotesRow repeatId inst op ∧ DeletesRow repeatId inst op) := by
  rintro ⟨⟨kind, -⟩, deletes, -⟩
  rcases kind with kind | kind <;> rw [deletes] at kind <;> cases kind

end InstancePaths

section Answers

theorem dataWrite_eq_none_iff {op : SubmissionOp} {path : String} : dataWrite op path = none ↔ ¬Overwrites path op := by
  unfold dataWrite Overwrites
  cases op.path with
  | none => cases op.opKind <;> simp
  | some given =>
    by_cases same : path = given
    · subst same
      cases op.opKind <;> simp
    · cases op.opKind <;> simp [same, Ne.symm same]

theorem dataWrite_eq_some_iff {op : SubmissionOp} {path : String} {value : Json} :
    dataWrite op path = some (some value) ↔ SetsPlain path value op := by
  unfold dataWrite SetsPlain
  cases op.path with
  | none => cases op.opKind <;> simp
  | some given =>
    by_cases same : path = given
    · subst same
      cases op.opKind <;> cases op.valueCiphertext <;> simp
    · cases op.opKind <;> simp [same, Ne.symm same]

theorem foldOps_concat (ops : List SubmissionOp) (op : SubmissionOp) :
    foldOps (ops ++ [op]) = foldStep (foldOps ops) op := by simp [foldOps]

theorem data_stands (ops : List SubmissionOp) (path : String) (value : Json) :
    (foldOps ops).data.lookup path = some value ↔ Stands (SetsPlain path value) (Overwrites path) ops := by
  induction ops using List.reverseRecOn with
  | nil => exact iff_of_false (by simp [foldOps]) not_stands_nil
  | append_singleton ops op ih =>
    rw [foldOps_concat, foldStep_data, stands_concat, ← ih, ← dataWrite_eq_some_iff, ← dataWrite_eq_none_iff]
    cases dataWrite op path <;> simp

theorem unreadableWrite_eq_none_iff {op : SubmissionOp} {path : String}
    (checked : op.valueCiphertext.isSome → op.contentKeyId.isSome) :
    unreadableWrite op path = none ↔ ¬Overwrites path op := by
  unfold unreadableWrite Overwrites
  cases op.path with
  | none => cases op.opKind <;> simp
  | some given =>
    by_cases same : path = given
    · subst same
      cases op.opKind <;> cases hidden : op.valueCiphertext <;> cases key : op.contentKeyId <;>
        simp [hidden, key] at checked ⊢
    · cases op.opKind <;> simp [same, Ne.symm same]

theorem unreadableWrite_eq_some_iff {op : SubmissionOp} {path key : String} :
    unreadableWrite op path = some (some key) ↔ SetsSealed path key op := by
  unfold unreadableWrite SetsSealed
  cases op.path with
  | none => cases op.opKind <;> simp
  | some given =>
    by_cases same : path = given
    · subst same
      cases op.opKind <;> cases op.valueCiphertext <;> cases op.contentKeyId <;> simp
    · cases op.opKind <;> simp [same, Ne.symm same]

theorem unreadable_stands {ops : List SubmissionOp} (checked : Checked ops) (path key : String) :
    (foldOps ops).unreadable.lookup path = some key ↔ Stands (SetsSealed path key) (Overwrites path) ops := by
  induction ops using List.reverseRecOn with
  | nil => exact iff_of_false (by simp [foldOps]) not_stands_nil
  | append_singleton ops op ih =>
    have last := checked op (by simp)
    rw [foldOps_concat, foldStep_unreadable, stands_concat,
      ← ih fun o member => checked o (List.mem_append_left _ member), ← unreadableWrite_eq_some_iff,
      ← unreadableWrite_eq_none_iff last]
    cases unreadableWrite op path <;> simp

theorem writes_apart (op : SubmissionOp) (path : String) :
    (dataWrite op path = none ∧ unreadableWrite op path = none) ∨ dataWrite op path = some none ∨
      unreadableWrite op path = some none := by
  unfold dataWrite unreadableWrite
  cases op.path with
  | none => cases op.opKind <;> simp
  | some given =>
    by_cases same : path = given
    · cases op.opKind <;> cases op.valueCiphertext <;> cases covered : covers given path <;> simp [same, covered]
    · cases op.opKind <;> cases covered : covers given path <;> simp [same, covered]

theorem answers_apart (ops : List SubmissionOp) (path : String) :
    ¬(path ∈ (foldOps ops).data ∧ path ∈ (foldOps ops).unreadable) := by
  induction ops using List.reverseRecOn with
  | nil => simp [foldOps]
  | append_singleton ops op ih =>
    rw [foldOps_concat]
    rw [← AList.lookup_isSome, ← AList.lookup_isSome] at ih ⊢
    rw [foldStep_data, foldStep_unreadable]
    rcases writes_apart op path with ⟨clear, hidden⟩ | gone | gone
    · rw [clear, hidden]
      exact ih
    · rw [gone]
      simp
    · rw [gone]
      simp

end Answers

section Rows

variable {ops : List SubmissionOp} {op : SubmissionOp} {fold : Fold} {repeatId inst : String}

theorem rowsOf_notes (notes : NotesRow repeatId inst op) (other : String) :
    (foldStep fold op).rowsOf other =
      if other = repeatId then
        if inst ∈ fold.rowsOf repeatId then fold.rowsOf repeatId else fold.rowsOf repeatId ++ [inst]
      else fold.rowsOf other := by
  obtain ⟨kind, path, given, is⟩ := notes
  have noted : (foldStep fold op).instances = noteInstance fold.instances path := by
    show (foldOp fold op).instances = _
    unfold foldOp
    rcases kind with kind | kind <;> rw [kind, given]
    cases op.valueCiphertext <;> rfl
  unfold Fold.rowsOf
  rw [noted, noteInstance, is]
  dsimp only
  rw [lookup_insert_eq_ite]
  by_cases same : other = repeatId
  · simp only [if_pos same, Option.getD_some, List.contains_iff_mem]
  · rw [if_neg same, if_neg same]

theorem rowsOf_deletes {path : String} (kind : op.opKind = .repeatDelete) (given : op.path = some path) (other : String) :
    (foldStep fold op).rowsOf other =
      (instancePath path).elim (if other = path then [] else fold.rowsOf other) fun row =>
        if other = row.1 then (fold.rowsOf other).erase row.2 else fold.rowsOf other := by
  have dropped : (foldStep fold op).instances = dropInstance fold.instances path := by
    show (foldOp fold op).instances = _
    unfold foldOp
    rw [kind, given]
  unfold Fold.rowsOf
  rw [dropped, dropInstance]
  cases instancePath path with
  | none =>
    simp only [Option.elim_none, lookup_erase_eq_ite]
    split <;> rfl
  | some row =>
    obtain ⟨rid, iid⟩ := row
    dsimp only [Option.elim_some]
    cases found : fold.instances.lookup rid with
    | none =>
      dsimp only
      split
      · rename_i same
        rw [same, found]
        rfl
      · rfl
    | some ordered =>
      dsimp only
      rw [lookup_insert_eq_ite]
      split
      · rename_i same
        rw [same, found]
        rfl
      · rfl

theorem rowsOf_kept (quiet : ∀ rid iid, ¬NotesRow rid iid op) (undeleted : op.opKind = .repeatDelete → op.path = none)
    (other : String) : (foldStep fold op).rowsOf other = fold.rowsOf other := by
  have kept : (foldStep fold op).instances = fold.instances := by
    show (foldOp fold op).instances = _
    have unnoted {path : String} (kind : op.opKind = .set ∨ op.opKind = .repeatAdd) (given : op.path = some path) :
        noteInstance fold.instances path = fold.instances := by
      unfold noteInstance
      cases is : instancePath path with
      | none => rfl
      | some row => exact absurd ⟨kind, path, given, is⟩ (quiet row.1 row.2)
    unfold foldOp
    cases kind : op.opKind <;> cases given : op.path <;> try rfl
    · have same := unnoted (Or.inl kind) given
      cases op.valueCiphertext <;> exact same
    · exact unnoted (Or.inr kind) given
    · rw [undeleted kind] at given
      cases given
  unfold Fold.rowsOf
  rw [kept]

/-- The rows that the fold lists are those that stand, by the time they stand since. -/
structure Tracks (ops : List SubmissionOp) (fold : Fold) : Prop where
  rows : ∀ rid iid, iid ∈ fold.rowsOf rid ↔ Stands (NotesRow rid iid) (DeletesRow rid iid) ops
  once : ∀ rid, (fold.rowsOf rid).Nodup
  ordered : ∀ rid, (fold.rowsOf rid).Pairwise fun iid later => ∀ m n,
    Since (NotesRow rid iid) (DeletesRow rid iid) ops m →
      Since (NotesRow rid later) (DeletesRow rid later) ops n → m.length < n.length

theorem tracks_nil : Tracks [] (foldOps []) where
  rows := fun rid iid => iff_of_false (by simp [foldOps, Fold.rowsOf]) not_stands_nil
  once := fun rid => by simp [foldOps, Fold.rowsOf]
  ordered := fun rid => by simp [foldOps, Fold.rowsOf]

theorem since_length {adds drops : SubmissionOp → Prop} {before : List SubmissionOp} (since : Since adds drops ops before) :
    before.length < ops.length := by
  obtain ⟨a, after, rfl, -⟩ := since
  simp

theorem tracks_notes (tracks : Tracks ops fold) (notes : NotesRow repeatId inst op) :
    Tracks (ops ++ [op]) (foldStep fold op) := by
  have undeleted (rid iid : String) : ¬DeletesRow rid iid op := by
    rintro ⟨deletes, -⟩
    rcases notes.1 with kind | kind <;> rw [deletes] at kind <;> cases kind
  have one {rid iid : String} (also : NotesRow rid iid op) : rid = repeatId ∧ iid = inst := by
    obtain ⟨-, path, given, is⟩ := notes
    obtain ⟨-, path', given', is'⟩ := also
    obtain rfl := Option.some.inj (given.symm.trans given')
    have same := Option.some.inj (is'.symm.trans is)
    exact ⟨congrArg Prod.fst same, congrArg Prod.snd same⟩
  have since_old {rid iid : String} {before : List SubmissionOp}
      (since : Since (NotesRow rid iid) (DeletesRow rid iid) (ops ++ [op]) before) :
      Since (NotesRow rid iid) (DeletesRow rid iid) ops before ∨
        (rid = repeatId ∧ iid = inst ∧ inst ∉ fold.rowsOf repeatId ∧ before = ops) := by
    rcases (since_concat (notes_not_deletes op)).mp since with ⟨old, -⟩ | ⟨also, fallen, here⟩
    · exact Or.inl old
    · obtain ⟨rfl, rfl⟩ := one also
      exact Or.inr ⟨rfl, rfl, fun member => fallen ((tracks.rows _ _).mp member), here⟩
  have listed (rid iid : String) : iid ∈ (foldStep fold op).rowsOf rid ↔
      NotesRow rid iid op ∨ iid ∈ fold.rowsOf rid := by
    rw [rowsOf_notes notes]
    by_cases same : rid = repeatId
    · subst same
      rw [if_pos rfl]
      have also : NotesRow rid iid op ↔ iid = inst := ⟨fun also => (one also).2, fun same => same ▸ notes⟩
      rw [also]
      split
      · rename_i member
        exact ⟨Or.inr, fun either => either.elim (fun same => same ▸ member) id⟩
      · rw [List.mem_append, List.mem_singleton, or_comm]
    · rw [if_neg same]
      exact ⟨Or.inr, fun either => either.elim (fun also => absurd (one also).1 same) id⟩
  refine ⟨fun rid iid => ?_, fun rid => ?_, fun rid => ?_⟩
  · rw [listed, stands_concat, tracks.rows]
    simp [undeleted]
  · rw [rowsOf_notes notes]
    split_ifs with same member
    · exact tracks.once repeatId
    · exact List.nodup_append.mpr ⟨tracks.once repeatId, List.nodup_singleton _, fun a old b new eq =>
        member (by rw [List.mem_singleton.mp new] at eq; exact eq ▸ old)⟩
    · exact tracks.once rid
  · have old : (fold.rowsOf rid).Pairwise fun iid later => iid ∈ fold.rowsOf rid → later ∈ fold.rowsOf rid →
        ∀ m n, Since (NotesRow rid iid) (DeletesRow rid iid) (ops ++ [op]) m →
          Since (NotesRow rid later) (DeletesRow rid later) (ops ++ [op]) n → m.length < n.length := by
      refine (tracks.ordered rid).imp fun related member memberLater m n since sinceLater => ?_
      rcases since_old since with before | ⟨rfl, rfl, absent, -⟩
      · rcases since_old sinceLater with beforeLater | ⟨rfl, rfl, absent, -⟩
        · exact related m n before beforeLater
        · exact absurd memberLater absent
      · exact absurd member absent
    have kept := old.imp_of_mem fun member memberLater related => related member memberLater
    rw [rowsOf_notes notes]
    split_ifs with same member
    · exact same ▸ kept
    · subst same
      refine List.pairwise_append.mpr ⟨kept, List.pairwise_singleton _ _, ?_⟩
      intro iid before later last m n since sinceLater
      obtain rfl := List.mem_singleton.mp last
      have new : n = ops := by
        rcases since_old sinceLater with old | ⟨-, -, -, here⟩
        · exact absurd ((tracks.rows _ _).mpr (stands_of_since old)) member
        · exact here
      rcases since_old since with first | ⟨-, rfl, -, -⟩
      · rw [new]
        exact since_length first
      · exact absurd before member
    · exact kept

theorem tracks_drops (tracks : Tracks ops fold) (quiet : ∀ rid iid, ¬NotesRow rid iid op)
    (sub : ∀ rid, ((foldStep fold op).rowsOf rid).Sublist (fold.rowsOf rid))
    (rows : ∀ rid iid, iid ∈ (foldStep fold op).rowsOf rid ↔ iid ∈ fold.rowsOf rid ∧ ¬DeletesRow rid iid op) :
    Tracks (ops ++ [op]) (foldStep fold op) := by
  refine ⟨fun rid iid => ?_, fun rid => (sub rid).nodup (tracks.once rid), fun rid => ?_⟩
  · rw [rows, stands_concat, tracks.rows]
    simp [quiet]
  · refine ((tracks.ordered rid).sublist (sub rid)).imp fun related m n since sinceLater => ?_
    have old {iid : String} {before : List SubmissionOp}
        (since : Since (NotesRow rid iid) (DeletesRow rid iid) (ops ++ [op]) before) :
        Since (NotesRow rid iid) (DeletesRow rid iid) ops before := by
      rcases (since_concat (notes_not_deletes op)).mp since with ⟨old, -⟩ | ⟨also, -, -⟩
      · exact old
      · exact absurd also (quiet rid iid)
    exact related m n (old since) (old sinceLater)

theorem tracks_step (tracks : Tracks ops fold) (meets : Meets ops op) : Tracks (ops ++ [op]) (foldStep fold op) := by
  by_cases noted : ∃ rid iid, NotesRow rid iid op
  · obtain ⟨rid, iid, notes⟩ := noted
    exact tracks_notes tracks notes
  have quiet (rid iid : String) : ¬NotesRow rid iid op := fun notes => noted ⟨rid, iid, notes⟩
  by_cases deletes : ∃ path, op.opKind = .repeatDelete ∧ op.path = some path
  · obtain ⟨path, kind, given⟩ := deletes
    have named {rid iid : String} (member : iid ∈ fold.rowsOf rid) : RowName rid iid :=
      name_of_stands ((tracks.rows rid iid).mp member)
    cases is : instancePath path with
    | none =>
      -- The whole repeat, or nothing that has rows.
      have rows (rid : String) : (foldStep fold op).rowsOf rid = if rid = path then [] else fold.rowsOf rid := by
        rw [rowsOf_deletes kind given, is, Option.elim_none]
      refine tracks_drops tracks quiet (fun rid => ?_) fun rid iid => ?_
      · rw [rows]
        split
        · exact List.nil_sublist _
        · exact List.Sublist.refl _
      · rw [rows, deletesRow_iff kind given]
        split
        · rename_i same
          simp [same]
        · rename_i apart
          refine ⟨fun member => ⟨member, ?_⟩, And.left⟩
          rintro (own | whole)
          · rw [own, instancePath_rowPathOf (named member)] at is
            cases is
          · exact apart whole.symm
    | some row =>
      obtain ⟨rid₀, iid₀⟩ := row
      have rows (rid : String) : (foldStep fold op).rowsOf rid =
          if rid = rid₀ then (fold.rowsOf rid).erase iid₀ else fold.rowsOf rid := by
        rw [rowsOf_deletes kind given, is, Option.elim_some]
      -- The one row that the deletion can be of.
      have one {rid iid : String} (member : iid ∈ fold.rowsOf rid) :
          DeletesRow rid iid op ↔ path = rowPathOf rid₀ iid₀ ∧ rid = rid₀ ∧ iid = iid₀ := by
        rw [deletesRow_iff kind given]
        constructor
        · rintro (own | whole)
          · have same := is
            rw [own, instancePath_rowPathOf (named member)] at same
            obtain ⟨rfl, rfl⟩ := Prod.mk.inj (Option.some.inj same)
            exact ⟨own, rfl, rfl⟩
          · rw [whole, instancePath_repeat (named member)] at is
            cases is
        · rintro ⟨own, rfl, rfl⟩
          exact Or.inl own
      refine tracks_drops tracks quiet (fun rid => ?_) fun rid iid => ?_
      · rw [rows]
        split
        · exact List.erase_sublist
        · exact List.Sublist.refl _
      · rw [rows]
        rcases meets path rid₀ iid₀ kind given is with ⟨own, -⟩ | ⟨inside, fallen⟩
        · split
          · rename_i same
            subst same
            rw [(tracks.once rid).mem_erase_iff]
            constructor
            · rintro ⟨apart, member⟩
              exact ⟨member, fun deleted => apart ((one member).mp deleted).2.2⟩
            · rintro ⟨member, kept⟩
              exact ⟨fun same => kept ((one member).mpr ⟨own, rfl, same⟩), member⟩
          · rename_i apart
            exact ⟨fun member => ⟨member, fun deleted => apart ((one member).mp deleted).2.1⟩, And.left⟩
        · have absent : iid₀ ∉ fold.rowsOf rid₀ := fun member => fallen ((tracks.rows rid₀ iid₀).mp member)
          have same : (if rid = rid₀ then (fold.rowsOf rid).erase iid₀ else fold.rowsOf rid) = fold.rowsOf rid := by
            split
            · rename_i same
              exact List.erase_of_not_mem (same ▸ absent)
            · rfl
          rw [same]
          exact ⟨fun member => ⟨member, fun deleted => inside ((one member).mp deleted).1⟩, And.left⟩
  · have undeleted (kind : op.opKind = .repeatDelete) : op.path = none := by
      cases given : op.path with
      | none => rfl
      | some path => exact absurd ⟨path, kind, given⟩ deletes
    have same (rid : String) : (foldStep fold op).rowsOf rid = fold.rowsOf rid := rowsOf_kept quiet undeleted rid
    refine tracks_drops tracks quiet (fun rid => ?_) fun rid iid => ?_
    · rw [same]
    · rw [same]
      refine ⟨fun member => ⟨member, ?_⟩, And.left⟩
      rintro ⟨kind, own | whole⟩
      · rw [undeleted kind] at own
        cases own
      · rw [undeleted kind] at whole
        cases whole

theorem tracks_foldOps (meets : ∀ before op after, ops = before ++ op :: after → Meets before op) :
    Tracks ops (foldOps ops) := by
  induction ops using List.reverseRecOn with
  | nil => exact tracks_nil
  | append_singleton ops op ih =>
    rw [foldOps_concat]
    refine tracks_step (ih fun before op' after split => ?_) (meets ops op [] rfl)
    exact meets before op' (after ++ [op]) (by rw [split]; simp)

end Rows

section Owned

variable {ops : List SubmissionOp}

theorem set_of_answer (checked : Checked ops) {path : String}
    (answered : path ∈ (foldOps ops).data ∨ path ∈ (foldOps ops).unreadable) :
    Stands (fun op => op.opKind = .set ∧ op.path = some path) (Overwrites path) ops := by
  rcases answered with member | member
  · obtain ⟨value, found⟩ := Option.isSome_iff_exists.mp (AList.lookup_isSome.mpr member)
    obtain ⟨before, op, after, split, ⟨kind, given, -⟩, kept⟩ := (data_stands ops path value).mp found
    exact ⟨before, op, after, split, ⟨kind, given⟩, kept⟩
  · obtain ⟨key, found⟩ := Option.isSome_iff_exists.mp (AList.lookup_isSome.mpr member)
    obtain ⟨before, op, after, split, ⟨kind, given, -⟩, kept⟩ := (unreadable_stands checked path key).mp found
    exact ⟨before, op, after, split, ⟨kind, given⟩, kept⟩

theorem answer_of_set (checked : Checked ops) {path : String}
    (stands : Stands (fun op => op.opKind = .set ∧ op.path = some path) (Overwrites path) ops) :
    path ∈ (foldOps ops).data ∨ path ∈ (foldOps ops).unreadable := by
  obtain ⟨before, op, after, rfl, ⟨kind, given⟩, kept⟩ := stands
  cases hidden : op.valueCiphertext with
  | none =>
    left
    rw [← AList.lookup_isSome, Option.isSome_iff_exists]
    exact ⟨op.value, (data_stands _ path op.value).mpr ⟨before, op, after, rfl, ⟨kind, given, hidden, rfl⟩, kept⟩⟩
  | some bytes =>
    right
    obtain ⟨key, keyed⟩ := Option.isSome_iff_exists.mp (checked op (by simp) (by simp [hidden]))
    rw [← AList.lookup_isSome, Option.isSome_iff_exists]
    exact ⟨key, (unreadable_stands checked path key).mpr
      ⟨before, op, after, rfl, ⟨kind, given, by simp [hidden], keyed⟩, kept⟩⟩

theorem row_of_set (meets : ∀ before op after, ops = before ++ op :: after → Meets before op)
    {path repeatId inst : String} (is : instancePath path = some (repeatId, inst))
    (stands : Stands (fun op => op.opKind = .set ∧ op.path = some path) (Overwrites path) ops) :
    Stands (NotesRow repeatId inst) (DeletesRow repeatId inst) ops := by
  obtain ⟨before, op, after, rfl, ⟨kind, given⟩, kept⟩ := stands
  refine ⟨before, op, after, rfl, ⟨Or.inl kind, path, given, is⟩, ?_⟩
  rintro o member ⟨deletes, own | whole⟩
  · rcases covers_row is with covered | rfl
    · exact kept o member (Or.inr ⟨deletes, _, own, covered⟩)
    · -- The deletion came while the answer at the row's path with the line break stood.
      obtain ⟨early, late, rfl⟩ := List.append_of_mem member
      have row := instancePath_rowPathOf (rowName_of is).1
      rcases meets (before ++ op :: early) o late (by simp) _ _ _ deletes own row with ⟨-, fallen⟩ | ⟨inside, -⟩
      · exact fallen ⟨before, op, early, rfl, ⟨kind, given⟩, fun o' within => kept o' (List.mem_append_left _ within)⟩
      · exact inside rfl
  · exact kept o member (Or.inr ⟨deletes, _, whole, covers_repeat is⟩)

theorem meant_of_meets (checked : Checked ops) (meets : ∀ before op after, ops = before ++ op :: after → Meets before op) :
    Meant ops (foldOps ops) where
  data := data_stands ops
  unreadable := unreadable_stands checked
  apart := answers_apart ops
  rows := (tracks_foldOps meets).rows
  once := (tracks_foldOps meets).once
  ordered := (tracks_foldOps meets).ordered
  owned := fun _ _ _ is answered =>
    ((tracks_foldOps meets).rows _ _).mpr (row_of_set meets is (set_of_answer checked answered))

theorem meets_of_meant {op : SubmissionOp} (checked : Checked (ops ++ [op])) (meant : Meant ops (foldOps ops))
    (meant' : Meant (ops ++ [op]) (foldOps (ops ++ [op]))) : Meets ops op := by
  intro path repeatId inst kind given is
  by_cases own : path = rowPathOf repeatId inst
  · refine Or.inl ⟨own, fun stands => ?_⟩
    have after : instancePath (path ++ "\n") = some (repeatId, inst) := by
      refine @instancePath_of _ _ _ ['\n'] (rowName_of is).1 ?_ rfl
      rw [own, String.toList_append, toList_rowPathOf, show "\n".toList = ['\n'] from rfl]
      simp
    have uncovered : ¬Overwrites (path ++ "\n") op := by
      rintro (⟨kind' | kind', -⟩ | ⟨-, deleted, given', covered⟩)
      · rw [kind] at kind'
        cases kind'
      · rw [kind] at kind'
        cases kind'
      · obtain rfl := Option.some.inj (given.symm.trans given')
        rw [not_covers_break] at covered
        cases covered
    have still := stands_concat.mpr (Or.inr ⟨stands, uncovered⟩)
    have listed := meant'.owned _ _ _ after (answer_of_set checked still)
    rcases stands_concat.mp ((meant'.rows _ _).mp listed) with ⟨notes | notes, -⟩ | ⟨-, kept⟩
    · rw [kind] at notes
      cases notes
    · rw [kind] at notes
      cases notes
    · exact kept ⟨kind, Or.inl (own ▸ given)⟩
  · refine Or.inr ⟨own, fun stands => ?_⟩
    have name := (rowName_of is).1
    have kept : ¬DeletesRow repeatId inst op := by
      rw [deletesRow_iff kind given]
      rintro (same | whole)
      · exact own same
      · rw [whole, instancePath_repeat name] at is
        cases is
    have listed := (meant'.rows _ _).mpr (stands_concat.mpr (Or.inr ⟨stands, kept⟩))
    rw [foldOps_concat, rowsOf_deletes kind given, is, Option.elim_some, if_pos rfl,
      (meant.once repeatId).mem_erase_iff] at listed
    exact listed.1 rfl

/-- The fold says what the log means, at every length of the log, where every step meets the condition. -/
theorem foldOps_meant_iff (checked : Checked ops) :
    (∀ before after, ops = before ++ after → Meant before (foldOps before)) ↔
      ∀ before op after, ops = before ++ op :: after → Meets before op := by
  constructor
  · intro meant before op after split
    have longer : ops = (before ++ [op]) ++ after := by rw [split]; simp
    refine meets_of_meant (fun o member => checked o ?_) (meant before _ split) (meant _ after longer)
    rw [longer]
    exact List.mem_append_left _ member
  · intro meets before after split
    refine meant_of_meets (fun o member => checked o (split ▸ List.mem_append_left _ member)) ?_
    intro first op rest within
    exact meets first op (rest ++ after) (by rw [split, within]; simp)

def loggedOp (counter : ℕ) (kind : OpKind) (path : String) (value : Json) : SubmissionOp :=
  { id := "op", submissionId := "s", opKind := kind, path := some path, value := value, valueCiphertext := none,
    contentKeyId := none, nonce := none, deviceId := "d", actorId := none, counter := counter, wallClock := 0,
    serverSeq := counter }

def namedRow : List SubmissionOp :=
  [loggedOp 1 .repeatAdd "members[i1]" .null, loggedOp 2 .set "members[i1].name" (.str "Asha")]

theorem namedRow_meant : Meant namedRow (foldOps namedRow) := by
  have checked : Checked namedRow := by
    intro o member
    rcases List.mem_cons.mp member with rfl | member
    · exact fun hidden => absurd hidden (by decide)
    · obtain rfl := List.mem_singleton.mp member
      exact fun hidden => absurd hidden (by decide)
  refine (foldOps_meant_iff checked).mpr ?_ namedRow [] (List.append_nil _).symm
  intro before o after split path rid iid kind
  have member : o ∈ namedRow := split ▸ List.mem_append_right _ List.mem_cons_self
  rcases List.mem_cons.mp member with rfl | member
  · cases kind
  · obtain rfl := List.mem_singleton.mp member
    cases kind

def halfDeleted : List SubmissionOp :=
  [loggedOp 1 .set "members[i1].name" (.str "Asha"), loggedOp 2 .repeatDelete "members[i1].age" .null]

theorem halfDeleted_unlisted : ¬Meant halfDeleted (foldOps halfDeleted) := by
  intro meant
  have listed := meant.owned "members[i1].name" "members" "i1" (by decide) (Or.inl (by decide))
  exact absurd listed (by decide)

end Owned

end DataCollectionLab
