import DataCollectionLab.Cases.Sample
import DataCollectionLab.Lib.Replace

/-!
The composite key read back. A backslash takes the next character as it is, and a bar that none precedes is a
boundary; what was composed splits into its parts again.
-/

namespace DataCollectionLab.Cases

open Entities (Row isBlank)
open Lib (replace)

/-- The loop of `split`: the parts that are closed, the one that is open, and the rest of the key. -/
def splitFrom (parts : List String) (current : List Char) : List Char → List String
  | [] => parts ++ [String.ofList current]
  | [c] =>
    if c = '|' then parts ++ [String.ofList current, ""] else parts ++ [String.ofList (current ++ [c])]
  | c :: d :: rest =>
    if c = '\\' then splitFrom parts (current ++ [d]) rest
    else if c = '|' then splitFrom (parts ++ [String.ofList current]) [] (d :: rest)
    else splitFrom parts (current ++ [c]) (d :: rest)

def split (key : String) : List String := splitFrom [] [] key.toList

theorem splitFrom_plain {c : Char} (backslash : c ≠ '\\') (bar : c ≠ '|') (parts : List String)
    (current rest : List Char) : splitFrom parts current (c :: rest) = splitFrom parts (current ++ [c]) rest := by
  cases rest with
  | nil => exact if_neg bar
  | cons d rest => rw [splitFrom, if_neg backslash, if_neg bar]

theorem splitFrom_bar (parts : List String) (current rest : List Char) :
    splitFrom parts current ('|' :: rest) = splitFrom (parts ++ [String.ofList current]) [] rest := by
  cases rest with
  | nil => exact (List.append_assoc parts [String.ofList current] [""]).symm
  | cons d rest => rw [splitFrom, if_neg (by decide), if_pos rfl]

theorem splitFrom_escape (part : List Char) (parts : List String) (current rest : List Char) :
    splitFrom parts current (escape (String.ofList part) ++ rest) = splitFrom parts (current ++ part) rest := by
  induction part generalizing current with
  | nil => simp [escape]
  | cons c part ih =>
    have more := ih (current ++ [c])
    simp only [escape, String.toList_ofList, List.flatMap_cons, List.append_assoc] at more ⊢
    by_cases backslash : c = '\\'
    · subst backslash
      rw [if_pos rfl]
      exact more
    by_cases bar : c = '|'
    · subst bar
      rw [if_neg (by decide), if_pos rfl]
      exact more
    · rw [if_neg backslash, if_neg bar, List.singleton_append, splitFrom_plain backslash bar]
      exact more

theorem splitFrom_parts (first : String) (others : List String) (parts : List String) :
    splitFrom parts [] (['|'].intercalate ((first :: others).map escape)) = parts ++ first :: others := by
  induction others generalizing first parts with
  | nil =>
    have whole := splitFrom_escape first.toList parts [] []
    rw [String.ofList_toList, List.append_nil] at whole
    simpa [List.intercalate, splitFrom] using whole
  | cons second others ih =>
    have head := splitFrom_escape first.toList parts [] ('|' :: ['|'].intercalate ((second :: others).map escape))
    have tail := ih second (parts ++ [first])
    rw [String.ofList_toList, splitFrom_bar, List.nil_append, String.ofList_toList, tail] at head
    simpa [List.intercalate] using head

theorem split_compose {parts : List String} (some : parts ≠ []) : split (compose parts) = parts := by
  obtain ⟨first, others, rfl⟩ := List.exists_cons_of_ne_nil some
  rw [split, compose, String.toList_ofList]
  exact splitFrom_parts first others []

theorem keyOf_some {row : Row} {keyColumns : List String} {key : String} (is : keyOf row keyColumns = some key) :
    compose (keyColumns.map fun column => (row.get column).getD "") = key ∧
      ∀ column ∈ keyColumns, row.get column = some ((row.get column).getD "") := by
  unfold keyOf at is
  dsimp only at is
  split at is
  · cases is
  · rename_i solid
    refine ⟨Option.some.inj is, ?_⟩
    intro column member
    cases cell : row.get column with
    | some value => rfl
    | none =>
      refine absurd (List.any_eq_true.mpr ⟨"", ?_, by decide⟩) solid
      exact List.mem_map.mpr ⟨column, member, by rw [cell]; rfl⟩

theorem cells_of_keyOf {row row' : Row} {keyColumns : List String} {key : String} (is : keyOf row keyColumns = some key)
    (is' : keyOf row' keyColumns = some key) : ∀ column ∈ keyColumns, row.get column = row'.get column := by
  intro column member
  obtain ⟨composed, cells⟩ := keyOf_some is
  obtain ⟨composed', cells'⟩ := keyOf_some is'
  have columns : keyColumns ≠ [] := List.ne_nil_of_mem member
  have parts := congrArg split (composed.trans composed'.symm)
  rw [split_compose (by simpa using columns), split_compose (by simpa using columns)] at parts
  rw [cells column member, cells' column member]
  exact congrArg some (List.map_inj_left.mp parts column member)

/-- Composite keys are unambiguous. -/
theorem caseKeys_unambiguous :
    (∀ parts, parts ≠ [] → split (compose parts) = parts) ∧
    (∀ parts parts', parts ≠ [] → parts' ≠ [] → compose parts = compose parts' → parts = parts') ∧
    (∀ row row' keyColumns key, keyOf row keyColumns = some key → keyOf row' keyColumns = some key →
      ∀ column ∈ keyColumns, row.get column = row'.get column) ∧
    ∀ key, (∃ parts, compose parts = key) → compose (split key) = key := by
  refine ⟨fun parts => split_compose, ?_, fun _ _ _ _ => cells_of_keyOf, ?_⟩
  · intro parts parts' some some' same
    rw [← split_compose some, same, split_compose some']
  · rintro key ⟨parts, rfl⟩
    by_cases none : parts = []
    · subst none
      rfl
    · rw [split_compose none]

end DataCollectionLab.Cases
