import Mathlib.Data.List.Infix

/-! `str.replace`: every occurrence of a pattern, from the left and apart from one another. -/

namespace DataCollectionLab.Lib

variable {α : Type} [DecidableEq α]

/-- The replacement while `skip` elements of an occurrence are still to pass. -/
def replaceFrom (pattern new : List α) : ℕ → List α → List α
  | _, [] => []
  | 0, c :: rest =>
    if pattern.isPrefixOf (c :: rest) then new ++ replaceFrom pattern new (pattern.length - 1) rest
    else c :: replaceFrom pattern new 0 rest
  | skip + 1, _ :: rest => replaceFrom pattern new skip rest

/-- `text.replace(pattern, new)` for a pattern that is not empty. -/
def replace (pattern new text : List α) : List α := replaceFrom pattern new 0 text

variable {pattern new : List α}

theorem replaceFrom_skip (passed rest : List α) :
    replaceFrom pattern new passed.length (passed ++ rest) = replace pattern new rest := by
  induction passed with
  | nil => rfl
  | cons c passed ih => exact ih

theorem replace_occurrence (nonempty : pattern ≠ []) (rest : List α) :
    replace pattern new (pattern ++ rest) = new ++ replace pattern new rest := by
  obtain ⟨c, others, rfl⟩ := List.exists_cons_of_ne_nil nonempty
  have here : (c :: others).isPrefixOf (c :: (others ++ rest)) = true :=
    List.isPrefixOf_iff_prefix.mpr ⟨rest, rfl⟩
  show replaceFrom _ new 0 (c :: (others ++ rest)) = _
  rw [replaceFrom, if_pos here]
  exact congrArg (new ++ ·) (replaceFrom_skip others rest)

theorem replace_cons {c : α} {rest : List α} (none : ¬ pattern <+: c :: rest) :
    replace pattern new (c :: rest) = c :: replace pattern new rest := by
  have here : ¬ pattern.isPrefixOf (c :: rest) = true := fun found => none (List.isPrefixOf_iff_prefix.mp found)
  show replaceFrom pattern new 0 (c :: rest) = _
  rw [replaceFrom, if_neg here]
  rfl

theorem replace_append {kept rest : List α}
    (none : ∀ first tail, first :: tail <:+ kept → ¬ pattern <+: first :: (tail ++ rest)) :
    replace pattern new (kept ++ rest) = kept ++ replace pattern new rest := by
  induction kept with
  | nil => rfl
  | cons c kept ih =>
    rw [List.cons_append, replace_cons (none c kept (List.suffix_refl _)),
      ih fun first tail suffix => none first tail (suffix.trans (List.suffix_cons c kept))]
    rfl

theorem replace_char (a : α) (text : List α) :
    replace [a] new text = text.flatMap fun c => if c = a then new else [c] := by
  induction text with
  | nil => rfl
  | cons c text ih =>
    by_cases same : c = a
    · subst same
      rw [List.flatMap_cons, if_pos rfl, ← ih]
      exact replace_occurrence (List.cons_ne_nil c []) text
    · have none : ¬ [a] <+: c :: text := fun found => same (List.cons_prefix_cons.mp found).1.symm
      rw [List.flatMap_cons, if_neg same, ← ih]
      exact replace_cons none

end DataCollectionLab.Lib
