import Mathlib.Data.List.Induction

/-!
What a log of things added and dropped leaves standing, and since when: something stands where it was added
and not dropped later, since the first time that it was added after the last drop.
-/

namespace DataCollectionLab.Lib

variable {α : Type} (adds drops : α → Prop)

def Stands (log : List α) : Prop :=
  ∃ before a after, log = before ++ a :: after ∧ adds a ∧ ∀ b ∈ after, ¬drops b

def Since (log before : List α) : Prop :=
  ∃ a after, log = before ++ a :: after ∧ adds a ∧ (∀ b ∈ after, ¬drops b) ∧
    ∀ first a' rest, before = first ++ a' :: rest → adds a' → ∃ d ∈ rest, drops d

variable {adds drops} {log : List α} {a : α}

theorem concat_split {before after : List α} {b : α} (same : log ++ [a] = before ++ b :: after) :
    (before = log ∧ b = a ∧ after = []) ∨ ∃ rest, after = rest ++ [a] ∧ log = before ++ b :: rest := by
  rcases List.eq_nil_or_concat after with rfl | ⟨rest, c, rfl⟩
  · obtain ⟨whole, last⟩ := List.append_inj' same rfl
    exact Or.inl ⟨whole.symm, (List.cons.inj last).1.symm, rfl⟩
  · rw [List.concat_eq_append] at same ⊢
    rw [show before ++ b :: (rest ++ [c]) = (before ++ b :: rest) ++ [c] by simp] at same
    obtain ⟨whole, last⟩ := List.append_inj' same rfl
    exact Or.inr ⟨rest, by rw [(List.cons.inj last).1], whole⟩

theorem stands_concat : Stands adds drops (log ++ [a]) ↔ adds a ∨ (Stands adds drops log ∧ ¬drops a) := by
  constructor
  · rintro ⟨before, b, after, same, added, kept⟩
    rcases concat_split same with ⟨-, rfl, -⟩ | ⟨rest, rfl, rfl⟩
    · exact Or.inl added
    · exact Or.inr ⟨⟨before, b, rest, rfl, added, fun c member => kept c (List.mem_append_left _ member)⟩,
        kept a (by simp)⟩
  · rintro (added | ⟨⟨before, b, rest, rfl, added, kept⟩, last⟩)
    · exact ⟨log, a, [], rfl, added, fun _ member => absurd member List.not_mem_nil⟩
    · refine ⟨before, b, rest ++ [a], by simp, added, fun c member => ?_⟩
      rcases List.mem_append.mp member with old | new
      · exact kept c old
      · rwa [List.mem_singleton.mp new]

theorem not_stands_nil : ¬Stands adds drops [] := by
  rintro ⟨before, b, after, same, -⟩
  simp at same

theorem stands_of_since {before : List α} (since : Since adds drops log before) : Stands adds drops log := by
  obtain ⟨b, after, same, added, kept, -⟩ := since
  exact ⟨before, b, after, same, added, kept⟩

theorem since_concat (apart : ¬(adds a ∧ drops a)) {before : List α} :
    Since adds drops (log ++ [a]) before ↔
      (Since adds drops log before ∧ ¬drops a) ∨ (adds a ∧ ¬Stands adds drops log ∧ before = log) := by
  constructor
  · rintro ⟨b, after, same, added, kept, fresh⟩
    rcases concat_split same with ⟨rfl, rfl, -⟩ | ⟨rest, rfl, rfl⟩
    · refine Or.inr ⟨added, ?_, rfl⟩
      rintro ⟨first, c, tail, split, addedC, keptC⟩
      obtain ⟨d, member, dropped⟩ := fresh first c tail split addedC
      exact keptC d member dropped
    · exact Or.inl ⟨⟨b, rest, rfl, added, fun c member => kept c (List.mem_append_left _ member), fresh⟩,
        kept a (by simp)⟩
  · rintro (⟨⟨b, rest, rfl, added, kept, fresh⟩, last⟩ | ⟨added, fallen, rfl⟩)
    · refine ⟨b, rest ++ [a], by simp, added, fun c member => ?_, fresh⟩
      rcases List.mem_append.mp member with old | new
      · exact kept c old
      · rwa [List.mem_singleton.mp new]
    · refine ⟨a, [], rfl, added, fun _ member => absurd member List.not_mem_nil, ?_⟩
      intro first c rest split addedC
      by_contra none
      push Not at none
      exact fallen ⟨first, c, rest, split, addedC, none⟩

end DataCollectionLab.Lib
