import Mathlib.Algebra.GroupWithZero.Nat
import Mathlib.Algebra.Order.BigOperators.Group.List
import Mathlib.Algebra.Order.Group.Nat

/-! Weights of lists: what two lists that are one, made piece by piece, say of the pieces. -/

namespace DataCollectionLab.Lib

variable {α β : Type} {w : β → ℕ}

def weigh (w : β → ℕ) (l : List β) : ℕ := (l.map w).sum

theorem weigh_append (a b : List β) : weigh w (a ++ b) = weigh w a + weigh w b := by simp [weigh]

theorem weigh_single (b : β) : weigh w [b] = w b := by simp [weigh]

theorem weigh_flatMap (f : α → List β) (l : List α) : weigh w (l.flatMap f) = (l.map fun a => weigh w (f a)).sum := by
  induction l with
  | nil => rfl
  | cons a l ih => rw [List.flatMap_cons, weigh_append, ih, List.map_cons, List.sum_cons]

theorem terms_eq {f g : α → ℕ} {l : List α} (le : ∀ a ∈ l, f a ≤ g a) (same : (l.map f).sum = (l.map g).sum) :
    ∀ a ∈ l, f a = g a := by
  induction l with
  | nil => simp
  | cons a l ih =>
    have later : ∀ b ∈ l, f b ≤ g b := fun b member => le b (List.mem_cons_of_mem _ member)
    have sums : (l.map f).sum ≤ (l.map g).sum := List.sum_le_sum later
    have here := le a List.mem_cons_self
    rw [List.map_cons, List.map_cons, List.sum_cons, List.sum_cons] at same
    intro b member
    rcases List.mem_cons.mp member with rfl | member
    · omega
    · exact ih later (by omega) b member

theorem weights_eq {f g : α → List β} {l : List α} (le : ∀ a ∈ l, weigh w (f a) ≤ weigh w (g a))
    (same : l.flatMap f = l.flatMap g) : ∀ a ∈ l, weigh w (f a) = weigh w (g a) := by
  have sums := congrArg (weigh w) same
  rw [weigh_flatMap, weigh_flatMap] at sums
  exact terms_eq le sums

def counts (p : β → Bool) (b : β) : ℕ := if p b then 1 else 0

theorem counts_zero {p : β → Bool} {l : List β} (none : ∀ b ∈ l, p b = false) : weigh (counts p) l = 0 := by
  have each : ∀ n ∈ l.map (counts p), n = 0 := by
    intro n member
    obtain ⟨b, listed, rfl⟩ := List.mem_map.mp member
    exact if_neg (by simp [none b listed])
  exact List.sum_eq_zero each

theorem counts_cons_pos {p : β → Bool} {b : β} {l : List β} (holds : p b = true) : 0 < weigh (counts p) (b :: l) := by
  have here : counts p b = 1 := if_pos holds
  show 0 < counts p b + weigh (counts p) l
  omega

end DataCollectionLab.Lib
