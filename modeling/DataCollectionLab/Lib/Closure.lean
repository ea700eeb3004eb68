import Mathlib.Data.Finset.Card
import Mathlib.Data.Finset.Lattice.Fold
import Mathlib.Logic.Function.Iterate
import Mathlib.Logic.Relation

/-! What a finite set reaches, a round of successors at a time. -/

namespace DataCollectionLab.Lib

variable {α : Type} [DecidableEq α] (next : Finset α → Finset α)

/-- `n` rounds, each adding the successors of everything there. -/
def rounds (n : ℕ) (s : Finset α) : Finset α := (fun s => s ∪ next s)^[n] s

variable {next}

theorem rounds_succ (n : ℕ) (s : Finset α) : rounds next (n + 1) s = rounds next n s ∪ next (rounds next n s) :=
  Function.iterate_succ_apply' _ n s

theorem subset_rounds (n : ℕ) (s : Finset α) : s ⊆ rounds next n s := by
  induction n with
  | zero => exact Finset.Subset.refl s
  | succ n ih =>
    rw [rounds_succ]
    exact ih.trans Finset.subset_union_left

theorem rounds_union (spread : ∀ s t, next (s ∪ t) = next s ∪ next t) (n : ℕ) (s t : Finset α) :
    rounds next n (s ∪ t) = rounds next n s ∪ rounds next n t := by
  induction n with
  | zero => rfl
  | succ n ih => rw [rounds_succ, rounds_succ, rounds_succ, ih, spread, Finset.union_union_union_comm]

theorem rounds_closed {all : Finset α} (within : ∀ s, next s ⊆ all) {n : ℕ} (enough : all.card ≤ n) (s : Finset α) :
    next (rounds next n s) ⊆ rounds next n s := by
  by_contra grows
  -- every earlier round has added something as well
  have added : ∀ k ≤ n, ¬ next (rounds next k s) ⊆ rounds next k s := by
    intro k le closed
    have stands : ∀ j, k ≤ j → rounds next j s = rounds next k s := by
      intro j le
      induction j, le using Nat.le_induction with
      | base => rfl
      | succ j _ ih => rw [rounds_succ, ih, Finset.union_eq_left.mpr closed]
    exact grows (by rw [stands n le]; exact closed)
  have many : ∀ k ≤ n + 1, k ≤ (rounds next k s ∩ all).card := by
    intro k
    induction k with
    | zero => intro _; exact Nat.zero_le _
    | succ k ih =>
      intro le
      obtain ⟨x, new, old⟩ := Finset.not_subset.mp (added k (by omega))
      have more : insert x (rounds next k s ∩ all) ⊆ rounds next (k + 1) s ∩ all := by
        rw [rounds_succ]
        refine Finset.insert_subset (Finset.mem_inter.mpr ⟨Finset.mem_union_right _ new, within _ new⟩) ?_
        exact Finset.inter_subset_inter_right Finset.subset_union_left
      have card := Finset.card_le_card more
      rw [Finset.card_insert_of_notMem fun both => old (Finset.mem_inter.mp both).1] at card
      have before := ih (by omega)
      omega
  have full := many (n + 1) le_rfl
  have bound := Finset.card_le_card (Finset.inter_subset_right : rounds next (n + 1) s ∩ all ⊆ all)
  omega

theorem mem_rounds_iff {r : α → α → Prop} (spec : ∀ s b, b ∈ next s ↔ ∃ a ∈ s, r a b) {all : Finset α}
    (within : ∀ s, next s ⊆ all) {n : ℕ} (enough : all.card ≤ n) {s : Finset α} {b : α} :
    b ∈ rounds next n s ↔ ∃ a ∈ s, Relation.ReflTransGen r a b := by
  constructor
  · clear enough
    intro member
    induction n generalizing b with
    | zero => exact ⟨b, member, .refl⟩
    | succ n ih =>
      rw [rounds_succ] at member
      rcases Finset.mem_union.mp member with old | new
      · exact ih old
      · obtain ⟨c, there, one⟩ := (spec _ b).mp new
        obtain ⟨a, seed, path⟩ := ih there
        exact ⟨a, seed, path.tail one⟩
  · rintro ⟨a, seed, path⟩
    induction path with
    | refl => exact subset_rounds n s seed
    | tail _ one ih => exact rounds_closed within enough s ((spec _ _).mpr ⟨_, ih, one⟩)

end DataCollectionLab.Lib
