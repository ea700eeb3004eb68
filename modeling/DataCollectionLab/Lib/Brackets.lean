import Mathlib.Tactic.Linarith

/-!
Brackets of several kinds. A list is level when every bracket is paired, whatever the kinds, and matched when each
pair is of one kind; the two differ by the pairs that cross.
-/

namespace DataCollectionLab.Lib

inductive Mark (κ : Type) where
  | opens (kind : κ)
  | closes (kind : κ)
  | other
  deriving DecidableEq

variable {κ : Type}

inductive Level : List (Mark κ) → Prop
  | nil : Level []
  | other {l : List (Mark κ)} : Level l → Level (.other :: l)
  | nest {k k' : κ} {inner l : List (Mark κ)} : Level inner → Level l → Level (.opens k :: (inner ++ .closes k' :: l))

inductive Matched : List (Mark κ) → Prop
  | nil : Matched []
  | other {l : List (Mark κ)} : Matched l → Matched (.other :: l)
  | nest {k : κ} {inner l : List (Mark κ)} : Matched inner → Matched l → Matched (.opens k :: (inner ++ .closes k :: l))

def Crosses (l : List (Mark κ)) : Prop :=
  ∃ before k inner k' after, l = before ++ .opens k :: (inner ++ .closes k' :: after) ∧ Level inner ∧ k ≠ k'

def balance : ℕ → List (Mark κ) → Bool
  | 0, [] => true
  | _ + 1, [] => false
  | n, .opens _ :: l => balance (n + 1) l
  | 0, .closes _ :: _ => false
  | n + 1, .closes _ :: l => balance n l
  | n, .other :: l => balance n l

section Balance

theorem balance_opens (n : ℕ) (k : κ) (l : List (Mark κ)) : balance n (.opens k :: l) = balance (n + 1) l := by
  cases n <;> rfl

theorem balance_other (n : ℕ) (l : List (Mark κ)) : balance n (.other :: l) = balance n l := by
  cases n <;> rfl

theorem Level.balance_append {l : List (Mark κ)} (level : Level l) (n : ℕ) (rest : List (Mark κ)) :
    balance n (l ++ rest) = balance n rest := by
  induction level generalizing n rest with
  | nil => rfl
  | other _ ih => rw [List.cons_append, balance_other, ih]
  | nest _ _ ihInner ih =>
    rw [List.cons_append, List.append_assoc, balance_opens, ihInner, List.cons_append]
    exact ih n rest

theorem exists_closing {n : ℕ} {l : List (Mark κ)} (even : balance (n + 1) l = true) :
    ∃ inner k rest, l = inner ++ .closes k :: rest ∧ Level inner ∧ balance n rest = true := by
  induction size : l.length using Nat.strong_induction_on generalizing n l with
  | _ m ih =>
    cases l with
    | nil => cases even
    | cons mark l =>
      have shorter : l.length < m := by
        rw [List.length_cons] at size
        omega
      cases mark with
      | other =>
        rw [balance_other] at even
        obtain ⟨inner, k, rest, rfl, level, even⟩ := ih _ shorter even rfl
        exact ⟨_, k, rest, rfl, level.other, even⟩
      | closes k => exact ⟨[], k, l, rfl, .nil, even⟩
      | opens k =>
        rw [balance_opens] at even
        obtain ⟨inner, k₁, rest, rfl, level, even⟩ := ih _ shorter even rfl
        have fewer : rest.length < m := by
          rw [List.length_append, List.length_cons] at shorter
          omega
        obtain ⟨inner', k₂, rest', rfl, level', even⟩ := ih _ fewer even rfl
        exact ⟨.opens k :: (inner ++ .closes k₁ :: inner'), k₂, rest', by simp, level.nest level', even⟩

theorem level_iff {l : List (Mark κ)} : Level l ↔ balance 0 l = true := by
  constructor
  · intro level
    have even := level.balance_append 0 []
    rwa [List.append_nil] at even
  · intro even
    induction size : l.length using Nat.strong_induction_on generalizing l with
    | _ m ih =>
      cases l with
      | nil => exact .nil
      | cons mark l =>
        have shorter : l.length < m := by
          rw [List.length_cons] at size
          omega
        cases mark with
        | other => exact .other (ih _ shorter (by rwa [balance_other] at even) rfl)
        | closes k => cases even
        | opens k =>
          rw [balance_opens] at even
          obtain ⟨inner, k', rest, rfl, level, even⟩ := exists_closing even
          rw [List.length_append, List.length_cons] at shorter
          exact level.nest (ih rest.length (by omega) even rfl)

end Balance

section Pairs

def height : List (Mark κ) → ℤ
  | [] => 0
  | .opens _ :: l => height l + 1
  | .closes _ :: l => height l - 1
  | .other :: l => height l

theorem height_append (a b : List (Mark κ)) : height (a ++ b) = height a + height b := by
  induction a with
  | nil => simp [height]
  | cons mark a ih => cases mark <;> simp only [List.cons_append, height, ih] <;> omega

theorem Level.height_eq {l : List (Mark κ)} (level : Level l) : height l = 0 := by
  induction level with
  | nil => rfl
  | other _ ih => exact ih
  | nest _ _ ihInner ih =>
    simp only [height, height_append, ihInner, ih]
    omega

theorem Level.height_prefix {l a b : List (Mark κ)} (level : Level l) (split : l = a ++ b) : 0 ≤ height a := by
  induction level generalizing a b with
  | nil =>
    obtain ⟨rfl, -⟩ := List.append_eq_nil_iff.mp split.symm
    exact le_refl 0
  | other _ ih =>
    cases a with
    | nil => exact le_refl 0
    | cons mark a =>
      obtain ⟨rfl, tail⟩ := List.cons.inj split
      exact @ih a b tail
  | @nest k k' inner l levelInner _ ihInner ih =>
    cases a with
    | nil => exact le_refl 0
    | cons mark a =>
      obtain ⟨rfl, tail⟩ := List.cons.inj split
      show 0 ≤ height a + 1
      rcases List.append_eq_append_iff.mp tail with ⟨beyond, rfl, past⟩ | ⟨left, rfl, -⟩
      · cases beyond with
        | nil =>
          rw [List.append_nil, levelInner.height_eq]
          omega
        | cons mark beyond =>
          obtain ⟨rfl, past'⟩ := List.cons.inj past
          have rest := ih past'
          rw [height_append, levelInner.height_eq]
          simp only [height]
          omega
      · have front := ihInner rfl
        omega

theorem level_split {inner inner' l l' : List (Mark κ)} {k k' : κ} (level : Level inner) (level' : Level inner')
    (same : inner ++ .closes k :: l = inner' ++ .closes k' :: l') : inner = inner' ∧ k = k' ∧ l = l' := by
  have apart {a b : List (Mark κ)} {k : κ} (level : Level (a ++ .closes k :: b)) (front : Level a) : False := by
    have down := @Level.height_prefix κ _ (a ++ [.closes k]) b level (by simp)
    rw [height_append, front.height_eq] at down
    simp [height] at down
  rcases List.append_eq_append_iff.mp same with ⟨beyond, rfl, rest⟩ | ⟨beyond, rfl, rest⟩
  · cases beyond with
    | nil =>
      obtain ⟨marks, tail⟩ := List.cons.inj rest
      cases marks
      exact ⟨by simp, rfl, tail⟩
    | cons mark beyond =>
      obtain ⟨rfl, -⟩ := List.cons.inj rest
      exact (apart level' level).elim
  · cases beyond with
    | nil =>
      obtain ⟨marks, tail⟩ := List.cons.inj rest
      cases marks
      exact ⟨by simp, rfl, tail.symm⟩
    | cons mark beyond =>
      obtain ⟨rfl, -⟩ := List.cons.inj rest
      exact (apart level level').elim

theorem Matched.level {l : List (Mark κ)} (matched : Matched l) : Level l := by
  induction matched with
  | nil => exact .nil
  | other _ ih => exact ih.other
  | nest _ _ ihInner ih => exact ihInner.nest ih

theorem Matched.pair {l before inner after : List (Mark κ)} {k k' : κ} (matched : Matched l) (level : Level inner)
    (split : l = before ++ .opens k :: (inner ++ .closes k' :: after)) : k = k' := by
  induction matched generalizing before after with
  | nil => simp at split
  | other _ ih =>
    cases before with
    | nil => cases split
    | cons mark before =>
      obtain ⟨rfl, tail⟩ := List.cons.inj split
      exact ih tail
  | @nest k₀ inner₀ l₀ matchedInner _ ihInner ih =>
    cases before with
    | nil =>
      obtain ⟨marks, tail⟩ := List.cons.inj split
      cases marks
      exact (level_split matchedInner.level level tail).2.1
    | cons mark before =>
      obtain ⟨rfl, tail⟩ := List.cons.inj split
      rcases List.append_eq_append_iff.mp tail with ⟨beyond, rfl, rest⟩ | ⟨beyond, is, rest⟩
      · cases beyond with
        | nil => cases (List.cons.inj rest).1
        | cons mark beyond =>
          obtain ⟨rfl, later⟩ := List.cons.inj rest
          exact ih later
      · cases beyond with
        | nil => cases (List.cons.inj rest).1
        | cons mark beyond =>
          obtain ⟨rfl, later⟩ := List.cons.inj rest
          -- The pair opens inside the stretch that `k₀` closes, so it closes there as well.
          have fall : height beyond < 0 := by
            have whole := matchedInner.level.height_eq
            have front := matchedInner.level.height_prefix is
            rw [is, height_append] at whole
            simp only [height] at whole
            omega
          rcases List.append_eq_append_iff.mp later with ⟨inside, rfl, past⟩ | ⟨inside, rfl, -⟩
          · cases inside with
            | nil =>
              rw [List.append_nil, level.height_eq] at fall
              omega
            | cons mark inside =>
              obtain ⟨rfl, -⟩ := List.cons.inj past
              exact ihInner is
          · have front := level.height_prefix rfl
            omega

theorem Crosses.append {l : List (Mark κ)} (crosses : Crosses l) (a b : List (Mark κ)) : Crosses (a ++ l ++ b) := by
  obtain ⟨before, k, inner, k', after, rfl, level, apart⟩ := crosses
  exact ⟨a ++ before, k, inner, k', after ++ b, by simp, level, apart⟩

theorem matched_iff {l : List (Mark κ)} : Matched l ↔ Level l ∧ ¬ Crosses l := by
  constructor
  · intro matched
    refine ⟨matched.level, ?_⟩
    rintro ⟨before, k, inner, k', after, is, level, apart⟩
    exact apart (matched.pair level is)
  · rintro ⟨level, uncrossed⟩
    induction level with
    | nil => exact .nil
    | other _ ih =>
      refine .other (ih fun crosses => uncrossed ?_)
      have whole := crosses.append [.other] []
      rwa [List.append_nil] at whole
    | @nest k k' inner l level _ ihInner ih =>
      have same : k = k' := by
        by_contra apart
        exact uncrossed ⟨[], k, inner, k', l, rfl, level, apart⟩
      subst same
      refine .nest (ihInner fun crosses => uncrossed ?_) (ih fun crosses => uncrossed ?_)
      · exact crosses.append [.opens k] (.closes k :: l)
      · have whole := crosses.append (.opens k :: (inner ++ [.closes k])) []
        rw [List.append_nil] at whole
        simpa using whole

end Pairs

end DataCollectionLab.Lib
