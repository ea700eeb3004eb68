import Mathlib.Data.List.Basic

/-!
A loop whose turns may fail, given so many rounds: what enough rounds are, and that more of them change nothing.
-/

namespace DataCollectionLab.Lib

variable {ε σ ρ : Type}

inductive Turn (σ ρ : Type) where
  | again (s : σ)
  | done (r : ρ)

def loop (turn : σ → Except ε (Turn σ ρ)) (spent : ε) : ℕ → σ → Except ε ρ
  | 0, _ => .error spent
  | rounds + 1, s => do
    match ← turn s with
    | .again s' => loop turn spent rounds s'
    | .done r => .ok r

variable {turn : σ → Except ε (Turn σ ρ)} {spent : ε}

theorem loop_again {s s' : σ} (goes : turn s = .ok (.again s')) (rounds : ℕ) :
    loop turn spent (rounds + 1) s = loop turn spent rounds s' := by
  rw [loop, goes]
  rfl

theorem loop_done {s : σ} {r : ρ} (ends : turn s = .ok (.done r)) (rounds : ℕ) :
    loop turn spent (rounds + 1) s = .ok r := by
  rw [loop, ends]
  rfl

theorem loop_more {rounds more : ℕ} {s : σ} {r : ρ} (ran : loop turn spent rounds s = .ok r) (enough : rounds ≤ more) :
    loop turn spent more s = .ok r := by
  induction rounds generalizing s more with
  | zero => cases ran
  | succ rounds ih =>
    obtain ⟨more, rfl⟩ := Nat.exists_eq_add_of_lt enough
    rw [loop] at ran
    cases outcome : turn s with
    | error e =>
      rw [outcome] at ran
      cases ran
    | ok next =>
      rw [outcome] at ran
      cases next with
      | again s' =>
        have rest : loop turn spent rounds s' = .ok r := ran
        rw [loop_again outcome]
        exact ih rest (by omega)
      | done r' =>
        rw [loop_done outcome]
        exact ran

theorem loop_unique {rounds rounds' : ℕ} {s : σ} {r r' : ρ} (ran : loop turn spent rounds s = .ok r)
    (ran' : loop turn spent rounds' s = .ok r') : r = r' := by
  have one := loop_more ran (Nat.le_max_left rounds rounds')
  have other := loop_more ran' (Nat.le_max_right rounds rounds')
  exact Except.ok.inj (one.symm.trans other)

theorem loop_ends {Inv : σ → Prop} {Post : ρ → Prop} (weight : σ → ℕ)
    (turns : ∀ s, Inv s → (∃ s', turn s = .ok (.again s') ∧ Inv s' ∧ weight s' < weight s) ∨
      ∃ r, turn s = .ok (.done r) ∧ Post r)
    {rounds : ℕ} {s : σ} (start : Inv s) (enough : weight s < rounds) : ∃ r, loop turn spent rounds s = .ok r ∧ Post r := by
  induction rounds generalizing s with
  | zero => exact absurd enough (Nat.not_lt_zero _)
  | succ rounds ih =>
    rcases turns s start with ⟨s', goes, kept, less⟩ | ⟨r, ends, post⟩
    · rw [loop_again goes]
      exact ih kept (by omega)
    · exact ⟨r, loop_done ends rounds, post⟩

end DataCollectionLab.Lib
