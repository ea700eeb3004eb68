import Mathlib.Data.List.Induction

/-!
Runs of a machine whose moves may be refused, and conditions that every move of a run meets in the
state it is made in.
-/

namespace DataCollectionLab.Lib

variable {σ α : Type} (step : σ → α → Option σ)

def run : σ → List α → Option σ
  | s, [] => some s
  | s, a :: rest => (step s a).bind fun s' => run s' rest

/-- Every move of the run meets `C` where it is made. -/
def Along (C : σ → α → Prop) : σ → List α → Prop
  | _, [] => True
  | s, a :: rest => C s a ∧ ∀ s', step s a = some s' → Along C s' rest

instance decidableAlong {C : σ → α → Prop} [∀ s a, Decidable (C s a)] :
    ∀ (s : σ) (moves : List α), Decidable (Along step C s moves)
  | _, [] => isTrue trivial
  | s, a :: rest =>
    match stepped : step s a with
    | none => decidable_of_iff (C s a) (by simp [Along, stepped])
    | some s' =>
      have : Decidable (Along step C s' rest) := decidableAlong s' rest
      decidable_of_iff (C s a ∧ Along step C s' rest) (by simp [Along, stepped])

variable {step}

theorem run_cons_iff {s r : σ} {a : α} {rest : List α} :
    run step s (a :: rest) = some r ↔ ∃ s', step s a = some s' ∧ run step s' rest = some r := by
  rw [run, Option.bind_eq_some_iff]

theorem run_append_iff {s r : σ} {first rest : List α} :
    run step s (first ++ rest) = some r ↔
      ∃ s', run step s first = some s' ∧ run step s' rest = some r := by
  induction first generalizing s with
  | nil => simp [run]
  | cons a first ih =>
    rw [List.cons_append, run_cons_iff]
    simp only [run_cons_iff, ih]
    constructor
    · rintro ⟨s₁, one, s₂, two, three⟩
      exact ⟨s₂, ⟨s₁, one, two⟩, three⟩
    · rintro ⟨s₂, ⟨s₁, one, two⟩, three⟩
      exact ⟨s₁, one, s₂, two, three⟩

theorem Along.append {C : σ → α → Prop} {s s' : σ} {first rest : List α}
    (along : Along step C s (first ++ rest)) (ran : run step s first = some s') :
    Along step C s first ∧ Along step C s' rest := by
  induction first generalizing s with
  | nil =>
    cases ran
    exact ⟨trivial, along⟩
  | cons a first ih =>
    obtain ⟨s₁, one, ran⟩ := run_cons_iff.mp ran
    obtain ⟨here, later⟩ := along
    refine ⟨⟨here, fun s₂ two => ?_⟩, (ih (later s₁ one) ran).2⟩
    cases one.symm.trans two
    exact (ih (later s₁ one) ran).1

theorem run_invariant {C : σ → α → Prop} {Inv : σ → Prop}
    (keeps : ∀ s a s', Inv s → C s a → step s a = some s' → Inv s') {s r : σ} {moves : List α}
    (start : Inv s) (along : Along step C s moves) (ran : run step s moves = some r) : Inv r := by
  induction moves generalizing s with
  | nil =>
    cases ran
    exact start
  | cons a rest ih =>
    obtain ⟨s', one, ran⟩ := run_cons_iff.mp ran
    exact ih (keeps s a s' start along.1 one) (along.2 s' one) ran

theorem along_of_forall {D : α → Prop} {moves : List α} (all : ∀ a ∈ moves, D a) (s : σ) :
    Along step (fun _ => D) s moves := by
  induction moves generalizing s with
  | nil => exact trivial
  | cons a rest ih =>
    exact ⟨all a List.mem_cons_self, fun s' _ => ih (fun b member => all b (List.mem_cons_of_mem _ member)) s'⟩

theorem run_keeps {Inv : σ → Prop} (keeps : ∀ s a s', Inv s → step s a = some s' → Inv s') {s r : σ}
    {moves : List α} (start : Inv s) (ran : run step s moves = some r) : Inv r :=
  run_invariant (fun s a s' inv _ => keeps s a s' inv) start (along_of_forall (fun _ _ => trivial) s) ran

theorem reached_of_met {next : σ → α → σ} {Inv : σ → Prop} {C : σ → α → Prop}
    (keeps : ∀ s a, Inv s → C s a → Inv (next s a)) {s : σ} (start : Inv s) {moves : List α}
    (met : ∀ first a rest, moves = first ++ a :: rest → C (first.foldl next s) a) :
    ∀ first rest, moves = first ++ rest → Inv (first.foldl next s) := by
  intro first
  induction first using List.reverseRecOn with
  | nil => exact fun _ _ => start
  | append_singleton first a ih =>
    intro rest split
    rw [List.foldl_append]
    exact keeps _ _ (ih (a :: rest) (by simp [split])) (met first a rest (by simp [split]))

/-- Where moves under `C` keep an invariant that makes a state safe, and any other move from such a state
makes it unsafe, every state a run reaches is safe exactly when every move is made under `C`. -/
theorem safe_reached_iff {next : σ → α → σ} {Inv Safe : σ → Prop} {C : σ → α → Prop}
    (safe : ∀ s, Inv s → Safe s) (keeps : ∀ s a, Inv s → C s a → Inv (next s a))
    (breaks : ∀ s a, Inv s → ¬ C s a → ¬ Safe (next s a)) {s : σ} (start : Inv s) (moves : List α) :
    (∀ first rest, moves = first ++ rest → Safe (first.foldl next s)) ↔
      ∀ first a rest, moves = first ++ a :: rest → C (first.foldl next s) a := by
  constructor
  · intro reached
    have met : ∀ first rest, moves = first ++ rest → Inv (first.foldl next s) ∧
        ∀ a rest', rest = a :: rest' → C (first.foldl next s) a := by
      intro first
      induction first using List.reverseRecOn with
      | nil =>
        rintro rest rfl
        refine ⟨start, fun a rest' split => by_contra fun unmet => ?_⟩
        exact breaks s a start unmet (reached [a] rest' split)
      | append_singleton first a ih =>
        intro rest split
        obtain ⟨inv, met⟩ := ih (a :: rest) (by simp [split])
        have inv' : Inv ((first ++ [a]).foldl next s) := by
          rw [List.foldl_append]
          exact keeps _ _ inv (met a rest rfl)
        refine ⟨inv', fun a' rest' split' => by_contra fun unmet => ?_⟩
        have after := reached (first ++ [a] ++ [a']) rest' (by simp [split, split'])
        rw [List.foldl_append] at after
        exact breaks _ a' inv' unmet after
    exact fun first a rest split => (met first (a :: rest) split).2 a rest rfl
  · intro met first rest split
    exact safe _ (reached_of_met keeps start met first rest split)

/-- Where a move keeps an invariant exactly under `C`, every state a run reaches has the invariant
exactly when every move is made under `C`. -/
theorem reached_iff {next : σ → α → σ} {Inv : σ → Prop} {C : σ → α → Prop}
    (exactly : ∀ s a, Inv s → (Inv (next s a) ↔ C s a)) {s : σ} (start : Inv s) (moves : List α) :
    (∀ first rest, moves = first ++ rest → Inv (first.foldl next s)) ↔
      ∀ first a rest, moves = first ++ a :: rest → C (first.foldl next s) a :=
  safe_reached_iff (fun _ inv => inv) (fun s a inv => (exactly s a inv).mpr)
    (fun s a inv unmet kept => unmet ((exactly s a inv).mp kept)) start moves

theorem along_total_iff {next : σ → α → σ} {C : σ → α → Prop} {s : σ} {moves : List α} :
    Along (fun s a => some (next s a)) C s moves ↔
      ∀ first a rest, moves = first ++ a :: rest → C (first.foldl next s) a := by
  induction moves generalizing s with
  | nil => simp [Along]
  | cons a moves ih =>
    constructor
    · rintro ⟨here, later⟩ first b rest split
      cases first with
      | nil =>
        cases split
        exact here
      | cons a' first =>
        cases split
        exact ih.mp (later _ rfl) first b rest rfl
    · intro met
      refine ⟨met [] a moves rfl, fun s' same => ?_⟩
      cases same
      exact ih.mpr fun first b rest split => met (a :: first) b rest (by rw [split, List.cons_append])

end DataCollectionLab.Lib
