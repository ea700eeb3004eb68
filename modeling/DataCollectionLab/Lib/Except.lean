import Mathlib.Data.List.Forall2

/-! Runs of a fallible computation: what a successful bind and a successful fold passed through. -/

namespace DataCollectionLab.Lib

variable {ε α β : Type}

theorem bind_ok_iff {x : Except ε α} {f : α → Except ε β} {r : β} :
    (x >>= f) = .ok r ↔ ∃ a, x = .ok a ∧ f a = .ok r := by
  cases x with
  | error e => simp [bind, Except.bind]
  | ok a => simp [bind, Except.bind]

theorem map_ok_iff {x : Except ε α} {f : α → β} {r : β} :
    x.map f = .ok r ↔ ∃ a, x = .ok a ∧ f a = r := by
  cases x with
  | error e => simp [Except.map]
  | ok a => simp [Except.map]

theorem mapM_ok_iff {f : α → Except ε β} {l : List α} {r : List β} :
    l.mapM f = .ok r ↔ List.Forall₂ (fun a b => f a = .ok b) l r := by
  induction l generalizing r with
  | nil =>
    rw [List.forall₂_nil_left_iff, List.mapM_nil]
    exact ⟨fun same => (Except.ok.inj same).symm, fun same => by rw [same]; rfl⟩
  | cons a l ih =>
    rw [List.mapM_cons, List.forall₂_cons_left_iff]
    simp only [bind_ok_iff, ih]
    constructor
    · rintro ⟨b, first, others, later, same⟩
      exact ⟨b, others, first, later, (Except.ok.inj same).symm⟩
    · rintro ⟨b, others, first, later, rfl⟩
      exact ⟨b, first, others, later, rfl⟩

theorem exists_mapM_ok_iff {f : α → Except ε β} {l : List α} :
    (∃ r, l.mapM f = .ok r) ↔ ∀ a ∈ l, ∃ b, f a = .ok b := by
  simp only [mapM_ok_iff]
  induction l with
  | nil => simp
  | cons a l ih => simp [List.forall₂_cons_left_iff, ← ih]

theorem mapM_congr_of_mem {f g : α → Except ε β} {l : List α} (same : ∀ a ∈ l, f a = g a) : l.mapM f = l.mapM g := by
  induction l with
  | nil => rfl
  | cons a l ih =>
    rw [List.mapM_cons, List.mapM_cons, same a List.mem_cons_self, ih fun b member => same b (List.mem_cons_of_mem _ member)]

theorem foldlM_cons_ok_iff {f : β → α → Except ε β} {b r : β} {a : α} {l : List α} :
    (a :: l).foldlM f b = .ok r ↔ ∃ s, f b a = .ok s ∧ l.foldlM f s = .ok r := by
  rw [List.foldlM_cons, bind_ok_iff]

theorem foldlM_concat_ok_iff {f : β → α → Except ε β} {b r : β} {a : α} {l : List α} :
    (l ++ [a]).foldlM f b = .ok r ↔ ∃ s, l.foldlM f b = .ok s ∧ f s a = .ok r := by
  rw [List.foldlM_append, bind_ok_iff]
  simp only [List.foldlM_cons, List.foldlM_nil, bind_pure]

theorem foldlM_invariant {f : β → α → Except ε β} (Inv : β → Prop) {l : List α} {b r : β}
    (step : ∀ s, ∀ a ∈ l, ∀ t, Inv s → f s a = .ok t → Inv t) (start : Inv b)
    (run : l.foldlM f b = .ok r) : Inv r := by
  induction l generalizing b with
  | nil => cases run; exact start
  | cons a l ih =>
    obtain ⟨s, first, rest⟩ := foldlM_cons_ok_iff.mp run
    exact ih (fun s a' member => step s a' (List.mem_cons_of_mem _ member))
      (step b a List.mem_cons_self s start first) rest

theorem foldlM_eq_ok {f : β → α → Except ε β} {g : β → α → β} {l : List α}
    (step : ∀ s, ∀ a ∈ l, f s a = .ok (g s a)) (b : β) : l.foldlM f b = .ok (l.foldl g b) := by
  induction l generalizing b with
  | nil => rfl
  | cons a l ih =>
    exact foldlM_cons_ok_iff.mpr
      ⟨g b a, step b a List.mem_cons_self, ih (fun s a' member => step s a' (by simp [member])) _⟩

theorem foldlM_guarded {f : β → α → Except ε β} {g : β → α → β} {guard : β → α → Prop}
    (step : ∀ b a r, f b a = .ok r ↔ guard b a ∧ g b a = r) {l : List α}
    (stable : l.Pairwise fun a a' => ∀ b, guard (g b a) a' ↔ guard b a') {b r : β} :
    l.foldlM f b = .ok r ↔ (∀ a ∈ l, guard b a) ∧ l.foldl g b = r := by
  induction l generalizing b with
  | nil => simp [pure, Except.pure]
  | cons a l ih =>
    obtain ⟨first, stable⟩ := List.pairwise_cons.mp stable
    have rest : (∀ a' ∈ l, guard (g b a) a') ↔ ∀ a' ∈ l, guard b a' :=
      forall₂_congr fun a' member => first a' member b
    simp only [foldlM_cons_ok_iff, step, ih stable, List.forall_mem_cons, List.foldl_cons]
    constructor
    · rintro ⟨_, ⟨holds, rfl⟩, others, same⟩
      exact ⟨⟨holds, rest.mp others⟩, same⟩
    · rintro ⟨⟨holds, others⟩, same⟩
      exact ⟨_, ⟨holds, rfl⟩, rest.mpr others, same⟩

end DataCollectionLab.Lib
