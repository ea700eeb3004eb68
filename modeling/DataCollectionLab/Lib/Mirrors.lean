import DataCollectionLab.Lib.Stateful

/-!
One run beside another, from two states that stand for each other: what the first returns the second returns, and
they end in states that stand for each other again.
-/

namespace DataCollectionLab.Lib

variable {ε σ τ α β : Type}

theorem run_bind_ok_iff {m : EStateM ε σ α} {f : α → EStateM ε σ β} {s s' : σ} {b : β} :
    (m >>= f) s = .ok b s' ↔ ∃ a between, m s = .ok a between ∧ f a between = .ok b s' := by
  show EStateM.bind m f s = _ ↔ _
  unfold EStateM.bind
  cases outcome : m s with
  | ok a between =>
    refine ⟨fun ran => ⟨a, between, rfl, ran⟩, ?_⟩
    rintro ⟨a', between', same, ran⟩
    obtain ⟨rfl, rfl⟩ := EStateM.Result.ok.inj same
    exact ran
  | error e between => simp

/-- A run that ends well from `s` has its like from every `t` that stands for `s`. -/
def Mirrors (R : σ → τ → Prop) (x : EStateM ε σ α) (y : EStateM ε τ α) (Q : α → σ → τ → Prop) : Prop :=
  ∀ s t, R s t → ∀ a s', x s = .ok a s' → ∃ t', y t = .ok a t' ∧ Q a s' t'

namespace Mirrors

variable {R : σ → τ → Prop} {x : EStateM ε σ α} {y : EStateM ε τ α} {Q : α → σ → τ → Prop}

theorem bind {f : α → EStateM ε σ β} {g : α → EStateM ε τ β} {S : β → σ → τ → Prop} (first : Mirrors R x y Q)
    (later : ∀ a, Mirrors (Q a) (f a) (g a) S) : Mirrors R (x >>= f) (y >>= g) S := by
  intro s t related b s' ran
  obtain ⟨a, between, begun, ended⟩ := run_bind_ok_iff.mp ran
  obtain ⟨mirrored, ran', kept⟩ := first s t related a between begun
  obtain ⟨t', ended', last⟩ := later a between mirrored kept b s' ended
  exact ⟨t', run_bind_ok_iff.mpr ⟨a, mirrored, ran', ended'⟩, last⟩

theorem pure {a : α} (holds : ∀ s t, R s t → Q a s t) :
    Mirrors R (Pure.pure a : EStateM ε σ α) (Pure.pure a : EStateM ε τ α) Q := by
  intro s t related a' s' ran
  obtain ⟨rfl, rfl⟩ := EStateM.Result.ok.inj ran
  exact ⟨t, rfl, holds s t related⟩

theorem of_throw {e : ε} : Mirrors R (throw e : EStateM ε σ α) y Q := fun _ _ _ _ _ ran => nomatch ran

theorem get_bind {f : σ → EStateM ε σ β} {g : τ → EStateM ε τ β} {S : β → σ → τ → Prop}
    (later : ∀ s t, R s t → Mirrors (fun s' t' => R s' t' ∧ s' = s ∧ t' = t) (f s) (g t) S) :
    Mirrors R (MonadState.get >>= f) (MonadState.get >>= g) S :=
  fun s t related b s' ran => later s t related s t ⟨related, rfl, rfl⟩ b s' ran

theorem modify {f : σ → σ} {g : τ → τ} {S : PUnit → σ → τ → Prop} (holds : ∀ s t, R s t → S ⟨⟩ (f s) (g t)) :
    Mirrors R (modify f : EStateM ε σ PUnit) (modify g : EStateM ε τ PUnit) S := by
  intro s t related a s' ran
  obtain ⟨rfl, rfl⟩ := EStateM.Result.ok.inj ran
  exact ⟨g t, rfl, holds s t related⟩

theorem mono {R' : σ → τ → Prop} {Q' : α → σ → τ → Prop} (mirrors : Mirrors R x y Q) (before : ∀ s t, R' s t → R s t)
    (after : ∀ a s t, Q a s t → Q' a s t) : Mirrors R' x y Q' := by
  intro s t related a s' ran
  obtain ⟨t', ran', kept⟩ := mirrors s t (before s t related) a s' ran
  exact ⟨t', ran', after a s' t' kept⟩

theorem left {P : σ → Prop} {P' : α → σ → Prop} {E : ε → σ → Prop} (mirrors : Mirrors R x y Q) (triple : Triple P x P' E) :
    Mirrors (fun s t => R s t ∧ P s) x y fun a s t => Q a s t ∧ P' a s := by
  rintro s t ⟨related, holds⟩ a s' ran
  obtain ⟨t', ran', kept⟩ := mirrors s t related a s' ran
  exact ⟨t', ran', kept, triple.ok holds ran⟩

theorem forM {l : List α} {f : α → EStateM ε σ PUnit} {g : α → EStateM ε τ PUnit}
    (each : ∀ a ∈ l, Mirrors R (f a) (g a) fun _ => R) : Mirrors R (l.forM f) (l.forM g) fun _ => R := by
  induction l with
  | nil => exact pure fun _ _ related => related
  | cons a rest ih =>
    show Mirrors R (f a >>= fun _ => rest.forM f) (g a >>= fun _ => rest.forM g) _
    exact bind (each a List.mem_cons_self) fun _ => ih fun b member => each b (List.mem_cons_of_mem _ member)

theorem forM_steps {l : List α} {f : α → EStateM ε σ PUnit} {g : α → EStateM ε τ PUnit}
    {S : List α → σ → τ → Prop} (each : ∀ before a after, l = before ++ a :: after →
      Mirrors (S before) (f a) (g a) fun _ => S (before ++ [a])) : Mirrors (S []) (l.forM f) (l.forM g) fun _ => S l := by
  have rest (before later : List α) (whole : l = before ++ later) :
      Mirrors (S before) (later.forM f) (later.forM g) fun _ => S l := by
    induction later generalizing before with
    | nil =>
      rw [List.append_nil] at whole
      exact pure fun _ _ related => whole ▸ related
    | cons a later ih =>
      show Mirrors (S before) (f a >>= fun _ => later.forM f) (g a >>= fun _ => later.forM g) _
      refine bind (each before a later whole) fun _ => ih (before ++ [a]) ?_
      rw [whole, List.append_assoc, List.singleton_append]
  exact rest [] l rfl

end Mirrors

end DataCollectionLab.Lib
