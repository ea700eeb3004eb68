import Mathlib.Data.List.Basic

/-!
Runs that change a state and may fail: what was written before a failure stays. A triple speaks of both ends.
-/

namespace DataCollectionLab.Lib

variable {ε σ α β : Type}

theorem apply_get_bind (f : σ → EStateM ε σ β) (s : σ) : (MonadState.get >>= f) s = f s s := rfl

theorem apply_modify (f : σ → σ) (s : σ) : (modify f : EStateM ε σ PUnit) s = .ok ⟨⟩ (f s) := rfl

theorem forM_congr {f g : α → EStateM ε σ PUnit} {l : List α} (same : ∀ a ∈ l, f a = g a) : l.forM f = l.forM g := by
  induction l with
  | nil => rfl
  | cons a l ih =>
    have later := ih fun b member => same b (List.mem_cons_of_mem _ member)
    simp only [List.forM_eq_forM] at later ⊢
    rw [List.forM_cons, List.forM_cons, same a List.mem_cons_self, later]

theorem forM_still {f : α → EStateM ε σ PUnit} {l : List α} {s : σ} (still : ∀ a ∈ l, f a s = .ok ⟨⟩ s) :
    l.forM f s = .ok ⟨⟩ s := by
  induction l with
  | nil => rfl
  | cons a l ih =>
    show EStateM.bind (f a) (fun _ => l.forM f) s = _
    rw [EStateM.bind, still a List.mem_cons_self]
    exact ih fun b member => still b (List.mem_cons_of_mem _ member)

/-- From every state of `P` a run that ends well ends in `Q`, and one that fails does so as `E` says. -/
def Triple (P : σ → Prop) (m : EStateM ε σ α) (Q : α → σ → Prop) (E : ε → σ → Prop) : Prop :=
  ∀ s, P s → match m s with
    | .ok a s' => Q a s'
    | .error e s' => E e s'

def Keeps (P : σ → Prop) (m : EStateM ε σ α) : Prop := Triple P m (fun _ => P) fun _ => P

namespace Triple

variable {P : σ → Prop} {E : ε → σ → Prop} {m : EStateM ε σ α} {Q : α → σ → Prop}

theorem bind {f : α → EStateM ε σ β} {R : β → σ → Prop} (first : Triple P m Q E)
    (later : ∀ a, Triple (Q a) (f a) R E) : Triple P (m >>= f) R E := by
  intro s holds
  have one := first s holds
  show match EStateM.bind m f s with
    | .ok b s' => R b s'
    | .error e s' => E e s'
  unfold EStateM.bind
  cases outcome : m s with
  | ok a s' =>
    rw [outcome] at one
    exact later a s' one
  | error e s' =>
    rw [outcome] at one
    exact one

theorem pure {a : α} (holds : ∀ s, P s → Q a s) : Triple P (Pure.pure a : EStateM ε σ α) Q E := holds

theorem get_bind {f : σ → EStateM ε σ β} {R : β → σ → Prop} (later : ∀ s, P s → Triple (· = s) (f s) R E) :
    Triple P (MonadState.get >>= f) R E := by
  intro s holds
  exact later s holds s rfl

theorem mono {P' : σ → Prop} {Q' : α → σ → Prop} {E' : ε → σ → Prop} (triple : Triple P m Q E)
    (before : ∀ s, P' s → P s) (after : ∀ a s, Q a s → Q' a s) (failed : ∀ e s, E e s → E' e s) : Triple P' m Q' E' := by
  intro s holds
  have one := triple s (before s holds)
  cases outcome : m s with
  | ok a s' =>
    rw [outcome] at one
    exact after a s' one
  | error e s' =>
    rw [outcome] at one
    exact failed e s' one

theorem congr {m' : EStateM ε σ α} {s s' : σ} (same : m s = m' s') (triple : Triple (· = s') m' Q E) :
    Triple (· = s) m Q E := by
  rintro _ rfl
  rw [same]
  exact triple s' rfl

theorem of_ok {a : α} {s s' : σ} (ran : m s = .ok a s') (holds : Q a s') : Triple (· = s) m Q E := by
  rintro _ rfl
  rw [ran]
  exact holds

theorem of_error {e : ε} {s s' : σ} (ran : m s = .error e s') (holds : E e s') : Triple (· = s) m Q E := by
  rintro _ rfl
  rw [ran]
  exact holds

theorem forM {l : List α} {f : α → EStateM ε σ PUnit} (each : ∀ a ∈ l, Triple P (f a) (fun _ => P) E) :
    Triple P (l.forM f) (fun _ => P) E := by
  induction l with
  | nil => exact fun s holds => holds
  | cons a rest ih =>
    show Triple P (f a >>= fun _ => rest.forM f) (fun _ => P) E
    refine bind (each a List.mem_cons_self) fun _ => ?_
    exact ih fun b member => each b (List.mem_cons_of_mem _ member)

theorem forM_steps {l : List α} {f : α → EStateM ε σ PUnit} {R : List α → σ → Prop}
    (each : ∀ before a after, l = before ++ a :: after → Triple (R before) (f a) (fun _ => R (before ++ [a])) E) :
    Triple (R []) (l.forM f) (fun _ => R l) E := by
  have rest (before later : List α) (whole : l = before ++ later) :
      Triple (R before) (later.forM f) (fun _ => R l) E := by
    induction later generalizing before with
    | nil =>
      rw [List.append_nil] at whole
      exact fun s holds => whole ▸ holds
    | cons a later ih =>
      show Triple (R before) (f a >>= fun _ => later.forM f) (fun _ => R l) E
      refine bind (each before a later whole) fun _ => ih (before ++ [a]) ?_
      rw [whole, List.append_assoc, List.singleton_append]
  exact rest [] l rfl

theorem ok (triple : Triple P m Q E) {s s' : σ} {a : α} (holds : P s) (ran : m s = .ok a s') : Q a s' := by
  have done := triple s holds
  rwa [ran] at done

theorem mapM {l : List α} {f : α → EStateM ε σ β} (each : ∀ a ∈ l, Triple P (f a) (fun _ => P) E) :
    Triple P (l.mapM f) (fun _ => P) E := by
  induction l with
  | nil => exact fun s holds => holds
  | cons a rest ih =>
    rw [List.mapM_cons]
    refine bind (each a List.mem_cons_self) fun _ => ?_
    refine bind (ih fun b member => each b (List.mem_cons_of_mem _ member)) fun _ => ?_
    exact fun s holds => holds

end Triple

def after (m : EStateM ε σ α) (s : σ) : σ :=
  match m s with
  | .ok _ s' => s'
  | .error _ s' => s'

theorem after_of_error {m : EStateM ε σ α} {s s' : σ} {e : ε} (failed : m s = .error e s') :
    after m s = s' := by
  rw [after, failed]

theorem after_congr {m : EStateM ε σ α} {m' : EStateM ε σ α} {s s' : σ} (same : m s = m' s') :
    after m s = after m' s' := by
  rw [after, same, after]

theorem after_bind {m : EStateM ε σ α} {f : α → EStateM ε σ β} {s s' : σ} {a : α} (ran : m s = .ok a s') :
    after (m >>= f) s = after (f a) s' := by
  apply after_congr
  show EStateM.bind m f s = _
  rw [EStateM.bind, ran]

theorem after_map {m : EStateM ε σ α} {f : α → β} {s : σ} :
    after (m >>= fun a => pure (f a)) s = after m s := by
  show (match EStateM.bind m (fun a => pure (f a)) s with
    | .ok _ s' => s'
    | .error _ s' => s') = _
  unfold EStateM.bind after
  cases m s <;> rfl

theorem Triple.after {P Q : σ → Prop} {m : EStateM ε σ α} (triple : Triple P m (fun _ => Q) fun _ => Q) {s : σ}
    (holds : P s) : Q (Lib.after m s) := by
  have kept := triple s holds
  unfold Lib.after
  cases outcome : m s with
  | ok a s' =>
    rw [outcome] at kept
    exact kept
  | error e s' =>
    rw [outcome] at kept
    exact kept

theorem Keeps.after {P : σ → Prop} {m : EStateM ε σ α} (keeps : Keeps P m) {s : σ} (holds : P s) :
    P (Lib.after m s) := Triple.after keeps holds

theorem keeps_of_after {P : σ → Prop} {m : EStateM ε σ α} (each : ∀ s, P s → P (after m s)) : Keeps P m := by
  intro s holds
  have kept := each s holds
  unfold after at kept
  cases outcome : m s with
  | ok a s' =>
    rw [outcome] at kept
    exact kept
  | error e s' =>
    rw [outcome] at kept
    exact kept

end DataCollectionLab.Lib
