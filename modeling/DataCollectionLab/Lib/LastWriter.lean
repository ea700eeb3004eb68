import Mathlib.Data.List.Induction
import DataCollectionLab.Lib.Dict

/-!
Folds that act on a map key by key. What such a fold leaves under a key is what the last step that
touched the key wrote there, so two folds agree where their last writes do.
-/

namespace DataCollectionLab.Lib

variable {α κ ν σ : Type}

/-- The last write to `k` among the steps: `none` where none touched it, `some none` where the
last that did removed it. -/
def lastWrite (act : α → κ → Option (Option ν)) (k : κ) (steps : List α) : Option (Option ν) :=
  (steps.filterMap (act · k)).getLast?

variable {act : α → κ → Option (Option ν)} {k : κ}

theorem lastWrite_concat (steps : List α) (a : α) :
    lastWrite act k (steps ++ [a]) = (act a k).or (lastWrite act k steps) := by
  unfold lastWrite
  cases wrote : act a k <;> simp [List.filterMap_append, wrote]

theorem lastWrite_cons (a : α) (steps : List α) :
    lastWrite act k (a :: steps) = (lastWrite act k steps).or (act a k) := by
  unfold lastWrite
  cases wrote : act a k with
  | none => simp [wrote]
  | some w =>
    simp only [List.filterMap_cons, wrote, List.getLast?_cons]
    cases (steps.filterMap (act · k)).getLast? <;> rfl

theorem lastWrite_eq_none_iff {steps : List α} :
    lastWrite act k steps = none ↔ ∀ a ∈ steps, act a k = none := by
  rw [lastWrite, List.getLast?_eq_none_iff, List.filterMap_eq_nil_iff]

theorem lastWrite_map {β : Type} (f : β → α) (steps : List β) :
    lastWrite act k (steps.map f) = lastWrite (fun b => act (f b)) k steps := by
  rw [lastWrite, lastWrite, List.filterMap_map]
  rfl

theorem lastWrite_read {μ : Type} (read : Option ν → Option μ) (steps : List α) :
    lastWrite (fun a k => (act a k).map read) k steps = (lastWrite act k steps).map read := by
  rw [lastWrite, lastWrite, ← List.getLast?_map, List.map_filterMap]

theorem lastWrite_congr {act' : α → κ → Option (Option ν)} {steps : List α}
    (same : ∀ a ∈ steps, act a k = act' a k) : lastWrite act k steps = lastWrite act' k steps := by
  rw [lastWrite, lastWrite, List.filterMap_congr same]

theorem lastWrite_eq_bind (steps : List α) :
    lastWrite act k steps = ((steps.filter fun a => (act a k).isSome).getLast?).bind (act · k) := by
  induction steps using List.reverseRecOn with
  | nil => rfl
  | append_singleton steps a ih =>
    rw [lastWrite_concat, ih, List.filter_append]
    cases wrote : act a k <;> simp [wrote]

theorem exists_of_lastWrite {steps : List α} {w : Option ν} (wrote : lastWrite act k steps = some w) :
    ∃ a ∈ steps, act a k = some w :=
  List.mem_filterMap.mp (List.mem_of_getLast? wrote)

theorem foldl_lookup {step : σ → α → σ} {look : σ → κ → Option ν} {steps : List α}
    (acts : ∀ s, ∀ a ∈ steps, ∀ k, look (step s a) k = (act a k).getD (look s k)) (s : σ) (k : κ) :
    look (steps.foldl step s) k = (lastWrite act k steps).getD (look s k) := by
  induction steps using List.reverseRecOn with
  | nil => rfl
  | append_singleton steps a ih =>
    rw [List.foldl_append, List.foldl_cons, List.foldl_nil, acts _ a (by simp),
      ih fun s a member => acts s a (by simp [member]), lastWrite_concat]
    cases act a k <;> rfl

end DataCollectionLab.Lib
