import Mathlib.Data.List.Forall2
import Mathlib.Data.List.Sort

/-!
Writers whose output is read back from the front of a longer text: what was written is settled, and so is where it ends.
Some need what follows to begin with a symbol of a given kind.
-/

namespace DataCollectionLab.Lib

variable {α σ : Type} {Writes : α → List σ → Prop} {Same : α → α → Prop} {Stop : List σ → Prop}

def ReadsBack (Writes : α → List σ → Prop) (Same : α → α → Prop) (Stop : List σ → Prop) (a : α) : Prop :=
  ∀ b t u r r', Writes a t → Writes b u → Stop r → Stop r' → t ++ r = u ++ r' → Same a b ∧ r = r'

def StopsAt (stops : σ → Prop) : List σ → Prop
  | [] => True
  | s :: _ => stops s

theorem run_eq_of_append_eq {stops : σ → Prop} {t u r r' : List σ} (left : ∀ s ∈ t, ¬ stops s) (right : ∀ s ∈ u, ¬ stops s)
    (stop : StopsAt stops r) (stop' : StopsAt stops r') (same : t ++ r = u ++ r') : t = u ∧ r = r' := by
  induction t generalizing u with
  | nil =>
    cases u with
    | nil => exact ⟨rfl, same⟩
    | cons s u =>
      rw [List.nil_append, List.cons_append] at same
      rw [same] at stop
      exact absurd stop (right s List.mem_cons_self)
  | cons s t ih =>
    cases u with
    | nil =>
      rw [List.nil_append, List.cons_append] at same
      rw [← same] at stop'
      exact absurd stop' (left s List.mem_cons_self)
    | cons s' u =>
      rw [List.cons_append, List.cons_append, List.cons.injEq] at same
      obtain ⟨head, tail⟩ := ih (fun s member => left s (List.mem_cons_of_mem _ member))
        (fun s member => right s (List.mem_cons_of_mem _ member)) same.2
      exact ⟨by rw [same.1, head], tail⟩

def joined (sep : σ) : List (List σ) → List σ
  | [] => []
  | [t] => t
  | t :: next :: rest => t ++ sep :: joined sep (next :: rest)

theorem joined_cons (sep : σ) (t : List σ) (ts : List (List σ)) :
    joined sep (t :: ts) = t ++ if ts = [] then [] else sep :: joined sep ts := by
  cases ts with
  | nil =>
    rw [if_pos rfl, List.append_nil]
    rfl
  | cons next rest => rw [joined, if_neg (List.cons_ne_nil _ _)]

theorem joined_flatMap {τ : Type} (f : σ → List τ) (sep : σ) (sep' : τ) (one : f sep = [sep']) (ts : List (List σ)) :
    (joined sep ts).flatMap f = joined sep' (ts.map (·.flatMap f)) := by
  induction ts with
  | nil => rfl
  | cons t ts ih =>
    rw [List.map_cons, joined_cons, joined_cons, List.flatMap_append]
    congr 1
    cases ts with
    | nil => rfl
    | cons next rest =>
      rw [if_neg (List.cons_ne_nil _ _), if_neg (by simp), List.flatMap_cons, one, ih]
      rfl

theorem joined_readsBack {sep close : σ} (apart : sep ≠ close) (atSep : ∀ r, Stop (sep :: r)) (atClose : ∀ r, Stop (close :: r))
    (begins : ∀ a t, Writes a t → ∃ s rest, t = s :: rest ∧ s ≠ close) {as : List α}
    (each : ∀ a ∈ as, ReadsBack Writes Same Stop a) {bs : List α} {ts us : List (List σ)} {r r' : List σ}
    (writes : List.Forall₂ Writes as ts) (writes' : List.Forall₂ Writes bs us)
    (same : joined sep ts ++ close :: r = joined sep us ++ close :: r') : List.Forall₂ Same as bs ∧ r = r' := by
  induction writes generalizing bs us with
  | nil =>
    cases writes' with
    | nil => exact ⟨.nil, (List.cons.inj same).2⟩
    | cons wrote _ =>
      obtain ⟨s, rest, rfl, other⟩ := begins _ _ wrote
      rw [joined_cons] at same
      exact absurd (List.cons.inj same).1.symm other
  | @cons a t as ts wrote rest ih =>
    obtain ⟨s, tail, begun, other⟩ := begins _ _ wrote
    cases writes' with
    | nil =>
      rw [joined_cons, begun] at same
      exact absurd (List.cons.inj same).1 other
    | @cons b u bs us wrote' rest' =>
      -- What follows an item is a separator and the rest, or the end.
      have follow : ∀ (ts : List (List σ)) (r : List σ),
          Stop ((if ts = [] then [] else sep :: joined sep ts) ++ close :: r) := by
        intro ts r
        split
        · exact atClose r
        · exact atSep _
      rw [joined_cons, joined_cons, List.append_assoc, List.append_assoc] at same
      obtain ⟨one, left⟩ := each a List.mem_cons_self b t u _ _ wrote wrote' (follow ts r) (follow us r') same
      cases rest with
      | nil =>
        cases rest' with
        | nil => exact ⟨.cons one .nil, (List.cons.inj left).2⟩
        | cons _ _ => exact absurd (List.cons.inj left).1.symm apart
      | cons wrote₂ rest₂ =>
        cases rest' with
        | nil => exact absurd (List.cons.inj left).1 apart
        | cons wrote₂' rest₂' =>
          rw [if_neg (List.cons_ne_nil _ _), if_neg (List.cons_ne_nil _ _), List.cons_append, List.cons_append] at left
          obtain ⟨others, ends⟩ := ih (fun a member => each a (List.mem_cons_of_mem _ member)) (.cons wrote₂' rest₂')
            (List.cons.inj left).2
          exact ⟨.cons one others, ends⟩

theorem flatMap_readsBack {code : α → List σ} {close : σ}
    (apart : ∀ a b r r', code a ++ r = code b ++ r' → a = b ∧ r = r') (begins : ∀ a, ∃ s rest, code a = s :: rest ∧ s ≠ close)
    {as bs : List α} {r r' : List σ} (same : as.flatMap code ++ close :: r = bs.flatMap code ++ close :: r') :
    as = bs ∧ r = r' := by
  induction as generalizing bs with
  | nil =>
    cases bs with
    | nil => exact ⟨rfl, (List.cons.inj same).2⟩
    | cons b bs =>
      obtain ⟨s, rest, begun, other⟩ := begins b
      rw [List.flatMap_cons, begun] at same
      exact absurd (List.cons.inj same).1.symm other
  | cons a as ih =>
    cases bs with
    | nil =>
      obtain ⟨s, rest, begun, other⟩ := begins a
      rw [List.flatMap_cons, begun] at same
      exact absurd (List.cons.inj same).1 other
    | cons b bs =>
      rw [List.flatMap_cons, List.flatMap_cons, List.append_assoc, List.append_assoc] at same
      obtain ⟨rfl, left⟩ := apart a b _ _ same
      obtain ⟨rfl, ends⟩ := ih left
      exact ⟨rfl, ends⟩

end DataCollectionLab.Lib
