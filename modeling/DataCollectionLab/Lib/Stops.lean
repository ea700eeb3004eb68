import Mathlib.Data.List.Basic
import Mathlib.Order.Basic
import Mathlib.Order.Lattice

/-! Stops in ascending order: the next one after a place, the one before, and a journey from stop to stop. -/

namespace DataCollectionLab.Lib

section Stops

variable {α : Type} [LinearOrder α]

def stopAfter (l : List α) (a : α) : Option α := l.find? (a < ·)

def stopBefore (l : List α) (a : α) : Option α := (l.filter (· < a)).getLast?

variable {l : List α} {a b : α}

theorem stopAfter_eq_none_iff : stopAfter l a = none ↔ l.filter (a < ·) = [] := by
  rw [stopAfter, List.find?_eq_none, List.filter_eq_nil_iff]

theorem stopAfter_mem (after : stopAfter l a = some b) : b ∈ l ∧ a < b :=
  ⟨List.mem_of_find?_eq_some after, by simpa using List.find?_some after⟩

theorem stopBefore_mem (before : stopBefore l a = some b) : b ∈ l ∧ b < a := by
  have member := List.mem_filter.mp (List.mem_of_getLast? before)
  exact ⟨member.1, by simpa using member.2⟩

theorem filter_stopAfter (sorted : l.Pairwise (· < ·)) (after : stopAfter l a = some b) :
    l.filter (a < ·) = b :: l.filter (b < ·) := by
  obtain ⟨above, front, back, rfl, passed⟩ := List.find?_eq_some_iff_append.mp after
  have above : a < b := by simpa using above
  obtain ⟨-, later, earlier⟩ := List.pairwise_append.mp sorted
  obtain ⟨beyond, -⟩ := List.pairwise_cons.mp later
  have none : front.filter (a < ·) = [] := List.filter_eq_nil_iff.mpr fun c within => by simpa using passed c within
  have none' : front.filter (b < ·) = [] := List.filter_eq_nil_iff.mpr fun c within => by
    simpa using (earlier c within b List.mem_cons_self).le
  have all : back.filter (a < ·) = back := List.filter_eq_self.mpr fun c within => by
    simpa using above.trans (beyond c within)
  have all' : back.filter (b < ·) = back := List.filter_eq_self.mpr fun c within => by simpa using beyond c within
  rw [List.filter_append, List.filter_append, List.filter_cons_of_pos (by simpa using above),
    List.filter_cons_of_neg (by simp), none, none', all, all', List.nil_append, List.nil_append]

theorem stopAfter_split {front back : List α} (sorted : (front ++ a :: b :: back).Pairwise (· < ·)) :
    stopAfter (front ++ a :: b :: back) a = some b ∧ stopBefore (front ++ a :: b :: back) b = some a := by
  obtain ⟨-, later, earlier⟩ := List.pairwise_append.mp sorted
  obtain ⟨beyond, rest⟩ := List.pairwise_cons.mp later
  have step : a < b := beyond b List.mem_cons_self
  constructor
  · rw [stopAfter, List.find?_append, List.find?_eq_none.mpr fun c within => by
      simpa using (earlier c within a List.mem_cons_self).le, List.find?_cons_of_neg (by simp),
      List.find?_cons_of_pos (by simpa using step)]
    rfl
  · have none : (b :: back).filter (· < b) = [] := List.filter_eq_nil_iff.mpr fun c within => by
      rcases List.mem_cons.mp within with rfl | beyond
      · simp
      · simpa using ((List.pairwise_cons.mp rest).1 c beyond).le
    rw [stopBefore, List.filter_append, List.filter_cons_of_pos (by simpa using step), none, List.getLast?_append]
    rfl

theorem stopAfter_beside (sorted : l.Pairwise (· < ·)) (member : a ∈ l) (after : stopAfter l a = some b) :
    ∃ front back, l = front ++ a :: b :: back := by
  obtain ⟨front, rest, rfl⟩ := List.append_of_mem member
  cases rest with
  | nil =>
    obtain ⟨within, above⟩ := stopAfter_mem after
    rcases List.mem_append.mp within with earlier | here
    · exact absurd ((List.pairwise_append.mp sorted).2.2 b earlier a List.mem_cons_self) above.not_gt
    · exact absurd above (by rw [List.mem_singleton.mp here]; exact lt_irrefl a)
  | cons c back =>
    rw [(stopAfter_split sorted).1] at after
    rw [← Option.some.inj after]
    exact ⟨front, back, rfl⟩

theorem stopBefore_beside (sorted : l.Pairwise (· < ·)) (member : b ∈ l) (before : stopBefore l b = some a) :
    ∃ front back, l = front ++ a :: b :: back := by
  obtain ⟨front, back, rfl⟩ := List.append_of_mem member
  rcases List.eq_nil_or_concat' front with rfl | ⟨init, c, rfl⟩
  · obtain ⟨within, below⟩ := stopBefore_mem before
    rcases List.mem_cons.mp within with rfl | later
    · exact absurd below (lt_irrefl a)
    · exact absurd ((List.pairwise_cons.mp sorted).1 a later) below.not_gt
  · rw [List.append_assoc, List.singleton_append] at sorted before ⊢
    rw [(stopAfter_split sorted).2] at before
    rw [← Option.some.inj before]
    exact ⟨init, back, rfl⟩

theorem stopAfter_iff_stopBefore (sorted : l.Pairwise (· < ·)) (member : a ∈ l) (member' : b ∈ l) :
    stopAfter l a = some b ↔ stopBefore l b = some a := by
  constructor
  · intro after
    obtain ⟨front, back, rfl⟩ := stopAfter_beside sorted member after
    exact (stopAfter_split sorted).2
  · intro before
    obtain ⟨front, back, rfl⟩ := stopBefore_beside sorted member' before
    exact (stopAfter_split sorted).1

theorem idxOf_stopAfter (sorted : l.Pairwise (· < ·)) (member : a ∈ l) (after : stopAfter l a = some b) :
    l.idxOf b = l.idxOf a + 1 := by
  obtain ⟨front, back, rfl⟩ := stopAfter_beside sorted member after
  obtain ⟨-, later, earlier⟩ := List.pairwise_append.mp sorted
  have step : a < b := (List.pairwise_cons.mp later).1 b List.mem_cons_self
  have absent : a ∉ front := fun within => lt_irrefl a (earlier a within a List.mem_cons_self)
  have absent' : b ∉ front := fun within =>
    lt_irrefl b (earlier b within b (List.mem_cons_of_mem _ List.mem_cons_self))
  rw [List.idxOf_append_of_notMem absent, List.idxOf_append_of_notMem absent', List.idxOf_cons_self,
    List.idxOf_cons_ne _ step.ne, List.idxOf_cons_self]

end Stops

section Journey

variable {ε β : Type}

inductive Visits (next : β → Except ε (Option β)) : β → List β → Prop
  | ends {a : β} : next a = .ok none → Visits next a []
  | goes {a b : β} {rest : List β} : next a = .ok (some b) → Visits next b rest → Visits next a (b :: rest)

theorem visits_stops {α : Type} [LinearOrder α] {next : β → Except ε (Option β)} {l : List α} {place : α → β}
    {leave : List β} (sorted : l.Pairwise (· < ·))
    (onward : ∀ a b, stopAfter l a = some b → next (place a) = .ok (some (place b)))
    (last : ∀ a, stopAfter l a = none → Visits next (place a) leave) (a : α) :
    Visits next (place a) ((l.filter (a < ·)).map place ++ leave) := by
  generalize count : (l.filter (a < ·)).length = n
  induction n generalizing a with
  | zero =>
    have none := List.length_eq_zero_iff.mp count
    rw [none]
    exact last a (stopAfter_eq_none_iff.mpr none)
  | succ n ih =>
    cases after : stopAfter l a with
    | none =>
      rw [stopAfter_eq_none_iff.mp after] at count
      cases count
    | some b =>
      rw [filter_stopAfter sorted after] at count ⊢
      exact .goes (onward a b after) (ih b (Nat.succ.inj count))

end Journey

end DataCollectionLab.Lib
