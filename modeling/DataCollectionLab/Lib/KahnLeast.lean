import DataCollectionLab.Lib.Kahn
import Mathlib.Data.Finite.Defs
import Mathlib.Data.Fintype.EquivFin
import Mathlib.Logic.Relation
import Mathlib.Data.Fintype.Order

/-!
What the lowest-first rule gives. Of all the orders in which every node comes after those it waits for, this is
the least. The nodes that it leaves out are those that wait, at some distance, for themselves or for a node
that does.
-/

namespace DataCollectionLab.Lib.Kahn

variable {n : ℕ} {bases : ℕ → List ℕ}

section Greedy

def Lowest (n : ℕ) (bases : ℕ → List ℕ) (result : List ℕ) : Prop :=
  ∀ before p after, result = before ++ p :: after →
    ∀ q < n, q ∉ before → (∀ b ∈ bases q, b ∈ before) → p ≤ q

def Complete (n : ℕ) (s : State) : Prop := ∀ p < n, s.indegree p = 0 → p ∈ s.ready ++ s.result

theorem complete_start : Complete n (start n bases) := by
  intro p below none
  apply List.mem_append_left
  exact List.mem_filter.mpr ⟨List.mem_range.mpr below, decide_eq_true none⟩

theorem complete_release {s : State} (complete : Complete n s) (d : ℕ) : Complete n (release s d) := by
  intro p below none
  by_cases same : p = d
  · subst same
    simp only [release, if_true] at none ⊢
    simp [none]
  · simp only [release, if_neg same] at none ⊢
    rcases List.mem_append.mp (complete p below none) with ready | done
    · apply List.mem_append_left
      split
      · exact List.mem_append_left _ ready
      · exact ready
    · exact List.mem_append_right _ done

theorem complete_foldl {s : State} (complete : Complete n s) (rest : List ℕ) :
    Complete n (rest.foldl release s) := by
  induction rest generalizing s with
  | nil => exact complete
  | cons d rest ih => exact ih (complete_release complete d)

theorem foldl_result (rest : List ℕ) (s : State) : (rest.foldl release s).result = s.result := by
  induction rest generalizing s with
  | nil => rfl
  | cons d rest ih => exact ih _

theorem complete_next {s s' : State} (complete : Complete n s) (is : next n bases s = some s') : Complete n s' := by
  obtain ⟨current, -, rfl⟩ := Option.map_eq_some_iff.mp is
  apply complete_foldl
  intro p below none
  rcases List.mem_append.mp (complete p below none) with ready | done
  · by_cases same : p = current
    · subst same
      simp
    · exact List.mem_append_left _ ((List.mem_erase_of_ne same).mpr ready)
  · exact List.mem_append_right _ (List.mem_append_left _ done)

theorem ready_of_based {s : State} (inv : Inv n bases s) (complete : Complete n s) {p : ℕ} (below : p < n)
    (based : ∀ b ∈ bases p, b ∈ s.result) : p ∈ s.ready ++ s.result := by
  apply complete p below
  rw [inv.counted p below, waiting, List.length_eq_zero_iff, List.filter_eq_nil_iff]
  intro b member
  simpa using based b member

theorem lowest_next {s s' : State} (inv : Inv n bases s) (complete : Complete n s) (lowest : Lowest n bases s.result)
    (is : next n bases s = some s') : Lowest n bases s'.result := by
  obtain ⟨current, least, rfl⟩ := Option.map_eq_some_iff.mp is
  rw [foldl_result]
  intro before p after same q below new based
  rcases List.append_eq_append_iff.mp same with ⟨rest, split, tail⟩ | ⟨rest, split, tail⟩
  · cases rest with
    | nil =>
      simp only [List.append_nil] at split
      obtain rfl : p = current := by simpa using (List.cons.inj tail).1.symm
      subst split
      rcases List.mem_append.mp (ready_of_based inv complete below based) with ready | done
      · exact (List.min?_eq_some_iff.mp least).2 q ready
      · exact absurd done new
    | cons x rest => simp at tail
  · cases rest with
    | nil =>
      simp only [List.append_nil] at split
      obtain rfl : p = current := by simpa using (List.cons.inj tail).1
      subst split
      rcases List.mem_append.mp (ready_of_based inv complete below based) with ready | done
      · exact (List.min?_eq_some_iff.mp least).2 q ready
      · exact absurd done new
    | cons x rest =>
      obtain ⟨rfl, -⟩ := List.cons.inj tail
      exact lowest before p rest split q below new based

theorem lowest_loop {s : State} (inv : Inv n bases s) (complete : Complete n s) (lowest : Lowest n bases s.result)
    (fuel : ℕ) : Complete n (loop n bases fuel s) ∧ Lowest n bases (loop n bases fuel s).result := by
  induction fuel generalizing s with
  | zero => exact ⟨complete, lowest⟩
  | succ fuel ih =>
    unfold loop
    split
    · rename_i s' is
      exact ih (inv_next inv is) (complete_next complete is) (lowest_next inv complete lowest is)
    · exact ⟨complete, lowest⟩

theorem lowest_start : Lowest n bases (start n bases).result := by
  intro before p after same
  simp [start] at same

theorem order_lowest : Lowest n bases (order n bases) :=
  (lowest_loop inv_start complete_start lowest_start n).2

theorem lowest_le {before xs ys : List ℕ} (lowest : Lowest n bases (before ++ xs)) (sorted : Sorted bases (before ++ ys))
    (nodup : (before ++ ys).Nodup) (bounded : ∀ q ∈ before ++ ys, q < n) (length : ys.length ≤ xs.length → xs.length = ys.length) :
    xs = ys ∨ List.Lex (· < ·) xs ys := by
  induction xs generalizing before ys with
  | nil =>
    cases ys with
    | nil => exact Or.inl rfl
    | cons q ys => exact Or.inr List.Lex.nil
  | cons p xs ih =>
    cases ys with
    | nil => exact absurd (length (Nat.zero_le _)) (by simp)
    | cons q ys =>
      have new : q ∉ before := fun old => (List.nodup_append.mp nodup).2.2 q old q List.mem_cons_self rfl
      have least : p ≤ q :=
        lowest before p xs rfl q (bounded q (by simp)) new (sorted before q ys rfl)
      rcases Nat.lt_or_eq_of_le least with less | rfl
      · exact Or.inr (List.Lex.rel less)
      · have shift (zs : List ℕ) : before ++ p :: zs = before ++ [p] ++ zs := by simp
        rw [shift] at lowest sorted nodup bounded
        have shorter : ys.length ≤ xs.length → xs.length = ys.length := by simpa using length
        rcases ih lowest sorted nodup bounded shorter with same | less
        · exact Or.inl (congrArg (p :: ·) same)
        · exact Or.inr (List.Lex.cons less)

theorem order_le {other : List ℕ} (perm : other.Perm (List.range n)) (sorted : Sorted bases other)
    (complete : (order n bases).length = n) : order n bases = other ∨ List.Lex (· < ·) (order n bases) other := by
  apply @lowest_le n bases [] (order n bases) other order_lowest sorted
  · exact perm.nodup_iff.mpr List.nodup_range
  · intro q member
    exact List.mem_range.mp (perm.mem_iff.mp member)
  · intro _
    rw [complete, perm.length_eq, List.length_range]

end Greedy

section Cycles

def Cyclic (bases : ℕ → List ℕ) (p : ℕ) : Prop := Relation.TransGen (fun a b => b ∈ bases a) p p

def Stuck (bases : ℕ → List ℕ) (p : ℕ) : Prop := ∃ c, Relation.ReflTransGen (fun a b => b ∈ bases a) p c ∧ Cyclic bases c

theorem stuck_of_base {p b : ℕ} (base : b ∈ bases p) (stuck : Stuck bases b) : Stuck bases p := by
  obtain ⟨c, reached, cyclic⟩ := stuck
  exact ⟨c, reached.head base, cyclic⟩

theorem ahead_of_reached {result : List ℕ} (sorted : Sorted bases result) {before after : List ℕ} {p b : ℕ}
    (split : result = before ++ p :: after) (reached : Relation.TransGen (fun a b => b ∈ bases a) p b) : b ∈ before := by
  induction reached with
  | single base => exact sorted before p after split _ base
  | tail _ base ih =>
    obtain ⟨first, rest, rfl⟩ := List.append_of_mem ih
    rw [List.append_assoc, List.cons_append] at split
    exact List.mem_append_left _ (sorted first _ _ split _ base)

theorem not_cyclic_of_mem {result : List ℕ} (sorted : Sorted bases result) (nodup : result.Nodup) {p : ℕ}
    (member : p ∈ result) : ¬Cyclic bases p := by
  intro cyclic
  obtain ⟨before, after, split⟩ := List.append_of_mem member
  have ahead := ahead_of_reached sorted split cyclic
  rw [split] at nodup
  exact (List.nodup_append.mp nodup).2.2 p ahead p List.mem_cons_self rfl

theorem mem_of_reached {result : List ℕ} (sorted : Sorted bases result) {p b : ℕ} (member : p ∈ result)
    (reached : Relation.ReflTransGen (fun a b => b ∈ bases a) p b) : b ∈ result := by
  rcases Relation.reflTransGen_iff_eq_or_transGen.mp reached with rfl | further
  · exact member
  · obtain ⟨before, after, rfl⟩ := List.append_of_mem member
    exact List.mem_append_left _ (ahead_of_reached sorted rfl further)

theorem not_stuck_of_mem {p : ℕ} (member : p ∈ order n bases) : ¬Stuck bases p := by
  rintro ⟨c, reached, cyclic⟩
  exact not_cyclic_of_mem order_sorted order_nodup (mem_of_reached order_sorted member reached) cyclic

theorem mem_order_of_based {p : ℕ} (below : p < n) (based : ∀ b ∈ bases p, b ∈ order n bases) : p ∈ order n bases := by
  have complete := (@lowest_loop n bases _ inv_start complete_start lowest_start n).1
  have ready := ready_of_based (inv_loop inv_start n) complete below based
  have empty : (loop n bases n (start n bases)).ready = [] := by
    have done := @loop_done n bases
    rw [next, Option.map_eq_none_iff] at done
    exact List.min?_eq_none_iff.mp done
  rw [empty] at ready
  exact ready

theorem mem_order_of_not_stuck (bounded : ∀ p, ∀ b ∈ bases p, b < n) {p : ℕ} (below : p < n) (free : ¬Stuck bases p) :
    p ∈ order n bases := by
  let later (x y : { q : Fin n // ¬Stuck bases q }) : Prop :=
    Relation.TransGen (fun a b => b ∈ bases a) y.1.1 x.1.1
  have : IsTrans _ later := ⟨fun x y z xy yz => yz.trans xy⟩
  have : Std.Irrefl later := ⟨fun x cyclic => x.2 ⟨x.1.1, Relation.ReflTransGen.refl, cyclic⟩⟩
  have founded : WellFounded later := Finite.wellFounded_of_trans_of_irrefl later
  have all (x : { q : Fin n // ¬Stuck bases q }) : x.1.1 ∈ order n bases := by
    induction x using founded.induction with
    | _ x ih =>
      apply mem_order_of_based x.1.2
      intro b base
      let y : { q : Fin n // ¬Stuck bases q } := ⟨⟨b, bounded _ b base⟩, fun stuck => x.2 (stuck_of_base base stuck)⟩
      exact ih y (Relation.TransGen.single base)
  exact all ⟨⟨p, below⟩, free⟩

theorem mem_order_iff (bounded : ∀ p, ∀ b ∈ bases p, b < n) {p : ℕ} (below : p < n) :
    p ∈ order n bases ↔ ¬Stuck bases p :=
  ⟨not_stuck_of_mem, mem_order_of_not_stuck bounded below⟩

theorem order_incomplete_iff (bounded : ∀ p, ∀ b ∈ bases p, b < n) :
    (order n bases).length ≠ n ↔ ∃ c, Cyclic bases c := by
  constructor
  · intro short
    have some : ∃ p, p < n ∧ p ∉ order n bases := by
      by_contra none
      push Not at none
      apply short
      have within : order n bases ⊆ List.range n := fun p member => List.mem_range.mpr (order_bounded member)
      have back : List.range n ⊆ order n bases := fun p member => none p (List.mem_range.mp member)
      have perm := (List.perm_ext_iff_of_nodup (@order_nodup n bases) List.nodup_range).mpr
        fun p => ⟨fun member => within member, fun member => back member⟩
      rw [perm.length_eq, List.length_range]
    obtain ⟨p, below, missing⟩ := some
    by_contra none
    push Not at none
    exact missing (mem_order_of_not_stuck bounded below fun stuck => none _ stuck.choose_spec.2)
  · rintro ⟨c, cyclic⟩ whole
    have below : c < n := by
      obtain ⟨b, -, base⟩ := Relation.TransGen.tail'_iff.mp cyclic
      exact bounded b c base
    exact not_stuck_of_mem (mem_order whole below) ⟨c, Relation.ReflTransGen.refl, cyclic⟩

end Cycles

end DataCollectionLab.Lib.Kahn
