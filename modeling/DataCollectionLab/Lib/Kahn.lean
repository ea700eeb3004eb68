import Mathlib.Data.List.Basic
import Mathlib.Data.List.Nodup
import Mathlib.Data.List.Perm.Subperm
import Mathlib.Data.Nat.Basic

/-!
Kahn's algorithm on nodes that are numbered, the lowest ready one first. A node comes after every node it
waits for.
-/

namespace DataCollectionLab.Lib.Kahn

variable (n : ℕ) (bases : ℕ → List ℕ)

def dependents (b : ℕ) : List ℕ := (List.range n).flatMap fun p => ((bases p).filter (· = b)).map fun _ => p

structure State where
  indegree : ℕ → ℕ
  ready : List ℕ
  result : List ℕ

def start : State where
  indegree := fun p => (bases p).length
  ready := (List.range n).filter fun p => (bases p).length = 0
  result := []

def release (s : State) (p : ℕ) : State :=
  let left := s.indegree p - 1
  { s with
    indegree := fun q => if q = p then left else s.indegree q
    ready := if left = 0 then s.ready ++ [p] else s.ready }

def next (s : State) : Option State :=
  s.ready.min?.map fun current =>
    (dependents n bases current).foldl release
      { s with ready := s.ready.erase current, result := s.result ++ [current] }

def loop : ℕ → State → State
  | 0, s => s
  | fuel + 1, s =>
    match next n bases s with
    | some s' => loop fuel s'
    | none => s

def order : List ℕ := (loop n bases n (start n bases)).result

def waiting (result : List ℕ) (p : ℕ) : List ℕ := (bases p).filter (· ∉ result)

def Sorted (result : List ℕ) : Prop :=
  ∀ before p after, result = before ++ p :: after → ∀ b ∈ bases p, b ∈ before

structure Inv (s : State) : Prop where
  counted : ∀ p < n, s.indegree p = (waiting bases s.result p).length
  ready : ∀ p ∈ s.ready, p < n ∧ s.indegree p = 0
  distinct : (s.ready ++ s.result).Nodup
  bounded : ∀ p ∈ s.result, p < n
  sorted : Sorted bases s.result

variable {n bases}

theorem inv_start : Inv n bases (start n bases) where
  counted := fun p _ => by simp [start, waiting]
  ready := fun p member => by simpa [start] using member
  distinct := by
    simp only [start, List.append_nil]
    exact List.Nodup.filter _ List.nodup_range
  bounded := by simp [start]
  sorted := fun before p after same => by simp [start] at same

theorem sorted_concat {result : List ℕ} {p : ℕ} (sorted : Sorted bases result) (done : ∀ b ∈ bases p, b ∈ result) :
    Sorted bases (result ++ [p]) := by
  intro before q after same b member
  rcases List.append_eq_append_iff.mp same with ⟨rest, split, tail⟩ | ⟨rest, split, tail⟩
  · cases rest with
    | nil =>
      simp only [List.append_nil] at split
      obtain rfl : q = p := by simpa using (List.cons.inj tail).1.symm
      rw [split]
      exact done b member
    | cons x rest => simp at tail
  · cases rest with
    | nil =>
      simp only [List.append_nil] at split
      obtain rfl : q = p := by simpa using (List.cons.inj tail).1
      rw [← split]
      exact done b member
    | cons x rest =>
      obtain ⟨rfl, -⟩ := List.cons.inj tail
      exact sorted before q rest split b member

theorem mem_dependents {b p : ℕ} : p ∈ dependents n bases b ↔ p < n ∧ b ∈ bases p := by
  simp only [dependents, List.mem_flatMap, List.mem_range, List.mem_map, List.mem_filter, decide_eq_true_eq]
  constructor
  · rintro ⟨q, below, x, ⟨member, rfl⟩, rfl⟩
    exact ⟨below, member⟩
  · rintro ⟨below, member⟩
    exact ⟨p, below, b, ⟨member, rfl⟩, rfl⟩

theorem count_dependents {b p : ℕ} (below : p < n) :
    (dependents n bases b).count p = ((bases p).filter (· = b)).length := by
  have each (m : ℕ) : ((List.range m).flatMap fun q => ((bases q).filter (· = b)).map fun _ => q).count p =
      if p < m then ((bases p).filter (· = b)).length else 0 := by
    induction m with
    | zero => simp
    | succ m ih =>
      rw [List.range_succ, List.flatMap_append, List.count_append, ih, List.flatMap_singleton, List.map_const']
      by_cases same : p = m
      · subst same
        simp
      · have other : (m == p) = false := by simpa using fun back => same back.symm
        have both : p < m + 1 ↔ p < m := by omega
        rw [List.count_replicate, other]
        simp [both]
  rw [dependents, each n, if_pos below]

theorem waiting_concat {result : List ℕ} {current : ℕ} (new : current ∉ result) (p : ℕ) :
    (waiting bases result p).length =
      (waiting bases (result ++ [current]) p).length + ((bases p).filter (· = current)).length := by
  unfold waiting
  induction bases p with
  | nil => rfl
  | cons b rest ih =>
    by_cases same : b = current
    · subst same
      simp only [List.filter_cons]
      simp [new] at ih ⊢
      omega
    · by_cases done : b ∈ result <;> simp [same, done] at ih ⊢ <;> omega

/-- The releases after one node: what is left to release, and what is waited for beside it. -/
structure Releasing (n : ℕ) (bases : ℕ → List ℕ) (result rest : List ℕ) (s : State) : Prop where
  kept : s.result = result
  counted : ∀ p < n, s.indegree p = (waiting bases result p).length + rest.count p
  ready : ∀ p ∈ s.ready, p < n ∧ s.indegree p = 0
  distinct : (s.ready ++ result).Nodup

theorem releasing_foldl {result rest : List ℕ} {s : State} (is : Releasing n bases result rest s)
    (within : ∀ d ∈ rest, d < n ∧ d ∉ result) : Releasing n bases result [] (rest.foldl release s) := by
  induction rest generalizing s with
  | nil => exact is
  | cons d rest ih =>
    obtain ⟨below, new⟩ := within d List.mem_cons_self
    have positive : s.indegree d = (waiting bases result d).length + (rest.count d + 1) := by
      rw [is.counted d below, List.count_cons_self]
    have unready : d ∉ s.ready := by
      intro member
      have none := (is.ready d member).2
      omega
    refine ih ?_ fun x member => within x (List.mem_cons_of_mem _ member)
    refine ⟨is.kept, ?_, ?_, ?_⟩
    · intro p small
      by_cases same : p = d
      · subst same
        simp only [release, if_true]
        omega
      · simp only [release, if_neg same]
        rw [is.counted p small, List.count_cons_of_ne fun back => same back.symm]
    · intro p member
      by_cases same : p = d
      · subst same
        simp only [release, if_true] at member ⊢
        split at member
        · exact ⟨below, by assumption⟩
        · exact absurd member unready
      · have old : p ∈ s.ready := by
          simp only [release] at member
          split at member
          · simpa [same] using member
          · exact member
        simpa only [release, if_neg same] using is.ready p old
    · simp only [release]
      split
      · rw [List.append_assoc]
        have fresh : d ∉ s.ready ++ result := by simp [unready, new]
        exact List.nodup_middle.mpr (List.nodup_cons.mpr ⟨fresh, is.distinct⟩)
      · exact is.distinct

theorem inv_next {s s' : State} (inv : Inv n bases s) (is : next n bases s = some s') : Inv n bases s' := by
  obtain ⟨current, least, rfl⟩ := Option.map_eq_some_iff.mp is
  have member : current ∈ s.ready := List.min?_mem least
  obtain ⟨below, none⟩ := inv.ready current member
  have apart := List.nodup_append.mp inv.distinct
  have new : current ∉ s.result := fun done => apart.2.2 current member current done rfl
  have released (b : ℕ) (base : b ∈ bases current) : b ∈ s.result := by
    by_contra undone
    have empty := inv.counted current below
    rw [none] at empty
    have waits : b ∈ waiting bases s.result current := by simp [waiting, base, undone]
    rw [List.length_eq_zero_iff.mp empty.symm] at waits
    exact absurd waits List.not_mem_nil
  have first : Releasing n bases (s.result ++ [current]) (dependents n bases current)
      { s with ready := s.ready.erase current, result := s.result ++ [current] } := by
    refine ⟨rfl, ?_, ?_, ?_⟩
    · intro p small
      rw [count_dependents small, ← waiting_concat new]
      exact inv.counted p small
    · intro p within
      exact inv.ready p (List.mem_of_mem_erase within)
    · have shrunk : (s.ready.erase current ++ s.result).Nodup :=
        inv.distinct.sublist (List.Sublist.append_right List.erase_sublist _)
      have gone : current ∉ s.ready.erase current ++ s.result := by
        simp [new, List.Nodup.not_mem_erase apart.1]
      rw [← List.append_assoc]
      exact (List.nodup_append_comm.mp (List.nodup_cons.mpr ⟨gone, shrunk⟩))
  have within (d : ℕ) (depends : d ∈ dependents n bases current) : d < n ∧ d ∉ s.result ++ [current] := by
    obtain ⟨small, base⟩ := mem_dependents.mp depends
    refine ⟨small, fun done => ?_⟩
    rcases List.mem_append.mp done with earlier | last
    · obtain ⟨before, after, split⟩ := List.append_of_mem earlier
      have sooner := inv.sorted before d after split current base
      exact new (split ▸ List.mem_append_left _ sooner)
    · obtain rfl := List.mem_singleton.mp last
      exact new (released d base)
  have last := releasing_foldl first within
  refine ⟨?_, last.ready, ?_, ?_, ?_⟩
  · intro p small
    rw [last.counted p small, last.kept]
    simp
  · rw [last.kept]
    exact last.distinct
  · rw [last.kept]
    intro p done
    rcases List.mem_append.mp done with earlier | last
    · exact inv.bounded p earlier
    · obtain rfl := List.mem_singleton.mp last
      exact below
  · rw [last.kept]
    exact sorted_concat inv.sorted released

theorem inv_loop {s : State} (inv : Inv n bases s) (fuel : ℕ) : Inv n bases (loop n bases fuel s) := by
  induction fuel generalizing s with
  | zero => exact inv
  | succ fuel ih =>
    unfold loop
    split
    · rename_i s' is
      exact ih (inv_next inv is)
    · exact inv

theorem order_sorted : Sorted bases (order n bases) := (inv_loop inv_start n).sorted

theorem order_nodup : (order n bases).Nodup := (List.nodup_append.mp (inv_loop inv_start n).distinct).2.1

theorem order_bounded {p : ℕ} (member : p ∈ order n bases) : p < n := (inv_loop inv_start n).bounded p member

theorem result_next {s s' : State} (is : next n bases s = some s') :
    s'.result.length = s.result.length + 1 := by
  obtain ⟨current, least, rfl⟩ := Option.map_eq_some_iff.mp is
  have kept (rest : List ℕ) (t : State) : (rest.foldl release t).result = t.result := by
    induction rest generalizing t with
    | nil => rfl
    | cons d rest ih => exact ih _
  rw [kept]
  simp

theorem loop_length {s : State} (inv : Inv n bases s) (fuel : ℕ) :
    next n bases (loop n bases fuel s) = none ∨
      (loop n bases fuel s).result.length = s.result.length + fuel := by
  induction fuel generalizing s with
  | zero => exact Or.inr rfl
  | succ fuel ih =>
    unfold loop
    split
    · rename_i s' is
      have step := result_next is
      rcases ih (inv_next inv is) with none | length
      · exact Or.inl none
      · exact Or.inr (by rw [length, step]; omega)
    · rename_i is
      exact Or.inl is

theorem loop_done : next n bases (loop n bases n (start n bases)) = none := by
  have inv := @inv_loop n bases _ inv_start n
  rcases @loop_length n bases _ inv_start n with none | length
  · exact none
  · have within : (loop n bases n (start n bases)).ready ++ (loop n bases n (start n bases)).result ⊆ List.range n := by
      intro p member
      rcases List.mem_append.mp member with ready | done
      · exact List.mem_range.mpr (inv.ready p ready).1
      · exact List.mem_range.mpr (inv.bounded p done)
    have size := (List.subperm_of_subset inv.distinct within).length_le
    rw [List.length_append, length, List.length_range] at size
    have empty : (loop n bases n (start n bases)).ready = [] := by
      apply List.length_eq_zero_iff.mp
      omega
    simp [next, empty]

theorem mem_order (complete : (order n bases).length = n) {p : ℕ} (below : p < n) : p ∈ order n bases := by
  have within : order n bases ⊆ List.range n := fun p member => List.mem_range.mpr (order_bounded member)
  have sub := List.subperm_of_subset order_nodup within
  have perm := sub.perm_of_length_le (by rw [List.length_range, complete])
  exact perm.mem_iff.mpr (List.mem_range.mpr below)

end DataCollectionLab.Lib.Kahn
