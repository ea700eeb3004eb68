import Mathlib.Data.List.Sort

/-!
Reading a numbered stream in pages. Two streams that are each cut at a limit, merged and cut once
more give the page the whole merged stream would give, and the last number of a page resumes where
the page ends.
-/

namespace DataCollectionLab.Lib

variable {α : Type} (key : α → Nat)

def Ascending (l : List α) : Prop := l.Pairwise fun a b => key a < key b

def orderBy (l : List α) : List α := l.insertionSort fun a b => key a ≤ key b

def resumeAt (cursor : Nat) (page : List α) : Nat := (page.getLast?.map key).getD cursor

variable {key}

theorem Ascending.nodup {l : List α} (up : Ascending key l) : l.Nodup :=
  up.imp fun less same => by simp [same] at less

theorem Ascending.eq_of_mem_iff {l l' : List α} (up : Ascending key l) (up' : Ascending key l')
    (same : ∀ a, a ∈ l ↔ a ∈ l') : l = l' := by
  have perm : l.Perm l' := (List.perm_ext_iff_of_nodup up.nodup up'.nodup).mpr same
  refine perm.eq_of_pairwise ?_ up up'
  intro a b _ _ less more
  exact absurd (Nat.lt_trans less more) (Nat.lt_irrefl _)

theorem ascending_of_perm {r : α → α → Prop} {l s : List α} (perm : s.Perm l)
    (sorted : s.Pairwise r) (lower : ∀ a b, r a b → key a ≤ key b)
    (apart : l.Pairwise fun a b => key a ≠ key b) : Ascending key s := by
  have apart' : s.Pairwise fun a b => key a ≠ key b :=
    (perm.pairwise_iff fun {a b} differ => differ.symm).mpr apart
  exact (sorted.and apart').imp fun {a b} both => Nat.lt_of_le_of_ne (lower a b both.1) both.2

theorem mem_orderBy {l : List α} {a : α} : a ∈ orderBy key l ↔ a ∈ l :=
  List.mem_insertionSort _

theorem orderBy_ascending {l : List α} (apart : l.Pairwise fun a b => key a ≠ key b) :
    Ascending key (orderBy key l) := by
  have trans : IsTrans α fun a b => key a ≤ key b := ⟨fun _ _ _ => Nat.le_trans⟩
  have total : Std.Total fun a b : α => key a ≤ key b := ⟨fun _ _ => Nat.le_total _ _⟩
  exact ascending_of_perm (List.perm_insertionSort _ l) (List.pairwise_insertionSort _ l)
    (fun _ _ le => le) apart

theorem Ascending.lt_of_split {l : List α} (up : Ascending key l) (n : Nat) {a b : α}
    (front : a ∈ l.take n) (back : b ∈ l.drop n) : key a < key b := by
  unfold Ascending at up
  rw [← List.take_append_drop n l, List.pairwise_append] at up
  exact up.2.2 a front b back

theorem mem_take_of_mem_take {xs l : List α} {n m : Nat} (le : n ≤ m) (whole : Ascending key l)
    (part : Ascending key xs) (sub : ∀ a ∈ xs, a ∈ l) {a : α} (front : a ∈ l.take n)
    (mine : a ∈ xs) : a ∈ xs.take m := by
  by_contra later
  have back : a ∈ xs.drop m := by
    rw [← List.take_append_drop m xs, List.mem_append] at mine
    exact mine.resolve_left later
  -- The `m` elements of `xs` before `a` come before `a` in the merged stream as well.
  have before : ∀ x ∈ xs.take m ++ [a], x ∈ l.take n := by
    intro x member
    rcases List.mem_append.mp member with less | last
    · have present := sub x (List.mem_of_mem_take less)
      rw [← List.take_append_drop n l, List.mem_append] at present
      refine present.resolve_right fun beyond => ?_
      exact absurd (part.lt_of_split m less back)
        (Nat.not_lt.mpr (Nat.le_of_lt (whole.lt_of_split n front beyond)))
    · rw [List.mem_singleton.mp last]
      exact front
  have distinct : (xs.take m ++ [a]).Nodup := by
    rw [List.nodup_append]
    refine ⟨(List.take_sublist m xs).nodup part.nodup, List.nodup_singleton a, ?_⟩
    intro x less y last same
    rw [same, List.mem_singleton.mp last] at less
    exact later less
  have count := (List.subperm_of_subset distinct fun x => before x).length_le
  have long : m < xs.length := by
    by_contra short
    rw [List.drop_eq_nil_of_le (Nat.not_lt.mp short)] at back
    cases back
  rw [List.length_append, List.length_take, List.length_take, List.length_singleton] at count
  omega

theorem take_of_covers {s l : List α} {n : Nat} (part : Ascending key s) (whole : Ascending key l)
    (sub : ∀ a ∈ s, a ∈ l) (covers : ∀ a ∈ l.take n, a ∈ s) : s.take n = l.take n := by
  classical
  have split : s = l.take n ++ s.filter fun a => a ∈ l.drop n := by
    refine part.eq_of_mem_iff (List.pairwise_append.mpr ⟨?_, part.filter _, ?_⟩) ?_
    · exact whole.sublist (List.take_sublist n l)
    · intro a front b back
      exact whole.lt_of_split n front (by simpa using (List.mem_filter.mp back).2)
    · intro a
      simp only [List.mem_append, List.mem_filter, decide_eq_true_eq]
      constructor
      · intro member
        have present := sub a member
        rw [← List.take_append_drop n l, List.mem_append] at present
        exact present.imp_right fun beyond => ⟨member, beyond⟩
      · rintro (front | ⟨member, -⟩)
        · exact covers a front
        · exact member
  rw [split]
  rcases Nat.lt_or_ge l.length n with short | long
  · have none : (s.filter fun a => a ∈ l.drop n) = [] := by
      rw [List.drop_eq_nil_of_le (Nat.le_of_lt short)]
      simp
    rw [none, List.append_nil, List.take_take, Nat.min_self]
  · rw [List.take_append_of_le_length (by rw [List.length_take]; omega), List.take_take,
      Nat.min_self]

theorem take_merge {xs ys s l : List α} {n m : Nat} (le : n ≤ m) (left : Ascending key xs)
    (right : Ascending key ys) (cut : Ascending key s) (whole : Ascending key l)
    (memCut : ∀ a, a ∈ s ↔ a ∈ xs.take m ∨ a ∈ ys.take m)
    (memWhole : ∀ a, a ∈ l ↔ a ∈ xs ∨ a ∈ ys) : s.take n = l.take n := by
  refine take_of_covers cut whole ?_ ?_
  · intro a member
    refine (memWhole a).mpr (((memCut a).mp member).imp ?_ ?_)
    · exact List.mem_of_mem_take
    · exact List.mem_of_mem_take
  · intro a front
    refine (memCut a).mpr (((memWhole a).mp (List.mem_of_mem_take front)).imp ?_ ?_)
    · exact mem_take_of_mem_take le whole left (fun x mine => (memWhole x).mpr (Or.inl mine)) front
    · exact mem_take_of_mem_take le whole right (fun x mine => (memWhole x).mpr (Or.inr mine)) front

theorem lt_of_mem_take {l : List α} (up : Ascending key l) {n k : Nat}
    (enough : n ≤ (l.filter fun a => key a < k).length) {a : α} (front : a ∈ l.take n) :
    key a < k := by
  by_contra beyond
  have before : ∀ x ∈ l.filter (fun a => key a < k) ++ [a], x ∈ l.take n := by
    intro x member
    rcases List.mem_append.mp member with less | last
    · obtain ⟨present, below⟩ := List.mem_filter.mp less
      rw [decide_eq_true_eq] at below
      rw [← List.take_append_drop n l, List.mem_append] at present
      refine present.resolve_right fun back => ?_
      have := up.lt_of_split n front back
      omega
    · rw [List.mem_singleton.mp last]
      exact front
  have distinct : (l.filter (fun a => key a < k) ++ [a]).Nodup := by
    rw [List.nodup_append]
    refine ⟨up.nodup.filter _, List.nodup_singleton a, ?_⟩
    intro x less y last same
    rw [same, List.mem_singleton.mp last] at less
    exact beyond (by simpa using (List.mem_filter.mp less).2)
  have count := (List.subperm_of_subset distinct fun x => before x).length_le
  rw [List.length_append, List.length_singleton, List.length_take] at count
  omega

section Resume

variable {κ : Type} [LinearOrder κ] {rank : α → κ}

theorem lt_of_take_drop {l : List α} (up : l.Pairwise fun a b => rank a < rank b) (n : Nat) {a b : α}
    (front : a ∈ l.take n) (back : b ∈ l.drop n) : rank a < rank b := by
  rw [← List.take_append_drop n l, List.pairwise_append] at up
  exact up.2.2 a front b back

theorem filter_above_last (rank : α → κ) {l : List α} (up : l.Pairwise fun a b => rank a < rank b) {n : Nat} {b : α}
    (last : (l.take n).getLast? = some b) : l.filter (fun a => rank b < rank a) = l.drop n := by
  obtain ⟨front, ends⟩ := List.getLast?_eq_some_iff.mp last
  have sorted := up.sublist (List.take_sublist n l)
  rw [ends, List.pairwise_append] at sorted
  have behind : (l.take n).filter (fun a => rank b < rank a) = [] := by
    rw [List.filter_eq_nil_iff, ends]
    intro a member
    rw [decide_eq_true_eq, not_lt]
    rcases List.mem_append.mp member with early | late
    · exact le_of_lt (sorted.2.2 a early b List.mem_cons_self)
    · rw [List.mem_singleton.mp late]
  have ahead : (l.drop n).filter (fun a => rank b < rank a) = l.drop n := by
    rw [List.filter_eq_self]
    intro a member
    rw [decide_eq_true_eq]
    exact lt_of_take_drop up n (by rw [ends]; simp) member
  conv_lhs => rw [← List.take_append_drop n l]
  rw [List.filter_append, behind, ahead, List.nil_append]

end Resume

theorem filter_resumeAt {l : List α} (up : Ascending key l) {cursor : Nat}
    (above : ∀ a ∈ l, cursor < key a) (n : Nat) :
    l.filter (fun a => resumeAt key cursor (l.take n) < key a) = l.drop n := by
  cases last : (l.take n).getLast? with
  | none =>
    have empty := List.getLast?_eq_none_iff.mp last
    have all : l.drop n = l := by
      conv_rhs => rw [← List.take_append_drop n l, empty, List.nil_append]
    rw [all, List.filter_eq_self]
    intro a member
    simpa [resumeAt, last] using above a member
  | some b =>
    have stop : resumeAt key cursor (l.take n) = key b := by rw [resumeAt, last]; rfl
    rw [stop]
    exact filter_above_last key up last

end DataCollectionLab.Lib
