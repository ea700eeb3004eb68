import Mathlib.Data.List.TakeWhile

/-! Texts as lists: what stands at some positions, the ends without blanks, and runs of blanks made one. -/

namespace DataCollectionLab.Lib

variable {α : Type}

def atPositions (keep : ℕ → Bool) (l : List α) : List α := (l.zipIdx.filter fun e => keep e.2).map Prod.fst

theorem atPositions_between (lo hi : ℕ) (l : List α) :
    atPositions (fun p => decide (lo ≤ p) && decide (p < hi)) l = (l.take hi).drop lo := by
  have shifted : ∀ n, ((l.zipIdx n).filter fun e => decide (lo ≤ e.2) && decide (e.2 < hi)).map Prod.fst =
      (l.take (hi - n)).drop (lo - n) := by
    induction l with
    | nil => simp
    | cons a l ih =>
      intro n
      rw [List.zipIdx_cons]
      by_cases below : n < hi
      · have front : hi - n = (hi - (n + 1)) + 1 := by omega
        by_cases above : lo ≤ n
        · have first : lo - n = 0 := by omega
          have next : lo - (n + 1) = 0 := by omega
          have later := ih (n + 1)
          rw [next, List.drop_zero] at later
          rw [List.filter_cons_of_pos (by simp [above, below]), List.map_cons, later, front, first, List.take_succ_cons,
            List.drop_zero]
        · have first : lo - n = (lo - (n + 1)) + 1 := by omega
          rw [List.filter_cons_of_neg (by simp [above]), ih, front, first, List.take_succ_cons, List.drop_succ_cons]
      · have first : hi - n = 0 := by omega
        have next : hi - (n + 1) = 0 := by omega
        rw [List.filter_cons_of_neg (by simp [below]), ih, first, next]
        simp
  exact shifted 0

theorem atPositions_from (lo : ℕ) (l : List α) : atPositions (fun p => decide (lo ≤ p)) l = l.drop lo := by
  have within : atPositions (fun p => decide (lo ≤ p)) l = atPositions (fun p => decide (lo ≤ p) && decide (p < l.length)) l := by
    unfold atPositions
    congr 1
    apply List.filter_congr
    intro e member
    have below := (List.mem_zipIdx member).2.1
    have inside : decide (e.2 < l.length) = true := decide_eq_true (by omega)
    dsimp only
    rw [inside, Bool.and_true]
  rw [within, atPositions_between, List.take_length]

section Blanks

variable {p q : α → Bool}

def trim (p : α → Bool) (l : List α) : List α := ((l.dropWhile p).reverse.dropWhile p).reverse

def Trimmed (p : α → Bool) (l : List α) : Prop := (∀ a ∈ l.head?, p a = false) ∧ ∀ a ∈ l.getLast?, p a = false

theorem head_dropWhile (l : List α) : ∀ a ∈ (l.dropWhile p).head?, p a = false := by
  intro a first
  have off := List.head?_dropWhile_not p l
  rw [Option.mem_def.mp first] at off
  simpa using off

theorem exists_trim (p : α → Bool) (l : List α) :
    ∃ before after, l = before ++ trim p l ++ after ∧ (∀ a ∈ before, p a = true) ∧ (∀ a ∈ after, p a = true) ∧
      Trimmed p (trim p l) := by
  let rest := l.dropWhile p
  have split : l.takeWhile p ++ rest = l := List.takeWhile_append_dropWhile
  have tail : rest.reverse.takeWhile p ++ rest.reverse.dropWhile p = rest.reverse := List.takeWhile_append_dropWhile
  have back : rest = trim p l ++ (rest.reverse.takeWhile p).reverse := by
    have flipped := congrArg List.reverse tail
    rw [List.reverse_append, List.reverse_reverse] at flipped
    exact flipped.symm
  refine ⟨l.takeWhile p, (rest.reverse.takeWhile p).reverse, ?_, fun a member => List.mem_takeWhile_imp member, ?_, ?_, ?_⟩
  · rw [List.append_assoc, ← back, split]
  · intro a member
    exact List.mem_takeWhile_imp (List.mem_reverse.mp member)
  · intro a first
    apply head_dropWhile l
    show a ∈ rest.head?
    rw [back, List.head?_append, Option.mem_def.mp first]
    rfl
  · intro a last
    apply head_dropWhile rest.reverse
    rw [← List.getLast?_reverse]
    exact last

theorem trim_append {before l after : List α} (trimmed : Trimmed p l) (front : ∀ a ∈ before, p a = true)
    (back : ∀ a ∈ after, p a = true) : trim p (before ++ l ++ after) = l := by
  cases l with
  | nil =>
    have all : ∀ a ∈ before ++ after, p a = true := by
      intro a member
      exact (List.mem_append.mp member).elim (front a) (back a)
    have none : (before ++ after).dropWhile p = [] := List.dropWhile_eq_nil_iff.mpr all
    unfold trim
    rw [List.append_nil, none]
    rfl
  | cons first rest =>
    have off : p first = false := trimmed.1 first rfl
    have start : (before ++ first :: rest ++ after).dropWhile p = first :: rest ++ after := by
      rw [List.append_assoc, List.dropWhile_append_of_pos front, List.cons_append, List.dropWhile_cons, if_neg (by simp [off])]
    obtain ⟨front', last, is⟩ : ∃ front' last, first :: rest = front' ++ [last] :=
      ⟨_, _, (List.dropLast_concat_getLast (List.cons_ne_nil first rest)).symm⟩
    have ends : p last = false := by
      apply trimmed.2
      rw [is, List.getLast?_append]
      rfl
    unfold trim
    rw [start, List.reverse_append, List.dropWhile_append_of_pos fun a member => back a (List.mem_reverse.mp member), is,
      List.reverse_append, List.reverse_singleton, List.singleton_append, List.dropWhile_cons, if_neg (by simp [ends]),
      List.reverse_cons, List.reverse_reverse]

theorem trimmed_trim (p : α → Bool) (l : List α) : Trimmed p (trim p l) := by
  obtain ⟨-, -, -, -, -, trimmed⟩ := exists_trim p l
  exact trimmed

def squeeze (p : α → Bool) (blank : α) : List α → List α
  | [] => []
  | a :: rest =>
    if p a then if (rest.head?.map p).getD false then squeeze p blank rest else blank :: squeeze p blank rest
    else a :: squeeze p blank rest

def Squeezed (p : α → Bool) (blank : α) : List α → Prop
  | [] => True
  | a :: rest => (p a = true → a = blank ∧ (rest.head?.map p).getD false = false) ∧ Squeezed p blank rest

theorem squeeze_length (blank : α) (l : List α) : (squeeze p blank l).length ≤ l.length := by
  induction l with
  | nil => exact le_refl _
  | cons a rest ih =>
    unfold squeeze
    split
    · split
      · exact ih.trans (Nat.le_succ _)
      · exact Nat.succ_le_succ ih
    · exact Nat.succ_le_succ ih

theorem squeeze_eq_iff {blank : α} {l : List α} : squeeze p blank l = l ↔ Squeezed p blank l := by
  induction l with
  | nil => exact iff_of_true rfl trivial
  | cons a rest ih =>
    unfold squeeze Squeezed
    by_cases held : p a = true
    · rw [if_pos held]
      by_cases next : (rest.head?.map p).getD false = true
      · rw [if_pos next]
        refine iff_of_false (fun same => ?_) fun both => ?_
        · have sizes := squeeze_length (p := p) blank rest
          rw [same, List.length_cons] at sizes
          omega
        · rw [(both.1 held).2] at next
          cases next
      · rw [if_neg next, List.cons.injEq, ih]
        exact and_congr ⟨fun same _ => ⟨same.symm, by simpa using next⟩, fun both => (both held).1.symm⟩ Iff.rfl
    · rw [if_neg held, List.cons.injEq, ih]
      exact and_congr ⟨fun _ on => absurd on held, fun _ => rfl⟩ Iff.rfl

theorem squeeze_head {blank a : α} {rest : List α} (off : p a = false) :
    (squeeze p blank (a :: rest)).head? = some a := by
  rw [squeeze, if_neg (by simp [off])]
  rfl

theorem squeeze_last {blank last : α} (front : List α) (off : p last = false) :
    (squeeze p blank (front ++ [last])).getLast? = some last := by
  induction front with
  | nil => simp [squeeze, off]
  | cons a front ih =>
    have some (b : α) : (b :: squeeze p blank (front ++ [last])).getLast? = Option.some last := by
      rw [List.getLast?_cons, ih]
      rfl
    rw [List.cons_append, squeeze]
    split
    · split
      · exact ih
      · exact some blank
    · exact some a

/-- Taking off more kinds of blanks is taking off fewer and making their runs one exactly where what is left has
neither another blank at its ends nor a run. -/
theorem trim_eq_squeeze_iff {blank : α} (wider : ∀ a, q a = true → p a = true) (l : List α) :
    trim p l = squeeze q blank (trim q l) ↔ Trimmed p (trim q l) ∧ Squeezed q blank (trim q l) := by
  obtain ⟨before, after, is, front, back, trimmed⟩ := exists_trim q l
  have whole (ends : Trimmed p (trim q l)) : trim p l = trim q l := by
    have cut := trim_append ends (fun a member => wider a (front a member)) fun a member => wider a (back a member)
    rwa [← is] at cut
  constructor
  · intro same
    have kept := trimmed_trim p l
    rw [same] at kept
    have ends : Trimmed p (trim q l) := by
      refine ⟨fun a first => ?_, fun a last => ?_⟩
      · obtain ⟨rest, shape⟩ := List.head?_eq_some_iff.mp first
        rw [shape] at kept
        exact kept.1 a (squeeze_head (trimmed.1 a first))
      · obtain ⟨front', shape⟩ := List.getLast?_eq_some_iff.mp last
        rw [shape] at kept
        exact kept.2 a (squeeze_last front' (trimmed.2 a last))
    refine ⟨ends, squeeze_eq_iff.mp ?_⟩
    rw [← same, whole ends]
  · rintro ⟨ends, squeezed⟩
    rw [whole ends, squeeze_eq_iff.mpr squeezed]

end Blanks

end DataCollectionLab.Lib
