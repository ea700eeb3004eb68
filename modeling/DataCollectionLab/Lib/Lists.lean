import Mathlib.Data.List.Induction
import Mathlib.Data.List.Sort

/-! First occurrences in a list, and what holds between an element and those before it. -/

namespace DataCollectionLab.Lib

variable {α κ : Type}

/-- The first element of `l` for each key, in order. -/
def firstBy [DecidableEq κ] (key : α → κ) : List α → List α
  | [] => []
  | a :: l => a :: (firstBy key l).filter fun b => key b ≠ key a

theorem firstBy_subset [DecidableEq κ] {key : α → κ} {l : List α} {a : α}
    (member : a ∈ firstBy key l) : a ∈ l := by
  induction l with
  | nil => cases member
  | cons b l ih =>
    rcases List.mem_cons.mp member with rfl | member
    · exact List.mem_cons_self
    · exact List.mem_cons_of_mem _ (ih (List.mem_filter.mp member).1)

theorem exists_firstBy [DecidableEq κ] (key : α → κ) {l : List α} {a : α} (member : a ∈ l) :
    ∃ b ∈ firstBy key l, key b = key a := by
  induction l with
  | nil => cases member
  | cons b l ih =>
    by_cases same : key b = key a
    · exact ⟨b, List.mem_cons_self, same⟩
    · rcases List.mem_cons.mp member with rfl | member
      · exact absurd rfl same
      · obtain ⟨first, present, equal⟩ := ih member
        refine ⟨first, List.mem_cons_of_mem _ (List.mem_filter.mpr ⟨present, ?_⟩), equal⟩
        simpa [equal] using fun eq => same eq.symm

theorem firstBy_keys_nodup [DecidableEq κ] (key : α → κ) (l : List α) :
    ((firstBy key l).map key).Nodup := by
  induction l with
  | nil => exact List.nodup_nil
  | cons a l ih =>
    rw [firstBy, List.map_cons, List.nodup_cons]
    refine ⟨?_, (List.filter_sublist.map key).nodup ih⟩
    intro repeated
    obtain ⟨b, member, same⟩ := List.mem_map.mp repeated
    simpa [same] using (List.mem_filter.mp member).2

theorem exists_first {P : α → Prop} {l : List α} (some : ∃ a ∈ l, P a) :
    ∃ before a after, l = before ++ a :: after ∧ P a ∧ ∀ b ∈ before, ¬ P b := by
  classical
  obtain ⟨a, member, holds⟩ := some
  have found : (l.find? fun b => decide (P b)).isSome = true :=
    List.find?_isSome.mpr ⟨a, member, by simpa using holds⟩
  obtain ⟨first, isFirst⟩ := Option.isSome_iff_exists.mp found
  obtain ⟨holds, before, after, split, none⟩ := List.find?_eq_some_iff_append.mp isFirst
  exact ⟨before, first, after, split, by simpa using holds,
    fun b present => by simpa using none b present⟩

theorem pairwise_of_splits {R : α → α → Prop} {l : List α}
    (related : ∀ before a after, l = before ++ a :: after → ∀ b ∈ before, R b a) :
    l.Pairwise R := by
  induction l using List.reverseRecOn with
  | nil => exact .nil
  | append_singleton l a ih =>
    refine List.pairwise_append.mpr ⟨ih ?_, List.pairwise_singleton _ _, ?_⟩
    · rintro before b after rfl c member
      exact related before b (after ++ [a]) (by simp) c member
    · intro b member last final
      obtain rfl := List.mem_singleton.mp final
      exact related l last [] rfl b member

theorem insertionSort_eq_of_mem_iff (r : α → α → Prop) [DecidableRel r] [IsTrans α r] [Std.Total r]
    {l l' : List α} (distinct : l.Nodup) (distinct' : l'.Nodup)
    (apart : ∀ a b, a ∈ l → b ∈ l' → r a b → r b a → a = b) (same : ∀ a, a ∈ l ↔ a ∈ l') :
    l.insertionSort r = l'.insertionSort r := by
  have perm : l.Perm l' := (List.perm_ext_iff_of_nodup distinct distinct').mpr same
  have sorted : (l.insertionSort r).Perm (l'.insertionSort r) :=
    (List.perm_insertionSort r l).trans (perm.trans (List.perm_insertionSort r l').symm)
  refine sorted.eq_of_pairwise ?_ (List.pairwise_insertionSort r l) (List.pairwise_insertionSort r l')
  intro a b left right
  exact apart a b ((List.mem_insertionSort r).mp left) ((List.mem_insertionSort r).mp right)

theorem countP_lt_countP {p q : α → Bool} {l : List α} {a : α}
    (weaker : ∀ b ∈ l, p b = true → q b = true) (member : a ∈ l) (fails : p a = false)
    (passes : q a = true) : l.countP p < l.countP q := by
  obtain ⟨before, after, rfl⟩ := List.append_of_mem member
  have front : before.countP p ≤ before.countP q :=
    List.countP_mono_left fun b present => weaker b (by simp [present])
  have back : after.countP p ≤ after.countP q :=
    List.countP_mono_left fun b present => weaker b (by simp [present])
  simp only [List.countP_append, List.countP_cons, fails, passes]
  simp
  omega

section Filter

variable {r : α → α → Prop} [DecidableRel r] [IsTrans α r]

theorem filter_orderedInsert {p : α → Bool} {a : α} {l : List α} (sorted : l.Pairwise r) :
    (l.orderedInsert r a).filter p =
      if p a then (l.filter p).orderedInsert r a else l.filter p := by
  induction l with
  | nil => cases kept : p a <;> simp [kept]
  | cons b l ih =>
    obtain ⟨below, sorted⟩ := List.pairwise_cons.mp sorted
    have ih := ih sorted
    rw [List.orderedInsert_cons]
    split
    · rename_i first
      cases kept : p a with
      | false => simp [kept]
      | true =>
        have head : ∀ l' : List α, (∀ c ∈ l', r a c) → l'.orderedInsert r a = a :: l' := by
          intro l' above
          cases l' with
          | nil => rfl
          | cons c l' => rw [List.orderedInsert_cons, if_pos (above c (by simp))]
        rw [List.filter_cons_of_pos kept, if_pos rfl, head]
        intro c member
        rcases List.mem_cons.mp (List.mem_filter.mp member).1 with rfl | later
        · exact first
        · exact IsTrans.trans a b c first (below c later)
    · rename_i after
      cases kept : p b <;> cases kept' : p a <;>
        simp [kept, kept', ih, List.orderedInsert_cons, after]

theorem filter_insertionSort [Std.Total r] (p : α → Bool) (l : List α) :
    (l.insertionSort r).filter p = (l.filter p).insertionSort r := by
  induction l with
  | nil => rfl
  | cons a l ih =>
    rw [List.insertionSort_cons, filter_orderedInsert (List.pairwise_insertionSort r l), ih]
    cases kept : p a <;> simp [kept]

end Filter

theorem getLast?_filterMap_sorted {β : Type} {r : α → α → Prop} {f : α → Option β} {l : List α}
    (sorted : l.Pairwise r) (refl : ∀ a, r a a) {b : β} (last : (l.filterMap f).getLast? = some b) :
    ∃ a ∈ l, f a = some b ∧ ∀ a' ∈ l, (f a').isSome = true → r a' a := by
  induction l using List.reverseRecOn with
  | nil => cases last
  | append_singleton l a ih =>
    obtain ⟨front, -, below⟩ := List.pairwise_append.mp sorted
    rw [List.filterMap_append] at last
    cases yields : f a with
    | some c =>
      simp only [List.filterMap_cons, yields, List.filterMap_nil, List.getLast?_concat,
        Option.some_inj] at last
      subst last
      refine ⟨a, by simp, yields, fun a' member _ => ?_⟩
      rcases List.mem_append.mp member with old | new
      · exact below a' old a List.mem_cons_self
      · rw [List.mem_singleton.mp new]
        exact refl a
    | none =>
      simp only [List.filterMap_cons, yields, List.filterMap_nil, List.append_nil] at last
      obtain ⟨top, member, said, above⟩ := ih front last
      refine ⟨top, List.mem_append_left _ member, said, fun a' member' some => ?_⟩
      rcases List.mem_append.mp member' with old | new
      · exact above a' old some
      · rw [List.mem_singleton.mp new, yields] at some
        cases some

theorem mapM_eq_some_iff {β : Type} {f : α → Option β} {l : List α} {r : List β} :
    l.mapM f = some r ↔ l.map f = r.map some := by
  induction l generalizing r with
  | nil => cases r <;> simp
  | cons a l ih =>
    rw [List.mapM_cons, List.map_cons]
    cases first : f a with
    | none =>
      cases r <;> simp
    | some b =>
      cases r with
      | nil => cases rest : l.mapM f <;> simp
      | cons b' r =>
        have tail := @ih r
        cases rest : l.mapM f with
        | none =>
          rw [rest] at tail
          simpa using fun _ => tail.not.mp (by simp)
        | some r' =>
          rw [rest] at tail
          simp only [Option.some_inj] at tail
          simp [← tail]

theorem append_cons_inj {l l' d d' : List α} {mark : α} (left : mark ∉ d) (right : mark ∉ d')
    (same : l ++ mark :: d = l' ++ mark :: d') : l = l' ∧ d = d' := by
  rcases List.append_eq_append_iff.mp same with ⟨rest, whole, cut⟩ | ⟨rest, whole, cut⟩
  · cases rest with
    | nil =>
      simp only [List.nil_append, List.cons.injEq, true_and] at cut
      exact ⟨by rw [whole, List.append_nil], cut⟩
    | cons a rest =>
      simp only [List.cons_append, List.cons.injEq] at cut
      exact absurd (by rw [cut.2]; simp) left
  · cases rest with
    | nil =>
      simp only [List.nil_append, List.cons.injEq, true_and] at cut
      exact ⟨by rw [whole, List.append_nil], cut.symm⟩
    | cons a rest =>
      simp only [List.cons_append, List.cons.injEq] at cut
      exact absurd (by rw [cut.2]; simp) right

theorem append_cons_eq_iff {l l' d d' : List α} {mark : α} :
    l ++ mark :: d = l' ++ mark :: d' ↔ (l = l' ∧ d = d') ∨ (∃ w, l' = l ++ mark :: w ∧ d = w ++ mark :: d') ∨
      ∃ w, l = l' ++ mark :: w ∧ d' = w ++ mark :: d := by
  constructor
  · intro same
    rcases List.append_eq_append_iff.mp same with ⟨w, longer, rest⟩ | ⟨w, longer, rest⟩
    · cases w with
      | nil =>
        rw [List.append_nil] at longer
        exact .inl ⟨longer.symm, (List.cons.inj rest).2⟩
      | cons c w =>
        obtain ⟨rfl, tail⟩ := List.cons.inj rest
        exact .inr (.inl ⟨w, longer, tail⟩)
    · cases w with
      | nil =>
        rw [List.append_nil] at longer
        exact .inl ⟨longer, (List.cons.inj rest).2.symm⟩
      | cons c w =>
        obtain ⟨rfl, tail⟩ := List.cons.inj rest
        exact .inr (.inr ⟨w, longer, tail⟩)
  · rintro (⟨rfl, rfl⟩ | ⟨w, rfl, rfl⟩ | ⟨w, rfl, rfl⟩)
    · rfl
    · simp
    · simp

theorem mapM_congr {β : Type} {f g : α → Option β} {l : List α} (same : ∀ a ∈ l, f a = g a) :
    l.mapM f = l.mapM g := by
  apply Option.ext
  intro r
  rw [mapM_eq_some_iff, mapM_eq_some_iff, List.map_congr_left same]

theorem forall₂_filter {β : Type} {R : α → β → Prop} {p : α → Bool} {q : β → Bool}
    (same : ∀ a b, R a b → p a = q b) {l : List α} {l' : List β} (related : List.Forall₂ R l l') :
    List.Forall₂ R (l.filter p) (l'.filter q) := by
  induction related with
  | nil => exact .nil
  | @cons a b l l' here _ ih =>
    rw [List.filter_cons, List.filter_cons, same a b here]
    split
    · exact .cons here ih
    · exact ih

theorem forall₂_of_keys {β γ : Type} {R : α → β → Prop} {f : α → γ} {g : β → γ} {l : List α} {l' : List β}
    (same : l.map f = l'.map g) (related : ∀ a ∈ l, ∀ b ∈ l', f a = g b → R a b) : List.Forall₂ R l l' := by
  induction l generalizing l' with
  | nil =>
    rw [List.map_nil, eq_comm, List.map_eq_nil_iff] at same
    rw [same]
    exact .nil
  | cons a l ih =>
    cases l' with
    | nil => cases same
    | cons b l' =>
      rw [List.map_cons, List.map_cons] at same
      obtain ⟨here, later⟩ := List.cons.inj same
      refine .cons (related a List.mem_cons_self b List.mem_cons_self here) (ih later ?_)
      exact fun x member y member' => related x (List.mem_cons_of_mem a member) y (List.mem_cons_of_mem b member')

theorem forall₂_getElem? {β : Type} {R : α → β → Prop} {l : List α} {l' : List β} (related : List.Forall₂ R l l')
    {i : ℕ} {a : α} (at_ : l[i]? = some a) : ∃ b, l'[i]? = some b ∧ R a b := by
  induction related generalizing i with
  | nil => cases at_
  | cons here _ ih =>
    cases i with
    | zero =>
      obtain rfl := Option.some.inj at_
      exact ⟨_, rfl, here⟩
    | succ i => exact ih at_

theorem exists_of_forall₂_left {β : Type} {R : α → β → Prop} {l : List α} {l' : List β}
    (related : List.Forall₂ R l l') {a : α} (member : a ∈ l) : ∃ b ∈ l', R a b := by
  obtain ⟨i, at_⟩ := List.mem_iff_getElem?.mp member
  obtain ⟨b, at', here⟩ := forall₂_getElem? related at_
  exact ⟨b, List.mem_of_getElem? at', here⟩

theorem exists_of_forall₂_right {β : Type} {R : α → β → Prop} {l : List α} {l' : List β}
    (related : List.Forall₂ R l l') {b : β} (member : b ∈ l') : ∃ a ∈ l, R a b :=
  @exists_of_forall₂_left _ _ (flip R) _ _ related.flip _ member

theorem forall₂_comp {β γ : Type} {R : α → β → Prop} {S : β → γ → Prop} {T : α → γ → Prop} {l : List α} {l' : List β}
    {l'' : List γ} (first : List.Forall₂ R l l') (second : List.Forall₂ S l' l'')
    (step : ∀ b ∈ l', ∀ a c, R a b → S b c → T a c) : List.Forall₂ T l l'' := by
  induction first generalizing l'' with
  | nil =>
    cases second
    exact .nil
  | @cons a b _ _ here _ ih =>
    cases second with
    | cons next rest =>
      exact .cons (step b List.mem_cons_self _ _ here next)
        (ih rest fun b' member => step b' (List.mem_cons_of_mem b member))

theorem forall₂_map_eq {β γ : Type} {f : α → γ} {g : β → γ} {l : List α} {l' : List β} :
    List.Forall₂ (fun a b => f a = g b) l l' ↔ l.map f = l'.map g := by
  rw [← List.forall₂_map_right_iff (R := fun a c => f a = c), ← List.forall₂_map_left_iff (R := Eq), List.forall₂_eq_eq_eq]

theorem forall₂_and {β : Type} {R S : α → β → Prop} {l : List α} {l' : List β} :
    List.Forall₂ (fun a b => R a b ∧ S a b) l l' ↔ List.Forall₂ R l l' ∧ List.Forall₂ S l l' := by
  constructor
  · exact fun both => ⟨both.imp fun _ _ one => one.1, both.imp fun _ _ one => one.2⟩
  · rintro ⟨left, right⟩
    induction left with
    | nil => exact .nil
    | cons here _ ih =>
      cases right with
      | cons there rest => exact .cons ⟨here, there⟩ (ih rest)

theorem forall₂_find?_zip {β : Type} {R : α → β → Prop} {l : List α} {l' : List β} (related : List.Forall₂ R l l')
    {p : α → Bool} (listed : ∃ a ∈ l, p a = true) :
    ∃ a b, (l.zip l').find? (fun entry => p entry.1) = some (a, b) ∧ a ∈ l ∧ p a = true ∧ R a b := by
  induction related with
  | nil =>
    obtain ⟨a, member, -⟩ := listed
    cases member
  | @cons a b l l' here _ ih =>
    rw [List.zip_cons_cons, List.find?_cons]
    cases matches_ : p a with
    | true => exact ⟨a, b, by simp, List.mem_cons_self, matches_, here⟩
    | false =>
      obtain ⟨c, member, holds⟩ := listed
      rcases List.mem_cons.mp member with rfl | later
      · rw [matches_] at holds
        cases holds
      · obtain ⟨x, y, found, inside, rest⟩ := ih ⟨c, later, holds⟩
        exact ⟨x, y, by simpa [matches_] using found, List.mem_cons_of_mem _ inside, rest⟩

section Lookup

variable {ν : Type} [BEq κ] [LawfulBEq κ] {l : List (κ × ν)} {k : κ} {v : ν}

theorem mem_of_lookup (found : l.lookup k = some v) : (k, v) ∈ l := by
  obtain ⟨front, back, rfl, -⟩ := List.lookup_eq_some_iff.mp found
  exact List.mem_append_right _ List.mem_cons_self

theorem lookup_of_mem (distinct : (l.map Prod.fst).Nodup) (member : (k, v) ∈ l) : l.lookup k = some v := by
  obtain ⟨front, back, rfl⟩ := List.append_of_mem member
  refine List.lookup_eq_some_iff.mpr ⟨front, back, rfl, fun entry earlier => ?_⟩
  rw [List.map_append, List.map_cons] at distinct
  refine bne_iff_ne.mpr fun same => ?_
  exact List.disjoint_of_nodup_append distinct (List.mem_map_of_mem earlier) (same ▸ List.mem_cons_self)

end Lookup

theorem filter_map_of_fixed {α : Type*} {f : α → α} {keep : α → Bool} (sees : ∀ a, keep (f a) = keep a)
    (fixed : ∀ a, keep a = true → f a = a) (l : List α) : (l.map f).filter keep = l.filter keep := by
  rw [List.filter_map]
  have same : keep ∘ f = keep := funext sees
  rw [same]
  calc (l.filter keep).map f = (l.filter keep).map id :=
        List.map_congr_left fun a member => fixed a (List.mem_filter.mp member).2
    _ = l.filter keep := List.map_id _

theorem flatMap_eq_range {β : Type} {l : List α} {g : α → List β} {h : ℕ → List β}
    (same : ∀ p a, l[p]? = some a → g a = h p) : l.flatMap g = (List.range l.length).flatMap h := by
  induction l using List.reverseRecOn with
  | nil => rfl
  | append_singleton l a ih =>
    rw [List.length_append, List.length_singleton, List.range_succ, List.flatMap_append, List.flatMap_append,
      List.flatMap_singleton, List.flatMap_singleton, same l.length a (by simp), ih fun p b found => ?_]
    exact same p b (List.getElem?_append_left (List.getElem?_eq_some_iff.mp found).1 ▸ found)

theorem length_filter_mem {β : Type} [DecidableEq β] {f : α → List β} {l : List α} (distinct : (l.flatMap f).Nodup)
    (b : β) : (l.filter fun a => b ∈ f a).length = if b ∈ l.flatMap f then 1 else 0 := by
  induction l with
  | nil => rfl
  | cons a rest ih =>
    rw [List.flatMap_cons] at distinct ⊢
    obtain ⟨-, others, apart⟩ := List.nodup_append.mp distinct
    have ih := ih others
    by_cases here : b ∈ f a
    · have elsewhere : b ∉ rest.flatMap f := fun again => apart b here b again rfl
      rw [if_neg elsewhere] at ih
      simp [here, ih]
    · simpa [here] using ih

end DataCollectionLab.Lib
