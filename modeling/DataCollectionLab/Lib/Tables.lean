import Mathlib.Data.List.Dedup
import Mathlib.Algebra.BigOperators.Group.List.Basic
import Mathlib.Algebra.Ring.Nat

/-! Queries over tables as lists of rows: joins, groups and counts. -/

namespace DataCollectionLab.Lib.Tables

variable {α β κ ν : Type}

def join (xs : List α) (ys : List β) (on : α → β → Bool) : List (α × β) :=
  xs.flatMap fun x => (ys.filter (on x)).map fun y => (x, y)

def leftRows (ys : List β) (on : α → β → Bool) (x : α) : List (α × Option β) :=
  match ys.filter (on x) with
  | [] => [(x, none)]
  | y :: more => (y :: more).map fun y => (x, some y)

def leftJoin (xs : List α) (ys : List β) (on : α → β → Bool) : List (α × Option β) := xs.flatMap (leftRows ys on)

def lateral (xs : List α) (query : α → List β) : List (α × Option β) := xs.map fun x => (x, (query x).head?)

section Groups

variable [DecidableEq κ]

def groupBy (key : α → κ) (rows : List α) : List (κ × List α) :=
  (rows.map key).dedup.map fun k => (k, rows.filter fun row => key row = k)

def countDistinct (column : α → Option κ) (rows : List α) : ℕ := (rows.filterMap column).dedup.length

theorem sum_ite_eq {keys : List κ} (distinct : keys.Nodup) (k : κ) :
    (keys.map fun k' => if k = k' then 1 else 0).sum = if k ∈ keys then 1 else 0 := by
  induction keys with
  | nil => rfl
  | cons k' keys ih =>
    obtain ⟨fresh, distinct⟩ := List.nodup_cons.mp distinct
    rw [List.map_cons, List.sum_cons, ih distinct]
    by_cases here : k = k'
    · subst here
      rw [if_pos rfl, if_neg fresh, if_pos List.mem_cons_self]
    · rw [if_neg here, Nat.zero_add]
      exact if_congr (by rw [List.mem_cons, or_iff_right here]) rfl rfl

theorem sum_countP_fibres (f : α → κ) (p : α → Bool) {keys : List κ} (distinct : keys.Nodup) (rows : List α) :
    (keys.map fun k => rows.countP fun row => p row && decide (f row = k)).sum =
      rows.countP fun row => p row && decide (f row ∈ keys) := by
  induction rows with
  | nil => simp
  | cons row rows ih =>
    simp only [List.countP_cons, List.sum_map_add, ih]
    congr 1
    cases p row with
    | false => simp
    | true => simpa using sum_ite_eq distinct (f row)

theorem sum_countP_groupBy (key : α → κ) (p : α → Bool) (rows : List α) :
    ((groupBy key rows).map fun group => group.2.countP p).sum = rows.countP p := by
  have fibres := sum_countP_fibres key p (rows.map key).nodup_dedup rows
  rw [groupBy, List.map_map]
  simp only [Function.comp_def, List.countP_filter]
  refine fibres.trans (List.countP_congr fun row member => ?_)
  simp [List.mem_map_of_mem member]

theorem dedup_block {k : κ} {block rest : List κ} (own : ∀ k' ∈ block, k' = k) (some : block ≠ []) (fresh : k ∉ rest) :
    (block ++ rest).dedup = k :: rest.dedup := by
  induction block with
  | nil => exact absurd rfl some
  | cons first block ih =>
    obtain rfl := own first List.mem_cons_self
    have later : ∀ k' ∈ block, k' = first := fun k' member => own k' (List.mem_cons_of_mem _ member)
    cases block with
    | nil => exact List.dedup_cons_of_notMem fresh
    | cons second block =>
      have again : first ∈ second :: block ++ rest := by
        obtain rfl := later second List.mem_cons_self
        exact List.mem_cons_self
      rw [List.cons_append, List.dedup_cons_of_mem again]
      exact ih later (List.cons_ne_nil _ _)

section Blocks

variable {key : α → κ} {rowsOf : β → List α} {keyOf : β → κ} {xs : List β}

theorem dedup_blocks (distinct : (xs.map keyOf).Nodup) (some : ∀ x ∈ xs, rowsOf x ≠ [])
    (own : ∀ x ∈ xs, ∀ row ∈ rowsOf x, key row = keyOf x) : ((xs.flatMap rowsOf).map key).dedup = xs.map keyOf := by
  induction xs with
  | nil => rfl
  | cons x xs ih =>
    obtain ⟨fresh, distinct⟩ := List.nodup_cons.mp distinct
    have later : ∀ x' ∈ xs, ∀ row ∈ rowsOf x', key row = keyOf x' :=
      fun x' member => own x' (List.mem_cons_of_mem _ member)
    rw [List.flatMap_cons, List.map_append, @dedup_block κ _ (keyOf x),
      ih distinct (fun x' member => some x' (List.mem_cons_of_mem _ member)) later, List.map_cons]
    · intro k member
      obtain ⟨row, inBlock, rfl⟩ := List.mem_map.mp member
      exact own x List.mem_cons_self row inBlock
    · intro empty
      exact some x List.mem_cons_self (List.map_eq_nil_iff.mp empty)
    · intro again
      obtain ⟨row, inRest, same⟩ := List.mem_map.mp again
      obtain ⟨x', member, inBlock⟩ := List.mem_flatMap.mp inRest
      exact fresh (List.mem_map.mpr ⟨x', member, (later x' member row inBlock).symm.trans same⟩)

theorem filter_blocks (distinct : (xs.map keyOf).Nodup) (own : ∀ x ∈ xs, ∀ row ∈ rowsOf x, key row = keyOf x) {x : β}
    (member : x ∈ xs) : ((xs.flatMap rowsOf).filter fun row => key row = keyOf x) = rowsOf x := by
  induction xs with
  | nil => cases member
  | cons first xs ih =>
    obtain ⟨fresh, distinct⟩ := List.nodup_cons.mp distinct
    have later : ∀ x' ∈ xs, ∀ row ∈ rowsOf x', key row = keyOf x' :=
      fun x' member => own x' (List.mem_cons_of_mem _ member)
    rw [List.flatMap_cons, List.filter_append]
    rcases List.mem_cons.mp member with rfl | after
    · have all : ((rowsOf x).filter fun row => key row = keyOf x) = rowsOf x := by
        apply List.filter_eq_self.mpr
        intro row inBlock
        exact decide_eq_true (own x List.mem_cons_self row inBlock)
      have none : ((xs.flatMap rowsOf).filter fun row => key row = keyOf x) = [] := by
        apply List.filter_eq_nil_iff.mpr
        intro row inRest same
        obtain ⟨x', member, inBlock⟩ := List.mem_flatMap.mp inRest
        exact fresh (List.mem_map.mpr ⟨x', member, (later x' member row inBlock).symm.trans (of_decide_eq_true same)⟩)
      rw [all, none, List.append_nil]
    · have none : ((rowsOf first).filter fun row => key row = keyOf x) = [] := by
        apply List.filter_eq_nil_iff.mpr
        intro row inBlock same
        have ofFirst := own first List.mem_cons_self row inBlock
        exact fresh (List.mem_map.mpr ⟨x, after, (of_decide_eq_true same).symm.trans ofFirst⟩)
      rw [none, List.nil_append]
      exact ih distinct later after

theorem groupBy_flatMap (distinct : (xs.map keyOf).Nodup) (some : ∀ x ∈ xs, rowsOf x ≠ [])
    (own : ∀ x ∈ xs, ∀ row ∈ rowsOf x, key row = keyOf x) :
    groupBy key (xs.flatMap rowsOf) = xs.map fun x => (keyOf x, rowsOf x) := by
  rw [groupBy, dedup_blocks distinct some own, List.map_map]
  apply List.map_congr_left
  intro x member
  exact congrArg _ (filter_blocks distinct own member)

end Blocks

theorem countDistinct_eq {column : α → Option κ} {rows : List α} {values : List κ} (distinct : values.Nodup)
    (same : ∀ value, (∃ row ∈ rows, column row = some value) ↔ value ∈ values) : countDistinct column rows = values.length := by
  refine ((List.perm_ext_iff_of_nodup (List.nodup_dedup _) distinct).mpr fun value => ?_).length_eq
  rw [List.mem_dedup, List.mem_filterMap]
  exact same value

end Groups

theorem leftRows_ne_nil (ys : List β) (on : α → β → Bool) (x : α) : leftRows ys on x ≠ [] := by
  unfold leftRows
  split
  · exact List.cons_ne_nil _ _
  · rw [List.map_cons]
    exact List.cons_ne_nil _ _

theorem mem_leftRows {ys : List β} {on : α → β → Bool} {x : α} {row : α × Option β} (member : row ∈ leftRows ys on x) :
    row.1 = x ∧ ∀ y, row.2 = some y → y ∈ ys ∧ on x y = true := by
  unfold leftRows at member
  split at member
  · obtain rfl := List.mem_singleton.mp member
    exact ⟨rfl, fun y none => nomatch none⟩
  · rename_i first more rows
    obtain ⟨y, listed, rfl⟩ := List.mem_map.mp member
    rw [← rows] at listed
    refine ⟨rfl, ?_⟩
    rintro _ ⟨⟩
    exact List.mem_filter.mp listed

theorem some_mem_leftRows {ys : List β} {on : α → β → Bool} {x : α} {y : β} (member : y ∈ ys) (met : on x y = true) :
    (x, some y) ∈ leftRows ys on x := by
  have listed : y ∈ ys.filter (on x) := List.mem_filter.mpr ⟨member, met⟩
  unfold leftRows
  split
  · rename_i empty
    rw [empty] at listed
    cases listed
  · rename_i rows
    rw [rows] at listed
    exact List.mem_map_of_mem listed

theorem countP_join (xs : List α) (ys : List β) (on : α → β → Bool) (p : α × β → Bool) :
    (join xs ys on).countP p = (xs.map fun x => ys.countP fun y => p (x, y) && on x y).sum := by
  induction xs with
  | nil => rfl
  | cons x xs ih =>
    have here : ((ys.filter (on x)).map fun y => (x, y)).countP p = ys.countP fun y => p (x, y) && on x y := by
      rw [List.countP_map, List.countP_filter]
      rfl
    rw [List.map_cons, List.sum_cons, ← ih, ← here]
    exact List.countP_append

theorem countP_eq_countP_and_iff {p q : α → Bool} {rows : List α} :
    rows.countP p = (rows.countP fun row => p row && q row) ↔ ∀ row ∈ rows, p row = true → q row = true := by
  have halves := List.countP_eq_countP_filter_add rows p q
  rw [List.countP_filter, List.countP_filter] at halves
  constructor
  · intro same row member passes
    rw [← same] at halves
    have none : (rows.countP fun row => p row && !q row) = 0 := by omega
    have fails := List.countP_eq_zero.mp none row member
    simpa [passes] using fails
  · intro implied
    apply List.countP_congr
    intro row member
    rw [Bool.and_eq_true]
    exact ⟨fun passes => ⟨passes, implied row member passes⟩, And.left⟩

theorem sum_map_filter {f : α → ℕ} {keep : α → Bool} {rows : List α} (dropped : ∀ row ∈ rows, keep row = false → f row = 0) :
    ((rows.filter keep).map f).sum = (rows.map f).sum := by
  induction rows with
  | nil => rfl
  | cons row rows ih =>
    have rest := ih fun row' member => dropped row' (List.mem_cons_of_mem _ member)
    rw [List.map_cons, List.sum_cons, ← rest]
    cases kept : keep row with
    | true => rw [List.filter_cons_of_pos kept, List.map_cons, List.sum_cons]
    | false => rw [List.filter_cons_of_neg (by simp [kept]), dropped row List.mem_cons_self kept, Nat.zero_add]

end DataCollectionLab.Lib.Tables
