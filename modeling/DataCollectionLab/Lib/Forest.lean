import Mathlib.Data.List.Basic
import Mathlib.Data.List.Nodup
import Mathlib.Data.List.Perm.Basic
import Mathlib.Algebra.Order.Group.Multiset
import Mathlib.Tactic.Abel

/-! Trees of two kinds of nodes, and the edit of one node of a forest. -/

namespace DataCollectionLab.Lib.Forest

variable {α β κ : Type}

inductive Tree (α β : Type) where
  | leaf (a : α)
  | branch (b : β) (children : List (Tree α β))

namespace Tree

def children : Tree α β → List (Tree α β)
  | .leaf _ => []
  | .branch _ children => children

def head : Tree α β → α ⊕ β
  | .leaf a => .inl a
  | .branch b _ => .inr b

end Tree

theorem forest_induction {P : List (Tree α β) → Prop} (nil : P [])
    (cons : ∀ t ts, P t.children → P ts → P (t :: ts)) (ts : List (Tree α β)) : P ts := by
  induction ts with
  | nil => exact nil
  | cons t ts ih =>
    refine cons t ts ?_ ih
    induction t using Tree.rec (motive_2 := P) with
    | leaf a => exact nil
    | branch b children all => exact all
    | nil => exact nil
    | cons t ts inside rest => exact cons t ts inside rest

theorem eq_singleton {α : Type} {l : List α} (distinct : l.Nodup) {a : α} (member : a ∈ l) (only : ∀ b ∈ l, b = a) :
    l = [a] := by
  refine List.perm_singleton.mp ((List.perm_ext_iff_of_nodup distinct (List.nodup_singleton a)).mpr fun b => ?_)
  rw [List.mem_singleton]
  exact ⟨only b, fun same => same ▸ member⟩

mutual

def nodes : Tree α β → List (Tree α β)
  | .leaf a => [.leaf a]
  | .branch b children => .branch b children :: nodesOf children

def nodesOf : List (Tree α β) → List (Tree α β)
  | [] => []
  | t :: ts => nodes t ++ nodesOf ts

end

theorem nodes_eq (t : Tree α β) : nodes t = t :: nodesOf t.children := by
  cases t with
  | leaf a => rfl
  | branch b children => rfl

theorem nodesOf_cons (t : Tree α β) (ts : List (Tree α β)) :
    nodesOf (t :: ts) = t :: (nodesOf t.children ++ nodesOf ts) := by
  rw [nodesOf, nodes_eq]
  rfl

theorem nodesOf_append (ts us : List (Tree α β)) : nodesOf (ts ++ us) = nodesOf ts ++ nodesOf us := by
  induction ts with
  | nil => rfl
  | cons t ts ih => rw [List.cons_append, nodesOf, nodesOf, ih, List.append_assoc]

theorem mem_nodesOf_iff {ts : List (Tree α β)} {t : Tree α β} : t ∈ nodesOf ts ↔ ∃ u ∈ ts, t ∈ nodes u := by
  induction ts with
  | nil => simp [nodesOf]
  | cons u us ih =>
    rw [nodesOf, List.mem_append, ih]
    simp

theorem nodesOf_children_sublist {ts : List (Tree α β)} {t : Tree α β} (member : t ∈ nodesOf ts) :
    (nodesOf t.children).Sublist (nodesOf ts) := by
  induction ts using forest_induction with
  | nil => cases member
  | cons u us inside rest =>
    rw [nodesOf_cons] at member ⊢
    rcases List.mem_cons.mp member with rfl | member
    · exact (List.sublist_append_left _ _).cons _
    · rcases List.mem_append.mp member with below | after
      · exact ((inside below).trans (List.sublist_append_left _ _)).cons _
      · exact ((rest after).trans (List.sublist_append_right _ _)).cons _

theorem nodesOf_children_subset {ts : List (Tree α β)} {t : Tree α β} (member : t ∈ nodesOf ts) :
    nodesOf t.children ⊆ nodesOf ts := (nodesOf_children_sublist member).subset

theorem sublist_nodesOf (ts : List (Tree α β)) : ts.Sublist (nodesOf ts) := by
  induction ts with
  | nil => exact .slnil
  | cons t ts ih =>
    rw [nodesOf_cons]
    exact (ih.trans (List.sublist_append_right _ _)).cons_cons t

theorem mem_nodesOf {ts : List (Tree α β)} {t : Tree α β} (member : t ∈ ts) : t ∈ nodesOf ts := (sublist_nodesOf ts).subset member

theorem notMem_nodesOf_children {ts : List (Tree α β)} (distinct : (nodesOf ts).Nodup) {t : Tree α β} (member : t ∈ nodesOf ts) :
    t ∉ nodesOf t.children := by
  induction ts using forest_induction with
  | nil => cases member
  | cons u us inside rest =>
    rw [nodesOf_cons] at distinct member
    obtain ⟨fresh, distinct⟩ := List.nodup_cons.mp distinct
    obtain ⟨distinctBelow, distinctRest, -⟩ := List.nodup_append'.mp distinct
    rcases List.mem_cons.mp member with rfl | member
    · exact fun below => fresh (List.mem_append_left _ below)
    · exact (List.mem_append.mp member).elim (inside distinctBelow) (rest distinctRest)

section Keys

variable (keyOf : α ⊕ β → κ)

def key (t : Tree α β) : κ := keyOf t.head

def keys (ts : List (Tree α β)) : List κ := (nodesOf ts).map (key keyOf)

theorem keys_cons (t : Tree α β) (ts : List (Tree α β)) :
    keys keyOf (t :: ts) = key keyOf t :: (keys keyOf t.children ++ keys keyOf ts) := by
  rw [keys, nodesOf_cons, List.map_cons, List.map_append]
  rfl

variable {keyOf}

theorem map_key_distinct {ts : List (Tree α β)} (distinct : (keys keyOf ts).Nodup) : (ts.map (key keyOf)).Nodup :=
  distinct.sublist ((sublist_nodesOf ts).map _)

theorem keys_children_distinct {ts : List (Tree α β)} (distinct : (keys keyOf ts).Nodup) {t : Tree α β} (member : t ∈ nodesOf ts) :
    (keys keyOf t.children).Nodup := distinct.sublist ((nodesOf_children_sublist member).map _)

end Keys

section Edit

variable [DecidableEq κ] (keyOf : α ⊕ β → κ) (k : κ) (g : Tree α β → List (Tree α β))

mutual

def edited : Tree α β → Tree α β
  | .leaf a => .leaf a
  | .branch b children => .branch b (editedAll children)

def editedAll : List (Tree α β) → List (Tree α β)
  | [] => []
  | t :: ts => if key keyOf t = k then g t ++ editedAll ts else edited t :: editedAll ts

end

mutual

def kept : List (Tree α β) → List (Tree α β)
  | [] => []
  | t :: ts => if key keyOf t = k then kept ts else t :: (keptIn t ++ kept ts)

def keptIn : Tree α β → List (Tree α β)
  | .leaf _ => []
  | .branch _ children => kept children

end

theorem keptIn_eq (t : Tree α β) : keptIn keyOf k t = kept keyOf k t.children := by
  cases t with
  | leaf a => rfl
  | branch b children => rfl

@[simp]
theorem head_edited (t : Tree α β) : (edited keyOf k g t).head = t.head := by
  cases t with
  | leaf a => rfl
  | branch b children => rfl

@[simp]
theorem key_edited (t : Tree α β) : key keyOf (edited keyOf k g t) = key keyOf t := by
  rw [key, head_edited, key]

theorem children_edited (t : Tree α β) : (edited keyOf k g t).children = editedAll keyOf k g t.children := by
  cases t with
  | leaf a => rfl
  | branch b children => rfl

mutual

def cut : List (Tree α β) → List (Tree α β)
  | [] => []
  | t :: ts => if key keyOf t = k then t :: cut ts else cutIn t ++ cut ts

def cutIn : Tree α β → List (Tree α β)
  | .leaf _ => []
  | .branch _ children => cut children

end

theorem cutIn_eq (t : Tree α β) : cutIn keyOf k t = cut keyOf k t.children := by
  cases t with
  | leaf a => rfl
  | branch b children => rfl

section Cons

variable {keyOf : α ⊕ β → κ} {k : κ} {g : Tree α β → List (Tree α β)} {t : Tree α β}

theorem editedAll_cons_self (here : key keyOf t = k) (ts : List (Tree α β)) :
    editedAll keyOf k g (t :: ts) = g t ++ editedAll keyOf k g ts := by
  rw [editedAll, if_pos here]

theorem editedAll_cons_other (other : key keyOf t ≠ k) (ts : List (Tree α β)) :
    editedAll keyOf k g (t :: ts) = edited keyOf k g t :: editedAll keyOf k g ts := by
  rw [editedAll, if_neg other]

theorem kept_cons_self (here : key keyOf t = k) (ts : List (Tree α β)) : kept keyOf k (t :: ts) = kept keyOf k ts := by
  rw [kept, if_pos here]

theorem kept_cons_other (other : key keyOf t ≠ k) (ts : List (Tree α β)) :
    kept keyOf k (t :: ts) = t :: (kept keyOf k t.children ++ kept keyOf k ts) := by
  rw [kept, if_neg other, keptIn_eq]

theorem cut_cons_self (here : key keyOf t = k) (ts : List (Tree α β)) : cut keyOf k (t :: ts) = t :: cut keyOf k ts := by
  rw [cut, if_pos here]

theorem cut_cons_other (other : key keyOf t ≠ k) (ts : List (Tree α β)) :
    cut keyOf k (t :: ts) = cut keyOf k t.children ++ cut keyOf k ts := by
  rw [cut, if_neg other, cutIn_eq]

end Cons

theorem nodesOf_editedAll (ts : List (Tree α β)) : (nodesOf (editedAll keyOf k g ts)).Perm
    ((kept keyOf k ts).map (edited keyOf k g) ++ (cut keyOf k ts).flatMap fun t => nodesOf (g t)) := by
  induction ts using forest_induction with
  | nil => exact .nil
  | cons t ts inside rest =>
    by_cases here : key keyOf t = k
    · rw [editedAll_cons_self here, kept_cons_self here, cut_cons_self here, nodesOf_append, List.flatMap_cons]
      refine (rest.append_left _).trans ?_
      rw [← List.append_assoc, ← List.append_assoc]
      exact List.perm_append_comm.append_right _
    · rw [editedAll_cons_other here, kept_cons_other here, cut_cons_other here, nodesOf_cons, children_edited,
        List.map_cons, List.map_append, List.flatMap_append, List.cons_append]
      refine ((inside.append rest).trans ?_).cons _
      rw [List.append_assoc, List.append_assoc]
      refine List.Perm.append_left _ ?_
      rw [← List.append_assoc, ← List.append_assoc]
      exact List.perm_append_comm.append_right _

theorem kept_sublist (ts : List (Tree α β)) : (kept keyOf k ts).Sublist (nodesOf ts) := by
  induction ts using forest_induction with
  | nil => exact .slnil
  | cons t ts inside rest =>
    rw [nodesOf_cons]
    by_cases here : key keyOf t = k
    · rw [kept_cons_self here]
      exact (rest.trans (List.sublist_append_right _ _)).cons _
    · rw [kept_cons_other here]
      exact (inside.append rest).cons_cons t

theorem cut_sublist (ts : List (Tree α β)) : (cut keyOf k ts).Sublist (nodesOf ts) := by
  induction ts using forest_induction with
  | nil => exact .slnil
  | cons t ts inside rest =>
    rw [nodesOf_cons]
    by_cases here : key keyOf t = k
    · rw [cut_cons_self here]
      exact (rest.trans (List.sublist_append_right _ _)).cons_cons t
    · rw [cut_cons_other here]
      exact (inside.append rest).cons t

theorem key_of_mem_cut {ts : List (Tree α β)} {t : Tree α β} (member : t ∈ cut keyOf k ts) : key keyOf t = k := by
  induction ts using forest_induction with
  | nil => cases member
  | cons u us inside rest =>
    by_cases here : key keyOf u = k
    · rw [cut_cons_self here] at member
      rcases List.mem_cons.mp member with rfl | after
      · exact here
      · exact rest after
    · rw [cut_cons_other here] at member
      exact (List.mem_append.mp member).elim inside rest

theorem cut_ne_nil {ts : List (Tree α β)} {t : Tree α β} (member : t ∈ nodesOf ts) (here : key keyOf t = k) :
    cut keyOf k ts ≠ [] := by
  induction ts using forest_induction with
  | nil => cases member
  | cons u us inside rest =>
    by_cases first : key keyOf u = k
    · rw [cut_cons_self first]
      exact List.cons_ne_nil _ _
    · rw [cut_cons_other first]
      intro none
      obtain ⟨noInside, noRest⟩ := List.append_eq_nil_iff.mp none
      rw [nodesOf_cons] at member
      rcases List.mem_cons.mp member with rfl | member
      · exact first here
      · exact (List.mem_append.mp member).elim (fun below => inside below noInside) fun after => rest after noRest

variable {keyOf k g}

theorem edited_eq_self {t : Tree α β} (same : editedAll keyOf k g t.children = t.children) : edited keyOf k g t = t := by
  cases t with
  | leaf a => rfl
  | branch b children => exact congrArg (Tree.branch b) same

theorem editedAll_of_notMem {ts : List (Tree α β)} : k ∉ keys keyOf ts → editedAll keyOf k g ts = ts := by
  induction ts using forest_induction with
  | nil =>
    intro _
    rfl
  | cons t ts inside rest =>
    intro absent
    rw [keys_cons, List.mem_cons, List.mem_append, not_or, not_or] at absent
    rw [editedAll_cons_other (Ne.symm absent.1), edited_eq_self (inside absent.2.1), rest absent.2.2]

theorem edited_of_notMem {t : Tree α β} (absent : k ∉ keys keyOf t.children) : edited keyOf k g t = t :=
  edited_eq_self (editedAll_of_notMem absent)

theorem editedAll_self (ts : List (Tree α β)) : editedAll keyOf k (fun t => [t]) ts = ts := by
  induction ts using forest_induction with
  | nil => rfl
  | cons t ts inside rest =>
    by_cases here : key keyOf t = k
    · rw [editedAll_cons_self here, rest]
      rfl
    · rw [editedAll_cons_other here, edited_eq_self inside, rest]

theorem nodesOf_perm (ts : List (Tree α β)) :
    (nodesOf ts).Perm (kept keyOf k ts ++ (cut keyOf k ts).flatMap nodes) := by
  have edit := nodesOf_editedAll keyOf k (fun t => [t]) ts
  have same : (kept keyOf k ts).map (edited keyOf k fun t => [t]) = kept keyOf k ts := by
    refine (List.map_congr_left fun t _ => edited_eq_self (editedAll_self t.children)).trans (List.map_id _)
  rw [editedAll_self, same] at edit
  simpa only [nodesOf, List.append_nil] using edit

theorem cut_eq {ts : List (Tree α β)} (distinct : (keys keyOf ts).Nodup) {n : Tree α β} (member : n ∈ nodesOf ts)
    (here : key keyOf n = k) : cut keyOf k ts = [n] := by
  have only : ∀ t ∈ cut keyOf k ts, t = n := fun t cut =>
    List.inj_on_of_nodup_map distinct ((cut_sublist keyOf k ts).subset cut) member
      ((key_of_mem_cut keyOf k cut).trans here.symm)
  have single : (cut keyOf k ts).Nodup := (List.Nodup.of_map _ distinct).sublist (cut_sublist keyOf k ts)
  obtain ⟨t, inCut⟩ := List.exists_mem_of_ne_nil _ (cut_ne_nil keyOf k member here)
  exact eq_singleton single (only t inCut ▸ inCut) only

section Distinct

variable {ts : List (Tree α β)} {n : Tree α β}

theorem nodesOf_perm_kept (distinct : (keys keyOf ts).Nodup) (member : n ∈ nodesOf ts) (here : key keyOf n = k) :
    (nodesOf ts).Perm (kept keyOf k ts ++ nodes n) := by
  have parts := @nodesOf_perm _ _ _ _ keyOf k ts
  rwa [cut_eq distinct member here, List.flatMap_singleton] at parts

theorem mem_kept_iff (distinct : (keys keyOf ts).Nodup) (member : n ∈ nodesOf ts) (here : key keyOf n = k) {t : Tree α β} :
    t ∈ kept keyOf k ts ↔ t ∈ nodesOf ts ∧ t ∉ nodes n := by
  have parts := nodesOf_perm_kept distinct member here
  have apart := List.disjoint_of_nodup_append (parts.nodup_iff.mp (List.Nodup.of_map _ distinct))
  constructor
  · exact fun kept => ⟨parts.symm.subset (List.mem_append_left _ kept), fun below => apart kept below⟩
  · rintro ⟨listed, outside⟩
    exact (List.mem_append.mp (parts.subset listed)).resolve_right outside

theorem nodesOf_editedAll_perm (distinct : (keys keyOf ts).Nodup) (member : n ∈ nodesOf ts) (here : key keyOf n = k) :
    (nodesOf (editedAll keyOf k g ts)).Perm ((kept keyOf k ts).map (edited keyOf k g) ++ nodesOf (g n)) := by
  have parts := nodesOf_editedAll keyOf k g ts
  rwa [cut_eq distinct member here, List.flatMap_singleton] at parts

end Distinct

theorem map_key_editedAll (ts : List (Tree α β)) : (editedAll keyOf k g ts).map (key keyOf) =
    ts.flatMap fun t => if key keyOf t = k then (g t).map (key keyOf) else [key keyOf t] := by
  induction ts with
  | nil => rfl
  | cons t ts ih =>
    rw [List.flatMap_cons, ← ih]
    by_cases here : key keyOf t = k
    · rw [editedAll_cons_self here, List.map_append, if_pos here]
    · rw [editedAll_cons_other here, List.map_cons, key_edited, if_neg here]
      rfl

theorem mem_nodesOf_edited {t m : Tree α β} (member : m ∈ nodesOf (edited keyOf k g t).children) :
    (∃ u ∈ kept keyOf k t.children, m = edited keyOf k g u) ∨
      ∃ n ∈ nodesOf t.children, key keyOf n = k ∧ m ∈ nodesOf (g n) := by
  rw [children_edited] at member
  rcases List.mem_append.mp ((nodesOf_editedAll keyOf k g t.children).subset member) with before | replaced
  · obtain ⟨u, kept, rfl⟩ := List.mem_map.mp before
    exact .inl ⟨u, kept, rfl⟩
  · obtain ⟨n, cut, inside⟩ := List.mem_flatMap.mp replaced
    exact .inr ⟨n, (cut_sublist keyOf k _).subset cut, key_of_mem_cut keyOf k cut, inside⟩

end Edit

section Place

def insertAt {α : Type} (i : ℕ) (a : α) (l : List α) : List α := l.take i ++ a :: l.drop i

theorem insertAt_perm {α : Type} (i : ℕ) (a : α) (l : List α) : (insertAt i a l).Perm (a :: l) := by
  refine List.perm_middle.trans ?_
  rw [List.take_append_drop]

theorem map_insertAt {α γ : Type} (f : α → γ) (i : ℕ) (a : α) (l : List α) :
    (insertAt i a l).map f = insertAt i (f a) (l.map f) := by
  rw [insertAt, insertAt, List.map_append, List.map_cons, List.map_take, List.map_drop]

variable (place : β → Bool) (i : ℕ) (new : Tree α β)

mutual

def placed : Tree α β → Tree α β
  | .leaf a => .leaf a
  | .branch b children => .branch b (if place b then insertAt i new (placedAll children) else placedAll children)

def placedAll : List (Tree α β) → List (Tree α β)
  | [] => []
  | t :: ts => placed t :: placedAll ts

end

def isPlace : Tree α β → Bool
  | .leaf _ => false
  | .branch b _ => place b

@[simp]
theorem head_placed (t : Tree α β) : (placed place i new t).head = t.head := by
  cases t with
  | leaf a => rfl
  | branch b children => rfl

theorem placedAll_eq (ts : List (Tree α β)) : placedAll place i new ts = ts.map (placed place i new) := by
  induction ts with
  | nil => rfl
  | cons t ts ih => rw [placedAll, ih, List.map_cons]

theorem children_placed (t : Tree α β) : (placed place i new t).children =
    if isPlace place t then insertAt i new (placedAll place i new t.children) else placedAll place i new t.children := by
  cases t with
  | leaf a => rfl
  | branch b children => rfl

theorem nodesOf_insertAt (ts : List (Tree α β)) : (nodesOf (insertAt i new ts)).Perm (nodes new ++ nodesOf ts) := by
  have split := nodesOf_append (ts.take i) (ts.drop i)
  rw [List.take_append_drop] at split
  rw [insertAt, nodesOf_append, nodesOf, split]
  exact List.perm_append_comm_assoc _ _ _

def news (ts : List (Tree α β)) : List (Tree α β) := ((nodesOf ts).filter (isPlace place)).flatMap fun _ => nodes new

theorem news_cons (t : Tree α β) (ts : List (Tree α β)) : news place new (t :: ts) =
    (if isPlace place t then nodes new else []) ++ (news place new t.children ++ news place new ts) := by
  rw [news, nodesOf_cons]
  cases here : isPlace place t with
  | true =>
    rw [List.filter_cons_of_pos here, List.flatMap_cons, List.filter_append, List.flatMap_append, if_pos rfl]
    rfl
  | false =>
    rw [List.filter_cons_of_neg (by simp [here]), List.filter_append, List.flatMap_append, if_neg Bool.false_ne_true]
    rfl

theorem shuffle {α : Type} (a b c d e : List α) : (a ++ (b ++ c) ++ (d ++ e)).Perm (b ++ d ++ (a ++ (c ++ e))) := by
  rw [← Multiset.coe_eq_coe]
  simp only [← Multiset.coe_add]
  abel

theorem nodesOf_children_placed (t : Tree α β) : (nodesOf (placed place i new t).children).Perm
    ((if isPlace place t then nodes new else []) ++ nodesOf (placedAll place i new t.children)) := by
  rw [children_placed]
  split
  · exact nodesOf_insertAt i new _
  · exact .refl _

theorem nodesOf_placedAll (ts : List (Tree α β)) : (nodesOf (placedAll place i new ts)).Perm
    ((nodesOf ts).map (placed place i new) ++ news place new ts) := by
  induction ts using forest_induction with
  | nil => exact .nil
  | cons t ts inside rest =>
    have below := nodesOf_children_placed place i new t
    rw [placedAll, nodesOf_cons, nodesOf_cons, news_cons, List.map_cons, List.map_append, List.cons_append]
    refine List.Perm.cons _ (((below.trans (inside.append_left _)).append rest).trans ?_)
    exact shuffle _ _ _ _ _

variable {place i new}

theorem placedAll_of_none {ts : List (Tree α β)} : (∀ t ∈ nodesOf ts, isPlace place t = false) → placedAll place i new ts = ts := by
  induction ts using forest_induction with
  | nil =>
    intro _
    rfl
  | cons t ts inside rest =>
    intro none
    rw [nodesOf_cons] at none
    have same : placed place i new t = t := by
      have here := none t List.mem_cons_self
      have below := inside fun u member => none u (List.mem_cons_of_mem _ (List.mem_append_left _ member))
      cases t with
      | leaf a => rfl
      | branch b children =>
        rw [placed, if_neg (by simpa [isPlace] using here)]
        exact congrArg (Tree.branch b) below
    rw [placedAll, same, rest fun u member => none u (List.mem_cons_of_mem _ (List.mem_append_right _ member))]

theorem placed_of_none {t : Tree α β} (none : ∀ u ∈ nodes t, isPlace place u = false) : placed place i new t = t := by
  have single : nodesOf [t] = nodes t := List.append_nil _
  have same : placedAll place i new [t] = [t] := placedAll_of_none (single ▸ none)
  exact (List.cons.inj same).1

theorem map_key_children_placed (keyOf : α ⊕ β → κ) (t : Tree α β) : (placed place i new t).children.map (key keyOf) =
    if isPlace place t then insertAt i (key keyOf new) (t.children.map (key keyOf)) else t.children.map (key keyOf) := by
  have same : (placedAll place i new t.children).map (key keyOf) = t.children.map (key keyOf) := by
    rw [placedAll_eq, List.map_map]
    exact List.map_congr_left fun u _ => congrArg keyOf (head_placed place i new u)
  rw [children_placed]
  split
  · rw [map_insertAt, same]
  · exact same

theorem mem_nodesOf_placed {t m : Tree α β} (member : m ∈ nodesOf (placed place i new t).children) :
    (∃ u ∈ nodesOf t.children, m = placed place i new u) ∨ m ∈ nodes new ∧ ∃ q ∈ nodes t, isPlace place q = true := by
  rcases List.mem_append.mp ((nodesOf_children_placed place i new t).subset member) with here | below
  · split at here
    · rename_i isPlace
      exact .inr ⟨here, t, by rw [nodes_eq]; exact List.mem_cons_self, isPlace⟩
    · cases here
  · rcases List.mem_append.mp ((nodesOf_placedAll place i new t.children).subset below) with before | isNew
    · obtain ⟨u, inside, rfl⟩ := List.mem_map.mp before
      exact .inl ⟨u, inside, rfl⟩
    · obtain ⟨q, listed, inNew⟩ := List.mem_flatMap.mp isNew
      obtain ⟨inside, isPlace⟩ := List.mem_filter.mp listed
      exact .inr ⟨inNew, q, by rw [nodes_eq]; exact List.mem_cons_of_mem _ inside, isPlace⟩

theorem news_eq {ts : List (Tree α β)} {q : Tree α β} (distinct : (nodesOf ts).Nodup) (member : q ∈ nodesOf ts)
    (here : isPlace place q = true) (only : ∀ t ∈ nodesOf ts, isPlace place t = true → t = q) : news place new ts = nodes new := by
  have single : (nodesOf ts).filter (isPlace place) = [q] := by
    refine eq_singleton (distinct.filter _) (List.mem_filter.mpr ⟨member, here⟩) fun t listed => ?_
    exact only t (List.mem_filter.mp listed).1 (List.mem_filter.mp listed).2
  rw [news, single, List.flatMap_singleton]

end Place

end DataCollectionLab.Lib.Forest
