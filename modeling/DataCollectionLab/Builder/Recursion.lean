import DataCollectionLab.Builder.Document
import DataCollectionLab.Lib.Except

/-!
The two recursions over the document: the walk, with the path of each node, and the map, which goes on into what it made and
returns on enough stack where that is no more of the same.
-/

namespace DataCollectionLab.Builder.Document

open Lib Forest

variable {ρ μ : Type}

section Paths

variable {parent : Option (IrNode ρ)} {ancestors : List (IrNode ρ)} {index : ℕ}

theorem mem_descend_cons {node : IrNode ρ} {rest : List (IrNode ρ)} {path : NodePath ρ} :
    path ∈ descend parent ancestors index (node :: rest) ↔
      path = { node, parent, index, ancestors, enclosing := ancestors.reverse.find? isRepeat } ∨
        path ∈ descend (some node) (ancestors ++ [node]) 0 node.children ∨
        path ∈ descend parent ancestors (index + 1) rest := by
  have below : descendInto ancestors node = descend (some node) (ancestors ++ [node]) 0 node.children := by
    cases node with
    | leaf a => rfl
    | branch b children => rfl
  rw [descend, List.mem_cons, List.mem_append, below]

theorem map_node_descend (list : List (IrNode ρ)) : (descend parent ancestors index list).map (·.node) = nodesOf list := by
  induction list using forest_induction generalizing parent ancestors index with
  | nil => rfl
  | cons node rest inside after =>
    have below : (descendInto ancestors node).map (·.node) = nodesOf node.children := by
      cases node with
      | leaf a => rfl
      | branch b children => exact inside
    rw [descend, List.map_cons, List.map_append, below, after, nodesOf_cons]

theorem node_mem_of_descend {list : List (IrNode ρ)} {path : NodePath ρ} (member : path ∈ descend parent ancestors index list) :
    path.node ∈ nodesOf list := by
  rw [← @map_node_descend _ parent ancestors index list]
  exact List.mem_map_of_mem member

theorem ancestors_subset {list : List (IrNode ρ)} {path : NodePath ρ} (member : path ∈ descend parent ancestors index list) :
    ancestors ⊆ path.ancestors := by
  induction list using forest_induction generalizing parent ancestors index with
  | nil => cases member
  | cons node rest inside after =>
    rcases mem_descend_cons.mp member with rfl | below | later
    · exact List.Subset.refl _
    · exact fun a listed => inside below (List.mem_append_left _ listed)
    · exact after later

theorem mem_ancestors {list : List (IrNode ρ)} (distinct : (nodesOf list).Nodup) {path : NodePath ρ}
    (member : path ∈ descend parent ancestors index list) {t : IrNode ρ} (inList : t ∈ nodesOf list)
    (above : path.node ∈ nodesOf t.children) : t ∈ path.ancestors := by
  induction list using forest_induction generalizing parent ancestors index with
  | nil => cases member
  | cons node rest inside after =>
    rw [nodesOf_cons] at distinct inList
    obtain ⟨fresh, distinct⟩ := List.nodup_cons.mp distinct
    obtain ⟨distinctBelow, distinctRest, apart⟩ := List.nodup_append'.mp distinct
    rcases mem_descend_cons.mp member with rfl | below | later
    · exfalso
      apply fresh
      rcases List.mem_cons.mp inList with rfl | inList
      · exact List.mem_append_left _ above
      · exact (List.mem_append.mp inList).elim (fun inBelow => List.mem_append_left _ (nodesOf_children_subset inBelow above))
          fun inRest => List.mem_append_right _ (nodesOf_children_subset inRest above)
    · rcases List.mem_cons.mp inList with rfl | inList
      · exact ancestors_subset below (List.mem_append_right _ (List.mem_singleton_self _))
      · rcases List.mem_append.mp inList with inBelow | inRest
        · exact inside distinctBelow below inBelow
        · exact absurd (nodesOf_children_subset inRest above) (apart (node_mem_of_descend below))
    · rcases List.mem_cons.mp inList with rfl | inList
      · exact absurd (node_mem_of_descend later) (apart above)
      · rcases List.mem_append.mp inList with inBelow | inRest
        · exact absurd (node_mem_of_descend later) (apart (nodesOf_children_subset inBelow above))
        · exact after distinctRest later inRest

theorem stands_of_descend {list : List (IrNode ρ)} {path : NodePath ρ} (member : path ∈ descend parent ancestors index list) :
    (path.parent = parent ∧ ∃ j, path.index = index + j ∧ list[j]? = some path.node) ∨
      ∃ q ∈ nodesOf list, path.parent = some q ∧ q.children[path.index]? = some path.node := by
  induction list using forest_induction generalizing parent ancestors index with
  | nil => cases member
  | cons node rest inside after =>
    rw [nodesOf_cons]
    rcases mem_descend_cons.mp member with rfl | below | later
    · exact .inl ⟨rfl, 0, rfl, rfl⟩
    · rcases inside below with ⟨isNode, j, at_, child⟩ | ⟨q, inBelow, isParent⟩
      · rw [Nat.zero_add] at at_
        exact .inr ⟨node, List.mem_cons_self, isNode, at_ ▸ child⟩
      · exact .inr ⟨q, List.mem_cons_of_mem _ (List.mem_append_left _ inBelow), isParent⟩
    · rcases after later with ⟨isParent, j, at_, child⟩ | ⟨q, inRest, isParent⟩
      · exact .inl ⟨isParent, j + 1, by omega, child⟩
      · exact .inr ⟨q, List.mem_cons_of_mem _ (List.mem_append_right _ inRest), isParent⟩

theorem exists_path_here {list : List (IrNode ρ)} {c : IrNode ρ} {j : ℕ} (child : list[j]? = some c) :
    ∃ path ∈ descend parent ancestors index list, path.node = c ∧ path.parent = parent ∧ path.index = index + j := by
  induction list generalizing index j with
  | nil => cases child
  | cons node rest ih =>
    cases j with
    | zero =>
      obtain rfl := Option.some.inj child
      exact ⟨_, mem_descend_cons.mpr (.inl rfl), rfl, rfl, rfl⟩
    | succ j =>
      obtain ⟨path, later, isNode, isParent, at_⟩ := @ih (index + 1) j child
      exact ⟨path, mem_descend_cons.mpr (.inr (.inr later)), isNode, isParent, by omega⟩

theorem exists_path {list : List (IrNode ρ)} {t c : IrNode ρ} (inList : t ∈ nodesOf list) {j : ℕ} (child : t.children[j]? = some c) :
    ∃ path ∈ descend parent ancestors index list, path.node = c ∧ path.parent = some t ∧ path.index = j := by
  induction list using forest_induction generalizing parent ancestors index with
  | nil => cases inList
  | cons node rest inside after =>
    rw [nodesOf_cons] at inList
    rcases List.mem_cons.mp inList with rfl | inList
    · obtain ⟨path, below, isNode, isParent, at_⟩ := @exists_path_here _ (some t) (ancestors ++ [t]) 0 _ _ _ child
      exact ⟨path, mem_descend_cons.mpr (.inr (.inl below)), isNode, isParent, at_.trans (Nat.zero_add j)⟩
    · rcases List.mem_append.mp inList with inBelow | inRest
      · obtain ⟨path, below, isPath⟩ := @inside (some node) (ancestors ++ [node]) 0 inBelow
        exact ⟨path, mem_descend_cons.mpr (.inr (.inl below)), isPath⟩
      · obtain ⟨path, later, isPath⟩ := @after parent ancestors (index + 1) inRest
        exact ⟨path, mem_descend_cons.mpr (.inr (.inr later)), isPath⟩

end Paths

section Found

variable {ir : FormIr ρ μ}

theorem allIds_eq (ir : FormIr ρ μ) : allIds ir = keys idOf ir.children := by
  rw [keys, ← @map_node_descend _ none [] 0 ir.children, List.map_map]
  rfl

theorem find_some {wanted : String} {path : NodePath ρ} (found : find ir wanted = some path) :
    path ∈ walk ir ∧ id path.node = wanted :=
  ⟨List.mem_of_find?_eq_some found, by simpa using List.find?_some found⟩

theorem node_of_find {wanted : String} {path : NodePath ρ} (found : find ir wanted = some path) :
    path.node ∈ nodesOf ir.children ∧ id path.node = wanted :=
  ⟨node_mem_of_descend (find_some found).1, (find_some found).2⟩

variable (distinct : (allIds ir).Nodup)

include distinct

theorem nodes_distinct : (nodesOf ir.children).Nodup := by
  rw [allIds_eq] at distinct
  exact List.Nodup.of_map _ distinct

theorem eq_of_id {t u : IrNode ρ} (inT : t ∈ nodesOf ir.children) (inU : u ∈ nodesOf ir.children) (same : id t = id u) :
    t = u := by
  rw [allIds_eq] at distinct
  exact List.inj_on_of_nodup_map distinct inT inU same

theorem path_unique {path other : NodePath ρ} (inWalk : path ∈ walk ir) (inWalk' : other ∈ walk ir)
    (same : path.node = other.node) : path = other := by
  have nodes : ((walk ir).map (·.node)).Nodup := by
    rw [walk, map_node_descend]
    exact nodes_distinct distinct
  exact List.inj_on_of_nodup_map nodes inWalk inWalk' same

end Found

def Settles (fn : IrNode ρ → Option (IrNode ρ)) (list result : List (IrNode ρ)) : Prop :=
  ∃ enough, ∀ stack, enough ≤ stack → mapTree fn stack list = .ok result

section Settles

variable {fn : IrNode ρ → Option (IrNode ρ)} {node : IrNode ρ} {rest result : List (IrNode ρ)}

theorem settles_nil : Settles fn [] [] := by
  refine ⟨1, fun stack enough => ?_⟩
  obtain ⟨stack, rfl⟩ := Nat.exists_eq_add_of_le' enough
  rfl

theorem settles_dropped (dropped : fn node = none) (settles : Settles fn rest result) : Settles fn (node :: rest) result := by
  obtain ⟨enough, returns⟩ := settles
  refine ⟨enough + 1, fun stack more => ?_⟩
  obtain ⟨stack, rfl⟩ := Nat.exists_eq_add_of_le' (Nat.le_of_add_left_le more)
  rw [mapTree, mapList, dropped]
  exact returns (stack + 1) (by omega)

theorem settles_leaf {a : Leaf ρ} (becomes : fn node = some (.leaf a)) (settles : Settles fn rest result) :
    Settles fn (node :: rest) (.leaf a :: result) := by
  obtain ⟨enough, returns⟩ := settles
  refine ⟨enough + 1, fun stack more => ?_⟩
  obtain ⟨stack, rfl⟩ := Nat.exists_eq_add_of_le' (Nat.le_of_add_left_le more)
  have later : mapList fn (mapTree fn stack) rest = .ok result := returns (stack + 1) (by omega)
  rw [mapTree, mapList, becomes]
  dsimp only
  rw [later]
  rfl

theorem settles_branch {b : Container ρ} {children below : List (IrNode ρ)} (becomes : fn node = some (.branch b children))
    (inside : Settles fn children below) (settles : Settles fn rest result) :
    Settles fn (node :: rest) (.branch b below :: result) := by
  obtain ⟨enough, returns⟩ := settles
  obtain ⟨deep, returnsBelow⟩ := inside
  refine ⟨enough + deep + 1, fun stack more => ?_⟩
  obtain ⟨stack, rfl⟩ := Nat.exists_eq_add_of_le' (Nat.le_of_add_left_le more)
  have later : mapList fn (mapTree fn stack) rest = .ok result := returns (stack + 1) (by omega)
  rw [mapTree, mapList, becomes]
  dsimp only
  rw [returnsBelow stack (by omega), later]
  rfl

def rebuilt : IrNode ρ → List (IrNode ρ) → IrNode ρ
  | .leaf a, _ => .leaf a
  | .branch b _, below => .branch b below

theorem rebuilt_children (node : IrNode ρ) : rebuilt node node.children = node := by
  cases node with
  | leaf a => rfl
  | branch b children => rfl

theorem edited_eq_rebuilt {k : String} {g : IrNode ρ → List (IrNode ρ)} (node : IrNode ρ) :
    edited idOf k g node = rebuilt node (editedAll idOf k g node.children) := by
  cases node with
  | leaf a => rfl
  | branch b children => rfl

theorem settles_cons {node' : IrNode ρ} {below : List (IrNode ρ)} (becomes : fn node = some node')
    (inside : Settles fn node'.children below) (settles : Settles fn rest result) :
    Settles fn (node :: rest) (rebuilt node' below :: result) := by
  cases node' with
  | leaf a => exact settles_leaf becomes settles
  | branch b children => exact settles_branch becomes inside settles

theorem settles_same (list : List (IrNode ρ)) : (∀ t ∈ nodesOf list, fn t = some t) → Settles fn list list := by
  induction list using forest_induction with
  | nil =>
    intro _
    exact settles_nil
  | cons node rest inside after =>
    intro same
    rw [nodesOf_cons] at same
    have below := inside fun t member => same t (List.mem_cons_of_mem _ (List.mem_append_left _ member))
    have later := after fun t member => same t (List.mem_cons_of_mem _ (List.mem_append_right _ member))
    have settled := settles_cons (same node List.mem_cons_self) below later
    rwa [rebuilt_children] at settled

section Edits

variable {k : String} (others : ∀ t, id t ≠ k → fn t = some t)

include others

theorem settles_edited {g : IrNode ρ → List (IrNode ρ)} (list : List (IrNode ρ)) :
    (∀ t ∈ nodesOf list, id t = k →
      (fn t = none ∧ g t = []) ∨ ∃ t', fn t = some t' ∧ g t = [t'] ∧ k ∉ keys idOf t'.children) →
    Settles fn list (editedAll idOf k g list) := by
  induction list using forest_induction with
  | nil =>
    intro _
    exact settles_nil
  | cons node rest inside after =>
    intro own
    rw [nodesOf_cons] at own
    have below := inside fun t member => own t (List.mem_cons_of_mem _ (List.mem_append_left _ member))
    have later := after fun t member => own t (List.mem_cons_of_mem _ (List.mem_append_right _ member))
    by_cases here : id node = k
    · rw [editedAll_cons_self here]
      rcases own node List.mem_cons_self here with ⟨dropped, none⟩ | ⟨node', becomes, one, absent⟩
      · rw [none]
        exact settles_dropped dropped later
      · have below : ∀ t ∈ nodesOf node'.children, fn t = some t :=
          fun t member => others t fun same => absent (same ▸ List.mem_map_of_mem member)
        have settled := settles_cons becomes (settles_same node'.children below) later
        rw [rebuilt_children] at settled
        rw [one]
        exact settled
    · rw [editedAll_cons_other here, edited_eq_rebuilt]
      exact settles_cons (others node here) below later

end Edits

theorem mapList_append {deeper : List (IrNode ρ) → Except Failure (List (IrNode ρ))} {left right left' right' : List (IrNode ρ)}
    (first : mapList fn deeper left = .ok left') (second : mapList fn deeper right = .ok right') :
    mapList fn deeper (left ++ right) = .ok (left' ++ right') := by
  induction left generalizing left' with
  | nil =>
    obtain rfl := Except.ok.inj first
    exact second
  | cons node left ih =>
    rw [mapList] at first
    rw [List.cons_append, mapList]
    cases becomes : fn node with
    | none =>
      rw [becomes] at first
      exact ih first
    | some node' =>
      rw [becomes] at first
      cases node' with
      | leaf a =>
        obtain ⟨rest, later, same⟩ := bind_ok_iff.mp first
        obtain rfl := Except.ok.inj same
        exact bind_ok_iff.mpr ⟨_, ih later, rfl⟩
      | branch b children =>
        obtain ⟨below, inside, tail⟩ := bind_ok_iff.mp first
        obtain ⟨rest, later, same⟩ := bind_ok_iff.mp tail
        obtain rfl := Except.ok.inj same
        exact bind_ok_iff.mpr ⟨below, inside, bind_ok_iff.mpr ⟨_, ih later, rfl⟩⟩

theorem settles_append {left right left' right' : List (IrNode ρ)} (first : Settles fn left left')
    (second : Settles fn right right') : Settles fn (left ++ right) (left' ++ right') := by
  obtain ⟨enough, returns⟩ := first
  obtain ⟨enough', returns'⟩ := second
  refine ⟨enough + enough' + 1, fun stack more => ?_⟩
  obtain ⟨stack, rfl⟩ := Nat.exists_eq_add_of_le' (Nat.le_of_add_left_le more)
  exact mapList_append (returns (stack + 1) (by omega)) (returns' (stack + 1) (by omega))

theorem settles_map {f : IrNode ρ → IrNode ρ} {list : List (IrNode ρ)} (each : ∀ t ∈ list, Settles fn [t] [f t]) :
    Settles fn list (list.map f) := by
  induction list with
  | nil => exact settles_nil
  | cons node rest ih =>
    exact settles_append (each node List.mem_cons_self) (ih fun t member => each t (List.mem_cons_of_mem _ member))

theorem insertAt_eq (list : List (IrNode ρ)) (index : ℤ) (node : IrNode ρ) :
    insertAt list index node = Forest.insertAt index.toNat node list := by
  have gap : (max 0 (min index list.length)).toNat = min index.toNat list.length := by omega
  rw [insertAt, Forest.insertAt, gap]
  rcases Nat.le_total index.toNat list.length with within | past
  · rw [Nat.min_eq_left within]
  · rw [Nat.min_eq_right past, List.take_length, List.drop_length, List.take_of_length_le past, List.drop_eq_nil_of_le past]

section Insertion

variable (parentId : String) (index : ℤ) (new : IrNode ρ)

/-- What `insertNode` maps a candidate to. -/
def inserting (candidate : IrNode ρ) : Option (IrNode ρ) :=
  if id candidate ≠ parentId ∨ isContainer candidate = false then some candidate
  else some (withChild index new candidate)

def inPlace (b : Container ρ) : Bool := b.id == parentId

theorem inserting_eq (t : IrNode ρ) : inserting parentId index new t =
    if isPlace (inPlace parentId) t then some (withChild index new t) else some t := by
  cases t with
  | leaf a => simp [inserting, isContainer, isPlace]
  | branch b children =>
    by_cases here : b.id = parentId
    · have named : id (Tree.branch b children : IrNode ρ) = parentId := here
      rw [inserting, named]
      simp [isPlace, inPlace, here, isContainer]
    · have named : id (Tree.branch b children : IrNode ρ) ≠ parentId := here
      rw [inserting, if_pos (.inl named)]
      simp [isPlace, inPlace, here]

variable {parentId index new} (free : ∀ u ∈ nodes new, isPlace (inPlace parentId) u = false)

include free

theorem settles_new : Settles (inserting parentId index new) [new] [new] := by
  apply settles_same
  intro t member
  have inNew : t ∈ nodes new := by simpa only [nodesOf, List.append_nil] using member
  rw [inserting_eq, free t inNew]
  rfl

theorem settles_placed (list : List (IrNode ρ)) : ∀ t ∈ list,
    Settles (inserting parentId index new) [t] [placed (inPlace parentId) index.toNat new t] := by
  induction list using forest_induction with
  | nil =>
    intro t member
    cases member
  | cons node rest inside after =>
    intro t member
    rcases List.mem_cons.mp member with rfl | later
    · cases t with
      | leaf a => exact settles_leaf (inserting_eq parentId index new _) settles_nil
      | branch b children =>
        have mapped := inserting_eq parentId index new (.branch b children)
        have each : ∀ c ∈ children, Settles (inserting parentId index new) [c] [placed (inPlace parentId) index.toNat new c] :=
          inside
        rw [placed, placedAll_eq]
        cases here : inPlace parentId b with
        | false =>
          have same : isPlace (inPlace parentId) (Tree.branch b children : IrNode ρ) = false := here
          rw [same, if_neg Bool.false_ne_true] at mapped
          rw [if_neg Bool.false_ne_true]
          exact settles_branch mapped (settles_map each) settles_nil
        | true =>
          have same : isPlace (inPlace parentId) (Tree.branch b children : IrNode ρ) = true := here
          have unchanged : placed (inPlace parentId) index.toNat new new = new := placed_of_none free
          rw [same, if_pos rfl, withChild, insertAt_eq] at mapped
          rw [if_pos rfl]
          have below : Settles (inserting parentId index new) (Forest.insertAt index.toNat new children)
              ((Forest.insertAt index.toNat new children).map (placed (inPlace parentId) index.toNat new)) := by
            apply settles_map
            intro c member
            rcases List.mem_cons.mp ((insertAt_perm index.toNat new children).subset member) with rfl | child
            · rw [unchanged]
              exact settles_new free
            · exact each c child
          rw [map_insertAt, unchanged] at below
          exact settles_branch mapped below settles_nil
    · exact after t later

end Insertion

end Settles

end DataCollectionLab.Builder.Document
