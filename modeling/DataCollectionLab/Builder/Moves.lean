import DataCollectionLab.Builder.Recursion

/-!
What an edit of the document changes: a move is a removal and an insertion at an index taken before the removal, and only
the node that is moved and the two lists it leaves and enters are other than they were.
-/

namespace DataCollectionLab.Builder.Document

open Lib Forest

variable {ρ μ : Type}

def gapped (list : List String) (index : ℤ) (moved : String) : List String :=
  (list.take index.toNat).filter (· ≠ moved) ++ moved :: (list.drop index.toNat).filter (· ≠ moved)

def Above (slot : Slot) (t : IrNode ρ) : Prop := ∃ q ∈ nodes t, slot.parentId = some (id q)

def Nested (above below : IrNode ρ) : Prop :=
  below ∈ nodesOf above.children ∧ isRepeat below = true ∧ (isRepeat above = true ∨ isFieldList above = true)

structure Moves (ir ir' : FormIr ρ μ) (n : IrNode ρ) (slot : Slot) : Prop where
  rest : ir'.rest = ir.rest
  ids : (allIds ir').Perm (allIds ir)
  subtree : n ∈ nodesOf ir'.children
  unchanged : ∀ t ∈ nodesOf ir.children, n ∉ nodesOf t.children → ¬ Above slot t → t ∈ nodesOf ir'.children
  root : ir'.children.map id =
    if slot.parentId = none then gapped (ir.children.map id) slot.index (id n) else (ir.children.map id).filter (· ≠ id n)
  lists : ∀ t ∈ nodesOf ir.children, ∃ t' ∈ nodesOf ir'.children, t'.head = t.head ∧ t'.children.map id =
    if slot.parentId = some (id t) then gapped (t.children.map id) slot.index (id n) else (t.children.map id).filter (· ≠ id n)
  nesting : ∀ a' ∈ nodesOf ir'.children, ∀ r', Nested a' r' →
    ∃ a ∈ nodesOf ir.children, ∃ r, Nested a r ∧ a.head = a'.head ∧ r.head = r'.head

/-- What the refusals leave: a container that is not of the subtree, and no repeat or field list above a subtree with a
repeat. -/
def Allowed (ir : FormIr ρ μ) (n : IrNode ρ) (slot : Slot) : Prop :=
  ∀ p, slot.parentId = some p → ∃ q ∈ nodesOf ir.children, isContainer q = true ∧ id q = p ∧ q ∉ nodes n ∧
    (subtreeHasRepeat n = true → ∀ t ∈ nodesOf ir.children, q ∈ nodes t → isRepeat t = false ∧ isFieldList t = false)

section Allowed

variable {ir : FormIr ρ μ}

theorem subtreeHasRepeat_cons (node : IrNode ρ) : subtreeHasRepeat node = (isRepeat node || someHasRepeat node.children) := by
  cases node with
  | leaf a => rfl
  | branch b children => rfl

theorem someHasRepeat_eq (list : List (IrNode ρ)) : someHasRepeat list = (nodesOf list).any isRepeat := by
  induction list using forest_induction with
  | nil => rfl
  | cons node rest inside after =>
    rw [someHasRepeat, subtreeHasRepeat_cons, inside, after, nodesOf_cons, List.any_cons, List.any_append, Bool.or_assoc]

theorem subtreeHasRepeat_eq (node : IrNode ρ) : subtreeHasRepeat node = (nodes node).any isRepeat := by
  rw [subtreeHasRepeat_cons, someHasRepeat_eq, nodes_eq, List.any_cons]

theorem mem_chain (distinct : (allIds ir).Nodup) {target : NodePath ρ} (inWalk : target ∈ walk ir) {t : IrNode ρ}
    (member : t ∈ nodesOf ir.children) (over_ : target.node ∈ nodes t) : t ∈ target.ancestors ++ [target.node] := by
  rw [nodes_eq] at over_
  rcases List.mem_cons.mp over_ with same | below
  · exact List.mem_append_right _ (List.mem_singleton.mpr same.symm)
  · exact List.mem_append_left _ (mem_ancestors (nodes_distinct distinct) inWalk member below)

theorem allowed_of_dropRefusal (distinct : (allIds ir).Nodup) {moved : String} {slot : Slot}
    (allowed : dropRefusal ir moved slot.parentId = none) :
    ∃ path, find ir moved = some path ∧ Allowed ir path.node slot := by
  unfold dropRefusal at allowed
  cases found : find ir moved with
  | none =>
    rw [found] at allowed
    cases allowed
  | some moving =>
    refine ⟨moving, rfl, fun p isPlace => ?_⟩
    rw [found, isPlace] at allowed
    dsimp only at allowed
    split at allowed
    · cases allowed
    rename_i other
    cases foundTarget : find ir p with
    | none =>
      rw [foundTarget] at allowed
      cases allowed
    | some target =>
      rw [foundTarget] at allowed
      dsimp only at allowed
      split at allowed
      · cases allowed
      rename_i container
      split at allowed
      · cases allowed
      rename_i outside
      obtain ⟨inMoving, isMoved⟩ := node_of_find found
      obtain ⟨inTarget, isTarget⟩ := node_of_find foundTarget
      have inWalk := (find_some foundTarget).1
      refine ⟨target.node, inTarget, by simpa using container, isTarget, fun below => ?_, fun repeats t member over_ => ?_⟩
      · rw [nodes_eq] at below
        rcases List.mem_cons.mp below with same | below
        · rw [same, isMoved] at isTarget
          exact other isTarget.symm
        · refine outside (List.any_eq_true.mpr ⟨moving.node, ?_, by rw [isMoved, beq_self_eq_true]⟩)
          exact mem_ancestors (nodes_distinct distinct) inWalk inMoving below
      · have inChain := mem_chain distinct inWalk member over_
        rw [if_pos repeats] at allowed
        split at allowed
        · cases allowed
        rename_i noRepeat
        split at allowed
        · cases allowed
        rename_i noFieldList
        constructor
        · by_contra isRepeat
          exact noRepeat (List.any_eq_true.mpr ⟨t, inChain, by simpa using isRepeat⟩)
        · by_contra isFieldList
          exact noFieldList (List.any_eq_true.mpr ⟨t, inChain, by simpa using isFieldList⟩)

end Allowed

section Gap

variable {list : List String} {x : String}

theorem filter_absent (absent : x ∉ list) : list.filter (· ≠ x) = list := by
  apply List.filter_eq_self.mpr
  intro y member
  exact decide_eq_true fun same => absent (same ▸ member)

theorem gapped_of_notMem (absent : x ∉ list) (index : ℤ) :
    Forest.insertAt index.toNat x (list.filter (· ≠ x)) = gapped list index x := by
  rw [filter_absent absent, gapped, filter_absent fun member => absent (List.mem_of_mem_take member),
    filter_absent fun member => absent (List.mem_of_mem_drop member)]
  rfl

theorem gapped_of_mem (distinct : list.Nodup) {j : ℕ} (at_ : list[j]? = some x) (index : ℤ) :
    Forest.insertAt (if (j : ℤ) < index then index - 1 else index).toNat x (list.filter (· ≠ x)) = gapped list index x := by
  obtain ⟨within, isX⟩ := List.getElem?_eq_some_iff.mp at_
  have split : list = list.take j ++ x :: list.drop (j + 1) := by
    rw [← isX, List.getElem_cons_drop, List.take_append_drop]
  have length : (list.take j).length = j := List.length_take_of_le within.le
  generalize list.take j = before at split length
  generalize list.drop (j + 1) = after at split
  subst split
  obtain ⟨-, distinctAfter, apart⟩ := List.nodup_append'.mp distinct
  have notBefore : x ∉ before := fun member => apart member List.mem_cons_self
  have notAfter : x ∉ after := (List.nodup_cons.mp distinctAfter).1
  have filtered : (before ++ x :: after).filter (· ≠ x) = before ++ after := by
    rw [List.filter_append, List.filter_cons_of_neg (by simp), filter_absent notBefore, filter_absent notAfter]
  rw [filtered, gapped, Forest.insertAt]
  by_cases behind : (j : ℤ) < index
  · obtain ⟨m, rfl⟩ : ∃ m : ℕ, index = j + 1 + m := ⟨(index - (j + 1)).toNat, by omega⟩
    have less : ((j : ℤ) + 1 + m - 1).toNat = before.length + m := by omega
    have whole : ((j : ℤ) + 1 + m).toNat = before.length + (m + 1) := by omega
    rw [if_pos behind, less, whole, List.take_length_add_append, List.take_length_add_append, List.drop_length_add_append,
      List.drop_length_add_append, List.take_succ_cons, List.drop_succ_cons, List.filter_append, filter_absent notBefore,
      List.filter_cons_of_neg (by simp), filter_absent fun member => notAfter (List.mem_of_mem_take member),
      filter_absent fun member => notAfter (List.mem_of_mem_drop member)]
  · have short : index.toNat ≤ before.length := by omega
    rw [if_neg behind, List.take_append_of_le_length short, List.take_append_of_le_length short,
      List.drop_append_of_le_length short, List.drop_append_of_le_length short, List.filter_append,
      List.filter_cons_of_neg (by simp), filter_absent fun member => notBefore (List.mem_of_mem_take member),
      filter_absent fun member => notBefore (List.mem_of_mem_drop member), filter_absent notAfter]

end Gap

/-- The index that `moveNode` inserts at. -/
def corrected (path : NodePath ρ) (slot : Slot) : ℤ :=
  if sameList path slot && decide (path.index < slot.index) then slot.index - 1 else slot.index

theorem insertAt_corrected {path : NodePath ρ} {slot : Slot} {list : List (IrNode ρ)} (distinct : (list.map id).Nodup)
    (only : ∀ c ∈ list, id c = id path.node → c = path.node)
    (here : ∀ j, list[j]? = some path.node → sameList path slot = true ∧ path.index = j)
    (same : sameList path slot = true → list[path.index]? = some path.node) :
    Forest.insertAt (corrected path slot).toNat (id path.node) ((list.map id).filter (· ≠ id path.node)) =
      gapped (list.map id) slot.index (id path.node) := by
  cases inList : sameList path slot with
  | true =>
    have at_ : (list.map id)[path.index]? = some (id path.node) := by
      rw [List.getElem?_map, same inList]
      rfl
    rw [← gapped_of_mem distinct at_, corrected, inList]
    simp only [Bool.true_and, decide_eq_true_eq]
  | false =>
    have absent : id path.node ∉ list.map id := by
      intro member
      obtain ⟨c, inC, isC⟩ := List.mem_map.mp member
      obtain rfl := only c inC isC
      obtain ⟨j, within, at_⟩ := List.getElem_of_mem inC
      have found := (here j (List.getElem?_eq_some_iff.mpr ⟨within, at_⟩)).1
      rw [inList] at found
      cases found
    rw [← gapped_of_notMem absent, corrected, inList]
    rfl

section Move

variable {ir : FormIr ρ μ} {path : NodePath ρ} {slot : Slot}

def slotPlace (slot : Slot) (b : Container ρ) : Bool := slot.parentId == some b.id

theorem isPlace_iff {t : IrNode ρ} : isPlace (slotPlace slot) t = true ↔ isContainer t = true ∧ slot.parentId = some (id t) := by
  cases t with
  | leaf a => exact iff_of_false Bool.false_ne_true fun both => Bool.false_ne_true both.1
  | branch b children => exact beq_iff_eq.trans (and_iff_right rfl).symm

theorem placed_of_root (isRoot : slot.parentId = none) (i : ℕ) (new t : IrNode ρ) : placed (slotPlace slot) i new t = t := by
  apply placed_of_none
  intro u _
  by_contra isPlace
  have named := (isPlace_iff.mp (Bool.not_eq_false _ ▸ isPlace)).2
  rw [isRoot] at named
  cases named

def bereft (moved : String) : IrNode ρ → IrNode ρ := edited idOf moved fun _ => []

def without (ir : FormIr ρ μ) (moved : String) : List (IrNode ρ) := editedAll idOf moved (fun _ => []) ir.children

def entered (path : NodePath ρ) (slot : Slot) : IrNode ρ → IrNode ρ :=
  placed (slotPlace slot) (corrected path slot).toNat path.node

def landed (ir : FormIr ρ μ) (path : NodePath ρ) (slot : Slot) : List (IrNode ρ) :=
  match slot.parentId with
  | none => Forest.insertAt (corrected path slot).toNat path.node (without ir (id path.node))
  | some _ => placedAll (slotPlace slot) (corrected path slot).toNat path.node (without ir (id path.node))

theorem head_both (t : IrNode ρ) : (entered path slot (bereft (id path.node) t)).head = t.head := by
  rw [entered, bereft, head_placed, head_edited]

theorem id_bereft (moved : String) (t : IrNode ρ) : id (bereft moved t) = id t := key_edited idOf moved _ t

theorem head_bereft (moved : String) (t : IrNode ρ) : (bereft moved t).head = t.head := head_edited idOf moved _ t

theorem isContainer_congr {t u : IrNode ρ} (same : t.head = u.head) :
    isContainer t = isContainer u ∧ isRepeat t = isRepeat u ∧ isFieldList t = isFieldList u ∧ id t = id u := by
  refine ⟨?_, ?_, ?_, congrArg idOf same⟩
  all_goals cases t <;> cases u <;> simp_all [Tree.head, isContainer, isRepeat, isFieldList]

variable (distinct : (allIds ir).Nodup) (inWalk : path ∈ walk ir)

include distinct inWalk

theorem nodesOf_without :
    (nodesOf (without ir (id path.node))).Perm ((kept idOf (id path.node) ir.children).map (bereft (id path.node))) := by
  rw [allIds_eq] at distinct
  have parts := @nodesOf_editedAll_perm _ _ _ _ idOf (id path.node) (fun _ => []) ir.children path.node distinct
    (node_mem_of_descend inWalk) rfl
  rwa [nodesOf, List.append_nil] at parts

theorem without_distinct : ((nodesOf (without ir (id path.node))).map id).Nodup := by
  have perm := (nodesOf_without distinct inWalk).map id
  have same : id ∘ bereft (id path.node) = (id : IrNode ρ → String) := funext fun t => id_bereft _ t
  rw [List.map_map, same] at perm
  rw [perm.nodup_iff]
  rw [allIds_eq] at distinct
  exact distinct.sublist ((kept_sublist idOf _ ir.children).map id)

theorem nodesOf_landed (allowed : Allowed ir path.node slot) : (nodesOf (landed ir path slot)).Perm
    ((kept idOf (id path.node) ir.children).map (entered path slot ∘ bereft (id path.node)) ++ nodes path.node) := by
  have before := nodesOf_without distinct inWalk
  unfold landed
  cases isSlot : slot.parentId with
  | none =>
    have maps : entered path slot ∘ bereft (id path.node) = (bereft (id path.node) : IrNode ρ → IrNode ρ) :=
      funext fun t => placed_of_root isSlot _ _ _
    rw [maps]
    exact (nodesOf_insertAt _ _ _).trans (List.perm_append_comm.trans (before.append_right _))
  | some p =>
    obtain ⟨q, inQ, container, isQ, outside, -⟩ := allowed p isSlot
    have keptQ : q ∈ kept idOf (id path.node) ir.children := by
      have distinctKeys := allIds_eq ir ▸ distinct
      exact (mem_kept_iff distinctKeys (node_mem_of_descend inWalk) rfl).mpr ⟨inQ, outside⟩
    have once : news (slotPlace slot) path.node (without ir (id path.node)) = nodes path.node := by
      have distinctWithout := without_distinct distinct inWalk
      refine @news_eq _ _ _ _ _ (bereft (id path.node) q) (List.Nodup.of_map _ distinctWithout)
        (before.symm.subset (List.mem_map_of_mem keptQ)) ?_ ?_
      · rw [isPlace_iff, (isContainer_congr (head_bereft _ q)).1, id_bereft, isQ]
        exact ⟨container, isSlot⟩
      · intro t member isPlace
        apply List.inj_on_of_nodup_map distinctWithout member (before.symm.subset (List.mem_map_of_mem keptQ))
        rw [id_bereft, isQ]
        exact (Option.some.inj (isSlot.symm.trans (isPlace_iff.mp isPlace).2)).symm
    refine (nodesOf_placedAll _ _ _ _).trans ?_
    rw [once, ← List.map_map]
    exact (before.map _).append_right _

theorem ids_landed (allowed : Allowed ir path.node slot) : ((nodesOf (landed ir path slot)).map id).Perm (allIds ir) := by
  have after := (nodesOf_landed distinct inWalk allowed).map id
  have same : id ∘ entered path slot ∘ bereft (id path.node) = (id : IrNode ρ → String) :=
    funext fun t => congrArg idOf (head_both t)
  have before := nodesOf_perm_kept (allIds_eq ir ▸ distinct) (node_mem_of_descend inWalk) (rfl : key idOf path.node = _)
  rw [List.map_append, List.map_map, same, ← List.map_append] at after
  rw [allIds_eq]
  exact after.trans (before.map id).symm

theorem entered_bereft {t : IrNode ρ} (member : t ∈ nodesOf ir.children) (apart : path.node ∉ nodesOf t.children)
    (elsewhere : ¬ Above slot t) : entered path slot (bereft (id path.node) t) = t := by
  have without : bereft (id path.node) t = t := by
    apply edited_of_notMem
    intro listed
    obtain ⟨m, below, same⟩ := List.mem_map.mp listed
    have isNode := eq_of_id distinct (nodesOf_children_subset member below) (node_mem_of_descend inWalk) same
    exact apart (isNode ▸ below)
  rw [without]
  apply placed_of_none
  intro u below
  by_contra isPlace
  exact elsewhere ⟨u, below, (isPlace_iff.mp (Bool.not_eq_false _ ▸ isPlace)).2⟩

omit distinct inWalk in
theorem map_id_bereft (moved : String) (list : List (IrNode ρ)) :
    (editedAll idOf moved (fun _ => []) list).map id = (list.map id).filter (· ≠ moved) := by
  refine (map_key_editedAll list).trans ?_
  induction list with
  | nil => rfl
  | cons t list ih =>
    rw [List.flatMap_cons, ih, List.map_cons]
    by_cases here : id t = moved
    · rw [List.filter_cons_of_neg (by simpa using here)]
      exact congrArg (· ++ _) (if_pos here)
    · rw [List.filter_cons_of_pos (by simpa using here)]
      exact congrArg (· ++ _) (if_neg here)

theorem gap_of_children {t : IrNode ρ} (member : t ∈ nodesOf ir.children) (isSlot : slot.parentId = some (id t)) :
    Forest.insertAt (corrected path slot).toNat (id path.node) ((t.children.map id).filter (· ≠ id path.node)) =
      gapped (t.children.map id) slot.index (id path.node) := by
  have below : ∀ c ∈ t.children, c ∈ nodesOf ir.children := fun c child =>
    nodesOf_children_subset member (mem_nodesOf child)
  apply insertAt_corrected
  · exact map_key_distinct (keys_children_distinct (allIds_eq ir ▸ distinct) member)
  · exact fun c child same => eq_of_id distinct (below c child) (node_mem_of_descend inWalk) same
  · intro j child
    obtain ⟨other, inWalk', isNode, isParent, at_⟩ := @exists_path _ none [] 0 _ _ _ member _ child
    obtain rfl := path_unique distinct inWalk' inWalk isNode
    refine ⟨?_, at_⟩
    rw [sameList, isParent, Option.any_some, isSlot, beq_self_eq_true, Bool.or_true]
  · intro same
    rw [sameList, isSlot, Option.isNone_some, Bool.and_false, Bool.false_or] at same
    obtain ⟨q, isParent, named⟩ := (Option.any_eq_true _ _).mp same
    rcases stands_of_descend inWalk with ⟨none, -⟩ | ⟨q', inQ, isParent', child⟩
    · rw [isParent] at none
      cases none
    · obtain rfl := Option.some.inj (isParent.symm.trans isParent')
      have isT := eq_of_id distinct inQ member (Option.some.inj (beq_iff_eq.mp named)).symm
      exact isT ▸ child

theorem gap_of_root (isRoot : slot.parentId = none) :
    Forest.insertAt (corrected path slot).toNat (id path.node) ((ir.children.map id).filter (· ≠ id path.node)) =
      gapped (ir.children.map id) slot.index (id path.node) := by
  apply insertAt_corrected
  · exact map_key_distinct (allIds_eq ir ▸ distinct)
  · exact fun c child same => eq_of_id distinct (mem_nodesOf child) (node_mem_of_descend inWalk) same
  · intro j child
    obtain ⟨other, inWalk', isNode, isParent, at_⟩ := @exists_path_here _ none [] 0 _ _ _ child
    obtain rfl := path_unique distinct inWalk' inWalk isNode
    rw [Nat.zero_add] at at_
    refine ⟨?_, at_⟩
    rw [sameList, isParent, isRoot]
    rfl
  · intro same
    rcases stands_of_descend inWalk with ⟨-, j, at_, child⟩ | ⟨q, -, isParent, -⟩
    · rw [Nat.zero_add] at at_
      exact at_ ▸ child
    · rw [sameList, isParent, isRoot] at same
      cases same

theorem kept_of_notMem {t : IrNode ρ} (member : t ∈ nodesOf ir.children) (outside : t ∉ nodes path.node) :
    t ∈ kept idOf (id path.node) ir.children :=
  (mem_kept_iff (allIds_eq ir ▸ distinct) (node_mem_of_descend inWalk) rfl).mpr ⟨member, outside⟩

theorem mem_landed_iff (allowed : Allowed ir path.node slot) {m : IrNode ρ} : m ∈ nodesOf (landed ir path slot) ↔
    (∃ t ∈ kept idOf (id path.node) ir.children, m = entered path slot (bereft (id path.node) t)) ∨ m ∈ nodes path.node := by
  rw [(nodesOf_landed distinct inWalk allowed).mem_iff, List.mem_append, List.mem_map]
  exact or_congr_left ⟨fun ⟨t, kept, same⟩ => ⟨t, kept, same.symm⟩, fun ⟨t, kept, same⟩ => ⟨t, kept, same.symm⟩⟩

theorem root_landed : (landed ir path slot).map id = if slot.parentId = none then
    gapped (ir.children.map id) slot.index (id path.node) else (ir.children.map id).filter (· ≠ id path.node) := by
  unfold landed
  cases isSlot : slot.parentId with
  | none =>
    rw [if_pos rfl, map_insertAt, without, map_id_bereft]
    exact gap_of_root distinct inWalk isSlot
  | some p =>
    rw [if_neg (Option.some_ne_none p), placedAll_eq, List.map_map, ← map_id_bereft]
    exact List.map_congr_left fun t _ => congrArg idOf (head_placed _ _ _ t)

theorem children_landed (allowed : Allowed ir path.node slot) {t : IrNode ρ} (member : t ∈ nodesOf ir.children) :
    (entered path slot (bereft (id path.node) t)).children.map id = if slot.parentId = some (id t) then
      gapped (t.children.map id) slot.index (id path.node) else (t.children.map id).filter (· ≠ id path.node) := by
  have list : (bereft (id path.node) t).children.map id = (t.children.map id).filter (· ≠ id path.node) := by
    rw [bereft, children_edited]
    exact map_id_bereft _ _
  have isPlaced : isPlace (slotPlace slot) (bereft (id path.node) t) = true ↔ slot.parentId = some (id t) := by
    rw [isPlace_iff, (isContainer_congr (head_bereft _ t)).1, id_bereft]
    refine and_iff_right_of_imp fun isSlot => ?_
    obtain ⟨q, inQ, container, isQ, -⟩ := allowed _ isSlot
    exact eq_of_id distinct inQ member isQ ▸ container
  refine (map_key_children_placed idOf _).trans ?_
  by_cases isSlot : slot.parentId = some (id t)
  · rw [if_pos (isPlaced.mpr isSlot), if_pos isSlot, ← gap_of_children distinct inWalk member isSlot, ← list]
    rfl
  · rw [if_neg fun isPlace => isSlot (isPlaced.mp isPlace), if_neg isSlot]
    exact list

theorem lists_landed (allowed : Allowed ir path.node slot) {t : IrNode ρ} (member : t ∈ nodesOf ir.children) :
    ∃ t' ∈ nodesOf (landed ir path slot), t'.head = t.head ∧ t'.children.map id = if slot.parentId = some (id t) then
      gapped (t.children.map id) slot.index (id path.node) else (t.children.map id).filter (· ≠ id path.node) := by
  have inNode := node_mem_of_descend inWalk
  by_cases inside : t ∈ nodes path.node
  · refine ⟨t, (mem_landed_iff distinct inWalk allowed).mpr (.inr inside), rfl, ?_⟩
    have notSlot : slot.parentId ≠ some (id t) := by
      intro isSlot
      obtain ⟨q, inQ, -, isQ, outside, -⟩ := allowed _ isSlot
      exact outside (eq_of_id distinct inQ member isQ ▸ inside)
    rw [if_neg notSlot, filter_absent]
    intro listed
    obtain ⟨c, child, same⟩ := List.mem_map.mp listed
    have below : path.node ∈ nodesOf t.children := by
      rw [← eq_of_id distinct (nodesOf_children_subset member (mem_nodesOf child)) inNode same]
      exact mem_nodesOf child
    have apart := notMem_nodesOf_children (nodes_distinct distinct) inNode
    rw [nodes_eq] at inside
    rcases List.mem_cons.mp inside with rfl | inside
    · exact apart below
    · exact apart (nodesOf_children_subset inside below)
  · exact ⟨_, (mem_landed_iff distinct inWalk allowed).mpr (.inl ⟨t, kept_of_notMem distinct inWalk member inside, rfl⟩),
      head_both t, children_landed distinct inWalk allowed member⟩

omit distinct inWalk in
theorem mem_nodesOf_bereft {moved : String} {t u : IrNode ρ} (below : u ∈ nodesOf (bereft moved t).children) :
    ∃ v ∈ nodesOf t.children, u = bereft moved v := by
  rcases mem_nodesOf_edited below with ⟨v, kept, same⟩ | ⟨_, -, -, none⟩
  · exact ⟨v, (kept_sublist idOf moved _).subset kept, same⟩
  · cases none

omit distinct inWalk in
theorem nested_congr {a r a' r' : IrNode ρ} (below : r ∈ nodesOf a.children) (sameA : a'.head = a.head) (sameR : r'.head = r.head)
    (nested : Nested a' r') : Nested a r := by
  obtain ⟨-, repeatA, listA, -⟩ := isContainer_congr sameA
  obtain ⟨-, repeatR, -, -⟩ := isContainer_congr sameR
  obtain ⟨-, isRepeat, kinds⟩ := nested
  rw [repeatR] at isRepeat
  rw [repeatA, listA] at kinds
  exact ⟨below, isRepeat, kinds⟩

theorem not_nested_of_entered (allowed : Allowed ir path.node slot) {t q r' : IrNode ρ} (member : t ∈ nodesOf ir.children)
    (inside : q ∈ nodes (bereft (id path.node) t)) (isSlot : slot.parentId = some (id q)) (inSubtree : r' ∈ nodes path.node)
    (isRepeat' : isRepeat r' = true) : isRepeat t = false ∧ isFieldList t = false := by
  obtain ⟨q', inQ', -, isQ', -, plain⟩ := allowed _ isSlot
  have repeats : subtreeHasRepeat path.node = true := by
    rw [subtreeHasRepeat_eq]
    exact List.any_eq_true.mpr ⟨r', inSubtree, isRepeat'⟩
  refine plain repeats t member ?_
  rw [nodes_eq] at inside ⊢
  rcases List.mem_cons.mp inside with rfl | below
  · rw [id_bereft] at isQ'
    exact eq_of_id distinct inQ' member isQ' ▸ List.mem_cons_self
  · obtain ⟨v, below', rfl⟩ := mem_nodesOf_bereft below
    rw [id_bereft] at isQ'
    have same := eq_of_id distinct inQ' (nodesOf_children_subset member below') isQ'
    exact List.mem_cons_of_mem _ (same ▸ below')

theorem nesting_landed (allowed : Allowed ir path.node slot) {a' r' : IrNode ρ} (member : a' ∈ nodesOf (landed ir path slot))
    (nested : Nested a' r') : ∃ a ∈ nodesOf ir.children, ∃ r, Nested a r ∧ a.head = a'.head ∧ r.head = r'.head := by
  rcases (mem_landed_iff distinct inWalk allowed).mp member with ⟨t, kept, rfl⟩ | inSubtree
  · have inT := (kept_sublist idOf (id path.node) ir.children).subset kept
    rcases mem_nodesOf_placed nested.1 with ⟨u, below, rfl⟩ | ⟨inSubtree, q, inside, isPlace⟩
    · obtain ⟨v, below', rfl⟩ := mem_nodesOf_bereft below
      exact ⟨t, inT, v, nested_congr below' (head_both t) (head_both v) nested, (head_both t).symm, (head_both v).symm⟩
    · exfalso
      obtain ⟨noRepeat, noList⟩ :=
        not_nested_of_entered distinct inWalk allowed inT inside (isPlace_iff.mp isPlace).2 inSubtree nested.2.1
      obtain ⟨-, repeatT, listT, -⟩ := isContainer_congr (@head_both _ path slot t)
      have kinds := nested.2.2
      rw [repeatT, listT, noRepeat, noList] at kinds
      exact kinds.elim Bool.false_ne_true Bool.false_ne_true
  · rw [nodes_eq] at inSubtree
    have inNode := node_mem_of_descend inWalk
    have inA : a' ∈ nodesOf ir.children :=
      (List.mem_cons.mp inSubtree).elim (fun same => same ▸ inNode) fun below => nodesOf_children_subset inNode below
    exact ⟨a', inA, r', nested, rfl, rfl⟩

theorem moves_landed (allowed : Allowed ir path.node slot) :
    Moves ir { ir with children := landed ir path slot } path.node slot where
  rest := rfl
  ids := by
    rw [allIds_eq]
    exact ids_landed distinct inWalk allowed
  subtree := (mem_landed_iff distinct inWalk allowed).mpr (.inr (by rw [nodes_eq]; exact List.mem_cons_self))
  unchanged t member apart elsewhere := by
    refine (mem_landed_iff distinct inWalk allowed).mpr ?_
    by_cases inside : t ∈ nodes path.node
    · exact .inr inside
    · exact .inl ⟨t, kept_of_notMem distinct inWalk member inside,
        (entered_bereft distinct inWalk member apart elsewhere).symm⟩
  root := root_landed distinct inWalk
  lists _ member := lists_landed distinct inWalk allowed member
  nesting _ member _ nested := nesting_landed distinct inWalk allowed member nested

end Move

def Returns {τ : Type} (call : ℕ → Except Failure τ) (result : τ) : Prop := ∃ enough, ∀ stack, enough ≤ stack → call stack = .ok result

section Calls

variable {ir : FormIr ρ μ}

theorem removeNode_returns (ir : FormIr ρ μ) (moved : String) :
    Returns (removeNode · ir moved) { ir with children := without ir moved } := by
  have settles : Settles (fun node => if id node = moved then none else some node) ir.children (without ir moved) := by
    refine settles_edited (fun t other => if_neg other) ir.children fun t _ same => .inl ⟨if_pos same, rfl⟩
  obtain ⟨enough, returns⟩ := settles
  refine ⟨enough, fun stack more => ?_⟩
  show removeNode stack ir moved = _
  rw [removeNode, returns stack more]
  rfl

def intoSlot (list : List (IrNode ρ)) (slot : Slot) (node : IrNode ρ) : List (IrNode ρ) :=
  match slot.parentId with
  | none => Forest.insertAt slot.index.toNat node list
  | some _ => placedAll (slotPlace slot) slot.index.toNat node list

theorem slotPlace_eq {slot : Slot} {p : String} (isSlot : slot.parentId = some p) :
    (slotPlace slot : Container ρ → Bool) = inPlace p := by
  funext b
  rw [slotPlace, inPlace, isSlot, Bool.eq_iff_iff, beq_iff_eq, beq_iff_eq, Option.some.injEq]
  exact eq_comm

theorem insertNode_returns (ir : FormIr ρ μ) {slot : Slot} {node : IrNode ρ}
    (free : ∀ u ∈ nodes node, isPlace (slotPlace slot) u = false) :
    Returns (insertNode · ir slot node) { ir with children := intoSlot ir.children slot node } := by
  cases isSlot : slot.parentId with
  | none =>
    refine ⟨0, fun stack _ => ?_⟩
    show insertNode stack ir slot node = _
    unfold insertNode intoSlot
    rw [isSlot]
    dsimp only
    rw [insertAt_eq]
  | some p =>
    rw [slotPlace_eq isSlot] at free
    obtain ⟨enough, returns⟩ := settles_map (@settles_placed _ p slot.index node free ir.children)
    refine ⟨enough, fun stack more => ?_⟩
    have mapped : mapTree (inserting p slot.index node) stack ir.children =
        .ok (placedAll (slotPlace slot) slot.index.toNat node ir.children) := by
      rw [returns stack more, placedAll_eq, slotPlace_eq isSlot]
    show insertNode stack ir slot node = _
    unfold insertNode intoSlot
    rw [isSlot]
    exact congrArg (· >>= fun children => pure (withChildren ir children)) mapped

theorem Allowed.free {path : NodePath ρ} {slot : Slot} (distinct : (allIds ir).Nodup) (inWalk : path ∈ walk ir)
    (allowed : Allowed ir path.node slot) : ∀ u ∈ nodes path.node, isPlace (slotPlace slot) u = false := by
  intro u inside
  by_contra isPlace
  have inNode := node_mem_of_descend inWalk
  obtain ⟨q, inQ, -, isQ, outside, -⟩ := allowed _ (isPlace_iff.mp (Bool.not_eq_false _ ▸ isPlace)).2
  have inU : u ∈ nodesOf ir.children := by
    rw [nodes_eq] at inside
    exact (List.mem_cons.mp inside).elim (fun same => same ▸ inNode) fun below => nodesOf_children_subset inNode below
  exact outside (eq_of_id distinct inQ inU isQ ▸ inside)

theorem moveNode_moves (distinct : (allIds ir).Nodup) {moved : String} {slot : Slot}
    (notRefused : dropRefusal ir moved slot.parentId = none) :
    ∃ path, find ir moved = some path ∧ ∃ ir', Returns (moveNode · ir moved slot) ir' ∧ Moves ir ir' path.node slot := by
  obtain ⟨path, found, allowed⟩ := allowed_of_dropRefusal distinct notRefused
  obtain ⟨inWalk, isMoved⟩ := find_some found
  refine ⟨path, found, _, ?_, moves_landed distinct inWalk allowed⟩
  have free : ∀ u ∈ nodes path.node, isPlace (slotPlace { slot with index := corrected path slot }) u = false :=
    allowed.free distinct inWalk
  obtain ⟨enough, removes⟩ := removeNode_returns ir moved
  obtain ⟨enough', inserts⟩ := insertNode_returns { ir with children := without ir moved } free
  refine ⟨enough + enough', fun stack more => ?_⟩
  have isLanded : intoSlot (without ir moved) { slot with index := corrected path slot } path.node = landed ir path slot := by
    rw [← isMoved]
    rfl
  have removed := removes stack (by omega)
  have inserted := inserts stack (by omega)
  rw [isLanded] at inserted
  show moveNode stack ir moved slot = _
  unfold moveNode
  rw [notRefused, found]
  exact bind_ok_iff.mpr ⟨_, removed, inserted⟩

end Calls

section Replacing

/-- An edit that replaces the node of an id by others, or by none, and nothing else. -/
structure Replaces (ir ir' : FormIr ρ μ) (target : String) (g : IrNode ρ → List (IrNode ρ)) : Prop where
  rest : ir'.rest = ir.rest
  unchanged : ∀ t ∈ nodesOf ir.children,
    (∀ n ∈ nodesOf ir.children, id n = target → t ∉ nodes n ∧ n ∉ nodesOf t.children) → t ∈ nodesOf ir'.children
  root : ir'.children.map id = ir.children.flatMap fun t => if id t = target then (g t).map id else [id t]
  lists : ∀ t ∈ nodesOf ir.children, (∀ n ∈ nodesOf ir.children, id n = target → t ∉ nodes n) →
    ∃ t' ∈ nodesOf ir'.children, t'.head = t.head ∧
      t'.children.map id = t.children.flatMap fun c => if id c = target then (g c).map id else [id c]
  there : ∀ n ∈ nodesOf ir.children, id n = target → nodesOf (g n) ⊆ nodesOf ir'.children
  only : ∀ m ∈ nodesOf ir'.children, (∃ t ∈ nodesOf ir.children, m.head = t.head ∧
    ∀ n ∈ nodesOf ir.children, id n = target → t ∉ nodes n) ∨
      ∃ n ∈ nodesOf ir.children, id n = target ∧ m ∈ nodesOf (g n)

variable {ir : FormIr ρ μ} {target : String} {g : IrNode ρ → List (IrNode ρ)}

theorem kept_of_outside {t : IrNode ρ} (member : t ∈ nodesOf ir.children)
    (outside : ∀ n ∈ nodesOf ir.children, id n = target → t ∉ nodes n) : t ∈ kept idOf target ir.children := by
  rcases List.mem_append.mp ((@nodesOf_perm _ _ _ _ idOf target ir.children).subset member) with kept | inCut
  · exact kept
  · obtain ⟨n, cut, inside⟩ := List.mem_flatMap.mp inCut
    exact absurd inside (outside n ((cut_sublist idOf target _).subset cut) (key_of_mem_cut idOf target cut))

theorem replaces_editedAll (distinct : (allIds ir).Nodup) :
    Replaces ir { ir with children := editedAll idOf target g ir.children } target g where
  rest := rfl
  unchanged t member apart := by
    have same : edited idOf target g t = t := by
      apply edited_of_notMem
      intro listed
      obtain ⟨n, below, isTarget⟩ := List.mem_map.mp listed
      exact (apart n (nodesOf_children_subset member below) isTarget).2 below
    have listed := kept_of_outside member fun n inN isTarget => (apart n inN isTarget).1
    refine (nodesOf_editedAll idOf target g ir.children).symm.subset (List.mem_append_left _ ?_)
    exact List.mem_map.mpr ⟨t, listed, same⟩
  root := map_key_editedAll ir.children
  lists t member outside := by
    refine ⟨edited idOf target g t, ?_, head_edited idOf target g t, ?_⟩
    · refine (nodesOf_editedAll idOf target g ir.children).symm.subset (List.mem_append_left _ ?_)
      exact List.mem_map_of_mem (kept_of_outside member outside)
    · rw [children_edited]
      exact map_key_editedAll t.children
  there n member isTarget := by
    have cut := cut_eq (allIds_eq ir ▸ distinct) member isTarget
    refine fun m inside => (nodesOf_editedAll idOf target g ir.children).symm.subset (List.mem_append_right _ ?_)
    rw [cut, List.flatMap_singleton]
    exact inside
  only m member := by
    rcases List.mem_append.mp ((nodesOf_editedAll idOf target g ir.children).subset member) with before | replaced
    · obtain ⟨t, listed, rfl⟩ := List.mem_map.mp before
      refine .inl ⟨t, (kept_sublist idOf target _).subset listed, head_edited idOf target g t, fun n inN isTarget inside => ?_⟩
      exact ((mem_kept_iff (allIds_eq ir ▸ distinct) inN isTarget).mp listed).2 inside
    · obtain ⟨n, cut, inside⟩ := List.mem_flatMap.mp replaced
      exact .inr ⟨n, (cut_sublist idOf target _).subset cut, key_of_mem_cut idOf target cut, inside⟩

theorem updateNode_returns {patch : IrNode ρ → IrNode ρ}
    (once : ∀ n ∈ nodesOf ir.children, id n = target → target ∉ keys idOf (patch n).children) :
    Returns (updateNode · ir target patch) { ir with children := editedAll idOf target (fun t => [patch t]) ir.children } := by
  have settles : Settles (fun node => if id node = target then some (patch node) else some node) ir.children
      (editedAll idOf target (fun t => [patch t]) ir.children) := by
    refine settles_edited (fun t other => if_neg other) ir.children fun t member same => .inr ⟨patch t, if_pos same, rfl, ?_⟩
    exact once t member same
  obtain ⟨enough, returns⟩ := settles
  refine ⟨enough, fun stack more => ?_⟩
  show updateNode stack ir target patch = _
  rw [updateNode, returns stack more]
  rfl

end Replacing

section Inserting

variable {ir : FormIr ρ μ} {slot : Slot} {node : IrNode ρ}

def There (ir : FormIr ρ μ) (slot : Slot) : Prop :=
  slot.parentId = none ∨ ∃ q ∈ nodesOf ir.children, isPlace (slotPlace slot) q = true

structure Inserts (ir ir' : FormIr ρ μ) (slot : Slot) (node : IrNode ρ) : Prop where
  rest : ir'.rest = ir.rest
  unchanged : ∀ t ∈ nodesOf ir.children, ¬ Above slot t → t ∈ nodesOf ir'.children
  root : ir'.children.map id =
    if slot.parentId = none then Forest.insertAt slot.index.toNat (id node) (ir.children.map id) else ir.children.map id
  lists : ∀ t ∈ nodesOf ir.children, ∃ t' ∈ nodesOf ir'.children, t'.head = t.head ∧ t'.children.map id =
    if isPlace (slotPlace slot) t then Forest.insertAt slot.index.toNat (id node) (t.children.map id) else t.children.map id
  subtree : There ir slot → nodes node ⊆ nodesOf ir'.children
  only : ∀ m ∈ nodesOf ir'.children, (∃ t ∈ nodesOf ir.children, m.head = t.head) ∨ There ir slot ∧ m ∈ nodes node

def Entangled (ir : FormIr ρ μ) (slot : Slot) (node : IrNode ρ) : Prop :=
  (∃ q ∈ nodesOf ir.children, isPlace (slotPlace slot) q = true) ∧ ∃ u ∈ nodes node, isPlace (slotPlace slot) u = true

theorem nodesOf_intoSlot (ir : FormIr ρ μ) (slot : Slot) (node : IrNode ρ) :
    ∃ extra, (nodesOf (intoSlot ir.children slot node)).Perm
      ((nodesOf ir.children).map (placed (slotPlace slot) slot.index.toNat node) ++ extra) ∧
      (There ir slot → nodes node ⊆ extra) ∧ ∀ m ∈ extra, There ir slot ∧ m ∈ nodes node := by
  unfold intoSlot There
  cases isSlot : slot.parentId with
  | none =>
    have maps : placed (slotPlace slot) slot.index.toNat node = fun t => t := funext (placed_of_root isSlot _ node)
    refine ⟨nodes node, ?_, fun _ => List.Subset.refl _, fun m inside => ⟨.inl rfl, inside⟩⟩
    rw [maps, List.map_id']
    exact (nodesOf_insertAt _ _ _).trans List.perm_append_comm
  | some p =>
    refine ⟨_, nodesOf_placedAll _ _ _ _, ?_, ?_⟩
    · rintro (none | ⟨q, member, isPlace⟩) m inside
      · cases none
      · exact List.mem_flatMap.mpr ⟨q, List.mem_filter.mpr ⟨member, isPlace⟩, inside⟩
    · intro m extra
      obtain ⟨q, listed, inside⟩ := List.mem_flatMap.mp extra
      exact ⟨.inr ⟨q, (List.mem_filter.mp listed).1, (List.mem_filter.mp listed).2⟩, inside⟩

theorem inserts_intoSlot (ir : FormIr ρ μ) (slot : Slot) (node : IrNode ρ) :
    Inserts ir { ir with children := intoSlot ir.children slot node } slot node := by
  obtain ⟨extra, perm, inExtra, ofExtra⟩ := nodesOf_intoSlot ir slot node
  constructor
  · rfl
  · intro t member elsewhere
    refine perm.symm.subset (List.mem_append_left _ (List.mem_map.mpr ⟨t, member, placed_of_none fun u inside => ?_⟩))
    by_contra isPlace
    exact elsewhere ⟨u, inside, (isPlace_iff.mp (Bool.not_eq_false _ ▸ isPlace)).2⟩
  · show (intoSlot ir.children slot node).map id = _
    unfold intoSlot
    cases isSlot : slot.parentId with
    | none =>
      rw [if_pos rfl]
      exact map_insertAt id _ node ir.children
    | some p =>
      rw [if_neg (Option.some_ne_none p), placedAll_eq, List.map_map]
      exact List.map_congr_left fun t _ => congrArg idOf (head_placed _ _ _ t)
  · intro t member
    exact ⟨_, perm.symm.subset (List.mem_append_left _ (List.mem_map_of_mem member)), head_placed _ _ _ t,
      map_key_children_placed idOf t⟩
  · exact fun there m inside => perm.symm.subset (List.mem_append_right _ (inExtra there inside))
  · intro m member
    rcases List.mem_append.mp (perm.subset member) with before | isExtra
    · obtain ⟨t, listed, rfl⟩ := List.mem_map.mp before
      exact .inl ⟨t, listed, head_placed _ _ _ t⟩
    · exact .inr (ofExtra m isExtra)

theorem mapList_deeper {fn : IrNode ρ → Option (IrNode ρ)} {deeper : List (IrNode ρ) → Except Failure (List (IrNode ρ))}
    {list result : List (IrNode ρ)} (mapped : mapList fn deeper list = .ok result) {t : IrNode ρ} (member : t ∈ list)
    {b : Container ρ} {children : List (IrNode ρ)} (becomes : fn t = some (.branch b children)) :
    ∃ below, deeper children = .ok below := by
  induction list generalizing result with
  | nil => cases member
  | cons first rest ih =>
    rw [mapList] at mapped
    rcases List.mem_cons.mp member with rfl | later
    · rw [becomes] at mapped
      obtain ⟨below, inside, -⟩ := bind_ok_iff.mp mapped
      exact ⟨below, inside⟩
    · cases isFirst : fn first with
      | none =>
        rw [isFirst] at mapped
        exact ih mapped later
      | some first' =>
        rw [isFirst] at mapped
        cases first' with
        | leaf a =>
          obtain ⟨after, mappedRest, -⟩ := bind_ok_iff.mp mapped
          exact ih mappedRest later
        | branch b' children' =>
          obtain ⟨below, -, tail⟩ := bind_ok_iff.mp mapped
          obtain ⟨after, mappedRest, -⟩ := bind_ok_iff.mp tail
          exact ih mappedRest later

theorem mapTree_entangled {p : String} {index : ℤ} (inNode : ∃ u ∈ nodes node, isPlace (inPlace p) u = true) (stack : ℕ) :
    ∀ list : List (IrNode ρ), (∃ q ∈ nodesOf list, isPlace (inPlace p) q = true) →
      ∀ result, mapTree (inserting p index node) stack list ≠ .ok result := by
  induction stack with
  | zero =>
    intro list _ result returned
    cases returned
  | succ stack ih =>
    rintro list ⟨q, inList, isQ⟩ result returned
    obtain ⟨t, member, inside⟩ := mem_nodesOf_iff.mp inList
    have becomes := inserting_eq p index node t
    cases t with
    | leaf a =>
      obtain rfl := List.mem_singleton.mp inside
      cases isQ
    | branch b children =>
      by_cases here : isPlace (inPlace p) (Tree.branch b children : IrNode ρ) = true
      · rw [here, if_pos rfl, withChild, insertAt_eq] at becomes
        obtain ⟨below, mapped⟩ := mapList_deeper returned member becomes
        refine ih _ ?_ below mapped
        obtain ⟨u, inside, isU⟩ := inNode
        exact ⟨u, (nodesOf_insertAt _ node children).symm.subset (List.mem_append_left _ inside), isU⟩
      · rw [if_neg here] at becomes
        obtain ⟨below, mapped⟩ := mapList_deeper returned member becomes
        refine ih _ ?_ below mapped
        rcases List.mem_cons.mp inside with rfl | inBelow
        · exact absurd isQ here
        · exact ⟨q, inBelow, isQ⟩

theorem exists_place_or (ir : FormIr ρ μ) (slot : Slot) (node : IrNode ρ) (apart : ¬ Entangled ir slot node) :
    (∀ q ∈ nodesOf ir.children, isPlace (slotPlace slot) q = false) ∨ ∀ u ∈ nodes node, isPlace (slotPlace slot) u = false := by
  by_contra both
  simp only [not_or, not_forall, Bool.not_eq_false] at both
  obtain ⟨⟨q, member, isQ⟩, u, inside, isU⟩ := both
  exact apart ⟨⟨q, member, isQ⟩, u, inside, isU⟩

theorem insertNode_absent {p : String} (isSlot : slot.parentId = some p)
    (noPlace : ∀ q ∈ nodesOf ir.children, isPlace (slotPlace slot) q = false) :
    Returns (insertNode · ir slot node) { ir with children := intoSlot ir.children slot node } := by
  have same : intoSlot ir.children slot node = ir.children := by
    unfold intoSlot
    rw [isSlot]
    exact placedAll_of_none noPlace
  rw [slotPlace_eq isSlot] at noPlace
  obtain ⟨enough, returns⟩ := @settles_same _ (inserting p slot.index node) ir.children fun t member => by
    rw [inserting_eq, noPlace t member, if_neg Bool.false_ne_true]
  refine ⟨enough, fun stack more => ?_⟩
  show insertNode stack ir slot node = _
  unfold insertNode
  rw [isSlot, same]
  exact congrArg (· >>= fun children => pure (withChildren ir children)) (returns stack more)

theorem insertNode_returns_iff (ir : FormIr ρ μ) (slot : Slot) (node : IrNode ρ) :
    (∃ ir', Returns (insertNode · ir slot node) ir' ∧ Inserts ir ir' slot node) ↔ ¬ Entangled ir slot node := by
  constructor
  · rintro ⟨ir', ⟨enough, returns⟩, -⟩ ⟨inDocument, inNode⟩
    cases isSlot : slot.parentId with
    | none =>
      obtain ⟨q, -, isQ⟩ := inDocument
      have named := (isPlace_iff.mp isQ).2
      rw [isSlot] at named
      cases named
    | some p =>
      have returned := returns enough le_rfl
      dsimp only at returned
      unfold insertNode at returned
      rw [isSlot] at returned
      obtain ⟨list, mapped, -⟩ := bind_ok_iff.mp returned
      rw [slotPlace_eq isSlot] at inDocument inNode
      exact mapTree_entangled inNode enough _ inDocument list mapped
  · intro apart
    refine ⟨_, ?_, inserts_intoSlot ir slot node⟩
    rcases exists_place_or ir slot node apart with noPlace | free
    · cases isSlot : slot.parentId with
      | none =>
        refine insertNode_returns ir fun u _ => ?_
        by_contra isPlace
        have named := (isPlace_iff.mp (Bool.not_eq_false _ ▸ isPlace)).2
        rw [isSlot] at named
        cases named
      | some p =>
        exact insertNode_absent isSlot noPlace
    · exact insertNode_returns ir free

end Inserting

section Naming

theorem idChar_underscored {run : Bool} {text : List Char} {c : Char} (member : c ∈ underscored run text) : idChar c = true := by
  induction text generalizing run with
  | nil => cases member
  | cons first text ih =>
    rw [underscored] at member
    split at member
    · rename_i isChar
      rcases List.mem_cons.mp member with rfl | later
      · exact isChar
      · exact ih later
    · split at member
      · exact ih member
      · rcases List.mem_cons.mp member with rfl | later
        · rfl
        · exact ih later

theorem rdropWhile_cons {p : Char → Bool} {text : List Char} (some : text.rdropWhile p ≠ []) :
    ∃ first rest, text.rdropWhile p = first :: rest ∧ text.head? = Option.some first := by
  obtain ⟨rest, whole⟩ := List.rdropWhile_prefix p text
  cases cut : text.rdropWhile p with
  | nil => exact absurd cut some
  | cons first more =>
    rw [cut] at whole
    exact ⟨first, more, rfl, by rw [← whole]; rfl⟩

theorem cleaned_valid (toLowerCase : String → String) (base : String) : ValidId (cleaned toLowerCase base) := by
  unfold cleaned
  dsimp only
  split
  · exact ⟨'q', [], rfl, rfl, rfl⟩
  · rename_i some
    obtain ⟨first, rest, isCut, isHead⟩ := rdropWhile_cons some
    refine ⟨first, rest, isCut, ?_, List.all_eq_true.mpr fun c member => ?_⟩
    · have stops := List.head?_dropWhile_not (fun c => !idLetter c) (underscored false (toLowerCase base).toList)
      rw [isHead] at stops
      simpa using stops
    · apply @idChar_underscored false (toLowerCase base).toList
      have inCut : c ∈ first :: rest := List.mem_cons_of_mem _ member
      rw [← isCut] at inCut
      exact (List.dropWhile_suffix _).subset ((List.rdropWhile_prefix _ _).subset inCut)

theorem candidate_valid {text : List Char} (valid : ValidId text) (n : ℕ) : ValidId (candidate text n).toList := by
  obtain ⟨first, rest, rfl, letter, all⟩ := valid
  unfold candidate
  split
  · rw [String.toList_ofList]
    exact ⟨first, rest, rfl, letter, all⟩
  · rw [String.toList_ofList]
    refine ⟨first, rest ++ '_' :: (toString (n + 1)).toList, rfl, letter, ?_⟩
    have digits : (toString (n + 1)).toList.all idChar = true := by
      rw [Nat.toString_eq_repr, Nat.toList_repr]
      refine List.all_eq_true.mpr fun c member => ?_
      rw [idChar, Nat.isDigit_of_mem_toDigits (by decide) (by decide) member, Bool.or_true, Bool.true_or]
    rw [List.all_append, all, List.all_cons, digits]
    rfl

theorem candidate_apart {text : List Char} {m n : ℕ} (numbered : 1 ≤ m) (numbered' : 1 ≤ n)
    (same : candidate text m = candidate text n) : m = n := by
  rw [candidate, candidate, if_neg (by omega), if_neg (by omega)] at same
  have texts := (List.cons.inj (List.append_cancel_left (String.ofList_injective same))).2
  have values := congrArg (Nat.ofDigitChars 10 · 0) texts
  simp only [Nat.toString_eq_repr, Nat.toList_repr, Nat.ofDigitChars_ten_toDigits] at values
  omega

theorem uniqueId_ends (toLowerCase : String → String) (ir : FormIr ρ μ) (base : String) :
    ∃ turns name, uniqueId toLowerCase turns ir base = some name ∧ ValidId name.toList ∧ name ∉ allIds ir := by
  have ends := @firstFree_ends _ _ (candidate (cleaned toLowerCase base)) _ 1 (fun name => name) (allIds ir)
    fun m n numbered numbered' same => candidate_apart numbered numbered' same
  obtain ⟨name, found⟩ := ends
  obtain ⟨free, n, -, -, rfl⟩ := firstFree_found found
  exact ⟨_, _, found, candidate_valid (cleaned_valid toLowerCase base) n, of_decide_eq_true free⟩

end Naming

/-- The edits of a document change their target alone, and a new id is free. -/
structure EditsKeep (ir : FormIr ρ μ) : Prop where
  move : ∀ (moved : String) (slot : Slot), dropRefusal ir moved slot.parentId = none →
    ∃ path, find ir moved = some path ∧ ∃ ir', Returns (moveNode · ir moved slot) ir' ∧ Moves ir ir' path.node slot
  insertion : ∀ (slot : Slot) (node : IrNode ρ),
    (∃ ir', Returns (insertNode · ir slot node) ir' ∧ Inserts ir ir' slot node) ↔ ¬ Entangled ir slot node
  removal : ∀ target : String, ∃ ir', Returns (removeNode · ir target) ir' ∧ Replaces ir ir' target fun _ => []
  update : ∀ (target : String) (patch : IrNode ρ → IrNode ρ),
    (∀ n ∈ nodesOf ir.children, id n = target → target ∉ keys idOf (patch n).children) →
      ∃ ir', Returns (updateNode · ir target patch) ir' ∧ Replaces ir ir' target fun t => [patch t]
  naming : ∀ (toLowerCase : String → String) (base : String),
    ∃ turns name, uniqueId toLowerCase turns ir base = some name ∧ ValidId name.toList ∧ name ∉ allIds ir

theorem edits_keep {ir : FormIr ρ μ} (distinct : (allIds ir).Nodup) : EditsKeep ir where
  move _ _ notRefused := moveNode_moves distinct notRefused
  insertion := insertNode_returns_iff ir
  removal target := ⟨_, removeNode_returns ir target, replaces_editedAll distinct⟩
  update target patch once := ⟨_, updateNode_returns once, replaces_editedAll distinct⟩
  naming toLowerCase base := uniqueId_ends toLowerCase ir base

def household : FormIr Unit Unit where
  children :=
    [.leaf ⟨⟨"question", by decide⟩, "consent", ()⟩,
      .branch ⟨.group none, "hh", ()⟩
        [.leaf ⟨⟨"question", by decide⟩, "size", ()⟩,
          .branch ⟨.rows, "members", ()⟩ [.leaf ⟨⟨"question", by decide⟩, "name", ()⟩]],
      .branch ⟨.group (some "field-list"), "page", ()⟩ [.leaf ⟨⟨"question", by decide⟩, "a", ()⟩]]
  rest := ()

theorem household_edits : (allIds household).Nodup ∧ EditsKeep household :=
  have distinct : (allIds household).Nodup := by decide
  ⟨distinct, edits_keep distinct⟩

/-- Dropped behind the group, the question stands behind it. -/
example : ((moveNode 9 household "consent" ⟨none, 2⟩).toOption.map fun ir => ir.children.map id) =
    some ["hh", "consent", "page"] := rfl

end DataCollectionLab.Builder.Document
