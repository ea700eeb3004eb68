import DataCollectionLab.Form.Document
import DataCollectionLab.Form.Evaluator
import DataCollectionLab.Lib.KahnLeast
import DataCollectionLab.Lib.Lists

/-!
The order in which a form is evaluated. The server numbers the fields and takes the lowest of a heap, the phone
keeps a list of names and sorts it again in every turn; both give the least order in which every field comes
after all it reads.
-/

namespace DataCollectionLab.Form

open Lib

variable (form : CompiledForm)

namespace Evaluator

/-- The maps and lists of `topologicalOrder`. -/
structure Sorting where
  indegree : String → ℕ
  ready : List String
  result : List String

def edges : List (String × String) :=
  form.fields.flatMap fun cf =>
    ((cf.dependsOn.map base).filter fun name => name ∈ form.order ∧ name ≠ cf.fieldId).map fun name =>
      (name, cf.fieldId)

def dependents (name : String) : List String := ((edges form).filter fun edge => edge.1 = name).map Prod.snd

def indegree (path : String) : ℕ := ((edges form).filter fun edge => edge.2 = path).length

def documentIndex (path : String) : ℕ := form.order.idxOf path

def start : Sorting where
  indegree := indegree form
  ready := form.order.filter fun path => indegree form path = 0
  result := []

def release (s : Sorting) (dep : String) : Sorting :=
  let left := s.indegree dep - 1
  { s with
    indegree := fun path => if path = dep then left else s.indegree path
    ready := if left = 0 then s.ready ++ [dep] else s.ready }

def turn (s : Sorting) : Option Sorting :=
  match s.ready.mergeSort fun a b => documentIndex form a ≤ documentIndex form b with
  | [] => none
  | current :: rest =>
    some ((dependents form current).foldl release { s with ready := rest, result := s.result ++ [current] })

def loop : ℕ → Sorting → Sorting
  | 0, s => s
  | fuel + 1, s =>
    match turn form s with
    | some s' => loop fuel s'
    | none => s

/-- The order of `sorted` on texts. -/
def textLe (a b : String) : Bool := !lexLt (utf16 b.toList) (utf16 a.toList)

def topologicalOrder : Except Failure (List String) :=
  let result := (loop form form.fields.length (start form)).result
  if result.length ≠ form.fields.length then
    refuse ("dependency cycle involving: " ++
      ", ".intercalate ((form.order.filter (· ∉ result)).mergeSort textLe))
  else .ok result

end Evaluator

def Reads (fid gid : String) : Prop :=
  ∃ cf ∈ form.fields, cf.fieldId = fid ∧ gid ∈ form.order ∧ gid ≠ fid ∧ gid ∈ cf.dependsOn.map base

def Respects (result : List String) : Prop :=
  ∀ before fid after, result = before ++ fid :: after → ∀ gid, Reads form fid gid → gid ∈ before

def OnCycleOrBelow (fid : String) : Prop :=
  ∃ gid, Relation.ReflTransGen (Reads form) fid gid ∧ Relation.TransGen (Reads form) gid gid

variable {form}

section Names

theorem getElem?_order_iff (distinct : form.order.Nodup) {p : ℕ} {fid : String} :
    form.order[p]? = some fid ↔ fid ∈ form.order ∧ form.order.idxOf fid = p := by
  constructor
  · intro found
    obtain ⟨below, rfl⟩ := List.getElem?_eq_some_iff.mp found
    exact ⟨List.getElem_mem below, distinct.idxOf_getElem p below⟩
  · rintro ⟨member, rfl⟩
    exact List.getElem?_idxOf member

theorem idxOf?_order_iff (distinct : form.order.Nodup) {p : ℕ} {fid : String} :
    form.order.idxOf? fid = some p ↔ form.order[p]? = some fid := by
  constructor
  · intro found
    obtain ⟨below, here, -⟩ := List.idxOf?_eq_some_iff.mp found
    exact List.getElem?_eq_some_iff.mpr ⟨below, here⟩
  · intro here
    obtain ⟨q, found⟩ := Option.isSome_iff_exists.mp (List.isSome_idxOf?.mpr (List.mem_of_getElem? here))
    obtain ⟨below, there, -⟩ := List.idxOf?_eq_some_iff.mp found
    rw [found, (List.getElem?_inj below distinct).mp ((List.getElem?_eq_some_iff.mpr ⟨below, there⟩).trans here.symm)]

theorem order_inj (distinct : form.order.Nodup) {p q : ℕ} {fid : String} (here : form.order[p]? = some fid)
    (there : form.order[q]? = some fid) : p = q := by
  rw [← idxOf?_order_iff distinct] at here there
  exact Option.some.inj (here.symm.trans there)

theorem getElem?_order (p : ℕ) : form.order[p]? = form.fields[p]?.map CompiledField.fieldId := List.getElem?_map

theorem mem_bases_iff {p q : ℕ} :
    q ∈ bases form p ↔ ∃ cf, form.fields[p]? = some cf ∧
      ∃ name ∈ cf.dependsOn.map base, name ≠ cf.fieldId ∧ form.order.idxOf? name = some q := by
  unfold bases
  cases form.fields[p]? with
  | none => simp
  | some cf =>
    simp only [List.mem_filterMap, Option.some.injEq, exists_eq_left']
    apply exists_congr
    intro name
    by_cases same : name = cf.fieldId <;> simp [same]

theorem bases_bounded (p : ℕ) : ∀ b ∈ bases form p, b < form.fields.length := by
  intro b member
  obtain ⟨cf, -, name, -, -, found⟩ := mem_bases_iff.mp member
  obtain ⟨below, -, -⟩ := List.idxOf?_eq_some_iff.mp found
  rwa [CompiledForm.order, List.length_map] at below

theorem reads_iff (distinct : form.order.Nodup) {p q : ℕ} {fid gid : String} (here : form.order[p]? = some fid)
    (there : form.order[q]? = some gid) : Reads form fid gid ↔ q ∈ bases form p := by
  constructor
  · rintro ⟨cf, member, rfl, listed, other, depends⟩
    obtain ⟨p', at_p'⟩ := List.mem_iff_getElem?.mp member
    have named : form.order[p']? = some cf.fieldId := by rw [getElem?_order, at_p', Option.map_some]
    obtain rfl := order_inj distinct named here
    exact mem_bases_iff.mpr ⟨cf, at_p', gid, depends, other, (idxOf?_order_iff distinct).mpr there⟩
  · intro based
    obtain ⟨cf, at_p, name, depends, other, found⟩ := mem_bases_iff.mp based
    rw [idxOf?_order_iff distinct, there] at found
    obtain rfl := Option.some.inj found
    rw [getElem?_order, at_p, Option.map_some] at here
    obtain rfl := Option.some.inj here
    exact ⟨cf, List.mem_of_getElem? at_p, rfl, List.mem_of_getElem? there, other, depends⟩

def named (form : CompiledForm) (l : List ℕ) : List String := l.filterMap fun p => form.order[p]?

theorem named_cons {p : ℕ} {fid : String} (here : form.order[p]? = some fid) (l : List ℕ) :
    named form (p :: l) = fid :: named form l := List.filterMap_cons_some here

theorem mem_named {l : List ℕ} {fid : String} : fid ∈ named form l ↔ ∃ p ∈ l, form.order[p]? = some fid :=
  List.mem_filterMap

theorem length_named {l : List ℕ} (bounded : ∀ p ∈ l, p < form.fields.length) : (named form l).length = l.length := by
  induction l with
  | nil => rfl
  | cons p l ih =>
    have below : p < form.order.length := by
      rw [CompiledForm.order, List.length_map]
      exact bounded p List.mem_cons_self
    rw [named_cons (List.getElem?_eq_getElem below), List.length_cons, List.length_cons,
      ih fun q member => bounded q (List.mem_cons_of_mem _ member)]

theorem exists_name {p : ℕ} (below : p < form.fields.length) : ∃ fid, form.order[p]? = some fid := by
  refine ⟨_, List.getElem?_eq_getElem ?_⟩
  rwa [CompiledForm.order, List.length_map]

end Names

namespace Evaluator

section Edges

def edgesOf (form : CompiledForm) (cf : CompiledField) : List (String × String) :=
  ((cf.dependsOn.map base).filter fun name => name ∈ form.order ∧ name ≠ cf.fieldId).map fun name => (name, cf.fieldId)

theorem edges_eq : edges form = form.fields.flatMap (edgesOf form) := rfl

theorem edgesOf_bases {p : ℕ} {cf : CompiledField} (here : form.fields[p]? = some cf) :
    ((edgesOf form cf).map Prod.fst).map (fun name => form.order.idxOf? name) = (bases form p).map some := by
  unfold edgesOf bases
  rw [here]
  dsimp only
  induction cf.dependsOn.map base with
  | nil => rfl
  | cons name rest ih =>
    by_cases own : name = cf.fieldId
    · simpa [own] using ih
    · by_cases listed : name ∈ form.order
      · obtain ⟨q, found⟩ := Option.isSome_iff_exists.mp (List.isSome_idxOf?.mpr listed)
        simpa [own, listed, found] using ih
      · have missing : form.order.idxOf? name = none := List.idxOf?_eq_none_iff.mpr listed
        simpa [own, listed, missing] using ih

theorem snd_edgesOf {cf : CompiledField} {edge : String × String} (member : edge ∈ edgesOf form cf) :
    edge.2 = cf.fieldId := by
  obtain ⟨name, -, rfl⟩ := List.mem_map.mp member
  rfl

theorem length_edgesOf {p : ℕ} {cf : CompiledField} (here : form.fields[p]? = some cf) :
    (edgesOf form cf).length = (bases form p).length := by
  have same := congrArg List.length (edgesOf_bases here)
  simpa using same

theorem indegree_eq (distinct : form.order.Nodup) {p : ℕ} {cf : CompiledField} (here : form.fields[p]? = some cf) :
    indegree form cf.fieldId = (bases form p).length := by
  rw [← length_edgesOf here, indegree, edges_eq]
  obtain ⟨before, after, whole⟩ := List.append_of_mem (List.mem_of_getElem? here)
  have others (l : List CompiledField) (apart : cf.fieldId ∉ l.map CompiledField.fieldId) :
      (l.flatMap (edgesOf form)).filter (fun edge => edge.2 = cf.fieldId) = [] := by
    rw [List.filter_eq_nil_iff]
    intro edge member
    obtain ⟨cf', within, of⟩ := List.mem_flatMap.mp member
    rw [snd_edgesOf of]
    intro same
    exact apart (of_decide_eq_true same ▸ List.mem_map_of_mem within)
  have own : (edgesOf form cf).filter (fun edge => edge.2 = cf.fieldId) = edgesOf form cf :=
    List.filter_eq_self.mpr fun edge member => decide_eq_true (snd_edgesOf member)
  rw [CompiledForm.order, whole, List.map_append, List.map_cons] at distinct
  obtain ⟨-, tail, apart⟩ := List.nodup_append.mp distinct
  rw [whole, List.flatMap_append, List.flatMap_cons, List.filter_append, List.filter_append, own,
    others before fun old => apart _ old _ List.mem_cons_self rfl, others after (List.nodup_cons.mp tail).1]
  simp

theorem dependents_eq (distinct : form.order.Nodup) {b : ℕ} {name : String} (here : form.order[b]? = some name) :
    dependents form name = named form (Kahn.dependents form.fields.length (bases form) b) := by
  rw [dependents, edges_eq, named, Kahn.dependents, List.filter_flatMap, List.map_flatMap, List.filterMap_flatMap]
  apply flatMap_eq_range
  intro p cf at_p
  have listed : form.order[p]? = some cf.fieldId := by rw [getElem?_order, at_p, Option.map_some]
  have size : ((edgesOf form cf).filter fun edge => edge.1 = name).length = ((bases form p).filter (· = b)).length := by
    have same := congrArg (List.countP fun found => found = some b) (edgesOf_bases at_p)
    rw [List.countP_map, List.countP_map, List.countP_map] at same
    rw [← List.countP_eq_length_filter, ← List.countP_eq_length_filter]
    calc (edgesOf form cf).countP (fun edge => edge.1 = name)
        = (edgesOf form cf).countP (fun edge => form.order.idxOf? edge.1 = some b) := by
          congr 1
          funext edge
          rw [decide_eq_decide, idxOf?_order_iff distinct, here, Option.some.injEq, eq_comm]
      _ = (bases form p).countP (fun q => some q = some b) := same
      _ = (bases form p).countP (· = b) := by simp only [Option.some.injEq]
  have left : ((edgesOf form cf).filter fun edge => edge.1 = name).map Prod.snd =
      List.replicate ((bases form p).filter (· = b)).length cf.fieldId := by
    rw [List.eq_replicate_iff, List.length_map, size]
    refine ⟨rfl, fun fid member => ?_⟩
    obtain ⟨edge, within, rfl⟩ := List.mem_map.mp member
    exact snd_edgesOf (List.mem_filter.mp within).1
  rw [left, List.map_const']
  generalize ((bases form p).filter (· = b)).length = k
  induction k with
  | zero => rfl
  | succ k ih => rw [List.replicate_succ, List.replicate_succ, List.filterMap_cons_some listed, ih]

end Edges

section Simulation

/-- The phone's state says of the names what the server's says of their numbers. -/
structure Same (form : CompiledForm) (s : Kahn.State) (t : Sorting) : Prop where
  indegree : ∀ p fid, form.order[p]? = some fid → t.indegree fid = s.indegree p
  ready : t.ready.Perm (named form s.ready)
  result : t.result = named form s.result

theorem same_start (distinct : form.order.Nodup) :
    Same form (Kahn.start form.fields.length (bases form)) (start form) := by
  have counted (p : ℕ) (fid : String) (here : form.order[p]? = some fid) :
      indegree form fid = (bases form p).length := by
    rw [getElem?_order] at here
    obtain ⟨cf, at_p, rfl⟩ := Option.map_eq_some_iff.mp here
    exact indegree_eq distinct at_p
  refine ⟨counted, ?_, rfl⟩
  show (form.order.filter fun path => indegree form path = 0).Perm
    (named form ((List.range form.fields.length).filter fun p => (bases form p).length = 0))
  rw [List.perm_ext_iff_of_nodup (distinct.filter _)]
  · intro fid
    rw [List.mem_filter, mem_named]
    constructor
    · rintro ⟨listed, none⟩
      obtain ⟨p, here⟩ := List.mem_iff_getElem?.mp listed
      have below := (List.getElem?_eq_some_iff.mp here).1
      rw [CompiledForm.order, List.length_map] at below
      rw [counted p fid here] at none
      exact ⟨p, List.mem_filter.mpr ⟨List.mem_range.mpr below, none⟩, here⟩
    · rintro ⟨p, member, here⟩
      rw [counted p fid here]
      exact ⟨List.mem_of_getElem? here, (List.mem_filter.mp member).2⟩
  · exact (List.nodup_range.filter _).filterMap fun p q fid here there => order_inj distinct here there

theorem same_release (distinct : form.order.Nodup) {s : Kahn.State} {t : Sorting} (same : Same form s t) {p : ℕ}
    {fid : String} (here : form.order[p]? = some fid) : Same form (Kahn.release s p) (release t fid) := by
  have left := same.indegree p fid here
  refine ⟨?_, ?_, same.result⟩
  · intro q gid there
    have iff : gid = fid ↔ q = p := by
      constructor
      · rintro rfl
        exact order_inj distinct there here
      · rintro rfl
        exact Option.some.inj (there.symm.trans here)
    simp only [release, Kahn.release, iff, left]
    split
    · rfl
    · exact same.indegree q gid there
  · simp only [release, Kahn.release, left]
    split
    · have last : named form (s.ready ++ [p]) = named form s.ready ++ [fid] := by
        rw [named, List.filterMap_append, List.filterMap_cons_some here]
        rfl
      rw [last]
      exact same.ready.append_right [fid]
    · exact same.ready

theorem same_foldl (distinct : form.order.Nodup) {s : Kahn.State} {t : Sorting} (same : Same form s t) {rest : List ℕ}
    (bounded : ∀ p ∈ rest, p < form.fields.length) :
    Same form (rest.foldl Kahn.release s) ((named form rest).foldl release t) := by
  induction rest generalizing s t with
  | nil => exact same
  | cons p rest ih =>
    obtain ⟨fid, here⟩ := exists_name (bounded p List.mem_cons_self)
    rw [named_cons here]
    exact ih (same_release distinct same here) fun q member => bounded q (List.mem_cons_of_mem _ member)

theorem sorted_head (distinct : form.order.Nodup) {s : Kahn.State} {t : Sorting} (same : Same form s t) {current : ℕ}
    (least : s.ready.min? = some current) {fid : String} (here : form.order[current]? = some fid) :
    ∃ rest, t.ready.mergeSort (fun a b => documentIndex form a ≤ documentIndex form b) = fid :: rest ∧
      rest.Perm (named form (s.ready.erase current)) := by
  obtain ⟨ready, lowest⟩ := List.min?_eq_some_iff.mp least
  have perm := (List.mergeSort_perm t.ready fun a b => decide (documentIndex form a ≤ documentIndex form b)).trans same.ready
  have sorted := @List.pairwise_mergeSort _ (fun a b => decide (documentIndex form a ≤ documentIndex form b))
    (fun a b c ab bc => by simp only [decide_eq_true_eq] at *; omega)
    (fun a b => by simp only [Bool.or_eq_true, decide_eq_true_eq]; omega) t.ready
  generalize t.ready.mergeSort (fun a b => decide (documentIndex form a ≤ documentIndex form b)) = l at perm sorted
  have member : fid ∈ l := perm.mem_iff.mpr (mem_named.mpr ⟨current, ready, here⟩)
  cases l with
  | nil => cases member
  | cons head rest =>
    have first : head = fid := by
      obtain ⟨p, within, at_p⟩ := mem_named.mp (perm.mem_iff.mp List.mem_cons_self)
      rcases List.mem_cons.mp member with rfl | later
      · rfl
      · have before := of_decide_eq_true ((List.pairwise_cons.mp sorted).1 fid later)
        rw [documentIndex, documentIndex, ((getElem?_order_iff distinct).mp at_p).2,
          ((getElem?_order_iff distinct).mp here).2] at before
        obtain rfl : p = current := Nat.le_antisymm before (lowest p within)
        exact Option.some.inj (at_p.symm.trans here)
    subst first
    refine ⟨rest, rfl, ?_⟩
    have split := (List.perm_cons_erase ready).filterMap fun p => form.order[p]?
    rw [List.filterMap_cons_some here] at split
    exact List.Perm.cons_inv (perm.trans split)

theorem turn_none {s : Kahn.State} {t : Sorting} (same : Same form s t)
    (is : Kahn.next form.fields.length (bases form) s = none) : turn form t = none := by
  rw [Kahn.next, Option.map_eq_none_iff, List.min?_eq_none_iff] at is
  have empty : t.ready = [] := by
    have perm := same.ready
    rw [is] at perm
    exact List.perm_nil.mp perm
  rw [turn, empty, List.mergeSort_nil]

theorem turn_some (distinct : form.order.Nodup) {s s' : Kahn.State} {t : Sorting}
    (inv : Kahn.Inv form.fields.length (bases form) s) (same : Same form s t)
    (is : Kahn.next form.fields.length (bases form) s = some s') : ∃ t', turn form t = some t' ∧ Same form s' t' := by
  obtain ⟨current, least, rfl⟩ := Option.map_eq_some_iff.mp is
  obtain ⟨fid, here⟩ := exists_name (inv.ready current (List.min?_mem least)).1
  obtain ⟨rest, sorted, perm⟩ := sorted_head distinct same least here
  refine ⟨_, by rw [turn, sorted], ?_⟩
  rw [dependents_eq distinct here]
  apply same_foldl distinct
  · refine ⟨same.indegree, perm, ?_⟩
    show t.result ++ [fid] = named form (s.result ++ [current])
    rw [same.result, named, named, List.filterMap_append, List.filterMap_cons_some here]
    rfl
  · intro p member
    exact (Kahn.mem_dependents.mp member).1

theorem same_loop (distinct : form.order.Nodup) {s : Kahn.State} {t : Sorting}
    (inv : Kahn.Inv form.fields.length (bases form) s) (same : Same form s t) (fuel : ℕ) :
    Same form (Kahn.loop form.fields.length (bases form) fuel s) (loop form fuel t) := by
  induction fuel generalizing s t with
  | zero => exact same
  | succ fuel ih =>
    rw [Kahn.loop, loop]
    cases is : Kahn.next form.fields.length (bases form) s with
    | none =>
      rw [turn_none same is]
      exact same
    | some s' =>
      obtain ⟨t', turned, same'⟩ := turn_some distinct inv same is
      rw [turned]
      exact ih (Kahn.inv_next inv is) same'

theorem loop_result (distinct : form.order.Nodup) :
    (loop form form.fields.length (start form)).result = named form (Kahn.order form.fields.length (bases form)) :=
  (same_loop distinct Kahn.inv_start (same_start distinct) form.fields.length).result

theorem topologicalOrder_eq (distinct : form.order.Nodup) :
    (topologicalOrder form).toOption = (Form.topologicalOrder form).toOption := by
  unfold topologicalOrder Form.topologicalOrder
  rw [loop_result distinct]
  unfold named
  dsimp only
  split <;> rfl

end Simulation

end Evaluator

section Canonical

theorem named_map_idxOf (distinct : form.order.Nodup) {l : List ℕ} (bounded : ∀ p ∈ l, p < form.fields.length) :
    (named form l).map form.order.idxOf = l := by
  induction l with
  | nil => rfl
  | cons p l ih =>
    obtain ⟨fid, here⟩ := exists_name (bounded p List.mem_cons_self)
    rw [named_cons here, List.map_cons, ih fun q member => bounded q (List.mem_cons_of_mem _ member),
      ((getElem?_order_iff distinct).mp here).2]

theorem named_positions {l : List String} (listed : ∀ fid ∈ l, fid ∈ form.order) :
    named form (l.map form.order.idxOf) = l := by
  induction l with
  | nil => rfl
  | cons fid l ih =>
    rw [List.map_cons, named_cons (List.getElem?_idxOf (listed fid List.mem_cons_self)),
      ih fun gid member => listed gid (List.mem_cons_of_mem _ member)]

theorem respects_iff (distinct : form.order.Nodup) {l : List ℕ} (bounded : ∀ p ∈ l, p < form.fields.length) :
    Respects form (named form l) ↔ Kahn.Sorted (bases form) l := by
  constructor
  · intro respects before p after split b based
    subst split
    obtain ⟨fid, here⟩ := exists_name (bounded p (by simp))
    obtain ⟨gid, there⟩ := exists_name (bases_bounded p b based)
    have whole : named form (before ++ p :: after) = named form before ++ fid :: named form after := by
      rw [named, List.filterMap_append, List.filterMap_cons_some here]
      rfl
    obtain ⟨q, member, at_q⟩ := mem_named.mp (respects _ fid _ whole gid ((reads_iff distinct here there).mpr based))
    obtain rfl := order_inj distinct at_q there
    exact member
  · intro sorted before fid after split gid reads
    obtain ⟨first, rest, rfl, rfl, rests⟩ := List.filterMap_eq_append_iff.mp split
    obtain ⟨skipped, p, last, rfl, none, here, -⟩ := List.filterMap_eq_cons_iff.mp rests
    -- No number within the form is skipped.
    have whole : skipped = [] := by
      cases skipped with
      | nil => rfl
      | cons q skipped =>
        obtain ⟨id, at_q⟩ := exists_name (bounded q (by simp))
        rw [none q List.mem_cons_self] at at_q
        cases at_q
    subst whole
    have listed : gid ∈ form.order := by
      obtain ⟨-, -, -, listed, -, -⟩ := reads
      exact listed
    obtain ⟨q, there⟩ := List.mem_iff_getElem?.mp listed
    exact mem_named.mpr ⟨q, sorted first p last rfl q ((reads_iff distinct here there).mp reads), there⟩

theorem reached_of_names (distinct : form.order.Nodup) {p : ℕ} {fid gid : String} (here : form.order[p]? = some fid)
    (reached : Relation.ReflTransGen (Reads form) fid gid) :
    ∃ q, form.order[q]? = some gid ∧ Relation.ReflTransGen (fun a b => b ∈ bases form a) p q := by
  induction reached with
  | refl => exact ⟨p, here, Relation.ReflTransGen.refl⟩
  | tail _ reads ih =>
    obtain ⟨q, there, reached⟩ := ih
    obtain ⟨-, -, -, listed, -, -⟩ := id reads
    obtain ⟨r, further⟩ := List.mem_iff_getElem?.mp listed
    exact ⟨r, further, reached.tail ((reads_iff distinct there further).mp reads)⟩

theorem names_of_reached (distinct : form.order.Nodup) {p q : ℕ} {fid : String} (here : form.order[p]? = some fid)
    (reached : Relation.ReflTransGen (fun a b => b ∈ bases form a) p q) :
    ∃ gid, form.order[q]? = some gid ∧ Relation.ReflTransGen (Reads form) fid gid := by
  induction reached with
  | refl => exact ⟨fid, here, Relation.ReflTransGen.refl⟩
  | tail _ based ih =>
    obtain ⟨gid, there, reached⟩ := ih
    obtain ⟨next, further⟩ := exists_name (bases_bounded _ _ based)
    exact ⟨next, further, reached.tail ((reads_iff distinct there further).mpr based)⟩

theorem cyclic_iff (distinct : form.order.Nodup) {p : ℕ} {fid : String} (here : form.order[p]? = some fid) :
    Relation.TransGen (Reads form) fid fid ↔ Kahn.Cyclic (bases form) p := by
  constructor
  · intro cyclic
    obtain ⟨gid, reads, reached⟩ := Relation.TransGen.head'_iff.mp cyclic
    obtain ⟨-, -, -, listed, -, -⟩ := id reads
    obtain ⟨q, there⟩ := List.mem_iff_getElem?.mp listed
    obtain ⟨p', at_p', further⟩ := reached_of_names distinct there reached
    obtain rfl := order_inj distinct at_p' here
    exact Relation.TransGen.head' ((reads_iff distinct here there).mp reads) further
  · intro cyclic
    obtain ⟨q, based, reached⟩ := Relation.TransGen.head'_iff.mp cyclic
    obtain ⟨gid, there⟩ := exists_name (bases_bounded p q based)
    obtain ⟨fid', at_p, further⟩ := names_of_reached distinct there reached
    obtain rfl := Option.some.inj (at_p.symm.trans here)
    exact Relation.TransGen.head' ((reads_iff distinct here there).mpr based) further

theorem onCycleOrBelow_iff (distinct : form.order.Nodup) {p : ℕ} {fid : String} (here : form.order[p]? = some fid) :
    OnCycleOrBelow form fid ↔ Kahn.Stuck (bases form) p := by
  constructor
  · rintro ⟨gid, reached, cyclic⟩
    obtain ⟨q, there, further⟩ := reached_of_names distinct here reached
    exact ⟨q, further, (cyclic_iff distinct there).mp cyclic⟩
  · rintro ⟨q, reached, cyclic⟩
    obtain ⟨gid, there, further⟩ := names_of_reached distinct here reached
    exact ⟨gid, further, (cyclic_iff distinct there).mpr cyclic⟩

theorem length_order_named :
    (named form (Kahn.order form.fields.length (bases form))).length =
      (Kahn.order form.fields.length (bases form)).length :=
  length_named fun _ => Kahn.order_bounded

theorem topologicalOrder_cases :
    ((Kahn.order form.fields.length (bases form)).length = form.fields.length ∧
        topologicalOrder form = .ok (named form (Kahn.order form.fields.length (bases form)))) ∨
      ((Kahn.order form.fields.length (bases form)).length ≠ form.fields.length ∧
        topologicalOrder form = refuse ("dependency cycle involving: " ++ ", ".intercalate
          ((form.order.filter (· ∉ named form (Kahn.order form.fields.length (bases form)))).insertionSort (· ≤ ·)))) := by
  have length := @length_order_named form
  unfold named at length
  unfold topologicalOrder named
  dsimp only
  rw [length]
  by_cases whole : (Kahn.order form.fields.length (bases form)).length = form.fields.length
  · exact Or.inl ⟨whole, by rw [if_neg (not_not_intro whole)]⟩
  · exact Or.inr ⟨whole, by rw [if_pos whole]⟩

theorem order_least (distinct : form.order.Nodup)
    (whole : (Kahn.order form.fields.length (bases form)).length = form.fields.length) {other : List String}
    (perm : other.Perm form.order) (respects : Respects form other) :
    named form (Kahn.order form.fields.length (bases form)) = other ∨
      List.Lex (· < ·) ((named form (Kahn.order form.fields.length (bases form))).map form.order.idxOf)
        (other.map form.order.idxOf) := by
  have names : named form (other.map form.order.idxOf) = other :=
    named_positions fun fid member => perm.mem_iff.mp member
  have positions : form.order.map form.order.idxOf = List.range form.fields.length := by
    apply List.ext_getElem
    · simp [CompiledForm.order]
    · intro p below _
      rw [List.getElem_map, List.getElem_range, distinct.idxOf_getElem]
  have bounded (p : ℕ) (member : p ∈ other.map form.order.idxOf) : p < form.fields.length := by
    rw [← List.mem_range, ← positions]
    exact (perm.map _).mem_iff.mp member
  rw [named_map_idxOf distinct fun _ => Kahn.order_bounded]
  have sorted : Kahn.Sorted (bases form) (other.map form.order.idxOf) := by
    rw [← respects_iff distinct bounded, names]
    exact respects
  rcases Kahn.order_le (positions ▸ perm.map _) sorted whole with same | less
  · exact Or.inl (same ▸ names)
  · exact Or.inr less

theorem cycle_iff (distinct : form.order.Nodup) :
    (∃ fid, Relation.TransGen (Reads form) fid fid) ↔
      (Kahn.order form.fields.length (bases form)).length ≠ form.fields.length := by
  rw [Kahn.order_incomplete_iff bases_bounded]
  constructor
  · rintro ⟨fid, cyclic⟩
    obtain ⟨gid, -, last⟩ := Relation.TransGen.tail'_iff.mp cyclic
    obtain ⟨-, -, -, listed, -, -⟩ := id last
    obtain ⟨p, here⟩ := List.mem_iff_getElem?.mp listed
    exact ⟨p, (cyclic_iff distinct here).mp cyclic⟩
  · rintro ⟨p, cyclic⟩
    obtain ⟨q, -, last⟩ := Relation.TransGen.tail'_iff.mp cyclic
    obtain ⟨fid, here⟩ := exists_name (bases_bounded q p last)
    exact ⟨fid, (cyclic_iff distinct here).mpr cyclic⟩

theorem mem_cyclic_iff (distinct : form.order.Nodup) {fid : String} :
    fid ∈ form.order.filter (· ∉ named form (Kahn.order form.fields.length (bases form))) ↔
      fid ∈ form.order ∧ OnCycleOrBelow form fid := by
  rw [List.mem_filter, decide_eq_true_eq]
  apply and_congr_right
  intro listed
  obtain ⟨p, here⟩ := List.mem_iff_getElem?.mp listed
  obtain ⟨below, -⟩ := List.getElem?_eq_some_iff.mp here
  rw [CompiledForm.order, List.length_map] at below
  rw [onCycleOrBelow_iff distinct here, ← not_iff_not, not_not, ← Kahn.mem_order_iff bases_bounded below, mem_named]
  constructor
  · rintro ⟨q, member, there⟩
    rwa [order_inj distinct here there]
  · intro member
    exact ⟨p, member, here⟩

/-- The order of evaluation is the least that respects what the fields read, there is one where nothing reads
itself, a refusal names what lies on or below a cycle, and the phone finds the same order. -/
theorem topologicalOrder_canonical (distinct : form.order.Nodup) :
    (∀ result, topologicalOrder form = .ok result →
      result.Perm form.order ∧ Respects form result ∧
        ∀ other, other.Perm form.order → Respects form other →
          result = other ∨ List.Lex (· < ·) (result.map form.order.idxOf) (other.map form.order.idxOf)) ∧
    ((∃ failure, topologicalOrder form = .error failure) ↔ ∃ fid, Relation.TransGen (Reads form) fid fid) ∧
    (∀ failure, topologicalOrder form = .error failure → ∃ cyclic : List String,
      failure = .compile ("dependency cycle involving: " ++ ", ".intercalate cyclic) ∧
        cyclic.Nodup ∧ cyclic.Pairwise (· ≤ ·) ∧ ∀ fid, fid ∈ cyclic ↔ fid ∈ form.order ∧ OnCycleOrBelow form fid) ∧
    (Evaluator.topologicalOrder form).toOption = (topologicalOrder form).toOption := by
  refine ⟨?_, ?_, ?_, Evaluator.topologicalOrder_eq distinct⟩
  · intro result sorted
    rcases @topologicalOrder_cases form with ⟨whole, is⟩ | ⟨-, is⟩
    · obtain rfl := Except.ok.inj (is.symm.trans sorted)
      refine ⟨?_, ?_, fun other perm respects => order_least distinct whole perm respects⟩
      · have nodup : (named form (Kahn.order form.fields.length (bases form))).Nodup :=
          Kahn.order_nodup.filterMap fun p q fid here there => order_inj distinct here there
        apply (List.perm_ext_iff_of_nodup nodup distinct).mpr
        intro fid
        constructor
        · intro member
          obtain ⟨p, -, here⟩ := mem_named.mp member
          exact List.mem_of_getElem? here
        · intro member
          obtain ⟨p, here⟩ := List.mem_iff_getElem?.mp member
          obtain ⟨below, -⟩ := List.getElem?_eq_some_iff.mp here
          rw [CompiledForm.order, List.length_map] at below
          exact mem_named.mpr ⟨p, Kahn.mem_order whole below, here⟩
      · exact (respects_iff distinct fun _ => Kahn.order_bounded).mpr Kahn.order_sorted
    · rw [is] at sorted
      cases sorted
  · rw [cycle_iff distinct]
    rcases @topologicalOrder_cases form with ⟨whole, is⟩ | ⟨short, is⟩
    · simp [is, whole]
    · simp [is, short, refuse]
  · intro failure failed
    rcases @topologicalOrder_cases form with ⟨-, is⟩ | ⟨-, is⟩
    · rw [is] at failed
      cases failed
    · obtain rfl := Except.error.inj (is.symm.trans failed)
      refine ⟨_, rfl, ?_, List.pairwise_insertionSort _ _, ?_⟩
      · exact (List.perm_insertionSort _ _).nodup_iff.mpr (distinct.filter _)
      · intro fid
        rw [(List.perm_insertionSort _ _).mem_iff, mem_cyclic_iff distinct]

def totals : CompiledForm :=
  { fields := [⟨{ id := "total", dataType := "integer" }, ["men", "women"], [], none, none, none⟩,
      ⟨{ id := "women", dataType := "integer" }, [], [], none, none, none⟩,
      ⟨{ id := "men", dataType := "integer" }, ["members[].sex", "men"], [], none, none, none⟩,
      ⟨{ id := "share", dataType := "decimal" }, ["total", "women"], [], none, none, none⟩] }

theorem totals_order : topologicalOrder totals = .ok ["women", "men", "total", "share"] ∧
    (∀ other, other.Perm totals.order → Respects totals other → ["women", "men", "total", "share"] = other ∨
      List.Lex (· < ·) (["women", "men", "total", "share"].map totals.order.idxOf) (other.map totals.order.idxOf)) := by
  have is : topologicalOrder totals = .ok ["women", "men", "total", "share"] := by decide +kernel
  exact ⟨is, ((topologicalOrder_canonical (by decide)).1 _ is).2.2⟩

end Canonical

end DataCollectionLab.Form
