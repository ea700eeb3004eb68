import DataCollectionLab.Form.Outside
import DataCollectionLab.Form.Places
import DataCollectionLab.Form.RepeatCalls
import DataCollectionLab.Form.Screens
import DataCollectionLab.Lib.Kahn

/-!
What a pass leaves of the relevance of the questions in a repeat. A question takes it from the scope of its
row, in the middle of the pass; the repeat is asked from outside, when the pass is over. The two agree where
the repeat reads only what can be read from outside.
-/

namespace DataCollectionLab.Form

open Lib

section Order

variable {form : CompiledForm}

theorem topoOrder_complete (sorted : topologicalOrder form = .ok form.topoOrder) :
    (Kahn.order form.fields.length (bases form)).length = form.fields.length ∧
      form.topoOrder = (Kahn.order form.fields.length (bases form)).filterMap fun p => form.order[p]? := by
  unfold topologicalOrder at sorted
  dsimp only at sorted
  split at sorted
  · cases sorted
  · rename_i complete
    have same := Except.ok.inj sorted
    refine ⟨?_, same.symm⟩
    have most : (Kahn.order form.fields.length (bases form)).length ≤ form.fields.length := by
      have within : Kahn.order form.fields.length (bases form) ⊆ List.range form.fields.length :=
        fun p member => List.mem_range.mpr (Kahn.order_bounded member)
      have size := (List.subperm_of_subset Kahn.order_nodup within).length_le
      rwa [List.length_range] at size
    have least := List.length_filterMap_le (fun p => form.order[p]?) (Kahn.order form.fields.length (bases form))
    omega

theorem mem_topoOrder (sorted : topologicalOrder form = .ok form.topoOrder) {cf : CompiledField}
    (member : cf ∈ form.fields) : cf.fieldId ∈ form.topoOrder := by
  obtain ⟨complete, same⟩ := topoOrder_complete sorted
  obtain ⟨p, found⟩ := List.mem_iff_getElem?.mp (List.mem_map_of_mem (f := CompiledField.fieldId) member)
  obtain ⟨below, -⟩ := List.getElem?_eq_some_iff.mp found
  rw [List.length_map] at below
  rw [same]
  exact List.mem_filterMap.mpr ⟨p, Kahn.mem_order complete below, found⟩

theorem topoOrder_nodup (formed : Formed form) (sorted : topologicalOrder form = .ok form.topoOrder) :
    form.topoOrder.Nodup := by
  rw [(topoOrder_complete sorted).2]
  refine Kahn.order_nodup.filterMap fun p p' id found found' => ?_
  obtain ⟨below, -⟩ := List.getElem?_eq_some_iff.mp found
  exact (List.getElem?_inj below formed.distinct).mp (found.trans found'.symm)

theorem base_ne_later (formed : Formed form) (sorted : topologicalOrder form = .ok form.topoOrder)
    {before after : List String} {fid : String} (whole : form.topoOrder = before ++ fid :: after)
    {cf : CompiledField} (member : cf ∈ form.fields) (done : cf.fieldId ∈ before) {dep : String}
    (depends : dep ∈ cf.dependsOn) : base dep ≠ fid := by
  intro same
  have nodup := topoOrder_nodup formed sorted
  rw [whole] at nodup
  have new : fid ∉ before := fun old => (List.nodup_append.mp nodup).2.2 fid old fid List.mem_cons_self rfl
  obtain ⟨-, order⟩ := topoOrder_complete sorted
  rw [order] at whole
  obtain ⟨first, rest, split, firsts, rests⟩ := List.filterMap_eq_append_iff.mp whole
  rw [← firsts] at done
  obtain ⟨p, within, at_p⟩ := List.mem_filterMap.mp done
  obtain ⟨ahead, behind, rfl⟩ := List.append_of_mem within
  rw [List.append_assoc, List.cons_append] at split
  -- The field that is depended on stands before `p`.
  have listed : fid ∈ form.order := by
    have last : fid ∈ rest.filterMap fun p => form.order[p]? := rests ▸ List.mem_cons_self
    obtain ⟨q, -, at_q⟩ := List.mem_filterMap.mp last
    exact List.mem_of_getElem? at_q
  obtain ⟨q, index⟩ := Option.isSome_iff_exists.mp (List.isSome_idxOf?.mpr listed)
  have based : q ∈ bases form p := by
    obtain ⟨below, at_p⟩ := List.getElem?_eq_some_iff.mp at_p
    rw [CompiledForm.order, List.length_map] at below
    have here : form.fields[p]? = some cf := by
      rw [List.getElem?_eq_getElem below]
      refine congrArg some (List.inj_on_of_nodup_map formed.distinct (List.getElem_mem below) member ?_)
      rw [← at_p]
      simp [CompiledForm.order]
    rw [bases, here]
    refine List.mem_filterMap.mpr ⟨fid, List.mem_map.mpr ⟨dep, depends, same⟩, ?_⟩
    rw [if_neg, index]
    rintro rfl
    exact new (firsts ▸ done)
  have earlier := Kahn.order_sorted _ _ _ split q based
  refine new (firsts ▸ List.mem_filterMap.mpr ⟨q, List.mem_append_left _ earlier, ?_⟩)
  obtain ⟨below, found, -⟩ := List.idxOf?_eq_some_iff.mp index
  rw [List.getElem?_eq_getElem below, found]

end Order

section Pass

variable {evaluate : Context → Expr → Except Failure Value} {form : CompiledForm} {session : Session}

/-- What the evaluation of a field leaves: of the others nothing is changed, and of the answers a calculate alone. -/
structure Evaluated (cf : CompiledField) (path : String) (relevant : Bool) (s s' : FormInstance) : Prop where
  instances : s'.instances = s.instances
  others : ∀ other, other ≠ path → s'.values other = s.values other ∧ s'.states other = s.states other
  answers : cf.node.calculate = none → s'.values = s.values
  relevant : relevantAt s' path = true → relevant = true

theorem evaluated_framed (cf : CompiledField) (path : String) (relevant : Bool) (s : FormInstance) :
    FramedAt cf path (Evaluated cf path relevant s) where
  state s' change same kept := by
    refine ⟨kept.instances, fun other apart => ⟨(kept.others other apart).1, ?_⟩, kept.answers, fun holds => ?_⟩
    · exact (if_neg apart).trans (kept.others other apart).2
    · apply kept.relevant
      rw [relevantAt, show (s'.changeState path change).states path = (s'.states path).map change from if_pos rfl] at holds
      rw [relevantAt]
      cases found : s'.states path with
      | none =>
        rw [found] at holds
        cases holds
      | some state =>
        rw [found] at holds
        exact (same state).symm.trans holds
  value calculated s' value kept _ := by
    refine ⟨kept.instances, fun other apart => ⟨?_, (kept.others other apart).2⟩, fun none => ?_, kept.relevant⟩
    · exact (if_neg apart).trans (kept.others other apart).1
    · rw [none] at calculated
      cases calculated

theorem markRelevant_triple {cf : CompiledField} {path : String} {scope : Option (String × String)} {s : FormInstance}
    (has : (s.states path).isSome) : Triple (· = s) (Reference.markRelevant evaluate form session cf path scope)
      (fun relevant s' => (fieldRelevant evaluate form (s.context session scope) cf = .ok relevant ∧
        Evaluated cf path relevant s s') ∧ (s'.states path).isSome) fun _ _ => True := by
  let cleared := s.changeState path fun state => { state with errors := [] }
  -- The relevance is read with the errors gone, which no expression sees.
  have marked : Reference.markRelevant evaluate form session cf path scope s =
      (Run.lift (fieldRelevant evaluate form (s.context session scope) cf) >>= fun relevant =>
        Reference.change path (fun state => { state with relevant := relevant }) >>= fun _ => pure relevant : Run Bool)
        cleared := rfl
  cases told : fieldRelevant evaluate form (s.context session scope) cf with
  | error e =>
    rw [told] at marked
    exact Triple.of_error marked trivial
  | ok relevant =>
    have left : Reference.markRelevant evaluate form session cf path scope s =
        .ok relevant (cleared.changeState path fun state => { state with relevant := relevant }) := by
      rw [marked, told]
      rfl
    refine Triple.of_ok left ⟨⟨rfl, ⟨rfl, fun other apart => ⟨rfl, ?_⟩, fun _ => rfl, fun holds => ?_⟩⟩, ?_⟩
    · exact (if_neg apart).trans (if_neg apart)
    · obtain ⟨state, found⟩ := Option.isSome_iff_exists.mp has
      have here : (cleared.changeState path fun state => { state with relevant := relevant }).states path =
          some { state with errors := [], relevant := relevant } := by
        rw [FormInstance.changeState]
        simp [cleared, FormInstance.changeState, found]
      rw [relevantAt, here] at holds
      exact holds
    · rw [changeState_isSome, changeState_isSome]
      exact has

theorem evaluateField_relevant (cf : CompiledField) (path : String) (scope : Option (String × String))
    (s : FormInstance) : Triple (· = s) (Reference.evaluateField evaluate form session cf path scope)
      (fun _ s' => ∃ relevant, fieldRelevant evaluate form (s.context session scope) cf = .ok relevant ∧
        Evaluated cf path relevant s s') fun _ _ => True := by
  rw [Reference.evaluateField_eq]
  refine Triple.get_bind fun s same => ?_
  subst same
  split
  · exact fun _ _ => trivial
  · rename_i has
    have present : (s.states path).isSome := by
      rwa [Bool.not_eq_true, Option.isNone_eq_false_iff] at has
    refine Triple.bind (markRelevant_triple present) fun relevant => ?_
    have framed : FramedAt cf path fun s' => fieldRelevant evaluate form (s.context session scope) cf = .ok relevant ∧
        Evaluated cf path relevant s s' :=
      ⟨fun s' change same kept => ⟨kept.1, (evaluated_framed cf path relevant s).state s' change same kept.2⟩,
        fun calculated s' value kept has =>
          ⟨kept.1, (evaluated_framed cf path relevant s).value calculated s' value kept.2 has⟩⟩
    exact Triple.mono (settleField_triple path (fieldAllowed_any cf scope _) framed relevant) (fun _ => id)
      (fun _ _ kept => ⟨relevant, kept⟩) fun _ _ => id

theorem instancePath_row {rid iid iid' fid : String} (same : instancePath rid iid fid = instancePath rid iid' fid) :
    iid = iid' := by
  have chars := congrArg String.toList same
  rw [toList_instancePath, toList_instancePath] at chars
  have tails := (List.cons.inj (List.append_cancel_left chars)).2
  exact String.toList_injective (List.append_cancel_right tails)

def CompiledField.Cell (cf : CompiledField) (path : String) : Prop :=
  match cf.repeatId with
  | none => path = cf.fieldId
  | some rid => ∃ iid, path = instancePath rid iid cf.fieldId

theorem not_cell {cf : CompiledField} (plain : Plain cf.fieldId) {dep : String} (other : base dep ≠ cf.fieldId) :
    ¬ cf.Cell (base dep) ∧ ∀ rid iid, ¬ cf.Cell (instancePath rid iid (base dep)) := by
  obtain ⟨bracket, point⟩ := base_marks dep
  unfold CompiledField.Cell
  cases cf.repeatId with
  | none => exact ⟨other, fun rid iid => instancePath_ne plain⟩
  | some rid' =>
    constructor
    · rintro ⟨iid', same⟩
      rw [same, toList_instancePath] at bracket
      exact bracket (by simp)
    · rintro rid iid ⟨iid', same⟩
      have chars := congrArg String.toList same
      rw [toList_instancePath, toList_instancePath] at chars
      have last : (rid.toList ++ '[' :: (iid.toList ++ [']'])) ++ '.' :: (base dep).toList =
          (rid'.toList ++ '[' :: (iid'.toList ++ [']'])) ++ '.' :: cf.fieldId.toList := by
        simpa using chars
      have plainly : '.' ∉ cf.fieldId.toList := fun member => (plain _ member).2.2 rfl
      exact other (String.toList_injective (append_cons_inj point plainly last).2)

variable (evaluate form session) in
/-- What a field leaves at its turn in the pass, when some of its rows are done. -/
structure Passed (cf : CompiledField) (done : List String) (s s' : FormInstance) : Prop where
  instances : s'.instances = s.instances
  others : ∀ path, ¬ cf.Cell path → s'.values path = s.values path ∧ s'.states path = s.states path
  answers : cf.node.calculate = none → s'.values = s.values
  relevant : cf.node.calculate = none → ∀ rid, cf.repeatId = some rid → ∀ iid ∈ done,
    relevantAt s' (instancePath rid iid cf.fieldId) = true →
      fieldRelevant evaluate form (s.context session (some (rid, iid))) cf = .ok true

theorem evaluateFields_passed {fid : String} {cf : CompiledField} (found : form.field? fid = some cf)
    (s : FormInstance) : Triple (· = s) (evaluateFields (Reference.runtime evaluate) form session fid)
      (fun _ s' => Passed evaluate form session cf (cf.repeatId.elim [] s.rows) s s') fun _ _ => True := by
  obtain rfl : cf.fieldId = fid := by simpa using List.find?_some found
  unfold evaluateFields
  rw [found]
  dsimp only
  cases place : cf.repeatId with
  | none =>
    refine Triple.mono (evaluateField_relevant cf cf.fieldId none s) (fun _ => id) ?_ fun _ _ => id
    rintro - s' ⟨relevant, -, kept⟩
    refine ⟨kept.instances, fun path apart => kept.others path ?_, kept.answers, fun _ rid inside => ?_⟩
    · rintro rfl
      exact apart (by rw [CompiledField.Cell, place])
    · rw [place] at inside
      cases inside
  | some rid =>
    refine Triple.get_bind fun s same => ?_
    subst same
    have start : Passed evaluate form session cf [] s s :=
      ⟨rfl, fun _ _ => ⟨rfl, rfl⟩, fun _ => rfl, fun _ _ _ _ member => by cases member⟩
    refine Triple.mono (?_ : Triple (Passed evaluate form session cf [] s) _
      (fun _ => Passed evaluate form session cf (s.rows rid) s) _) (fun s' same => same ▸ start) (fun _ _ => id) fun _ _ => id
    refine Triple.forM_steps (R := fun done => Passed evaluate form session cf done s) ?_
    intro before iid _ _ s₁ passed
    refine Triple.mono (evaluateField_relevant cf (instancePath rid iid cf.fieldId) (some (rid, iid)) s₁) (fun _ => id) ?_
      (fun _ _ => id) s₁ rfl
    rintro - s' ⟨relevant, told, kept⟩
    refine ⟨kept.instances.trans passed.instances, fun path apart => ?_, fun none => ?_, fun none r inside row member holds => ?_⟩
    · have other : path ≠ instancePath rid iid cf.fieldId := by
        rintro rfl
        exact apart (by rw [CompiledField.Cell, place]; exact ⟨iid, rfl⟩)
      exact ⟨(kept.others path other).1.trans (passed.others path apart).1,
        (kept.others path other).2.trans (passed.others path apart).2⟩
    · exact (kept.answers none).trans (passed.answers none)
    · obtain rfl : rid = r := Option.some.inj (place ▸ inside)
      have same : s₁.context session (some (rid, row)) = s.context session (some (rid, row)) := by
        rw [FormInstance.context, FormInstance.context, passed.answers none, passed.instances]
      by_cases here : row = iid
      · rw [here] at same holds ⊢
        rw [← same, told, kept.relevant holds]
      · have earlier : row ∈ before :=
          (List.mem_append.mp member).resolve_right fun last => here (List.mem_singleton.mp last)
        refine passed.relevant none rid inside row earlier ?_
        rwa [relevantAt, ← (kept.others _ fun same => here (instancePath_row same)).2]

end Pass

section Fresh

variable {form : CompiledForm} {s s' : FormInstance}

theorem owned_setValue (owned : Owned form s) {path : String} (keyed : Keyed form s path) (value : Value) :
    Owned form (s.setValue path value) := by
  refine ⟨owned.rows, fun other has => (keyed_congr rfl).mpr ?_, owned.states⟩
  by_cases here : other = path
  · exact here ▸ keyed
  · exact owned.values other (by rwa [show (s.setValue path value).values other = s.values other from if_neg here] at has)

theorem owned_framed (form : CompiledForm) : Framed (Owned form) where
  state s path change owned := by
    refine ⟨owned.rows, owned.values, fun other has => ?_⟩
    rw [changeState_isSome] at has
    exact (keyed_congr rfl).mpr (owned.states other has)
  value s path value owned stated := owned_setValue owned (owned.states path stated) value

theorem chainOf_depends (linked : Linked form) {cf : CompiledField} (member : cf ∈ form.fields) {rid : String}
    (inside : cf.repeatId = some rid) : (∃ more, cf.ancestors = chainOf form rid ++ more) ∧
      ∀ expr ∈ relevances form (chainOf form rid), collectRefs expr ⊆ cf.dependsOn := by
  obtain ⟨container, more, found, chain⟩ := linked.under cf member rid inside
  have same : cf.ancestors = chainOf form rid ++ more := by
    rw [chain, chainOf, found, Option.elim_some, List.append_assoc, List.singleton_append]
  refine ⟨⟨more, same⟩, fun expr listed => ?_⟩
  obtain ⟨cid, within, given⟩ := List.mem_filterMap.mp listed
  obtain ⟨around, known, depends⟩ := linked.depends cf member cid (same ▸ List.mem_append_left _ within)
  rw [known] at given
  exact depends expr given

def Fresh (lib : Library) (form : CompiledForm) (session : Session) (done : List String) (s : FormInstance) : Prop :=
  ∀ cf ∈ form.fields, cf.fieldId ∈ done → cf.node.calculate = none → ∀ rid, cf.repeatId = some rid →
    ∀ iid ∈ s.rows rid, relevantAt s (instancePath rid iid cf.fieldId) = true →
      containerRelevant (Reference.evaluate (Reference.call lib) Reference.resolve) form session s rid = .ok true

variable (lib : Library) {children : List Node} (compiled : compile children = .ok form) (independent : Independent form)
  {session : Session}

include compiled independent

theorem fresh_step {before after : List String} {cf : CompiledField}
    (whole : form.topoOrder = before ++ cf.fieldId :: after) (listed : cf ∈ form.fields) (owned : Owned form s)
    (fresh : Fresh lib form session before s)
    (passed : Passed (Reference.evaluate (Reference.call lib) Reference.resolve) form session cf
      (cf.repeatId.elim [] s.rows) s s') : Fresh lib form session (before ++ [cf.fieldId]) s' := by
  have formed := compile_formed compiled
  have linked := compile_linked compiled
  obtain ⟨-, -, -, -, -, -, -, sorted⟩ := compile_parts compiled
  intro cf' member done asked rid inside iid within holds
  obtain ⟨node, repeats, rfl⟩ := formed.within cf' member rid inside
  obtain ⟨⟨more, chain⟩, depends⟩ := chainOf_depends linked member inside
  have within : iid ∈ s.rows node.id := by rwa [FormInstance.rows, passed.instances] at within
  rcases List.mem_append.mp done with earlier | now
  · -- A field that is done already: the answers its repeat reads are not written any more.
    have other : cf'.fieldId ≠ cf.fieldId := by
      have nodup := topoOrder_nodup formed sorted
      rw [whole] at nodup
      exact fun same => (List.nodup_append.mp nodup).2.2 _ earlier _ List.mem_cons_self same
    have cell : ¬ cf.Cell (instancePath node.id iid cf'.fieldId) := by
      have named := base_plain (formed.plain cf' member)
      have apart := (not_cell (formed.plain cf listed) (named ▸ other)).2 node.id iid
      rwa [named] at apart
    have agrees {dep : String} (depends : dep ∈ cf'.dependsOn) : Agrees s s' (base dep) := by
      have apart := not_cell (formed.plain cf listed) (base_ne_later formed sorted whole member earlier depends)
      exact ⟨(passed.others _ apart.1).1, fun rid iid _ => (passed.others _ (apart.2 rid iid)).1⟩
    rw [relevantAt, (passed.others _ cell).2] at holds
    have before := fresh cf' member earlier asked node.id inside iid within holds
    rw [containerRelevant_eq] at before
    rw [← before]
    exact (chainRelevant_outside lib formed independent owned passed.instances session (fun _ _ same => by cases same)
      repeats fun expr read dep reads => agrees (depends expr read reads)).symm
  · -- The field of this turn, where it is no calculate: nothing is written.
    have same := List.inj_on_of_nodup_map formed.distinct member listed (List.mem_singleton.mp now)
    subst same
    rw [inside] at passed
    have found := chainRelevant_of_field (passed.relevant asked node.id inside iid within holds)
    rw [chain] at found
    rw [← chainRelevant_append found]
    exact (chainRelevant_outside lib formed independent owned passed.instances session
      (fun rid _ same => ⟨node, repeats, (Prod.mk.inj (Option.some.inj same)).1⟩) repeats fun _ _ dep _ =>
        ⟨congrFun (passed.answers asked) _, fun _ _ _ => congrFun (passed.answers asked) _⟩).symm

end Fresh

section Owned

variable {form : CompiledForm} {s s' : FormInstance}

theorem keyed_mono (rows : ∀ rid, s.rows rid ⊆ s'.rows rid) {path : String} (keyed : Keyed form s path) :
    Keyed form s' path :=
  keyed.imp_right fun ⟨cf, member, rid, inside, iid, within, same⟩ =>
    ⟨cf, member, rid, inside, iid, rows rid within, same⟩

theorem owned_extended (owned : Owned form s) {rid : String} (listed : ∃ node ∈ form.repeats, node.id = rid)
    (iid : String) : Owned form (s.setRows rid (s.rows rid ++ [iid])) := by
  have rows (other : String) : s.rows other ⊆ (s.setRows rid (s.rows rid ++ [iid])).rows other := by
    rw [rows_setRows]
    split
    · rename_i same
      exact same ▸ List.subset_append_left _ _
    · exact List.Subset.refl _
  refine ⟨fun other row within => ?_, fun path has => keyed_mono rows (owned.values path has),
    fun path has => keyed_mono rows (owned.states path has)⟩
  rw [rows_setRows] at within
  split at within
  · rename_i same
    exact same ▸ listed
  · exact owned.rows other row within

theorem owned_openCells (owned : Owned form s) {rid iid : String} (within : iid ∈ s.rows rid) :
    Owned form (openCells form rid iid s) := by
  have opens {path : String} (cell : (cellAt form rid iid path).isSome) : Keyed form s path := by
    obtain ⟨cf, member, inside, same⟩ := cellAt_isSome_iff.mp cell
    exact Or.inr ⟨cf, member, rid, inside, iid, within, same⟩
  refine ⟨owned.rows, fun path has => (keyed_congr rfl).mpr ?_, fun path has => (keyed_congr rfl).mpr ?_⟩
  · rw [openCells] at has
    dsimp only at has
    split at has
    · rename_i cell
      exact opens cell
    · exact owned.values path has
  · rw [openCells] at has
    dsimp only at has
    split at has
    · rename_i cf cell
      exact opens (by rw [cell]; rfl)
    · exact owned.states path has

theorem owned_removed (owned : Owned form s) {rid iid : String} {ordered : List String} (old : ordered ⊆ s.rows rid)
    (left : ∀ other ∈ s.rows rid, other ≠ iid → other ∈ ordered) :
    Owned form (destroyInstance form rid iid (s.setRows rid ordered)) := by
  have rows (other : String) : (destroyInstance form rid iid (s.setRows rid ordered)).rows other =
      if other = rid then ordered else s.rows other := rows_setRows s rid other ordered
  have kept {path : String} (cell : ¬ (cellAt form rid iid path).isSome) (keyed : Keyed form s path) :
      Keyed form (destroyInstance form rid iid (s.setRows rid ordered)) path := by
    refine keyed.imp_right fun ⟨cf, member, other, inside, row, within, same⟩ =>
      ⟨cf, member, other, inside, row, ?_, same⟩
    rw [rows]
    split
    · rename_i here
      subst here
      refine left row within fun gone => cell (cellAt_isSome_iff.mpr ⟨cf, member, inside, gone ▸ same⟩)
    · exact within
  refine ⟨fun other row within => ?_, fun path has => ?_, fun path has => ?_⟩
  · rw [rows] at within
    split at within
    · rename_i same
      exact same ▸ owned.rows rid row (old within)
    · exact owned.rows other row within
  · rw [destroyInstance] at has
    dsimp only at has
    split at has
    · cases has
    · rename_i cell
      exact kept cell (owned.values path has)
  · rw [destroyInstance] at has
    dsimp only at has
    split at has
    · cases has
    · rename_i cell
      exact kept cell (owned.states path has)

theorem owned_popInstance (form : CompiledForm) (rid : String) :
    Triple (Owned form) (popInstance form rid) (fun _ => Owned form) fun _ _ => True := by
  intro s owned
  rw [popInstance, Lib.apply_modify]
  dsimp only
  split
  · rename_i iid last
    have whole : (s.rows rid).dropLast ++ [iid] = s.rows rid := List.dropLast_append_getLast? iid last
    refine owned_removed owned (List.dropLast_sublist _).subset fun other within apart => ?_
    rw [← whole] at within
    exact (List.mem_append.mp within).resolve_right fun same => apart (List.mem_singleton.mp same)
  · exact owned

theorem lift_any {α : Type} (P : FormInstance → Prop) (x : Except Failure α) :
    Triple P (Run.lift x) (fun _ => P) fun _ _ => True := by
  cases x with
  | ok a => exact fun s holds => holds
  | error e => exact fun _ _ => trivial

theorem assertCreationOrder_any (P : FormInstance → Prop) (rid : String) :
    Triple P (assertCreationOrder rid) (fun _ => P) fun _ _ => True := by
  refine Triple.get_bind fun s holds => ?_
  split
  · exact fun s' same => same ▸ holds
  · split
    · exact fun s' same => same ▸ holds
    · exact fun _ _ => trivial

theorem createInstance_owned {rid : String} (listed : ∃ node ∈ form.repeats, node.id = rid) (rowKey : Option String) :
    Triple (Owned form) (createInstance form rid rowKey) (fun _ => Owned form) fun _ _ => True := by
  refine Triple.bind (Q := fun _ => Owned form) (fun s owned => ⟨owned.rows, owned.values, owned.states⟩) fun _ => ?_
  refine Triple.get_bind fun s owned => ?_
  let iid := "i" ++ toString s.serial
  refine Triple.bind (Q := fun _ s' => Owned form s' ∧ iid ∈ s'.rows rid) ?_ fun _ => ?_
  · rintro s' rfl
    refine ⟨owned_extended owned listed iid, ?_⟩
    rw [rows_setRows, if_pos rfl]
    exact List.mem_append_right _ (List.mem_singleton_self _)
  refine Triple.bind (Q := fun _ s' => Owned form s' ∧ iid ∈ s'.rows rid) ?_ fun _ => ?_
  · exact fun s' kept => ⟨⟨kept.1.rows, kept.1.values, kept.1.states⟩, kept.2⟩
  refine Triple.bind (assertCreationOrder_any _ rid) fun _ => ?_
  exact Triple.bind (Q := fun _ => Owned form) (fun s' kept => owned_openCells kept.1 kept.2) fun _ => pure_triple _

variable {evaluate : Context → Expr → Except Failure Value} {session : Session}

theorem seedRow_owned {rid : String} (listed : ∃ node ∈ form.repeats, node.id = rid) (source : RowSource)
    (item : RowItem) : Triple (Owned form) (seedRow form rid source item) (fun _ => Owned form) fun _ _ => True := by
  refine Triple.bind (createInstance_owned listed _) fun iid => ?_
  have labelled : Triple (Owned form) (item.label.forM fun label =>
      modify fun s => s.setRowLabel rid iid label : Run Unit) (fun _ => Owned form) fun _ _ => True := by
    cases item.label with
    | none => exact pure_triple _
    | some label => exact fun s owned => ⟨owned.rows, owned.values, owned.states⟩
  refine Triple.bind labelled fun _ => Triple.forM fun binding _ => ?_
  split
  · refine Triple.get_bind fun s owned => ?_
    split
    · exact fun _ _ => trivial
    · rename_i has
      rintro s' rfl
      refine (owned_framed form).state _ _ _ ((owned_framed form).value _ _ _ owned ?_)
      rwa [Bool.not_eq_true, Option.isNone_eq_false_iff] at has
  · exact pure_triple _

theorem resolveRows_owned {node : Repeat} (member : node ∈ form.repeats) : Triple (Owned form)
    (resolveRows (Reference.runtime evaluate) form session node) (fun _ => Owned form) fun _ _ => True := by
  unfold resolveRows
  split
  · exact pure_triple _
  · rename_i source sourced
    refine Triple.get_bind fun s owned => Triple.mono (?_ : Triple (Owned form) _ _ _) (fun s' same => same ▸ owned)
      (fun _ _ => id) fun _ _ => id
    split
    · exact pure_triple _
    · refine Triple.bind (lift_any _ _) fun relevant => ?_
      split
      · refine Triple.bind (Q := fun _ => Owned form) (fun s owned => ⟨owned.rows, owned.values, owned.states⟩) fun _ => ?_
        exact Triple.forM fun item _ => seedRow_owned ⟨node, member, rfl⟩ source item
      · exact pure_triple _

theorem settleCount_owned {node : Repeat} (member : node ∈ form.repeats) : Triple (Owned form)
    (settleCount (Reference.runtime evaluate) form session node) (fun _ => Owned form) fun _ _ => True := by
  unfold settleCount
  split
  · exact pure_triple _
  · refine Triple.get_bind fun s owned => Triple.mono (?_ : Triple (Owned form) _ _ _) (fun s' same => same ▸ owned)
      (fun _ _ => id) fun _ _ => id
    refine Triple.bind (lift_any _ _) fun wanted => Triple.bind (assertCreationOrder_any _ _) fun _ => ?_
    refine Triple.bind (Triple.forM fun _ _ => ?_) fun _ => Triple.forM fun _ _ => owned_popInstance form node.id
    exact Triple.bind (createInstance_owned ⟨node, member, rfl⟩ none) fun _ => pure_triple _

theorem evaluateFields_owned (fid : String) : Triple (Owned form)
    (evaluateFields (Reference.runtime evaluate) form session fid) (fun _ => Owned form) fun _ _ => True := by
  unfold evaluateFields
  split
  · exact fun _ _ => trivial
  · rename_i cf found
    split
    · exact evaluateField_triple _ (fieldAllowed_any cf none _) (owned_framed form)
    · rename_i rid inside
      refine Triple.get_bind fun s owned => Triple.mono (?_ : Triple (Owned form) _ _ _) (fun s' same => same ▸ owned)
        (fun _ _ => id) fun _ _ => id
      exact Triple.forM fun iid _ => evaluateField_triple _ (fieldAllowed_any cf _ _) (owned_framed form)

theorem recalculate_fresh (lib : Library) {children : List Node} (compiled : compile children = .ok form)
    (independent : Independent form) (session : Session) : Triple (Owned form)
      (recalculate (Reference.runtime (Reference.evaluate (Reference.call lib) Reference.resolve)) form session)
      (fun _ s' => Owned form s' ∧ Fresh lib form session form.topoOrder s') fun _ _ => True := by
  refine Triple.bind (Triple.forM fun node member => resolveRows_owned member) fun _ =>
    Triple.bind (Triple.forM fun node member => settleCount_owned member) fun _ => ?_
  refine Triple.mono (?_ : Triple (fun s => Owned form s ∧ Fresh lib form session [] s) _
    (fun _ s => Owned form s ∧ Fresh lib form session form.topoOrder s) _)
    (fun s owned => ⟨owned, fun cf _ done => by cases done⟩) (fun _ _ => id) fun _ _ => id
  refine Triple.forM_steps (R := fun done s => Owned form s ∧ Fresh lib form session done s) ?_
  rintro before fid after whole s ⟨owned, fresh⟩
  cases outcome : evaluateFields (Reference.runtime (Reference.evaluate (Reference.call lib) Reference.resolve)) form
      session fid s with
  | error e s' => trivial
  | ok a s' =>
    have kept : Owned form s' := (evaluateFields_owned fid).ok owned outcome
    cases found : form.field? fid with
    | none =>
      rw [evaluateFields, found] at outcome
      cases outcome
    | some cf =>
      have passed := (evaluateFields_passed found s).ok rfl outcome
      obtain rfl : cf.fieldId = fid := by simpa using List.find?_some found
      exact ⟨kept, fresh_step lib compiled independent whole (List.mem_of_find?_eq_some found) owned fresh passed⟩

end Owned

section Calls

variable {form : CompiledForm} {evaluate : Context → Expr → Except Failure Value} {session : Session}
  {s s' : FormInstance}

theorem owned_blank (form : CompiledForm) : Owned form (blank form) := by
  have keyed {path : String} (has : (form.fields.find? fun cf => cf.fieldId = path ∧ cf.repeatId = none).isSome) :
      Keyed form (blank form) path := by
    obtain ⟨cf, found⟩ := Option.isSome_iff_exists.mp has
    obtain ⟨same, top⟩ : cf.fieldId = path ∧ cf.repeatId = none := by simpa using List.find?_some found
    exact Or.inl ⟨cf, List.mem_of_find?_eq_some found, top, same.symm⟩
  refine ⟨fun rid iid within => ?_, fun path has => keyed ?_, fun path has => keyed ?_⟩
  · unfold FormInstance.rows blank at within
    dsimp only at within
    split at within <;> cases within
  · rwa [blank, Option.isSome_map] at has
  · rwa [blank, Option.isSome_map] at has

theorem seedFloor_owned {node : Repeat} (member : node ∈ form.repeats) :
    Triple (Owned form) (seedFloor form node) (fun _ => Owned form) fun _ _ => True := by
  unfold seedFloor
  split
  · exact pure_triple _
  · exact Triple.forM fun _ _ => Triple.bind (createInstance_owned ⟨node, member, rfl⟩ none) fun _ => pure_triple _

theorem placeAnswer_owned (answer : String × Value) : Triple (Owned form)
    (placeAnswer (Reference.runtime evaluate) answer) (fun _ => Owned form) fun _ _ => True := by
  intro s owned
  rcases placeAnswer_cases (Reference.runtime evaluate) answer s with ⟨e, -, ran⟩ | ⟨path, -, -, ran⟩ | ⟨path, -, has, ran⟩
  · rw [ran]
    trivial
  · rw [ran]
    trivial
  · rw [ran]
    exact owned_setValue owned (owned.values path has) _

theorem restoreInstance_owned {rid : String} (listed : ∃ node ∈ form.repeats, node.id = rid) (iid : String) :
    Triple (Owned form) (Reference.restoreInstance form rid iid) (fun _ => Owned form) fun _ _ => True := by
  refine Triple.get_bind fun s owned => ?_
  split
  · exact fun s' same => same ▸ owned
  refine Triple.bind (Q := fun _ s' => Owned form s' ∧ iid ∈ s'.rows rid) ?_ fun _ => ?_
  · rintro s' rfl
    refine ⟨owned_extended owned listed iid, ?_⟩
    rw [rows_setRows, if_pos rfl]
    exact List.mem_append_right _ (List.mem_singleton_self _)
  refine Triple.bind (assertCreationOrder_any _ rid) fun _ => ?_
  refine Triple.bind (Q := fun _ => Owned form) (fun s' kept => owned_openCells kept.1 kept.2) fun _ => ?_
  split
  · exact fun s' owned => ⟨owned.rows, owned.values, owned.states⟩
  · exact pure_triple _

theorem restoreRows_owned (entry : String × List String) :
    Triple (Owned form) (Reference.restoreRows form entry) (fun _ => Owned form) fun _ _ => True := by
  unfold Reference.restoreRows
  split
  · exact pure_triple _
  · rename_i has
    have listed : (form.repeat? entry.1).isSome := by
      rwa [Bool.not_eq_true, Option.isNone_eq_false_iff] at has
    refine Triple.bind (Triple.forM fun iid _ => ?_) fun _ => pure_triple _
    exact restoreInstance_owned (repeat?_isSome_iff.mp listed) iid

theorem restoreAnswer_owned (answer : String × Value) :
    Triple (Owned form) (Reference.restoreAnswer answer) (fun _ => Owned form) fun _ _ => True := by
  refine Triple.get_bind fun s owned => ?_
  split
  · exact fun s' same => same ▸ owned
  · exact fun _ _ => trivial
  · rename_i path _
    refine Triple.get_bind fun s' same => ?_
    subst same
    split
    · exact fun s' same => same ▸ owned
    · rename_i has
      rintro s' rfl
      refine owned_setValue owned (owned.values path ?_) _
      rwa [Bool.not_eq_true, Option.isNone_eq_false_iff] at has

variable (lib : Library) {children : List Node} (compiled : compile children = .ok form) (independent : Independent form)

include compiled independent

theorem construct_fresh {s₀ : FormInstance}
    (ran : construct (Reference.runtime (Reference.evaluate (Reference.call lib) Reference.resolve)) form session s₀ =
      .ok () s) : Owned form s ∧ Fresh lib form session form.topoOrder s := by
  have triple : Triple (fun _ => True)
      (construct (Reference.runtime (Reference.evaluate (Reference.call lib) Reference.resolve)) form session)
      (fun _ s => Owned form s ∧ Fresh lib form session form.topoOrder s) fun _ _ => True := by
    refine Triple.bind (Q := fun _ => Owned form) (fun _ _ => owned_blank form) fun _ => ?_
    refine Triple.bind (Triple.forM fun node member => seedFloor_owned member) fun _ => ?_
    exact recalculate_fresh lib compiled independent session
  exact triple.ok trivial ran

theorem perform_fresh (call : Call) : Triple (Owned form)
    (call.perform (Reference.evaluate (Reference.call lib) Reference.resolve) form session)
    (fun _ s => Owned form s ∧ Fresh lib form session form.topoOrder s) fun _ _ => True := by
  have pass := recalculate_fresh lib compiled independent session
  have answered (answers : List (String × Value)) : Triple (Owned form)
      (setMany (Reference.runtime (Reference.evaluate (Reference.call lib) Reference.resolve)) form session answers)
      (fun _ s => Owned form s ∧ Fresh lib form session form.topoOrder s) fun _ _ => True :=
    Triple.bind (Triple.forM fun answer _ => placeAnswer_owned answer) fun _ => pass
  cases call with
  | set path value => exact answered [(path, value)]
  | setMany answers => exact answered answers
  | addInstance rid =>
    refine Triple.bind (?_ : Triple _ _ (fun _ s => Owned form s ∧ Fresh lib form session form.topoOrder s) _)
      fun _ => pure_triple _
    intro s owned
    rcases @addInstance_cases form session
      (Reference.runtime (Reference.evaluate (Reference.call lib) Reference.resolve)) rid s with
      ⟨message, refused⟩ | ⟨node, found, -, -, steps⟩
    · rw [refused]
      trivial
    · rw [steps]
      refine Triple.bind (createInstance_owned ⟨node, repeat?_mem found⟩ none) (fun iid => ?_) s owned
      exact Triple.bind pass fun _ => pure_triple _
  | deleteInstance rid index =>
    intro s owned
    rcases @deleteInstance_cases form session
      (Reference.runtime (Reference.evaluate (Reference.call lib) Reference.resolve)) rid
      index s with ⟨message, refused⟩ | ⟨node, found, inside, -, steps⟩
    · rw [Call.perform, refused]
      trivial
    · rw [Call.perform, steps]
      refine Triple.bind (assertCreationOrder_any (· = s.setRows rid ((s.rows rid).eraseIdx index.toNat)) rid)
        (fun _ => Triple.bind (Q := fun _ => Owned form) ?_ fun _ => pass) _ rfl
      rintro s' rfl
      refine owned_removed owned (List.eraseIdx_sublist _ _).subset fun other within apart => ?_
      obtain ⟨i, found⟩ := List.mem_iff_getElem?.mp within
      refine List.mem_eraseIdx_iff_getElem?.mpr ⟨i, fun same => apart ?_, found⟩
      rw [List.getD_eq_getElem?_getD, ← same, found, Option.getD_some]
  | restore instances answers =>
    refine Triple.bind (?_ : Triple _ _ (fun _ s => Owned form s ∧ Fresh lib form session form.topoOrder s) _)
      fun _ => pure_triple _
    refine Triple.bind (Triple.mapM fun entry _ => restoreRows_owned entry) fun _ => ?_
    refine Triple.bind (Triple.mapM fun answer _ => restoreAnswer_owned answer) fun _ => ?_
    exact Triple.bind pass fun _ => pure_triple _
  | recalculate => exact pass

end Calls

end DataCollectionLab.Form
