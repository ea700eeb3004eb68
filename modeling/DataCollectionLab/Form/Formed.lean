import DataCollectionLab.Form.Resolve
import DataCollectionLab.Lib.Except

/-!
What the compiler sees to: the ids of a compiled form are plain and distinct, and a field of a repeat is a
field of one the form has. Paths by id are then told apart.
-/

namespace DataCollectionLab.Form

open Lib

section Paths

def Plain (id : String) : Prop := ∀ c ∈ id.toList, c ≠ '[' ∧ c ≠ ']' ∧ c ≠ '.'

theorem toList_instancePath (rid iid fid : String) :
    (instancePath rid iid fid).toList = rid.toList ++ '[' :: (iid.toList ++ ']' :: '.' :: fid.toList) := by
  simp [instancePath, String.toList_append]

theorem instancePath_injective {rid iid fid rid' iid' fid' : String} (plainR : Plain rid) (plainF : Plain fid)
    (plainR' : Plain rid') (plainF' : Plain fid') (same : instancePath rid iid fid = instancePath rid' iid' fid') :
    rid = rid' ∧ iid = iid' ∧ fid = fid' := by
  have noPoint {id : String} (plain : Plain id) : '.' ∉ id.toList := fun member => (plain _ member).2.2 rfl
  have noBracket {id : String} (plain : Plain id) : '[' ∉ id.toList.reverse :=
    fun member => (plain _ (List.mem_reverse.mp member)).1 rfl
  have chars := congrArg String.toList same
  rw [toList_instancePath, toList_instancePath] at chars
  have last : (rid.toList ++ '[' :: (iid.toList ++ [']'])) ++ '.' :: fid.toList =
      (rid'.toList ++ '[' :: (iid'.toList ++ [']'])) ++ '.' :: fid'.toList := by
    simpa using chars
  obtain ⟨front, fields⟩ := append_cons_inj (noPoint plainF) (noPoint plainF') last
  -- The first bracket, as the last of the reversed text.
  have turned := congrArg List.reverse front
  rw [List.reverse_append, List.reverse_append, List.reverse_cons, List.reverse_cons, List.append_assoc,
    List.append_assoc, List.singleton_append, List.singleton_append] at turned
  obtain ⟨ids, repeats⟩ := append_cons_inj (noBracket plainR) (noBracket plainR') turned
  have instances := List.append_inj_left' (List.reverse_injective ids) rfl
  exact ⟨String.toList_injective (List.reverse_injective repeats), String.toList_injective instances,
    String.toList_injective fields⟩

theorem instancePath_ne {rid iid fid fid' : String} (plain : Plain fid') : instancePath rid iid fid ≠ fid' := by
  rintro rfl
  exact (plain '[' (by rw [toList_instancePath]; simp)).1 rfl

theorem idPattern_plain {id : String} (accepted : idPattern id = true) : Plain id := by
  have letter {c : Char} (is : ('a' ≤ c && c ≤ 'z') || ('0' ≤ c && c ≤ '9') || c = '_') :
      c ≠ '[' ∧ c ≠ ']' ∧ c ≠ '.' := by
    refine ⟨?_, ?_, ?_⟩ <;> rintro rfl <;> revert is <;> decide
  unfold idPattern at accepted
  intro c member
  cases chars : id.toList with
  | nil =>
    rw [chars] at accepted
    exact Bool.noConfusion accepted
  | cons first others =>
    rw [chars] at accepted member
    simp only [Bool.and_eq_true, Bool.or_eq_true, decide_eq_true_eq, List.all_eq_true] at accepted
    rcases List.mem_cons.mp member with rfl | later
    · exact letter (by simp [accepted.1.1, accepted.1.2])
    · rcases accepted.2 with all | ⟨last, all⟩
      · exact letter (by simpa using all c later)
      · obtain ⟨init, rfl⟩ : ∃ init, others = init ++ ['\n'] := ⟨others.dropLast, by
          have nonempty : others ≠ [] := List.ne_nil_of_mem later
          rw [List.getLast?_eq_some_getLast nonempty] at last
          rw [← Option.some.inj last, List.dropLast_append_getLast]⟩
        rw [List.dropLast_concat] at all
        rcases List.mem_append.mp later with within | newline
        · exact letter (by simpa using all c within)
        · obtain rfl := List.mem_singleton.mp newline
          decide

end Paths

structure Formed (form : CompiledForm) : Prop where
  distinct : form.order.Nodup
  repeats : (form.repeats.map Repeat.id).Nodup
  plain : ∀ cf ∈ form.fields, Plain cf.fieldId
  plainRepeats : ∀ node ∈ form.repeats, Plain node.id
  within : ∀ cf ∈ form.fields, ∀ rid, cf.repeatId = some rid → ∃ node ∈ form.repeats, node.id = rid

section Compile

theorem find?_isSome_iff {form : CompiledForm} {fid : String} : (form.field? fid).isSome ↔ fid ∈ form.order := by
  simp [CompiledForm.field?, CompiledForm.order]

theorem repeat?_isSome_iff {form : CompiledForm} {rid : String} :
    (form.repeat? rid).isSome ↔ ∃ node ∈ form.repeats, node.id = rid := by
  simp [CompiledForm.repeat?]

structure Growing (form : CompiledForm) : Prop extends Formed form where
  contained : ∀ node ∈ form.repeats, (form.container? node.id).isSome

theorem container?_append {form : CompiledForm} (more : List Container) {cid : String}
    (found : (form.container? cid).isSome) :
    (CompiledForm.container? { form with containers := form.containers ++ more } cid).isSome := by
  simp only [CompiledForm.container?, List.find?_isSome] at found ⊢
  obtain ⟨container, member, same⟩ := found
  exact ⟨container, List.mem_append_left _ member, same⟩

theorem compileNode_cases {form next : CompiledForm} {node : Node} {ancestors : List String}
    (compiled : compileNode form (node, ancestors) = .ok next) :
    Plain node.id ∧ node.id ∉ form.order ∧ form.container? node.id = none ∧
      ((∃ question, node = .question question ∧ ∃ cf : CompiledField, cf.node = question ∧
          cf.repeatId = (enclosingRepeats form ancestors).head? ∧ cf.ancestors = ancestors ∧
          cf.dependsOn = dependencies form question ancestors ∧ next = { form with fields := form.fields ++ [cf] }) ∨
        (∃ group children, node = .group group children ∧ next = { form with
          containers := form.containers ++ [⟨group.id, group.relevant, group.appearance, ancestors⟩] }) ∨
        ∃ repeated children, node = .repeated repeated children ∧ enclosingRepeats form ancestors = [] ∧
          ((ancestors.filterMap form.container?).find? fun container =>
            container.appearance = some "field-list") = none ∧
          next = { form with
            repeats := form.repeats ++ [repeated]
            containers := form.containers ++ [⟨repeated.id, repeated.relevant, none, ancestors⟩] }) := by
  unfold compileNode at compiled
  dsimp only at compiled
  split at compiled
  · cases compiled
  rename_i accepted
  split at compiled
  · cases compiled
  rename_i new
  split at compiled
  · cases compiled
  refine ⟨idPattern_plain (by simpa using accepted), fun member => new (Or.inl (find?_isSome_iff.mpr member)), ?_, ?_⟩
  · exact Option.not_isSome_iff_eq_none.mp fun found => new (Or.inr found)
  cases node with
  | question question =>
    replace compiled : compileQuestion form question ancestors = .ok next := compiled
    refine Or.inl ⟨question, rfl, {
        node := question
        dependsOn := dependencies form question ancestors
        ancestors := ancestors
        repeatId := (enclosingRepeats form ancestors).head?
        choiceQuery := question.choices.bind compileChoiceList
        rowsQuery := question.choices.bind compileRowsChoices }, rfl, rfl, rfl, rfl, ?_⟩
    unfold compileQuestion at compiled
    dsimp only at compiled
    split at compiled
    · split at compiled
      · cases compiled
      · exact (Except.ok.inj compiled).symm
    · exact (Except.ok.inj compiled).symm
  | group group children => exact Or.inr (Or.inl ⟨group, children, rfl, (Except.ok.inj compiled).symm⟩)
  | repeated repeated children =>
    replace compiled : compileRepeat form repeated children ancestors = .ok next := compiled
    unfold compileRepeat at compiled
    split at compiled
    · split at compiled <;> cases compiled
    rename_i unlisted
    split at compiled
    · cases compiled
    rename_i alone
    obtain ⟨-, -, compiled⟩ := bind_ok_iff.mp compiled
    exact Or.inr (Or.inr ⟨repeated, children, rfl, not_not.mp alone, unlisted, (Except.ok.inj compiled).symm⟩)

theorem growing_empty : Growing {} := by
  refine ⟨⟨?_, ?_, ?_, ?_, ?_⟩, ?_⟩ <;> simp [CompiledForm.order]

theorem compileNode_growing {form next : CompiledForm} {visit : Node × List String} (growing : Growing form)
    (compiled : compileNode form visit = .ok next) : Growing next := by
  obtain ⟨node, ancestors⟩ := visit
  obtain ⟨plain, fresh, uncontained, left⟩ := compileNode_cases compiled
  have other {node' : Repeat} (old : node' ∈ form.repeats) : node'.id ≠ node.id := fun same => by
    have found := growing.contained node' old
    rw [same, uncontained] at found
    cases found
  obtain ⟨question, rfl, cf, rfl, inside, -, -, rfl⟩ | ⟨group, children, rfl, rfl⟩ |
    ⟨repeated, children, rfl, -, -, rfl⟩ := left
  · refine ⟨⟨?_, growing.repeats, ?_, growing.plainRepeats, ?_⟩, growing.contained⟩
    · unfold CompiledForm.order
      rw [List.map_append]
      exact List.nodup_append_comm.mp (List.nodup_cons.mpr ⟨fresh, growing.distinct⟩)
    · intro cf' member
      rcases List.mem_append.mp member with old | last
      · exact growing.plain cf' old
      · obtain rfl := List.mem_singleton.mp last
        exact plain
    · intro cf' member rid within
      rcases List.mem_append.mp member with old | last
      · exact growing.within cf' old rid within
      · obtain rfl := List.mem_singleton.mp last
        have enclosed : rid ∈ enclosingRepeats form ancestors := List.mem_of_head? (inside ▸ within)
        simp only [enclosingRepeats, List.mem_filter] at enclosed
        exact repeat?_isSome_iff.mp enclosed.2
  · refine ⟨⟨growing.distinct, growing.repeats, growing.plain, growing.plainRepeats, growing.within⟩, ?_⟩
    exact fun node member => container?_append _ (growing.contained node member)
  · refine ⟨⟨growing.distinct, ?_, growing.plain, ?_, ?_⟩, ?_⟩
    · rw [List.map_append]
      refine List.nodup_append_comm.mp (List.nodup_cons.mpr ⟨?_, growing.repeats⟩)
      intro member
      obtain ⟨node', old, same⟩ := List.mem_map.mp member
      exact other old same
    · intro node' member
      rcases List.mem_append.mp member with old | last
      · exact growing.plainRepeats node' old
      · obtain rfl := List.mem_singleton.mp last
        exact plain
    · intro cf member rid inside
      obtain ⟨node', old, same⟩ := growing.within cf member rid inside
      exact ⟨node', List.mem_append_left _ old, same⟩
    · intro node' member
      rcases List.mem_append.mp member with old | last
      · exact container?_append _ (growing.contained node' old)
      · obtain rfl := List.mem_singleton.mp last
        simp [CompiledForm.container?]

theorem linkRowsChoices_same {form : CompiledForm} {cf cf' : CompiledField} (linked : linkRowsChoices form cf = .ok cf') :
    cf'.node = cf.node ∧ cf'.ancestors = cf.ancestors ∧ cf'.repeatId = cf.repeatId ∧
      cf'.choiceQuery = cf.choiceQuery ∧ cf'.rowsQuery = cf.rowsQuery ∧ cf.dependsOn ⊆ cf'.dependsOn := by
  unfold linkRowsChoices at linked
  split at linked
  · obtain rfl := Except.ok.inj linked
    exact ⟨rfl, rfl, rfl, rfl, rfl, List.Subset.refl _⟩
  split at linked
  · cases linked
  · obtain rfl := Except.ok.inj linked
    exact ⟨rfl, rfl, rfl, rfl, rfl, List.subset_append_left _ _⟩

theorem compile_parts {children : List Node} {form : CompiledForm} (compiled : compile children = .ok form) :
    ∃ grown : CompiledForm, (walk [] children).foldlM compileNode {} = .ok grown ∧ Growing grown ∧
      List.Forall₂ (fun cf cf' => linkRowsChoices grown cf = .ok cf') grown.fields form.fields ∧
      form.containers = grown.containers ∧ form.repeats = grown.repeats ∧ checkReferences form = .ok () ∧
      topologicalOrder form = .ok form.topoOrder := by
  unfold compile at compiled
  obtain ⟨grown, walked, compiled⟩ := bind_ok_iff.mp compiled
  obtain ⟨fields, linked, compiled⟩ := bind_ok_iff.mp compiled
  obtain ⟨-, -, compiled⟩ := bind_ok_iff.mp compiled
  obtain ⟨⟨⟩, references, compiled⟩ := bind_ok_iff.mp compiled
  obtain ⟨topoOrder, sorted, compiled⟩ := bind_ok_iff.mp compiled
  obtain rfl := Except.ok.inj compiled
  have growing : Growing grown :=
    foldlM_invariant Growing (fun form visit _ next kept step => compileNode_growing kept step) growing_empty walked
  exact ⟨grown, walked, growing, mapM_ok_iff.mp linked, rfl, rfl, references, sorted⟩

theorem forall₂_mem_right {α β : Type} {R : α → β → Prop} {l : List α} {r : List β} (both : List.Forall₂ R l r) {b : β}
    (member : b ∈ r) : ∃ a ∈ l, R a b := by
  induction both with
  | nil => exact absurd member List.not_mem_nil
  | cons here _ ih =>
    rcases List.mem_cons.mp member with rfl | later
    · exact ⟨_, List.mem_cons_self, here⟩
    · obtain ⟨a, within, related⟩ := ih later
      exact ⟨a, List.mem_cons_of_mem _ within, related⟩

theorem compile_formed {children : List Node} {form : CompiledForm} (compiled : compile children = .ok form) :
    Formed form := by
  obtain ⟨grown, -, growing, linked, -, repeats, -, -⟩ := compile_parts compiled
  have ids {l r : List CompiledField} (both : List.Forall₂ (fun cf cf' => linkRowsChoices grown cf = .ok cf') l r) :
      r.map CompiledField.fieldId = l.map CompiledField.fieldId := by
    induction both with
    | nil => rfl
    | cons here _ ih =>
      rw [List.map_cons, List.map_cons, ih]
      congr 1
      exact congrArg Question.id (linkRowsChoices_same here).1
  have order : form.order = grown.order := ids linked
  refine ⟨order ▸ growing.distinct, repeats ▸ growing.repeats, ?_, repeats ▸ growing.plainRepeats, ?_⟩
  · intro cf member
    obtain ⟨old, within, link⟩ := forall₂_mem_right linked member
    have plain := growing.plain old within
    rwa [CompiledField.fieldId, ← (linkRowsChoices_same link).1] at plain
  · intro cf member rid inside
    obtain ⟨old, within, link⟩ := forall₂_mem_right linked member
    rw [(linkRowsChoices_same link).2.2.1] at inside
    rw [repeats]
    exact growing.within old within rid inside

end Compile

end DataCollectionLab.Form
