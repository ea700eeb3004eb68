import DataCollectionLab.Form.Formed

/-!
A document as it is read from the first node to the last, and what the compiler makes of each node where it
stands: the repeat around it, and the containers whose relevance it inherits.
-/

namespace DataCollectionLab.Form

open Lib

theorem node_induction {P : Node → Prop} (question : ∀ node, P (.question node))
    (group : ∀ node children, (∀ child ∈ children, P child) → P (.group node children))
    (repeated : ∀ node children, (∀ child ∈ children, P child) → P (.repeated node children)) : ∀ node, P node
  | .question node => question node
  | .group node children => group node children fun child _ => node_induction question group repeated child
  | .repeated node children => repeated node children fun child _ => node_induction question group repeated child

section Reading

mutual

def placed (rid : Option String) : Node → List (Question × Option String)
  | .question node => [(node, rid)]
  | .group _ children => placedAll rid children
  | .repeated node children => placedAll (some node.id) children

def placedAll (rid : Option String) : List Node → List (Question × Option String)
  | [] => []
  | node :: rest => placed rid node ++ placedAll rid rest

end

mutual

def repeatsIn : Node → List Repeat
  | .question _ => []
  | .group _ children => repeatsAll children
  | .repeated node children => node :: repeatsAll children

def repeatsAll : List Node → List Repeat
  | [] => []
  | node :: rest => repeatsIn node ++ repeatsAll rest

end

mutual

def Fits (inside listed : Bool) : Node → Prop
  | .question _ => True
  | .group node children => FitsAll inside (listed || node.appearance = some "field-list") children
  | .repeated _ children => inside = false ∧ listed = false ∧ FitsAll true false children

def FitsAll (inside listed : Bool) : List Node → Prop
  | [] => True
  | node :: rest => Fits inside listed node ∧ FitsAll inside listed rest

end

end Reading

section Compile

def CompiledField.place (cf : CompiledField) : Question × Option String := (cf.node, cf.repeatId)

/-- Where the walk stands among what is compiled: in a repeat, and under a field-list group. -/
structure Stands (form : CompiledForm) (ancestors : List String) (rid : Option String) (listed : Bool) : Prop where
  growing : Growing form
  contained : ∀ cid ∈ ancestors, (form.container? cid).isSome
  enclosing : enclosingRepeats form ancestors = rid.toList
  listed : listed = true → ∃ cid ∈ ancestors, ∃ container, form.container? cid = some container ∧
    container.appearance = some "field-list"
  under : ∀ r, rid = some r → ∃ container more, form.container? r = some container ∧
    ancestors = container.ancestors ++ r :: more

/-- A field depends on what the containers around it read, and those around its repeat are the first of them. -/
structure Linked (form : CompiledForm) : Prop where
  depends : ∀ cf ∈ form.fields, ∀ cid ∈ cf.ancestors, ∃ container, form.container? cid = some container ∧
    ∀ expr, container.relevant = some expr → collectRefs expr ⊆ cf.dependsOn
  under : ∀ cf ∈ form.fields, ∀ rid, cf.repeatId = some rid → ∃ container more, form.container? rid = some container ∧
    cf.ancestors = container.ancestors ++ rid :: more

theorem compileNode_kept {form next : CompiledForm} {visit : Node × List String}
    (compiled : compileNode form visit = .ok next) {cid : String} (known : (form.container? cid).isSome) :
    next.container? cid = form.container? cid ∧ (next.repeat? cid).isSome = (form.repeat? cid).isSome := by
  obtain ⟨node, ancestors⟩ := visit
  obtain ⟨-, -, uncontained, left⟩ := compileNode_cases compiled
  have apart : node.id ≠ cid := by
    rintro rfl
    rw [uncontained] at known
    cases known
  have found (more : List Container) :
      (form.containers ++ more).find? (fun c => c.id = cid) = form.container? cid := by
    rw [List.find?_append]
    exact Option.or_of_isSome known
  obtain ⟨question, rfl, cf, -, -, -, -, rfl⟩ | ⟨group, children, rfl, rfl⟩ | ⟨repeated, children, rfl, -, -, rfl⟩ := left
  · exact ⟨rfl, rfl⟩
  · exact ⟨found _, rfl⟩
  · refine ⟨found _, ?_⟩
    have alone : List.find? (fun r : Repeat => decide (r.id = cid)) [repeated] = none := by
      rw [List.find?_cons_of_neg (by simpa [Node.id] using apart), List.find?_nil]
    rw [CompiledForm.repeat?, CompiledForm.repeat?, List.find?_append, alone, Option.or_none]

theorem Stands.step {form next : CompiledForm} {visit : Node × List String} {ancestors : List String}
    {rid : Option String} {listed : Bool} (stands : Stands form ancestors rid listed)
    (compiled : compileNode form visit = .ok next) : Stands next ancestors rid listed where
  growing := compileNode_growing stands.growing compiled
  contained cid member := by
    rw [(compileNode_kept compiled (stands.contained cid member)).1]
    exact stands.contained cid member
  enclosing := by
    rw [← stands.enclosing]
    exact List.filter_congr fun cid member => by
      rw [(compileNode_kept compiled (stands.contained cid member)).2]
  listed under := by
    obtain ⟨cid, member, container, found, appears⟩ := stands.listed under
    exact ⟨cid, member, container, (compileNode_kept compiled (stands.contained cid member)).1.trans found, appears⟩
  under r inside := by
    obtain ⟨container, more, found, chain⟩ := stands.under r inside
    exact ⟨container, more, (compileNode_kept compiled (by rw [found]; rfl)).1.trans found, chain⟩

theorem Stands.run {form next : CompiledForm} {visits : List (Node × List String)} {ancestors : List String}
    {rid : Option String} {listed : Bool} (stands : Stands form ancestors rid listed)
    (compiled : visits.foldlM compileNode form = .ok next) : Stands next ancestors rid listed :=
  foldlM_invariant (fun form => Stands form ancestors rid listed)
    (fun _ _ _ _ stands compiled => stands.step compiled) stands compiled

theorem Stands.group {form : CompiledForm} {node : Group} {ancestors : List String} {rid : Option String} {listed : Bool}
    (stands : Stands form ancestors rid listed) (new : form.container? node.id = none)
    (kept : Stands { form with
      containers := form.containers ++ [⟨node.id, node.relevant, node.appearance, ancestors⟩] } ancestors rid listed) :
    Stands { form with containers := form.containers ++ [⟨node.id, node.relevant, node.appearance, ancestors⟩] }
      (ancestors ++ [node.id]) rid (listed || node.appearance = some "field-list") := by
  have found : CompiledForm.container? { form with
      containers := form.containers ++ [⟨node.id, node.relevant, node.appearance, ancestors⟩] } node.id =
      some ⟨node.id, node.relevant, node.appearance, ancestors⟩ := by
    have absent : form.containers.find? (fun c => c.id = node.id) = none := new
    simp [CompiledForm.container?, absent]
  refine ⟨kept.growing, ?_, ?_, ?_, ?_⟩
  · intro cid member
    rcases List.mem_append.mp member with old | last
    · exact kept.contained cid old
    · rw [List.mem_singleton.mp last, found]
      rfl
  · have plain : (form.repeat? node.id).isSome = false := by
      by_contra listed
      obtain ⟨other, member, same⟩ := repeat?_isSome_iff.mp (Bool.eq_true_of_not_eq_false listed)
      have contained := stands.growing.contained other member
      rw [same, new] at contained
      cases contained
    rw [enclosingRepeats, List.filter_append, ← kept.enclosing, enclosingRepeats]
    have last : [node.id].filter (fun ancestor => (form.repeat? ancestor).isSome) = [] := by
      rw [List.filter_cons_of_neg (by rw [plain]; exact Bool.false_ne_true), List.filter_nil]
    exact (congrArg (_ ++ ·) last).trans (List.append_nil _)
  · intro under
    rcases Bool.or_eq_true_iff.mp under with before | here
    · obtain ⟨cid, member, rest⟩ := kept.listed before
      exact ⟨cid, List.mem_append_left _ member, rest⟩
    · exact ⟨node.id, List.mem_append_right _ (List.mem_singleton_self _), _, found, of_decide_eq_true here⟩
  · intro r inside
    obtain ⟨container, more, known, chain⟩ := kept.under r inside
    exact ⟨container, more ++ [node.id], known, by rw [chain, List.append_assoc, List.cons_append]⟩

theorem Stands.repeated {form : CompiledForm} {node : Repeat} {ancestors : List String} {rid : Option String}
    {listed : Bool} (new : form.container? node.id = none)
    (kept : Stands { form with
      repeats := form.repeats ++ [node]
      containers := form.containers ++ [⟨node.id, node.relevant, none, ancestors⟩] } ancestors rid listed)
    (outside : rid = none) :
    Stands { form with
      repeats := form.repeats ++ [node]
      containers := form.containers ++ [⟨node.id, node.relevant, none, ancestors⟩] }
      (ancestors ++ [node.id]) (some node.id) false := by
  have known : CompiledForm.container? { form with
      repeats := form.repeats ++ [node]
      containers := form.containers ++ [⟨node.id, node.relevant, none, ancestors⟩] } node.id =
      some ⟨node.id, node.relevant, none, ancestors⟩ := by
    have absent : form.containers.find? (fun c => c.id = node.id) = none := new
    simp [CompiledForm.container?, absent]
  refine ⟨kept.growing, ?_, ?_, fun under => (by cases under), ?_⟩
  · intro cid member
    rcases List.mem_append.mp member with old | last
    · exact kept.contained cid old
    · rw [List.mem_singleton.mp last, known]
      rfl
  · have enclosing := kept.enclosing
    rw [outside, enclosingRepeats] at enclosing
    rw [enclosingRepeats, List.filter_append, enclosing]
    have found : (CompiledForm.repeat? { form with
        repeats := form.repeats ++ [node]
        containers := form.containers ++ [⟨node.id, node.relevant, none, ancestors⟩] } node.id).isSome :=
      repeat?_isSome_iff.mpr ⟨node, List.mem_append_right _ (List.mem_singleton_self _), rfl⟩
    have one : [node.id].filter (fun ancestor => (CompiledForm.repeat? { form with
        repeats := form.repeats ++ [node]
        containers := form.containers ++ [⟨node.id, node.relevant, none, ancestors⟩] } ancestor).isSome) = [node.id] :=
      List.filter_cons_of_pos found
    rw [one]
    rfl
  · rintro r ⟨⟩
    exact ⟨_, [], known, rfl⟩

theorem Linked.step {form next : CompiledForm} {node : Node} {ancestors : List String} {rid : Option String}
    {listed : Bool} (linked : Linked form) (stands : Stands form ancestors rid listed)
    (compiled : compileNode form (node, ancestors) = .ok next) : Linked next := by
  have known {cid : String} {container : Container} (found : form.container? cid = some container) :
      next.container? cid = some container :=
    (compileNode_kept compiled (by rw [found]; rfl)).1.trans found
  have kept : ∀ cf ∈ form.fields, (∀ cid ∈ cf.ancestors, ∃ container, next.container? cid = some container ∧
      ∀ expr, container.relevant = some expr → collectRefs expr ⊆ cf.dependsOn) ∧
      ∀ rid, cf.repeatId = some rid → ∃ container more, next.container? rid = some container ∧
        cf.ancestors = container.ancestors ++ rid :: more := by
    refine fun cf member => ⟨fun cid above => ?_, fun rid inside => ?_⟩
    · obtain ⟨container, found, depends⟩ := linked.depends cf member cid above
      exact ⟨container, known found, depends⟩
    · obtain ⟨container, more, found, chain⟩ := linked.under cf member rid inside
      exact ⟨container, more, known found, chain⟩
  obtain ⟨-, -, -, left⟩ := compileNode_cases compiled
  obtain ⟨question, rfl, cf, rfl, inside, chain, depends, rfl⟩ | ⟨group, children, rfl, rfl⟩ |
    ⟨repeated, children, rfl, -, -, rfl⟩ := left
  · refine ⟨fun cf' member => ?_, fun cf' member => ?_⟩
    · rcases List.mem_append.mp member with old | last
      · exact (kept cf' old).1
      · obtain rfl := List.mem_singleton.mp last
        intro cid above
        rw [chain] at above
        obtain ⟨container, found⟩ := Option.isSome_iff_exists.mp (stands.contained cid above)
        refine ⟨container, found, fun expr given dep read => ?_⟩
        have listed : dep ∈ (ancestors.filterMap form.container?).flatMap fun container => optionRefs container.relevant :=
          List.mem_flatMap.mpr ⟨container, List.mem_filterMap.mpr ⟨cid, above, found⟩, by rw [given]; exact read⟩
        rw [depends, dependencies]
        simp only [List.mem_append]
        exact Or.inl (Or.inl (Or.inr listed))
    · rcases List.mem_append.mp member with old | last
      · exact (kept cf' old).2
      · obtain rfl := List.mem_singleton.mp last
        intro r within
        rw [stands.enclosing, Option.head?_toList] at inside
        obtain ⟨container, more, found, path⟩ := stands.under r (inside ▸ within)
        exact ⟨container, more, found, chain.trans path⟩
  · exact ⟨fun cf member => (kept cf member).1, fun cf member => (kept cf member).2⟩
  · exact ⟨fun cf member => (kept cf member).1, fun cf member => (kept cf member).2⟩

structure Walked (form next : CompiledForm) (entries : List (Question × Option String)) (repeats : List Repeat) : Prop where
  fields : next.fields.map CompiledField.place = form.fields.map CompiledField.place ++ entries
  repeats : next.repeats = form.repeats ++ repeats
  linked : Linked form → Linked next

theorem Walked.trans {form between next : CompiledForm} {entries later : List (Question × Option String)}
    {repeats others : List Repeat} (first : Walked form between entries repeats)
    (second : Walked between next later others) : Walked form next (entries ++ later) (repeats ++ others) :=
  ⟨by rw [second.fields, first.fields, List.append_assoc], by rw [second.repeats, first.repeats, List.append_assoc],
    fun linked => second.linked (first.linked linked)⟩

theorem walk_walked {children : List Node} (each : ∀ child ∈ children, ∀ ancestors form next rid listed,
    Stands form ancestors rid listed → (walkNode ancestors child).foldlM compileNode form = .ok next →
    Walked form next (placed rid child) (repeatsIn child) ∧ Fits rid.isSome listed child) :
    ∀ ancestors form next rid listed, Stands form ancestors rid listed →
      (walk ancestors children).foldlM compileNode form = .ok next →
      Walked form next (placedAll rid children) (repeatsAll children) ∧ FitsAll rid.isSome listed children := by
  induction children with
  | nil =>
    intro ancestors form next rid listed stands compiled
    obtain rfl := Except.ok.inj compiled
    exact ⟨⟨by rw [placedAll, List.append_nil], by rw [repeatsAll, List.append_nil], id⟩, trivial⟩
  | cons child rest ih =>
    intro ancestors form next rid listed stands compiled
    rw [walk, List.foldlM_append] at compiled
    obtain ⟨between, first, second⟩ := bind_ok_iff.mp compiled
    obtain ⟨walked, fits⟩ := each child List.mem_cons_self ancestors form between rid listed stands first
    obtain ⟨later, others⟩ := ih (fun child member => each child (List.mem_cons_of_mem _ member)) ancestors between next
      rid listed (stands.run first) second
    exact ⟨walked.trans later, fits, others⟩

theorem walkNode_walked (node : Node) : ∀ ancestors form next rid listed, Stands form ancestors rid listed →
    (walkNode ancestors node).foldlM compileNode form = .ok next →
    Walked form next (placed rid node) (repeatsIn node) ∧ Fits rid.isSome listed node := by
  induction node using node_induction with
  | question node =>
    intro ancestors form next rid listed stands compiled
    obtain ⟨between, first, same⟩ := foldlM_cons_ok_iff.mp compiled
    obtain rfl := Except.ok.inj same
    obtain ⟨-, -, -, left⟩ := compileNode_cases first
    obtain ⟨question, alike, cf, rfl, inside, -, -, rfl⟩ | ⟨_, _, other, -⟩ | ⟨_, _, other, -⟩ := left
    · obtain rfl := Node.question.inj alike
      rw [stands.enclosing, Option.head?_toList] at inside
      refine ⟨⟨?_, by rw [repeatsIn, List.append_nil], fun linked => linked.step stands first⟩, trivial⟩
      rw [placed, List.map_append, List.map_singleton, CompiledField.place, inside]
    · cases other
    · cases other
  | group node children ih =>
    intro ancestors form next rid listed stands compiled
    obtain ⟨between, first, compiled⟩ := foldlM_cons_ok_iff.mp compiled
    have kept := stands.step first
    obtain ⟨-, -, new, left⟩ := compileNode_cases first
    obtain ⟨_, other, -⟩ | ⟨group, _, same, rfl⟩ | ⟨_, _, other, -⟩ := left
    · cases other
    · obtain ⟨rfl, rfl⟩ := Node.group.inj same
      obtain ⟨walked, fits⟩ := walk_walked ih _ _ _ _ _ (stands.group new kept) compiled
      exact ⟨⟨walked.fields, walked.repeats, fun linked => walked.linked (linked.step stands first)⟩, fits⟩
    · cases other
  | repeated node children ih =>
    intro ancestors form next rid listed stands compiled
    obtain ⟨between, first, compiled⟩ := foldlM_cons_ok_iff.mp compiled
    have kept := stands.step first
    obtain ⟨-, -, new, left⟩ := compileNode_cases first
    obtain ⟨_, other, -⟩ | ⟨_, _, other, -⟩ | ⟨repeated, _, same, alone, unlisted, rfl⟩ := left
    · cases other
    · cases other
    · obtain ⟨rfl, rfl⟩ := Node.repeated.inj same
      have outside : rid = none := by
        rw [stands.enclosing] at alone
        exact Option.toList_eq_nil_iff.mp alone
      obtain ⟨walked, fits⟩ := walk_walked ih _ _ _ _ _ (Stands.repeated new kept outside) compiled
      refine ⟨⟨walked.fields, ?_, fun linked => walked.linked (linked.step stands first)⟩, ?_, ?_, fits⟩
      · rw [walked.repeats, repeatsIn, List.append_assoc]
        rfl
      · rw [outside]
        rfl
      · by_contra under
        obtain ⟨cid, member, container, found, appears⟩ := stands.listed (Bool.eq_true_of_not_eq_false under)
        have none := List.find?_eq_none.mp unlisted container (List.mem_filterMap.mpr ⟨cid, member, found⟩)
        exact none (by simpa using appears)

theorem stands_start : Stands {} [] none false :=
  ⟨growing_empty, by simp, rfl, fun under => (by cases under), fun _ inside => by cases inside⟩

theorem compile_places {children : List Node} {form : CompiledForm} (compiled : compile children = .ok form) :
    form.fields.map CompiledField.place = placedAll none children ∧ form.repeats = repeatsAll children ∧
      FitsAll false false children := by
  obtain ⟨grown, walked, -, linked, -, repeats, -, -⟩ := compile_parts compiled
  obtain ⟨left, fits⟩ := walk_walked (fun child _ => walkNode_walked child) _ _ _ _ _ stands_start walked
  have places : form.fields.map CompiledField.place = grown.fields.map CompiledField.place := by
    refine (forall₂_map_eq.mp (linked.imp fun cf cf' link => ?_)).symm
    have same := linkRowsChoices_same link
    rw [CompiledField.place, CompiledField.place, same.1, same.2.2.1]
  exact ⟨places.trans left.fields, repeats.trans left.repeats, fits⟩

theorem compile_linked {children : List Node} {form : CompiledForm} (compiled : compile children = .ok form) :
    Linked form := by
  obtain ⟨grown, walked, -, linked, containers, -, -, -⟩ := compile_parts compiled
  have empty : Linked {} := ⟨fun _ member => (by cases member), fun _ member => by cases member⟩
  have links := (walk_walked (fun child _ => walkNode_walked child) _ _ _ _ _ stands_start walked).1.linked empty
  have known (cid : String) : form.container? cid = grown.container? cid := by
    rw [CompiledForm.container?, containers]
    rfl
  refine ⟨fun cf member cid above => ?_, fun cf member rid inside => ?_⟩
  · obtain ⟨old, within, link⟩ := forall₂_mem_right linked member
    obtain ⟨-, chain, -, -, -, more⟩ := linkRowsChoices_same link
    obtain ⟨container, found, depends⟩ := links.depends old within cid (chain ▸ above)
    exact ⟨container, (known cid).trans found, fun expr given dep read => more (depends expr given read)⟩
  · obtain ⟨old, within, link⟩ := forall₂_mem_right linked member
    obtain ⟨-, chain, place, -⟩ := linkRowsChoices_same link
    obtain ⟨container, more, found, path⟩ := links.under old within rid (place ▸ inside)
    exact ⟨container, more, (known rid).trans found, chain.trans path⟩

end Compile

end DataCollectionLab.Form
