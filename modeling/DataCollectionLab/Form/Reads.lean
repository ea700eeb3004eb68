import DataCollectionLab.Form.DeviceRuntime
import DataCollectionLab.Form.Outside
import DataCollectionLab.Form.Places

/-!
What an expression reads of a form being answered. Two states that agree in it give the expression one value.
-/

namespace DataCollectionLab.Form

open Lib

namespace Evaluator

variable {functions : Context → String → List Value → Except Failure Value}
  {resolve : Context → String → Except Failure Value} {ctx ctx' : Context}

section Arguments

variable {args : List Expr}
  (each : ∀ arg ∈ args, evaluate functions resolve ctx arg = evaluate functions resolve ctx' arg)

include each

theorem evaluateAll_congr : evaluateAll functions resolve ctx args = evaluateAll functions resolve ctx' args := by
  induction args with
  | nil => rfl
  | cons arg rest ih =>
    rw [evaluateAll, evaluateAll, each arg List.mem_cons_self,
      ih fun arg member => each arg (List.mem_cons_of_mem _ member)]

theorem evaluateIf_congr : evaluateIf functions resolve ctx args = evaluateIf functions resolve ctx' args := by
  match args with
  | [] => rfl
  | [cond] => rw [evaluateIf, evaluateIf, each cond (by simp)]
  | [cond, yes] => rw [evaluateIf, evaluateIf, each cond (by simp), each yes (by simp)]
  | cond :: yes :: no :: _ =>
    rw [evaluateIf, evaluateIf, each cond (by simp), each yes (by simp), each no (by simp)]

end Arguments

theorem evaluate_congr (called : functions ctx = functions ctx') (expr : Expr) :
    (∀ path ∈ paths expr, resolve ctx path = resolve ctx' path) →
      evaluate functions resolve ctx expr = evaluate functions resolve ctx' expr := by
  induction expr using expr_induction with
  | lit value => exact fun _ => rfl
  | ref path =>
    intro resolved
    rw [evaluate, evaluate]
    exact resolved path (List.mem_singleton_self _)
  | op name args ih =>
    intro resolved
    have each : ∀ arg ∈ args, evaluate functions resolve ctx arg = evaluate functions resolve ctx' arg :=
      fun arg member => ih arg member fun path read => resolved path (paths_subset_pathsAll member read)
    rw [evaluate, evaluate, evaluateIf_congr each, evaluateAll_congr each]
  | call fn args ih =>
    intro resolved
    have each : ∀ arg ∈ args, evaluate functions resolve ctx arg = evaluate functions resolve ctx' arg :=
      fun arg member => ih arg member fun path read => resolved path (paths_subset_pathsAll member read)
    rw [evaluate, evaluate, called, evaluateAll_congr each]

end Evaluator

def PlainRows (form : CompiledForm) (s : FormInstance) : Prop :=
  ∀ rid, ∀ iid ∈ s.rows rid, Plain iid ∧ ∃ node ∈ form.repeats, node.id = rid

def Bare (path : String) : Prop := cutAt "[".toList path.toList = none ∨ cutAt "].".toList path.toList = none

def Looks (s : FormInstance) (path key : String) : Prop :=
  (Bare path ∧ key = path) ∨
    ∃ rid, ∃ iid ∈ s.rows rid, ∃ name, (name = path ∨ dependency path = some name) ∧ key = instancePath rid iid name

section Resolve

variable {form : CompiledForm} {s t : FormInstance}

theorem instancePath_of_plain {rid iid name rid' iid' name' : String} (plainR : Plain rid) (plainR' : Plain rid')
    (plainI : Plain iid) (plainI' : Plain iid') (same : instancePath rid iid name = instancePath rid' iid' name') :
    rid = rid' ∧ iid = iid' ∧ name = name' := by
  have chars := congrArg String.toList same
  rw [toList_instancePath, toList_instancePath] at chars
  have opened {rid iid name : String} (plain : Plain rid) :
      cutAt "[".toList (rid.toList ++ '[' :: (iid.toList ++ ']' :: '.' :: name.toList)) =
        some (rid.toList, iid.toList ++ ']' :: '.' :: name.toList) :=
    cutAt_here fun member => (plain _ member).1 rfl
  have closed {iid name : String} (plain : Plain iid) :
      cutAt "].".toList (iid.toList ++ ']' :: '.' :: name.toList) = some (iid.toList, name.toList) :=
    cutAt_here fun member => (plain _ member).2.1 rfl
  have first := (opened plainR).symm.trans ((congrArg _ chars).trans (opened plainR'))
  obtain ⟨repeats, rest⟩ := Prod.mk.inj (Option.some.inj first)
  have second := (closed plainI).symm.trans ((congrArg _ rest).trans (closed plainI'))
  obtain ⟨ids, names⟩ := Prod.mk.inj (Option.some.inj second)
  exact ⟨String.toList_injective repeats, String.toList_injective ids, String.toList_injective names⟩

theorem dependency_eq {path : String} (plain : rowPath path = none) (metadata : ¬ metadataPrefix.isPrefixOf path.toList) :
    dependency path = some ((cutAt "].".toList path.toList).elim path fun cut => String.ofList cut.2) := by
  rw [dependency, if_neg (by simp [plain, metadata])]
  cases cutAt "].".toList path.toList <;> rfl

theorem resolve_congr (formed : Formed form) (rowsPlain : PlainRows form s) (rows : t.instances = s.instances)
    {session : Session} {scope : Option (String × String)} (placed : ∀ rid iid, scope = some (rid, iid) → iid ∈ s.rows rid)
    {path : String} {f g : Option (String → Option Value)}
    (cells : ∀ column, rowPath path = some column → f.map (· column) = g.map (· column))
    (agree : ∀ key, Looks s path key → t.values key = s.values key) :
    Device.resolve { s.context session scope with row := f } path =
      Device.resolve { t.context session scope with row := g } path := by
  have held {rid iid name : String} (within : iid ∈ s.rows rid) (named : name = path ∨ dependency path = some name) :
      t.values (instancePath rid iid name) = s.values (instancePath rid iid name) :=
    agree _ (Or.inr ⟨rid, iid, within, name, named, rfl⟩)
  -- A repeat that has a row is plain: the reference is cut where its dependency is.
  have plainly {rid : List Char} {iid : String} (within : iid ∈ s.rows (String.ofList rid)) : ']' ∉ rid := by
    obtain ⟨-, node, listed, same⟩ := rowsPlain _ iid within
    have plain := formed.plainRepeats node listed
    rw [same] at plain
    exact fun member => (plain ']' (by rwa [String.toList_ofList])).2.1 rfl
  unfold Device.resolve
  cases column : rowPath path with
  | some name =>
    have cell := cells name column
    dsimp only
    cases f with
    | none =>
      cases g with
      | none => rfl
      | some g => cases cell
    | some f =>
      cases g with
      | none => cases cell
      | some g => exact congrArg (fun value => Except.ok (Option.getD value Value.null)) (Option.some.inj cell)
  | none =>
    dsimp only
    by_cases metadata : metadataPrefix.isPrefixOf path.toList = true
    · rw [if_pos metadata, if_pos metadata]
      rfl
    rw [if_neg metadata, if_neg metadata]
    have depends := dependency_eq column metadata
    cases every : cutAt "[].".toList path.toList with
    | some cut =>
      obtain ⟨rid, suffix⟩ := cut
      dsimp only [FormInstance.context]
      rw [rows]
      refine congrArg (fun items => Except.ok (Value.sequence items)) (List.map_congr_left fun iid within => ?_)
      have cut : cutAt "].".toList path.toList = some (rid ++ "[".toList, suffix) := by
        have apart : ']' ∉ rid ++ "[".toList := by simpa using plainly within
        have chars : path.toList = (rid ++ "[".toList) ++ ("].".toList ++ suffix) := by
          rw [cutAt_eq every]
          simp
        rw [chars]
        exact cutAt_here apart
      rw [cut, Option.elim_some] at depends
      exact congrArg (·.getD Value.null) (held within (Or.inr depends)).symm
    | none =>
      dsimp only
      have bare (bare : Bare path) : Reference.resolveBare { s.context session scope with row := f } path =
          Reference.resolveBare { t.context session scope with row := g } path := by
        unfold Reference.resolveBare
        dsimp only [FormInstance.context]
        have row : (scope.bind fun scope => t.values (instancePath scope.1 scope.2 path)) =
            scope.bind fun scope => s.values (instancePath scope.1 scope.2 path) := by
          cases scope with
          | none => rfl
          | some scope => exact held (placed scope.1 scope.2 rfl) (Or.inl rfl)
        rw [row, agree path (Or.inl ⟨bare, rfl⟩)]
      cases opened : cutAt "[".toList path.toList with
      | none => exact bare (Or.inl opened)
      | some first =>
        obtain ⟨rid, rest⟩ := first
        cases closed : cutAt "].".toList path.toList with
        | none => exact bare (Or.inr closed)
        | some whole =>
          dsimp only
          have named {iid : String} (within : iid ∈ s.rows (String.ofList rid)) :
              dependency path = some (String.ofList (Device.splitIndex rest).2) := by
            have apart : ']' ∉ rid ++ "[".toList := by simpa using plainly within
            have chars : path.toList = (rid ++ "[".toList) ++ rest := cutAt_eq opened
            have inner : (cutAt "].".toList rest).map (fun cut => (rid ++ "[".toList ++ cut.1, cut.2)) = some whole := by
              rw [← closed, chars]
              exact (@cutAt_append ']' ['.'] _ apart rest).symm
            obtain ⟨cut, found, rfl⟩ := Option.map_eq_some_iff.mp inner
            rw [depends, closed, Device.splitIndex, found]
            rfl
          unfold Device.resolveIndexed
          by_cases here : (Device.splitIndex rest).1 = ['.']
          · rw [if_pos here, if_pos here]
            dsimp only [FormInstance.context]
            cases scope with
            | none => rfl
            | some scope =>
              dsimp only
              by_cases same : scope.1 = String.ofList rid
              · rw [if_pos same, if_pos same]
                have within : scope.2 ∈ s.rows (String.ofList rid) := same ▸ placed scope.1 scope.2 rfl
                exact congrArg Except.ok (congrArg (·.getD Value.null) (held within (Or.inr (named within))).symm)
              · rw [if_neg same, if_neg same]
          · rw [if_neg here, if_neg here]
            cases Evaluator.toIntOrNull (Evaluator.utf16 (Device.splitIndex rest).1) with
            | none => rfl
            | some position =>
              dsimp only [FormInstance.context]
              rw [rows]
              by_cases negative : position < 0
              · rw [if_pos negative, if_pos negative]
              rw [if_neg negative, if_neg negative]
              cases row : ((s.instances (String.ofList rid)).getD [])[position.toNat]? with
              | none => rfl
              | some iid =>
                have within : iid ∈ s.rows (String.ofList rid) := List.mem_of_getElem? row
                exact congrArg Except.ok (congrArg (·.getD Value.null) (held within (Or.inr (named within))).symm)

def turns (s : FormInstance) (cf : CompiledField) : List String :=
  match cf.repeatId with
  | none => [cf.fieldId]
  | some rid => (s.rows rid).map fun iid => instancePath rid iid cf.fieldId

theorem dependency_plain {id : String} (plain : Plain id) : dependency id = some id := by
  have point {mark : List Char} (within : '.' ∈ mark) : mark.isPrefixOf id.toList = false := by
    by_contra starts
    obtain ⟨rest, same⟩ := List.isPrefixOf_iff_prefix.mp (Bool.eq_true_of_not_eq_false starts)
    exact (plain '.' (same ▸ List.mem_append_left _ within)).2.2 rfl
  have column : rowPath id = none := by
    rw [rowPath, point (by decide)]
    rfl
  have uncut : cutAt "].".toList id.toList = none := by
    by_contra found
    obtain ⟨cut, found⟩ := Option.ne_none_iff_exists'.mp found
    refine (plain ']' ?_).2.1 rfl
    rw [cutAt_eq found]
    simp
  rw [dependency_eq column (by rw [point (by decide)]; exact Bool.false_ne_true), uncut]
  rfl

theorem reads_turn (formed : Formed form) (plainS : PlainRows form s) (plainT : PlainRows form t) {cf : CompiledField}
    (member : cf ∈ form.fields) {path key : String} (turn : key ∈ turns t cf) (reads : Looks s path key) :
    dependency path = some cf.fieldId ∧ key ∈ turns s cf := by
  have plain := formed.plain cf member
  unfold turns at turn ⊢
  cases inside : cf.repeatId with
  | none =>
    rw [inside] at turn
    obtain rfl := List.mem_singleton.mp turn
    obtain ⟨-, same⟩ | ⟨rid, iid, -, name, -, same⟩ := reads
    · exact ⟨same ▸ dependency_plain plain, List.mem_singleton_self _⟩
    · exact absurd same.symm (instancePath_ne plain)
  | some rid =>
    rw [inside] at turn
    obtain ⟨iid, within, rfl⟩ := List.mem_map.mp turn
    obtain ⟨plainI, node, listed, rfl⟩ := plainT rid iid within
    have plainR := formed.plainRepeats node listed
    obtain ⟨bare, same⟩ | ⟨rid', iid', within', name, named, same⟩ := reads
    · -- The path of a row has both marks.
      rw [Bare, ← same, toList_instancePath] at bare
      have opened : cutAt "[".toList (node.id.toList ++ '[' :: (iid.toList ++ ']' :: '.' :: cf.fieldId.toList)) =
          some (node.id.toList, iid.toList ++ ']' :: '.' :: cf.fieldId.toList) :=
        cutAt_here fun member => (plainR _ member).1 rfl
      have closed : cutAt "].".toList ((node.id.toList ++ '[' :: iid.toList) ++ ("].".toList ++ cf.fieldId.toList)) =
          some (node.id.toList ++ '[' :: iid.toList, cf.fieldId.toList) := by
        refine cutAt_here fun member => ?_
        rcases List.mem_append.mp member with first | later
        · exact (plainR _ first).2.1 rfl
        · rcases List.mem_cons.mp later with mark | last
          · exact absurd mark (by decide)
          · exact (plainI _ last).2.1 rfl
      rcases bare with none | none
      · rw [opened] at none
        cases none
      · rw [List.append_assoc] at closed
        exact absurd (closed.symm.trans none) (by simp)
    · obtain ⟨plainI', node', listed', rfl⟩ := plainS rid' iid' within'
      obtain ⟨repeats, ids, fields⟩ := instancePath_of_plain plainR (formed.plainRepeats node' listed') plainI plainI' same
      obtain rfl := ids
      refine ⟨?_, List.mem_map.mpr ⟨iid, repeats ▸ within', rfl⟩⟩
      rcases named with rfl | depends
      · exact fields ▸ dependency_plain plain
      · exact fields ▸ depends

end Resolve

/-- Two states with the same rows that agree wherever a reference may look that depends on one of these names. -/
structure Concur (names : List String) (s t : FormInstance) : Prop where
  rows : t.instances = s.instances
  answers : ∀ path, (∀ dep, dependency path = some dep → dep ∈ names) → ∀ key, Looks s path key →
    t.values key = s.values key

theorem Concur.setValue {names : List String} {s t : FormInstance} (concur : Concur names s t) (path : String)
    (value : Value) : Concur names (s.setValue path value) (t.setValue path value) := by
  refine ⟨concur.rows, fun read depends key reads => ?_⟩
  have same := concur.answers read depends key reads
  unfold FormInstance.setValue
  dsimp only
  rw [same]

section Concur

variable (platform : Device.Platform) {form : CompiledForm} {session : Session} {s t : FormInstance} {names : List String}
  {scope : Option (String × String)}

theorem evaluate_concur (formed : Formed form) (plain : PlainRows form s) (concur : Concur names s t)
    (placed : ∀ rid iid, scope = some (rid, iid) → iid ∈ s.rows rid) {expr : Expr} (read : collectRefs expr ⊆ names)
    {f g : Option (String → Option Value)}
    (cells : ∀ path ∈ paths expr, ∀ column, rowPath path = some column → f.map (· column) = g.map (· column)) :
    Device.evaluate platform { s.context session scope with row := f } expr =
      Device.evaluate platform { t.context session scope with row := g } expr := by
  refine Evaluator.evaluate_congr ?_ expr fun path member => ?_
  · rfl
  · refine resolve_congr formed plain concur.rows placed (cells path member) (concur.answers path fun dep depends => ?_)
    exact read (List.mem_filterMap.mpr ⟨path, member, depends⟩)

variable (formed : Formed form) (plain : PlainRows form s) (concur : Concur names s t)
  (placed : ∀ rid iid, scope = some (rid, iid) → iid ∈ s.rows rid)

include formed plain concur placed

theorem decideAt_concur {expr : Expr} (read : collectRefs expr ⊆ names) (nullIs : Bool) :
    decideAt (Device.evaluate platform) nullIs (s.context session scope) expr =
      decideAt (Device.evaluate platform) nullIs (t.context session scope) expr := by
  have same : Device.evaluate platform (s.context session scope) expr = Device.evaluate platform (t.context session scope) expr :=
    evaluate_concur platform formed plain concur placed read fun _ _ _ _ => rfl
  exact congrArg (· >>= Reference.coerceBoolean nullIs) same

theorem flagOf_concur {flag : Option Flag} (read : ∀ expr, flag = some (.expr expr) → collectRefs expr ⊆ names) :
    flagOf (Device.evaluate platform) (s.context session scope) flag =
      flagOf (Device.evaluate platform) (t.context session scope) flag := by
  match flag with
  | none => rfl
  | some (.fixed value) => rfl
  | some (.expr expr) => exact decideAt_concur platform formed plain concur placed (read expr rfl) false

theorem chainRelevant_concur {chain : List String} (read : ∀ expr ∈ relevances form chain, collectRefs expr ⊆ names) :
    chainRelevant (Device.evaluate platform) form (s.context session scope) chain =
      chainRelevant (Device.evaluate platform) form (t.context session scope) chain :=
  chainRelevant_congr fun expr member =>
    evaluate_concur platform formed plain concur placed (read expr member) fun _ _ _ _ => rfl

theorem offersInstance_concur {query : RowsQuery} (read : rowsRefs query ⊆ names) (iid : String) :
    offersInstance (Device.evaluate platform) form session s query scope iid =
      offersInstance (Device.evaluate platform) form session t query scope iid := by
  have rows : t.rows query.repeatId = s.rows query.repeatId := congrArg (·.getD []) (congrFun concur.rows _)
  unfold offersInstance
  rw [rows]
  by_cases within : iid ∈ s.rows query.repeatId
  · rw [if_neg (not_not.mpr within), if_neg (not_not.mpr within)]
    split
    · rfl
    unfold keeps
    cases given : query.filter with
    | none => rfl
    | some filter =>
      have refs : rowsRefs query = collectRefs filter ++ (paths filter).filterMap rowPath := by
        rw [rowsRefs, given]
        rfl
      have own : collectRefs filter ⊆ names := fun dep member =>
        read (refs ▸ List.mem_append_left _ member)
      refine congrArg (· >>= Reference.coerceBoolean false) (evaluate_concur platform formed plain concur placed own ?_)
      intro path member column named
      have listed : column ∈ names :=
        read (refs ▸ List.mem_append_right _ (List.mem_filterMap.mpr ⟨path, member, named⟩))
      refine congrArg some ?_
      dsimp only
      unfold instanceRow
      split
      · rename_i field
        obtain ⟨cf, found⟩ := Option.isSome_iff_exists.mp field
        have cell := List.mem_of_find?_eq_some found
        have same : cf.fieldId = column := by simpa using List.find?_some found
        have plainly : Plain column := same ▸ formed.plain cf (List.mem_filter.mp cell).1
        refine congrArg (fun held : Option Value => some (held.getD Value.null)) ?_
        refine (concur.answers column (fun dep depends => ?_) _
          (Or.inr ⟨_, iid, within, column, Or.inl rfl, rfl⟩)).symm
        rw [dependency_plain plainly] at depends
        exact Option.some.inj depends ▸ listed
      · rfl
  · rw [if_pos within, if_pos within]

theorem offersRow_concur {query : ChoiceQuery} (read : queryRefs query ⊆ names) (value : Value) :
    offersRow (Device.evaluate platform) session s query scope value =
      offersRow (Device.evaluate platform) session t query scope value := by
  have selector : ∀ term ∈ query.selector, collectRefs term.2 ⊆ names := fun term member dep reads =>
    read (List.mem_append_left _ (List.mem_flatMap.mpr ⟨term, member, reads⟩))
  have residual : ∀ expr, query.residual = some expr → collectRefs expr ⊆ names := fun expr given dep reads =>
    read (List.mem_append_right _ (by rw [given]; exact reads))
  unfold offersRow
  have terms : (query.selector.mapM fun term => do
        return (term.1, ← Device.evaluate platform (s.context session scope) term.2) : Except Failure _) =
      query.selector.mapM fun term => do
        return (term.1, ← Device.evaluate platform (t.context session scope) term.2) :=
    mapM_congr_of_mem fun term member => congrArg (· >>= fun value => pure (term.1, value))
      (evaluate_concur platform formed plain concur placed (selector term member) fun _ _ _ _ => rfl)
  have kept (row : String → Option Value) :
      keeps (Device.evaluate platform) query.residual (s.context session scope) row =
        keeps (Device.evaluate platform) query.residual (t.context session scope) row := by
    unfold keeps
    cases given : query.residual with
    | none => rfl
    | some expr =>
      exact congrArg (· >>= Reference.coerceBoolean false)
        (evaluate_concur platform formed plain concur placed (residual expr given) fun _ _ _ _ => rfl)
  dsimp only
  rw [terms, funext kept]

end Concur

section Declared

def Question.Has (node : Question) (expr : Expr) : Prop :=
  node.relevant = some expr ∨ node.calculate = some expr ∨ node.constraint = some expr ∨
    node.required = some (.expr expr) ∨ node.readOnly = some (.expr expr)

structure Declared (cf : CompiledField) : Prop where
  own : ∀ expr, cf.node.Has expr → collectRefs expr ⊆ cf.dependsOn
  rows : ∀ query, cf.rowsQuery = some query → rowsRefs query ⊆ cf.dependsOn
  choices : ∀ query, cf.choiceQuery = some query → queryRefs query ⊆ cf.dependsOn

theorem declared_question (form : CompiledForm) (node : Question) (ancestors : List String) (rid : Option String) :
    Declared {
      node := node
      dependsOn := dependencies form node ancestors
      ancestors := ancestors
      repeatId := rid
      choiceQuery := node.choices.bind compileChoiceList
      rowsQuery := node.choices.bind compileRowsChoices } := by
  refine ⟨fun expr has dep read => ?_, fun query given dep read => ?_, fun query given dep read => ?_⟩
  · dsimp only at has
    rcases has with given | given | given | given | given <;> simp [dependencies, optionRefs, flagRefs, given, read]
  · dsimp only at given
    simp [dependencies, given, read]
  · dsimp only at given
    simp [dependencies, given, read]

theorem compileNode_declared {form next : CompiledForm} {visit : Node × List String}
    (declared : ∀ cf ∈ form.fields, Declared cf) (compiled : compileNode form visit = .ok next) :
    ∀ cf ∈ next.fields, Declared cf := by
  obtain ⟨node, ancestors⟩ := visit
  obtain ⟨-, -, -, left⟩ := compileNode_cases compiled
  obtain ⟨question, rfl, -⟩ | ⟨group, children, rfl, rfl⟩ | ⟨repeated, children, rfl, -, -, rfl⟩ := left
  · unfold compileNode at compiled
    dsimp only at compiled
    iterate 3
      split at compiled
      · cases compiled
    replace compiled : compileQuestion form question ancestors = .ok next := compiled
    have added : next.fields = form.fields ++ [{
        node := question
        dependsOn := dependencies form question ancestors
        ancestors := ancestors
        repeatId := (enclosingRepeats form ancestors).head?
        choiceQuery := question.choices.bind compileChoiceList
        rowsQuery := question.choices.bind compileRowsChoices }] := by
      unfold compileQuestion at compiled
      dsimp only at compiled
      split at compiled
      · split at compiled
        · cases compiled
        · rw [← Except.ok.inj compiled]
      · rw [← Except.ok.inj compiled]
    intro cf member
    rw [added] at member
    rcases List.mem_append.mp member with old | last
    · exact declared cf old
    · rw [List.mem_singleton.mp last]
      exact declared_question form question ancestors _
  · exact declared
  · exact declared

theorem compile_declared {children : List Node} {form : CompiledForm} (compiled : compile children = .ok form) :
    ∀ cf ∈ form.fields, Declared cf := by
  obtain ⟨grown, walked, -, linked, -, -, -, -⟩ := compile_parts compiled
  have declared : ∀ cf ∈ grown.fields, Declared cf :=
    foldlM_invariant (fun form : CompiledForm => ∀ cf ∈ form.fields, Declared cf)
      (fun _ _ _ _ kept step => compileNode_declared kept step) (fun _ member => absurd member List.not_mem_nil) walked
  intro cf member
  obtain ⟨old, within, link⟩ := forall₂_mem_right linked member
  obtain ⟨node, -, -, choices, rows, depends⟩ := linkRowsChoices_same link
  have kept := declared old within
  refine ⟨fun expr has => ?_, fun query given => ?_, fun query given => ?_⟩
  · exact List.Subset.trans (kept.own expr (node ▸ has)) depends
  · exact List.Subset.trans (kept.rows query (rows ▸ given)) depends
  · exact List.Subset.trans (kept.choices query (choices ▸ given)) depends

end Declared

section Field

variable (platform : Device.Platform) {form : CompiledForm} {session : Session} {cf : CompiledField} {path : String}
  {scope : Option (String × String)} {s t : FormInstance}

structure Dependent (form : CompiledForm) (cf : CompiledField) : Prop extends Declared cf where
  chain : ∀ expr ∈ relevances form cf.ancestors, collectRefs expr ⊆ cf.dependsOn

theorem compile_dependent {children : List Node} (compiled : compile children = .ok form) :
    ∀ cf ∈ form.fields, Dependent form cf := by
  intro cf member
  refine ⟨compile_declared compiled cf member, fun expr listed => ?_⟩
  obtain ⟨cid, within, given⟩ := List.mem_filterMap.mp listed
  obtain ⟨container, found, depends⟩ := (compile_linked compiled).depends cf member cid within
  rw [found] at given
  exact depends expr given

variable (formed : Formed form) (plain : PlainRows form s) (dependent : Dependent form cf)
  (concur : Concur cf.dependsOn s t) (placed : ∀ rid iid, scope = some (rid, iid) → iid ∈ s.rows rid)

include formed plain dependent concur placed

theorem fieldRelevant_concur : fieldRelevant (Device.evaluate platform) form (s.context session scope) cf =
    fieldRelevant (Device.evaluate platform) form (t.context session scope) cf := by
  unfold fieldRelevant
  rw [chainRelevant_concur platform formed plain concur placed dependent.chain]
  refine congrArg (_ >>= ·) (funext fun inherited => ?_)
  split
  · cases given : cf.node.relevant with
    | none => rfl
    | some expr =>
      exact decideAt_concur platform formed plain concur placed (dependent.own expr (Or.inl given)) true
  · rfl

theorem outcomeErrors_concur (relevant required : Bool) (value : Value) :
    Device.outcomeErrors platform (Device.evaluate platform) form session cf scope s relevant required value =
      Device.outcomeErrors platform (Device.evaluate platform) form session cf scope t relevant required value := by
  unfold Device.outcomeErrors Device.fieldErrors
  split
  · have choices : Device.choiceBroken platform (Device.evaluate platform) form session cf scope s value =
        Device.choiceBroken platform (Device.evaluate platform) form session cf scope t value := by
      unfold Device.choiceBroken Device.outsideChoices
      split
      · rfl
      cases rows : cf.rowsQuery with
      | some query =>
        refine congrArg (someOutside · _) (funext fun one => ?_)
        exact offersInstance_concur platform formed plain concur placed (dependent.rows query rows) _
      | none =>
        cases choices : cf.choiceQuery with
        | none => rfl
        | some query =>
          refine congrArg (someOutside · _) (funext fun one => ?_)
          exact offersRow_concur platform formed plain concur placed (dependent.choices query choices) one
    have constraint : Device.constraintBroken (Device.evaluate platform) session cf scope s value =
        Device.constraintBroken (Device.evaluate platform) session cf scope t value := by
      unfold Device.constraintBroken
      cases given : cf.node.constraint with
      | none => rfl
      | some expr =>
        cases value.isNull with
        | true => rfl
        | false =>
          dsimp only
          rw [decideAt_concur platform formed plain concur placed (dependent.own expr (by simp [Question.Has, given])) true]
    rw [choices, constraint]
  · rfl

theorem outcome_concur (held : ∀ relevant,
      fieldRelevant (Device.evaluate platform) form (s.context session scope) cf = .ok relevant →
        cf.node.calculate.isSome ∧ relevant = true ∨ t.values path = s.values path) :
    Device.outcome platform (Device.evaluate platform) form session cf path scope s =
      Device.outcome platform (Device.evaluate platform) form session cf path scope t := by
  have relevance : fieldRelevant (Device.evaluate platform) form (s.context session scope) cf =
      fieldRelevant (Device.evaluate platform) form (t.context session scope) cf :=
    fieldRelevant_concur platform formed plain dependent concur placed
  unfold Device.outcome
  rw [← relevance]
  cases told : fieldRelevant (Device.evaluate platform) form (s.context session scope) cf with
  | error e => rfl
  | ok relevant =>
    have values : Device.fieldValue (Device.evaluate platform) session cf path scope s relevant =
        Device.fieldValue (Device.evaluate platform) session cf path scope t relevant := by
      unfold Device.fieldValue
      cases given : cf.node.calculate with
      | none =>
        rcases held relevant told with ⟨calculated, -⟩ | same
        · rw [given] at calculated
          cases calculated
        · rw [same]
      | some calculate =>
        cases relevant with
        | true =>
          exact evaluate_concur platform formed plain concur placed
            (dependent.own calculate (by simp [Question.Has, given])) fun _ _ _ _ => rfl
        | false =>
          rcases held false told with ⟨-, absurd⟩ | same
          · cases absurd
          · dsimp only
            rw [same]
    show (Device.fieldValue (Device.evaluate platform) session cf path scope s relevant >>= _) =
      Device.fieldValue (Device.evaluate platform) session cf path scope t relevant >>= _
    rw [← values]
    refine congrArg (_ >>= ·) (funext fun value => ?_)
    have next := concur.setValue path value
    have plainNext : PlainRows form (s.setValue path value) := plain
    have required : flagOf (Device.evaluate platform) ((s.setValue path value).context session scope) cf.node.required =
        flagOf (Device.evaluate platform) ((t.setValue path value).context session scope) cf.node.required :=
      flagOf_concur platform formed plainNext next placed fun expr given =>
        dependent.own expr (by simp [Question.Has, given])
    have readOnly : flagOf (Device.evaluate platform) ((s.setValue path value).context session scope) cf.node.readOnly =
        flagOf (Device.evaluate platform) ((t.setValue path value).context session scope) cf.node.readOnly :=
      flagOf_concur platform formed plainNext next placed fun expr given =>
        dependent.own expr (by simp [Question.Has, given])
    dsimp only
    rw [required, readOnly]
    refine congrArg (_ >>= ·) (funext fun needed => congrArg (_ >>= ·) (funext fun fixed => ?_))
    rw [outcomeErrors_concur platform (s := s.setValue path value) formed plain dependent next placed]

end Field

end DataCollectionLab.Form
