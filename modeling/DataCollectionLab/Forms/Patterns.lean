import DataCollectionLab.Form.Blocking
import DataCollectionLab.Form.Evaluate
import DataCollectionLab.Form.Totality
import DataCollectionLab.Forms.Publishing

/-!
The patterns that a form's `regex` calls are written with: which of them publishing looks at, and which of them the
runtime comes to.
-/

namespace DataCollectionLab.Forms

open Form (Expr Node Question CompiledForm CompiledField Failure Context FormInstance Session Value)
open Form.Reference (forbidden forbiddenRegexFeatures Reaches Comes)
open Lib

section Walk

def literalPattern : List Expr → List String
  | _ :: .lit (.text pattern) :: _ => [pattern]
  | _ => []

mutual

/-- `walk`: the patterns of the `regex` calls in an expression. -/
def patterns : Expr → List String
  | .lit _ | .ref _ => []
  | .op _ args => patternsAll args
  | .call fn args => (if fn = "regex" then literalPattern args else []) ++ patternsAll args

def patternsAll : List Expr → List String
  | [] => []
  | arg :: rest => patterns arg ++ patternsAll rest

end

def forbiddenRegexFeature (pattern : String) : Option String :=
  forbiddenRegexFeatures.find? fun feature => (Form.cutAt feature.toList pattern.toList).isSome

/-- The slots of a question that `_forbidden_patterns` walks. -/
def walked (node : Question) : List Expr :=
  node.relevant.toList ++ node.constraint.toList ++ node.calculate.toList ++ flagExprs node.required ++
    flagExprs node.readOnly ++ node.default.toList

def forbiddenPatterns (form : CompiledForm) : List (String × String × String) :=
  form.fields.flatMap fun cf => ((walked cf.node).flatMap patterns).filterMap fun pattern =>
    (forbiddenRegexFeature pattern).map fun feature => (cf.fieldId, pattern, feature)

/-- The sentence of `check_publishable` about one of them; `repr` is the text as a literal. -/
def patternMessage (repr : String → String) (entry : String × String × String) : String :=
  entry.1 ++ ": the pattern " ++ repr entry.2.1 ++ " uses " ++ "\u0060" ++ entry.2.2 ++ "\u0060" ++ ", which RE2 cannot " ++
    "express (Form IR §4.6). Backtracking on a respondent's answer is a way " ++
    "to hang a phone, so this pattern would never be applied — the constraint would pass for everybody."

/-- The checks of `check_publishable` on a form that compiles; `others` are those after the patterns. -/
def publishChecks (repr : String → String) (others : CompiledForm → Document → List String) (form : CompiledForm)
    (ir : Document) : List String :=
  (forbiddenPatterns form).map (patternMessage repr) ++ others form ir

end Walk

section Slots

/-- The slots of a node that are evaluated and not walked: the relevance of a group and of a repeat, the count of a
repeat, the filter of a list, and the arguments of the texts. -/
def unwalked : Node → List Expr
  | .question node => choiceExprs node.choices ++ node.labelArgs ++ node.constraintMessageArgs
  | .group node _ => node.relevant.toList
  | .repeated node _ => node.relevant.toList ++ node.countExpr.toList ++ node.summaryLabelArgs

def filterExprs (cf : CompiledField) : List Expr :=
  cf.choiceQuery.elim [] Form.queryExprs ++ (cf.rowsQuery.bind (·.filter)).toList

def fieldExprs (cf : CompiledField) : List Expr :=
  walked cf.node ++ filterExprs cf ++ cf.node.labelArgs ++ cf.node.constraintMessageArgs

/-- Every expression of a compiled form: of its fields, the relevance of its groups and repeats, the counts of its repeats
and the arguments of their summaries. -/
def expressions (form : CompiledForm) : List Expr :=
  form.fields.flatMap fieldExprs ++ form.containers.filterMap (·.relevant) ++ form.repeats.filterMap (·.countExpr) ++
    form.repeats.flatMap (·.summaryLabelArgs)

end Slots

section Applied

abbrev evaluator (lib : Form.Library) : Context → Expr → Except Failure Value :=
  Form.Reference.evaluate (Form.Reference.call lib) Form.Reference.resolve

variable (lib : Form.Library) (ctx : Context)

/-- An evaluation applies `regex` with a pattern that is written out: it comes to the call, and the arguments have
values. -/
def Applies (expr : Expr) (pattern : String) : Prop :=
  ∃ subject rest values,
    Reaches lib Form.Reference.resolve ctx expr (.call "regex" (subject :: .lit (.text pattern) :: rest)) ∧
      Form.Reference.evaluateAll (Form.Reference.call lib) Form.Reference.resolve ctx
        (subject :: .lit (.text pattern) :: rest) = .ok values

open Classical in
noncomputable def alarmed (expr : Expr) : Except Failure Value :=
  if ∃ pattern, Applies lib ctx expr pattern ∧ forbidden pattern = true then .error (.raised "forbidden pattern")
  else evaluator lib ctx expr

end Applied

section Within

variable {lib : Form.Library} {ctx : Context}

theorem forbiddenRegexFeature_eq_none {pattern : String} :
    forbiddenRegexFeature pattern = none ↔ forbidden pattern = false := by
  unfold forbiddenRegexFeature forbidden
  rw [List.find?_eq_none, List.any_eq_false]

theorem patternsAll_eq (args : List Expr) : patternsAll args = args.flatMap patterns := by
  induction args with
  | nil => rfl
  | cons arg rest ih => rw [patternsAll, ih, List.flatMap_cons]

theorem patterns_part {e arg : Expr} (part : arg ∈ Form.Reference.parts e) : patterns arg ⊆ patterns e := by
  have among {args : List Expr} (member : arg ∈ args) : patterns arg ⊆ patternsAll args := by
    rw [patternsAll_eq]
    exact fun pattern written => List.mem_flatMap.mpr ⟨arg, member, written⟩
  cases e with
  | lit value => cases part
  | ref path => cases part
  | op name args => exact among part
  | call fn args => exact List.subset_append_of_subset_right _ (among part)

theorem patterns_reaches {e e' : Expr} (reaches : Reaches lib Form.Reference.resolve ctx e e') : patterns e' ⊆ patterns e := by
  induction reaches with
  | refl => exact List.Subset.refl _
  | tail _ comes ih => exact List.Subset.trans (patterns_part (Form.Reference.comes_parts comes)) ih

theorem mem_of_applies {e : Expr} {pattern : String} (applies : Applies lib ctx e pattern) : pattern ∈ patterns e := by
  obtain ⟨subject, rest, -, reaches, -⟩ := applies
  apply patterns_reaches reaches
  rw [patterns, if_pos rfl]
  exact List.mem_append_left _ List.mem_cons_self

end Within

section Filters

mutual

theorem patterns_conjuncts : (e : Expr) → ∀ c ∈ Form.conjuncts e, patterns c ⊆ patterns e
  | .lit value, c, member => by
    rw [Form.conjuncts, List.mem_singleton] at member
    rw [member]
    exact List.Subset.refl _
  | .ref path, c, member => by
    rw [Form.conjuncts, List.mem_singleton] at member
    rw [member]
    exact List.Subset.refl _
  | .call fn args, c, member => by
    rw [Form.conjuncts, List.mem_singleton] at member
    rw [member]
    exact List.Subset.refl _
  | .op name args, c, member => by
    rw [Form.conjuncts] at member
    split at member
    · exact patterns_conjunctsAll args c member
    · rw [List.mem_singleton] at member
      rw [member]
      exact List.Subset.refl _

theorem patterns_conjunctsAll : (args : List Expr) → ∀ c ∈ Form.conjunctsAll args, patterns c ⊆ patternsAll args
  | [], c, member => by cases member
  | arg :: rest, c, member => by
    rw [Form.conjunctsAll] at member
    rw [patternsAll]
    rcases List.mem_append.mp member with here | later
    · exact List.subset_append_of_subset_left _ (patterns_conjuncts arg c here)
    · exact List.subset_append_of_subset_right _ (patterns_conjunctsAll rest c later)

end

theorem patterns_selectorTerm {c : Expr} {term : String × Expr} (is : Form.selectorTerm c = some term) :
    patterns term.2 ⊆ patterns c := by
  unfold Form.selectorTerm at is
  split at is
  · apply patterns_part
    split at is
    · cases is
      simp [Form.Reference.parts]
    · split at is
      · cases is
        simp [Form.Reference.parts]
      · cases is
  · cases is

theorem patterns_split {filter : List Expr} {found : List (String × Expr) × List Expr} {all : List String}
    (within : ∀ c ∈ filter, patterns c ⊆ all) (before : (∀ term ∈ found.1, patterns term.2 ⊆ all) ∧ ∀ c ∈ found.2, patterns c ⊆ all) :
    (∀ term ∈ (filter.foldl Form.splitConjuncts found).1, patterns term.2 ⊆ all) ∧
      ∀ c ∈ (filter.foldl Form.splitConjuncts found).2, patterns c ⊆ all := by
  induction filter generalizing found with
  | nil => exact before
  | cons c rest ih =>
    have here := within c List.mem_cons_self
    have left : ∀ c' ∈ found.2 ++ [c], patterns c' ⊆ all := by
      intro c' member
      rcases List.mem_append.mp member with old | new
      · exact before.2 c' old
      · rw [List.mem_singleton.mp new]
        exact here
    refine ih (fun c' member => within c' (List.mem_cons_of_mem _ member)) ?_
    unfold Form.splitConjuncts
    split
    · rename_i term is
      split
      · exact ⟨before.1, left⟩
      · refine ⟨?_, before.2⟩
        intro term' member
        rcases List.mem_append.mp member with old | new
        · exact before.1 term' old
        · rw [List.mem_singleton.mp new]
          exact List.Subset.trans (patterns_selectorTerm is) here
    · exact ⟨before.1, left⟩

theorem patterns_query {choices : Form.Choices} {query : Form.ChoiceQuery} (is : Form.compileChoices choices = some query)
    {e : Expr} (member : e ∈ Form.queryExprs query) {pattern : String} (written : pattern ∈ patterns e) :
    ∃ filter ∈ choices.filter.toList, pattern ∈ patterns filter := by
  unfold Form.compileChoices at is
  split at is
  · cases is
  obtain rfl := Option.some.inj is
  cases given : choices.filter with
  | none =>
    rw [given] at member
    cases member
  | some filter =>
    refine ⟨filter, List.mem_singleton.mpr rfl, ?_⟩
    rw [given] at member
    obtain ⟨terms, rests⟩ := @patterns_split (Form.conjuncts filter) ([], []) (patterns filter) (patterns_conjuncts filter)
      ⟨by simp, by simp⟩
    rcases List.mem_append.mp member with selector | residual
    · obtain ⟨term, listed, rfl⟩ := List.mem_map.mp selector
      exact terms term ((List.mem_insertionSort _).mp listed) written
    · dsimp only [Option.elim] at residual
      split at residual
      · cases residual
      · rename_i only is
        obtain rfl := List.mem_singleton.mp residual
        exact rests _ (is ▸ List.mem_cons_self) written
      · obtain rfl := List.mem_singleton.mp residual
        rw [patterns, patternsAll_eq] at written
        obtain ⟨c, listed, inside⟩ := List.mem_flatMap.mp written
        exact rests c listed inside

end Filters

section Sources

variable {visits : List (Node × List String)}

/-- A compiled form has what stands in its document, each list compiled from its block. -/
structure Sourced (visits : List (Node × List String)) (form : CompiledForm) : Prop where
  fields : ∀ cf ∈ form.fields, (∃ ancestors, (Node.question cf.node, ancestors) ∈ visits) ∧
    cf.choiceQuery = cf.node.choices.bind Form.compileChoiceList ∧ cf.rowsQuery = cf.node.choices.bind Form.compileRowsChoices
  containers : ∀ container ∈ form.containers, ∀ expr, container.relevant = some expr →
    ∃ visit ∈ visits, expr ∈ unwalked visit.1
  repeats : ∀ node ∈ form.repeats, ∃ children ancestors, (Node.repeated node children, ancestors) ∈ visits

theorem compileQuestion_lists {form next : CompiledForm} {node : Question} {ancestors : List String}
    (compiled : Form.compileQuestion form node ancestors = .ok next) : ∃ cf : CompiledField, cf.node = node ∧
      cf.choiceQuery = node.choices.bind Form.compileChoiceList ∧ cf.rowsQuery = node.choices.bind Form.compileRowsChoices ∧
      next = { form with fields := form.fields ++ [cf] } := by
  refine ⟨{ node := node
            dependsOn := Form.dependencies form node ancestors
            ancestors := ancestors
            repeatId := (Form.enclosingRepeats form ancestors).head?
            choiceQuery := node.choices.bind Form.compileChoiceList
            rowsQuery := node.choices.bind Form.compileRowsChoices }, rfl, rfl, rfl, ?_⟩
  unfold Form.compileQuestion at compiled
  dsimp only at compiled
  split at compiled
  · split at compiled
    · cases compiled
    · exact (Except.ok.inj compiled).symm
  · exact (Except.ok.inj compiled).symm

theorem compileNode_question {form next : CompiledForm} {node : Question} {ancestors : List String}
    (compiled : Form.compileNode form (.question node, ancestors) = .ok next) :
    Form.compileQuestion form node ancestors = .ok next := by
  unfold Form.compileNode at compiled
  dsimp only at compiled
  split at compiled
  · cases compiled
  split at compiled
  · cases compiled
  split at compiled
  · cases compiled
  exact compiled

theorem Sourced.node {form next : CompiledForm} (sourced : Sourced visits form) {visit : Node × List String}
    (listed : visit ∈ visits) (compiled : Form.compileNode form visit = .ok next) : Sourced visits next := by
  obtain ⟨node, ancestors⟩ := visit
  have contained {relevant : Option Expr} {id : String} {appearance : Option String}
      (own : ∀ expr ∈ relevant, expr ∈ unwalked node) :
      ∀ container ∈ form.containers ++ [⟨id, relevant, appearance, ancestors⟩], ∀ expr, container.relevant = some expr →
        ∃ visit ∈ visits, expr ∈ unwalked visit.1 := by
    intro container member expr is
    rcases List.mem_append.mp member with old | new
    · exact sourced.containers container old expr is
    · obtain rfl := List.mem_singleton.mp new
      exact ⟨_, listed, own expr is⟩
  obtain ⟨-, -, -, left⟩ := Form.compileNode_cases compiled
  obtain ⟨question, rfl, -⟩ | ⟨group, children, rfl, rfl⟩ | ⟨repeated, children, rfl, -, -, rfl⟩ := left
  · obtain ⟨cf, is, query, rows, rfl⟩ := compileQuestion_lists (compileNode_question compiled)
    refine ⟨?_, sourced.containers, sourced.repeats⟩
    intro cf' member
    rcases List.mem_append.mp member with old | new
    · exact sourced.fields cf' old
    · obtain rfl := List.mem_singleton.mp new
      subst is
      exact ⟨⟨ancestors, listed⟩, query, rows⟩
  · refine ⟨sourced.fields, contained ?_, sourced.repeats⟩
    intro expr is
    exact Option.mem_toList.mpr is
  · refine ⟨sourced.fields, contained ?_, ?_⟩
    · intro expr is
      exact List.mem_append_left _ (List.mem_append_left _ (Option.mem_toList.mpr is))
    · intro node member
      rcases List.mem_append.mp member with old | new
      · exact sourced.repeats node old
      · obtain rfl := List.mem_singleton.mp new
        exact ⟨children, ancestors, listed⟩

theorem Sourced.walk {rest : List (Node × List String)} (listed : ∀ visit ∈ rest, visit ∈ visits) {form next : CompiledForm}
    (sourced : Sourced visits form) (walked : rest.foldlM Form.compileNode form = .ok next) : Sourced visits next := by
  induction rest generalizing form with
  | nil =>
    cases walked
    exact sourced
  | cons visit rest ih =>
    obtain ⟨middle, first, later⟩ := Lib.foldlM_cons_ok_iff.mp walked
    exact ih (fun visit member => listed visit (List.mem_cons_of_mem _ member)) (sourced.node (listed visit List.mem_cons_self) first)
      later

theorem compile_sourced {children : List Node} {form : CompiledForm} (compiled : Form.compile children = .ok form) :
    Sourced (Form.walk [] children) form := by
  obtain ⟨grown, walked, -, linked, containers, repeats, -⟩ := Form.compile_parts compiled
  have start : Sourced (Form.walk [] children) {} := ⟨by simp, by simp, by simp⟩
  have sourced := start.walk (fun visit member => member) walked
  refine ⟨?_, containers ▸ sourced.containers, repeats ▸ sourced.repeats⟩
  intro cf member
  obtain ⟨cf', listed, link⟩ := Form.forall₂_mem_right linked member
  obtain ⟨node, -, -, query, rows, -⟩ := Form.linkRowsChoices_same link
  rw [node, query, rows]
  exact sourced.fields cf' listed

theorem patterns_expressions {form : CompiledForm} (sourced : Sourced visits form) {e : Expr} (member : e ∈ expressions form)
    {pattern : String} (written : pattern ∈ patterns e) :
    (∃ cf ∈ form.fields, pattern ∈ (walked cf.node).flatMap patterns) ∨
      ∃ visit ∈ visits, ∃ expr ∈ unwalked visit.1, pattern ∈ patterns expr := by
  unfold expressions at member
  rw [List.mem_append, List.mem_append, List.mem_append] at member
  rcases member with ((field | container) | count) | summary
  · obtain ⟨cf, listed, inside⟩ := List.mem_flatMap.mp field
    obtain ⟨⟨ancestors, visited⟩, query, rows⟩ := sourced.fields cf listed
    unfold fieldExprs at inside
    rw [List.mem_append, List.mem_append, List.mem_append] at inside
    have inQuestion {expr : Expr} (own : expr ∈ unwalked (.question cf.node)) (is : pattern ∈ patterns expr) :
        ∃ visit ∈ visits, ∃ expr ∈ unwalked visit.1, pattern ∈ patterns expr := ⟨_, visited, expr, own, is⟩
    rcases inside with ((walked | filter) | label) | message
    · exact .inl ⟨cf, listed, List.mem_flatMap.mpr ⟨e, walked, written⟩⟩
    · right
      have chosen {expr : Expr} (own : expr ∈ choiceExprs cf.node.choices) (is : pattern ∈ patterns expr) :=
        inQuestion (List.mem_append_left _ (List.mem_append_left _ own)) is
      unfold filterExprs at filter
      rw [query, rows] at filter
      cases given : cf.node.choices with
      | none => simp [given] at filter
      | some choices =>
        rw [given] at filter chosen
        cases choices with
        | inline values => simp [Form.compileChoiceList, Form.compileRowsChoices] at filter
        | dataset block =>
          rcases List.mem_append.mp filter with selected | row
          · cases compiled : Form.compileChoices block with
            | none => simp [Form.compileChoiceList, compiled] at selected
            | some query =>
              simp only [Option.bind_some, Form.compileChoiceList, compiled, Option.elim_some] at selected
              obtain ⟨whole, own, is⟩ := patterns_query compiled selected written
              exact chosen own is
          · simp [Form.compileRowsChoices] at row
        | rows block =>
          rcases List.mem_append.mp filter with selected | row
          · simp [Form.compileChoiceList] at selected
          · exact chosen row written
    · exact .inr (inQuestion (List.mem_append_left _ (List.mem_append_right _ label)) written)
    · exact .inr (inQuestion (List.mem_append_right _ message) written)
  · obtain ⟨node, listed, is⟩ := List.mem_filterMap.mp container
    obtain ⟨visit, visited, own⟩ := sourced.containers node listed e is
    exact .inr ⟨visit, visited, e, own, written⟩
  · obtain ⟨node, listed, is⟩ := List.mem_filterMap.mp count
    obtain ⟨children, ancestors, visited⟩ := sourced.repeats node listed
    refine .inr ⟨_, visited, e, ?_, written⟩
    exact List.mem_append_left _ (List.mem_append_right _ (Option.mem_toList.mpr is))
  · obtain ⟨node, listed, is⟩ := List.mem_flatMap.mp summary
    obtain ⟨children, ancestors, visited⟩ := sourced.repeats node listed
    exact .inr ⟨_, visited, e, List.mem_append_right _ is, written⟩

end Sources

section Accepted

variable {repr : String → String} {others : CompiledForm → Document → List String} {ir : Document} {form : CompiledForm}

theorem walked_permitted (publishable : checkPublishable (publishChecks repr others) ir = .ok form) {cf : CompiledField}
    (member : cf ∈ form.fields) {pattern : String} (written : pattern ∈ (walked cf.node).flatMap patterns) :
    forbidden pattern = false := by
  have silent : forbiddenPatterns form = [] := by
    unfold checkPublishable at publishable
    split at publishable
    · cases publishable
    · split at publishable
      · cases publishable
      · split at publishable
        · rename_i none
          obtain rfl := Except.ok.inj publishable
          exact List.map_eq_nil_iff.mp (List.append_eq_nil_iff.mp none).1
        · cases publishable
  have found := List.flatMap_eq_nil_iff.mp silent cf member
  rw [← forbiddenRegexFeature_eq_none]
  exact Option.map_eq_none_iff.mp (List.filterMap_eq_nil_iff.mp found pattern written)

end Accepted

/-! ### A run evaluates expressions of the form, and no others -/

section Runs

variable {form : CompiledForm} {evaluate evaluate' : Context → Expr → Except Failure Value} {session : Session}

def Agree (form : CompiledForm) (evaluate evaluate' : Context → Expr → Except Failure Value) : Prop :=
  ∀ expr ∈ expressions form, ∀ ctx, evaluate ctx expr = evaluate' ctx expr

namespace Agree

theorem field (agree : Agree form evaluate evaluate') {cf : CompiledField} (listed : cf ∈ form.fields) {e : Expr}
    (own : e ∈ fieldExprs cf) (ctx : Context) : evaluate ctx e = evaluate' ctx e := by
  refine agree e ?_ ctx
  unfold expressions
  rw [List.mem_append, List.mem_append, List.mem_append]
  exact .inl (.inl (.inl (List.mem_flatMap.mpr ⟨cf, listed, own⟩)))

theorem gated (agree : Agree form evaluate evaluate') {cf : CompiledField} (listed : cf ∈ form.fields) {e : Expr}
    (own : e ∈ walked cf.node) (ctx : Context) : evaluate ctx e = evaluate' ctx e := by
  refine agree.field listed ?_ ctx
  unfold fieldExprs
  rw [List.mem_append, List.mem_append, List.mem_append]
  exact .inl (.inl (.inl own))

theorem filter (agree : Agree form evaluate evaluate') {cf : CompiledField} (listed : cf ∈ form.fields) {e : Expr}
    (own : e ∈ filterExprs cf) (ctx : Context) : evaluate ctx e = evaluate' ctx e := by
  refine agree.field listed ?_ ctx
  unfold fieldExprs
  rw [List.mem_append, List.mem_append, List.mem_append]
  exact .inl (.inl (.inr own))

theorem container (agree : Agree form evaluate evaluate') {cid : String} {e : Expr}
    (found : (form.container? cid).bind (·.relevant) = some e) (ctx : Context) : evaluate ctx e = evaluate' ctx e := by
  obtain ⟨node, there, is⟩ := Option.bind_eq_some_iff.mp found
  refine agree e ?_ ctx
  unfold expressions
  rw [List.mem_append, List.mem_append, List.mem_append]
  exact .inl (.inl (.inr (List.mem_filterMap.mpr ⟨node, List.mem_of_find?_eq_some there, is⟩)))

theorem count (agree : Agree form evaluate evaluate') {node : Form.Repeat} (listed : node ∈ form.repeats) {e : Expr}
    (is : node.countExpr = some e) (ctx : Context) : evaluate ctx e = evaluate' ctx e := by
  refine agree e ?_ ctx
  unfold expressions
  rw [List.mem_append, List.mem_append, List.mem_append]
  exact .inl (.inr (List.mem_filterMap.mpr ⟨node, listed, is⟩))

variable (agree : Agree form evaluate evaluate')
include agree

theorem chain (ctx : Context) (cids : List String) :
    Form.chainRelevant evaluate form ctx cids = Form.chainRelevant evaluate' form ctx cids := by
  induction cids with
  | nil => rfl
  | cons cid rest ih =>
    unfold Form.chainRelevant
    cases found : (form.container? cid).bind (·.relevant) with
    | none => exact ih
    | some relevant =>
      dsimp only
      rw [Form.decideAt, Form.decideAt, agree.container found ctx, ih]

theorem containerRelevant (s : FormInstance) (cid : String) :
    Form.containerRelevant evaluate form session s cid = Form.containerRelevant evaluate' form session s cid := by
  unfold Form.containerRelevant
  cases form.container? cid with
  | none => rfl
  | some container => exact agree.chain _ _

variable {cf : CompiledField} (listed : cf ∈ form.fields)
include listed

theorem fieldRelevant (ctx : Context) :
    Form.fieldRelevant evaluate form ctx cf = Form.fieldRelevant evaluate' form ctx cf := by
  unfold Form.fieldRelevant
  rw [agree.chain]
  cases given : cf.node.relevant with
  | none => rfl
  | some relevant =>
    dsimp only
    rw [Form.decideAt, Form.decideAt, agree.gated listed (by simp [walked, given]) ctx]

theorem flagOf (ctx : Context) {flag : Option Form.Flag} (own : ∀ e ∈ flagExprs flag, e ∈ walked cf.node) :
    Form.flagOf evaluate ctx flag = Form.flagOf evaluate' ctx flag := by
  cases flag with
  | none => rfl
  | some flag =>
    cases flag with
    | fixed value => rfl
    | expr value =>
      rw [Form.flagOf, Form.flagOf, Form.decideAt, Form.decideAt, agree.gated listed (own value List.mem_cons_self) ctx]

theorem keeps {filter : Option Expr} (own : ∀ e ∈ filter, e ∈ filterExprs cf) (ctx : Context) (row : String → Option Value) :
    Form.keeps evaluate filter ctx row = Form.keeps evaluate' filter ctx row := by
  cases filter with
  | none => rfl
  | some filter =>
    rw [Form.keeps, Form.keeps, Form.decideAt, Form.decideAt, agree.filter listed (own filter rfl)]

theorem offersRow {query : Form.ChoiceQuery} (is : cf.choiceQuery = some query) (s : FormInstance)
    (scope : Option (String × String)) (value : Value) :
    Form.offersRow evaluate session s query scope value = Form.offersRow evaluate' session s query scope value := by
  have own {e : Expr} (inside : e ∈ Form.queryExprs query) : e ∈ filterExprs cf := by
    unfold filterExprs
    rw [is]
    exact List.mem_append_left _ inside
  have terms (ctx : Context) : (query.selector.mapM fun term => do return (term.1, ← evaluate ctx term.2) :
        Except Failure (List (String × Value))) =
      query.selector.mapM fun term => do return (term.1, ← evaluate' ctx term.2) := by
    refine mapM_congr_of_mem fun term member => ?_
    rw [agree.filter listed (own (List.mem_append_left _ (List.mem_map_of_mem member)))]
  have rows (ctx : Context) : Form.keeps evaluate query.residual ctx = Form.keeps evaluate' query.residual ctx :=
    funext fun row => agree.keeps listed
      (fun e inside => own (List.mem_append_right _ (Option.mem_toList.mpr inside))) ctx row
  unfold Form.offersRow
  dsimp only
  rw [terms, rows]

theorem outsideChoices (s : FormInstance) (scope : Option (String × String)) (value : Value) :
    Form.Reference.outsideChoices evaluate form session s cf scope value =
      Form.Reference.outsideChoices evaluate' form session s cf scope value := by
  unfold Form.Reference.outsideChoices
  cases rows : cf.rowsQuery with
  | some query =>
    dsimp only
    have same (ctx : Context) : Form.keeps evaluate query.filter ctx = Form.keeps evaluate' query.filter ctx := by
      funext row
      apply agree.keeps listed
      intro e inside
      unfold filterExprs
      rw [rows]
      exact List.mem_append_right _ (Option.mem_toList.mpr inside)
    simp only [Form.offersInstance, same]
  | none =>
    cases query : cf.choiceQuery with
    | some query' =>
      dsimp only
      have same : Form.offersRow evaluate session s query' scope = Form.offersRow evaluate' session s query' scope :=
        funext fun value => agree.offersRow listed query s scope value
      rw [same]
    | none => cases cf.node.choices with
      | none => rfl
      | some choices => cases choices <;> rfl

theorem evaluateField (path : String) (scope : Option (String × String)) :
    Form.Reference.evaluateField evaluate form session cf path scope =
      Form.Reference.evaluateField evaluate' form session cf path scope := by
  have relevance : Form.Reference.markRelevant evaluate form session cf path scope =
      Form.Reference.markRelevant evaluate' form session cf path scope := by
    simp only [Form.Reference.markRelevant, agree.fieldRelevant listed]
  have calculated (relevant : Bool) : Form.Reference.calculateValue evaluate session cf path scope relevant =
      Form.Reference.calculateValue evaluate' session cf path scope relevant := by
    unfold Form.Reference.calculateValue
    cases given : cf.node.calculate with
    | none => rfl
    | some calculate =>
      have same := @gated form evaluate evaluate' agree cf listed calculate (by simp [walked, given])
      cases relevant with
      | false => rfl
      | true => simp only [same]
  have flags : Form.Reference.markFlags evaluate session cf path scope = Form.Reference.markFlags evaluate' session cf path scope := by
    have required (ctx : Context) : Form.flagOf evaluate ctx cf.node.required = Form.flagOf evaluate' ctx cf.node.required := by
      apply agree.flagOf listed
      intro e inside
      simp [walked, inside]
    have readOnly (ctx : Context) : Form.flagOf evaluate ctx cf.node.readOnly = Form.flagOf evaluate' ctx cf.node.readOnly := by
      apply agree.flagOf listed
      intro e inside
      simp [walked, inside]
    simp only [Form.Reference.markFlags, required, readOnly]
  have choices (value : Value) : Form.Reference.checkChoices evaluate form session cf path scope value =
      Form.Reference.checkChoices evaluate' form session cf path scope value := by
    simp only [Form.Reference.checkChoices, agree.outsideChoices listed]
  have constrained (value : Value) : Form.Reference.checkConstraint evaluate session cf path scope value =
      Form.Reference.checkConstraint evaluate' session cf path scope value := by
    unfold Form.Reference.checkConstraint
    cases given : cf.node.constraint with
    | none => rfl
    | some constraint =>
      have same := @gated form evaluate evaluate' agree cf listed constraint (by simp [walked, given])
      cases value.isNull with
      | true => rfl
      | false => simp only [Form.decideAt, same]
  simp only [Form.Reference.evaluateField, relevance, calculated, flags, choices, constrained]

omit listed

theorem resolveRows (node : Form.Repeat) : Form.resolveRows (Form.Reference.runtime evaluate) form session node =
    Form.resolveRows (Form.Reference.runtime evaluate') form session node := by
  simp only [Form.resolveRows, Form.Reference.runtime, agree.containerRelevant]

theorem settleCount {node : Form.Repeat} (listed : node ∈ form.repeats) :
    Form.settleCount (Form.Reference.runtime evaluate) form session node =
      Form.settleCount (Form.Reference.runtime evaluate') form session node := by
  unfold Form.settleCount
  cases given : node.countExpr with
  | none => rfl
  | some countExpr => simp only [Form.Reference.runtime, agree.count listed given]

theorem evaluateFields (fid : String) : Form.evaluateFields (Form.Reference.runtime evaluate) form session fid =
    Form.evaluateFields (Form.Reference.runtime evaluate') form session fid := by
  unfold Form.evaluateFields
  cases found : form.field? fid with
  | none => rfl
  | some cf => simp only [Form.Reference.runtime, agree.evaluateField (List.mem_of_find?_eq_some found)]

theorem recalculate : Form.recalculate (Form.Reference.runtime evaluate) form session =
    Form.recalculate (Form.Reference.runtime evaluate') form session := by
  unfold Form.recalculate
  rw [forM_congr fun node _ => agree.resolveRows node, forM_congr fun node listed => agree.settleCount listed,
    forM_congr fun fid _ => agree.evaluateFields fid]

theorem construct : Form.construct (Form.Reference.runtime evaluate) form session =
    Form.construct (Form.Reference.runtime evaluate') form session := by
  simp only [Form.construct, agree.recalculate]

theorem perform (call : Form.Call) : call.perform evaluate form session = call.perform evaluate' form session := by
  cases call with
  | set path value => simp only [Form.Call.perform, Form.setMany, agree.recalculate]; rfl
  | setMany answers => simp only [Form.Call.perform, Form.setMany, agree.recalculate]; rfl
  | addInstance rid => simp only [Form.Call.perform, Form.addInstance, agree.recalculate]
  | deleteInstance rid index => simp only [Form.Call.perform, Form.deleteInstance, agree.recalculate]
  | restore instances answers => simp only [Form.Call.perform, Form.Reference.restore, agree.recalculate]
  | recalculate => exact agree.recalculate

end Agree

end Runs

section Published

variable {lib : Form.Library} {repr : String → String} {others : CompiledForm → Document → List String} {ir : Document}
  {form : CompiledForm}

theorem applied_permitted (publishable : checkPublishable (publishChecks repr others) ir = .ok form)
    (written : ∀ visit ∈ Form.walk [] ir.children, ∀ expr ∈ unwalked visit.1, ∀ pattern ∈ patterns expr, forbidden pattern = false)
    {ctx : Context} {expr : Expr} (member : expr ∈ expressions form) {pattern : String} (applies : Applies lib ctx expr pattern) :
    forbidden pattern = false := by
  have sourced := compile_sourced (checkPublishable_ok publishable)
  rcases patterns_expressions sourced member (mem_of_applies applies) with ⟨cf, listed, walked⟩ | ⟨visit, visited, e, own, is⟩
  · exact walked_permitted publishable listed walked
  · exact written visit visited e own pattern is

theorem alarm_silent (publishable : checkPublishable (publishChecks repr others) ir = .ok form)
    (written : ∀ visit ∈ Form.walk [] ir.children, ∀ expr ∈ unwalked visit.1, ∀ pattern ∈ patterns expr, forbidden pattern = false) :
    Agree form (alarmed lib) (evaluator lib) := by
  intro expr member ctx
  apply if_neg
  rintro ⟨pattern, applies, bad⟩
  rw [applied_permitted publishable written member applies] at bad
  cases bad

/-- In a published form without a forbidden pattern in a slot that publishing does not walk, no reachable state applies one:
neither an expression of the form asked there, nor a call made there. -/
theorem published_permitted (publishable : checkPublishable (publishChecks repr others) ir = .ok form)
    (written : ∀ visit ∈ Form.walk [] ir.children, ∀ expr ∈ unwalked visit.1, ∀ pattern ∈ patterns expr, forbidden pattern = false)
    {session : Session} {s : FormInstance} (reached : Form.Reached (evaluator lib) form session s) :
    Form.Reached (alarmed lib) form session s ∧
      (∀ expr ∈ expressions form, ∀ scope row pattern,
        Applies lib { s.context session scope with row := row } expr pattern → forbidden pattern = false) ∧
      ∀ call : Form.Call, call.perform (alarmed lib) form session s = call.perform (evaluator lib) form session s := by
  have silent := @alarm_silent lib repr others ir form publishable written
  refine ⟨?_, fun expr member scope row pattern => applied_permitted publishable written member, fun call => ?_⟩
  · induction reached with
    | constructed ran => exact .constructed (by rw [silent.construct]; exact ran)
    | called before ran ih => exact .called ih (by rw [silent.perform]; exact ran)
  · rw [silent.perform]

def fitting (pattern : String) : Expr := .call "regex" [.ref "name", .lit (.text pattern)]

def adults (pattern : String) : Document where
  formId := "adults"
  version := 1
  children :=
    [.question { id := "name", dataType := "text" },
      .group { id := "details", relevant := some (fitting pattern) } [.question { id := "age", dataType := "integer" }]]

def adultsForm (pattern : String) : CompiledForm where
  fields := [
    { node := { id := "name", dataType := "text" }, dependsOn := [], ancestors := [], repeatId := none,
      choiceQuery := none, rowsQuery := none },
    { node := { id := "age", dataType := "integer" }, dependsOn := ["name"], ancestors := ["details"], repeatId := none,
      choiceQuery := none, rowsQuery := none }]
  containers := [{ id := "details", relevant := some (fitting pattern), appearance := none, ancestors := [] }]
  topoOrder := ["name", "age"]

def newAdults (pattern : String) : FormInstance :=
  after (Form.construct (Form.Reference.runtime (evaluator Form.noLibrary)) (adultsForm pattern) Form.noon)
    (Form.blank (adultsForm pattern))

def namedAdults (pattern : String) : FormInstance :=
  after ((Form.Call.set "name" (.text "Ama")).perform (evaluator Form.noLibrary) (adultsForm pattern) Form.noon)
    (newAdults pattern)

theorem adults_publishable {pattern : String} (compiled : Form.compile (adults pattern).children = .ok (adultsForm pattern)) :
    checkPublishable (publishChecks id fun _ _ => []) (adults pattern) = .ok (adultsForm pattern) := by
  unfold checkPublishable
  rw [compiled]
  rfl

theorem adults_reached (pattern : String) (runs : Form.construct (Form.Reference.runtime (evaluator Form.noLibrary))
      (adultsForm pattern) Form.noon (Form.blank (adultsForm pattern)) = .ok () (newAdults pattern) ∧
      (Form.Call.set "name" (.text "Ama")).perform (evaluator Form.noLibrary) (adultsForm pattern) Form.noon (newAdults pattern) =
        .ok () (namedAdults pattern)) :
    Form.Reached (evaluator Form.noLibrary) (adultsForm pattern) Form.noon (namedAdults pattern) :=
  .called (.constructed runs.1) runs.2

/-- A pattern that is permitted, in a slot that publishing does not walk. -/
theorem adults_permitted :
    Form.Reached (alarmed Form.noLibrary) (adultsForm "^A") Form.noon (namedAdults "^A") ∧
      (∀ expr ∈ expressions (adultsForm "^A"), ∀ scope row pattern,
        Applies Form.noLibrary { (namedAdults "^A").context Form.noon scope with row := row } expr pattern →
          forbidden pattern = false) ∧
      ∀ call : Form.Call, call.perform (alarmed Form.noLibrary) (adultsForm "^A") Form.noon (namedAdults "^A") =
        call.perform (evaluator Form.noLibrary) (adultsForm "^A") Form.noon (namedAdults "^A") := by
  refine published_permitted (adults_publishable rfl) ?_ (adults_reached "^A" ⟨rfl, rfl⟩)
  have slots : (Form.walk [] (adults "^A").children).flatMap (fun visit => (unwalked visit.1).flatMap patterns) = ["^A"] := rfl
  intro visit visited expr own pattern is
  have member : pattern ∈ ["^A"] := slots ▸ List.mem_flatMap.mpr ⟨visit, visited, List.mem_flatMap.mpr ⟨expr, own, is⟩⟩
  obtain rfl := List.mem_singleton.mp member
  rfl

/-- A negative lookahead in the relevance of a group is published, and applied where the group is asked for. -/
theorem lookahead_applied :
    checkPublishable (publishChecks id fun _ _ => []) (adults "(?!x)") = .ok (adultsForm "(?!x)") ∧
      Form.Reached (evaluator Form.noLibrary) (adultsForm "(?!x)") Form.noon (namedAdults "(?!x)") ∧
      fitting "(?!x)" ∈ expressions (adultsForm "(?!x)") ∧
      Applies Form.noLibrary ((namedAdults "(?!x)").context Form.noon none) (fitting "(?!x)") "(?!x)" ∧
      forbidden "(?!x)" = true ∧
      evaluator Form.noLibrary ((namedAdults "(?!x)").context Form.noon none) (fitting "(?!x)") = .ok .null := by
  refine ⟨adults_publishable rfl, adults_reached _ ⟨rfl, rfl⟩, List.mem_singleton.mpr rfl, ?_, rfl, rfl⟩
  exact ⟨.ref "name", [], [.text "Ama", .text "(?!x)"], .refl, rfl⟩

end Published

end DataCollectionLab.Forms
