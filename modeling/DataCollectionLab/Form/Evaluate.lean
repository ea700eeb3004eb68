import DataCollectionLab.Entities.Versions
import DataCollectionLab.Lib.Lists

/-!
Evaluation of the expressions that read reference data: `pulldata`, and the choice lists backed by a
dataset. Every other operator and function works on the values of its arguments alone.
-/

namespace DataCollectionLab.Form

open Entities (Row)

/-- The operators and functions of the language, at the clock of one pass; `none` is an error. -/
structure Engine where
  operator : String → List FormValue → Option FormValue
  function : String → List FormValue → Option FormValue
  /-- `plain` of a decimal. -/
  plainDecimal : Double → String

/-- What one evaluation reads: the answers, the row of a filter, and the rows of each dataset in order. -/
structure EvalContext where
  resolve : String → Option FormValue
  row : Option Row := none
  datasets : String → List Row

def cellValue (cell : Option String) : FormValue := cell.elim .null .text

/-- `_plain`: a number as a cell would have it. -/
def plain (engine : Engine) : FormValue → Option String
  | .integer value => some (toString value.toInt)
  | .decimal value => some (engine.plainDecimal value)
  | .null | .text _ | .bool _ | .dateValue _ | .sequence _ | .geoPoint .. | .mediaRef .. => none

/-- `_same`: exact match, and a number by its text. -/
def same (engine : Engine) (cell : Option String) : FormValue → Bool
  | .null => cell.isNone
  | .text value => cell = some value
  | value => cell.isSome && plain engine value = cell

/-- `InMemoryDatasetSource.rows`. -/
def matching (engine : Engine) (rows : List Row) (selector : List (String × FormValue)) : List Row :=
  rows.filter fun row => selector.all fun term => same engine (row.get term.1) term.2

/-- `_fn_pulldata`: the column of the first row whose key column has the value. -/
def pulldata (engine : Engine) (datasets : String → List Row) : List FormValue → Option FormValue
  | [.text dataset, .text column, .text keyColumn, value] =>
    match value with
    | .null => some .null
    | value =>
      some (((matching engine (datasets dataset) [(keyColumn, value)]).head?.map fun row =>
        cellValue (row.get column)).getD .null)
  | [_, _, _, _] => some .null
  | _ => none

section Evaluate

variable (engine : Engine) (ctx : EvalContext)

mutual

def evaluate : Expr → Option FormValue
  | .lit value => some value
  | .ref path =>
    match rowPath path with
    | some column => ctx.row.map fun row => cellValue (row.get column)
    | none => ctx.resolve path
  | .op name args =>
    if name = "if" then evaluateIf args else (evaluateAll args).bind (engine.operator name)
  | .call fn args =>
    (evaluateAll args).bind fun values =>
      if fn = "pulldata" then pulldata engine ctx.datasets values else engine.function fn values

def evaluateAll : List Expr → Option (List FormValue)
  | [] => some []
  | arg :: rest => (evaluate arg).bind fun value => (evaluateAll rest).map (value :: ·)

/-- `if` is lazy in both branches, and its condition is a boolean or nothing. -/
def evaluateIf : List Expr → Option FormValue
  | condition :: yes :: no :: _ =>
    (evaluate condition).bind fun value =>
      match value with
      | .bool true => evaluate yes
      | .bool false => evaluate no
      | _ => some .null
  | _ => none

end

/-- `coerce_boolean` with null as false. -/
def coerceBoolean : FormValue → Option Bool
  | .null => some false
  | .bool value => some value
  | _ => none

def keepRows (test : Row → Option Bool) : List Row → Option (List Row)
  | [] => some []
  | row :: rest => do
    let kept ← test row
    let others ← keepRows test rest
    some (if kept then row :: others else others)

def selectorValues : List (String × Expr) → Option (List (String × FormValue))
  | [] => some []
  | (column, expr) :: rest => do
    let value ← evaluate engine ctx expr
    let others ← selectorValues rest
    some ((column, value) :: others)

/-- `_rows_after_residual`, for one row. -/
def passesResidual (residual : Option Expr) (row : Row) : Option Bool :=
  match residual with
  | none => some true
  | some expr => (evaluate engine { ctx with row := some row } expr).bind coerceBoolean

/-- `choices`: the value and the labels of every row that is offered, in order. -/
def resolveChoices (query : ChoiceQuery) : Option (List (Option String × List (String × Option String))) := do
  let selector ← selectorValues engine ctx query.selector
  let rows ← keepRows (passesResidual engine ctx query.residual)
    (matching engine (ctx.datasets query.dataset) selector)
  some (rows.map fun row =>
    (row.get query.valueColumn, query.labelColumns.map fun label => (label.1, row.get label.2)))

end Evaluate

mutual

/-- The arguments of every call of `pulldata` in an expression. -/
def pulldataCalls : Expr → List (List Expr)
  | .lit _ | .ref _ => []
  | .op _ args => pulldataCallsAll args
  | .call fn args => if fn = "pulldata" then args :: pulldataCallsAll args else pulldataCallsAll args

def pulldataCallsAll : List Expr → List (List Expr)
  | [] => []
  | arg :: rest => pulldataCalls arg ++ pulldataCallsAll rest

end

section Agreement

variable {engine : Engine} {key : String} {columns : List String}

def AgreeIn (columns : List String) (a b : Row) : Prop := ∀ column ∈ columns, a.get column = b.get column

/-- A call of `pulldata` reads the dataset in no other column than these, whatever its arguments come to. -/
def ReadsWithin (engine : Engine) (key : String) (columns : List String) (args : List Expr) : Prop :=
  ∀ ctx column keyColumn value,
    evaluateAll engine ctx args = some [.text key, .text column, .text keyColumn, value] →
      column ∈ columns ∧ keyColumn ∈ columns

/-- The same answers, and the same datasets but for one, whose rows agree in the columns. -/
structure Alike (key : String) (columns : List String) (ctx ctx' : EvalContext) : Prop where
  resolve : ctx.resolve = ctx'.resolve
  others : ∀ dataset, dataset ≠ key → ctx.datasets dataset = ctx'.datasets dataset
  rows : List.Forall₂ (AgreeIn columns) (ctx.datasets key) (ctx'.datasets key)

def EvalContext.cell (ctx : EvalContext) (column : String) : Option FormValue :=
  ctx.row.map fun row => cellValue (row.get column)

theorem matching_alike (engine : Engine) {rows rows' : List Row} (related : List.Forall₂ (AgreeIn columns) rows rows')
    {selector : List (String × FormValue)} (within : ∀ term ∈ selector, term.1 ∈ columns) :
    List.Forall₂ (AgreeIn columns) (matching engine rows selector) (matching engine rows' selector) := by
  refine Lib.forall₂_filter (fun a b agree => ?_) related
  rw [Bool.eq_iff_iff, List.all_eq_true, List.all_eq_true]
  refine forall₂_congr fun term member => ?_
  rw [agree term.1 (within term member)]

theorem head_alike {rows rows' : List Row} (related : List.Forall₂ (AgreeIn columns) rows rows')
    {column : String} (read : column ∈ columns) :
    (rows.head?.map fun row => cellValue (row.get column)) =
      rows'.head?.map fun row => cellValue (row.get column) := by
  cases related with
  | nil => rfl
  | cons here _ => rw [List.head?_cons, List.head?_cons, Option.map_some, Option.map_some, here column read]

theorem pulldata_alike {ctx ctx' : EvalContext} (alike : Alike key columns ctx ctx') {values : List FormValue}
    (within : ∀ column keyColumn value, values = [.text key, .text column, .text keyColumn, value] →
      column ∈ columns ∧ keyColumn ∈ columns) :
    pulldata engine ctx.datasets values = pulldata engine ctx'.datasets values := by
  unfold pulldata
  split
  · rename_i dataset column keyColumn value
    by_cases other : dataset = key
    · subst other
      obtain ⟨read, looked⟩ := within column keyColumn value rfl
      have found : List.Forall₂ (AgreeIn columns)
          (matching engine (ctx.datasets dataset) [(keyColumn, value)])
          (matching engine (ctx'.datasets dataset) [(keyColumn, value)]) := by
        refine matching_alike engine alike.rows fun term member => ?_
        rw [List.mem_singleton.mp member]
        exact looked
      split
      · rfl
      · rw [head_alike found read]
    · rw [alike.others dataset other]
  · rfl
  · rfl

mutual

theorem evaluate_alike {ctx ctx' : EvalContext} (alike : Alike key columns ctx ctx') :
    ∀ expr : Expr, (∀ column ∈ rowRefs expr, ctx.cell column = ctx'.cell column) →
      (∀ args ∈ pulldataCalls expr, ReadsWithin engine key columns args) →
      evaluate engine ctx expr = evaluate engine ctx' expr
  | .lit value, _, _ => by rw [evaluate, evaluate]
  | .ref path, cells, _ => by
    rw [evaluate, evaluate]
    cases found : rowPath path with
    | none => exact congrFun alike.resolve path
    | some column => exact cells column (by simp [rowRefs, found])
  | .op name args, cells, calls => by
    rw [evaluate, evaluate]
    split
    · exact evaluateIf_alike alike args cells calls
    · rw [evaluateAll_alike alike args cells calls]
  | .call fn args, cells, calls => by
    rw [evaluate, evaluate]
    have inner : ∀ inner ∈ pulldataCallsAll args, ReadsWithin engine key columns inner := by
      intro inner member
      apply calls
      rw [pulldataCalls]
      split
      · exact List.mem_cons_of_mem _ member
      · exact member
    rw [evaluateAll_alike alike args cells inner]
    cases values : evaluateAll engine ctx' args with
    | none => rfl
    | some values' =>
      dsimp only [Option.bind_some]
      split
      · rename_i isPulldata
        apply pulldata_alike alike
        intro column keyColumn value shape
        rw [shape] at values
        exact calls args (by rw [pulldataCalls, if_pos isPulldata]; exact List.mem_cons_self) ctx' column
          keyColumn value values
      · rfl

theorem evaluateAll_alike {ctx ctx' : EvalContext} (alike : Alike key columns ctx ctx') :
    ∀ args : List Expr, (∀ column ∈ rowRefsAll args, ctx.cell column = ctx'.cell column) →
      (∀ call ∈ pulldataCallsAll args, ReadsWithin engine key columns call) →
      evaluateAll engine ctx args = evaluateAll engine ctx' args
  | [], _, _ => by rw [evaluateAll, evaluateAll]
  | arg :: rest, cells, calls => by
    rw [evaluateAll, evaluateAll,
      evaluate_alike alike arg (fun column member => cells column (List.mem_append_left _ member))
        (fun call member => calls call (List.mem_append_left _ member)),
      evaluateAll_alike alike rest (fun column member => cells column (List.mem_append_right _ member))
        (fun call member => calls call (List.mem_append_right _ member))]

theorem evaluateIf_alike {ctx ctx' : EvalContext} (alike : Alike key columns ctx ctx') :
    ∀ args : List Expr, (∀ column ∈ rowRefsAll args, ctx.cell column = ctx'.cell column) →
      (∀ call ∈ pulldataCallsAll args, ReadsWithin engine key columns call) →
      evaluateIf engine ctx args = evaluateIf engine ctx' args
  | [], _, _ => by rw [evaluateIf, evaluateIf] <;> simp
  | [_], _, _ => by rw [evaluateIf, evaluateIf] <;> simp
  | [_, _], _, _ => by rw [evaluateIf, evaluateIf] <;> simp
  | condition :: yes :: no :: rest, cells, calls => by
    have first := evaluate_alike alike condition
      (fun column member => cells column (by simp [rowRefsAll, member]))
      (fun call member => calls call (by simp [pulldataCallsAll, member]))
    have second := evaluate_alike alike yes
      (fun column member => cells column (by simp [rowRefsAll, member]))
      (fun call member => calls call (by simp [pulldataCallsAll, member]))
    have third := evaluate_alike alike no
      (fun column member => cells column (by simp [rowRefsAll, member]))
      (fun call member => calls call (by simp [pulldataCallsAll, member]))
    rw [evaluateIf, evaluateIf, first, second, third]

end

theorem selectorValues_alike {ctx ctx' : EvalContext} (alike : Alike key columns ctx ctx')
    (sameRow : ctx.row = ctx'.row) {selector : List (String × Expr)}
    (calls : ∀ term ∈ selector, ∀ args ∈ pulldataCalls term.2, ReadsWithin engine key columns args) :
    selectorValues engine ctx selector = selectorValues engine ctx' selector := by
  induction selector with
  | nil => rfl
  | cons term rest ih =>
    obtain ⟨column, expr⟩ := term
    have here : evaluate engine ctx expr = evaluate engine ctx' expr := by
      refine evaluate_alike alike expr (fun _ _ => ?_) (calls (column, expr) List.mem_cons_self)
      rw [EvalContext.cell, EvalContext.cell, sameRow]
    rw [selectorValues, selectorValues, here, ih fun term member => calls term (List.mem_cons_of_mem _ member)]

theorem selectorValues_columns {ctx : EvalContext} {selector : List (String × Expr)}
    {values : List (String × FormValue)} (found : selectorValues engine ctx selector = some values) :
    values.map Prod.fst = selector.map Prod.fst := by
  induction selector generalizing values with
  | nil =>
    cases found
    rfl
  | cons term rest ih =>
    obtain ⟨column, expr⟩ := term
    obtain ⟨value, -, found⟩ := Option.bind_eq_some_iff.mp found
    obtain ⟨others, later, found⟩ := Option.bind_eq_some_iff.mp found
    cases found
    rw [List.map_cons, List.map_cons, ih later]

theorem keepRows_alike {R : Row → Row → Prop} {test test' : Row → Option Bool}
    (agree : ∀ a b, R a b → test a = test' b) {rows rows' : List Row} (related : List.Forall₂ R rows rows') :
    Option.Rel (List.Forall₂ R) (keepRows test rows) (keepRows test' rows') := by
  induction related with
  | nil => exact .some .nil
  | @cons a b rows rows' here _ ih =>
    rw [keepRows, keepRows, agree a b here]
    cases test' b with
    | none => exact .none
    | some kept =>
      revert ih
      cases keepRows test rows with
      | none =>
        cases keepRows test' rows' with
        | none => exact fun _ => .none
        | some _ => exact fun no => nomatch no
      | some others =>
        cases keepRows test' rows' with
        | none => exact fun no => nomatch no
        | some others' =>
          intro both
          cases both with
          | some ih =>
            cases kept with
            | false => exact .some ih
            | true => exact .some (.cons here ih)

theorem bind_of_rel {α β γ : Type} {R : α → β → Prop} {a : Option α} {b : Option β} {f : α → Option γ}
    {g : β → Option γ} (rel : Option.Rel R a b) (agree : ∀ x y, R x y → f x = g y) : a.bind f = b.bind g := by
  cases rel with
  | none => rfl
  | some here => exact agree _ _ here

theorem passesResidual_alike {ctx ctx' : EvalContext} (alike : Alike key columns ctx ctx')
    {residual : Option Expr}
    (calls : ∀ expr ∈ residual, ∀ args ∈ pulldataCalls expr, ReadsWithin engine key columns args) {a b : Row}
    (agree : AgreeIn (residual.elim [] rowRefs) a b) :
    passesResidual engine ctx residual a = passesResidual engine ctx' residual b := by
  cases residual with
  | none => rfl
  | some expr =>
    have related : Alike key columns { ctx with row := some a } { ctx' with row := some b } :=
      ⟨alike.resolve, alike.others, alike.rows⟩
    refine congrArg (Option.bind · coerceBoolean) (evaluate_alike related expr ?_ (calls expr rfl))
    intro column member
    rw [EvalContext.cell, EvalContext.cell, Option.map_some, Option.map_some, agree column member]

def queryExprs (query : ChoiceQuery) : List Expr := query.selector.map Prod.snd ++ query.residual.toList

theorem resolveChoices_alike {ctx ctx' : EvalContext} (alike : Alike key columns ctx ctx')
    (sameRow : ctx.row = ctx'.row) (query : ChoiceQuery)
    (reads : query.dataset = key → ∀ column ∈ columnsOf query, column ∈ columns)
    (calls : ∀ expr ∈ queryExprs query, ∀ args ∈ pulldataCalls expr, ReadsWithin engine key columns args) :
    resolveChoices engine ctx query = resolveChoices engine ctx' query := by
  have related : List.Forall₂ (AgreeIn (columnsOf query)) (ctx.datasets query.dataset)
      (ctx'.datasets query.dataset) := by
    by_cases mine : query.dataset = key
    · rw [mine]
      exact alike.rows.imp fun a b agree column member => agree column (reads mine column member)
    · rw [alike.others query.dataset mine]
      exact List.forall₂_same.mpr fun _ _ _ _ => rfl
  have selected : selectorValues engine ctx query.selector = selectorValues engine ctx' query.selector := by
    refine selectorValues_alike alike sameRow fun term member => ?_
    exact calls term.2 (List.mem_append_left _ (List.mem_map_of_mem member))
  rw [resolveChoices, resolveChoices, selected]
  cases found : selectorValues engine ctx' query.selector with
  | none => rfl
  | some selector =>
    have within : ∀ term ∈ selector, term.1 ∈ columnsOf query := by
      intro term member
      have named := List.mem_map_of_mem (f := Prod.fst) member
      rw [selectorValues_columns found] at named
      simp [columnsOf, named]
    have kept := keepRows_alike
      (fun a b (agree : AgreeIn (columnsOf query) a b) => passesResidual_alike alike
        (fun expr member => calls expr (List.mem_append_right _ (Option.mem_toList.mpr member)))
        (fun column member => agree column (List.mem_append_right _ member)))
      (matching_alike engine related within)
    show Option.bind (keepRows _ _) _ = Option.bind (keepRows _ _) _
    refine bind_of_rel kept fun rows rows' both => congrArg some ?_
    rw [← List.forall₂_eq_eq_eq, List.forall₂_map_left_iff, List.forall₂_map_right_iff]
    refine both.imp fun a b agree => ?_
    rw [agree query.valueColumn (by simp [columnsOf])]
    refine congrArg (Prod.mk _) (List.map_congr_left fun label member => ?_)
    have labelled := List.mem_map_of_mem (f := Prod.snd) member
    rw [agree label.2 (by simp [columnsOf, labelled])]

end Agreement

end DataCollectionLab.Form
