import Mathlib.Data.List.Sort
import Mathlib.Data.String.Basic
import DataCollectionLab.Form.Values

/-!
Dataset-backed choice lists: a filter is decomposed once, when the form is compiled, into the part a
store can answer from an index and the part it cannot.
-/

namespace DataCollectionLab.Form

/-- An expression of the Form IR: a literal, a reference, an operator, or a call of a function. -/
inductive Expr where
  | lit (value : FormValue)
  | ref (path : String)
  | op (name : String) (args : List Expr)
  | call (fn : String) (args : List Expr)

def rowPrefix : List Char := "$row.".toList

/-- The column of a path that is `$row.column`. -/
def rowPath (path : String) : Option String :=
  if rowPrefix.isPrefixOf path.toList then some (String.ofList (path.toList.drop rowPrefix.length)) else none

def rowColumn : Expr → Option String
  | .ref path => rowPath path
  | .lit _ | .op _ _ | .call _ _ => none

mutual

/-- `_row_refs`, by the columns they name. -/
def rowRefs : Expr → List String
  | .lit _ => []
  | .ref path => (rowPath path).toList
  | .op _ args => rowRefsAll args
  | .call _ args => rowRefsAll args

def rowRefsAll : List Expr → List String
  | [] => []
  | arg :: rest => rowRefs arg ++ rowRefsAll rest

end

/-- `_mentions_row`: over the whole subtree, not at its top alone. -/
def mentionsRow (expr : Expr) : Bool := !(rowRefs expr).isEmpty

mutual

/-- `_conjuncts`: a top-level `and`, flattened fully. -/
def conjuncts : Expr → List Expr
  | .op name args => if name = "and" then conjunctsAll args else [.op name args]
  | .lit value => [.lit value]
  | .ref path => [.ref path]
  | .call fn args => [.call fn args]

def conjunctsAll : List Expr → List Expr
  | [] => []
  | arg :: rest => conjuncts arg ++ conjunctsAll rest

end

/-- `_selector_term`: the column and the expression, when the conjunct is `$row.col = <no $row>`. -/
def selectorTerm : Expr → Option (String × Expr)
  | .op "eq" [left, right] =>
    match rowColumn left, mentionsRow right with
    | some column, false => some (column, right)
    | _, _ =>
      match rowColumn right, mentionsRow left with
      | some column, false => some (column, left)
      | _, _ => none
  | _ => none

/-- A `choices` block. -/
structure Choices where
  kind : String
  dataset : String := ""
  valueColumn : String := ""
  /-- The label's column in each language. -/
  labelColumn : List (String × String) := []
  filter : Option Expr := none

/-- A dataset-backed `choices` block, compiled. -/
structure ChoiceQuery where
  dataset : String
  valueColumn : String
  labelColumns : List (String × String)
  /-- Column to the expression whose value it must equal, ordered by column. -/
  selector : List (String × Expr)
  /-- What the selector could not absorb. -/
  residual : Option Expr

def splitConjuncts (found : List (String × Expr) × List Expr) (conjunct : Expr) :
    List (String × Expr) × List Expr :=
  match selectorTerm conjunct with
  | some term =>
    if term.1 ∈ found.1.map Prod.fst then (found.1, found.2 ++ [conjunct])
    else (found.1 ++ [term], found.2)
  | none => (found.1, found.2 ++ [conjunct])

def compileChoices (choices : Choices) : Option ChoiceQuery :=
  if choices.kind ≠ "dataset" then none
  else
    let split := (choices.filter.elim [] conjuncts).foldl splitConjuncts ([], [])
    some {
      dataset := choices.dataset
      valueColumn := choices.valueColumn
      labelColumns := choices.labelColumn
      selector := split.1.insertionSort fun a b => a.1 ≤ b.1
      residual :=
        match split.2 with
        | [] => none
        | [only] => some only
        | several => some (.op "and" several) }

/-- The columns a compiled list reads: its value, its labels, its selector and every `$row.` of the
residual. -/
def columnsOf (query : ChoiceQuery) : List String :=
  query.valueColumn :: query.labelColumns.map Prod.snd ++ query.selector.map Prod.fst ++
    query.residual.elim [] rowRefs

end DataCollectionLab.Form
