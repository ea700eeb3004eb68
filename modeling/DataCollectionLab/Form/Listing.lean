import DataCollectionLab.Form.Outside

/-!
The list of a dataset-backed choice: the rows that match the selector, then those that the residual keeps. It is
compared with the rows that the whole filter is true of.
-/

namespace DataCollectionLab.Form

open Lib

abbrev Cells := String → Option Value

namespace Reference

section Source

variable (lib : Library)

def plain : Num → String
  | .int n => toString n
  | .float (.finite q) => if q.den = 1 then toString q.num else lib.repr (.finite q)
  | .float d => lib.repr d

/-- `_same`, of a cell and a value. -/
def sameCell (cell value : Value) : Bool :=
  if same cell value then true
  else
    match cell, value with
    | .text cell, .integer n => cell = plain lib (.int n)
    | .text cell, .decimal d => cell = plain lib (.float d)
    | .integer n, .text value => value = plain lib (.int n)
    | .decimal d, .text value => value = plain lib (.float d)
    | _, _ => false

/-- `row.get(column)`. -/
def cellOf (row : Cells) (column : String) : Value := (row column).getD .null

/-- `_matches`. -/
def matchesRow (selector : List (String × Value)) (row : Cells) : Bool :=
  selector.all fun term => sameCell lib (cellOf row term.1) term.2

/-- `InMemoryDatasetSource.rows`. -/
def inMemory (datasets : String → Option (List Cells)) : DatasetSource := fun dataset selector equals =>
  match datasets dataset with
  | none => []
  | some found =>
    match equals with
    | none => found.filter (matchesRow lib selector)
    | some (column, value) =>
      (found.filter (matchesRow lib selector)).filter fun row => sameCell lib (cellOf row column) value

end Source

section Resolution

variable (evaluate : Context → Expr → Except Failure Value) (session : Session) (s : FormInstance) (query : ChoiceQuery)
  (scope : Option (String × String))

def selectorValues (ctx : Context) : Except Failure (List (String × Value)) :=
  query.selector.mapM fun term => do return (term.1, ← evaluate ctx term.2)

def candidateRows (equals : Option Value) : Except Failure (List Cells) := do
  let selector ← selectorValues evaluate query (s.context session scope)
  return session.datasets query.dataset selector (equals.map fun value => (query.valueColumn, value))

def keepRows (test : Cells → Except Failure Bool) : List Cells → Except Failure (List Cells)
  | [] => .ok []
  | row :: rest => do
    let kept ← test row
    let others ← keepRows test rest
    return if kept then row :: others else others

def rowsAfterResidual (rows : List Cells) : Except Failure (List Cells) :=
  keepRows (keeps evaluate query.residual (s.context session scope)) rows

/-- One entry of the list that `choices` resolves. -/
structure Choice where
  value : Value
  /-- The text of each language. -/
  label : List (String × Value)

def choiceOf (row : Cells) : Choice :=
  ⟨cellOf row query.valueColumn, query.labelColumns.map fun label => (label.1, cellOf row label.2)⟩

/-- `choices`, of a question whose list is a dataset's. -/
def choices : Except Failure (List Choice) := do
  let rows ← candidateRows evaluate session s query scope none
  return (← rowsAfterResidual evaluate session s query scope rows).map (choiceOf query)

end Resolution

section Comparison

variable {lib : Library} {a b : Value}

def mixed : Value → Value → Bool
  | .text _, .integer _ | .text _, .decimal _ | .integer _, .text _ | .decimal _, .text _ => true
  | .bool _, .integer _ | .bool _, .decimal _ | .integer _, .bool _ | .decimal _, .bool _ => true
  | _, _ => false

theorem eq_comm_binary (x y : Binary64) : x.eq y = y.eq x := by
  cases x <;> cases y <;> simp [Binary64.eq, eq_comm]

theorem sameNumber_comm (x y : Option Binary64) : sameNumber x y = sameNumber y x := by
  cases x <;> cases y <;> simp [sameNumber, eq_comm_binary]

mutual

theorem same_comm : ∀ a b : Value, same a b = same b a
  | .sequence xs, .sequence ys => by rw [same, same, sameAll_comm xs ys]
  | .null, b => by cases b <;> simp [same, numeric]
  | .text s, b => by cases b <;> simp [same, numeric, eq_comm]
  | .integer n, b => by cases b <;> simp [same, numeric, eq_comm_binary]
  | .decimal d, b => by cases b <;> simp [same, numeric, eq_comm_binary]
  | .bool p, b => by cases b <;> simp [same, numeric, eq_comm_binary]
  | .dateValue s, b => by cases b <;> simp [same, numeric, eq_comm]
  | .geoPoint .., b => by cases b <;> simp [same, numeric, eq_comm_binary, sameNumber_comm]
  | .mediaRef .., b => by cases b <;> simp [same, numeric, eq_comm]
  | .sequence xs, .null | .sequence xs, .text _ | .sequence xs, .integer _ | .sequence xs, .decimal _
  | .sequence xs, .bool _ | .sequence xs, .dateValue _ | .sequence xs, .geoPoint .. | .sequence xs, .mediaRef .. => by
    simp [same, numeric]

theorem sameAll_comm : ∀ xs ys : List Value, sameAll xs ys = sameAll ys xs
  | [], [] => rfl
  | [], _ :: _ => rfl
  | _ :: _, [] => rfl
  | x :: xs, y :: ys => by rw [sameAll, sameAll, same_comm x y, sameAll_comm xs ys]

end

theorem sameType_comm (a b : Value) : sameType a b = sameType b a := by
  cases a <;> cases b <;> rfl

theorem equal_comm (a b : Value) : equal a b = equal b a := by
  unfold equal
  rw [Bool.or_comm, same_comm a b, sameType_comm a b]
  cases number a <;> cases number b <;> simp [eq_comm_binary]

theorem same_of_equal (equals : equal a b = some true) : same a b = true := by
  cases a <;> cases b <;> simp_all [equal, same, numeric, number, Num.exact, Value.isNull, sameType]

theorem sameCell_of_equal (equals : equal a b = some true) : sameCell lib a b = true := by
  unfold sameCell
  rw [if_pos (same_of_equal equals)]

theorem equal_of_sameCell (taken : sameCell lib a b = true) :
    equal a b = some true ∨ a = .null ∧ b = .null ∨ mixed a b = true := by
  unfold sameCell at taken
  by_cases equals : same a b = true
  · cases a <;> cases b <;>
      simp_all [equal, same, numeric, number, Num.exact, Value.isNull, sameType, mixed]
  · rw [if_neg equals] at taken
    refine Or.inr (Or.inr ?_)
    cases a <;> cases b <;> first | rfl | cases taken

end Comparison

section Filters

variable {lib : Library} {ctx : Context} {row : Cells}

abbrev evaluator (lib : Library) : Context → Expr → Except Failure Value := Reference.evaluate (call lib) resolve

def HoldsOf (lib : Library) (ctx : Context) (row : Cells) (expr : Expr) : Prop :=
  evaluator lib { ctx with row := some row } expr = .ok (.bool true)

theorem and_eq_true_iff (values : List Value) : and values = .bool true ↔ ∀ value ∈ values, value = .bool true := by
  have isTrue : ∀ value : Value, boolean value = some true ↔ value = .bool true := by
    intro value
    cases value <;> simp [boolean]
  unfold and
  split
  · rename_i found
    obtain ⟨value, member, no⟩ := List.any_eq_true.mp found
    refine iff_of_false (by simp) fun all => ?_
    rw [all value member] at no
    cases no
  · split
    · rename_i found
      obtain ⟨value, member, none⟩ := List.any_eq_true.mp found
      refine iff_of_false (by simp) fun all => ?_
      rw [all value member] at none
      cases none
    · rename_i noFalse noNull
      refine iff_of_true rfl fun value member => (isTrue value).mp ?_
      have notFalse : boolean value ≠ some false := fun same =>
        noFalse (List.any_eq_true.mpr ⟨value, member, decide_eq_true same⟩)
      have given : boolean value ≠ none := fun same =>
        noNull (List.any_eq_true.mpr ⟨value, member, decide_eq_true same⟩)
      cases read : boolean value with
      | none => exact absurd read given
      | some truth =>
        cases truth with
        | false => exact absurd read notFalse
        | true => rfl

theorem evaluateAll_ok_iff {functions : Context → String → Except Failure (List Value → Except Failure Value)}
    {args : List Expr} {values : List Value} :
    Reference.evaluateAll functions resolve ctx args = .ok values ↔
      List.Forall₂ (fun arg value => Reference.evaluate functions resolve ctx arg = .ok value) args values := by
  induction args generalizing values with
  | nil =>
    rw [Reference.evaluateAll, List.forall₂_nil_left_iff]
    exact ⟨fun same => (Except.ok.inj same).symm, fun same => by rw [same]⟩
  | cons arg rest ih =>
    rw [Reference.evaluateAll, List.forall₂_cons_left_iff]
    simp only [bind_ok_iff, ih]
    constructor
    · rintro ⟨value, first, others, later, same⟩
      exact ⟨value, others, first, later, (Except.ok.inj same).symm⟩
    · rintro ⟨value, others, first, later, rfl⟩
      exact ⟨value, first, others, later, rfl⟩

theorem holdsOf_and_iff {args : List Expr} :
    HoldsOf lib ctx row (.op "and" args) ↔ ∀ arg ∈ args, HoldsOf lib ctx row arg := by
  have named : Operator.named "and" = some .and := by decide
  unfold HoldsOf evaluator
  rw [Reference.evaluate, named]
  simp only [bind_ok_iff, evaluateAll_ok_iff]
  constructor
  · rintro ⟨values, each, all⟩ arg member
    obtain ⟨value, given, evaluated⟩ := exists_of_forall₂_left each member
    rw [evaluated, (and_eq_true_iff values).mp (Except.ok.inj all) value given]
  · intro all
    refine ⟨args.map fun _ => .bool true, ?_, ?_⟩
    · rw [List.forall₂_map_right_iff, List.forall₂_same]
      exact all
    · rw [(and_eq_true_iff _).mpr (by simp)]
      rfl

theorem holdsOf_conjuncts_iff (expr : Expr) :
    HoldsOf lib ctx row expr ↔ ∀ conjunct ∈ conjuncts expr, HoldsOf lib ctx row conjunct := by
  have all : ∀ args : List Expr, conjunctsAll args = args.flatMap conjuncts := by
    intro args
    induction args with
    | nil => rfl
    | cons arg rest ih => rw [conjunctsAll, ih, List.flatMap_cons]
  induction expr using expr_induction with
  | lit value => simp [conjuncts]
  | ref path => simp [conjuncts]
  | call fn args => simp [conjuncts]
  | op name args ih =>
    rw [conjuncts]
    split
    · rename_i conjunction
      subst conjunction
      rw [holdsOf_and_iff, all]
      simp only [List.mem_flatMap]
      constructor
      · rintro each conjunct ⟨arg, member, within⟩
        exact (ih arg member).mp (each arg member) conjunct within
      · intro each arg member
        exact (ih arg member).mpr fun conjunct within => each conjunct ⟨arg, member, within⟩
    · simp

def TermHolds (lib : Library) (ctx : Context) (row : Cells) (term : String × Expr) : Prop :=
  ∃ value, evaluator lib ctx term.2 = .ok value ∧ equal (cellOf row term.1) value = some true

theorem rowRefs_eq (expr : Expr) : rowRefs expr = (paths expr).filterMap rowPath := by
  have all : ∀ args : List Expr, (∀ arg ∈ args, rowRefs arg = (paths arg).filterMap rowPath) →
      rowRefsAll args = (pathsAll args).filterMap rowPath := by
    intro args each
    induction args with
    | nil => rfl
    | cons arg rest ih =>
      rw [rowRefsAll, pathsAll, List.filterMap_append, each arg List.mem_cons_self,
        ih fun other member => each other (List.mem_cons_of_mem _ member)]
  induction expr using expr_induction with
  | lit value => rfl
  | ref path => cases found : rowPath path <;> simp [rowRefs, paths, found]
  | op name args ih => exact all args ih
  | call fn args ih => exact all args ih

theorem evaluator_row {expr : Expr} (silent : mentionsRow expr = false) :
    evaluator lib { ctx with row := some row } expr = evaluator lib ctx expr := by
  have called : call lib { ctx with row := some row } = call lib ctx := rfl
  refine Reference.evaluate_congr called expr fun path read => ?_
  have bare : rowPath path = none := by
    rw [mentionsRow, rowRefs_eq, Bool.not_eq_false', List.isEmpty_iff, List.filterMap_eq_nil_iff] at silent
    exact silent path read
  simp only [resolve, bare]
  rfl

theorem evaluator_cell {expr : Expr} {column : String} (named : rowColumn expr = some column) :
    evaluator lib { ctx with row := some row } expr = .ok (cellOf row column) := by
  cases expr with
  | ref path =>
    rw [evaluator, Reference.evaluate, resolve, show rowPath path = some column from named]
    rfl
  | lit value => cases named
  | op name args => cases named
  | call fn args => cases named

theorem holdsOf_eq_iff {left right : Expr} :
    HoldsOf lib ctx row (.op "eq" [left, right]) ↔
      ∃ a b, evaluator lib { ctx with row := some row } left = .ok a ∧
        evaluator lib { ctx with row := some row } right = .ok b ∧ equal a b = some true := by
  have named : Operator.named "eq" = some .eq := by decide
  have truth : ∀ t : Option Bool, ofTruth t = .bool true ↔ t = some true := by
    intro t
    cases t <;> simp [ofTruth]
  unfold HoldsOf evaluator
  rw [Reference.evaluate, named]
  simp only [evaluatePair, bind_ok_iff, binary]
  constructor
  · rintro ⟨pair, ⟨a, first, b, second, same⟩, equals⟩
    cases same
    exact ⟨a, b, first, second, (truth _).mp (Except.ok.inj equals)⟩
  · rintro ⟨a, b, first, second, equals⟩
    exact ⟨(a, b), ⟨a, first, b, second, rfl⟩, congrArg Except.ok ((truth _).mpr equals)⟩

theorem selectorTerm_cases {conjunct : Expr} {term : String × Expr} (selects : selectorTerm conjunct = some term) :
    mentionsRow term.2 = false ∧ ∃ reference, rowColumn reference = some term.1 ∧
      (conjunct = .op "eq" [reference, term.2] ∨ conjunct = .op "eq" [term.2, reference]) := by
  unfold selectorTerm at selects
  split at selects
  · rename_i left right
    split at selects
    · rename_i column named silent
      cases selects
      exact ⟨silent, left, named, Or.inl rfl⟩
    · split at selects
      · rename_i column named silent
        cases selects
        exact ⟨silent, right, named, Or.inr rfl⟩
      · cases selects
  · cases selects

theorem holdsOf_term_iff {conjunct : Expr} {term : String × Expr} (selects : selectorTerm conjunct = some term) :
    HoldsOf lib ctx row conjunct ↔ TermHolds lib ctx row term := by
  obtain ⟨silent, reference, named, rfl | rfl⟩ := selectorTerm_cases selects
  · rw [holdsOf_eq_iff, evaluator_cell named, evaluator_row silent]
    constructor
    · rintro ⟨a, b, same, evaluated, equals⟩
      cases same
      exact ⟨b, evaluated, equals⟩
    · rintro ⟨b, evaluated, equals⟩
      exact ⟨_, b, rfl, evaluated, equals⟩
  · rw [holdsOf_eq_iff, evaluator_cell named, evaluator_row silent]
    constructor
    · rintro ⟨a, b, evaluated, same, equals⟩
      cases same
      exact ⟨a, evaluated, (equal_comm _ _).trans equals⟩
    · rintro ⟨a, evaluated, equals⟩
      exact ⟨a, _, evaluated, rfl, (equal_comm _ _).trans equals⟩

theorem split_iff (P : Expr → Prop) (Q : String × Expr → Prop)
    (agree : ∀ conjunct term, selectorTerm conjunct = some term → (P conjunct ↔ Q term)) (list : List Expr)
    (found : List (String × Expr) × List Expr) :
    ((∀ term ∈ (list.foldl splitConjuncts found).1, Q term) ∧ ∀ conjunct ∈ (list.foldl splitConjuncts found).2, P conjunct) ↔
      (∀ term ∈ found.1, Q term) ∧ (∀ conjunct ∈ found.2, P conjunct) ∧ ∀ conjunct ∈ list, P conjunct := by
  induction list generalizing found with
  | nil => simp
  | cons conjunct rest ih =>
    rw [List.foldl_cons, ih, List.forall_mem_cons]
    have step : ((∀ term ∈ (splitConjuncts found conjunct).1, Q term) ∧
        ∀ other ∈ (splitConjuncts found conjunct).2, P other) ↔
          (∀ term ∈ found.1, Q term) ∧ (∀ other ∈ found.2, P other) ∧ P conjunct := by
      unfold splitConjuncts
      split
      · rename_i term selects
        split
        · simp only [List.forall_mem_append, List.forall_mem_singleton]
        · simp only [List.forall_mem_append, List.forall_mem_singleton, agree conjunct term selects]
          tauto
      · simp only [List.forall_mem_append, List.forall_mem_singleton]
    tauto

end Filters

section Lists

variable {test : Cells → Except Failure Bool} {rows kept : List Cells}

theorem keepRows_ok_iff : keepRows test rows = .ok kept ↔
    (∀ row ∈ rows, ∃ passes, test row = .ok passes) ∧ kept = rows.filter fun row => (test row).toOption.getD false := by
  induction rows generalizing kept with
  | nil =>
    rw [keepRows]
    exact ⟨fun same => ⟨by simp, (Except.ok.inj same).symm⟩, fun both => by rw [both.2]; rfl⟩
  | cons row rest ih =>
    rw [keepRows]
    simp only [bind_ok_iff, ih, List.forall_mem_cons]
    constructor
    · rintro ⟨passes, tested, others, ⟨each, rfl⟩, same⟩
      refine ⟨⟨⟨passes, tested⟩, each⟩, ?_⟩
      cases same
      rw [List.filter_cons, tested]
      rfl
    · rintro ⟨⟨⟨passes, tested⟩, each⟩, rfl⟩
      refine ⟨passes, tested, _, ⟨each, rfl⟩, ?_⟩
      rw [List.filter_cons, tested]
      rfl

end Lists

def splitOf (block : Choices) : List (String × Expr) × List Expr :=
  (block.filter.elim [] conjuncts).foldl splitConjuncts ([], [])

section Read

variable {lib : Library} {ctx : Context} {row : Cells} {block : Choices} {query : ChoiceQuery}

def FilterHolds (lib : Library) (ctx : Context) (row : Cells) (block : Choices) : Prop :=
  ∀ expr ∈ block.filter, HoldsOf lib ctx row expr

def TermTaken (lib : Library) (ctx : Context) (row : Cells) (term : String × Expr) : Prop :=
  ∃ value, evaluator lib ctx term.2 = .ok value ∧ sameCell lib (cellOf row term.1) value = true

theorem filterHolds_iff : FilterHolds lib ctx row block ↔
    (∀ term ∈ (splitOf block).1, TermHolds lib ctx row term) ∧ ∀ conjunct ∈ (splitOf block).2, HoldsOf lib ctx row conjunct := by
  have split := split_iff (HoldsOf lib ctx row) (TermHolds lib ctx row) (fun _ _ selects => holdsOf_term_iff selects)
    (block.filter.elim [] conjuncts) ([], [])
  unfold splitOf
  rw [split]
  unfold FilterHolds
  cases block.filter with
  | none => simp
  | some expr => simp [holdsOf_conjuncts_iff expr]

theorem decides_true_iff {expr : Expr} : decideAt (evaluator lib) false { ctx with row := some row } expr = .ok true ↔
    HoldsOf lib ctx row expr := by
  have truth : ∀ value : Value, coerceBoolean false value = .ok true ↔ value = .bool true := by
    intro value
    cases value <;> simp [coerceBoolean]
  unfold decideAt HoldsOf
  simp only [bind_ok_iff, truth]
  exact ⟨fun found => (by obtain ⟨value, evaluated, rfl⟩ := found; exact evaluated), fun holds => ⟨_, holds, rfl⟩⟩

theorem compileChoices_parts (compiled : compileChoices block = some query) :
    query.dataset = block.dataset ∧ (∀ term, term ∈ query.selector ↔ term ∈ (splitOf block).1) ∧
      ∀ (lib : Library) (ctx : Context) (row : Cells), keeps (evaluator lib) query.residual ctx row = .ok true ↔
        ∀ conjunct ∈ (splitOf block).2, HoldsOf lib ctx row conjunct := by
  unfold compileChoices at compiled
  split at compiled
  · cases compiled
  · cases compiled
    refine ⟨rfl, fun term => (List.perm_insertionSort _ _).mem_iff, fun lib ctx row => ?_⟩
    dsimp only
    change _ ↔ ∀ conjunct ∈ ((block.filter.elim [] conjuncts).foldl splitConjuncts ([], [])).2, _
    split
    · rename_i none
      rw [none]
      simp [keeps]
    · rename_i only one
      rw [one]
      simp [keeps, decides_true_iff]
    · unfold keeps
      rw [decides_true_iff, holdsOf_and_iff]

end Read

section Options

variable {lib : Library} {tables : String → Option (List Cells)} {session : Session} {s : FormInstance}
  {scope : Option (String × String)} {block : Choices} {query : ChoiceQuery}

theorem candidateRows_ok_iff (memory : session.datasets = inMemory lib tables) {rows : List Cells} :
    candidateRows (evaluator lib) session s query scope none = .ok rows ↔
      ∃ values, selectorValues (evaluator lib) query (s.context session scope) = .ok values ∧
        rows = ((tables query.dataset).getD []).filter (matchesRow lib values) := by
  unfold candidateRows
  simp only [bind_ok_iff, memory]
  refine exists_congr fun values => and_congr_right fun _ => ?_
  unfold inMemory
  cases tables query.dataset with
  | none => exact ⟨fun same => (Except.ok.inj same).symm, fun same => by rw [same]; rfl⟩
  | some found => exact ⟨fun same => (Except.ok.inj same).symm, fun same => by rw [same]; rfl⟩

theorem selectorValues_ok_iff {ctx : Context} {values : List (String × Value)} :
    selectorValues (evaluator lib) query ctx = .ok values ↔
      List.Forall₂ (fun (term : String × Expr) (named : String × Value) =>
        named.1 = term.1 ∧ evaluator lib ctx term.2 = .ok named.2) query.selector values := by
  unfold selectorValues
  rw [mapM_ok_iff]
  refine Iff.of_eq (congrArg (fun R => List.Forall₂ R query.selector values) ?_)
  funext term named
  rw [eq_iff_iff]
  simp only [bind_ok_iff]
  constructor
  · rintro ⟨value, evaluated, same⟩
    cases same
    exact ⟨rfl, evaluated⟩
  · rintro ⟨name, evaluated⟩
    exact ⟨named.2, evaluated, congrArg Except.ok (Prod.ext name.symm rfl)⟩

theorem matchesRow_iff {ctx : Context} {values : List (String × Value)}
    (evaluated : selectorValues (evaluator lib) query ctx = .ok values) (row : Cells) :
    matchesRow lib values row = true ↔ ∀ term ∈ query.selector, TermTaken lib ctx row term := by
  have each := selectorValues_ok_iff.mp evaluated
  unfold matchesRow
  rw [List.all_eq_true]
  constructor
  · intro all term member
    obtain ⟨named, given, name, value⟩ := exists_of_forall₂_left each member
    refine ⟨named.2, value, ?_⟩
    rw [← name]
    exact all named given
  · intro all named member
    obtain ⟨term, given, name, value⟩ := exists_of_forall₂_right each member
    obtain ⟨value', evaluated', taken⟩ := all term given
    cases value.symm.trans evaluated'
    rw [name]
    exact taken

/-- Null on both sides, or a number beside a text or a boolean: where a term selects a row that the engine does not
call equal. -/
def TermApart (lib : Library) (ctx : Context) (row : Cells) (term : String × Expr) : Prop :=
  ∃ value, evaluator lib ctx term.2 = .ok value ∧
    (cellOf row term.1 = .null ∧ value = .null ∨ mixed (cellOf row term.1) value = true)

def TermMet (lib : Library) (ctx : Context) (row : Cells) (term : String × Expr) : Prop :=
  ∃ value, evaluator lib ctx term.2 = .ok value ∧
    (equal (cellOf row term.1) value = some true ∨ cellOf row term.1 = .null ∧ value = .null)

theorem TermMet.taken {ctx : Context} {row : Cells} {term : String × Expr} (met : TermMet lib ctx row term) :
    TermTaken lib ctx row term := by
  obtain ⟨value, evaluated, equals | ⟨empty, rfl⟩⟩ := met
  · exact ⟨value, evaluated, sameCell_of_equal equals⟩
  · refine ⟨.null, evaluated, ?_⟩
    rw [empty]
    rfl

theorem TermTaken.holds_or_apart {ctx : Context} {row : Cells} {term : String × Expr} (taken : TermTaken lib ctx row term) :
    TermHolds lib ctx row term ∨ TermApart lib ctx row term := by
  obtain ⟨value, evaluated, same⟩ := taken
  rcases equal_of_sameCell same with equals | none | beside
  · exact Or.inl ⟨value, evaluated, equals⟩
  · exact Or.inr ⟨value, evaluated, Or.inl none⟩
  · exact Or.inr ⟨value, evaluated, Or.inr beside⟩

/-- A list that is resolved: each term has come to a value, the residual has decided every row that they take, and
what it holds of is listed. -/
theorem choices_ok_iff (memory : session.datasets = inMemory lib tables) (compiled : compileChoices block = some query)
    {options : List Choice} :
    choices (evaluator lib) session s query scope = .ok options ↔
      ∃ values, selectorValues (evaluator lib) query (s.context session scope) = .ok values ∧
        (∀ row ∈ (tables block.dataset).getD [], matchesRow lib values row = true →
          ∃ passes, keeps (evaluator lib) query.residual (s.context session scope) row = .ok passes) ∧
        options = (((tables block.dataset).getD []).filter fun row => matchesRow lib values row &&
          (keeps (evaluator lib) query.residual (s.context session scope) row).toOption.getD false).map (choiceOf query) := by
  rw [← (compileChoices_parts compiled).1]
  unfold choices rowsAfterResidual
  simp only [bind_ok_iff, candidateRows_ok_iff memory, keepRows_ok_iff]
  constructor
  · rintro ⟨_, ⟨values, evaluated, rfl⟩, _, ⟨decided, rfl⟩, same⟩
    refine ⟨values, evaluated, fun row member taken => decided row (List.mem_filter.mpr ⟨member, taken⟩), ?_⟩
    rw [← Except.ok.inj same, List.filter_filter]
    simp only [Bool.and_comm]
  · rintro ⟨values, evaluated, decided, rfl⟩
    refine ⟨_, ⟨values, evaluated, rfl⟩, _, ⟨fun row member => ?_, rfl⟩, ?_⟩
    · obtain ⟨given, taken⟩ := List.mem_filter.mp member
      exact decided row given taken
    · rw [List.filter_filter]
      simp only [Bool.and_comm]
      rfl

theorem choices_resolve_iff (memory : session.datasets = inMemory lib tables) (compiled : compileChoices block = some query) :
    (∃ options, choices (evaluator lib) session s query scope = .ok options) ↔
      (∀ term ∈ (splitOf block).1, ∃ value, evaluator lib (s.context session scope) term.2 = .ok value) ∧
        ∀ row ∈ (tables block.dataset).getD [],
          (∀ term ∈ (splitOf block).1, TermTaken lib (s.context session scope) row term) →
            ∃ passes, keeps (evaluator lib) query.residual (s.context session scope) row = .ok passes := by
  obtain ⟨-, selector, -⟩ := compileChoices_parts compiled
  have terms : (∃ values, selectorValues (evaluator lib) query (s.context session scope) = .ok values) ↔
      ∀ term ∈ (splitOf block).1, ∃ value, evaluator lib (s.context session scope) term.2 = .ok value := by
    unfold selectorValues
    rw [exists_mapM_ok_iff]
    simp only [bind_ok_iff, selector]
    refine forall₂_congr fun term _ => ⟨?_, ?_⟩
    · rintro ⟨_, value, evaluated, -⟩
      exact ⟨value, evaluated⟩
    · rintro ⟨value, evaluated⟩
      exact ⟨_, value, evaluated, rfl⟩
  rw [← terms]
  simp only [choices_ok_iff memory compiled]
  constructor
  · rintro ⟨_, values, evaluated, decided, -⟩
    refine ⟨⟨values, evaluated⟩, fun row member taken => decided row member ?_⟩
    exact (matchesRow_iff evaluated row).mpr fun term given => taken term ((selector term).mp given)
  · rintro ⟨⟨values, evaluated⟩, decided⟩
    refine ⟨_, values, evaluated, fun row member taken => decided row member fun term given => ?_, rfl⟩
    exact (matchesRow_iff evaluated row).mp taken term ((selector term).mpr given)

/-- The options are the rows that the filter takes; a term takes a row that it does not hold of only where it
compares null with null, a number with a text or a boolean with a number. -/
theorem choices_listed (memory : session.datasets = inMemory lib tables) (compiled : compileChoices block = some query)
    {options : List Choice} (resolved : choices (evaluator lib) session s query scope = .ok options) :
    ∃ listed : Cells → Bool, options = (((tables block.dataset).getD []).filter listed).map (choiceOf query) ∧
      ∀ row ∈ (tables block.dataset).getD [],
        listed row = true ↔ (∀ term ∈ (splitOf block).1, TermTaken lib (s.context session scope) row term) ∧
          ∀ conjunct ∈ (splitOf block).2, HoldsOf lib (s.context session scope) row conjunct := by
  obtain ⟨-, selector, residual⟩ := compileChoices_parts compiled
  obtain ⟨values, evaluated, decided, rfl⟩ := (choices_ok_iff memory compiled).mp resolved
  refine ⟨_, rfl, fun row member => ?_⟩
  rw [Bool.and_eq_true, matchesRow_iff evaluated, ← residual]
  simp only [selector]
  refine and_congr_right fun taken => ?_
  have taken' : matchesRow lib values row = true :=
    (matchesRow_iff evaluated row).mpr fun term given => taken term ((selector term).mp given)
  obtain ⟨passes, decided⟩ := decided row member taken'
  rw [decided]
  simp [Except.toOption]

theorem offersRow_eq (memory : session.datasets = inMemory lib tables) (compiled : compileChoices block = some query)
    {options : List Choice} (resolved : choices (evaluator lib) session s query scope = .ok options) (value : Value) :
    offersRow (evaluator lib) session s query scope value =
      .ok (options.any fun option => sameCell lib option.value value) := by
  obtain ⟨values, evaluated, decided, rfl⟩ := (choices_ok_iff memory compiled).mp resolved
  rw [← (compileChoices_parts compiled).1] at decided ⊢
  have narrowed : session.datasets query.dataset values (some (query.valueColumn, value)) =
      (((tables query.dataset).getD []).filter (matchesRow lib values)).filter fun row =>
        sameCell lib (cellOf row query.valueColumn) value := by
    rw [memory]
    unfold inMemory
    cases tables query.dataset <;> rfl
  have each : List.Forall₂ (fun row passes => keeps (evaluator lib) query.residual (s.context session scope) row = .ok passes)
      ((((tables query.dataset).getD []).filter (matchesRow lib values)).filter fun row =>
        sameCell lib (cellOf row query.valueColumn) value)
      (((((tables query.dataset).getD []).filter (matchesRow lib values)).filter fun row =>
        sameCell lib (cellOf row query.valueColumn) value).map fun row =>
          (keeps (evaluator lib) query.residual (s.context session scope) row).toOption.getD false) := by
    rw [List.forall₂_map_right_iff, List.forall₂_same]
    intro row member
    obtain ⟨given, taken⟩ := List.mem_filter.mp (List.mem_filter.mp member).1
    obtain ⟨passes, decided⟩ := decided row given taken
    rw [decided]
    rfl
  unfold offersRow
  refine bind_ok_iff.mpr ⟨values, evaluated, ?_⟩
  rw [narrowed]
  refine bind_ok_iff.mpr ⟨_, mapM_ok_iff.mpr each, congrArg Except.ok ?_⟩
  rw [Bool.eq_iff_iff]
  simp only [List.any_eq_true, List.mem_map, List.mem_filter, Bool.and_eq_true, id]
  constructor
  · rintro ⟨passes, ⟨row, ⟨⟨given, taken⟩, same⟩, rfl⟩, passes'⟩
    exact ⟨_, ⟨row, ⟨given, taken, passes'⟩, rfl⟩, same⟩
  · rintro ⟨_, ⟨row, ⟨given, taken, passes'⟩, rfl⟩, same⟩
    exact ⟨_, ⟨row, ⟨⟨given, taken⟩, same⟩, rfl⟩, passes'⟩

/-- The list that is shown and the look-up of an answer, against the filter as a whole. -/
theorem choices_read (memory : session.datasets = inMemory lib tables) (compiled : compileChoices block = some query) :
    ((∃ options, choices (evaluator lib) session s query scope = .ok options) ↔
      (∀ term ∈ (splitOf block).1, ∃ value, evaluator lib (s.context session scope) term.2 = .ok value) ∧
        ∀ row ∈ (tables block.dataset).getD [],
          (∀ term ∈ (splitOf block).1, TermTaken lib (s.context session scope) row term) →
            ∃ passes, keeps (evaluator lib) query.residual (s.context session scope) row = .ok passes) ∧
    ∀ options, choices (evaluator lib) session s query scope = .ok options →
      (∃ listed : Cells → Bool, options = (((tables block.dataset).getD []).filter listed).map (choiceOf query) ∧
        ∀ row ∈ (tables block.dataset).getD [],
          (FilterHolds lib (s.context session scope) row block → listed row = true) ∧
          ((∀ term ∈ (splitOf block).1, TermMet lib (s.context session scope) row term) →
            (∀ conjunct ∈ (splitOf block).2, HoldsOf lib (s.context session scope) row conjunct) → listed row = true) ∧
          (listed row = true →
            (∀ term ∈ (splitOf block).1, TermHolds lib (s.context session scope) row term ∨
              TermApart lib (s.context session scope) row term) ∧
            ∀ conjunct ∈ (splitOf block).2, HoldsOf lib (s.context session scope) row conjunct)) ∧
      ∀ value, value ≠ .null → ∃ accepted, offersRow (evaluator lib) session s query scope value = .ok accepted ∧
        ((∃ option ∈ options, equal option.value value = some true) → accepted = true) ∧
        (accepted = true → ∃ option ∈ options, equal option.value value = some true ∨ mixed option.value value = true) := by
  refine ⟨choices_resolve_iff memory compiled, fun options resolved => ⟨?_, fun value given => ?_⟩⟩
  · obtain ⟨listed, same, taken⟩ := choices_listed memory compiled resolved
    refine ⟨listed, same, fun row member => ⟨fun holds => ?_, fun met rest => ?_, fun inList => ?_⟩⟩
    · obtain ⟨terms, rest⟩ := filterHolds_iff.mp holds
      refine (taken row member).mpr ⟨fun term given => ?_, rest⟩
      obtain ⟨value, evaluated, equals⟩ := terms term given
      exact ⟨value, evaluated, sameCell_of_equal equals⟩
    · exact (taken row member).mpr ⟨fun term given => (met term given).taken, rest⟩
    · obtain ⟨terms, rest⟩ := (taken row member).mp inList
      exact ⟨fun term given => (terms term given).holds_or_apart, rest⟩
  · refine ⟨_, offersRow_eq memory compiled resolved value, ?_, fun accepted => ?_⟩
    · rintro ⟨option, member, equals⟩
      exact List.any_eq_true.mpr ⟨option, member, sameCell_of_equal equals⟩
    · obtain ⟨option, member, same⟩ := List.any_eq_true.mp accepted
      refine ⟨option, member, ?_⟩
      rcases equal_of_sameCell same with equals | ⟨-, none⟩ | beside
      · exact Or.inl equals
      · exact absurd none given
      · exact Or.inr beside

end Options

section Villages

def ofDistrict : Choices where
  kind := "dataset"
  dataset := "villages"
  valueColumn := "code"
  filter := some (.op "eq" [.ref "$row.district", .ref "district"])

def ofDistrictQuery : ChoiceQuery where
  dataset := "villages"
  valueColumn := "code"
  labelColumns := []
  selector := [("district", .ref "district")]
  residual := none

def village (code : String) (district : Option String) : Cells := fun column =>
  if column = "code" then some (.text code) else if column = "district" then district.map .text else none

def villages : String → Option (List Cells) := fun dataset =>
  if dataset = "villages" then some [village "v1" (some "d1"), village "v2" none] else none

def surveyed : Session where
  today := "2026-01-01"
  now := "2026-01-01T00:00:00Z"
  datasets := inMemory noLibrary villages

def answered (district : Value) : FormInstance where
  instances := fun _ => none
  rowKeys := fun _ _ => none
  rowLabels := fun _ _ => none
  rowsResolved := []
  serial := 0
  values := fun path => if path = "district" then some district else none
  states := fun _ => none

/-- With a district the list is its village, which is accepted. -/
theorem villages_read :
    (∃ listed : Cells → Bool, [⟨.text "v1", []⟩] = ([village "v1" (some "d1"), village "v2" none].filter listed).map
      (choiceOf ofDistrictQuery)) ∧
    ∃ accepted, offersRow (evaluator noLibrary) surveyed (answered (.text "d1")) ofDistrictQuery none (.text "v1") =
      .ok accepted ∧ accepted = true := by
  have resolved : choices (evaluator noLibrary) surveyed (answered (.text "d1")) ofDistrictQuery none =
      .ok [⟨.text "v1", []⟩] := rfl
  have read := @choices_read noLibrary villages surveyed (answered (.text "d1")) none ofDistrict ofDistrictQuery rfl rfl
  obtain ⟨⟨listed, same, -⟩, looked⟩ := read.2 _ resolved
  obtain ⟨accepted, offered, takes, -⟩ := looked (.text "v1") (by simp)
  exact ⟨⟨listed, same⟩, accepted, offered, takes ⟨_, List.mem_singleton_self _, rfl⟩⟩

/-- Without one the list is the village without a district, although no row makes the filter true. -/
theorem villages_unanswered : choices (evaluator noLibrary) surveyed (answered .null) ofDistrictQuery none =
      .ok [⟨.text "v2", []⟩] ∧
    ¬ FilterHolds noLibrary ((answered .null).context surveyed none) (village "v2" none) ofDistrict := by
  refine ⟨rfl, fun holds => ?_⟩
  have compared : evaluator noLibrary { (answered .null).context surveyed none with row := some (village "v2" none) }
      (.op "eq" [.ref "$row.district", .ref "district"]) = .ok .null := rfl
  have same := compared.symm.trans (holds _ rfl)
  cases same

end Villages

end Reference

end DataCollectionLab.Form
