import DataCollectionLab.Form.RepeatRuns

/-!
When the evaluator raises no `CompileError`: the names of an expression are those of the engine and of the
form, where the expression stands.
-/

namespace DataCollectionLab.Form

open Lib

/-- No `CompileError`. -/
def Unrefused {α : Type} : Except Failure α → Prop
  | .error (.compile _) => False
  | _ => True

section Unrefused

variable {α β : Type}

theorem unrefused_bind {x : Except Failure α} {f : α → Except Failure β} (first : Unrefused x)
    (later : ∀ a, Unrefused (f a)) : Unrefused (x >>= f) := by
  cases x with
  | ok a => exact later a
  | error failure =>
    cases failure with
    | compile message => exact first
    | overflow => trivial
    | boundary => trivial
    | raised name => trivial

theorem unrefused_mapM {f : α → Except Failure β} {l : List α} (each : ∀ a ∈ l, Unrefused (f a)) :
    Unrefused (l.mapM f) := by
  induction l with
  | nil => trivial
  | cons a rest ih =>
    rw [List.mapM_cons]
    refine unrefused_bind (each a List.mem_cons_self) fun b => ?_
    exact unrefused_bind (ih fun a member => each a (List.mem_cons_of_mem _ member)) fun _ => trivial

end Unrefused

namespace Reference

section Operators

theorem toFloat_unrefused (x : Num) : Unrefused (toFloat x) := by
  unfold toFloat
  split
  · trivial
  · split <;> trivial

theorem intOfFloat_unrefused (d : Binary64) : Unrefused (intOfFloat d) := by
  cases d <;> trivial

theorem trueDiv_unrefused (x y : ℤ) : Unrefused (trueDiv x y) := by
  unfold trueDiv
  split <;> trivial

theorem floats_unrefused {α : Type} (x y : Num) (f : Binary64 → Binary64 → Except Failure α)
    (applied : ∀ a b, Unrefused (f a b)) : Unrefused (do f (← toFloat x) (← toFloat y)) :=
  unrefused_bind (toFloat_unrefused x) fun a => unrefused_bind (toFloat_unrefused y) fun b => applied a b

theorem arith_unrefused (ints : ℤ → ℤ → ℤ) (floats : Binary64 → Binary64 → Binary64) (a b : Value) :
    Unrefused (arith ints floats a b) := by
  unfold arith
  split
  · unfold checked
    split <;> trivial
  · exact floats_unrefused _ _ _ fun _ _ => trivial
  · trivial

theorem mod_unrefused (a b : Value) : Unrefused (mod a b) := by
  unfold mod
  split
  · split
    · trivial
    · split
      · trivial
      · exact floats_unrefused _ _ _ fun _ _ => trivial
  · trivial

theorem div_unrefused (a b : Value) : Unrefused (div a b) := by
  unfold div
  split
  · split
    · trivial
    · split
      · exact unrefused_bind (trueDiv_unrefused _ _) fun _ => trivial
      · exact floats_unrefused _ _ _ fun _ _ => trivial
  · trivial

theorem idiv_unrefused (a b : Value) : Unrefused (idiv a b) := by
  unfold idiv
  split
  · split
    · trivial
    · split
      · trivial
      · exact floats_unrefused _ _ _ fun _ _ => unrefused_bind (intOfFloat_unrefused _) fun _ => trivial
  · trivial

/-- The operators that `evaluate` gives two operands. -/
def Operator.IsBinary (op : Operator) : Prop := op ≠ .cond ∧ op ≠ .and ∧ op ≠ .or ∧ op ≠ .not ∧ op ≠ .neg

theorem binary_unrefused {op : Operator} (two : Operator.IsBinary op) (a b : Value) : Unrefused (binary op a b) := by
  obtain ⟨cond, and, or, not, neg⟩ := two
  cases op with
  | cond => exact absurd rfl cond
  | and => exact absurd rfl and
  | or => exact absurd rfl or
  | not => exact absurd rfl not
  | neg => exact absurd rfl neg
  | add => exact arith_unrefused _ _ a b
  | sub => exact arith_unrefused _ _ a b
  | mul => exact arith_unrefused _ _ a b
  | div => exact div_unrefused a b
  | idiv => exact idiv_unrefused a b
  | mod => exact mod_unrefused a b
  | _ => trivial

end Operators

section Functions

theorem sumAny_unrefused (total : Num) (rest : List Num) : Unrefused (sumAny total rest) := by
  induction rest generalizing total with
  | nil => trivial
  | cons x rest ih =>
    refine unrefused_bind ?_ fun next => ih next
    unfold plus
    split
    · trivial
    · exact floats_unrefused _ _ _ fun _ _ => trivial

theorem sumFloats_unrefused (total lost : Binary64) (rest : List Num) : Unrefused (sumFloats total lost rest) := by
  induction rest generalizing total lost with
  | nil => trivial
  | cons x rest ih =>
    cases x with
    | float x => exact ih _ _
    | int n =>
      unfold sumFloats
      split
      · exact ih _ _
      · refine unrefused_bind ?_ fun next => sumAny_unrefused next rest
        exact floats_unrefused _ _ _ fun _ _ => trivial

theorem sumInts_unrefused (total : ℤ) (rest : List Num) : Unrefused (sumInts total rest) := by
  induction rest generalizing total with
  | nil => trivial
  | cons x rest ih =>
    cases x with
    | float x => exact sumFloats_unrefused _ _ rest
    | int n =>
      unfold sumInts
      split
      · exact ih _
      · exact sumAny_unrefused _ rest

theorem asNumber_unrefused (a : Value) : Unrefused (asNumber a) := by
  unfold asNumber
  split
  · exact unrefused_bind (toFloat_unrefused _) fun _ => trivial
  · trivial
  · trivial
  · trivial

theorem castInt_unrefused (a : Value) : Unrefused (castInt a) := by
  refine unrefused_bind (asNumber_unrefused a) fun d => ?_
  split
  · trivial
  · exact unrefused_bind (intOfFloat_unrefused _) fun _ => trivial

theorem castDec_unrefused (a : Value) : Unrefused (castDec a) := by
  refine unrefused_bind (asNumber_unrefused a) fun d => ?_
  split <;> trivial

theorem roundHalf_unrefused (scaled : Num) : Unrefused (roundHalf scaled) := by
  refine unrefused_bind (toFloat_unrefused scaled) fun d => ?_
  split <;> exact intOfFloat_unrefused _

theorem times_unrefused (x y : Num) : Unrefused (times x y) := by
  unfold times
  split
  · trivial
  · exact floats_unrefused _ _ _ fun _ _ => trivial

theorem round_unrefused (args : List Value) : Unrefused (round args) := by
  unfold round
  split
  · trivial
  · split
    · trivial
    · dsimp only
      split
      · trivial
      · refine unrefused_bind (times_unrefused _ _) fun scaled => unrefused_bind (roundHalf_unrefused _) fun rounded => ?_
        split
        · exact unrefused_bind (trueDiv_unrefused _ _) fun _ => trivial
        · trivial

theorem sqrt_unrefused (lib : Library) (a : Value) : Unrefused (sqrt lib a) := by
  unfold sqrt
  split
  · trivial
  · split
    · trivial
    · exact unrefused_bind (toFloat_unrefused _) fun _ => trivial

theorem bounded_unrefused (f : Binary64 → Binary64) (d : Binary64) : Unrefused (bounded f d) := by
  unfold bounded
  split <;> trivial

theorem trig_unrefused {fn : Binary64 → Except Failure Binary64} (math : ∀ d, Unrefused (fn d)) (a : Value) :
    Unrefused (trig fn a) := by
  unfold trig
  split
  · trivial
  · exact unrefused_bind (toFloat_unrefused _) fun d => unrefused_bind (math d) fun _ => trivial

theorem distance_unrefused (lib : Library) (a b : Value) : Unrefused (distance lib a b) := by
  unfold distance
  split
  · refine unrefused_bind (bounded_unrefused _ _) fun _ => unrefused_bind (bounded_unrefused _ _) fun _ =>
      unrefused_bind (bounded_unrefused _ _) fun _ => unrefused_bind (bounded_unrefused _ _) fun _ => ?_
    dsimp only
    split
    · trivial
    · refine unrefused_bind ?_ fun _ => trivial
      unfold asin
      split <;> trivial
  · trivial

def Library.Own (lib : Library) : Prop := ∀ pattern subject, Unrefused (lib.search pattern subject)

variable {lib : Library} (own : Library.Own lib)

include own in
theorem regex_unrefused (a b : Value) : Unrefused (regex lib a b) := by
  unfold regex
  split
  · split
    · trivial
    · refine unrefused_bind (own _ _) fun found => ?_
      split <;> trivial
  · trivial

theorem one_unrefused {f : Value → Except Failure Value} (applied : ∀ a, Unrefused (f a)) (args : List Value) :
    Unrefused (one f args) := by
  cases args with
  | nil => trivial
  | cons a _ => exact applied a

theorem two_unrefused {f : Value → Value → Except Failure Value} (applied : ∀ a b, Unrefused (f a b))
    (args : List Value) : Unrefused (two f args) := by
  unfold two
  split
  · exact applied _ _
  · trivial

include own in
theorem table_unrefused (ctx : Context) : ∀ entry ∈ table lib ctx, ∀ args, Unrefused (entry.2.1 args) := by
  have values1 (f : Value → Value) (args : List Value) : Unrefused (one (fun a => .ok (f a)) args) :=
    one_unrefused (f := fun a => .ok (f a)) (fun _ => trivial) args
  have values2 (f : Value → Value → Value) (args : List Value) : Unrefused (two (fun a b => .ok (f a b)) args) :=
    two_unrefused (f := fun a b => .ok (f a b)) (fun _ _ => trivial) args
  have sum (args : List Value) : Unrefused (one sum args) :=
    one_unrefused (f := Reference.sum)
      (fun a => unrefused_bind (sumInts_unrefused 0 (numbers a)) fun _ => trivial) args
  have always (f : List Value → Value) (args : List Value) : Unrefused (.ok (f args)) := trivial
  unfold table
  simp only [List.forall_mem_cons]
  refine ⟨values1 _, sum, values1 _, values1 _, values1 _, always _, always fun _ => _, always fun _ => _,
    always _, values2 _, values2 _, values1 _, values1 _, values1 _, values1 _, always _, always _, values2 _,
    values2 _, values2 _, two_unrefused (regex_unrefused own), round_unrefused, one_unrefused castInt_unrefused,
    one_unrefused castDec_unrefused, values1 _, two_unrefused (distance_unrefused lib), ?_,
    one_unrefused (sqrt_unrefused lib), one_unrefused (trig_unrefused (bounded_unrefused _)),
    one_unrefused (trig_unrefused (bounded_unrefused _)), one_unrefused (trig_unrefused (bounded_unrefused _)),
    one_unrefused (trig_unrefused fun _ => trivial), values1 _, values1 _, List.forall_mem_nil _⟩
  -- `pulldata` is looked up, and too few arguments are an index error.
  intro args
  split <;> trivial

end Functions

section Evaluate

variable {functions : Context → String → Except Failure (List Value → Except Failure Value)}
  {resolve : Context → String → Except Failure Value} {ctx : Context} {args : List Expr}
  (each : ∀ arg ∈ args, Unrefused (evaluate functions resolve ctx arg))

include each

theorem evaluateAll_unrefused : Unrefused (evaluateAll functions resolve ctx args) := by
  induction args with
  | nil => trivial
  | cons arg rest ih =>
    rw [evaluateAll]
    refine unrefused_bind (each arg List.mem_cons_self) fun _ => ?_
    exact unrefused_bind (ih fun arg member => each arg (List.mem_cons_of_mem _ member)) fun _ => trivial

omit each in
theorem evaluateAll_length {values : List Value} (evaluated : evaluateAll functions resolve ctx args = .ok values) :
    values.length = args.length := by
  induction args generalizing values with
  | nil =>
    obtain rfl := Except.ok.inj evaluated
    rfl
  | cons arg rest ih =>
    rw [evaluateAll] at evaluated
    obtain ⟨value, -, evaluated⟩ := bind_ok_iff.mp evaluated
    obtain ⟨others, later, evaluated⟩ := bind_ok_iff.mp evaluated
    obtain rfl := Except.ok.inj evaluated
    rw [List.length_cons, List.length_cons, ih later]

theorem evaluateFirst_unrefused : Unrefused (evaluateFirst functions resolve ctx args) := by
  cases args with
  | nil => trivial
  | cons arg _ => exact each arg List.mem_cons_self

theorem evaluatePair_unrefused : Unrefused (evaluatePair functions resolve ctx args) := by
  match args with
  | [] => trivial
  | [arg] => exact unrefused_bind (each arg List.mem_cons_self) fun _ => trivial
  | a :: b :: _ =>
    refine unrefused_bind (each a List.mem_cons_self) fun _ => ?_
    exact unrefused_bind (each b (List.mem_cons_of_mem _ List.mem_cons_self)) fun _ => trivial

theorem evaluateIf_unrefused : Unrefused (evaluateIf functions resolve ctx args) := by
  match args with
  | [] => trivial
  | [cond] =>
    refine unrefused_bind (each cond List.mem_cons_self) fun value => ?_
    split <;> trivial
  | [cond, yes] =>
    refine unrefused_bind (each cond List.mem_cons_self) fun value => ?_
    split
    · trivial
    · exact each yes (by simp)
    · trivial
  | cond :: yes :: no :: _ =>
    refine unrefused_bind (each cond List.mem_cons_self) fun value => ?_
    split
    · trivial
    · exact each yes (by simp)
    · exact each no (by simp)

end Evaluate

end Reference

section Names

/-- Where an expression stands: in which repeat, and whether it is asked of a row. -/
structure Place where
  within : Option String
  row : Bool := false

variable (form : CompiledForm) (place : Place)

def Named (path : String) : Prop :=
  match rowPath path with
  | some _ => place.row = true
  | none =>
    if metadataPrefix.isPrefixOf path.toList then True
    else
      match cutAt "[].".toList path.toList with
      | some _ => True
      | none =>
        match cutAt "[".toList path.toList, cutAt "].".toList path.toList with
        | some (rid, rest), some _ =>
          match cutAt "].".toList rest with
          | none => True
          | some (index, _) => index = ['.'] → place.within = some (String.ofList rid)
        | _, _ => ∃ cf ∈ form.fields, cf.fieldId = path ∧ (cf.repeatId = none ∨ cf.repeatId = place.within)

def Callable (fn : String) (count : ℕ) : Prop :=
  ∀ lib ctx, ∃ impl least most,
    (Reference.table lib ctx).lookup fn = some (impl, least, most) ∧ least ≤ count ∧ count ≤ most

inductive Resolvable : Expr → Prop
  | lit (value : FormValue) : Resolvable (.lit value)
  | ref {path : String} (named : Named form place path) : Resolvable (.ref path)
  | op {name : String} {args : List Expr} (known : (Operator.named name).isSome)
      (each : ∀ arg ∈ args, Resolvable arg) : Resolvable (.op name args)
  | call {fn : String} {args : List Expr} (callable : Callable fn args.length)
      (each : ∀ arg ∈ args, Resolvable arg) : Resolvable (.call fn args)

structure Serves (ctx : Context) : Prop where
  row : place.row = true → ctx.row.isSome
  within : ctx.scope.map Prod.fst = place.within
  top : ∀ cf ∈ form.fields, cf.repeatId = none → (ctx.values cf.fieldId).isSome
  cells : ∀ rid iid, ctx.scope = some (rid, iid) → ∀ cf ∈ form.fields, cf.repeatId = some rid →
    (ctx.values (instancePath rid iid cf.fieldId)).isSome

variable {form place} {ctx : Context} (serves : Serves form place ctx)

include serves

theorem resolveBare_unrefused {path : String} (named : ∃ cf ∈ form.fields, cf.fieldId = path ∧
    (cf.repeatId = none ∨ cf.repeatId = place.within)) : Unrefused (Reference.resolveBare ctx path) := by
  obtain ⟨cf, member, rfl, stands⟩ := named
  unfold Reference.resolveBare
  split
  · trivial
  · rename_i missing
    split
    · trivial
    · rename_i absent
      -- Neither the row nor the form has it.
      rcases stands with outside | inside
      · have has := serves.top cf member outside
        rw [absent] at has
        cases has
      · rw [← serves.within] at inside
        cases standing : ctx.scope with
        | none =>
          rw [standing] at inside
          have has := serves.top cf member inside
          rw [absent] at has
          cases has
        | some scope =>
          rw [standing] at inside missing
          have has := serves.cells scope.1 scope.2 standing cf member inside
          rw [show ctx.values (instancePath scope.1 scope.2 cf.fieldId) = none from missing] at has
          cases has

theorem resolve_unrefused {path : String} (named : Named form place path) :
    Unrefused (Reference.resolve ctx path) := by
  unfold Named at named
  split at named
  · rename_i column isRow
    unfold Reference.resolve
    simp only [isRow]
    cases at_hand : ctx.row with
    | some row => trivial
    | none =>
      have has := serves.row named
      rw [at_hand] at has
      cases has
  · rename_i noRow
    unfold Reference.resolve
    simp only [noRow]
    by_cases metadata : metadataPrefix.isPrefixOf path.toList = true
    · rw [if_pos metadata]
      trivial
    · rw [if_neg metadata] at named ⊢
      split
      · trivial
      · rename_i single
        simp only [single] at named
        split
        · rename_i rid rest whole cut
          simp only [whole, cut] at named
          split
          · trivial
          · rename_i index suffix inner
            simp only [inner] at named
            unfold Reference.resolveIndexed
            split
            · rename_i here
              have inside := named here
              rw [← serves.within] at inside
              split
              · rename_i repeatId iid standing
                rw [standing] at inside
                rw [if_pos (Option.some.inj inside)]
                trivial
              · rename_i outside
                rw [outside] at inside
                cases inside
            · split
              · trivial
              · dsimp only
                split
                · trivial
                · split <;> trivial
        · rename_i bare
          apply resolveBare_unrefused serves
          split at named
          · rename_i whole cut
            exact absurd cut (bare _ _ _ whole)
          · exact named

variable {lib : Library} (own : Reference.Library.Own lib)

include own

theorem evaluate_unrefused {expr : Expr} (resolvable : Resolvable form place expr) :
    Unrefused (Reference.evaluate (Reference.call lib) Reference.resolve ctx expr) := by
  induction resolvable with
  | lit value => trivial
  | ref named =>
    rw [Reference.evaluate]
    exact resolve_unrefused serves named
  | @op name args known each ih =>
    rw [Reference.evaluate]
    split
    · rename_i unknown
      rw [unknown] at known
      cases known
    · exact Reference.evaluateIf_unrefused ih
    · exact unrefused_bind (Reference.evaluateAll_unrefused ih) fun _ => trivial
    · exact unrefused_bind (Reference.evaluateAll_unrefused ih) fun _ => trivial
    · exact unrefused_bind (Reference.evaluateFirst_unrefused ih) fun _ => trivial
    · exact unrefused_bind (Reference.evaluateFirst_unrefused ih) fun _ => trivial
    · rename_i op cond and or not neg named
      refine unrefused_bind (Reference.evaluatePair_unrefused ih) fun operands => ?_
      exact Reference.binary_unrefused ⟨cond, and, or, not, neg⟩ _ _
  | @call fn args callable each ih =>
    obtain ⟨impl, least, most, entry, arity⟩ := callable lib ctx
    obtain ⟨before, later, same, -⟩ := List.lookup_eq_some_iff.mp entry
    have listed : (fn, impl, least, most) ∈ Reference.table lib ctx := by
      rw [same]
      exact List.mem_append_right _ List.mem_cons_self
    have applied : Reference.evaluate (Reference.call lib) Reference.resolve ctx (.call fn args) =
        Reference.evaluateAll (Reference.call lib) Reference.resolve ctx args >>= fun values =>
          if least ≤ values.length ∧ values.length ≤ most then impl values
          else .error (.compile ("function " ++ fn ++ " expects " ++ toString least ++ ".." ++ toString most ++
            " args, got " ++ toString values.length)) := by
      rw [Reference.evaluate]
      unfold Reference.call
      rw [entry]
      rfl
    rw [applied]
    have evaluated := Reference.evaluateAll_unrefused ih
    cases outcome : Reference.evaluateAll (Reference.call lib) Reference.resolve ctx args with
    | error failure =>
      rw [outcome] at evaluated
      cases failure <;> exact evaluated
    | ok values =>
      have count := Reference.evaluateAll_length outcome
      show Unrefused (if least ≤ values.length ∧ values.length ≤ most then impl values else _)
      rw [count, if_pos arity]
      exact Reference.table_unrefused own ctx _ listed values

end Names

section Forms

variable (form : CompiledForm)

def ChainResolvable (place : Place) (chain : List String) : Prop :=
  ∀ cid ∈ chain, ∀ expr, (form.container? cid).bind Container.relevant = some expr → Resolvable form place expr

structure FieldResolvable (cf : CompiledField) : Prop where
  chain : ChainResolvable form { within := cf.repeatId } cf.ancestors
  relevant : ∀ expr, cf.node.relevant = some expr → Resolvable form { within := cf.repeatId } expr
  calculate : ∀ expr, cf.node.calculate = some expr → Resolvable form { within := cf.repeatId } expr
  constraint : ∀ expr, cf.node.constraint = some expr → Resolvable form { within := cf.repeatId } expr
  required : ∀ expr, cf.node.required = some (.expr expr) → Resolvable form { within := cf.repeatId } expr
  readOnly : ∀ expr, cf.node.readOnly = some (.expr expr) → Resolvable form { within := cf.repeatId } expr
  rows : ∀ query, cf.rowsQuery = some query → ∀ expr, query.filter = some expr →
    Resolvable form { within := cf.repeatId, row := true } expr
  selector : ∀ query, cf.choiceQuery = some query → ∀ term ∈ query.selector,
    Resolvable form { within := cf.repeatId } term.2
  residual : ∀ query, cf.choiceQuery = some query → ∀ expr, query.residual = some expr →
    Resolvable form { within := cf.repeatId, row := true } expr

/-- Every expression that a pass evaluates has its names where it is evaluated: those of a field in its
repeat, a count and the relevance of a repeat with a source outside every one. -/
structure Resolves : Prop where
  fields : ∀ cf ∈ form.fields, FieldResolvable form cf
  counts : ∀ node ∈ form.repeats, ∀ expr, node.countExpr = some expr → Resolvable form { within := none } expr
  sources : ∀ node ∈ form.repeats, node.rowSource.isSome → ∀ container, form.container? node.id = some container →
    ChainResolvable form { within := none } (container.ancestors ++ [node.id])

variable {form} {s : FormInstance} (well : WellFormed form s) (session : Session)

include well

theorem serves_top : Serves form { within := none } (s.context session none) where
  row := nofun
  within := rfl
  top cf member outside := (well.values _).mpr (Or.inl ⟨cf, member, outside, rfl⟩)
  cells := nofun

theorem serves_row {rid iid : String} (within : iid ∈ s.rows rid) :
    Serves form { within := some rid } (s.context session (some (rid, iid))) where
  row := nofun
  within := rfl
  top cf member outside := (well.values _).mpr (Or.inl ⟨cf, member, outside, rfl⟩)
  cells := by
    rintro rid iid ⟨⟩ cf member inside
    exact (well.values _).mpr (Or.inr ⟨cf, member, rid, inside, iid, within, rfl⟩)

omit well

theorem Serves.asked {place : Place} {ctx : Context} (serves : Serves form place ctx) (row : String → Option Value) :
    Serves form { place with row := true } { ctx with row := some row } :=
  ⟨fun _ => rfl, serves.within, serves.top, serves.cells⟩

variable {lib : Library} (own : Reference.Library.Own lib) {place : Place} {ctx : Context}
  (serves : Serves form place ctx)

include own serves

theorem decideAt_unrefused {expr : Expr} (resolvable : Resolvable form place expr) (nullIs : Bool) :
    Unrefused (decideAt (Reference.evaluate (Reference.call lib) Reference.resolve) nullIs ctx expr) := by
  refine unrefused_bind (evaluate_unrefused serves own resolvable) fun value => ?_
  unfold Reference.coerceBoolean
  split <;> trivial

theorem chainRelevant_unrefused {chain : List String} (resolvable : ChainResolvable form place chain) :
    Unrefused (chainRelevant (Reference.evaluate (Reference.call lib) Reference.resolve) form ctx chain) := by
  induction chain with
  | nil => trivial
  | cons cid rest ih =>
    have later := ih fun cid member => resolvable cid (List.mem_cons_of_mem _ member)
    unfold chainRelevant
    split
    · exact later
    · rename_i expr given
      refine unrefused_bind (decideAt_unrefused own serves (resolvable cid List.mem_cons_self expr given) true) ?_
      intro relevant
      split
      · exact later
      · trivial

theorem flagOf_unrefused {flag : Option Flag} (resolvable : ∀ expr, flag = some (.expr expr) → Resolvable form place expr) :
    Unrefused (flagOf (Reference.evaluate (Reference.call lib) Reference.resolve) ctx flag) := by
  unfold flagOf
  split
  · trivial
  · trivial
  · exact decideAt_unrefused own serves (resolvable _ rfl) false

theorem keeps_unrefused {filter : Option Expr} (resolvable : ∀ expr, filter = some expr →
    Resolvable form { place with row := true } expr) (row : String → Option Value) :
    Unrefused (keeps (Reference.evaluate (Reference.call lib) Reference.resolve) filter ctx row) := by
  unfold keeps
  split
  · trivial
  · exact decideAt_unrefused own (serves.asked row) (resolvable _ rfl) false

omit own serves

theorem allows_of_unrefused {α : Type} {x : Except Failure α} (unrefused : Unrefused x) :
    Allows (fun e _ => ∀ message, e ≠ .compile message) s x := by
  rintro e rfl message rfl
  exact unrefused

include own

theorem fieldAllowed_of_resolvable {cf : CompiledField} (resolvable : FieldResolvable form cf)
    {scope : Option (String × String)} {P : FormInstance → Prop}
    (serves : ∀ s, P s → Serves form { within := cf.repeatId } (s.context session scope)) :
    FieldAllowed (Reference.evaluate (Reference.call lib) Reference.resolve) form session cf scope P
      fun e _ => ∀ message, e ≠ .compile message := by
  refine ⟨fun s e _ other => other, fun s holds => allows_of_unrefused ?_, fun s expr holds given => allows_of_unrefused ?_,
    fun s holds => allows_of_unrefused ?_, fun s holds => allows_of_unrefused ?_, fun s value holds => allows_of_unrefused ?_,
    fun s expr holds given => allows_of_unrefused ?_⟩
  · refine unrefused_bind (chainRelevant_unrefused own (serves s holds) resolvable.chain) fun relevant => ?_
    split
    · split
      · trivial
      · rename_i expr given
        exact decideAt_unrefused own (serves s holds) (resolvable.relevant expr given) true
    · trivial
  · exact evaluate_unrefused (serves s holds) own (resolvable.calculate expr given)
  · exact flagOf_unrefused own (serves s holds) resolvable.required
  · exact flagOf_unrefused own (serves s holds) resolvable.readOnly
  · have every {offers : Value → Except Failure Bool} (unrefused : ∀ one, Unrefused (offers one)) (answers : List Value) :
        Unrefused (someOutside offers answers) :=
      unrefused_bind (unrefused_mapM fun one _ => unrefused one) fun _ => trivial
    unfold Reference.outsideChoices
    split
    · rename_i query given
      apply every
      intro one
      split
      · unfold offersInstance
        split
        · trivial
        · split
          · trivial
          · exact keeps_unrefused own (serves s holds) (resolvable.rows query given) _
      · trivial
    · rename_i query _ given
      apply every
      intro one
      refine unrefused_bind (unrefused_mapM fun term member => ?_) fun selector => ?_
      · exact unrefused_bind (evaluate_unrefused (serves s holds) own
          (resolvable.selector query given term member)) fun _ => trivial
      · exact unrefused_bind (unrefused_mapM fun row _ =>
          keeps_unrefused own (serves s holds) (resolvable.residual query given) row) fun _ => trivial
    · apply every
      intro one
      unfold Reference.permits
      split <;> trivial
    · trivial
  · exact decideAt_unrefused own (serves s holds) (resolvable.constraint expr given) true

theorem passAllowed_of_resolves (resolves : Resolves form) :
    PassAllowed form (Reference.evaluate (Reference.call lib) Reference.resolve) session (WellFormed form)
      fun e _ => ∀ message, e ≠ .compile message := by
  refine ⟨fun s e _ other => other, fun s node member sourced well => allows_of_unrefused ?_,
    fun s node member expr given well => allows_of_unrefused ?_, fun cf member outside => ?_,
    fun cf member rid iid inside => ?_⟩
  · unfold containerRelevant
    split
    · trivial
    · rename_i container found
      exact chainRelevant_unrefused own (serves_top well session) (resolves.sources node member sourced container found)
  · refine unrefused_bind (evaluate_unrefused (serves_top well session) own (resolves.counts node member expr given))
      fun value => ?_
    unfold Reference.wanted
    split
    · trivial
    · trivial
    · trivial
    · exact unrefused_bind (Reference.intOfFloat_unrefused _) fun _ => trivial
    · split <;> trivial
    · trivial
    · trivial
    · trivial
    · trivial
  · refine fieldAllowed_of_resolvable session own (resolves.fields cf member) fun s well => ?_
    rw [outside]
    exact serves_top well session
  · refine fieldAllowed_of_resolvable session own (resolves.fields cf member) fun s holds => ?_
    rw [inside]
    exact serves_row holds.1 session holds.2

end Forms

end DataCollectionLab.Form
