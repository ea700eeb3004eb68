import DataCollectionLab.Form.Raising
import DataCollectionLab.Lib.Lists
import DataCollectionLab.Quality.Reading
import Mathlib.Data.List.ReduceOption

/-!
What it takes for a stored rule to be evaluated. A definition is accepted after one evaluation with every reference null;
with answers the evaluation takes other branches, and computes with other values. It raises exactly where it comes upon a
node that breaks, and the nodes it comes upon are those that the values of others lead to.
-/

namespace DataCollectionLab.Quality

open Form (Value Failure Operator Library Context)
open Form.Reference (Raises OpRaises CallRaises binary resolve table call boolean raises_bind raises_raised raises_compile)

section Shapes

/-- What a node asks for, as far as it can be told before anything in it is evaluated. -/
inductive Shape where
  | literal
  | reference (path : String)
  /-- `if`: the condition and the branches. -/
  | choice (parts : List Json)
  | operator (op : Operator) (operands : List Json)
  | call (fn : String) (args : List Json)

/-- The nodes of `args`, walked. -/
def walked : Json → Option (List Json)
  | .arr items => some items
  | .str text => some (text.toList.map fun c => .str (String.singleton c))
  | .obj fields => some (fields.map fun field => .str field.1)
  | .null | .bool _ | .int _ | .float _ => none

/-- The nodes of `args`, asked for by their index. -/
def indexed : Json → Option (List Json)
  | .obj _ => none
  | args => walked args

def asked (op : Operator) (args : Json) : Option Shape :=
  match op with
  | .cond => (indexed args).map .choice
  | .and | .or => (walked args).map (.operator op)
  | .not | .neg => (indexed args).map fun nodes => .operator op (nodes.take 1)
  | op => (indexed args).map fun nodes => .operator op (nodes.take 2)

def shapeOf (fields : List (String × Json)) : Option Shape :=
  match fields.lookup "op" with
  | some (.str "lit") => (fields.lookup "value").map fun _ => .literal
  | some (.str "ref") =>
    match fields.lookup "path" with
    | some (.str path) => some (.reference path)
    | _ => none
  | some (.str "call") =>
    match fields.lookup "fn" with
    | some (.str fn) => (walked ((fields.lookup "args").getD (.arr []))).map (.call fn)
    | _ => none
  | some (.str name) => (Operator.named name).bind fun op => (fields.lookup "args").bind (asked op)
  | _ => none

def shape : Json → Option Shape
  | .obj fields => shapeOf fields
  | _ => none

def Shape.nodes : Shape → List Json
  | .literal | .reference _ => []
  | .choice parts | .operator _ parts | .call _ parts => parts

end Shapes

section Evaluation

variable {lib : Library} {python : Python} {ctx : Context}

theorem evaluateAll_eq (items : List Json) : evaluateAll lib python ctx items = items.map (evaluate lib python ctx) := by
  induction items with
  | nil => rw [evaluateAll, List.map_nil]
  | cons item rest ih => rw [evaluateAll, List.map_cons, ih]

theorem argsUnder_eq (fields : List (String × Json)) :
    argsUnder lib python ctx fields = (fields.lookup "args").map (argsOf lib python ctx) := by
  induction fields with
  | nil => rfl
  | cons field rest ih =>
    obtain ⟨key, value⟩ := field
    rw [argsUnder, List.lookup_cons]
    by_cases same : key = "args"
    · subst same
      simp
    · have other : ("args" == key) = false := beq_false_of_ne fun h => same h.symm
      rw [if_neg same, other]
      exact ih

theorem argsOf_indexed {args : Json} {nodes : List Json} (are : indexed args = some nodes) :
    argsOf lib python ctx args = .ok ⟨nodes.map (evaluate lib python ctx), true⟩ := by
  cases args with
  | arr items =>
    obtain rfl := Option.some.inj are
    rw [argsOf, evaluateAll_eq]
  | str text =>
    obtain rfl := Option.some.inj are
    rw [argsOf, List.map_map]
    rfl
  | _ => cases are

theorem argsOf_walked {args : Json} {nodes : List Json} (are : walked args = some nodes) :
    ∃ number, argsOf lib python ctx args = .ok ⟨nodes.map (evaluate lib python ctx), number⟩ := by
  cases args with
  | obj fields =>
    obtain rfl := Option.some.inj are
    refine ⟨false, ?_⟩
    rw [argsOf, List.map_map]
    rfl
  | arr items => exact ⟨true, argsOf_indexed are⟩
  | str text => exact ⟨true, argsOf_indexed are⟩
  | _ => cases are

theorem argsOf_unwalked {args : Json} (none_ : walked args = none) :
    argsOf lib python ctx args = .error (.raised "TypeError") := by
  cases args with
  | arr items => cases none_
  | str text => cases none_
  | obj fields => cases none_
  | _ => rw [argsOf]

theorem argsOf_unindexed {args : Json} (none_ : indexed args = none) :
    argsOf lib python ctx args = .error (.raised "TypeError") ∨
      ∃ items, argsOf lib python ctx args = .ok ⟨items, false⟩ := by
  cases args with
  | obj fields => exact Or.inr ⟨_, by rw [argsOf]⟩
  | arr items => cases none_
  | str text => cases none_
  | _ => exact Or.inl (argsOf_unwalked rfl)

theorem all_eq (nodes : List Json) (number : Bool) :
    Args.all ⟨nodes.map (evaluate lib python ctx), number⟩ = nodes.mapM (evaluate lib python ctx) := by
  rw [Args.all, List.mapM_map]
  rfl

theorem evaluate_obj (fields : List (String × Json)) :
    evaluate lib python ctx (.obj fields) =
      evaluateNode lib python ctx fields ((fields.lookup "args").map (argsOf lib python ctx)) := by
  rw [evaluate, argsUnder_eq]

theorem evaluateNode_named {fields : List (String × Json)} {name : String} {args : Option (Except Failure Args)}
    (is : fields.lookup "op" = some (.str name)) (other : name ∉ ["lit", "ref", "call"]) :
    evaluateNode lib python ctx fields args =
      (Operator.named name).elim (.error (.compile ("unknown operator: " ++ name)))
        fun op => (args.getD (.error (.raised "KeyError"))) >>= operate op := by
  simp only [List.mem_cons, List.not_mem_nil, or_false, not_or] at other
  unfold evaluateNode
  rw [is]
  split
  · rename_i h
    cases h
  · rename_i h
    exact absurd (Json.str.inj (Option.some.inj h)) other.1
  · rename_i h
    exact absurd (Json.str.inj (Option.some.inj h)) other.2.1
  · rename_i h
    exact absurd (Json.str.inj (Option.some.inj h)) other.2.2
  · rename_i name' _ _ _ h
    obtain rfl : name = name' := Json.str.inj (Option.some.inj h)
    cases Operator.named name <;> rfl
  · rename_i h
    cases h
  · rename_i h
    cases h
  · rename_i texts _ _ h
    exact (texts name (Option.some.inj h).symm).elim

theorem shapeOf_named {fields : List (String × Json)} {name : String} (is : fields.lookup "op" = some (.str name))
    (other : name ∉ ["lit", "ref", "call"]) :
    shapeOf fields = (Operator.named name).bind fun op => (fields.lookup "args").bind (asked op) := by
  simp only [List.mem_cons, List.not_mem_nil, or_false, not_or] at other
  unfold shapeOf
  rw [is]
  split
  · rename_i h
    exact absurd (Json.str.inj (Option.some.inj h)) other.1
  · rename_i h
    exact absurd (Json.str.inj (Option.some.inj h)) other.2.1
  · rename_i h
    exact absurd (Json.str.inj (Option.some.inj h)) other.2.2
  · rename_i h
    rw [← Json.str.inj (Option.some.inj h)]
  · rename_i texts
    exact (texts name rfl).elim

variable (lib python ctx) in
def Follows (outcome : Except Failure Value) : Option Shape → Prop
  | none => Raises outcome
  | some .literal => ¬Raises outcome
  | some (.reference path) => outcome = resolve ctx path
  | some (.choice parts) => outcome = operate .cond ⟨parts.map (evaluate lib python ctx), true⟩
  | some (.operator op operands) =>
    op ≠ .cond ∧ outcome = operands.mapM (evaluate lib python ctx) >>= Form.Reference.operate op
  | some (.call fn args) => outcome = call lib ctx fn >>= fun impl => args.mapM (evaluate lib python ctx) >>= impl

theorem operate_one {op : Operator} {apply : Value → Value} (is : ∀ args, operate op args = do return apply (← args.at 0))
    (few : Form.Reference.operate op [] = .error (.raised "IndexError"))
    (applied : ∀ a, Form.Reference.operate op [a] = .ok (apply a)) (nodes : List Json) :
    operate op ⟨nodes.map (evaluate lib python ctx), true⟩ =
      (nodes.take 1).mapM (evaluate lib python ctx) >>= Form.Reference.operate op := by
  rw [is]
  cases nodes with
  | nil => exact few.symm
  | cons node rest =>
    rw [List.take_succ_cons, List.take_zero, List.mapM_cons, List.mapM_nil]
    show (do return apply (← evaluate lib python ctx node)) = _
    cases evaluate lib python ctx node with
    | error failure => rfl
    | ok a => exact (applied a).symm

theorem operate_two {op : Operator} (is : ∀ args, operate op args = do binary op (← args.at 0) (← args.at 1))
    (few : Form.Reference.operate op [] = .error (.raised "IndexError"))
    (lone : ∀ a, Form.Reference.operate op [a] = .error (.raised "IndexError"))
    (applied : ∀ a b, Form.Reference.operate op [a, b] = binary op a b) (nodes : List Json) :
    operate op ⟨nodes.map (evaluate lib python ctx), true⟩ =
      (nodes.take 2).mapM (evaluate lib python ctx) >>= Form.Reference.operate op := by
  rw [is]
  match nodes with
  | [] => exact few.symm
  | [node] =>
    rw [List.take_succ_cons, List.take_nil, List.mapM_cons, List.mapM_nil]
    show (do binary op (← evaluate lib python ctx node) (← .error (.raised "IndexError"))) = _
    cases evaluate lib python ctx node with
    | error failure => rfl
    | ok a => exact (lone a).symm
  | node :: node' :: rest =>
    rw [List.take_succ_cons, List.take_succ_cons, List.take_zero, List.mapM_cons, List.mapM_cons, List.mapM_nil]
    show (do binary op (← evaluate lib python ctx node) (← evaluate lib python ctx node')) = _
    cases evaluate lib python ctx node with
    | error failure => rfl
    | ok a =>
      cases evaluate lib python ctx node' with
      | error failure => rfl
      | ok b => exact (applied a b).symm

theorem follows_indexed {op : Operator} {args : Json} {make : List Json → Shape}
    (keyed : ∀ items, Raises (operate op ⟨items, false⟩))
    (made : ∀ nodes, Follows lib python ctx (operate op ⟨nodes.map (evaluate lib python ctx), true⟩) (some (make nodes))) :
    Follows lib python ctx (argsOf lib python ctx args >>= operate op) ((indexed args).map make) := by
  cases are : indexed args with
  | none =>
    rcases argsOf_unindexed are with raised | ⟨items, given⟩
    · rw [raised]
      exact @raises_raised Value _
    · rw [given]
      exact keyed items
  | some nodes =>
    rw [argsOf_indexed are]
    exact made nodes

theorem follows_walked {op : Operator} {args : Json} (other : op ≠ .cond)
    (made : ∀ args, operate op args = args.all >>= Form.Reference.operate op) :
    Follows lib python ctx (argsOf lib python ctx args >>= operate op) ((walked args).map (.operator op)) := by
  cases are : walked args with
  | none =>
    rw [argsOf_unwalked are]
    exact @raises_raised Value _
  | some nodes =>
    obtain ⟨number, given⟩ := @argsOf_walked lib python ctx _ _ are
    rw [given]
    refine ⟨other, ?_⟩
    rw [← all_eq nodes number]
    exact made _

theorem follows_operator (op : Operator) (args : Json) :
    Follows lib python ctx (argsOf lib python ctx args >>= operate op) (asked op args) := by
  have keyed : Raises (.error (.raised "KeyError") : Except Failure Value) := raises_raised _
  cases op with
  | cond => exact follows_indexed (fun _ => keyed) fun nodes => rfl
  | and => exact follows_walked (by decide) fun args => rfl
  | or => exact follows_walked (by decide) fun args => rfl
  | not => exact follows_indexed (fun _ => keyed) fun nodes => ⟨by decide, operate_one (fun _ => rfl) rfl (fun _ => rfl) nodes⟩
  | neg => exact follows_indexed (fun _ => keyed) fun nodes => ⟨by decide, operate_one (fun _ => rfl) rfl (fun _ => rfl) nodes⟩
  | _ =>
    exact follows_indexed (fun _ => keyed) fun nodes =>
      ⟨by decide, operate_two (fun _ => rfl) rfl (fun _ => rfl) (fun _ _ => rfl) nodes⟩

theorem call_none {fn : String} (none_ : (Form.Reference.table lib ctx).lookup fn = none) :
    call lib ctx fn = .error (.compile ("unknown function: " ++ fn)) := by
  unfold call
  rw [none_]

theorem call_unwalked (fn : String) :
    Raises (call lib ctx fn >>= fun _ => (.error (.raised "TypeError") : Except Failure Value)) := by
  cases found : (Form.Reference.table lib ctx).lookup fn with
  | none =>
    rw [call_none found]
    exact @raises_compile Value _
  | some entry =>
    unfold call
    rw [found]
    exact @raises_raised Value _

theorem follows_call (fn : String) (args : Option Json) :
    Follows lib python ctx
      (do
        let impl ← call lib ctx fn
        let args ← (args.map (argsOf lib python ctx)).getD (.ok ⟨[], true⟩)
        impl (← args.all))
      ((walked (args.getD (.arr []))).map (.call fn)) := by
  cases args with
  | none => rfl
  | some args =>
    rw [Option.map_some, Option.getD_some, Option.getD_some]
    cases are : walked args with
    | none =>
      rw [argsOf_unwalked are]
      exact call_unwalked fn
    | some nodes =>
      obtain ⟨number, given⟩ := @argsOf_walked lib python ctx _ _ are
      rw [given]
      show (do
        let impl ← call lib ctx fn
        impl (← Args.all ⟨nodes.map (evaluate lib python ctx), number⟩)) = _
      rw [all_eq]

theorem follows_shape (node : Json) : Follows lib python ctx (evaluate lib python ctx node) (shape node) := by
  cases node with
  | obj fields =>
    rw [evaluate_obj, shape]
    cases op : fields.lookup "op" with
    | none =>
      unfold evaluateNode shapeOf
      rw [op]
      exact @raises_compile Value _
    | some value =>
      cases value with
      | str name =>
        by_cases own : name ∈ ["lit", "ref", "call"]
        · simp only [List.mem_cons, List.not_mem_nil, or_false] at own
          unfold evaluateNode shapeOf
          rw [op]
          rcases own with rfl | rfl | rfl
          · cases fields.lookup "value" with
            | none => exact @raises_raised Value _
            | some value => exact id
          · cases fields.lookup "path" with
            | none => exact @raises_raised Value _
            | some path =>
              cases path with
              | str path => exact rfl
              | _ => exact @raises_raised Value _
          · cases fields.lookup "fn" with
            | none => exact @raises_raised Value _
            | some fn =>
              cases fn with
              | str fn => exact follows_call fn _
              | arr items => exact @raises_raised Value _
              | obj fields => exact @raises_raised Value _
              | _ => exact @raises_compile Value _
        · rw [shapeOf_named op own, evaluateNode_named op own]
          cases Operator.named name with
          | none => exact @raises_compile Value _
          | some operator =>
            cases fields.lookup "args" with
            | none => exact @raises_raised Value _
            | some args => exact follows_operator operator args
      | arr items =>
        unfold evaluateNode shapeOf
        rw [op]
        exact @raises_raised Value _
      | obj fields =>
        unfold evaluateNode shapeOf
        rw [op]
        exact @raises_raised Value _
      | _ =>
        unfold evaluateNode shapeOf
        rw [op]
        exact @raises_compile Value _
  | _ => exact @raises_compile Value _

end Evaluation

section Reaching

variable (lib : Library) (python : Python) (ctx : Context)

/-- The nodes that the evaluation of a node comes upon next: an operand after others that have values, and one branch
of an `if`. -/
inductive Comes : Json → Json → Prop
  | operand {node operand : Json} {op : Operator} {before after : List Json} {values : List Value} :
      shape node = some (.operator op (before ++ operand :: after)) →
      before.mapM (evaluate lib python ctx) = .ok values → Comes node operand
  | argument {node argument : Json} {fn : String} {before after : List Json} {values : List Value} :
      shape node = some (.call fn (before ++ argument :: after)) →
      ((Form.Reference.table lib ctx).lookup fn).isSome = true →
      before.mapM (evaluate lib python ctx) = .ok values → Comes node argument
  | condition {node condition : Json} {branches : List Json} : shape node = some (.choice (condition :: branches)) →
      Comes node condition
  | yes {node condition yes : Json} {rest : List Json} : shape node = some (.choice (condition :: yes :: rest)) →
      evaluate lib python ctx condition = .ok (.bool true) → Comes node yes
  | no {node condition yes no : Json} {rest : List Json} : shape node = some (.choice (condition :: yes :: no :: rest)) →
      evaluate lib python ctx condition = .ok (.bool false) → Comes node no

def Reaches : Json → Json → Prop := Relation.ReflTransGen (Comes lib python ctx)

def Unresolvable (path : String) : Prop :=
  if (Form.rowPath path).isSome then True
  else if Form.metadataPrefix.isPrefixOf path.toList ∨ (Form.cutAt "[].".toList path.toList).isSome then False
  else
    match Form.cutAt "[".toList path.toList, Form.cutAt "].".toList path.toList with
    | some (_, rest), some _ =>
      ∀ index suffix, Form.cutAt "].".toList rest = some (index, suffix) →
        index = ['.'] ∨ Form.Reference.intOfText index = none
    | _, _ => ctx.values path = none

/-- The branch that an `if` has a boolean for is not there. -/
def Unbranched : List Json → Prop
  | [] => True
  | [condition] => ∃ truth, evaluate lib python ctx condition = .ok (.bool truth)
  | [condition, _] => evaluate lib python ctx condition = .ok (.bool false)
  | _ => False

/-- A node at which an evaluation raises that has come so far: it is malformed, or what it has to do cannot be done with
the values of its operands. -/
def BreaksAt (node : Json) : Prop :=
  match shape node with
  | none => True
  | some .literal => False
  | some (.reference path) => Unresolvable ctx path
  | some (.choice parts) => Unbranched lib python ctx parts
  | some (.operator op operands) => ∃ values, operands.mapM (evaluate lib python ctx) = .ok values ∧ OpRaises op values
  | some (.call fn args) =>
    match (Form.Reference.table lib ctx).lookup fn with
    | none => True
    | some (_, least, most) => ∃ values, args.mapM (evaluate lib python ctx) = .ok values ∧
        (least ≤ values.length ∧ values.length ≤ most → CallRaises lib fn values)

variable {lib python ctx}

theorem raises_resolve (bare : ctx.row = none ∧ ctx.scope = none ∧ ∀ rid, ctx.instances rid = none) (path : String) :
    Raises (resolve ctx path) ↔ Unresolvable ctx path := by
  obtain ⟨row, scope, instances⟩ := bare
  have plain : Raises (Form.Reference.resolveBare ctx path) ↔ ctx.values path = none := by
    unfold Form.Reference.resolveBare
    rw [scope]
    cases ctx.values path with
    | none => exact iff_of_true (raises_compile _) rfl
    | some value => exact iff_of_false id (by simp)
  unfold resolve Unresolvable
  cases Form.rowPath path with
  | some column =>
    rw [row]
    exact iff_of_true (raises_compile _) (by simp)
  | none =>
    simp only [Option.isSome_none, Bool.false_eq_true, if_false]
    by_cases metadata : Form.metadataPrefix.isPrefixOf path.toList = true
    · rw [if_pos metadata, if_pos (Or.inl metadata)]
      exact iff_of_false id id
    · rw [if_neg metadata]
      cases every : Form.cutAt "[].".toList path.toList with
      | some cut =>
        have marked : (some cut).isSome = true := rfl
        rw [if_pos (Or.inr marked)]
        exact iff_of_false id id
      | none =>
        rw [if_neg (by simp [metadata])]
        dsimp only
        cases Form.cutAt "[".toList path.toList with
        | none => exact plain
        | some opened =>
          cases Form.cutAt "].".toList path.toList with
          | none => exact plain
          | some closed =>
            obtain ⟨rid, rest⟩ := opened
            dsimp only
            cases Form.cutAt "].".toList rest with
            | none => exact iff_of_true (raises_raised _) (by simp)
            | some cut =>
              obtain ⟨index, suffix⟩ := cut
              simp only [Option.some.injEq, Prod.mk.injEq, and_imp, forall_apply_eq_imp_iff₂]
              unfold Form.Reference.resolveIndexed
              by_cases here : index = ['.']
              · rw [if_pos here, scope]
                exact iff_of_true (raises_compile _) (by simp [here])
              · rw [if_neg here]
                cases position : Form.Reference.intOfText index with
                | none => exact iff_of_true (raises_raised _) (by simp [position])
                | some number =>
                  dsimp only
                  rw [instances]
                  refine iff_of_false ?_ (by simp [here, position])
                  split <;> exact id

theorem raises_given {nodes : List Json} {apply : List Value → Except Failure Value} :
    Raises (nodes.mapM (evaluate lib python ctx) >>= apply) ↔
      (∃ before node after values, nodes = before ++ node :: after ∧
        before.mapM (evaluate lib python ctx) = .ok values ∧ Raises (evaluate lib python ctx node)) ∨
      ∃ values, nodes.mapM (evaluate lib python ctx) = .ok values ∧ Raises (apply values) := by
  rw [raises_bind, Form.Reference.raises_mapM]

theorem raises_cond (args : Args) :
    Raises (operate .cond args) ↔
      Raises (args.at 0) ∨ args.at 0 = .ok (.bool true) ∧ Raises (args.at 1) ∨
        args.at 0 = .ok (.bool false) ∧ Raises (args.at 2) := by
  unfold operate
  dsimp only
  cases first : args.at 0 with
  | error failure =>
    show Raises (.error failure : Except Failure Value) ↔ _
    simp
  | ok value =>
    cases value with
    | bool truth =>
      cases truth with
      | true =>
        show Raises (args.at 1) ↔ _
        simp
      | false =>
        show Raises (args.at 2) ↔ _
        simp
    | _ => exact iff_of_false id (by simp)

theorem raises_choice (parts : List Json) :
    Raises (operate .cond ⟨parts.map (evaluate lib python ctx), true⟩) ↔
      Unbranched lib python ctx parts ∨
        (∃ condition branches, parts = condition :: branches ∧ Raises (evaluate lib python ctx condition)) ∨
        (∃ condition yes rest, parts = condition :: yes :: rest ∧
          evaluate lib python ctx condition = .ok (.bool true) ∧ Raises (evaluate lib python ctx yes)) ∨
        ∃ condition yes no rest, parts = condition :: yes :: no :: rest ∧
          evaluate lib python ctx condition = .ok (.bool false) ∧ Raises (evaluate lib python ctx no) := by
  rw [raises_cond]
  match parts with
  | [] => exact iff_of_true (Or.inl (raises_raised _)) (Or.inl trivial)
  | [condition] =>
    show Raises (evaluate lib python ctx condition) ∨
      evaluate lib python ctx condition = .ok (.bool true) ∧ Raises (.error (.raised "IndexError") : Except Failure Value) ∨
      evaluate lib python ctx condition = .ok (.bool false) ∧ Raises (.error (.raised "IndexError") : Except Failure Value) ↔ _
    simp [Unbranched]
    tauto
  | [condition, yes] =>
    show Raises (evaluate lib python ctx condition) ∨
      evaluate lib python ctx condition = .ok (.bool true) ∧ Raises (evaluate lib python ctx yes) ∨
      evaluate lib python ctx condition = .ok (.bool false) ∧ Raises (.error (.raised "IndexError") : Except Failure Value) ↔ _
    simp [Unbranched]
    tauto
  | condition :: yes :: no :: rest =>
    show Raises (evaluate lib python ctx condition) ∨
      evaluate lib python ctx condition = .ok (.bool true) ∧ Raises (evaluate lib python ctx yes) ∨
      evaluate lib python ctx condition = .ok (.bool false) ∧ Raises (evaluate lib python ctx no) ↔ _
    simp [Unbranched]

theorem call_found {fn : String} {impl : List Value → Except Failure Value} {least most : ℕ}
    (found : (Form.Reference.table lib ctx).lookup fn = some (impl, least, most)) :
    ∃ apply, call lib ctx fn = .ok apply ∧ ∀ values, Raises (apply values) ↔
      (least ≤ values.length ∧ values.length ≤ most → CallRaises lib fn values) := by
  unfold call
  rw [found]
  refine ⟨_, rfl, fun values => ?_⟩
  split
  · rename_i arity
    obtain ⟨before, after, same, -⟩ := List.lookup_eq_some_iff.mp found
    have listed : (fn, impl, least, most) ∈ Form.Reference.table lib ctx := by
      rw [same]
      exact List.mem_append_right _ List.mem_cons_self
    rw [Form.Reference.raises_impl listed arity]
    exact ⟨fun raises _ => raises, fun raises => raises arity⟩
  · rename_i arity
    exact iff_of_true (raises_compile _) fun given => absurd given arity

theorem raises_step (bare : ctx.row = none ∧ ctx.scope = none ∧ ∀ rid, ctx.instances rid = none) (node : Json) :
    Raises (evaluate lib python ctx node) ↔
      BreaksAt lib python ctx node ∨
        ∃ part, Comes lib python ctx node part ∧ Raises (evaluate lib python ctx part) := by
  have follows := @follows_shape lib python ctx node
  unfold BreaksAt
  cases is : shape node with
  | none =>
    rw [is] at follows
    exact iff_of_true follows (Or.inl trivial)
  | some view =>
    rw [is] at follows
    cases view with
    | literal =>
      refine iff_of_false follows ?_
      rintro (never | ⟨part, comes, -⟩)
      · exact never
      · cases comes <;> simp_all
    | reference path =>
      have same : evaluate lib python ctx node = resolve ctx path := follows
      rw [same, raises_resolve bare]
      refine (or_iff_left ?_).symm
      rintro ⟨part, comes, -⟩
      cases comes <;> simp_all
    | choice parts =>
      have same : evaluate lib python ctx node = operate .cond ⟨parts.map (evaluate lib python ctx), true⟩ := follows
      rw [same, raises_choice]
      refine or_congr_right ⟨?_, ?_⟩
      · rintro (⟨condition, branches, rfl, raises⟩ | ⟨condition, yes, rest, rfl, held, raises⟩ |
          ⟨condition, yes, no, rest, rfl, held, raises⟩)
        · exact ⟨condition, .condition is, raises⟩
        · exact ⟨yes, .yes is held, raises⟩
        · exact ⟨no, .no is held, raises⟩
      · rintro ⟨part, comes, raises⟩
        cases comes with
        | operand given evaluated => cases is.symm.trans given
        | argument given known evaluated => cases is.symm.trans given
        | condition given =>
          obtain rfl := Shape.choice.inj (Option.some.inj (is.symm.trans given))
          exact Or.inl ⟨_, _, rfl, raises⟩
        | yes given held =>
          obtain rfl := Shape.choice.inj (Option.some.inj (is.symm.trans given))
          exact Or.inr (Or.inl ⟨_, _, _, rfl, held, raises⟩)
        | no given held =>
          obtain rfl := Shape.choice.inj (Option.some.inj (is.symm.trans given))
          exact Or.inr (Or.inr ⟨_, _, _, _, rfl, held, raises⟩)
    | operator op operands =>
      obtain ⟨other, same⟩ : op ≠ .cond ∧
        evaluate lib python ctx node = operands.mapM (evaluate lib python ctx) >>= Form.Reference.operate op := follows
      rw [same, raises_given, or_comm]
      refine or_congr ?_ ⟨?_, ?_⟩
      · exact exists_congr fun values => and_congr_right fun _ => Form.Reference.raises_operate other values
      · rintro ⟨before, part, after, values, rfl, evaluated, raises⟩
        exact ⟨part, .operand is evaluated, raises⟩
      · rintro ⟨part, comes, raises⟩
        cases comes with
        | operand given evaluated =>
          obtain ⟨-, rfl⟩ := Shape.operator.inj (Option.some.inj (is.symm.trans given))
          exact ⟨_, part, _, _, rfl, evaluated, raises⟩
        | argument given known evaluated => cases is.symm.trans given
        | condition given => cases is.symm.trans given
        | yes given held => cases is.symm.trans given
        | no given held => cases is.symm.trans given
    | call fn args =>
      have same : evaluate lib python ctx node =
        call lib ctx fn >>= fun impl => args.mapM (evaluate lib python ctx) >>= impl := follows
      rw [same]
      dsimp only
      cases found : (Form.Reference.table lib ctx).lookup fn with
      | none =>
        rw [call_none found]
        exact iff_of_true (raises_compile _) (Or.inl trivial)
      | some entry =>
        obtain ⟨impl, least, most⟩ := entry
        obtain ⟨apply, applied, raises⟩ := call_found found
        rw [applied]
        show Raises (args.mapM (evaluate lib python ctx) >>= apply) ↔ _
        rw [raises_given, or_comm]
        refine or_congr ?_ ⟨?_, ?_⟩
        · exact exists_congr fun values => and_congr_right fun _ => raises values
        · rintro ⟨before, part, after, values, rfl, evaluated, raises⟩
          exact ⟨part, .argument is (by rw [found]; rfl) evaluated, raises⟩
        · rintro ⟨part, comes, raises⟩
          cases comes with
          | operand given evaluated => cases is.symm.trans given
          | argument given known evaluated =>
            obtain ⟨-, rfl⟩ := Shape.call.inj (Option.some.inj (is.symm.trans given))
            exact ⟨_, part, _, _, rfl, evaluated, raises⟩
          | condition given => cases is.symm.trans given
          | yes given held => cases is.symm.trans given
          | no given held => cases is.symm.trans given

theorem walked_of_indexed {args : Json} {nodes : List Json} (are : indexed args = some nodes) :
    walked args = some nodes := by
  cases args <;> first | exact are | cases are

theorem mem_asked {op : Operator} {args part : Json} {view : Shape} (is : asked op args = some view)
    (member : part ∈ view.nodes) : ∃ nodes, walked args = some nodes ∧ part ∈ nodes := by
  have taken (count : ℕ) (is : (indexed args).map (fun nodes => Shape.operator op (nodes.take count)) = some view) :
      ∃ nodes, walked args = some nodes ∧ part ∈ nodes := by
    obtain ⟨nodes, are, rfl⟩ := Option.map_eq_some_iff.mp is
    exact ⟨nodes, walked_of_indexed are, List.mem_of_mem_take member⟩
  have every (is : (walked args).map (Shape.operator op) = some view) : ∃ nodes, walked args = some nodes ∧ part ∈ nodes := by
    obtain ⟨nodes, are, rfl⟩ := Option.map_eq_some_iff.mp is
    exact ⟨nodes, are, member⟩
  cases op with
  | cond =>
    obtain ⟨nodes, are, rfl⟩ := Option.map_eq_some_iff.mp is
    exact ⟨nodes, walked_of_indexed are, member⟩
  | and => exact every is
  | or => exact every is
  | not => exact taken 1 is
  | neg => exact taken 1 is
  | _ => exact taken 2 is

theorem mem_shapeOf {fields : List (String × Json)} {view : Shape} {part : Json} (is : shapeOf fields = some view)
    (member : part ∈ view.nodes) :
    ∃ args nodes, fields.lookup "args" = some args ∧ walked args = some nodes ∧ part ∈ nodes := by
  unfold shapeOf at is
  split at is
  · obtain ⟨value, -, rfl⟩ := Option.map_eq_some_iff.mp is
    cases member
  · split at is
    · obtain rfl := Option.some.inj is
      cases member
    · cases is
  · split at is
    · obtain ⟨nodes, are, rfl⟩ := Option.map_eq_some_iff.mp is
      cases given : fields.lookup "args" with
      | none =>
        rw [given] at are
        obtain rfl := Option.some.inj are
        cases member
      | some args =>
        rw [given] at are
        exact ⟨args, nodes, rfl, are, member⟩
    · cases is
  · obtain ⟨op, -, rest⟩ := Option.bind_eq_some_iff.mp is
    obtain ⟨args, given, asks⟩ := Option.bind_eq_some_iff.mp rest
    obtain ⟨nodes, are, within⟩ := mem_asked asks member
    exact ⟨args, nodes, given, are, within⟩
  · cases is

theorem sizeOf_lookup {fields : List (String × Json)} {key : String} {value : Json}
    (given : fields.lookup key = some value) : sizeOf value < sizeOf fields := by
  obtain ⟨before, after, rfl, -⟩ := List.lookup_eq_some_iff.mp given
  have listed := List.sizeOf_lt_of_mem (List.mem_append_right before (List.mem_cons_self (a := (key, value)) (l := after)))
  simp only [Prod.mk.sizeOf_spec] at listed
  omega

theorem comes_smaller {node part : Json} (comes : Comes lib python ctx node part) :
    sizeOf part < sizeOf node ∨ ∃ text, part = .str text := by
  obtain ⟨view, is, member⟩ : ∃ view, shape node = some view ∧ part ∈ view.nodes := by
    cases comes with
    | operand is evaluated => exact ⟨_, is, List.mem_append_right _ List.mem_cons_self⟩
    | argument is known evaluated => exact ⟨_, is, List.mem_append_right _ List.mem_cons_self⟩
    | condition is => exact ⟨_, is, List.mem_cons_self⟩
    | yes is held => exact ⟨_, is, List.mem_cons_of_mem _ List.mem_cons_self⟩
    | no is held => exact ⟨_, is, List.mem_cons_of_mem _ (List.mem_cons_of_mem _ List.mem_cons_self)⟩
  cases node with
  | obj fields =>
    obtain ⟨args, nodes, given, are, within⟩ := mem_shapeOf is member
    have inner := sizeOf_lookup given
    cases args with
    | arr items =>
      obtain rfl := Option.some.inj are
      have listed := List.sizeOf_lt_of_mem within
      simp only [Json.arr.sizeOf_spec] at inner
      simp only [Json.obj.sizeOf_spec]
      exact Or.inl (by omega)
    | str text =>
      obtain rfl := Option.some.inj are
      obtain ⟨c, -, rfl⟩ := List.mem_map.mp within
      exact Or.inr ⟨_, rfl⟩
    | obj fields =>
      obtain rfl := Option.some.inj are
      obtain ⟨field, -, rfl⟩ := List.mem_map.mp within
      exact Or.inr ⟨_, rfl⟩
    | _ => cases are
  | _ => cases is

theorem raises_iff (bare : ctx.row = none ∧ ctx.scope = none ∧ ∀ rid, ctx.instances rid = none) (node : Json) :
    Raises (evaluate lib python ctx node) ↔ ∃ reached, Reaches lib python ctx node reached ∧ BreaksAt lib python ctx reached := by
  constructor
  · induction size : sizeOf node using Nat.strong_induction_on generalizing node with
    | _ n ih =>
      intro raises
      subst size
      rcases (raises_step bare node).mp raises with breaks | ⟨part, comes, raises⟩
      · exact ⟨node, .refl, breaks⟩
      · rcases comes_smaller comes with smaller | ⟨text, rfl⟩
        · obtain ⟨reached, reaches, breaks⟩ := ih _ smaller part rfl raises
          exact ⟨reached, .head comes reaches, breaks⟩
        · exact ⟨.str text, .single comes, trivial⟩
  · rintro ⟨reached, reaches, breaks⟩
    induction reaches using Relation.ReflTransGen.head_induction_on with
    | refl => exact (raises_step bare reached).mpr (Or.inl breaks)
    | head comes _ ih => exact (raises_step bare _).mpr (Or.inr ⟨_, comes, ih⟩)

end Reaching

section Rules

variable (lib : Library) (python : Python) (clock : MomentTexts) (checkedAt moment : Timestamp) (values : Dict Json)
  (unreadable : Dict String) (knownPaths : List String)

structure StoredRule where
  rule : Rule
  accepted : (reference lib python clock checkedAt).refuses rule.definition = none

def ReadsOutside (rule : Rule) : Prop :=
  ∃ path ∈ pathsRead rule.definition, resolved values knownPaths path = none ∨ (unreadable.lookup path).isSome = true

def Outcome.Invalid (outcome : Outcome) : Prop := ∃ message, outcome.detail = detailOf "invalid" [("message", message)]

def AllEvaluated (rules : List Rule) : Prop :=
  ∃ outcomes, evaluateRules (reference lib python clock checkedAt) values unreadable knownPaths moment rules = .ok outcomes ∧
    ∀ outcome ∈ outcomes, outcome.Invalid →
      evaluate lib python (contextOf python clock (resolved values knownPaths) moment) outcome.rule.definition =
        .error .overflow

variable {lib python clock checkedAt moment values unreadable knownPaths}

theorem not_invalid {rule : Rule} {outcome : OutcomeKind} {reason : String} {more : List (String × Json)}
    (other : reason ≠ "invalid") : ¬(Outcome.mk rule outcome (detailOf reason more)).Invalid := by
  rintro ⟨message, detail⟩
  simp only [detailOf, Json.obj.injEq, List.cons.injEq, Prod.mk.injEq, Json.str.injEq, true_and] at detail
  exact other detail.1

theorem evaluateRule_outside {engine : Engine} {rule : Rule} (outside : ReadsOutside values unreadable knownPaths rule) :
    ∃ outcome, evaluateRule engine values unreadable knownPaths moment rule = .ok (some outcome) ∧ ¬outcome.Invalid := by
  unfold evaluateRule
  dsimp only
  split
  · exact ⟨_, rfl, not_invalid (by decide)⟩
  · rename_i known
    rw [not_not, sortedPaths_eq_nil_iff, List.filter_eq_nil_iff] at known
    rw [if_pos]
    · exact ⟨_, rfl, not_invalid (by decide)⟩
    · rw [ne_eq, sortedPaths_eq_nil_iff, List.filter_eq_nil_iff]
      intro readable
      obtain ⟨path, read, missing | hidden⟩ := outside
      · have one := known path read
        have two := readable path read
        simp only [missing, Option.isNone_none, Bool.true_and, Option.isNone_iff_eq_none] at one
        rw [Bool.not_eq_true, Option.isSome_eq_false_iff, Option.isNone_iff_eq_none] at two
        exact one two
      · exact readable path read hidden

theorem evaluated_of_inside {engine : Engine} {rule : Rule} (inside : ¬ReadsOutside values unreadable knownPaths rule) :
    Evaluated engine values unreadable knownPaths moment rule := by
  apply evaluateRule_evaluated
  · intro path read
    rw [Option.isSome_iff_ne_none]
    exact fun missing => inside ⟨path, read, Or.inl missing⟩
  · intro path read
    rw [← Option.not_isSome_iff_eq_none]
    exact fun hidden => inside ⟨path, read, Or.inr hidden⟩

theorem evaluateRule_inside {rule : Rule} (inside : ¬ReadsOutside values unreadable knownPaths rule) :
    (∃ result, evaluateRule (reference lib python clock checkedAt) values unreadable knownPaths moment rule = .ok result ∧
      ∀ outcome ∈ result, outcome.Invalid →
        evaluate lib python (contextOf python clock (resolved values knownPaths) moment) outcome.rule.definition =
          .error .overflow) ↔
      ¬Raises (evaluate lib python (contextOf python clock (resolved values knownPaths) moment) rule.definition) := by
  have decided : evaluateRule (reference lib python clock checkedAt) values unreadable knownPaths moment rule = _ :=
    evaluated_of_inside inside
  rw [decided]
  show (∃ result, (verdictOf (evaluate lib python (contextOf python clock (resolved values knownPaths) moment)
    rule.definition)).map (report rule) = .ok result ∧ _) ↔ _
  cases came : evaluate lib python (contextOf python clock (resolved values knownPaths) moment) rule.definition with
  | ok value =>
    refine iff_of_true ?_ id
    have given : verdictOf (.ok value) = .ok .holds ∨ verdictOf (.ok value) = .ok .fails := by
      unfold verdictOf
      split <;> simp_all
    rcases given with holds | fails
    · rw [holds]
      exact ⟨_, rfl, nofun⟩
    · rw [fails]
      refine ⟨_, rfl, fun outcome member invalid => ?_⟩
      obtain rfl := Option.mem_some_iff.mp member
      exact absurd invalid (not_invalid (by decide))
  | error failure =>
    cases failure with
    | overflow =>
      refine iff_of_true ⟨_, rfl, fun outcome member _ => ?_⟩ fun raises => raises rfl
      obtain rfl := Option.mem_some_iff.mp member
      exact came
    | raised name =>
      refine iff_of_false ?_ (not_not.mpr (raises_raised _))
      rintro ⟨result, given, -⟩
      cases given
    | boundary =>
      refine iff_of_false ?_ (not_not.mpr Failure.noConfusion)
      rintro ⟨result, given, fine⟩
      obtain rfl := Except.ok.inj given
      have overflow := fine _ rfl ⟨_, rfl⟩
      rw [came] at overflow
      cases overflow
    | compile message =>
      refine iff_of_false ?_ (not_not.mpr (raises_compile _))
      rintro ⟨result, given, fine⟩
      obtain rfl := Except.ok.inj given
      have overflow := fine _ rfl ⟨_, rfl⟩
      rw [came] at overflow
      cases overflow

theorem allEvaluated_iff (rules : List Rule) :
    AllEvaluated lib python clock checkedAt moment values unreadable knownPaths rules ↔
      ∀ rule ∈ rules, ∃ result,
        evaluateRule (reference lib python clock checkedAt) values unreadable knownPaths moment rule = .ok result ∧
          ∀ outcome ∈ result, outcome.Invalid →
            evaluate lib python (contextOf python clock (resolved values knownPaths) moment) outcome.rule.definition =
              .error .overflow := by
  unfold AllEvaluated evaluateRules
  simp only [Lib.bind_ok_iff]
  constructor
  · rintro ⟨_, ⟨results, run, same⟩, fine⟩ rule member
    obtain rfl := Except.ok.inj same
    obtain ⟨result, listed, given⟩ := Lib.exists_of_forall₂_left (Lib.mapM_ok_iff.mp run) member
    refine ⟨result, given, fun outcome is => fine outcome ?_⟩
    rw [List.reduceOption_mem_iff, ← Option.mem_def.mp is]
    exact listed
  · intro each
    obtain ⟨results, run⟩ := Lib.exists_mapM_ok_iff.mpr fun rule member => (each rule member).imp fun _ both => both.1
    refine ⟨_, ⟨results, run, rfl⟩, fun outcome listed => ?_⟩
    obtain ⟨rule, member, given⟩ :=
      Lib.exists_of_forall₂_right (Lib.mapM_ok_iff.mp run) (List.reduceOption_mem_iff.mp listed)
    obtain ⟨result, given', fine⟩ := each rule member
    obtain rfl := Except.ok.inj (given'.symm.trans given)
    exact fine outcome rfl

/-- Stored rules are all evaluated exactly where each of them reads outside, or its evaluation on the answers comes upon
no node that breaks. -/
theorem stored_rules_evaluated_iff (rules : List (StoredRule lib python clock checkedAt)) :
    AllEvaluated lib python clock checkedAt moment values unreadable knownPaths (rules.map (·.rule)) ↔
      ∀ stored ∈ rules, ReadsOutside values unreadable knownPaths stored.rule ∨
        ∀ node, Reaches lib python (contextOf python clock (resolved values knownPaths) moment) stored.rule.definition node →
          ¬BreaksAt lib python (contextOf python clock (resolved values knownPaths) moment) node := by
  rw [allEvaluated_iff, List.forall_mem_map]
  refine forall₂_congr fun stored _ => ?_
  by_cases outside : ReadsOutside values unreadable knownPaths stored.rule
  · refine iff_of_true ?_ (Or.inl outside)
    obtain ⟨outcome, given, valid⟩ := evaluateRule_outside outside
    exact ⟨_, given, fun other is invalid => absurd (Option.some.inj is ▸ invalid) valid⟩
  · rw [evaluateRule_inside outside, raises_iff ⟨rfl, rfl, fun _ => rfl⟩, or_iff_right outside]
    simp only [not_exists, not_and]

end Rules

section Untaken

def booleans : Python where
  repr _ := ""
  value
    | .bool value => .bool value
    | _ => .null

/-- `if(agreed, nope(), true)`: there is no operator `nope`. -/
def untaken : StoredRule Form.noLibrary booleans someTexts 0 where
  rule :=
    { id := "r1"
      name := "agreed"
      severity := .warning
      definition := .obj [("op", .str "if"), ("args", .arr [refTo "agreed", .obj [("op", .str "nope"), ("args", .arr [])],
        .obj [("op", .str "lit"), ("value", .bool true)]])] }
  accepted := by rfl

/-- Null takes no branch, so it was accepted; once somebody agrees it is reported as invalid. -/
theorem untaken_not_evaluated :
    ¬AllEvaluated Form.noLibrary booleans someTexts 0 0 (AList.singleton "agreed" (.bool true)) ∅ ["agreed"]
      [untaken.rule] := by
  have unknown : evaluate Form.noLibrary booleans
      (contextOf booleans someTexts (resolved (AList.singleton "agreed" (.bool true)) ["agreed"]) 0) untaken.rule.definition =
        .error (.compile "unknown operator: nope") := by rfl
  intro fine
  obtain ⟨result, given, overflows⟩ := (allEvaluated_iff _).mp fine untaken.rule (List.mem_singleton_self _)
  have reported : evaluateRule (reference Form.noLibrary booleans someTexts 0) (AList.singleton "agreed" (.bool true)) ∅
      ["agreed"] 0 untaken.rule =
        .ok (some ⟨untaken.rule, .notEvaluated, detailOf "invalid" [("message", .str "unknown operator: nope")]⟩) := by rfl
  obtain rfl := Except.ok.inj (reported.symm.trans given)
  have overflow := overflows _ rfl ⟨_, rfl⟩
  rw [unknown] at overflow
  cases overflow

end Untaken

end DataCollectionLab.Quality
