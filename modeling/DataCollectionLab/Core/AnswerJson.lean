import DataCollectionLab.Core.CanonicalJson
import DataCollectionLab.Form.DeviceFunctions
import DataCollectionLab.Form.Digits

/-!
An answer and an expression as the device's log and its documents hold them: JSON without type tags, where a kind is read
off the shape. `kotlinx` itself is what the structures below say of it.
-/

namespace DataCollectionLab.Core.AnswerJson

open Lib
open Lib.Utf16 (Units)
open Form (Double Expr FormValue)
open CanonicalJson (JsonElement literal)

/-- A `NaN` is one value, whatever its bits are. -/
def settled (d : Double) : Double :=
  if d.toNat / 2 ^ 52 % 2 ^ 11 = 2047 ∧ d.toNat % 2 ^ 52 ≠ 0 then 0x7FF8000000000000 else d

def longText (n : Int64) : Units := literal (toString n.toInt)

def integral (content : Units) : Bool := content.all fun c => c ∉ literal ".eE"

structure Primitives where
  booleanOrNull : Units → Option Bool
  longOrNull : Units → Option Int64
  doubleOrNull : Units → Option Double
  /-- `Double.toString`. -/
  doubleText : Double → Units
  bool_reads : ∀ b : Bool, booleanOrNull (literal (toString b)) = some b
  long_bool : ∀ n, booleanOrNull (longText n) = none
  long_reads : ∀ n, longOrNull (longText n) = some n
  double_bool : ∀ d, booleanOrNull (doubleText d) = none
  double_long : ∀ d, integral (doubleText d) = true → longOrNull (doubleText d) = none
  double_reads : ∀ d, doubleOrNull (doubleText d) = some (settled d)

inductive CompileException where
  | unsupportedLiteral (element : JsonElement)
  | malformed (element : JsonElement)
  | refWithoutPath (element : JsonElement)
  | callWithoutFn (element : JsonElement)

section Reading

variable (kotlinx : Primitives)

/-- `as? JsonPrimitive`, by its content; `JsonNull` is one. -/
def primitive? : JsonElement → Option (Units × Bool)
  | .null => some (literal "null", false)
  | .primitive content isString => some (content, isString)
  | .array _ | .object _ => none

/-- `takeIf { it.isString }?.content`. -/
def stringOf (element : JsonElement) : Option String := do
  let (content, isString) ← primitive? element
  if isString then some (String.ofList (Utf16.decode content)) else none

def doubleOf (element : JsonElement) : Option Double := do kotlinx.doubleOrNull (← primitive? element).1

def longOf (element : JsonElement) : Option Int64 := do kotlinx.longOrNull (← primitive? element).1

def member (entries : List (Units × JsonElement)) (key : String) : Option JsonElement := entries.lookup (literal key)

def formValueFromObject (entries : List (Units × JsonElement)) : Except CompileException FormValue :=
  match (member entries "lat").bind (doubleOf kotlinx), (member entries "lon").bind (doubleOf kotlinx) with
  | some lat, some lon => .ok (.geoPoint lat lon ((member entries "alt").bind (doubleOf kotlinx))
      ((member entries "accuracy").bind (doubleOf kotlinx)))
  | _, _ =>
    match (member entries "id").bind stringOf with
    | some id => .ok (.mediaRef id (((member entries "filename").bind stringOf).getD "")
        (((member entries "hash").bind stringOf).getD "") (((member entries "size").bind (longOf kotlinx)).getD 0))
    | none => .error (.unsupportedLiteral (.object entries))

def formValueFromLiteral (content : Units) : Except CompileException FormValue :=
  match kotlinx.booleanOrNull content with
  | some b => .ok (.bool b)
  | none =>
    match if integral content then kotlinx.longOrNull content else none with
    | some long => .ok (.integer long)
    | none =>
      match kotlinx.doubleOrNull content with
      | some d => .ok (.decimal d)
      | none => .error (.unsupportedLiteral (.primitive content false))

mutual

def formValueFromJson : JsonElement → Except CompileException FormValue
  | .null => .ok .null
  | .primitive content isString =>
    if isString then .ok (.text (String.ofList (Utf16.decode content))) else formValueFromLiteral kotlinx content
  | .array items => do return .sequence (← formValuesFromJson items)
  | .object entries => formValueFromObject kotlinx entries

def formValuesFromJson : List JsonElement → Except CompileException (List FormValue)
  | [] => .ok []
  | item :: rest => do
    let value ← formValueFromJson item
    return value :: (← formValuesFromJson rest)

end

/-- A node with what its `args` come to. -/
def exprFromObject (entries : List (Units × JsonElement)) (args : Except CompileException (List Expr)) :
    Except CompileException Expr :=
  match (member entries "op").bind stringOf with
  | none => .error (.malformed (.object entries))
  | some op =>
    if op = "lit" then do return .lit (← formValueFromJson kotlinx ((member entries "value").getD .null))
    else if op = "ref" then
      match (member entries "path").bind stringOf with
      | some path => .ok (.ref path)
      | none => .error (.refWithoutPath (.object entries))
    else if op = "call" then
      match (member entries "fn").bind stringOf with
      | some fn => do return .call fn (← args)
      | none => .error (.callWithoutFn (.object entries))
    else do return .op op (← args)

mutual

def exprFromJson : JsonElement → Except CompileException Expr
  | .null => .error (.malformed .null)
  | .primitive content isString =>
    match kotlinx.booleanOrNull content with
    | some b => if isString then .error (.malformed (.primitive content isString)) else .ok (.lit (.bool b))
    | none => .error (.malformed (.primitive content isString))
  | .array items => .error (.malformed (.array items))
  | .object entries => exprFromObject kotlinx entries (argsUnder entries)

/-- `obj["args"]`, where it is an array. -/
def argsUnder : List (Units × JsonElement) → Except CompileException (List Expr)
  | [] => .ok []
  | (key, value) :: rest => if key = literal "args" then argsOf value else argsUnder rest

def argsOf : JsonElement → Except CompileException (List Expr)
  | .array items => exprsFromJson items
  | .null | .primitive .. | .object _ => .ok []

def exprsFromJson : List JsonElement → Except CompileException (List Expr)
  | [] => .ok []
  | item :: rest => do
    let expr ← exprFromJson item
    return expr :: (← exprsFromJson rest)

end

end Reading

section Writing

variable (kotlinx : Primitives)

def textElement (text : String) : JsonElement := .primitive (literal text) true

def longElement (n : Int64) : JsonElement := .primitive (longText n) false

def doubleElement (d : Double) : JsonElement := .primitive (kotlinx.doubleText d) false

/-- `put`, where there is a value. -/
def optional (key : String) : Option Double → List (Units × JsonElement)
  | some d => [(literal key, doubleElement kotlinx d)]
  | none => []

mutual

def formValueToJson : FormValue → JsonElement
  | .null => .null
  | .text value => textElement value
  | .integer value => longElement value
  | .decimal value => doubleElement kotlinx value
  | .bool value => .primitive (literal (toString value)) false
  | .dateValue iso => textElement iso
  | .sequence items => .array (formValuesToJson items)
  | .geoPoint lat lon alt accuracy =>
    .object ([(literal "lat", doubleElement kotlinx lat), (literal "lon", doubleElement kotlinx lon)] ++
      optional kotlinx "alt" alt ++ optional kotlinx "accuracy" accuracy)
  | .mediaRef id filename hash size =>
    .object [(literal "id", textElement id), (literal "filename", textElement filename), (literal "hash", textElement hash),
      (literal "size", longElement size)]

def formValuesToJson : List FormValue → List JsonElement
  | [] => []
  | value :: rest => formValueToJson value :: formValuesToJson rest

end

mutual

def exprToJson : Expr → JsonElement
  | .lit value => .object [(literal "op", textElement "lit"), (literal "value", formValueToJson kotlinx value)]
  | .ref path => .object [(literal "op", textElement "ref"), (literal "path", textElement path)]
  | .op name args => .object [(literal "op", textElement name), (literal "args", .array (exprsToJson args))]
  | .call fn args =>
    .object [(literal "op", textElement "call"), (literal "fn", textElement fn), (literal "args", .array (exprsToJson args))]

def exprsToJson : List Expr → List JsonElement
  | [] => []
  | expr :: rest => exprToJson expr :: exprsToJson rest

end

end Writing

section Read

mutual

/-- A value as it is read back: each date is a text, and a `NaN` the one there is. -/
def asRead : FormValue → FormValue
  | .null => .null
  | .text value => .text value
  | .integer value => .integer value
  | .decimal value => .decimal (settled value)
  | .bool value => .bool value
  | .dateValue iso => .text iso
  | .sequence items => .sequence (allRead items)
  | .geoPoint lat lon alt accuracy => .geoPoint (settled lat) (settled lon) (alt.map settled) (accuracy.map settled)
  | .mediaRef id filename hash size => .mediaRef id filename hash size

def allRead : List FormValue → List FormValue
  | [] => []
  | value :: rest => asRead value :: allRead rest

end

variable (kotlinx : Primitives)

theorem text_of_literal (text : String) : String.ofList (Utf16.decode (literal text)) = text := by
  rw [literal, Utf16.decode_encode, String.ofList_toList]

theorem stringOf_text (text : String) : stringOf (textElement text) = some text := by
  show some (String.ofList (Utf16.decode (literal text))) = some text
  rw [text_of_literal]

theorem doubleOf_double (d : Double) : doubleOf kotlinx (doubleElement kotlinx d) = some (settled d) :=
  kotlinx.double_reads d

theorem longOf_long (n : Int64) : longOf kotlinx (longElement n) = some n := kotlinx.long_reads n

theorem optional_alt (alt accuracy : Option Double) :
    (member (optional kotlinx "alt" alt ++ optional kotlinx "accuracy" accuracy) "alt").bind (doubleOf kotlinx) =
        alt.map settled ∧
      (member (optional kotlinx "alt" alt ++ optional kotlinx "accuracy" accuracy) "accuracy").bind (doubleOf kotlinx) =
        accuracy.map settled := by
  cases alt with
  | none =>
    cases accuracy with
    | none => exact ⟨rfl, rfl⟩
    | some accuracy => exact ⟨rfl, doubleOf_double kotlinx accuracy⟩
  | some alt =>
    cases accuracy with
    | none => exact ⟨doubleOf_double kotlinx alt, rfl⟩
    | some accuracy => exact ⟨doubleOf_double kotlinx alt, doubleOf_double kotlinx accuracy⟩

theorem formValueFromObject_point {entries : List (Units × JsonElement)} {lat lon : Double}
    (isLat : (member entries "lat").bind (doubleOf kotlinx) = some lat)
    (isLon : (member entries "lon").bind (doubleOf kotlinx) = some lon) :
    formValueFromObject kotlinx entries = .ok (.geoPoint lat lon ((member entries "alt").bind (doubleOf kotlinx))
      ((member entries "accuracy").bind (doubleOf kotlinx))) := by
  rw [formValueFromObject, isLat, isLon]

theorem geoPoint_reads (lat lon : Double) (alt accuracy : Option Double) :
    formValueFromJson kotlinx (formValueToJson kotlinx (.geoPoint lat lon alt accuracy)) =
      .ok (asRead (.geoPoint lat lon alt accuracy)) := by
  obtain ⟨isAlt, isAccuracy⟩ := optional_alt kotlinx alt accuracy
  rw [asRead, ← isAlt, ← isAccuracy, formValueToJson, formValueFromJson]
  exact formValueFromObject_point kotlinx (doubleOf_double kotlinx lat) (doubleOf_double kotlinx lon)

theorem formValueFromObject_media {entries : List (Units × JsonElement)} {id : String}
    (noLat : (member entries "lat").bind (doubleOf kotlinx) = none) (isId : (member entries "id").bind stringOf = some id) :
    formValueFromObject kotlinx entries = .ok (.mediaRef id (((member entries "filename").bind stringOf).getD "")
      (((member entries "hash").bind stringOf).getD "") (((member entries "size").bind (longOf kotlinx)).getD 0)) := by
  rw [formValueFromObject, noLat, isId]

theorem mediaRef_reads (id filename hash : String) (size : Int64) :
    formValueFromJson kotlinx (formValueToJson kotlinx (.mediaRef id filename hash size)) =
      .ok (.mediaRef id filename hash size) := by
  have read := @formValueFromObject_media kotlinx [(literal "id", textElement id), (literal "filename", textElement filename),
    (literal "hash", textElement hash), (literal "size", longElement size)] id rfl (stringOf_text id)
  have isFilename : ((some (textElement filename)).bind stringOf).getD "" = filename := by
    rw [Option.bind_some, stringOf_text, Option.getD_some]
  have isHash : ((some (textElement hash)).bind stringOf).getD "" = hash := by
    rw [Option.bind_some, stringOf_text, Option.getD_some]
  have isSize : ((some (longElement size)).bind (longOf kotlinx)).getD 0 = size := by
    rw [Option.bind_some, longOf_long, Option.getD_some]
  rw [formValueToJson, formValueFromJson, read]
  exact congrArg Except.ok (congr (congr (congrArg (FormValue.mediaRef id) isFilename) isHash) isSize)

theorem literal_reads (value : Bool) : formValueFromLiteral kotlinx (literal (toString value)) = .ok (.bool value) := by
  rw [formValueFromLiteral, kotlinx.bool_reads]

theorem integral_longText (n : Int64) : integral (longText n) = true := by
  apply List.all_eq_true.mpr
  intro unit member
  obtain ⟨c, inText, inUnits⟩ := List.mem_flatMap.mp member
  have bounds : 45 ≤ c.toNat ∧ c.toNat ≤ 57 ∧ c.toNat ≠ 46 := by
    rw [Form.Numeral.toList_toString] at inText
    rcases List.mem_append.mp inText with minus | decimal
    · split at minus
      · obtain rfl := List.mem_singleton.mp minus
        decide
      · cases minus
    · obtain ⟨low, high⟩ := Form.Numeral.bounds (Form.Numeral.toDigits_decimal c decimal)
      omega
  obtain ⟨low, high, noPoint⟩ := bounds
  rw [Utf16.units, if_pos (by omega)] at inUnits
  obtain rfl := List.mem_singleton.mp inUnits
  apply decide_eq_true
  intro marks
  have value : (UInt16.ofNat c.toNat).toNat ∈ [46, 101, 69] := List.mem_map_of_mem marks
  rw [UInt16.toNat_ofNat', Nat.mod_eq_of_lt (by omega)] at value
  simp only [List.mem_cons, List.not_mem_nil, or_false] at value
  omega

theorem long_reads_value (n : Int64) : formValueFromLiteral kotlinx (longText n) = .ok (.integer n) := by
  rw [formValueFromLiteral, kotlinx.long_bool, integral_longText, if_pos rfl, kotlinx.long_reads]

theorem double_reads_value (d : Double) : formValueFromLiteral kotlinx (kotlinx.doubleText d) = .ok (.decimal (settled d)) := by
  have noLong : (if integral (kotlinx.doubleText d) then kotlinx.longOrNull (kotlinx.doubleText d) else none) = none := by
    split
    · rename_i whole
      exact kotlinx.double_long d whole
    · rfl
  rw [formValueFromLiteral, kotlinx.double_bool, noLong, kotlinx.double_reads]

theorem formValue_reads (value : FormValue) :
    formValueFromJson kotlinx (formValueToJson kotlinx value) = .ok (asRead value) := by
  induction value using FormValue.rec
    (motive_2 := fun items => formValuesFromJson kotlinx (formValuesToJson kotlinx items) = .ok (allRead items)) with
  | null => rfl
  | text value =>
    rw [asRead, formValueToJson, textElement, formValueFromJson, if_pos rfl, text_of_literal]
  | integer value => exact long_reads_value kotlinx value
  | decimal value => exact double_reads_value kotlinx value
  | bool value => exact literal_reads kotlinx value
  | dateValue iso =>
    rw [asRead, formValueToJson, textElement, formValueFromJson, if_pos rfl, text_of_literal]
  | sequence items ih =>
    rw [formValueToJson, formValueFromJson, ih]
    rfl
  | geoPoint lat lon alt accuracy => exact geoPoint_reads kotlinx lat lon alt accuracy
  | mediaRef id filename hash size => exact mediaRef_reads kotlinx id filename hash size
  | nil => rfl
  | cons value rest first others =>
    rw [formValuesToJson, formValuesFromJson, first, others]
    rfl

end Read

section Tests

open Form (Value)
open Form.Evaluator (equalValues same sameAll selected)

theorem decode_settled (d : Double) : Form.decode (settled d) = Form.decode d := by
  unfold settled
  split
  · rename_i notNumber
    have isNan : Form.decode d = .nan := by
      unfold Form.decode
      rw [if_pos notNumber.1, if_neg notNumber.2]
    rw [isNan]
    rfl
  · rfl

theorem map_decode_settled (d : Option Double) : (d.map settled).map Form.decode = d.map Form.decode := by
  cases d with
  | none => rfl
  | some d => exact congrArg some (decode_settled d)

mutual

def Dateless : FormValue → Prop
  | .dateValue _ => False
  | .sequence items => AllDateless items
  | .null | .text _ | .integer _ | .decimal _ | .bool _ | .geoPoint .. | .mediaRef .. => True

def AllDateless : List FormValue → Prop
  | [] => True
  | value :: rest => Dateless value ∧ AllDateless rest

end

theorem ofForm_asRead (value : FormValue) : Dateless value → Value.ofForm (asRead value) = Value.ofForm value := by
  induction value using FormValue.rec
    (motive_2 := fun items => AllDateless items → Value.ofForms (allRead items) = Value.ofForms items) with
  | decimal value =>
    intro _
    exact congrArg Value.decimal (decode_settled value)
  | dateValue iso => exact False.elim
  | sequence items ih =>
    intro dateless
    exact congrArg Value.sequence (ih dateless)
  | geoPoint lat lon alt accuracy =>
    intro _
    rw [asRead, Value.ofForm, Value.ofForm, decode_settled, decode_settled, map_decode_settled, map_decode_settled]
  | cons value rest first others =>
    rename_i dateless
    obtain ⟨here, later⟩ := dateless
    rw [allRead, Value.ofForms, Value.ofForms, first here, others later]
  | _ =>
    intros
    rfl

theorem sameField_self (d : Option Binary64) : Form.Evaluator.sameField d d = true := by
  cases d with
  | none => rfl
  | some d => exact decide_eq_true rfl

theorem same_self (value : Value) : same value value = true := by
  induction value using Value.rec (motive_2 := fun items => sameAll items items = true) with
  | null => rfl
  | sequence items ih => exact ih
  | geoPoint lat lon alt accuracy =>
    rw [same, decide_eq_true rfl, decide_eq_true rfl, sameField_self, sameField_self]
    rfl
  | mediaRef id filename hash size => simp [same]
  | nil => rfl
  | cons value rest first others =>
    rw [sameAll, first, others]
    rfl
  | _ => exact decide_eq_true rfl

theorem same_asRead (value : FormValue) :
    ¬ Dateless value → same (Value.ofForm value) (Value.ofForm (asRead value)) = false := by
  induction value using FormValue.rec
    (motive_2 := fun items => ¬ AllDateless items →
      sameAll (Value.ofForms items) (Value.ofForms (allRead items)) = false) with
  | dateValue iso =>
    intro _
    rfl
  | sequence items ih => exact ih
  | cons value rest first others =>
    rename_i dated
    rw [allRead, Value.ofForms, Value.ofForms, sameAll]
    by_cases here : Dateless value
    · rw [others fun later => dated ⟨here, later⟩, Bool.and_false]
    · rw [first here, Bool.false_and]
  | nil =>
    rename_i dated
    exact absurd trivial dated
  | _ =>
    intro dated
    exact absurd trivial dated

def SameTests (toText : Binary64 → String) (a b : Value) : Prop :=
  (∀ other, equalValues a other = equalValues b other ∧ equalValues other a = equalValues other b ∧
    selected a other = selected b other ∧ selected other a = selected other b) ∧
  Form.Evaluator.castStr toText a = Form.Evaluator.castStr toText b

theorem noDouble_of_dated {value : FormValue} (dated : ¬ Dateless value) :
    Form.Evaluator.asDouble (Value.ofForm value) = none ∧ Form.Evaluator.asDouble (Value.ofForm (asRead value)) = none := by
  cases value with
  | dateValue iso => exact ⟨rfl, rfl⟩
  | sequence items => exact ⟨rfl, rfl⟩
  | _ => exact absurd trivial dated

theorem sameTests_iff (toText : Binary64 → String) (value : FormValue) :
    SameTests toText (Value.ofForm value) (Value.ofForm (asRead value)) ↔ Dateless value := by
  constructor
  · rintro ⟨tests, -⟩
    by_contra dated
    obtain ⟨before, after⟩ := noDouble_of_dated dated
    have toItself : equalValues (Value.ofForm value) (Value.ofForm value) = true := by
      rw [equalValues, before]
      exact same_self _
    have toTheOther : equalValues (Value.ofForm value) (Value.ofForm (asRead value)) = false := by
      rw [equalValues, before, after]
      exact same_asRead value dated
    rw [(tests (Value.ofForm value)).2.1, toTheOther] at toItself
    cases toItself
  · intro dateless
    rw [ofForm_asRead value dateless]
    exact ⟨fun _ => ⟨rfl, rfl, rfl, rfl⟩, rfl⟩

end Tests

section Expressions

variable (kotlinx : Primitives)

def reserved : List String := ["lit", "ref", "call"]

mutual

def Faithful : Expr → Prop
  | .lit value => asRead value = value
  | .ref _ => True
  | .op name args => name ∉ reserved ∧ AllFaithful args
  | .call _ args => AllFaithful args

def AllFaithful : List Expr → Prop
  | [] => True
  | expr :: rest => Faithful expr ∧ AllFaithful rest

end

theorem exprFromObject_op {entries : List (Units × JsonElement)} {args : Except CompileException (List Expr)} {op : String}
    (isOp : (member entries "op").bind stringOf = some op) (free : op ∉ reserved) :
    exprFromObject kotlinx entries args = args.map (Expr.op op) := by
  simp only [reserved, List.mem_cons, List.not_mem_nil, or_false, not_or] at free
  rw [exprFromObject, isOp]
  dsimp only
  rw [if_neg free.1, if_neg free.2.1, if_neg free.2.2]
  rfl

theorem map_eq_ok {α β ε : Type} {f : α → β} (injective : Function.Injective f) {x : Except ε α} {a : α} :
    x.map f = .ok (f a) ↔ x = .ok a := by
  rw [map_ok_iff]
  constructor
  · rintro ⟨_, rfl, same⟩
    rw [injective same]
  · intro same
    exact ⟨a, same, rfl⟩

theorem argsUnder_other {key : Units} (other : key ≠ literal "args") (value : JsonElement) (rest : List (Units × JsonElement)) :
    argsUnder kotlinx ((key, value) :: rest) = argsUnder kotlinx rest := by
  rw [argsUnder, if_neg other]

theorem argsUnder_args (args : List JsonElement) :
    argsUnder kotlinx [(literal "args", .array args)] = exprsFromJson kotlinx args := by
  rw [argsUnder, if_pos rfl, argsOf]

theorem op_ne_args : literal "op" ≠ literal "args" := by decide

theorem fn_ne_args : literal "fn" ≠ literal "args" := by decide

theorem op_reads (name : String) (args : List Expr) :
    exprFromJson kotlinx (exprToJson kotlinx (.op name args)) = .ok (.op name args) ↔
      name ∉ reserved ∧ exprsFromJson kotlinx (exprsToJson kotlinx args) = .ok args := by
  have isOp : (member [(literal "op", textElement name), (literal "args", JsonElement.array (exprsToJson kotlinx args))]
      "op").bind stringOf = some name := stringOf_text name
  have injective : Function.Injective (Expr.op name) := fun _ _ same => (Expr.op.inj same).2
  rw [exprToJson, exprFromJson, argsUnder_other kotlinx op_ne_args, argsUnder_args]
  by_cases free : name ∈ reserved
  · refine iff_of_false ?_ fun ⟨other, _⟩ => other free
    simp only [reserved, List.mem_cons, List.not_mem_nil, or_false] at free
    rw [exprFromObject, isOp]
    dsimp only
    rcases free with rfl | rfl | rfl
    · rw [if_pos rfl]
      exact fun same => nomatch same
    · rw [if_neg (by decide), if_pos rfl]
      exact fun same => nomatch same
    · rw [if_neg (by decide), if_neg (by decide), if_pos rfl]
      exact fun same => nomatch same
  · rw [exprFromObject_op kotlinx isOp free, map_eq_ok injective]
    exact (and_iff_right free).symm

theorem call_reads (fn : String) (args : List Expr) :
    exprFromJson kotlinx (exprToJson kotlinx (.call fn args)) = .ok (.call fn args) ↔
      exprsFromJson kotlinx (exprsToJson kotlinx args) = .ok args := by
  have injective : Function.Injective (Expr.call fn) := fun _ _ same => (Expr.call.inj same).2
  have isOp : (member [(literal "op", textElement "call"), (literal "fn", textElement fn),
      (literal "args", JsonElement.array (exprsToJson kotlinx args))] "op").bind stringOf = some "call" := stringOf_text "call"
  have isFn : (member [(literal "op", textElement "call"), (literal "fn", textElement fn),
      (literal "args", JsonElement.array (exprsToJson kotlinx args))] "fn").bind stringOf = some fn := stringOf_text fn
  rw [exprToJson, exprFromJson, argsUnder_other kotlinx op_ne_args, argsUnder_other kotlinx fn_ne_args, argsUnder_args,
    exprFromObject, isOp, isFn]
  exact map_eq_ok injective

theorem lit_reads (value : FormValue) :
    exprFromJson kotlinx (exprToJson kotlinx (.lit value)) = .ok (.lit (asRead value)) := by
  have isOp : (member [(literal "op", textElement "lit"), (literal "value", formValueToJson kotlinx value)] "op").bind
      stringOf = some "lit" := stringOf_text "lit"
  have isValue : (member [(literal "op", textElement "lit"), (literal "value", formValueToJson kotlinx value)] "value").getD
      .null = formValueToJson kotlinx value := rfl
  rw [exprToJson, exprFromJson, exprFromObject, isOp, isValue, formValue_reads]
  rfl

theorem ref_reads (path : String) : exprFromJson kotlinx (exprToJson kotlinx (.ref path)) = .ok (.ref path) := by
  have isOp : (member [(literal "op", textElement "ref"), (literal "path", textElement path)] "op").bind stringOf =
      some "ref" := stringOf_text "ref"
  have isPath : (member [(literal "op", textElement "ref"), (literal "path", textElement path)] "path").bind stringOf =
      some path := stringOf_text path
  rw [exprToJson, exprFromJson, exprFromObject, isOp, isPath]
  rfl

theorem expr_reads_iff (expr : Expr) :
    exprFromJson kotlinx (exprToJson kotlinx expr) = .ok expr ↔ Faithful expr := by
  induction expr using Expr.rec
    (motive_2 := fun args => exprsFromJson kotlinx (exprsToJson kotlinx args) = .ok args ↔ AllFaithful args) with
  | lit value =>
    rw [lit_reads, Except.ok.injEq, Expr.lit.injEq]
    rfl
  | ref path => exact iff_of_true (ref_reads kotlinx path) trivial
  | op name args ih => rw [op_reads, ih, Faithful]
  | call fn args ih => rw [call_reads, ih, Faithful]
  | nil => exact iff_of_true rfl trivial
  | cons expr rest first others =>
    rw [AllFaithful, ← first, ← others, exprsToJson, exprsFromJson, bind_ok_iff]
    constructor
    · rintro ⟨here, read, tail⟩
      obtain ⟨later, readRest, same⟩ := bind_ok_iff.mp tail
      obtain ⟨rfl, rfl⟩ := List.cons.inj (Except.ok.inj same)
      exact ⟨read, readRest⟩
    · rintro ⟨read, readRest⟩
      exact ⟨expr, read, bind_ok_iff.mpr ⟨rest, readRest, rfl⟩⟩

end Expressions

section Log

structure JsonText (kotlinx : Primitives) where
  text : JsonElement → Units
  parseToJsonElement : Units → Option JsonElement
  parse_text : ∀ value, parseToJsonElement (text (formValueToJson kotlinx value)) = some (formValueToJson kotlinx value)

inductive LogException where
  | serialization (text : Units)
  | compile (cause : CompileException)

structure Commit where
  kind : OpKind
  path : Option String
  value : Option FormValue
  isSealed : Bool

structure LoggedOp where
  kind : OpKind
  path : Option String
  valueJson : Option Units
  isEncrypted : Bool

variable (kotlinx : Primitives) (json : JsonText kotlinx)

/-- `appendOp`. Only an op with a value is ever sealed. -/
def appendOp (commit : Commit) : LoggedOp where
  kind := commit.kind
  path := commit.path
  valueJson := commit.value.map fun value => json.text (formValueToJson kotlinx value)
  isEncrypted := commit.value.isSome && commit.isSealed

/-- `formValueFromJson(Json.parseToJsonElement(text))`. -/
def readValue (text : Units) : Except LogException FormValue :=
  match json.parseToJsonElement text with
  | some element => (formValueFromJson kotlinx element).mapError .compile
  | none => .error (.serialization text)

/-- One round of `materialisedAnswers`. -/
def materialise (values : Dict FormValue) (op : LoggedOp) : Except LogException (Dict FormValue) :=
  match op.path with
  | none => .ok values
  | some path =>
    match op.kind with
    | .set =>
      match op.valueJson with
      | some text => (readValue kotlinx json text).map (values.insert path)
      | none => .ok (if op.isEncrypted then values.erase path else values.insert path .null)
    | .unset => .ok (values.erase path)
    | _ => .ok values

def materialisedAnswers (ops : List LoggedOp) : Except LogException (Dict FormValue) := ops.foldlM (materialise kotlinx json) ∅

def answer (values : Dict FormValue) (commit : Commit) : Dict FormValue :=
  match commit.path with
  | none => values
  | some path =>
    match commit.kind with
    | .set => values.insert path (commit.value.getD .null)
    | .unset => values.erase path
    | _ => values

theorem readValue_text (value : FormValue) :
    readValue kotlinx json (json.text (formValueToJson kotlinx value)) = .ok (asRead value) := by
  rw [readValue, json.parse_text]
  dsimp only
  rw [formValue_reads]
  rfl

theorem materialise_appendOp (values : Dict FormValue) (commit : Commit) :
    materialise kotlinx json (mapValues (fun _ => asRead) values) (appendOp kotlinx json commit) =
      .ok (mapValues (fun _ => asRead) (answer values commit)) := by
  obtain ⟨kind, path, value, isSealed⟩ := commit
  cases path with
  | none => rfl
  | some path =>
    cases kind with
    | set =>
      cases value with
      | none => exact congrArg Except.ok (mapValues_insert asRead values path .null).symm
      | some value =>
        refine (congrArg (Except.map _) (readValue_text kotlinx json value)).trans ?_
        exact congrArg Except.ok (mapValues_insert asRead values path value).symm
    | unset => exact congrArg Except.ok (mapValues_erase asRead values path).symm
    | _ => rfl

theorem foldlM_materialise (commits : List Commit) (values : Dict FormValue) :
    (commits.map (appendOp kotlinx json)).foldlM (materialise kotlinx json) (mapValues (fun _ => asRead) values) =
      .ok (mapValues (fun _ => asRead) (commits.foldl answer values)) := by
  induction commits generalizing values with
  | nil => rfl
  | cons commit rest ih =>
    rw [List.map_cons, List.foldlM_cons, materialise_appendOp]
    exact ih (answer values commit)

end Log

/-! ### A library to run it on -/

section Plain

def plainLong (content : Units) : Option Int64 :=
  let (negative, digits) := Form.Numeral.sign (Utf16.decode content)
  if digits ≠ [] ∧ digits.all Char.isDigit then
    some (Int64.ofInt (if negative then -(Nat.ofDigitChars 10 digits 0 : ℤ) else Nat.ofDigitChars 10 digits 0))
  else none

theorem plainLong_longText (n : Int64) : plainLong (longText n) = some n := by
  have read : Form.Numeral.sign (Utf16.decode (longText n)) = (decide (n.toInt < 0), Nat.toDigits 10 n.toInt.natAbs) := by
    have signed := Form.Numeral.sign_toString n.toInt []
    rwa [List.append_nil, List.append_nil, ← Utf16.decode_encode (toString n.toInt).toList] at signed
  have decimal : (Nat.toDigits 10 n.toInt.natAbs).all Char.isDigit = true :=
    List.all_eq_true.mpr Form.Numeral.toDigits_decimal
  have value : (if decide (n.toInt < 0) then -(n.toInt.natAbs : ℤ) else n.toInt.natAbs) = n.toInt := by
    by_cases negative : n.toInt < 0
    · rw [if_pos (decide_eq_true negative)]
      omega
    · rw [if_neg (by simpa using negative)]
      omega
  rw [plainLong, read]
  dsimp only
  rw [if_pos ⟨Nat.toDigits_ne_nil, decimal⟩, Nat.ofDigitChars_ten_toDigits, value, Int64.ofInt_toInt]

def plainBool (content : Units) : Option Bool :=
  if content = literal "true" then some true else if content = literal "false" then some false else none

theorem plainBool_none {content : Units} (noTrue : content ≠ literal "true") (noFalse : content ≠ literal "false") :
    plainBool content = none := by
  rw [plainBool, if_neg noTrue, if_neg noFalse]

theorem longText_ne {word : String} (noLong : plainLong (literal word) = none) (n : Int64) : longText n ≠ literal word := by
  intro same
  rw [← same, plainLong_longText] at noLong
  cases noLong

def plainText (d : Double) : Units :=
  [46, UInt16.ofNat (d.toNat / 2 ^ 48), UInt16.ofNat (d.toNat / 2 ^ 32), UInt16.ofNat (d.toNat / 2 ^ 16), UInt16.ofNat d.toNat]

def plainDouble : Units → Option Double
  | [46, a, b, c, d] =>
    some (settled (UInt64.ofNat (a.toNat * 2 ^ 48 + b.toNat * 2 ^ 32 + c.toNat * 2 ^ 16 + d.toNat)))
  | _ => none

theorem plainDouble_plainText (d : Double) : plainDouble (plainText d) = some (settled d) := by
  have bound : d.toNat < 2 ^ 64 := d.toNat_lt
  have value : (UInt16.ofNat (d.toNat / 2 ^ 48)).toNat * 2 ^ 48 + (UInt16.ofNat (d.toNat / 2 ^ 32)).toNat * 2 ^ 32 +
      (UInt16.ofNat (d.toNat / 2 ^ 16)).toNat * 2 ^ 16 + (UInt16.ofNat d.toNat).toNat = d.toNat := by
    simp only [UInt16.toNat_ofNat']
    omega
  show some (settled (UInt64.ofNat _)) = _
  rw [value, UInt64.ofNat_toNat]

theorem plainText_ne {word : String} (noPoint : (literal word).head? ≠ some 46) (d : Double) : plainText d ≠ literal word :=
  fun same => noPoint (congrArg List.head? same.symm)

def plain : Primitives where
  booleanOrNull := plainBool
  longOrNull := plainLong
  doubleOrNull := plainDouble
  doubleText := plainText
  bool_reads b := by cases b <;> decide
  long_bool n := plainBool_none (longText_ne rfl n) (longText_ne rfl n)
  long_reads := plainLong_longText
  double_bool d := plainBool_none (plainText_ne (by decide) d) (plainText_ne (by decide) d)
  double_long d whole := nomatch whole
  double_reads := plainDouble_plainText

end Plain

end DataCollectionLab.Core.AnswerJson
