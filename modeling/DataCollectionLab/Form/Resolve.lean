import DataCollectionLab.Form.Document
import DataCollectionLab.Lib.Lists

/-!
How a reference finds its value: `_resolve`. The values of a form are kept by path, `age` outside a repeat
and `members[i3].age` within one.
-/

namespace DataCollectionLab.Form

open Lib

def instancePath (rid iid fid : String) : String := rid ++ "[" ++ iid ++ "]." ++ fid

namespace Reference

/-- `int(text)`; none where it raises `ValueError`. -/
def intOfText (cs : List Char) : Option ℤ := do
  let cs ← dropUnderscores ' ' ((strip cs).map toAscii)
  let (ds, rest) := Numeral.digits Numeral.digit (Numeral.sign cs).2
  if ds = [] ∨ rest ≠ [] then none
  else some (if (Numeral.sign cs).1 then -(Numeral.natOfDigits 10 ds : ℤ) else Numeral.natOfDigits 10 ds)

variable (ctx : Context)

/-- `ctx.values.get(...)` of a field of one instance. -/
def valueIn (rid iid suffix : String) : Value := (ctx.values (instancePath rid iid suffix)).getD .null

/-- `members[.].age` and `members[0].age`. -/
def resolveIndexed (path rid suffix : String) (index : List Char) : Except Failure Value :=
  if index = ['.'] then
    match ctx.scope with
    | some (repeatId, iid) =>
      if repeatId = rid then .ok (valueIn ctx rid iid suffix)
      else .error (.compile ("[.] reference outside its repeat: " ++ path))
    | none => .error (.compile ("[.] reference outside its repeat: " ++ path))
  else
    match intOfText index with
    | none => .error (.raised "ValueError")
    | some position =>
      let ordered := (ctx.instances rid).getD []
      if position < 0 then .ok .null
      else
        match ordered[position.toNat]? with
        | none => .ok .null
        | some iid => .ok (valueIn ctx rid iid suffix)

def resolveBare (path : String) : Except Failure Value :=
  match ctx.scope.bind fun scope => ctx.values (instancePath scope.1 scope.2 path) with
  | some value => .ok value
  | none =>
    match ctx.values path with
    | some value => .ok value
    | none => .error (.compile ("unresolvable reference: " ++ path))

def resolve (path : String) : Except Failure Value :=
  match rowPath path with
  | some column =>
    match ctx.row with
    | none => .error (.compile ("$row reference outside a choice filter: " ++ path))
    | some row => .ok ((row column).getD .null)
  | none =>
    if metadataPrefix.isPrefixOf path.toList then
      .ok ((ctx.metadata (String.ofList (path.toList.drop metadataPrefix.length))).getD .null)
    else
      match cutAt "[].".toList path.toList with
      | some (rid, suffix) =>
        let ordered := (ctx.instances (String.ofList rid)).getD []
        .ok (.sequence (ordered.map fun iid => valueIn ctx (String.ofList rid) iid (String.ofList suffix)))
      | none =>
        match cutAt "[".toList path.toList, cutAt "].".toList path.toList with
        | some (rid, rest), some _ =>
          match cutAt "].".toList rest with
          | none => .error (.raised "ValueError")
          | some (index, suffix) => resolveIndexed ctx path (String.ofList rid) (String.ofList suffix) index
        | _, _ => resolveBare ctx path

end Reference

end DataCollectionLab.Form
