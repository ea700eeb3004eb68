import DataCollectionLab.Lib.FirstFree
import DataCollectionLab.Lib.Forest
import Mathlib.Data.List.DropRight

/-!
The Form IR document as the builder holds and edits it. A recursion of the source is over nodes it may have replaced, and
has no bound but the stack.
-/

namespace DataCollectionLab.Builder.Document

open Lib Forest

variable {ρ μ : Type}

/-- A question, or a node of a type the builder does not know: kept with all it holds, and never entered. -/
structure Leaf (ρ : Type) where
  type : { type : String // type ≠ "group" ∧ type ≠ "repeat" }
  id : String
  rest : ρ

inductive Kind where
  | group (appearance : Option String)
  | rows
  deriving DecidableEq

structure Container (ρ : Type) where
  kind : Kind
  id : String
  rest : ρ

abbrev IrNode (ρ : Type) := Tree (Leaf ρ) (Container ρ)

structure FormIr (ρ μ : Type) where
  children : List (IrNode ρ)
  rest : μ

def idOf : Leaf ρ ⊕ Container ρ → String := Sum.elim Leaf.id Container.id

def id (node : IrNode ρ) : String := key idOf node

def isContainer : IrNode ρ → Bool
  | .leaf _ => false
  | .branch .. => true

def isRepeat : IrNode ρ → Bool
  | .leaf _ => false
  | .branch b _ => b.kind == .rows

def isFieldList : IrNode ρ → Bool
  | .leaf _ => false
  | .branch b _ => b.kind == .group (some "field-list")

structure NodePath (ρ : Type) where
  node : IrNode ρ
  parent : Option (IrNode ρ)
  index : ℕ
  ancestors : List (IrNode ρ)
  enclosing : Option (IrNode ρ)

mutual

def descend (parent : Option (IrNode ρ)) (ancestors : List (IrNode ρ)) (index : ℕ) : List (IrNode ρ) → List (NodePath ρ)
  | [] => []
  | node :: rest =>
    { node, parent, index, ancestors, enclosing := ancestors.reverse.find? isRepeat } ::
      (descendInto ancestors node ++ descend parent ancestors (index + 1) rest)

def descendInto (ancestors : List (IrNode ρ)) : IrNode ρ → List (NodePath ρ)
  | .leaf _ => []
  | .branch b children => descend (some (.branch b children)) (ancestors ++ [.branch b children]) 0 children

end

/-- The visits of `walk`, in order. -/
def walk (ir : FormIr ρ μ) : List (NodePath ρ) := descend none [] 0 ir.children

def find (ir : FormIr ρ μ) (wanted : String) : Option (NodePath ρ) := (walk ir).find? fun path => id path.node == wanted

def allIds (ir : FormIr ρ μ) : List String := (walk ir).map fun path => id path.node

inductive Failure where
  | refused (message : String)
  | stackOverflow

/-- One list of `mapTree`. -/
def mapList (fn : IrNode ρ → Option (IrNode ρ)) (deeper : List (IrNode ρ) → Except Failure (List (IrNode ρ))) :
    List (IrNode ρ) → Except Failure (List (IrNode ρ))
  | [] => .ok []
  | node :: rest =>
    match fn node with
    | none => mapList fn deeper rest
    | some (.leaf a) => do return .leaf a :: (← mapList fn deeper rest)
    | some (.branch b children) => do
      let children ← deeper children
      return .branch b children :: (← mapList fn deeper rest)

/-- `mapTree`. It goes on into what `fn` returned. -/
def mapTree (fn : IrNode ρ → Option (IrNode ρ)) : ℕ → List (IrNode ρ) → Except Failure (List (IrNode ρ))
  | 0 => fun _ => .error .stackOverflow
  | stack + 1 => mapList fn (mapTree fn stack)

def withChildren (ir : FormIr ρ μ) (children : List (IrNode ρ)) : FormIr ρ μ := { ir with children }

def updateNode (stack : ℕ) (ir : FormIr ρ μ) (target : String) (patch : IrNode ρ → IrNode ρ) :
    Except Failure (FormIr ρ μ) := do
  return withChildren ir (← mapTree (fun node => if id node = target then some (patch node) else some node) stack ir.children)

def removeNode (stack : ℕ) (ir : FormIr ρ μ) (target : String) : Except Failure (FormIr ρ μ) := do
  return withChildren ir (← mapTree (fun node => if id node = target then none else some node) stack ir.children)

structure Slot where
  parentId : Option String
  index : ℤ

def insertAt (list : List (IrNode ρ)) (index : ℤ) (node : IrNode ρ) : List (IrNode ρ) :=
  let gap := max 0 (min index list.length)
  list.take gap.toNat ++ node :: list.drop gap.toNat

def withChild (index : ℤ) (node : IrNode ρ) : IrNode ρ → IrNode ρ
  | .leaf a => .leaf a
  | .branch b children => .branch b (insertAt children index node)

def insertNode (stack : ℕ) (ir : FormIr ρ μ) (slot : Slot) (node : IrNode ρ) : Except Failure (FormIr ρ μ) :=
  match slot.parentId with
  | none => .ok { ir with children := insertAt ir.children slot.index node }
  | some parentId => do
    return withChildren ir (← mapTree (fun candidate =>
      if id candidate ≠ parentId ∨ isContainer candidate = false then some candidate
      else some (withChild slot.index node candidate)) stack ir.children)

mutual

def subtreeHasRepeat : IrNode ρ → Bool
  | .leaf a => isRepeat (.leaf a)
  | .branch b children => isRepeat (.branch b children) || someHasRepeat children

def someHasRepeat : List (IrNode ρ) → Bool
  | [] => false
  | node :: rest => subtreeHasRepeat node || someHasRepeat rest

end

def dropRefusal (ir : FormIr ρ μ) (moved : String) (parentId : Option String) : Option String :=
  match find ir moved with
  | none => some "nothing to move"
  | some moving =>
    match parentId with
    | none => none
    | some parentId =>
      if parentId = moved then some "a node cannot contain itself"
      else
        match find ir parentId with
        | none => some "no such container"
        | some target =>
          if isContainer target.node = false then some "only a group or a repeat can hold questions"
          else if target.ancestors.any fun a => id a == moved then some "a node cannot be moved inside itself"
          else if subtreeHasRepeat moving.node then
            let chain := target.ancestors ++ [target.node]
            if chain.any isRepeat then some "a repeat cannot sit inside a repeat (Form IR §2.3)"
            else if chain.any isFieldList then
              some "a repeat cannot sit inside a field-list group — each is one screen (§11.1)"
            else none
          else none

def sameList (path : NodePath ρ) (slot : Slot) : Bool :=
  (path.parent.isNone && slot.parentId.isNone) || path.parent.any fun parent => slot.parentId == some (id parent)

def moveNode (stack : ℕ) (ir : FormIr ρ μ) (moved : String) (slot : Slot) : Except Failure (FormIr ρ μ) :=
  match dropRefusal ir moved slot.parentId with
  | some refusal => .error (.refused refusal)
  | none =>
    match find ir moved with
    | none => .ok ir
    | some path => do
      let index := if sameList path slot && decide (path.index < slot.index) then slot.index - 1 else slot.index
      insertNode stack (← removeNode stack ir moved) { parentId := slot.parentId, index } path.node

def idLetter (c : Char) : Bool := 'a'.toNat ≤ c.toNat && c.toNat ≤ 'z'.toNat

/-- `[a-z0-9_]` -/
def idChar (c : Char) : Bool := idLetter c || c.isDigit || c == '_'

/-- `ID_PATTERN` -/
def ValidId (text : List Char) : Prop := ∃ first rest, text = first :: rest ∧ idLetter first = true ∧ rest.all idChar = true

/-- `.replace(/[^a-z0-9_]+/g, "_")`, inside of a run or not. -/
def underscored (run : Bool) : List Char → List Char
  | [] => []
  | c :: rest => if idChar c then c :: underscored false rest else if run then underscored true rest else '_' :: underscored true rest

def cleaned (toLowerCase : String → String) (base : String) : List Char :=
  let text := ((underscored false (toLowerCase base).toList).dropWhile fun c => !idLetter c).rdropWhile (· == '_')
  if text = [] then ['q'] else text

def candidate (text : List Char) (n : ℕ) : String :=
  if n = 0 then String.ofList text else String.ofList (text ++ '_' :: (toString (n + 1)).toList)

/-- `uniqueId`, with so many turns of its loop. -/
def uniqueId (toLowerCase : String → String) (turns : ℕ) (ir : FormIr ρ μ) (base : String) : Option String :=
  firstFree (candidate (cleaned toLowerCase base)) (fun name => decide (name ∉ allIds ir)) turns 0

end DataCollectionLab.Builder.Document
