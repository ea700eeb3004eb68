import DataCollectionLab.Submissions.Models

/-!
The builder's draft: one document, the test cases saved with it, and what the server last acknowledged.
-/

namespace DataCollectionLab.Builder

inductive SaveStatus where
  | clean | dirty | saving | conflict | failed
  deriving DecidableEq, Repr

structure TestCase where
  id : String
  name : String
  steps : Option (List Json) := none
  expectations : Option (List Json) := none

structure SaveState where
  status : SaveStatus
  message : Option String

variable {Doc : Type} [DecidableEq Doc]

/-- The store. A document is an object: two that are equal are one object, and what they hold is read elsewhere. -/
structure BuilderState (Doc : Type) where
  formId : Option String := none
  ir : Option Doc := none
  saved : Option Doc := none
  revision : Option Nat := none
  save : SaveState := ⟨.clean, none⟩
  testCases : List TestCase := []

namespace BuilderState

variable (state : BuilderState Doc)

def edited : SaveState := ⟨if state.save.status = .conflict then .conflict else .dirty, none⟩

/-- Every edit of the document: `replace`, `editForm`, `editNode`, `setProperty`, `insert`, `remove` and `move`. -/
def edit (next : Doc) : BuilderState Doc :=
  match state.ir with
  | none => state
  | some ir => if next = ir then state else { state with ir := some next, save := state.edited }

def editCases (change : List TestCase → List TestCase) : BuilderState Doc :=
  match state.ir with
  | none => state
  | some _ => { state with testCases := change state.testCases, save := state.edited }

def openForm (formId : String) (ir : Doc) (revision : Option Nat) (testCases : List TestCase) : BuilderState Doc where
  formId := some formId
  ir := some ir
  saved := if revision = none then none else some ir
  revision := revision
  save := ⟨if revision = none then .dirty else .clean, none⟩
  testCases := testCases

def close : BuilderState Doc := {}

def saveStarted : BuilderState Doc := { state with save := ⟨.saving, none⟩ }

def saveSucceeded (sent : Doc) (revision : Nat) : BuilderState Doc :=
  { state with
    saved := some sent
    revision := some revision
    save := ⟨if state.ir = some sent then .clean else .dirty, none⟩ }

def saveConflicted (message : String) : BuilderState Doc := { state with save := ⟨.conflict, some message⟩ }

def saveFailed (message : String) : BuilderState Doc := { state with save := ⟨.failed, some message⟩ }

def addTestCase (testCase : TestCase) : BuilderState Doc := state.editCases (· ++ [testCase])

def removeTestCase (id : String) : BuilderState Doc := state.editCases (·.filter (·.id ≠ id))

def renameTestCase (id name : String) : BuilderState Doc :=
  state.editCases (·.map fun c => if c.id = id then { c with name := name } else c)

def replaceTestCase (testCase : TestCase) : BuilderState Doc :=
  state.editCases (·.map fun c => if c.id = testCase.id then testCase else c)

/-- What the timer of `useAutoSave` asks when it fires. -/
def due : Bool :=
  match state.ir with
  | none => false
  | some ir => !(state.saved = some ir && state.save.status ≠ .dirty)

end BuilderState

structure Request (Doc : Type) where
  editor : Nat
  formId : String
  ir : Doc
  expectedRevision : Option Nat
  testCases : List TestCase

inductive Answer where
  | succeeded (revision : Nat)
  | conflicted (message : String)
  | failed (message : String)

/-- The page: the store, the editor that is mounted with its `inFlight`, the requests nobody has answered, and for
each form what was acknowledged last. -/
structure Page (Doc : Type) where
  store : BuilderState Doc := {}
  editor : Nat := 0
  inFlight : Bool := false
  pending : List (Request Doc) := []
  acknowledged : String → Option (Doc × List TestCase) := fun _ => none

inductive Event (Doc : Type) where
  | opened (formId : String) (ir : Doc) (revision : Option Nat) (testCases : List TestCase)
  | closed
  | edited (next : Doc)
  | addedTestCase (testCase : TestCase)
  | removedTestCase (id : String)
  | renamedTestCase (id name : String)
  | replacedTestCase (testCase : TestCase)
  | saving
  | answered (request : Nat) (answer : Answer)

namespace Page

variable (page : Page Doc)

/-- The guard of `useAutoSave`'s effect. -/
def admits : Bool :=
  page.store.due && !(page.store.save.status = .conflict || page.store.save.status = .saving || page.inFlight)

def openForm (formId : String) (ir : Doc) (revision : Option Nat) (testCases : List TestCase) : Page Doc :=
  { page with
    store := BuilderState.openForm formId ir revision testCases
    editor := if page.store.formId = some formId then page.editor else page.editor + 1
    inFlight := page.store.formId = some formId && page.inFlight
    acknowledged := Function.update page.acknowledged formId (revision.map fun _ => (ir, testCases)) }

def close : Page Doc := { page with store := .close, editor := page.editor + 1, inFlight := false }

def startSave : Page Doc :=
  match page.store.formId, page.store.ir with
  | some formId, some sent =>
    if page.admits && page.store.due then
      { page with
        store := page.store.saveStarted
        inFlight := true
        pending := page.pending ++ [⟨page.editor, formId, sent, page.store.revision, page.store.testCases⟩] }
    else page
  | _, _ => page

def answer (request : Request Doc) (index : Nat) : Answer → Page Doc
  | .succeeded revision =>
    { page with
      store := page.store.saveSucceeded request.ir revision
      inFlight := request.editor ≠ page.editor && page.inFlight
      pending := page.pending.eraseIdx index
      acknowledged := Function.update page.acknowledged request.formId (some (request.ir, request.testCases)) }
  | .conflicted message =>
    { page with
      store := page.store.saveConflicted message
      inFlight := request.editor ≠ page.editor && page.inFlight
      pending := page.pending.eraseIdx index }
  | .failed message =>
    { page with
      store := page.store.saveFailed message
      inFlight := request.editor ≠ page.editor && page.inFlight
      pending := page.pending.eraseIdx index }

def next : Event Doc → Page Doc
  | .opened formId ir revision testCases => page.openForm formId ir revision testCases
  | .closed => page.close
  | .edited document => { page with store := page.store.edit document }
  | .addedTestCase testCase => { page with store := page.store.addTestCase testCase }
  | .removedTestCase id => { page with store := page.store.removeTestCase id }
  | .renamedTestCase id name => { page with store := page.store.renameTestCase id name }
  | .replacedTestCase testCase => { page with store := page.store.replaceTestCase testCase }
  | .saving => page.startSave
  | .answered index given =>
    match page.pending[index]? with
    | none => page
    | some request => page.answer request index given

end Page

end DataCollectionLab.Builder
