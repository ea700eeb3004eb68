import DataCollectionLab.Form.Formed
import DataCollectionLab.Lib.Texts

/-!
References through an import: the ids that the rows of a survey get, the references rewritten to them once every row is
read, and the checks of what no question answers.
-/

namespace DataCollectionLab.Xlsform.References

open Form (Expr idPattern paths)
open Lib

section Names

def idChar (c : Char) : Bool := ('a' ≤ c && c ≤ 'z') || ('0' ≤ c && c ≤ '9') || c = '_'

/-- `re.sub(r"[^a-z0-9_]+", "_", …)`, in a run of other characters or not. -/
def underscored : Bool → List Char → List Char
  | _, [] => []
  | inside, c :: rest =>
    if idChar c then c :: underscored false rest
    else if inside then underscored true rest
    else '_' :: underscored true rest

variable (lower : String → String)

/-- `normalise_id`, over `str.lower`. -/
def normaliseId (name : String) : String :=
  let slug := trim (· = '_') (underscored false (lower (String.ofList (Form.Reference.strip name.toList))).toList)
  match slug with
  | [] => ""
  | first :: _ => String.ofList (if 'a' ≤ first && first ≤ 'z' then slug else 'q' :: '_' :: slug)

def identifier (ids : List String) (name : String) : Option String :=
  if idPattern name then some name
  else
    let slug := normaliseId lower name
    if slug = "" ∨ idPattern slug = false then none
    else if slug ∈ ids then none
    else some slug

end Names

section Rows

/-- The keys whose expressions are remembered in `expression_cells`. -/
def checkedKey (key : String) : Bool := key ≠ "required" && key ≠ "readOnly"

/-- An expression of a row as `translate` gives it, and the names that its cell has in `${…}`. -/
structure ExprCell where
  /-- The key of the node that it is written to. -/
  key : String
  expr : Expr
  written : List String
  within : ∀ n ∈ written, n ∈ paths expr
  /-- A later column of the row writes the same key, which only `readonly` and `read_only` share. -/
  replaced : Bool := false
  unchecked : replaced = true → checkedKey key = false := by simp

inductive TextBase where
  | label | hint | message
  deriving DecidableEq

/-- A text of a row, all its languages: the names that they insert, in order. -/
structure TextCell where
  base : TextBase
  order : List String

inductive RowKind where
  | question | group | repeated
  deriving DecidableEq

structure SurveyRow where
  number : ℕ
  kind : RowKind
  name : Option String
  /-- The type records device metadata. -/
  metadata : Bool := false
  /-- `_data_type` finds a type. -/
  typed : Bool := true
  exprs : List ExprCell := []
  texts : List TextCell := []

/-- A row that is imported: the id of its node, and its name where it is a question. -/
structure Imported where
  id : String
  name : Option String
  exprs : List ExprCell := []
  texts : List TextCell := []

structure Reading where
  questionIds : List String := []
  /-- The latest first. -/
  renames : List (String × String) := []
  rows : List Imported := []

variable (lower : String → String)

/-- `_question`. A rename is remembered before the row is refused. -/
def readQuestion (reading : Reading) (row : SurveyRow) : Reading :=
  match row.name with
  | none => reading
  | some name =>
    if row.metadata then reading
    else
      match identifier lower reading.questionIds name with
      | none => reading
      | some id =>
        let reading := if name = id then reading else { reading with renames := (name, id) :: reading.renames }
        if id ∈ reading.questionIds then reading
        else if row.typed = false then reading
        else { reading with
          questionIds := reading.questionIds ++ [id]
          rows := reading.rows ++ [⟨id, some name, row.exprs, row.texts⟩] }

def RowKind.word : RowKind → String
  | question => "question"
  | group => "group"
  | repeated => "repeat"

/-- `_container`: a node without cells, where its name makes no id. -/
def readContainer (reading : Reading) (row : SurveyRow) : Reading :=
  let own := row.kind.word ++ "_" ++ toString row.number
  match identifier lower reading.questionIds (row.name.getD own) with
  | none => { reading with rows := reading.rows ++ [⟨own, none, [], []⟩] }
  | some id => { reading with rows := reading.rows ++ [⟨id, none, row.exprs, row.texts⟩] }

def readRow (reading : Reading) (row : SurveyRow) : Reading :=
  if row.kind = .question then readQuestion lower reading row else readContainer lower reading row

def readRows (rows : List SurveyRow) : Reading := rows.foldl (readRow lower) {}

end Rows

section Rewrite

def headOf (path : String) : String := String.ofList (path.toList.takeWhile (· ≠ '.'))

def tailOf (path : String) : String := String.ofList ((path.toList.dropWhile (· ≠ '.')).drop 1)

variable (renames : List (String × String))

def renamed (path : String) : String :=
  match renames.lookup (headOf path) with
  | none => path
  | some id => if tailOf path = "" then id else id ++ "." ++ tailOf path

mutual

def rewriteRefs : Expr → Expr
  | .lit value => .lit value
  | .ref path => .ref (renamed renames path)
  | .op name args => .op name (rewriteAll args)
  | .call fn args => .call fn (rewriteAll args)

def rewriteAll : List Expr → List Expr
  | [] => []
  | arg :: rest => rewriteRefs arg :: rewriteAll rest

end

end Rewrite

section Checks

/-- A node of the document: of each expression cell what it has, and the paths that its texts insert. -/
structure FormNode where
  id : String
  exprs : List (Option Expr)
  labelArgs : Option (List String)
  messageArgs : Option (List String)

def lastOrder (base : TextBase) (texts : List TextCell) : List String :=
  ((texts.filter fun cell => cell.base = base ∧ cell.order ≠ []).getLast?.map TextCell.order).getD []

def argsOf (renames : List (String × String)) (order : List String) : Option (List String) :=
  if order = [] then none else some (order.map (renamed renames))

def unknownPath (ids : List String) (path : String) : Bool :=
  headOf path ∉ ids && !("_".toList.isPrefixOf path.toList) && !("$row.".toList.isPrefixOf path.toList)

def unknownName (ids : List String) (name : String) : Bool := headOf name ∉ ids && !("_".toList.isPrefixOf name.toList)

variable (reading : Reading)

/-- The references of a cell that `unknown_reference` is about. -/
def missingRefs (cell : ExprCell) : List String :=
  if checkedKey cell.key then (paths (rewriteRefs reading.renames cell.expr)).filter (unknownPath reading.questionIds) else []

def exprReport (cell : ExprCell) : List String := (missingRefs reading cell).map headOf

/-- The names that the message of `unknown_reference_in_label` gives. -/
def textReport (cell : TextCell) : List String := cell.order.filter (unknownName reading.questionIds)

def keptExpr (cell : ExprCell) : Option Expr :=
  if cell.replaced ∨ missingRefs reading cell ≠ [] then none else some (rewriteRefs reading.renames cell.expr)

def nodeOf (row : Imported) : FormNode where
  id := row.id
  exprs := row.exprs.map (keptExpr reading)
  labelArgs := argsOf reading.renames (lastOrder .label row.texts)
  messageArgs := argsOf reading.renames (lastOrder .message row.texts)

def dropArgs (base : TextBase) (node : FormNode) : FormNode :=
  if base = .label then { node with labelArgs := none } else { node with messageArgs := none }

def changeFirst (id : String) (change : FormNode → FormNode) : List FormNode → List FormNode
  | [] => []
  | node :: rest => if node.id = id then change node :: rest else node :: changeFirst id change rest

/-- `label_arg_cells`. -/
def textEntries : List (String × TextCell) := reading.rows.flatMap fun row => row.texts.map (row.id, ·)

def checkText (nodes : List FormNode) (entry : String × TextCell) : List FormNode :=
  if textReport reading entry.2 = [] then nodes else changeFirst entry.1 (dropArgs entry.2.base) nodes

def importedNodes : List FormNode := (textEntries reading).foldl (checkText reading) (reading.rows.map (nodeOf reading))

end Checks

section Claim

variable (reading : Reading)

def carriers (name : String) : List Imported := reading.rows.filter fun row => row.name = some name

/-- What the returned document and the report say of a name written in an expression: it points at the one question that
carries it, or it is reported and nothing is left that no question answers. -/
def ExprFollowed (cell : ExprCell) (kept : Option Expr) (name : String) : Prop :=
  (∀ row, carriers reading name = [row] → renamed reading.renames name ∉ missingRefs reading cell ∧
    ∀ e ∈ kept, ∀ pair ∈ (paths cell.expr).zip (paths e), pair.1 = name → pair.2 = row.id) ∧
  (carriers reading name = [] → name ∈ exprReport reading cell ∧
    ∀ e ∈ kept, ∀ pair ∈ (paths cell.expr).zip (paths e), pair.1 = name → headOf pair.2 ∈ reading.questionIds)

def FormNode.args (node : FormNode) : TextBase → Option (List String)
  | .label => node.labelArgs
  | .message => node.messageArgs
  | .hint => none

def TextFollowed (row : Imported) (node : FormNode) (cell : TextCell) (name : String) : Prop :=
  (∀ question, carriers reading name = [question] → name ∉ textReport reading cell ∧
    ∀ args ∈ node.args cell.base, ∀ pair ∈ (lastOrder cell.base row.texts).zip args, pair.1 = name → pair.2 = question.id) ∧
  (carriers reading name = [] → name ∈ textReport reading cell ∧
    ∀ args ∈ node.args cell.base, ∀ pair ∈ (lastOrder cell.base row.texts).zip args, pair.1 = name →
      headOf pair.2 ∈ reading.questionIds)

def Followed : Prop :=
  ∀ (k : ℕ) (row : Imported) (node : FormNode), reading.rows[k]? = some row → (importedNodes reading)[k]? = some node →
    (∀ (j : ℕ) (cell : ExprCell) (kept : Option Expr), row.exprs[j]? = some cell → node.exprs[j]? = some kept →
      ∀ name ∈ cell.written, ExprFollowed reading cell kept name) ∧
    ∀ cell ∈ row.texts, cell.base ≠ .hint → ∀ name ∈ cell.order, TextFollowed reading row node cell name

end Claim

section Condition

variable (lower : String → String) (reading : Reading)

def Straight (name : String) : Prop :=
  '.' ∉ name.toList ∨ tailOf name = "" ∧ reading.renames.lookup (headOf name) = some (normaliseId lower name)

/-- A path that is about no question: what is before its first dot is no id and was renamed to none, and it begins as
neither metadata nor a column of a row does. -/
def Stray (name : String) : Prop :=
  match reading.renames.lookup (headOf name) with
  | some id => id ∉ reading.questionIds
  | none => unknownPath reading.questionIds name = true

def Reaches (name : String) : Prop :=
  match reading.renames.lookup (headOf name) with
  | some id => id ∈ reading.questionIds
  | none => headOf name ∈ reading.questionIds

/-- The texts of a row keep their arguments: no text of the kind inserts an unknown name in a row whose id this row is the
first to have. -/
def Stays (k : ℕ) (base : TextBase) : Prop :=
  ∀ row ∈ reading.rows, ∀ cell ∈ row.texts, (∃ name ∈ cell.order, unknownName reading.questionIds name = true) →
    (cell.base = .label ↔ base = .label) → reading.rows.findIdx? (·.id = row.id) ≠ some k

def ExprSound (cell : ExprCell) (name : String) : Prop :=
  (∀ row, carriers reading name = [row] → Straight lower reading name ∨
    (checkedKey cell.key = true → ¬ Stray reading name) ∧
      (cell.replaced = true ∨ checkedKey cell.key = true ∧ ∃ other ∈ paths cell.expr, Stray reading other)) ∧
  (carriers reading name = [] → checkedKey cell.key = true ∧ '.' ∉ name.toList ∧ reading.renames.lookup name = none ∧
    unknownName reading.questionIds name = true)

def TextSound (k : ℕ) (row : Imported) (cell : TextCell) (name : String) : Prop :=
  (∀ question, carriers reading name = [question] → unknownName reading.questionIds name = false ∧
    (name ∈ lastOrder cell.base row.texts → Stays reading k cell.base → Straight lower reading name)) ∧
  (carriers reading name = [] → unknownName reading.questionIds name = true ∧
    (name ∈ lastOrder cell.base row.texts → Stays reading k cell.base → Reaches reading name))

/-- Every name is written so that its reference is followed: in an expression, a name that a question carries without a
dot, and one that none carries where references are checked, without a dot, not renamed and no id; in a text, a name that
a question carries under an id of the document, and one that none carries in the first row of its id. -/
def Sound : Prop :=
  ∀ (k : ℕ) (row : Imported), reading.rows[k]? = some row →
    (∀ cell ∈ row.exprs, ∀ name ∈ cell.written, ExprSound lower reading cell name) ∧
    ∀ cell ∈ row.texts, cell.base ≠ .hint → ∀ name ∈ cell.order, TextSound lower reading k row cell name

end Condition

section Reading

variable {lower : String → String}

/-- What a reading keeps: ids are ids, a renamed name is none, and a question has its name's id. -/
structure Reading.Inv (lower : String → String) (reading : Reading) : Prop where
  ids : ∀ id ∈ reading.questionIds, idPattern id = true
  renames : ∀ entry ∈ reading.renames, idPattern entry.1 = false ∧ entry.2 = normaliseId lower entry.1 ∧ idPattern entry.2 = true
  questions : ∀ row ∈ reading.rows, ∀ name, row.name = some name → row.id ∈ reading.questionIds ∧
    (idPattern name = true ∧ row.id = name ∨
      idPattern name = false ∧ row.id = normaliseId lower name ∧ reading.renames.lookup name = some row.id)

theorem identifier_cases {ids : List String} {name id : String} (is : identifier lower ids name = some id) :
    idPattern id = true ∧ (idPattern name = true ∧ id = name ∨ idPattern name = false ∧ id = normaliseId lower name ∧ name ≠ id) := by
  unfold identifier at is
  split at is
  · rename_i pattern
    obtain rfl := Option.some.inj is
    exact ⟨pattern, .inl ⟨pattern, rfl⟩⟩
  · rename_i plain
    have none : idPattern name = false := by simpa using plain
    dsimp only at is
    split at is
    · cases is
    · rename_i usable
      split at is
      · cases is
      · obtain rfl := Option.some.inj is
        have slug : idPattern (normaliseId lower name) = true := by
          cases pattern : idPattern (normaliseId lower name) with
          | true => rfl
          | false => exact absurd (.inr pattern) usable
        refine ⟨slug, .inr ⟨none, rfl, ?_⟩⟩
        intro same
        rw [← same, none] at slug
        cases slug

theorem lookup_rename {reading : Reading} (inv : reading.Inv lower) {name other id : String}
    (found : reading.renames.lookup other = some id) :
    ((name, normaliseId lower name) :: reading.renames).lookup other = some id := by
  rw [List.lookup_cons]
  by_cases same : other = name
  · subst same
    obtain ⟨before, after, is, -⟩ := List.lookup_eq_some_iff.mp found
    have listed : (other, id) ∈ reading.renames := by
      rw [is]
      exact List.mem_append_right _ List.mem_cons_self
    rw [beq_self_eq_true]
    exact congrArg some (inv.renames _ listed).2.1.symm
  · rw [beq_eq_false_iff_ne.mpr same]
    exact found

theorem Reading.Inv.rename {reading : Reading} (inv : reading.Inv lower) {name : String} (plain : idPattern name = false)
    (slug : idPattern (normaliseId lower name) = true) :
    Reading.Inv lower { reading with renames := (name, normaliseId lower name) :: reading.renames } := by
  refine ⟨inv.ids, ?_, ?_⟩
  · rintro entry (_ | ⟨_, member⟩)
    · exact ⟨plain, rfl, slug⟩
    · exact inv.renames entry member
  · intro row member other carries
    obtain ⟨listed, own | ⟨plain', is, found⟩⟩ := inv.questions row member other carries
    · exact ⟨listed, .inl own⟩
    · exact ⟨listed, .inr ⟨plain', is, lookup_rename inv found⟩⟩

theorem Reading.Inv.node {reading : Reading} (inv : reading.Inv lower) (id : String) (exprs : List ExprCell)
    (texts : List TextCell) : Reading.Inv lower { reading with rows := reading.rows ++ [⟨id, none, exprs, texts⟩] } := by
  refine ⟨inv.ids, inv.renames, ?_⟩
  intro row member name carries
  rcases List.mem_append.mp member with old | new
  · exact inv.questions row old name carries
  · obtain rfl := List.mem_singleton.mp new
    cases carries

theorem readQuestion_inv {reading : Reading} (inv : reading.Inv lower) (row : SurveyRow) :
    (readQuestion lower reading row).Inv lower := by
  unfold readQuestion
  split
  · exact inv
  rename_i name _
  split
  · exact inv
  split
  · exact inv
  rename_i id is
  obtain ⟨pattern, spelled⟩ := identifier_cases is
  dsimp only
  -- The rename is there before the row is refused or taken.
  have renamed : Reading.Inv lower (if name = id then reading else { reading with renames := (name, id) :: reading.renames }) := by
    rcases spelled with ⟨-, rfl⟩ | ⟨plain, rfl, apart⟩
    · rw [if_pos rfl]
      exact inv
    · rw [if_neg apart]
      exact inv.rename plain pattern
  have found : idPattern name = true ∧ id = name ∨ idPattern name = false ∧ id = normaliseId lower name ∧
      (if name = id then reading else { reading with renames := (name, id) :: reading.renames }).renames.lookup name = some id := by
    rcases spelled with ⟨own, rfl⟩ | ⟨plain, rfl, apart⟩
    · exact .inl ⟨own, rfl⟩
    · refine .inr ⟨plain, rfl, ?_⟩
      rw [if_neg apart, List.lookup_cons, beq_self_eq_true]
  generalize (if name = id then reading else { reading with renames := (name, id) :: reading.renames }) = next at renamed found
  split
  · exact renamed
  split
  · exact renamed
  refine ⟨?_, renamed.renames, ?_⟩
  · intro id' member
    rcases List.mem_append.mp member with old | new
    · exact renamed.ids id' old
    · rw [List.mem_singleton.mp new]
      exact pattern
  · intro row' member name' carries
    rcases List.mem_append.mp member with old | new
    · obtain ⟨listed, own⟩ := renamed.questions row' old name' carries
      exact ⟨List.mem_append_left _ listed, own⟩
    · obtain rfl := List.mem_singleton.mp new
      obtain rfl := Option.some.inj carries
      exact ⟨List.mem_append_right _ (List.mem_singleton.mpr rfl), found⟩

theorem readRow_inv {reading : Reading} (inv : reading.Inv lower) (row : SurveyRow) : (readRow lower reading row).Inv lower := by
  unfold readRow
  split
  · exact readQuestion_inv inv row
  · unfold readContainer
    dsimp only
    split
    · exact inv.node _ _ _
    · exact inv.node _ _ _

theorem readRows_inv (lower : String → String) (rows : List SurveyRow) : (readRows lower rows).Inv lower := by
  have grows : ∀ {reading : Reading}, reading.Inv lower → (rows.foldl (readRow lower) reading).Inv lower := by
    induction rows with
    | nil => exact fun inv => inv
    | cons row rest ih => exact fun inv => ih (readRow_inv inv row)
  exact grows ⟨by simp, by simp, by simp⟩

end Reading

section Rewriting

theorem headOf_eq_self {path : String} (undotted : '.' ∉ path.toList) : headOf path = path := by
  unfold headOf
  rw [List.takeWhile_eq_self_iff.mpr, String.ofList_toList]
  intro c member
  exact decide_eq_true (ne_of_mem_of_not_mem member undotted)

theorem tailOf_eq_empty {path : String} (undotted : '.' ∉ path.toList) : tailOf path = "" := by
  unfold tailOf
  rw [List.dropWhile_eq_nil_iff.mpr]
  · rfl
  · intro c member
    exact decide_eq_true (ne_of_mem_of_not_mem member undotted)

theorem headOf_undotted (path : String) : '.' ∉ (headOf path).toList := by
  intro member
  rw [headOf, String.toList_ofList] at member
  simpa using List.mem_takeWhile_imp member

theorem headOf_dot {id : String} (undotted : '.' ∉ id.toList) (tail : String) : headOf (id ++ "." ++ tail) = id := by
  have all : ∀ c ∈ id.toList, decide (c ≠ '.') = true := fun c member =>
    decide_eq_true (ne_of_mem_of_not_mem member undotted)
  have chars : (id ++ "." ++ tail).toList = id.toList ++ '.' :: tail.toList := by simp [String.toList_append]
  rw [headOf, chars, List.takeWhile_append_of_pos all, List.takeWhile_cons_of_neg (by decide), List.append_nil,
    String.ofList_toList]

theorem idPattern_undotted {id : String} (accepted : idPattern id = true) : '.' ∉ id.toList :=
  fun member => (Form.idPattern_plain accepted '.' member).2.2 rfl

variable {renames : List (String × String)}

theorem paths_rewriteRefs (renames : List (String × String)) (e : Expr) :
    paths (rewriteRefs renames e) = (paths e).map (renamed renames) := by
  induction e using Expr.rec
    (motive_2 := fun args => Form.pathsAll (rewriteAll renames args) = (Form.pathsAll args).map (renamed renames)) with
  | lit value => rfl
  | ref path => rfl
  | op name args ih => exact ih
  | call fn args ih => exact ih
  | nil => rfl
  | cons arg rest each all =>
    rw [rewriteAll, Form.pathsAll, each, all, Form.pathsAll, List.map_append]

theorem renamed_eq_self {path : String} (kept : renames.lookup (headOf path) = none) : renamed renames path = path := by
  rw [renamed, kept]

theorem headOf_renamed {path id : String} (undotted : '.' ∉ id.toList) (found : renames.lookup (headOf path) = some id) :
    headOf (renamed renames path) = id := by
  rw [renamed, found]
  dsimp only
  split
  · exact headOf_eq_self undotted
  · exact headOf_dot undotted _

end Rewriting

section Nodes

variable {reading : Reading}

theorem getElem?_changeFirst (id : String) (change : FormNode → FormNode) (nodes : List FormNode) (k : ℕ) :
    (changeFirst id change nodes)[k]? =
      if (nodes.map FormNode.id).findIdx? (· = id) = some k then nodes[k]?.map change else nodes[k]? := by
  induction nodes generalizing k with
  | nil => simp [changeFirst]
  | cons node rest ih =>
    rw [changeFirst, List.map_cons, List.findIdx?_cons]
    by_cases here : node.id = id
    · rw [if_pos here, if_pos (decide_eq_true here)]
      cases k with
      | zero => rw [if_pos rfl]; rfl
      | succ k => rw [if_neg (by simp)]; rfl
    · rw [if_neg here, decide_eq_false here, if_neg Bool.false_ne_true]
      cases k with
      | zero => rw [if_neg (by simp)]; rfl
      | succ k =>
        rw [List.getElem?_cons_succ, List.getElem?_cons_succ, ih k]
        simp only [Option.map_eq_some_iff, Nat.add_right_cancel_iff, exists_eq_right]

theorem map_id_changeFirst {change : FormNode → FormNode} (keeps : ∀ node, (change node).id = node.id) (id : String)
    (nodes : List FormNode) : (changeFirst id change nodes).map FormNode.id = nodes.map FormNode.id := by
  induction nodes with
  | nil => rfl
  | cons node rest ih =>
    rw [changeFirst]
    split
    · rw [List.map_cons, List.map_cons, keeps]
    · rw [List.map_cons, List.map_cons, ih]

theorem dropArgs_id (base : TextBase) (node : FormNode) : (dropArgs base node).id = node.id := by
  unfold dropArgs
  split <;> rfl

theorem dropArgs_exprs (base : TextBase) (node : FormNode) : (dropArgs base node).exprs = node.exprs := by
  unfold dropArgs
  split <;> rfl

theorem dropArgs_args (base : TextBase) (node : FormNode) {kind : TextBase} (text : kind ≠ .hint) :
    (dropArgs base node).args kind = if (base = .label ↔ kind = .label) then none else node.args kind := by
  cases kind with
  | hint => exact absurd rfl text
  | label => cases base <;> simp [dropArgs, FormNode.args]
  | message => cases base <;> simp [dropArgs, FormNode.args]

def Takes (reading : Reading) (k : ℕ) (kind : TextBase) (entry : String × TextCell) : Prop :=
  textReport reading entry.2 ≠ [] ∧ (reading.rows.map Imported.id).findIdx? (· = entry.1) = some k ∧
    (entry.2.base = .label ↔ kind = .label)

structure Checked (reading : Reading) (k : ℕ) (entries : List (String × TextCell)) (node node' : FormNode) : Prop where
  exprs : node'.exprs = node.exprs
  taken : ∀ kind, kind ≠ .hint → (∃ entry ∈ entries, Takes reading k kind entry) → node'.args kind = none
  left : ∀ kind, kind ≠ .hint → (∀ entry ∈ entries, ¬ Takes reading k kind entry) → node'.args kind = node.args kind

theorem map_id_checkText (nodes : List FormNode) (entry : String × TextCell) :
    (checkText reading nodes entry).map FormNode.id = nodes.map FormNode.id := by
  unfold checkText
  split
  · rfl
  · exact map_id_changeFirst (dropArgs_id _) _ _

theorem checkText_checked {nodes : List FormNode} (ids : nodes.map FormNode.id = reading.rows.map Imported.id)
    (entry : String × TextCell) {k : ℕ} {node : FormNode} (here : nodes[k]? = some node) :
    ∃ node', (checkText reading nodes entry)[k]? = some node' ∧ Checked reading k [entry] node node' := by
  unfold checkText
  split
  · rename_i clean
    refine ⟨node, here, rfl, ?_, fun kind text _ => rfl⟩
    rintro kind text ⟨entry', member, reported, -⟩
    rw [List.mem_singleton.mp member] at reported
    exact absurd clean reported
  · rename_i reported
    rw [getElem?_changeFirst, ids, here]
    by_cases first : (reading.rows.map Imported.id).findIdx? (· = entry.1) = some k
    · rw [if_pos first]
      refine ⟨dropArgs entry.2.base node, rfl, dropArgs_exprs _ _, ?_, ?_⟩
      · rintro kind text ⟨entry', member, -, -, same⟩
        rw [List.mem_singleton.mp member] at same
        rw [dropArgs_args _ _ text, if_pos same]
      · intro kind text none
        rw [dropArgs_args _ _ text, if_neg]
        intro same
        exact none entry (List.mem_singleton.mpr rfl) ⟨reported, first, same⟩
    · rw [if_neg first]
      refine ⟨node, rfl, rfl, ?_, fun kind text _ => rfl⟩
      rintro kind text ⟨entry', member, -, found, -⟩
      rw [List.mem_singleton.mp member] at found
      exact absurd found first

theorem Checked.trans {k : ℕ} {entry : String × TextCell} {rest : List (String × TextCell)} {node node' node'' : FormNode}
    (first : Checked reading k [entry] node node') (next : Checked reading k rest node' node'') :
    Checked reading k (entry :: rest) node node'' := by
  refine ⟨next.exprs.trans first.exprs, ?_, ?_⟩
  · rintro kind text ⟨taker, member, takes⟩
    by_cases later : ∃ entry ∈ rest, Takes reading k kind entry
    · exact next.taken kind text later
    · rw [next.left kind text fun entry' member' takes' => later ⟨entry', member', takes'⟩]
      rcases List.mem_cons.mp member with rfl | member
      · exact first.taken kind text ⟨taker, List.mem_singleton.mpr rfl, takes⟩
      · exact absurd ⟨taker, member, takes⟩ later
  · intro kind text none
    rw [next.left kind text fun entry' member' => none entry' (List.mem_cons_of_mem _ member'),
      first.left kind text fun entry' member' => none entry' (List.mem_cons.mpr (.inl (List.mem_singleton.mp member')))]

theorem checks_checked (entries : List (String × TextCell)) {nodes : List FormNode}
    (ids : nodes.map FormNode.id = reading.rows.map Imported.id) {k : ℕ} {node : FormNode} (here : nodes[k]? = some node) :
    ∃ node', (entries.foldl (checkText reading) nodes)[k]? = some node' ∧ Checked reading k entries node node' := by
  induction entries generalizing nodes node with
  | nil => exact ⟨node, here, rfl, by simp, fun kind text _ => rfl⟩
  | cons entry rest ih =>
    obtain ⟨node', here', first⟩ := checkText_checked ids entry here
    obtain ⟨node'', last, next⟩ := ih ((map_id_checkText nodes entry).trans ids) here'
    exact ⟨node'', last, first.trans next⟩

theorem textReport_ne_nil (cell : TextCell) :
    textReport reading cell ≠ [] ↔ ∃ name ∈ cell.order, unknownName reading.questionIds name = true := by
  simp [textReport, List.filter_eq_nil_iff]

theorem stays_iff {k : ℕ} {kind : TextBase} : Stays reading k kind ↔ ∀ entry ∈ textEntries reading, ¬ Takes reading k kind entry := by
  have first (id : String) : (reading.rows.map Imported.id).findIdx? (· = id) = reading.rows.findIdx? (·.id = id) :=
    List.findIdx?_map
  constructor
  · rintro stays ⟨id, cell⟩ member ⟨reported, found, same⟩
    obtain ⟨row, listed, paired⟩ := List.mem_flatMap.mp member
    obtain ⟨cell', text, is⟩ := List.mem_map.mp paired
    obtain ⟨rfl, rfl⟩ := Prod.mk.inj is
    rw [first] at found
    exact stays row listed _ text ((textReport_ne_nil _).mp reported) same found
  · intro none row listed cell text unknown same found
    refine none (row.id, cell) (List.mem_flatMap.mpr ⟨row, listed, List.mem_map_of_mem text⟩) ⟨?_, ?_, same⟩
    · exact (textReport_ne_nil cell).mpr unknown
    · rw [first, found]

theorem nodeOf_args (row : Imported) {kind : TextBase} (text : kind ≠ .hint) :
    (nodeOf reading row).args kind = argsOf reading.renames (lastOrder kind row.texts) := by
  cases kind with
  | hint => exact absurd rfl text
  | label => rfl
  | message => rfl

theorem importedNodes_at {k : ℕ} {row : Imported} (here : reading.rows[k]? = some row) :
    ∃ node, (importedNodes reading)[k]? = some node ∧ node.exprs = row.exprs.map (keptExpr reading) ∧
      ∀ kind, kind ≠ .hint → (Stays reading k kind → node.args kind = argsOf reading.renames (lastOrder kind row.texts)) ∧
        (¬ Stays reading k kind → node.args kind = none) := by
  have start : (reading.rows.map (nodeOf reading))[k]? = some (nodeOf reading row) := by
    rw [List.getElem?_map, here, Option.map_some]
  have ids : (reading.rows.map (nodeOf reading)).map FormNode.id = reading.rows.map Imported.id := by
    rw [List.map_map]
    rfl
  obtain ⟨node, last, checked⟩ := checks_checked (textEntries reading) ids start
  refine ⟨node, last, checked.exprs, fun kind text => ⟨fun stays => ?_, fun goes => ?_⟩⟩
  · rw [checked.left kind text (stays_iff.mp stays), nodeOf_args row text]
  · rw [stays_iff] at goes
    refine checked.taken kind text ?_
    simpa using goes

end Nodes

section Following

variable {lower : String → String} {reading : Reading}

theorem unknownPath_eq {ids : List String} {path : String} (undotted : '.' ∉ path.toList) :
    unknownPath ids path = unknownName ids path := by
  have row : ("$row.".toList.isPrefixOf path.toList) = false := by
    rw [Bool.eq_false_iff]
    intro starts
    exact undotted ((List.isPrefixOf_iff_prefix.mp starts).subset (by decide))
  rw [unknownPath, unknownName, row, Bool.not_false, Bool.and_true]

theorem idPattern_first {id : String} (accepted : idPattern id = true) {first : Char} {rest : List Char}
    (chars : id.toList = first :: rest) : 'a' ≤ first := by
  rw [idPattern, chars] at accepted
  simp only [Bool.and_eq_true, decide_eq_true_eq] at accepted
  exact accepted.1.1

theorem headOf_cons {path : String} {first : Char} {rest : List Char} (chars : path.toList = first :: rest)
    (other : first ≠ '.') : (headOf path).toList = first :: rest.takeWhile (· ≠ '.') := by
  rw [headOf, String.toList_ofList, chars, List.takeWhile_cons_of_pos (by simpa using other)]

theorem unknownPath_of_head {ids : List String} {path id : String} (head : headOf path = id) (accepted : idPattern id = true) :
    unknownPath ids path = true ↔ id ∉ ids := by
  have apart {start : String} {c : Char} {others : List Char} (is : start.toList = c :: others) (other : c ≠ '.')
      (below : ¬ 'a' ≤ c) : start.toList.isPrefixOf path.toList = false := by
    rw [Bool.eq_false_iff]
    intro starts
    obtain ⟨rest, chars⟩ := List.isPrefixOf_iff_prefix.mp starts
    rw [is, List.cons_append] at chars
    have first := headOf_cons chars.symm other
    rw [head] at first
    exact below (idPattern_first accepted first)
  rw [unknownPath, head, apart (rfl : "_".toList = _) (by decide) (by decide),
    apart (rfl : "$row.".toList = _) (by decide) (by decide), Bool.not_false, Bool.and_true, Bool.and_true, decide_eq_true_iff]

theorem unknownName_head {ids : List String} {path : String} (unknown : unknownPath ids path = true) :
    unknownName ids (headOf path) = true := by
  rw [unknownPath, Bool.and_eq_true, Bool.and_eq_true] at unknown
  obtain ⟨⟨apart, plain⟩, -⟩ := unknown
  rw [unknownName, headOf_eq_self (headOf_undotted path), apart, Bool.true_and, Bool.not_eq_true', Bool.eq_false_iff]
  intro starts
  have begins : (headOf path).toList <+: path.toList := by
    rw [headOf, String.toList_ofList]
    exact List.takeWhile_prefix _
  rw [List.isPrefixOf_iff_prefix.mpr ((List.isPrefixOf_iff_prefix.mp starts).trans begins)] at plain
  cases plain

theorem keptExpr_eq_none {cell : ExprCell} : keptExpr reading cell = none ↔ cell.replaced = true ∨ missingRefs reading cell ≠ [] := by
  unfold keptExpr
  split
  · rename_i dropped
    exact iff_of_true rfl dropped
  · rename_i stays
    exact iff_of_false nofun stays

theorem keptExpr_eq_some {cell : ExprCell} {e : Expr} (kept : keptExpr reading cell = some e) :
    e = rewriteRefs reading.renames cell.expr := by
  unfold keptExpr at kept
  split at kept
  · cases kept
  · exact (Option.some.inj kept).symm

theorem zip_map_pairs {α β : Type} (l : List α) (f : α → β) (a : α) (good : β → Prop) :
    (∀ pair ∈ l.zip (l.map f), pair.1 = a → good pair.2) ↔ (a ∈ l → good (f a)) := by
  have pairs : l.zip (l.map f) = l.map fun a => (a, f a) := by
    simpa using (List.zip_map' : (l.map id).zip (l.map f) = _)
  rw [pairs]
  simp only [List.forall_mem_map]
  exact ⟨fun all member => all a member rfl, fun fine b member same => same ▸ fine (same ▸ member)⟩

theorem kept_pairs (cell : ExprCell) {name : String} (member : name ∈ paths cell.expr) (good : String → Prop) :
    (∀ e ∈ keptExpr reading cell, ∀ pair ∈ (paths cell.expr).zip (paths e), pair.1 = name → good pair.2) ↔
      (keptExpr reading cell = none ∨ good (renamed reading.renames name)) := by
  have pairs := zip_map_pairs (paths cell.expr) (renamed reading.renames) name good
  rw [← paths_rewriteRefs, forall_prop_of_true member] at pairs
  rw [← pairs]
  cases kept : keptExpr reading cell with
  | none => simp
  | some e =>
    obtain rfl := keptExpr_eq_some kept
    simp only [Option.mem_some_iff, forall_eq', reduceCtorEq, false_or]

theorem argsOf_pairs (order : List String) (name : String) (good : String → Prop) :
    (∀ args ∈ argsOf reading.renames order, ∀ pair ∈ order.zip args, pair.1 = name → good pair.2) ↔
      (name ∈ order → good (renamed reading.renames name)) := by
  rw [← zip_map_pairs order (renamed reading.renames) name good, argsOf]
  split
  · rename_i none
    simp [none]
  · simp only [Option.mem_some_iff, forall_eq']

theorem args_pairs {k : ℕ} {row : Imported} {node : FormNode} {kind : TextBase}
    (stay : Stays reading k kind → node.args kind = argsOf reading.renames (lastOrder kind row.texts))
    (go : ¬ Stays reading k kind → node.args kind = none) (name : String) (good : String → Prop) :
    (∀ args ∈ node.args kind, ∀ pair ∈ (lastOrder kind row.texts).zip args, pair.1 = name → good pair.2) ↔
      (name ∈ lastOrder kind row.texts → Stays reading k kind → good (renamed reading.renames name)) := by
  by_cases stays : Stays reading k kind
  · rw [stay stays, argsOf_pairs]
    exact ⟨fun fine member _ => fine member, fun fine member => fine member stays⟩
  · rw [go stays]
    exact iff_of_true (fun args none => by cases none) fun _ stays' => absurd stays' stays

theorem mem_textReport {cell : TextCell} {name : String} (member : name ∈ cell.order) :
    name ∈ textReport reading cell ↔ unknownName reading.questionIds name = true := by
  rw [textReport, List.mem_filter, and_iff_right member]

theorem mem_carriers {name : String} {row : Imported} (only : carriers reading name = [row]) :
    row ∈ reading.rows ∧ row.name = some name := by
  have member : row ∈ carriers reading name := by
    rw [only]
    exact List.mem_singleton.mpr rfl
  simpa [carriers] using member

variable (inv : reading.Inv lower)

include inv

theorem rename_listed {name id : String} (found : reading.renames.lookup name = some id) :
    idPattern name = false ∧ id = normaliseId lower name ∧ idPattern id = true := by
  obtain ⟨before, after, is, -⟩ := List.lookup_eq_some_iff.mp found
  refine inv.renames (name, id) ?_
  rw [is]
  exact List.mem_append_right _ List.mem_cons_self

theorem headOf_renamed_listed {path id : String} (found : reading.renames.lookup (headOf path) = some id) :
    headOf (renamed reading.renames path) = id :=
  headOf_renamed (idPattern_undotted (rename_listed inv found).2.2) found

theorem unknownPath_renamed (path : String) :
    unknownPath reading.questionIds (renamed reading.renames path) = true ↔ Stray reading path := by
  unfold Stray
  cases found : reading.renames.lookup (headOf path) with
  | none => rw [renamed_eq_self found]
  | some id =>
    exact unknownPath_of_head (headOf_renamed_listed inv found) (rename_listed inv found).2.2

theorem headOf_renamed_mem (path : String) :
    headOf (renamed reading.renames path) ∈ reading.questionIds ↔ Reaches reading path := by
  unfold Reaches
  cases found : reading.renames.lookup (headOf path) with
  | none => rw [renamed_eq_self found]
  | some id => rw [headOf_renamed_listed inv found]

theorem renamed_eq_iff {row : Imported} (member : row ∈ reading.rows) {name : String} (carries : row.name = some name) :
    renamed reading.renames name = row.id ↔ Straight lower reading name := by
  obtain ⟨listed, ⟨own, is⟩ | ⟨plain, is, found⟩⟩ := inv.questions row member name carries
  · have undotted := idPattern_undotted own
    refine iff_of_true ?_ (.inl undotted)
    rw [is, renamed_eq_self]
    cases found : reading.renames.lookup (headOf name) with
    | none => rfl
    | some id =>
      rw [headOf_eq_self undotted] at found
      exact absurd own (by simp [(rename_listed inv found).1])
  by_cases undotted : '.' ∉ name.toList
  · refine iff_of_true ?_ (.inl undotted)
    rw [renamed, headOf_eq_self undotted, found]
    exact if_pos (tailOf_eq_empty undotted)
  have pattern := (rename_listed inv found).2.2
  rw [Straight, or_iff_right undotted, renamed]
  cases head : reading.renames.lookup (headOf name) with
  | none =>
    refine iff_of_false ?_ (by simp)
    rintro (same : name = row.id)
    rw [same, pattern] at plain
    cases plain
  | some id =>
    dsimp only
    by_cases last : tailOf name = ""
    · rw [if_pos last, is]
      simp [last]
    · rw [if_neg last]
      refine iff_of_false ?_ fun ⟨ends, _⟩ => last ends
      intro same
      apply idPattern_undotted pattern
      rw [← same]
      simp [String.toList_append]
theorem mem_missingRefs {cell : ExprCell} {name : String} (member : name ∈ paths cell.expr) :
    renamed reading.renames name ∈ missingRefs reading cell ↔ checkedKey cell.key = true ∧ Stray reading name := by
  rw [← unknownPath_renamed inv, missingRefs]
  split
  · rename_i checked
    rw [List.mem_filter, paths_rewriteRefs]
    exact ⟨fun ⟨_, stray⟩ => ⟨checked, stray⟩, fun ⟨_, stray⟩ => ⟨List.mem_map_of_mem member, stray⟩⟩
  · rename_i free
    exact iff_of_false List.not_mem_nil fun ⟨checked, _⟩ => free checked

theorem exists_missingRefs {cell : ExprCell} {path : String} (missing : path ∈ missingRefs reading cell) :
    checkedKey cell.key = true ∧ unknownPath reading.questionIds path = true ∧
      ∃ other ∈ paths cell.expr, renamed reading.renames other = path ∧ Stray reading other := by
  rw [missingRefs] at missing
  split at missing
  · rename_i checked
    rw [List.mem_filter, paths_rewriteRefs, List.mem_map] at missing
    obtain ⟨⟨other, member, rfl⟩, unknown⟩ := missing
    exact ⟨checked, unknown, other, member, rfl, (unknownPath_renamed inv other).mp unknown⟩
  · cases missing

theorem missingRefs_ne_nil (cell : ExprCell) :
    missingRefs reading cell ≠ [] ↔ checkedKey cell.key = true ∧ ∃ other ∈ paths cell.expr, Stray reading other := by
  constructor
  · intro some
    obtain ⟨path, missing⟩ := List.exists_mem_of_ne_nil _ some
    obtain ⟨checked, -, other, member, -, stray⟩ := exists_missingRefs inv missing
    exact ⟨checked, other, member, stray⟩
  · rintro ⟨checked, other, member, stray⟩
    exact List.ne_nil_of_mem ((mem_missingRefs inv member).mpr ⟨checked, stray⟩)

theorem mem_exprReport {cell : ExprCell} {name : String} (member : name ∈ paths cell.expr) :
    name ∈ exprReport reading cell ↔ checkedKey cell.key = true ∧ '.' ∉ name.toList ∧
      reading.renames.lookup name = none ∧ unknownName reading.questionIds name = true := by
  constructor
  · intro reported
    obtain ⟨path, missing, rfl⟩ := List.mem_map.mp reported
    obtain ⟨checked, unknown, other, -, rfl, -⟩ := exists_missingRefs inv missing
    have undotted := headOf_undotted (renamed reading.renames other)
    refine ⟨checked, undotted, ?_, ?_⟩
    · cases head : reading.renames.lookup (headOf other) with
      | none => rw [renamed_eq_self head, head]
      | some id =>
        rw [headOf_renamed_listed inv head]
        cases again : reading.renames.lookup id with
        | none => rfl
        | some id' => exact absurd (rename_listed inv head).2.2 (by simp [(rename_listed inv again).1])
    · exact unknownName_head unknown
  · rintro ⟨checked, undotted, kept, unknown⟩
    have head := headOf_eq_self undotted
    have same : renamed reading.renames name = name := renamed_eq_self (by rw [head, kept])
    have missing : renamed reading.renames name ∈ missingRefs reading cell := by
      refine (mem_missingRefs inv member).mpr ⟨checked, ?_⟩
      rw [← unknownPath_renamed inv, same, unknownPath_eq undotted, unknown]
    refine List.mem_map.mpr ⟨_, missing, ?_⟩
    rw [same, head]
theorem expr_carried {row : Imported} (listed : row ∈ reading.rows) {name : String} (carries : row.name = some name)
    {cell : ExprCell} (member : name ∈ paths cell.expr) :
    (renamed reading.renames name ∉ missingRefs reading cell ∧ ∀ e ∈ keptExpr reading cell,
        ∀ pair ∈ (paths cell.expr).zip (paths e), pair.1 = name → pair.2 = row.id) ↔
      Straight lower reading name ∨ (checkedKey cell.key = true → ¬ Stray reading name) ∧
        (cell.replaced = true ∨ checkedKey cell.key = true ∧ ∃ other ∈ paths cell.expr, Stray reading other) := by
  rw [kept_pairs cell member (· = row.id), renamed_eq_iff inv listed carries, keptExpr_eq_none, missingRefs_ne_nil inv,
    mem_missingRefs inv member, not_and]
  constructor
  · rintro ⟨fine, dropped | straight⟩
    · exact .inr ⟨fine, dropped⟩
    · exact .inl straight
  · rintro (straight | ⟨fine, dropped⟩)
    · refine ⟨fun checked stray => ?_, .inr straight⟩
      -- The id is a question's, so the reference is not missing.
      have unknown := (unknownPath_renamed inv name).mpr stray
      rw [(renamed_eq_iff inv listed carries).mpr straight] at unknown
      obtain ⟨known, -⟩ := inv.questions row listed name carries
      have pattern := inv.ids _ known
      exact (unknownPath_of_head (headOf_eq_self (idPattern_undotted pattern)) pattern).mp unknown known
    · exact ⟨fine, .inl dropped⟩

theorem expr_uncarried {cell : ExprCell} {name : String} (member : name ∈ paths cell.expr) :
    (name ∈ exprReport reading cell ∧ ∀ e ∈ keptExpr reading cell,
        ∀ pair ∈ (paths cell.expr).zip (paths e), pair.1 = name → headOf pair.2 ∈ reading.questionIds) ↔
      checkedKey cell.key = true ∧ '.' ∉ name.toList ∧ reading.renames.lookup name = none ∧
        unknownName reading.questionIds name = true := by
  rw [mem_exprReport inv member]
  refine and_iff_left_of_imp fun reported e kept => ?_
  have missing : missingRefs reading cell ≠ [] := by
    intro none
    have listed := (mem_exprReport inv member).mpr reported
    rw [exprReport, none] at listed
    cases listed
  rw [keptExpr_eq_none.mpr (.inr missing)] at kept
  cases kept
theorem exprFollowed_iff {cell : ExprCell} {name : String} (written : name ∈ cell.written) :
    ExprFollowed reading cell (keptExpr reading cell) name ↔ ExprSound lower reading cell name := by
  have member := cell.within name written
  refine and_congr (forall_congr' fun row => forall_congr' fun only => ?_) (forall_congr' fun none => ?_)
  · obtain ⟨listed, carries⟩ := mem_carriers only
    exact expr_carried inv listed carries member
  · exact expr_uncarried inv member

theorem textFollowed_iff {k : ℕ} {row : Imported} {node : FormNode} {cell : TextCell}
    (stay : Stays reading k cell.base → node.args cell.base = argsOf reading.renames (lastOrder cell.base row.texts))
    (go : ¬ Stays reading k cell.base → node.args cell.base = none) {name : String} (member : name ∈ cell.order) :
    TextFollowed reading row node cell name ↔ TextSound lower reading k row cell name := by
  refine and_congr (forall_congr' fun question => forall_congr' fun only => ?_) (forall_congr' fun none => ?_)
  · obtain ⟨listed, carries⟩ := mem_carriers only
    rw [args_pairs stay go name (· = question.id), renamed_eq_iff inv listed carries, mem_textReport member,
      Bool.not_eq_true]
  · rw [args_pairs stay go name (headOf · ∈ reading.questionIds), headOf_renamed_mem inv, mem_textReport member]

end Following

/-- The references of an imported survey are followed exactly where every name is written so that they can be. -/
theorem followed_iff (lower : String → String) (rows : List SurveyRow) :
    Followed (readRows lower rows) ↔ Sound lower (readRows lower rows) := by
  have inv := readRows_inv lower rows
  constructor
  · intro followed k row here
    obtain ⟨node, last, exprs, args⟩ := importedNodes_at here
    obtain ⟨each, texts⟩ := followed k row node here last
    refine ⟨fun cell member name written => ?_, fun cell member text name inserted => ?_⟩
    · obtain ⟨j, at_⟩ := List.getElem?_of_mem member
      have kept : node.exprs[j]? = some (keptExpr (readRows lower rows) cell) := by
        rw [exprs, List.getElem?_map, at_, Option.map_some]
      exact (exprFollowed_iff inv written).mp (each j cell _ at_ kept name written)
    · obtain ⟨stay, go⟩ := args cell.base text
      exact (textFollowed_iff inv stay go inserted).mp (texts cell member text name inserted)
  · intro sound k row node here last
    obtain ⟨node', last', exprs, args⟩ := importedNodes_at here
    obtain rfl := Option.some.inj (last'.symm.trans last)
    obtain ⟨each, texts⟩ := sound k row here
    refine ⟨fun j cell kept at_ is name written => ?_, fun cell member text name inserted => ?_⟩
    · rw [exprs, List.getElem?_map, at_, Option.map_some] at is
      obtain rfl := Option.some.inj is
      exact (exprFollowed_iff inv written).mpr (each cell (List.mem_of_getElem? at_) name written)
    · obtain ⟨stay, go⟩ := args cell.base text
      exact (textFollowed_iff inv stay go inserted).mpr (texts cell member text name inserted)

/-- `str.lower` of ASCII text. -/
def asciiLower (text : String) : String := String.ofList (text.toList.map Char.toLower)

/-- An integer `myAge`, and a text that inserts it in its label. -/
def ageRows : List SurveyRow :=
  [{ number := 2, kind := .question, name := some "myAge" },
    { number := 3, kind := .question, name := some "b", texts := [⟨.label, ["myAge"]⟩] }]

example : (readRows asciiLower ageRows).questionIds = ["myage", "b"] := by rfl

/-- The label of `b` is reported and loses its arguments, although a question carries the name it inserts. -/
theorem label_unfollowed : ¬ Followed (readRows asciiLower ageRows) := by
  intro followed
  obtain ⟨-, texts⟩ := followed 1 _ _ rfl rfl
  obtain ⟨carried, -⟩ := texts ⟨.label, ["myAge"]⟩ (List.mem_singleton.mpr rfl) nofun "myAge" (List.mem_singleton.mpr rfl)
  obtain ⟨unreported, -⟩ := carried ⟨"myage", some "myAge", [], []⟩ (by rfl)
  exact unreported (List.mem_singleton.mpr rfl)

end DataCollectionLab.Xlsform.References
