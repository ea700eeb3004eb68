import DataCollectionLab.Lib.Dict
import DataCollectionLab.Submissions.Models
import DataCollectionLab.Xlsform.Survey
import Mathlib.Data.List.Sort

/-!
The languages of an import. A text without a language is filed before it is known which language the form falls back to:
in a node under `en`, on the choices sheet under `default`, and a walk afterwards moves what is under `default` alone.
-/

namespace DataCollectionLab.Xlsform.Languages

open Lib Form

section Headers

/-- A character of `[a-z_:]`. -/
def baseChar (c : Char) : Bool := ('a' ≤ c && c ≤ 'z') || c = '_' || c = ':'

/-- The match of `_LANGUAGE_COLUMN` in what is left of a header, after so much of the base: the first `::` with
something on either side. A header has no line break. -/
def split (base : List Char) : List Char → Option (List Char × List Char)
  | [] => none
  | c :: rest =>
    if base ≠ [] ∧ c = ':' ∧ rest.head? = some ':' ∧ rest.tail ≠ [] then some (base, rest.tail)
    else if baseChar c then split (base ++ [c]) rest
    else none

/-- A character of `[A-Za-z-]`. -/
def tagChar (c : Char) : Bool := ('A' ≤ c && c ≤ 'Z') || ('a' ≤ c && c ≤ 'z') || c = '-'

/-- The group of `\(([A-Za-z-]{2,})\)\s*$`. -/
def tagOf (text : List Char) : Option (List Char) :=
  match text.reverse.dropWhile Reference.isSpace with
  | ')' :: rest =>
    if 2 ≤ (rest.takeWhile tagChar).length ∧ (rest.dropWhile tagChar).head? = some '(' then
      some (rest.takeWhile tagChar).reverse
    else none
  | _ => none

/-- A character outside `[a-z0-9]`. -/
def slugged (c : Char) : Bool := !(('a' ≤ c && c ≤ 'z') || ('0' ≤ c && c ≤ '9'))

variable (lower : String → String)

/-- `_language_of`, over `str.lower`. -/
def languageOf (column : String) : String × Option String :=
  match split [] column.toList with
  | none => (column, none)
  | some (base, suffix) =>
    let language := Reference.strip suffix
    match tagOf language with
    | some tag => (String.ofList base, some (lower (String.ofList tag)))
    | none =>
      let slug := trim (· = '_') (squeeze slugged '_' (lower (String.ofList language)).toList)
      (String.ofList base, if slug = [] then none else some (String.ofList slug))

def declaredLanguage (declared : String) : String :=
  match tagOf declared.toList with
  | some tag => lower (String.ofList tag)
  | none => lower declared

end Headers

section Fields

/-- A text that an author wrote: the column it stands in, the column's base and language, and how the document has it. -/
structure Written where
  column : String
  base : String
  language : Option String
  text : String
  shown : String

def Written.Unsuffixed (w : Written) : Prop := w.column = w.base

instance (w : Written) : Decidable w.Unsuffixed := inferInstanceAs (Decidable (w.column = w.base))

variable (lower : String → String)

def writtenIn (row : Row) (shown : String → String) (base : String) : List Written :=
  (row.cells.filter fun entry => (languageOf lower entry.1).1 = base).map fun entry =>
    ⟨entry.1, base, (languageOf lower entry.1).2, entry.2.value, shown entry.2.value⟩

def named (texts : List Written) : List String := texts.filterMap Written.language

def filed (fallback : String) (texts : List Written) : Dict String :=
  texts.foldl (fun found w => found.insert (w.language.getD fallback) w.shown) ∅

structure Field where
  written : List Written
  texts : Dict String

/-- `_labels`, where no default language is known: `self.default_language or "en"`. -/
def labels (written : List Written) : Field := ⟨written, filed "en" written⟩

def messages (written jr : List Written) : Field := ⟨written ++ jr, filed "en" (if jr = [] then written else jr)⟩

def choiceItem (texts : Dict String) : Dict String :=
  match texts.lookup "default" with
  | none => texts
  | some text => if texts.keys.length = 1 then AList.singleton "en" text else texts.erase "default"

def choice (name : String) (written : List Written) : Field :=
  ⟨written, choiceItem (if written = [] then AList.singleton "default" name else filed "default" written)⟩

end Fields

section Import

structure Texts where
  label : Field
  hint : Field
  constraintMessage : Field
  choices : List Field

/-- What the importer finds of a survey row beside its texts, over a state of its own: the id of a container, whether a
question makes a node and the list on the choices sheet that it takes its options from, and how a text of the row is
written in the document: with its references in slots, or as they stood. -/
structure Finder (ρ : Type) where
  lower : String → String
  identifier : String → CellRef → Row → ρ → Option String × ρ
  question : Row → Cell → String → ρ → Option (Option String) × ρ
  shown : Row → String → String → String

structure ChoiceRow where
  listName : String
  name : String
  written : List Written

variable {ρ : Type} (finder : Finder ρ)

def Finder.read (row : Row) (base : String) : List Written := writtenIn finder.lower row (finder.shown row base) base

def Finder.messages (row : Row) : Field :=
  Languages.messages (finder.read row "constraint_message") (finder.read row "bind:jr:constraintmsg")

def Finder.containerTexts (row : Row) : Texts where
  label := labels (finder.read row "label")
  hint := labels []
  constraintMessage := finder.messages row
  choices := []

def Finder.questionTexts (choices : List ChoiceRow) (row : Row) (listName : Option String) : Texts where
  label := labels (finder.read row "label")
  hint := labels (finder.read row "hint")
  constraintMessage := finder.messages row
  choices := (choices.filter fun item => listName = some item.listName).map fun item => choice item.name item.written

def Texts.fields (texts : Texts) : List Field := texts.label :: texts.hint :: texts.constraintMessage :: texts.choices

def Texts.named (texts : Texts) : List String :=
  Languages.named texts.label.written ++ (Languages.named texts.hint.written ++ Languages.named texts.constraintMessage.written)

def importer (choices : List ChoiceRow) : Importer (ρ × List String) Texts Texts where
  lower := finder.lower
  identifier name ref row s :=
    let (id, rest) := finder.identifier name ref row s.1
    (id, rest, s.2)
  members row _ _ s := (finder.containerTexts row, s.1, s.2 ++ (finder.containerTexts row).named)
  question row cell raw s :=
    match finder.question row cell raw s.1 with
    | (none, rest) => (none, rest, s.2)
    | (some listName, rest) =>
      let texts := finder.questionTexts choices row listName
      (some texts, rest, s.2 ++ texts.named)

/-- `row.get(a) or row.get(b)`. -/
def firstOf (row : Row) (columns : List String) : Option String :=
  columns.findSome? fun column => (row.get column).filter (· ≠ "")

def readChoice (row : Row) : Option ChoiceRow := do
  let listName ← firstOf row ["list_name", "list name"]
  let name ← firstOf row ["name"]
  return ⟨listName, name, writtenIn finder.lower row id "label"⟩

structure Workbook where
  settings : List Row
  choices : List Row
  survey : List Row

/-- `default_language` of the settings; a later row's stands. -/
def Workbook.declared (book : Workbook) : Option String :=
  (book.settings.filterMap fun row => row.get "default_language").getLast?.filter (· ≠ "")

/-- `read_choices`. -/
def Workbook.choiceRows (book : Workbook) : List ChoiceRow := book.choices.filterMap (readChoice finder)

structure Document where
  defaultLanguage : String
  languages : List String
  children : List (Node Texts Texts)

/-- One text under `default` moved to the form's language, which may have its own. -/
def retag (language : String) (texts : Dict String) : Dict String :=
  match texts.lookup "default" with
  | none => texts
  | some text =>
    if ((texts.erase "default").lookup language).isSome then texts.erase "default"
    else (texts.erase "default").insert language text

def Field.retagged (language : String) (field : Field) : Field := { field with texts := retag language field.texts }

def Texts.retagged (language : String) (texts : Texts) : Texts :=
  { texts with
    label := texts.label.retagged language
    hint := texts.hint.retagged language
    constraintMessage := texts.constraintMessage.retagged language }

mutual

/-- `_retag_default_labels`, of one node. -/
def retagNode (language : String) : Node Texts Texts → Node Texts Texts
  | .question texts => .question (texts.retagged language)
  | .container kind id members children =>
    .container kind id (members.map (Texts.retagged language)) (retagNodes language children)

def retagNodes (language : String) : List (Node Texts Texts) → List (Node Texts Texts)
  | [] => []
  | node :: rest => retagNode language node :: retagNodes language rest

end

def readTexts (book : Workbook) (start : ρ) : List (Node Texts Texts) × List String :=
  let choices := book.choiceRows finder
  let read := readSurvey (importer finder choices) book.survey (start, choices.flatMap fun item => named item.written)
  (read.1, read.2.2.2)

def sortedLanguages (seen : List String) : List String := seen.dedup.insertionSort (· ≤ ·)

def defaultOf (declared : Option String) (seen : List String) : String :=
  (declared.map (declaredLanguage finder.lower)).getD ((sortedLanguages seen).head?.getD "en")

def languagesOf (declared : Option String) (seen : List String) : List String :=
  let defaultLanguage := defaultOf finder declared seen
  if defaultLanguage ∈ sortedLanguages seen then sortedLanguages seen else defaultLanguage :: sortedLanguages seen

/-- The languages, the default language and the children that `import_workbook` returns. -/
def importWorkbook (book : Workbook) (start : ρ) : Document :=
  let read := readTexts finder book start
  { defaultLanguage := defaultOf finder book.declared read.2
    languages := languagesOf finder book.declared read.2
    children := retagNodes (defaultOf finder book.declared read.2) read.1 }

end Import

section Claim

variable {τ : Type}

mutual

def held : Node τ τ → List τ
  | .question texts => [texts]
  | .container _ _ members children => members.toList ++ heldIn children

def heldIn : List (Node τ τ) → List τ
  | [] => []
  | node :: rest => held node ++ heldIn rest

end

def Document.fields (doc : Document) : List Field := (heldIn doc.children).flatMap Texts.fields

def Field.Kept (defaultLanguage : String) (field : Field) : Prop :=
  ∀ w ∈ field.written, w.Unsuffixed → field.texts.lookup defaultLanguage = some w.shown ∨
    ∃ other ∈ field.written, other.language = some defaultLanguage ∧ other.text ≠ w.text

def Document.Declared (doc : Document) : Prop :=
  ∀ field ∈ doc.fields, (∀ language ∈ field.texts, language ∈ doc.languages) ∧ field.Kept doc.defaultLanguage

def lastUnder (fallback language : String) (texts : List Written) : Option Written :=
  (texts.filter fun w => w.language.getD fallback = language).getLast?

def Stands (defaultLanguage : String) (written : List Written) (last : Option Written) : Prop :=
  ∀ w ∈ written, w.Unsuffixed → (∃ other ∈ written, other.language = some defaultLanguage ∧ other.text ≠ w.text) ∨
    ∃ source ∈ last, source.shown = w.shown

/-- The texts of a node: one without a language is filed under `en`, and one under `default` is moved. -/
def NodeSound (defaultLanguage : String) (languages : List String) (written used : List Written) : Prop :=
  ((∃ w ∈ used, w.language = none) → "en" ∈ languages) ∧
    Stands defaultLanguage written ((lastUnder "en" defaultLanguage used).or (lastUnder "en" "default" used))

def usedMessages (written : List Written) : List Written :=
  if ∃ w ∈ written, w.base = "bind:jr:constraintmsg" then written.filter fun w => w.base = "bind:jr:constraintmsg" else written

def Bare (written : List Written) : Prop := ∀ w ∈ written, w.language.getD "default" = "default"

instance (written : List Written) : Decidable (Bare written) :=
  inferInstanceAs (Decidable (∀ w ∈ written, w.language.getD "default" = "default"))

/-- The labels of a choice: those without a language are filed under `en` if they are all, and dropped if not. -/
def ChoiceSound (defaultLanguage : String) (languages : List String) (written : List Written) : Prop :=
  (Bare written → "en" ∈ languages) ∧
    Stands defaultLanguage written
      (if Bare written then if defaultLanguage = "en" then written.getLast? else none
      else if defaultLanguage = "default" then none else lastUnder "default" defaultLanguage written)

def Texts.Sound (defaultLanguage : String) (languages : List String) (texts : Texts) : Prop :=
  NodeSound defaultLanguage languages texts.label.written texts.label.written ∧
    NodeSound defaultLanguage languages texts.hint.written texts.hint.written ∧
      NodeSound defaultLanguage languages texts.constraintMessage.written (usedMessages texts.constraintMessage.written) ∧
        ∀ item ∈ texts.choices, ChoiceSound defaultLanguage languages item.written

/-- The columns of every row that makes a node are sound, with the languages that they name and the settings declare. -/
def Workbook.Sound {ρ : Type} (finder : Finder ρ) (start : ρ) (book : Workbook) : Prop :=
  ∀ texts ∈ heldIn (readTexts finder book start).1,
    texts.Sound (defaultOf finder book.declared (readTexts finder book start).2)
      (languagesOf finder book.declared (readTexts finder book start).2)

end Claim

section Filing

theorem filed_concat (fallback : String) (texts : List Written) (w : Written) :
    filed fallback (texts ++ [w]) = (filed fallback texts).insert (w.language.getD fallback) w.shown := by
  unfold filed
  rw [List.foldl_append]
  rfl

theorem lastUnder_concat (fallback language : String) (texts : List Written) (w : Written) :
    lastUnder fallback language (texts ++ [w]) =
      if w.language.getD fallback = language then some w else lastUnder fallback language texts := by
  unfold lastUnder
  rw [List.filter_append]
  split
  · rename_i here
    rw [List.filter_cons_of_pos (by simpa using here)]
    simp
  · rename_i other
    rw [List.filter_cons_of_neg (by simpa using other)]
    simp

theorem lookup_filed (fallback language : String) (texts : List Written) :
    (filed fallback texts).lookup language = (lastUnder fallback language texts).map Written.shown := by
  induction texts using List.reverseRecOn with
  | nil => rfl
  | append_singleton texts w ih =>
    rw [filed_concat, lastUnder_concat]
    by_cases here : w.language.getD fallback = language
    · rw [if_pos here, here, AList.lookup_insert]
      rfl
    · rw [if_neg here, AList.lookup_insert_ne fun same => here same.symm, ih]

theorem mem_filed_iff {fallback language : String} {texts : List Written} :
    language ∈ filed fallback texts ↔ ∃ w ∈ texts, w.language.getD fallback = language := by
  rw [← AList.lookup_isSome, lookup_filed, Option.isSome_map, lastUnder, List.getLast?_isSome, ne_eq,
    List.filter_eq_nil_iff]
  simp

theorem lookup_retag (language : String) (texts : Dict String) :
    (retag language texts).lookup language = (texts.lookup language).or (texts.lookup "default") := by
  unfold retag
  cases moved : texts.lookup "default" with
  | none => exact (Option.or_none).symm
  | some text =>
    dsimp only
    by_cases same : language = "default"
    · subst same
      rw [AList.lookup_erase, if_neg (by simp), AList.lookup_insert, moved]
      rfl
    · rw [AList.lookup_erase_ne same]
      cases own : texts.lookup language with
      | none =>
        rw [if_neg (by simp), AList.lookup_insert]
        rfl
      | some text' =>
        have present : (some text').isSome = true := rfl
        rw [if_pos present, AList.lookup_erase_ne same, own]
        rfl

theorem mem_retag {language key : String} {texts : Dict String} (member : key ∈ retag language texts) :
    key = language ∨ key ∈ texts := by
  unfold retag at member
  split at member
  · exact Or.inr member
  · split at member
    · exact Or.inr (AList.mem_erase.mp member).2
    · rcases AList.mem_insert _ |>.mp member with same | within
      · exact Or.inl same
      · exact Or.inr (AList.mem_erase.mp within).2

theorem mem_retag_of_ne {language key : String} {texts : Dict String} (member : key ∈ texts) (other : key ≠ "default") :
    key ∈ retag language texts := by
  have left : key ∈ texts.erase "default" := AList.mem_erase.mpr ⟨other, member⟩
  unfold retag
  split
  · exact member
  · split
    · exact left
    · exact (AList.mem_insert _).mpr (Or.inr left)

theorem kept_iff {language : String} {field : Field} {last : Option Written}
    (is : field.texts.lookup language = last.map Written.shown) : field.Kept language ↔ Stands language field.written last := by
  unfold Field.Kept Stands
  refine forall₂_congr fun w _ => forall_congr' fun _ => ?_
  rw [is, Option.map_eq_some_iff, or_comm]
  exact Iff.rfl

theorem node_sound_iff {language : String} {languages : List String} {written used : List Written}
    (default : language ∈ languages) (known : ∀ w ∈ used, ∀ own ∈ w.language, own ∈ languages) :
    ((∀ key ∈ retag language (filed "en" used), key ∈ languages) ∧
      Field.Kept language ⟨written, retag language (filed "en" used)⟩) ↔ NodeSound language languages written used := by
  refine and_congr ⟨?_, ?_⟩ (kept_iff ?_)
  · rintro declared ⟨w, member, plain⟩
    apply declared
    refine mem_retag_of_ne (mem_filed_iff.mpr ⟨w, member, ?_⟩) (by decide)
    rw [plain]
    rfl
  · intro english key member
    rcases mem_retag member with rfl | filed
    · exact default
    · obtain ⟨w, within, rfl⟩ := mem_filed_iff.mp filed
      cases own : w.language with
      | none => exact english ⟨w, within, own⟩
      | some tag => exact known w within tag own
  · show (retag language (filed "en" used)).lookup language = _
    rw [lookup_retag, lookup_filed, lookup_filed]
    cases lastUnder "en" language used <;> rfl

theorem keys_length_eq_one_iff {texts : Dict String} {key : String} (member : key ∈ texts) :
    texts.keys.length = 1 ↔ ∀ other ∈ texts, other = key := by
  constructor
  · intro one other within
    obtain ⟨only, is⟩ := List.length_eq_one_iff.mp one
    rw [AList.mem_keys, is] at member within
    rw [List.mem_singleton.mp within, List.mem_singleton.mp member]
  · intro all
    have keys : texts.keys.toFinset = {key} := by
      ext other
      rw [List.mem_toFinset, Finset.mem_singleton]
      exact ⟨all other, fun same => same ▸ member⟩
    rw [← List.toFinset_card_of_nodup texts.keys_nodup]
    exact (congrArg Finset.card keys).trans (Finset.card_singleton key)

theorem bare_iff {written : List Written} : Bare written ↔ ∀ key ∈ filed "default" written, key = "default" := by
  constructor
  · intro bare key member
    obtain ⟨w, within, rfl⟩ := mem_filed_iff.mp member
    exact bare w within
  · intro all w within
    exact all _ (mem_filed_iff.mpr ⟨w, within, rfl⟩)

theorem lastUnder_bare {written : List Written} (bare : Bare written) : lastUnder "default" "default" written = written.getLast? := by
  unfold lastUnder
  rw [List.filter_eq_self.mpr fun w within => decide_eq_true (bare w within)]

theorem lookup_choice {name language : String} {written : List Written} (some_ : written ≠ []) :
    (choice name written).texts.lookup language =
      (if Bare written then if language = "en" then written.getLast? else none
        else if language = "default" then none else lastUnder "default" language written).map Written.shown := by
  show (choiceItem (if written = [] then _ else _)).lookup language = _
  rw [if_neg some_]
  unfold choiceItem
  by_cases bare : Bare written
  · rw [if_pos bare, lookup_filed, lastUnder_bare bare]
    cases last : written.getLast? with
    | none => exact absurd (List.getLast?_eq_none_iff.mp last) some_
    | some w =>
      have member : "default" ∈ filed "default" written :=
        mem_filed_iff.mpr ⟨w, List.mem_of_getLast? last, bare w (List.mem_of_getLast? last)⟩
      rw [Option.map_some]
      dsimp only
      rw [if_pos ((keys_length_eq_one_iff member).mpr (bare_iff.mp bare))]
      by_cases english : language = "en"
      · subst english
        rw [if_pos rfl, ← AList.insert_empty, AList.lookup_insert]
        rfl
      · rw [if_neg english, ← AList.insert_empty, AList.lookup_insert_ne english]
        rfl
  · rw [if_neg bare]
    have others : (filed "default" written).lookup "default" = none ∨
        ∃ text, (filed "default" written).lookup "default" = some text ∧ (filed "default" written).keys.length ≠ 1 := by
      cases own : (filed "default" written).lookup "default" with
      | none => exact Or.inl rfl
      | some text =>
        refine Or.inr ⟨text, rfl, fun one => bare (bare_iff.mpr ?_)⟩
        have member : "default" ∈ filed "default" written := by
          rw [← AList.lookup_isSome, own]
          rfl
        exact (keys_length_eq_one_iff member).mp one
    rcases others with none_ | ⟨text, own, more⟩
    · rw [none_]
      by_cases same : language = "default"
      · rw [if_pos same, same, none_]
        rfl
      · rw [if_neg same]
        exact lookup_filed _ _ _
    · rw [own]
      dsimp only
      rw [if_neg more]
      by_cases same : language = "default"
      · rw [if_pos same, same]
        exact AList.lookup_erase _ _
      · rw [if_neg same, AList.lookup_erase_ne same]
        exact lookup_filed _ _ _

theorem mem_choice_iff {name key : String} {written : List Written} :
    key ∈ (choice name written).texts ↔
      if Bare written then key = "en" else ∃ w ∈ written, w.language = some key ∧ key ≠ "default" := by
  by_cases none_ : written = []
  · subst none_
    have bare : Bare [] := fun w member => absurd member List.not_mem_nil
    rw [if_pos bare]
    show key ∈ AList.singleton "en" name ↔ _
    rw [AList.mem_keys, AList.keys_singleton, List.mem_singleton]
  · rw [← AList.lookup_isSome, lookup_choice none_, Option.isSome_map]
    by_cases bare : Bare written
    · rw [if_pos bare, if_pos bare]
      by_cases english : key = "en"
      · rw [if_pos english]
        exact iff_of_true (List.getLast?_isSome.mpr none_) english
      · rw [if_neg english]
        exact iff_of_false Bool.noConfusion english
    · rw [if_neg bare, if_neg bare]
      by_cases same : key = "default"
      · rw [if_pos same]
        refine iff_of_false Bool.noConfusion ?_
        rintro ⟨w, -, -, other⟩
        exact other same
      · rw [if_neg same, lastUnder, List.getLast?_isSome, ne_eq, List.filter_eq_nil_iff]
        simp only [decide_eq_true_eq, not_forall, not_not, exists_prop]
        refine exists_congr fun w => and_congr_right fun _ => ?_
        cases w.language with
        | none => exact iff_of_false (fun is => same is.symm) (by simp)
        | some own => simp [same]

theorem choice_sound_iff {name language : String} {languages : List String} {written : List Written}
    (known : ∀ w ∈ written, ∀ own ∈ w.language, own ∈ languages) :
    ((∀ key ∈ (choice name written).texts, key ∈ languages) ∧ (choice name written).Kept language) ↔
      ChoiceSound language languages written := by
  refine and_congr ?_ ?_
  · simp only [mem_choice_iff]
    by_cases bare : Bare written
    · simp [bare]
    · simp only [bare, if_false, false_imp_iff, iff_true]
      rintro key ⟨w, within, own, -⟩
      exact known w within key own
  · by_cases none_ : written = []
    · subst none_
      exact iff_of_true (fun w member => absurd member List.not_mem_nil) fun w member => absurd member List.not_mem_nil
    · exact kept_iff (lookup_choice none_)

end Filing

section Nodes

variable {ρ : Type} {finder : Finder ρ} {choices : List ChoiceRow} {seen : List String}

theorem base_read {row : Row} {base : String} : ∀ w ∈ finder.read row base, w.base = base := by
  intro w member
  obtain ⟨entry, -, rfl⟩ := List.mem_map.mp member
  rfl

theorem usedMessages_read (row : Row) :
    usedMessages (finder.messages row).written =
      if finder.read row "bind:jr:constraintmsg" = [] then finder.read row "constraint_message"
      else finder.read row "bind:jr:constraintmsg" := by
  show usedMessages (finder.read row "constraint_message" ++ finder.read row "bind:jr:constraintmsg") = _
  have first : (finder.read row "constraint_message").filter (fun w => w.base = "bind:jr:constraintmsg") = [] := by
    rw [List.filter_eq_nil_iff]
    intro w member
    rw [base_read w member]
    decide
  have second : (finder.read row "bind:jr:constraintmsg").filter (fun w => w.base = "bind:jr:constraintmsg") =
      finder.read row "bind:jr:constraintmsg" :=
    List.filter_eq_self.mpr fun w member => decide_eq_true (base_read w member)
  have some_iff : (∃ w ∈ finder.read row "constraint_message" ++ finder.read row "bind:jr:constraintmsg",
      w.base = "bind:jr:constraintmsg") ↔ finder.read row "bind:jr:constraintmsg" ≠ [] := by
    constructor
    · rintro ⟨w, member, is⟩ none_
      rw [none_, List.append_nil] at member
      rw [base_read w member] at is
      exact absurd is (by decide)
    · intro some_
      obtain ⟨w, member⟩ := List.exists_mem_of_ne_nil _ some_
      exact ⟨w, List.mem_append_right _ member, base_read w member⟩
  unfold usedMessages
  by_cases none_ : finder.read row "bind:jr:constraintmsg" = []
  · rw [if_neg fun some_ => some_iff.mp some_ none_, if_pos none_, none_, List.append_nil]
  · rw [if_pos (some_iff.mpr none_), if_neg none_, List.filter_append, first, second, List.nil_append]

structure Recorded (finder : Finder ρ) (choices : List ChoiceRow) (seen : List String) (texts : Texts) : Prop where
  made : ∃ row, texts = finder.containerTexts row ∨ ∃ listName, texts = finder.questionTexts choices row listName
  names : texts.named ⊆ seen

theorem Recorded.mono {texts : Texts} {later : List String} (recorded : Recorded finder choices seen texts)
    (more : seen ⊆ later) : Recorded finder choices later texts := ⟨recorded.made, fun _ member => more (recorded.names member)⟩

theorem mem_named {written : List Written} {w : Written} (member : w ∈ written) {own : String} (is : own ∈ w.language) :
    own ∈ named written := List.mem_filterMap.mpr ⟨w, member, is⟩

theorem usedMessages_subset (written : List Written) : usedMessages written ⊆ written := by
  unfold usedMessages
  split
  · exact List.filter_subset_self _
  · exact fun _ member => member

theorem Recorded.filed {texts : Texts} (recorded : Recorded finder choices seen texts) :
    texts.label.texts = Languages.filed "en" texts.label.written ∧ texts.hint.texts = Languages.filed "en" texts.hint.written ∧
      texts.constraintMessage.texts = Languages.filed "en" (usedMessages texts.constraintMessage.written) ∧
        ∀ item ∈ texts.choices, ∃ made ∈ choices, item = choice made.name made.written := by
  obtain ⟨row, rfl | ⟨listName, rfl⟩⟩ := recorded.made
  · refine ⟨rfl, rfl, congrArg (Languages.filed "en") (usedMessages_read row).symm, ?_⟩
    intro item member
    cases member
  · refine ⟨rfl, rfl, congrArg (Languages.filed "en") (usedMessages_read row).symm, ?_⟩
    intro item member
    obtain ⟨made, kept, rfl⟩ := List.mem_map.mp member
    exact ⟨made, (List.mem_filter.mp kept).1, rfl⟩

theorem texts_sound_iff {texts : Texts} {language : String} {languages : List String}
    (recorded : Recorded finder choices seen texts) (default : language ∈ languages) (known : seen ⊆ languages)
    (listed : ∀ item ∈ choices, named item.written ⊆ seen) :
    (∀ field ∈ (texts.retagged language).fields,
      (∀ key ∈ field.texts, key ∈ languages) ∧ field.Kept language) ↔ texts.Sound language languages := by
  obtain ⟨label, hint, message, items⟩ := recorded.filed
  have node {field : Field} {used : List Written} (is : field.texts = Languages.filed "en" used) (within : used ⊆ field.written)
      (names : named field.written ⊆ texts.named) :
      ((∀ key ∈ (field.retagged language).texts, key ∈ languages) ∧ (field.retagged language).Kept language) ↔
        NodeSound language languages field.written used := by
    unfold Field.retagged
    rw [is]
    exact node_sound_iff default fun w member own same => known (recorded.names (names (mem_named (within member) same)))
  have choice_ : (∀ item ∈ texts.choices, (∀ key ∈ item.texts, key ∈ languages) ∧ item.Kept language) ↔
      ∀ item ∈ texts.choices, ChoiceSound language languages item.written := by
    refine forall₂_congr fun item member => ?_
    obtain ⟨made, among, rfl⟩ := items item member
    exact choice_sound_iff fun w within own same => known (listed made among (mem_named within same))
  show (∀ field ∈ texts.label.retagged language :: texts.hint.retagged language ::
    texts.constraintMessage.retagged language :: texts.choices, _) ↔ _
  rw [List.forall_mem_cons, List.forall_mem_cons, List.forall_mem_cons]
  refine and_congr (node label (fun _ member => member) ?_) (and_congr (node hint (fun _ member => member) ?_)
    (and_congr (node message (usedMessages_subset _) ?_) choice_))
  · exact List.subset_append_left _ _
  · exact fun _ member => List.mem_append_right _ (List.mem_append_left _ member)
  · exact fun _ member => List.mem_append_right _ (List.mem_append_right _ member)

end Nodes

section Tree

variable {τ σ : Type}

theorem heldIn_append (a b : List (Node τ τ)) : heldIn (a ++ b) = heldIn a ++ heldIn b := by
  induction a with
  | nil => rfl
  | cons node a ih => rw [List.cons_append, heldIn, heldIn, ih, List.append_assoc]

def Holds (P : τ → Prop) (r : Reading σ τ τ) : Prop :=
  (∀ t ∈ heldIn r.root, P t) ∧ ∀ entry ∈ r.stack, (∀ t ∈ entry.1.members, P t) ∧ ∀ t ∈ heldIn entry.2, P t

variable {P : τ → Prop}

theorem Holds.mono {Q : τ → Prop} {r : Reading σ τ τ} (holds : Holds P r) (imp : ∀ t, P t → Q t) : Holds Q r :=
  ⟨fun t member => imp t (holds.1 t member), fun entry listed =>
    ⟨fun t member => imp t ((holds.2 entry listed).1 t member), fun t member => imp t ((holds.2 entry listed).2 t member)⟩⟩

theorem heldIn_concat {nodes : List (Node τ τ)} {node : Node τ τ} (before : ∀ t ∈ heldIn nodes, P t)
    (new : ∀ t ∈ held node, P t) : ∀ t ∈ heldIn (nodes ++ [node]), P t := by
  intro t member
  rw [heldIn_append, List.mem_append] at member
  rcases member with early | late
  · exact before t early
  · rw [heldIn, heldIn, List.append_nil] at late
    exact new t late

theorem Holds.append {r : Reading σ τ τ} (holds : Holds P r) {node : Node τ τ} (new : ∀ t ∈ held node, P t) :
    Holds P (r.append node) := by
  unfold Reading.append
  split
  · rename_i none_
    exact ⟨heldIn_concat holds.1 new, holds.2⟩
  · rename_i o children outer is
    rw [Holds, is] at holds
    obtain ⟨root, stack⟩ := holds
    obtain ⟨⟨members, inner⟩, outside⟩ := List.forall_mem_cons.mp stack
    exact ⟨root, List.forall_mem_cons.mpr ⟨⟨members, heldIn_concat inner new⟩, outside⟩⟩

theorem held_opened {o : Opened τ} {children : List (Node τ τ)} (members : ∀ t ∈ o.members, P t)
    (inner : ∀ t ∈ heldIn children, P t) : ∀ t ∈ held (o.node children), P t := by
  intro t member
  rw [Opened.node, held, List.mem_append] at member
  rcases member with own | within
  · exact members t (Option.mem_toList.mp own)
  · exact inner t within

theorem Holds.close {r : Reading σ τ τ} (holds : Holds P r) (raw : String) (typeCell : Cell) :
    Holds P (r.close raw typeCell) := by
  unfold Reading.close
  split
  · exact holds
  · rename_i o children outer is
    rw [Holds, is] at holds
    obtain ⟨root, stack⟩ := holds
    obtain ⟨⟨members, inner⟩, outside⟩ := List.forall_mem_cons.mp stack
    exact Holds.append (r := { r with stack := outer }) ⟨root, outside⟩ (held_opened members inner)

theorem Holds.tree {r : Reading σ τ τ} (holds : Holds P r) : ∀ t ∈ heldIn r.tree, P t := by
  have plug : ∀ (stack : List (Opened τ × List (Node τ τ))) (nodes : List (Node τ τ)),
      (∀ entry ∈ stack, (∀ t ∈ entry.1.members, P t) ∧ ∀ t ∈ heldIn entry.2, P t) → (∀ t ∈ heldIn nodes, P t) →
        ∀ t ∈ heldIn (stack.foldl (fun nodes entry => [entry.1.node (entry.2 ++ nodes)]) nodes), P t := by
    intro stack
    induction stack with
    | nil => exact fun nodes _ inner => inner
    | cons entry stack ih =>
      intro nodes each inner
      obtain ⟨⟨members, children⟩, outside⟩ := List.forall_mem_cons.mp each
      refine ih _ outside (@heldIn_concat _ _ [] _ (fun t member => absurd member List.not_mem_nil) ?_)
      refine held_opened members fun t member => ?_
      rw [heldIn_append, List.mem_append] at member
      exact member.elim (children t) (inner t)
  intro t member
  rw [Reading.tree, heldIn_append, List.mem_append] at member
  rcases member with early | late
  · exact holds.1 t early
  · exact plug r.stack [] holds.2 (fun t member => absurd member List.not_mem_nil) t late

end Tree

section Survey

variable {ρ : Type} {finder : Finder ρ} {choices : List ChoiceRow} {start : List String}

structure Read (finder : Finder ρ) (choices : List ChoiceRow) (start : List String)
    (r : Reading (ρ × List String) Texts Texts) : Prop where
  holds : Holds (Recorded finder choices r.rest.2) r
  begun : start ⊆ r.rest.2

theorem Read.same {r r' : Reading (ρ × List String) Texts Texts} (read : Read finder choices start r)
    (root : r'.root = r.root) (stack : r'.stack = r.stack) (rest : r'.rest.2 = r.rest.2) : Read finder choices start r' := by
  refine ⟨?_, rest ▸ read.begun⟩
  have holds := read.holds
  rw [Holds] at holds ⊢
  rw [root, stack, rest]
  exact holds

theorem containerTexts_recorded (row : Row) (seen : List String) :
    Recorded finder choices (seen ++ (finder.containerTexts row).named) (finder.containerTexts row) :=
  ⟨⟨row, Or.inl rfl⟩, List.subset_append_right _ _⟩

theorem questionTexts_recorded (row : Row) (listName : Option String) (seen : List String) :
    Recorded finder choices (seen ++ (finder.questionTexts choices row listName).named)
      (finder.questionTexts choices row listName) := ⟨⟨row, Or.inr ⟨listName, rfl⟩⟩, List.subset_append_right _ _⟩

theorem container_read {row : Row} {typeCell : Cell} {lowered : String} {s s' : ρ × List String} {o : Opened Texts}
    {found : List Diagnostic} (made : container (importer finder choices) row typeCell lowered s = (o, found, s')) :
    s.2 ⊆ s'.2 ∧ ∀ t ∈ o.members, Recorded finder choices s'.2 t := by
  unfold container at made
  dsimp only at made
  split at made
  · rename_i none_
    obtain ⟨rfl, -, rfl⟩ := made
    have same : s'.2 = s.2 := congrArg (fun pair => pair.2.2) none_.symm
    exact ⟨same ▸ List.Subset.refl _, fun t is => by cases is⟩
  · rename_i id kept some_
    obtain ⟨rfl, -, rfl⟩ := made
    have same : kept.2 = s.2 := congrArg (fun pair => pair.2.2) some_.symm
    refine ⟨?_, fun t is => ?_⟩
    · show s.2 ⊆ kept.2 ++ _
      rw [same]
      exact List.subset_append_left _ _
    · obtain rfl := Option.some.inj is
      exact containerTexts_recorded row kept.2

theorem question_none {row : Row} {cell : Cell} {raw : String} {s : ρ × List String} {rest : ρ}
    (given : finder.question row cell raw s.1 = (none, rest)) :
    (importer finder choices).question row cell raw s = (none, rest, s.2) := by
  unfold importer
  dsimp only
  rw [given]

theorem question_some {row : Row} {cell : Cell} {raw : String} {s : ρ × List String} {listName : Option String} {rest : ρ}
    (given : finder.question row cell raw s.1 = (some listName, rest)) :
    (importer finder choices).question row cell raw s =
      (some (finder.questionTexts choices row listName), rest, s.2 ++ (finder.questionTexts choices row listName).named) := by
  unfold importer
  dsimp only
  rw [given]

theorem Read.step {r : Reading (ρ × List String) Texts Texts} (read : Read finder choices start r) (row : Row) :
    Read finder choices start (step (importer finder choices) r row) := by
  cases is : mark (importer finder choices) row with
  | opens kind =>
    obtain ⟨typeCell, o, found, s, -, made, stepped⟩ := step_opens r is
    obtain ⟨more, members⟩ := container_read made
    rw [stepped]
    refine ⟨⟨?_, ?_⟩, List.Subset.trans read.begun more⟩
    · exact fun t member => (read.holds.1 t member).mono more
    · refine List.forall_mem_cons.mpr ⟨⟨members, fun t member => absurd member List.not_mem_nil⟩, ?_⟩
      exact (read.holds.mono fun t recorded => recorded.mono more).2
  | closes kind =>
    obtain ⟨typeCell, found, -, stepped⟩ := step_closes r is
    have rest : ((r.report found).close (rawType typeCell) typeCell).rest = r.rest := close_rest _ _ _
    rw [stepped]
    refine ⟨?_, rest ▸ read.begun⟩
    rw [rest]
    exact Holds.close (r := r.report found) read.holds _ _
  | other =>
    cases typed : row.cells.lookup "type" with
    | none =>
      obtain ⟨found, -, stepped⟩ := @step_untyped _ _ _ (importer finder choices) row r typed
      rw [stepped]
      exact read.same rfl rfl rfl
    | some typeCell =>
      rw [step_question r typed is]
      cases given : finder.question row typeCell (rawType typeCell) r.rest.1 with
      | mk made s =>
      cases made with
      | none =>
        rw [question_none given]
        exact read.same rfl rfl rfl
      | some listName =>
        rw [question_some given]
        have rest : (r.asked (some (finder.questionTexts choices row listName), s,
            r.rest.2 ++ (finder.questionTexts choices row listName).named)).rest =
            (s, r.rest.2 ++ (finder.questionTexts choices row listName).named) := append_rest _ _
        refine ⟨?_, ?_⟩
        · rw [rest]
          refine Holds.append ?_ ?_
          · exact read.holds.mono fun t recorded => recorded.mono (List.subset_append_left _ _)
          · intro t member
            obtain rfl := List.mem_singleton.mp member
            exact questionTexts_recorded row listName _
        · rw [rest]
          exact List.Subset.trans read.begun (List.subset_append_left _ _)

theorem Read.rows {r : Reading (ρ × List String) Texts Texts} (read : Read finder choices start r) (rows : List Row) :
    Read finder choices start (readRows (importer finder choices) r rows) := by
  induction rows generalizing r with
  | nil => exact read
  | cons row rows ih => exact ih (read.step row)

theorem readTexts_recorded (finder : Finder ρ) (book : Workbook) (start : ρ) :
    (∀ texts ∈ heldIn (readTexts finder book start).1,
      Recorded finder (book.choiceRows finder) (readTexts finder book start).2 texts) ∧
      ∀ item ∈ book.choiceRows finder, named item.written ⊆ (readTexts finder book start).2 := by
  have begun : Read finder (book.choiceRows finder) ((book.choiceRows finder).flatMap fun item => named item.written)
      ⟨[], [], [], (start, (book.choiceRows finder).flatMap fun item => named item.written)⟩ := by
    refine ⟨⟨fun t member => absurd member List.not_mem_nil, fun entry member => absurd member List.not_mem_nil⟩, ?_⟩
    exact List.Subset.refl _
  have read := begun.rows book.survey
  refine ⟨read.holds.tree, fun item member own within => read.begun ?_⟩
  exact List.mem_flatMap.mpr ⟨item, member, within⟩

end Survey

section Whole

variable {ρ : Type}

mutual

theorem held_retagNode (language : String) (node : Node Texts Texts) :
    held (retagNode language node) = (held node).map (Texts.retagged language) := by
  cases node with
  | question texts => rfl
  | container kind id members children =>
    rw [retagNode, held, held, heldIn_retagNodes language children, List.map_append]
    cases members <;> rfl

theorem heldIn_retagNodes (language : String) (nodes : List (Node Texts Texts)) :
    heldIn (retagNodes language nodes) = (heldIn nodes).map (Texts.retagged language) := by
  cases nodes with
  | nil => rfl
  | cons node rest =>
    rw [retagNodes, heldIn, heldIn, held_retagNode language node, heldIn_retagNodes language rest, List.map_append]

end

theorem mem_languagesOf (finder : Finder ρ) (declared : Option String) (seen : List String) :
    defaultOf finder declared seen ∈ languagesOf finder declared seen ∧ seen ⊆ languagesOf finder declared seen := by
  have sorted : seen ⊆ sortedLanguages seen := by
    intro language member
    rw [sortedLanguages, List.mem_insertionSort, List.mem_dedup]
    exact member
  unfold languagesOf
  dsimp only
  split
  · rename_i among
    exact ⟨among, sorted⟩
  · exact ⟨List.mem_cons_self, fun language member => List.mem_cons_of_mem _ (sorted member)⟩

/-- An import files every text under a language of the form, and keeps every unsuffixed text, exactly where the columns of
the rows that it reads are sound. -/
theorem declared_iff (finder : Finder ρ) (book : Workbook) (start : ρ) :
    (importWorkbook finder book start).Declared ↔ book.Sound finder start := by
  obtain ⟨recorded, listed⟩ := readTexts_recorded finder book start
  obtain ⟨default, known⟩ := mem_languagesOf finder book.declared (readTexts finder book start).2
  unfold Document.Declared Document.fields Workbook.Sound
  rw [List.forall_mem_flatMap]
  show (∀ texts ∈ heldIn (retagNodes _ (readTexts finder book start).1), _) ↔ _
  rw [heldIn_retagNodes, List.forall_mem_map]
  refine forall₂_congr fun texts member => ?_
  exact texts_sound_iff (recorded texts member) default known listed

end Whole

section Swahili

def plain : Finder Unit where
  lower text := text
  identifier name _ _ s := (some name, s)
  question _ _ _ s := (some none, s)
  shown _ _ text := text

def cellOf (sheet : String) (row : ℕ) (column value : String) : String × Cell := (column, ⟨⟨sheet, row, column⟩, value⟩)

def nameRow : Row :=
  ⟨"survey", 2, [cellOf "survey" 2 "type" "text", cellOf "survey" 2 "name" "jina", cellOf "survey" 2 "label" "Jina lako"]⟩

def swahili : Workbook where
  settings := [⟨"settings", 2, [cellOf "settings" 2 "default_language" "sw"]⟩]
  choices := []
  survey := [nameRow]

/-- Its label is under `en`, which is no language of the form. -/
theorem swahili_undeclared : ¬(importWorkbook plain swahili ()).Declared := by
  intro declared
  have fields : (importWorkbook plain swahili ()).fields = ((plain.questionTexts [] nameRow none).retagged "sw").fields := by rfl
  have languages : (importWorkbook plain swahili ()).languages = ["sw"] := by rfl
  have label : (plain.questionTexts [] nameRow none).label.retagged "sw" ∈ (importWorkbook plain swahili ()).fields := by
    rw [fields]
    exact List.mem_cons_self
  have english := (declared _ label).1 "en" (by decide)
  rw [languages] at english
  exact absurd english (by decide)

end Swahili

end DataCollectionLab.Xlsform.Languages
