import DataCollectionLab.Entities.Versions

/-!
A dataset row as text on the device: the serialiser writes it, and the store's small reader picks its
pairs for the index. The reader knows fewer escapes than the serialiser writes.
-/

namespace DataCollectionLab.Core

open Entities

def hexChar (n : Nat) : Char := if n < 10 then Char.ofNat ('0'.toNat + n) else Char.ofNat ('a'.toNat + (n - 10))

def backspace : Char := Char.ofNat 8

def formFeed : Char := Char.ofNat 12

def escapeLetters : List (Char × Char) :=
  [('"', '"'), ('\\', '\\'), ('\t', 't'), (backspace, 'b'), ('\n', 'n'), ('\r', 'r'), (formFeed, 'f')]

def escapeChar (c : Char) : List Char :=
  match escapeLetters.lookup c with
  | some letter => ['\\', letter]
  | none =>
    if c.toNat < 32 then ['\\', 'u', '0', '0', hexChar (c.toNat / 16), hexChar (c.toNat % 16)] else [c]

def quote (text : String) : List Char := '"' :: (text.toList.flatMap escapeChar ++ ['"'])

def encodeCells : List (String × String) → List Char
  | [] => []
  | [cell] => quote cell.1 ++ ':' :: quote cell.2
  | cell :: rest => quote cell.1 ++ ':' :: (quote cell.2 ++ ',' :: encodeCells rest)

/-- `encodeToString` of a map of text to text. -/
def encodeToString (row : Row) : List Char := '{' :: (encodeCells row.cells ++ ['}'])

def hexValue (c : Char) : Option Nat :=
  if '0' ≤ c ∧ c ≤ '9' then some (c.toNat - '0'.toNat)
  else if 'a' ≤ c ∧ c ≤ 'f' then some (c.toNat - 'a'.toNat + 10)
  else if 'A' ≤ c ∧ c ≤ 'F' then some (c.toNat - 'A'.toNat + 10)
  else none

/-- What the reader makes of an escaped character other than `u`. -/
def unescape (escaped : Char) : Char :=
  if escaped = 'n' then '\n' else if escaped = 't' then '\t' else if escaped = 'r' then '\r' else escaped

/-- `readString` past the opening quote: the text, and what follows the closing quote. -/
def readText : List Char → Option (List Char × List Char)
  | [] => none
  | c :: rest =>
    if c = '"' then some ([], rest)
    else if c = '\\' then
      match rest with
      | [] => none
      | escaped :: rest =>
        if escaped = 'u' then
          match rest with
          | a :: b :: c :: d :: rest => do
            let code := (← hexValue a) * 4096 + (← hexValue b) * 256 + (← hexValue c) * 16 + (← hexValue d)
            (readText rest).map fun read => (Char.ofNat code :: read.1, read.2)
          | _ => none
        else (readText rest).map fun read => (unescape escaped :: read.1, read.2)
    else (readText rest).map fun read => (c :: read.1, read.2)

/-- `readString`: the next quoted text before a closing brace. -/
def readString : List Char → Option (List Char × List Char)
  | [] => none
  | c :: rest => if c = '"' then readText rest else if c = '}' then none else readString rest

/-- The loop of `flatJsonPairs`, for as many rounds as the text has characters. -/
def readPairs : (fuel : Nat) → List Char → List (String × String)
  | 0, _ => []
  | fuel + 1, json =>
    match readString json with
    | none => []
    | some (key, rest) =>
      match rest.dropWhile fun c => c ≠ ':' ∧ c ≠ '}' with
      | [] => []
      | mark :: rest =>
        if mark = '}' then []
        else
          match rest.dropWhile (· = ' ') with
          | [] => []
          | c :: rest =>
            -- A number or an object is skipped and the row stays readable through the scan.
            if c ≠ '"' then readPairs fuel (c :: rest)
            else
              match readText rest with
              | none => []
              | some (value, rest) => (String.ofList key, String.ofList value) :: readPairs fuel rest

def flatJsonPairs (json : List Char) : List (String × String) := readPairs json.length json

/-- What the reader makes of a character that was serialised: it takes the escapes of a backspace and of a
form feed for the letters they end in. -/
def misread (c : Char) : Char := if c = backspace then 'b' else if c = formFeed then 'f' else c

def misreadText (text : String) : String := String.ofList (text.toList.map misread)

theorem hexValue_hexChar {n : Nat} (small : n < 16) : hexValue (hexChar n) = some n := by
  have each : ∀ m : Fin 16, hexValue (hexChar m) = some m.val := by decide
  exact each ⟨n, small⟩

theorem escapeLetters_read : ∀ pair ∈ escapeLetters, pair.2 ≠ 'u' ∧ unescape pair.2 = misread pair.1 := by
  decide

theorem ne_of_lookup_none {c : Char} (none : escapeLetters.lookup c = none) :
    ∀ pair ∈ escapeLetters, c ≠ pair.1 := by
  intro pair member
  simpa using List.lookup_eq_none_iff.mp none pair member

theorem readText_escaped {letter : Char} (rest : List Char) (named : letter ≠ 'u') :
    readText ('\\' :: letter :: rest) =
      (readText rest).map fun read => (unescape letter :: read.1, read.2) := by
  rw [readText.eq_def]
  simp [named]

theorem readText_plain {c : Char} (rest : List Char) (quote : c ≠ '"') (backslash : c ≠ '\\') :
    readText (c :: rest) = (readText rest).map fun read => (c :: read.1, read.2) := by
  rw [readText.eq_def]
  simp [quote, backslash]

theorem readText_control {c : Char} (rest : List Char) (control : c.toNat < 32) :
    readText ('\\' :: 'u' :: '0' :: '0' :: hexChar (c.toNat / 16) :: hexChar (c.toNat % 16) :: rest) =
      (readText rest).map fun read => (c :: read.1, read.2) := by
  have zero : hexValue '0' = some 0 := by decide
  have high := hexValue_hexChar (show c.toNat / 16 < 16 by omega)
  have low := hexValue_hexChar (show c.toNat % 16 < 16 by omega)
  have digits : c.toNat / 16 * 16 + c.toNat % 16 = c.toNat := by omega
  rw [readText.eq_def]
  simp [zero, high, low, digits]

theorem readText_escapeChar (c : Char) (rest : List Char) :
    readText (escapeChar c ++ rest) = (readText rest).map fun read => (misread c :: read.1, read.2) := by
  unfold escapeChar
  split
  · rename_i letter found
    obtain ⟨front, back, split, -⟩ := List.lookup_eq_some_iff.mp found
    obtain ⟨named, same⟩ := escapeLetters_read (c, letter) (by rw [split]; simp)
    rw [← same]
    exact readText_escaped rest named
  · rename_i none
    have apart := ne_of_lookup_none none
    have same : misread c = c := by
      simp [misread, apart (backspace, 'b') (by decide), apart (formFeed, 'f') (by decide)]
    rw [same]
    split
    · rename_i control
      exact readText_control rest control
    · exact readText_plain rest (apart ('"', '"') (by decide)) (apart ('\\', '\\') (by decide))

theorem readText_quoted (text rest : List Char) :
    readText (text.flatMap escapeChar ++ '"' :: rest) = some (text.map misread, rest) := by
  induction text with
  | nil =>
    rw [List.flatMap_nil, List.nil_append, readText.eq_def]
    simp
  | cons c text ih =>
    rw [List.flatMap_cons, List.append_assoc, readText_escapeChar, ih]
    rfl

theorem readString_quote (text : String) (rest : List Char) :
    readString (quote text ++ rest) = some (text.toList.map misread, rest) := by
  rw [quote, List.cons_append, readString, if_pos rfl, List.append_assoc, List.singleton_append,
    readText_quoted]

theorem readPairs_cell (fuel : Nat) (column value : String) {lead : Char} (rest : List Char)
    (opens : lead ≠ '"' ∧ lead ≠ '}') :
    readPairs (fuel + 1) (lead :: (quote column ++ ':' :: (quote value ++ rest))) =
      (misreadText column, misreadText value) :: readPairs fuel rest := by
  have key : readString (lead :: (quote column ++ ':' :: (quote value ++ rest))) =
      some (column.toList.map misread, ':' :: (quote value ++ rest)) := by
    rw [readString, if_neg opens.1, if_neg opens.2, readString_quote]
  have text : readText (value.toList.flatMap escapeChar ++ '"' :: rest) =
      some (value.toList.map misread, rest) := readText_quoted _ _
  rw [readPairs, key]
  simp [quote, misreadText, text]

theorem encodeCells_cons (cell next : String × String) (rest : List (String × String)) :
    encodeCells (cell :: next :: rest) =
      quote cell.1 ++ ':' :: (quote cell.2 ++ ',' :: encodeCells (next :: rest)) := rfl

theorem encodeCells_length (cells : List (String × String)) : cells.length ≤ (encodeCells cells).length := by
  induction cells with
  | nil => exact Nat.zero_le _
  | cons cell rest ih =>
    cases rest with
    | nil => simp [encodeCells, quote]
    | cons next rest =>
      rw [encodeCells_cons]
      simp only [List.length_append, List.length_cons] at ih ⊢
      omega

theorem readPairs_encodeCells {fuel : Nat} {cells : List (String × String)} (enough : cells.length < fuel)
    {lead : Char} (opens : lead ≠ '"' ∧ lead ≠ '}') :
    readPairs fuel (lead :: (encodeCells cells ++ ['}'])) =
      cells.map fun cell => (misreadText cell.1, misreadText cell.2) := by
  have closed : ∀ fuel, readPairs fuel ['}'] = [] := by
    intro fuel
    cases fuel with
    | zero => rfl
    | succ fuel => simp [readPairs, readString]
  induction cells generalizing fuel lead with
  | nil =>
    cases fuel with
    | zero => rfl
    | succ fuel => simp [readPairs, readString, encodeCells, opens]
  | cons cell rest ih =>
    cases fuel with
    | zero => exact absurd enough (Nat.not_lt_zero _)
    | succ fuel =>
      have less : rest.length < fuel := by simpa using enough
      cases rest with
      | nil =>
        have text : encodeCells [cell] ++ ['}'] = quote cell.1 ++ ':' :: (quote cell.2 ++ ['}']) := by
          simp [encodeCells]
        rw [text, readPairs_cell fuel cell.1 cell.2 _ opens, closed]
        rfl
      | cons next rest =>
        have text : encodeCells (cell :: next :: rest) ++ ['}'] =
            quote cell.1 ++ ':' :: (quote cell.2 ++ ',' :: (encodeCells (next :: rest) ++ ['}'])) := by
          simp [encodeCells_cons]
        rw [text, readPairs_cell fuel cell.1 cell.2 _ opens, ih less (by decide)]
        rfl

theorem flatJsonPairs_encodeToString (row : Row) :
    flatJsonPairs (encodeToString row) = row.cells.map fun cell => (misreadText cell.1, misreadText cell.2) := by
  have length := encodeCells_length row.cells
  refine readPairs_encodeCells ?_ (by decide)
  rw [encodeToString, List.length_cons, List.length_append]
  simp only [List.length_cons, List.length_nil]
  omega

def Legible (text : String) : Prop := ∀ c ∈ text.toList, c ≠ backspace ∧ c ≠ formFeed

instance (text : String) : Decidable (Legible text) :=
  List.decidableBAll (fun c => c ≠ backspace ∧ c ≠ formFeed) text.toList

theorem misreadText_of_legible {text : String} (legible : Legible text) : misreadText text = text := by
  have same : text.toList.map misread = text.toList := by
    refine (List.map_congr_left fun c member => ?_).trans (List.map_id _)
    obtain ⟨noBackspace, noFormFeed⟩ := legible c member
    rw [misread, if_neg noBackspace, if_neg noFormFeed, id]
  rw [misreadText, same, String.ofList_toList]

end DataCollectionLab.Core
