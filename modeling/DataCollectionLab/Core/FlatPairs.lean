import DataCollectionLab.Lib.Loops
import DataCollectionLab.Lib.ReadBack
import DataCollectionLab.Lib.Utf16
import Mathlib.Algebra.Group.Int.Defs

/-!
`flatJsonPairs` of the device, over strings of UTF-16 units and with its index as it is: an access beyond the text is a
failure, and so is a loop that does not end. The reader knows fewer escapes than the serialiser writes.
-/

namespace DataCollectionLab.Core.FlatPairs

open Lib
open Lib.Utf16 (Units)

inductive Crash where
  | indexError
  | endless

abbrev Scan := Except Crash

def unit (c : Char) : UInt16 := UInt16.ofNat c.toNat

structure Platform where
  digitOf : UInt16 → Option ℕ
  hexadecimal : ∀ n < 16, digitOf (unit (Nat.digitChar n)) = some n

def asciiDigit (c : UInt16) : Option ℕ := (List.range 16).find? fun n => unit (Nat.digitChar n) = c

def ascii : Platform where
  digitOf := asciiDigit
  hexadecimal := by decide

section Numbers

variable (platform : Platform)

def digits : ℕ → Units → Option ℕ
  | value, [] => some value
  | value, c :: rest => do digits (value * 16 + (← platform.digitOf c)) rest

/-- `toIntOrNull(16)` of a text too short for an overflow. -/
def toIntOrNull : Units → Option ℤ
  | [] => none
  | first :: rest =>
    if first < unit '0' then
      if rest = [] then none
      else if first = unit '-' then (digits platform 0 rest).map fun n => -(n : ℤ)
      else if first = unit '+' then (digits platform 0 rest).map fun n => (n : ℤ)
      else none
    else (digits platform 0 (first :: rest)).map fun n => (n : ℤ)

/-- `toChar`: the low sixteen bits. -/
def toChar (code : ℤ) : UInt16 := UInt16.ofNat (code % 2 ^ 16).toNat

end Numbers

section Reader

variable (platform : Platform) (json : Units)

/-- `json[index]`. -/
def charAt (index : ℕ) : Scan UInt16 := json[index]?.elim (.error .indexError) .ok

/-- `json.substring(start, stop)`. -/
def substring (start stop : ℕ) : Scan Units :=
  if start ≤ stop ∧ stop ≤ json.length then .ok ((json.drop start).take (stop - start)) else .error .indexError

def whileLoop {σ ρ : Type} (turn : σ → Scan (Turn σ ρ)) : σ → Scan ρ := loop turn .endless (json.length + 1)

/-- The first loop of `readString`: the place of a quote, or of the end; none at a closing brace. -/
def seekQuote (index : ℕ) : Scan (Turn ℕ (Option ℕ)) := do
  if json.length ≤ index then return .done (some index)
  let c ← charAt json index
  if c = unit '"' then return .done (some index)
  if c = unit '\x7d' then return .done none
  return .again (index + 1)

/-- An escape but `u`. -/
def unescape (escaped : UInt16) : UInt16 :=
  if escaped = unit 'n' then unit '\n' else if escaped = unit 't' then unit '\t' else if escaped = unit 'r' then unit '\r'
  else escaped

def readText (state : ℕ × Units) : Scan (Turn (ℕ × Units) (Option (Units × ℕ))) := do
  let (index, text) := state
  if json.length ≤ index then return .done none
  let c ← charAt json index
  if c = unit '"' then return .done (some (text, index + 1))
  if c = unit '\\' then
    let index := index + 1
    if json.length ≤ index then return .done none
    let escaped ← charAt json index
    if escaped = unit 'u' then
      if json.length ≤ index + 4 then return .done none
      match toIntOrNull platform (← substring json (index + 1) (index + 5)) with
      | none => return .done none
      | some code => return .again (index + 5, text ++ [toChar code])
    return .again (index + 1, text ++ [unescape escaped])
  return .again (index + 1, text ++ [c])

/-- `readString`: the text and the index after it. -/
def readString (index : ℕ) : Scan (Option (Units × ℕ)) := do
  match ← whileLoop json (seekQuote json) index with
  | none => return none
  | some index =>
    if json.length ≤ index then return none
    whileLoop json (readText platform json) (index + 1, [])

def seekColon (index : ℕ) : Scan (Turn ℕ ℕ) := do
  if json.length ≤ index then return .done index
  let c ← charAt json index
  if c = unit ':' ∨ c = unit '\x7d' then return .done index
  return .again (index + 1)

def skipSpaces (index : ℕ) : Scan (Turn ℕ ℕ) := do
  if json.length ≤ index then return .done index
  let c ← charAt json index
  if c = unit ' ' then return .again (index + 1)
  return .done index

abbrev Pairs := List (Units × Units)

def readPair (state : ℕ × Pairs) : Scan (Turn (ℕ × Pairs) Pairs) := do
  let (index, out) := state
  if json.length ≤ index then return .done out
  match ← readString platform json index with
  | none => return .done out
  | some (key, index) =>
    let index ← whileLoop json (seekColon json) index
    if json.length ≤ index then return .done out
    if (← charAt json index) = unit '\x7d' then return .done out
    let index ← whileLoop json (skipSpaces json) (index + 1)
    -- A number or an object is skipped and the row stays readable through the scan.
    if index < json.length then
      if (← charAt json index) ≠ unit '"' then return .again (index, out)
    match ← readString platform json index with
    | none => return .done out
    | some (value, index) => return .again (index, out ++ [(key, value)])

def flatJsonPairs : Scan Pairs := whileLoop json (readPair platform json) (0, [])

end Reader

section Writer

def escapeLetters : List (UInt16 × UInt16) :=
  [(unit '"', unit '"'), (unit '\\', unit '\\'), (unit '\t', unit 't'), (8, unit 'b'), (unit '\n', unit 'n'),
    (unit '\r', unit 'r'), (12, unit 'f')]

def hexUnit (n : ℕ) : UInt16 := unit (Nat.digitChar n)

def escapeUnit (c : UInt16) : Units :=
  match escapeLetters.lookup c with
  | some letter => [unit '\\', letter]
  | none =>
    if c < unit ' ' then [unit '\\', unit 'u', unit '0', unit '0', hexUnit (c.toNat / 16), hexUnit (c.toNat % 16)] else [c]

def quote (text : Units) : Units := unit '"' :: (text.flatMap escapeUnit ++ [unit '"'])

/-- `encodeToString` of a map of text to text. -/
def encodeToString (entries : Pairs) : Units :=
  unit '\x7b' :: (joined (unit ',') (entries.map fun entry => quote entry.1 ++ unit ':' :: quote entry.2) ++ [unit '\x7d'])

end Writer

def Legible (text : Units) : Prop := ∀ c ∈ text, c ≠ 8 ∧ c ≠ 12

section Ends

variable (platform : Platform) (json : Units)

theorem charAt_ok {json : Units} {index : ℕ} (within : index < json.length) : ∃ c, charAt json index = .ok c := by
  refine ⟨json[index], ?_⟩
  rw [charAt, List.getElem?_eq_getElem within]
  rfl

theorem whileLoop_ends {json : Units} {σ ρ : Type} {turn : σ → Scan (Turn σ ρ)} (Inv : σ → Prop) (Post : ρ → Prop) (index : σ → ℕ)
    (turns : ∀ s, Inv s → (∃ s', turn s = .ok (.again s') ∧ Inv s' ∧ index s < json.length ∧ index s < index s') ∨
      ∃ r, turn s = .ok (.done r) ∧ Post r)
    {s : σ} (start : Inv s) : ∃ r, whileLoop json turn s = .ok r ∧ Post r := by
  refine loop_ends (fun s => json.length - index s) (fun s kept => ?_) start (by omega)
  rcases turns s kept with ⟨s', goes, kept', within, on⟩ | done
  · exact .inl ⟨s', goes, kept', by omega⟩
  · exact .inr done

theorem seekQuote_ends (start : ℕ) : ∃ r, whileLoop json (seekQuote json) start = .ok r ∧ ∀ i ∈ r, start ≤ i := by
  refine whileLoop_ends (start ≤ ·) _ id (fun index kept => ?_) le_rfl
  unfold seekQuote
  by_cases ends : json.length ≤ index
  · rw [if_pos ends]
    exact .inr ⟨_, rfl, by simpa using kept⟩
  rw [if_neg ends]
  obtain ⟨c, is⟩ := charAt_ok (Nat.lt_of_not_le ends)
  simp only [is, bind, Except.bind, pure, Except.pure]
  split
  · exact .inr ⟨_, rfl, by simpa using kept⟩
  split
  · exact .inr ⟨_, rfl, nofun⟩
  · exact .inl ⟨_, rfl, Nat.le_succ_of_le kept, Nat.lt_of_not_le ends, Nat.lt_succ_self _⟩

theorem substring_ok {json : Units} {start stop : ℕ} (order : start ≤ stop) (within : stop ≤ json.length) :
    ∃ text, substring json start stop = .ok text := ⟨_, if_pos ⟨order, within⟩⟩

theorem readText_ends (state : ℕ × Units) :
    ∃ r, whileLoop json (readText platform json) state = .ok r ∧ ∀ read ∈ r, state.1 < read.2 := by
  refine whileLoop_ends (fun s => state.1 ≤ s.1) _ Prod.fst (fun s kept => ?_) le_rfl
  obtain ⟨index, text⟩ := s
  have kept : state.1 ≤ index := kept
  unfold readText
  dsimp only
  by_cases ends : json.length ≤ index
  · rw [if_pos ends]
    exact .inr ⟨_, rfl, nofun⟩
  have within := Nat.lt_of_not_le ends
  rw [if_neg ends]
  obtain ⟨c, is⟩ := charAt_ok within
  simp only [is, bind, Except.bind, pure, Except.pure]
  split
  · refine .inr ⟨_, rfl, fun read member => ?_⟩
    obtain rfl := Option.some.inj member
    exact Nat.lt_succ_of_le kept
  split
  · by_cases beyond : json.length ≤ index + 1
    · rw [if_pos beyond]
      exact .inr ⟨_, rfl, nofun⟩
    rw [if_neg beyond]
    obtain ⟨escaped, is'⟩ := charAt_ok (Nat.lt_of_not_le beyond)
    simp only [is']
    split
    · by_cases short : json.length ≤ index + 1 + 4
      · rw [if_pos short]
        exact .inr ⟨_, rfl, nofun⟩
      rw [if_neg short]
      -- The four digits are within the text.
      obtain ⟨code, is''⟩ := @substring_ok json (index + 1 + 1) (index + 1 + 5) (by omega) (by omega)
      simp only [is'']
      split
      · exact .inr ⟨_, rfl, nofun⟩
      · exact .inl ⟨_, rfl, by dsimp only; omega, within, by dsimp only; omega⟩
    · exact .inl ⟨_, rfl, by dsimp only; omega, within, by dsimp only; omega⟩
  · exact .inl ⟨_, rfl, by dsimp only; omega, within, by dsimp only; omega⟩

theorem readString_ends (start : ℕ) : ∃ r, readString platform json start = .ok r ∧ ∀ read ∈ r, start < read.2 := by
  obtain ⟨found, seek, after⟩ := seekQuote_ends json start
  unfold readString
  rw [seek]
  cases found with
  | none => exact ⟨none, rfl, nofun⟩
  | some index =>
    have after := after index rfl
    by_cases beyond : json.length ≤ index
    · exact ⟨none, if_pos beyond, nofun⟩
    · obtain ⟨r, ran, later⟩ := readText_ends platform json (index + 1, [])
      refine ⟨r, (if_neg beyond).trans ran, fun read member => ?_⟩
      have later := later read member
      dsimp only at later
      omega

theorem seekColon_ends (start : ℕ) : ∃ r, whileLoop json (seekColon json) start = .ok r ∧ start ≤ r := by
  refine whileLoop_ends (start ≤ ·) _ id (fun index kept => ?_) le_rfl
  unfold seekColon
  by_cases ends : json.length ≤ index
  · rw [if_pos ends]
    exact .inr ⟨_, rfl, kept⟩
  rw [if_neg ends]
  obtain ⟨c, is⟩ := charAt_ok (Nat.lt_of_not_le ends)
  simp only [is, bind, Except.bind, pure, Except.pure]
  split
  · exact .inr ⟨_, rfl, kept⟩
  · exact .inl ⟨_, rfl, Nat.le_succ_of_le kept, Nat.lt_of_not_le ends, Nat.lt_succ_self _⟩

theorem skipSpaces_ends (start : ℕ) : ∃ r, whileLoop json (skipSpaces json) start = .ok r ∧ start ≤ r := by
  refine whileLoop_ends (start ≤ ·) _ id (fun index kept => ?_) le_rfl
  unfold skipSpaces
  by_cases ends : json.length ≤ index
  · rw [if_pos ends]
    exact .inr ⟨_, rfl, kept⟩
  rw [if_neg ends]
  obtain ⟨c, is⟩ := charAt_ok (Nat.lt_of_not_le ends)
  simp only [is, bind, Except.bind, pure, Except.pure]
  split
  · exact .inl ⟨_, rfl, Nat.le_succ_of_le kept, Nat.lt_of_not_le ends, Nat.lt_succ_self _⟩
  · exact .inr ⟨_, rfl, kept⟩

theorem readPair_ends (state : ℕ × Pairs) :
    (∃ state', readPair platform json state = .ok (.again state') ∧ state.1 < json.length ∧ state.1 < state'.1) ∨
      ∃ out, readPair platform json state = .ok (.done out) := by
  obtain ⟨index, out⟩ := state
  unfold readPair
  dsimp only
  by_cases ends : json.length ≤ index
  · rw [if_pos ends]
    exact .inr ⟨_, rfl⟩
  have within := Nat.lt_of_not_le ends
  obtain ⟨key, first, after⟩ := readString_ends platform json index
  simp only [if_neg ends, first, bind, Except.bind, pure, Except.pure]
  cases key with
  | none => exact .inr ⟨_, rfl⟩
  | some read =>
    obtain ⟨key, index₁⟩ := read
    have after : index < index₁ := after _ rfl
    obtain ⟨index₂, colon, after₂⟩ := seekColon_ends json index₁
    simp only [colon]
    by_cases beyond : json.length ≤ index₂
    · rw [if_pos beyond]
      exact .inr ⟨_, rfl⟩
    obtain ⟨c, is⟩ := charAt_ok (Nat.lt_of_not_le beyond)
    simp only [if_neg beyond, is]
    split
    · exact .inr ⟨_, rfl⟩
    obtain ⟨index₃, spaces, after₃⟩ := skipSpaces_ends json (index₂ + 1)
    obtain ⟨value, second, after₄⟩ := readString_ends platform json index₃
    simp only [spaces]
    by_cases last : index₃ < json.length
    · obtain ⟨c', is'⟩ := charAt_ok last
      simp only [if_pos last, is']
      split
      · exact .inl ⟨_, rfl, within, by dsimp only; omega⟩
      · rw [second]
        cases value with
        | none => exact .inr ⟨_, rfl⟩
        | some read =>
          have after₄ := after₄ read rfl
          exact .inl ⟨_, rfl, within, by dsimp only; omega⟩
    · simp only [if_neg last, second]
      cases value with
      | none => exact .inr ⟨_, rfl⟩
      | some read =>
        have after₄ := after₄ read rfl
        exact .inl ⟨_, rfl, within, by dsimp only; omega⟩

theorem flatJsonPairs_ends : ∃ pairs, flatJsonPairs platform json = .ok pairs := by
  obtain ⟨pairs, ran, -⟩ := whileLoop_ends (fun _ : ℕ × Pairs => True) (fun _ : Pairs => True) Prod.fst
    (fun s _ => by
      rcases readPair_ends platform json s with ⟨s', goes, within, on⟩ | ⟨out, ends⟩
      · exact .inl ⟨s', goes, trivial, within, on⟩
      · exact .inr ⟨out, ends, trivial⟩) (s := (0, [])) trivial
  exact ⟨pairs, ran⟩

end Ends

section ReadsBack

/-- What the reader makes of a unit that was serialised: it takes the escapes of a backspace and of a form feed for the
letters they end in. -/
def misread (c : UInt16) : UInt16 := if c = 8 then unit 'b' else if c = 12 then unit 'f' else c

variable {platform : Platform} {json : Units}

theorem charAt_drop {index : ℕ} {c : UInt16} {rest : Units} (here : json.drop index = c :: rest) :
    index < json.length ∧ charAt json index = .ok c ∧ json.drop (index + 1) = rest := by
  have found : json[index]? = some c := by
    rw [← List.head?_drop, here]
    rfl
  obtain ⟨within, -⟩ := List.getElem?_eq_some_iff.mp found
  refine ⟨within, ?_, ?_⟩
  · rw [charAt, found]
    rfl
  · rw [← List.tail_drop, here]
    rfl

def Finds {σ ρ : Type} (turn : σ → Scan (Turn σ ρ)) (s : σ) (r : ρ) : Prop := ∃ rounds, loop turn .endless rounds s = .ok r

theorem Finds.again {σ ρ : Type} {turn : σ → Scan (Turn σ ρ)} {s s' : σ} {r : ρ} (goes : turn s = .ok (.again s'))
    (rest : Finds turn s' r) : Finds turn s r := by
  obtain ⟨rounds, ran⟩ := rest
  exact ⟨rounds + 1, (loop_again goes rounds).trans ran⟩

theorem Finds.done {σ ρ : Type} {turn : σ → Scan (Turn σ ρ)} {s : σ} {r : ρ} (ends : turn s = .ok (.done r)) : Finds turn s r :=
  ⟨1, loop_done ends 0⟩

theorem Finds.whileLoop {σ ρ : Type} {turn : σ → Scan (Turn σ ρ)} {s : σ} {r : ρ} (finds : Finds turn s r)
    (ends : ∃ r', whileLoop json turn s = .ok r') : whileLoop json turn s = .ok r := by
  obtain ⟨rounds, ran⟩ := finds
  obtain ⟨r', ran'⟩ := ends
  rw [ran', loop_unique ran ran']

theorem escapeLetters_read : ∀ pair ∈ escapeLetters, pair.2 ≠ unit 'u' ∧ unescape pair.2 = misread pair.1 := by
  have all : (escapeLetters.all fun pair => decide (pair.2 ≠ unit 'u' ∧ unescape pair.2 = misread pair.1)) = true := rfl
  exact fun pair member => of_decide_eq_true (List.all_eq_true.mp all pair member)

theorem ne_of_lookup_none {c : UInt16} (none : escapeLetters.lookup c = none) : ∀ pair ∈ escapeLetters, c ≠ pair.1 := by
  intro pair member
  simpa using List.lookup_eq_none_iff.mp none pair member

theorem toIntOrNull_control (platform : Platform) {c : UInt16} (control : c < unit ' ') :
    (toIntOrNull platform [unit '0', unit '0', hexUnit (c.toNat / 16), hexUnit (c.toNat % 16)]).map toChar = some c := by
  have small : c.toNat < 32 := UInt16.lt_iff_toNat_lt.mp control
  have zero : platform.digitOf (unit '0') = some 0 := platform.hexadecimal 0 (by decide)
  have high : platform.digitOf (hexUnit (c.toNat / 16)) = some (c.toNat / 16) := platform.hexadecimal _ (by omega)
  have low : platform.digitOf (hexUnit (c.toNat % 16)) = some (c.toNat % 16) := platform.hexadecimal _ (by omega)
  have whole : c.toNat / 16 * 16 + c.toNat % 16 = c.toNat := by omega
  have same : toChar c.toNat = c := by
    rw [toChar, Int.emod_eq_of_lt (by omega) (by omega), Int.toNat_natCast, UInt16.ofNat_toNat]
  rw [toIntOrNull, if_neg (by decide)]
  simp only [digits, zero, high, low, Option.bind_eq_bind, Option.bind_some, Nat.zero_mul, Nat.zero_add, whole,
    Option.pure_def, Option.map_some, same]

theorem readText_escapeUnit (platform : Platform) {index : ℕ} (text : Units) {c : UInt16} {rest : Units}
    (here : json.drop index = escapeUnit c ++ rest) :
    ∃ index', readText platform json (index, text) = .ok (.again (index', text ++ [misread c])) ∧ json.drop index' = rest := by
  unfold escapeUnit at here
  split at here
  · rename_i letter found
    obtain ⟨front, back, split, -⟩ := List.lookup_eq_some_iff.mp found
    obtain ⟨named, same⟩ := escapeLetters_read (c, letter) (by rw [split]; simp)
    obtain ⟨within, first, here⟩ := charAt_drop here
    obtain ⟨within', second, here⟩ := charAt_drop here
    refine ⟨index + 2, ?_, here⟩
    unfold readText
    simp only [if_neg within.not_ge, first, if_neg within'.not_ge, second, bind, Except.bind, pure, Except.pure]
    rw [if_neg (by decide), if_pos trivial, if_neg named, same]
  · rename_i none
    have apart := ne_of_lookup_none none
    have same : misread c = c := by
      have backspace := apart (8, unit 'b') (by decide)
      have formFeed := apart (12, unit 'f') (by decide)
      rw [misread, if_neg backspace, if_neg formFeed]
    rw [same]
    split at here
    · rename_i control
      obtain ⟨within, first, here⟩ := charAt_drop here
      obtain ⟨within', second, here⟩ := charAt_drop here
      obtain ⟨code, is, back⟩ := Option.map_eq_some_iff.mp (toIntOrNull_control platform control)
      have long : 5 ≤ (json.drop (index + 1 + 1)).length + 1 := by
        rw [here]
        simp
      rw [List.length_drop] at long
      refine ⟨index + 6, ?_, ?_⟩
      · have four : substring json (index + 1 + 1) (index + 1 + 5) =
            .ok [unit '0', unit '0', hexUnit (c.toNat / 16), hexUnit (c.toNat % 16)] := by
          rw [substring, if_pos (by omega), here, show index + 1 + 5 - (index + 1 + 1) = 4 by omega]
          rfl
        unfold readText
        simp only [if_neg within.not_ge, first, if_neg within'.not_ge, second, four, is, bind, Except.bind, pure, Except.pure]
        rw [if_neg (by decide), if_pos trivial, if_pos trivial, if_neg (by omega), back]
      · rw [show index + 6 = (index + 1 + 1) + 4 by omega, ← List.drop_drop, here]
        rfl
    · obtain ⟨within, first, here⟩ := charAt_drop here
      refine ⟨index + 1, ?_, here⟩
      unfold readText
      simp only [if_neg within.not_ge, first, bind, Except.bind, pure, Except.pure]
      rw [if_neg (apart (unit '"', unit '"') (by decide)), if_neg (apart (unit '\\', unit '\\') (by decide))]

theorem readText_quoted (platform : Platform) {index : ℕ} (read text : Units) {rest : Units}
    (here : json.drop index = text.flatMap escapeUnit ++ unit '"' :: rest) :
    ∃ index', Finds (readText platform json) (index, read) (some (read ++ text.map misread, index')) ∧
      json.drop index' = rest := by
  induction text generalizing index read with
  | nil =>
    obtain ⟨within, first, here⟩ := charAt_drop here
    refine ⟨index + 1, Finds.done ?_, here⟩
    unfold readText
    simp only [if_neg within.not_ge, first, bind, Except.bind, pure, Except.pure]
    rw [if_pos trivial, List.map_nil, List.append_nil]
  | cons c text ih =>
    rw [List.flatMap_cons, List.append_assoc] at here
    obtain ⟨index₁, goes, here⟩ := readText_escapeUnit platform read here
    obtain ⟨index₂, rest, here⟩ := ih (read ++ [misread c]) here
    rw [List.append_assoc, List.singleton_append] at rest
    exact ⟨index₂, rest.again goes, here⟩

theorem readString_quote (platform : Platform) {index : ℕ} {lead : Units} (opens : ∀ c ∈ lead, c ≠ unit '"' ∧ c ≠ unit '\x7d')
    (text : Units) {rest : Units} (here : json.drop index = lead ++ (quote text ++ rest)) :
    ∃ index', readString platform json index = .ok (some (text.map misread, index')) ∧ json.drop index' = rest := by
  obtain ⟨place, seeks, there⟩ : ∃ place, Finds (seekQuote json) index (some place) ∧ json.drop place = quote text ++ rest := by
    induction lead generalizing index with
    | nil =>
      obtain ⟨within, first, -⟩ := charAt_drop here
      refine ⟨index, Finds.done ?_, here⟩
      unfold seekQuote
      simp only [if_neg within.not_ge, first, bind, Except.bind, pure, Except.pure]
      exact if_pos trivial
    | cons c lead ih =>
      obtain ⟨within, first, here⟩ := charAt_drop here
      obtain ⟨place, seeks, there⟩ := ih (fun c member => opens c (List.mem_cons_of_mem _ member)) here
      obtain ⟨noQuote, noBrace⟩ := opens c List.mem_cons_self
      refine ⟨place, seeks.again ?_, there⟩
      unfold seekQuote
      simp only [if_neg within.not_ge, first, bind, Except.bind, pure, Except.pure]
      rw [if_neg noQuote, if_neg noBrace]
  obtain ⟨found, ran, -⟩ := seekQuote_ends json index
  rw [quote, List.cons_append, List.append_assoc, List.singleton_append] at there
  obtain ⟨within, -, there⟩ := charAt_drop there
  obtain ⟨index', reads, after⟩ := readText_quoted platform [] text there
  obtain ⟨found', ran', -⟩ := readText_ends platform json (place + 1, [])
  refine ⟨index', ?_, after⟩
  unfold readString
  rw [seeks.whileLoop ⟨found, ran⟩]
  simp only [bind, Except.bind, pure, Except.pure, if_neg within.not_ge]
  rw [reads.whileLoop ⟨found', ran'⟩, List.nil_append]

theorem readPair_cell (platform : Platform) {index : ℕ} (out : Pairs) {lead : UInt16}
    (opens : lead ≠ unit '"' ∧ lead ≠ unit '\x7d') (entry : Units × Units) {rest : Units}
    (here : json.drop index = lead :: (quote entry.1 ++ unit ':' :: (quote entry.2 ++ rest))) :
    ∃ index', readPair platform json (index, out) =
        .ok (.again (index', out ++ [(entry.1.map misread, entry.2.map misread)])) ∧ json.drop index' = rest := by
  obtain ⟨within, -, -⟩ := charAt_drop here
  obtain ⟨index₁, key, after⟩ := @readString_quote json platform index [lead] (by simpa using opens) entry.1 _ here
  obtain ⟨within₁, first, after'⟩ := charAt_drop after
  have colon : whileLoop json (seekColon json) index₁ = .ok index₁ := by
    obtain ⟨found, ran, -⟩ := seekColon_ends json index₁
    refine Finds.whileLoop (Finds.done ?_) ⟨found, ran⟩
    unfold seekColon
    simp only [if_neg within₁.not_ge, first, bind, Except.bind, pure, Except.pure]
    exact if_pos (.inl trivial)
  obtain ⟨within₂, first₂, -⟩ := charAt_drop after'
  have spaces : whileLoop json (skipSpaces json) (index₁ + 1) = .ok (index₁ + 1) := by
    obtain ⟨found, ran, -⟩ := skipSpaces_ends json (index₁ + 1)
    refine Finds.whileLoop (Finds.done ?_) ⟨found, ran⟩
    unfold skipSpaces
    simp only [if_neg within₂.not_ge, first₂, bind, Except.bind, pure, Except.pure]
    exact if_neg (by decide)
  obtain ⟨index₂, value, last⟩ := @readString_quote json platform (index₁ + 1) [] (by simp) entry.2 _ after'
  refine ⟨index₂, ?_, last⟩
  unfold readPair
  simp only [if_neg within.not_ge, key, colon, if_neg within₁.not_ge, first, spaces, if_pos within₂, first₂, value, bind,
    Except.bind, pure, Except.pure]
  rw [if_neg (by decide), if_neg (by simp)]

def misreadPairs (entries : Pairs) : Pairs := entries.map fun entry => (entry.1.map misread, entry.2.map misread)

theorem joined_cells (entry : Units × Units) (rest : Pairs) :
    joined (unit ',') ((entry :: rest).map fun entry => quote entry.1 ++ unit ':' :: quote entry.2) =
      quote entry.1 ++ unit ':' :: (quote entry.2 ++
        rest.flatMap fun entry => unit ',' :: (quote entry.1 ++ unit ':' :: quote entry.2)) := by
  induction rest generalizing entry with
  | nil => simp [joined]
  | cons next rest ih =>
    rw [List.map_cons, joined_cons, if_neg (by simp), ih next]
    simp

theorem readPair_close (platform : Platform) {index : ℕ} (out : Pairs) {lead : Units}
    (opens : ∀ c ∈ lead, c ≠ unit '"' ∧ c ≠ unit '\x7d') (here : json.drop index = lead ++ [unit '\x7d']) :
    readPair platform json (index, out) = .ok (.done out) := by
  have seeks : ∀ index, json.drop index = lead ++ [unit '\x7d'] → Finds (seekQuote json) index none := by
    clear here
    induction lead with
    | nil =>
      intro index here
      obtain ⟨within, first, -⟩ := charAt_drop here
      refine Finds.done ?_
      unfold seekQuote
      simp only [if_neg within.not_ge, first, bind, Except.bind, pure, Except.pure]
      rw [if_neg (by decide), if_pos trivial]
    | cons c lead ih =>
      intro index here
      obtain ⟨within, first, here⟩ := charAt_drop here
      obtain ⟨noQuote, noBrace⟩ := opens c List.mem_cons_self
      refine (ih (fun c member => opens c (List.mem_cons_of_mem _ member)) _ here).again ?_
      unfold seekQuote
      simp only [if_neg within.not_ge, first, bind, Except.bind, pure, Except.pure]
      rw [if_neg noQuote, if_neg noBrace]
  obtain ⟨found, ran, -⟩ := seekQuote_ends json index
  have none := (seeks index here).whileLoop ⟨found, ran⟩
  have within : index < json.length := by
    have long := congrArg List.length here
    simp only [List.length_drop, List.length_append, List.length_singleton] at long
    omega
  unfold readPair readString
  simp only [if_neg within.not_ge, none, bind, Except.bind, pure, Except.pure]

theorem readPair_cells (platform : Platform) {index : ℕ} (out entries : Pairs)
    (here : json.drop index =
      (entries.flatMap fun entry => unit ',' :: (quote entry.1 ++ unit ':' :: quote entry.2)) ++ [unit '\x7d']) :
    Finds (readPair platform json) (index, out) (out ++ misreadPairs entries) := by
  induction entries generalizing index out with
  | nil =>
    rw [misreadPairs, List.map_nil, List.append_nil]
    exact Finds.done (@readPair_close json platform index out [] (by simp) here)
  | cons entry rest ih =>
    rw [List.flatMap_cons] at here
    simp only [List.cons_append, List.append_assoc] at here
    obtain ⟨index', goes, here⟩ := readPair_cell platform out (by decide) entry here
    have later := ih (out ++ [(entry.1.map misread, entry.2.map misread)]) here
    rw [List.append_assoc] at later
    exact later.again goes

theorem flatJsonPairs_encodeToString (platform : Platform) (entries : Pairs) :
    flatJsonPairs platform (encodeToString entries) = .ok (misreadPairs entries) := by
  have here : (encodeToString entries).drop 0 = encodeToString entries := List.drop_zero
  refine Finds.whileLoop ?_ (flatJsonPairs_ends platform _)
  cases entries with
  | nil =>
    have opens : ∀ c ∈ [unit '\x7b'], c ≠ unit '"' ∧ c ≠ unit '\x7d' := List.forall_mem_singleton.mpr (by decide)
    exact Finds.done (@readPair_close _ platform 0 [] [unit '\x7b'] opens here)
  | cons entry rest =>
    have text : encodeToString (entry :: rest) = unit '\x7b' :: (quote entry.1 ++ unit ':' :: (quote entry.2 ++
        ((rest.flatMap fun entry => unit ',' :: (quote entry.1 ++ unit ':' :: quote entry.2)) ++ [unit '\x7d']))) := by
      rw [encodeToString, joined_cells]
      simp
    obtain ⟨index', goes, here⟩ := readPair_cell platform [] (by decide) entry (here.trans text)
    exact (readPair_cells platform _ rest here).again goes

theorem map_eq_self_iff {α : Type} {f : α → α} {l : List α} : l.map f = l ↔ ∀ a ∈ l, f a = a := by
  simpa using (List.map_inj_left : l.map f = l.map id ↔ _)

theorem misread_eq_iff {text : Units} : text.map misread = text ↔ Legible text := by
  rw [map_eq_self_iff]
  refine forall₂_congr fun c _ => ?_
  unfold misread
  split
  · rename_i backspace
    rw [backspace]
    decide
  split
  · rename_i formFeed
    rw [formFeed]
    decide
  · rename_i noBackspace noFormFeed
    exact iff_of_true rfl ⟨noBackspace, noFormFeed⟩

end ReadsBack

end DataCollectionLab.Core.FlatPairs
