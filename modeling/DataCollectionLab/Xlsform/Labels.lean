import DataCollectionLab.Form.Digits
import DataCollectionLab.Form.Evaluator
import DataCollectionLab.Form.Interpolation
import DataCollectionLab.Lib.Replace

/-!
The inserts of a label. The importer escapes the braces of a text and writes a slot for each of its references, one
spelling after another, and the engine fills the slots; `_from_slots` writes the references back.
-/

namespace DataCollectionLab.Xlsform

open Lib Form

/-- `\w` of a `str` pattern. -/
structure Words where
  word : Char → Bool
  spaced : ∀ c, word c = true → Reference.isSpace c = false
  marks : ∀ c ∈ ['$', '\x7b', '\x7d', Interpolation.firstStrongIsolate], word c = false

/-- A match of `_REFERENCE`: what stands between its braces. -/
structure Match where
  before : List Char
  name : List Char
  after : List Char
  deriving DecidableEq

def Match.inside (m : Match) : List Char := m.before ++ (m.name ++ m.after)

def Match.text (m : Match) : List Char := '$' :: '\x7b' :: (m.inside ++ ['\x7d'])

inductive Token where
  | ref (m : Match)
  | char (c : Char)

def Token.text : Token → List Char
  | ref m => m.text
  | char c => [c]

def Token.name? : Token → Option (List Char)
  | ref m => some m.name
  | char _ => none

section Pattern

variable (words : Words)

def nameStart (c : Char) : Bool := c.isAlpha || c = '_'

def nameChar (c : Char) : Bool := words.word c || c = '.' || c = '-'

/-- The match of `_REFERENCE` at a dollar sign, from what follows it. -/
def reference : List Char → Option Match
  | [] => none
  | c :: rest =>
    if c = '\x7b' then
      match rest.dropWhile Reference.isSpace with
      | [] => none
      | first :: later =>
        let tail := later.dropWhile (nameChar words)
        if nameStart first = true ∧ (tail.dropWhile Reference.isSpace).head? = some '\x7d' then
          some ⟨rest.takeWhile Reference.isSpace, first :: later.takeWhile (nameChar words),
            tail.takeWhile Reference.isSpace⟩
        else none
    else none

def matchAt (c : Char) (rest : List Char) : Option Match := if c = '$' then reference words rest else none

def tokensFrom : ℕ → List Char → List Token
  | _, [] => []
  | skip + 1, _ :: rest => tokensFrom skip rest
  | 0, c :: rest =>
    match matchAt words c rest with
    | some m => .ref m :: tokensFrom (m.inside.length + 2) rest
    | none => .char c :: tokensFrom 0 rest

/-- The matches of `_REFERENCE` in a text, and the characters between them. -/
def tokens (text : List Char) : List Token := tokensFrom words 0 text

def substitutions (text : List Char) : List (List Char) := (tokens words text).filterMap Token.name?

local instance lawful_names : LawfulBEq (List Char) := List.instLawfulBEq

def labelOrder (text : List Char) : List (List Char) :=
  (substitutions words text).foldl (fun order name => if name ∈ order then order else order ++ [name]) []

end Pattern

/-- `text.replace("{", "{{").replace("}", "}}")`. -/
def escape (text : List Char) : List Char :=
  replace ['\x7d'] ['\x7d', '\x7d'] (replace ['\x7b'] ['\x7b', '\x7b'] text)

def slot (index : ℕ) : List Char := '\x7b' :: ((toString index).toList ++ ['\x7d'])

def spellings (name : List Char) : List (List Char) :=
  ['$' :: '\x7b' :: (name ++ ['\x7d']), '$' :: '\x7b' :: ' ' :: (name ++ [' ', '\x7d'])]

/-- One name of `_to_slots`. -/
def slotted (escaped : List Char) (entry : List Char × ℕ) : List Char :=
  (spellings entry.1).foldl (fun escaped spelling => replace (escape spelling) (slot entry.2) escaped) escaped

def toSlots (text : List Char) (order : List (List Char)) : List Char := order.zipIdx.foldl slotted (escape text)

/-- One argument of `_from_slots`. -/
def unslotted (out : List Char) (entry : List Char × ℕ) : List Char :=
  replace (slot entry.2) ('$' :: '\x7b' :: (entry.1 ++ ['\x7d'])) out

def fromSlots (text : List Char) (args : List (List Char)) : List Char :=
  replace ['\x7d', '\x7d'] ['\x7d'] (replace ['\x7b', '\x7b'] ['\x7b'] (args.zipIdx.foldl unslotted text))

def Token.inserted (order : List (List Char)) (values : List String) : Token → List Char
  | ref m => Interpolation.argument values (order.idxOf m.name)
  | char c => [c]

def Token.tight : Token → List Char
  | ref m => '$' :: '\x7b' :: (m.name ++ ['\x7d'])
  | char c => [c]

def Survives (words : Words) (text : List Char) (values : List String) : Prop :=
  Reference.render (String.ofList (toSlots text (labelOrder words text))) values =
      .ok (String.ofList ((tokens words text).flatMap (Token.inserted (labelOrder words text) values))) ∧
    fromSlots (toSlots text (labelOrder words text)) (labelOrder words text) = (tokens words text).flatMap Token.tight

/-- The two spellings that `_to_slots` looks for. -/
def Match.Spelled (m : Match) : Prop := m.before = [] ∧ m.after = [] ∨ m.before = [' '] ∧ m.after = [' ']

instance (m : Match) : Decidable m.Spelled :=
  inferInstanceAs (Decidable (m.before = [] ∧ m.after = [] ∨ m.before = [' '] ∧ m.after = [' ']))

section Shape

variable {words : Words}

structure Match.Shape (words : Words) (m : Match) : Prop where
  before : ∀ c ∈ m.before, Reference.isSpace c = true
  named : ∃ first later, m.name = first :: later ∧ nameStart first = true ∧ ∀ c ∈ later, nameChar words c = true
  after : ∀ c ∈ m.after, Reference.isSpace c = true

theorem alpha_bounds {c : Char} (alpha : c.isAlpha = true) :
    (65 ≤ c.toNat ∧ c.toNat ≤ 90) ∨ (97 ≤ c.toNat ∧ c.toNat ≤ 122) := by
  rcases Bool.or_eq_true_iff.mp (show (c.isUpper || c.isLower) = true from alpha) with upper | lower
  · exact .inl (of_decide_eq_true upper)
  · have both : decide (97 ≤ c.toNat) = true ∧ decide (c.toNat ≤ 122) = true := Bool.and_eq_true_iff.mp lower
    exact .inr ⟨of_decide_eq_true both.1, of_decide_eq_true both.2⟩

theorem start_cases {c : Char} (start : nameStart c = true) : c.isAlpha = true ∨ c = '_' := by
  unfold nameStart at start
  rwa [Bool.or_eq_true, decide_eq_true_eq] at start

theorem start_spaced {c : Char} (start : nameStart c = true) : Reference.isSpace c = false := by
  rcases start_cases start with alpha | rfl
  · have bounds := alpha_bounds alpha
    unfold Reference.isSpace
    simp only [Bool.or_eq_false_iff, Bool.and_eq_false_iff, decide_eq_false_iff_not]
    omega
  · decide

theorem nameChar_spaced {c : Char} (held : nameChar words c = true) : Reference.isSpace c = false := by
  unfold nameChar at held
  rw [Bool.or_eq_true, Bool.or_eq_true, decide_eq_true_eq, decide_eq_true_eq] at held
  rcases held with (word | rfl) | rfl
  · exact words.spaced c word
  · decide
  · decide

def Inner (c : Char) : Prop := c ∉ ['$', '\x7b', '\x7d', Interpolation.firstStrongIsolate]

theorem inner_of_unmarked {p : Char → Bool}
    (unmarked : (['$', '\x7b', '\x7d', Interpolation.firstStrongIsolate].all fun c => !p c) = true) {c : Char}
    (held : p c = true) : Inner c := by
  intro mark
  have plain := List.all_eq_true.mp unmarked c mark
  rw [held] at plain
  cases plain

theorem inner_space {c : Char} (space : Reference.isSpace c = true) : Inner c := inner_of_unmarked rfl space

theorem inner_start {c : Char} (start : nameStart c = true) : Inner c := inner_of_unmarked rfl start

theorem inner_name {c : Char} (held : nameChar words c = true) : Inner c := by
  intro mark
  unfold nameChar at held
  rw [Bool.or_eq_true, Bool.or_eq_true, decide_eq_true_eq, decide_eq_true_eq, words.marks c mark] at held
  rcases held with (word | rfl) | rfl
  · cases word
  · exact absurd mark (by decide)
  · exact absurd mark (by decide)

theorem Match.Shape.name {m : Match} (shape : m.Shape words) : ∀ c ∈ m.name, Inner c := by
  obtain ⟨first, later, is, start, held⟩ := shape.named
  rw [is]
  rintro c (_ | ⟨_, member⟩)
  · exact inner_start start
  · exact inner_name (held c member)

theorem Match.Shape.inside {m : Match} (shape : m.Shape words) : ∀ c ∈ m.inside, Inner c := by
  intro c member
  rcases List.mem_append.mp member with space | member
  · exact inner_space (shape.before c space)
  · rcases List.mem_append.mp member with named | space
    · exact shape.name c named
    · exact inner_space (shape.after c space)

theorem takeWhile_stop {p : Char → Bool} {kept rest : List Char} (held : ∀ c ∈ kept, p c = true)
    (stop : ∀ c ∈ rest.head?, p c = false) : (kept ++ rest).takeWhile p = kept ∧ (kept ++ rest).dropWhile p = rest := by
  rw [List.takeWhile_append_of_pos held, List.dropWhile_append_of_pos held]
  cases rest with
  | nil => simp
  | cons c rest =>
    have off := stop c rfl
    rw [List.takeWhile_cons, List.dropWhile_cons, if_neg (by simp [off]), if_neg (by simp [off]), List.append_nil]
    exact ⟨rfl, rfl⟩

theorem reference_iff {rest : List Char} {m : Match} :
    reference words rest = some m ↔ m.Shape words ∧ ∃ tail, rest = '\x7b' :: (m.inside ++ '\x7d' :: tail) := by
  constructor
  · intro found
    cases rest with
    | nil => cases found
    | cons c rest =>
      rw [reference] at found
      split at found
      · rename_i opens
        subst opens
        split at found
        · cases found
        · rename_i first later named
          dsimp only at found
          split at found
          · rename_i both
            obtain rfl := Option.some.inj found
            obtain ⟨start, closes⟩ := both
            refine ⟨⟨fun c member => List.mem_takeWhile_imp member, ⟨first, _, rfl, start,
              fun c member => List.mem_takeWhile_imp member⟩, fun c member => List.mem_takeWhile_imp member⟩, ?_⟩
            obtain ⟨tail, is⟩ := List.head?_eq_some_iff.mp closes
            refine ⟨tail, congrArg ('\x7b' :: ·) ?_⟩
            have spaces : rest = rest.takeWhile Reference.isSpace ++ first :: later := by
              rw [← named, List.takeWhile_append_dropWhile]
            have names : later = later.takeWhile (nameChar words) ++ later.dropWhile (nameChar words) :=
              List.takeWhile_append_dropWhile.symm
            have closed : later.dropWhile (nameChar words) =
                (later.dropWhile (nameChar words)).takeWhile Reference.isSpace ++ '\x7d' :: tail := by
              rw [← is, List.takeWhile_append_dropWhile]
            unfold Match.inside
            rw [List.append_assoc, List.append_assoc, ← closed, List.cons_append, ← names]
            exact spaces
          · cases found
      · cases found
  · rintro ⟨shape, tail, rfl⟩
    obtain ⟨first, later, is, start, held⟩ := shape.named
    obtain ⟨before, name, after⟩ := m
    subst is
    have spaces := @takeWhile_stop Reference.isSpace before (first :: (later ++ (after ++ '\x7d' :: tail))) shape.before
      (by rintro c ⟨⟩; exact start_spaced start)
    have closing : Reference.isSpace '\x7d' = false := by decide
    have closes := @takeWhile_stop Reference.isSpace after ('\x7d' :: tail) shape.after (by rintro c ⟨⟩; exact closing)
    have names := @takeWhile_stop (nameChar words) later (after ++ '\x7d' :: tail) held (by
      intro c member
      cases after with
      | nil =>
        obtain rfl : '\x7d' = c := Option.some.inj member
        by_contra on
        exact inner_name (by simpa using on) (by decide)
      | cons space after =>
        obtain rfl : space = c := Option.some.inj member
        by_contra on
        have off := nameChar_spaced (by simpa using on)
        rw [shape.after space List.mem_cons_self] at off
        cases off)
    have flat : (Match.mk before (first :: later) after).inside ++ '\x7d' :: tail =
        before ++ first :: (later ++ (after ++ '\x7d' :: tail)) := by
      unfold Match.inside
      simp only [List.append_assoc, List.cons_append]
    rw [flat, reference, if_pos rfl, spaces.1, spaces.2]
    dsimp only
    rw [names.1, names.2, closes.1, closes.2]
    exact if_pos ⟨start, rfl⟩

end Shape

/-! ### The tokens of a text -/

section Tokens

variable {words : Words}

theorem reference_unique {m m' : Match} {tail tail' : List Char} (shape : m.Shape words) (shape' : m'.Shape words)
    (same : m.inside ++ '\x7d' :: tail = m'.inside ++ '\x7d' :: tail') : m = m' := by
  have first := reference_iff.mpr ⟨shape, tail, rfl⟩
  rw [same, reference_iff.mpr ⟨shape', tail', rfl⟩] at first
  exact (Option.some.inj first).symm

def Formed (words : Words) : List Token → Prop
  | [] => True
  | .ref m :: ts => m.Shape words ∧ Formed words ts
  | .char c :: ts => matchAt words c (ts.flatMap Token.text) = none ∧ Formed words ts

theorem tokensFrom_eq (skip : ℕ) (text : List Char) : tokensFrom words skip text = tokens words (text.drop skip) := by
  induction skip generalizing text with
  | zero => rfl
  | succ skip ih =>
    cases text with
    | nil => rfl
    | cons c rest => exact ih rest

theorem tokens_ref {c : Char} {rest : List Char} {m : Match} (found : matchAt words c rest = some m) :
    tokens words (c :: rest) = .ref m :: tokens words (rest.drop (m.inside.length + 2)) := by
  rw [← tokensFrom_eq, tokens, tokensFrom, found]

theorem tokens_char {c : Char} {rest : List Char} (none : matchAt words c rest = none) :
    tokens words (c :: rest) = .char c :: tokens words rest := by
  rw [tokens, tokensFrom, none]
  rfl

theorem matchAt_some {c : Char} {rest : List Char} {m : Match} (found : matchAt words c rest = some m) :
    m.Shape words ∧ ∃ tail, c :: rest = m.text ++ tail ∧ rest.drop (m.inside.length + 2) = tail := by
  unfold matchAt at found
  split at found
  · rename_i dollar
    subst dollar
    obtain ⟨shape, tail, rfl⟩ := reference_iff.mp found
    refine ⟨shape, tail, by simp [Match.text], ?_⟩
    rw [List.drop_succ_cons, ← List.drop_drop, List.drop_left]
    rfl
  · cases found

theorem tokens_formed (text : List Char) :
    (tokens words text).flatMap Token.text = text ∧ Formed words (tokens words text) := by
  induction size : text.length using Nat.strong_induction_on generalizing text with
  | _ n ih =>
    cases text with
    | nil => exact ⟨rfl, trivial⟩
    | cons c rest =>
      cases found : matchAt words c rest with
      | some m =>
        obtain ⟨shape, tail, is, dropped⟩ := matchAt_some found
        have shorter : tail.length < n := by
          rw [← dropped, List.length_drop]
          simp only [List.length_cons] at size
          omega
        obtain ⟨same, formed⟩ := ih tail.length shorter tail rfl
        rw [tokens_ref found, dropped, is, List.flatMap_cons, same]
        exact ⟨rfl, shape, formed⟩
      | none =>
        obtain ⟨same, formed⟩ := ih rest.length (by simp at size; omega) rest rfl
        rw [tokens_char found, List.flatMap_cons, same]
        exact ⟨rfl, by rw [same]; exact found, formed⟩

theorem formed_shape {ts : List Token} (formed : Formed words ts) {m : Match} (member : .ref m ∈ ts) : m.Shape words := by
  induction ts with
  | nil => cases member
  | cons t ts ih =>
    cases t with
    | ref m' =>
      rcases List.mem_cons.mp member with same | later
      · cases same
        exact formed.1
      · exact ih formed.2 later
    | char c => exact ih formed.2 ((List.mem_cons.mp member).resolve_left Token.noConfusion)

theorem mem_substitutions {text name : List Char} :
    name ∈ substitutions words text ↔ ∃ m, .ref m ∈ tokens words text ∧ m.name = name := by
  unfold substitutions
  rw [List.mem_filterMap]
  constructor
  · rintro ⟨t, member, is⟩
    cases t with
    | ref m => exact ⟨m, member, Option.some.inj is⟩
    | char c => cases is
  · rintro ⟨m, member, rfl⟩
    exact ⟨_, member, rfl⟩

theorem mem_labelOrder {text name : List Char} :
    name ∈ labelOrder words text ↔ ∃ m, .ref m ∈ tokens words text ∧ m.name = name := by
  have fold : ∀ names order : List (List Char),
      name ∈ names.foldl (fun order name => if name ∈ order then order else order ++ [name]) order ↔
        name ∈ order ∨ name ∈ names := by
    intro names
    induction names with
    | nil => simp
    | cons other names ih =>
      intro order
      rw [List.foldl_cons, ih]
      split
      · rename_i known
        rw [List.mem_cons]
        constructor
        · exact fun held => held.imp_right .inr
        · rintro (held | rfl | held)
          · exact .inl held
          · exact .inl known
          · exact .inr held
      · simp [or_assoc]
  rw [labelOrder, fold, ← mem_substitutions]
  simp

end Tokens

section Slots

variable {words : Words}

def Brace (c : Char) : Prop := c = '\x7b' ∨ c = '\x7d'

instance (c : Char) : Decidable (Brace c) := inferInstanceAs (Decidable (c = '\x7b' ∨ c = '\x7d'))

def escaped (c : Char) : List Char := if Brace c then [c, c] else [c]

theorem escaped_brace {c : Char} (brace : Brace c) : escaped c = [c, c] := if_pos brace

theorem escaped_plain {c : Char} (plain : ¬ Brace c) : escaped c = [c] := if_neg plain

theorem escape_eq (text : List Char) : escape text = text.flatMap escaped := by
  unfold escape
  rw [replace_char, replace_char, List.flatMap_assoc]
  congr 1
  funext c
  by_cases opens : c = '\x7b'
  · subst opens
    rfl
  by_cases closes : c = '\x7d'
  · subst closes
    rfl
  rw [if_neg opens, escaped_plain (not_or.mpr ⟨opens, closes⟩), List.flatMap_cons, if_neg closes]
  rfl

theorem escape_inner {text : List Char} (inner : ∀ c ∈ text, Inner c) : escape text = text := by
  rw [escape_eq]
  induction text with
  | nil => rfl
  | cons c text ih =>
    have plain : ¬ Brace c := by
      rintro (rfl | rfl) <;> exact inner _ List.mem_cons_self (by decide)
    rw [List.flatMap_cons, ih fun d member => inner d (List.mem_cons_of_mem _ member)]
    exact congrArg (· ++ text) (if_neg plain)

theorem escape_append (a b : List Char) : escape (a ++ b) = escape a ++ escape b := by
  rw [escape_eq, escape_eq, escape_eq, List.flatMap_append]

theorem escape_ref {m : Match} (shape : m.Shape words) :
    escape m.text = '$' :: '\x7b' :: '\x7b' :: (m.inside ++ ['\x7d', '\x7d']) := by
  have whole : m.text = ['$', '\x7b'] ++ (m.inside ++ ['\x7d']) := rfl
  rw [whole, escape_append, escape_append, escape_inner shape.inside]
  rfl

def image (found : Match → Option ℕ) : Token → List Char
  | .ref m => ((found m).map slot).getD (escape m.text)
  | .char c => escaped c

variable {found : Match → Option ℕ}

theorem image_slot {m : Match} {index : ℕ} (is : found m = some index) : image found (.ref m) = slot index := by
  rw [image, is]
  rfl

theorem image_kept {m : Match} (none : found m = none) : image found (.ref m) = escape m.text := by
  rw [image, none]
  rfl

theorem image_char (c : Char) : image found (.char c) = escaped c := rfl

theorem slot_digit (index : ℕ) : ∃ d rest, slot index = '\x7b' :: d :: rest ∧ d.isDigit = true := by
  have digits : (toString index).toList = Nat.toDigits 10 index := Nat.toList_repr
  unfold slot
  rw [digits]
  obtain ⟨d, rest, is⟩ := List.exists_cons_of_ne_nil (@Nat.toDigits_ne_nil index 10)
  rw [is]
  exact ⟨d, _, rfl, Nat.isDigit_of_mem_toDigits (by decide) (by decide) (is ▸ List.mem_cons_self)⟩

theorem aligned_char {ts : List Token} {c : Char} {rest : List Char} (formed : Formed words ts) (inner : Inner c)
    (same : c :: rest = ts.flatMap (image found)) :
    ∃ ts', ts = .char c :: ts' ∧ rest = ts'.flatMap (image found) ∧ Formed words ts' := by
  cases ts with
  | nil => cases same
  | cons t ts =>
    rw [List.flatMap_cons] at same
    cases t with
    | ref m =>
      cases is : found m with
      | some index =>
        obtain ⟨d, later, shown, -⟩ := slot_digit index
        rw [image_slot is, shown] at same
        obtain rfl := (List.cons.inj same).1
        exact absurd (by decide) inner
      | none =>
        rw [image_kept is, escape_ref formed.1] at same
        obtain rfl := (List.cons.inj same).1
        exact absurd (by decide) inner
    | char c' =>
      rw [image_char] at same
      by_cases brace : Brace c'
      · rw [escaped_brace brace] at same
        obtain rfl := (List.cons.inj same).1
        rcases brace with rfl | rfl <;> exact absurd (by decide) inner
      · rw [escaped_plain brace] at same
        obtain ⟨rfl, later⟩ := List.cons.inj same
        exact ⟨ts, rfl, later, formed.2⟩

theorem aligned_brace {ts : List Token} {c : Char} {rest : List Char} (formed : Formed words ts) (brace : Brace c)
    (same : c :: c :: rest = ts.flatMap (image found)) :
    ∃ ts', ts = .char c :: ts' ∧ rest = ts'.flatMap (image found) ∧ Formed words ts' := by
  cases ts with
  | nil => cases same
  | cons t ts =>
    rw [List.flatMap_cons] at same
    cases t with
    | ref m =>
      cases is : found m with
      | some index =>
        obtain ⟨d, later, shown, digit⟩ := slot_digit index
        rw [image_slot is, shown] at same
        obtain ⟨rfl, second⟩ := List.cons.inj same
        obtain rfl := (List.cons.inj second).1
        exact absurd digit (by decide)
      | none =>
        rw [image_kept is, escape_ref formed.1] at same
        obtain rfl := (List.cons.inj same).1
        exact absurd brace (by decide)
    | char c' =>
      rw [image_char] at same
      by_cases doubled : Brace c'
      · rw [escaped_brace doubled] at same
        obtain ⟨rfl, second⟩ := List.cons.inj same
        exact ⟨ts, rfl, (List.cons.inj second).2, formed.2⟩
      · rw [escaped_plain doubled] at same
        obtain rfl := (List.cons.inj same).1
        exact absurd brace doubled

theorem aligned_inner {ts : List Token} {kept rest : List Char} (formed : Formed words ts) (inner : ∀ c ∈ kept, Inner c)
    (same : kept ++ rest = ts.flatMap (image found)) :
    ∃ ts', ts.flatMap Token.text = kept ++ ts'.flatMap Token.text ∧ rest = ts'.flatMap (image found) ∧ Formed words ts' := by
  induction kept generalizing ts with
  | nil => exact ⟨ts, rfl, same, formed⟩
  | cons c kept ih =>
    obtain ⟨ts', rfl, later, formed'⟩ := aligned_char formed (inner c List.mem_cons_self) same
    obtain ⟨ts'', is, rest', formed''⟩ := ih formed' (fun d member => inner d (List.mem_cons_of_mem _ member)) later
    refine ⟨ts'', ?_, rest', formed''⟩
    rw [List.flatMap_cons, is]
    rfl

theorem aligned_ref {ts : List Token} {m : Match} {rest : List Char} (formed : Formed words ts) (shape : m.Shape words)
    (same : '\x7b' :: '\x7b' :: (m.inside ++ '\x7d' :: '\x7d' :: rest) = ts.flatMap (image found)) :
    reference words (ts.flatMap Token.text) = some m := by
  obtain ⟨ts₁, rfl, opened, formed₁⟩ := aligned_brace formed (.inl rfl) same
  obtain ⟨ts₂, is, closed, formed₂⟩ := aligned_inner formed₁ shape.inside opened
  obtain ⟨ts₃, rfl, -, -⟩ := aligned_brace formed₂ (.inr rfl) closed
  rw [List.flatMap_cons, is, List.flatMap_cons]
  exact reference_iff.mpr ⟨shape, _, rfl⟩

theorem slot_plain {index : ℕ} {c : Char} (mark : c ∉ ['\x7b', '\x7d']) (plain : c.isDigit = false) : c ∉ slot index := by
  have digits : (toString index).toList = Nat.toDigits 10 index := Nat.toList_repr
  intro member
  unfold slot at member
  rw [digits, List.mem_cons, List.mem_append, List.mem_singleton] at member
  rcases member with rfl | member | rfl
  · exact mark (by decide)
  · rw [Nat.isDigit_of_mem_toDigits (by decide) (by decide) member] at plain
    cases plain
  · exact mark (by decide)

def also (found : Match → Option ℕ) (m₀ : Match) (index : ℕ) (m : Match) : Option ℕ :=
  (found m).or (if m = m₀ then some index else none)

section Occurrences

variable {m₀ : Match} {new : List Char}

theorem replace_undollared {kept rest : List Char} (shape₀ : m₀.Shape words) (none : '$' ∉ kept) :
    replace (escape m₀.text) new (kept ++ rest) = kept ++ replace (escape m₀.text) new rest := by
  apply replace_append
  intro first tail suffix occurs
  rw [escape_ref shape₀] at occurs
  obtain rfl := (List.cons_prefix_cons.mp occurs).1
  exact none (suffix.subset List.mem_cons_self)

theorem occurs_dollar {rest : List Char} (shape₀ : m₀.Shape words) (occurs : escape m₀.text <+: '$' :: rest) :
    ∃ tail, '\x7b' :: '\x7b' :: (m₀.inside ++ '\x7d' :: '\x7d' :: tail) = rest := by
  rw [escape_ref shape₀] at occurs
  obtain ⟨tail, is⟩ := (List.cons_prefix_cons.mp occurs).2
  exact ⟨tail, by rw [← is]; simp⟩

end Occurrences

theorem replace_image {m₀ : Match} (shape₀ : m₀.Shape words) (index : ℕ) {ts : List Token} (formed : Formed words ts) :
    replace (escape m₀.text) (slot index) (ts.flatMap (image found)) = ts.flatMap (image (also found m₀ index)) := by
  induction ts with
  | nil => rfl
  | cons t ts ih =>
    rw [List.flatMap_cons, List.flatMap_cons]
    cases t with
    | ref m =>
      have later := ih formed.2
      cases is : found m with
      | some other =>
        have kept : also found m₀ index m = some other := by rw [also, is, Option.some_or]
        rw [image_slot is, image_slot kept, replace_undollared shape₀ (slot_plain (by decide) (by decide)), later]
      | none =>
        by_cases same : m = m₀
        · subst same
          have taken : also found m index m = some index := by rw [also, is, if_pos rfl, Option.none_or]
          rw [image_kept is, image_slot taken, replace_occurrence (by rw [escape_ref shape₀]; exact List.cons_ne_nil _ _),
            later]
        · have kept : also found m₀ index m = none := by rw [also, is, if_neg same, Option.none_or]
          have undollared : '$' ∉ '\x7b' :: '\x7b' :: (m.inside ++ ['\x7d', '\x7d']) := by
            have inside : '$' ∉ m.inside := fun member => formed.1.inside _ member (by decide)
            simp [inside]
          have none : ¬ escape m₀.text <+: '$' :: (('\x7b' :: '\x7b' :: (m.inside ++ ['\x7d', '\x7d'])) ++
              ts.flatMap (image found)) := by
            intro occurs
            obtain ⟨tail, is⟩ := occurs_dollar shape₀ occurs
            simp only [List.cons_append, List.append_assoc, List.nil_append, List.cons.injEq, true_and] at is
            exact same (reference_unique formed.1 shape₀ is.symm)
          rw [image_kept is, image_kept kept, escape_ref formed.1, List.cons_append, replace_cons none, replace_undollared shape₀ undollared, later]
          rfl
    | char c =>
      have later := ih formed.2
      rw [image_char, image_char]
      by_cases dollar : c = '$'
      · subst dollar
        have none : ¬ escape m₀.text <+: '$' :: ts.flatMap (image found) := by
          intro occurs
          obtain ⟨tail, is⟩ := occurs_dollar shape₀ occurs
          have matched := formed.1
          rw [matchAt, if_pos rfl, aligned_ref formed.2 shape₀ is] at matched
          cases matched
        have single : escaped '$' = ['$'] := escaped_plain (by decide)
        rw [single, List.cons_append, List.nil_append, replace_cons none, later]
        rfl
      · have undollared : '$' ∉ escaped c := by
          unfold escaped
          split
          · simp [Ne.symm dollar]
          · simp [Ne.symm dollar]
        rw [replace_undollared shape₀ undollared, later]

def spelledSlot (entries : List (List Char × ℕ)) (m : Match) : Option ℕ := if m.Spelled then entries.lookup m.name else none

def Named (words : Words) (name : List Char) : Prop :=
  ∃ first later, name = first :: later ∧ nameStart first = true ∧ ∀ c ∈ later, nameChar words c = true

theorem spellings_eq (name : List Char) :
    spellings name = [(Match.mk [] name []).text, (Match.mk [' '] name [' ']).text] := by
  simp [spellings, Match.text, Match.inside]

theorem spelledSlot_append (entries : List (List Char × ℕ)) (name : List Char) (index : ℕ) :
    spelledSlot (entries ++ [(name, index)]) =
      also (also (spelledSlot entries) ⟨[], name, []⟩ index) ⟨[' '], name, [' ']⟩ index := by
  funext m
  unfold also spelledSlot
  obtain ⟨before, name', after⟩ := m
  by_cases spelled : (Match.mk before name' after).Spelled
  · rw [if_pos spelled, if_pos spelled, List.lookup_append]
    rcases spelled with ⟨rfl, rfl⟩ | ⟨rfl, rfl⟩
    · by_cases same : name' = name
      · subst same
        simp
      · have apart : (name' == name) = false := by simpa using same
        simp [List.lookup_cons, apart, same]
    · by_cases same : name' = name
      · subst same
        simp
      · have apart : (name' == name) = false := by simpa using same
        simp [List.lookup_cons, apart, same]
  · have first : Match.mk before name' after ≠ ⟨[], name, []⟩ := by
      rintro ⟨⟩
      exact spelled (.inl ⟨rfl, rfl⟩)
    have second : Match.mk before name' after ≠ ⟨[' '], name, [' ']⟩ := by
      rintro ⟨⟩
      exact spelled (.inr ⟨rfl, rfl⟩)
    rw [if_neg spelled, if_neg spelled, if_neg first, if_neg second]
    rfl

theorem slotted_image {entries : List (List Char × ℕ)} {name : List Char} {index : ℕ} (named : Named words name)
    {ts : List Token} (formed : Formed words ts) :
    slotted (ts.flatMap (image (spelledSlot entries))) (name, index) =
      ts.flatMap (image (spelledSlot (entries ++ [(name, index)]))) := by
  have tight : (Match.mk [] name []).Shape words := ⟨by simp, named, by simp⟩
  have blank : ∀ c ∈ [' '], Reference.isSpace c = true := List.all_eq_true.mp rfl
  have loose : (Match.mk [' '] name [' ']).Shape words := ⟨blank, named, blank⟩
  unfold slotted
  rw [spellings_eq, List.foldl_cons, List.foldl_cons, List.foldl_nil, replace_image tight _ formed,
    replace_image loose _ formed, ← spelledSlot_append]

theorem lookup_zipIdx {name : List Char} {order : List (List Char)} (member : name ∈ order) (start : ℕ) :
    (order.zipIdx start).lookup name = some (start + order.idxOf name) := by
  induction order generalizing start with
  | nil => cases member
  | cons other order ih =>
    rw [List.zipIdx_cons, List.lookup_cons]
    by_cases same : name = other
    · subst same
      simp
    · have apart : (name == other) = false := by simpa using same
      have later := ih ((List.mem_cons.mp member).resolve_left same) (start + 1)
      rw [apart, List.idxOf_cons_ne _ (Ne.symm same)]
      dsimp only
      rw [later, Option.some.injEq]
      omega

/-- Every reference in one of the two spellings goes into the slot of its name; any other character, and any other
reference, is escaped. -/
def shown (order : List (List Char)) : Token → List Char
  | .ref m => if m.Spelled then slot (order.idxOf m.name) else escape m.text
  | .char c => escaped c

theorem toSlots_eq {ts : List Token} {order : List (List Char)} (formed : Formed words ts)
    (names : ∀ name ∈ order, Named words name) (covers : ∀ m, .ref m ∈ ts → m.name ∈ order) :
    toSlots (ts.flatMap Token.text) order = ts.flatMap (shown order) := by
  have fold : ∀ (rest entries : List (List Char × ℕ)), (∀ entry ∈ rest, Named words entry.1) →
      rest.foldl slotted (ts.flatMap (image (spelledSlot entries))) = ts.flatMap (image (spelledSlot (entries ++ rest))) := by
    intro rest
    induction rest with
    | nil => simp
    | cons entry rest ih =>
      intro entries named
      rw [List.foldl_cons, slotted_image (named entry List.mem_cons_self) formed,
        ih _ fun other member => named other (List.mem_cons_of_mem _ member), List.append_assoc]
      rfl
  have start : escape (ts.flatMap Token.text) = ts.flatMap (image (spelledSlot [])) := by
    rw [escape_eq, List.flatMap_assoc]
    congr 1
    funext t
    cases t with
    | ref m =>
      have none : spelledSlot [] m = none := by simp [spelledSlot]
      rw [image_kept none, escape_eq]
      rfl
    | char c => exact List.append_nil _
  unfold toSlots
  rw [start, fold _ [] fun entry member => names _ (List.fst_mem_of_mem_zipIdx member)]
  apply List.flatMap_congr
  intro t member
  cases t with
  | ref m =>
    have found : spelledSlot ([] ++ order.zipIdx) m = if m.Spelled then some (order.idxOf m.name) else none := by
      rw [spelledSlot, List.nil_append, lookup_zipIdx (covers m member), Nat.zero_add]
    rw [image, found, shown]
    split <;> rfl
  | char c => rfl

end Slots

/-! ### What the engine makes of the slots -/

section Rendering

open Interpolation

variable {words : Words} {order : List (List Char)} {values : List String}

def literal (c : Char) : Piece := if Brace c then .doubled c else .char c

def pieces (order : List (List Char)) : Token → List Piece
  | .ref m => if m.Spelled then [.slot (toString (order.idxOf m.name)).toList] else m.text.map literal
  | .char c => [literal c]

theorem slotNumber_toString (n : ℕ) : slotNumber (toString n).toList = n := by
  have digits : (toString n).toList = Nat.toDigits 10 n := Nat.toList_repr
  have fold : ∀ (cs : List Char) (start : ℕ), (∀ c ∈ cs, c.isDigit = true) →
      cs.foldl (fun n c => n * 10 + (Reference.digitOf c.toNat).getD 0) start = Nat.ofDigitChars 10 cs start := by
    intro cs
    induction cs with
    | nil => exact fun _ _ => rfl
    | cons c cs ih =>
      intro start held
      rw [List.foldl_cons, digitOf_digit (held c List.mem_cons_self), ih _ fun d member => held d (List.mem_cons_of_mem _ member),
        Nat.ofDigitChars_cons, Nat.mul_comm]
      rfl
  rw [digits, slotNumber, fold _ _ fun c member => Nat.isDigit_of_mem_toDigits (by decide) (by decide) member]
  exact Nat.ofDigitChars_ten_toDigits

theorem reads_escape {rest : List Char} {ps : List Piece} (reads : Reads rest ps) (text : List Char) :
    Reads (escape text ++ rest) (text.map literal ++ ps) := by
  rw [escape_eq]
  induction text with
  | nil => exact reads
  | cons c text ih =>
    rw [List.flatMap_cons, List.append_assoc, List.map_cons, List.cons_append]
    by_cases brace : Brace c
    · have doubled : literal c = .doubled c := if_pos brace
      rw [escaped_brace brace, doubled]
      exact .doubled brace ih
    · have plain : literal c = .char c := if_neg brace
      rw [escaped_plain brace, plain]
      refine .char ?_ ih
      rintro (⟨is, -⟩ | ⟨opens, -⟩)
      · exact brace is
      · exact brace (.inl opens)

theorem reads_shown (ts : List Token) : Reads (ts.flatMap (shown order)) (ts.flatMap (pieces order)) := by
  induction ts with
  | nil => exact .done
  | cons t ts ih =>
    rw [List.flatMap_cons, List.flatMap_cons]
    cases t with
    | ref m =>
      unfold shown pieces
      by_cases spelled : m.Spelled
      · have digits : (toString (order.idxOf m.name)).toList = Nat.toDigits 10 (order.idxOf m.name) := Nat.toList_repr
        simp only [if_pos spelled]
        unfold slot
        rw [List.cons_append, List.append_assoc]
        refine Reads.slot ?_ ?_ ih
        · rw [digits]
          exact Nat.toDigits_ne_nil
        · rw [digits]
          exact fun d member => isDigit_decimal d (Nat.isDigit_of_mem_toDigits (by decide) (by decide) member)
      · simp only [if_neg spelled]
        exact reads_escape ih m.text
    | char c =>
      have single : escaped c = escape [c] := by rw [escape_eq, List.flatMap_cons, List.flatMap_nil, List.append_nil]
      show Reads (escaped c ++ _) _
      rw [single]
      exact reads_escape ih [c]

def rendered (order : List (List Char)) (values : List String) : Token → List Char
  | .ref m => if m.Spelled then argument values (order.idxOf m.name) else m.text
  | .char c => [c]

theorem literal_text (c : Char) : (literal c).text values = [c] := by
  unfold literal
  split <;> rfl

theorem literals_text (text : List Char) : (text.map literal).flatMap (Piece.text values) = text := by
  rw [List.flatMap_map]
  simp only [literal_text]
  exact List.flatMap_singleton' text

theorem pieces_text (ts : List Token) :
    (ts.flatMap (pieces order)).flatMap (Piece.text values) = ts.flatMap (rendered order values) := by
  rw [List.flatMap_assoc]
  congr 1
  funext t
  cases t with
  | ref m =>
    unfold pieces rendered
    by_cases spelled : m.Spelled
    · simp only [if_pos spelled]
      rw [List.flatMap_singleton, Piece.text, slotNumber_toString]
    · simp only [if_neg spelled]
      exact literals_text m.text
  | char c => exact literals_text [c]

theorem scan_shown (ts : List Token) :
    scan decimal (String.ofList (ts.flatMap (shown order))).toList = ts.flatMap (pieces order) := by
  rw [String.toList_ofList]
  exact (reads_scan _).unique (reads_shown ts)

theorem literal_slot {c : Char} {digits : List Char} : literal c ≠ .slot digits := by
  unfold literal
  split <;> exact Piece.noConfusion

theorem slot_pieces {ts : List Token} {digits : List Char} : .slot digits ∈ ts.flatMap (pieces order) ↔
    ∃ m, .ref m ∈ ts ∧ m.Spelled ∧ digits = (toString (order.idxOf m.name)).toList := by
  rw [List.mem_flatMap]
  constructor
  · rintro ⟨t, member, among⟩
    cases t with
    | ref m =>
      unfold pieces at among
      by_cases spelled : m.Spelled
      · simp only [if_pos spelled, List.mem_singleton] at among
        cases among
        exact ⟨m, member, spelled, rfl⟩
      · simp only [if_neg spelled] at among
        obtain ⟨c, -, is⟩ := List.mem_map.mp among
        exact absurd is literal_slot
    | char c => exact absurd (List.mem_singleton.mp among).symm literal_slot
  · rintro ⟨m, member, spelled, rfl⟩
    refine ⟨_, member, ?_⟩
    unfold pieces
    simp only [if_pos spelled, List.mem_singleton]

theorem render_shown {ts : List Token}
    (short : ∀ m, .ref m ∈ ts → m.Spelled → (toString (order.idxOf m.name)).toList.length ≤ 4300) :
    Reference.render (String.ofList (ts.flatMap (shown order))) values = .ok (String.ofList (ts.flatMap (rendered order values))) := by
  have fills := @render_short (String.ofList (ts.flatMap (shown order))) values (by
    rw [scan_shown]
    intro digits member
    obtain ⟨m, listed, spelled, rfl⟩ := slot_pieces.mp member
    exact short m listed spelled)
  rw [fills, scan_shown, filled, pieces_text]

theorem text_unmarked {m : Match} (shape : m.Shape words) : weigh (counts fun c => c = firstStrongIsolate) m.text = 0 := by
  apply counts_zero
  intro c member
  rw [decide_eq_false_iff_not]
  rintro rfl
  simp only [Match.text, List.mem_cons, List.mem_append, List.not_mem_nil, or_false] at member
  rcases member with is | is | inside | is
  · exact absurd is (by decide)
  · exact absurd is (by decide)
  · exact shape.inside _ inside (by decide)
  · exact absurd is (by decide)

theorem rendered_inserted {ts : List Token} (formed : Formed words ts)
    (same : ts.flatMap (rendered order values) = ts.flatMap (Token.inserted order values)) {m : Match} (member : .ref m ∈ ts) :
    m.Spelled := by
  by_contra unspelled
  have kept : ∀ m', ¬ m'.Spelled → rendered order values (.ref m') = m'.text := fun m' off => if_neg off
  have put : ∀ m', m'.Spelled → rendered order values (.ref m') = Token.inserted order values (.ref m') :=
    fun m' on => if_pos on
  have marks : ∀ t ∈ ts, weigh (counts fun c => c = firstStrongIsolate) (rendered order values t) ≤
      weigh (counts fun c => c = firstStrongIsolate) (t.inserted order values) := by
    intro t listed
    cases t with
    | ref m' =>
      by_cases spelled : m'.Spelled
      · rw [put m' spelled]
      · rw [kept m' spelled, text_unmarked (formed_shape formed listed)]
        exact Nat.zero_le _
    | char c => exact le_refl _
  have empty : ∀ m', .ref m' ∈ ts → ¬ m'.Spelled → Token.inserted order values (.ref m') = [] := by
    intro m' listed off
    have weighs := weights_eq marks same _ listed
    rw [kept m' off, text_unmarked (formed_shape formed listed)] at weighs
    exact argument_unmarked weighs.symm
  have sizes : ∀ t ∈ ts, weigh (fun _ => 1) (t.inserted order values) ≤ weigh (fun _ => 1) (rendered order values t) := by
    intro t listed
    cases t with
    | ref m' =>
      by_cases spelled : m'.Spelled
      · rw [put m' spelled]
      · rw [empty m' listed spelled]
        exact Nat.zero_le _
    | char c => exact le_refl _
  have sized := weights_eq sizes same.symm _ member
  rw [empty m member unspelled, kept m unspelled] at sized
  unfold weigh Match.text at sized
  simp at sized

end Rendering

section Back

variable {words : Words} {order : List (List Char)}

theorem slot_toDigits (index : ℕ) : slot index = '\x7b' :: (Nat.toDigits 10 index ++ ['\x7d']) := by
  have digits : (toString index).toList = Nat.toDigits 10 index := Nat.toList_repr
  rw [slot, digits]

theorem slot_index_eq {k index : ℕ} {rest : List Char} (occurs : slot k <+: slot index ++ rest) : k = index := by
  obtain ⟨tail, same⟩ := occurs
  rw [slot_toDigits, slot_toDigits] at same
  have digits (n : ℕ) (after : List Char) :
      ('\x7b' :: (Nat.toDigits 10 n ++ ['\x7d']) ++ after).tail.takeWhile Char.isDigit = Nat.toDigits 10 n := by
    have stop := @takeWhile_stop Char.isDigit (Nat.toDigits 10 n) ('\x7d' :: after)
      (fun c member => Nat.isDigit_of_mem_toDigits (by decide) (by decide) member) (by rintro c ⟨⟩; rfl)
    rw [List.cons_append, List.tail_cons, List.append_assoc]
    exact stop.1
  have numbers := congrArg (fun text => text.tail.takeWhile Char.isDigit) same
  simp only [digits] at numbers
  have values := congrArg (Nat.ofDigitChars 10 · 0) numbers
  simpa only [Nat.ofDigitChars_ten_toDigits] using values

theorem slot_opens {k : ℕ} {c : Char} {rest : List Char} (plain : c.isDigit = false) : ¬ slot k <+: '\x7b' :: c :: rest := by
  obtain ⟨d, later, is, digit⟩ := slot_digit k
  rw [is]
  intro occurs
  obtain rfl := (List.cons_prefix_cons.mp (List.cons_prefix_cons.mp occurs).2).1
  rw [plain] at digit
  cases digit

theorem slot_brace {k : ℕ} {c : Char} {rest : List Char} (apart : c ≠ '\x7b') : ¬ slot k <+: c :: rest := by
  intro occurs
  exact apart (List.cons_prefix_cons.mp occurs).1.symm

theorem replace_unbraced {k : ℕ} {new kept rest : List Char} (none : '\x7b' ∉ kept) :
    replace (slot k) new (kept ++ rest) = kept ++ replace (slot k) new rest := by
  apply replace_append
  intro first tail suffix
  apply slot_brace
  rintro rfl
  exact none (suffix.subset List.mem_cons_self)

def tight (name : List Char) : List Char := '$' :: '\x7b' :: (name ++ ['\x7d'])

theorem start_digit {c : Char} (start : nameStart c = true) : c.isDigit = false := by
  cases digit : c.isDigit with
  | false => rfl
  | true =>
    have bounds := Numeral.bounds digit
    rcases start_cases start with alpha | rfl
    · have letter := alpha_bounds alpha
      omega
    · exact absurd digit (by decide)

theorem named_inner {name : List Char} (named : Named words name) : ∀ c ∈ name, Inner c := by
  obtain ⟨first, later, rfl, start, held⟩ := named
  rintro c (_ | ⟨_, member⟩)
  · exact inner_start start
  · exact inner_name (held c member)

theorem replace_tight {k : ℕ} {new name rest : List Char} (named : Named words name) :
    replace (slot k) new (tight name ++ rest) = tight name ++ replace (slot k) new rest := by
  have unbraced : '\x7b' ∉ name ++ ['\x7d'] := by
    have inside : '\x7b' ∉ name := fun member => named_inner named _ member (by decide)
    simp [inside]
  obtain ⟨first, later, is, start, -⟩ := named
  have opens : ¬ slot k <+: '\x7b' :: ((name ++ ['\x7d']) ++ rest) := by
    rw [is]
    exact slot_opens (start_digit start)
  unfold tight
  rw [List.cons_append, List.cons_append, replace_cons (slot_brace (by decide)), replace_cons opens, replace_unbraced unbraced]
  rfl

/-- The tokens of a text, with the author's own braces around the number of a slot taken together. -/
inductive Item where
  | ref (m : Match)
  | braced (index : ℕ)
  | char (c : Char)

def Item.tokens : Item → List Token
  | ref m => [.ref m]
  | braced index => (slot index).map .char
  | char c => [.char c]

def Item.text : Item → List Char
  | ref m => m.text
  | braced index => slot index
  | char c => [c]

def Grouped (words : Words) (order : List (List Char)) : List Item → Prop
  | [] => True
  | .ref m :: items => (m.Shape words ∧ m.name ∈ order) ∧ Grouped words order items
  | .braced index :: items => index < order.length ∧ Grouped words order items
  | .char c :: items =>
    (∀ index < order.length, ¬ slot index <+: c :: items.flatMap Item.text) ∧ Grouped words order items

theorem chars_text (text : List Char) : (text.map Token.char).flatMap Token.text = text := by
  rw [List.flatMap_map]
  exact List.flatMap_singleton' text

theorem items_text (items : List Item) : (items.flatMap Item.tokens).flatMap Token.text = items.flatMap Item.text := by
  rw [List.flatMap_assoc]
  congr 1
  funext item
  cases item with
  | ref m => exact List.append_nil _
  | braced index => exact chars_text _
  | char c => rfl

theorem chars_of_kept {ts : List Token} {kept rest : List Char} (none : '$' ∉ kept)
    (same : kept ++ rest = ts.flatMap Token.text) : ∃ ts', ts = kept.map Token.char ++ ts' := by
  induction kept generalizing ts with
  | nil => exact ⟨ts, rfl⟩
  | cons c kept ih =>
    cases ts with
    | nil => cases same
    | cons t ts =>
      rw [List.flatMap_cons] at same
      cases t with
      | ref m =>
        obtain rfl : c = '$' := (List.cons.inj same).1
        exact absurd List.mem_cons_self none
      | char c' =>
        obtain ⟨rfl, later⟩ := List.cons.inj same
        obtain ⟨ts', rfl⟩ := ih (fun member => none (List.mem_cons_of_mem _ member)) later
        exact ⟨ts', rfl⟩

theorem formed_append {a b : List Token} (formed : Formed words (a ++ b)) : Formed words b := by
  induction a with
  | nil => exact formed
  | cons t a ih =>
    cases t with
    | ref m => exact ih formed.2
    | char c => exact ih formed.2

theorem exists_items {ts : List Token} (formed : Formed words ts) (covers : ∀ m, .ref m ∈ ts → m.name ∈ order) :
    ∃ items, items.flatMap Item.tokens = ts ∧ Grouped words order items := by
  induction size : ts.length using Nat.strong_induction_on generalizing ts with
  | _ n ih =>
    cases ts with
    | nil => exact ⟨[], rfl, trivial⟩
    | cons t ts =>
      have covers' : ∀ m, .ref m ∈ ts → m.name ∈ order := fun m member => covers m (List.mem_cons_of_mem _ member)
      have shorter : ts.length < n := by
        simp only [List.length_cons] at size
        omega
      cases t with
      | ref m =>
        obtain ⟨items, rfl, grouped⟩ := ih ts.length shorter formed.2 covers' rfl
        exact ⟨.ref m :: items, rfl, ⟨formed.1, covers m List.mem_cons_self⟩, grouped⟩
      | char c =>
        by_cases begins : ∃ index < order.length, slot index <+: c :: ts.flatMap Token.text
        · obtain ⟨index, inside, tail, same⟩ := begins
          obtain ⟨ts', is⟩ := @chars_of_kept (.char c :: ts) _ _ (slot_plain (by decide) (by decide)) same
          rw [is] at formed covers size
          have fewer : ts'.length < n := by
            rw [List.length_append, List.length_map, slot] at size
            simp only [List.length_cons] at size
            omega
          obtain ⟨items, rfl, grouped⟩ := ih ts'.length fewer (formed_append formed)
            (fun m member => covers m (List.mem_append_right _ member)) rfl
          exact ⟨.braced index :: items, is.symm, inside, grouped⟩
        · obtain ⟨items, rfl, grouped⟩ := ih ts.length shorter formed.2 covers' rfl
          refine ⟨.char c :: items, rfl, fun index inside occurs => begins ⟨index, inside, ?_⟩, grouped⟩
          rw [items_text]
          exact occurs

def staged (order : List (List Char)) (count : ℕ) : Item → List Char
  | .ref m => if order.idxOf m.name < count then tight m.name else slot (order.idxOf m.name)
  | .braced index =>
    if index < count then '\x7b' :: (tight (order.getD index []) ++ ['\x7d']) else '\x7b' :: (slot index ++ ['\x7d'])
  | .char c => escaped c

theorem getD_inside {k : ℕ} (inside : k < order.length) : order.getD k [] = order[k] := by
  rw [List.getD_eq_getElem?_getD, List.getElem?_eq_getElem inside]
  rfl

theorem staged_prefix {count : ℕ} {items : List Item} {kept rest : List Char} (grouped : Grouped words order items)
    (inner : ∀ c ∈ kept, Inner c) (same : kept ++ '\x7d' :: rest = items.flatMap (staged order count)) :
    kept ++ ['\x7d'] <+: items.flatMap Item.text := by
  have opens : ∀ (index : ℕ) {c : Char} {tail tail' : List Char}, c :: tail = slot index ++ tail' → c = '\x7b' :=
    fun index _ _ _ same => (List.cons.inj same).1
  induction items generalizing kept with
  | nil => simp at same
  | cons item items ih =>
    rw [List.flatMap_cons] at same
    obtain ⟨c, tail, leads, apart⟩ : ∃ c tail, kept ++ '\x7d' :: rest = c :: tail ∧ c ≠ '\x7b' ∧ c ≠ '$' := by
      cases kept with
      | nil => exact ⟨'\x7d', rest, rfl, by decide, by decide⟩
      | cons c kept =>
        refine ⟨c, _, rfl, ?_, ?_⟩
        · rintro rfl
          exact inner _ List.mem_cons_self (by decide)
        · rintro rfl
          exact inner _ List.mem_cons_self (by decide)
    cases item with
    | ref m =>
      rw [leads, staged] at same
      split at same
      · exact absurd (List.cons.inj same).1 apart.2
      · exact absurd (opens _ same) apart.1
    | braced index =>
      rw [leads, staged] at same
      split at same
      · exact absurd (List.cons.inj same).1 apart.1
      · exact absurd (List.cons.inj same).1 apart.1
    | char c' =>
      rw [staged] at same
      cases kept with
      | nil =>
        by_cases brace : Brace c'
        · rw [escaped_brace brace] at same
          obtain rfl : '\x7d' = c' := (List.cons.inj same).1
          exact ⟨_, rfl⟩
        · rw [escaped_plain brace] at same
          obtain rfl : '\x7d' = c' := (List.cons.inj same).1
          exact ⟨_, rfl⟩
      | cons d kept =>
        by_cases brace : Brace c'
        · rw [escaped_brace brace] at same
          obtain rfl : d = c' := (List.cons.inj same).1
          rcases brace with rfl | rfl <;> exact absurd (by decide) (inner _ List.mem_cons_self)
        · rw [escaped_plain brace] at same
          obtain ⟨rfl, later⟩ := List.cons.inj same
          exact List.cons_prefix_cons.mpr ⟨rfl, ih grouped.2 (fun c member => inner c (List.mem_cons_of_mem _ member)) later⟩

theorem digit_inner {c : Char} (digit : c.isDigit = true) : Inner c := inner_of_unmarked rfl digit

theorem replace_staged (named : ∀ name ∈ order, Named words name) {k : ℕ} (inside : k < order.length) {items : List Item} (grouped : Grouped words order items) :
    replace (slot k) (tight order[k]) (items.flatMap (staged order k)) = items.flatMap (staged order (k + 1)) := by
  have nonempty : slot k ≠ [] := List.cons_ne_nil _ _
  have digits_unbraced (index : ℕ) : '\x7b' ∉ Nat.toDigits 10 index ++ ['\x7d'] := by
    intro member
    rcases List.mem_append.mp member with digit | brace
    · exact digit_inner (Nat.isDigit_of_mem_toDigits (by decide) (by decide) digit) (by decide)
    · exact absurd brace (by decide)
  have other {index : ℕ} (apart : k ≠ index) (rest : List Char) :
      replace (slot k) (tight order[k]) (slot index ++ rest) = slot index ++ replace (slot k) (tight order[k]) rest := by
    have none : ¬ slot k <+: slot index ++ rest := fun occurs => apart (slot_index_eq occurs)
    rw [slot_toDigits index, List.cons_append] at none ⊢
    rw [replace_cons none, replace_unbraced (digits_unbraced index)]
    rfl
  have closing (rest : List Char) : replace (slot k) (tight order[k]) ('\x7d' :: rest) =
      '\x7d' :: replace (slot k) (tight order[k]) rest := replace_cons (slot_brace (by decide))
  have opening {c : Char} (plain : c.isDigit = false) (rest : List Char) :
      replace (slot k) (tight order[k]) ('\x7b' :: c :: rest) = '\x7b' :: replace (slot k) (tight order[k]) (c :: rest) :=
    replace_cons (slot_opens plain)
  have opening_tight (name rest : List Char) : replace (slot k) (tight order[k]) ('\x7b' :: (tight name ++ rest)) =
      '\x7b' :: replace (slot k) (tight order[k]) (tight name ++ rest) := opening rfl _
  have opening_slot (index : ℕ) (rest : List Char) : replace (slot k) (tight order[k]) ('\x7b' :: (slot index ++ rest)) =
      '\x7b' :: replace (slot k) (tight order[k]) (slot index ++ rest) := opening rfl _
  induction items with
  | nil => rfl
  | cons item items ih =>
    rw [List.flatMap_cons, List.flatMap_cons]
    cases item with
    | ref m =>
      obtain ⟨⟨shape, listed⟩, grouped⟩ := grouped
      rw [staged, staged]
      by_cases past : order.idxOf m.name < k
      · rw [if_pos past, if_pos (by omega), replace_tight shape.named, ih grouped]
      · by_cases now : order.idxOf m.name = k
        · subst now
          rw [if_neg past, if_pos (by omega), replace_occurrence nonempty, ih grouped, List.getElem_idxOf]
        · rw [if_neg past, if_neg (by omega), other (Ne.symm now), ih grouped]
    | braced index =>
      obtain ⟨below, grouped⟩ := grouped
      rw [staged, staged]
      by_cases past : index < k
      · have listed : Named words (order.getD index []) := by
          rw [getD_inside below]
          exact named _ (List.getElem_mem below)
        rw [if_pos past, if_pos (by omega), List.cons_append, List.append_assoc, opening_tight, replace_tight listed,
          List.singleton_append, closing, ih grouped, List.cons_append, List.append_assoc]
        rfl
      · by_cases now : index = k
        · subst now
          rw [if_neg past, if_pos (by omega), List.cons_append, List.append_assoc, opening_slot, replace_occurrence nonempty,
            List.singleton_append, closing, ih grouped, getD_inside below, List.cons_append, List.append_assoc]
          rfl
        · rw [if_neg past, if_neg (by omega), List.cons_append, List.append_assoc, opening_slot, other (Ne.symm now),
            List.singleton_append, closing, ih grouped, List.cons_append, List.append_assoc]
          rfl
    | char c =>
      rw [staged, staged]
      by_cases opens : c = '\x7b'
      · subst opens
        have none : ¬ slot k <+: '\x7b' :: items.flatMap (staged order k) := by
          rw [slot_toDigits]
          intro occurs
          obtain ⟨tail, same⟩ := (List.cons_prefix_cons.mp occurs).2
          rw [List.append_assoc] at same
          have digits := staged_prefix grouped.2
            (fun c member => digit_inner (Nat.isDigit_of_mem_toDigits (by decide) (by decide) member)) same
          apply grouped.1 k inside
          rw [slot_toDigits]
          exact List.cons_prefix_cons.mpr ⟨rfl, digits⟩
        have doubled : escaped '\x7b' = ['\x7b', '\x7b'] := escaped_brace (.inl rfl)
        rw [doubled, List.cons_append, List.cons_append, List.nil_append, opening rfl, replace_cons none, ih grouped.2]
        rfl
      · have unbraced : '\x7b' ∉ escaped c := by
          unfold escaped
          split <;> simp [Ne.symm opens]
        rw [replace_unbraced unbraced, ih grouped.2]

theorem unslotted_staged (named : ∀ name ∈ order, Named words name) {items : List Item} (grouped : Grouped words order items) :
    order.zipIdx.foldl unslotted (items.flatMap (staged order 0)) = items.flatMap (staged order order.length) := by
  have fold : ∀ (rest done : List (List Char)), order = done ++ rest →
      (rest.zipIdx done.length).foldl unslotted (items.flatMap (staged order done.length)) =
        items.flatMap (staged order order.length) := by
    intro rest
    induction rest with
    | nil =>
      intro done is
      rw [is, List.append_nil]
      rfl
    | cons name rest ih =>
      intro done is
      have inside : done.length < order.length := by
        rw [is]
        simp
      have here : order[done.length] = name := by simp [is]
      have written : unslotted (items.flatMap (staged order done.length)) (name, done.length) =
          items.flatMap (staged order (done.length + 1)) := by
        rw [← here]
        exact replace_staged named inside grouped
      have later := ih (done ++ [name]) (by rw [is, List.append_assoc]; rfl)
      rw [List.length_append, List.length_singleton] at later
      rw [List.zipIdx_cons, List.foldl_cons, written, later]
  exact fold order [] rfl

def opened (order : List (List Char)) : Item → List Char
  | .ref m => tight m.name
  | .braced index => '\x7b' :: (tight (order.getD index []) ++ ['\x7d'])
  | .char c => if c = '\x7d' then ['\x7d', '\x7d'] else [c]

def returned (order : List (List Char)) : Item → List Char
  | .ref m => tight m.name
  | .braced index => '\x7b' :: tight (order.getD index [])
  | .char c => [c]

section Doubled

variable {brace : Char}

theorem doubled_append {kept rest : List Char} (none : brace ∉ kept) :
    replace [brace, brace] [brace] (kept ++ rest) = kept ++ replace [brace, brace] [brace] rest := by
  apply replace_append
  intro first tail suffix occurs
  obtain rfl := (List.cons_prefix_cons.mp occurs).1
  exact none (suffix.subset List.mem_cons_self)

theorem doubled_single {c : Char} {rest : List Char} (apart : c ≠ brace) :
    replace [brace, brace] [brace] (brace :: c :: rest) = brace :: replace [brace, brace] [brace] (c :: rest) := by
  apply replace_cons
  intro occurs
  exact apart (List.cons_prefix_cons.mp (List.cons_prefix_cons.mp occurs).2).1.symm

theorem doubled_pair (rest : List Char) :
    replace [brace, brace] [brace] (brace :: brace :: rest) = brace :: replace [brace, brace] [brace] rest :=
  replace_occurrence (List.cons_ne_nil _ _) rest

end Doubled

theorem opened_staged (named : ∀ name ∈ order, Named words name) {items : List Item} (grouped : Grouped words order items) :
    replace ['\x7b', '\x7b'] ['\x7b'] (items.flatMap (staged order order.length)) = items.flatMap (opened order) := by
  have reference {name : List Char} (named : Named words name) (rest : List Char) :
      replace ['\x7b', '\x7b'] ['\x7b'] (tight name ++ rest) = tight name ++ replace ['\x7b', '\x7b'] ['\x7b'] rest := by
    have unbraced : '\x7b' ∉ name ++ ['\x7d'] := by
      have inside : '\x7b' ∉ name := fun member => named_inner named _ member (by decide)
      simp [inside]
    obtain ⟨first, later, is, start, -⟩ := named
    have apart : first ≠ '\x7b' := by
      rintro rfl
      exact inner_start start (by decide)
    have first_append := @doubled_append '\x7b' ['$'] ('\x7b' :: ((name ++ ['\x7d']) ++ rest)) (by decide)
    have second : replace ['\x7b', '\x7b'] ['\x7b'] ('\x7b' :: ((name ++ ['\x7d']) ++ rest)) =
        '\x7b' :: replace ['\x7b', '\x7b'] ['\x7b'] ((name ++ ['\x7d']) ++ rest) := by
      rw [is]
      exact doubled_single apart
    rw [second, doubled_append unbraced] at first_append
    exact first_append
  have opening (name rest : List Char) : replace ['\x7b', '\x7b'] ['\x7b'] ('\x7b' :: (tight name ++ rest)) =
      '\x7b' :: replace ['\x7b', '\x7b'] ['\x7b'] (tight name ++ rest) := doubled_single (by decide)
  induction items with
  | nil => rfl
  | cons item items ih =>
    rw [List.flatMap_cons, List.flatMap_cons]
    cases item with
    | ref m =>
      obtain ⟨⟨shape, listed⟩, grouped⟩ := grouped
      rw [staged, if_pos (List.idxOf_lt_length_of_mem listed), reference shape.named, ih grouped]
      rfl
    | braced index =>
      obtain ⟨below, grouped⟩ := grouped
      have listed : Named words (order.getD index []) := by
        rw [getD_inside below]
        exact named _ (List.getElem_mem below)
      have closing := @doubled_append '\x7b' ['\x7d'] (items.flatMap (staged order order.length)) (by decide)
      rw [staged, if_pos below, List.cons_append, List.append_assoc, opening, reference listed, closing, ih grouped]
      simp only [opened, List.cons_append, List.append_assoc, List.nil_append]
    | char c =>
      rw [staged, opened]
      by_cases opens : c = '\x7b'
      · subst opens
        have doubled : escaped '\x7b' = ['\x7b', '\x7b'] := escaped_brace (.inl rfl)
        rw [doubled, if_neg (by decide), List.cons_append, List.cons_append, List.nil_append, doubled_pair, ih grouped.2]
        rfl
      · have shape : escaped c = if c = '\x7d' then ['\x7d', '\x7d'] else [c] := by
          by_cases closes : c = '\x7d'
          · subst closes
            rfl
          · rw [escaped_plain (not_or.mpr ⟨opens, closes⟩), if_neg closes]
        have unbraced : '\x7b' ∉ escaped c := by
          unfold escaped
          split <;> simp [Ne.symm opens]
        rw [doubled_append unbraced, ih grouped.2, shape]

theorem returned_opened (named : ∀ name ∈ order, Named words name) {items : List Item} (grouped : Grouped words order items) :
    replace ['\x7d', '\x7d'] ['\x7d'] (items.flatMap (opened order)) = items.flatMap (returned order) ∧
      replace ['\x7d', '\x7d'] ['\x7d'] ('\x7d' :: items.flatMap (opened order)) = '\x7d' :: items.flatMap (returned order) := by
  have unclosed {name : List Char} (named : Named words name) : '\x7d' ∉ '$' :: '\x7b' :: name := by
    have inside : '\x7d' ∉ name := fun member => named_inner named _ member (by decide)
    simp [inside]
  have reference {name : List Char} (named : Named words name) (rest : List Char) :
      replace ['\x7d', '\x7d'] ['\x7d'] (tight name ++ rest) =
        ('$' :: '\x7b' :: name) ++ replace ['\x7d', '\x7d'] ['\x7d'] ('\x7d' :: rest) := by
    rw [← doubled_append (unclosed named)]
    unfold tight
    simp only [List.cons_append, List.append_assoc, List.nil_append]
  induction items with
  | nil => exact ⟨rfl, rfl⟩
  | cons item items ih =>
    rw [List.flatMap_cons, List.flatMap_cons]
    cases item with
    | ref m =>
      obtain ⟨⟨shape, -⟩, grouped⟩ := grouped
      have here : replace ['\x7d', '\x7d'] ['\x7d'] (tight m.name ++ items.flatMap (opened order)) =
          tight m.name ++ items.flatMap (returned order) := by
        rw [reference shape.named, (ih grouped).2]
        unfold tight
        simp only [List.cons_append, List.append_assoc, List.nil_append]
      have alone : replace ['\x7d', '\x7d'] ['\x7d'] ('\x7d' :: (tight m.name ++ items.flatMap (opened order))) =
          '\x7d' :: replace ['\x7d', '\x7d'] ['\x7d'] (tight m.name ++ items.flatMap (opened order)) :=
        doubled_single (by decide)
      exact ⟨here, alone.trans (congrArg ('\x7d' :: ·) here)⟩
    | braced index =>
      obtain ⟨below, grouped⟩ := grouped
      have listed : Named words (order.getD index []) := by
        rw [getD_inside below]
        exact named _ (List.getElem_mem below)
      have here : replace ['\x7d', '\x7d'] ['\x7d'] (opened order (.braced index) ++ items.flatMap (opened order)) =
          returned order (.braced index) ++ items.flatMap (returned order) := by
        have opens := @doubled_append '\x7d' ['\x7b'] (tight (order.getD index []) ++ ('\x7d' :: items.flatMap (opened order)))
          (by decide)
        rw [reference listed, doubled_pair, (ih grouped).1] at opens
        rw [opened, returned]
        simp only [tight, List.cons_append, List.append_assoc, List.nil_append] at opens ⊢
        exact opens
      have alone : replace ['\x7d', '\x7d'] ['\x7d'] ('\x7d' :: (opened order (.braced index) ++ items.flatMap (opened order))) =
          '\x7d' :: replace ['\x7d', '\x7d'] ['\x7d'] (opened order (.braced index) ++ items.flatMap (opened order)) :=
        doubled_single (by decide)
      exact ⟨here, alone.trans (congrArg ('\x7d' :: ·) here)⟩
    | char c =>
      obtain ⟨later, laterAlone⟩ := ih grouped.2
      rw [opened, returned]
      by_cases closes : c = '\x7d'
      · subst closes
        rw [if_pos rfl, List.cons_append, List.cons_append, List.nil_append, doubled_pair, doubled_pair, later, laterAlone]
        exact ⟨rfl, rfl⟩
      · have single := @doubled_append '\x7d' [c] (items.flatMap (opened order)) (by simp [Ne.symm closes])
        have alone : replace ['\x7d', '\x7d'] ['\x7d'] ('\x7d' :: ([c] ++ items.flatMap (opened order))) =
            '\x7d' :: replace ['\x7d', '\x7d'] ['\x7d'] ([c] ++ items.flatMap (opened order)) := doubled_single closes
        rw [if_neg closes, alone, single, later]
        exact ⟨rfl, rfl⟩

theorem fromSlots_staged (named : ∀ name ∈ order, Named words name) {items : List Item} (grouped : Grouped words order items) :
    fromSlots (items.flatMap (staged order 0)) order = items.flatMap (returned order) := by
  unfold fromSlots
  rw [unslotted_staged named grouped, opened_staged named grouped]
  exact (returned_opened named grouped).1

theorem shown_items {items : List Item} (spelled : ∀ m, .ref m ∈ items.flatMap Item.tokens → m.Spelled) :
    (items.flatMap Item.tokens).flatMap (shown order) = items.flatMap (staged order 0) := by
  rw [List.flatMap_assoc]
  apply List.flatMap_congr
  intro item member
  cases item with
  | ref m =>
    have held := spelled m (List.mem_flatMap.mpr ⟨_, member, List.mem_singleton_self _⟩)
    rw [Item.tokens, List.flatMap_singleton, shown, staged, if_pos held, if_neg (Nat.not_lt_zero _)]
  | braced index =>
    have digits : (Nat.toDigits 10 index).flatMap escaped = Nat.toDigits 10 index := by
      rw [← escape_eq, escape_inner fun c member =>
        digit_inner (Nat.isDigit_of_mem_toDigits (by decide) (by decide) member)]
    rw [Item.tokens, List.flatMap_map, staged, if_neg (Nat.not_lt_zero _), slot_toDigits]
    show escaped '\x7b' ++ (Nat.toDigits 10 index ++ ['\x7d']).flatMap escaped = _
    have opens : escaped '\x7b' = ['\x7b', '\x7b'] := escaped_brace (.inl rfl)
    have closes : ['\x7d'].flatMap escaped = ['\x7d', '\x7d'] := rfl
    rw [List.flatMap_append, digits, opens, closes]
    simp only [List.cons_append, List.append_assoc, List.nil_append]
  | char c => exact List.flatMap_singleton _ _

def Item.tightened : Item → List Char
  | ref m => tight m.name
  | braced index => slot index
  | char c => [c]

theorem tight_items (items : List Item) :
    (items.flatMap Item.tokens).flatMap Token.tight = items.flatMap Item.tightened := by
  rw [List.flatMap_assoc]
  congr 1
  funext item
  cases item with
  | ref m => exact List.append_nil _
  | braced index =>
    rw [Item.tokens, List.flatMap_map]
    exact List.flatMap_singleton' _
  | char c => rfl

theorem returned_iff {items : List Item} :
    items.flatMap (returned order) = items.flatMap Item.tightened ↔ ∀ index, .braced index ∉ items := by
  constructor
  · intro same index member
    have le : ∀ item ∈ items, weigh (counts fun c => c = '$') item.tightened ≤
        weigh (counts fun c => c = '$') (returned order item) := by
      intro item _
      cases item with
      | ref m => exact le_refl _
      | braced index' =>
        have none : weigh (counts fun c => c = '$') (slot index') = 0 := by
          apply counts_zero
          intro c among
          rw [decide_eq_false_iff_not]
          rintro rfl
          exact slot_plain (by decide) (by decide) among
        rw [Item.tightened, none]
        exact Nat.zero_le _
      | char c => exact le_refl _
    have weighs := weights_eq le same.symm _ member
    have none : weigh (counts fun c => c = '$') (slot index) = 0 := by
      apply counts_zero
      intro c among
      rw [decide_eq_false_iff_not]
      rintro rfl
      exact slot_plain (by decide) (by decide) among
    have some : 0 < weigh (counts fun c => c = '$') (tight (order.getD index [])) := counts_cons_pos (by decide)
    have whole : weigh (counts fun c => c = '$') (returned order (.braced index)) =
        weigh (counts fun c => c = '$') ['\x7b'] + weigh (counts fun c => c = '$') (tight (order.getD index [])) :=
      weigh_append ['\x7b'] _
    rw [Item.tightened, none] at weighs
    omega
  · intro none
    apply List.flatMap_congr
    intro item member
    cases item with
    | ref m => rfl
    | braced index => exact absurd member (none index)
    | char c => rfl

theorem infix_unbraced {index : ℕ} {kept rest : List Char} (none : '\x7b' ∉ kept) (occurs : slot index <:+: kept ++ rest) :
    slot index <:+: rest := by
  induction kept with
  | nil => exact occurs
  | cons c kept ih =>
    rcases List.infix_cons_iff.mp occurs with here | later
    · exact absurd here (slot_brace fun same => none (same ▸ List.mem_cons_self))
    · exact ih (fun member => none (List.mem_cons_of_mem _ member)) later

theorem unbraced_cons {item : Item} {items : List Item} (apart : ∀ index, item ≠ .braced index) :
    (∀ index, .braced index ∉ item :: items) ↔ ∀ index, .braced index ∉ items :=
  ⟨fun none index member => none index (List.mem_cons_of_mem _ member),
    fun none index member => (List.mem_cons.mp member).elim (fun same => apart index same.symm) (none index)⟩

theorem braced_iff {items : List Item} (grouped : Grouped words order items) :
    (∀ index < order.length, ¬ slot index <:+: items.flatMap Item.text) ↔ ∀ index, .braced index ∉ items := by
  induction items with
  | nil => simp [slot]
  | cons item items ih =>
    rw [List.flatMap_cons]
    cases item with
    | ref m =>
      obtain ⟨⟨shape, -⟩, grouped⟩ := grouped
      have skip (index : ℕ) : slot index <:+: m.text ++ items.flatMap Item.text ↔ slot index <:+: items.flatMap Item.text := by
        refine ⟨fun occurs => ?_, fun occurs => occurs.trans (List.suffix_append _ _).isInfix⟩
        have opens : ∀ c ∈ (m.inside ++ ['\x7d']).head?, c.isDigit = false := by
          intro c first
          obtain ⟨start, later, is, letter, -⟩ := shape.named
          unfold Match.inside at first
          cases spaces : m.before with
          | nil =>
            rw [spaces, is] at first
            obtain rfl : start = c := Option.some.inj first
            exact start_digit letter
          | cons space others =>
            rw [spaces] at first
            obtain rfl : space = c := Option.some.inj first
            have blank := shape.before space (spaces ▸ List.mem_cons_self)
            by_contra digit
            have plain := Reference.isSpace_plain (Numeral.plain_digit (by simpa using digit))
            rw [plain] at blank
            cases blank
        have unbraced : '\x7b' ∉ m.inside ++ ['\x7d'] := by
          have inside : '\x7b' ∉ m.inside := fun member => shape.inside _ member (by decide)
          simp [inside]
        rcases List.infix_cons_iff.mp occurs with here | occurs
        · exact absurd here (slot_brace (by decide))
        rcases List.infix_cons_iff.mp occurs with here | occurs
        · cases lead : m.inside ++ ['\x7d'] with
          | nil => simp at lead
          | cons c others =>
            rw [lead] at opens
            change slot index <+: '\x7b' :: ((m.inside ++ ['\x7d']) ++ _) at here
            rw [lead] at here
            exact absurd here (slot_opens (opens c rfl))
        · exact infix_unbraced unbraced occurs
      rw [unbraced_cons fun _ => Item.noConfusion, ← ih grouped]
      exact forall₂_congr fun index _ => not_congr (skip index)
    | braced index =>
      refine iff_of_false (fun none => none index grouped.1 (List.prefix_append _ _).isInfix) fun none => ?_
      exact none index List.mem_cons_self
    | char c =>
      rw [unbraced_cons fun _ => Item.noConfusion, ← ih grouped.2]
      refine forall₂_congr fun index inside => not_congr ?_
      refine ⟨fun occurs => ?_, fun occurs => occurs.trans (List.suffix_cons _ _).isInfix⟩
      exact (List.infix_cons_iff.mp occurs).resolve_left (grouped.1 index inside)

end Back

/-! ### Which labels survive -/

section Survival

variable {words : Words} {text : List Char} {values : List String}

theorem labelOrder_named : ∀ name ∈ labelOrder words text, Named words name := by
  intro name member
  obtain ⟨m, listed, rfl⟩ := mem_labelOrder.mp member
  exact (formed_shape (tokens_formed text).2 listed).named

theorem labelOrder_nodup : (labelOrder words text).Nodup := by
  have fold : ∀ names order : List (List Char), order.Nodup →
      (names.foldl (fun order name => if name ∈ order then order else order ++ [name]) order).Nodup := by
    intro names
    induction names with
    | nil => exact fun order held => held
    | cons name names ih =>
      intro order held
      rw [List.foldl_cons]
      apply ih
      split
      · exact held
      · rename_i new
        exact List.nodup_append.mpr ⟨held, List.nodup_singleton name, by
          rintro other listed _ (_ | ⟨_, ⟨⟩⟩) rfl
          exact new listed⟩
  exact fold _ _ List.nodup_nil

theorem labelOrder_covers {m : Match} (member : .ref m ∈ tokens words text) : m.name ∈ labelOrder words text :=
  mem_labelOrder.mpr ⟨m, member, rfl⟩

theorem toSlots_text : toSlots text (labelOrder words text) = (tokens words text).flatMap (shown (labelOrder words text)) := by
  obtain ⟨same, formed⟩ := @tokens_formed words text
  have slots := toSlots_eq formed labelOrder_named fun m member => labelOrder_covers member
  rwa [same] at slots

theorem index_iff {P : ℕ → Prop} : (∀ index < (labelOrder words text).length, P index) ↔
    ∀ m, .ref m ∈ tokens words text → P ((labelOrder words text).idxOf m.name) := by
  constructor
  · exact fun held m member => held _ (List.idxOf_lt_length_of_mem (labelOrder_covers member))
  · intro held index inside
    obtain ⟨m, member, is⟩ := mem_labelOrder.mp (List.getElem_mem inside)
    have number : (labelOrder words text).idxOf m.name = index := by
      rw [is]
      exact labelOrder_nodup.idxOf_getElem index inside
    rw [← number]
    exact held m member

theorem render_iff : Reference.render (String.ofList (toSlots text (labelOrder words text))) values =
      .ok (String.ofList ((tokens words text).flatMap (Token.inserted (labelOrder words text) values))) ↔
    (∀ m, .ref m ∈ tokens words text → m.Spelled) ∧
      ∀ index < (labelOrder words text).length, (toString index).toList.length ≤ 4300 := by
  rw [index_iff (P := fun index => (toString index).toList.length ≤ 4300), toSlots_text]
  constructor
  · intro is
    have short : ∀ m, .ref m ∈ tokens words text → m.Spelled →
        (toString ((labelOrder words text).idxOf m.name)).toList.length ≤ 4300 := by
      intro m member spelled
      apply Interpolation.short_of_render is
      rw [scan_shown]
      exact slot_pieces.mpr ⟨m, member, spelled, rfl⟩
    rw [render_shown short] at is
    have same := congrArg String.toList (Except.ok.inj is)
    rw [String.toList_ofList, String.toList_ofList] at same
    have spelled : ∀ m, .ref m ∈ tokens words text → m.Spelled :=
      fun m member => rendered_inserted (tokens_formed text).2 same member
    exact ⟨spelled, fun m member => short m member (spelled m member)⟩
  · rintro ⟨spelled, short⟩
    rw [render_shown fun m member _ => short m member]
    congr 2
    apply List.flatMap_congr
    intro t member
    cases t with
    | ref m => exact if_pos (spelled m member)
    | char c => rfl

theorem fromSlots_iff (spelled : ∀ m, .ref m ∈ tokens words text → m.Spelled) :
    fromSlots (toSlots text (labelOrder words text)) (labelOrder words text) = (tokens words text).flatMap Token.tight ↔
      ∀ index < (labelOrder words text).length, ¬ slot index <:+: text := by
  obtain ⟨same, formed⟩ := @tokens_formed words text
  obtain ⟨items, is, grouped⟩ := exists_items formed fun m member => labelOrder_covers member
  have texts : text = items.flatMap Item.text := by rw [← items_text, is, same]
  rw [toSlots_text]
  rw [← is] at spelled ⊢
  rw [shown_items spelled, fromSlots_staged labelOrder_named grouped, tight_items, returned_iff, ← braced_iff grouped, ← texts]

/-- A label's references survive exactly where each is in one of the two spellings, and the author braces no number of
a slot. -/
theorem survives_iff (words : Words) (text : List Char) (values : List String) :
    Survives words text values ↔
      (∀ m, .ref m ∈ tokens words text → m.Spelled) ∧
        (∀ index < (labelOrder words text).length, ¬ slot index <:+: text) ∧
          ∀ index < (labelOrder words text).length, (toString index).toList.length ≤ 4300 := by
  unfold Survives
  rw [render_iff]
  constructor
  · rintro ⟨⟨spelled, short⟩, back⟩
    exact ⟨spelled, (fromSlots_iff spelled).mp back, short⟩
  · rintro ⟨spelled, unbraced, short⟩
    exact ⟨⟨spelled, short⟩, (fromSlots_iff spelled).mpr unbraced⟩

end Survival

theorem ascii_spaced (c : Char) (word : (c.isAlphanum || c = '_') = true) : Reference.isSpace c = false := by
  have plain : Numeral.Plain c ∨ c = '_' := by
    by_cases underscore : c = '_'
    · exact .inr underscore
    rw [Bool.or_eq_true, decide_eq_true_eq] at word
    have letter : (c.isAlpha || c.isDigit) = true := word.resolve_right underscore
    rcases Bool.or_eq_true_iff.mp letter with alpha | digit
    · have bounds := alpha_bounds alpha
      exact .inl ⟨by omega, by omega, underscore⟩
    · exact .inl (Numeral.plain_digit digit)
  rcases plain with plain | rfl
  · exact Reference.isSpace_plain plain
  · decide

theorem ascii_marks : ∀ c ∈ ['$', '\x7b', '\x7d', Interpolation.firstStrongIsolate],
    (c.isAlphanum || decide (c = '_')) = false := by
  simp [Interpolation.firstStrongIsolate]

def ascii : Words where
  word c := c.isAlphanum || c = '_'
  spaced := ascii_spaced
  marks := ascii_marks

/-- Two blanks before a name, and the reference is shown as it is written. -/
theorem spaced_reference :
    Reference.render (String.ofList (toSlots "$\x7b  a\x7d".toList (labelOrder ascii "$\x7b  a\x7d".toList))) ["x"] =
        .ok "$\x7b  a\x7d" ∧
      (tokens ascii "$\x7b  a\x7d".toList).flatMap (Token.inserted (labelOrder ascii "$\x7b  a\x7d".toList) ["x"]) =
        "\u2068x\u2069".toList ∧
      ¬ Survives ascii "$\x7b  a\x7d".toList ["x"] := by
  have renders : Reference.render (String.ofList (toSlots "$\x7b  a\x7d".toList (labelOrder ascii "$\x7b  a\x7d".toList)))
      ["x"] = .ok "$\x7b  a\x7d" := by rfl
  have inserts : (tokens ascii "$\x7b  a\x7d".toList).flatMap
      (Token.inserted (labelOrder ascii "$\x7b  a\x7d".toList) ["x"]) = "\u2068x\u2069".toList := by decide +kernel
  refine ⟨renders, inserts, ?_⟩
  rintro ⟨same, -⟩
  rw [renders, inserts] at same
  have texts := Except.ok.inj same
  revert texts
  decide +kernel

end DataCollectionLab.Xlsform
