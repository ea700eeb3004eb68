import DataCollectionLab.Crypto.CanonicalJson
import Mathlib.Data.List.Perm.Basic

/-!
What canonical JSON settles: from the front of a text, the value that was written there and where it ends.
-/

namespace DataCollectionLab.Crypto

open Lib

def unescape : List Char → Option (Char × List Char)
  | '\\' :: 'u' :: a :: b :: c :: d :: rest =>
    ((List.range 0x20).find? fun n => hex4 n = [a, b, c, d]).map fun n => (Char.ofNat n, rest)
  | '\\' :: letter :: rest => (escapeDct.find? fun pair => pair.2 = ['\\', letter]).map fun pair => (pair.1, rest)
  | c :: rest => some (c, rest)
  | [] => none

theorem unescape_dct : ∀ pair ∈ escapeDct, ∀ rest, unescape (pair.2 ++ rest) = some (pair.1, rest) := by
  intro pair member rest
  simp only [escapeDct, List.mem_cons, List.not_mem_nil, or_false] at member
  rcases member with rfl | rfl | rfl | rfl | rfl | rfl | rfl <;> rfl

theorem hex4_read : ∀ n < 0x20, ∃ a b c d, hex4 n = [a, b, c, d] ∧
    ((List.range 0x20).find? fun m => hex4 m = [a, b, c, d]) = some n := by
  intro n small
  have four : ∀ n < 0x20, (hex4 n).length = 4 ∧ ((List.range 0x20).find? fun m => hex4 m = hex4 n) = some n := by decide
  obtain ⟨length, found⟩ := four n small
  match digits : hex4 n with
  | [a, b, c, d] => exact ⟨a, b, c, d, rfl, by rw [← digits]; exact found⟩
  | [] | [_] | [_, _] | [_, _, _] | _ :: _ :: _ :: _ :: _ :: _ => simp [digits] at length

theorem ne_of_not_named {c : Char} (unnamed : escapeDct.lookup c = none) : ∀ pair ∈ escapeDct, c ≠ pair.1 := by
  intro pair member
  simpa using List.lookup_eq_none_iff.mp unnamed pair member

theorem unescape_escape (c : Char) (rest : List Char) : unescape (escape c ++ rest) = some (c, rest) := by
  unfold escape
  split
  · rename_i escaped named
    obtain ⟨front, back, split, -⟩ := List.lookup_eq_some_iff.mp named
    exact unescape_dct (c, escaped) (by rw [split]; simp) rest
  · rename_i unnamed
    split
    · rename_i control
      obtain ⟨a, b, c', d, digits, found⟩ := hex4_read c.toNat control
      rw [digits]
      show (List.find? _ _).map _ = _
      rw [found, Option.map_some, Char.ofNat_toNat]
      rfl
    · have plain : c ≠ '\\' := ne_of_not_named unnamed ('\\', ['\\', '\\']) (by decide)
      rw [List.singleton_append, unescape.eq_def]
      simp [plain]

theorem escape_apart (c c' : Char) (r r' : List Char) (same : escape c ++ r = escape c' ++ r') : c = c' ∧ r = r' := by
  have read := unescape_escape c r
  rw [same, unescape_escape, Option.some.injEq, Prod.mk.injEq] at read
  exact ⟨read.1.symm, read.2.symm⟩

theorem escape_begins (c : Char) : ∃ first rest, escape c = first :: rest ∧ first ≠ '"' := by
  unfold escape
  split
  · rename_i escaped named
    have slashed : ∀ pair ∈ escapeDct, pair.2.head? = some '\\' := by decide
    obtain ⟨front, back, split, -⟩ := List.lookup_eq_some_iff.mp named
    have head := slashed (c, escaped) (by rw [split]; simp)
    cases escaped with
    | nil => cases head
    | cons first rest => exact ⟨first, rest, rfl, by rw [Option.some.inj head]; decide⟩
  · rename_i unnamed
    split
    · exact ⟨_, _, rfl, by decide⟩
    · exact ⟨c, [], rfl, ne_of_not_named unnamed ('"', ['\\', '"']) (by decide)⟩

theorem basestring_apart {text text' : String} {r r' : List Char} (same : encodeBasestring text ++ r = encodeBasestring text' ++ r') :
    text = text' ∧ r = r' := by
  unfold encodeBasestring at same
  rw [List.cons_append, List.cons_append, List.append_assoc, List.append_assoc] at same
  obtain ⟨characters, left⟩ := flatMap_readsBack escape_apart escape_begins (List.cons.inj same).2
  exact ⟨String.toList_inj.mp characters, left⟩

def numeric (c : Char) : Bool := c.isDigit || c ∈ ['.', 'e', 'E', '+', '-']

theorem natural_numeric {digits : List Char} {n : ℕ} (reads : toInt.natural digits = some n) : ∀ c ∈ digits, c.isDigit = true := by
  unfold toInt.natural at reads
  split at reads
  · cases reads
  · rename_i decimal
    intro c member
    by_contra undecimal
    refine decimal (.inr (List.any_eq_true.mpr ⟨c, member, ?_⟩))
    rw [Bool.not_eq_true] at undecimal
    rw [undecimal]
    rfl

theorem digit_numeric {c : Char} (digit : c.isDigit = true) : numeric c = true := by
  unfold numeric
  rw [digit, Bool.true_or]

theorem toInt_plain {text : List Char} {n : ℤ} (reads : toInt text = some n) :
    ∀ c ∈ text, numeric c = true ∧ c ≠ '.' ∧ c ≠ 'e' := by
  have digit : ∀ {c : Char}, c.isDigit = true → numeric c = true ∧ c ≠ '.' ∧ c ≠ 'e' := by
    intro c digit
    refine ⟨digit_numeric digit, (not_mark digit).2, ?_⟩
    rintro rfl
    revert digit
    decide
  unfold toInt at reads
  split at reads
  all_goals
    obtain ⟨m, natural, -⟩ := Option.map_eq_some_iff.mp reads
    have decimal := natural_numeric natural
  · exact List.forall_mem_cons.mpr ⟨by decide, fun c member => digit (decimal c member)⟩
  · exact List.forall_mem_cons.mpr ⟨by decide, fun c member => digit (decimal c member)⟩
  · exact fun c member => digit (decimal c member)

theorem Layout.text_numeric {s : Shortest} (layout : Layout s) : ∀ c ∈ layout.text, numeric c = true := by
  intro c member
  unfold text at member
  rcases List.mem_append.mp member with front | back
  · unfold mantissa at front
    split at front
    · exact digit_numeric (layout.all_decimal front)
    · rcases List.mem_append.mp front with before | after
      · exact digit_numeric (layout.all_decimal (List.mem_of_mem_take before))
      · rcases List.mem_cons.mp after with rfl | after
        · rfl
        · exact digit_numeric (layout.all_decimal (List.mem_of_mem_drop after))
  · split at back
    · cases back
    · rename_i letter scale given
      rcases List.mem_cons.mp back with rfl | inside
      · rcases layout.letter _ given with same | same
        · rw [show c = 'e' from same]
          rfl
        · rw [show c = 'E' from same]
          rfl
      · exact (toInt_plain (layout.reads.2 _ given) c inside).1

theorem floatRepr_numeric (s : Shortest) : ∀ c ∈ floatRepr s, numeric c = true := by
  obtain ⟨layout, text⟩ := floatRepr_layout s
  rw [← text]
  exact layout.text_numeric

theorem floatRepr_marked (s : Shortest) : ∃ c ∈ floatRepr s, c = '.' ∨ c = 'e' := by
  unfold floatRepr
  dsimp only
  split
  · exact ⟨'e', by simp, .inr rfl⟩
  split
  · exact ⟨'.', by simp, .inl rfl⟩
  split
  · exact ⟨'.', by simp, .inl rfl⟩
  · exact ⟨'.', by simp, .inl rfl⟩

theorem floatRepr_begins (s : Shortest) : ∃ d rest, floatRepr s = d :: rest ∧ d.isDigit = true := by
  cases digits : s.digits with
  | nil => exact absurd digits s.nonempty
  | cons d ds =>
    have decimal : d.isDigit = true := s.decimal d (by rw [digits]; exact List.mem_cons_self)
    unfold floatRepr
    dsimp only
    rw [digits]
    split
    · exact ⟨d, _, rfl, decimal⟩
    split
    · exact ⟨'0', _, rfl, rfl⟩
    split
    · exact ⟨d, _, rfl, decimal⟩
    · rename_i positive _
      obtain ⟨n, place⟩ : ∃ n, (s.exponent + 1).toNat = n + 1 := Nat.exists_eq_succ_of_ne_zero (by omega)
      rw [place]
      exact ⟨d, _, rfl, decimal⟩

theorem floatRepr_ne_zero (s : Shortest) : floatRepr s ≠ ['0', '.', '0'] := by
  intro same
  obtain ⟨layout, text⟩ := floatRepr_layout s
  have read := layout.significant_text
  rw [text, same] at read
  have unread : significant ['0', '.', '0'] = none := by decide +kernel
  rw [unread] at read
  cases read

section Floats

variable {doubles : Doubles} {bits bits' : UInt64} {t : List Char}

def unsigned (doubles : Doubles) (m : ℕ) : List Char :=
  if m = 0 then ['0', '.', '0'] else floatRepr (doubles.shortest m)

theorem reprFloat_eq (written : reprFloat doubles bits = some t) :
    isFinite bits = true ∧ t = (if negative bits then ['-'] else []) ++ unsigned doubles (magnitude bits) := by
  unfold reprFloat at written
  split at written
  · rename_i finite
    exact ⟨finite, (Option.some.inj written).symm⟩
  · cases written

theorem unsigned_begins (doubles : Doubles) (m : ℕ) : ∃ d rest, unsigned doubles m = d :: rest ∧ d.isDigit = true := by
  unfold unsigned
  split
  · exact ⟨'0', _, rfl, rfl⟩
  · exact floatRepr_begins _

theorem unsigned_injective {m m' : ℕ} (finite : m < 0x7FF0000000000000) (finite' : m' < 0x7FF0000000000000)
    (same : unsigned doubles m = unsigned doubles m') : m = m' := by
  unfold unsigned at same
  split at same
  · rename_i zero
    split at same
    · rename_i zero'
      rw [zero, zero']
    · exact absurd same.symm (floatRepr_ne_zero _)
  · rename_i positive
    split at same
    · exact absurd same (floatRepr_ne_zero _)
    · rename_i positive'
      exact doubles.apart m m' (Nat.pos_of_ne_zero positive) finite (Nat.pos_of_ne_zero positive') finite'
        (floatRepr_injective same)

theorem bits_eq (magnitudes : magnitude bits = magnitude bits') (signs : negative bits = negative bits') : bits = bits' := by
  have bound := UInt64.toNat_lt bits
  have bound' := UInt64.toNat_lt bits'
  unfold magnitude at magnitudes
  unfold negative at signs
  rw [decide_eq_decide] at signs
  apply UInt64.toNat_inj.mp
  omega

theorem reprFloat_injective (written : reprFloat doubles bits = some t) (written' : reprFloat doubles bits' = some t) :
    bits = bits' := by
  obtain ⟨finite, text⟩ := reprFloat_eq written
  obtain ⟨finite', text'⟩ := reprFloat_eq written'
  obtain ⟨d, rest, begun, digit⟩ := unsigned_begins doubles (magnitude bits)
  obtain ⟨d', rest', begun', digit'⟩ := unsigned_begins doubles (magnitude bits')
  have minus : ∀ {c : Char}, c.isDigit = true → c ≠ '-' := by
    rintro c digit rfl
    revert digit
    decide
  have same := text.symm.trans text'
  have bound := of_decide_eq_true finite
  have bound' := of_decide_eq_true finite'
  cases sign : negative bits with
  | false =>
    cases sign' : negative bits' with
    | false =>
      rw [sign, sign'] at same
      exact bits_eq (unsigned_injective bound bound' same) (by rw [sign, sign'])
    | true =>
      rw [sign, sign', begun] at same
      exact absurd (List.cons.inj same).1 (minus digit)
  | true =>
    cases sign' : negative bits' with
    | false =>
      rw [sign, sign', begun'] at same
      exact absurd (List.cons.inj same).1.symm (minus digit')
    | true =>
      rw [sign, sign'] at same
      exact bits_eq (unsigned_injective bound bound' (List.cons.inj same).2) (by rw [sign, sign'])

theorem reprFloat_text (written : reprFloat doubles bits = some t) :
    (∀ c ∈ t, numeric c = true) ∧ (∃ c ∈ t, c = '.' ∨ c = 'e') ∧ t ≠ [] := by
  obtain ⟨-, rfl⟩ := reprFloat_eq written
  obtain ⟨d, rest, begun, -⟩ := unsigned_begins doubles (magnitude bits)
  have digits : (∀ c ∈ unsigned doubles (magnitude bits), numeric c = true) ∧
      ∃ c ∈ unsigned doubles (magnitude bits), c = '.' ∨ c = 'e' := by
    unfold unsigned
    split
    · exact ⟨List.all_eq_true.mp rfl, '.', by decide, .inl rfl⟩
    · exact ⟨floatRepr_numeric _, floatRepr_marked _⟩
  obtain ⟨c, member, marked⟩ := digits.2
  refine ⟨?_, ⟨c, List.mem_append_right _ member, marked⟩, ?_⟩
  · intro c member
    rcases List.mem_append.mp member with sign | digit
    · split at sign
      · rw [List.mem_singleton.mp sign]
        rfl
      · cases sign
    · exact digits.1 c digit
  · rw [begun]
    simp

end Floats

inductive Kind where
  | null | bool | number | text | array | object | other
  deriving DecidableEq

def kindOf (c : Char) : Kind :=
  if c = 'n' then .null else if c = 't' ∨ c = 'f' then .bool else if c = '"' then .text else if c = '[' then .array
  else if c = '\x7b' then .object else if numeric c then .number else .other

def jsonKind : Json → Kind
  | .null => .null
  | .bool _ => .bool
  | .int _ | .float _ => .number
  | .str _ => .text
  | .arr _ => .array
  | .obj _ => .object

def Stops (c : Char) : Prop := c = ',' ∨ c = ']' ∨ c = '\x7d'

theorem kindOf_numeric {c : Char} (number : numeric c = true) : kindOf c = .number ∧ ¬ Stops c := by
  have unnumeric : ∀ c' ∈ ['n', 't', 'f', '"', '[', '\x7b', ',', ']', '\x7d'], (!numeric c') = true :=
    List.all_eq_true.mp rfl
  have each : ∀ c' ∈ ['n', 't', 'f', '"', '[', '\x7b', ',', ']', '\x7d'], c ≠ c' := by
    rintro c' member rfl
    have other := unnumeric c member
    rw [number] at other
    cases other
  simp only [List.forall_mem_cons] at each
  obtain ⟨n, t, f, quotation, opening, brace, comma, closing, ending, -⟩ := each
  unfold kindOf Stops
  simp [n, t, f, quotation, opening, brace, comma, closing, ending, number]

variable {doubles : Doubles}

theorem number_begins {t : List Char} (numbers : ∀ c ∈ t, numeric c = true) (nonempty : t ≠ []) :
    ∃ c rest, t = c :: rest ∧ kindOf c = .number := by
  cases t with
  | nil => exact absurd rfl nonempty
  | cons c rest => exact ⟨c, rest, rfl, (kindOf_numeric (numbers c List.mem_cons_self)).1⟩

theorem int_text (n : Int) : (∀ c ∈ (toString n).toList, numeric c = true ∧ c ≠ '.' ∧ c ≠ 'e') ∧ (toString n).toList ≠ [] := by
  refine ⟨toInt_plain (toInt_toString n), fun empty => ?_⟩
  have reads := toInt_toString n
  rw [empty] at reads
  have unread : toInt [] = none := by decide
  rw [unread] at reads
  cases reads

theorem dumps_begins {v : Json} {t : List Char} (written : dumps doubles v = some t) :
    ∃ c rest, t = c :: rest ∧ kindOf c = jsonKind v := by
  cases v with
  | null =>
    rw [dumps] at written
    exact ⟨_, _, (Option.some.inj written).symm, rfl⟩
  | bool b =>
    rw [dumps] at written
    cases b with
    | false => exact ⟨_, _, (Option.some.inj written).symm, rfl⟩
    | true => exact ⟨_, _, (Option.some.inj written).symm, rfl⟩
  | int n =>
    rw [dumps] at written
    rw [← Option.some.inj written]
    exact number_begins (fun c member => ((int_text n).1 c member).1) (int_text n).2
  | float bits =>
    rw [dumps] at written
    obtain ⟨numbers, -, nonempty⟩ := reprFloat_text written
    exact number_begins numbers nonempty
  | str text =>
    rw [dumps] at written
    exact ⟨_, _, (Option.some.inj written).symm, rfl⟩
  | arr items =>
    rw [dumps] at written
    obtain ⟨texts, -, rfl⟩ := Option.map_eq_some_iff.mp written
    exact ⟨_, _, rfl, rfl⟩
  | obj fields =>
    rw [dumps] at written
    obtain ⟨texts, -, rfl⟩ := Option.map_eq_some_iff.mp written
    exact ⟨_, _, rfl, rfl⟩

theorem begins_open {v : Json} {t : List Char} (written : dumps doubles v = some t) :
    ∃ c rest, t = c :: rest ∧ c ≠ ']' := by
  obtain ⟨c, rest, begun, kind⟩ := dumps_begins written
  refine ⟨c, rest, begun, ?_⟩
  rintro rfl
  have closing : kindOf ']' = .other := by decide
  rw [closing] at kind
  cases v <;> cases kind

theorem jsonKind_eq {a b : Json} {t u r r' : List Char} (written : dumps doubles a = some t)
    (written' : dumps doubles b = some u) (same : t ++ r = u ++ r') : jsonKind a = jsonKind b := by
  obtain ⟨c, rest, rfl, kind⟩ := dumps_begins written
  obtain ⟨c', rest', rfl, kind'⟩ := dumps_begins written'
  rw [← kind, ← kind', (List.cons.inj same).1]

theorem dumpsAll_eq {items : List Json} {texts : List (List Char)} (written : dumpsAll doubles items = some texts) :
    List.Forall₂ (fun v t => dumps doubles v = some t) items texts := by
  induction items generalizing texts with
  | nil =>
    rw [dumpsAll] at written
    cases written
    exact .nil
  | cons v rest ih =>
    simp only [dumpsAll, Option.bind_eq_bind, Option.bind_eq_some_iff] at written
    obtain ⟨t, here, ts, others, whole⟩ := written
    cases whole
    exact .cons here (ih others)

theorem dumpsFields_eq {fields : List (String × Json)} {written : List (String × List Char)}
    (writes : dumpsFields doubles fields = some written) :
    List.Forall₂ (fun p w => w.1 = p.1 ∧ dumps doubles p.2 = some w.2) fields written := by
  induction fields generalizing written with
  | nil =>
    rw [dumpsFields] at writes
    cases writes
    exact .nil
  | cons p rest ih =>
    simp only [dumpsFields, Option.bind_eq_bind, Option.bind_eq_some_iff] at writes
    obtain ⟨t, here, ws, others, whole⟩ := writes
    cases whole
    exact .cons ⟨rfl, here⟩ (ih others)

def WritesField (doubles : Doubles) (p : String × Json) (t : List Char) : Prop :=
  ∃ text, dumps doubles p.2 = some text ∧ t = field (p.1, text)

theorem sortKeys_fields {fields : List (String × Json)} {written : List (String × List Char)}
    (writes : dumpsFields doubles fields = some written) :
    ∃ ordered, fields.Perm ordered ∧ List.Forall₂ (WritesField doubles) ordered ((sortKeys written).map field) := by
  have each := (dumpsFields_eq writes).flip
  obtain ⟨ordered, all, perm⟩ := List.perm_comp_forall₂ (List.perm_insertionSort (fun a b => a.1 ≤ b.1) written) each
  refine ⟨ordered, perm.symm, List.forall₂_map_right_iff.mpr (all.flip.imp ?_)⟩
  rintro p w ⟨key, text⟩
  exact ⟨w.2, text, by rw [← key]⟩

theorem field_readsBack {p : String × Json} (value : ReadsBack (fun v t => dumps doubles v = some t) Same (StopsAt Stops) p.2) :
    ReadsBack (WritesField doubles) (fun p q => p.1 = q.1 ∧ Same p.2 q.2) (StopsAt Stops) p := by
  rintro q t u r r' ⟨text, writes, rfl⟩ ⟨text', writes', rfl⟩ stop stop' same
  unfold field at same
  rw [List.append_assoc, List.append_assoc] at same
  obtain ⟨key, left⟩ := basestring_apart same
  obtain ⟨one, ends⟩ := value q.2 text text' r r' writes writes' stop stop' (List.cons.inj left).2
  exact ⟨⟨key, one⟩, ends⟩

theorem numbers_readsBack {t u r r' : List Char} (numbers : ∀ c ∈ t, numeric c = true) (numbers' : ∀ c ∈ u, numeric c = true)
    (stop : StopsAt Stops r) (stop' : StopsAt Stops r') (same : t ++ r = u ++ r') : t = u ∧ r = r' :=
  run_eq_of_append_eq (fun c member => (kindOf_numeric (numbers c member)).2)
    (fun c member => (kindOf_numeric (numbers' c member)).2) stop stop' same

theorem dumps_readsBack (v : Json) : ReadsBack (fun v t => dumps doubles v = some t) Same (StopsAt Stops) v := by
  induction v using json_induction with
  | null =>
    intro b t u r r' written written' stop stop' same
    have kind := jsonKind_eq written written' same
    cases b with
    | null =>
      rw [written, Option.some.injEq] at written'
      rw [written'] at same
      exact ⟨.null, List.append_cancel_left same⟩
    | _ => cases kind
  | bool b =>
    intro b' t u r r' written written' stop stop' same
    have kind := jsonKind_eq written written' same
    cases b' with
    | bool b' =>
      rw [dumps, Option.some.injEq] at written written'
      subst written written'
      cases b with
      | false =>
        cases b' with
        | false => exact ⟨.bool false, List.append_cancel_left same⟩
        | true => exact absurd (List.cons.inj same).1 (by decide)
      | true =>
        cases b' with
        | false => exact absurd (List.cons.inj same).1 (by decide)
        | true => exact ⟨.bool true, List.append_cancel_left same⟩
    | _ => cases kind
  | int n =>
    intro b t u r r' written written' stop stop' same
    have kind := jsonKind_eq written written' same
    rw [dumps, Option.some.injEq] at written
    subst written
    have plain := (int_text n).1
    have numbers : ∀ c ∈ (toString n).toList, numeric c = true := fun c member => (plain c member).1
    cases b with
    | int n' =>
      rw [dumps, Option.some.injEq] at written'
      subst written'
      obtain ⟨texts, ends⟩ := numbers_readsBack numbers (fun c member => ((int_text n').1 c member).1) stop stop' same
      have value := toInt_toString n
      rw [texts, toInt_toString, Option.some.injEq] at value
      rw [value]
      exact ⟨.int n, ends⟩
    | float bits =>
      rw [dumps] at written'
      obtain ⟨numbers', ⟨c, member, marked⟩, -⟩ := reprFloat_text written'
      obtain ⟨texts, -⟩ := numbers_readsBack numbers numbers' stop stop' same
      rw [← texts] at member
      obtain ⟨-, point, letter⟩ := plain c member
      rcases marked with rfl | rfl
      · exact absurd rfl point
      · exact absurd rfl letter
    | _ => cases kind
  | float bits =>
    intro b t u r r' written written' stop stop' same
    have kind := jsonKind_eq written written' same
    rw [dumps] at written
    obtain ⟨numbers, ⟨c, member, marked⟩, -⟩ := reprFloat_text written
    cases b with
    | int n =>
      rw [dumps, Option.some.injEq] at written'
      subst written'
      have plain := (int_text n).1
      obtain ⟨texts, -⟩ := numbers_readsBack numbers (fun c member => (plain c member).1) stop stop' same
      rw [texts] at member
      obtain ⟨-, point, letter⟩ := plain c member
      rcases marked with rfl | rfl
      · exact absurd rfl point
      · exact absurd rfl letter
    | float bits' =>
      rw [dumps] at written'
      obtain ⟨rfl, ends⟩ := numbers_readsBack numbers (reprFloat_text written').1 stop stop' same
      rw [reprFloat_injective written written']
      exact ⟨.float bits', ends⟩
    | _ => cases kind
  | str text =>
    intro b t u r r' written written' stop stop' same
    have kind := jsonKind_eq written written' same
    cases b with
    | str text' =>
      rw [dumps, Option.some.injEq] at written written'
      subst written written'
      obtain ⟨rfl, ends⟩ := basestring_apart same
      exact ⟨.str text, ends⟩
    | _ => cases kind
  | arr items ih =>
    intro b t u r r' written written' stop stop' same
    have kind := jsonKind_eq written written' same
    cases b with
    | arr items' =>
      rw [dumps] at written written'
      obtain ⟨texts, all, rfl⟩ := Option.map_eq_some_iff.mp written
      obtain ⟨texts', all', rfl⟩ := Option.map_eq_some_iff.mp written'
      unfold bracket at same
      rw [List.cons_append, List.cons_append, List.append_assoc, List.append_assoc] at same
      obtain ⟨each, ends⟩ := joined_readsBack (by decide) (fun _ => .inl rfl) (fun _ => .inr (.inl rfl))
        (fun _ _ => begins_open) ih (dumpsAll_eq all) (dumpsAll_eq all') (List.cons.inj same).2
      exact ⟨.arr each, ends⟩
    | _ => cases kind
  | obj fields ih =>
    intro b t u r r' written written' stop stop' same
    have kind := jsonKind_eq written written' same
    cases b with
    | obj fields' =>
      rw [dumps] at written written'
      obtain ⟨texts, all, rfl⟩ := Option.map_eq_some_iff.mp written
      obtain ⟨texts', all', rfl⟩ := Option.map_eq_some_iff.mp written'
      obtain ⟨ordered, perm, writes⟩ := sortKeys_fields all
      obtain ⟨ordered', perm', writes'⟩ := sortKeys_fields all'
      unfold bracket at same
      rw [List.cons_append, List.cons_append, List.append_assoc, List.append_assoc] at same
      have each : ∀ p ∈ ordered, ReadsBack (WritesField doubles) (fun p q => p.1 = q.1 ∧ Same p.2 q.2) (StopsAt Stops) p :=
        fun p member => field_readsBack (ih p.2 (List.mem_map_of_mem (perm.mem_iff.mpr member)))
      have begins : ∀ p t, WritesField doubles p t → ∃ c rest, t = c :: rest ∧ c ≠ '\x7d' := by
        rintro p t ⟨text, -, rfl⟩
        exact ⟨_, _, rfl, by decide⟩
      obtain ⟨all, ends⟩ := joined_readsBack (by decide) (fun _ => .inl rfl) (fun _ => .inr (.inr rfl)) begins each writes writes'
        (List.cons.inj same).2
      have keys : ordered.map Prod.fst = ordered'.map Prod.fst :=
        List.forall₂_eq_eq_eq ▸ List.forall₂_map_left_iff.mpr (List.forall₂_map_right_iff.mpr (all.imp fun _ _ one => one.1))
      have values : List.Forall₂ Same (ordered.map Prod.snd) (ordered'.map Prod.snd) :=
        List.forall₂_map_left_iff.mpr (List.forall₂_map_right_iff.mpr (all.imp fun _ _ one => one.2))
      exact ⟨.obj perm perm' keys values, ends⟩
    | _ => cases kind

theorem same_of_canonicalJson {a b : Json} {bytes : Bytes} (written : canonicalJson doubles a = some bytes)
    (written' : canonicalJson doubles b = some bytes) : Same a b := by
  obtain ⟨t, dumped, rfl⟩ := Option.map_eq_some_iff.mp written
  obtain ⟨u, dumped', same⟩ := Option.map_eq_some_iff.mp written'
  have texts : u = t := String.ofList_inj.mp (Core.utf8_injective same)
  exact (dumps_readsBack a b t u [] [] dumped dumped' trivial trivial (by rw [texts])).1

end DataCollectionLab.Crypto
