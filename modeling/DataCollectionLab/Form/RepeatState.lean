import DataCollectionLab.Form.Dates
import DataCollectionLab.Form.Formed
import DataCollectionLab.Form.Runtime
import DataCollectionLab.Lib.Stateful

/-!
The rows of the repeats and the keys of the values, over every call: what a call may do to them, also one
that raises.
-/

namespace DataCollectionLab.Form

open Lib

section Serials

theorem mapM_digits {ds : List Char} (digits : ∀ c ∈ ds, c.isDigit = true) :
    (ds.mapM fun c => Reference.digitOf c.toNat) = some (ds.map fun c => c.toNat - 0x30) := by
  induction ds with
  | nil => rfl
  | cons c rest ih =>
    rw [List.mapM_cons, digitOf_digit (digits c List.mem_cons_self),
      ih fun c member => digits c (List.mem_cons_of_mem _ member)]
    rfl

@[simp] theorem serialOf_minted (n : ℕ) : serialOf ("i" ++ toString n) = some n := by
  have chars : ("i" ++ toString n).toList = 'i' :: Nat.toDigits 10 n := by
    rw [String.toList_append]
    show 'i' :: n.repr.toList = _
    rw [Nat.toList_repr]
  have folded (ds : List Char) (start : ℕ) :
      (ds.map fun c => c.toNat - 0x30).foldl (fun n d => n * 10 + d) start = Nat.ofDigitChars 10 ds start := by
    induction ds generalizing start with
    | nil => rfl
    | cons c rest ih =>
      rw [List.map_cons, List.foldl_cons, ih, Nat.ofDigitChars_cons, Nat.mul_comm]
      rfl
  unfold serialOf
  rw [chars]
  simp only [Nat.toDigits_ne_nil, if_false]
  rw [mapM_digits fun c member => Nat.isDigit_of_mem_toDigits (by decide) (by decide) member]
  simp only [Option.map_some, Numeral.natOfDigits]
  rw [folded, Nat.ofDigitChars_ten_toDigits]

theorem increasing_of_pairwise {l : List ℕ} (sorted : l.Pairwise (· < ·)) : increasing l = true := by
  induction l with
  | nil => rfl
  | cons a rest ih =>
    cases rest with
    | nil => rfl
    | cons b rest =>
      have tail := List.pairwise_cons.mp sorted
      rw [increasing, ih tail.2, decide_eq_true (tail.1 b List.mem_cons_self)]
      rfl

theorem filterMap_of_mapM {α β : Type} {f : α → Option β} {l : List α} {r : List β} (mapped : l.mapM f = some r) :
    l.filterMap f = r := by
  induction l generalizing r with
  | nil =>
    obtain rfl := Option.some.inj mapped
    rfl
  | cons a rest ih =>
    rw [List.mapM_cons] at mapped
    obtain ⟨b, first, mapped⟩ := Option.bind_eq_some_iff.mp mapped
    obtain ⟨others, later, mapped⟩ := Option.bind_eq_some_iff.mp mapped
    obtain rfl := Option.some.inj mapped
    rw [List.filterMap_cons_some first, ih later]

end Serials

def Keyed (form : CompiledForm) (s : FormInstance) (path : String) : Prop :=
  (∃ cf ∈ form.fields, cf.repeatId = none ∧ path = cf.fieldId) ∨
    ∃ cf ∈ form.fields, ∃ rid, cf.repeatId = some rid ∧ ∃ iid ∈ s.rows rid, path = instancePath rid iid cf.fieldId

def serialsIn (s : FormInstance) (rid : String) : List ℕ := (s.rows rid).filterMap serialOf

structure WellFormed (form : CompiledForm) (s : FormInstance) : Prop where
  repeats : ∀ rid, (s.instances rid).isSome ↔ (form.repeat? rid).isSome
  increasing : ∀ rid, (serialsIn s rid).Pairwise (· < ·)
  bounded : ∀ rid, ∀ n ∈ serialsIn s rid, n ≤ s.serial
  distinct : ∀ rid, (s.rows rid).Nodup
  apart : ∀ rid rid', rid ≠ rid' → ∀ iid ∈ s.rows rid, (serialOf iid).isSome → iid ∉ s.rows rid'
  values : ∀ path, (s.values path).isSome ↔ Keyed form s path
  states : ∀ path, (s.states path).isSome ↔ Keyed form s path
  floor : ∀ node ∈ form.repeats, node.countExpr = none → node.rowSource = none →
    node.minInstances.getD 0 ≤ (s.rows node.id).length

section Rows

@[simp] theorem rows_setRows (s : FormInstance) (rid other : String) (ordered : List String) :
    (s.setRows rid ordered).rows other = if other = rid then ordered else s.rows other := by
  unfold FormInstance.rows FormInstance.setRows
  by_cases same : other = rid <;> simp [same]

variable {form : CompiledForm}

theorem cellAt_isSome_iff {rid iid path : String} : (cellAt form rid iid path).isSome ↔
    ∃ cf ∈ form.fields, cf.repeatId = some rid ∧ path = instancePath rid iid cf.fieldId := by
  simp only [cellAt, CompiledForm.fieldsOf, List.find?_isSome, List.mem_filter, decide_eq_true_eq]
  constructor
  · rintro ⟨cf, ⟨member, inside⟩, same⟩
    exact ⟨cf, member, inside, same.symm⟩
  · rintro ⟨cf, member, inside, same⟩
    exact ⟨cf, ⟨member, inside⟩, same.symm⟩

theorem keyed_row (formed : Formed form) {s : FormInstance} {rid iid path : String}
    (cell : (cellAt form rid iid path).isSome) : Keyed form s path ↔ iid ∈ s.rows rid := by
  obtain ⟨cf, member, inside, rfl⟩ := cellAt_isSome_iff.mp cell
  obtain ⟨node, listed, rfl⟩ := formed.within cf member rid inside
  constructor
  · rintro (⟨cf', member', -, same⟩ | ⟨cf', member', rid', inside', iid', within, same⟩)
    · exact absurd same (instancePath_ne (formed.plain cf' member'))
    · obtain ⟨node', listed', rfl⟩ := formed.within cf' member' rid' inside'
      obtain ⟨repeats, rfl, -⟩ := instancePath_injective (formed.plainRepeats node listed) (formed.plain cf member)
        (formed.plainRepeats node' listed') (formed.plain cf' member') same
      rwa [repeats]
  · intro within
    exact Or.inr ⟨cf, member, node.id, inside, iid, within, rfl⟩

theorem keyed_other {s s' : FormInstance} {rid iid path : String}
    (rows : ∀ other iid', ¬ (other = rid ∧ iid' = iid) → (iid' ∈ s'.rows other ↔ iid' ∈ s.rows other))
    (cell : ¬ (cellAt form rid iid path).isSome) : Keyed form s' path ↔ Keyed form s path := by
  unfold Keyed
  refine or_congr Iff.rfl (exists_congr fun cf => and_congr_right fun member => exists_congr fun other =>
    and_congr_right fun inside => exists_congr fun iid' => ?_)
  by_cases here : other = rid ∧ iid' = iid
  · obtain ⟨rfl, rfl⟩ := here
    have none : path ≠ instancePath other iid' cf.fieldId := fun same =>
      cell (cellAt_isSome_iff.mpr ⟨cf, member, inside, same⟩)
    simp [none]
  · rw [rows other iid' here]

variable {s : FormInstance}

theorem assertCreationOrder_ok {rid : String} (sorted : (serialsIn s rid).Pairwise (· < ·)) :
    assertCreationOrder rid s = .ok () s := by
  rw [assertCreationOrder, Lib.apply_get_bind]
  cases mapped : (s.rows rid).mapM serialOf with
  | none => rfl
  | some serials =>
    have same := filterMap_of_mapM mapped
    rw [serialsIn, same] at sorted
    simp only [increasing_of_pairwise sorted, if_true]
    rfl

def opened (form : CompiledForm) (rid iid : String) (serial : ℕ) (s : FormInstance) : FormInstance :=
  { openCells form rid iid (s.setRows rid (s.rows rid ++ [iid])) with serial := serial }

@[simp] theorem rows_opened (rid iid : String) (serial : ℕ) (other : String) :
    (opened form rid iid serial s).rows other = if other = rid then s.rows rid ++ [iid] else s.rows other :=
  rows_setRows s rid other _

theorem serialsIn_opened (rid iid : String) (serial : ℕ) (other : String) :
    serialsIn (opened form rid iid serial s) other =
      if other = rid then serialsIn s rid ++ (serialOf iid).toList else serialsIn s other := by
  unfold serialsIn
  rw [rows_opened]
  split
  · rw [List.filterMap_append, List.filterMap_cons]
    cases serialOf iid <;> rfl
  · rfl

/-- An id that a repeat may take: a minted one is above those it has, and no other repeat holds it. -/
structure Follows (s : FormInstance) (rid iid : String) : Prop where
  new : iid ∉ s.rows rid
  above : ∀ n, serialOf iid = some n → ∀ m ∈ serialsIn s rid, m < n
  alone : (serialOf iid).isSome → ∀ other, other ≠ rid → iid ∉ s.rows other

theorem opened_wellFormed (formed : Formed form) (well : WellFormed form s) {rid iid : String} {serial : ℕ}
    (listed : (form.repeat? rid).isSome) (follows : Follows s rid iid) (later : s.serial ≤ serial)
    (covered : ∀ n, serialOf iid = some n → n ≤ serial) : WellFormed form (opened form rid iid serial s) := by
  have keys {path : String} : Keyed form (opened form rid iid serial s) path ↔
      (cellAt form rid iid path).isSome ∨ Keyed form s path := by
    by_cases cell : (cellAt form rid iid path).isSome
    · rw [keyed_row formed cell, rows_opened]
      simp [cell]
    · have others := @keyed_other form s (opened form rid iid serial s) rid iid path
        (fun other iid' apart => by
          rw [rows_opened]
          split
          · rename_i same
            subst same
            have different : iid' ≠ iid := fun same => apart ⟨rfl, same⟩
            simp [different]
          · rfl) cell
      rw [others]
      simp [cell]
  refine ⟨?_, ?_, ?_, ?_, ?_, ?_, ?_, ?_⟩
  · intro other
    show ((s.setRows rid _).instances other).isSome ↔ _
    unfold FormInstance.setRows
    by_cases same : other = rid
    · subst same
      simp [listed]
    · simp only [same, if_false]
      exact well.repeats other
  · intro other
    rw [serialsIn_opened]
    split
    · refine List.pairwise_append.mpr ⟨well.increasing rid, ?_, ?_⟩
      · cases serialOf iid <;> simp
      · intro m within n last
        exact follows.above n (by simpa using last) m within
    · exact well.increasing other
  · intro other n member
    rw [serialsIn_opened] at member
    split at member
    · rcases List.mem_append.mp member with old | last
      · exact (well.bounded rid n old).trans later
      · exact covered n (by simpa using last)
    · exact (well.bounded other n member).trans later
  · intro other
    rw [rows_opened]
    split
    · exact List.nodup_append_comm.mp (List.nodup_cons.mpr ⟨follows.new, well.distinct rid⟩)
    · exact well.distinct other
  · intro first second different held within minted
    rw [rows_opened] at within
    rw [rows_opened]
    split at within
    · rename_i same
      subst same
      rw [if_neg fun back => different back.symm]
      rcases List.mem_append.mp within with old | last
      · exact well.apart first second different held old minted
      · obtain rfl := List.mem_singleton.mp last
        exact follows.alone minted second fun back => different back.symm
    · split
      · rename_i same
        subst same
        intro member
        rcases List.mem_append.mp member with old | last
        · exact well.apart first second different held within minted old
        · obtain rfl := List.mem_singleton.mp last
          exact follows.alone minted first different within
      · exact well.apart first second different held within minted
  · intro path
    rw [keys, ← well.values path]
    show ((if (cellAt form rid iid path).isSome then some Value.null else s.values path).isSome = true) ↔ _
    split
    · rename_i cell
      simp [cell]
    · rename_i cell
      simp [cell]
  · intro path
    rw [keys, ← well.states path]
    cases cell : cellAt form rid iid path with
    | some cf => simp [opened, openCells, cell]
    | none =>
      simp only [opened, openCells, cell, Option.isSome_none, Bool.false_eq_true, false_or]
      rfl
  · intro node member free unsourced
    rw [rows_opened]
    have floor := well.floor node member free unsourced
    split
    · rename_i same
      rw [same] at floor
      rw [List.length_append]
      push_cast
      omega
    · exact floor

end Rows

section Frames

/-- What the state of a field and the value of one that has a state do not matter to. -/
structure Framed (P : FormInstance → Prop) : Prop where
  state : ∀ s path change, P s → P (s.changeState path change)
  value : ∀ s path value, P s → (s.states path).isSome → P (s.setValue path value)

def Allows {α : Type} (E : Failure → FormInstance → Prop) (s : FormInstance) (x : Except Failure α) : Prop :=
  ∀ e, x = .error e → E e s

section Steps

variable {α β : Type} {P : FormInstance → Prop} {E : Failure → FormInstance → Prop}

theorem pure_triple (a : α) : Triple P (pure a : Run α) (fun _ => P) E := fun _ holds => holds

theorem throw_triple {e : Failure} (allowed : ∀ s, P s → E e s) : Triple P (throw e : Run α) (fun _ => P) E := allowed

theorem read_triple {x : FormInstance → Except Failure α} {f : FormInstance → α → Run β} {R : β → FormInstance → Prop}
    (allowed : ∀ s, P s → Allows E s (x s)) (later : ∀ s a, Triple (fun s' => P s' ∧ s' = s) (f s a) R E) :
    Triple P ((get : Run FormInstance) >>= fun s => Run.lift (x s) >>= f s) R E := by
  refine Triple.get_bind fun s holds => ?_
  cases outcome : x s with
  | ok a =>
    intro s' same
    exact later s a s' ⟨same ▸ holds, same⟩
  | error e =>
    rintro s' rfl
    exact allowed s' holds e outcome

theorem read_step {x : FormInstance → Except Failure α} {f : α → Run β} {R : β → FormInstance → Prop}
    (allowed : ∀ s, P s → Allows E s (x s)) (later : ∀ a, Triple P (f a) R E) :
    Triple P ((get : Run FormInstance) >>= fun s => Run.lift (x s) >>= f) R E :=
  read_triple (f := fun _ => f) allowed fun _ a => Triple.mono (later a) (fun _ holds => holds.1) (fun _ _ => id)
    fun _ _ => id

end Steps

theorem changeState_isSome {s : FormInstance} {path other : String} {change : FieldState → FieldState} :
    ((s.changeState path change).states other).isSome = (s.states other).isSome := by
  unfold FormInstance.changeState
  by_cases same : other = path <;> simp [same]

section Field

variable (evaluate : Context → Expr → Except Failure Value) (form : CompiledForm) (session : Session)
  (cf : CompiledField) (path : String) (scope : Option (String × String))

structure FieldAllowed (P : FormInstance → Prop) (E : Failure → FormInstance → Prop) : Prop where
  others : ∀ s e, P s → (∀ message, e ≠ .compile message) → E e s
  relevant : ∀ s, P s → Allows E s (fieldRelevant evaluate form (s.context session scope) cf)
  calculate : ∀ s expr, P s → cf.node.calculate = some expr → Allows E s (evaluate (s.context session scope) expr)
  required : ∀ s, P s → Allows E s (flagOf evaluate (s.context session scope) cf.node.required)
  readOnly : ∀ s, P s → Allows E s (flagOf evaluate (s.context session scope) cf.node.readOnly)
  choices : ∀ s value, P s → Allows E s (Reference.outsideChoices evaluate form session s cf scope value)
  constraint : ∀ s expr, P s → cf.node.constraint = some expr →
    Allows E s (decideAt evaluate true (s.context session scope) expr)

variable {evaluate form session cf scope} {P : FormInstance → Prop} {E : Failure → FormInstance → Prop}

theorem FieldAllowed.mono {R : FormInstance → Prop} (allowed : FieldAllowed evaluate form session cf scope P E)
    (stronger : ∀ s, R s → P s) : FieldAllowed evaluate form session cf scope R E where
  others s e holds := allowed.others s e (stronger s holds)
  relevant s holds := allowed.relevant s (stronger s holds)
  calculate s expr holds := allowed.calculate s expr (stronger s holds)
  required s holds := allowed.required s (stronger s holds)
  readOnly s holds := allowed.readOnly s (stronger s holds)
  choices s value holds := allowed.choices s value (stronger s holds)
  constraint s expr holds := allowed.constraint s expr (stronger s holds)

theorem fieldAllowed_any (cf : CompiledField) (scope : Option (String × String)) (P : FormInstance → Prop) :
    FieldAllowed evaluate form session cf scope P fun _ _ => True :=
  ⟨fun _ _ _ _ => trivial, fun _ _ _ _ => trivial, fun _ _ _ _ _ _ => trivial, fun _ _ _ _ => trivial,
    fun _ _ _ _ => trivial, fun _ _ _ _ _ => trivial, fun _ _ _ _ _ _ => trivial⟩

/-- What no change to one field matters to that leaves its relevance; only a calculate writes its value. -/
structure FramedAt (cf : CompiledField) (path : String) (P : FormInstance → Prop) : Prop where
  state : ∀ s change, (∀ state, (change state).relevant = state.relevant) → P s → P (s.changeState path change)
  value : cf.node.calculate.isSome → ∀ s value, P s → (s.states path).isSome → P (s.setValue path value)

theorem Framed.at_path (framed : Framed P) : FramedAt cf path P :=
  ⟨fun s change _ => framed.state s path change, fun _ s => framed.value s path⟩

variable (allowed : FieldAllowed evaluate form session cf scope P E)

include allowed

theorem settleField_triple (framed : FramedAt cf path P) (relevant : Bool) :
    Triple (fun s => P s ∧ (s.states path).isSome)
      (Reference.settleField evaluate form session cf path scope relevant) (fun _ => P) E := by
  have changes (f : FieldState → FieldState) (keeps : ∀ state, (f state).relevant = state.relevant) :
      Triple (fun s => P s ∧ (s.states path).isSome) (Reference.change path f)
        (fun _ s => P s ∧ (s.states path).isSome) E :=
    fun s holds => ⟨framed.state s f keeps holds.1, by rw [changeState_isSome]; exact holds.2⟩
  have calculated : Triple (fun s => P s ∧ (s.states path).isSome)
      (Reference.calculateValue evaluate session cf path scope relevant)
      (fun _ s => P s ∧ (s.states path).isSome) E := by
    unfold Reference.calculateValue
    split
    · rename_i expr given
      refine read_step (fun s holds => allowed.calculate s expr holds.1 given) fun value => ?_
      exact fun s holds => ⟨framed.value (by rw [given]; rfl) s value holds.1 holds.2, holds.2⟩
    · exact pure_triple _
  have taken : Triple (fun s => P s ∧ (s.states path).isSome) (Reference.takeValue path)
      (fun _ s => P s ∧ (s.states path).isSome) E := by
    refine Triple.get_bind fun s holds => ?_
    refine Triple.mono (?_ : Triple (fun s => P s ∧ (s.states path).isSome) _ _ E) (fun s' same => same ▸ holds)
      (fun _ _ => id) fun _ _ => id
    split
    · exact throw_triple fun s holds => allowed.others s _ holds.1 nofun
    · exact Triple.bind (changes _ fun _ => rfl) fun _ => pure_triple _
  have flags : Triple (fun s => P s ∧ (s.states path).isSome)
      (Reference.markFlags evaluate session cf path scope) (fun _ s => P s ∧ (s.states path).isSome) E := by
    refine read_step (fun s holds => allowed.required s holds.1) fun required => ?_
    refine Triple.bind (changes _ fun _ => rfl) fun _ =>
      read_step (fun s holds => allowed.readOnly s holds.1) fun readOnly => ?_
    exact Triple.bind (changes _ fun _ => rfl) fun _ => pure_triple _
  have required (required : Bool) (value : Value) : Triple (fun s => P s ∧ (s.states path).isSome)
      (Reference.checkRequired path required value) (fun _ s => P s ∧ (s.states path).isSome) E := by
    unfold Reference.checkRequired
    split
    · exact changes _ fun _ => rfl
    · exact pure_triple _
  have choices (value : Value) : Triple (fun s => P s ∧ (s.states path).isSome)
      (Reference.checkChoices evaluate form session cf path scope value)
      (fun _ s => P s ∧ (s.states path).isSome) E := by
    unfold Reference.checkChoices
    split
    · exact pure_triple _
    · refine read_step (fun s holds => allowed.choices s value holds.1) fun outside => ?_
      split
      · exact changes _ fun _ => rfl
      · exact pure_triple _
  have constraint (value : Value) : Triple (fun s => P s ∧ (s.states path).isSome)
      (Reference.checkConstraint evaluate session cf path scope value)
      (fun _ s => P s ∧ (s.states path).isSome) E := by
    unfold Reference.checkConstraint
    split
    · rename_i expr given nonnull
      refine read_step (fun s holds => allowed.constraint s expr holds.1 given) fun holds => ?_
      split
      · exact changes _ fun _ => rfl
      · exact pure_triple _
    · exact pure_triple _
  have whole := Triple.bind calculated fun _ => Triple.bind taken fun value => Triple.bind flags fun needed =>
    show Triple _ (if relevant then
      (do Reference.checkRequired path needed value
          Reference.checkChoices evaluate form session cf path scope value
          Reference.checkConstraint evaluate session cf path scope value : Run Unit) else pure ()) _ E from by
      split
      · exact Triple.bind (required needed value) fun _ => Triple.bind (choices value) fun _ => constraint value
      · exact pure_triple _
  exact Triple.mono whole (fun _ => id) (fun _ _ kept => kept.1) fun _ _ => id

theorem evaluateField_triple (framed : Framed P) :
    Triple P (Reference.evaluateField evaluate form session cf path scope) (fun _ => P) E := by
  have changes (f : FieldState → FieldState) : Triple (fun s => P s ∧ (s.states path).isSome)
      (Reference.change path f) (fun _ s => P s ∧ (s.states path).isSome) E :=
    fun s holds => ⟨framed.state s path f holds.1, by rw [changeState_isSome]; exact holds.2⟩
  have relevance : Triple (fun s => P s ∧ (s.states path).isSome)
      (Reference.markRelevant evaluate form session cf path scope) (fun _ s => P s ∧ (s.states path).isSome) E := by
    refine Triple.bind (changes _) fun _ => read_step (fun s holds => allowed.relevant s holds.1) fun relevant => ?_
    exact Triple.bind (changes _) fun _ => pure_triple _
  rw [Reference.evaluateField_eq]
  refine Triple.get_bind fun s holds => ?_
  by_cases has : (s.states path).isNone
  · rw [if_pos has]
    exact fun s' same => same ▸ allowed.others s _ holds nofun
  · rw [if_neg has]
    have present : (s.states path).isSome := by
      cases found : s.states path with
      | none => exact absurd (by rw [found]; rfl) has
      | some _ => rfl
    exact Triple.mono (Triple.bind relevance fun relevant => settleField_triple path allowed (framed.at_path path) relevant)
      (fun s' same => same ▸ ⟨holds, present⟩) (fun _ _ => id) fun _ _ => id

end Field

end Frames

end DataCollectionLab.Form
