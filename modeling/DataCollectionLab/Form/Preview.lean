import DataCollectionLab.Form.Overwriting
import DataCollectionLab.Form.Screens

/-!
The preview of the console: an open form, the steps that an author takes in it, and the record of them, in which an
answer given over another takes its place. The record leads where the steps led.
-/

namespace DataCollectionLab.Form

open Lib

section Minted

variable {form : CompiledForm} {s₀ s s' : FormInstance} {session : Session} {runtime : Runtime}

/-- What calls lead to from a state: well formed, and every row was there or was made by one of them. -/
structure Since (form : CompiledForm) (s₀ s : FormInstance) : Prop where
  well : WellFormed form s
  grown : Grown (fun _ => []) s₀ s

/-- A state that calls lead to. -/
abbrev Minted (form : CompiledForm) (s : FormInstance) : Prop := Since form (blank form) s

theorem Since.row (minted : Since form (blank form) s) {rid iid : String} (within : iid ∈ s.rows rid) :
    (∃ n : ℕ, iid = "i" ++ toString n) ∧ ∃ node ∈ form.repeats, node.id = rid := by
  constructor
  · rcases minted.grown.rows rid iid within with old | handed | ⟨n, -, same⟩
    · rw [rows_blank] at old
      cases old
    · cases handed
    · exact ⟨n, same⟩
  · refine repeat?_isSome_iff.mp ((minted.well.repeats rid).mp ?_)
    unfold FormInstance.rows at within
    cases given : s.instances rid with
    | none =>
      rw [given] at within
      cases within
    | some ordered => rfl

theorem Since.plainRows (minted : Since form (blank form) s) : PlainRows form s := by
  intro rid iid within
  obtain ⟨⟨n, rfl⟩, listed⟩ := minted.row within
  exact ⟨plain_minted n, listed⟩

theorem Since.grow (since : Since form s₀ s) (well : WellFormed form s') (grown : Grown (fun _ => []) s s') :
    Since form s₀ s' := by
  refine ⟨well, since.grown.serial.trans grown.serial, fun rid iid within => ?_⟩
  rcases grown.rows rid iid within with old | handed | ⟨n, later, same⟩
  · exact since.grown.rows rid iid old
  · exact Or.inr (Or.inl handed)
  · exact Or.inr (Or.inr ⟨n, lt_of_le_of_lt since.grown.serial later, same⟩)

section Calls

variable (formed : Formed form) (passes : Passes runtime form session)

include formed passes

theorem setMany_since (answers : List (String × Value)) : Keeps (Since form s₀) (setMany runtime form session answers) := by
  refine keeps_of_after fun s since => ?_
  obtain ⟨well, grown⟩ := setMany_kept session formed since.well passes answers
  exact since.grow well grown

theorem addInstance_since (rid : String) : Keeps (Since form s₀) (addInstance runtime form session rid) := by
  refine keeps_of_after fun s since => ?_
  obtain ⟨well, grown, -⟩ := addInstance_kept session formed since.well passes rid
  exact since.grow well grown

theorem deleteInstance_since (rid : String) (index : ℤ) :
    Keeps (Since form s₀) (deleteInstance runtime form session rid index) := by
  refine keeps_of_after fun s since => ?_
  obtain ⟨well, grown⟩ := deleteInstance_kept session formed since.well passes rid index
  exact since.grow well grown

end Calls

theorem Since.cut_placed (formed : Formed form) (minted : Since form (blank form) s) {path : String} (placed : (s.values path).isSome) :
    cutAt "[".toList path.toList = none ∨ ∃ rid rest suffix ordered, ∃ n : ℕ,
      cutAt "[".toList path.toList = some (rid, rest) ∧
      cutAt "].".toList rest = some ('i' :: (toString n).toList, suffix) ∧
      s.instances (String.ofList rid) = some ordered := by
  rcases (minted.well.values path).mp placed with ⟨cf, member, -, rfl⟩ | ⟨cf, member, rid, inside, iid, within, rfl⟩
  · left
    by_contra found
    obtain ⟨cut, found⟩ := Option.ne_none_iff_exists'.mp found
    refine (formed.plain cf member '[' ?_).1 rfl
    rw [cutAt_eq found]
    simp
  · right
    obtain ⟨⟨n, rfl⟩, node, listed, rfl⟩ := minted.row within
    obtain ⟨ordered, given⟩ := Option.isSome_iff_exists.mp
      ((minted.well.repeats node.id).mpr (repeat?_isSome_iff.mpr ⟨node, listed, rfl⟩))
    refine ⟨node.id.toList, ("i" ++ toString n).toList ++ ']' :: '.' :: cf.fieldId.toList, cf.fieldId.toList, ordered, n, ?_,
      ?_, by rwa [String.ofList_toList]⟩
    · rw [toList_instancePath]
      exact cutAt_here fun member => (formed.plainRepeats node listed _ member).1 rfl
    · have letters : ("i" ++ toString n).toList = 'i' :: (toString n).toList := by
        rw [String.toList_append]
        rfl
      rw [← letters]
      exact cutAt_here fun member => (plain_minted n _ member).2.1 rfl

theorem Since.canonical_placed (formed : Formed form) (minted : Since form (blank form) s) {path : String}
    (placed : (s.values path).isSome) : Device.canonical s.instances path = .ok path := by
  unfold Device.canonical
  rcases minted.cut_placed formed placed with uncut | ⟨rid, rest, suffix, ordered, n, opened, closed, given⟩
  · rw [uncut]
  · rw [opened]
    cases cutAt "].".toList path.toList with
    | none => rfl
    | some cut =>
      have uncounted : ¬ (Evaluator.utf16 ('i' :: (toString n).toList) ≠ [] ∧
          (Evaluator.utf16 ('i' :: (toString n).toList)).all fun unit => (Reference.digitOf unit).isSome) := by
        rw [show Evaluator.utf16 ('i' :: (toString n).toList) = 105 :: Evaluator.utf16 (toString n).toList from rfl]
        simp [show Reference.digitOf 105 = none by decide]
      dsimp only
      rw [given]
      dsimp only
      rw [Device.splitIndex, closed, Option.getD_some, if_neg uncounted]

theorem Device.set_ok_iff {platform : Device.Platform} (formed : Formed form) (minted : Minted form s) {path : String}
    (placed : (s.values path).isSome) {value : Value} :
    setMany (Device.runtime platform) form session [(path, value)] s = .ok () s' ↔
      recalculate (Device.runtime platform) form session (s.setValue path value) = .ok () s' := by
  have put : placeAnswer (Device.runtime platform) (path, value) s = .ok () (s.setValue path value) := by
    refine run_bind_ok_iff.mpr ⟨s, s, rfl, run_bind_ok_iff.mpr
      ⟨path, s, Device.lift_ok_iff.mpr ⟨minted.canonical_placed formed placed, rfl⟩, ?_⟩⟩
    rw [apply_get_bind, ← Option.not_isSome, placed]
    rfl
  have answered : ([(path, value)].forM (placeAnswer (Device.runtime platform)) : Run Unit) s =
      .ok () (s.setValue path value) := by
    show (placeAnswer (Device.runtime platform) (path, value) >>= fun _ => pure () : Run Unit) s = _
    exact run_bind_ok_iff.mpr ⟨(), _, put, rfl⟩
  constructor
  · intro ran
    obtain ⟨⟨⟩, between, first, ran⟩ := run_bind_ok_iff.mp ran
    obtain ⟨-, rfl⟩ := EStateM.Result.ok.inj (answered.symm.trans first)
    exact ran
  · exact fun ran => run_bind_ok_iff.mpr ⟨(), _, answered, ran⟩

end Minted

/-- `PreviewSession`, over a form that is compiled once. -/
structure PreviewSession where
  answers : FormInstance
  position : Position

inductive PreviewStep where
  | set (path : String) (value : Value)
  | addRow (repeatId : String)
  | deleteRow (repeatId instanceId : String)

abbrev Previewing := EStateM Failure PreviewSession

def Run.onForm {α : Type} (m : Run α) : Previewing α := fun preview =>
  match m preview.answers with
  | .ok a s => .ok a { preview with answers := s }
  | .error failure s => .error failure { preview with answers := s }

def PreviewSession.lift {α : Type} (read : PreviewSession → Except Failure α) : Previewing α := fun preview =>
  match read preview with
  | .ok a => .ok a preview
  | .error failure => .error failure preview

section Preview

variable {Shown : Type} (platform : Device.Platform) (form : CompiledForm) (session : Session) (plan : ScreenPlan)
  (state : PreviewSession → Except Failure Shown)

def Device.enterInstance (s : FormInstance) (rid iid : String) : Except Failure Position :=
  match plan.screens.find? fun screen => screen.kind = .repeated ∧ screen.repeatId = some rid with
  | none => .error (.compile ("no repeat screen for '" ++ rid ++ "'"))
  | some screen =>
    match relevantInstanceScreens s plan rid iid with
    | [] => .ok { screen := screen.index }
    | first :: _ => .ok { screen := screen.index, instanceId := some iid, instanceScreen := some (first : ℤ) }

namespace PreviewSession

/-- `open`: nothing is answered, and the first relevant screen is the current one. -/
def openSession : Except Failure PreviewSession :=
  match construct (Device.runtime platform) form session (blank form) with
  | .ok () s => do
    let first ← nextScreen (Device.pager (Device.evaluate platform)) form session s plan (-1)
    return ⟨s, { screen := first.elim (-1) fun (i : ℕ) => i }⟩
  | .error failure _ => .error failure

def set (path : String) (value : Value) : Previewing Unit := do
  if ((← get).answers.values path).isNone then throw (.compile ("unknown path: " ++ path))
  Run.onForm (setMany (Device.runtime platform) form session [(path, value)])

/-- `enter` of the navigator: an instance that is not there is not entered. -/
def enter (rid iid : String) : Previewing Unit := do
  if iid ∈ (← get).answers.rows rid then
    let position ← lift fun preview => Device.enterInstance plan preview.answers rid iid
    modify fun preview => { preview with position := position }

def addRow (rid : String) : Previewing Unit := do
  let iid ← Run.onForm (addInstance (Device.runtime platform) form session rid)
  enter plan rid iid

/-- `deleteRow`, with the `refresh` of the navigator. -/
def deleteRow (rid iid : String) : Previewing Unit := do
  let ordered := (← get).answers.rows rid
  if iid ∉ ordered then throw (.compile ("repeat " ++ rid ++ " has no instance '" ++ iid ++ "'"))
  Run.onForm (deleteInstance (Device.runtime platform) form session rid (ordered.idxOf iid))
  let position ← lift fun preview =>
    resolvePosition (Device.pager (Device.evaluate platform)) preview.answers plan preview.position
  modify fun preview => { preview with position := position }

def act : PreviewStep → Previewing Unit
  | .set path value => set platform form session path value
  | .addRow rid => addRow platform form session plan rid
  | .deleteRow rid iid => deleteRow platform form session plan rid iid

/-- `replay` of one step. -/
def replay (step : PreviewStep) : Previewing Shown := do
  act platform form session plan step
  lift state

def replayAll (steps : List PreviewStep) : Previewing Unit :=
  steps.forM fun step => discard (replay platform form session plan state step)

end PreviewSession

def appendStep (steps : List PreviewStep) (step : PreviewStep) : List PreviewStep :=
  match steps.getLast?, step with
  | some (.set path _), .set path' _ => if path = path' then steps.dropLast ++ [step] else steps ++ [step]
  | _, _ => steps ++ [step]

def recorded (steps : List PreviewStep) : List PreviewStep := steps.foldl appendStep []

def Traceless (start : PreviewSession) (steps : List PreviewStep) : Prop :=
  ∀ before path value value' after, steps = before ++ .set path value :: .set path value' :: after →
    ∀ preview next, PreviewSession.replayAll platform form session plan state before start = .ok () preview →
      PreviewSession.act platform form session plan (.set path value) preview = .ok () next →
        Passing platform form session path value preview.answers next.answers

end Preview

section Record

theorem recorded_append (steps : List PreviewStep) (step : PreviewStep) :
    recorded (steps ++ [step]) = appendStep (recorded steps) step := by
  rw [recorded, List.foldl_append]
  rfl

theorem getLast?_appendStep (steps : List PreviewStep) (step : PreviewStep) :
    (appendStep steps step).getLast? = some step := by
  unfold appendStep
  split
  · split <;> rw [List.getLast?_concat]
  · rw [List.getLast?_concat]

theorem getLast?_recorded (steps : List PreviewStep) : (recorded steps).getLast? = steps.getLast? := by
  induction steps using List.reverseRecOn with
  | nil => rfl
  | append_singleton steps step _ => rw [recorded_append, getLast?_appendStep, List.getLast?_concat]

theorem appendStep_cases (steps : List PreviewStep) (step : PreviewStep) :
    appendStep steps step = steps ++ [step] ∨ ∃ kept path value value', steps = kept ++ [.set path value] ∧
      step = .set path value' ∧ appendStep steps step = kept ++ [step] := by
  unfold appendStep
  split
  · rename_i path value path' value' last
    split
    · rename_i same
      subst same
      obtain ⟨kept, rfl⟩ := List.getLast?_eq_some_iff.mp last
      refine Or.inr ⟨kept, path, value, value', rfl, rfl, ?_⟩
      rw [List.dropLast_concat]
    · exact Or.inl rfl
  · exact Or.inl rfl

end Record

section Runs

variable {Shown : Type} {platform : Device.Platform} {form : CompiledForm} {session : Session} {plan : ScreenPlan}
  {state : PreviewSession → Except Failure Shown}

open PreviewSession

theorem onForm_ok_iff {α : Type} {m : Run α} {preview preview' : PreviewSession} {a : α} :
    Run.onForm m preview = .ok a preview' ↔
      m preview.answers = .ok a preview'.answers ∧ preview'.position = preview.position := by
  unfold Run.onForm
  cases m preview.answers with
  | ok b s =>
    rw [EStateM.Result.ok.injEq, EStateM.Result.ok.injEq]
    constructor
    · rintro ⟨rfl, rfl⟩
      exact ⟨⟨rfl, rfl⟩, rfl⟩
    · rintro ⟨⟨rfl, rfl⟩, same⟩
      exact ⟨rfl, by rw [← same]⟩
  | error failure s => simp

theorem preview_lift_ok_iff {α : Type} {read : PreviewSession → Except Failure α} {preview preview' : PreviewSession} {a : α} :
    PreviewSession.lift read preview = .ok a preview' ↔ read preview = .ok a ∧ preview' = preview := by
  unfold PreviewSession.lift
  cases read preview with
  | ok b =>
    rw [EStateM.Result.ok.injEq, Except.ok.injEq]
    exact and_congr_right fun _ => eq_comm
  | error failure => simp

theorem discard_ok_iff {α : Type} {m : Previewing α} {preview preview' : PreviewSession} :
    discard m preview = .ok () preview' ↔ ∃ a, m preview = .ok a preview' := by
  show (m >>= fun _ => pure () : Previewing Unit) preview = _ ↔ _
  rw [run_bind_ok_iff]
  constructor
  · rintro ⟨a, between, ran, ended⟩
    obtain ⟨-, rfl⟩ := EStateM.Result.ok.inj ended
    exact ⟨a, ran⟩
  · rintro ⟨a, ran⟩
    exact ⟨a, preview', ran, rfl⟩

theorem replay_ok_iff {step : PreviewStep} {preview preview' : PreviewSession} :
    discard (replay platform form session plan state step) preview = .ok () preview' ↔
      act platform form session plan step preview = .ok () preview' ∧ ∃ shown, state preview' = .ok shown := by
  rw [discard_ok_iff]
  constructor
  · rintro ⟨shown, ran⟩
    obtain ⟨⟨⟩, between, acted, ended⟩ := run_bind_ok_iff.mp ran
    obtain ⟨read, rfl⟩ := preview_lift_ok_iff.mp ended
    exact ⟨acted, shown, read⟩
  · rintro ⟨acted, shown, read⟩
    exact ⟨shown, run_bind_ok_iff.mpr ⟨(), preview', acted, preview_lift_ok_iff.mpr ⟨read, rfl⟩⟩⟩

theorem replayAll_append {before after : List PreviewStep} {preview preview' : PreviewSession} :
    replayAll platform form session plan state (before ++ after) preview = .ok () preview' ↔
      ∃ between, replayAll platform form session plan state before preview = .ok () between ∧
        replayAll platform form session plan state after between = .ok () preview' := by
  induction before generalizing preview with
  | nil =>
    constructor
    · exact fun ran => ⟨preview, rfl, ran⟩
    · rintro ⟨between, begun, ran⟩
      obtain ⟨-, rfl⟩ := EStateM.Result.ok.inj begun
      exact ran
  | cons step before ih =>
    have unfolded {rest : List PreviewStep} {last : PreviewSession} :
        replayAll platform form session plan state (step :: rest) preview = .ok () last ↔ ∃ first,
          discard (replay platform form session plan state step) preview = .ok () first ∧
            replayAll platform form session plan state rest first = .ok () last := by
      refine Iff.trans run_bind_ok_iff ⟨?_, ?_⟩
      · rintro ⟨⟨⟩, first, ran⟩
        exact ⟨first, ran⟩
      · rintro ⟨first, ran⟩
        exact ⟨(), first, ran⟩
    rw [List.cons_append, unfolded]
    constructor
    · rintro ⟨first, taken, ran⟩
      obtain ⟨between, begun, ended⟩ := ih.mp ran
      exact ⟨between, unfolded.mpr ⟨first, taken, begun⟩, ended⟩
    · rintro ⟨between, begun, ended⟩
      obtain ⟨first, taken, ran⟩ := unfolded.mp begun
      exact ⟨first, taken, ih.mpr ⟨between, ran, ended⟩⟩

theorem replayAll_snoc {before : List PreviewStep} {step : PreviewStep} {preview preview' : PreviewSession} :
    replayAll platform form session plan state (before ++ [step]) preview = .ok () preview' ↔
      ∃ between, replayAll platform form session plan state before preview = .ok () between ∧
        act platform form session plan step between = .ok () preview' ∧ ∃ shown, state preview' = .ok shown := by
  rw [replayAll_append]
  refine exists_congr fun between => and_congr_right fun _ => ?_
  refine Iff.trans run_bind_ok_iff (Iff.trans ⟨?_, ?_⟩ replay_ok_iff)
  · rintro ⟨⟨⟩, last, taken, ended⟩
    obtain ⟨-, rfl⟩ := EStateM.Result.ok.inj ended
    exact taken
  · exact fun taken => ⟨(), preview', taken, rfl⟩

theorem set_act_ok_iff (formed : Formed form) {preview preview' : PreviewSession} (minted : Minted form preview.answers)
    {path : String} {value : Value} :
    act platform form session plan (.set path value) preview = .ok () preview' ↔ (preview.answers.values path).isSome ∧
      recalculate (Device.runtime platform) form session (preview.answers.setValue path value) = .ok () preview'.answers ∧
        preview'.position = preview.position := by
  show PreviewSession.set platform form session path value preview = _ ↔ _
  unfold PreviewSession.set
  rw [apply_get_bind]
  cases placed : preview.answers.values path with
  | none =>
    simp only [Option.isNone_none, if_true, Option.isSome_none, Bool.false_eq_true, false_and, iff_false]
    intro ran
    cases ran
  | some held =>
    have here : (preview.answers.values path).isSome := by rw [placed]; rfl
    have given : setMany (Device.runtime platform) form session [(path, value)] preview.answers = .ok () preview'.answers ↔
        recalculate (Device.runtime platform) form session (preview.answers.setValue path value) = .ok () preview'.answers :=
      Device.set_ok_iff formed minted here
    simp only [Option.isNone_some, Bool.false_eq_true, if_false, Option.isSome_some, true_and]
    rw [← given]
    exact onForm_ok_iff

theorem onForm_keeps {α : Type} {P : FormInstance → Prop} {m : Run α} (keeps : Keeps P m) :
    Keeps (fun preview => P preview.answers) (Run.onForm m) := by
  intro preview holds
  have kept := keeps preview.answers holds
  unfold Run.onForm
  cases ran : m preview.answers with
  | ok a s =>
    rw [ran] at kept
    exact kept
  | error failure s =>
    rw [ran] at kept
    exact kept

theorem placed_keeps {P : FormInstance → Prop} (read : PreviewSession → Except Failure Position) :
    Keeps (fun preview => P preview.answers) (do
      let position ← PreviewSession.lift read
      modify fun preview => { preview with position := position } : Previewing Unit) := by
  refine Triple.bind (Q := fun _ (preview : PreviewSession) => P preview.answers) (fun preview holds => ?_) fun _ preview holds => holds
  unfold PreviewSession.lift
  cases read preview with
  | ok position => exact holds
  | error failure => exact holds

theorem act_keeps (formed : Formed form) {s₀ : FormInstance} (step : PreviewStep) :
    Keeps (fun preview => Since form s₀ preview.answers) (act platform form session plan step) := by
  have passes : Passes (Device.runtime platform) form session := fun P => Device.recalculate_keeps platform
  cases step with
  | set path value =>
    refine Triple.get_bind fun preview since => ?_
    cases (preview.answers.values path).isNone with
    | true => exact Triple.of_error rfl since
    | false =>
      exact Triple.mono (onForm_keeps (setMany_since formed passes [(path, value)])) (fun _ same => same ▸ since)
        (fun _ _ => id) fun _ _ => id
  | addRow rid =>
    refine Triple.bind (onForm_keeps (addInstance_since formed passes rid)) fun iid =>
      Triple.get_bind fun preview since => ?_
    split
    · exact Triple.mono (placed_keeps _) (fun _ same => same ▸ since) (fun _ _ => id) fun _ _ => id
    · exact Triple.of_ok rfl since
  | deleteRow rid iid =>
    refine Triple.get_bind fun preview since => ?_
    dsimp only
    split
    · exact Triple.of_error rfl since
    · exact Triple.mono (Triple.bind (onForm_keeps (deleteInstance_since formed passes rid _)) fun _ => placed_keeps _)
        (fun _ same => same ▸ since) (fun _ _ => id) fun _ _ => id

theorem openSession_minted (formed : Formed form) {start : PreviewSession}
    (began : openSession platform form session plan = .ok start) : Minted form start.answers := by
  have passes : Passes (Device.runtime platform) form session := fun P passable =>
    Device.recalculate_keeps platform passable
  unfold openSession at began
  split at began
  · rename_i s constructed
    obtain ⟨first, -, same⟩ := bind_ok_iff.mp began
    obtain rfl := Except.ok.inj same
    obtain ⟨well, grown⟩ := construct_kept session formed passes constructed
    exact ⟨well, grown⟩
  · cases began

variable (platform form session plan state) in
/-- The record of the steps so far leads to the preview. Where they end with an answer, so does the record, and what
comes before the two is near. -/
structure Traced (start : PreviewSession) (steps : List PreviewStep) (preview : PreviewSession) : Prop where
  minted : Minted form preview.answers
  replays : replayAll platform form session plan state (recorded steps) start = .ok () preview
  ends : ∀ before path value, steps = before ++ [.set path value] → ∃ kept first last,
    recorded steps = kept ++ [.set path value] ∧
      replayAll platform form session plan state kept start = .ok () first ∧ Minted form first.answers ∧
      replayAll platform form session plan state before start = .ok () last ∧ Minted form last.answers ∧
      act platform form session plan (.set path value) last = .ok () preview ∧
      first.position = last.position ∧ Near platform form session path first.answers last.answers

theorem traced_nil (formed : Formed form) {start : PreviewSession}
    (began : openSession platform form session plan = .ok start) :
    Traced platform form session plan state start [] start :=
  ⟨openSession_minted formed began, rfl, fun before path value none => absurd none (by simp)⟩

theorem Traced.extend (formed : Formed form) {start preview next : PreviewSession} {steps : List PreviewStep}
    {step : PreviewStep} (lived : replayAll platform form session plan state steps start = .ok () preview)
    (traced : Traced platform form session plan state start steps preview)
    (taken : act platform form session plan step preview = .ok () next) (shows : ∃ shown, state next = .ok shown)
    (last : recorded (steps ++ [step]) = recorded steps ++ [step]) :
    Traced platform form session plan state start (steps ++ [step]) next := by
  refine ⟨(act_keeps formed _).ok traced.minted taken, ?_, fun before path value same => ?_⟩
  · rw [last]
    exact replayAll_snoc.mpr ⟨preview, traced.replays, taken, shows⟩
  · obtain ⟨rfl, alone⟩ := List.append_inj' same rfl
    obtain rfl := List.singleton_inj.mp alone
    exact ⟨recorded steps, preview, preview, last, traced.replays, traced.minted, lived, traced.minted, taken, rfl,
      near_refl path preview.answers⟩

theorem Traced.replace {children : List Node} (compiled : compile children = .ok form)
    {start preview next : PreviewSession} {before : List PreviewStep} {path : String} {value value' : Value}
    (traced : Traced platform form session plan state start (before ++ [.set path value]) preview)
    (passing : ∀ last, replayAll platform form session plan state before start = .ok () last →
      Passing platform form session path value last.answers preview.answers)
    (lived : replayAll platform form session plan state (before ++ [.set path value]) start = .ok () preview)
    (taken : act platform form session plan (.set path value') preview = .ok () next)
    (shows : ∃ shown, state next = .ok shown) {kept : List PreviewStep}
    (replaced : recorded (before ++ [.set path value] ++ [.set path value']) = kept ++ [.set path value'])
    (record : recorded (before ++ [.set path value]) = kept ++ [.set path value]) :
    Traced platform form session plan state start (before ++ [.set path value] ++ [.set path value']) next := by
  have formed := compile_formed compiled
  obtain ⟨kept', first, last, record', ran, mintedFirst, walked, mintedLast, acted, place, near⟩ :=
    traced.ends before path value rfl
  obtain ⟨rfl, -⟩ := List.append_inj' (record.symm.trans record') rfl
  obtain ⟨placed, passed, position⟩ := (set_act_ok_iff formed mintedLast).mp acted
  obtain ⟨placed', passed', position'⟩ := (set_act_ok_iff formed traced.minted).mp taken
  -- The answer that is replaced leaves a state near the one before it, and so near the one on record.
  have nearer := near.trans formed mintedLast.well traced.minted.well mintedLast.plainRows
    ((passing last walked).near compiled mintedLast.well mintedLast.plainRows placed passed)
  obtain ⟨placedFirst, answered⟩ := nearer.answer compiled traced.minted.well mintedFirst.well traced.minted.plainRows
    placed' passed'
  have again : act platform form session plan (.set path value') first = .ok () next :=
    (set_act_ok_iff formed mintedFirst).mpr ⟨placedFirst, answered, (position'.trans position).trans place.symm⟩
  refine ⟨(act_keeps formed _).ok traced.minted taken, ?_, fun before' path' value'' same => ?_⟩
  · rw [replaced]
    exact replayAll_snoc.mpr ⟨first, ran, again, shows⟩
  · obtain ⟨rfl, alone⟩ := List.append_inj' same rfl
    obtain ⟨rfl, rfl⟩ := PreviewStep.set.inj (List.singleton_inj.mp alone)
    exact ⟨kept, first, preview, replaced, ran, mintedFirst, lived, traced.minted, taken, place.trans position.symm, nearer⟩

/-- The record leads where the steps led, if no answer that was given over leaves anything else behind: every step of
it is accepted, and in the end the rows, the answers and the position are the ones of the preview. -/
theorem recorded_replays {children : List Node} (compiled : compile children = .ok form) {start preview : PreviewSession}
    (began : openSession platform form session plan = .ok start) {steps : List PreviewStep}
    (traceless : Traceless platform form session plan state start steps)
    (accepted : replayAll platform form session plan state steps start = .ok () preview) :
    replayAll platform form session plan state (recorded steps) start = .ok () preview := by
  have formed := compile_formed compiled
  suffices traced : Traced platform form session plan state start steps preview from traced.replays
  induction steps using List.reverseRecOn generalizing preview with
  | nil =>
    obtain ⟨-, rfl⟩ := EStateM.Result.ok.inj accepted
    exact traced_nil formed began
  | append_singleton steps step ih =>
    obtain ⟨between, lived, taken, shows⟩ := replayAll_snoc.mp accepted
    have earlier : Traceless platform form session plan state start steps := by
      intro before path value value' after split
      refine traceless before path value value' (after ++ [step]) ?_
      rw [split, List.append_assoc, List.cons_append, List.cons_append]
    have traced := ih earlier lived
    rcases appendStep_cases (recorded steps) step with last | ⟨kept, path, value, value', record, rfl, replaced⟩
    · exact traced.extend formed lived taken shows ((recorded_append steps step).trans last)
    · have ended : steps.getLast? = some (.set path value) := by
        rw [← getLast?_recorded, record, List.getLast?_concat]
      obtain ⟨before, rfl⟩ := List.getLast?_eq_some_iff.mp ended
      refine traced.replace compiled (fun last walked => ?_) lived taken shows
        ((recorded_append _ _).trans replaced) record
      obtain ⟨last', walked', acted, -⟩ := replayAll_snoc.mp lived
      obtain ⟨-, rfl⟩ := EStateM.Result.ok.inj (walked.symm.trans walked')
      exact traceless before path value value' [] (by rw [List.append_assoc]; rfl) last between walked acted

/-- A form whose rows are the author's own, and whose calculates have no relevance and do not read themselves. -/
structure Unsized (form : CompiledForm) : Prop where
  free : ∀ node ∈ form.repeats, node.Free
  alone : ∀ cf ∈ form.fields, cf.node.calculate.isSome → cf.fieldId ∉ cf.dependsOn.map base
  always : ∀ cf ∈ form.fields, cf.node.calculate.isSome →
    relevances form cf.ancestors ++ cf.node.relevant.toList = []

theorem Unsized.traceless (unsized : Unsized form) (start : PreviewSession) (steps : List PreviewStep) :
    Traceless platform form session plan state start steps := by
  intro before path value value' after _ preview next _ _
  have sizes (node : Repeat) (listed : node ∈ form.repeats) : sizing form node = [] := by
    obtain ⟨uncounted, unsourced⟩ := unsized.free node listed
    rw [sizing, uncounted, unsourced]
    rfl
  refine ⟨fun node listed => ?_, fun cf member calculated worn => absurd ⟨?_, ?_, ?_⟩ worn⟩
  · obtain ⟨uncounted, unsourced⟩ := unsized.free node listed
    refine ⟨fun sourced => ?_, fun expr counted => ?_⟩
    · rw [unsourced] at sourced
      cases sourced
    · rw [uncounted] at counted
      cases counted
  · exact unsized.alone cf member calculated
  · intro node listed expr sizer
    rw [sizes node listed] at sizer
    cases sizer
  · intro expr listed
    rw [unsized.always cf member calculated] at listed
    cases listed

end Runs

section Greeted

def greeted : List Node :=
  [.question { id := "name", dataType := "text" },
    .question { id := "greeting", dataType := "text", calculate := some (.ref "name") },
    .repeated { id := "members" } [.question { id := "first", dataType := "text" }]]

def greetedForm : CompiledForm where
  fields := [
    { node := { id := "name", dataType := "text" }, dependsOn := [], ancestors := [], repeatId := none,
      choiceQuery := none, rowsQuery := none },
    { node := { id := "greeting", dataType := "text", calculate := some (.ref "name") }, dependsOn := ["name"],
      ancestors := [], repeatId := none, choiceQuery := none, rowsQuery := none },
    { node := { id := "first", dataType := "text" }, dependsOn := [], ancestors := ["members"],
      repeatId := some "members", choiceQuery := none, rowsQuery := none }]
  containers := [{ id := "members", relevant := none, appearance := none, ancestors := [] }]
  repeats := [{ id := "members" }]
  topoOrder := ["name", "greeting", "first"]

def still : Device.Platform where
  functions := fun _ _ _ fn _ => .error (.raised ("unknown function: " ++ fn))
  doubleText := fun _ => ""
  partsText := fun _ => ""

def seen (paths : List String) (preview : PreviewSession) : Except Failure (List (Option Value)) :=
  .ok (paths.map preview.answers.values)

def typed : List PreviewStep :=
  [.set "name" (.text "A"), .set "name" (.text "Ama"), .addRow "members", .set "members[i1].first" (.text "K"),
    .set "members[i1].first" (.text "Kofi")]

def beginning (form : CompiledForm) (children : List Node) : PreviewSession :=
  (PreviewSession.openSession still form noon (Device.buildScreenPlan children)).toOption.getD ⟨blank form, { screen := -1 }⟩

def lived (form : CompiledForm) (children : List Node) (paths : List String) (steps : List PreviewStep) : PreviewSession :=
  after (PreviewSession.replayAll still form noon (Device.buildScreenPlan children) (seen paths) steps)
    (beginning form children)

theorem typed_replays :
    compile greeted = .ok greetedForm ∧
      PreviewSession.replayAll still greetedForm noon (Device.buildScreenPlan greeted) (seen ["greeting"])
        (recorded typed) (beginning greetedForm greeted) =
          .ok () (lived greetedForm greeted ["greeting"] typed) := by
  have compiled : compile greeted = .ok greetedForm := rfl
  have began : PreviewSession.openSession still greetedForm noon (Device.buildScreenPlan greeted) =
      .ok (beginning greetedForm greeted) := rfl
  have accepted : PreviewSession.replayAll still greetedForm noon (Device.buildScreenPlan greeted) (seen ["greeting"])
      typed (beginning greetedForm greeted) = .ok () (lived greetedForm greeted ["greeting"] typed) := rfl
  have greeting : ∀ cf ∈ greetedForm.fields, cf.node.calculate.isSome → cf.fieldId ∉ cf.dependsOn.map base ∧
      relevances greetedForm cf.ancestors ++ cf.node.relevant.toList = [] := by
    intro cf member calculated
    rcases List.mem_cons.mp member with rfl | member
    · cases calculated
    rcases List.mem_cons.mp member with rfl | member
    · exact ⟨by decide, rfl⟩
    obtain rfl := List.mem_singleton.mp member
    cases calculated
  have unsized : Unsized greetedForm := by
    refine ⟨fun node listed => ?_, fun cf member calculated => (greeting cf member calculated).1,
      fun cf member calculated => (greeting cf member calculated).2⟩
    obtain rfl := List.mem_singleton.mp listed
    exact ⟨rfl, rfl⟩
  exact ⟨compiled, recorded_replays compiled began (unsized.traceless _ _) accepted⟩

def sized : List Node :=
  [.question { id := "n", dataType := "integer" },
    .repeated { id := "r", countExpr := some (.ref "n") } [.question { id := "a", dataType := "text" }]]

def sizedForm : CompiledForm where
  fields := [
    { node := { id := "n", dataType := "integer" }, dependsOn := [], ancestors := [], repeatId := none,
      choiceQuery := none, rowsQuery := none },
    { node := { id := "a", dataType := "text" }, dependsOn := [], ancestors := ["r"], repeatId := some "r",
      choiceQuery := none, rowsQuery := none }]
  containers := [{ id := "r", relevant := none, appearance := none, ancestors := [] }]
  repeats := [{ id := "r", countExpr := some (.ref "n") }]
  topoOrder := ["n", "a"]

def counted : List PreviewStep := [.set "n" (.integer 3), .set "n" (.integer 1), .set "n" (.integer 2)]

/-- An answer that sized a repeat leaves the ids of its rows behind: without it they are others. -/
example : compile sized = .ok sizedForm ∧ (lived sizedForm sized ["n"] counted).answers.rows "r" = ["i1", "i4"] ∧
    (lived sizedForm sized ["n"] (recorded counted)).answers.rows "r" = ["i1", "i2"] :=
  ⟨rfl, by decide +kernel, by decide +kernel⟩

end Greeted

end DataCollectionLab.Form
