import DataCollectionLab.Builder.Store
import DataCollectionLab.Lib.Runs

/-!
Whether "saved" is true: what is shown when the status is clean, and that nothing unsaved is left behind.
-/

namespace DataCollectionLab.Builder

variable {Doc Ir : Type} [DecidableEq Doc] (content : Doc → Ir)

namespace Page

def Acknowledged (page : Page Doc) : Prop :=
  ∃ formId doc, page.store.formId = some formId ∧ page.acknowledged formId = some (doc, page.store.testCases) ∧
    page.store.ir.map content = some (content doc)

def Saves (page : Page Doc) : Prop := ∃ request ∈ page.pending, request.editor = page.editor

structure Truthful (page : Page Doc) : Prop where
  clean : page.store.formId.isSome → page.store.save.status = .clean → page.Acknowledged content
  admitted : page.store.formId.isSome → ¬ page.Acknowledged content → page.store.save.status ≠ .conflict →
    ¬ page.Saves → page.admits = true

/-- A success that finds the document it was sent for finds the cases it was sent for as well; a failure that finds
the document that was saved last finds nothing unsaved, unless the editor has another save out. -/
def Lands (page : Page Doc) (request : Request Doc) (formId : String) : Answer → Prop
  | .succeeded _ => page.store.ir = some request.ir →
      if request.formId = formId then page.store.testCases = request.testCases else page.Acknowledged content
  | .conflicted _ => True
  | .failed _ => page.store.saved = page.store.ir →
      page.Acknowledged content ∨ page.inFlight = true ∧ request.editor ≠ page.editor

def AllLand (page : Page Doc) : Event Doc → Prop
  | .answered index given => ∀ request formId, page.pending[index]? = some request → page.store.formId = some formId →
      page.Lands content request formId given
  | _ => True

/-- The editor's own flag counts its requests, and the store says "saving" only while there is one. -/
structure Sound (page : Page Doc) : Prop where
  shown : page.store.ir.isSome = page.store.formId.isSome
  saving : page.store.save.status = .saving → page.inFlight = true
  own : page.pending.countP (·.editor = page.editor) = if page.inFlight then 1 else 0
  mounted : ∀ request ∈ page.pending, request.editor ≤ page.editor

end Page

section Steps

variable {content} {page : Page Doc}

theorem countP_eraseIdx {α : Type} {p : α → Bool} {l : List α} {i : Nat} {a : α} (found : l[i]? = some a) :
    l.countP p = (if p a then 1 else 0) + (l.eraseIdx i).countP p := by
  induction l generalizing i with
  | nil => simp at found
  | cons head tail ih =>
    cases i with
    | zero =>
      cases found
      rw [List.eraseIdx_cons_zero, List.countP_cons]
      omega
    | succ i =>
      rw [List.eraseIdx_cons_succ, List.countP_cons, List.countP_cons, ih found]
      omega

theorem saves_iff (sound : page.Sound) : page.Saves ↔ page.inFlight = true := by
  have own := sound.own
  constructor
  · rintro ⟨request, member, same⟩
    have positive : 0 < page.pending.countP (·.editor = page.editor) :=
      List.countP_pos_iff.mpr ⟨request, member, by simpa using same⟩
    by_contra idle
    simp [idle] at own
    exact own request member same
  · intro busy
    rw [if_pos busy] at own
    obtain ⟨request, member, same⟩ := List.countP_pos_iff.mp (by omega : 0 < page.pending.countP (·.editor = page.editor))
    exact ⟨request, member, by simpa using same⟩

theorem admits_iff : page.admits = true ↔ ∃ ir, page.store.ir = some ir ∧
    (page.store.saved = some ir → page.store.save.status = .dirty) ∧ page.store.save.status ≠ .conflict ∧
    page.store.save.status ≠ .saving ∧ page.inFlight = false := by
  unfold Page.admits BuilderState.due
  cases page.store.ir with
  | none => simp
  | some ir => simp [imp_iff_not_or, and_assoc]

/-- What an edit does to what saving reads: nothing, or a status that says it. -/
structure Edits (state state' : BuilderState Doc) : Prop where
  formId : state'.formId = state.formId
  shown : state'.ir.isSome = state.ir.isSome
  status : state' = state ∨ state'.save.status = .dirty ∨ state'.save.status = .conflict

omit [DecidableEq Doc] in
theorem edited_status (state : BuilderState Doc) :
    state.edited.status = .dirty ∨ state.edited.status = .conflict := by
  unfold BuilderState.edited
  split
  · exact Or.inr rfl
  · exact Or.inl rfl

theorem edit_edits (state : BuilderState Doc) (next : Doc) : Edits state (state.edit next) := by
  unfold BuilderState.edit
  split
  · exact ⟨rfl, rfl, Or.inl rfl⟩
  · rename_i ir shown
    split
    · exact ⟨rfl, rfl, Or.inl rfl⟩
    · exact ⟨rfl, by rw [shown]; rfl, Or.inr (edited_status state)⟩

omit [DecidableEq Doc] in
theorem editCases_edits (state : BuilderState Doc) (change : List TestCase → List TestCase) :
    Edits state (state.editCases change) := by
  unfold BuilderState.editCases
  split
  · exact ⟨rfl, rfl, Or.inl rfl⟩
  · exact ⟨rfl, rfl, Or.inr (edited_status state)⟩

theorem truthful_of_dirty (sound : page.Sound)
    (dirty : page.store.save.status = .dirty ∨ page.store.save.status = .conflict) : page.Truthful content := by
  refine ⟨fun _ clean => ?_, fun opened _ settled idle => ?_⟩
  · rcases dirty with dirty | dirty <;> rw [dirty] at clean <;> cases clean
  · have dirty := dirty.resolve_right settled
    rw [← sound.shown] at opened
    obtain ⟨ir, shown⟩ := Option.isSome_iff_exists.mp opened
    refine admits_iff.mpr ⟨ir, shown, fun _ => dirty, settled, ?_, ?_⟩
    · rw [dirty]
      decide
    · rw [saves_iff sound] at idle
      simpa using idle

theorem sound_edits (sound : page.Sound) {store : BuilderState Doc} (edits : Edits page.store store) :
    ({ page with store := store } : Page Doc).Sound := by
  refine ⟨?_, fun saving => ?_, sound.own, sound.mounted⟩
  · dsimp only
    rw [edits.shown, edits.formId, sound.shown]
  · rcases edits.status with rfl | dirty | conflict
    · exact sound.saving saving
    · cases dirty.symm.trans saving
    · cases conflict.symm.trans saving

theorem truthful_edits (sound : page.Sound) (truthful : page.Truthful content) {store : BuilderState Doc}
    (edits : Edits page.store store) : ({ page with store := store } : Page Doc).Truthful content := by
  rcases edits.status with rfl | dirty
  · exact truthful
  · exact truthful_of_dirty (sound_edits sound edits) dirty

theorem sound_openForm (sound : page.Sound) (formId : String) (ir : Doc) (revision : Option Nat)
    (testCases : List TestCase) : (page.openForm formId ir revision testCases).Sound := by
  refine ⟨rfl, fun saving => ?_, ?_, fun request member => ?_⟩
  · cases revision <;> cases saving
  · unfold Page.openForm
    by_cases same : page.store.formId = some formId
    · simp only [if_pos same, same, decide_true, Bool.true_and]
      exact sound.own
    · simp only [if_neg same, same, decide_false, Bool.false_and, Bool.false_eq_true, if_false]
      rw [List.countP_eq_zero]
      intro request member
      have := sound.mounted request member
      simp only [decide_eq_true_eq]
      omega
  · have := sound.mounted request member
    unfold Page.openForm
    dsimp only
    split <;> omega

theorem truthful_openForm (sound : page.Sound) (formId : String) (ir : Doc) (revision : Option Nat)
    (testCases : List TestCase) : (page.openForm formId ir revision testCases).Truthful content := by
  cases revision with
  | none => exact truthful_of_dirty (sound_openForm sound formId ir none testCases) (Or.inl rfl)
  | some revision =>
    have acknowledged : (page.openForm formId ir (some revision) testCases).Acknowledged content :=
      ⟨formId, ir, rfl, Function.update_self formId _ _, rfl⟩
    exact ⟨fun _ _ => acknowledged, fun _ unsaved => absurd acknowledged unsaved⟩

theorem sound_close (sound : page.Sound) : page.close.Sound := by
  refine ⟨rfl, fun saving => ?_, ?_, fun request member => ?_⟩
  · cases saving
  · refine List.countP_eq_zero.mpr fun request member => ?_
    have := sound.mounted request member
    have apart : request.editor ≠ page.editor + 1 := by omega
    exact fun same => apart (of_decide_eq_true same)
  · have := sound.mounted request member
    simp only [Page.close]
    omega

theorem truthful_closed (closed : page.store.formId = none) : page.Truthful content := by
  refine ⟨fun opened => ?_, fun opened => ?_⟩ <;>
    · rw [closed] at opened
      cases opened

theorem startSave_cases (page : Page Doc) :
    page.startSave = page ∨ ∃ formId sent, page.store.formId = some formId ∧ page.store.ir = some sent ∧
      page.inFlight = false ∧ page.startSave = { page with
        store := page.store.saveStarted
        inFlight := true
        pending := page.pending ++ [⟨page.editor, formId, sent, page.store.revision, page.store.testCases⟩] } := by
  unfold Page.startSave
  split
  · rename_i formId sent opened shown
    split
    · rename_i out
      rw [Bool.and_eq_true] at out
      obtain ⟨_, -, -, -, -, idle⟩ := admits_iff.mp out.1
      exact Or.inr ⟨formId, sent, opened, shown, idle, rfl⟩
    · exact Or.inl rfl
  · exact Or.inl rfl

theorem sound_startSave (sound : page.Sound) : page.startSave.Sound := by
  rcases startSave_cases page with same | ⟨formId, sent, -, -, idle, made⟩
  · rw [same]
    exact sound
  · rw [made]
    have own := sound.own
    rw [idle] at own
    refine ⟨sound.shown, fun _ => rfl, ?_, fun request member => ?_⟩
    · rw [List.countP_append]
      simpa using own
    · rcases List.mem_append.mp member with old | new
      · exact sound.mounted request old
      · cases List.mem_singleton.mp new
        exact Nat.le_refl _

theorem truthful_startSave (sound : page.Sound) (truthful : page.Truthful content) :
    page.startSave.Truthful content := by
  have kept := sound_startSave sound
  rcases startSave_cases page with same | ⟨formId, sent, -, -, -, made⟩
  · rw [same]
    exact truthful
  · rw [made] at kept ⊢
    refine ⟨fun _ clean => ?_, fun _ _ _ idle => ?_⟩
    · cases clean
    · exact absurd ((saves_iff kept).mpr rfl) idle

variable {request : Request Doc} {index : Nat}

theorem sound_answer (sound : page.Sound) (found : page.pending[index]? = some request) (given : Answer) :
    (page.answer request index given).Sound := by
  have own := sound.own
  rw [countP_eraseIdx found] at own
  have left : (page.pending.eraseIdx index).countP (·.editor = page.editor) =
      if (request.editor ≠ page.editor && page.inFlight) = true then 1 else 0 := by
    by_cases same : request.editor = page.editor
    · cases busy : page.inFlight <;> simp [same, busy] at own ⊢
      all_goals omega
    · simpa [same] using own
  have mounted : ∀ r ∈ page.pending.eraseIdx index, r.editor ≤ page.editor :=
    fun r member => sound.mounted r (List.mem_of_mem_eraseIdx member)
  cases given with
  | succeeded revision =>
    refine ⟨sound.shown, fun saving => ?_, left, mounted⟩
    simp only [Page.answer, BuilderState.saveSucceeded] at saving
    split at saving <;> cases saving
  | conflicted message => exact ⟨sound.shown, fun saving => (by cases saving), left, mounted⟩
  | failed message => exact ⟨sound.shown, fun saving => (by cases saving), left, mounted⟩

theorem acknowledged_succeeded {formId : String} {revision : Nat} (opened : page.store.formId = some formId)
    (shown : page.store.ir = some request.ir) :
    (page.answer request index (.succeeded revision)).Acknowledged content ↔
      if request.formId = formId then page.store.testCases = request.testCases else page.Acknowledged content := by
  unfold Page.Acknowledged
  simp only [Page.answer, BuilderState.saveSucceeded, opened, shown, Option.some.injEq, Option.map_some]
  split
  · rename_i same
    subst same
    constructor
    · rintro ⟨_, doc, rfl, acknowledged, -⟩
      rw [Function.update_self] at acknowledged
      exact (congrArg Prod.snd (Option.some.inj acknowledged)).symm
    · intro same
      exact ⟨request.formId, request.ir, rfl, by rw [Function.update_self, same], rfl⟩
  · rename_i apart
    constructor
    · rintro ⟨_, doc, rfl, acknowledged, same⟩
      rw [Function.update_of_ne (Ne.symm apart)] at acknowledged
      exact ⟨_, doc, rfl, acknowledged, same⟩
    · rintro ⟨_, doc, rfl, acknowledged, same⟩
      exact ⟨_, doc, rfl, by rw [Function.update_of_ne (Ne.symm apart), acknowledged], same⟩

theorem truthful_answer_iff (sound : page.Sound) (found : page.pending[index]? = some request) {formId : String}
    (opened : page.store.formId = some formId) (given : Answer) :
    (page.answer request index given).Truthful content ↔ page.Lands content request formId given := by
  have kept := sound_answer sound found given
  have isOpen : page.store.formId.isSome = true := Option.isSome_of_eq_some opened
  cases given with
  | succeeded revision =>
    by_cases shown : page.store.ir = some request.ir
    · have clean : (page.answer request index (.succeeded revision)).store.save.status = .clean := if_pos shown
      have settled : (page.answer request index (.succeeded revision)).Acknowledged content ↔
          if request.formId = formId then page.store.testCases = request.testCases else page.Acknowledged content :=
        acknowledged_succeeded opened shown
      unfold Page.Lands
      simp only [shown, true_implies]
      rw [← settled]
      exact ⟨fun truthful => truthful.clean isOpen clean,
        fun acknowledged => ⟨fun _ _ => acknowledged, fun _ unsaved => absurd acknowledged unsaved⟩⟩
    · refine iff_of_true (truthful_of_dirty kept (Or.inl (if_neg shown))) fun same => absurd same shown
  | conflicted message => exact iff_of_true (truthful_of_dirty kept (Or.inr rfl)) trivial
  | failed message =>
    have idle : ¬ (page.answer request index (.failed message)).Saves ↔
        ¬ (page.inFlight = true ∧ request.editor ≠ page.editor) := by
      rw [saves_iff kept]
      simp [Page.answer, and_comm]
    constructor
    · intro truthful same
      by_contra lost
      obtain ⟨unsaved, alone⟩ := not_or.mp lost
      have out := truthful.admitted isOpen unsaved (fun conflict => (by cases conflict)) (idle.mpr alone)
      obtain ⟨ir, shown, dirty, -⟩ := admits_iff.mp out
      cases dirty (same.trans shown)
    · intro lands
      refine ⟨fun _ clean => (by cases clean), fun _ unsaved _ quiet => ?_⟩
      rw [idle] at quiet
      rw [← sound.shown] at isOpen
      obtain ⟨ir, shown⟩ := Option.isSome_iff_exists.mp isOpen
      refine admits_iff.mpr ⟨ir, shown, fun same => ?_, fun conflict => (by cases conflict),
        fun saving => (by cases saving), ?_⟩
      · exact absurd (lands (same.trans shown.symm)) (not_or.mpr ⟨unsaved, quiet⟩)
      · have own : page.inFlight = true → request.editor = page.editor := by simpa using quiet
        change (decide (request.editor ≠ page.editor) && page.inFlight) = false
        cases busy : page.inFlight with
        | false => exact Bool.and_false _
        | true => simp [own busy]

end Steps

section Runs

variable {content}

theorem next_answered {page : Page Doc} {index : Nat} {request : Request Doc} (found : page.pending[index]? = some request)
    (given : Answer) : page.next (.answered index given) = page.answer request index given := by
  simp only [Page.next, found]

theorem next_unanswered {page : Page Doc} {index : Nat} (none : page.pending[index]? = none) (given : Answer) :
    page.next (.answered index given) = page := by
  simp only [Page.next, none]

theorem sound_next {page : Page Doc} (sound : page.Sound) (event : Event Doc) : (page.next event).Sound := by
  cases event with
  | opened formId ir revision testCases => exact sound_openForm sound formId ir revision testCases
  | closed => exact sound_close sound
  | edited document => exact sound_edits sound (edit_edits _ _)
  | addedTestCase testCase => exact sound_edits sound (editCases_edits _ _)
  | removedTestCase id => exact sound_edits sound (editCases_edits _ _)
  | renamedTestCase id name => exact sound_edits sound (editCases_edits _ _)
  | replacedTestCase testCase => exact sound_edits sound (editCases_edits _ _)
  | saving => exact sound_startSave sound
  | answered index given =>
    cases found : page.pending[index]? with
    | none =>
      rw [next_unanswered found]
      exact sound
    | some request =>
      rw [next_answered found]
      exact sound_answer sound found given

theorem truthful_next {page : Page Doc} (sound : page.Sound) (truthful : page.Truthful content) (event : Event Doc) :
    (page.next event).Truthful content ↔ page.AllLand content event := by
  cases event with
  | opened formId ir revision testCases => exact iff_of_true (truthful_openForm sound formId ir revision testCases) trivial
  | closed => exact iff_of_true (truthful_closed rfl) trivial
  | edited document => exact iff_of_true (truthful_edits sound truthful (edit_edits _ _)) trivial
  | addedTestCase testCase => exact iff_of_true (truthful_edits sound truthful (editCases_edits _ _)) trivial
  | removedTestCase id => exact iff_of_true (truthful_edits sound truthful (editCases_edits _ _)) trivial
  | renamedTestCase id name => exact iff_of_true (truthful_edits sound truthful (editCases_edits _ _)) trivial
  | replacedTestCase testCase => exact iff_of_true (truthful_edits sound truthful (editCases_edits _ _)) trivial
  | saving => exact iff_of_true (truthful_startSave sound truthful) trivial
  | answered index given =>
    cases found : page.pending[index]? with
    | none =>
      rw [next_unanswered found]
      refine iff_of_true truthful fun request formId found' => ?_
      rw [found] at found'
      cases found'
    | some request =>
      rw [next_answered found]
      cases opened : page.store.formId with
      | none =>
        refine iff_of_true ?_ fun request formId _ opened' => ?_
        · cases given <;> exact truthful_closed opened
        · rw [opened] at opened'
          cases opened'
      | some formId =>
        rw [truthful_answer_iff sound found opened]
        constructor
        · intro lands request' formId' found' opened'
          cases found.symm.trans found'
          cases opened.symm.trans opened'
          exact lands
        · exact fun all => all request formId found opened

/-- Every state that a run from the closed page reaches is truthful exactly when every answer of the run lands. -/
theorem saved_means_saved_iff (content : Doc → Ir) (events : List (Event Doc)) :
    (∀ first rest, events = first ++ rest → (first.foldl Page.next ({} : Page Doc)).Truthful content) ↔
      ∀ first event rest, events = first ++ event :: rest →
        (first.foldl Page.next ({} : Page Doc)).AllLand content event := by
  have exactly : ∀ (page : Page Doc) (event : Event Doc), page.Sound ∧ page.Truthful content →
      ((page.next event).Sound ∧ (page.next event).Truthful content ↔ page.AllLand content event) :=
    fun page event inv => (and_iff_right (sound_next inv.1 event)).trans (truthful_next inv.1 inv.2 event)
  have start : ({} : Page Doc).Sound ∧ ({} : Page Doc).Truthful content :=
    ⟨⟨rfl, fun saving => (by cases saving), rfl, fun _ member => absurd member List.not_mem_nil⟩, truthful_closed rfl⟩
  rw [← Lib.reached_iff exactly start events]
  have sound : ∀ first : List (Event Doc), (first.foldl Page.next ({} : Page Doc)).Sound := by
    intro first
    induction first using List.reverseRecOn with
    | nil => exact start.1
    | append_singleton first event ih =>
      rw [List.foldl_append]
      exact sound_next ih event
  exact ⟨fun all first rest split => ⟨sound first, all first rest split⟩,
    fun all first rest split => (all first rest split).2⟩

end Runs

section Overtaken

def overtaken : List (Event Nat) :=
  [.opened "frm" 0 (some 1) [], .edited 1, .saving, .addedTestCase ⟨"t1", "one", none, none⟩, .answered 0 (.succeeded 2)]

/-- The status is clean, and the server has no test case. -/
theorem overtaken_untruthful : (overtaken.foldl Page.next ({} : Page Nat)).store.save.status = .clean ∧
    ¬ (overtaken.foldl Page.next ({} : Page Nat)).Truthful id := by
  refine ⟨rfl, fun truthful => ?_⟩
  obtain ⟨_, _, opened, acknowledged, -⟩ := truthful.clean rfl rfl
  cases opened
  cases acknowledged

end Overtaken

end DataCollectionLab.Builder
