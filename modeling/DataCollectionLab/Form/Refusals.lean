import DataCollectionLab.Form.RepeatCalls
import DataCollectionLab.Form.Resolvable

/-!
A call that is refused: what it wrote before the `CompileError`. An add and a delete refuse before they
write; a batch of answers and a restore write as they go.
-/

namespace DataCollectionLab.Form

open Lib

variable {form : CompiledForm} {s : FormInstance}

def Refused (s : FormInstance) (answer : String × Value) : Prop :=
  (∃ message, Reference.canonical s.instances answer.1 = .error (.compile message)) ∨
    ∃ path, Reference.canonical s.instances answer.1 = .ok path ∧ s.values path = none

def Placed (s : FormInstance) (answer : String × Value) : Prop :=
  ∃ path, Reference.canonical s.instances answer.1 = .ok path ∧ (s.values path).isSome

def Restates (s : FormInstance) (answer : String × Value) : Prop :=
  ∃ path, Reference.canonical s.instances answer.1 = .ok path ∧ s.values path = some answer.2

def Harmless (s : FormInstance) (answers : List (String × Value)) : Prop :=
  ∀ before answer rest, answers = before ++ answer :: rest → (∀ earlier ∈ before, Placed s earlier) →
    Refused s answer → ∀ earlier ∈ before, Restates s earlier

def Call.Careful (form : CompiledForm) (s : FormInstance) : Call → Prop
  | setMany answers => Harmless s answers
  | restore instances _ => Adoptable (adoptees form instances) s
  | set .. | addInstance .. | deleteInstance .. | recalculate => True

/-- The failure of a call: a `CompileError` that left the state as it was, or another exception. -/
def Unwritten (s : FormInstance) (e : Failure) (s' : FormInstance) : Prop :=
  (∃ message, e = .compile message) → s' = s

theorem unwritten_of_other {e : Failure} {s' : FormInstance} (other : ∀ message, e ≠ .compile message) :
    Unwritten s e s' := by
  rintro ⟨message, same⟩
  exact absurd same (other message)

section Calls

variable (session : Session) (evaluate : Context → Expr → Except Failure Value)

theorem placeAnswers_triple (before answers : List (String × Value)) (harmless : Harmless s (before ++ answers))
    (placed : ∀ earlier ∈ before, Placed s earlier) :
    Triple (fun t => WellFormed form t ∧ t.instances = s.instances ∧
        (∀ path, (t.values path).isSome = (s.values path).isSome) ∧
        ((∀ earlier ∈ before, Restates s earlier) → t = s))
      (answers.forM (placeAnswer (Reference.runtime evaluate))) (fun _ => WellFormed form) (Unwritten s) := by
  induction answers generalizing before with
  | nil => exact fun t holds => holds.1
  | cons answer rest ih =>
    refine Triple.bind (Q := fun _ t => Placed s answer ∧ WellFormed form t ∧ t.instances = s.instances ∧
      (∀ path, (t.values path).isSome = (s.values path).isSome) ∧
      ((∀ earlier ∈ before ++ [answer], Restates s earlier) → t = s)) ?_ fun _ => ?_
    · rintro t ⟨well, rows, keys, unchanged⟩
      have refused (refused : Refused s answer) : t = s :=
        unchanged (harmless before answer rest rfl placed refused)
      have canonical := placeAnswer_cases (Reference.runtime evaluate) answer t
      rw [rows] at canonical
      rcases canonical with ⟨e, canonical, ran⟩ | ⟨path, canonical, missing, ran⟩ | ⟨path, canonical, has, ran⟩
      · rw [ran]
        exact fun ⟨message, same⟩ => refused (Or.inl ⟨message, same ▸ canonical⟩)
      · rw [ran]
        have missing' : s.values path = none := by
          rw [← Option.not_isSome_iff_eq_none, ← keys, missing]
          exact Bool.false_ne_true
        exact fun _ => refused (Or.inr ⟨path, canonical, missing'⟩)
      · rw [ran]
        have kept := keys path ▸ has
        refine ⟨⟨path, canonical, kept⟩, (wellFormed_framed form).value t path answer.2 well
          ((well.states path).mpr ((well.values path).mp has)), rows, fun other => ?_, fun restates => ?_⟩
        · show (if other = path then some answer.2 else t.values other).isSome = _
          split
          · rename_i same
            rw [same, kept]
            rfl
          · exact keys other
        · obtain rfl := unchanged fun earlier member => restates earlier (List.mem_append_left _ member)
          obtain ⟨path', canonical', value⟩ := restates answer (by simp)
          obtain rfl := Except.ok.inj (canonical'.symm.trans canonical)
          exact setValue_same value
    · intro t ⟨here, holds⟩
      refine ih (before ++ [answer]) ?_ (fun earlier member => ?_) t holds
      · rwa [List.append_assoc]
      · rcases List.mem_append.mp member with old | last
        · exact placed earlier old
        · obtain rfl := List.mem_singleton.mp last
          exact here

end Calls

section Resolved

variable {lib : Library} (own : Reference.Library.Own lib) (session : Session) (formed : Formed form)
  (resolves : Resolves form)

include own formed resolves

theorem recalculate_unrefused :
    Triple (WellFormed form)
      (recalculate (Reference.runtime (Reference.evaluate (Reference.call lib) Reference.resolve)) form session)
      (fun _ => WellFormed form) fun e _ => ∀ message, e ≠ .compile message := by
  intro s well
  have whole := recalculate_triple (passable_of_formed formed (fun _ => []) s s)
    ((passAllowed_of_resolves session own resolves).mono fun _ (kept : _ ∧ _ ∧ _) => kept.1)
  exact Triple.mono whole (fun _ => id) (fun _ _ (kept : _ ∧ _ ∧ _) => kept.1) (fun _ _ => id) s
    ⟨well, grown_refl _ s, fun _ _ _ => rfl⟩

theorem recalculate_unwritten (s : FormInstance) :
    Triple (WellFormed form)
      (recalculate (Reference.runtime (Reference.evaluate (Reference.call lib) Reference.resolve)) form session)
      (fun _ _ => True) (Unwritten s) :=
  Triple.mono (recalculate_unrefused own session formed resolves) (fun _ => id) (fun _ _ _ => trivial)
    fun _ _ => unwritten_of_other

theorem perform_unwritten (well : WellFormed form s) {call : Call} (careful : call.Careful form s) :
    Triple (· = s)
      (call.perform (Reference.evaluate (Reference.call lib) Reference.resolve) form session)
      (fun _ _ => True) (Unwritten s) := by
  have passed := recalculate_unwritten own session formed resolves s
  have placed (answers : List (String × Value)) (harmless : Harmless s answers) :
      Triple (· = s) (setMany (Reference.runtime (Reference.evaluate (Reference.call lib) Reference.resolve))
        form session answers) (fun _ _ => True) (Unwritten s) := by
    refine Triple.bind (Triple.mono (placeAnswers_triple _ [] answers harmless (List.forall_mem_nil _)) ?_
      (fun _ _ => id) fun _ _ => id) fun _ => passed
    rintro s' rfl
    exact ⟨well, rfl, fun _ => rfl, fun _ => rfl⟩
  cases call with
  | set path value =>
    refine placed [(path, value)] fun before answer rest split _ _ earlier member => ?_
    cases before with
    | nil => cases member
    | cons head before => exact absurd (List.cons.inj split).2 (by simp)
  | setMany answers => exact placed answers careful
  | addInstance rid =>
    refine Triple.bind (Q := fun _ _ => True) ?_ fun _ => Triple.pure fun _ _ => trivial
    rcases @addInstance_cases form session
      (Reference.runtime (Reference.evaluate (Reference.call lib) Reference.resolve)) rid s with
      ⟨message, refused⟩ | ⟨node, found, -, -, steps⟩
    · exact Triple.of_error refused fun _ => rfl
    · obtain ⟨-, rfl⟩ := repeat?_mem found
      have created := @created_wellFormed form s formed well node.id (by rw [found]; rfl) none
      refine Triple.congr steps (Triple.bind (Q := fun _ => WellFormed form)
        (Triple.of_ok (createInstance_eq well node.id none) created) fun iid => ?_)
      exact Triple.bind (Q := fun _ _ => True) passed fun _ => Triple.pure fun _ _ => trivial
  | deleteInstance rid index =>
    rcases @deleteInstance_cases form session
      (Reference.runtime (Reference.evaluate (Reference.call lib) Reference.resolve)) rid index s
      with ⟨message, refused⟩ | ⟨node, found, inside, above, steps⟩
    · exact Triple.of_error refused fun _ => rfl
    · obtain ⟨ordered, well'⟩ := deleted_wellFormed formed well found inside above
      refine Triple.congr steps (Triple.bind (Q := fun _ s' => s' = _) (Triple.of_ok ordered rfl) fun _ => ?_)
      refine Triple.bind (Q := fun _ => WellFormed form) ?_ fun _ => passed
      rintro _ rfl
      exact well'
  | restore instances answers =>
    refine Triple.bind (Q := fun _ _ => True) ?_ fun _ => Triple.pure fun _ _ => trivial
    have allowed := (passAllowed_of_resolves session own resolves).mono
      fun s' (kept : WellFormed form s' ∧ Grown (handedTo instances) s s') => kept.1
    refine Triple.mono (restore_triple _ session formed answers allowed) ?_ (fun _ _ _ => trivial)
      fun _ _ => unwritten_of_other
    rintro s' rfl
    exact ⟨well, grown_refl _ s', careful⟩
  | recalculate =>
    rintro s' rfl
    exact passed s' well

end Resolved

/-- In every run of calls that are careful, of a form whose names resolve, a call that raises `CompileError`
leaves the state as it was. -/
theorem refused_leaves_state {children : List Node} (compiled : compile children = .ok form)
    (resolves : Resolves form) {lib : Library} (own : Reference.Library.Own lib) (session : Session)
    {s₀ : FormInstance} (constructed : construct
      (Reference.runtime (Reference.evaluate (Reference.call lib) Reference.resolve)) form session s₀ = .ok () s)
    (calls : List Call) (careful : ∀ before call rest, calls = before ++ call :: rest →
      call.Careful form (Call.reach form (Reference.evaluate (Reference.call lib) Reference.resolve) session before s)) :
    ∀ before call rest, calls = before ++ call :: rest → ∀ message s',
      call.perform (Reference.evaluate (Reference.call lib) Reference.resolve) form session
          (Call.reach form (Reference.evaluate (Reference.call lib) Reference.resolve) session before s) =
        .error (.compile message) s' →
      s' = Call.reach form (Reference.evaluate (Reference.call lib) Reference.resolve) session before s := by
  rintro before call rest rfl message s' refused
  have formed := compile_formed compiled
  have orderly : Call.Orderly form (Reference.evaluate (Reference.call lib) Reference.resolve) session
      (before ++ call :: rest) s := by
    intro earlier other later split
    have meets := careful earlier other later split
    cases other with
    | restore instances answers => exact meets
    | _ => trivial
  obtain ⟨well, -⟩ := Call.reach_kept formed
    (construct_wellFormed _ session formed constructed) orderly.of_append.1
  have held := perform_unwritten own session formed resolves well (careful before call rest rfl) _ rfl
  rw [refused] at held
  exact held ⟨message, rfl⟩

section Roster

theorem pair_split {α : Type} {a b c : α} {before rest : List α} (split : [a, b] = before ++ c :: rest) :
    before = [] ∧ c = a ∨ before = [a] ∧ c = b := by
  match before with
  | [] => exact Or.inl ⟨rfl, (List.cons.inj split).1.symm⟩
  | [x] =>
    obtain ⟨same, split⟩ := List.cons.inj split
    exact Or.inr ⟨by rw [same], (List.cons.inj split).1.symm⟩
  | x :: y :: more =>
    have length := congrArg List.length split
    simp at length

theorem roster_resolves : Resolves rosterForm := by
  refine ⟨fun cf member => ?_, fun node member => ?_, fun node member => ?_⟩
  · obtain rfl := List.mem_singleton.mp member
    refine ⟨fun cid member expr given => ?_, nofun, nofun, nofun, nofun, nofun, nofun, nofun, nofun⟩
    obtain rfl := List.mem_singleton.mp member
    cases given
  · obtain rfl := List.mem_singleton.mp member
    exact nofun
  · obtain rfl := List.mem_singleton.mp member
    exact nofun

variable (evaluate : Context → Expr → Except Failure Value)

theorem newRoster_constructed :
    construct (Reference.runtime evaluate) rosterForm noon (blank rosterForm) = .ok () newRoster := rfl

def oneMember : FormInstance := after (addInstance (Reference.runtime noExpressions) rosterForm noon "members") newRoster

theorem oneMember_reached : Call.reach rosterForm evaluate noon [.addInstance "members"] newRoster = oneMember := rfl

theorem oneMember_canonical : (Reference.canonical oneMember.instances "members[0].name") = .ok "members[i1].name" := by
  decide +kernel

def rosterBatch (name : Value) : Call := .setMany [("members[0].name", name), ("age", .integer 4)]

theorem rosterBatch_refused (name : Value) :
    (rosterBatch name).perform evaluate rosterForm noon oneMember =
      .error (.compile "unknown field: age") (oneMember.setValue "members[i1].name" name) := by
  have named : placeAnswer (Reference.runtime evaluate) ("members[0].name", name) oneMember =
      .ok () (oneMember.setValue "members[i1].name" name) := by
    rcases placeAnswer_cases (Reference.runtime evaluate) ("members[0].name", name) oneMember with ⟨e, canonical, -⟩ |
      ⟨path, canonical, missing, -⟩ | ⟨path, canonical, -, ran⟩
    · dsimp only [Reference.runtime] at canonical
      rw [oneMember_canonical] at canonical
      cases canonical
    · dsimp only [Reference.runtime] at canonical
      rw [oneMember_canonical] at canonical
      obtain rfl := Except.ok.inj canonical
      cases missing
    · dsimp only [Reference.runtime] at canonical
      rw [oneMember_canonical] at canonical
      obtain rfl := Except.ok.inj canonical
      exact ran
  have unknown : placeAnswer (Reference.runtime evaluate) ("age", .integer 4)
      (oneMember.setValue "members[i1].name" name) =
      .error (.compile "unknown field: age") (oneMember.setValue "members[i1].name" name) := rfl
  show (EStateM.bind (EStateM.bind (placeAnswer _ ("members[0].name", name)) fun _ =>
    EStateM.bind (placeAnswer _ ("age", .integer 4)) fun _ => pure PUnit.unit) _ : Run Unit) oneMember = _
  simp only [EStateM.bind, named, unknown]

/-- The batch that leaves the name unanswered changes nothing. -/
theorem rosterBatch_leaves_state :
    (rosterBatch .null).perform (Reference.evaluate (Reference.call noLibrary) Reference.resolve) rosterForm noon
        (Call.reach rosterForm (Reference.evaluate (Reference.call noLibrary) Reference.resolve) noon
          [.addInstance "members"] newRoster) =
      .error (.compile "unknown field: age")
        (Call.reach rosterForm (Reference.evaluate (Reference.call noLibrary) Reference.resolve) noon
          [.addInstance "members"] newRoster) := by
  have careful : ∀ before call rest, [.addInstance "members", rosterBatch .null] = before ++ call :: rest →
      call.Careful rosterForm (Call.reach rosterForm
        (Reference.evaluate (Reference.call noLibrary) Reference.resolve) noon before newRoster) := by
    intro before call rest split
    rcases pair_split split with ⟨rfl, rfl⟩ | ⟨rfl, rfl⟩
    · trivial
    · rw [oneMember_reached]
      intro earlier answer later inner placed refused entry member
      rcases pair_split inner with ⟨rfl, rfl⟩ | ⟨rfl, rfl⟩
      · cases member
      · obtain rfl := List.mem_singleton.mp member
        exact ⟨"members[i1].name", oneMember_canonical, rfl⟩
  have refused := rosterBatch_refused (Reference.evaluate (Reference.call noLibrary) Reference.resolve) .null
  rw [← oneMember_reached (Reference.evaluate (Reference.call noLibrary) Reference.resolve)] at refused
  have unchanged := @refused_leaves_state rosterForm newRoster roster rfl roster_resolves noLibrary
    (fun _ _ => trivial) noon (blank rosterForm) (newRoster_constructed _) _ careful [.addInstance "members"] _ []
    rfl _ _ refused
  rw [unchanged] at refused
  exact refused

/-- The batch that gives a name leaves it written. -/
theorem refused_batch_writes : compile roster = .ok rosterForm ∧
    construct (Reference.runtime (Reference.evaluate (Reference.call noLibrary) Reference.resolve)) rosterForm noon
      (blank rosterForm) = .ok () newRoster ∧
    ∃ message s', (rosterBatch (.text "Ama")).perform
        (Reference.evaluate (Reference.call noLibrary) Reference.resolve) rosterForm noon
        (Call.reach rosterForm (Reference.evaluate (Reference.call noLibrary) Reference.resolve) noon
          [.addInstance "members"] newRoster) = .error (.compile message) s' ∧
      s' ≠ Call.reach rosterForm (Reference.evaluate (Reference.call noLibrary) Reference.resolve) noon
        [.addInstance "members"] newRoster := by
  refine ⟨rfl, newRoster_constructed _, _, _, rosterBatch_refused _ _, fun same => ?_⟩
  rw [oneMember_reached] at same
  have value := congrFun (congrArg FormInstance.values same) "members[i1].name"
  cases value

end Roster

end DataCollectionLab.Form
