import DataCollectionLab.Form.Freshness
import DataCollectionLab.Form.Navigation
import DataCollectionLab.Lib.Runs
import Mathlib.Data.Prod.Lex

/-!
Where a form that may not be finalised sends the enumerator: to the first screen with a question that blocks it.
-/

namespace DataCollectionLab.Form

open Lib

section Positions

variable (s : FormInstance) (plan : ScreenPlan)

def HoldsOn (screen : FormScreen) (position : Position) : Prop :=
  position.screen = screen.index ∧
    ((position.instanceId = none ∧ position.instanceScreen = none ∧ ∃ qid ∈ screen.questionIds, blocking s qid = true) ∨
      ∃ rid iid, screen.kind = .repeated ∧ screen.repeatId = some rid ∧ iid ∈ s.rows rid ∧
        position.instanceId = some iid ∧ ∃ inner ∈ plan.level (some rid), position.instanceScreen = some (inner.index : ℤ) ∧
          ∃ qid ∈ inner.questionIds, blocking s (instancePath rid iid qid) = true)

def placeOf (position : Position) : ℕ :=
  ((position.instanceId.bind fun iid =>
    (plan.screens.find? fun screen => (screen.index : ℤ) = position.screen).bind fun screen =>
      screen.repeatId.map fun rid => (s.rows rid).idxOf iid)).getD 0

def orderOf (position : Position) : ℤ ×ₗ ℕ ×ₗ ℤ :=
  toLex (position.screen, toLex (placeOf s plan position, position.instanceScreen.getD 0))

variable (pager : Pager) (form : CompiledForm) (session : Session)

def Refuses (position : Position) : Prop :=
  ∃ screen ∈ plan.screens, HoldsOn s plan screen position ∧ screenRelevant pager form session s screen = .ok true ∧
    ∀ rid iid, screen.repeatId = some rid → position.instanceId = some iid → ∃ inner ∈ plan.level (some rid),
      position.instanceScreen = some (inner.index : ℤ) ∧ instanceScreenRelevant s inner rid iid = true

/-- What `first_blocking_position` has to do. -/
structure LeadsRight : Prop where
  nowhere : firstBlockingPosition s plan = none ↔
    ∀ path, blocking s path = true → ∃ cf ∈ form.fields, cf.Cell path ∧ cf.node.calculate.isSome
  first : ∀ position, firstBlockingPosition s plan = some position →
    Refuses s plan pager form session position ∧
      ∀ other, Refuses s plan pager form session other → orderOf s plan position ≤ orderOf s plan other

end Positions

section First

variable {s : FormInstance} {plan : ScreenPlan}

theorem blockingInside_none {rid iid : String} (nowhere : blockingInside s plan rid iid = none) :
    ∀ inner ∈ plan.level (some rid), ∀ qid ∈ inner.questionIds, blocking s (instancePath rid iid qid) ≠ true := by
  intro inner member qid asked blocks
  exact List.find?_eq_none.mp nowhere inner member (List.any_eq_true.mpr ⟨qid, asked, blocks⟩)

theorem blockingOn_none {screen : FormScreen} (silent : screen.kind = .repeated → screen.questionIds = [])
    (nowhere : blockingOn s plan screen = none) (position : Position) : ¬ HoldsOn s plan screen position := by
  rintro ⟨-, ⟨-, -, qid, asked, blocks⟩ | ⟨rid, iid, kind, names, within, -, inner, member, -, qid, asked, blocks⟩⟩
  · have kind : screen.kind = .questions := by
      cases kind : screen.kind with
      | questions => rfl
      | repeated =>
        rw [silent kind] at asked
        cases asked
    rw [blockingOn, kind] at nowhere
    dsimp only at nowhere
    rw [if_pos (List.any_eq_true.mpr ⟨qid, asked, blocks⟩)] at nowhere
    cases nowhere
  · rw [blockingOn, kind, names] at nowhere
    have skipped := List.findSome?_eq_none_iff.mp nowhere iid within
    exact blockingInside_none (Option.map_eq_none_iff.mp skipped) inner member qid asked blocks

theorem placeOf_within (distinct : (plan.screens.map FormScreen.index).Nodup) {screen : FormScreen}
    (listed : screen ∈ plan.screens) {rid iid : String} (names : screen.repeatId = some rid) {position : Position}
    (here : position.screen = screen.index) (inside : position.instanceId = some iid) :
    placeOf s plan position = (s.rows rid).idxOf iid := by
  have found : (plan.screens.find? fun screen => (screen.index : ℤ) = position.screen) = some screen := by
    cases found : plan.screens.find? fun screen => (screen.index : ℤ) = position.screen with
    | none => exact absurd here.symm (by simpa using List.find?_eq_none.mp found screen listed)
    | some other =>
      have same : (other.index : ℤ) = position.screen := by simpa using List.find?_some found
      refine congrArg some (List.inj_on_of_nodup_map distinct (List.mem_of_find?_eq_some found) listed ?_)
      exact_mod_cast same.trans here
  rw [placeOf, inside, Option.bind_some, found, Option.bind_some, names]
  rfl

theorem orderOf_le_iff {position other : Position} : orderOf s plan position ≤ orderOf s plan other ↔
    position.screen < other.screen ∨ position.screen = other.screen ∧
      (placeOf s plan position < placeOf s plan other ∨ placeOf s plan position = placeOf s plan other ∧
        position.instanceScreen.getD 0 ≤ other.instanceScreen.getD 0) := by
  rw [orderOf, orderOf, Prod.Lex.toLex_le_toLex, Prod.Lex.toLex_le_toLex]

theorem blockingOn_some (distinct : (plan.screens.map FormScreen.index).Nodup)
    (sorted : ∀ rid, (plan.level (some rid)).Pairwise fun a b => a.index < b.index) {screen : FormScreen}
    (listed : screen ∈ plan.screens) (silent : screen.kind = .repeated → screen.questionIds = []) {position : Position}
    (found : blockingOn s plan screen = some position) : HoldsOn s plan screen position ∧
      ∀ other, HoldsOn s plan screen other → orderOf s plan position ≤ orderOf s plan other := by
  cases kind : screen.kind with
  | questions =>
    rw [blockingOn, kind] at found
    dsimp only at found
    split at found
    · rename_i blocks
      obtain rfl := Option.some.inj found
      refine ⟨⟨rfl, Or.inl ⟨rfl, rfl, List.any_eq_true.mp blocks⟩⟩, ?_⟩
      rintro other ⟨here, ⟨outside, unset, -⟩ | ⟨_, _, repeated, -⟩⟩
      · refine orderOf_le_iff.mpr (Or.inr ⟨here.symm, Or.inr ⟨?_, by rw [unset]⟩⟩)
        rw [placeOf, placeOf, outside]
        rfl
      · rw [kind] at repeated
        cases repeated
    · cases found
  | repeated =>
    cases names : screen.repeatId with
    | none =>
      rw [blockingOn, kind, names] at found
      cases found
    | some rid =>
      rw [blockingOn, kind, names] at found
      obtain ⟨before, iid, after, rows, inside, passed⟩ := List.findSome?_eq_some_iff.mp found
      obtain ⟨inner, first, rfl⟩ := Option.map_eq_some_iff.mp inside
      obtain ⟨blocks, earlier, later, screens, skipped⟩ := List.find?_eq_some_iff_append.mp first
      have within : iid ∈ s.rows rid := rows ▸ List.mem_append_right _ List.mem_cons_self
      have level : plan.level (some rid) = earlier ++ inner :: later := screens
      have new : iid ∉ before := fun old => by
        have none := passed iid old
        rw [first] at none
        cases none
      refine ⟨⟨rfl, Or.inr ⟨rid, iid, kind, names, within, rfl, inner, ?_, rfl, List.any_eq_true.mp blocks⟩⟩, ?_⟩
      · rw [level]
        exact List.mem_append_right _ List.mem_cons_self
      rintro other ⟨here, ⟨-, -, qid, asked, -⟩ | ⟨rid', iid', -, names', within', at_, inner', member, shown, qid, asked, blocks'⟩⟩
      · rw [silent kind] at asked
        cases asked
      obtain rfl : rid = rid' := Option.some.inj (names.symm.trans names')
      have place : (s.rows rid).idxOf iid = before.length := by
        rw [rows, List.idxOf_append_of_notMem new, List.idxOf_cons_self, Nat.add_zero]
      have new' : iid' ∉ before := fun old =>
        blockingInside_none (Option.map_eq_none_iff.mp (passed iid' old)) inner' member qid asked blocks'
      refine orderOf_le_iff.mpr (Or.inr ⟨here.symm, ?_⟩)
      rw [placeOf_within distinct listed names here at_, placeOf_within distinct listed names rfl rfl, place, shown]
      by_cases same : iid' = iid
      · subst same
        refine Or.inr ⟨place.symm, ?_⟩
        have bound : inner.index ≤ inner'.index := by
          have ordered := sorted rid
          rw [level] at ordered member
          rcases List.mem_append.mp member with old | rest
          · have unblocked := skipped inner' old
            rw [List.any_eq_true.mpr ⟨qid, asked, blocks'⟩] at unblocked
            cases unblocked
          · rcases List.mem_cons.mp rest with rfl | after
            · exact le_refl _
            · exact ((List.pairwise_cons.mp (List.pairwise_append.mp ordered).2.1).1 inner' after).le
        show (inner.index : ℤ) ≤ inner'.index
        exact_mod_cast bound
      · refine Or.inl ?_
        rw [rows, List.idxOf_append_of_notMem new', List.idxOf_cons_ne _ fun back => same back.symm]
        omega

end First

section Fresh

variable {children : List Node} {form : CompiledForm} (compiled : compile children = .ok form) {s : FormInstance}

theorem relevantAt_of_blocking {path : String} (blocks : blocking s path = true) : relevantAt s path = true := by
  unfold blocking at blocks
  unfold relevantAt
  cases found : s.states path with
  | none =>
    rw [found] at blocks
    cases blocks
  | some state =>
    rw [found] at blocks
    exact (Bool.and_eq_true_iff.mp blocks).1

include compiled

theorem asked_iff {level : Option String} {qid : String} :
    (∃ screen ∈ (Reference.buildScreenPlan children).level level, qid ∈ screen.questionIds) ↔
      ∃ cf ∈ form.fields, cf.fieldId = qid ∧ cf.repeatId = level ∧ cf.node.calculate = none := by
  rw [← List.mem_flatMap, (partition_of_compiled compiled).ordered level, mem_asked, ← (compile_places compiled).1]
  constructor
  · rintro ⟨entry, member, here, asked, id⟩
    obtain ⟨cf, listed, rfl⟩ := List.mem_map.mp member
    exact ⟨cf, listed, id, here, asked⟩
  · rintro ⟨cf, listed, id, here, asked⟩
    exact ⟨cf.place, List.mem_map_of_mem listed, here, asked, id⟩

theorem repeatScreen {node : Repeat} (listed : node ∈ form.repeats) :
    ∃ screen ∈ (Reference.buildScreenPlan children).screens, screen.kind = .repeated ∧ screen.repeatId = some node.id := by
  have one := ((partition_of_compiled compiled).repeats node ((compile_places compiled).2.1 ▸ listed)).2
  obtain ⟨screen, same⟩ := List.length_eq_one_iff.mp one
  have within : screen ∈ [screen] := List.mem_singleton_self _
  rw [← same, List.mem_filter, decide_eq_true_eq] at within
  exact ⟨screen, within.1, within.2⟩

theorem holds_of_blocking (owned : Owned form s) {path : String} (blocks : blocking s path = true) :
    (∃ cf ∈ form.fields, cf.Cell path ∧ cf.node.calculate.isSome) ∨
      ∃ screen ∈ (Reference.buildScreenPlan children).screens, ∃ position,
        HoldsOn s (Reference.buildScreenPlan children) screen position := by
  have stated : (s.states path).isSome := by
    by_contra absent
    rw [blocking, Option.not_isSome_iff_eq_none.mp absent] at blocks
    cases blocks
  rcases owned.states path stated with ⟨cf, member, top, rfl⟩ | ⟨cf, member, rid, inside, iid, within, rfl⟩
  · cases computed : cf.node.calculate with
    | some expr => exact Or.inl ⟨cf, member, by rw [CompiledField.Cell, top], by rw [computed]; rfl⟩
    | none =>
      obtain ⟨screen, listed, asked⟩ := (asked_iff compiled).mpr ⟨cf, member, rfl, top, computed⟩
      exact Or.inr ⟨screen, listed, { screen := screen.index }, rfl, Or.inl ⟨rfl, rfl, cf.fieldId, asked, blocks⟩⟩
  · cases computed : cf.node.calculate with
    | some expr =>
      exact Or.inl ⟨cf, member, by rw [CompiledField.Cell, inside]; exact ⟨iid, rfl⟩, by rw [computed]; rfl⟩
    | none =>
      obtain ⟨inner, listed, asked⟩ := (asked_iff compiled).mpr ⟨cf, member, rfl, inside, computed⟩
      obtain ⟨node, repeats, rfl⟩ := (compile_formed compiled).within cf member rid inside
      obtain ⟨screen, listed', kind, names⟩ := repeatScreen compiled repeats
      exact Or.inr ⟨screen, listed', { screen := screen.index, instanceId := some iid, instanceScreen := some (inner.index : ℤ) },
        rfl, Or.inr ⟨node.id, iid, kind, names, within, rfl, inner, listed, rfl, cf.fieldId, asked, blocks⟩⟩

theorem not_calculate_of_holds (owned : Owned form s) {screen : FormScreen}
    (listed : screen ∈ (Reference.buildScreenPlan children).screens) {position : Position}
    (holds : HoldsOn s (Reference.buildScreenPlan children) screen position) :
    ∃ path, blocking s path = true ∧ ∀ cf ∈ form.fields, cf.Cell path → cf.node.calculate = none := by
  have formed := compile_formed compiled
  obtain ⟨-, ⟨-, -, qid, asked, blocks⟩ | ⟨rid, iid, -, -, within, -, inner, member, -, qid, asked, blocks⟩⟩ := holds
  · refine ⟨qid, blocks, fun cf field cell => ?_⟩
    have level : screen ∈ (Reference.buildScreenPlan children).level none := listed
    obtain ⟨own, field', rfl, -, plain⟩ := (asked_iff compiled).mp ⟨screen, level, asked⟩
    unfold CompiledField.Cell at cell
    cases place : cf.repeatId with
    | none =>
      rw [place] at cell
      rw [← List.inj_on_of_nodup_map formed.distinct field' field cell]
      exact plain
    | some r =>
      rw [place] at cell
      obtain ⟨i, same⟩ := cell
      exact absurd same.symm (instancePath_ne (formed.plain own field'))
  · refine ⟨instancePath rid iid qid, blocks, fun cf field cell => ?_⟩
    obtain ⟨own, field', rfl, -, plain⟩ := (asked_iff compiled).mp ⟨inner, member, asked⟩
    obtain ⟨node, repeats, rfl⟩ := owned.rows rid iid within
    unfold CompiledField.Cell at cell
    cases place : cf.repeatId with
    | none =>
      rw [place] at cell
      exact absurd cell (instancePath_ne (formed.plain cf field))
    | some r =>
      rw [place] at cell
      obtain ⟨i, same⟩ := cell
      obtain ⟨node', repeats', rfl⟩ := formed.within cf field r place
      obtain ⟨-, -, id⟩ := instancePath_injective (formed.plainRepeats node repeats) (formed.plain own field')
        (formed.plainRepeats node' repeats') (formed.plain cf field) same
      rw [← List.inj_on_of_nodup_map formed.distinct field' field id]
      exact plain

variable (lib : Library) {session : Session} (fresh : Fresh lib form session form.topoOrder s)

include fresh

theorem refuses_of_holds {screen : FormScreen} (listed : screen ∈ (Reference.buildScreenPlan children).screens)
    {position : Position} (holds : HoldsOn s (Reference.buildScreenPlan children) screen position) :
    Refuses s (Reference.buildScreenPlan children)
      (Reference.pager (Reference.evaluate (Reference.call lib) Reference.resolve)) form session position := by
  have planned := level_planned compiled none
  refine ⟨screen, listed, holds, ?_⟩
  obtain ⟨-, ⟨outside, -, qid, asked, blocks⟩ | ⟨rid, iid, kind, names, within, inside, inner, member, shown, qid, asked, blocks⟩⟩ :=
    holds
  · have kind : screen.kind = .questions := by
      cases kind : screen.kind with
      | questions => rfl
      | repeated =>
        rw [planned.1.silent screen listed kind] at asked
        cases asked
    refine ⟨?_, fun rid iid _ inside => by rw [outside] at inside; cases inside⟩
    rw [screenRelevant, kind]
    exact congrArg Except.ok (List.any_eq_true.mpr ⟨qid, asked, relevantAt_of_blocking blocks⟩)
  · obtain ⟨cf, field, rfl, here, plain⟩ := (asked_iff compiled).mp ⟨inner, member, asked⟩
    have relevant := relevantAt_of_blocking blocks
    constructor
    · obtain ⟨-, -, -, -, -, -, -, sorted⟩ := compile_parts compiled
      have told := fresh cf field (mem_topoOrder sorted field) plain rid here iid within relevant
      rw [screenRelevant_repeated kind names,
        show containerRelevant (Reference.pager _).evaluate form session s rid = .ok true from told]
      have some : 0 < (s.rows rid).length := List.length_pos_of_mem within
      show Except.ok (decide (0 < (s.rows rid).length) || canAdd form s rid) = _
      rw [decide_eq_true some, Bool.true_or]
    · intro rid' iid' names' inside'
      obtain rfl : rid = rid' := Option.some.inj (names.symm.trans names')
      obtain rfl : iid = iid' := Option.some.inj (inside.symm.trans inside')
      exact ⟨inner, member, shown, List.any_eq_true.mpr ⟨cf.fieldId, asked, relevant⟩⟩

theorem leadsRight_of_fresh (owned : Owned form s) : LeadsRight s (Reference.buildScreenPlan children)
    (Reference.pager (Reference.evaluate (Reference.call lib) Reference.resolve)) form session := by
  have silent := (level_planned compiled none).1.silent
  have sorted (level : Option String) :
      ((Reference.buildScreenPlan children).level level).Pairwise fun a b => a.index < b.index := by
    rw [← List.pairwise_map (f := FormScreen.index) (R := (· < ·)), (partition_of_compiled compiled).indices level]
    exact List.pairwise_lt_range
  have distinct : ((Reference.buildScreenPlan children).screens.map FormScreen.index).Nodup := by
    have same := (partition_of_compiled compiled).indices none
    rw [show (Reference.buildScreenPlan children).level none = (Reference.buildScreenPlan children).screens from rfl] at same
    rw [same]
    exact List.nodup_range
  have found {position : Position} (first : firstBlockingPosition s (Reference.buildScreenPlan children) = some position) :
      ∃ before screen after, (Reference.buildScreenPlan children).screens = before ++ screen :: after ∧
        (HoldsOn s (Reference.buildScreenPlan children) screen position ∧
          ∀ other, HoldsOn s (Reference.buildScreenPlan children) screen other →
            orderOf s (Reference.buildScreenPlan children) position ≤ orderOf s (Reference.buildScreenPlan children) other) ∧
        ∀ earlier ∈ before, blockingOn s (Reference.buildScreenPlan children) earlier = none := by
    obtain ⟨before, screen, after, whole, here, passed⟩ := List.findSome?_eq_some_iff.mp first
    have listed : screen ∈ (Reference.buildScreenPlan children).screens :=
      whole ▸ List.mem_append_right _ List.mem_cons_self
    exact ⟨before, screen, after, whole,
      blockingOn_some distinct (fun rid => sorted (some rid)) listed (silent screen listed) here, passed⟩
  refine ⟨⟨fun nowhere path blocks => ?_, fun calculates => ?_⟩, fun position first => ?_⟩
  · refine (holds_of_blocking compiled owned blocks).resolve_right ?_
    rintro ⟨screen, listed, position, holds⟩
    exact blockingOn_none (silent screen listed) (List.findSome?_eq_none_iff.mp nowhere screen listed) position holds
  · by_contra somewhere
    obtain ⟨position, first⟩ := Option.ne_none_iff_exists'.mp somewhere
    obtain ⟨before, screen, after, whole, ⟨holds, -⟩, -⟩ := found first
    obtain ⟨path, blocks, plain⟩ := not_calculate_of_holds compiled owned
      (whole ▸ List.mem_append_right _ List.mem_cons_self) holds
    obtain ⟨cf, member, cell, computed⟩ := calculates path blocks
    rw [plain cf member cell] at computed
    cases computed
  · obtain ⟨before, screen, after, whole, ⟨holds, least⟩, passed⟩ := found first
    have listed : screen ∈ (Reference.buildScreenPlan children).screens :=
      whole ▸ List.mem_append_right _ List.mem_cons_self
    refine ⟨refuses_of_holds compiled lib fresh listed holds, ?_⟩
    rintro other ⟨screen', listed', holds', -⟩
    have ordered := sorted none
    rw [show (Reference.buildScreenPlan children).level none = _ from whole] at ordered
    have among := listed'
    rw [whole] at among
    rcases List.mem_append.mp among with old | rest
    · exact absurd holds' (blockingOn_none (silent screen' listed') (passed screen' old) other)
    · rcases List.mem_cons.mp rest with rfl | later
      · exact least other holds'
      · refine orderOf_le_iff.mpr (Or.inl ?_)
        rw [holds.1, holds'.1]
        exact_mod_cast (List.pairwise_cons.mp (List.pairwise_append.mp ordered).2.1).1 screen' later

end Fresh

/-- The states of an interview whose calls returned; one that is refused before it writes leaves what it found. -/
inductive Reached (evaluate : Context → Expr → Except Failure Value) (form : CompiledForm) (session : Session) :
    FormInstance → Prop
  | constructed {s₀ s : FormInstance} (ran : construct (Reference.runtime evaluate) form session s₀ = .ok () s) :
      Reached evaluate form session s
  | called {s s' : FormInstance} {call : Call} (before : Reached evaluate form session s)
      (ran : call.perform evaluate form session s = .ok () s') : Reached evaluate form session s'

/-- Where what makes a repeat relevant is known outside it, the form leads from every state to the first screen
that has to be answered again. -/
theorem leadsRight_of_independent {children : List Node} {form : CompiledForm} (compiled : compile children = .ok form)
    (independent : Independent form) (lib : Library) (session : Session) {s : FormInstance}
    (reached : Reached (Reference.evaluate (Reference.call lib) Reference.resolve) form session s) :
    LeadsRight s (Reference.buildScreenPlan children)
      (Reference.pager (Reference.evaluate (Reference.call lib) Reference.resolve)) form session := by
  have kept : Owned form s ∧ Fresh lib form session form.topoOrder s := by
    induction reached with
    | constructed ran => exact construct_fresh lib compiled independent ran
    | called before ran ih => exact (perform_fresh lib compiled independent _).ok ih.1 ran
  exact leadsRight_of_fresh compiled lib kept.2 kept.1

section Examples

def consented : List Node :=
  [.question { id := "consent", dataType := "boolean" },
    .repeated { id := "members", relevant := some (.ref "consent") }
      [.question { id := "name", dataType := "text", required := some (.fixed true) }]]

def consentedForm : CompiledForm where
  fields := [
    { node := { id := "consent", dataType := "boolean" }, dependsOn := [], ancestors := [],
      repeatId := none, choiceQuery := none, rowsQuery := none },
    { node := { id := "name", dataType := "text", required := some (.fixed true) }, dependsOn := ["consent"],
      ancestors := ["members"], repeatId := some "members", choiceQuery := none, rowsQuery := none }]
  containers := [{ id := "members", relevant := some (.ref "consent"), appearance := none, ancestors := [] }]
  repeats := [{ id := "members", relevant := some (.ref "consent") }]
  topoOrder := ["consent", "name"]

def newConsented : FormInstance :=
  after (construct (Reference.runtime plainEvaluate) consentedForm noon) (blank consentedForm)

def withMember : FormInstance :=
  after ((Call.addInstance "members").perform plainEvaluate consentedForm noon) newConsented

theorem consented_leadsRight : LeadsRight withMember (Reference.buildScreenPlan consented)
      (Reference.pager plainEvaluate) consentedForm noon ∧
    firstBlockingPosition withMember (Reference.buildScreenPlan consented) = some (.within 1 "i1" 0) := by
  have compiled : compile consented = .ok consentedForm := rfl
  have constructed : construct (Reference.runtime plainEvaluate) consentedForm noon (blank consentedForm) =
      .ok () newConsented := rfl
  have added : (Call.addInstance "members").perform plainEvaluate consentedForm noon newConsented =
      .ok () withMember := rfl
  have independent : Independent consentedForm := by
    intro node member expr listed path read
    obtain rfl := List.mem_singleton.mp member
    obtain rfl : expr = .ref "consent" := List.mem_singleton.mp listed
    obtain rfl : path = "consent" := List.mem_singleton.mp read
    exact ⟨_, List.mem_cons_self, rfl, rfl⟩
  exact ⟨leadsRight_of_independent compiled independent noLibrary noon (.called (.constructed constructed) added), rfl⟩

def register : List Node :=
  [.repeated { id := "visits", relevant := some (.ref "present") }
    [.question { id := "present", dataType := "boolean", required := some (.fixed true) }]]

def registerForm : CompiledForm where
  fields := [
    { node := { id := "present", dataType := "boolean", required := some (.fixed true) }, dependsOn := ["present"],
      ancestors := ["visits"], repeatId := some "visits", choiceQuery := none, rowsQuery := none }]
  containers := [{ id := "visits", relevant := some (.ref "present"), appearance := none, ancestors := [] }]
  repeats := [{ id := "visits", relevant := some (.ref "present") }]
  topoOrder := ["present"]

def newRegister : FormInstance :=
  after (construct (Reference.runtime plainEvaluate) registerForm noon) (blank registerForm)

def withVisit : FormInstance :=
  after ((Call.addInstance "visits").perform plainEvaluate registerForm noon) newRegister

/-- The refusal leads into the visit, whose screen cannot be told to be shown. -/
theorem register_misled : compile register = .ok registerForm ∧
    construct (Reference.runtime plainEvaluate) registerForm noon (blank registerForm) = .ok () newRegister ∧
    (Call.addInstance "visits").perform plainEvaluate registerForm noon newRegister = .ok () withVisit ∧
    firstBlockingPosition withVisit (Reference.buildScreenPlan register) = some (.within 0 "i1" 0) ∧
    (Reference.buildScreenPlan register).screens.map
      (screenRelevant (Reference.pager plainEvaluate) registerForm noon withVisit) =
        [.error (.compile "unresolvable reference: present")] ∧
    ¬ LeadsRight withVisit (Reference.buildScreenPlan register) (Reference.pager plainEvaluate) registerForm noon := by
  have first : firstBlockingPosition withVisit (Reference.buildScreenPlan register) = some (.within 0 "i1" 0) := rfl
  refine ⟨rfl, rfl, rfl, first, rfl, fun leads => ?_⟩
  obtain ⟨screen, listed, -, shown, -⟩ := (leads.first _ first).1
  obtain rfl : screen = ⟨0, .repeated, none, none, [], some "visits"⟩ := List.mem_singleton.mp listed
  cases shown

end Examples

end DataCollectionLab.Form
