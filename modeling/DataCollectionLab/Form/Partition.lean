import DataCollectionLab.Form.Screens
import DataCollectionLab.Form.Places

/-!
The plan of screens of a document that the compiler takes is a partition of its questions, and both engines
make the same one.
-/

namespace DataCollectionLab.Form

open Lib

section Agreement

theorem collectQuestions_congr {children : List Node} (each : ∀ child ∈ children, ∀ out,
    Device.collectQuestion out child = Reference.collectQuestion out child) :
    ∀ out, Device.collectQuestions out children = Reference.collectQuestions out children := by
  induction children with
  | nil => intro out; rfl
  | cons child rest ih =>
    intro out
    rw [Device.collectQuestions, Reference.collectQuestions, each child List.mem_cons_self]
    exact ih (fun child member => each child (List.mem_cons_of_mem _ member)) _

theorem collectQuestion_device (node : Node) :
    ∀ out, Device.collectQuestion out node = Reference.collectQuestion out node := by
  induction node using node_induction with
  | question node => intro out; simp [Device.collectQuestion, Reference.collectQuestion]
  | group node children ih => exact collectQuestions_congr ih
  | repeated node children => intro out; rfl

theorem walkScreens_congr {children : List Node} (each : ∀ child ∈ children, ∀ sectionId out plans,
    Device.walkScreen sectionId out plans child = Reference.walkScreen sectionId out plans child) :
    ∀ sectionId out plans,
      Device.walkScreens sectionId out plans children = Reference.walkScreens sectionId out plans children := by
  induction children with
  | nil => intro sectionId out plans; rfl
  | cons child rest ih =>
    intro sectionId out plans
    rw [Device.walkScreens, Reference.walkScreens, each child List.mem_cons_self]
    exact ih (fun child member => each child (List.mem_cons_of_mem _ member)) _ _ _

theorem walkScreen_device (node : Node) : ∀ sectionId out plans,
    Device.walkScreen sectionId out plans node = Reference.walkScreen sectionId out plans node := by
  induction node using node_induction with
  | question node =>
    intro sectionId out plans
    rw [Device.walkScreen, Reference.walkScreen]
    cases node.calculate <;> rfl
  | group node children ih =>
    intro sectionId out plans
    rw [Device.walkScreen, Reference.walkScreen, walkScreens_congr ih,
      collectQuestions_congr fun child _ => collectQuestion_device child]
    split
    · dsimp only
      split <;> rfl
    · rfl
  | repeated node children ih =>
    intro sectionId out plans
    rw [Device.walkScreen, Reference.walkScreen, walkScreens_congr ih]

theorem buildScreenPlan_device (children : List Node) :
    Device.buildScreenPlan children = Reference.buildScreenPlan children := by
  unfold Device.buildScreenPlan Reference.buildScreenPlan
  rw [walkScreens_congr fun child _ => walkScreen_device child]

end Agreement

section Plan

def asked (level : Option String) (entries : List (Question × Option String)) : List String :=
  (entries.filter fun entry => entry.2 = level ∧ entry.1.calculate = none).map fun entry => entry.1.id

@[simp] theorem asked_append (level : Option String) (entries later : List (Question × Option String)) :
    asked level (entries ++ later) = asked level entries ++ asked level later := by
  simp [asked]

theorem asked_eq_nil {level : Option String} {entries : List (Question × Option String)}
    (elsewhere : ∀ entry ∈ entries, entry.2 ≠ level) : asked level entries = [] := by
  rw [asked, List.map_eq_nil_iff, List.filter_eq_nil_iff]
  intro entry member
  simp [elsewhere entry member]

theorem placedAll_levels {children : List Node} (each : ∀ child ∈ children, ∀ rid, ∀ entry ∈ placed rid child,
    entry.2 = rid ∨ ∃ r ∈ repeatsIn child, entry.2 = some r.id) :
    ∀ rid, ∀ entry ∈ placedAll rid children, entry.2 = rid ∨ ∃ r ∈ repeatsAll children, entry.2 = some r.id := by
  induction children with
  | nil => exact fun _ _ member => by cases member
  | cons child rest ih =>
    intro rid entry member
    rw [repeatsAll]
    rcases List.mem_append.mp member with first | later
    · rcases each child List.mem_cons_self rid entry first with here | ⟨r, within, same⟩
      · exact Or.inl here
      · exact Or.inr ⟨r, List.mem_append_left _ within, same⟩
    · rcases ih (fun child member => each child (List.mem_cons_of_mem _ member)) rid entry later with here | ⟨r, within, same⟩
      · exact Or.inl here
      · exact Or.inr ⟨r, List.mem_append_right _ within, same⟩

theorem placed_levels (node : Node) : ∀ rid, ∀ entry ∈ placed rid node,
    entry.2 = rid ∨ ∃ r ∈ repeatsIn node, entry.2 = some r.id := by
  induction node using node_induction with
  | question node =>
    intro rid entry member
    rw [List.mem_singleton.mp member]
    exact Or.inl rfl
  | group node children ih => exact placedAll_levels ih
  | repeated node children ih =>
    intro rid entry member
    rcases placedAll_levels ih (some node.id) entry member with here | ⟨r, within, same⟩
    · exact Or.inr ⟨node, List.mem_cons_self, here⟩
    · exact Or.inr ⟨r, List.mem_cons_of_mem _ within, same⟩

theorem repeatsAll_eq_nil {children : List Node} (each : ∀ child ∈ children, ∀ inside listed, Fits inside listed child →
    inside = true ∨ listed = true → repeatsIn child = []) :
    ∀ inside listed, FitsAll inside listed children → inside = true ∨ listed = true → repeatsAll children = [] := by
  induction children with
  | nil => exact fun _ _ _ _ => rfl
  | cons child rest ih =>
    intro inside listed fits within
    rw [repeatsAll, each child List.mem_cons_self inside listed fits.1 within,
      ih (fun child member => each child (List.mem_cons_of_mem _ member)) inside listed fits.2 within, List.append_nil]

theorem repeatsIn_eq_nil (node : Node) : ∀ inside listed, Fits inside listed node → inside = true ∨ listed = true →
    repeatsIn node = [] := by
  induction node using node_induction with
  | question node => exact fun _ _ _ _ => rfl
  | group node children ih =>
    intro inside listed fits within
    refine repeatsAll_eq_nil ih _ _ fits (within.imp_right fun under => ?_)
    rw [under, Bool.true_or]
  | repeated node children ih =>
    intro inside listed fits within
    rcases within with within | under
    · rw [fits.1] at within
      cases within
    · rw [fits.2.1] at under
      cases under

theorem collectQuestions_asked {inside : Bool} {rid : Option String} {children : List Node}
    (each : ∀ child ∈ children, ∀ out, Fits inside true child →
      Reference.collectQuestion out child = out ++ asked rid (placed rid child)) :
    ∀ out, FitsAll inside true children →
      Reference.collectQuestions out children = out ++ asked rid (placedAll rid children) := by
  induction children with
  | nil => exact fun out _ => (List.append_nil out).symm
  | cons child rest ih =>
    intro out fits
    rw [Reference.collectQuestions, each child List.mem_cons_self out fits.1, placedAll, asked_append,
      ih (fun child member => each child (List.mem_cons_of_mem _ member)) _ fits.2, List.append_assoc]

theorem collectQuestion_asked {inside : Bool} {rid : Option String} (node : Node) : ∀ out, Fits inside true node →
    Reference.collectQuestion out node = out ++ asked rid (placed rid node) := by
  induction node using node_induction with
  | question node =>
    intro out _
    rw [Reference.collectQuestion, placed, asked]
    cases given : node.calculate <;> simp [given]
  | group node children ih =>
    intro out fits
    exact collectQuestions_asked ih out fits
  | repeated node children ih =>
    intro out fits
    cases fits.2.1

/-- Some screens of one level, from an index on: the questions of `entries` that are asked there, and a screen
for each of `repeats`. -/
structure Planned (level : Option String) (start : ℕ) (screens : List FormScreen)
    (entries : List (Question × Option String)) (repeats : List String) : Prop where
  asked : screens.flatMap FormScreen.questionIds = asked level entries
  indices : screens.map FormScreen.index = List.range' start screens.length
  repeats : screens.filterMap FormScreen.repeatId = repeats
  kinds : ∀ screen ∈ screens, screen.kind = .repeated ↔ screen.repeatId.isSome
  silent : ∀ screen ∈ screens, screen.kind = .repeated → screen.questionIds = []

theorem Planned.append {level : Option String} {start : ℕ} {screens more : List FormScreen}
    {entries later : List (Question × Option String)} {repeats others : List String}
    (first : Planned level start screens entries repeats)
    (second : Planned level (start + screens.length) more later others) :
    Planned level start (screens ++ more) (entries ++ later) (repeats ++ others) where
  asked := by rw [List.flatMap_append, first.asked, second.asked, asked_append]
  indices := by
    rw [List.map_append, first.indices, second.indices, List.length_append, List.range'_append_1]
  repeats := by rw [List.filterMap_append, first.repeats, second.repeats]
  kinds := fun screen member => (List.mem_append.mp member).elim (first.kinds screen) (second.kinds screen)
  silent := fun screen member => (List.mem_append.mp member).elim (first.silent screen) (second.silent screen)

theorem Planned.none (level : Option String) (start : ℕ) : Planned level start [] [] [] :=
  ⟨rfl, rfl, rfl, fun _ member => (by cases member), fun _ member => by cases member⟩

theorem Planned.questions {level : Option String} {start : ℕ} {groupId sectionId : Option String}
    {questions : List String} {entries : List (Question × Option String)} (same : questions = Form.asked level entries) :
    Planned level start [⟨start, .questions, groupId, sectionId, questions, .none⟩] entries [] := by
  refine ⟨by rw [List.flatMap_singleton, same], rfl, rfl, fun screen member => ?_, fun screen member kind => ?_⟩
  · rw [List.mem_singleton.mp member]
    exact Iff.intro (fun kind => by cases kind) fun given => by cases given
  · rw [List.mem_singleton.mp member] at kind
    cases kind

theorem Planned.widen {level : Option String} {start : ℕ} {screens : List FormScreen}
    {entries others : List (Question × Option String)} {repeats : List String}
    (planned : Planned level start screens entries repeats) (same : Form.asked level others = Form.asked level entries) :
    Planned level start screens others repeats :=
  ⟨planned.asked.trans same.symm, planned.indices, planned.repeats, planned.kinds, planned.silent⟩

def Laid (level : Option String) (out : List FormScreen) (plans : InstancePlans)
    (walked : List FormScreen × InstancePlans) (entries : List (Question × Option String)) (repeats : List String) : Prop :=
  ∃ more, walked.1 = out ++ more ∧ Planned level out.length more entries repeats ∧
    (∀ r ∉ repeats, walked.2.lookup r = plans.lookup r) ∧
    ∀ r ∈ repeats, ∃ inner, walked.2.lookup r = some inner ∧ Planned (some r) 0 inner entries []

theorem Laid.level {level : Option String} {out more : List FormScreen} {plans : InstancePlans}
    {entries : List (Question × Option String)} (planned : Planned level out.length more entries []) :
    Laid level out plans (out ++ more, plans) entries [] :=
  ⟨more, rfl, planned, fun _ _ => rfl, fun _ member => by cases member⟩

theorem Laid.empty {level : Option String} {out : List FormScreen} {plans : InstancePlans}
    {entries : List (Question × Option String)} (silent : asked level entries = []) :
    Laid level out plans (out, plans) entries [] := by
  have laid : Laid level out plans (out ++ [], plans) entries [] :=
    Laid.level ((Planned.none level out.length).widen silent)
  rwa [List.append_nil] at laid

theorem asked_elsewhere {rid : Option String} {r : String} {entries : List (Question × Option String)}
    {repeats : List Repeat} (levels : ∀ entry ∈ entries, entry.2 = rid ∨ ∃ r ∈ repeats, entry.2 = some r.id)
    (outside : rid = none) (apart : r ∉ repeats.map Repeat.id) : asked (some r) entries = [] := by
  apply asked_eq_nil
  intro entry member same
  rcases levels entry member with here | ⟨other, listed, there⟩
  · rw [here, outside] at same
    cases same
  · rw [there] at same
    exact apart (List.mem_map.mpr ⟨other, listed, Option.some.inj same⟩)

theorem walkScreens_laid {rid sectionId : Option String} {children : List Node}
    (each : ∀ child ∈ children, ∀ out plans, Fits rid.isSome false child → ((repeatsIn child).map Repeat.id).Nodup →
      Laid rid out plans (Reference.walkScreen sectionId out plans child) (placed rid child)
        ((repeatsIn child).map Repeat.id)) :
    ∀ out plans, FitsAll rid.isSome false children → ((repeatsAll children).map Repeat.id).Nodup →
      Laid rid out plans (Reference.walkScreens sectionId out plans children) (placedAll rid children)
        ((repeatsAll children).map Repeat.id) := by
  induction children with
  | nil =>
    intro out plans _ _
    exact Laid.empty rfl
  | cons child rest ih =>
    intro out plans fits distinct
    rw [repeatsAll, List.map_append] at distinct ⊢
    obtain ⟨own, others, apart⟩ := List.nodup_append.mp distinct
    obtain ⟨more, first, planned, kept, plan⟩ := each child List.mem_cons_self out plans fits.1 own
    obtain ⟨later, second, planned', kept', plan'⟩ := ih (fun child member => each child (List.mem_cons_of_mem _ member))
      (Reference.walkScreen sectionId out plans child).1 (Reference.walkScreen sectionId out plans child).2 fits.2 others
    rw [first, List.length_append] at planned'
    refine ⟨more ++ later, ?_, planned.append planned', ?_, ?_⟩
    · rw [Reference.walkScreens, second, first, List.append_assoc]
    · intro r absent
      rw [List.mem_append, not_or] at absent
      exact (kept' r absent.2).trans (kept r absent.1)
    · -- A plan holds the questions of its repeat alone: those of the other nodes stand elsewhere.
      intro r member
      rcases List.mem_append.mp member with here | there
      · obtain ⟨inner, found, planned⟩ := plan r here
        refine ⟨inner, (kept' r fun again => apart r here r again rfl).trans found, planned.widen ?_⟩
        have outside : rid = none := by
          by_contra inside
          rw [repeatsIn_eq_nil child _ _ fits.1 (Or.inl (Option.isSome_iff_ne_none.mpr inside))] at here
          cases here
        rw [placedAll, asked_append, asked_elsewhere (placedAll_levels (fun child _ => placed_levels child) rid) outside
          fun again => apart r here r again rfl, List.append_nil]
      · obtain ⟨inner, found, planned⟩ := plan' r there
        refine ⟨inner, found, planned.widen ?_⟩
        have outside : rid = none := by
          by_contra inside
          rw [repeatsAll_eq_nil (fun child _ => repeatsIn_eq_nil child) _ _ fits.2
            (Or.inl (Option.isSome_iff_ne_none.mpr inside))] at there
          cases there
        rw [placedAll, asked_append, asked_elsewhere (placed_levels child rid) outside
          fun again => apart r again r there rfl, List.nil_append]

theorem walkScreen_laid (node : Node) : ∀ rid sectionId out plans, Fits rid.isSome false node →
    ((repeatsIn node).map Repeat.id).Nodup →
    Laid rid out plans (Reference.walkScreen sectionId out plans node) (placed rid node)
      ((repeatsIn node).map Repeat.id) := by
  induction node using node_induction with
  | question node =>
    intro rid sectionId out plans _ _
    rw [Reference.walkScreen, placed]
    split
    · rename_i given
      exact Laid.level (Planned.questions (by simp [asked, Option.isNone_iff_eq_none.mp given]))
    · rename_i given
      exact Laid.empty (by simpa [asked] using given)
  | group node children ih =>
    intro rid sectionId out plans fits distinct
    rw [Reference.walkScreen, placed, repeatsIn]
    split
    · rename_i appears
      have listed : FitsAll rid.isSome true children := by
        have fits : FitsAll rid.isSome (false || decide (node.appearance = some "field-list")) children := fits
        rwa [appears, decide_eq_true rfl] at fits
      have questions : Reference.collectQuestions [] children = [] ++ asked rid (placedAll rid children) :=
        collectQuestions_asked (fun child _ => collectQuestion_asked child) [] listed
      rw [List.nil_append] at questions
      rw [repeatsAll_eq_nil (fun child _ => repeatsIn_eq_nil child) _ _ listed (Or.inr rfl)]
      dsimp only
      split
      · exact Laid.level (Planned.questions questions)
      · rename_i silent
        exact Laid.empty (by rw [← questions]; exact not_not.mp silent)
    · rename_i appears
      have fits : FitsAll rid.isSome (false || decide (node.appearance = some "field-list")) children := fits
      rw [decide_eq_false appears] at fits
      exact walkScreens_laid (fun child member => ih child member rid (some node.id)) out plans fits distinct
  | repeated node children ih =>
    intro rid sectionId out plans fits distinct
    have outside : rid = none := Option.isSome_eq_false_iff.mp fits.1 |> Option.isNone_iff_eq_none.mp
    have alone := repeatsAll_eq_nil (fun child _ => repeatsIn_eq_nil child) _ _ fits.2.2 (Or.inl rfl)
    have levels : ∀ entry ∈ placedAll (some node.id) children,
        entry.2 = some node.id ∨ ∃ r ∈ repeatsAll children, entry.2 = some r.id :=
      placedAll_levels (fun child _ => placed_levels child) (some node.id)
    obtain ⟨inner, walked, planned, kept, -⟩ := walkScreens_laid
      (fun child member => ih child member (some node.id) (some node.id)) [] plans fits.2.2 (by rw [alone]; exact .nil)
    rw [Reference.walkScreen, placed, repeatsIn, alone, outside]
    rw [alone] at kept planned levels
    refine ⟨[⟨out.length, .repeated, none, sectionId, [], some node.id⟩], rfl, ⟨?_, rfl, rfl, ?_, ?_⟩, ?_, ?_⟩
    · refine (asked_eq_nil fun entry member level => ?_).symm
      rcases levels entry member with here | ⟨_, absent, -⟩
      · rw [level] at here
        cases here
      · cases absent
    · intro screen member
      rw [List.mem_singleton.mp member]
      exact Iff.intro (fun _ => rfl) fun _ => rfl
    · intro screen member _
      rw [List.mem_singleton.mp member]
    · intro r absent
      have apart : r ≠ node.id := fun same => absent (List.mem_singleton.mpr same)
      exact (AList.lookup_insert_ne apart).trans (kept r List.not_mem_nil)
    · intro r member
      rw [List.mem_singleton.mp member]
      refine ⟨_, AList.lookup_insert _, ?_⟩
      rw [walked]
      exact planned

end Plan

section Partition

def ScreenPlan.level (plan : ScreenPlan) : Option String → List FormScreen
  | none => plan.screens
  | some rid => (plan.instancePlans.lookup rid).getD []

structure Partition (children : List Node) (plan : ScreenPlan) : Prop where
  /-- A question that is asked has one screen, at its own level. -/
  once : ∀ entry ∈ placedAll none children, entry.1.calculate = none → ∀ level,
    ((plan.level level).filter fun screen => entry.1.id ∈ screen.questionIds).length = if level = entry.2 then 1 else 0
  calculates : ∀ entry ∈ placedAll none children, entry.1.calculate.isSome → ∀ level, ∀ screen ∈ plan.level level,
    entry.1.id ∉ screen.questionIds
  /-- A repeat has one screen, and an instance plan. -/
  repeats : ∀ node ∈ repeatsAll children, (plan.instancePlans.lookup node.id).isSome ∧
    (plan.screens.filter fun screen => screen.kind = .repeated ∧ screen.repeatId = some node.id).length = 1
  listed : ∀ level, ∀ screen ∈ plan.level level, screen.kind = .repeated →
    level = none ∧ ∃ node ∈ repeatsAll children, screen.repeatId = some node.id
  indices : ∀ level, (plan.level level).map FormScreen.index = List.range (plan.level level).length
  /-- The questions of a level, in the order of the document. -/
  ordered : ∀ level, (plan.level level).flatMap FormScreen.questionIds = asked level (placedAll none children)

theorem level_planned {children : List Node} {form : CompiledForm} (compiled : compile children = .ok form)
    (level : Option String) :
    Planned level 0 ((Reference.buildScreenPlan children).level level) (placedAll none children)
      (if level = none then (repeatsAll children).map Repeat.id else []) ∧
    ∀ rid, level = some rid → rid ∈ (repeatsAll children).map Repeat.id →
      ((Reference.buildScreenPlan children).instancePlans.lookup rid).isSome := by
  obtain ⟨-, repeats, fits⟩ := compile_places compiled
  have distinct := (compile_formed compiled).repeats
  rw [repeats] at distinct
  obtain ⟨more, walked, planned, kept, plans⟩ := walkScreens_laid
    (fun child _ => walkScreen_laid child none none) [] ∅ fits distinct
  rw [List.nil_append] at walked
  cases level with
  | none =>
    refine ⟨?_, fun rid same => by cases same⟩
    show Planned none 0 (Reference.walkScreens none [] ∅ children).1 _ _
    rw [walked]
    exact planned
  | some rid =>
    by_cases listed : rid ∈ (repeatsAll children).map Repeat.id
    · obtain ⟨inner, found, planned⟩ := plans rid listed
      have found : (Reference.buildScreenPlan children).instancePlans.lookup rid = some inner := found
      constructor
      · rw [ScreenPlan.level, found]
        exact planned
      · rintro _ same -
        obtain rfl := Option.some.inj same
        rw [found]
        rfl
    · have absent : (Reference.buildScreenPlan children).instancePlans.lookup rid = none := kept rid listed
      constructor
      · rw [ScreenPlan.level, absent]
        refine (Planned.none _ 0).widen ?_
        exact asked_elsewhere (placedAll_levels (fun child _ => placed_levels child) none) rfl listed
      · intro other same member
        obtain rfl := Option.some.inj same
        exact absurd member listed

theorem mem_asked {level : Option String} {entries : List (Question × Option String)} {id : String} :
    id ∈ asked level entries ↔ ∃ entry ∈ entries, entry.2 = level ∧ entry.1.calculate = none ∧ entry.1.id = id := by
  simp [asked, and_assoc]

theorem partition_of_compiled {children : List Node} {form : CompiledForm} (compiled : compile children = .ok form) :
    Partition children (Reference.buildScreenPlan children) := by
  obtain ⟨places, repeats, -⟩ := compile_places compiled
  have formed := compile_formed compiled
  have planned level := (level_planned compiled level).1
  have ids : ((placedAll none children).map fun entry => entry.1.id).Nodup := by
    rw [← places, List.map_map]
    exact formed.distinct
  have distinct (level : Option String) :
      (((Reference.buildScreenPlan children).level level).flatMap FormScreen.questionIds).Nodup := by
    rw [(planned level).asked]
    exact (List.filter_sublist.map _).nodup ids
  have same {entry entry' : Question × Option String} (member : entry ∈ placedAll none children)
      (member' : entry' ∈ placedAll none children) (id : entry.1.id = entry'.1.id) : entry = entry' :=
    List.inj_on_of_nodup_map ids member member' id
  refine ⟨?_, ?_, ?_, ?_, fun level => ?_, fun level => (planned level).asked⟩
  · intro entry member given level
    rw [length_filter_mem (distinct level), (planned level).asked]
    refine if_congr ?_ rfl rfl
    rw [mem_asked]
    constructor
    · rintro ⟨other, listed, here, -, id⟩
      rw [← here, same listed member id]
    · rintro rfl
      exact ⟨entry, member, rfl, given, rfl⟩
  · intro entry member given level screen within shown
    have listed := List.mem_flatMap.mpr ⟨screen, within, shown⟩
    rw [(planned level).asked, mem_asked] at listed
    obtain ⟨other, member', -, none, id⟩ := listed
    rw [same member' member id, Option.eq_none_iff_forall_ne_some] at none
    obtain ⟨expr, given⟩ := Option.isSome_iff_exists.mp given
    exact none expr given
  · intro node member
    have listed := List.mem_map_of_mem (f := Repeat.id) member
    refine ⟨(level_planned compiled (some node.id)).2 node.id rfl listed, ?_⟩
    have screens : (Reference.buildScreenPlan children).screens.flatMap (fun screen => screen.repeatId.toList) =
        (repeatsAll children).map Repeat.id :=
      List.filterMap_eq_flatMap_toList _ _ |>.symm.trans (planned none).repeats
    have one := length_filter_mem (by rw [screens, ← repeats]; exact formed.repeats) node.id
    rw [screens, if_pos listed] at one
    refine (congrArg List.length (List.filter_congr fun screen within => ?_)).trans one
    rw [decide_eq_decide, Option.mem_toList]
    refine and_iff_right_of_imp fun given => ((planned none).kinds screen within).mpr ?_
    rw [given]
    rfl
  · intro level screen member kind
    have given := ((planned level).kinds screen member).mp kind
    obtain ⟨rid, given⟩ := Option.isSome_iff_exists.mp given
    have listed := List.mem_filterMap.mpr ⟨screen, member, given⟩
    rw [(planned level).repeats] at listed
    split at listed
    · rename_i top
      obtain ⟨node, within, id⟩ := List.mem_map.mp listed
      exact ⟨top, node, within, by rw [given, id]⟩
    · cases listed
  · rw [(planned level).indices, List.range_eq_range']

/-- The compiler takes no document of which a question that is asked has no screen or two, or is out of order. -/
theorem screens_partition {children : List Node} {form : CompiledForm} (compiled : compile children = .ok form) :
    Partition children (Reference.buildScreenPlan children) ∧
      Device.buildScreenPlan children = Reference.buildScreenPlan children :=
  ⟨partition_of_compiled compiled, buildScreenPlan_device children⟩

def household : List Node :=
  [.question { id := "village", dataType := "text" },
    .question { id := "code", dataType := "text", calculate := some (.ref "village") },
    .group { id := "page", appearance := some "field-list" }
      [.question { id := "head", dataType := "text" }, .question { id := "phone", dataType := "text" }],
    .repeated { id := "members" }
      [.question { id := "name", dataType := "text" },
        .group { id := "school" } [.question { id := "grade", dataType := "integer" }]]]

theorem household_partition :
    Partition household (Reference.buildScreenPlan household) ∧
      Device.buildScreenPlan household = Reference.buildScreenPlan household ∧
      [none, some "members"].map (fun level =>
        ((Reference.buildScreenPlan household).level level).map FormScreen.questionIds) =
        [[["village"], ["head", "phone"], []], [["name"], ["grade"]]] := by
  have compiled : compile household = .ok _ := rfl
  exact ⟨(screens_partition compiled).1, (screens_partition compiled).2, rfl⟩

end Partition

end DataCollectionLab.Form
