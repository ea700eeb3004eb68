import DataCollectionLab.Form.Partition
import DataCollectionLab.Form.RepeatCalls
import DataCollectionLab.Lib.Stops

/-!
The way through the screens of a form: where the relevance of every repeat can be told, going on and going
back agree with each other and with the progress that is shown.
-/

namespace DataCollectionLab.Form

open Lib

def Position.onScreen (i : ℤ) : Position := { screen := i }

def Position.within (i : ℤ) (iid : String) (k : ℤ) : Position :=
  { screen := i, instanceId := some iid, instanceScreen := some k }

section Statement

variable (pager : Pager) (form : CompiledForm) (session : Session) (s : FormInstance) (plan : ScreenPlan)

def shown (screen : FormScreen) : Bool := (screenRelevant pager form session s screen).toOption.getD false

def stops : List ℤ := (plan.screens.filter (shown pager form session s)).map fun screen => (screen.index : ℤ)

def innerStops (rid iid : String) : List ℤ := (relevantInstanceScreens s plan rid iid).map fun (i : ℕ) => (i : ℤ)

structure Lists (screen : FormScreen) (rid : String) : Prop where
  listed : screen ∈ plan.screens
  kind : screen.kind = .repeated
  names : screen.repeatId = some rid

structure Coherent : Prop where
  /-- From a relevant screen to one, from which the way back is to the start, and one further. -/
  forward : ∀ i ∈ stops pager form session s plan, ∀ q,
    nextPosition pager form session s plan (.onScreen i) = .ok (some q) →
      ∃ j ∈ stops pager form session s plan, q = .onScreen j ∧
        previousPosition pager form session s plan q = .ok (some (.onScreen i)) ∧
        ∃ place count, progress pager form session s plan (.onScreen i) = .ok (place, count) ∧
          progress pager form session s plan q = .ok (place + 1, count)
  /-- Nobody enters an instance by paging. -/
  outside : ∀ i q, nextPosition pager form session s plan (.onScreen i) = .ok (some q) ∨
    previousPosition pager form session s plan (.onScreen i) = .ok (some q) → ∃ j, q = .onScreen j
  /-- In the instance, or out of it to its repeat. -/
  inside : ∀ screen rid, Lists plan screen rid → ∀ iid ∈ s.rows rid, ∀ k,
    (∃ q, nextPosition pager form session s plan (.within screen.index iid k) = .ok (some q) ∧
      (q = .onScreen screen.index ∨ ∃ k' ∈ innerStops s plan rid iid, k < k' ∧ q = .within screen.index iid k')) ∧
    ∃ q, previousPosition pager form session s plan (.within screen.index iid k) = .ok (some q) ∧
      (q = .onScreen screen.index ∨ ∃ k' ∈ innerStops s plan rid iid, k' < k ∧ q = .within screen.index iid k')
  inverse : ∀ screen rid, Lists plan screen rid → ∀ iid ∈ s.rows rid,
    ∀ k ∈ innerStops s plan rid iid, ∀ k' ∈ innerStops s plan rid iid,
      (nextPosition pager form session s plan (.within screen.index iid k) =
          .ok (some (.within screen.index iid k')) ↔
        previousPosition pager form session s plan (.within screen.index iid k') =
          .ok (some (.within screen.index iid k)))
  /-- Going on visits what is left, and ends. -/
  visits : ∀ i, Visits (nextPosition pager form session s plan) (.onScreen i)
    (((stops pager form session s plan).filter (i < ·)).map .onScreen)
  visitsInside : ∀ screen rid, Lists plan screen rid → ∀ iid ∈ s.rows rid, ∀ k,
    Visits (nextPosition pager form session s plan) (.within screen.index iid k)
      (((innerStops s plan rid iid).filter (k < ·)).map (.within screen.index iid) ++
        .onScreen screen.index ::
          ((stops pager form session s plan).filter ((screen.index : ℤ) < ·)).map .onScreen)
  /-- A position stays where its instance is there, and is on its repeat where it is not. -/
  resolves : ∀ i, resolvePosition pager s plan (.onScreen i) = .ok (.onScreen i)
  resolvesInside : ∀ screen rid, Lists plan screen rid → ∀ iid k,
    resolvePosition pager s plan (.within screen.index iid k) =
      .ok (if iid ∈ s.rows rid then .within screen.index iid k else .onScreen screen.index)

end Statement

structure Pager.Sound (pager : Pager) : Prop where
  screenAt : ∀ (plan : ScreenPlan) (n : ℕ) screen, plan.screens[n]? = some screen → pager.screenAt plan n = .ok screen
  opened : ∀ i relevant, pager.opened (some i) relevant = .ok i

theorem reference_sound (evaluate : Context → Expr → Except Failure Value) : (Reference.pager evaluate).Sound where
  screenAt plan n screen found := by
    have natural : ¬ (n : ℤ) < 0 := by omega
    simp [Reference.pager, natural, found]
  opened _ _ := rfl

theorem device_sound (evaluate : Context → Expr → Except Failure Value) : (Device.pager evaluate).Sound where
  screenAt plan n screen found := by
    have natural : ¬ (n : ℤ) < 0 := by omega
    simp [Device.pager, natural, found]
  opened _ _ := rfl

section Screens

variable {pager : Pager} {form : CompiledForm} {session : Session} {s : FormInstance} {plan : ScreenPlan}

def Told (pager : Pager) (form : CompiledForm) (session : Session) (s : FormInstance) (screens : List FormScreen) : Prop :=
  ∀ screen ∈ screens, ∃ b, screenRelevant pager form session s screen = .ok b

theorem screenRelevant_shown {screen : FormScreen} {b : Bool}
    (told : screenRelevant pager form session s screen = .ok b) : shown pager form session s screen = b := by
  rw [shown, told]
  rfl

theorem firstRelevant_told {among : FormScreen → Bool} {screens : List FormScreen}
    (told : Told pager form session s screens) :
    firstRelevant pager form session s among screens =
      .ok ((screens.find? fun screen => shown pager form session s screen ∧ among screen).map FormScreen.index) := by
  induction screens with
  | nil => rfl
  | cons screen rest ih =>
    have ih := ih fun other member => told other (List.mem_cons_of_mem _ member)
    obtain ⟨b, relevant⟩ := told screen List.mem_cons_self
    rw [firstRelevant, relevant, ih, List.find?_cons, screenRelevant_shown relevant]
    cases among screen <;> cases b <;> rfl

theorem firstRelevant_asked {among : FormScreen → Bool} {screens : List FormScreen} {found : Option ℕ}
    (sorted : screens.Pairwise fun a b => a.index < b.index)
    (ended : firstRelevant pager form session s among screens = .ok found) :
    ∀ screen ∈ screens, among screen → (∀ j, found = some j → screen.index ≤ j) →
      ∃ b, screenRelevant pager form session s screen = .ok b := by
  induction screens with
  | nil => exact fun _ member => by cases member
  | cons first rest ih =>
    obtain ⟨above, sorted⟩ := List.pairwise_cons.mp sorted
    intro screen member within upTo
    rw [firstRelevant] at ended
    cases here : among first with
    | false =>
      rw [here] at ended
      rcases List.mem_cons.mp member with rfl | later
      · rw [here] at within
        cases within
      · exact ih sorted ended screen later within upTo
    | true =>
      rw [here] at ended
      obtain ⟨b, relevant, ended⟩ := bind_ok_iff.mp ended
      rcases List.mem_cons.mp member with rfl | later
      · exact ⟨b, relevant⟩
      · cases b with
        | false => exact ih sorted ended screen later within upTo
        | true =>
          have stopped := upTo first.index (Except.ok.inj ended).symm
          have := above screen later
          omega

theorem nextPosition_onScreen (i : ℤ) : nextPosition pager form session s plan (.onScreen i) =
    (nextScreen pager form session s plan i >>= fun next => pure (next.map fun (j : ℕ) => .onScreen j)) := rfl

theorem nextPosition_told (told : Told pager form session s plan.screens) (i : ℤ) :
    nextPosition pager form session s plan (.onScreen i) =
      .ok ((stopAfter (stops pager form session s plan) i).map .onScreen) := by
  have stop : stopAfter (stops pager form session s plan) i =
      (plan.screens.find? fun screen => shown pager form session s screen ∧ decide (i < screen.index)).map
        fun screen => (screen.index : ℤ) := by
    rw [stopAfter, stops, List.find?_map, List.find?_filter]
    rfl
  rw [nextPosition_onScreen, nextScreen, firstRelevant_told told, stop]
  simp only [bind, Except.bind, pure, Except.pure, Option.map_map]
  rfl

theorem previousPosition_told (told : Told pager form session s plan.screens) (i : ℤ) :
    previousPosition pager form session s plan (.onScreen i) =
      .ok ((stopBefore (stops pager form session s plan) i).map .onScreen) := by
  have step : previousPosition pager form session s plan (.onScreen i) =
      (previousScreen pager form session s plan i >>= fun next => pure (next.map fun (j : ℕ) => .onScreen j)) := rfl
  have stop : stopBefore (stops pager form session s plan) i =
      (plan.screens.reverse.find? fun screen => shown pager form session s screen ∧ decide (screen.index < i)).map
        fun screen => (screen.index : ℤ) := by
    rw [stopBefore, ← List.head?_reverse, ← List.filter_reverse, List.head?_filter, stops, ← List.map_reverse,
      List.find?_map, ← List.filter_reverse, List.find?_filter]
    rfl
  have back : Told pager form session s plan.screens.reverse := fun screen member => told screen (List.mem_reverse.mp member)
  rw [step, previousScreen, firstRelevant_told back, stop]
  simp only [bind, Except.bind, pure, Except.pure, Option.map_map]
  rfl

theorem progress_told (told : Told pager form session s plan.screens) (i : ℤ) :
    progress pager form session s plan (.onScreen i) =
      .ok (if i ∈ stops pager form session s plan then (stops pager form session s plan).idxOf i + 1 else 0,
        (stops pager form session s plan).length) := by
  have relevant : relevantScreens pager form session s plan =
      .ok ((plan.screens.filter (shown pager form session s)).map FormScreen.index) := by
    have marked : (plan.screens.mapM fun screen => do
        return (screen.index, ← screenRelevant pager form session s screen)) =
        .ok (plan.screens.map fun screen => (screen.index, shown pager form session s screen)) := by
      rw [mapM_ok_iff, List.forall₂_map_right_iff, List.forall₂_same]
      intro screen member
      obtain ⟨b, found⟩ := told screen member
      rw [found, screenRelevant_shown found]
      rfl
    rw [relevantScreens, marked]
    show Except.ok _ = _
    rw [List.filter_map, List.map_map]
    rfl
  rw [progress, relevant]
  show Except.ok (placeIn _ i, _) = _
  rw [placeIn, List.map_map, List.length_map, stops, List.length_map]
  rfl

theorem getElem?_index {screens : List FormScreen} (indices : screens.map FormScreen.index = List.range screens.length)
    {screen : FormScreen} (member : screen ∈ screens) : screens[screen.index]? = some screen := by
  obtain ⟨n, found⟩ := List.mem_iff_getElem?.mp member
  have numbered : (screens.map FormScreen.index)[n]? = some screen.index := by rw [List.getElem?_map, found, Option.map_some]
  obtain ⟨within, -⟩ := List.getElem?_eq_some_iff.mp found
  rw [indices, List.getElem?_range within] at numbered
  rw [← Option.some.inj numbered, found]

theorem pairwise_indices {screens : List FormScreen} (indices : screens.map FormScreen.index = List.range screens.length)
    (keep : FormScreen → Bool) : ((screens.filter keep).map fun screen => (screen.index : ℤ)).Pairwise (· < ·) := by
  have sorted : (screens.map FormScreen.index).Pairwise (· < ·) := by
    rw [indices]
    exact List.pairwise_lt_range
  rw [List.pairwise_map] at sorted ⊢
  exact (sorted.sublist List.filter_sublist).imp fun less => by exact_mod_cast less

variable (sound : pager.Sound) (indices : plan.screens.map FormScreen.index = List.range plan.screens.length)
  {screen : FormScreen} {rid iid : String} (lists : Lists plan screen rid) (k : ℤ)

include sound indices lists

theorem repeatOf_lists : repeatOf pager plan screen.index = .ok (some rid) := by
  rw [repeatOf, sound.screenAt plan screen.index screen (getElem?_index indices lists.listed)]
  show Except.ok _ = _
  rw [if_pos lists.kind, lists.names]

theorem resolvePosition_within : resolvePosition pager s plan (.within screen.index iid k) =
    .ok (if iid ∈ s.rows rid then .within screen.index iid k else .onScreen screen.index) := by
  unfold resolvePosition
  dsimp only [Position.within]
  rw [repeatOf_lists sound indices lists]
  rfl

theorem openScreens_within : openScreens pager s plan (.within screen.index iid k) iid =
    .ok (relevantInstanceScreens s plan rid iid, k) := by
  unfold openScreens
  dsimp only [Position.within]
  rw [repeatOf_lists sound indices lists]
  dsimp only [bind, Except.bind]
  rw [sound.opened]
  rfl

variable (held : iid ∈ s.rows rid)

include held

theorem nextPosition_within : nextPosition pager form session s plan (.within screen.index iid k) =
    .ok (some ((stopAfter (innerStops s plan rid iid) k).elim (.onScreen screen.index) (.within screen.index iid))) := by
  have stop : stopAfter (innerStops s plan rid iid) k =
      ((relevantInstanceScreens s plan rid iid).find? fun (later : ℕ) => k < later).map fun (i : ℕ) => (i : ℤ) := by
    rw [stopAfter, innerStops, List.find?_map]
    rfl
  rw [nextPosition, resolvePosition_within sound indices lists, if_pos held]
  show (openScreens pager s plan (.within screen.index iid k) iid >>= _) = _
  rw [openScreens_within sound indices lists, stop]
  dsimp only [bind, Except.bind]
  cases (relevantInstanceScreens s plan rid iid).find? fun (later : ℕ) => k < later <;> rfl

theorem previousPosition_within : previousPosition pager form session s plan (.within screen.index iid k) =
    .ok (some ((stopBefore (innerStops s plan rid iid) k).elim (.onScreen screen.index) (.within screen.index iid))) := by
  have stop : stopBefore (innerStops s plan rid iid) k =
      ((relevantInstanceScreens s plan rid iid).filter fun (earlier : ℕ) => earlier < k).getLast?.map fun (i : ℕ) => (i : ℤ) := by
    rw [stopBefore, innerStops, List.filter_map, List.getLast?_map]
    rfl
  rw [previousPosition, resolvePosition_within sound indices lists, if_pos held]
  show (openScreens pager s plan (.within screen.index iid k) iid >>= _) = _
  rw [openScreens_within sound indices lists, stop]
  dsimp only [bind, Except.bind]
  cases ((relevantInstanceScreens s plan rid iid).filter fun (earlier : ℕ) => earlier < k).getLast? <;> rfl

end Screens

section Coherence

variable {pager : Pager} {form : CompiledForm} {session : Session} {s : FormInstance} {plan : ScreenPlan}

theorem coherent_of_told (sound : pager.Sound)
    (indices : ∀ level, (plan.level level).map FormScreen.index = List.range (plan.level level).length)
    (told : Told pager form session s plan.screens) : Coherent pager form session s plan := by
  have sorted : (stops pager form session s plan).Pairwise (· < ·) := pairwise_indices (indices none) _
  have innerSorted (rid iid : String) : (innerStops s plan rid iid).Pairwise (· < ·) := by
    have inner := pairwise_indices (indices (some rid)) fun screen => instanceScreenRelevant s screen rid iid
    rwa [innerStops, relevantInstanceScreens, List.map_map]
  have visits (i : ℤ) : Visits (nextPosition pager form session s plan) (.onScreen i)
      (((stops pager form session s plan).filter (i < ·)).map .onScreen) := by
    have journey : Visits (nextPosition pager form session s plan) (.onScreen i)
        (((stops pager form session s plan).filter (i < ·)).map .onScreen ++ []) :=
      visits_stops sorted (fun i j next => by rw [nextPosition_told told, next]; rfl)
        (fun i last => .ends (by rw [nextPosition_told told, last]; rfl)) i
    rwa [List.append_nil] at journey
  refine ⟨?_, ?_, ?_, ?_, visits, ?_, fun i => rfl, fun screen rid lists iid k => ?_⟩
  · intro i member q went
    rw [nextPosition_told told] at went
    obtain ⟨j, next, rfl⟩ := Option.map_eq_some_iff.mp (Except.ok.inj went)
    have listed := (stopAfter_mem next).1
    refine ⟨j, listed, rfl, ?_, _, _, progress_told told i, ?_⟩
    · rw [previousPosition_told told, (stopAfter_iff_stopBefore sorted member listed).mp next]
      rfl
    · rw [progress_told told, if_pos listed, if_pos member, idxOf_stopAfter sorted member next]
  · rintro i q (went | went)
    · rw [nextPosition_told told] at went
      obtain ⟨j, -, rfl⟩ := Option.map_eq_some_iff.mp (Except.ok.inj went)
      exact ⟨j, rfl⟩
    · rw [previousPosition_told told] at went
      obtain ⟨j, -, rfl⟩ := Option.map_eq_some_iff.mp (Except.ok.inj went)
      exact ⟨j, rfl⟩
  · intro screen rid lists iid held k
    refine ⟨⟨_, nextPosition_within sound (indices none) lists k held, ?_⟩,
      ⟨_, previousPosition_within sound (indices none) lists k held, ?_⟩⟩
    · cases next : stopAfter (innerStops s plan rid iid) k with
      | none => exact Or.inl rfl
      | some k' => exact Or.inr ⟨k', (stopAfter_mem next).1, (stopAfter_mem next).2, rfl⟩
    · cases back : stopBefore (innerStops s plan rid iid) k with
      | none => exact Or.inl rfl
      | some k' => exact Or.inr ⟨k', (stopBefore_mem back).1, (stopBefore_mem back).2, rfl⟩
  · intro screen rid lists iid held k member k' member'
    have stay (o : Option ℤ) (j : ℤ) :
        o.elim (Position.onScreen screen.index) (.within screen.index iid) = .within screen.index iid j ↔ o = some j := by
      cases o with
      | none => exact Iff.intro (fun same => by cases same) fun same => by cases same
      | some other =>
        refine Iff.intro (fun same => ?_) fun same => by rw [Option.some.inj same]; rfl
        rw [Option.some.inj (Position.mk.inj same).2.2]
    rw [nextPosition_within sound (indices none) lists k held, previousPosition_within sound (indices none) lists k' held,
      Except.ok.injEq, Except.ok.injEq, Option.some.injEq, Option.some.injEq, stay, stay]
    exact stopAfter_iff_stopBefore (innerSorted rid iid) member member'
  · intro screen rid lists iid held k
    refine visits_stops (innerSorted rid iid) (fun k k' next => ?_) (fun k last => ?_) k
    · rw [nextPosition_within sound (indices none) lists k held, next]
      rfl
    · refine .goes ?_ (visits screen.index)
      rw [nextPosition_within sound (indices none) lists k held, last]
      rfl
  · exact resolvePosition_within sound (indices none) lists k

theorem told_of_visits (indices : plan.screens.map FormScreen.index = List.range plan.screens.length)
    {position : Position} {trail : List Position}
    (visits : Visits (nextPosition pager form session s plan) position trail) :
    ∀ i, position = .onScreen i → ∀ screen ∈ plan.screens, i < screen.index →
      ∃ b, screenRelevant pager form session s screen = .ok b := by
  have sorted : plan.screens.Pairwise fun a b => a.index < b.index := by
    rw [← List.pairwise_map (f := FormScreen.index) (R := (· < ·)), indices]
    exact List.pairwise_lt_range
  induction visits with
  | ends last =>
    rintro i rfl screen member beyond
    rw [nextPosition_onScreen] at last
    obtain ⟨found, ended, same⟩ := bind_ok_iff.mp last
    refine firstRelevant_asked sorted ended screen member (by simpa using beyond) ?_
    rintro j rfl
    cases same
  | goes onward _ ih =>
    rintro i rfl screen member beyond
    rw [nextPosition_onScreen] at onward
    obtain ⟨found, ended, same⟩ := bind_ok_iff.mp onward
    obtain ⟨j, rfl, next⟩ := Option.map_eq_some_iff.mp (Except.ok.inj same)
    by_cases near : screen.index ≤ j
    · refine firstRelevant_asked sorted ended screen member (by simpa using beyond) ?_
      intro found' same
      rw [← Option.some.inj same]
      exact near
    · exact ih j next.symm screen member (by omega)

theorem screenRelevant_repeated {screen : FormScreen} {rid : String} (kind : screen.kind = .repeated)
    (names : screen.repeatId = some rid) : screenRelevant pager form session s screen =
      (containerRelevant pager.evaluate form session s rid >>= fun relevant =>
        if relevant then .ok (decide (0 < (s.rows rid).length) || canAdd form s rid) else .ok false) := by
  rw [screenRelevant, kind, names]
  rfl

theorem told_iff {children : List Node} (partition : Partition children plan) :
    Told pager form session s plan.screens ↔
      ∀ node ∈ repeatsAll children, ∃ b, containerRelevant pager.evaluate form session s node.id = .ok b := by
  constructor
  · intro told node member
    obtain ⟨-, one⟩ := partition.repeats node member
    obtain ⟨screen, same⟩ := List.length_eq_one_iff.mp one
    have listed : screen ∈ plan.screens ∧ screen.kind = .repeated ∧ screen.repeatId = some node.id := by
      have within : screen ∈ [screen] := List.mem_singleton_self _
      rw [← same] at within
      simpa using within
    obtain ⟨b, relevant⟩ := told screen listed.1
    rw [screenRelevant_repeated listed.2.1 listed.2.2] at relevant
    obtain ⟨b, relevant, -⟩ := bind_ok_iff.mp relevant
    exact ⟨b, relevant⟩
  · intro told screen member
    cases kind : screen.kind with
    | questions => exact ⟨screen.questionIds.any (relevantAt s), by rw [screenRelevant, kind]⟩
    | repeated =>
      obtain ⟨-, node, listed, names⟩ := partition.listed none screen member kind
      obtain ⟨b, relevant⟩ := told node listed
      rw [screenRelevant_repeated kind names, relevant]
      cases b <;> exact ⟨_, rfl⟩

theorem coherent_iff_told (sound : pager.Sound) {children : List Node} (partition : Partition children plan) :
    Coherent pager form session s plan ↔
      ∀ node ∈ repeatsAll children, ∃ b, containerRelevant pager.evaluate form session s node.id = .ok b := by
  refine ⟨fun coherent => (told_iff partition).mp fun screen member => ?_, fun told =>
    coherent_of_told sound partition.indices ((told_iff partition).mpr told)⟩
  exact told_of_visits (partition.indices none) (coherent.visits (-1)) (-1) rfl screen member (by omega)

end Coherence

/-- Paging through a form is coherent exactly where the relevance of every repeat can be told from outside it. -/
theorem coherent_iff {children : List Node} {form : CompiledForm} (compiled : compile children = .ok form)
    (evaluate : Context → Expr → Except Failure Value) (session : Session) (s : FormInstance) :
    (Coherent (Reference.pager evaluate) form session s (Reference.buildScreenPlan children) ↔
      ∀ node ∈ form.repeats, ∃ b, containerRelevant evaluate form session s node.id = .ok b) ∧
    (Coherent (Device.pager evaluate) form session s (Device.buildScreenPlan children) ↔
      ∀ node ∈ form.repeats, ∃ b, containerRelevant evaluate form session s node.id = .ok b) := by
  obtain ⟨partition, same⟩ := screens_partition compiled
  rw [(compile_places compiled).2.1, same]
  exact ⟨coherent_iff_told (reference_sound evaluate) partition, coherent_iff_told (device_sound evaluate) partition⟩

section Examples

theorem roster_coherent :
    Coherent (Reference.pager noExpressions) rosterForm noon newRoster (Reference.buildScreenPlan roster) := by
  have compiled : compile roster = .ok rosterForm := rfl
  refine (coherent_iff compiled noExpressions noon newRoster).1.mpr fun node member => ?_
  obtain rfl := List.mem_singleton.mp member
  exact ⟨true, rfl⟩

def attendance : List Node :=
  [.question { id := "village", dataType := "text" },
    .repeated { id := "visits", relevant := some (.ref "present") } [.question { id := "present", dataType := "boolean" }]]

def attendanceForm : CompiledForm where
  fields := [
    { node := { id := "village", dataType := "text" }, dependsOn := [], ancestors := [],
      repeatId := none, choiceQuery := none, rowsQuery := none },
    { node := { id := "present", dataType := "boolean" }, dependsOn := ["present"], ancestors := ["visits"],
      repeatId := some "visits", choiceQuery := none, rowsQuery := none }]
  containers := [{ id := "visits", relevant := some (.ref "present"), appearance := none, ancestors := [] }]
  repeats := [{ id := "visits", relevant := some (.ref "present") }]
  topoOrder := ["village", "present"]

def plainEvaluate : Context → Expr → Except Failure Value :=
  Reference.evaluate (Reference.call noLibrary) Reference.resolve

def newAttendance : FormInstance :=
  after (construct (Reference.runtime plainEvaluate) attendanceForm noon) (blank attendanceForm)

/-- The form is compiled and opened, and from its first screen there is no way on: the question of the repeat
is not resolved outside it. -/
theorem attendance_incoherent : compile attendance = .ok attendanceForm ∧
    construct (Reference.runtime plainEvaluate) attendanceForm noon (blank attendanceForm) = .ok () newAttendance ∧
    nextPosition (Reference.pager plainEvaluate) attendanceForm noon newAttendance
      (Reference.buildScreenPlan attendance) (.onScreen 0) = .error (.compile "unresolvable reference: present") ∧
    ¬ Coherent (Reference.pager plainEvaluate) attendanceForm noon newAttendance
      (Reference.buildScreenPlan attendance) := by
  have stuck : nextPosition (Reference.pager plainEvaluate) attendanceForm noon newAttendance
      (Reference.buildScreenPlan attendance) (.onScreen 0) = .error (.compile "unresolvable reference: present") := rfl
  refine ⟨rfl, rfl, stuck, fun coherent => ?_⟩
  obtain ⟨trail, visits⟩ : ∃ trail, Visits _ _ trail := ⟨_, coherent.visits 0⟩
  cases visits with
  | ends last =>
    rw [stuck] at last
    cases last
  | goes onward _ =>
    rw [stuck] at onward
    cases onward

end Examples

end DataCollectionLab.Form
