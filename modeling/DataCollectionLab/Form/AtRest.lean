import DataCollectionLab.Form.Preview

/-!
Where a pass leaves a form: every field is where its evaluation would leave it. So a second pass is one that has rows to
make or to take away, and an answer moves nothing but what depends on it.
-/

namespace DataCollectionLab.Form

open Lib

variable {platform : Device.Platform} {form : CompiledForm} {session : Session} {cf : CompiledField} {path : String}
  {scope : Option (String × String)} {s t ρ : FormInstance}

def Device.Outcome.write (o : Device.Outcome) (state : FieldState) : FieldState :=
  { state with
    relevant := o.relevant
    value := o.value
    required := o.required
    readOnly := o.readOnly
    valid := o.errors.isEmpty
    errors := o.errors }

theorem settle_eq_iff {o : Device.Outcome} :
    o.settle path s = s ↔ s.values path = some o.value ∧ (s.states path).map o.write = s.states path := by
  constructor
  · intro still
    constructor
    · exact (congrArg (fun s => s.values path) still).symm.trans (if_pos rfl)
    · exact (if_pos rfl).symm.trans (congrArg (fun s => s.states path) still)
  · rintro ⟨value, state⟩
    unfold Device.Outcome.settle
    rw [setValue_same value]
    obtain ⟨_, _, _, _, _, _, _⟩ := s
    unfold FormInstance.changeState
    congr 1
    funext key
    split
    · rename_i same
      rw [same]
      exact state
    · rfl

def Rests (platform : Device.Platform) (form : CompiledForm) (session : Session) (cf : CompiledField) (path : String)
    (scope : Option (String × String)) (s : FormInstance) : Prop :=
  ∃ o, Device.outcome platform (Device.evaluate platform) form session cf path scope s = .ok o ∧ o.settle path s = s

def AtRest (platform : Device.Platform) (form : CompiledForm) (session : Session) (s : FormInstance) : Prop :=
  ∀ cf ∈ form.fields, ∀ path scope, Turn s cf path scope → Rests platform form session cf path scope s

def Unlooped (form : CompiledForm) : Prop :=
  ∀ cf ∈ form.fields, cf.node.calculate.isSome → cf.fieldId ∉ cf.dependsOn

section Fields

variable (formed : Formed form) (plain : PlainRows form s)

include formed plain

theorem concur_settle (member : cf ∈ form.fields) (turn : path ∈ turns s cf) {o : Device.Outcome} {names : List String}
    (unread : s.values path = some o.value ∨ cf.fieldId ∉ names) : Concur names s (o.settle path s) := by
  refine ⟨rfl, fun read depends key looks => ?_⟩
  show (if key = path then some o.value else s.values key) = s.values key
  split
  · rename_i same
    subst same
    rcases unread with kept | apart
    · exact kept.symm
    · exact absurd (depends _ (reads_turn formed plain plain member turn looks).1) apart
  · rfl

theorem Rests.moved (rests : Rests platform form session cf path scope s) (dependent : Dependent form cf)
    (concur : Concur cf.dependsOn s t) (turn : Turn s cf path scope) (value : t.values path = s.values path)
    (state : t.states path = s.states path) : Rests platform form session cf path scope t := by
  obtain ⟨o, came, still⟩ := rests
  obtain ⟨held, shown⟩ := settle_eq_iff.mp still
  refine ⟨o, ?_, settle_eq_iff.mpr ⟨value.trans held, by rw [state, shown]⟩⟩
  rw [← outcome_concur platform formed plain dependent concur (fun _ _ given => turn_placed turn given)
    fun _ _ => Or.inr value]
  exact came

theorem rests_settle (dependent : Dependent form cf) (member : cf ∈ form.fields) (turn : Turn s cf path scope)
    (alone : cf.node.calculate.isSome → cf.fieldId ∉ cf.dependsOn) {o : Device.Outcome}
    (came : Device.outcome platform (Device.evaluate platform) form session cf path scope s = .ok o) :
    Rests platform form session cf path scope (o.settle path s) := by
  obtain ⟨relevance, idle⟩ := Device.outcome_spec platform _ form session cf path scope came
  have here : (o.settle path s).values path = some o.value := if_pos rfl
  have concur : Concur cf.dependsOn s (o.settle path s) := by
    refine concur_settle formed plain member (mem_turns_iff.mpr ⟨scope, turn⟩) ?_
    cases given : cf.node.calculate with
    | none => exact Or.inl (idle (Or.inl given))
    | some calculate => exact Or.inr (alone (by rw [given]; rfl))
  refine ⟨o, ?_, settle_eq_iff.mpr ⟨here, ?_⟩⟩
  · rw [← outcome_concur platform formed plain dependent concur fun _ _ given => turn_placed turn given]
    · exact came
    · intro relevant found
      obtain rfl := Except.ok.inj (relevance.symm.trans found)
      by_cases calculated : cf.node.calculate.isSome ∧ o.relevant = true
      · exact Or.inl calculated
      · refine Or.inr (here.trans (idle ?_).symm)
        rcases not_and_or.mp calculated with uncalculated | irrelevant
        · exact Or.inl (Option.not_isSome_iff_eq_none.mp uncalculated)
        · exact Or.inr (Bool.eq_false_iff.mpr irrelevant)
  · have written : (o.settle path s).states path = (s.states path).map o.write := if_pos rfl
    rw [written, Option.map_map]
    rfl

end Fields

section Pass

/-- In the course of a pass, when the rows are settled: what is done rests. -/
structure Resting (platform : Device.Platform) (form : CompiledForm) (session : Session) (ρ : FormInstance)
    (seen : String → Prop) (s : FormInstance) : Prop where
  rows : s.instances = ρ.instances
  rests : ∀ cf ∈ form.fields, ∀ path scope, Turn ρ cf path scope → seen path → Rests platform form session cf path scope s

theorem Resting.mono {seen seen' : String → Prop} (resting : Resting platform form session ρ seen s)
    (fewer : ∀ key, seen' key → seen key) : Resting platform form session ρ seen' s :=
  ⟨resting.rows, fun cf member path scope turn done => resting.rests cf member path scope turn (fewer path done)⟩

theorem plainRows_congr (plain : PlainRows form s) (rows : t.instances = s.instances) : PlainRows form t := by
  intro rid iid within
  have same : t.rows rid = s.rows rid := congrArg (·.getD []) (congrFun rows rid)
  exact plain rid iid (same ▸ within)

variable {children : List Node} (compiled : compile children = .ok form) (unlooped : Unlooped form)
  (plain : PlainRows form ρ)

include compiled unlooped plain

theorem evaluateField_rests {seen : String → Prop} {before after : List String} (member : cf ∈ form.fields)
    (whole : form.topoOrder = before ++ cf.fieldId :: after)
    (done : ∀ cf' ∈ form.fields, ∀ key ∈ turns ρ cf', seen key → cf'.fieldId ∈ before ∨ cf' = cf)
    (turn : Turn ρ cf path scope) : Triple (Resting platform form session ρ seen)
      (Device.evaluateField platform (Device.evaluate platform) form session cf path scope)
      (fun _ => Resting platform form session ρ fun key => seen key ∨ key = path) fun _ _ => True := by
  have formed := compile_formed compiled
  obtain ⟨-, -, -, -, -, -, -, sorted⟩ := compile_parts compiled
  intro s resting
  cases ran : Device.evaluateField platform (Device.evaluate platform) form session cf path scope s with
  | error e s' => trivial
  | ok u s' =>
    obtain ⟨has, o, came, rfl⟩ := (Device.evaluateField_ok_iff platform _ form session cf path scope).mp ran
    have plainS := plainRows_congr plain resting.rows
    have turnS : Turn s cf path scope := (turn_congr resting.rows).mpr turn
    have hereS : path ∈ turns s cf := mem_turns_iff.mpr ⟨scope, turnS⟩
    refine ⟨resting.rows, fun cf' member' path' scope' turn' seen' => ?_⟩
    have turnS' : Turn s cf' path' scope' := (turn_congr resting.rows).mpr turn'
    by_cases same : path' = path
    · subst same
      obtain rfl := turn_field formed member' member (mem_turns_iff.mpr ⟨scope', turnS'⟩) hereS
      obtain rfl := turn_scope turnS' turnS
      exact rests_settle formed plainS (compile_dependent compiled cf' member') member' turnS' (unlooped cf' member') came
    · have earlier := seen'.resolve_right same
      -- What is done does not read this field, where the field has another answer than before.
      have concur : Concur cf'.dependsOn s (o.settle path s) := by
        refine concur_settle formed plainS member hereS ?_
        rcases done cf' member' path' (mem_turns_iff.mpr ⟨scope', turn'⟩) earlier with old | rfl
        · refine Or.inr fun depends => base_ne_later formed sorted whole member' old depends ?_
          exact base_plain (formed.plain cf member)
        · cases given : cf'.node.calculate with
          | none =>
            exact Or.inl ((Device.outcome_spec platform _ form session cf' path scope came).2 (Or.inl given))
          | some calculate => exact Or.inr (unlooped cf' member (by rw [given]; rfl))
      exact (resting.rests cf' member' path' scope' turn' earlier).moved formed plainS
        (compile_dependent compiled cf' member') concur turnS' (if_neg same) (if_neg same)

theorem evaluateFields_rests {before after : List String} {fid : String}
    (whole : form.topoOrder = before ++ fid :: after) :
    Triple (Resting platform form session ρ (Done form ρ before))
      (evaluateFields (Device.runtime platform) form session fid)
      (fun _ => Resting platform form session ρ (Done form ρ (before ++ [fid]))) fun _ _ => True := by
  have formed := compile_formed compiled
  unfold evaluateFields
  cases found : form.field? fid with
  | none => exact fun _ _ => trivial
  | some cf =>
    have member := List.mem_of_find?_eq_some found
    obtain rfl : cf.fieldId = fid := by simpa using List.find?_some found
    have earlier {cf' : CompiledField} (member' : cf' ∈ form.fields) {key : String} (turn : key ∈ turns ρ cf')
        (done : Done form ρ before key) : cf'.fieldId ∈ before := by
      obtain ⟨cf'', member'', listed, turn'⟩ := done
      rwa [turn_field formed member' member'' turn turn']
    dsimp only
    cases inside : cf.repeatId with
    | none =>
      have turn : Turn ρ cf cf.fieldId none := Or.inl ⟨inside, rfl, rfl⟩
      refine Triple.mono (evaluateField_rests compiled unlooped plain member whole
        (fun cf' member' key turn done => Or.inl (earlier member' turn done)) turn)
        (fun _ => id) (fun _ s resting => resting.mono fun key done => ?_) fun _ _ => id
      refine (done.last formed member).imp_right fun turn => ?_
      rw [turns, inside] at turn
      exact List.mem_singleton.mp turn
    | some rid =>
      refine Triple.get_bind fun s resting => ?_
      rw [show s.rows rid = ρ.rows rid from congrArg (·.getD []) (congrFun resting.rows rid)]
      have rows := @Triple.forM_steps _ _ _ (fun _ _ => True) (ρ.rows rid)
        (fun iid => (Device.runtime platform).evaluateField form session cf (instancePath rid iid cf.fieldId) (some (rid, iid)))
        (fun done => Resting platform form session ρ fun key =>
          Done form ρ before key ∨ ∃ iid ∈ done, key = instancePath rid iid cf.fieldId) fun done iid rest split => ?_
      · refine Triple.mono rows (fun s' same => same ▸ resting.mono fun key here => ?_)
          (fun _ s' resting' => resting'.mono fun key done => (done.last formed member).imp_right fun turn => ?_) fun _ _ => id
        · refine here.resolve_right ?_
          rintro ⟨iid, within, -⟩
          exact List.not_mem_nil within
        · rw [turns, inside] at turn
          obtain ⟨iid, within, same⟩ := List.mem_map.mp turn
          exact ⟨iid, within, same.symm⟩
      · have inRow {iid : String} (within : iid ∈ ρ.rows rid) :
            Turn ρ cf (instancePath rid iid cf.fieldId) (some (rid, iid)) := Or.inr ⟨rid, inside, iid, within, rfl, rfl⟩
        have within {iid' : String} (listed : iid' ∈ done ++ [iid]) : iid' ∈ ρ.rows rid :=
          split ▸ List.append_assoc done [iid] rest ▸ List.mem_append_left _ listed
        refine Triple.mono (evaluateField_rests compiled unlooped plain member whole
          (fun cf' member' key turn here => ?_) (inRow (within (by simp)))) (fun _ => id)
          (fun _ s' resting' => resting'.mono fun key here => ?_) fun _ _ => id
        · rcases here with old | ⟨iid', listed, rfl⟩
          · exact Or.inl (earlier member' turn old)
          · refine Or.inr (turn_field formed member' member turn (mem_turns_iff.mpr ⟨_, inRow (within ?_)⟩))
            exact List.mem_append_left _ listed
        · rcases here with old | ⟨iid', within', same⟩
          · exact Or.inl (Or.inl old)
          rcases List.mem_append.mp within' with listed | now
          · exact Or.inl (Or.inr ⟨iid', listed, same⟩)
          · exact Or.inr (List.mem_singleton.mp now ▸ same)

theorem evaluated_atRest {s' : FormInstance}
    (ran : form.topoOrder.forM (evaluateFields (Device.runtime platform) form session) ρ = .ok () s') :
    AtRest platform form session s' := by
  obtain ⟨-, -, -, -, -, -, -, sorted⟩ := compile_parts compiled
  have turnwise := @Triple.forM_steps _ _ _ (fun _ _ => True) form.topoOrder
    (evaluateFields (Device.runtime platform) form session)
    (fun before => Resting platform form session ρ (Done form ρ before))
    fun before fid after whole => evaluateFields_rests compiled unlooped plain whole
  have begun : Resting platform form session ρ (Done form ρ []) ρ :=
    ⟨rfl, fun _ _ _ _ _ ⟨_, _, listed, _⟩ => absurd listed List.not_mem_nil⟩
  have ended := turnwise.ok begun ran
  intro cf member path scope turn
  have turn' : Turn ρ cf path scope := (turn_congr ended.rows).mp turn
  exact ended.rests cf member path scope turn'
    ⟨cf, member, mem_topoOrder sorted member, mem_turns_iff.mpr ⟨scope, turn'⟩⟩

end Pass

section Calls

variable {s' : FormInstance} {children : List Node}

theorem recalculate_settles (compiled : compile children = .ok form) (unlooped : Unlooped form) (plain : PlainRows form s')
    (ran : recalculate (Device.runtime platform) form session s = .ok () s') : AtRest platform form session s' := by
  obtain ⟨⟨⟩, _, -, ran⟩ := run_bind_ok_iff.mp ran
  obtain ⟨⟨⟩, ρ, -, fields⟩ := run_bind_ok_iff.mp ran
  have framed : Framed fun s => s.instances = ρ.instances := ⟨fun _ _ _ => id, fun _ _ _ same _ => same⟩
  have kept : Keeps _ (form.topoOrder.forM (evaluateFields (Device.runtime platform) form session)) :=
    Triple.forM fun fid _ => Device.evaluateFields_keeps platform framed fid
  exact evaluated_atRest compiled unlooped (plainRows_congr plain (kept.ok rfl fields).symm) fields

section Passes

variable {runtime : Runtime}

theorem addInstance_passes {rid iid : String} (ran : addInstance runtime form session rid s = .ok iid s') :
    ∃ between, recalculate runtime form session between = .ok () s' := by
  rcases addInstance_cases session runtime rid s with ⟨message, refused⟩ | ⟨node, -, -, -, steps⟩
  · rw [refused] at ran
    cases ran
  · rw [steps] at ran
    obtain ⟨_, between, -, ran⟩ := run_bind_ok_iff.mp ran
    obtain ⟨⟨⟩, _, passed, ended⟩ := run_bind_ok_iff.mp ran
    obtain ⟨-, rfl⟩ := EStateM.Result.ok.inj ended
    exact ⟨between, passed⟩

theorem deleteInstance_passes {rid : String} {index : ℤ} (ran : deleteInstance runtime form session rid index s = .ok () s') :
    ∃ between, recalculate runtime form session between = .ok () s' := by
  rcases deleteInstance_cases session runtime rid index s with ⟨message, refused⟩ | ⟨node, -, -, -, steps⟩
  · rw [refused] at ran
    cases ran
  · rw [steps] at ran
    obtain ⟨⟨⟩, _, -, ran⟩ := run_bind_ok_iff.mp ran
    obtain ⟨⟨⟩, between, -, passed⟩ := run_bind_ok_iff.mp ran
    exact ⟨between, passed⟩

end Passes

open PreviewSession

variable {plan : ScreenPlan} {step : PreviewStep} {preview preview' : PreviewSession}

theorem act_settles (compiled : compile children = .ok form) (unlooped : Unlooped form)
    (minted : Minted form preview.answers) (acted : act platform form session plan step preview = .ok () preview') :
    AtRest platform form session preview'.answers := by
  have formed := compile_formed compiled
  have plain := ((act_keeps formed step).ok minted acted).plainRows
  suffices ∃ between, recalculate (Device.runtime platform) form session between = .ok () preview'.answers by
    obtain ⟨between, passed⟩ := this
    exact recalculate_settles compiled unlooped plain passed
  cases step with
  | set path value => exact ⟨_, ((set_act_ok_iff formed minted).mp acted).2.1⟩
  | addRow rid =>
    obtain ⟨iid, between, added, entered⟩ := run_bind_ok_iff.mp acted
    obtain ⟨seen, seen', looked, entered⟩ := run_bind_ok_iff.mp entered
    obtain ⟨rfl, rfl⟩ := EStateM.Result.ok.inj looked
    have passed := addInstance_passes (onForm_ok_iff.mp added).1
    split at entered
    · obtain ⟨position, last, found, moved⟩ := run_bind_ok_iff.mp entered
      obtain ⟨-, rfl⟩ := preview_lift_ok_iff.mp found
      obtain ⟨-, rfl⟩ := EStateM.Result.ok.inj moved
      exact passed
    · obtain ⟨-, rfl⟩ := EStateM.Result.ok.inj entered
      exact passed
  | deleteRow rid iid =>
    obtain ⟨seen, seen', looked, acted⟩ := run_bind_ok_iff.mp acted
    obtain ⟨rfl, rfl⟩ := EStateM.Result.ok.inj looked
    split at acted
    · cases acted
    · obtain ⟨⟨⟩, between, deleted, acted⟩ := run_bind_ok_iff.mp acted
      have passed := deleteInstance_passes (onForm_ok_iff.mp deleted).1
      obtain ⟨position, last, found, moved⟩ := run_bind_ok_iff.mp acted
      obtain ⟨-, rfl⟩ := preview_lift_ok_iff.mp found
      obtain ⟨-, rfl⟩ := EStateM.Result.ok.inj moved
      exact passed

def attempts (platform : Device.Platform) (form : CompiledForm) (session : Session) (plan : ScreenPlan)
    (steps : List PreviewStep) (start : PreviewSession) : PreviewSession :=
  steps.foldl (fun preview step => after (act platform form session plan step) preview) start

theorem attempts_since (formed : Formed form) {start : PreviewSession} (since : Since form s start.answers)
    (steps : List PreviewStep) : Since form s (attempts platform form session plan steps start).answers := by
  induction steps using List.reverseRecOn with
  | nil => exact since
  | append_singleton steps step ih =>
    rw [attempts, List.foldl_append]
    exact (act_keeps formed step).after ih

theorem attempts_minted (formed : Formed form) {start : PreviewSession}
    (began : openSession platform form session plan = .ok start) (steps : List PreviewStep) :
    Minted form (attempts platform form session plan steps start).answers :=
  attempts_since formed (openSession_minted formed began) steps

end Calls

section Again

theorem recalculate_quiet (quiet : Quiet platform form session s) (well : WellFormed form s) :
    recalculate (Device.runtime platform) form session s =
      form.topoOrder.forM (evaluateFields (Device.runtime platform) form session) s := by
  have sources : form.repeats.forM (resolveRows (Device.runtime platform) form session) s = .ok () s :=
    forM_still fun node listed => resolveRows_quiet quiet listed
  have counts : form.repeats.forM (settleCount (Device.runtime platform) form session) s = .ok () s :=
    forM_still fun node listed => settleCount_quiet quiet well listed
  show EStateM.bind _ (fun _ => EStateM.bind _ _) s = _
  unfold EStateM.bind
  rw [sources]
  dsimp only
  rw [counts]

theorem evaluateFields_atRest (rests : AtRest platform form session s) (well : WellFormed form s) {fid : String}
    (listed : (form.field? fid).isSome) : evaluateFields (Device.runtime platform) form session fid s = .ok () s := by
  obtain ⟨cf, found⟩ := Option.isSome_iff_exists.mp listed
  have member := List.mem_of_find?_eq_some found
  obtain rfl : cf.fieldId = fid := by simpa using List.find?_some found
  have still {path : String} {scope : Option (String × String)} (turn : Turn s cf path scope) :
      Device.evaluateField platform (Device.evaluate platform) form session cf path scope s = .ok () s := by
    obtain ⟨o, came, still⟩ := rests cf member path scope turn
    refine (Device.evaluateField_ok_iff platform _ form session cf path scope).mpr ⟨?_, o, came, still.symm⟩
    exact (well.states path).mpr (turn_keyed member (mem_turns_iff.mpr ⟨scope, turn⟩))
  unfold evaluateFields
  rw [found]
  dsimp only
  cases inside : cf.repeatId with
  | none => exact still (Or.inl ⟨inside, rfl, rfl⟩)
  | some rid => exact forM_still fun iid within => still (Or.inr ⟨rid, inside, iid, within, rfl, rfl⟩)

theorem recalculate_atRest {children : List Node} (compiled : compile children = .ok form) (well : WellFormed form s)
    (rests : AtRest platform form session s) (quiet : Quiet platform form session s) :
    recalculate (Device.runtime platform) form session s = .ok () s := by
  obtain ⟨-, -, -, -, -, -, -, sorted⟩ := compile_parts compiled
  rw [recalculate_quiet quiet well]
  refine forM_still fun fid listed => evaluateFields_atRest rests well ?_
  obtain ⟨-, order⟩ := topoOrder_complete sorted
  rw [order] at listed
  obtain ⟨p, -, found⟩ := List.mem_filterMap.mp listed
  obtain ⟨cf, member, rfl⟩ := List.mem_map.mp (List.mem_of_getElem? found)
  exact List.find?_isSome.mpr ⟨cf, member, by simp⟩

end Again

section Local

variable {children : List Node} {cf₀ : CompiledField}

def Downstream (form : CompiledForm) : CompiledField → CompiledField → Prop :=
  Relation.ReflTransGen fun a b => b ∈ form.fields ∧ a.fieldId ∈ b.dependsOn

structure Confined (form : CompiledForm) (cf₀ : CompiledField) (s u : FormInstance) : Prop where
  rows : u.instances = s.instances
  well : WellFormed form u
  kept : ∀ cf ∈ form.fields, ¬ Downstream form cf₀ cf → ∀ key ∈ turns s cf,
    u.values key = s.values key ∧ u.states key = s.states key

variable (compiled : compile children = .ok form) (well : WellFormed form s) (plain : PlainRows form s)
  (rests : AtRest platform form session s)

include compiled well plain rests

theorem evaluateField_confined (member : cf ∈ form.fields) (turn : Turn s cf path scope) :
    Triple (Confined form cf₀ s) (Device.evaluateField platform (Device.evaluate platform) form session cf path scope)
      (fun _ => Confined form cf₀ s) fun _ _ => True := by
  have formed := compile_formed compiled
  intro u confined
  cases ran : Device.evaluateField platform (Device.evaluate platform) form session cf path scope u with
  | error e u' => trivial
  | ok v u' =>
    obtain ⟨has, o, came, rfl⟩ := (Device.evaluateField_ok_iff platform _ form session cf path scope).mp ran
    have here : path ∈ turns s cf := mem_turns_iff.mpr ⟨scope, turn⟩
    refine ⟨confined.rows, Device.settle_keeps (wellFormed_framed form) o confined.well has,
      fun cf' member' apart key turn' => ?_⟩
    by_cases same : key = path
    · subst same
      obtain rfl := turn_field formed member' member turn' here
      -- What it reads does not depend on the field either, and is as it was.
      have concur : Concur cf'.dependsOn s u := by
        refine ⟨confined.rows, fun read depends key' looks => ?_⟩
        by_cases keyed : Keyed form s key'
        · obtain ⟨cf'', member'', turn''⟩ := keyed_turn keyed
          have named := depends _ (reads_turn formed plain plain member'' turn'' looks).1
          exact (confined.kept cf'' member'' (fun below => apart (below.tail ⟨member', named⟩)) key' turn'').1
        · have unkeyed : ¬ Keyed form u key' := fun there => keyed ((keyed_congr confined.rows).mp there)
          rw [← well.values, Option.not_isSome_iff_eq_none] at keyed
          rw [← confined.well.values, Option.not_isSome_iff_eq_none] at unkeyed
          rw [keyed, unkeyed]
      obtain ⟨value, state⟩ := confined.kept cf' member' apart key here
      obtain ⟨o', came', still⟩ := (rests cf' member key scope turn).moved formed plain
        (compile_dependent compiled cf' member) concur turn value state
      obtain rfl := Except.ok.inj (came.symm.trans came')
      rw [still]
      exact ⟨value, state⟩
    · have kept := confined.kept cf' member' apart key turn'
      exact ⟨(if_neg same).trans kept.1, (if_neg same).trans kept.2⟩

theorem recalculate_confined (member : cf₀ ∈ form.fields) (turn : path ∈ turns s cf₀) {value : Value}
    (quiet : Quiet platform form session (s.setValue path value)) {u : FormInstance}
    (ran : recalculate (Device.runtime platform) form session (s.setValue path value) = .ok () u) :
    Confined form cf₀ s u := by
  have formed := compile_formed compiled
  have well' := wellFormed_setValue well ((well.values path).mpr (turn_keyed member turn)) value
  have begun : Confined form cf₀ s (s.setValue path value) := by
    refine ⟨rfl, well', fun cf member' apart key turn' => ⟨if_neg ?_, rfl⟩⟩
    rintro rfl
    obtain rfl := turn_field formed member' member turn' turn
    exact apart Relation.ReflTransGen.refl
  rw [recalculate_quiet quiet well'] at ran
  have each := evaluateFields_turns (fun _ => Confined.rows) fun cf member path scope turn =>
    @evaluateField_confined platform form session _ _ _ _ children cf₀ compiled well plain rests member turn
  exact (Triple.forM fun fid _ => each fid).ok begun ran

end Local

section Ids

open PreviewSession

/-- In every preview the rows are well formed whatever the steps did, and the id of a row that went is not given to
another. -/
theorem preview_rows_stand {plan : ScreenPlan} {children : List Node} {start : PreviewSession}
    (compiled : compile children = .ok form) (began : openSession platform form session plan = .ok start) :
    (∀ steps, WellFormed form (attempts platform form session plan steps start).answers) ∧
    ∀ earlier later more rid other iid, iid ∈ (attempts platform form session plan earlier start).answers.rows rid →
      iid ∉ (attempts platform form session plan (earlier ++ later) start).answers.rows other →
      iid ∉ (attempts platform form session plan (earlier ++ later ++ more) start).answers.rows other := by
  have minted := attempts_minted (compile_formed compiled) began
  refine ⟨fun steps => (minted steps).well, fun earlier later more rid other iid held gone back => ?_⟩
  have stays (steps after : List PreviewStep) : Since form (attempts platform form session plan steps start).answers
      (attempts platform form session plan (steps ++ after) start).answers := by
    rw [attempts, attempts, List.foldl_append]
    exact attempts_since (compile_formed compiled) ⟨(minted steps).well, grown_refl _ _⟩ after
  rcases (stays (earlier ++ later) more).grown.rows other iid back with old | handed | ⟨n, above, rfl⟩
  · exact gone old
  · cases handed
  · -- A minted id carries a number above the counter, and one that was held does not.
    have below := (minted earlier).well.bounded rid n (List.mem_filterMap.mpr ⟨_, held, serialOf_minted n⟩)
    exact absurd above (Nat.not_lt.mpr (below.trans (stays earlier later).grown.serial))

end Ids

section Runs

open PreviewSession

variable {plan : ScreenPlan} {children : List Node} {start preview next : PreviewSession} {steps : List PreviewStep}
  {step : PreviewStep} (compiled : compile children = .ok form) (unlooped : Unlooped form)
  (began : openSession platform form session plan = .ok start)
  (taken : act platform form session plan step (attempts platform form session plan steps start) = .ok () preview)

include compiled unlooped began taken

/-- Whatever the steps before it did, those that were refused among them: a step that is taken leaves every field where
its evaluation leaves it. -/
theorem taken_settles : AtRest platform form session preview.answers :=
  act_settles compiled unlooped (attempts_minted (compile_formed compiled) began steps) taken

theorem passed_again (quiet : Quiet platform form session preview.answers) :
    recalculate (Device.runtime platform) form session preview.answers = .ok () preview.answers := by
  have formed := compile_formed compiled
  have minted := (act_keeps formed step).ok (attempts_minted formed began steps) taken
  exact recalculate_atRest compiled minted.well (act_settles compiled unlooped (attempts_minted formed began steps) taken)
    quiet

theorem answer_confined {value : Value} (answered : act platform form session plan (.set path value) preview = .ok () next)
    {cf₀ : CompiledField} (member : cf₀ ∈ form.fields) (turn : path ∈ turns preview.answers cf₀)
    (quiet : Quiet platform form session (preview.answers.setValue path value)) :
    Confined form cf₀ preview.answers next.answers := by
  have formed := compile_formed compiled
  have minted := (act_keeps formed step).ok (attempts_minted formed began steps) taken
  obtain ⟨-, ran, -⟩ := (set_act_ok_iff formed minted).mp answered
  exact recalculate_confined compiled minted.well minted.plainRows
    (act_settles compiled unlooped (attempts_minted formed began steps) taken) member turn quiet ran

end Runs

section Spoken

def spoken : PreviewSession :=
  attempts still greetedForm noon (Device.buildScreenPlan greeted)
    [.addRow "members", .set "age" (.integer 4), .set "name" (.text "Ama")] (beginning greetedForm greeted)

def renamed : PreviewSession :=
  attempts still greetedForm noon (Device.buildScreenPlan greeted) [.set "name" (.text "Efua")] spoken

theorem greeted_unlooped : Unlooped greetedForm := by
  intro cf member calculated
  rcases List.mem_cons.mp member with rfl | member
  · cases calculated
  rcases List.mem_cons.mp member with rfl | member
  · decide
  obtain rfl := List.mem_singleton.mp member
  cases calculated

theorem greeted_quiet (s : FormInstance) : Quiet still greetedForm noon s := by
  intro node listed
  obtain rfl := List.mem_singleton.mp listed
  exact ⟨nofun, nofun⟩

theorem spoken_settles : compile greeted = .ok greetedForm ∧ AtRest still greetedForm noon spoken.answers :=
  ⟨rfl, @taken_settles still greetedForm noon (Device.buildScreenPlan greeted) greeted (beginning greetedForm greeted) spoken
    [.addRow "members", .set "age" (.integer 4)] (.set "name" (.text "Ama")) rfl greeted_unlooped rfl rfl⟩

theorem spoken_again : recalculate (Device.runtime still) greetedForm noon spoken.answers = .ok () spoken.answers :=
  @passed_again still greetedForm noon (Device.buildScreenPlan greeted) greeted (beginning greetedForm greeted) spoken
    [.addRow "members", .set "age" (.integer 4)] (.set "name" (.text "Ama")) rfl greeted_unlooped rfl rfl (greeted_quiet _)

theorem renamed_confined : ∃ cf ∈ greetedForm.fields, cf.fieldId = "name" ∧
    Confined greetedForm cf spoken.answers renamed.answers :=
  ⟨_, List.mem_cons_self, rfl, @answer_confined still greetedForm noon "name" (Device.buildScreenPlan greeted) greeted
    (beginning greetedForm greeted) spoken renamed [.addRow "members", .set "age" (.integer 4)] (.set "name" (.text "Ama"))
    rfl greeted_unlooped rfl rfl (.text "Efua") rfl _ List.mem_cons_self (List.mem_singleton_self _) (greeted_quiet _)⟩

def roomed (steps : List PreviewStep) : FormInstance :=
  (attempts still greetedForm noon (Device.buildScreenPlan greeted) steps (beginning greetedForm greeted)).answers

theorem moved_out : (roomed [.addRow "members"]).rows "members" = ["i1"] ∧
    "i1" ∉ (roomed [.addRow "members", .deleteRow "members" "i1", .addRow "members"]).rows "members" :=
  ⟨rfl, (@preview_rows_stand still greetedForm noon (Device.buildScreenPlan greeted) greeted (beginning greetedForm greeted)
    rfl rfl).2 [.addRow "members"] [.deleteRow "members" "i1"] [.addRow "members"] "members" "members" "i1"
    (by decide +kernel) (by decide +kernel)⟩

end Spoken

end DataCollectionLab.Form
