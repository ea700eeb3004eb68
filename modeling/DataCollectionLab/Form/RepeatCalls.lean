import DataCollectionLab.Form.RepeatRuns

/-!
The calls on a form instance, and what each of them leaves of the rows and the keys when it returns and
when it raises. An id that storage hands in has to follow those its repeat has.
-/

namespace DataCollectionLab.Form

open Lib
variable {form : CompiledForm} {s s₀ : FormInstance}

inductive Call where
  | set (path : String) (value : Value)
  | setMany (answers : List (String × Value))
  | addInstance (rid : String)
  | deleteInstance (rid : String) (index : ℤ)
  | restore (instances : List (String × List String)) (answers : List (String × Value))
  | recalculate

namespace Call

variable (evaluate : Context → Expr → Except Failure Value) (form : CompiledForm) (session : Session)

def perform : Call → Run Unit
  | set path value => Form.setMany (Reference.runtime evaluate) form session [(path, value)]
  | setMany answers => Form.setMany (Reference.runtime evaluate) form session answers
  | addInstance rid => discard (Form.addInstance (Reference.runtime evaluate) form session rid)
  | deleteInstance rid index => Form.deleteInstance (Reference.runtime evaluate) form session rid index
  | restore instances answers => discard (Reference.restore form evaluate session instances answers)
  | recalculate => Form.recalculate (Reference.runtime evaluate) form session

end Call

section Calls

variable (evaluate : Context → Expr → Except Failure Value) (session : Session)

theorem addInstance_cases (runtime : Runtime) (rid : String) (s : FormInstance) :
    (∃ message, addInstance runtime form session rid s = .error (.compile message) s) ∨
      ∃ node, form.repeat? rid = some node ∧ node.countExpr = none ∧
        (∀ maximum, node.maxInstances = some maximum → ((s.rows rid).length : ℤ) < maximum) ∧
        addInstance runtime form session rid s =
          (createInstance form rid none >>= fun iid =>
            recalculate runtime form session >>= fun _ => pure iid : Run String) s := by
  unfold addInstance
  cases found : form.repeat? rid with
  | none => exact Or.inl ⟨_, rfl⟩
  | some node =>
    by_cases counted : node.countExpr.isSome = true
    · exact Or.inl ⟨_, by simp only [counted, if_true]; rfl⟩
    · by_cases closed : (node.rowSource.any fun source => !source.allowAdd) = true
      · exact Or.inl ⟨_, by simp only [counted, closed, if_true]; rfl⟩
      · have uncounted : node.countExpr = none := by simpa using counted
        simp only [counted, closed]
        cases limited : node.maxInstances with
        | none => exact Or.inr ⟨node, rfl, uncounted, fun maximum given => (by rw [limited] at given; cases given), rfl⟩
        | some maximum =>
          by_cases full : maximum ≤ ((s.rows rid).length : ℤ)
          · refine Or.inl ⟨"repeat " ++ rid ++ " is at its maximum of " ++ toString maximum, ?_⟩
            show (if maximum ≤ ((s.rows rid).length : ℤ) then _ else _ : Run String) s = _
            rw [if_pos full]
            rfl
          · refine Or.inr ⟨node, rfl, uncounted, fun other given => ?_, ?_⟩
            · rw [limited] at given
              cases given
              omega
            · show (if maximum ≤ ((s.rows rid).length : ℤ) then _ else _ : Run String) s = _
              rw [if_neg full]

theorem deleteInstance_cases (runtime : Runtime) (rid : String) (index : ℤ) (s : FormInstance) :
    (∃ message, deleteInstance runtime form session rid index s =
        .error (.compile message) s) ∨
      ∃ node, form.repeat? rid = some node ∧ index.toNat < (s.rows rid).length ∧
        (node.rowSource = none → node.minInstances.getD 0 < (s.rows rid).length) ∧
        deleteInstance runtime form session rid index s =
          (assertCreationOrder rid >>= fun _ =>
            modify (destroyInstance form rid ((s.rows rid).getD index.toNat "")) >>= fun _ =>
              recalculate runtime form session : Run Unit)
            (s.setRows rid ((s.rows rid).eraseIdx index.toNat)) := by
  unfold deleteInstance
  cases found : form.repeat? rid with
  | none => exact Or.inl ⟨_, rfl⟩
  | some node =>
    by_cases counted : node.countExpr.isSome = true
    · exact Or.inl ⟨_, by simp only [counted, if_true]; rfl⟩
    · by_cases closed : (node.rowSource.any fun source => !source.allowDelete) = true
      · exact Or.inl ⟨_, by simp only [counted, closed, if_true]; rfl⟩
      · simp only [counted, closed]
        by_cases outside : index < 0 ∨ ((s.rows rid).length : ℤ) ≤ index
        · refine Or.inl ⟨"no instance at " ++ rid ++ "[" ++ toString index ++ "]", ?_⟩
          show (if index < 0 ∨ ((s.rows rid).length : ℤ) ≤ index then _ else _ : Run Unit) s = _
          rw [if_pos outside]
          rfl
        · by_cases atFloor : ((if node.rowSource.isSome then none else node.minInstances).any
              fun minimum => decide (((s.rows rid).length : ℤ) ≤ minimum)) = true
          · refine Or.inl ⟨"repeat " ++ rid ++ " is at its minimum of " ++
              toString ((if node.rowSource.isSome then none else node.minInstances).getD 0), ?_⟩
            show (if index < 0 ∨ ((s.rows rid).length : ℤ) ≤ index then _ else _ : Run Unit) s = _
            rw [if_neg outside]
            show (if ((if node.rowSource.isSome then none else node.minInstances).any
              fun minimum => decide (((s.rows rid).length : ℤ) ≤ minimum)) = true then _ else _ : Run Unit) s = _
            rw [if_pos atFloor]
            rfl
          · refine Or.inr ⟨node, rfl, by omega, fun unsourced => ?_, ?_⟩
            · rw [unsourced] at atFloor
              cases given : node.minInstances with
              | none =>
                have : 0 < (s.rows rid).length := by omega
                simpa using this
              | some minimum =>
                rw [given] at atFloor
                simpa using atFloor
            · show (if index < 0 ∨ ((s.rows rid).length : ℤ) ≤ index then _ else _ : Run Unit) s = _
              rw [if_neg outside]
              show (if ((if node.rowSource.isSome then none else node.minInstances).any
                fun minimum => decide (((s.rows rid).length : ℤ) ≤ minimum)) = true then _ else _ : Run Unit) s = _
              rw [if_neg atFloor]
              rfl

theorem repeat?_mem {rid : String} {node : Repeat} (found : form.repeat? rid = some node) :
    node ∈ form.repeats ∧ node.id = rid :=
  ⟨List.mem_of_find?_eq_some found, by simpa using List.find?_some found⟩

theorem placeAnswer_cases (runtime : Runtime) (answer : String × Value) (s : FormInstance) :
    (∃ e, runtime.canonical s.instances answer.1 = .error e ∧ placeAnswer runtime answer s = .error e s) ∨
      (∃ path, runtime.canonical s.instances answer.1 = .ok path ∧ s.values path = none ∧
        placeAnswer runtime answer s = .error (.compile ("unknown field: " ++ answer.1)) s) ∨
      ∃ path, runtime.canonical s.instances answer.1 = .ok path ∧ (s.values path).isSome ∧
        placeAnswer runtime answer s = .ok () (s.setValue path answer.2) := by
  have steps : placeAnswer runtime answer s =
      (Run.lift (runtime.canonical s.instances answer.1) >>= fun path => get >>= fun s =>
        if (s.values path).isNone then throw (.compile ("unknown field: " ++ answer.1))
        else modify fun s => s.setValue path answer.2 : Run Unit) s := rfl
  rw [steps]
  cases canonical : runtime.canonical s.instances answer.1 with
  | error e => exact Or.inl ⟨e, rfl, rfl⟩
  | ok path =>
    refine Or.inr ?_
    cases kept : s.values path with
    | none =>
      refine Or.inl ⟨path, rfl, kept, ?_⟩
      show (if (s.values path).isNone then _ else _ : Run Unit) s = _
      rw [kept]
      rfl
    | some value =>
      refine Or.inr ⟨path, rfl, by rw [kept]; rfl, ?_⟩
      show (if (s.values path).isNone then _ else _ : Run Unit) s = _
      rw [kept]
      rfl

theorem placeAnswer_keeps {P : FormInstance → Prop} (framed : Framed P)
    (wells : ∀ s, P s → WellFormed form s) (runtime : Runtime) (answer : String × Value) :
    Keeps P (placeAnswer runtime answer) := by
  intro s holds
  rcases placeAnswer_cases runtime answer s with ⟨e, -, ran⟩ | ⟨path, -, -, ran⟩ | ⟨path, -, has, ran⟩
  · rw [ran]
    exact holds
  · rw [ran]
    exact holds
  · rw [ran]
    exact framed.value _ _ _ holds (((wells _ holds).states path).mpr (((wells _ holds).values path).mp has))

theorem created_grown {handed : String → List String} (grown : Grown handed s₀ s) (rid : String)
    (rowKey : Option String) : Grown handed s₀ (created form rid rowKey s) := by
  have keyed : Grown handed s₀ (s.setRowKey rid ("i" ++ toString (s.serial + 1)) rowKey) := ⟨grown.serial, grown.rows⟩
  exact opened_grown keyed (Nat.le_succ _) (Or.inr ⟨_, Nat.lt_succ_of_le grown.serial, rfl⟩)

def Passes (runtime : Runtime) (form : CompiledForm) (session : Session) : Prop :=
  ∀ P, Passable form P → Keeps P (recalculate runtime form session)

section Kept

variable (formed : Formed form) (well : WellFormed form s)

include formed well

theorem created_wellFormed {rid : String} (listed : (form.repeat? rid).isSome) (rowKey : Option String) :
    WellFormed form (created form rid rowKey s) := by
  have keyed : WellFormed form (s.setRowKey rid ("i" ++ toString (s.serial + 1)) rowKey) :=
    wellFormed_congr well rfl rfl (fun _ => rfl) fun _ => rfl
  refine opened_wellFormed formed keyed listed (minted_follows keyed rid) (Nat.le_succ _) fun n minted => ?_
  rw [serialOf_minted] at minted
  exact (Option.some.inj minted).ge

theorem deleted_wellFormed {rid : String} {index : ℤ} {node : Repeat} (found : form.repeat? rid = some node)
    (inside : index.toNat < (s.rows rid).length)
    (above : node.rowSource = none → node.minInstances.getD 0 < (s.rows rid).length) :
    assertCreationOrder rid (s.setRows rid ((s.rows rid).eraseIdx index.toNat)) =
        .ok () (s.setRows rid ((s.rows rid).eraseIdx index.toNat)) ∧
      WellFormed form (destroyInstance form rid ((s.rows rid).getD index.toNat "")
        (s.setRows rid ((s.rows rid).eraseIdx index.toNat))) := by
  obtain ⟨member, rfl⟩ := repeat?_mem found
  have sub := List.eraseIdx_sublist (s.rows node.id) index.toNat
  refine ⟨assertCreationOrder_setRows s node.id
    ((well.increasing node.id).sublist (sub.filterMap serialOf)), ?_⟩
  refine removed_wellFormed formed well sub (fun iid => ?_) (by rw [found]; rfl) ?_
  · rw [List.getD_eq_getElem?_getD, List.getElem?_eq_getElem inside, Option.getD_some,
      ← (well.distinct node.id).erase_getElem _ inside, (well.distinct node.id).mem_erase_iff, and_comm]
  · intro other member' free unsourced same
    obtain rfl := List.inj_on_of_nodup_map formed.repeats member' member same
    have := above unsourced
    rw [List.length_eraseIdx_of_lt inside]
    omega

section Passes

variable {runtime : Runtime} (passes : Passes runtime form session)

include passes

theorem recalculate_kept (handed : String → List String) (grown : Grown handed s₀ s) :
    WellFormed form (after (recalculate runtime form session) s) ∧
      Grown handed s₀ (after (recalculate runtime form session) s) ∧
      Steady form s (after (recalculate runtime form session) s) :=
  (passes _ (passable_of_formed formed handed s₀ s)).after ⟨well, grown, fun _ _ _ => rfl⟩

theorem addInstance_kept (rid : String) :
    let t := after (addInstance runtime form session rid) s
    WellFormed form t ∧ Grown (fun _ => []) s t ∧
      ∀ node ∈ form.repeats, node.Free → t.rows node.id = s.rows node.id ∨
        ∀ maximum, node.maxInstances = some maximum → ((t.rows node.id).length : ℤ) ≤ maximum := by
  intro t
  rcases addInstance_cases session runtime rid s with ⟨message, refused⟩ | ⟨node, found, -, below, steps⟩
  · have same : t = s := after_of_error refused
    rw [same]
    exact ⟨well, grown_refl _ s, fun _ _ _ => Or.inl rfl⟩
  · obtain ⟨member, rfl⟩ := repeat?_mem found
    have grown : Grown (fun _ => []) s (created form node.id none s) :=
      created_grown (grown_refl _ s) node.id none
    have same : t = after (recalculate runtime form session) (created form node.id none s) := by
      refine (after_congr steps).trans ((after_bind (createInstance_eq well node.id none)).trans ?_)
      exact after_map
    obtain ⟨well', grown', steady⟩ := recalculate_kept session formed
      (created_wellFormed formed well (by rw [found]; rfl) none) passes _ grown
    rw [← same] at well' grown' steady
    refine ⟨well', grown', fun other member' free => ?_⟩
    rw [steady other member' free, rows_created]
    split
    · rename_i same
      obtain rfl := List.inj_on_of_nodup_map formed.repeats member' member same
      refine Or.inr fun maximum limited => ?_
      have := below maximum limited
      rw [List.length_append, List.length_singleton]
      push_cast
      omega
    · exact Or.inl rfl

theorem deleteInstance_kept (rid : String) (index : ℤ) :
    let t := after (deleteInstance runtime form session rid index) s
    WellFormed form t ∧ Grown (fun _ => []) s t := by
  intro t
  rcases deleteInstance_cases session runtime rid index s with ⟨message, refused⟩ |
    ⟨node, found, inside, above, steps⟩
  · have same : t = s := after_of_error refused
    rw [same]
    exact ⟨well, grown_refl _ s⟩
  · obtain ⟨ordered, well'⟩ := deleted_wellFormed formed well found inside above
    have same : t = after (recalculate runtime form session)
        (destroyInstance form rid ((s.rows rid).getD index.toNat "")
          (s.setRows rid ((s.rows rid).eraseIdx index.toNat))) := by
      refine (after_congr steps).trans ((after_bind ordered).trans ?_)
      rfl
    obtain ⟨well'', grown, -⟩ := recalculate_kept session formed well' passes _
      (removed_grown (grown_refl (fun _ => []) s) (List.eraseIdx_sublist (s.rows rid) index.toNat))
    rw [← same] at well'' grown
    exact ⟨well'', grown⟩

theorem setMany_kept (answers : List (String × Value)) :
    let t := after (setMany runtime form session answers) s
    WellFormed form t ∧ Grown (fun _ => []) s t := by
  have passable := passable_of_formed formed (fun _ => []) s s
  have keeps : Keeps _ (setMany runtime form session answers) :=
    Triple.bind (Triple.forM fun answer _ => placeAnswer_keeps passable.toFramed passable.well runtime answer)
      fun _ => passes _ passable
  obtain ⟨kept, grown, -⟩ := keeps.after ⟨well, grown_refl _ s, fun _ _ _ => rfl⟩
  exact ⟨kept, grown⟩

end Passes

end Kept

section Restore

def adopt (s : FormInstance) (rid iid : String) : FormInstance :=
  if iid ∈ s.rows rid then s else s.setRows rid (s.rows rid ++ [iid])

def Adoptable : List (String × String) → FormInstance → Prop
  | [], _ => True
  | (rid, iid) :: rest, s => (iid ∈ s.rows rid ∨ Follows s rid iid) ∧ Adoptable rest (adopt s rid iid)

/-- The ids `restore` adopts, in order: those of the repeats the form has. -/
def adoptees (form : CompiledForm) (instances : List (String × List String)) : List (String × String) :=
  instances.flatMap fun entry =>
    if (form.repeat? entry.1).isSome then entry.2.map fun iid => (entry.1, iid) else []

def handedTo (instances : List (String × List String)) (rid : String) : List String :=
  (instances.filter (·.1 = rid)).flatMap (·.2)

theorem follows_congr {s s' : FormInstance} (rows : ∀ rid, s'.rows rid = s.rows rid) {rid iid : String}
    (follows : Follows s rid iid) : Follows s' rid iid := by
  refine ⟨rows rid ▸ follows.new, fun n minted m member => ?_, fun minted other apart => ?_⟩
  · rw [serialsIn, rows] at member
    exact follows.above n minted m member
  · rw [rows]
    exact follows.alone minted other apart

theorem adoptable_congr {pairs : List (String × String)} {s s' : FormInstance}
    (rows : ∀ rid, s'.rows rid = s.rows rid) (adoptable : Adoptable pairs s) : Adoptable pairs s' := by
  induction pairs generalizing s s' with
  | nil => trivial
  | cons pair rest ih =>
    obtain ⟨here, later⟩ := adoptable
    refine ⟨?_, ih (fun rid => ?_) later⟩
    · rw [rows]
      exact here.imp_right (follows_congr rows)
    · unfold adopt
      rw [rows]
      split
      · exact rows rid
      · rw [rows_setRows, rows_setRows, rows]

variable (formed : Formed form) {E : Failure → FormInstance → Prop}

include formed

theorem restoreInstance_triple {handed : String → List String} {rid iid : String}
    (listed : (form.repeat? rid).isSome) (given : iid ∈ handed rid) (rest : List (String × String)) :
    Triple (fun s => WellFormed form s ∧ Grown handed s₀ s ∧ Adoptable ((rid, iid) :: rest) s)
      (Reference.restoreInstance form rid iid)
      (fun _ s => WellFormed form s ∧ Grown handed s₀ s ∧ Adoptable rest s) E := by
  rintro s ⟨well, grown, here, later⟩
  by_cases old : iid ∈ s.rows rid
  · have same : Reference.restoreInstance form rid iid s = .ok () s := by
      show (if iid ∈ s.rows rid then _ else _ : Run Unit) s = _
      rw [if_pos old]
      rfl
    rw [same]
    rw [adopt, if_pos old] at later
    exact ⟨well, grown, later⟩
  · have follows := here.resolve_left old
    have ordered := assertCreationOrder_setRows s rid (ordered_append well follows)
    have steps : Reference.restoreInstance form rid iid s =
        .ok () (opened form rid iid (Nat.max s.serial ((serialOf iid).getD 0)) s) := by
      show (if iid ∈ s.rows rid then _ else _ : Run Unit) s = _
      rw [if_neg old]
      show EStateM.bind (assertCreationOrder rid) _ (s.setRows rid (s.rows rid ++ [iid])) = _
      unfold EStateM.bind
      rw [ordered]
      cases minted : serialOf iid with
      | none =>
        rw [Option.getD_none, show Nat.max s.serial 0 = s.serial from Nat.max_zero _]
        rfl
      | some n => rfl
    rw [steps]
    have later' := Nat.le_max_left s.serial ((serialOf iid).getD 0)
    refine ⟨opened_wellFormed formed well listed follows later' fun n minted => ?_,
      opened_grown grown later' (Or.inl given), adoptable_congr (fun other => ?_) later⟩
    · rw [minted, Option.getD_some]
      exact Nat.le_max_right _ _
    · rw [rows_opened, adopt, if_neg old, rows_setRows]

theorem restoreRows_triple {instances : List (String × List String)} {entry : String × List String}
    (member : entry ∈ instances) (rest : List (String × String)) :
    Triple (fun s => WellFormed form s ∧ Grown (handedTo instances) s₀ s ∧
        Adoptable (adoptees form [entry] ++ rest) s)
      (Reference.restoreRows form entry)
      (fun _ s => WellFormed form s ∧ Grown (handedTo instances) s₀ s ∧ Adoptable rest s) E := by
  unfold Reference.restoreRows
  by_cases listed : (form.repeat? entry.1).isSome
  · have missing : (form.repeat? entry.1).isNone = false := by
      rw [Option.isNone_eq_false_iff]
      exact listed
    simp only [missing, adoptees, listed, if_true, List.flatMap_cons, List.flatMap_nil, List.append_nil]
    refine Triple.bind (Q := fun _ s => WellFormed form s ∧ Grown (handedTo instances) s₀ s ∧
      Adoptable rest s) ?_ fun _ => Triple.pure fun s holds => holds
    have given : ∀ iid ∈ entry.2, iid ∈ handedTo instances entry.1 := fun iid within =>
      List.mem_flatMap.mpr ⟨entry, List.mem_filter.mpr ⟨member, decide_eq_true rfl⟩, within⟩
    generalize entry.2 = ids at given
    induction ids with
    | nil => exact fun s holds => holds
    | cons iid ids ih =>
      refine Triple.bind (restoreInstance_triple formed listed (given iid List.mem_cons_self) _) fun _ => ?_
      exact ih fun iid within => given iid (List.mem_cons_of_mem _ within)
  · have missing : (form.repeat? entry.1).isNone = true := by
      rw [← Option.not_isSome]
      simpa using listed
    simp only [missing, adoptees, listed, if_true, List.flatMap_cons, List.flatMap_nil, List.append_nil]
    exact fun s holds => holds

theorem restore_triple {instances : List (String × List String)} (answers : List (String × Value))
    (allowed : PassAllowed form evaluate session
      (fun s' => WellFormed form s' ∧ Grown (handedTo instances) s s') E) :
    Triple (fun s' => WellFormed form s' ∧ Grown (handedTo instances) s s' ∧
        Adoptable (adoptees form instances) s') (Reference.restore form evaluate session instances answers)
      (fun _ s' => WellFormed form s' ∧ Grown (handedTo instances) s s') E := by
  have rows (l : List (String × List String)) (within : ∀ entry ∈ l, entry ∈ instances) :
      Triple (fun s' => WellFormed form s' ∧ Grown (handedTo instances) s s' ∧
          Adoptable (adoptees form l) s') (l.mapM (Reference.restoreRows form))
        (fun _ s' => WellFormed form s' ∧ Grown (handedTo instances) s s') E := by
    induction l with
    | nil => exact fun s' holds => ⟨holds.1, holds.2.1⟩
    | cons entry l ih =>
      rw [List.mapM_cons]
      have first := @restoreRows_triple form s formed E instances entry
        (within entry List.mem_cons_self) (adoptees form l)
      have split : adoptees form [entry] ++ adoptees form l = adoptees form (entry :: l) := by
        simp [adoptees]
      rw [split] at first
      refine Triple.bind first fun _ => ?_
      refine Triple.bind (ih fun entry member => within entry (List.mem_cons_of_mem _ member)) fun _ => ?_
      exact Triple.pure fun s' holds => holds
  have answered : Triple (fun s' => WellFormed form s' ∧ Grown (handedTo instances) s s')
      (answers.mapM Reference.restoreAnswer) (fun _ s' => WellFormed form s' ∧ Grown (handedTo instances) s s') E := by
    refine Triple.mapM fun answer _ => Triple.get_bind fun s' holds => ?_
    split
    · exact fun s'' same => same ▸ holds
    · rename_i failure other _
      exact fun s'' same => same ▸ allowed.others s' failure holds fun message same => other message (same ▸ rfl)
    · rename_i path _
      refine Triple.get_bind fun s'' same => ?_
      subst same
      by_cases has : (s''.values path).isNone
      · rw [if_pos has]
        exact fun s' same => same ▸ holds
      · rw [if_neg has]
        rintro s' rfl
        rw [Bool.not_eq_true, Option.isNone_eq_false_iff] at has
        refine ⟨(wellFormed_framed form).value _ _ _ holds.1 ?_, ⟨holds.2.serial, holds.2.rows⟩⟩
        exact (holds.1.states path).mpr ((holds.1.values path).mp has)
  have passed : Triple (fun s' => WellFormed form s' ∧ Grown (handedTo instances) s s')
      (recalculate (Reference.runtime evaluate) form session)
      (fun _ s' => WellFormed form s' ∧ Grown (handedTo instances) s s') E := by
    intro s' holds
    have whole := recalculate_triple (passable_of_formed formed (handedTo instances) s s')
      (allowed.mono fun _ kept => ⟨kept.1, kept.2.1⟩)
    exact Triple.mono whole (fun _ => id) (fun _ _ (kept : _ ∧ _ ∧ _) => ⟨kept.1, kept.2.1⟩) (fun _ _ => id) s'
      ⟨holds.1, holds.2, fun _ _ _ => rfl⟩
  exact Triple.bind (rows instances fun _ member => member) fun _ =>
    Triple.bind answered fun _ => Triple.bind passed fun _ => pure_triple _

theorem restore_kept (well : WellFormed form s) {instances : List (String × List String)}
    (adoptable : Adoptable (adoptees form instances) s) (answers : List (String × Value)) :
    let t := after (Reference.restore form evaluate session instances answers) s
    WellFormed form t ∧ Grown (handedTo instances) s t :=
  (restore_triple evaluate session formed answers (passAllowed_kept _)).after ⟨well, grown_refl _ s, adoptable⟩

end Restore

section Construct

def unfloored (form : CompiledForm) : CompiledForm :=
  { form with repeats := form.repeats.map fun node => { node with minInstances := none } }

theorem unfloored_repeat? (form : CompiledForm) (rid : String) :
    ((unfloored form).repeat? rid).isSome ↔ (form.repeat? rid).isSome := by
  rw [repeat?_isSome_iff, repeat?_isSome_iff]
  simp [unfloored]

theorem unfloored_formed (formed : Formed form) : Formed (unfloored form) := by
  refine ⟨formed.distinct, ?_, formed.plain, ?_, ?_⟩
  · show ((form.repeats.map _).map Repeat.id).Nodup
    rw [List.map_map]
    exact formed.repeats
  · intro node member
    obtain ⟨old, within, rfl⟩ := List.mem_map.mp member
    exact formed.plainRepeats old within
  · intro cf member rid inside
    obtain ⟨node, within, same⟩ := formed.within cf member rid inside
    exact ⟨_, List.mem_map_of_mem within, same⟩

theorem rows_blank (form : CompiledForm) (rid : String) : (blank form).rows rid = [] := by
  unfold FormInstance.rows blank
  dsimp only
  split <;> rfl

theorem blank_wellFormed (form : CompiledForm) : WellFormed (unfloored form) (blank form) := by
  have serials (rid : String) : serialsIn (blank form) rid = [] := by rw [serialsIn, rows_blank]; rfl
  have keys (path : String) : Keyed (unfloored form) (blank form) path ↔
      (form.fields.find? fun cf => cf.fieldId = path ∧ cf.repeatId = none).isSome := by
    rw [List.find?_isSome]
    constructor
    · rintro (⟨cf, member, outside, rfl⟩ | ⟨cf, member, rid, inside, iid, within, -⟩)
      · exact ⟨cf, member, by simp [outside]⟩
      · rw [rows_blank] at within
        cases within
    · rintro ⟨cf, member, found⟩
      obtain ⟨same, outside⟩ : cf.fieldId = path ∧ cf.repeatId = none := by simpa using found
      exact Or.inl ⟨cf, member, outside, same.symm⟩
  refine ⟨fun rid => ?_, fun rid => ?_, fun rid n member => ?_, fun rid => ?_,
    fun rid rid' _ iid member => ?_, fun path => ?_, fun path => ?_, fun node member _ _ => ?_⟩
  · rw [unfloored_repeat?]
    unfold blank
    dsimp only
    split <;> simp_all
  · rw [serials]
    exact List.Pairwise.nil
  · rw [serials] at member
    cases member
  · rw [rows_blank]
    exact List.nodup_nil
  · rw [rows_blank] at member
    cases member
  · rw [keys]
    exact iff_of_eq (congrArg (· = true) (Option.isSome_map))
  · rw [keys]
    exact iff_of_eq (congrArg (· = true) (Option.isSome_map))
  · obtain ⟨old, -, rfl⟩ := List.mem_map.mp member
    exact Int.natCast_nonneg _

def Floored (done : List Repeat) (s : FormInstance) : Prop :=
  ∀ node ∈ done, node.rowSource = none → node.minInstances.getD 0 ≤ (s.rows node.id).length

structure Begun (form : CompiledForm) (done : List Repeat) (s : FormInstance) : Prop where
  well : WellFormed (unfloored form) s
  grown : Grown (fun _ => []) (blank form) s
  floored : Floored done s

theorem seedFloor_triple (formed : Formed form) {node : Repeat} (member : node ∈ form.repeats)
    (done : List Repeat) :
    Triple (Begun form done) (seedFloor form node) (fun _ => Begun form (done ++ [node])) (fun _ _ => True) := by
  have listed : ((unfloored form).repeat? node.id).isSome :=
    (unfloored_repeat? form node.id).mpr (repeat?_isSome_iff.mpr ⟨node, member, rfl⟩)
  -- So many rows of the repeat are there, and the floors reached stay reached.
  have seeded (k j : ℕ) : Triple (fun s => Begun form done s ∧ j ≤ (s.rows node.id).length)
      ((List.replicate k ()).forM fun _ => discard (createInstance form node.id none))
      (fun _ s => Begun form done s ∧ j + k ≤ (s.rows node.id).length) (fun _ _ => True) := by
    induction k generalizing j with
    | zero => exact fun s holds => holds
    | succ k ih =>
      rw [List.replicate_succ, Nat.add_comm k 1, ← Nat.add_assoc]
      refine Triple.bind (Q := fun _ s => Begun form done s ∧ j + 1 ≤ (s.rows node.id).length) ?_ fun _ => ih (j + 1)
      refine Triple.bind ?_ fun _ => Triple.pure fun s holds => holds
      rintro s ⟨begun, reached⟩
      have ran : createInstance form node.id none s = _ := createInstance_eq begun.well node.id none
      rw [ran]
      refine ⟨⟨created_wellFormed (unfloored_formed formed) begun.well listed none, created_grown begun.grown node.id none,
        fun other within unsourced => ?_⟩, ?_⟩
      · refine (begun.floored other within unsourced).trans ?_
        rw [rows_created]
        split
        · rename_i same
          rw [same, List.length_append]
          push_cast
          omega
        · exact le_refl _
      · rw [rows_created, if_pos rfl, List.length_append, List.length_singleton]
        omega
  unfold seedFloor
  split
  · rename_i sourced
    refine Triple.pure fun s holds => ⟨holds.well, holds.grown, fun other within unsourced => ?_⟩
    rcases List.mem_append.mp within with old | last
    · exact holds.floored other old unsourced
    · obtain rfl := List.mem_singleton.mp last
      rw [unsourced] at sourced
      cases sourced
  · refine Triple.mono (seeded _ 0) (fun s holds => ⟨holds, Nat.zero_le _⟩)
      (fun _ s holds => ⟨holds.1.well, holds.1.grown, fun other within unsourced => ?_⟩) fun _ _ _ => trivial
    rcases List.mem_append.mp within with old | last
    · exact holds.1.floored other old unsourced
    · obtain rfl := List.mem_singleton.mp last
      have := holds.2
      omega

theorem construct_kept (formed : Formed form) {runtime : Runtime} (passes : Passes runtime form session)
    (constructed : construct runtime form session s₀ = .ok () s) :
    WellFormed form s ∧ Grown (fun _ => []) (blank form) s := by
  have seeded (l done : List Repeat) (within : ∀ node ∈ l, node ∈ form.repeats) :
      Triple (Begun form done) (l.forM (seedFloor form)) (fun _ => Begun form (done ++ l)) (fun _ _ => True) := by
    induction l generalizing done with
    | nil =>
      rw [List.append_nil]
      exact fun s holds => holds
    | cons node l ih =>
      refine Triple.bind (seedFloor_triple formed (within node List.mem_cons_self) done) fun _ => ?_
      have rest := ih (done ++ [node]) fun node member => within node (List.mem_cons_of_mem _ member)
      rwa [List.append_assoc] at rest
  have passed : Triple (Begun form ([] ++ form.repeats)) (recalculate runtime form session)
      (fun _ s => WellFormed form s ∧ Grown (fun _ => []) (blank form) s) (fun _ _ => True) := by
    rintro s ⟨well, grown, floored⟩
    have whole : WellFormed form s :=
      ⟨fun rid => (well.repeats rid).trans (unfloored_repeat? form rid), well.increasing, well.bounded,
        well.distinct, well.apart, well.values, well.states,
        fun node member _ unsourced => floored node member unsourced⟩
    have kept := passes _ (passable_of_formed formed (fun _ => []) (blank form) s) s
      ⟨whole, grown, fun _ _ _ => rfl⟩
    cases outcome : recalculate runtime form session s with
    | ok value next =>
      rw [outcome] at kept
      exact ⟨kept.1, kept.2.1⟩
    | error failure next => trivial
  have whole : Triple (fun s => s = s₀) (construct runtime form session)
      (fun _ s => WellFormed form s ∧ Grown (fun _ => []) (blank form) s) (fun _ _ => True) := by
    refine Triple.bind (Q := fun _ => Begun form []) ?_ fun _ =>
      Triple.bind (seeded form.repeats [] fun _ member => member) fun _ => passed
    exact fun s _ => ⟨blank_wellFormed form, grown_refl _ _, List.forall_mem_nil _⟩
  exact whole.ok rfl constructed

theorem construct_wellFormed (formed : Formed form)
    (constructed : construct (Reference.runtime evaluate) form session s₀ = .ok () s) :
    WellFormed form s := by
  exact (construct_kept session formed (fun P passable => recalculate_keeps passable evaluate session) constructed).1

end Construct

end Calls

namespace Call

def handed : Call → String → List String
  | restore instances _ => handedTo instances
  | _ => fun _ => []

def Adopts (form : CompiledForm) (s : FormInstance) : Call → Prop
  | restore instances _ => Adoptable (adoptees form instances) s
  | _ => True

variable (evaluate : Context → Expr → Except Failure Value) (session : Session)

theorem kept (formed : Formed form) (well : WellFormed form s) {call : Call} (adopts : call.Adopts form s) :
    WellFormed form (after (call.perform evaluate form session) s) ∧
      Grown call.handed s (after (call.perform evaluate form session) s) := by
  have passes : Passes (Reference.runtime evaluate) form session := fun P passable =>
    recalculate_keeps passable evaluate session
  cases call with
  | set path value => exact setMany_kept session formed well passes [(path, value)]
  | setMany answers => exact setMany_kept session formed well passes answers
  | addInstance rid =>
    have added := addInstance_kept session formed well passes rid
    exact (congrArg (fun t => WellFormed form t ∧ Grown (fun _ => []) s t) after_map).mpr ⟨added.1, added.2.1⟩
  | deleteInstance rid index => exact deleteInstance_kept session formed well passes rid index
  | restore instances answers =>
    have restored := restore_kept evaluate session formed well adopts answers
    exact (congrArg (fun t => WellFormed form t ∧ Grown (handedTo instances) s t) after_map).mpr restored
  | recalculate =>
    obtain ⟨kept, grown, -⟩ := recalculate_kept session formed well passes (fun _ => []) (grown_refl _ s)
    exact ⟨kept, grown⟩

variable (form) in
def reach (calls : List Call) (s : FormInstance) : FormInstance :=
  calls.foldl (fun s call => after (call.perform evaluate form session) s) s

variable (form) in
def Orderly (calls : List Call) (s : FormInstance) : Prop :=
  ∀ before call rest, calls = before ++ call :: rest → call.Adopts form (reach form evaluate session before s)

variable {evaluate session} {calls : List Call}

theorem reach_append (before rest : List Call) (s : FormInstance) :
    reach form evaluate session (before ++ rest) s =
      reach form evaluate session rest (reach form evaluate session before s) :=
  List.foldl_append

theorem Orderly.of_append {before rest : List Call} (orderly : Orderly form evaluate session (before ++ rest) s) :
    Orderly form evaluate session before s ∧
      Orderly form evaluate session rest (reach form evaluate session before s) := by
  constructor
  · rintro earlier call later rfl
    exact orderly earlier call (later ++ rest) (by simp)
  · rintro earlier call later rfl
    rw [← reach_append]
    exact orderly (before ++ earlier) call later (by simp)

theorem orderly_nil : Orderly form evaluate session [] s := by
  intro before call rest split
  exact absurd split (by simp)

theorem orderly_cons {call : Call} (adopts : call.Adopts form s)
    (later : Orderly form evaluate session calls (after (call.perform evaluate form session) s)) :
    Orderly form evaluate session (call :: calls) s := by
  intro before other rest split
  cases before with
  | nil =>
    obtain ⟨rfl, rfl⟩ := List.cons.inj split
    exact adopts
  | cons head before =>
    obtain ⟨rfl, rfl⟩ := List.cons.inj split
    exact later before other rest rfl

theorem reach_kept (formed : Formed form) (well : WellFormed form s)
    (orderly : Orderly form evaluate session calls s) :
    WellFormed form (reach form evaluate session calls s) ∧
      s.serial ≤ (reach form evaluate session calls s).serial := by
  induction calls generalizing s with
  | nil => exact ⟨well, Nat.le_refl _⟩
  | cons call rest ih =>
    obtain ⟨well', grown⟩ := kept evaluate session formed well (orderly [] call rest rfl)
    have later := @Orderly.of_append form s evaluate session [call] rest orderly
    obtain ⟨reached, serial⟩ := ih well' later.2
    exact ⟨reached, grown.serial.trans serial⟩

/-- In every run of calls that hand in only ids that may be taken, the state is well formed at every
point, an id that was held and went is not minted again, and no add passes a ceiling. -/
theorem repeats_wellFormed {children : List Node} (compiled : compile children = .ok form)
    (constructed : construct (Reference.runtime evaluate) form session s₀ = .ok () s)
    (orderly : Orderly form evaluate session calls s) :
    (∀ before rest, calls = before ++ rest → WellFormed form (reach form evaluate session before s)) ∧
      (∀ earlier later call rest, calls = earlier ++ later ++ call :: rest → ∀ rid other iid,
        iid ∈ (reach form evaluate session earlier s).rows rid →
        iid ∉ (reach form evaluate session (earlier ++ later) s).rows other →
        iid ∈ (reach form evaluate session (earlier ++ later ++ [call]) s).rows other →
        iid ∈ call.handed other) ∧
      ∀ before rid rest, calls = before ++ addInstance rid :: rest → ∀ node ∈ form.repeats, node.Free →
        (reach form evaluate session (before ++ [addInstance rid]) s).rows node.id =
            (reach form evaluate session before s).rows node.id ∨
          ∀ maximum, node.maxInstances = some maximum →
            ((reach form evaluate session (before ++ [addInstance rid]) s).rows node.id).length ≤ maximum := by
  have formed := compile_formed compiled
  have well := construct_wellFormed evaluate session formed constructed
  refine ⟨?_, ?_, ?_⟩
  · rintro before rest rfl
    exact (reach_kept formed well orderly.of_append.1).1
  · rintro earlier later call rest rfl rid other iid held gone back
    obtain ⟨early, late⟩ := orderly.of_append.1.of_append
    have adopts := orderly (earlier ++ later) call rest rfl
    obtain ⟨wellEarly, -⟩ := reach_kept formed well early
    obtain ⟨wellLate, serial⟩ := reach_kept formed wellEarly late
    rw [reach_append] at gone back adopts
    rw [reach_append] at back
    obtain ⟨-, grown⟩ := kept evaluate session formed wellLate adopts
    rcases grown.rows other iid back with old | given | ⟨n, above, rfl⟩
    · exact absurd old gone
    · exact given
    · -- A minted id carries a number above the counter, and one that was held does not.
      have listed : n ∈ serialsIn (reach form evaluate session earlier s) rid :=
        List.mem_filterMap.mpr ⟨_, held, serialOf_minted n⟩
      have := wellEarly.bounded rid n listed
      omega
  · rintro before rid rest rfl node member free
    obtain ⟨reached, -⟩ := reach_kept formed well orderly.of_append.1
    have added := (addInstance_kept session formed reached (fun P passable => recalculate_keeps passable evaluate session) rid).2.2 node member free
    have same : reach form evaluate session (before ++ [addInstance rid]) s =
        after (Form.addInstance (Reference.runtime evaluate) form session rid)
          (reach form evaluate session before s) := by
      rw [reach_append]
      exact after_map
    rw [same]
    exact added

end Call

section Roster

def roster : List Node := [.repeated { id := "members" } [.question { id := "name", dataType := "text" }]]

def rosterForm : CompiledForm where
  fields := [{ node := { id := "name", dataType := "text" }, dependsOn := [], ancestors := ["members"],
               repeatId := some "members", choiceQuery := none, rowsQuery := none }]
  containers := [{ id := "members", relevant := none, appearance := none, ancestors := [] }]
  repeats := [{ id := "members" }]
  topoOrder := ["name"]

def noon : Session := { today := "2024-05-01", now := "2024-05-01T12:00:00Z" }

def noExpressions : Context → Expr → Except Failure Value := fun _ _ => .ok .null

def newRoster : FormInstance := after (construct (Reference.runtime noExpressions) rosterForm noon) (blank rosterForm)

def rosterVisit : List Call :=
  [.restore [("members", ["i5"])] [("members[i5].name", .text "Ama")], .addInstance "members",
    .deleteInstance "members" 0, .addInstance "members"]

theorem rosterVisit_wellFormed :
    WellFormed rosterForm (Call.reach rosterForm noExpressions noon rosterVisit newRoster) ∧
      (Call.reach rosterForm noExpressions noon rosterVisit newRoster).rows "members" = ["i6", "i7"] := by
  have compiled : compile roster = .ok rosterForm := rfl
  have constructed : construct (Reference.runtime noExpressions) rosterForm noon (blank rosterForm) =
      .ok () newRoster := rfl
  have well := construct_wellFormed noExpressions noon (compile_formed compiled) constructed
  have empty (rid : String) (apart : rid ≠ "members") : newRoster.rows rid = [] := by
    have unlisted : ¬ (newRoster.instances rid).isSome := by
      rw [well.repeats, repeat?_isSome_iff]
      rintro ⟨node, member, rfl⟩
      obtain rfl := List.mem_singleton.mp member
      exact apart rfl
    rw [FormInstance.rows, Option.not_isSome_iff_eq_none.mp unlisted]
    rfl
  have follows : Follows newRoster "members" "i5" := by
    have none : newRoster.rows "members" = [] := rfl
    refine ⟨by rw [none]; exact List.not_mem_nil, fun n _ m member => ?_, fun _ other apart => ?_⟩
    · rw [serialsIn, none] at member
      cases member
    · rw [empty other apart]
      exact List.not_mem_nil
  have orderly : Call.Orderly rosterForm noExpressions noon rosterVisit newRoster :=
    Call.orderly_cons ⟨Or.inr follows, trivial⟩ <| Call.orderly_cons trivial <|
      Call.orderly_cons trivial <| Call.orderly_cons trivial Call.orderly_nil
  exact ⟨(Call.repeats_wellFormed compiled constructed orderly).1 rosterVisit [] rfl, by decide +kernel⟩

/-- Ids that storage hands in out of order: the second is a row without its field. -/
theorem misplaced_not_wellFormed : compile roster = .ok rosterForm ∧
    construct (Reference.runtime noExpressions) rosterForm noon (blank rosterForm) = .ok () newRoster ∧
    ¬ WellFormed rosterForm
      (Call.reach rosterForm noExpressions noon [.restore [("members", ["i2", "i1"])] []] newRoster) := by
  refine ⟨rfl, rfl, fun well => ?_⟩
  have sorted := well.increasing "members"
  revert sorted
  decide +kernel

end Roster

end DataCollectionLab.Form
