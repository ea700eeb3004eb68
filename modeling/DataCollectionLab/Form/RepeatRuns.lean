import DataCollectionLab.Form.RepeatState

/-!
The rows of the repeats in every run of calls, those that raise among them. What a pass may do is said
once, of any property that a new row, a row taken away and a written field keep.
-/

namespace DataCollectionLab.Form

open Lib

variable {form : CompiledForm} {s s₀ : FormInstance}

section Rows

/-- Where the rows come from: the state before, the ids that were handed in, or the counter. -/
structure Grown (handed : String → List String) (s₀ s : FormInstance) : Prop where
  serial : s₀.serial ≤ s.serial
  rows : ∀ rid, ∀ iid ∈ s.rows rid, iid ∈ s₀.rows rid ∨ iid ∈ handed rid ∨
    ∃ n, s₀.serial < n ∧ iid = "i" ++ toString n

theorem grown_refl (handed : String → List String) (s : FormInstance) : Grown handed s s :=
  ⟨Nat.le_refl _, fun _ _ member => Or.inl member⟩

theorem minted_follows (well : WellFormed form s) (rid : String) :
    Follows s rid ("i" ++ toString (s.serial + 1)) := by
  have fresh : ∀ other, ("i" ++ toString (s.serial + 1)) ∉ s.rows other := by
    intro other member
    have listed : s.serial + 1 ∈ serialsIn s other :=
      List.mem_filterMap.mpr ⟨_, member, serialOf_minted _⟩
    have := well.bounded other _ listed
    omega
  refine ⟨fresh rid, fun n minted m member => ?_, fun _ other _ => fresh other⟩
  rw [serialOf_minted] at minted
  obtain rfl := Option.some.inj minted
  have := well.bounded rid m member
  omega

theorem assertCreationOrder_setRows (s : FormInstance) (rid : String) {ordered : List String}
    (sorted : (ordered.filterMap serialOf).Pairwise (· < ·)) :
    assertCreationOrder rid (s.setRows rid ordered) = .ok () (s.setRows rid ordered) := by
  apply assertCreationOrder_ok
  rw [serialsIn, rows_setRows, if_pos rfl]
  exact sorted

theorem ordered_append (well : WellFormed form s) {rid iid : String} (follows : Follows s rid iid) :
    ((s.rows rid ++ [iid]).filterMap serialOf).Pairwise (· < ·) := by
  rw [List.filterMap_append]
  refine List.pairwise_append.mpr ⟨well.increasing rid, ?_, fun m within n last => ?_⟩
  · cases minted : serialOf iid <;> simp [minted]
  · exact follows.above n (by simpa using last) m within

def created (form : CompiledForm) (rid : String) (rowKey : Option String) (s : FormInstance) : FormInstance :=
  opened form rid ("i" ++ toString (s.serial + 1)) (s.serial + 1)
    (s.setRowKey rid ("i" ++ toString (s.serial + 1)) rowKey)

@[simp] theorem rows_created (rid other : String) (rowKey : Option String) :
    (created form rid rowKey s).rows other =
      if other = rid then s.rows rid ++ ["i" ++ toString (s.serial + 1)] else s.rows other :=
  rows_opened rid _ _ other

theorem createInstance_eq (well : WellFormed form s) (rid : String) (rowKey : Option String) :
    createInstance form rid rowKey s = .ok ("i" ++ toString (s.serial + 1)) (created form rid rowKey s) := by
  have follows := minted_follows well rid
  have ordered := assertCreationOrder_setRows
    (({ s with serial := s.serial + 1 } : FormInstance).setRowKey rid ("i" ++ toString (s.serial + 1)) rowKey) rid
    (ordered_append well follows)
  show EStateM.bind (assertCreationOrder rid) _ ((({ s with serial := s.serial + 1 } : FormInstance).setRowKey rid
    ("i" ++ toString (s.serial + 1)) rowKey).setRows rid (s.rows rid ++ ["i" ++ toString (s.serial + 1)])) = _
  unfold EStateM.bind
  rw [ordered]
  rfl

theorem opened_grown {handed : String → List String} (grown : Grown handed s₀ s) {rid iid : String}
    {serial : ℕ} (later : s.serial ≤ serial)
    (source : iid ∈ handed rid ∨ ∃ n, s₀.serial < n ∧ iid = "i" ++ toString n) :
    Grown handed s₀ (opened form rid iid serial s) := by
  refine ⟨grown.serial.trans later, fun other iid' member => ?_⟩
  rw [rows_opened] at member
  split at member
  · rename_i same
    subst same
    rcases List.mem_append.mp member with old | last
    · exact grown.rows other iid' old
    · obtain rfl := List.mem_singleton.mp last
      exact Or.inr source
  · exact grown.rows other iid' member

theorem removed_wellFormed (formed : Formed form) (well : WellFormed form s) {rid iid : String}
    {ordered : List String} (sub : ordered.Sublist (s.rows rid))
    (gone : ∀ iid', iid' ∈ ordered ↔ iid' ∈ s.rows rid ∧ iid' ≠ iid)
    (listed : (form.repeat? rid).isSome)
    (floor : ∀ node ∈ form.repeats, node.countExpr = none → node.rowSource = none → node.id = rid →
      node.minInstances.getD 0 ≤ ordered.length) :
    WellFormed form (destroyInstance form rid iid (s.setRows rid ordered)) := by
  have rows (other : String) : (destroyInstance form rid iid (s.setRows rid ordered)).rows other =
      if other = rid then ordered else s.rows other := rows_setRows s rid other ordered
  have within (other iid' : String)
      (member : iid' ∈ (destroyInstance form rid iid (s.setRows rid ordered)).rows other) :
      iid' ∈ s.rows other := by
    rw [rows] at member
    split at member
    · rename_i same
      exact same ▸ sub.subset member
    · exact member
  have serials (other : String) :
      (serialsIn (destroyInstance form rid iid (s.setRows rid ordered)) other).Sublist
        (serialsIn s other) := by
    unfold serialsIn
    rw [rows]
    split
    · rename_i same
      exact same ▸ sub.filterMap serialOf
    · exact List.Sublist.refl _
  have keys {path : String} : Keyed form (destroyInstance form rid iid (s.setRows rid ordered)) path ↔
      ¬ (cellAt form rid iid path).isSome ∧ Keyed form s path := by
    by_cases cell : (cellAt form rid iid path).isSome
    · rw [keyed_row formed cell, rows, if_pos rfl, gone]
      simp [cell]
    · have others := @keyed_other form s (destroyInstance form rid iid (s.setRows rid ordered)) rid iid path
        (fun other iid' apart => by
          rw [rows]
          split
          · rename_i same
            subst same
            rw [gone]
            exact and_iff_left fun same => apart ⟨rfl, same⟩
          · rfl) cell
      rw [others]
      simp [cell]
  refine ⟨fun other => ?_, fun other => (well.increasing other).sublist (serials other),
    fun other n member => well.bounded other n ((serials other).subset member), fun other => ?_,
    fun first second different iid' member minted member' =>
      well.apart first second different iid' (within _ _ member) minted (within _ _ member'),
    fun path => ?_, fun path => ?_, fun node member free unsourced => ?_⟩
  · show ((s.setRows rid ordered).instances other).isSome ↔ _
    unfold FormInstance.setRows
    by_cases same : other = rid
    · subst same
      simp [listed]
    · simp only [same, if_false]
      exact well.repeats other
  · rw [rows]
    split
    · exact sub.nodup (well.distinct rid)
    · exact well.distinct other
  · rw [keys, ← well.values path]
    show ((if (cellAt form rid iid path).isSome then none else s.values path).isSome = true) ↔ _
    split
    · rename_i cell
      simp [cell]
    · rename_i cell
      simp [cell]
  · rw [keys, ← well.states path]
    show ((if (cellAt form rid iid path).isSome then none else s.states path).isSome = true) ↔ _
    split
    · rename_i cell
      simp [cell]
    · rename_i cell
      simp [cell]
  · rw [rows]
    split
    · rename_i same
      exact floor node member free unsourced same
    · exact well.floor node member free unsourced

theorem removed_grown {handed : String → List String} (grown : Grown handed s₀ s) {rid iid : String}
    {ordered : List String} (sub : ordered.Sublist (s.rows rid)) :
    Grown handed s₀ (destroyInstance form rid iid (s.setRows rid ordered)) := by
  refine ⟨grown.serial, fun other iid' member => grown.rows other iid' ?_⟩
  have rows : (destroyInstance form rid iid (s.setRows rid ordered)).rows other =
      if other = rid then ordered else s.rows other := rows_setRows s rid other ordered
  rw [rows] at member
  split at member
  · rename_i same
    exact same ▸ sub.subset member
  · exact member

end Rows

def Repeat.Free (node : Repeat) : Prop := node.countExpr = none ∧ node.rowSource = none

/-- What a pass keeps: no field that is written matters to it, nor a row that is created for a count or
a source, nor one that is taken away for a count. -/
structure Passable (form : CompiledForm) (P : FormInstance → Prop) : Prop extends Framed P where
  well : ∀ s, P s → WellFormed form s
  resolved : ∀ s rids, P s → P { s with rowsResolved := rids }
  rowKey : ∀ s rid iid key, P s → P (s.setRowKey rid iid key)
  rowLabel : ∀ s rid iid label, P s → P (s.setRowLabel rid iid label)
  created : ∀ s, ∀ node ∈ form.repeats, ¬ node.Free → P s →
    P (opened form node.id ("i" ++ toString (s.serial + 1)) (s.serial + 1) s)
  popped : ∀ s, ∀ node ∈ form.repeats, ¬ node.Free → ∀ rest iid, s.rows node.id = rest ++ [iid] → P s →
    P (destroyInstance form node.id iid (s.setRows node.id rest))

section Pass

variable (evaluate : Context → Expr → Except Failure Value) (form) (session : Session)

structure PassAllowed (P : FormInstance → Prop) (E : Failure → FormInstance → Prop) : Prop where
  others : ∀ s e, P s → (∀ message, e ≠ .compile message) → E e s
  sources : ∀ s, ∀ node ∈ form.repeats, node.rowSource.isSome → P s →
    Allows E s (containerRelevant evaluate form session s node.id)
  counts : ∀ s, ∀ node ∈ form.repeats, ∀ expr, node.countExpr = some expr → P s →
    Allows E s (evaluate (s.context session none) expr >>= Reference.wanted)
  top : ∀ cf ∈ form.fields, cf.repeatId = none → FieldAllowed evaluate form session cf none P E
  cells : ∀ cf ∈ form.fields, ∀ rid iid, cf.repeatId = some rid →
    FieldAllowed evaluate form session cf (some (rid, iid)) (fun s => P s ∧ iid ∈ s.rows rid) E

variable {evaluate form session} {P : FormInstance → Prop} {E : Failure → FormInstance → Prop}

theorem passAllowed_any (P : FormInstance → Prop) : PassAllowed form evaluate session P fun _ _ => True :=
  ⟨fun _ _ _ _ => trivial, fun _ _ _ _ _ _ _ => trivial, fun _ _ _ _ _ _ _ _ => trivial,
    fun cf _ _ => fieldAllowed_any cf none P, fun cf _ _ _ _ => fieldAllowed_any cf _ _⟩

theorem PassAllowed.mono {R : FormInstance → Prop} (allowed : PassAllowed form evaluate session P E)
    (stronger : ∀ s, R s → P s) : PassAllowed form evaluate session R E where
  others s e holds := allowed.others s e (stronger s holds)
  sources s node member sourced holds := allowed.sources s node member sourced (stronger s holds)
  counts s node member expr counted holds := allowed.counts s node member expr counted (stronger s holds)
  top cf member outside := (allowed.top cf member outside).mono stronger
  cells cf member rid iid inside := (allowed.cells cf member rid iid inside).mono fun s holds =>
    ⟨stronger s holds.1, holds.2⟩

variable (passable : Passable form P)

include passable

theorem createInstance_keeps {node : Repeat} (member : node ∈ form.repeats) (sized : ¬ node.Free)
    (rowKey : Option String) : Triple P (createInstance form node.id rowKey) (fun _ => P) E := by
  intro s holds
  rw [createInstance_eq (passable.well s holds)]
  exact passable.created _ node member sized (passable.rowKey s node.id _ rowKey holds)

theorem settleCount_keeps {runtime : Runtime} {node : Repeat} (member : node ∈ form.repeats)
    (counts : ∀ s expr, node.countExpr = some expr → P s →
      Allows E s (runtime.evaluate (s.context session none) expr >>= runtime.count)) :
    Triple P (settleCount runtime form session node) (fun _ => P) E := by
  unfold settleCount
  split
  · exact pure_triple _
  · rename_i countExpr sizes
    have sized : ¬ node.Free := fun free => by
      rw [free.1] at sizes
      cases sizes
    refine read_triple (fun s holds => counts s countExpr sizes holds) fun s wanted => ?_
    have checked : Triple (fun s' => P s' ∧ s' = s) (assertCreationOrder node.id) (fun _ => P) E := by
      rintro s' ⟨holds, -⟩
      rw [assertCreationOrder_ok ((passable.well s' holds).increasing node.id)]
      exact holds
    refine Triple.bind checked fun _ => Triple.bind (Triple.forM fun _ _ => ?_) fun _ => Triple.forM fun _ _ => ?_
    · exact Triple.bind (createInstance_keeps passable member sized _) fun _ => pure_triple _
    · intro s' holds
      cases last : (s'.rows node.id).getLast? with
      | none =>
        have kept : popInstance form node.id s' = .ok () s' := by
          rw [popInstance, Lib.apply_modify, last]
        rw [kept]
        exact holds
      | some iid =>
        have left : popInstance form node.id s' =
            .ok () (destroyInstance form node.id iid (s'.setRows node.id (s'.rows node.id).dropLast)) := by
          rw [popInstance, Lib.apply_modify, last]
        rw [left]
        have whole : s'.rows node.id = (s'.rows node.id).dropLast ++ [iid] :=
          (List.dropLast_append_getLast? iid last).symm
        exact passable.popped s' node member sized _ _ whole holds

variable (allowed : PassAllowed form evaluate session P E)

include allowed

theorem seedRow_triple {node : Repeat} (member : node ∈ form.repeats) (sized : ¬ node.Free)
    (source : RowSource) (item : RowItem) : Triple P (seedRow form node.id source item) (fun _ => P) E := by
  refine Triple.bind (createInstance_keeps passable member sized _) fun iid => ?_
  have labelled : Triple P (item.label.forM fun label =>
      modify fun s => s.setRowLabel node.id iid label : Run Unit) (fun _ => P) E := by
    cases item.label with
    | none => exact pure_triple _
    | some label => exact fun s holds => passable.rowLabel s _ _ _ holds
  refine Triple.bind labelled fun _ => Triple.forM fun binding _ => ?_
  split
  · refine Triple.get_bind fun s holds => ?_
    by_cases has : (s.states (instancePath node.id iid binding.1)).isNone
    · rw [if_pos has]
      exact fun s' same => same ▸ allowed.others s _ holds nofun
    · rw [if_neg has]
      rintro s' rfl
      refine passable.state _ _ _ (passable.value _ _ _ holds ?_)
      rwa [Bool.not_eq_true, Option.isNone_eq_false_iff] at has
  · exact pure_triple _

theorem resolveRows_triple {node : Repeat} (member : node ∈ form.repeats) :
    Triple P (resolveRows (Reference.runtime evaluate) form session node) (fun _ => P) E := by
  unfold resolveRows
  split
  · exact pure_triple _
  · rename_i source sourced
    have sized : ¬ node.Free := fun free => by
      rw [free.2] at sourced
      cases sourced
    refine Triple.get_bind fun s holds => ?_
    refine Triple.mono (?_ : Triple (fun s' => P s' ∧ s' = s) _ _ E) (fun s' same => ⟨same ▸ holds, same⟩)
      (fun _ _ => id) fun _ _ => id
    split
    · exact fun s' holds => holds.1
    · have read := allowed.sources s node member (by rw [sourced]; rfl) holds
      have lifted : Triple (fun s' => P s' ∧ s' = s) (Run.lift (containerRelevant evaluate form session s node.id))
          (fun _ => P) E := by
        cases outcome : containerRelevant evaluate form session s node.id with
        | ok relevant => exact fun s' kept => kept.1
        | error e =>
          rintro s' ⟨-, rfl⟩
          exact read e outcome
      refine Triple.bind lifted fun relevant => ?_
      split
      · refine Triple.bind (Q := fun _ => P) (fun s' holds => passable.resolved s' _ holds) fun _ => ?_
        exact Triple.forM fun item _ => seedRow_triple passable allowed member sized source item
      · exact pure_triple _

theorem settleCount_triple {node : Repeat} (member : node ∈ form.repeats) :
    Triple P (settleCount (Reference.runtime evaluate) form session node) (fun _ => P) E :=
  settleCount_keeps passable member fun s expr sizes holds => allowed.counts s node member expr sizes holds

theorem recalculate_triple :
    Triple P (recalculate (Reference.runtime evaluate) form session) (fun _ => P) E := by
  refine Triple.bind (Triple.forM fun node member => resolveRows_triple passable allowed member) fun _ =>
    Triple.bind (Triple.forM fun node member => settleCount_triple passable allowed member) fun _ =>
      Triple.forM fun fid _ => ?_
  unfold evaluateFields
  split
  · exact throw_triple fun s holds => allowed.others s _ holds nofun
  · rename_i cf found
    have member : cf ∈ form.fields := List.mem_of_find?_eq_some found
    split
    · rename_i outside
      exact evaluateField_triple _ (allowed.top cf member outside) passable.toFramed
    · rename_i rid inside
      refine Triple.get_bind fun s holds => ?_
      -- No field writes the rows, so each one listed is still there at its turn.
      refine Triple.mono (?_ : Triple (fun s' => P s' ∧ s'.rows rid = s.rows rid) _
        (fun _ s' => P s' ∧ s'.rows rid = s.rows rid) E) (by rintro s' rfl; exact ⟨holds, rfl⟩)
        (fun _ _ kept => kept.1) fun _ _ => id
      refine Triple.forM fun iid within => ?_
      have framed : Framed fun s' => (P s' ∧ iid ∈ s'.rows rid) ∧ s'.rows rid = s.rows rid :=
        ⟨fun s' path change kept => ⟨⟨passable.state _ _ _ kept.1.1, kept.1.2⟩, kept.2⟩,
          fun s' path value kept has => ⟨⟨passable.value _ _ _ kept.1.1 has, kept.1.2⟩, kept.2⟩⟩
      have fields := allowed.cells cf member rid iid inside
      exact Triple.mono (evaluateField_triple (instancePath rid iid fid) (fields.mono fun _ kept => kept.1) framed)
        (fun s' kept => ⟨⟨kept.1, kept.2 ▸ within⟩, kept.2⟩) (fun _ s' kept => ⟨kept.1.1, kept.2⟩) fun _ _ => id

omit passable allowed

theorem passAllowed_kept (P : FormInstance → Prop) : PassAllowed form evaluate session P fun _ => P := by
  have fields (cf : CompiledField) (scope : Option (String × String)) (R : FormInstance → Prop)
      (kept : ∀ s, R s → P s) : FieldAllowed evaluate form session cf scope R fun _ => P :=
    ⟨fun s _ holds _ => kept s holds, fun s holds _ _ => kept s holds, fun s _ holds _ _ _ => kept s holds,
      fun s holds _ _ => kept s holds, fun s holds _ _ => kept s holds, fun s _ holds _ _ => kept s holds,
      fun s _ holds _ _ _ => kept s holds⟩
  exact ⟨fun _ _ holds _ => holds, fun _ _ _ _ holds _ _ => holds,
    fun _ _ _ _ _ holds _ _ => holds, fun cf _ _ => fields cf none P fun _ => id,
    fun cf _ rid iid _ => fields cf _ (fun s => P s ∧ iid ∈ s.rows rid) fun _ holds => holds.1⟩

theorem recalculate_keeps (passable : Passable form P) (evaluate : Context → Expr → Except Failure Value)
    (session : Session) : Keeps P (recalculate (Reference.runtime evaluate) form session) :=
  recalculate_triple passable (passAllowed_kept P)

end Pass

section Passable

theorem keyed_congr {s s' : FormInstance} (rows : s'.instances = s.instances) {path : String} :
    Keyed form s' path ↔ Keyed form s path := by
  unfold Keyed FormInstance.rows
  rw [rows]

theorem wellFormed_congr {s s' : FormInstance} (well : WellFormed form s) (rows : s'.instances = s.instances)
    (serial : s'.serial = s.serial) (values : ∀ path, (s'.values path).isSome = (s.values path).isSome)
    (states : ∀ path, (s'.states path).isSome = (s.states path).isSome) : WellFormed form s' := by
  have same (rid : String) : s'.rows rid = s.rows rid := congrArg (·.getD []) (congrFun rows rid)
  have serials (rid : String) : serialsIn s' rid = serialsIn s rid := congrArg _ (same rid)
  refine ⟨?_, ?_, ?_, ?_, ?_, ?_, ?_, ?_⟩
  · exact fun rid => rows ▸ well.repeats rid
  · exact fun rid => serials rid ▸ well.increasing rid
  · exact fun rid => serial ▸ serials rid ▸ well.bounded rid
  · exact fun rid => same rid ▸ well.distinct rid
  · intro rid rid' different iid
    rw [same, same]
    exact well.apart rid rid' different iid
  · exact fun path => by rw [values, keyed_congr rows, well.values]
  · exact fun path => by rw [states, keyed_congr rows, well.states]
  · intro node member free unsourced
    rw [same]
    exact well.floor node member free unsourced

theorem wellFormed_framed (form : CompiledForm) : Framed (WellFormed form) where
  state s path change well := wellFormed_congr well rfl rfl (fun _ => rfl) fun _ => changeState_isSome
  value s path value well has := by
    refine wellFormed_congr well rfl rfl (fun other => ?_) fun _ => rfl
    show (if other = path then some value else s.values other).isSome = _
    split
    · rename_i same
      rw [same, (well.values path).mpr ((well.states path).mp has)]
      rfl
    · rfl

def Steady (form : CompiledForm) (s₁ s : FormInstance) : Prop :=
  ∀ node ∈ form.repeats, node.Free → s.rows node.id = s₁.rows node.id

variable {s₁ : FormInstance}

theorem passable_of_formed (formed : Formed form) (handed : String → List String) (s₀ s₁ : FormInstance) :
    Passable form fun s => WellFormed form s ∧ Grown handed s₀ s ∧ Steady form s₁ s := by
  have listed {node : Repeat} (member : node ∈ form.repeats) : (form.repeat? node.id).isSome :=
    repeat?_isSome_iff.mpr ⟨node, member, rfl⟩
  have apart {node other : Repeat} (member : node ∈ form.repeats) (sized : ¬ node.Free)
      (member' : other ∈ form.repeats) (free : other.Free) : other.id ≠ node.id := by
    intro same
    have := List.inj_on_of_nodup_map formed.repeats member' member same
    exact sized (this ▸ free)
  refine ⟨⟨?_, ?_⟩, fun s holds => holds.1, ?_, ?_, ?_, ?_, ?_⟩
  · rintro s path change ⟨well, grown, steady⟩
    exact ⟨(wellFormed_framed form).state s path change well, ⟨grown.serial, grown.rows⟩, steady⟩
  · rintro s path value ⟨well, grown, steady⟩ has
    exact ⟨(wellFormed_framed form).value s path value well has, ⟨grown.serial, grown.rows⟩, steady⟩
  · rintro s rids ⟨well, grown, steady⟩
    exact ⟨wellFormed_congr well rfl rfl (fun _ => rfl) fun _ => rfl, ⟨grown.serial, grown.rows⟩, steady⟩
  · rintro s rid iid key ⟨well, grown, steady⟩
    exact ⟨wellFormed_congr well rfl rfl (fun _ => rfl) fun _ => rfl, ⟨grown.serial, grown.rows⟩, steady⟩
  · rintro s rid iid label ⟨well, grown, steady⟩
    exact ⟨wellFormed_congr well rfl rfl (fun _ => rfl) fun _ => rfl, ⟨grown.serial, grown.rows⟩, steady⟩
  · rintro s node member sized ⟨well, grown, steady⟩
    have below := grown.serial
    refine ⟨opened_wellFormed formed well (listed member) (minted_follows well node.id) (Nat.le_succ _) ?_,
      opened_grown grown (Nat.le_succ _) (Or.inr ⟨s.serial + 1, by omega, rfl⟩), ?_⟩
    · intro n minted
      rw [serialOf_minted] at minted
      exact (Option.some.inj minted).ge
    · intro other member' free
      rw [rows_opened, if_neg (apart member sized member' free)]
      exact steady other member' free
  · rintro s node member sized rest iid whole ⟨well, grown, steady⟩
    have sub : rest.Sublist (s.rows node.id) := whole ▸ List.sublist_append_left rest [iid]
    have once := well.distinct node.id
    refine ⟨removed_wellFormed formed well sub (fun iid' => ?_) (listed member) ?_,
      removed_grown grown sub, ?_⟩
    · rw [whole] at once ⊢
      have new : iid ∉ rest := (List.nodup_cons.mp (List.nodup_append_comm.mp once)).1
      rw [List.mem_append, List.mem_singleton]
      constructor
      · exact fun held => ⟨Or.inl held, fun same => new (same ▸ held)⟩
      · exact fun held => held.1.resolve_right held.2
    · intro other member' free unsourced same
      exact absurd same (apart member sized member' ⟨free, unsourced⟩)
    · intro other member' free
      refine (rows_setRows s node.id other.id rest).trans ?_
      rw [if_neg (apart member sized member' free)]
      exact steady other member' free

end Passable

end DataCollectionLab.Form
