import DataCollectionLab.Form.Freshness
import DataCollectionLab.Form.Reads

/-!
An answer given over another. What the first one leaves is its own, where it gives and takes no row and a pass works
out anew every calculate that it changed: the second then leaves what it leaves without the first.
-/

namespace DataCollectionLab.Form

open Lib

def Turn (s : FormInstance) (cf : CompiledField) (path : String) (scope : Option (String × String)) : Prop :=
  (cf.repeatId = none ∧ path = cf.fieldId ∧ scope = none) ∨
    ∃ rid, cf.repeatId = some rid ∧ ∃ iid ∈ s.rows rid, path = instancePath rid iid cf.fieldId ∧ scope = some (rid, iid)

def sizing (form : CompiledForm) (node : Repeat) : List Expr :=
  node.countExpr.toList ++ if node.rowSource.isSome then relevances form (chainOf form node.id) else []

def Asked (form : CompiledForm) (answered key : String) : Prop :=
  ∃ cf ∈ form.fields, cf.fieldId = key ∧ cf.repeatId = none ∧ cf.node.calculate = none ∧ key ≠ answered

/-- A calculate that every pass works out anew: it does not read itself, no repeat is sized by it, and its relevance
reads only questions outside the repeats, by name, and not the one answered. -/
structure Recomputed (form : CompiledForm) (answered : String) (cf : CompiledField) : Prop where
  alone : cf.fieldId ∉ cf.dependsOn.map base
  unsized : ∀ node ∈ form.repeats, ∀ expr ∈ sizing form node, cf.fieldId ∉ (collectRefs expr).map base
  relevance : ∀ expr ∈ relevances form cf.ancestors ++ cf.node.relevant.toList, ∀ path ∈ paths expr,
    Asked form answered path

def Quiet (platform : Device.Platform) (form : CompiledForm) (session : Session) (s : FormInstance) : Prop :=
  ∀ node ∈ form.repeats,
    (node.rowSource.isSome → node.id ∈ s.rowsResolved ∨
      containerRelevant (Device.evaluate platform) form session s node.id = .ok false) ∧
    ∀ expr, node.countExpr = some expr →
      (Device.evaluate platform (s.context session none) expr >>= Device.wanted) = .ok (s.rows node.id).length

structure Passing (platform : Device.Platform) (form : CompiledForm) (session : Session) (path : String) (value : Value)
    (s next : FormInstance) : Prop where
  quiet : Quiet platform form session (s.setValue path value)
  calculates : ∀ cf ∈ form.fields, cf.node.calculate.isSome → ¬ Recomputed form path cf → ∀ key ∈ turns s cf,
    key ≠ path → next.values key = s.values key

section Twin

def FieldState.shape (state : FieldState) : String × String := (state.path, state.dataType)

/-- Two states in the course of a pass: the same rows, the same answers where it is clear, the same states of the fields
that are done, and the questions that are asked as they were. -/
structure Twin (form : CompiledForm) (answered : String) (first : FormInstance) (clear settled : String → Prop)
    (s t : FormInstance) : Prop where
  instances : t.instances = s.instances
  rowKeys : t.rowKeys = s.rowKeys
  rowLabels : t.rowLabels = s.rowLabels
  rowsResolved : t.rowsResolved = s.rowsResolved
  serial : t.serial = s.serial
  values : ∀ key, clear key → t.values key = s.values key
  shapes : ∀ key, (t.states key).map FieldState.shape = (s.states key).map FieldState.shape
  states : ∀ key, settled key → t.states key = s.states key
  plain : PlainRows form s
  asked : ∀ key, Asked form answered key → s.values key = first.values key

variable {form : CompiledForm} {answered : String} {first : FormInstance} {clear settled : String → Prop}
  {s t : FormInstance}

namespace Twin

theorem rows (twin : Twin form answered first clear settled s t) (rid : String) : t.rows rid = s.rows rid :=
  congrArg (·.getD []) (congrFun twin.instances rid)

theorem stated (twin : Twin form answered first clear settled s t) (key : String) :
    (t.states key).isSome = (s.states key).isSome := by
  have same := congrArg Option.isSome (twin.shapes key)
  rwa [Option.isSome_map, Option.isSome_map] at same

end Twin

theorem plain_minted (n : ℕ) : Plain ("i" ++ toString n) := by
  intro c member
  have chars : ("i" ++ toString n).toList = 'i' :: Nat.toDigits 10 n := by
    rw [String.toList_append]
    show 'i' :: n.repr.toList = _
    rw [Nat.toList_repr]
  rw [chars] at member
  rcases List.mem_cons.mp member with rfl | digit
  · decide
  · have isDigit := Nat.isDigit_of_mem_toDigits (by decide) (by decide) digit
    refine ⟨?_, ?_, ?_⟩ <;> rintro rfl <;> revert isDigit <;> decide

theorem asked_plain (formed : Formed form) {key : String} (asked : Asked form answered key) : Plain key := by
  obtain ⟨cf, member, rfl, -⟩ := asked
  exact formed.plain cf member

theorem not_cellAt (formed : Formed form) {key : String} (asked : Asked form answered key) (rid iid : String) :
    ¬ (cellAt form rid iid key).isSome := by
  intro cell
  obtain ⟨cf, -, -, same⟩ := cellAt_isSome_iff.mp cell
  exact instancePath_ne (asked_plain formed asked) same.symm

namespace Twin

variable (twin : Twin form answered first clear settled s t)

include twin

theorem setValue {key : String} (value : Value) (apart : ¬ Asked form answered key) :
    Twin form answered first clear settled (s.setValue key value) (t.setValue key value) := by
  refine { twin with values := fun other here => ?_, asked := fun other asked => ?_ }
  · unfold FormInstance.setValue
    dsimp only
    rw [twin.values other here]
  · have other_ne : other ≠ key := by
      rintro rfl
      exact apart asked
    exact (if_neg other_ne).trans (twin.asked other asked)

theorem changeState (key : String) {f : FieldState → FieldState} (shape : ∀ state, (f state).shape = state.shape) :
    Twin form answered first clear settled (s.changeState key f) (t.changeState key f) := by
  refine { twin with shapes := fun other => ?_, states := fun other here => ?_ }
  · unfold FormInstance.changeState
    dsimp only
    split
    · rw [Option.map_map, Option.map_map, show FieldState.shape ∘ f = FieldState.shape from funext shape, twin.shapes]
    · exact twin.shapes other
  · unfold FormInstance.changeState
    dsimp only
    split
    · rename_i same
      rw [← same, twin.states other here]
    · exact twin.states other here

theorem openCells (formed : Formed form) (rid iid : String) :
    Twin form answered first clear settled (openCells form rid iid s) (openCells form rid iid t) := by
  refine { twin with
    values := fun key here => ?_
    shapes := fun key => ?_
    states := fun key here => ?_
    asked := fun key asked => ?_ }
  · unfold Form.openCells
    dsimp only
    rw [twin.values key here]
  · unfold Form.openCells
    dsimp only
    cases cellAt form rid iid key with
    | some cf => rfl
    | none => exact twin.shapes key
  · unfold Form.openCells
    dsimp only
    rw [twin.states key here]
  · exact (if_neg (not_cellAt formed asked rid iid)).trans (twin.asked key asked)

theorem destroyInstance (formed : Formed form) (rid iid : String) :
    Twin form answered first clear settled (destroyInstance form rid iid s) (destroyInstance form rid iid t) := by
  refine { twin with
    rowKeys := ?_
    rowLabels := ?_
    values := fun key here => ?_
    shapes := fun key => ?_
    states := fun key here => ?_
    asked := fun key asked => ?_ }
  · unfold Form.destroyInstance
    dsimp only
    rw [twin.rowKeys]
  · unfold Form.destroyInstance
    dsimp only
    rw [twin.rowLabels]
  · unfold Form.destroyInstance
    dsimp only
    rw [twin.values key here]
  · unfold Form.destroyInstance
    dsimp only
    split
    · rfl
    · exact twin.shapes key
  · unfold Form.destroyInstance
    dsimp only
    rw [twin.states key here]
  · exact (if_neg (not_cellAt formed asked rid iid)).trans (twin.asked key asked)

theorem setRows {rid : String} {ordered : List String}
    (plain : ∀ iid ∈ ordered, Plain iid ∧ ∃ node ∈ form.repeats, node.id = rid) :
    Twin form answered first clear settled (s.setRows rid ordered) (t.setRows rid ordered) := by
  refine { twin with instances := ?_, plain := fun other iid within => ?_ }
  · unfold FormInstance.setRows
    dsimp only
    rw [twin.instances]
  · rw [rows_setRows] at within
    split at within
    · rename_i same
      exact same ▸ plain iid within
    · exact twin.plain other iid within

end Twin

section Rows

variable (formed : Formed form)

include formed

theorem assertCreationOrder_twin (rid : String) : Mirrors (Twin form answered first clear settled)
    (assertCreationOrder rid) (assertCreationOrder rid) fun _ => Twin form answered first clear settled := by
  refine Mirrors.get_bind fun s t twin => ?_
  rw [twin.rows]
  refine Mirrors.mono (?_ : Mirrors (Twin form answered first clear settled) _ _ _) (fun _ _ both => both.1) fun _ _ _ => id
  split
  · exact Mirrors.pure fun _ _ => id
  · split
    · exact Mirrors.pure fun _ _ => id
    · exact Mirrors.of_throw

theorem createInstance_twin {node : Repeat} (listed : node ∈ form.repeats) (rowKey : Option String) :
    Mirrors (Twin form answered first clear settled) (createInstance form node.id rowKey)
      (createInstance form node.id rowKey) fun _ => Twin form answered first clear settled := by
  refine Mirrors.bind (Q := fun _ => Twin form answered first clear settled) (Mirrors.modify fun s t twin => ?_) fun _ => ?_
  · exact { twin with serial := congrArg (· + 1) twin.serial }
  refine Mirrors.get_bind fun s t twin => ?_
  rw [twin.serial]
  refine Mirrors.mono (?_ : Mirrors (Twin form answered first clear settled) _ _ _) (fun _ _ both => both.1) fun _ _ _ => id
  refine Mirrors.bind (Q := fun _ => Twin form answered first clear settled) (Mirrors.modify fun s' t' twin' => ?_) fun _ => ?_
  · rw [twin'.rows]
    refine twin'.setRows fun iid within => ?_
    rcases List.mem_append.mp within with old | last
    · exact twin'.plain node.id iid old
    · rw [List.mem_singleton.mp last]
      exact ⟨plain_minted _, node, listed, rfl⟩
  refine Mirrors.bind (Q := fun _ => Twin form answered first clear settled) (Mirrors.modify fun s' t' twin' => ?_) fun _ => ?_
  · refine { twin' with rowKeys := ?_ }
    unfold FormInstance.setRowKey
    dsimp only
    rw [twin'.rowKeys]
  refine Mirrors.bind (assertCreationOrder_twin formed node.id) fun _ => ?_
  refine Mirrors.bind (Q := fun _ => Twin form answered first clear settled)
    (Mirrors.modify fun s' t' twin' => twin'.openCells formed node.id _) fun _ => Mirrors.pure fun _ _ => id

end Rows

section Sizing

variable {platform : Device.Platform} {session : Session} {base₀ : FormInstance}

theorem Twin.concur (twin : Twin form answered first clear settled s t) (formed : Formed form)
    (plain : PlainRows form base₀) {names : List String}
    (loose : ∀ key, ¬ clear key → ∃ cf ∈ form.fields, key ∈ turns base₀ cf ∧
      (cf.fieldId ∈ names.map base → key ∈ turns s cf → False)) : Concur names s t := by
  refine ⟨twin.instances, fun path depends key looks => ?_⟩
  by_contra differs
  obtain ⟨cf, member, turn, apart⟩ := loose key fun here => differs (twin.values key here)
  obtain ⟨named, there⟩ := reads_turn formed twin.plain plain member turn looks
  exact apart (List.mem_map.mpr ⟨_, depends _ named, base_plain (formed.plain cf member)⟩) there

variable (formed : Formed form) (plain : PlainRows form base₀)
  (loose : ∀ key, ¬ clear key → ∃ cf ∈ form.fields, Recomputed form answered cf ∧ key ∈ turns base₀ cf)

include formed plain loose

variable (platform session) in
theorem Twin.sized (twin : Twin form answered first clear settled s t) {node : Repeat} (listed : node ∈ form.repeats) :
    (node.rowSource.isSome → containerRelevant (Device.evaluate platform) form session s node.id =
      containerRelevant (Device.evaluate platform) form session t node.id) ∧
    ∀ expr, node.countExpr = some expr →
      Device.evaluate platform (s.context session none) expr = Device.evaluate platform (t.context session none) expr := by
  have nowhere : ∀ rid iid, (none : Option (String × String)) = some (rid, iid) → iid ∈ s.rows rid := fun _ _ same => by
    cases same
  constructor
  · intro sourced
    have concur : Concur ((relevances form (chainOf form node.id)).flatMap collectRefs) s t := by
      refine twin.concur formed plain fun key blurred => ?_
      obtain ⟨cf, member, anew, turn⟩ := loose key blurred
      refine ⟨cf, member, turn, fun named _ => ?_⟩
      obtain ⟨dep, within, same⟩ := List.mem_map.mp named
      obtain ⟨expr, sizes, reads⟩ := List.mem_flatMap.mp within
      refine anew.unsized node listed expr ?_ (List.mem_map.mpr ⟨dep, reads, same⟩)
      rw [sizing, if_pos sourced]
      exact List.mem_append_right _ sizes
    rw [containerRelevant_eq, containerRelevant_eq]
    refine chainRelevant_concur platform formed twin.plain concur nowhere fun expr sizes dep reads => ?_
    exact List.mem_flatMap.mpr ⟨expr, sizes, reads⟩
  · intro expr counted
    have concur : Concur (collectRefs expr) s t := by
      refine twin.concur formed plain fun key blurred => ?_
      obtain ⟨cf, member, anew, turn⟩ := loose key blurred
      refine ⟨cf, member, turn, fun named _ => anew.unsized node listed expr ?_ named⟩
      rw [sizing, counted]
      exact List.mem_append_left _ (List.mem_singleton_self _)
    exact evaluate_concur platform (f := none) (g := none) formed twin.plain concur nowhere (List.Subset.refl _)
      fun _ _ _ _ => rfl

theorem seedRow_twin {node : Repeat} (listed : node ∈ form.repeats) (source : RowSource) (item : RowItem) :
    Mirrors (Twin form answered first clear settled) (seedRow form node.id source item)
      (seedRow form node.id source item) fun _ => Twin form answered first clear settled := by
  refine Mirrors.bind (createInstance_twin formed listed _) fun iid => ?_
  have labelled : Mirrors (Twin form answered first clear settled)
      (item.label.forM fun label => modify fun s => s.setRowLabel node.id iid label : Run Unit)
      (item.label.forM fun label => modify fun s => s.setRowLabel node.id iid label : Run Unit)
      fun _ => Twin form answered first clear settled := by
    cases item.label with
    | none => exact Mirrors.pure fun _ _ => id
    | some label =>
      refine Mirrors.modify fun s t twin => { twin with rowLabels := ?_ }
      unfold FormInstance.setRowLabel
      dsimp only
      rw [twin.rowLabels]
  refine Mirrors.bind labelled fun _ => Mirrors.forM fun binding _ => ?_
  split
  · refine Mirrors.get_bind fun s t twin => ?_
    have missing : (t.states (instancePath node.id iid binding.1)).isNone =
        (s.states (instancePath node.id iid binding.1)).isNone := by
      rw [← Option.not_isSome, ← Option.not_isSome, twin.stated]
    rw [missing]
    split
    · exact Mirrors.of_throw
    · refine Mirrors.modify fun s' t' both => ?_
      refine (both.1.setValue (Value.text item.value) fun asked => ?_).changeState _ fun _ => rfl
      exact instancePath_ne (asked_plain formed asked) rfl
  · exact Mirrors.pure fun _ _ => id

variable (platform session) in
theorem resolveRows_twin {node : Repeat} (listed : node ∈ form.repeats) :
    Mirrors (Twin form answered first clear settled) (resolveRows (Device.runtime platform) form session node)
      (resolveRows (Device.runtime platform) form session node) fun _ => Twin form answered first clear settled := by
  unfold resolveRows
  cases sourced : node.rowSource with
  | none => exact Mirrors.pure fun _ _ => id
  | some source =>
    refine Mirrors.get_bind fun s t twin => ?_
    have relevance := (twin.sized platform session formed plain loose listed).1 (by rw [sourced]; rfl)
    rw [twin.rowsResolved]
    refine Mirrors.mono (?_ : Mirrors (Twin form answered first clear settled) _ _ _) (fun _ _ both => both.1)
      fun _ _ _ => id
    split
    · exact Mirrors.pure fun _ _ => id
    · dsimp only [Device.runtime]
      rw [← relevance]
      refine Mirrors.bind (Q := fun _ => Twin form answered first clear settled) (fun s' t' twin' a s'' ran => ?_) fun relevant => ?_
      · obtain ⟨read, rfl⟩ := Device.lift_ok_iff.mp ran
        exact ⟨t', Device.lift_ok_iff.mpr ⟨read, rfl⟩, twin'⟩
      split
      · refine Mirrors.bind (Q := fun _ => Twin form answered first clear settled) (Mirrors.modify fun s' t' twin' => ?_)
          fun _ => Mirrors.forM fun item _ => seedRow_twin formed plain loose listed source item
        exact { twin' with rowsResolved := congrArg (node.id :: ·) twin'.rowsResolved }
      · exact Mirrors.pure fun _ _ => id

theorem popInstance_twin {node : Repeat} (listed : node ∈ form.repeats) :
    Mirrors (Twin form answered first clear settled) (popInstance form node.id) (popInstance form node.id)
      fun _ => Twin form answered first clear settled := by
  refine Mirrors.modify fun s t twin => ?_
  rw [twin.rows]
  split
  · refine Twin.destroyInstance (twin.setRows fun iid within => ?_) formed node.id _
    exact ⟨(twin.plain node.id iid (List.dropLast_subset _ within)).1, node, listed, rfl⟩
  · exact twin

variable (platform session) in
theorem settleCount_twin {node : Repeat} (listed : node ∈ form.repeats) :
    Mirrors (Twin form answered first clear settled) (settleCount (Device.runtime platform) form session node)
      (settleCount (Device.runtime platform) form session node) fun _ => Twin form answered first clear settled := by
  unfold settleCount
  cases counted : node.countExpr with
  | none => exact Mirrors.pure fun _ _ => id
  | some expr =>
    refine Mirrors.get_bind fun s t twin => ?_
    have count := (twin.sized platform session formed plain loose listed).2 expr counted
    dsimp only [Device.runtime]
    rw [← count, twin.rows]
    refine Mirrors.mono (?_ : Mirrors (Twin form answered first clear settled) _ _ _) (fun _ _ both => both.1)
      fun _ _ _ => id
    refine Mirrors.bind (Q := fun _ => Twin form answered first clear settled) (fun s' t' twin' a s'' ran => ?_) fun wanted => ?_
    · obtain ⟨read, rfl⟩ := Device.lift_ok_iff.mp ran
      exact ⟨t', Device.lift_ok_iff.mpr ⟨read, rfl⟩, twin'⟩
    refine Mirrors.bind (assertCreationOrder_twin formed node.id) fun _ => ?_
    refine Mirrors.bind (Q := fun _ => Twin form answered first clear settled) (Mirrors.forM fun _ _ => ?_) fun _ =>
      Mirrors.forM fun _ _ => popInstance_twin formed plain loose listed
    exact Mirrors.bind (createInstance_twin formed listed none) fun _ => Mirrors.pure fun _ _ => id

end Sizing

section Fields

variable {platform : Device.Platform} {session : Session}

theorem turn_field (formed : Formed form) {cf cf' : CompiledField} (member : cf ∈ form.fields)
    (member' : cf' ∈ form.fields) {key : String} (turn : key ∈ turns s cf) (turn' : key ∈ turns t cf') : cf = cf' := by
  have same : cf.fieldId = cf'.fieldId := by
    unfold turns at turn turn'
    cases inside : cf.repeatId with
    | none =>
      rw [inside] at turn
      obtain rfl := List.mem_singleton.mp turn
      cases inside' : cf'.repeatId with
      | none =>
        rw [inside'] at turn'
        exact List.mem_singleton.mp turn'
      | some rid' =>
        rw [inside'] at turn'
        obtain ⟨iid, -, path⟩ := List.mem_map.mp turn'
        exact absurd path (instancePath_ne (formed.plain cf member))
    | some rid =>
      rw [inside] at turn
      obtain ⟨iid, -, rfl⟩ := List.mem_map.mp turn
      cases inside' : cf'.repeatId with
      | none =>
        rw [inside'] at turn'
        exact absurd (List.mem_singleton.mp turn') (instancePath_ne (formed.plain cf' member'))
      | some rid' =>
        rw [inside'] at turn'
        obtain ⟨iid', -, path⟩ := List.mem_map.mp turn'
        obtain ⟨node, listed, rfl⟩ := formed.within cf member rid inside
        obtain ⟨node', listed', rfl⟩ := formed.within cf' member' rid' inside'
        exact (instancePath_injective (formed.plainRepeats node' listed') (formed.plain cf' member')
          (formed.plainRepeats node listed) (formed.plain cf member) path).2.2.symm
  exact List.inj_on_of_nodup_map formed.distinct member member' same

theorem mem_turns_iff {cf : CompiledField} {key : String} : key ∈ turns s cf ↔ ∃ scope, Turn s cf key scope := by
  unfold turns Turn
  cases cf.repeatId with
  | none => simp
  | some rid =>
    simp only [List.mem_map, reduceCtorEq, false_and, false_or, Option.some.injEq, exists_eq_left']
    constructor
    · rintro ⟨iid, within, rfl⟩
      exact ⟨some (rid, iid), iid, within, rfl, rfl⟩
    · rintro ⟨scope, iid, within, rfl, -⟩
      exact ⟨iid, within, rfl⟩

theorem resolve_plain {key : String} (plain : Plain key) (ctx : Context) :
    Device.resolve ctx key = Reference.resolveBare ctx key := by
  have depends := dependency_plain plain
  have column : rowPath key = none := by
    by_contra found
    rw [dependency, if_pos (Or.inl (Option.isSome_iff_ne_none.mpr found))] at depends
    cases depends
  have metadata : ¬ metadataPrefix.isPrefixOf key.toList := by
    intro starts
    rw [dependency, if_pos (Or.inr starts)] at depends
    cases depends
  have uncut {first : Char} {mark : List Char} (absent : first ∉ key.toList) :
      cutAt (first :: mark) key.toList = none := by
    by_contra found
    obtain ⟨cut, found⟩ := Option.ne_none_iff_exists'.mp found
    exact absent (by rw [cutAt_eq found]; simp)
  have opened {mark : List Char} : cutAt ('[' :: mark) key.toList = none :=
    uncut fun member => (plain _ member).1 rfl
  unfold Device.resolve
  rw [column]
  dsimp only
  rw [if_neg metadata, show "[].".toList = '[' :: "].".toList from rfl, show "[".toList = '[' :: [] from rfl, opened, opened]

theorem values_row_asked (formed : Formed form) (well : WellFormed form s) {key : String} (asked : Asked form answered key)
    {rid iid : String} (listed : ∃ node ∈ form.repeats, node.id = rid) : s.values (instancePath rid iid key) = none := by
  obtain ⟨cf, member, rfl, top, -⟩ := asked
  obtain ⟨node, listed, rfl⟩ := listed
  by_contra given
  rcases (well.values _).mp (Option.isSome_iff_ne_none.mpr given) with ⟨cf', member', -, path⟩ |
    ⟨cf', member', rid', inside, iid', -, path⟩
  · exact instancePath_ne (formed.plain cf' member') path
  · obtain ⟨node', listed', rfl⟩ := formed.within cf' member' rid' inside
    obtain ⟨-, -, id⟩ := instancePath_injective (formed.plainRepeats node listed) (formed.plain cf member)
      (formed.plainRepeats node' listed') (formed.plain cf' member') path
    obtain rfl := List.inj_on_of_nodup_map formed.distinct member member' id
    rw [top] at inside
    cases inside

variable (platform session) in
theorem fieldRelevant_asked (formed : Formed form) (well : WellFormed form s) (well' : WellFormed form t)
    {cf : CompiledField} (anew : Recomputed form answered cf)
    (same : ∀ key, Asked form answered key → t.values key = s.values key) {scope : Option (String × String)}
    (placed : ∀ rid iid, scope = some (rid, iid) → ∃ node ∈ form.repeats, node.id = rid) :
    fieldRelevant (Device.evaluate platform) form (s.context session scope) cf =
      fieldRelevant (Device.evaluate platform) form (t.context session scope) cf := by
  have evaluated (expr : Expr) (listed : expr ∈ relevances form cf.ancestors ++ cf.node.relevant.toList) :
      Device.evaluate platform (s.context session scope) expr = Device.evaluate platform (t.context session scope) expr := by
    refine Evaluator.evaluate_congr ?_ expr fun path read => ?_
    · rfl
    have asked := anew.relevance expr listed path read
    rw [resolve_plain (asked_plain formed asked), resolve_plain (asked_plain formed asked)]
    unfold Reference.resolveBare
    dsimp only [FormInstance.context]
    have row : (scope.bind fun scope => t.values (instancePath scope.1 scope.2 path)) =
        scope.bind fun scope => s.values (instancePath scope.1 scope.2 path) := by
      cases scope with
      | none => rfl
      | some scope =>
        have listed := placed scope.1 scope.2 rfl
        exact (values_row_asked formed well' asked listed).trans (values_row_asked formed well asked listed).symm
    rw [row, same path asked]
  unfold fieldRelevant
  rw [chainRelevant_congr fun expr listed => evaluated expr (List.mem_append_left _ listed)]
  refine congrArg (_ >>= ·) (funext fun inherited => ?_)
  split
  · cases given : cf.node.relevant with
    | none => rfl
    | some expr =>
      dsimp only [decideAt]
      rw [evaluated expr (List.mem_append_right _ (by rw [given]; exact List.mem_singleton_self _))]
  · rfl

theorem turn_scope {cf : CompiledField} {key : String} {scope scope' : Option (String × String)}
    (turn : Turn s cf key scope) (turn' : Turn t cf key scope') : scope = scope' := by
  obtain ⟨top, -, rfl⟩ | ⟨rid, inside, iid, -, path, rfl⟩ := turn
  · obtain ⟨-, -, rfl⟩ | ⟨rid', inside', -⟩ := turn'
    · rfl
    · rw [top] at inside'
      cases inside'
  · obtain ⟨top', -⟩ | ⟨rid', inside', iid', -, path', rfl⟩ := turn'
    · rw [top'] at inside
      cases inside
    · obtain rfl := Option.some.inj (inside.symm.trans inside')
      rw [instancePath_row (path.symm.trans path')]

theorem turn_placed {cf : CompiledField} {key : String} {scope : Option (String × String)} (turn : Turn s cf key scope)
    {rid iid : String} (given : scope = some (rid, iid)) : iid ∈ s.rows rid := by
  obtain ⟨-, -, rfl⟩ | ⟨rid', -, iid', within, -, rfl⟩ := turn
  · cases given
  · cases given
    exact within

theorem turn_keyed {cf : CompiledField} (member : cf ∈ form.fields) {key : String} (turn : key ∈ turns s cf) :
    Keyed form s key := by
  obtain ⟨scope, turn⟩ := mem_turns_iff.mp turn
  obtain ⟨top, path, -⟩ | ⟨rid, inside, iid, within, path, -⟩ := turn
  · exact Or.inl ⟨cf, member, top, path⟩
  · exact Or.inr ⟨cf, member, rid, inside, iid, within, path⟩

theorem keyed_turn {key : String} (keyed : Keyed form s key) : ∃ cf ∈ form.fields, key ∈ turns s cf := by
  obtain ⟨cf, member, top, rfl⟩ | ⟨cf, member, rid, inside, iid, within, rfl⟩ := keyed
  · exact ⟨cf, member, mem_turns_iff.mpr ⟨none, Or.inl ⟨top, rfl, rfl⟩⟩⟩
  · exact ⟨cf, member, mem_turns_iff.mpr ⟨some (rid, iid), Or.inr ⟨rid, inside, iid, within, rfl, rfl⟩⟩⟩

theorem turn_asked (formed : Formed form) {key : String} (asked : Asked form answered key) {cf : CompiledField}
    (member : cf ∈ form.fields) (turn : key ∈ turns s cf) : cf.node.calculate = none := by
  obtain ⟨cf', member', rfl, top, uncalculated, -⟩ := asked
  have turn' : cf'.fieldId ∈ turns s cf' := mem_turns_iff.mpr ⟨none, Or.inl ⟨top, rfl, rfl⟩⟩
  rw [turn_field formed member member' turn turn']
  exact uncalculated

end Fields

end Twin

section Pass

variable {form : CompiledForm} {answered : String} {first ρ : FormInstance} {clear settled : String → Prop}
  {s t : FormInstance} {platform : Device.Platform} {session : Session}

theorem Twin.mono {clear' settled' : String → Prop} (twin : Twin form answered first clear settled s t)
    (clearer : ∀ key, clear' key → clear key) (later : ∀ key, settled' key → settled key) :
    Twin form answered first clear' settled' s t :=
  { twin with
    values := fun key here => twin.values key (clearer key here)
    states := fun key here => twin.states key (later key here) }

theorem Twin.settle (twin : Twin form answered first clear settled s t) {path : String} {o : Device.Outcome}
    (kept : Asked form answered path → s.values path = some o.value) :
    Twin form answered first (fun key => clear key ∨ key = path) (fun key => settled key ∨ key = path)
      (o.settle path s) (o.settle path t) := by
  refine { twin with
    values := fun key here => ?_
    shapes := fun key => ?_
    states := fun key here => ?_
    asked := fun key asked => ?_ }
  · show (if key = path then _ else t.values key) = if key = path then _ else s.values key
    split
    · rfl
    · exact twin.values key (here.resolve_right ‹_›)
  · show Option.map _ (if key = path then (t.states path).map _ else t.states key) =
      Option.map _ (if key = path then (s.states path).map _ else s.states key)
    split
    · rw [Option.map_map, Option.map_map]
      exact twin.shapes path
    · exact twin.shapes key
  · show (if key = path then (t.states path).map _ else t.states key) =
      if key = path then (s.states path).map _ else s.states key
    split
    · -- What is written does not read the state: of that the shape alone is left.
      have shape := twin.shapes path
      cases kept : s.states path with
      | none =>
        rw [kept] at shape
        rw [Option.map_eq_none_iff.mp shape]
      | some state =>
        rw [kept] at shape
        obtain ⟨state', given, same⟩ := Option.map_eq_some_iff.mp shape
        obtain ⟨paths, types⟩ := Prod.mk.inj same
        rw [given, Option.map_some, Option.map_some, paths, types]
    · exact twin.states key (here.resolve_right ‹_›)
  · show (if key = path then _ else s.values key) = first.values key
    split
    · rename_i same
      subst same
      rw [← kept asked]
      exact twin.asked key asked
    · exact twin.asked key asked

variable (form answered platform session) in
def Loose (s : FormInstance) (key : String) : Prop :=
  ∃ cf ∈ form.fields, cf.node.calculate.isSome ∧ Recomputed form answered cf ∧ key ∈ turns s cf ∧
    ∀ scope, Turn s cf key scope →
      fieldRelevant (Device.evaluate platform) form (s.context session scope) cf = .ok true

def Done (form : CompiledForm) (s : FormInstance) (before : List String) (key : String) : Prop :=
  ∃ cf ∈ form.fields, cf.fieldId ∈ before ∧ key ∈ turns s cf

theorem Done.last (formed : Formed form) {cf : CompiledField} (member : cf ∈ form.fields) {before : List String} {key : String}
    (done : Done form s (before ++ [cf.fieldId]) key) : Done form s before key ∨ key ∈ turns s cf := by
  obtain ⟨cf', member', listed, turn⟩ := done
  rcases List.mem_append.mp listed with earlier | now
  · exact Or.inl ⟨cf', member', earlier, turn⟩
  · obtain rfl := List.inj_on_of_nodup_map formed.distinct member' member (List.mem_singleton.mp now)
    exact Or.inr turn

variable (form answered first ρ clear) in
/-- Two states in the course of a pass, when the rows are settled and these places are done. -/
structure Abreast (seen : String → Prop) (s t : FormInstance) : Prop where
  twin : Twin form answered first (fun key => clear key ∨ seen key) seen s t
  rows : s.instances = ρ.instances
  well : WellFormed form s

theorem Abreast.mono {seen seen' : String → Prop} (abreast : Abreast form answered first ρ clear seen s t)
    (fewer : ∀ key, seen' key → seen key) : Abreast form answered first ρ clear seen' s t :=
  ⟨abreast.twin.mono (fun key => Or.imp_right (fewer key)) fewer, abreast.rows, abreast.well⟩

theorem turns_congr (rows : t.instances = s.instances) (cf : CompiledField) : turns t cf = turns s cf := by
  unfold turns FormInstance.rows
  rw [rows]

theorem turn_congr (rows : t.instances = s.instances) {cf : CompiledField} {path : String}
    {scope : Option (String × String)} : Turn t cf path scope ↔ Turn s cf path scope := by
  unfold Turn FormInstance.rows
  rw [rows]

variable {children : List Node} (compiled : compile children = .ok form) (wellFirst : WellFormed form first)
  (plainFirst : PlainRows form first) (loose : ∀ key, ¬ clear key → Loose form answered platform session first key)

include compiled wellFirst plainFirst loose

theorem evaluateField_twin {seen : String → Prop} {before after : List String} {cf : CompiledField}
    (member : cf ∈ form.fields) (whole : form.topoOrder = before ++ cf.fieldId :: after)
    (done : ∀ key, Done form ρ before key → seen key) {path : String} {scope : Option (String × String)}
    (turn : Turn ρ cf path scope) : Mirrors (Abreast form answered first ρ clear seen)
      (Device.evaluateField platform (Device.evaluate platform) form session cf path scope)
      (Device.evaluateField platform (Device.evaluate platform) form session cf path scope)
      fun _ => Abreast form answered first ρ clear fun key => seen key ∨ key = path := by
  have formed := compile_formed compiled
  obtain ⟨-, -, -, -, -, -, -, sorted⟩ := compile_parts compiled
  intro s t abreast u s' ran
  obtain ⟨has, o, came, rfl⟩ := (Device.evaluateField_ok_iff platform _ form session cf path scope).mp ran
  obtain ⟨relevance, idle⟩ := Device.outcome_spec platform _ form session cf path scope came
  have turnS : Turn s cf path scope := (turn_congr abreast.rows).mpr turn
  have hereS : path ∈ turns s cf := mem_turns_iff.mpr ⟨scope, turnS⟩
  have concur : Concur cf.dependsOn s t := by
    refine abreast.twin.concur formed plainFirst fun key unclear => ?_
    obtain ⟨cf', member', -, anew, turn', -⟩ := loose key fun here => unclear (Or.inl here)
    refine ⟨cf', member', turn', fun named there => ?_⟩
    obtain ⟨dep, depends, same⟩ := List.mem_map.mp named
    have listed := mem_topoOrder sorted member'
    rw [whole] at listed
    rcases List.mem_append.mp listed with earlier | later
    · refine unclear (Or.inr (done key ⟨cf', member', earlier, ?_⟩))
      rwa [turns_congr abreast.rows] at there
    rcases List.mem_cons.mp later with now | later
    · obtain rfl := List.inj_on_of_nodup_map formed.distinct member' member now
      exact anew.alone named
    · obtain ⟨next, last, rfl⟩ := List.append_of_mem later
      have split : form.topoOrder = (before ++ cf.fieldId :: next) ++ cf'.fieldId :: last := by
        rw [whole, List.append_assoc, List.cons_append]
      exact base_ne_later formed sorted split member (List.mem_append_right _ List.mem_cons_self) depends same
  have held : ∀ relevant,
      fieldRelevant (Device.evaluate platform) form (s.context session scope) cf = .ok relevant →
        cf.node.calculate.isSome ∧ relevant = true ∨ t.values path = s.values path := by
    intro relevant found
    by_cases here : clear path ∨ seen path
    · exact Or.inr (abreast.twin.values path here)
    · obtain ⟨cf', member', calculated, anew, turn', relevance'⟩ := loose path fun clear => here (Or.inl clear)
      obtain rfl := turn_field formed member' member turn' hereS
      obtain ⟨scope', turnFirst⟩ := mem_turns_iff.mp turn'
      obtain rfl := turn_scope turnFirst turnS
      have placed : ∀ rid iid, scope' = some (rid, iid) → ∃ node ∈ form.repeats, node.id = rid :=
        fun rid iid given => (plainFirst rid iid (turn_placed turnFirst given)).2
      have same := fieldRelevant_asked platform session formed abreast.well wellFirst anew
        (fun key asked => (abreast.twin.asked key asked).symm) placed
      rw [same, relevance' scope' turnFirst] at found
      exact Or.inl ⟨calculated, (Except.ok.inj found).symm⟩
  have came' : Device.outcome platform (Device.evaluate platform) form session cf path scope t = .ok o := by
    rw [← outcome_concur platform formed abreast.twin.plain (compile_dependent compiled cf member) concur
      (fun rid iid given => turn_placed turnS given) held]
    exact came
  refine ⟨o.settle path t, (Device.evaluateField_ok_iff platform _ form session cf path scope).mpr
    ⟨by rw [abreast.twin.stated]; exact has, o, came', rfl⟩, ?_, abreast.rows,
    Device.settle_keeps (wellFormed_framed form) o abreast.well has⟩
  have settled := abreast.twin.settle (o := o) fun asked => idle (Or.inl (turn_asked formed asked member hereS))
  exact settled.mono (fun key here => or_assoc.mpr here) fun key => id

theorem evaluateFields_twin {before after : List String} {fid : String}
    (whole : form.topoOrder = before ++ fid :: after) :
    Mirrors (Abreast form answered first ρ clear (Done form ρ before))
      (evaluateFields (Device.runtime platform) form session fid)
      (evaluateFields (Device.runtime platform) form session fid)
      fun _ => Abreast form answered first ρ clear (Done form ρ (before ++ [fid])) := by
  unfold evaluateFields
  cases found : form.field? fid with
  | none => exact Mirrors.of_throw
  | some cf =>
    have member := List.mem_of_find?_eq_some found
    obtain rfl : cf.fieldId = fid := by simpa using List.find?_some found
    have formed := compile_formed compiled
    dsimp only
    cases inside : cf.repeatId with
    | none =>
      have turn : Turn ρ cf cf.fieldId none := Or.inl ⟨inside, rfl, rfl⟩
      refine Mirrors.mono (evaluateField_twin compiled wellFirst plainFirst loose member whole (fun _ => id) turn)
        (fun _ _ => id) fun _ s t abreast => abreast.mono fun key done => ?_
      refine (done.last formed member).imp_right fun turn => ?_
      rw [turns, inside] at turn
      exact List.mem_singleton.mp turn
    | some rid =>
      refine Mirrors.get_bind fun s t abreast => ?_
      rw [abreast.twin.rows, show s.rows rid = ρ.rows rid from congrArg (·.getD []) (congrFun abreast.rows rid)]
      have rows := @Mirrors.forM_steps _ _ _ _ (ρ.rows rid)
        (fun iid => (Device.runtime platform).evaluateField form session cf (instancePath rid iid cf.fieldId) (some (rid, iid)))
        (fun iid => (Device.runtime platform).evaluateField form session cf (instancePath rid iid cf.fieldId) (some (rid, iid)))
        (fun done => Abreast form answered first ρ clear fun key =>
          Done form ρ before key ∨ ∃ iid ∈ done, key = instancePath rid iid cf.fieldId) fun done iid rest split => ?_
      · refine Mirrors.mono rows (fun s' t' both => both.1.mono fun key here => ?_) fun _ s' t' abreast' =>
          abreast'.mono fun key done => (done.last formed member).imp_right fun turn => ?_
        · exact here.resolve_right fun ⟨iid, within, _⟩ => List.not_mem_nil within
        · rw [turns, inside] at turn
          obtain ⟨iid, within, same⟩ := List.mem_map.mp turn
          exact ⟨iid, within, same.symm⟩
      · have within : iid ∈ ρ.rows rid := split ▸ List.mem_append_right _ List.mem_cons_self
        have turn : Turn ρ cf (instancePath rid iid cf.fieldId) (some (rid, iid)) :=
          Or.inr ⟨rid, inside, iid, within, rfl, rfl⟩
        refine Mirrors.mono (evaluateField_twin compiled wellFirst plainFirst loose member whole (fun _ => Or.inl) turn)
          (fun _ _ => id) fun _ s' t' abreast' => abreast'.mono fun key here => ?_
        rcases here with done | ⟨iid', within', same⟩
        · exact Or.inl (Or.inl done)
        rcases List.mem_append.mp within' with old | now
        · exact Or.inl (Or.inr ⟨iid', old, same⟩)
        · exact Or.inr (List.mem_singleton.mp now ▸ same)

end Pass

section Whole

variable {form : CompiledForm} {answered : String} {first s t : FormInstance} {clear settled : String → Prop}
  {platform : Device.Platform} {session : Session}

theorem Twin.eq (twin : Twin form answered first clear settled s t) (wellS : WellFormed form s) (wellT : WellFormed form t)
    (all : ∀ key, Keyed form s key → clear key ∧ settled key) : t = s := by
  have values : t.values = s.values := by
    funext key
    by_cases keyed : Keyed form s key
    · exact twin.values key (all key keyed).1
    · have unkeyed : ¬ Keyed form t key := fun here => keyed ((keyed_congr twin.instances).mp here)
      rw [← wellS.values, Option.not_isSome_iff_eq_none] at keyed
      rw [← wellT.values, Option.not_isSome_iff_eq_none] at unkeyed
      rw [keyed, unkeyed]
  have states : t.states = s.states := by
    funext key
    by_cases keyed : Keyed form s key
    · exact twin.states key (all key keyed).2
    · have unkeyed : ¬ Keyed form t key := fun here => keyed ((keyed_congr twin.instances).mp here)
      rw [← wellS.states, Option.not_isSome_iff_eq_none] at keyed
      rw [← wellT.states, Option.not_isSome_iff_eq_none] at unkeyed
      rw [keyed, unkeyed]
  have instances := twin.instances
  have rowKeys := twin.rowKeys
  have rowLabels := twin.rowLabels
  have rowsResolved := twin.rowsResolved
  have serial := twin.serial
  cases s
  cases t
  dsimp only at instances rowKeys rowLabels rowsResolved serial values states
  rw [instances, rowKeys, rowLabels, rowsResolved, serial, values, states]

theorem recalculate_twin {children : List Node} (compiled : compile children = .ok form) (wellS : WellFormed form s)
    (wellT : WellFormed form t) (twin : Twin form answered s clear (fun _ => False) s t)
    (loose : ∀ key, ¬ clear key → Loose form answered platform session s key) {s' : FormInstance}
    (ran : recalculate (Device.runtime platform) form session s = .ok () s') :
    recalculate (Device.runtime platform) form session t = .ok () s' := by
  have formed := compile_formed compiled
  have passable := passable_of_formed formed (fun _ => []) s s
  have blurred : ∀ key, ¬ clear key → ∃ cf ∈ form.fields, Recomputed form answered cf ∧ key ∈ turns s cf := by
    intro key unclear
    obtain ⟨cf, member, -, anew, turn, -⟩ := loose key unclear
    exact ⟨cf, member, anew, turn⟩
  have fields : Mirrors (fun s' t' => Twin form answered s clear (fun _ => False) s' t' ∧ WellFormed form s')
      (form.topoOrder.forM (evaluateFields (Device.runtime platform) form session))
      (form.topoOrder.forM (evaluateFields (Device.runtime platform) form session))
      fun _ s' t' => Twin form answered s (fun key => clear key ∨ Keyed form s' key) (Keyed form s') s' t' := by
    intro ρ t₁ both u s₂ ran₂
    have turnwise := @Mirrors.forM_steps _ _ _ _ form.topoOrder (evaluateFields (Device.runtime platform) form session)
      (evaluateFields (Device.runtime platform) form session)
      (fun before => Abreast form answered s ρ clear (Done form ρ before))
      fun before fid after whole => evaluateFields_twin compiled wellS twin.plain loose whole
    have begun : Abreast form answered s ρ clear (Done form ρ []) ρ t₁ := by
      refine ⟨both.1.mono (fun key here => here.resolve_right ?_) fun key => ?_, rfl, both.2⟩
      · exact fun ⟨_, _, listed, _⟩ => List.not_mem_nil listed
      · exact fun ⟨_, _, listed, _⟩ => List.not_mem_nil listed
    obtain ⟨t₂, ran', ended⟩ := turnwise ρ t₁ begun u s₂ ran₂
    have whole {key : String} (keyed : Keyed form s₂ key) : Done form ρ form.topoOrder key := by
      obtain ⟨cf, member, turn⟩ := keyed_turn keyed
      obtain ⟨-, -, -, -, -, -, -, sorted⟩ := compile_parts compiled
      exact ⟨cf, member, mem_topoOrder sorted member, turns_congr ended.rows cf ▸ turn⟩
    exact ⟨t₂, ran', ended.twin.mono (fun key => Or.imp_right whole) fun key => whole⟩
  have mirrored := Mirrors.bind
    (Mirrors.left (Mirrors.forM fun node member => resolveRows_twin platform session formed twin.plain blurred member)
      (Triple.forM fun node member => resolveRows_triple passable (passAllowed_any _) member)) fun _ => Mirrors.bind
    (Mirrors.left (Mirrors.forM fun node member => settleCount_twin platform session formed twin.plain blurred member)
      (Triple.forM fun node member => settleCount_keeps passable member fun _ _ _ _ _ _ => trivial)) fun _ =>
    Mirrors.mono fields (fun _ _ both => ⟨both.1, both.2.1⟩) fun _ _ _ => id
  obtain ⟨t', ran', ended⟩ := mirrored s t ⟨twin, wellS, grown_refl _ s, fun _ _ _ => rfl⟩ () s' ran
  have wellS' : WellFormed form s' :=
    ((Device.recalculate_keeps platform passable).ok ⟨wellS, grown_refl _ s, fun _ _ _ => rfl⟩ ran).1
  have wellT' : WellFormed form t' :=
    ((Device.recalculate_keeps platform (passable_of_formed formed (fun _ => []) t t)).ok
      ⟨wellT, grown_refl _ t, fun _ _ _ => rfl⟩ ran').1
  rw [ended.eq wellS' wellT' fun key keyed => ⟨Or.inr keyed, keyed⟩] at ran'
  exact ran'

end Whole

section Near

variable {form : CompiledForm} {answered : String} {platform : Device.Platform} {session : Session}
  {r s t u : FormInstance}

/-- Two states that differ, the one answered apart, only in what a pass works out anew. -/
structure Near (platform : Device.Platform) (form : CompiledForm) (session : Session) (answered : String)
    (t s : FormInstance) : Prop where
  instances : s.instances = t.instances
  rowKeys : s.rowKeys = t.rowKeys
  rowLabels : s.rowLabels = t.rowLabels
  rowsResolved : s.rowsResolved = t.rowsResolved
  serial : s.serial = t.serial
  shapes : ∀ key, (s.states key).map FieldState.shape = (t.states key).map FieldState.shape
  answers : ∀ key, key ≠ answered → s.values key = t.values key ∨ Loose form answered platform session s key

theorem near_refl (answered : String) (s : FormInstance) : Near platform form session answered s s :=
  ⟨rfl, rfl, rfl, rfl, rfl, fun _ => rfl, fun _ _ => Or.inl rfl⟩

theorem Near.asked (near : Near platform form session answered t s) (formed : Formed form) {key : String}
    (asked : Asked form answered key) : s.values key = t.values key := by
  have apart : key ≠ answered := by
    obtain ⟨-, -, -, -, -, apart⟩ := asked
    exact apart
  refine (near.answers key apart).resolve_right fun left => ?_
  obtain ⟨cf, member, calculated, -, turn, -⟩ := left
  rw [turn_asked formed asked member turn] at calculated
  cases calculated

theorem Loose.moved (formed : Formed form) (wellS : WellFormed form s) (wellT : WellFormed form t)
    (plain : PlainRows form s) (rows : t.instances = s.instances)
    (same : ∀ key, Asked form answered key → t.values key = s.values key) {key : String}
    (left : Loose form answered platform session s key) : Loose form answered platform session t key := by
  obtain ⟨cf, member, calculated, anew, turn, relevant⟩ := left
  refine ⟨cf, member, calculated, anew, turns_congr rows cf ▸ turn, fun scope there => ?_⟩
  have here : Turn s cf key scope := (turn_congr rows).mp there
  rw [← fieldRelevant_asked platform session formed wellS wellT anew same
    fun rid iid given => (plain rid iid (turn_placed here given)).2]
  exact relevant scope here

theorem Near.trans (formed : Formed form) (wellS : WellFormed form s) (wellU : WellFormed form u) (plain : PlainRows form s)
    (first : Near platform form session answered t s) (last : Near platform form session answered s u) :
    Near platform form session answered t u := by
  refine ⟨last.instances.trans first.instances, last.rowKeys.trans first.rowKeys, last.rowLabels.trans first.rowLabels,
    last.rowsResolved.trans first.rowsResolved, last.serial.trans first.serial,
    fun key => (last.shapes key).trans (first.shapes key), fun key apart => ?_⟩
  rcases last.answers key apart with same | left
  · rcases first.answers key apart with same' | left
    · exact Or.inl (same.trans same')
    · exact Or.inr (left.moved formed wellS wellU plain last.instances fun key asked => last.asked formed asked)
  · exact Or.inr left

theorem wellFormed_setValue (well : WellFormed form s) {path : String} (placed : (s.values path).isSome) (value : Value) :
    WellFormed form (s.setValue path value) :=
  (wellFormed_framed form).value _ _ _ well ((well.states path).mpr ((well.values path).mp placed))

theorem Near.answer {children : List Node} (compiled : compile children = .ok form) (wellS : WellFormed form s)
    (wellT : WellFormed form t) (plain : PlainRows form s) (near : Near platform form session answered t s)
    (placed : (s.values answered).isSome) {value : Value} {s' : FormInstance}
    (ran : recalculate (Device.runtime platform) form session (s.setValue answered value) = .ok () s') :
    (t.values answered).isSome ∧
      recalculate (Device.runtime platform) form session (t.setValue answered value) = .ok () s' := by
  have formed := compile_formed compiled
  have placed' : (t.values answered).isSome :=
    (wellT.values answered).mpr ((keyed_congr near.instances).mp ((wellS.values answered).mp placed))
  have wellS' := wellFormed_setValue wellS placed value
  have unasked : ¬ Asked form answered answered := by
    rintro ⟨-, -, -, -, -, apart⟩
    exact apart rfl
  have twin : Twin form answered (s.setValue answered value) (fun key => key = answered ∨ t.values key = s.values key)
      (fun _ => False) (s.setValue answered value) (t.setValue answered value) := by
    refine ⟨near.instances.symm, near.rowKeys.symm, near.rowLabels.symm, near.rowsResolved.symm, near.serial.symm,
      fun key here => ?_, fun key => (near.shapes key).symm, fun _ none => none.elim, plain, fun _ _ => rfl⟩
    show (if key = answered then _ else t.values key) = if key = answered then _ else s.values key
    split
    · rfl
    · exact here.resolve_left ‹_›
  refine ⟨placed', recalculate_twin compiled wellS' (wellFormed_setValue wellT placed' value) twin (fun key unclear => ?_) ran⟩
  obtain ⟨apart, differs⟩ := not_or.mp unclear
  have left := (near.answers key apart).resolve_left fun same => differs same.symm
  refine left.moved formed wellS wellS' plain rfl fun other asked => ?_
  refine if_neg fun same => unasked ?_
  exact same ▸ asked

end Near

section Passing

variable {form : CompiledForm} {answered : String} {platform : Device.Platform} {session : Session} {r s u : FormInstance}

theorem resolveRows_quiet (quiet : Quiet platform form session s) {node : Repeat} (listed : node ∈ form.repeats) :
    resolveRows (Device.runtime platform) form session node s = .ok () s := by
  unfold resolveRows
  cases sourced : node.rowSource with
  | none => rfl
  | some source =>
    dsimp only
    rw [apply_get_bind]
    by_cases resolved : node.id ∈ s.rowsResolved
    · rw [if_pos resolved]
      rfl
    · rw [if_neg resolved]
      have irrelevant := ((quiet node listed).1 (by rw [sourced]; rfl)).resolve_left resolved
      refine run_bind_ok_iff.mpr ⟨false, s, Device.lift_ok_iff.mpr ⟨irrelevant, rfl⟩, rfl⟩

theorem settleCount_quiet (quiet : Quiet platform form session s) (well : WellFormed form s) {node : Repeat}
    (listed : node ∈ form.repeats) : settleCount (Device.runtime platform) form session node s = .ok () s := by
  unfold settleCount
  cases counted : node.countExpr with
  | none => rfl
  | some expr =>
    dsimp only
    rw [apply_get_bind]
    refine run_bind_ok_iff.mpr ⟨_, s, Device.lift_ok_iff.mpr ⟨(quiet node listed).2 expr counted, rfl⟩, ?_⟩
    refine run_bind_ok_iff.mpr ⟨(), s, assertCreationOrder_ok (well.increasing node.id), ?_⟩
    rw [Nat.sub_self]
    rfl

/-- What the fields of a pass leave: the answers of calculates, of those that are worked out anew where they are
relevant. -/
structure Drifted (platform : Device.Platform) (form : CompiledForm) (session : Session) (answered : String)
    (r u : FormInstance) : Prop where
  instances : u.instances = r.instances
  rowKeys : u.rowKeys = r.rowKeys
  rowLabels : u.rowLabels = r.rowLabels
  rowsResolved : u.rowsResolved = r.rowsResolved
  serial : u.serial = r.serial
  shapes : ∀ key, (u.states key).map FieldState.shape = (r.states key).map FieldState.shape
  well : WellFormed form u
  answers : ∀ key, u.values key = r.values key ∨ ∃ cf ∈ form.fields, cf.node.calculate.isSome ∧ key ∈ turns r cf ∧
    (Recomputed form answered cf → Loose form answered platform session r key)

theorem Drifted.asked (drifted : Drifted platform form session answered r u) (formed : Formed form) {key : String}
    (asked : Asked form answered key) : u.values key = r.values key := by
  refine (drifted.answers key).resolve_right fun left => ?_
  obtain ⟨cf, member, calculated, turn, -⟩ := left
  rw [turn_asked formed asked member turn] at calculated
  cases calculated

theorem evaluateField_drifts (formed : Formed form) (well : WellFormed form r) (plain : PlainRows form r)
    {cf : CompiledField} (member : cf ∈ form.fields) {path : String} {scope : Option (String × String)}
    (turn : Turn r cf path scope) : Triple (Drifted platform form session answered r)
      (Device.evaluateField platform (Device.evaluate platform) form session cf path scope)
      (fun _ => Drifted platform form session answered r) fun _ _ => True := by
  intro u drifted
  cases ran : Device.evaluateField platform (Device.evaluate platform) form session cf path scope u with
  | error e u' => trivial
  | ok v u' =>
    obtain ⟨has, o, came, rfl⟩ := (Device.evaluateField_ok_iff platform _ form session cf path scope).mp ran
    obtain ⟨relevance, idle⟩ := Device.outcome_spec platform _ form session cf path scope came
    refine ⟨drifted.instances, drifted.rowKeys, drifted.rowLabels, drifted.rowsResolved, drifted.serial, fun key => ?_,
      Device.settle_keeps (wellFormed_framed form) o drifted.well has, fun key => ?_⟩
    · refine Eq.trans ?_ (drifted.shapes key)
      show Option.map _ (if key = path then (u.states path).map _ else u.states key) = _
      split
      · rename_i same
        rw [Option.map_map, same]
        rfl
      · rfl
    · show (if key = path then some o.value else u.values key) = _ ∨ _
      split
      · rename_i same
        subst same
        by_cases calculated : cf.node.calculate.isSome = true ∧ o.relevant = true
        · refine Or.inr ⟨cf, member, calculated.1, mem_turns_iff.mpr ⟨scope, turn⟩, fun anew => ?_⟩
          refine ⟨cf, member, calculated.1, anew, mem_turns_iff.mpr ⟨scope, turn⟩, fun scope' turn' => ?_⟩
          obtain rfl := turn_scope turn turn'
          rw [fieldRelevant_asked platform session formed well drifted.well anew
            (fun key asked => drifted.asked formed asked)
            fun rid iid given => (plain rid iid (turn_placed turn given)).2, relevance, calculated.2]
        · have kept : u.values key = some o.value := by
            apply idle
            rcases not_and_or.mp calculated with uncalculated | irrelevant
            · exact Or.inl (Option.not_isSome_iff_eq_none.mp uncalculated)
            · exact Or.inr (Bool.eq_false_iff.mpr irrelevant)
          rw [← kept]
          exact drifted.answers key
      · exact drifted.answers key

theorem evaluateFields_turns {P : FormInstance → Prop} (rows : ∀ u, P u → u.instances = r.instances)
    (each : ∀ cf ∈ form.fields, ∀ path scope, Turn r cf path scope → Triple P
      (Device.evaluateField platform (Device.evaluate platform) form session cf path scope) (fun _ => P) fun _ _ => True)
    (fid : String) : Triple P (evaluateFields (Device.runtime platform) form session fid) (fun _ => P) fun _ _ => True := by
  unfold evaluateFields
  cases found : form.field? fid with
  | none => exact fun _ _ => trivial
  | some cf =>
    have member := List.mem_of_find?_eq_some found
    obtain rfl : cf.fieldId = fid := by simpa using List.find?_some found
    dsimp only
    cases inside : cf.repeatId with
    | none => exact each cf member _ _ (Or.inl ⟨inside, rfl, rfl⟩)
    | some rid =>
      refine Triple.get_bind fun u kept => ?_
      rw [show u.rows rid = r.rows rid from congrArg (·.getD []) (congrFun (rows u kept) rid)]
      refine Triple.mono (Triple.forM fun iid within => ?_) (fun s' same => same ▸ kept) (fun _ _ => id) fun _ _ => id
      exact each cf member _ _ (Or.inr ⟨rid, inside, iid, within, rfl, rfl⟩)

theorem Passing.near {children : List Node} (compiled : compile children = .ok form) (well : WellFormed form s)
    (plain : PlainRows form s) (placed : (s.values answered).isSome) {value : Value}
    (passing : Passing platform form session answered value s u)
    (ran : recalculate (Device.runtime platform) form session (s.setValue answered value) = .ok () u) :
    Near platform form session answered s u := by
  have formed := compile_formed compiled
  have wellR := wellFormed_setValue well placed value
  have still : Drifted platform form session answered (s.setValue answered value) (s.setValue answered value) :=
    ⟨rfl, rfl, rfl, rfl, rfl, fun _ => rfl, wellR, fun _ => Or.inl rfl⟩
  have rows : Triple (· = s.setValue answered value) (recalculate (Device.runtime platform) form session)
      (fun _ => Drifted platform form session answered (s.setValue answered value)) fun _ _ => True := by
    refine Triple.bind (Q := fun _ => (· = s.setValue answered value)) (Triple.forM fun node listed => ?_) fun _ =>
      Triple.bind (Q := fun _ => (· = s.setValue answered value)) (Triple.forM fun node listed => ?_) fun _ => ?_
    · exact Triple.of_ok (resolveRows_quiet passing.quiet listed) rfl
    · exact Triple.of_ok (settleCount_quiet passing.quiet wellR listed) rfl
    · have each := evaluateFields_turns (fun _ => Drifted.instances) fun cf member path scope turn =>
        @evaluateField_drifts _ answered platform session _ formed wellR plain cf member path scope turn
      exact Triple.mono (Triple.forM fun fid _ => each fid) (fun s' same => same ▸ still) (fun _ _ => id) fun _ _ => id
  have drifted := rows.ok rfl ran
  refine ⟨drifted.instances, drifted.rowKeys, drifted.rowLabels, drifted.rowsResolved, drifted.serial, drifted.shapes,
    fun key apart => ?_⟩
  rcases drifted.answers key with same | ⟨cf, member, calculated, turn, left⟩
  · exact Or.inl (same.trans (if_neg apart))
  · by_cases anew : Recomputed form answered cf
    · refine Or.inr ((left anew).moved formed wellR drifted.well plain drifted.instances fun other asked => ?_)
      exact drifted.asked formed asked
    · exact Or.inl (passing.calculates cf member calculated anew key turn apart)

end Passing

end DataCollectionLab.Form
