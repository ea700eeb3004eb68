import DataCollectionLab.Sync.Soundness

/-!
Who a stored op is filed under. `_attribute` answers in the admission loop, one op at a time;
the insertion loop writes the answer that loop gave last into every row.
-/

namespace DataCollectionLab.Sync

namespace Call

variable (c : Call)

/-- What `_attribute` answers for this op, if the admission loop gets to ask. -/
def person (op : SyncOp) : Option (Option String) :=
  if c.Replayed op then none
  else
    match c.identify op with
    | .error _ => none
    | .ok (_, person) => some person

/-- The answers of `_attribute`, in the order of the batch. -/
def attributions : List (Option String) := c.ops.filterMap c.person

theorem noted_eq (attributed : Option String) (op : SyncOp) :
    c.noted attributed op = (c.person op).getD attributed := by
  unfold noted person
  split
  · rfl
  · cases c.identify op <;> rfl

theorem lastAttributed_eq : c.lastAttributed = c.attributions.getLast?.getD none := by
  unfold lastAttributed attributions
  induction c.ops using List.reverseRecOn with
  | nil => rfl
  | append_singleton ops op ih =>
    rw [List.foldl_append, ih, List.foldl_cons, List.foldl_nil, noted_eq, List.filterMap_append]
    cases asked : c.person op <;> simp [asked]

theorem person_of_admits {op : SyncOp} (admitted : (c.judgement op).admits = true) :
    ∃ device person, c.pol.device c.db op.deviceId = some device ∧
      attributeOp op device c.req.deviceId c.req.actorId = .ok person ∧
      c.person op = some person := by
  have fresh := c.fresh_of_admits admitted
  cases identity : c.identify op with
  | error reason =>
    simp [judgement, judge, fresh, identity, Judgement.admits] at admitted
  | ok entry =>
    obtain ⟨device, person⟩ := entry
    obtain ⟨found, -, answer⟩ := c.identify_ok_iff.mp identity
    exact ⟨device, person, found, answer, by simp [Call.person, fresh, identity]⟩

theorem getLast_attributions {op : SyncOp} (member : op ∈ c.ops)
    (admitted : (c.judgement op).admits = true) :
    c.attributions.getLast? = some c.lastAttributed := by
  obtain ⟨_, person, -, -, asked⟩ := c.person_of_admits admitted
  have listed : person ∈ c.attributions := List.mem_filterMap.mpr ⟨op, member, asked⟩
  rw [c.lastAttributed_eq, List.getLast?_eq_some_getLast (List.ne_nil_of_mem listed)]
  rfl

/-- Every new row is filed under the person `_attribute` names for that op. -/
def FiledUnderOwn (final : Db) : Prop :=
  ∀ row ∈ final.ops.rows, row ∉ c.db.ops.rows → ∃ op ∈ c.ops, op.opId = row.id ∧
    ∃ device, c.pol.device c.db op.deviceId = some device ∧
      attributeOp op device c.req.deviceId c.req.actorId = .ok row.actorId

/-- The new rows are all filed under the person of their own op exactly when each of those ops
has the same person as the last op of the batch that `_attribute` was asked about. -/
theorem push_filed_under_own_iff {response : PushResponse} {final : Db}
    (returned : push c.pol c.db c.req = .ok (response, final)) :
    c.FiledUnderOwn final ↔
      ∀ op ∈ c.ops, c.Stores op → c.person op = c.attributions.getLast? := by
  have last : ∀ op ∈ c.ops, c.Stores op → c.attributions.getLast? = some c.lastAttributed :=
    fun op member stores => c.getLast_attributions member stores.1.1.1.1
  constructor
  · intro filed op member stores
    obtain ⟨device, person, found, answer, asked⟩ := c.person_of_admits stores.1.1.1.1
    obtain ⟨n, -, stored⟩ := c.exists_row returned member stores
    have fresh : { op.row c.lastAttributed with serverSeq := n } ∉ c.db.ops.rows := by
      intro old
      exact OpLog.violation_eq_none_iff.mp stores.2 _ old (Or.inl rfl)
    obtain ⟨o, present, same, device', found', answer'⟩ := filed _ stored fresh
    obtain rfl := List.inj_on_of_nodup_map c.ops_nodup present member same
    cases found.symm.trans found'
    cases answer.symm.trans answer'
    rw [asked, last o member stores]
    rfl
  · intro agree row member new
    rcases c.mem_push_log returned member with old | ⟨op, present, stores, n, -, rfl⟩
    · exact absurd old new
    · obtain ⟨device, person, found, answer, asked⟩ := c.person_of_admits stores.1.1.1.1
      have equal := agree op present stores
      rw [asked, last op present stores] at equal
      cases equal
      exact ⟨op, present, rfl, device, found, answer⟩

end Call

def relayedBatch : PushRequest where
  deviceId := "d1"
  ops := [.wellFormed (finalizeOp "o1" "s1" "d1" 1 1), .wellFormed (finalizeOp "o2" "s2" "d2" 1 1)]
  actorId := some "u1"

set_option maxRecDepth 10000 in
/-- The pushing person's own op is filed under the person of the relayed device. -/
theorem relayedBatch_misfiled : ∃ response final,
    push .unrestricted (oneForm [("d1", some "u1"), ("d2", some "u2")]) relayedBatch =
        .ok (response, final) ∧
      final.ops.rows.map (fun row => (row.id, row.actorId)) =
        [("o1", some "u2"), ("o2", some "u2")] ∧
      ¬ Call.FiledUnderOwn
        ⟨.unrestricted, oneForm [("d1", some "u1"), ("d2", some "u2")], relayedBatch⟩ final := by
  refine ⟨_, _, rfl, by decide, ?_⟩
  intro filed
  obtain ⟨op, member, same, device, -, answer⟩ := filed _ List.mem_cons_self nofun
  change op ∈ [finalizeOp "o1" "s1" "d1" 1 1, finalizeOp "o2" "s2" "d2" 1 1] at member
  simp only [List.mem_cons, List.not_mem_nil, or_false] at member
  rcases member with rfl | rfl
  · change Except.ok (some "u1") = Except.ok (some "u2") at answer
    simp at answer
  · change "o2" = "o1" at same
    simp at same

set_option maxRecDepth 10000 in
/-- A batch of one person's own device is filed under that person. -/
theorem mixedBatch_filed : ∃ response final,
    push .unrestricted (oneForm [("d1", some "u1")]) mixedBatch = .ok (response, final) ∧
      final.ops.rows.map (fun row => (row.id, row.actorId)) = [("o1", some "u1")] ∧
      Call.FiledUnderOwn ⟨.unrestricted, oneForm [("d1", some "u1")], mixedBatch⟩ final := by
  refine ⟨_, _, rfl, by decide, (Call.push_filed_under_own_iff _ rfl).mpr ?_⟩
  decide

end DataCollectionLab.Sync
