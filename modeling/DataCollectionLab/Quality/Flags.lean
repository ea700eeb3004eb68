import DataCollectionLab.Quality.Rules
import DataCollectionLab.Sync.Soundness

/-!
The open flags of a submission after a push: those of the rules that apply to it now, where any rule does.
-/

namespace DataCollectionLab.Quality

open Lib Sync

section Push

inductive PushError where
  | database (error : DbError)
  /-- An exception that `evaluate_rules` does not catch. -/
  | raised (name : String)

/-- The moments of one push: of each submission's rules, and of the transaction. -/
structure Clock where
  moment : String → Timestamp
  now : Timestamp

variable (engine : Engine) (clock : Clock)

/-- What `evaluate_rules` gives for a submission as it is stored. -/
def World.said (world : World) (id : String) : Except String (List Outcome) :=
  let folded := foldOps (orderedLog world.db.ops.rows id)
  evaluateRules engine folded.data folded.unreadable (world.declaredPaths id) (clock.moment id) (world.rulesFor id)

def checkTouched (pol : Policies) (pushedBy : String) (rows : List SubmissionOp) (world : World) (id : String) :
    Except PushError World :=
  match pol.submission world.db id with
  | none => .ok world
  | some _ => do
    let db ← (foldTouched pol pushedBy rows world.db id).mapError .database
    let folded := foldOps (orderedLog db.ops.rows id)
    (evaluateAndRecord engine { world with db := db } id folded.data folded.unreadable (clock.moment id)
      clock.now).mapError .raised

/-- `store`, with the rules. -/
def storeChecked (c : Call) (world : World) (rows : List SubmissionOp) : Except PushError World := do
  let db := addTombstones world.db (rows.filterMap (tombstoneOf world.db))
  let db ← (registerPendingReferences c.pol db (mediaReferences rows)).mapError .database
  let world ← (touched rows).foldlM (checkTouched engine clock c.pol c.req.deviceId rows) { world with db := db }
  let db ← (notePending c.pol c.req world.db).mapError .database
  let db ← (((firstBy (·.deviceId) rows).map (·.deviceId)).foldlM (noteCounter c.pol c.req.now rows) db).mapError
    .database
  return { world with db := db }

/-- `push`, with the rules. -/
def pushChecked (pol : Policies) (world : World) (req : PushRequest) : Except PushError (PushResponse × World) := do
  let c : Call := ⟨pol, world.db, req⟩
  let intake ← c.intake.mapError .database
  let rows := intake.sift.toInsert
  if rows.all fun row => pol.shows intake.db row.submissionId then
    let inserted := intake.db.ops.insertOps intake.db.nextSeq rows
    let verdicts := inserted.refused.foldl settleRefused (intake.sift.accepted, intake.sift.rejected)
    let world ← storeChecked engine clock c
      { world with db := { intake.db with ops := inserted.log, nextSeq := inserted.nextSeq } }
      (kept rows inserted.refused)
    return ({ accepted := verdicts.1, rejected := verdicts.2, serverCursor := serverCursor pol world.db }, world)
  else throw (.database (.rowSecurity "submission_op"))

def World.Current (world : World) (id : String) : Prop :=
  ∃ outcomes, world.said engine clock id = .ok outcomes ∧
    world.flags.filter (Flag.openOn id) = outcomes.map (Outcome.flag id)

end Push

section Moves

inductive Move where
  | create (ruleId projectId : String) (request : RuleRequest)
  | update (seesProject : String → Bool) (ruleId : String) (request : RuleRequest)
  | push (pol : Policies) (req : PushRequest) (clock : Clock)

variable (engine : Engine)

def World.next (world : World) : Move → World
  | .create ruleId projectId request => (createRule engine world ruleId projectId request).toOption.getD world
  | .update seesProject ruleId request => (updateRule engine world seesProject ruleId request).toOption.getD world
  | .push pol req clock => ((pushChecked engine clock pol world req).toOption.map Prod.snd).getD world

def World.after (world : World) (moves : List Move) : World := moves.foldl (World.next engine) world

end Moves

section Record

theorem record_openOn_self (flags : List Flag) (id : String) (outcomes : List Outcome) (now : Timestamp) :
    (record flags id outcomes now).filter (Flag.openOn id) = outcomes.map (Outcome.flag id) := by
  rw [record, List.filter_append]
  have closed : (flags.map fun flag => if flag.openOn id then { flag with resolvedAt := some now } else flag).filter
      (Flag.openOn id) = [] := by
    rw [List.filter_eq_nil_iff]
    intro flag member
    obtain ⟨old, -, rfl⟩ := List.mem_map.mp member
    split
    · simp [Flag.openOn]
    · assumption
  have fresh : (outcomes.map (Outcome.flag id)).filter (Flag.openOn id) = outcomes.map (Outcome.flag id) := by
    rw [List.filter_eq_self]
    intro flag member
    obtain ⟨outcome, -, rfl⟩ := List.mem_map.mp member
    simp [Flag.openOn, Outcome.flag]
  rw [closed, fresh, List.nil_append]

theorem record_openOn_other (flags : List Flag) {id other : String} (apart : other ≠ id) (outcomes : List Outcome)
    (now : Timestamp) :
    (record flags id outcomes now).filter (Flag.openOn other) = flags.filter (Flag.openOn other) := by
  rw [record, List.filter_append]
  have fresh : (outcomes.map (Outcome.flag id)).filter (Flag.openOn other) = [] := by
    rw [List.filter_eq_nil_iff]
    intro flag member
    obtain ⟨outcome, -, rfl⟩ := List.mem_map.mp member
    simp [Flag.openOn, Outcome.flag, apart.symm]
  rw [fresh, List.append_nil]
  induction flags with
  | nil => rfl
  | cons flag flags ih =>
    rw [List.map_cons]
    by_cases here : flag.openOn id = true
    · have elsewhere : flag.openOn other = false := by
        simp only [Flag.openOn, Bool.and_eq_true, decide_eq_true_eq] at here
        simp [Flag.openOn, here.1, apart.symm]
      rw [if_pos here, List.filter_cons_of_neg (by simp [Flag.openOn]), ih, List.filter_cons_of_neg (by simp [elsewhere])]
    · rw [if_neg here, List.filter_cons, List.filter_cons, ih]

def Lasting (flags flags' : List Flag) : Prop :=
  ∀ (i : Nat) (flag : Flag), flags[i]? = some flag → flag.resolvedAt.isSome = true → flags'[i]? = some flag

theorem Lasting.refl (flags : List Flag) : Lasting flags flags := fun _ _ found _ => found

theorem Lasting.trans {flags flags' flags'' : List Flag} (first : Lasting flags flags') (second : Lasting flags' flags'') :
    Lasting flags flags'' :=
  fun i flag found closed => second i flag (first i flag found closed) closed

theorem lasting_record (flags : List Flag) (id : String) (outcomes : List Outcome) (now : Timestamp) :
    Lasting flags (record flags id outcomes now) := by
  intro i flag found closed
  have shut : flag.openOn id = false := by
    simp [Flag.openOn, Option.isNone_eq_false_iff.mpr closed]
  obtain ⟨inside, -⟩ := List.getElem?_eq_some_iff.mp found
  rw [record, List.getElem?_append_left (by simpa using inside), List.getElem?_map, found, Option.map_some]
  simp [shut]

end Record

section Reading

variable {pol : Policies} {db db' db'' : Db}

structure Reads (db db' : Db) : Prop where
  ops : db'.ops = db.ops
  versions : db'.formVersions = db.formVersions
  footing : ∀ id, (db'.submissions.lookup id).map (fun row => (row.scope, row.formVersionId)) =
    (db.submissions.lookup id).map fun row => (row.scope, row.formVersionId)

theorem Reads.refl (db : Db) : Reads db db := ⟨rfl, rfl, fun _ => rfl⟩

theorem Reads.trans (first : Reads db db') (second : Reads db' db'') : Reads db db'' where
  ops := second.ops.trans first.ops
  versions := second.versions.trans first.versions
  footing id := (second.footing id).trans (first.footing id)

theorem Reads.cases (reads : Reads db db') (id : String) :
    (db.submissions.lookup id = none ∧ db'.submissions.lookup id = none) ∨
      ∃ row row', db.submissions.lookup id = some row ∧ db'.submissions.lookup id = some row' ∧
        row'.scope = row.scope ∧ row'.formVersionId = row.formVersionId := by
  have same := reads.footing id
  cases before : db.submissions.lookup id with
  | none =>
    rw [before] at same
    exact Or.inl ⟨rfl, Option.map_eq_none_iff.mp same⟩
  | some row =>
    rw [before] at same
    obtain ⟨row', after, footing⟩ := Option.map_eq_some_iff.mp same
    simp only [Prod.mk.injEq] at footing
    exact Or.inr ⟨row, row', rfl, after, footing⟩

theorem Reads.shows (reads : Reads db db') (id : String) : pol.shows db' id = pol.shows db id := by
  unfold Policies.shows Policies.submission
  rcases reads.cases id with ⟨before, after⟩ | ⟨row, row', before, after, scope, -⟩
  · rw [before, after]
  · rw [before, after]
    simp only [Option.isSome_filter, Option.any_some, scope]

theorem reads_foldTouched {pushedBy : String} {rows : List SubmissionOp} {id : String}
    (folded : foldTouched pol pushedBy rows db id = .ok db') : Reads db db' := by
  obtain ⟨-, rfl⟩ := (foldTouched_ok_iff pol pushedBy rows db id db').mp folded
  have frame := refold_frame pol pushedBy rows db id
  refine ⟨by rw [frame], by rw [frame], fun other => ?_⟩
  rw [lookup_refold, Option.map_map]
  congr 1
  funext row
  simp only [Function.comp_apply]
  split
  · exact Prod.ext (applyFolded_scope row _) (applyFolded_formVersionId row _)
  · rfl

theorem reads_updateDevice {change : Device → Device} {id : String} (updated : updateDevice pol change db id = .ok db') :
    Reads db db' := by
  obtain ⟨-, rfl⟩ := (updateDevice_ok_iff pol change db id db').mp updated
  rw [alterDevice_frame]
  exact ⟨rfl, rfl, fun _ => rfl⟩

theorem reads_notePending {req : PushRequest} (noted : notePending pol req db = .ok db') : Reads db db' := by
  unfold notePending at noted
  split at noted
  · cases noted
    exact Reads.refl _
  · exact reads_updateDevice noted

theorem reads_noteCounters {now : Timestamp} {rows : List SubmissionOp} {ids : List String}
    (noted : ids.foldlM (noteCounter pol now rows) db = .ok db') : Reads db db' :=
  foldlM_invariant (Reads db) (fun _ _ _ _ reads step => reads.trans (reads_updateDevice step)) (Reads.refl db) noted

end Reading

section Worlds

variable {engine : Engine} {clock : Clock} {world world' world'' : World}

/-- Nothing that the rules of a submission are found by, or evaluated on, differs. -/
structure World.Reads (world world' : World) : Prop where
  db : Quality.Reads world.db world'.db
  irs : world'.irs = world.irs
  rules : world'.rules = world.rules

theorem World.Reads.trans (first : World.Reads world world') (second : World.Reads world' world'') :
    World.Reads world world'' :=
  ⟨first.db.trans second.db, second.irs.trans first.irs, second.rules.trans first.rules⟩

theorem World.Reads.rulesFor (reads : World.Reads world world') (id : String) :
    world'.rulesFor id = world.rulesFor id := by
  unfold World.rulesFor
  rw [reads.rules, reads.db.versions]
  rcases reads.db.cases id with ⟨before, after⟩ | ⟨row, row', before, after, scope, version⟩
  · rw [before, after]
  · have project : row'.projectId = row.projectId := congrArg Scope.projectId scope
    rw [before, after]
    dsimp only
    rw [version, project]

theorem World.Reads.declaredPaths (reads : World.Reads world world') (id : String) :
    world'.declaredPaths id = world.declaredPaths id := by
  unfold World.declaredPaths
  rw [reads.irs]
  rcases reads.db.cases id with ⟨before, after⟩ | ⟨row, row', before, after, -, version⟩
  · rw [before, after]
  · rw [before, after, Option.bind_some, Option.bind_some, version]

theorem World.Reads.said (reads : World.Reads world world') (id : String) :
    world'.said engine clock id = world.said engine clock id := by
  unfold World.said
  rw [reads.rulesFor, reads.declaredPaths, reads.db.ops]

/-- What `evaluate_and_record` leaves open of a submission, as the world stood. -/
def World.Leaves (engine : Engine) (clock : Clock) (world : World) (id : String) (flags : List Flag) : Prop :=
  (world.rulesFor id = [] ∧ flags.filter (Flag.openOn id) = world.flags.filter (Flag.openOn id)) ∨
    (world.rulesFor id ≠ [] ∧ ∃ outcomes, world.said engine clock id = .ok outcomes ∧
      flags.filter (Flag.openOn id) = outcomes.map (Outcome.flag id))

theorem evaluateAndRecord_ok {id : String} {moment now : Timestamp} {values : Dict Json} {unreadable : Dict String}
    (done : evaluateAndRecord engine world id values unreadable moment now = .ok world') :
    (world.rulesFor id = [] ∧ world' = world) ∨
      (world.rulesFor id ≠ [] ∧ ∃ outcomes,
        evaluateRules engine values unreadable (world.declaredPaths id) moment (world.rulesFor id) = .ok outcomes ∧
        world' = { world with flags := record world.flags id outcomes now }) := by
  unfold evaluateAndRecord at done
  split at done
  · rename_i none
    cases done
    exact Or.inl ⟨none, rfl⟩
  · rename_i some_
    obtain ⟨outcomes, said, written⟩ := bind_ok_iff.mp done
    cases written
    exact Or.inr ⟨some_, outcomes, said, rfl⟩

theorem mapError_ok_iff {ε ε' α : Type} {f : ε → ε'} {x : Except ε α} {a : α} : x.mapError f = .ok a ↔ x = .ok a := by
  cases x <;> simp [Except.mapError]

variable {pol : Policies} {pushedBy : String} {rows : List SubmissionOp}

theorem checkTouched_ok {id : String} (done : checkTouched engine clock pol pushedBy rows world id = .ok world') :
    foldTouched pol pushedBy rows world.db id = .ok world'.db ∧ World.Reads world world' ∧
      Lasting world.flags world'.flags ∧
      (pol.shows world.db id = true → world.Leaves engine clock id world'.flags) ∧
      ∀ other, other ≠ id → world'.flags.filter (Flag.openOn other) = world.flags.filter (Flag.openOn other) := by
  unfold checkTouched at done
  split at done
  · rename_i hidden
    cases done
    refine ⟨?_, ⟨Reads.refl _, rfl, rfl⟩, Lasting.refl _, fun shown => ?_, fun _ _ => rfl⟩
    · simp only [foldTouched, hidden]
    · simp [Policies.shows, hidden] at shown
  · obtain ⟨db, folded, done⟩ := bind_ok_iff.mp done
    rw [mapError_ok_iff] at folded done
    have reads : World.Reads world { world with db := db } := ⟨reads_foldTouched folded, rfl, rfl⟩
    rcases evaluateAndRecord_ok done with ⟨none, rfl⟩ | ⟨some_, outcomes, said, rfl⟩
    · rw [reads.rulesFor] at none
      exact ⟨folded, reads, Lasting.refl _, fun _ => Or.inl ⟨none, rfl⟩, fun _ _ => rfl⟩
    · rw [reads.rulesFor] at some_
      refine ⟨folded, ⟨reads.db, rfl, rfl⟩, lasting_record _ _ _ _, fun _ => Or.inr ⟨some_, outcomes, ?_, ?_⟩, ?_⟩
      · rw [← reads.said]
        exact said
      · exact record_openOn_self _ _ _ _
      · exact fun other apart => record_openOn_other _ apart _ _

theorem checkTouched_all {ids : List String} (distinct : ids.Nodup)
    (done : ids.foldlM (checkTouched engine clock pol pushedBy rows) world = .ok world') :
    ids.foldlM (foldTouched pol pushedBy rows) world.db = .ok world'.db ∧ World.Reads world world' ∧
      Lasting world.flags world'.flags ∧
      (∀ id ∈ ids, pol.shows world.db id = true → world.Leaves engine clock id world'.flags) ∧
      ∀ id ∉ ids, world'.flags.filter (Flag.openOn id) = world.flags.filter (Flag.openOn id) := by
  induction ids generalizing world with
  | nil =>
    cases done
    exact ⟨rfl, ⟨Reads.refl _, rfl, rfl⟩, Lasting.refl _, by simp, fun _ _ => rfl⟩
  | cons first ids ih =>
    obtain ⟨fresh, distinct⟩ := List.nodup_cons.mp distinct
    obtain ⟨middle, step, rest⟩ := foldlM_cons_ok_iff.mp done
    obtain ⟨folded, reads, lasting, leaves, still⟩ := checkTouched_ok step
    obtain ⟨foldedAll, readsAll, lastingAll, leavesAll, stillAll⟩ := ih distinct rest
    refine ⟨foldlM_cons_ok_iff.mpr ⟨_, folded, foldedAll⟩, reads.trans readsAll, lasting.trans lastingAll, ?_, ?_⟩
    · intro id member shown
      rcases List.mem_cons.mp member with rfl | later
      · have own := leaves shown
        unfold World.Leaves at own ⊢
        rwa [stillAll id fresh]
      · have apart : id ≠ first := fun same => fresh (same ▸ later)
        have own := leavesAll id later (by rw [reads.db.shows, shown])
        unfold World.Leaves at own ⊢
        rwa [reads.rulesFor, reads.said, still id apart] at own
    · intro id outside
      rw [stillAll id fun later => outside (List.mem_cons_of_mem _ later)]
      exact still id fun same => outside (same ▸ List.mem_cons_self)

theorem storeChecked_ok {c : Call} (done : storeChecked engine clock c world rows = .ok world') :
    c.store world.db rows = .ok world'.db ∧ World.Reads world world' ∧ Lasting world.flags world'.flags ∧
      (∀ id ∈ touched rows, c.pol.shows world.db id = true → world.Leaves engine clock id world'.flags) ∧
      ∀ id ∉ touched rows, world'.flags.filter (Flag.openOn id) = world.flags.filter (Flag.openOn id) := by
  unfold storeChecked at done
  obtain ⟨annotated, referenced, done⟩ := bind_ok_iff.mp done
  obtain ⟨folded, checked, done⟩ := bind_ok_iff.mp done
  obtain ⟨pending, noted, done⟩ := bind_ok_iff.mp done
  obtain ⟨counted, counters, done⟩ := bind_ok_iff.mp done
  cases done
  rw [mapError_ok_iff] at referenced noted counters
  obtain ⟨all, reads, lasting, leaves, still⟩ := checkTouched_all (touched_nodup rows) checked
  have before : World.Reads world { world with db := annotated } := by
    obtain ⟨-, rfl⟩ := (registerPendingReferences_ok_iff c.pol).mp referenced
    rw [noteReferences_frame]
    exact ⟨⟨rfl, rfl, fun _ => rfl⟩, rfl, rfl⟩
  have after : World.Reads folded { folded with db := counted } :=
    ⟨(reads_notePending noted).trans (reads_noteCounters counters), rfl, rfl⟩
  refine ⟨?_, (before.trans reads).trans after, lasting, fun id member shown => ?_, still⟩
  · unfold Call.store
    simp only [bind_ok_iff]
    exact ⟨_, referenced, _, all, _, noted, counters⟩
  · have own := leaves id member (by rw [before.db.shows, shown])
    unfold World.Leaves at own ⊢
    rwa [before.rulesFor, before.said] at own

end Worlds

section Pushed

variable {engine : Engine} {clock : Clock} {pol : Policies} {world final : World} {req : PushRequest}
  {response : PushResponse}

/-- The call that `push` makes. -/
def World.call (world : World) (pol : Policies) (req : PushRequest) : Call := ⟨pol, world.db, req⟩

theorem pushChecked_ok (done : pushChecked engine clock pol world req = .ok (response, final)) :
    push pol world.db req = .ok (response, final.db) ∧
      ∃ keyed, (world.call pol req).keys.added.foldlM insertKey
          ((world.call pol req).dbAfter (world.call pol req).ops) = .ok keyed ∧
        storeChecked engine clock (world.call pol req) { world with db := (world.call pol req).inserted keyed }
          (world.call pol req).stored = .ok final := by
  obtain ⟨intake, taken, done⟩ := bind_ok_iff.mp done
  rw [mapError_ok_iff] at taken
  obtain ⟨-, keyed, flushed, rfl⟩ := Call.intake_ok_iff _ |>.mp taken
  have numbers : keyed.ops.insertOps keyed.nextSeq (world.call pol req).rows = (world.call pol req).logged := by
    rw [insertKeys_frame flushed, Call.dbAfter_frame]
    rfl
  dsimp only at done
  split at done
  · rename_i shown
    obtain ⟨stored, checked, done⟩ := bind_ok_iff.mp done
    cases done
    refine ⟨bind_ok_iff.mpr ⟨_, taken, ?_⟩, keyed, flushed, ?_⟩
    · rw [if_pos shown]
      exact bind_ok_iff.mpr ⟨_, (storeChecked_ok checked).1, rfl⟩
    · change storeChecked engine clock _ { world with
        db := { keyed with
          ops := (keyed.ops.insertOps keyed.nextSeq (world.call pol req).rows).log
          nextSeq := (keyed.ops.insertOps keyed.nextSeq (world.call pol req).rows).nextSeq } }
        (kept (world.call pol req).rows
          (keyed.ops.insertOps keyed.nextSeq (world.call pol req).rows).refused) = .ok final at checked
      rw [numbers, Call.kept_rows] at checked
      exact checked
  · cases done

theorem pushChecked_lasting (done : pushChecked engine clock pol world req = .ok (response, final)) :
    Lasting world.flags final.flags := by
  obtain ⟨-, _, -, checked⟩ := pushChecked_ok done
  exact (storeChecked_ok checked).2.2.1

theorem pushChecked_rulesFor (done : pushChecked engine clock pol world req = .ok (response, final)) {id : String}
    {row : Submission} (found : world.db.submissions.lookup id = some row) : final.rulesFor id = world.rulesFor id := by
  obtain ⟨pushed, keyed, flushed, checked⟩ := pushChecked_ok done
  have free := ((world.call pol req).push_ok_iff.mp pushed).1
  have split : (world.call pol req).ops = [] ++ ((world.call pol req).ops ++ []) := by simp
  have present := (world.call pol req).lookup_dbAfter split free found
  rw [List.nil_append] at present
  rw [(storeChecked_ok checked).2.1.rulesFor]
  unfold World.rulesFor
  rw [(world.call pol req).inserted_frame flushed]
  dsimp only
  rw [present, found]
  rfl

theorem pushChecked_still (done : pushChecked engine clock pol world req = .ok (response, final)) (id : String) :
    final.flags.filter (Flag.openOn id) = world.flags.filter (Flag.openOn id) ∨
      (final.db.submissions.lookup id).isSome = true := by
  obtain ⟨pushed, keyed, -, checked⟩ := pushChecked_ok done
  by_cases hit : id ∈ touched (world.call pol req).stored
  · obtain ⟨op, inBatch, stores, rfl⟩ := (world.call pol req).mem_touched_stored.mp hit
    exact Or.inr ((world.call pol req).push_owns pushed inBatch stores)
  · exact Or.inl ((storeChecked_ok checked).2.2.2.2 id hit)

theorem pushChecked_leaves (done : pushChecked engine clock pol world req = .ok (response, final)) :
    ∀ row ∈ final.db.ops.rows, row ∉ world.db.ops.rows →
      (final.rulesFor row.submissionId = [] ∧
        final.flags.filter (Flag.openOn row.submissionId) = world.flags.filter (Flag.openOn row.submissionId)) ∨
      (final.rulesFor row.submissionId ≠ [] ∧ final.Current engine clock row.submissionId) := by
  obtain ⟨pushed, keyed, flushed, checked⟩ := pushChecked_ok done
  obtain ⟨-, reads, -, leaves, -⟩ := storeChecked_ok checked
  intro row member fresh
  rcases (world.call pol req).mem_push_log pushed member with old | ⟨op, inBatch, stores, n, -, rfl⟩
  · exact absurd old fresh
  · have hit : op.submissionId ∈ touched (world.call pol req).stored :=
      (world.call pol req).mem_touched_stored.mpr ⟨op, inBatch, stores, rfl⟩
    have shown : pol.shows ((world.call pol req).inserted keyed) op.submissionId = true := by
      have free := ((world.call pol req).push_ok_iff.mp pushed).1
      have := (world.call pol req).shown_of_admits free inBatch stores.1.1.1.1
      rw [(world.call pol req).inserted_frame flushed]
      exact this
    have own := leaves _ hit shown
    unfold World.Leaves at own
    rw [← reads.rulesFor, ← reads.said] at own
    exact own

theorem current_of_ruleless {id : String} (none : world.rulesFor id = []) :
    world.Current engine clock id ↔ world.flags.filter (Flag.openOn id) = [] := by
  have said : world.said engine clock id = .ok [] := by
    unfold World.said
    rw [none]
    rfl
  unfold World.Current
  rw [said]
  constructor
  · rintro ⟨outcomes, same, flags⟩
    cases same
    exact flags
  · exact fun flags => ⟨[], rfl, flags⟩

end Pushed

section Runs

variable {engine : Engine}

def World.Flagged (world : World) : Prop :=
  ∀ id, world.flags.filter (Flag.openOn id) ≠ [] → (world.db.submissions.lookup id).isSome = true

theorem createRule_frame {world world' : World} {ruleId projectId : String} {request : RuleRequest}
    (done : createRule engine world ruleId projectId request = .ok world') :
    world'.db = world.db ∧ world'.flags = world.flags := by
  unfold createRule at done
  split at done
  · cases done
  · cases done
    exact ⟨rfl, rfl⟩

theorem updateRule_frame {world world' : World} {seesProject : String → Bool} {ruleId : String} {request : RuleRequest}
    (done : updateRule engine world seesProject ruleId request = .ok world') :
    world'.db = world.db ∧ world'.flags = world.flags := by
  unfold updateRule at done
  split at done
  · cases done
  · split at done
    · cases done
      exact ⟨rfl, rfl⟩
    · cases done

theorem next_cases (world : World) (move : Move) :
    ((world.next engine move).db = world.db ∧ (world.next engine move).flags = world.flags) ∨
      ∃ pol req clock response, pushChecked engine clock pol world req = .ok (response, world.next engine move) := by
  cases move with
  | create ruleId projectId request =>
    cases done : createRule engine world ruleId projectId request with
    | error refusal => exact Or.inl (by simp [World.next, done, Except.toOption])
    | ok world' => exact Or.inl (by simpa [World.next, done, Except.toOption] using createRule_frame done)
  | update seesProject ruleId request =>
    cases done : updateRule engine world seesProject ruleId request with
    | error refusal => exact Or.inl (by simp [World.next, done, Except.toOption])
    | ok world' => exact Or.inl (by simpa [World.next, done, Except.toOption] using updateRule_frame done)
  | push pol req clock =>
    cases done : pushChecked engine clock pol world req with
    | error error => exact Or.inl (by simp [World.next, done, Except.toOption])
    | ok result => exact Or.inr ⟨pol, req, clock, result.1, by simp [World.next, done, Except.toOption]⟩

theorem next_flagged {world : World} (flagged : world.Flagged) (move : Move) : (world.next engine move).Flagged := by
  rcases @next_cases engine world move with ⟨db, flags⟩ | ⟨pol, req, clock, response, done⟩
  · unfold World.Flagged
    rw [db, flags]
    exact flagged
  · intro id some_
    rcases pushChecked_still done id with same | there
    · rw [same] at some_
      obtain ⟨row, found⟩ := Option.isSome_iff_exists.mp (flagged id some_)
      rw [(world.call pol req).push_lookup (pushChecked_ok done).1 found]
      rfl
    · exact there

theorem next_lasting (world : World) (move : Move) : Lasting world.flags (world.next engine move).flags := by
  rcases @next_cases engine world move with ⟨-, flags⟩ | ⟨pol, req, clock, response, done⟩
  · rw [flags]
    exact Lasting.refl _
  · exact pushChecked_lasting done

theorem after_flagged {world : World} (flagged : world.Flagged) (moves : List Move) :
    (world.after engine moves).Flagged := by
  induction moves generalizing world with
  | nil => exact flagged
  | cons move moves ih => exact ih (next_flagged flagged move)

theorem after_lasting (world : World) (moves : List Move) : Lasting world.flags (world.after engine moves).flags := by
  induction moves generalizing world with
  | nil => exact Lasting.refl _
  | cons move moves ih => exact (next_lasting world move).trans (ih _)

/-- In every run a push leaves the open flags of a submission that it stores an op of as the rules then say, exactly
if a rule applies to it or it has no open flag; and a resolved flag stays. -/
theorem flags_current (engine : Engine) {start : World} (flagged : start.Flagged) (before : List Move) :
    (∀ pol req clock response final,
      pushChecked engine clock pol (start.after engine before) req = .ok (response, final) →
      ∀ row ∈ final.db.ops.rows, row ∉ (start.after engine before).db.ops.rows →
        (final.Current engine clock row.submissionId ↔
          (start.after engine before).rulesFor row.submissionId ≠ [] ∨
            (start.after engine before).flags.filter (Flag.openOn row.submissionId) = [])) ∧
      ∀ between, Lasting (start.after engine before).flags (start.after engine (before ++ between)).flags := by
  refine ⟨fun pol req clock response final done row member fresh => ?_, fun between => ?_⟩
  · have leaves := pushChecked_leaves done row member fresh
    cases found : (start.after engine before).db.submissions.lookup row.submissionId with
    | none =>
      have quiet : (start.after engine before).flags.filter (Flag.openOn row.submissionId) = [] := by
        by_contra some_
        have there := after_flagged flagged before _ some_
        rw [found] at there
        cases there
      refine ⟨fun _ => Or.inr quiet, fun _ => ?_⟩
      rcases leaves with ⟨none, still⟩ | ⟨-, current⟩
      · exact (current_of_ruleless none).mpr (still.trans quiet)
      · exact current
    | some submission =>
      rw [← pushChecked_rulesFor done found]
      rcases leaves with ⟨none, still⟩ | ⟨some_, current⟩
      · rw [current_of_ruleless none, still]
        simp [none]
      · simp [some_, current]
  · rw [World.after, World.after, List.foldl_append]
    exact after_lasting _ between

end Runs

section Disabled

def literals : Engine where
  evaluate definition _ _ :=
    match definition with
    | .obj fields =>
      match fields.lookup "value" with
      | some (.bool false) => .ok .fails
      | _ => .ok .holds
    | _ => .ok .holds
  refuses _ := none

def server : World where
  db := oneForm [("d1", some "u1")]
  irs := ∅
  rules := []
  flags := []

def never (enabled : Bool) : RuleRequest where
  name := "never"
  definition := .obj [("op", .str "lit"), ("value", .bool false)]
  enabled := enabled

def answering (opId : String) (counter : Nat) : PushRequest := carrying "d1" "u1" [answerOp opId "s1" "d1" counter]

def switchedOff : List Move :=
  [.create "r1" "prj" (never true), .push .unrestricted (answering "o1" 1) ⟨fun _ => 0, 0⟩,
    .update (fun _ => true) "r1" (never false)]

theorem server_flagged : server.Flagged := by
  intro id some_
  exact absurd rfl some_

set_option maxRecDepth 10000 in
/-- While the rule is on, a push leaves its flag. -/
theorem enabled_current : ∃ response final,
    pushChecked literals ⟨fun _ => 0, 0⟩ .unrestricted (server.after literals [.create "r1" "prj" (never true)])
      (answering "o1" 1) = .ok (response, final) ∧ final.Current literals ⟨fun _ => 0, 0⟩ "s1" := by
  refine ⟨_, _, rfl, ?_⟩
  have settled := (flags_current literals server_flagged [.create "r1" "prj" (never true)]).1 .unrestricted
    (answering "o1" 1) ⟨fun _ => 0, 0⟩ _ _ rfl
  exact (settled _ List.mem_cons_self List.not_mem_nil).mpr (Or.inr rfl)

set_option maxRecDepth 10000 in
/-- Once it is off, the next push leaves the flag it raised before. -/
theorem switchedOff_stale : ∃ response final,
    pushChecked literals ⟨fun _ => 0, 0⟩ .unrestricted (server.after literals switchedOff) (answering "o2" 2) =
      .ok (response, final) ∧
    (∃ row ∈ final.db.ops.rows, row ∉ (server.after literals switchedOff).db.ops.rows ∧ row.submissionId = "s1") ∧
    ¬ final.Current literals ⟨fun _ => 0, 0⟩ "s1" := by
  refine ⟨_, _, rfl, ?_, ?_⟩
  · refine ⟨_, List.mem_cons_of_mem _ List.mem_cons_self, fun old => ?_, rfl⟩
    exact absurd (congrArg SubmissionOp.id (List.mem_singleton.mp old)) (by decide)
  · rw [current_of_ruleless rfl]
    intro none
    cases none

end Disabled

end DataCollectionLab.Quality
