import Mathlib.Data.List.Count
import DataCollectionLab.Sync.Effects

/-!
The verdicts of `push`: every op of the batch has one, none has two, and what a device may
forget is in the log. An id that occurs twice in a batch is accepted for its second occurrence
whatever the first one meets, so the verdicts are sound only where no refused id is repeated.
-/

namespace DataCollectionLab.Sync

def PushResponse.Refuses (response : PushResponse) (id : String) : Prop :=
  ∃ entry ∈ response.rejected, entry.opId = some id

def Db.Holds (db : Db) (op : SyncOp) : Prop :=
  ∃ row ∈ db.ops.rows, row.id = op.opId ∨ row.slot = op.slot

structure SoundVerdicts (req : PushRequest) (response : PushResponse) (final : Db) : Prop where
  answered : ∀ op, .wellFormed op ∈ req.ops →
    op.opId ∈ response.accepted ∨ response.Refuses op.opId
  single : ∀ id ∈ response.accepted, ¬ response.Refuses id
  named : ∀ id ∈ response.accepted, id ∈ wellFormedIds req.ops
  held : ∀ op, .wellFormed op ∈ req.ops → op.opId ∈ response.accepted → final.Holds op

instance (db : Db) (op : SyncOp) : Decidable (db.Holds op) :=
  inferInstanceAs (Decidable (∃ row ∈ db.ops.rows, row.id = op.opId ∨ row.slot = op.slot))

namespace Call

variable (c : Call)

def Refuses (op : SyncOp) : Prop :=
  (c.judgement op).refusal.isSome = true ∨ (c.cryptoRefusal op).isSome = true ∨ c.TakenBack op

instance : DecidablePred c.Refuses := fun op =>
  inferInstanceAs (Decidable ((c.judgement op).refusal.isSome = true ∨
    (c.cryptoRefusal op).isSome = true ∨ c.TakenBack op))

def RefusedOnce : Prop :=
  ∀ op ∈ c.ops, c.Refuses op → (wellFormedIds c.req.ops).count op.opId = 1

def LeadersStand : Prop :=
  ∀ op ∈ c.ops, c.Passes op → ∀ leader ∈ c.earlier op, c.Leads leader → leader.slot = op.slot →
    (c.indexed leader = some .pkey ∨ c.indexed leader = some .nonce) → c.db.Holds op

/-- No accepted id is repeated with another place in the order, unless the log holds the id or
that place, or an op of the batch stores one of them. -/
def PlacesAgree : Prop :=
  ∀ op ∈ c.ops, ¬ c.Refuses op → ∀ other, .wellFormed other ∈ c.req.ops →
    other.opId = op.opId → other.slot ≠ op.slot →
    c.db.Holds other ∨ c.Stores op ∨ ∃ o ∈ c.ops, c.Stores o ∧ o.slot = other.slot

theorem judgement_replay_iff {op : SyncOp} : c.judgement op = .replay ↔ c.Replayed op :=
  c.judge_eq_replay_iff

theorem not_refuses_iff {op : SyncOp} :
    ¬ c.Refuses op ↔ c.Replayed op ∨ (c.Passes op ∧ ¬ c.TakenBack op) := by
  have passing : c.TakenBack op → c.Passes op := fun back => back.1.1
  have replay : c.judgement op = .replay ↔ c.Replayed op := c.judgement_replay_iff
  unfold Refuses cryptoRefusal
  cases judged : c.judgement op with
  | replay =>
    have replayed : c.Replayed op := replay.mp judged
    have stays : ¬ c.Passes op := fun passes => c.fresh_of_admits passes.1.1 replayed
    simp [Judgement.refusal, Judgement.admits, replayed, mt passing stays]
  | refuse reason =>
    have fresh : ¬ c.Replayed op := fun replayed => by simp [replay.mpr replayed] at judged
    have stays : ¬ c.Passes op := fun passes => by
      have := passes.1.1
      simp [judged, Judgement.admits] at this
    simp [Judgement.refusal, fresh, stays]
  | join =>
    have fresh : ¬ c.Replayed op := fun replayed => by simp [replay.mpr replayed] at judged
    by_cases keyed : c.Keyed op <;> by_cases taken : c.NonceTaken op <;>
      simp [Judgement.refusal, Judgement.admits, fresh, Passes, Candidate, judged, keyed, taken]
  | opens row =>
    have fresh : ¬ c.Replayed op := fun replayed => by simp [replay.mpr replayed] at judged
    by_cases keyed : c.Keyed op <;> by_cases taken : c.NonceTaken op <;>
      simp [Judgement.refusal, Judgement.admits, fresh, Passes, Candidate, judged, keyed, taken]

theorem count_ids {op : SyncOp} (member : op ∈ c.ops) (p : SyncOp → Bool) :
    ((c.ops.filter p).map (·.opId)).count op.opId = if p op then 1 else 0 := by
  have distinct := (List.filter_sublist (p := p) (l := c.ops)).map SyncOp.opId |>.nodup c.ops_nodup
  split
  · rename_i holds
    exact List.count_eq_one_of_mem distinct
      (List.mem_map_of_mem (List.mem_filter.mpr ⟨member, holds⟩))
  · rename_i fails
    refine List.count_eq_zero.mpr fun found => fails ?_
    obtain ⟨o, present, same⟩ := List.mem_map.mp found
    obtain ⟨inBatch, holds⟩ := List.mem_filter.mp present
    obtain rfl := List.inj_on_of_nodup_map c.ops_nodup inBatch member same
    exact holds

theorem mem_accepted_iff {op : SyncOp} (member : op ∈ c.ops) :
    op.opId ∈ c.accepted ↔ ¬ c.Refuses op ∨ 1 < (wellFormedIds c.req.ops).count op.opId := by
  have read := readBatch_accepted_count c.req.ops op.opId
  have once : ((readBatch c.req.ops).ops.map (·.opId)).count op.opId = 1 :=
    List.count_eq_one_of_mem c.ops_nodup (List.mem_map_of_mem member)
  have passing : c.TakenBack op → c.Passes op := fun back => back.1.1
  have apart : c.Passes op → ¬ c.Replayed op := fun passes => c.fresh_of_admits passes.1.1
  rw [c.not_refuses_iff, ← List.count_pos_iff, accepted, List.count_diff, List.count_append,
    List.count_append, c.count_ids member, c.count_ids member, c.count_ids member]
  by_cases replayed : c.Replayed op <;> by_cases passes : c.Passes op <;>
    by_cases back : c.TakenBack op <;>
    simp only [replayed, passes, back, decide_true, decide_false, Bool.false_eq_true, if_true,
      if_false, true_or, false_or, not_true, not_false_iff, and_true, and_false, iff_true] <;>
    first
      | omega
      | exact absurd replayed (apart passes)
      | exact absurd (passing back) passes

theorem judgement_ne_malformed (op : SyncOp) : (c.judgement op).refusal ≠ some .malformed := by
  intro refused
  have ne : c.judgement op ≠ .refuse .malformed := c.judge_ne_malformed _ op
  cases judged : c.judgement op <;> simp_all [Judgement.refusal]

theorem mem_rejected_iff {op : SyncOp} (member : op ∈ c.ops) :
    (∃ entry ∈ c.rejected, entry.opId = some op.opId ∧ entry.reason ≠ .malformed) ↔
      c.Refuses op := by
  have only : ∀ o ∈ c.ops, o.opId = op.opId → o = op := fun o present same =>
    List.inj_on_of_nodup_map c.ops_nodup present member same
  simp only [rejected, List.mem_append, List.mem_filterMap, List.mem_map, List.mem_filter,
    decide_eq_true_eq, Option.map_eq_some_iff, Refuses, Option.isSome_iff_exists]
  constructor
  · rintro ⟨entry, ((read | ⟨o, present, reason, refused, rfl⟩) |
      ⟨o, present, reason, refused, rfl⟩) | ⟨o, ⟨present, back⟩, rfl⟩, same, gate⟩
    · exact absurd (readBatch_malformed read) gate
    · obtain rfl := only o present (Option.some.inj same)
      exact Or.inl ⟨reason, refused⟩
    · obtain rfl := only o present (Option.some.inj same)
      exact Or.inr (Or.inl ⟨reason, refused⟩)
    · obtain rfl := only o present (Option.some.inj same)
      exact Or.inr (Or.inr back)
  · rintro (⟨reason, refused⟩ | ⟨reason, refused⟩ | back)
    · refine ⟨_, Or.inl (Or.inl (Or.inr ⟨op, member, reason, refused, rfl⟩)), rfl, ?_⟩
      exact fun same => c.judgement_ne_malformed op (by rw [refused, ← same])
    · refine ⟨_, Or.inl (Or.inr ⟨op, member, reason, refused, rfl⟩), rfl, ?_⟩
      rintro rfl
      simpa using c.cryptoRefusal_reason refused
    · exact ⟨_, Or.inr ⟨op, ⟨member, back⟩, rfl⟩, rfl, nofun⟩

theorem reason_ne_malformed (allWellFormed : ∀ raw ∈ c.req.ops, ∃ op, raw = .wellFormed op)
    {entry : RejectedOp} (member : entry ∈ c.rejected) : entry.reason ≠ .malformed := by
  simp only [rejected, readBatch_rejected allWellFormed, List.nil_append, List.mem_append,
    List.mem_filterMap, List.mem_map, Option.map_eq_some_iff] at member
  obtain (⟨op, -, reason, refused, rfl⟩ | ⟨op, -, reason, refused, rfl⟩) | ⟨op, -, rfl⟩ := member
  · exact fun same => c.judgement_ne_malformed op (by rw [refused, ← same])
  · rintro rfl
    simpa using c.cryptoRefusal_reason refused
  · nofun

theorem leads_unique {a b : SyncOp} (inBatch : a ∈ c.ops) (inBatch' : b ∈ c.ops)
    (leads : c.Leads a) (leads' : c.Leads b) (same : a.slot = b.slot) : a = b := by
  apply c.first_unique (P := fun o => c.Passes o ∧ o.slot = a.slot) inBatch inBatch'
  · exact ⟨leads.1, rfl⟩
  · exact ⟨leads'.1, same.symm⟩
  · exact fun o before claims => leads.2 o before claims.1 claims.2
  · exact fun o before claims => leads'.2 o before claims.1 (claims.2.trans same)

theorem exists_leader {op : SyncOp} (member : op ∈ c.ops) (passes : c.Passes op)
    (follows : ¬ c.Leads op) : ∃ o ∈ c.earlier op, c.Leads o ∧ o.slot = op.slot := by
  obtain ⟨before, after, split⟩ := List.append_of_mem member
  rw [c.earlier_eq split]
  refine (c.slot_led_iff split op.slot).mp ?_
  by_contra none
  refine follows ⟨passes, fun o present passes' same => none ⟨o, ?_, passes', same⟩⟩
  rwa [c.earlier_eq split] at present

theorem holds_iff {response : PushResponse} {final : Db}
    (returned : push c.pol c.db c.req = .ok (response, final)) (op : SyncOp) :
    final.Holds op ↔ c.db.Holds op ∨
      ∃ o ∈ c.ops, c.Stores o ∧ (o.opId = op.opId ∨ o.slot = op.slot) := by
  constructor
  · rintro ⟨row, member, same⟩
    rcases c.mem_push_log returned member with old | ⟨o, present, stores, n, -, rfl⟩
    · exact Or.inl ⟨row, old, same⟩
    · exact Or.inr ⟨o, present, stores, same⟩
  · rintro (⟨row, old, same⟩ | ⟨o, present, stores, same⟩)
    · exact ⟨row, c.log_grows returned old, same⟩
    · obtain ⟨n, -, stored⟩ := c.exists_row returned present stores
      exact ⟨_, stored, same⟩

theorem accepted_named {id : String} (member : id ∈ c.accepted) : ∃ op ∈ c.ops, op.opId = id := by
  rcases List.mem_append.mp (List.diff_subset _ _ member) with front | passed
  · rcases List.mem_append.mp front with repeated | replayed
    · have read := readBatch_accepted_count c.req.ops id
      have some := List.count_pos_iff.mpr repeated
      exact readBatch_covers (List.count_pos_iff.mp (by omega))
    · obtain ⟨op, present, same⟩ := List.mem_map.mp replayed
      exact ⟨op, (List.mem_filter.mp present).1, same⟩
  · obtain ⟨op, present, same⟩ := List.mem_map.mp passed
    exact ⟨op, (List.mem_filter.mp present).1, same⟩

theorem held_of_accepted {response : PushResponse} {final : Db}
    (returned : push c.pol c.db c.req = .ok (response, final)) (stand : c.LeadersStand)
    {op : SyncOp} (member : op ∈ c.ops) (accepted : ¬ c.Refuses op) : final.Holds op := by
  rw [c.holds_iff returned]
  rcases c.not_refuses_iff.mp accepted with ⟨row, stored, -, same⟩ | ⟨passes, kept⟩
  · exact Or.inl ⟨row, stored, same⟩
  · by_cases leads : c.Leads op
    · cases index : c.indexed op with
      | none => exact Or.inr ⟨op, member, ⟨leads, index⟩, Or.inl rfl⟩
      | some constraint =>
        cases constraint with
        | nonce => exact absurd ⟨leads, index⟩ kept
        | pkey =>
          obtain ⟨row, stored, same⟩ := OpLog.exists_of_pkey index
          exact Or.inl ⟨row, stored, Or.inl same⟩
        | counter =>
          obtain ⟨row, stored, same⟩ := OpLog.exists_of_counter index
          exact Or.inl ⟨row, stored, Or.inr same⟩
    · obtain ⟨leader, before, leads', same⟩ := c.exists_leader member passes leads
      cases index : c.indexed leader with
      | none =>
        exact Or.inr ⟨leader, c.earlier_subset member before, ⟨leads', index⟩, Or.inr same⟩
      | some constraint =>
        cases constraint with
        | pkey => exact Or.inl (stand op member passes leader before leads' same (Or.inl index))
        | nonce => exact Or.inl (stand op member passes leader before leads' same (Or.inr index))
        | counter =>
          obtain ⟨row, stored, equal⟩ := OpLog.exists_of_counter index
          exact Or.inl ⟨row, stored, Or.inr (equal.trans same)⟩

/-- The verdicts of a batch of well-formed ops are sound exactly when no refused id is repeated,
no op follows a leader that the indexes refuse, and repeated ids agree on their slot. -/
theorem push_verdicts_sound_iff {response : PushResponse} {final : Db}
    (allWellFormed : ∀ raw ∈ c.req.ops, ∃ op, raw = .wellFormed op)
    (returned : push c.pol c.db c.req = .ok (response, final)) :
    SoundVerdicts c.req response final ↔ c.RefusedOnce ∧ c.LeadersStand ∧ c.PlacesAgree := by
  obtain ⟨accepts, rejects⟩ := c.push_verdicts returned
  have refuses : ∀ {op}, op ∈ c.ops → (response.Refuses op.opId ↔ c.Refuses op) := by
    intro op member
    rw [PushResponse.Refuses, rejects, ← c.mem_rejected_iff member]
    refine ⟨?_, fun ⟨entry, listed, same, _⟩ => ⟨entry, listed, same⟩⟩
    rintro ⟨entry, listed, same⟩
    exact ⟨entry, listed, same, c.reason_ne_malformed allWellFormed listed⟩
  have first : ∀ {op}, .wellFormed op ∈ c.req.ops → ∃ o ∈ c.ops, o.opId = op.opId :=
    fun member => readBatch_covers (mem_wellFormedIds member)
  constructor
  · intro sound
    refine ⟨?_, ?_, ?_⟩
    · intro op member refused
      have occurs := List.count_pos_iff.mpr (mem_wellFormedIds (readBatch_mem member))
      by_contra repeated
      refine sound.single op.opId ?_ ((refuses member).mpr refused)
      rw [accepts, c.mem_accepted_iff member]
      exact Or.inr (by omega)
    · intro op member passes leader before leads same refused
      have follows : ¬ c.Leads op := fun own => own.2 leader before leads.1 same
      have kept : ¬ c.Refuses op :=
        c.not_refuses_iff.mpr (Or.inr ⟨passes, fun back => follows back.1⟩)
      have held := sound.held op (readBatch_mem member)
        (by rw [accepts, c.mem_accepted_iff member]; exact Or.inl kept)
      rcases (c.holds_iff returned op).mp held with before' | ⟨o, present, stores, equal | equal⟩
      · exact before'
      · obtain rfl := List.inj_on_of_nodup_map c.ops_nodup present member equal
        exact absurd stores.1 follows
      · obtain rfl := c.leads_unique present (c.earlier_subset member before) stores.1 leads
          (equal.trans same.symm)
        rw [stores.2] at refused
        simp at refused
    · intro op member kept other given named apart
      have held := sound.held other given
        (by rw [accepts, named, c.mem_accepted_iff member]; exact Or.inl kept)
      rcases (c.holds_iff returned other).mp held with before | ⟨o, present, stores, equal | equal⟩
      · exact Or.inl before
      · obtain rfl := List.inj_on_of_nodup_map c.ops_nodup present member (equal.trans named)
        exact Or.inr (Or.inl stores)
      · exact Or.inr (Or.inr ⟨o, present, stores, equal⟩)
  · rintro ⟨once, stand, agree⟩
    have accepted_iff : ∀ {op}, op ∈ c.ops → (op.opId ∈ response.accepted ↔ ¬ c.Refuses op) := by
      intro op member
      rw [accepts, c.mem_accepted_iff member, or_iff_left_iff_imp]
      intro repeated refused
      have := once op member refused
      omega
    refine ⟨?_, ?_, ?_, ?_⟩
    · intro op given
      obtain ⟨o, member, same⟩ := first given
      rw [← same, accepted_iff member, refuses member]
      exact (em _).symm
    · intro id member
      obtain ⟨op, present, rfl⟩ := c.accepted_named (accepts ▸ member)
      rw [refuses present]
      exact (accepted_iff present).mp member
    · intro id member
      obtain ⟨op, present, rfl⟩ := c.accepted_named (accepts ▸ member)
      exact mem_wellFormedIds (readBatch_mem present)
    · intro op given member
      obtain ⟨o, present, same⟩ := first given
      rw [← same] at member
      have kept := (accepted_iff present).mp member
      by_cases equal : op.slot = o.slot
      · obtain ⟨row, stored, found⟩ := c.held_of_accepted returned stand present kept
        exact ⟨row, stored, by rwa [same, ← equal] at found⟩
      · rw [c.holds_iff returned]
        rcases agree o present kept op given same.symm equal with before | stores | ⟨a, b, d, e⟩
        · exact Or.inl before
        · exact Or.inr ⟨o, present, stores, Or.inl same⟩
        · exact Or.inr ⟨a, b, d, Or.inr e⟩

theorem answered {response : PushResponse} {final : Db}
    (returned : push c.pol c.db c.req = .ok (response, final)) {op : SyncOp}
    (member : .wellFormed op ∈ c.req.ops) :
    op.opId ∈ response.accepted ∨ response.Refuses op.opId := by
  obtain ⟨accepts, rejects⟩ := c.push_verdicts returned
  obtain ⟨first, inBatch, same⟩ := readBatch_covers (mem_wellFormedIds member)
  rw [PushResponse.Refuses, accepts, rejects, ← same]
  by_cases refused : c.Refuses first
  · obtain ⟨entry, listed, named, -⟩ := (c.mem_rejected_iff inBatch).mpr refused
    exact Or.inr ⟨entry, listed, named⟩
  · exact Or.inl ((c.mem_accepted_iff inBatch).mpr (Or.inl refused))

theorem refuses_malformed {response : PushResponse} {final : Db}
    (returned : push c.pol c.db c.req = .ok (response, final)) {id : String}
    (member : .malformed (some id) ∈ c.req.ops) : response.Refuses id := by
  rw [PushResponse.Refuses, (c.push_verdicts returned).2]
  refine ⟨⟨some id, .malformed⟩, ?_, rfl⟩
  simp only [rejected, List.mem_append]
  exact Or.inl (Or.inl (Or.inl (mem_readBatch_rejected member)))

end Call

def oneForm (devices : List (String × Option String)) : Db where
  projects := AList.singleton "prj" "org"
  environments := [⟨"env", "prj", .production⟩]
  forms := AList.singleton "frm" ⟨"prj", "household"⟩
  formVersions := AList.singleton "ver" ⟨"frm", 1⟩
  devices := devices.foldl
    (fun table entry => table.insert entry.1 { projectId := "prj", userId := entry.2 }) ∅

/-- A finalize from `device` on `submission`, naming this version of the form. -/
def finalizeOp (opId submission device : String) (counter formVersion : Nat) : SyncOp where
  opId := opId
  submissionId := submission
  formId := "household"
  formVersion := formVersion
  kind := .finalize
  deviceId := device
  counter := counter

/-- An answer from `device`, on `submission`. -/
def answerOp (opId submission device : String) (counter : Nat) : SyncOp where
  opId := opId
  submissionId := submission
  formId := "household"
  formVersion := 1
  kind := .set
  path := some "age"
  payload := .plain (.int 7)
  deviceId := device
  counter := counter

/-- A request of `device`, in the session of `person`. -/
def carrying (device person : String) (ops : List SyncOp) : PushRequest where
  deviceId := device
  ops := ops.map .wellFormed
  actorId := some person

def repeatedRefusal : PushRequest where
  deviceId := "d1"
  ops := [.wellFormed (finalizeOp "o1" "s1" "d1" 1 2), .wellFormed (finalizeOp "o1" "s1" "d1" 1 2)]
  actorId := some "u1"

set_option maxRecDepth 10000 in
/-- The repetition of a refused op is accepted, and nothing is stored. -/
theorem repeatedRefusal_unsound : ∃ response final,
    push .unrestricted (oneForm [("d1", some "u1")]) repeatedRefusal = .ok (response, final) ∧
      "o1" ∈ response.accepted ∧ response.Refuses "o1" ∧ final.ops.rows = [] ∧
      ¬ SoundVerdicts repeatedRefusal response final := by
  refine ⟨_, _, rfl, by decide, ⟨_, List.mem_cons_self, rfl⟩, rfl, ?_⟩
  intro sound
  exact sound.single "o1" (by decide) ⟨_, List.mem_cons_self, rfl⟩

def mixedBatch : PushRequest where
  deviceId := "d1"
  ops := [.wellFormed (finalizeOp "o1" "s1" "d1" 1 1), .wellFormed (finalizeOp "o2" "s1" "d1" 2 2)]
  actorId := some "u1"

set_option maxRecDepth 10000 in
theorem mixedBatch_sound : ∃ response final,
    push .unrestricted (oneForm [("d1", some "u1")]) mixedBatch = .ok (response, final) ∧
      SoundVerdicts mixedBatch response final := by
  let c : Call := ⟨.unrestricted, oneForm [("d1", some "u1")], mixedBatch⟩
  refine ⟨_, _, rfl, (c.push_verdicts_sound_iff ?_ rfl).mpr ⟨?_, ?_, ?_⟩⟩
  · intro raw member
    simp only [c, mixedBatch, List.mem_cons, List.not_mem_nil, or_false] at member
    rcases member with rfl | rfl <;> exact ⟨_, rfl⟩
  · unfold Call.RefusedOnce
    decide
  · unfold Call.LeadersStand
    decide
  · have read : c.ops = [finalizeOp "o1" "s1" "d1" 1 1, finalizeOp "o2" "s1" "d1" 2 2] := rfl
    intro op member _ other given same apart
    rw [read] at member
    simp only [c, mixedBatch, List.mem_cons, List.not_mem_nil, or_false,
      RawOp.wellFormed.injEq] at member given
    rcases member with rfl | rfl <;> rcases given with rfl | rfl <;>
      simp [finalizeOp, SyncOp.slot] at same apart

end DataCollectionLab.Sync
