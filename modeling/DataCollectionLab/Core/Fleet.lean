import DataCollectionLab.Core.Confidential
import DataCollectionLab.Sync.ContentKeys

/-!
Devices that encrypt and a server that stores, over every run of the one and every sequence of pushes to the
other: a nonce is used for one value, a key stays as it was stored, and an encrypted op stands under a key of
its own submission.
-/

namespace DataCollectionLab.Core

open Lib

theorem nonceMaterial_injective {a b : String × Nat} (left : a.2 < 2 ^ 64) (right : b.2 < 2 ^ 64)
    (same : nonceMaterial a.1 a.2 = nonceMaterial b.1 b.2) : a = b := by
  unfold nonceMaterial at same
  obtain ⟨front, back⟩ := List.append_inj' same (by simp [bigEndian])
  exact Prod.ext (utf8_injective (List.append_cancel_left front)) (bigEndian_injective left right back)

/-- The counters of the ops are `Long`s, and the truncated hashes of different places differ. -/
structure Uncollided (prim : Primitives) (slots : List (String × Nat)) : Prop where
  fits : ∀ slot ∈ slots, slot.2 < 2 ^ 63
  hashed : ∀ a ∈ slots, ∀ b ∈ slots, opNonce prim a.1 a.2 = opNonce prim b.1 b.2 →
    nonceMaterial a.1 a.2 = nonceMaterial b.1 b.2

theorem Uncollided.eq_of_nonce {prim : Primitives} {slots : List (String × Nat)} (uncollided : Uncollided prim slots)
    {a b : String × Nat} (left : a ∈ slots) (right : b ∈ slots)
    (same : opNonce prim a.1 a.2 = opNonce prim b.1 b.2) : a = b := by
  have small := uncollided.fits a left
  have small' := uncollided.fits b right
  exact nonceMaterial_injective (by omega) (by omega) (uncollided.hashed a left b right same)

/-! ### What a device encrypts -/

def SealedRow (prim : Primitives) (store : SubmissionStore) (sealing : Sealing) : Prop :=
  ∃ row ∈ store.outbox.rows, sealing.nonce = opNonce prim row.deviceId row.counter ∧
    sealing.value = row.valueJson.getD .null

theorem SealedRow.kept {prim : Primitives} {store store' : SubmissionStore} {sealing : Sealing} (kept : Kept store store')
    (sealedRow : SealedRow prim store sealing) : SealedRow prim store' sealing := by
  obtain ⟨row, stored, nonce, value⟩ := sealedRow
  obtain ⟨row', stored', same⟩ := kept row stored
  have slot : row'.deviceId = row.deviceId ∧ row'.counter = row.counter := Prod.ext_iff.mp same.2.1
  exact ⟨row', stored', by rw [nonce, slot.1, slot.2], by rw [value, same.2.2.2.2.2]⟩

namespace SyncDevice

variable {prim : Primitives} {config : SyncConfig} {device device' : SyncDevice}

theorem offer_sealings (sensitivity : FormSensitivity) (draws : String → Draw) :
    Kept device.db.store (device.offer prim config sensitivity draws).db.store ∧
      ∀ sealing ∈ (device.offer prim config sensitivity draws).db.sealings,
        sealing ∈ device.db.sealings ∨ SealedRow prim device.db.store sealing := by
  have spec := @prepare_triple prim sensitivity draws device.db
    (device.db.store.pendingOps config.batchSize) device.db rfl
  have told : ∀ db, Extends prim (device.db.store.pendingOps config.batchSize) device.db db →
      Kept device.db.store db.store ∧ ∀ sealing ∈ db.sealings,
        sealing ∈ device.db.sealings ∨ SealedRow prim device.db.store sealing := by
    intro db extended
    refine ⟨extended.kept, fun sealing member => (extended.sealings sealing member).imp_right ?_⟩
    rintro ⟨op, offered, nonce, value⟩
    obtain ⟨row, stored, -, same⟩ := SubmissionStore.exists_of_mem_pendingOps offered
    have slot : op.deviceId = row.deviceId ∧ op.counter = row.counter := Prod.ext_iff.mp same.2.1
    exact ⟨row, stored, by rw [nonce, slot.1, slot.2], by rw [value, same.2.2.2.2.2]⟩
  unfold offer
  simp only
  split
  · exact ⟨Kept.of_rows rfl, fun _ => Or.inl⟩
  · split
    · rename_i failed
      rw [failed] at spec
      exact told _ spec
    · rename_i done
      rw [done] at spec
      exact told _ spec.1

theorem step_sealings {act : SyncAct} (stepped : device.step prim config act = some device') :
    Kept device.db.store device'.db.store ∧ ∀ sealing ∈ device'.db.sealings,
      sealing ∈ device.db.sealings ∨ SealedRow prim device.db.store sealing := by
  cases act with
  | createDraft id formId formVersion caseId now =>
    obtain ⟨store, made, rfl⟩ := Option.map_eq_some_iff.mp stepped
    refine ⟨Kept.of_rows ?_, fun _ => Or.inl⟩
    unfold SubmissionStore.createDraft at made
    split at made <;> cases made
    rfl
  | record opId submissionId formId formVersion entry now =>
    obtain ⟨store, made, rfl⟩ := Option.map_eq_some_iff.mp stepped
    exact ⟨Kept.of_append (SubmissionStore.append_rows made), fun _ => Or.inl⟩
  | startPass fetches =>
    simp only [step, Option.ite_none_right_eq_some, Option.some.injEq] at stepped
    obtain ⟨-, rfl⟩ := stepped
    unfold startPass
    split
    · exact ⟨Kept.of_rows rfl, fun _ => Or.inl⟩
    · exact ⟨Kept.of_map rfl SyncOp.requeue_same, fun _ => Or.inl⟩
  | offer sensitivity draws =>
    simp only [step, Option.ite_none_right_eq_some, Option.some.injEq] at stepped
    obtain ⟨-, rfl⟩ := stepped
    exact offer_sealings sensitivity draws
  | resend =>
    simp only [step, Option.ite_none_right_eq_some, Option.some.injEq] at stepped
    obtain ⟨-, rfl⟩ := stepped
    exact ⟨Kept.of_rows rfl, fun _ => Or.inl⟩
  | receive response =>
    simp only [step, Option.ite_none_right_eq_some, Option.some.injEq] at stepped
    obtain ⟨-, rfl⟩ := stepped
    exact ⟨Kept.of_map (SubmissionStore.markPushResult_rows _ _ _) (SyncOp.marked_same _ _), fun _ => Or.inl⟩
  | receivePage ops nextCursor hasMore =>
    simp only [step, Option.ite_none_right_eq_some, Option.some.injEq] at stepped
    obtain ⟨-, rfl⟩ := stepped
    obtain ⟨new, rows, -⟩ := applyPullBatch_rows device.db.store ops nextCursor
    exact ⟨Kept.of_append rows, fun _ => Or.inl⟩
  | abort =>
    cases stepped
    exact ⟨Kept.of_rows rfl, fun _ => Or.inl⟩

def SealsRows (prim : Primitives) (device : SyncDevice) : Prop :=
  ∀ sealing ∈ device.db.sealings, SealedRow prim device.db.store sealing

theorem sealsRows_step {act : SyncAct} (stepped : device.step prim config act = some device')
    (seals : device.SealsRows prim) : device'.SealsRows prim := by
  obtain ⟨kept, sealings⟩ := step_sealings stepped
  intro sealing member
  rcases sealings sealing member with old | new
  · exact (seals sealing old).kept kept
  · exact new.kept kept

theorem SealsRows.one_value (seals : device.SealsRows prim)
    (uncollided : Uncollided prim (device.db.store.outbox.rows.map (·.slot))) {s t : Sealing}
    (left : s ∈ device.db.sealings) (right : t ∈ device.db.sealings) (same : s.nonce = t.nonce) :
    s.value = t.value := by
  obtain ⟨a, stored, nonce, value⟩ := seals s left
  obtain ⟨b, stored', nonce', value'⟩ := seals t right
  have slots : a.slot = b.slot := uncollided.eq_of_nonce (List.mem_map_of_mem stored) (List.mem_map_of_mem stored')
    (nonce.symm.trans (same.trans nonce'))
  have symm : Std.Symm fun a b : SyncOp => ¬ a.Clash b :=
    ⟨fun a b apart clash => apart (clash.imp Eq.symm Eq.symm)⟩
  obtain rfl : a = b := by
    by_contra differ
    exact device.db.store.outbox.unique.forall stored stored' differ (Or.inr slots)
  exact value.trans value'.symm

end SyncDevice

/-! ### Devices and the server -/

structure Fleet where
  devices : List SyncDevice
  server : Sync.Db

inductive FleetAct where
  | device (n : Nat) (act : SyncAct)
  /-- Any request that reaches `push`: a device's, one sent before, one made up. -/
  | push (pol : Sync.Policies) (req : Sync.PushRequest)
  /-- Whatever else happens on the server: nothing but `push` writes the op log and the keys. -/
  | elsewhere (change : Sync.Db → Sync.Db) (leaves : ∀ db, (change db).ops = db.ops ∧
      (change db).contentKeys = db.contentKeys ∧ (change db).wrappedKeys = db.wrappedKeys)

namespace Fleet

variable (prim : Primitives) (config : SyncConfig)

def step (fleet : Fleet) : FleetAct → Option Fleet
  | .device n act =>
    match fleet.devices[n]? with
    | none => none
    | some device => (device.step prim config act).map fun device => { fleet with devices := fleet.devices.set n device }
  | .push pol req =>
    match Sync.push pol fleet.server req with
    | .error _ => some fleet
    | .ok (_, server) => some { fleet with server := server }
  | .elsewhere change _ => some { fleet with server := change fleet.server }

def start (devices : List (String × String)) (server : Sync.Db) : Fleet where
  devices := devices.map fun device => SyncDevice.start device.1 device.2
  server := { server with ops := ⟨[], Sync.none_clash⟩, contentKeys := ∅, wrappedKeys := [] }

variable {prim config} {fleet fleet' : Fleet}

structure Inv (prim : Primitives) (fleet : Fleet) : Prop where
  devices : ∀ device ∈ fleet.devices, device.SealsRows prim
  server : Sync.Enveloped fleet.server

theorem inv_start (devices : List (String × String)) (server : Sync.Db) : (start devices server).Inv prim where
  devices device member := by
    obtain ⟨given, -, rfl⟩ := List.mem_map.mp member
    exact fun _ none => absurd none List.not_mem_nil
  server := ⟨.nil, fun _ _ _ found => (Option.some_ne_none _ found.symm).elim,
    fun _ none => absurd none List.not_mem_nil⟩

theorem step_keeps {act : FleetAct} (inv : fleet.Inv prim) (stepped : fleet.step prim config act = some fleet') :
    Sync.KeysStand fleet.server fleet'.server ∧ fleet'.Inv prim := by
  cases act with
  | device n act =>
    simp only [step] at stepped
    split at stepped
    · cases stepped
    · rename_i device found
      obtain ⟨device', moved, rfl⟩ := Option.map_eq_some_iff.mp stepped
      refine ⟨Sync.KeysStand.refl _, fun other member => ?_, inv.server⟩
      rcases List.mem_or_eq_of_mem_set member with old | rfl
      · exact inv.devices other old
      · exact SyncDevice.sealsRows_step moved (inv.devices device (List.mem_of_getElem? found))
  | push pol req =>
    simp only [step] at stepped
    split at stepped
    · cases stepped
      exact ⟨Sync.KeysStand.refl _, inv⟩
    · rename_i returned
      cases stepped
      obtain ⟨stand, enveloped⟩ := Sync.Call.push_enveloped ⟨pol, fleet.server, req⟩ returned inv.server
      exact ⟨stand, inv.devices, enveloped⟩
  | elsewhere change leaves =>
    cases stepped
    obtain ⟨ops, keys, wraps⟩ := leaves fleet.server
    refine ⟨Sync.KeysStand.of_tables keys wraps, inv.devices, ?_⟩
    obtain ⟨nonces, single, keyed⟩ := inv.server
    refine ⟨by rw [ops]; exact nonces, ?_, by rw [ops, keys]; exact keyed⟩
    unfold Sync.SingleKeys
    rw [keys]
    exact single

theorem run_stands {acts : List FleetAct} (inv : fleet.Inv prim) (ran : run (step prim config) fleet acts = some fleet') :
    Sync.KeysStand fleet.server fleet'.server := by
  have keeps : ∀ (now : Fleet) (act : FleetAct) (next : Fleet), Sync.KeysStand fleet.server now.server ∧ now.Inv prim →
      now.step prim config act = some next → Sync.KeysStand fleet.server next.server ∧ next.Inv prim := by
    intro now act next holds stepped
    obtain ⟨stand, kept⟩ := step_keeps holds.2 stepped
    exact ⟨holds.1.trans stand, kept⟩
  exact (run_keeps keeps ⟨Sync.KeysStand.refl _, inv⟩ ran).1

theorem run_inv {acts : List FleetAct} (inv : fleet.Inv prim) (ran : run (step prim config) fleet acts = some fleet') :
    fleet'.Inv prim :=
  run_keeps (fun _ _ _ holds stepped => (step_keeps holds stepped).2) inv ran

end Fleet

/-- In every run of devices and of pushes to the server: where truncated hashes do not collide, a device uses
a nonce of a key for one value; the server stores no nonce of a key twice, one key for a device and a
submission, and an encrypted op under a key of its submission; and what it stored of a key stays. -/
theorem fleet_enveloped (prim : Primitives) (config : SyncConfig) (devices : List (String × String)) (server : Sync.Db)
    {first rest : List FleetAct} {before after : Fleet}
    (reached : run (Fleet.step prim config) (Fleet.start devices server) first = some before)
    (went : run (Fleet.step prim config) before rest = some after) :
    (∀ device ∈ after.devices, Uncollided prim (device.db.store.outbox.rows.map (·.slot)) →
      ∀ s ∈ device.db.sealings, ∀ t ∈ device.db.sealings, s.contentKeyId = t.contentKeyId → s.nonce = t.nonce →
        s.value = t.value) ∧
      Sync.Enveloped after.server ∧ Sync.KeysStand before.server after.server := by
  have inv : before.Inv prim := Fleet.run_inv (Fleet.inv_start devices server) reached
  have inv' : after.Inv prim := Fleet.run_inv inv went
  refine ⟨fun device member uncollided s left t right _ same => ?_, inv'.server, Fleet.run_stands inv went⟩
  exact (inv'.devices device member).one_value uncollided left right same

def keyedServer : Sync.Db := { Sync.oneForm [("d1", some "u1")] with projectKeys := AList.singleton "k1" ⟨"prj", none⟩ }

theorem age_given : Sync.needsPath .set = true → (some "age" : Option String).getD "" ≠ "" := by decide

def sealedAnswer (opId : String) (counter : Nat) (nonce : Bytes) : Sync.RawOp :=
  .wellFormed
    { opId := opId, submissionId := "s1", formId := "household", formVersion := 1, kind := .set, path := some "age"
      payload := .sealed [1] "c1" nonce, deviceId := "d1", counter := counter
      pathGiven := age_given }

def sealedPush (ops : List Sync.RawOp) : FleetAct :=
  .push .unrestricted
    { deviceId := "d1", ops := ops, keys := [⟨"c1", "s1", "d1", [⟨"k1", [], [], []⟩]⟩], actorId := some "u1" }

def sealedMorning : List FleetAct :=
  [.device 0 (.createDraft "s1" "household" 1 none 0),
    .device 0 (.record "o1" "s1" "household" 1 (.set "age" (.int 41)) 1),
    .device 0 (.record "o2" "s1" "household" 1 (.set "name" (.str "Ada")) 2),
    .device 0 (.startPass [.config ⟨.projectE2e, [⟨"k1", [], "owner", ""⟩]⟩]),
    .device 0 (.offer (fun _ _ => none) fun _ => ⟨"c1", [], fun _ => []⟩),
    sealedPush [sealedAnswer "o1" 1 [7]]]

def sealedEvening : List FleetAct :=
  [sealedPush [sealedAnswer "o1" 1 [7], sealedAnswer "o2" 2 [7], sealedAnswer "o3" 3 [8]]]

set_option maxRecDepth 20000 in
theorem sealedDay_enveloped : ∃ before after,
    run (Fleet.step plainPrimitives {}) (Fleet.start [("d1", "u1")] keyedServer) sealedMorning = some before ∧
    run (Fleet.step plainPrimitives {}) before sealedEvening = some after ∧
    after.devices.map (fun device => device.db.sealings.length) = [2] ∧
    after.server.ops.rows.map (·.id) = ["o1", "o3"] ∧
    (∀ device ∈ after.devices, ∀ s ∈ device.db.sealings, ∀ t ∈ device.db.sealings,
      s.contentKeyId = t.contentKeyId → s.nonce = t.nonce → s.value = t.value) ∧
    Sync.Enveloped after.server ∧ Sync.KeysStand before.server after.server := by
  have shown : ((run (Fleet.step plainPrimitives {}) (Fleet.start [("d1", "u1")] keyedServer) sealedMorning).bind
      fun before => (run (Fleet.step plainPrimitives {}) before sealedEvening).map fun after =>
        (after.devices.map fun device => (device.db.sealings.length, device.db.store.outbox.rows.map (·.slot)),
          after.server.ops.rows.map (·.id))) = some ([(2, [("d1", 1), ("d1", 2)])], ["o1", "o3"]) := by
    decide +kernel
  obtain ⟨before, reached, rest⟩ := Option.bind_eq_some_iff.mp shown
  obtain ⟨after, went, same⟩ := Option.map_eq_some_iff.mp rest
  obtain ⟨devices, ops⟩ := Prod.mk.inj same
  obtain ⟨values, enveloped, stands⟩ := fleet_enveloped plainPrimitives {} _ keyedServer reached went
  have uncollided : Uncollided plainPrimitives [("d1", 1), ("d1", 2)] := ⟨by decide +kernel, by decide +kernel⟩
  refine ⟨before, after, reached, went, ?_, ops, fun device member => values device member ?_, enveloped, stands⟩
  · have lengths := congrArg (List.map Prod.fst) devices
    simpa using lengths
  · have listed := List.mem_map_of_mem (f := fun device : SyncDevice =>
      (device.db.sealings.length, device.db.store.outbox.rows.map (·.slot))) member
    rw [devices] at listed
    have slots := congrArg Prod.snd (List.mem_singleton.mp listed)
    simp only at slots
    rw [slots]
    exact uncollided

end DataCollectionLab.Core
