import DataCollectionLab.Core.Outbox
import DataCollectionLab.Form.Formed
import DataCollectionLab.Lib.Stateful
import DataCollectionLab.Media.Uploader

/-!
What `SyncCrypto` makes of a batch before it leaves: which values are sealed, under which content key, and
which keys the batch brings along. A content key is made and wrapped once, and so is the ciphertext of an
op; what was stored before an exception stays.
-/

namespace DataCollectionLab.Core

open Lib
open Media (SecurityMode)

structure ProjectKey where
  keyId : String
  publicKey : Bytes
  role : String
  label : String

structure ProjectCrypto where
  securityMode : SecurityMode
  projectKeys : List ProjectKey

structure ContentKey where
  contentKeyId : String
  submissionId : String
  material : Bytes
  uploaded : Bool := false

structure Sealing where
  contentKeyId : String
  material : Bytes
  nonce : Bytes
  value : Json

/-- The device's database: its submissions and outbox, and the tables of the envelope. -/
structure DeviceDb where
  store : SubmissionStore
  projectCrypto : Option ProjectCrypto := none
  contentKeys : List ContentKey := []
  /-- `wrapped_key`, by the content key it wraps. -/
  wrappedKeys : List (String × Sync.WrappedKeyIn) := []
  sealings : List Sealing := []

inductive Unsendable where
  /-- `EncryptionUnavailableException`. -/
  | encryptionUnavailable (message : String)
  /-- A constraint of the database. -/
  | constraint (name : String)
  /-- Another exception of the cryptography library. -/
  | raised

structure Primitives where
  sha256 : Bytes → Bytes
  /-- `encryptWithIv`: key, nonce, plaintext and associated data. -/
  encryptWithIv : Bytes → Bytes → Bytes → Bytes → Bytes
  canonicalJson : Json → Bytes
  /-- `wrapContentKey`, over what it draws; a message is that of an `EnvelopeException`. -/
  wrapContentKey : (seed contentKey : Bytes) → (contentKeyId : String) → (recipient : Bytes) →
    (projectKeyId : String) → Except (Option String) Sync.WrappedKeyIn

section Envelope

/-- `encodeToByteArray`. -/
def utf8 (text : String) : Bytes := text.toUTF8.data.toList

def bigEndian (value : Nat) : Bytes := (List.range 8).map fun i => UInt8.ofNat (value / 256 ^ (7 - i))

theorem utf8_injective {a b : String} (same : utf8 a = utf8 b) : a = b := by
  apply String.toByteArray_inj.mp
  exact ByteArray.ext (Array.toList_inj.mp same)

theorem bigEndian_injective {a b : Nat} (left : a < 2 ^ 64) (right : b < 2 ^ 64) (same : bigEndian a = bigEndian b) :
    a = b := by
  have digits : ∀ i < 8, a / 256 ^ (7 - i) % 256 = b / 256 ^ (7 - i) % 256 := by
    intro i bound
    have digit := List.map_inj_left.mp same i (List.mem_range.mpr bound)
    simpa using congrArg UInt8.toNat digit
  have d0 := digits 0 (by omega)
  have d1 := digits 1 (by omega)
  have d2 := digits 2 (by omega)
  have d3 := digits 3 (by omega)
  have d4 := digits 4 (by omega)
  have d5 := digits 5 (by omega)
  have d6 := digits 6 (by omega)
  have d7 := digits 7 (by omega)
  norm_num at d0 d1 d2 d3 d4 d5 d6 d7 left right
  omega

def nonceBytes : Nat := 12

def nonceMaterial (deviceId : String) (counter : Nat) : Bytes :=
  utf8 "dcp/v1/op-nonce" ++ utf8 deviceId ++ bigEndian counter

variable (prim : Primitives)

def opNonce (deviceId : String) (counter : Nat) : Bytes :=
  (prim.sha256 (nonceMaterial deviceId counter)).take nonceBytes

def opAad (opId submissionId path : String) (formVersion : Nat) : Bytes :=
  utf8 ("|".intercalate [opId, submissionId, path, toString formVersion])

/-- `encryptOpValue`: the ciphertext and the nonce. -/
def encryptOpValue (value : Json) (contentKey : Bytes) (opId submissionId path : String) (formVersion : Nat)
    (deviceId : String) (counter : Nat) : Bytes × Bytes :=
  let nonce := opNonce prim deviceId counter
  (prim.encryptWithIv contentKey nonce (prim.canonicalJson value) (opAad opId submissionId path formVersion), nonce)

end Envelope

structure Draw where
  contentKeyId : String
  material : Bytes
  /-- For each recipient, what its wrap draws. -/
  seeds : String → Bytes

structure WireOp where
  opId : String
  submissionId : String
  formId : String
  formVersion : Nat
  kind : OpKind
  path : Option String
  value : Option Json := none
  valueCiphertext : Option Bytes := none
  contentKeyId : Option String := none
  nonce : Option Bytes := none
  deviceId : String
  actorId : String
  counter : Nat
  wallClock : Timestamp
  caseId : Option String

structure PreparedBatch where
  ops : List WireOp := []
  keys : List Sync.ContentKeyIn := []

/-- `FormSensitivity`: the sensitive fields of a form version, `none` where the device has no copy of it. -/
abbrev FormSensitivity := String → Nat → Option (List String)

def afterLast (mark : List Char) (cs : List Char) : List Char :=
  match cs with
  | [] => []
  | c :: rest =>
    if (Form.cutAt mark rest).isSome then afterLast mark rest
    else
      match Form.cutAt mark (c :: rest) with
      | some cut => cut.2
      | none => c :: rest

def referencedFieldOf (path : String) : String :=
  if (Form.cutAt "].".toList path.toList).isSome then String.ofList (afterLast "].".toList path.toList) else path

def shouldEncrypt (sensitivity : FormSensitivity) (op : SyncOp) (mode : SecurityMode) : Bool :=
  if op.valueJson.isNone then false
  else
    match mode with
    | .projectE2e => true
    | .fieldLevel =>
      match op.path with
      | none => false
      | some path =>
        match sensitivity op.formId op.formVersion with
        | none => true
        | some sensitive => referencedFieldOf path ∈ sensitive
    | .standard => false

abbrev Crypt := EStateM Unsendable DeviceDb

section Prepare

variable (prim : Primitives)

/-- `insertWrappedKey`: INSERT OR REPLACE. -/
def insertWrappedKey (contentKeyId : String) (rows : List (String × Sync.WrappedKeyIn)) (wrap : Sync.WrappedKeyIn) :
    List (String × Sync.WrappedKeyIn) :=
  (rows.filter fun row => ¬ (row.1 = contentKeyId ∧ row.2.projectKeyId = wrap.projectKeyId)) ++ [(contentKeyId, wrap)]

/-- `putContentKey`: the key and its wraps, in one transaction. -/
def putContentKey (key : ContentKey) (wraps : List Sync.WrappedKeyIn) : Crypt ContentKey := do
  let db ← get
  if db.contentKeys.any (·.contentKeyId == key.contentKeyId) then throw (.constraint "content_key.content_key_id")
  else if db.contentKeys.any (·.submissionId == key.submissionId) then throw (.constraint "content_key.submission_id")
  else
    set { db with
      contentKeys := db.contentKeys ++ [key]
      wrappedKeys := wraps.foldl (insertWrappedKey key.contentKeyId) db.wrappedKeys }
    return key

/-- `associate`: the last key of an id stands, where the first one did. -/
def recipientsOf (keys : List ProjectKey) : List (String × Bytes) :=
  keys.foldl (fun found key =>
    if found.any (·.1 == key.keyId) then
      found.map fun entry => if entry.1 = key.keyId then (entry.1, key.publicKey) else entry
    else found ++ [(key.keyId, key.publicKey)]) []

def wrapToRecipients (draw : Draw) (keys : List ProjectKey) : Except (Option String) (List Sync.WrappedKeyIn) :=
  (recipientsOf keys).mapM fun recipient =>
    prim.wrapContentKey (draw.seeds recipient.1) draw.material draw.contentKeyId recipient.2 recipient.1

def modeText : SecurityMode → String
  | .standard => "standard"
  | .fieldLevel => "field_level"
  | .projectE2e => "project_e2e"

def contentKeyFor (draw : Draw) (submissionId : String) (crypto : ProjectCrypto) : Crypt ContentKey := do
  match (← get).contentKeys.find? (·.submissionId == submissionId) with
  | some key => return key
  | none =>
    if crypto.projectKeys.isEmpty then
      throw (.encryptionUnavailable
        ("project " ++ modeText crypto.securityMode ++ " mode has no active project keys to wrap to"))
    else
      match wrapToRecipients prim draw crypto.projectKeys with
      | .error (some message) =>
        throw (.encryptionUnavailable ("could not wrap a content key for " ++ submissionId ++ ": " ++ message))
      | .error none => throw .raised
      | .ok wraps =>
        putContentKey { contentKeyId := draw.contentKeyId, submissionId := submissionId, material := draw.material } wraps

/-- `wireKey`: the key as it leaves, its wraps by recipient. -/
def wireKey (db : DeviceDb) (key : ContentKey) : Sync.ContentKeyIn where
  contentKeyId := key.contentKeyId
  submissionId := key.submissionId
  deviceId := db.store.deviceId
  wraps := ((db.wrappedKeys.filter (·.1 = key.contentKeyId)).map (·.2)).insertionSort fun a b =>
    a.projectKeyId ≤ b.projectKeyId

def SyncOp.toPlaintextWire (op : SyncOp) : WireOp where
  opId := op.opId
  submissionId := op.submissionId
  formId := op.formId
  formVersion := op.formVersion
  kind := op.kind
  path := op.path
  value := op.valueJson
  deviceId := op.deviceId
  actorId := op.actorId
  counter := op.counter
  wallClock := op.wallClock
  caseId := op.caseId

def SyncOp.sealedWire (op : SyncOp) (path : String) (sealing : Bytes × String × Bytes) : WireOp where
  opId := op.opId
  submissionId := op.submissionId
  formId := op.formId
  formVersion := op.formVersion
  kind := op.kind
  path := some path
  valueCiphertext := some sealing.1
  contentKeyId := some sealing.2.1
  nonce := some sealing.2.2
  deviceId := op.deviceId
  actorId := op.actorId
  counter := op.counter
  wallClock := op.wallClock
  caseId := op.caseId

def SyncOp.cached (op : SyncOp) (key : ContentKey) : Option (Bytes × String × Bytes) :=
  match op.valueCiphertext, op.nonce with
  | some ciphertext, some nonce =>
    if op.contentKeyId = some key.contentKeyId then some (ciphertext, key.contentKeyId, nonce) else none
  | _, _ => none

def sealOp (op : SyncOp) (key : ContentKey) (path : String) (db : DeviceDb) : (Bytes × String × Bytes) × DeviceDb :=
  let value := op.valueJson.getD .null
  let encrypted := encryptOpValue prim value key.material op.opId op.submissionId path op.formVersion op.deviceId
    op.counter
  let sealing := (encrypted.1, key.contentKeyId, encrypted.2)
  (sealing, { db with
    store := db.store.recordOpCiphertext op.opId sealing
    sealings := db.sealings ++ [⟨key.contentKeyId, key.material, encrypted.2, value⟩] })

def encrypt (op : SyncOp) (key : ContentKey) : Crypt WireOp := do
  match op.path with
  | none =>
    throw (.encryptionUnavailable ("op " ++ op.opId ++ " has a value but no path; its AAD cannot be built"))
  | some path =>
    match op.cached key with
    | some sealing => return op.sealedWire path sealing
    | none =>
      let sealing ← modifyGet (sealOp prim op key path)
      return op.sealedWire path sealing

variable (sensitivity : FormSensitivity) (draws : String → Draw) (crypto : ProjectCrypto)

/-- The loop of `prepare`. -/
def prepareOps (prepared : PreparedBatch) : List SyncOp → Crypt PreparedBatch
  | [] => return prepared
  | op :: rest => do
    if shouldEncrypt sensitivity op crypto.securityMode then
      let key ← contentKeyFor prim (draws op.submissionId) op.submissionId crypto
      let wire ← encrypt prim op key
      let db ← get
      let keys :=
        if !key.uploaded && !prepared.keys.any (·.contentKeyId == key.contentKeyId) then
          prepared.keys ++ [wireKey db key]
        else prepared.keys
      prepareOps { ops := prepared.ops ++ [wire], keys := keys } rest
    else prepareOps { prepared with ops := prepared.ops ++ [op.toPlaintextWire] } rest

/-- `prepare`: no cached config is `standard`. -/
def prepare (batch : List SyncOp) : Crypt PreparedBatch := do
  match (← get).projectCrypto with
  | none => return { ops := batch.map SyncOp.toPlaintextWire }
  | some crypto =>
    if crypto.securityMode = .standard then return { ops := batch.map SyncOp.toPlaintextWire }
    else prepareOps prim sensitivity draws crypto {} batch

end Prepare

/-! ### What preparing a batch leaves -/

section Extends

variable (prim : Primitives)

/-- The database after ops of a batch were prepared: what was recorded of each op is as it was, and every new
encryption is of an op of the batch. -/
structure Extends (batch : List SyncOp) (db db' : DeviceDb) : Prop where
  config : db'.projectCrypto = db.projectCrypto
  device : db'.store.deviceId = db.store.deviceId ∧ db'.store.counter = db.store.counter
  rows : List.Forall₂ (fun row' row => row'.SameOp row ∧ row'.synced = row.synced) db'.store.outbox.rows
    db.store.outbox.rows
  sealings : ∀ sealing ∈ db'.sealings, sealing ∈ db.sealings ∨ ∃ op ∈ batch,
    sealing.nonce = opNonce prim op.deviceId op.counter ∧ sealing.value = op.valueJson.getD .null

variable {prim} {batch : List SyncOp} {db₀ : DeviceDb}

theorem Extends.refl (db : DeviceDb) : Extends prim batch db db :=
  ⟨rfl, ⟨rfl, rfl⟩, List.forall₂_same.mpr fun row _ => ⟨SyncOp.SameOp.refl row, rfl⟩, fun _ => Or.inl⟩

theorem sealOp_extends {op : SyncOp} (member : op ∈ batch) (key : ContentKey) (path : String) {db : DeviceDb}
    (extends₀ : Extends prim batch db₀ db) : Extends prim batch db₀ (sealOp prim op key path db).2 := by
  refine ⟨extends₀.config, extends₀.device, ?_, fun sealing within => ?_⟩
  · refine List.forall₂_map_left_iff.mpr (extends₀.rows.imp fun row old ⟨same, synced⟩ => ?_)
    refine ⟨(SyncOp.recordCiphertext_same _ _ row).trans same, Eq.trans ?_ synced⟩
    unfold SyncOp.recordCiphertext
    split <;> rfl
  · rcases List.mem_append.mp within with old | new
    · exact extends₀.sealings sealing old
    · obtain rfl := List.mem_singleton.mp new
      exact Or.inr ⟨op, member, rfl, rfl⟩

theorem contentKeyFor_keeps (draw : Draw) (submissionId : String) (crypto : ProjectCrypto) :
    Keeps (Extends prim batch db₀) (contentKeyFor prim draw submissionId crypto) := by
  unfold contentKeyFor
  refine Triple.get_bind fun db extends₀ => ?_
  split
  · exact fun _ same => same ▸ extends₀
  · split
    · exact fun _ same => same ▸ extends₀
    · split
      · exact fun _ same => same ▸ extends₀
      · exact fun _ same => same ▸ extends₀
      · unfold putContentKey
        refine Triple.get_bind fun db' same => ?_
        subst same
        split
        · exact fun _ same => same ▸ extends₀
        · split
          · exact fun _ same => same ▸ extends₀
          · exact fun _ _ => ⟨extends₀.config, extends₀.device, extends₀.rows, extends₀.sealings⟩

theorem encrypt_triple {op : SyncOp} (member : op ∈ batch) (key : ContentKey) :
    Triple (Extends prim batch db₀) (encrypt prim op key)
      (fun wire db => Extends prim batch db₀ db ∧ wire.opId = op.opId ∧ wire.value = none)
      fun _ => Extends prim batch db₀ := by
  unfold encrypt
  split
  · exact fun _ holds => holds
  · split
    · exact fun _ holds => ⟨holds, rfl, rfl⟩
    · rename_i path _ _ _
      exact fun db holds => ⟨sealOp_extends member key path holds, rfl, rfl⟩

def Leaves (sensitivity : FormSensitivity) (mode : SecurityMode) (op : SyncOp) (wire : WireOp) : Prop :=
  wire.opId = op.opId ∧ (shouldEncrypt sensitivity op mode = true → wire.value = none)

theorem prepareOps_triple (sensitivity : FormSensitivity) (draws : String → Draw) (crypto : ProjectCrypto)
    (prepared : PreparedBatch) {ops : List SyncOp} (within : ∀ op ∈ ops, op ∈ batch) :
    Triple (Extends prim batch db₀) (prepareOps prim sensitivity draws crypto prepared ops)
      (fun result db => Extends prim batch db₀ db ∧ ∃ more, result.ops = prepared.ops ++ more ∧
        List.Forall₂ (Leaves sensitivity crypto.securityMode) ops more)
      fun _ => Extends prim batch db₀ := by
  induction ops generalizing prepared with
  | nil => exact fun _ holds => ⟨holds, [], by simp, .nil⟩
  | cons op rest ih =>
    have later (prepared : PreparedBatch) := ih prepared fun op member => within op (List.mem_cons_of_mem _ member)
    rw [prepareOps]
    split
    · refine Triple.bind (contentKeyFor_keeps _ _ _) fun key => ?_
      refine Triple.bind (encrypt_triple (within op List.mem_cons_self) key) fun wire => ?_
      refine Triple.get_bind fun db ⟨holds, same, sealed⟩ => ?_
      refine Triple.mono (later _) (fun _ same => same ▸ holds) (fun result db' => ?_) fun _ _ => id
      rintro ⟨kept, more, whole, each⟩
      exact ⟨kept, wire :: more, by simpa using whole, .cons ⟨same, fun _ => sealed⟩ each⟩
    · rename_i clear
      refine Triple.mono (later _) (fun _ => id) (fun result db' => ?_) fun _ _ => id
      rintro ⟨kept, more, whole, each⟩
      exact ⟨kept, op.toPlaintextWire :: more, by simpa using whole, .cons ⟨rfl, fun asked => absurd asked clear⟩ each⟩

theorem prepare_triple (sensitivity : FormSensitivity) (draws : String → Draw) (db₀ : DeviceDb) (batch : List SyncOp) :
    Triple (· = db₀) (prepare prim sensitivity draws batch)
      (fun result db => Extends prim batch db₀ db ∧ ∀ crypto, db₀.projectCrypto = some crypto →
        List.Forall₂ (Leaves sensitivity crypto.securityMode) batch result.ops)
      fun _ => Extends prim batch db₀ := by
  unfold prepare
  refine Triple.get_bind fun db same => ?_
  subst same
  split
  · rename_i none
    rintro _ rfl
    exact ⟨Extends.refl _, fun crypto given => by rw [none] at given; cases given⟩
  · rename_i crypto given
    split
    · rename_i standard
      rintro _ rfl
      refine ⟨Extends.refl _, fun other given' => ?_⟩
      obtain rfl := Option.some.inj (given.symm.trans given')
      rw [standard]
      show List.Forall₂ _ batch (batch.map SyncOp.toPlaintextWire)
      rw [List.forall₂_map_right_iff]
      refine List.forall₂_same.mpr fun op _ => ⟨rfl, fun asked => ?_⟩
      unfold shouldEncrypt at asked
      split at asked <;> cases asked
    · refine Triple.mono (prepareOps_triple sensitivity draws crypto {} fun _ => id)
        (fun _ same => same ▸ Extends.refl _) (fun result db' => ?_) fun _ _ => id
      rintro ⟨kept, more, whole, each⟩
      refine ⟨kept, fun other given' => ?_⟩
      obtain rfl := Option.some.inj (given.symm.trans given')
      rw [whole, List.nil_append]
      exact each

end Extends

end DataCollectionLab.Core
