import Mathlib.Data.String.Basic
import DataCollectionLab.Core.SubmissionStore
import DataCollectionLab.Lib.Except
import DataCollectionLab.Submissions.Paths
import DataCollectionLab.Sync.Log

/-!
The device's two folds of the op log: `materialisedAnswers`, which reopening a draft reads, and the
fold of a key holder's `SubmissionDecryptor`. Both are written as the server's fold and neither looks
at a `repeat_delete`.
-/

namespace DataCollectionLab.Core

open Form

/-! ### `materialisedAnswers` -/

def materialise (num : Numerals) (values : Dict FormValue) (op : SyncOp) :
    Except CompileException (Dict FormValue) :=
  match op.path with
  | none => .ok values
  | some path =>
    match op.kind with
    | .set =>
      match op.valueJson with
      | some json => (formValueFromJson num json).map (values.insert path)
      | none => .ok (if op.isEncrypted then values.erase path else values.insert path .null)
    | .unset => .ok (values.erase path)
    | _ => .ok values

def SubmissionStore.materialisedAnswers (num : Numerals) (store : SubmissionStore)
    (submissionId : String) : Except CompileException (Dict FormValue) :=
  (store.opsFor submissionId).foldlM (materialise num) ∅

/-! ### `SubmissionDecryptor.answers` -/

structure WirePulledOp where
  opId : String
  submissionId : String
  formVersion : Nat
  kind : OpKind
  path : Option String
  value : Option Json
  valueCiphertext : Option Bytes
  contentKeyId : Option String
  nonce : Option Bytes
  deviceId : String
  counter : Nat

def utf16 (text : String) : List Nat :=
  text.toList.flatMap fun c =>
    if c.toNat < 0x10000 then [c.toNat]
    else [0xD800 + (c.toNat - 0x10000) / 0x400, 0xDC00 + (c.toNat - 0x10000) % 0x400]

/-- `compareBy({ it.counter }, { it.deviceId })`. -/
def WirePulledOp.Le (a b : WirePulledOp) : Prop :=
  a.counter < b.counter ∨ (a.counter = b.counter ∧ utf16 a.deviceId ≤ utf16 b.deviceId)

instance : DecidableRel WirePulledOp.Le := fun a b => inferInstanceAs (Decidable
  (a.counter < b.counter ∨ (a.counter = b.counter ∧ utf16 a.deviceId ≤ utf16 b.deviceId)))

namespace SubmissionDecryptor

/-- What `decryptOpValue` is given: the sealed value, its key, and what the seal is bound to. -/
structure SealedValue where
  ciphertext : Bytes
  nonce : Bytes
  contentKey : Bytes
  opId : String
  submissionId : String
  path : String
  formVersion : Nat

variable (decryptOpValue : SealedValue → Except String Json) (contentKeys : Dict Bytes)

/-- One round of the loop; an error is an `EnvelopeException`, by its message. -/
def answer (values : Dict Json) (op : WirePulledOp) : Except String (Dict Json) :=
  match op.path with
  | none => .ok values
  | some path =>
    match op.kind with
    | .unset => .ok (values.erase path)
    | .set =>
      match op.valueCiphertext with
      | none => .ok (values.insert path (op.value.getD .null))
      | some ciphertext =>
        match op.contentKeyId.bind fun id => contentKeys.lookup id with
        | none => .error ("no content key for op " ++ op.opId ++ " (" ++
            op.contentKeyId.getD "null" ++ ")")
        | some contentKey => do
          let value ← decryptOpValue
            { ciphertext := ciphertext
              nonce := op.nonce.getD []
              contentKey := contentKey
              opId := op.opId
              submissionId := op.submissionId
              path := path
              formVersion := op.formVersion }
          return values.insert path value
    | _ => .ok values

def answers (ops : List WirePulledOp) : Except String (Dict Json) :=
  (ops.insertionSort WirePulledOp.Le).foldlM (answer decryptOpValue contentKeys) ∅

end SubmissionDecryptor

/-- The op as the server sends it: a JSON `null` is left out. -/
def SyncOp.pulled (op : SyncOp) : WirePulledOp where
  opId := op.opId
  submissionId := op.submissionId
  formVersion := op.formVersion
  kind := op.kind
  path := op.path
  value := op.valueJson.filter fun json => !(json matches .null)
  valueCiphertext := op.valueCiphertext
  contentKeyId := op.contentKeyId
  nonce := op.nonce
  deviceId := op.deviceId
  counter := op.counter

/-! ### What a log says, as the device reads it and as the server does -/

namespace SyncOp

/-- The op is an answer to `path`, or takes one back. -/
def Answers (op : SyncOp) (path : String) : Prop :=
  (op.kind = .set ∨ op.kind = .unset) ∧ op.path = some path

/-- The op deletes an instance that `path` is below. -/
def Deletes (op : SyncOp) (path : String) : Prop :=
  op.kind = .repeatDelete ∧ ∃ deleted ∈ op.path, covers deleted path = true

def Readable (num : Numerals) (op : SyncOp) : Prop :=
  op.kind = .set → op.path.isSome = true →
    ∀ json ∈ op.valueJson, ∃ value, formValueFromJson num json = .ok value

/-- `Le` with the ids compared as Kotlin compares them. -/
def KotlinLe (a b : SyncOp) : Prop := a.pulled.Le b.pulled

instance : DecidableRel KotlinLe := fun a b => inferInstanceAs (Decidable (a.pulled.Le b.pulled))

/-- What the op writes under `path` in the device's folds. -/
def written (op : SyncOp) (path : String) : Option (Option Json) :=
  match op.kind with
  | .set => if op.path = some path then some (some (op.valueJson.getD .null)) else none
  | .unset => if op.path = some path then some none else none
  | _ => none

end SyncOp

def OutlivesDeletes : List SyncOp → Prop
  | [] => True
  | op :: rest =>
    (op.kind = .set → ∀ path ∈ op.path, (∀ later ∈ rest, ¬ later.Answers path) →
      ∀ later ∈ rest, ¬ later.Deletes path) ∧ OutlivesDeletes rest

def TiesAlike (log : List SyncOp) : Prop :=
  ∀ path, Lib.lastWrite SyncOp.written path (log.insertionSort SyncOp.KotlinLe) =
    Lib.lastWrite SyncOp.written path log

/-- Both of the device's folds of a submission's log hold what the server's `data` holds. -/
structure FoldsAgree (num : Numerals)
    (decryptOpValue : SubmissionDecryptor.SealedValue → Except String Json)
    (contentKeys : Dict Bytes) (store : SubmissionStore) (id : String) : Prop where
  materialised : ∃ values, store.materialisedAnswers num id = .ok values ∧
    ∀ path, (values.lookup path).map .ok =
      ((foldOps ((store.opsFor id).map (·.stored))).data.lookup path).map (formValueFromJson num)
  decrypted : ∃ values, SubmissionDecryptor.answers decryptOpValue contentKeys
      ((store.opsFor id).map (·.pulled)) = .ok values ∧
    ∀ path, values.lookup path = (foldOps ((store.opsFor id).map (·.stored))).data.lookup path

namespace SyncOp

/-- What a deletion writes under `path` in the server's `data`. -/
def erased (op : SyncOp) (path : String) : Option (Option Json) :=
  match op.kind, op.path with
  | .repeatDelete, some deleted => if covers deleted path then some none else none
  | _, _ => none

/-- What the op writes under `path` in the server's `data`, where nothing is sealed. -/
def told (op : SyncOp) (path : String) : Option (Option Json) := (op.written path).or (op.erased path)

@[simp] theorem pulled_path (op : SyncOp) : op.pulled.path = op.path := rfl

@[simp] theorem pulled_kind (op : SyncOp) : op.pulled.kind = op.kind := rfl

@[simp] theorem pulled_value (op : SyncOp) : op.pulled.value.getD .null = op.valueJson.getD .null := by
  show (op.valueJson.filter _).getD .null = _
  cases op.valueJson with
  | none => rfl
  | some json => cases json <;> rfl

theorem dataWrite_stored {op : SyncOp} (plain : op.valueCiphertext = none) (path : String) :
    dataWrite op.stored path = op.told path := by
  unfold told dataWrite written erased stored
  cases op.kind <;> cases op.path <;> simp only [plain] <;> try rfl
  all_goals
    rename_i given
    by_cases here : path = given <;> simp [here, eq_comm]

theorem written_eq_none_iff {op : SyncOp} {path : String} :
    op.written path = none ↔ ¬ op.Answers path := by
  unfold written Answers
  cases op.kind <;> simp

theorem written_eq_some_some {op : SyncOp} {path : String} {json : Json}
    (wrote : op.written path = some (some json)) :
    op.kind = .set ∧ op.path = some path ∧ op.valueJson.getD .null = json := by
  unfold written at wrote
  cases kind : op.kind <;> simp [kind] at wrote ⊢
  exact wrote

theorem erased_eq_none_iff {op : SyncOp} {path : String} :
    op.erased path = none ↔ ¬ op.Deletes path := by
  unfold erased Deletes
  cases op.kind <;> cases op.path <;> simp

theorem erased_eq_some {op : SyncOp} {path : String} {w : Option Json}
    (erases : op.erased path = some w) : w = none := by
  unfold erased at erases
  split at erases
  · split at erases
    · exact (Option.some_inj.mp erases).symm
    · cases erases
  · cases erases

theorem told_eq_none_iff {op : SyncOp} {path : String} :
    op.told path = none ↔ ¬ op.Answers path ∧ ¬ op.Deletes path := by
  rw [told, Option.or_eq_none_iff, written_eq_none_iff, erased_eq_none_iff]

end SyncOp

theorem lastTold_of_unanswered {log : List SyncOp} {path : String}
    (unanswered : ∀ op ∈ log, ¬ op.Answers path) :
    Lib.lastWrite SyncOp.told path log = none ∧ (∀ op ∈ log, ¬ op.Deletes path) ∨
      Lib.lastWrite SyncOp.told path log = some none ∧ ∃ op ∈ log, op.Deletes path := by
  cases last : Lib.lastWrite SyncOp.told path log with
  | none =>
    refine Or.inl ⟨rfl, fun op member => ?_⟩
    exact (SyncOp.told_eq_none_iff.mp (Lib.lastWrite_eq_none_iff.mp last op member)).2
  | some w =>
    obtain ⟨op, member, wrote⟩ := Lib.exists_of_lastWrite last
    have silent : op.written path = none := SyncOp.written_eq_none_iff.mpr (unanswered op member)
    rw [SyncOp.told, silent, Option.none_or] at wrote
    obtain rfl := SyncOp.erased_eq_some wrote
    refine Or.inr ⟨rfl, op, member, ?_⟩
    by_contra kept
    rw [SyncOp.erased_eq_none_iff.mpr kept] at wrote
    cases wrote

/-- One more op at the front: it is the last word on a path exactly where nothing later answers the
path, and then a later deletion is what the server goes by. -/
theorem told_cons_iff {op : SyncOp} {rest : List SyncOp} {path : String} :
    (Lib.lastWrite SyncOp.told path (op :: rest)).getD none =
        (Lib.lastWrite SyncOp.written path (op :: rest)).getD none ↔
      (op.kind = .set → op.path = some path → (∀ later ∈ rest, ¬ later.Answers path) →
        ∀ later ∈ rest, ¬ later.Deletes path) ∧
      (Lib.lastWrite SyncOp.told path rest).getD none =
        (Lib.lastWrite SyncOp.written path rest).getD none := by
  rw [Lib.lastWrite_cons, Lib.lastWrite_cons]
  by_cases unanswered : ∀ later ∈ rest, ¬ later.Answers path
  · have silent : Lib.lastWrite SyncOp.written path rest = none :=
      Lib.lastWrite_eq_none_iff.mpr fun later member =>
        SyncOp.written_eq_none_iff.mpr (unanswered later member)
    rcases lastTold_of_unanswered unanswered with ⟨nothing, kept⟩ | ⟨nothing, later, member, deletes⟩
    · rw [silent, nothing, Option.none_or, Option.none_or]
      refine iff_of_true ?_ ⟨fun _ _ _ => kept, rfl⟩
      unfold SyncOp.told
      cases wrote : op.written path with
      | some w => rfl
      | none =>
        cases erases : op.erased path with
        | none => rfl
        | some w => rw [SyncOp.erased_eq_some erases]; rfl
    · rw [silent, nothing, Option.none_or]
      constructor
      · intro same
        refine ⟨fun set here => ?_, rfl⟩
        simp [SyncOp.written, set, here] at same
      · rintro ⟨outlives, -⟩
        cases wrote : op.written path with
        | none => rfl
        | some w =>
          cases w with
          | none => rfl
          | some json =>
            obtain ⟨set, here, -⟩ := SyncOp.written_eq_some_some wrote
            exact absurd deletes (outlives set here unanswered later member)
  · have answered : ∃ later ∈ rest, later.Answers path := by
      by_contra none
      exact unanswered fun later member answers => none ⟨later, member, answers⟩
    obtain ⟨later, member, answers⟩ := answered
    have left : Lib.lastWrite SyncOp.written path rest ≠ none := fun silent =>
      SyncOp.written_eq_none_iff.mp (Lib.lastWrite_eq_none_iff.mp silent later member) answers
    have right : Lib.lastWrite SyncOp.told path rest ≠ none := fun silent =>
      (SyncOp.told_eq_none_iff.mp (Lib.lastWrite_eq_none_iff.mp silent later member)).1 answers
    obtain ⟨w, wrote⟩ := Option.ne_none_iff_exists'.mp left
    obtain ⟨t, told⟩ := Option.ne_none_iff_exists'.mp right
    rw [wrote, told, Option.some_or, Option.some_or]
    exact (and_iff_right fun _ _ none => absurd none unanswered).symm

theorem outlivesDeletes_iff {log : List SyncOp} :
    OutlivesDeletes log ↔ ∀ path, (Lib.lastWrite SyncOp.told path log).getD none =
      (Lib.lastWrite SyncOp.written path log).getD none := by
  induction log with
  | nil => exact iff_of_true trivial fun _ => rfl
  | cons op rest ih =>
    rw [OutlivesDeletes, ih]
    simp only [told_cons_iff, forall_and]
    refine and_congr_left fun _ => ?_
    exact ⟨fun outlives path set here => outlives set path here,
      fun outlives set path here => outlives path set here⟩

/-! ### What each fold leaves under a path -/

def materialised (num : Numerals) (values : Dict FormValue) (op : SyncOp) : Dict FormValue :=
  (materialise num values op).toOption.getD values

theorem materialise_ok_iff {num : Numerals} {values r : Dict FormValue} {op : SyncOp} :
    materialise num values op = .ok r ↔ op.Readable num ∧ materialised num values op = r := by
  unfold materialised materialise SyncOp.Readable
  cases op.kind <;> cases op.path <;> simp [Except.toOption]
  cases op.valueJson with
  | none => simp
  | some json =>
    cases read : formValueFromJson num json <;> simp [Except.map, read]

theorem materialised_lookup {num : Numerals} {op : SyncOp} (plain : op.valueCiphertext = none)
    (readable : op.Readable num) (values : Dict FormValue) (path : String) :
    (materialised num values op).lookup path =
      ((op.written path).map (·.bind fun json => (formValueFromJson num json).toOption)).getD
        (values.lookup path) := by
  unfold materialised materialise SyncOp.written
  cases kind : op.kind <;> cases given : op.path <;> try rfl
  case unset.some here =>
    by_cases same : path = here
    · simp [Except.toOption, Lib.lookup_erase_eq_ite, same]
    · simp [Except.toOption, same, Ne.symm same]
  case set.some here =>
    cases value : op.valueJson with
    | none =>
      by_cases same : path = here
      · simp [Except.toOption, SyncOp.isEncrypted, plain, Lib.lookup_insert_eq_ite,
          formValueFromJson, same]
      · simp [Except.toOption, SyncOp.isEncrypted, plain, same, Ne.symm same]
    | some json =>
      obtain ⟨read, ok⟩ := readable kind (by rw [given]; rfl) json value
      by_cases same : path = here
      · simp [Except.toOption, Except.map, ok, Lib.lookup_insert_eq_ite, same]
      · simp [Except.toOption, Except.map, ok, same, Ne.symm same]

variable {num : Numerals} {decryptOpValue : SubmissionDecryptor.SealedValue → Except String Json}
  {contentKeys : Dict Bytes} {store : SubmissionStore} {id : String}

theorem materialisedAnswers_ok_iff {values : Dict FormValue} :
    store.materialisedAnswers num id = .ok values ↔
      (∀ op ∈ store.opsFor id, op.Readable num) ∧
        (store.opsFor id).foldl (materialised num) ∅ = values :=
  @Lib.foldlM_guarded _ _ _ (materialise num) (materialised num) (fun _ op => op.Readable num)
    (fun _ _ _ => materialise_ok_iff) _ (List.pairwise_of_forall fun _ _ _ => Iff.rfl) _ _

theorem data_lookup {log : List SyncOp} (plain : ∀ op ∈ log, op.valueCiphertext = none)
    (path : String) : (foldOps (log.map (·.stored))).data.lookup path =
      (Lib.lastWrite SyncOp.told path log).getD none := by
  rw [foldOps_data, Lib.lastWrite_map,
    Lib.lastWrite_congr fun op member => SyncOp.dataWrite_stored (plain op member) path]

theorem foldl_materialised_lookup {log : List SyncOp}
    (plain : ∀ op ∈ log, op.valueCiphertext = none) (readable : ∀ op ∈ log, op.Readable num)
    (path : String) : (log.foldl (materialised num) ∅).lookup path =
      ((Lib.lastWrite SyncOp.written path log).getD none).bind fun json =>
        (formValueFromJson num json).toOption := by
  rw [@Lib.foldl_lookup _ _ _ _ _ (materialised num) (fun values path => values.lookup path) log
    (fun values op member => materialised_lookup (plain op member) (readable op member) values) ∅ path,
    Lib.lastWrite_read]
  cases Lib.lastWrite SyncOp.written path log <;> rfl

def answered (values : Dict Json) (op : WirePulledOp) : Dict Json :=
  match op.path, op.kind with
  | some path, .unset => values.erase path
  | some path, .set => values.insert path (op.value.getD .null)
  | _, _ => values

theorem answer_plain {op : WirePulledOp} (plain : op.valueCiphertext = none) (values : Dict Json) :
    SubmissionDecryptor.answer decryptOpValue contentKeys values op = .ok (answered values op) := by
  unfold SubmissionDecryptor.answer answered
  cases op.path <;> cases op.kind <;> simp only [plain]

theorem answered_lookup (op : SyncOp) (values : Dict Json) (path : String) :
    (answered values op.pulled).lookup path = (op.written path).getD (values.lookup path) := by
  simp only [answered, SyncOp.pulled_path, SyncOp.pulled_kind, SyncOp.pulled_value, SyncOp.written]
  cases op.kind <;> cases op.path <;> try rfl
  case unset.some here =>
    by_cases same : path = here
    · simp [Lib.lookup_erase_eq_ite, same]
    · simp [same, Ne.symm same]
  case set.some here =>
    by_cases same : path = here
    · simp [Lib.lookup_insert_eq_ite, same]
    · simp [same, Ne.symm same]

theorem answers_ok {log : List SyncOp} (plain : ∀ op ∈ log, op.valueCiphertext = none) :
    ∃ values, SubmissionDecryptor.answers decryptOpValue contentKeys (log.map (·.pulled)) = .ok values ∧
      ∀ path, values.lookup path =
        (Lib.lastWrite SyncOp.written path (log.insertionSort SyncOp.KotlinLe)).getD none := by
  have sorted : (log.map (·.pulled)).insertionSort WirePulledOp.Le =
      (log.insertionSort SyncOp.KotlinLe).map (·.pulled) :=
    (List.map_insertionSort SyncOp.KotlinLe WirePulledOp.Le _ _ fun _ _ _ _ => Iff.rfl).symm
  refine ⟨((log.insertionSort SyncOp.KotlinLe).map (·.pulled)).foldl answered ∅, ?_, fun path => ?_⟩
  · rw [SubmissionDecryptor.answers, sorted]
    refine Lib.foldlM_eq_ok (fun values op member => answer_plain ?_ values) ∅
    obtain ⟨own, present, rfl⟩ := List.mem_map.mp member
    exact plain own ((List.mem_insertionSort _).mp present)
  · rw [List.foldl_map]
    exact @Lib.foldl_lookup _ _ _ _ SyncOp.written _ (fun values path => values.lookup path) _
      (fun values op _ => answered_lookup op values) ∅ path

theorem lastTold_eq (log : List SyncOp) (path : String) :
    (Lib.lastWrite SyncOp.told path log).getD none = none ∨
      (Lib.lastWrite SyncOp.told path log).getD none =
        (Lib.lastWrite SyncOp.written path log).getD none := by
  induction log using List.reverseRecOn with
  | nil => exact Or.inl rfl
  | append_singleton log op ih =>
    rw [Lib.lastWrite_concat, Lib.lastWrite_concat, SyncOp.told]
    cases wrote : op.written path with
    | some w => exact Or.inr rfl
    | none =>
      cases erases : op.erased path with
      | none => exact ih
      | some w =>
        rw [SyncOp.erased_eq_some erases]
        exact Or.inl rfl

theorem tiesAlike_iff {log : List SyncOp} : TiesAlike log ↔
    ∀ path, (Lib.lastWrite SyncOp.written path (log.insertionSort SyncOp.KotlinLe)).getD none =
      (Lib.lastWrite SyncOp.written path log).getD none := by
  refine forall_congr' fun path => ⟨fun same => by rw [same], fun same => ?_⟩
  have untouched : Lib.lastWrite SyncOp.written path (log.insertionSort SyncOp.KotlinLe) = none ↔
      Lib.lastWrite SyncOp.written path log = none := by
    simp only [Lib.lastWrite_eq_none_iff, List.mem_insertionSort]
  cases left : Lib.lastWrite SyncOp.written path (log.insertionSort SyncOp.KotlinLe) with
  | none => exact (untouched.mp left).symm
  | some w =>
    cases right : Lib.lastWrite SyncOp.written path log with
    | none => cases left.symm.trans (untouched.mpr right)
    | some w' =>
      rw [left, right] at same
      exact congrArg some same

theorem readable_of_written {op : SyncOp} {path : String} {json : Json} (readable : op.Readable num)
    (wrote : op.written path = some (some json)) : ∃ value, formValueFromJson num json = .ok value := by
  obtain ⟨set, here, rfl⟩ := SyncOp.written_eq_some_some wrote
  cases value : op.valueJson with
  | none => exact ⟨.null, by simp [formValueFromJson]⟩
  | some json => exact readable set (by rw [here]; rfl) json value

/-- On a log with nothing sealed the device's folds hold the server's `data` exactly when the engine
reads every answer, no answer is lost to a deletion of its instance, and no tie between devices is
broken differently in UTF-16. -/
theorem foldsAgree_iff (plain : ∀ op ∈ store.opsFor id, op.valueCiphertext = none) :
    FoldsAgree num decryptOpValue contentKeys store id ↔
      (∀ op ∈ store.opsFor id, op.Readable num) ∧ OutlivesDeletes (store.opsFor id) ∧
        TiesAlike (store.opsFor id) := by
  generalize logged : store.opsFor id = log at plain ⊢
  have reads : (∀ op ∈ log, op.Readable num) → ∀ path json,
      (Lib.lastWrite SyncOp.written path log).getD none = some json →
      ∃ value, formValueFromJson num json = .ok value := by
    intro readable path json last
    cases wrote : Lib.lastWrite SyncOp.written path log with
    | none => rw [wrote] at last; cases last
    | some w =>
      rw [wrote, Option.getD_some] at last
      subst last
      obtain ⟨op, member, wrote⟩ := Lib.exists_of_lastWrite wrote
      exact readable_of_written (readable op member) wrote
  obtain ⟨values, ok, found⟩ :=
    @answers_ok decryptOpValue contentKeys log plain
  rw [outlivesDeletes_iff, tiesAlike_iff]
  constructor
  · rintro ⟨⟨answers, materialised, same⟩, ⟨values', ok', same'⟩⟩
    obtain ⟨readable, rfl⟩ := materialisedAnswers_ok_iff.mp materialised
    rw [logged] at readable same ok' same'
    cases ok.symm.trans ok'
    have outlives : ∀ path, (Lib.lastWrite SyncOp.told path log).getD none =
        (Lib.lastWrite SyncOp.written path log).getD none := by
      intro path
      rcases lastTold_eq log path with lost | kept
      · have here := same path
        rw [data_lookup plain, lost, foldl_materialised_lookup plain readable] at here
        cases last : (Lib.lastWrite SyncOp.written path log).getD none with
        | none => exact lost
        | some json =>
          obtain ⟨value, read⟩ := reads readable path json last
          simp [last, read, Except.toOption] at here
      · exact kept
    refine ⟨readable, outlives, fun path => ?_⟩
    rw [← found, same', data_lookup plain, outlives]
  · rintro ⟨readable, outlives, ties⟩
    refine ⟨⟨_, materialisedAnswers_ok_iff.mpr ⟨by rw [logged]; exact readable, rfl⟩, fun path => ?_⟩,
      values, by rw [logged]; exact ok, fun path => ?_⟩
    · rw [logged, foldl_materialised_lookup plain readable, data_lookup plain, outlives]
      cases last : (Lib.lastWrite SyncOp.written path log).getD none with
      | none => rfl
      | some json =>
        obtain ⟨value, read⟩ := reads readable path json last
        simp [read, Except.toOption]
    · rw [logged, found, ties, data_lookup plain, outlives]

/-! ### Ids within the basic plane -/

theorem utf16_of_basic {text : String} (basic : ∀ c ∈ text.toList, c.toNat < 0x10000) :
    utf16 text = text.toList.map Char.toNat := by
  unfold utf16
  generalize text.toList = chars at basic ⊢
  induction chars with
  | nil => rfl
  | cons c rest ih =>
    rw [List.flatMap_cons, List.map_cons, if_pos (basic c (by simp)),
      ih fun c member => basic c (by simp [member])]
    rfl

theorem map_toNat_lt_iff {a b : List Char} : a.map Char.toNat < b.map Char.toNat ↔ a < b := by
  induction a generalizing b with
  | nil => cases b <;> simp
  | cons c a ih =>
    cases b with
    | nil => simp
    | cons d b =>
      rw [List.map_cons, List.map_cons, List.cons_lt_cons_iff, List.cons_lt_cons_iff, ih]
      have same : c.toNat = d.toNat ↔ c = d := Char.toNat_inj
      rw [same]
      rfl

theorem utf16_le_iff {a b : String} (left : ∀ c ∈ a.toList, c.toNat < 0x10000)
    (right : ∀ c ∈ b.toList, c.toNat < 0x10000) : utf16 a ≤ utf16 b ↔ a ≤ b := by
  rw [utf16_of_basic left, utf16_of_basic right]
  have strict : b.toList.map Char.toNat < a.toList.map Char.toNat ↔ b < a := map_toNat_lt_iff
  rw [← not_lt, ← not_lt, strict]

instance : IsTrans SyncOp SyncOp.Le where
  trans a b c := @IsTrans.trans _ Sync.OpLe _ a.stored b.stored c.stored

instance : Std.Total SyncOp.Le where
  total a b := @Std.Total.total _ Sync.OpLe _ a.stored b.stored

theorem tiesAlike_of_basic
    (basic : ∀ op ∈ store.opsFor id, ∀ c ∈ op.deviceId.toList, c.toNat < 0x10000) :
    TiesAlike (store.opsFor id) := by
  have sorted : (store.opsFor id).Pairwise SyncOp.KotlinLe := by
    refine (List.pairwise_insertionSort SyncOp.Le _).imp_of_mem ?_
    intro a b first second le
    refine le.imp_right fun ⟨equal, le⟩ => ⟨equal, ?_⟩
    exact (utf16_le_iff (basic a first) (basic b second)).mpr le
  intro path
  rw [List.Pairwise.insertionSort_eq sorted]

/-! ### A member taken off the roster -/

def noNumerals : Numerals where
  doubleOfInt _ := 0
  doubleOfText _ := none
  longOfText _ := none
  longOfDouble _ := none

/-- The `n`th op of a draft `s1`. -/
def draftOp (n : Nat) (kind : OpKind) (path : String) (valueJson : Option Json) : SyncOp where
  opId := "op" ++ toString n
  submissionId := "s1"
  formId := "household"
  formVersion := 1
  kind := kind
  path := some path
  valueJson := valueJson
  deviceId := "dev_1"
  actorId := "usr_local"
  counter := n

/-- A member's age is recorded, and then the op `last` follows. -/
def rosterDraft (last : OpKind) : SubmissionStore where
  deviceId := "dev_1"
  counter := 2
  outbox :=
    ⟨[draftOp 1 .set "members[i1].age" (some (.int 7)), draftOp 2 last "members[i1]" none], by
      cases last <;> decide⟩

theorem rosterDraft_opsFor (last : OpKind) : (rosterDraft last).opsFor "s1" =
    [draftOp 1 .set "members[i1].age" (some (.int 7)), draftOp 2 last "members[i1]" none] := rfl

set_option maxRecDepth 10000 in
theorem rosterDraft_added_agrees :
    FoldsAgree noNumerals (fun _ => .error "") ∅ (rosterDraft .repeatAdd) "s1" := by
  have basic : ∀ op ∈ (rosterDraft .repeatAdd).opsFor "s1", ∀ c ∈ op.deviceId.toList, c.toNat < 0x10000 := by
    simp [rosterDraft_opsFor, draftOp]
  refine (foldsAgree_iff (by decide)).mpr ⟨?_, ?_, tiesAlike_of_basic basic⟩
  · simp [rosterDraft_opsFor, draftOp, SyncOp.Readable, formValueFromJson, Numerals.longOrNull]
  · simp [rosterDraft_opsFor, draftOp, OutlivesDeletes, SyncOp.Deletes]

theorem rosterDraft_deleted_disagrees :
    ¬ FoldsAgree noNumerals (fun _ => .error "") ∅ (rosterDraft .repeatDelete) "s1" := by
  rintro ⟨-, values, ok, same⟩
  have shown : values.lookup "members[i1].age" = some (.int 7) := by
    cases ok
    rfl
  have gone : (foldOps (((rosterDraft .repeatDelete).opsFor "s1").map (·.stored))).data.lookup
      "members[i1].age" = none := rfl
  cases (shown.symm.trans (same _)).trans gone

end DataCollectionLab.Core
