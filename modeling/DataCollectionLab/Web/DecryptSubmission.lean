import DataCollectionLab.Submissions.Paths
import DataCollectionLab.Sync.Log

/-!
`decryptSubmission`: the console unwraps what the reader's private key opens, decrypts what that
covers and folds the result. An op it cannot open is reported and passed over, so the fold goes on
from what stood before it.
-/

namespace DataCollectionLab.Web

inductive OpDecryptionState where
  | plaintext | decrypted | noKey | failed
  deriving DecidableEq, Repr

structure WrapView where
  projectKeyId : String
  ephemeralPublic : Bytes
  nonce : Bytes
  wrappedKey : Bytes

structure ContentKeyView where
  contentKeyId : String
  deviceId : String
  wraps : List WrapView

structure ProjectKeyDetail where
  keyId : String
  publicKey : Bytes
  role : String
  label : String
  revokedAt : Option Timestamp := none

/-- What the API returns of a submission. `SubmissionOpView` is the row itself, and `encrypted` says
whether it has ciphertext. -/
structure SubmissionDetail where
  id : String
  formVersion : Nat
  ops : List SubmissionOp
  opCount : Nat
  opsTruncated : Bool := false

structure ContentKeyStatus where
  contentKeyId : String
  deviceId : String
  opened : Bool
  wrappedTo : List String

structure DecryptionResult where
  answers : Dict Json := ∅
  values : Dict (OpDecryptionState × Json) := ∅
  contentKeys : List ContentKeyStatus := []
  problems : List String := []
  decryptedOps : Nat := 0
  encryptedOps : Nat := 0

structure Browser where
  /-- `none` where the wrap does not authenticate. -/
  unwrapContentKey : (contentKeyId projectKeyId : String) → (recipientPublic : Bytes) → WrapView →
    Option Bytes
  /-- An error is `String(cause)`. -/
  decryptOpValue : SubmissionOp → (contentKey : Bytes) → (submissionId : String) →
    (formVersion : Nat) → Except String Json
  localeCompare : String → String → Ordering

variable (browser : Browser)

/-- `publicByKeyId.get`. -/
def publicByKeyId (projectKeys : List ProjectKeyDetail) (keyId : String) : Option Bytes :=
  (projectKeys.findRev? (·.keyId == keyId)).map (·.publicKey)

def describe (projectKeys : List ProjectKeyDetail) (keyId : String) : String :=
  match projectKeys.find? (·.keyId == keyId) with
  | none => keyId ++ " (not a key of this project)"
  | some key => key.role ++ " — " ++ key.label ++ (if key.revokedAt.isNone then "" else " (revoked)")

def unwrap (projectKeys : List ProjectKeyDetail) (key : ContentKeyView) : Option Bytes :=
  key.wraps.findSome? fun wrap =>
    (publicByKeyId projectKeys wrap.projectKeyId).bind fun recipientPublic =>
      browser.unwrapContentKey key.contentKeyId wrap.projectKeyId recipientPublic wrap

/-- `opened`: the content keys the reader holds. -/
def openedKeys (projectKeys : List ProjectKeyDetail) (keys : List ContentKeyView) : Dict Bytes :=
  keys.foldl (fun opened key =>
    match unwrap browser projectKeys key with
    | some material => opened.insert key.contentKeyId material
    | none => opened) ∅

def keyProblem (projectKeys : List ProjectKeyDetail) (key : ContentKeyView) : Option String :=
  match unwrap browser projectKeys key with
  | some _ => none
  | none => some ("The content key for device " ++ key.deviceId ++ " is not wrapped to this " ++
      "private key. It is wrapped to: " ++
      "; ".intercalate (key.wraps.map fun wrap => describe projectKeys wrap.projectKeyId) ++
      ". A key registered after a submission was encrypted opens nothing older — historical " ++
      "submissions are never re-wrapped (envelope §8).")

def keyStatus (projectKeys : List ProjectKeyDetail) (key : ContentKeyView) : ContentKeyStatus where
  contentKeyId := key.contentKeyId
  deviceId := key.deviceId
  opened := (unwrap browser projectKeys key).isSome
  wrappedTo := key.wraps.map fun wrap => describe projectKeys wrap.projectKeyId

/-- `a.counter - b.counter || a.deviceId.localeCompare(b.deviceId)`, at most zero. -/
def ShownLe (a b : SubmissionOp) : Prop :=
  a.counter < b.counter ∨
    (a.counter = b.counter ∧ browser.localeCompare a.deviceId b.deviceId ≠ .gt)

instance : DecidableRel (ShownLe browser) := fun a b => inferInstanceAs (Decidable
  (a.counter < b.counter ∨ (a.counter = b.counter ∧ browser.localeCompare a.deviceId b.deviceId ≠ .gt)))

def openOp (detail : SubmissionDetail) (opened : Dict Bytes) (op : SubmissionOp) :
    OpDecryptionState × Json × Option String :=
  match op.valueCiphertext with
  | none => (.plaintext, op.value, none)
  | some _ =>
    match op.contentKeyId.bind fun id => opened.lookup id with
    | none => (.noKey, op.value, none)
    | some material =>
      match browser.decryptOpValue op material detail.id detail.formVersion with
      | .ok value => (.decrypted, value, none)
      | .error cause => (.failed, op.value,
          some ("Op " ++ op.id ++ " (" ++ op.path.getD "—" ++ ") did not authenticate: " ++ cause))

def foldAnswer (answers : Dict Json) (op : SubmissionOp) (value : Json) : Dict Json :=
  match op.opKind, op.path with
  | .set, some path => answers.insert path value
  | .unset, some path => answers.erase path
  | .repeatDelete, some path => Lib.dropKeys (covers path) answers
  | _, _ => answers

def showOp (detail : SubmissionDetail) (opened : Dict Bytes) (shown : DecryptionResult)
    (op : SubmissionOp) : DecryptionResult :=
  let (state, value, problem) := openOp browser detail opened op
  { shown with
    answers :=
      if state = .failed ∨ state = .noKey then shown.answers else foldAnswer shown.answers op value
    values := shown.values.insert op.id (state, value)
    problems := shown.problems ++ problem.toList
    decryptedOps := shown.decryptedOps + (if state = .decrypted then 1 else 0)
    encryptedOps := shown.encryptedOps + (if op.valueCiphertext.isSome then 1 else 0) }

def truncatedProblem (detail : SubmissionDetail) : Option String :=
  if detail.opsTruncated then
    some ("Only the first " ++ toString detail.ops.length ++ " of " ++ toString detail.opCount ++
      " ops were returned, so these answers are a prefix of the log rather than its current state.")
  else none

def decryptSubmission (detail : SubmissionDetail) (keys : List ContentKeyView)
    (projectKeys : List ProjectKeyDetail) : DecryptionResult :=
  let shown := (detail.ops.insertionSort (ShownLe browser)).foldl
    (showOp browser detail (openedKeys browser projectKeys keys))
    { contentKeys := keys.map (keyStatus browser projectKeys)
      problems := keys.filterMap (keyProblem browser projectKeys) }
  { shown with problems := shown.problems ++ (truncatedProblem detail).toList }

/-! ### The server's fold, seen through the keys held -/

def touches (op : SubmissionOp) (path : String) : Bool :=
  match op.opKind, op.path with
  | .set, some given | .unset, some given => path = given
  | .repeatDelete, some given => covers given path
  | _, _ => false

section Seen

variable (detail : SubmissionDetail) (opened : Dict Bytes)

/-- The value the reader gets of an op; `none` where it cannot be opened. -/
def readValue (op : SubmissionOp) : Option Json :=
  match op.valueCiphertext with
  | none => some op.value
  | some _ => (op.contentKeyId.bind fun id => opened.lookup id).bind fun material =>
      (browser.decryptOpValue op material detail.id detail.formVersion).toOption

def serverLog : List SubmissionOp := detail.ops.insertionSort Sync.OpLe

/-- `fold_ops` on the log, with each unreadable path opened where its key is held: the value of the
latest set of the path. -/
def seenThrough (log : List SubmissionOp) (path : String) : Option Json :=
  match (foldOps log).data.lookup path with
  | some value => some value
  | none => do
    let contentKeyId ← (foldOps log).unreadable.lookup path
    let material ← opened.lookup contentKeyId
    let op ← (log.filter fun op => op.opKind = .set ∧ op.path = some path).getLast?
    (browser.decryptOpValue op material detail.id detail.formVersion).toOption

/-- The last op in the console's order that touches the path and can be opened, which is what the
console goes by, against the last in the server's order that touches it. -/
def ReadAlike (path : String) : Prop :=
  ∀ last ∈ ((serverLog detail).filter fun op => touches op path).getLast?,
  ∀ shown ∈ ((detail.ops.insertionSort (ShownLe browser)).filter fun op =>
      touches op path && (readValue browser detail opened op).isSome).getLast?,
    if (readValue browser detail opened last).isSome then
      -- Both are opened: they say the same.
      (shown.opKind = .set ↔ last.opKind = .set) ∧
        (last.opKind = .set → readValue browser detail opened shown = readValue browser detail opened last)
    else
      -- The last word is closed to this reader: nothing older may stand in for it.
      shown.opKind ≠ .set

end Seen

section

variable {browser : Browser} {detail : SubmissionDetail} {opened : Dict Bytes}

def seenWrite (browser : Browser) (detail : SubmissionDetail) (opened : Dict Bytes) (op : SubmissionOp)
    (path : String) : Option (Option Json) :=
  if touches op path then
    some (if op.opKind = .set then readValue browser detail opened op else none)
  else none

def shownWrite (browser : Browser) (detail : SubmissionDetail) (opened : Dict Bytes) (op : SubmissionOp)
    (path : String) : Option (Option Json) :=
  if (readValue browser detail opened op).isSome then seenWrite browser detail opened op path else none

theorem openOp_eq (op : SubmissionOp) :
    (((openOp browser detail opened op).1 = .failed ∨ (openOp browser detail opened op).1 = .noKey) ∧
      readValue browser detail opened op = none) ∨
    (¬ ((openOp browser detail opened op).1 = .failed ∨ (openOp browser detail opened op).1 = .noKey) ∧
      readValue browser detail opened op = some (openOp browser detail opened op).2.1) := by
  unfold openOp readValue
  cases op.valueCiphertext with
  | none => exact Or.inr ⟨by simp, rfl⟩
  | some _ =>
    cases op.contentKeyId.bind fun id => opened.lookup id with
    | none => exact Or.inl ⟨Or.inr rfl, rfl⟩
    | some material =>
      simp only [Option.bind_some]
      cases browser.decryptOpValue op material detail.id detail.formVersion with
      | ok value => exact Or.inr ⟨by simp, rfl⟩
      | error cause => exact Or.inl ⟨Or.inl rfl, rfl⟩

theorem foldAnswer_lookup (answers : Dict Json) (op : SubmissionOp) (value : Json) (path : String) :
    (foldAnswer answers op value).lookup path =
      if touches op path then (if op.opKind = .set then some value else none)
      else answers.lookup path := by
  unfold foldAnswer touches
  cases op.opKind <;> cases op.path <;>
    simp [Lib.lookup_insert_eq_ite, Lib.lookup_erase_eq_ite, Lib.lookup_dropKeys]

theorem showOp_lookup (shown : DecryptionResult) (op : SubmissionOp) (path : String) :
    (showOp browser detail opened shown op).answers.lookup path =
      (shownWrite browser detail opened op path).getD (shown.answers.lookup path) := by
  have shows : (showOp browser detail opened shown op).answers =
      if (openOp browser detail opened op).1 = .failed ∨ (openOp browser detail opened op).1 = .noKey
      then shown.answers else foldAnswer shown.answers op (openOp browser detail opened op).2.1 := rfl
  rw [shows, shownWrite]
  rcases openOp_eq op with ⟨closed, read⟩ | ⟨opens, read⟩
  · rw [if_pos closed, read]
    rfl
  · rw [if_neg opens, foldAnswer_lookup, read, seenWrite, read, Option.isSome_some, if_pos rfl]
    split <;> rfl

theorem decryptSubmission_lookup (keys : List ContentKeyView) (projectKeys : List ProjectKeyDetail)
    (path : String) :
    (decryptSubmission browser detail keys projectKeys).answers.lookup path =
      (Lib.lastWrite (shownWrite browser detail (openedKeys browser projectKeys keys)) path
        (detail.ops.insertionSort (ShownLe browser))).getD none :=
  @Lib.foldl_lookup _ _ _ _ (shownWrite browser detail (openedKeys browser projectKeys keys)) _
    (fun shown path => shown.answers.lookup path) _ (fun shown op _ => showOp_lookup shown op) _ path

theorem writes_of_untouched {op : SubmissionOp} {path : String} (free : touches op path = false) :
    dataWrite op path = none ∧ unreadableWrite op path = none ∧
      ¬ (op.opKind = .set ∧ op.path = some path) := by
  revert free
  unfold touches dataWrite unreadableWrite
  cases op.opKind <;> cases op.path <;> simp
  exact fun apart => ⟨fun same => absurd same apart, fun same => absurd same apart, Ne.symm apart⟩

theorem writes_of_removed {op : SubmissionOp} {path : String} (touched : touches op path = true)
    (removes : op.opKind ≠ .set) :
    dataWrite op path = some none ∧ unreadableWrite op path = some none := by
  revert touched removes
  unfold touches dataWrite unreadableWrite
  cases op.opKind <;> cases op.path <;> simp

theorem path_of_set {op : SubmissionOp} {path : String} (touched : touches op path = true)
    (set : op.opKind = .set) : op.path = some path := by
  revert touched
  unfold touches
  rw [set]
  cases op.path <;> simp [eq_comm]

theorem seenThrough_eq {log : List SubmissionOp}
    (keyed : ∀ op ∈ log, op.valueCiphertext.isSome = true → op.contentKeyId.isSome = true)
    (path : String) : seenThrough browser detail opened log path =
      (Lib.lastWrite (seenWrite browser detail opened) path log).getD none := by
  unfold seenThrough
  rw [foldOps_data, foldOps_unreadable]
  induction log using List.reverseRecOn with
  | nil => rfl
  | append_singleton log op ih =>
    have ih := ih fun op member => keyed op (by simp [member])
    have keyed := keyed op (by simp)
    rw [Lib.lastWrite_concat, Lib.lastWrite_concat, Lib.lastWrite_concat, List.filter_append, seenWrite]
    cases touched : touches op path with
    | false =>
      obtain ⟨data, unreadable, other⟩ := writes_of_untouched touched
      simp only [data, unreadable, Option.none_or, List.filter_singleton, other, decide_false]
      simpa using ih
    | true =>
      by_cases set : op.opKind = .set
      · have here := path_of_set touched set
        cases sealed : op.valueCiphertext with
        | none => simp [dataWrite, readValue, set, here, sealed]
        | some _ =>
          obtain ⟨id, named⟩ := Option.isSome_iff_exists.mp (keyed (by rw [sealed]; rfl))
          cases held : opened.lookup id <;>
            simp [dataWrite, unreadableWrite, readValue, set, here, sealed, named, held]
      · obtain ⟨data, unreadable⟩ := writes_of_removed touched set
        simp [data, unreadable, set]

theorem isSome_seenWrite (op : SubmissionOp) (path : String) :
    (seenWrite browser detail opened op path).isSome = touches op path := by
  unfold seenWrite
  cases touches op path <;> rfl

theorem isSome_shownWrite (op : SubmissionOp) (path : String) :
    (shownWrite browser detail opened op path).isSome =
      (touches op path && (readValue browser detail opened op).isSome) := by
  unfold shownWrite
  cases (readValue browser detail opened op).isSome <;> simp [isSome_seenWrite]

theorem word_eq_iff {last shown : SubmissionOp}
    (read : (readValue browser detail opened shown).isSome = true) :
    ((if shown.opKind = .set then readValue browser detail opened shown else none) =
        if last.opKind = .set then readValue browser detail opened last else none) ↔
      if (readValue browser detail opened last).isSome then
        (shown.opKind = .set ↔ last.opKind = .set) ∧
          (last.opKind = .set → readValue browser detail opened shown = readValue browser detail opened last)
      else shown.opKind ≠ .set := by
  obtain ⟨value, read⟩ := Option.isSome_iff_exists.mp read
  rw [read]
  cases readValue browser detail opened last <;> by_cases one : shown.opKind = .set <;>
    by_cases two : last.opKind = .set <;> simp [one, two]

theorem readAlike_of_opened
    (ordered : detail.ops.insertionSort (ShownLe browser) = serverLog detail)
    (opens : ∀ op ∈ detail.ops, (readValue browser detail opened op).isSome = true) (path : String) :
    ReadAlike browser detail opened path := by
  have same : (serverLog detail).filter (fun op =>
      touches op path && (readValue browser detail opened op).isSome) =
      (serverLog detail).filter fun op => touches op path := by
    refine List.filter_congr fun op member => ?_
    rw [opens op ((List.mem_insertionSort _).mp member), Bool.and_true]
  intro last isLast shown isShown
  rw [ordered, same] at isShown
  cases Option.mem_unique isLast isShown
  rw [if_pos (opens last _)]
  · exact ⟨Iff.rfl, fun _ => rfl⟩
  · have member := (List.mem_filter.mp (List.mem_of_getLast? isLast)).1
    exact (List.mem_insertionSort _).mp member

end

/-! ### An answer first given in the open and then under encryption -/

/-- A browser that orders plain ids by code point, and opens what `material` seals. -/
def plainBrowser (material : Option Bytes) : Browser where
  unwrapContentKey _ _ _ _ := material
  decryptOpValue _ contentKey _ _ :=
    if some contentKey = material then .ok (.int 250) else .error "OperationError"
  localeCompare a b := if a < b then .lt else if a = b then .eq else .gt

/-- The `n`th answer to `income`. -/
def incomeOp (n : Nat) (value : Json) (envelope : Option (Bytes × String × Bytes)) : SubmissionOp where
  id := "op" ++ toString n
  submissionId := "s1"
  opKind := .set
  path := some "income"
  value := value
  valueCiphertext := envelope.map (·.1)
  contentKeyId := envelope.map (·.2.1)
  nonce := envelope.map (·.2.2)
  deviceId := "dev_1"
  actorId := none
  counter := n
  wallClock := 0
  serverSeq := n

def incomeDetail : SubmissionDetail where
  id := "s1"
  formVersion := 1
  ops := [incomeOp 1 (.int 100) none, incomeOp 2 .null (some ([1], "ck1", [2]))]
  opCount := 2

def incomeKeys : List ContentKeyView := [⟨"ck1", "dev_1", [⟨"pk1", [3], [4], [5]⟩]⟩]

def incomeProjectKeys : List ProjectKeyDetail := [⟨"pk1", [6], "primary", "Office", none⟩]

end DataCollectionLab.Web
