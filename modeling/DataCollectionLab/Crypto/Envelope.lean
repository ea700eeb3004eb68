import DataCollectionLab.Core.SyncCrypto
import DataCollectionLab.Lib.Lists

/-!
What the reference envelope binds a ciphertext to: the associated data of op values, of media chunks and of
wrapped keys, and what the nonces are hashes of. Fields are set beside each other, with a bar between them or
with nothing.
-/

namespace DataCollectionLab.Crypto

open Lib
open Core (utf8 utf8_injective bigEndian bigEndian_injective)

inductive EnvelopeFailure where
  | envelopeError (message : String)
  /-- `int.to_bytes` of a number that does not fit. -/
  | overflowError
  deriving DecidableEq

/-- `value.to_bytes(8, "big")`. -/
def toBytes (value : ℤ) : Except EnvelopeFailure Bytes :=
  if value < 0 ∨ 2 ^ 64 ≤ value then .error .overflowError else .ok (bigEndian value.toNat)

/-- What `op_nonce` hashes. -/
def opNonceMaterial (deviceId : String) (counter : ℤ) : Except EnvelopeFailure Bytes :=
  if counter < 0 then .error (.envelopeError "counter must be non-negative")
  else do return utf8 "dcp/v1/op-nonce" ++ utf8 deviceId ++ (← toBytes counter)

/-- What `media_nonce` hashes. -/
def mediaNonceMaterial (mediaId : String) (chunkIndex : ℤ) : Except EnvelopeFailure Bytes := do
  return utf8 "dcp/v1/media-nonce" ++ utf8 mediaId ++ (← toBytes chunkIndex)

/-- The associated data of `wrap_content_key`. -/
def wrapAad (projectKeyId contentKeyId : String) : Bytes := utf8 projectKeyId ++ utf8 contentKeyId

/-- The associated data of `encrypt_media_chunk`. -/
def chunkAad (mediaId : String) (chunkIndex : ℤ) : Except EnvelopeFailure Bytes := do
  return utf8 mediaId ++ (← toBytes chunkIndex)

/-- Where an op value stands. No field is empty on the wire, and a version is at least one. -/
structure OpPlace where
  opId : String
  submissionId : String
  path : String
  formVersion : ℕ
  opId_ne : opId ≠ ""
  submissionId_ne : submissionId ≠ ""
  path_ne : path ≠ ""
  formVersion_pos : 1 ≤ formVersion

def opAad (place : OpPlace) : Bytes :=
  (utf8 "|").intercalate
    [utf8 place.opId, utf8 place.submissionId, utf8 place.path, utf8 (toString place.formVersion)]

theorem utf8_append (a b : String) : utf8 (a ++ b) = utf8 a ++ utf8 b := by
  unfold utf8
  simp [String.toByteArray_append, ByteArray.data_append]

theorem opAad_eq (place : OpPlace) : opAad place =
    utf8 (place.opId ++ "|" ++ (place.submissionId ++ "|" ++ (place.path ++ "|" ++ toString place.formVersion))) := by
  simp [opAad, List.intercalate, utf8_append]

def Past (short long rest : String) : Prop := long = short ++ "|" ++ rest

theorem bar_eq_iff {a b c d : String} :
    a ++ "|" ++ b = c ++ "|" ++ d ↔ (a = c ∧ b = d) ∨ (∃ w, Past a c w ∧ Past w b d) ∨ ∃ w, Past c a w ∧ Past w d b := by
  have lists (x y : String) : (x ++ "|" ++ y).toList = x.toList ++ '|' :: y.toList := by
    simp [String.toList_append]
  have past (x y z : String) : Past x y z ↔ y.toList = x.toList ++ '|' :: z.toList := by
    rw [Past, ← String.toList_inj, lists]
  have text (P : List Char → Prop) : (∃ w : List Char, P w) ↔ ∃ w : String, P w.toList := by
    constructor
    · rintro ⟨w, holds⟩
      exact ⟨String.ofList w, by rwa [String.toList_ofList]⟩
    · rintro ⟨w, holds⟩
      exact ⟨w.toList, holds⟩
  rw [← String.toList_inj, lists, lists, append_cons_eq_iff, String.toList_inj, String.toList_inj, text, text]
  simp only [past]

theorem version_unbarred (n : ℕ) : '|' ∉ (toString n).toList := by
  intro listed
  have digits : (toString n).toList = Nat.toDigits 10 n := by simp [Nat.toString_eq_repr, Nat.toList_repr]
  rw [digits] at listed
  have digit := Nat.isDigit_of_mem_toDigits (by decide) (by decide) listed
  revert digit
  decide

theorem toString_injective {m n : ℕ} (same : toString m = toString n) : m = n := by
  have digits := congrArg String.toList same
  simp only [Nat.toString_eq_repr, Nat.toList_repr] at digits
  have values := congrArg (Nat.ofDigitChars 10 · 0) digits
  simpa only [Nat.ofDigitChars_ten_toDigits] using values

theorem version_inj {text text' : String} {m n : ℕ} (same : text ++ "|" ++ toString m = text' ++ "|" ++ toString n) :
    text = text' ∧ m = n := by
  have lists (x y : String) : (x ++ "|" ++ y).toList = x.toList ++ '|' :: y.toList := by
    simp [String.toList_append]
  rw [← String.toList_inj, lists, lists] at same
  obtain ⟨texts, versions⟩ := append_cons_inj (version_unbarred m) (version_unbarred n) same
  exact ⟨String.toList_inj.mp texts, toString_injective (String.toList_inj.mp versions)⟩

/-! ### Places that share their data -/

/-- The op id, or under one op id the submission id, goes on past a bar into the other place's, and what follows
fills the rest. -/
def SlidesInto (a b : OpPlace) : Prop :=
  a.formVersion = b.formVersion ∧
    ((∃ w, Past a.opId b.opId w ∧ Past w (a.submissionId ++ "|" ++ a.path) (b.submissionId ++ "|" ++ b.path)) ∨
      (a.opId = b.opId ∧ ∃ w, Past a.submissionId b.submissionId w ∧ Past w a.path b.path))

theorem opAad_eq_iff (a b : OpPlace) : opAad a = opAad b ↔ a = b ∨ SlidesInto a b ∨ SlidesInto b a := by
  have joined (p : OpPlace) :
      p.opId ++ "|" ++ (p.submissionId ++ "|" ++ (p.path ++ "|" ++ toString p.formVersion)) =
        p.opId ++ "|" ++ (p.submissionId ++ "|" ++ p.path) ++ "|" ++ toString p.formVersion := by
    simp only [String.append_assoc]
  have texts : opAad a = opAad b ↔ a.opId ++ "|" ++ (a.submissionId ++ "|" ++ a.path) =
      b.opId ++ "|" ++ (b.submissionId ++ "|" ++ b.path) ∧ a.formVersion = b.formVersion := by
    rw [opAad_eq, opAad_eq, joined, joined]
    constructor
    · exact fun same => version_inj (utf8_injective same)
    · rintro ⟨same, version⟩
      rw [same, version]
  have places : a = b ↔ (a.opId = b.opId ∧ a.submissionId = b.submissionId ∧ a.path = b.path) ∧
      a.formVersion = b.formVersion := by
    cases a
    cases b
    simp [and_assoc]
  rw [texts, places, bar_eq_iff, bar_eq_iff]
  unfold SlidesInto
  constructor
  · rintro ⟨⟨ops, ⟨submissions, paths⟩ | slide | slide⟩ | slide | slide, version⟩
    · exact .inl ⟨⟨ops, submissions, paths⟩, version⟩
    · exact .inr (.inl ⟨version, .inr ⟨ops, slide⟩⟩)
    · exact .inr (.inr ⟨version.symm, .inr ⟨ops.symm, slide⟩⟩)
    · exact .inr (.inl ⟨version, .inl slide⟩)
    · exact .inr (.inr ⟨version.symm, .inl slide⟩)
  · rintro (⟨⟨ops, submissions, paths⟩, version⟩ | ⟨version, slide | ⟨ops, slide⟩⟩ | ⟨version, slide | ⟨ops, slide⟩⟩)
    · exact ⟨.inl ⟨ops, .inl ⟨submissions, paths⟩⟩, version⟩
    · exact ⟨.inr (.inl slide), version⟩
    · exact ⟨.inl ⟨ops, .inr (.inl slide)⟩, version⟩
    · exact ⟨.inr (.inr slide), version.symm⟩
    · exact ⟨.inl ⟨ops.symm, .inr (.inr slide)⟩, version.symm⟩

theorem not_past_self (a w : String) : ¬ Past a a w := by
  intro past
  have lengths := congrArg String.length past
  simp only [String.length_append] at lengths
  have bar : "|".length = 1 := rfl
  omega

theorem not_slidesInto_self (a : OpPlace) : ¬ SlidesInto a a := by
  rintro ⟨-, ⟨w, past, -⟩ | ⟨-, w, past, -⟩⟩
  · exact not_past_self _ w past
  · exact not_past_self _ w past

def RunsInto (a b : String × String) : Prop := ∃ w, w ≠ "" ∧ b.1 = a.1 ++ w ∧ a.2 = w ++ b.2

theorem not_runsInto_self (a : String × String) : ¬ RunsInto a a := by
  rintro ⟨w, nonempty, longer, -⟩
  have lengths := congrArg String.length longer
  rw [String.length_append] at lengths
  exact nonempty (String.length_eq_zero_iff.mp (by omega))

theorem wrapAad_eq_iff (a b : String × String) :
    wrapAad a.1 a.2 = wrapAad b.1 b.2 ↔ a = b ∨ RunsInto a b ∨ RunsInto b a := by
  have lists : wrapAad a.1 a.2 = wrapAad b.1 b.2 ↔ a.1.toList ++ a.2.toList = b.1.toList ++ b.2.toList := by
    rw [wrapAad, wrapAad, ← utf8_append, ← utf8_append, ← String.toList_append, ← String.toList_append, String.toList_inj]
    exact ⟨utf8_injective, fun same => by rw [same]⟩
  have runs {x y : String × String} {w : List Char} (longer : y.1.toList = x.1.toList ++ w) (rest : x.2.toList = w ++ y.2.toList) :
      x = y ∨ RunsInto x y := by
    cases w with
    | nil =>
      rw [List.append_nil] at longer
      exact .inl (Prod.ext (String.toList_inj.mp longer.symm) (String.toList_inj.mp rest))
    | cons c w =>
      refine .inr ⟨String.ofList (c :: w), ?_, ?_, ?_⟩
      · intro empty
        have lists := congrArg String.toList empty
        simp at lists
      · rw [← String.toList_inj, longer, String.toList_append, String.toList_ofList]
      · rw [← String.toList_inj, rest, String.toList_append, String.toList_ofList]
  rw [lists]
  constructor
  · intro same
    rcases List.append_eq_append_iff.mp same with ⟨w, longer, rest⟩ | ⟨w, longer, rest⟩
    · exact (runs longer rest).imp_right .inl
    · exact (runs longer rest).imp Eq.symm .inr
  · rintro (rfl | ⟨w, -, longer, rest⟩ | ⟨w, -, longer, rest⟩)
    · rfl
    · rw [longer, rest]
      simp
    · rw [longer, rest]
      simp

theorem toBytes_ok {value : ℤ} {bytes : Bytes} (ok : toBytes value = .ok bytes) :
    0 ≤ value ∧ value.toNat < 2 ^ 64 ∧ bytes = bigEndian value.toNat := by
  unfold toBytes at ok
  split at ok
  · cases ok
  · rename_i fits
    obtain rfl := Except.ok.inj ok
    exact ⟨by omega, by omega, rfl⟩

theorem numbered_inj {front front' : Bytes} {m n : ℤ} {bytes bytes' : Bytes} (first : toBytes m = .ok bytes)
    (second : toBytes n = .ok bytes') (same : front ++ bytes = front' ++ bytes') : front = front' ∧ m = n := by
  obtain ⟨nonneg, below, rfl⟩ := toBytes_ok first
  obtain ⟨nonneg', below', rfl⟩ := toBytes_ok second
  obtain ⟨fronts, numbers⟩ := List.append_inj' same (by simp [Core.bigEndian])
  have values := bigEndian_injective below below' numbers
  exact ⟨fronts, by omega⟩

theorem opNonceMaterial_ok {deviceId : String} {counter : ℤ} {m : Bytes} (ok : opNonceMaterial deviceId counter = .ok m) :
    ∃ bytes, toBytes counter = .ok bytes ∧ m = utf8 "dcp/v1/op-nonce" ++ utf8 deviceId ++ bytes := by
  unfold opNonceMaterial at ok
  split at ok
  · cases ok
  · obtain ⟨bytes, number, same⟩ := bind_ok_iff.mp ok
    exact ⟨bytes, number, (Except.ok.inj same).symm⟩

theorem mediaNonceMaterial_ok {mediaId : String} {chunkIndex : ℤ} {m : Bytes} (ok : mediaNonceMaterial mediaId chunkIndex = .ok m) :
    ∃ bytes, toBytes chunkIndex = .ok bytes ∧ m = utf8 "dcp/v1/media-nonce" ++ utf8 mediaId ++ bytes := by
  obtain ⟨bytes, number, same⟩ := bind_ok_iff.mp ok
  exact ⟨bytes, number, (Except.ok.inj same).symm⟩

theorem opNonceMaterial_inj {d d' : String} {c c' : ℤ} {m : Bytes} (first : opNonceMaterial d c = .ok m)
    (second : opNonceMaterial d' c' = .ok m) : d = d' ∧ c = c' := by
  obtain ⟨bytes, number, rfl⟩ := opNonceMaterial_ok first
  obtain ⟨bytes', number', same⟩ := opNonceMaterial_ok second
  obtain ⟨fronts, counters⟩ := numbered_inj number number' same
  exact ⟨utf8_injective (List.append_cancel_left fronts), counters⟩

theorem mediaNonceMaterial_inj {d d' : String} {c c' : ℤ} {m : Bytes} (first : mediaNonceMaterial d c = .ok m)
    (second : mediaNonceMaterial d' c' = .ok m) : d = d' ∧ c = c' := by
  obtain ⟨bytes, number, rfl⟩ := mediaNonceMaterial_ok first
  obtain ⟨bytes', number', same⟩ := mediaNonceMaterial_ok second
  obtain ⟨fronts, counters⟩ := numbered_inj number number' same
  exact ⟨utf8_injective (List.append_cancel_left fronts), counters⟩

theorem nonceMaterials_apart {d d' : String} {c c' : ℤ} {m : Bytes} (first : opNonceMaterial d c = .ok m) :
    mediaNonceMaterial d' c' ≠ .ok m := by
  intro second
  obtain ⟨bytes, -, rfl⟩ := opNonceMaterial_ok first
  obtain ⟨bytes', -, same⟩ := mediaNonceMaterial_ok second
  have eighth := congrArg (·[7]?) same
  simp only [List.append_assoc] at eighth
  rw [List.getElem?_append_left (by decide +kernel), List.getElem?_append_left (by decide +kernel)] at eighth
  revert eighth
  decide +kernel

theorem chunkAad_inj {d d' : String} {c c' : ℤ} {m : Bytes} (first : chunkAad d c = .ok m) (second : chunkAad d' c' = .ok m) :
    d = d' ∧ c = c' := by
  obtain ⟨bytes, number, same⟩ := bind_ok_iff.mp first
  obtain ⟨bytes', number', same'⟩ := bind_ok_iff.mp second
  have joined : utf8 d ++ bytes = utf8 d' ++ bytes' := (Except.ok.inj same).trans (Except.ok.inj same').symm
  obtain ⟨texts, chunks⟩ := numbered_inj number number' joined
  exact ⟨utf8_injective texts, chunks⟩

structure Places where
  op : OpPlace
  deviceId : String
  counter : ℤ
  mediaId : String
  chunkIndex : ℤ
  /-- The project key id and the content key id. -/
  keys : String × String

/-- No data and no nonce of the one is that of the other, unless the places are the same. -/
structure Apart (x y : Places) : Prop where
  op : opAad x.op = opAad y.op → x.op = y.op
  opNonce : ∀ m, opNonceMaterial x.deviceId x.counter = .ok m → opNonceMaterial y.deviceId y.counter = .ok m →
    x.deviceId = y.deviceId ∧ x.counter = y.counter
  mediaNonce : ∀ m, mediaNonceMaterial x.mediaId x.chunkIndex = .ok m → mediaNonceMaterial y.mediaId y.chunkIndex = .ok m →
    x.mediaId = y.mediaId ∧ x.chunkIndex = y.chunkIndex
  nonces : ∀ m, opNonceMaterial x.deviceId x.counter = .ok m → mediaNonceMaterial y.mediaId y.chunkIndex ≠ .ok m
  chunk : ∀ m, chunkAad x.mediaId x.chunkIndex = .ok m → chunkAad y.mediaId y.chunkIndex = .ok m →
    x.mediaId = y.mediaId ∧ x.chunkIndex = y.chunkIndex
  keys : wrapAad x.keys.1 x.keys.2 = wrapAad y.keys.1 y.keys.2 → x.keys = y.keys

theorem apart_iff (x y : Places) : Apart x y ↔
    (¬ SlidesInto x.op y.op ∧ ¬ SlidesInto y.op x.op) ∧ ¬ RunsInto x.keys y.keys ∧ ¬ RunsInto y.keys x.keys := by
  constructor
  · intro apart
    have ops (slides : SlidesInto x.op y.op ∨ SlidesInto y.op x.op) : False := by
      have same := apart.op ((opAad_eq_iff x.op y.op).mpr (.inr slides))
      rw [same] at slides
      exact slides.elim (not_slidesInto_self y.op) (not_slidesInto_self y.op)
    have keys (runs : RunsInto x.keys y.keys ∨ RunsInto y.keys x.keys) : False := by
      have same := apart.keys ((wrapAad_eq_iff x.keys y.keys).mpr (.inr runs))
      rw [same] at runs
      exact runs.elim (not_runsInto_self y.keys) (not_runsInto_self y.keys)
    exact ⟨⟨fun s => ops (.inl s), fun s => ops (.inr s)⟩, fun r => keys (.inl r), fun r => keys (.inr r)⟩
  · rintro ⟨⟨forth, back⟩, run, runBack⟩
    refine ⟨fun same => ?_, fun m => opNonceMaterial_inj, fun m => mediaNonceMaterial_inj, fun m => nonceMaterials_apart,
      fun m => chunkAad_inj, fun same => ?_⟩
    · rcases (opAad_eq_iff x.op y.op).mp same with equal | slides | slides
      · exact equal
      · exact absurd slides forth
      · exact absurd slides back
    · rcases (wrapAad_eq_iff x.keys y.keys).mp same with equal | runs | runs
      · exact equal
      · exact absurd runs run
      · exact absurd runs runBack

/-- The bar of an op id, and the same bar in a submission id. -/
theorem barred_not_apart : ¬ Apart
    ⟨⟨"a|b", "c", "age", 1, by decide, by decide, by decide, by decide⟩, "d1", 0, "m1", 0, ("k1", "c1")⟩
    ⟨⟨"a", "b|c", "age", 1, by decide, by decide, by decide, by decide⟩, "d1", 0, "m1", 0, ("k1", "c1")⟩ := by
  intro apart
  have same := apart.op (by decide +kernel)
  have ids := congrArg OpPlace.opId same
  revert ids
  decide

end DataCollectionLab.Crypto
