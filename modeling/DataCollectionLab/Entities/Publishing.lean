import DataCollectionLab.Crypto.CanonicalReading
import DataCollectionLab.Entities.Delivery
import DataCollectionLab.Lib.Lists
import Mathlib.Data.List.Forall2
import Mathlib.Data.List.Sort

/-!
`publish_dataset_version` with its content addresses, and the walk of `dataset_rows_page`. A version is known by a hash
over its sorted pairs of a key and a row's hash, so what it delivers are the rows it was asked for. The order is not
part of its identity.
-/

namespace DataCollectionLab.Entities

open Core (utf8 utf8_injective)
open Crypto

section Identity

variable (sha256 : Bytes → Bytes) (doubles : Doubles)

def hexByte (byte : UInt8) : List Char := [Nat.digitChar (byte.toNat / 16), Nat.digitChar (byte.toNat % 16)]

def hexdigest (bytes : Bytes) : String := String.ofList ((sha256 bytes).flatMap hexByte)

def Row.json (row : Row) : Json := .obj (row.cells.map fun cell => (cell.1, .str cell.2))

/-- `canonical_json` of a row. There is nothing in one that it refuses. -/
def rowText (row : Row) : Bytes := (canonicalJson doubles row.json).getD []

def rowHash (row : Row) : String := "sha256:" ++ hexdigest sha256 (rowText doubles row)

def pairLe (a b : String × String) : Bool := a.1 < b.1 || (a.1 == b.1 && a.2 ≤ b.2)

/-- What `version_checksum` feeds the digest. -/
def streamOf (pairs : List (String × String)) : Bytes :=
  pairs.flatMap fun pair => utf8 pair.1 ++ 0 :: (utf8 pair.2 ++ [0])

def versionChecksum (pairs : List (String × String)) : String :=
  "sha256:" ++ hexdigest sha256 (streamOf (pairs.insertionSort (pairLe · ·)))

def keyOf (keyColumn : String) (row : Row) : String := (row.get keyColumn).getD ""

def hashed (keyColumn : String) (rows : List Row) : List (String × String) :=
  rows.map fun row => (keyOf keyColumn row, rowHash sha256 doubles row)

def contentAddress (keyColumn : String) (rows : List Row) : String :=
  versionChecksum sha256 (hashed sha256 doubles keyColumn rows)

end Identity

/-- What `publish_dataset_version` lets through: there are rows, each has a key, and no two have the same. -/
def Usable (keyColumn : String) (rows : List Row) : Prop :=
  rows ≠ [] ∧ (∀ record ∈ recordsOf keyColumn rows, isBlank record.recordKey = false) ∧
    ((recordsOf keyColumn rows).map (·.recordKey)).Nodup

instance (keyColumn : String) (rows : List Row) : Decidable (Usable keyColumn rows) :=
  inferInstanceAs (Decidable (_ ∧ _ ∧ _))

def Row.isStorable (row : Row) : Bool :=
  row.cells.all fun cell => !cell.1.toList.contains '\x00' && !cell.2.toList.contains '\x00'

structure PublishRequest where
  rows : List Row
  keyColumn : String
  version : Option Nat

structure Published where
  versions : List DatasetVersion
  version : DatasetVersion
  created : Bool

/-- `ORDER BY version DESC LIMIT 1` -/
def newest (versions : List DatasetVersion) : Option DatasetVersion :=
  (versions.insertionSort fun a b => b.version ≤ a.version).head?

section Publish

variable (sha256 : Bytes → Bytes) (doubles : Doubles) (datasetId : String)

namespace PublishRequest

def address (request : PublishRequest) : String := contentAddress sha256 doubles request.keyColumn request.rows

def publishAt (request : PublishRequest) (versions : List DatasetVersion) (number : Nat) : Option Published :=
  match versions.find? (·.version = number) with
  | some existing => if existing.checksum = request.address sha256 doubles then some ⟨versions, existing, false⟩ else none
  | none =>
    if request.rows.all Row.isStorable then
      (Entities.publishDatasetVersion datasetId number (request.address sha256 doubles) request.keyColumn request.rows).map
        fun version => ⟨versions ++ [version], version, true⟩
    else none

/-- `publish_dataset_version`. Where it raises, nothing is stored. -/
def publish (request : PublishRequest) (versions : List DatasetVersion) : Option Published :=
  if Usable request.keyColumn request.rows then
    match request.version with
    | some number => request.publishAt sha256 doubles datasetId versions number
    | none =>
      match newest versions with
      | some latest =>
        if latest.checksum = request.address sha256 doubles then some ⟨versions, latest, false⟩
        else request.publishAt sha256 doubles datasetId versions (latest.version + 1)
      | none => request.publishAt sha256 doubles datasetId versions 1
  else none

end PublishRequest

def published (history : List PublishRequest) : List DatasetVersion :=
  history.foldl (fun versions request =>
    ((request.publish sha256 doubles datasetId versions).map (·.versions)).getD versions) []

end Publish

/-- A reader's walk of the pages from a cursor on, and the rows it is given. -/
inductive DatasetVersion.Walk (version : DatasetVersion) : Option Cursor → List Nat → List Row → Prop
  | last {cursor : Option Cursor} {limit : Nat} : (version.rowsPage cursor limit).nextCursor = none →
      Walk version cursor [limit] (version.rowsPage cursor limit).rows
  | more {cursor : Option Cursor} {limit ordinal : Nat} {limits : List Nat} {rows : List Row} :
      (version.rowsPage cursor limit).nextCursor = some ordinal → Walk version (some (.row ordinal)) limits rows →
      Walk version cursor (limit :: limits) ((version.rowsPage cursor limit).rows ++ rows)

namespace DatasetVersion

variable {version : DatasetVersion}

theorem walk_rows {cursor : Option Cursor} {limits : List Nat} {rows : List Row} (walk : version.Walk cursor limits rows)
    (positive : ∀ limit ∈ limits, 1 ≤ limit) : rows = (version.after (cursor.bind Cursor.ordinal?)).map (·.data) := by
  induction walk with
  | @last cursor limit ends =>
    have short := rowsPage_last version cursor (positive limit List.mem_cons_self) ends
    rw [rowsPage_rows, List.take_of_length_le short]
  | @more cursor limit ordinal limits rows next _ ih =>
    obtain ⟨-, resumed⟩ := rowsPage_next version cursor next
    have rest := ih fun other member => positive other (List.mem_cons_of_mem _ member)
    rw [rest, rowsPage_rows, Option.bind_some, Cursor.ordinal?, resumed, ← List.map_append, List.take_append_drop]

theorem exists_walk (version : DatasetVersion) {sizes : ℕ → ℕ} (positive : ∀ k, 1 ≤ sizes k) (cursor : Option Cursor) :
    ∃ n rows, version.Walk cursor ((List.range n).map sizes) rows := by
  induction measured : (version.after (cursor.bind Cursor.ordinal?)).length using Nat.strongRecOn generalizing sizes cursor with
  | ind length ih =>
    cases next : (version.rowsPage cursor (sizes 0)).nextCursor with
    | none => exact ⟨1, _, .last next⟩
    | some ordinal =>
      obtain ⟨more, resumed⟩ := rowsPage_next version cursor next
      have first := positive 0
      have shorter : (version.after ((some (Cursor.row ordinal)).bind Cursor.ordinal?)).length < length := by
        rw [Option.bind_some, Cursor.ordinal?, resumed, List.length_drop]
        omega
      obtain ⟨n, rows, rest⟩ := ih _ shorter (fun k => positive (k + 1)) (some (.row ordinal)) rfl
      refine ⟨n + 1, (version.rowsPage cursor (sizes 0)).rows ++ rows, ?_⟩
      rw [List.range_succ_eq_map, List.map_cons, List.map_map]
      exact .more next rest

end DatasetVersion

section Stream

theorem nul_of_encodeChar {c : Char} (member : 0 ∈ String.utf8EncodeChar c) : c = '\x00' := by
  have byte : ∀ n : ℕ, (0 : UInt8) = UInt8.ofNat n → n % 256 = 0 := by
    intro n same
    have values := congrArg UInt8.toNat same
    rw [UInt8.toNat_ofNat'] at values
    exact values.symm
  unfold String.utf8EncodeChar at member
  dsimp only at member
  have zero : c.val.toNat = 0 := by
    split_ifs at member
    · have first := byte _ (List.mem_singleton.mp member)
      omega
    all_goals simp only [List.mem_cons, List.not_mem_nil, or_false] at member
    · rcases member with same | same <;> have rest := byte _ same <;> omega
    · rcases member with same | same | same <;> have rest := byte _ same <;> omega
    · rcases member with same | same | same | same <;> have rest := byte _ same <;> omega
  apply Char.ext
  exact UInt32.toNat_inj.mp zero

theorem nul_of_utf8 {text : String} (member : 0 ∈ utf8 text) : '\x00' ∈ text.toList := by
  have bytes : utf8 text = text.toList.flatMap String.utf8EncodeChar := by
    unfold utf8
    rw [String.toUTF8_eq_toByteArray, ← String.utf8Encode_toList, List.utf8Encode]
    simp
  rw [bytes] at member
  obtain ⟨c, there, byte⟩ := List.mem_flatMap.mp member
  rwa [nul_of_encodeChar byte] at there

theorem streamOf_ends (pairs : List (String × String)) : streamOf pairs = [] ∨ ∃ front, streamOf pairs = front ++ [0] := by
  rcases List.eq_nil_or_concat pairs with rfl | ⟨front, last, rfl⟩
  · exact Or.inl rfl
  · refine Or.inr ⟨streamOf front ++ (utf8 last.1 ++ 0 :: utf8 last.2), ?_⟩
    simp [streamOf]

theorem stream_key {pairs pairs' : List (String × String)} {key key' : String} (left : 0 ∉ utf8 key) (right : 0 ∉ utf8 key')
    (same : streamOf pairs ++ utf8 key = streamOf pairs' ++ utf8 key') : streamOf pairs = streamOf pairs' ∧ key = key' := by
  rcases streamOf_ends pairs with nil | ⟨front, ends⟩ <;> rcases streamOf_ends pairs' with nil' | ⟨front', ends'⟩
  · rw [nil, nil', List.nil_append, List.nil_append] at same
    exact ⟨by rw [nil, nil'], utf8_injective same⟩
  · rw [nil, ends', List.nil_append] at same
    exact absurd (by rw [same]; simp) left
  · rw [ends, nil', List.nil_append] at same
    exact absurd (by rw [← same]; simp) right
  · rw [ends, ends', List.append_assoc, List.append_assoc, List.singleton_append, List.singleton_append] at same
    obtain ⟨fronts, keys⟩ := Lib.append_cons_inj left right same
    exact ⟨by rw [ends, ends', fronts], utf8_injective keys⟩

/-- A stream settles its pairs, where no key and no hash has a mark in it. It is enough to know that of the keys of one
side, and of the other's where the hashes are the same. -/
theorem streamOf_inj {pairs pairs' : List (String × String)} (keys : ∀ pair ∈ pairs, 0 ∉ utf8 pair.1)
    (hashes : ∀ pair ∈ pairs, 0 ∉ utf8 pair.2) (hashes' : ∀ pair ∈ pairs', 0 ∉ utf8 pair.2)
    (keys' : ∀ pair' ∈ pairs', ∀ pair ∈ pairs, pair.2 = pair'.2 → 0 ∉ utf8 pair'.1)
    (same : streamOf pairs = streamOf pairs') : pairs = pairs' := by
  have written : ∀ (front : List (String × String)) last, streamOf (front ++ [last]) =
      (streamOf front ++ utf8 last.1) ++ 0 :: utf8 last.2 ++ [0] := by simp [streamOf]
  induction pairs using List.reverseRecOn generalizing pairs' with
  | nil =>
    rcases List.eq_nil_or_concat pairs' with rfl | ⟨front', last', rfl⟩
    · rfl
    · rw [List.concat_eq_append, written] at same
      simp [streamOf] at same
  | append_singleton front last ih =>
    rcases List.eq_nil_or_concat pairs' with rfl | ⟨front', last', rfl⟩
    · rw [written] at same
      simp [streamOf] at same
    · rw [List.concat_eq_append] at same keys' hashes' ⊢
      rw [written, written] at same
      have here : last ∈ front ++ [last] := by simp
      have here' : last' ∈ front' ++ [last'] := by simp
      obtain ⟨rest, hash⟩ := Lib.append_cons_inj (hashes last here) (hashes' last' here') (List.append_cancel_right same)
      have digest := utf8_injective hash
      obtain ⟨fronts, key⟩ := stream_key (keys last here) (keys' last' here' last here digest) rest
      have before : front = front' := by
        apply ih _ _ _ _ fronts
        · exact fun pair member => keys pair (List.mem_append_left _ member)
        · exact fun pair member => hashes pair (List.mem_append_left _ member)
        · exact fun pair member => hashes' pair (List.mem_append_left _ member)
        · exact fun pair' member' pair member =>
            keys' pair' (List.mem_append_left _ member') pair (List.mem_append_left _ member)
      rw [before, Prod.ext key digest]

end Stream

section Digest

variable {sha256 : Bytes → Bytes} {doubles : Doubles}

theorem digitChar_inj {a b : ℕ} (left : a < 16) (right : b < 16) (same : Nat.digitChar a = Nat.digitChar b) : a = b := by
  have all : ∀ x < 16, ∀ y < 16, Nat.digitChar x = Nat.digitChar y → x = y := by decide
  exact all a left b right same

theorem hexByte_inj {a b : UInt8} (same : hexByte a = hexByte b) : a = b := by
  have left := a.toNat_lt
  have right := b.toNat_lt
  simp only [hexByte, List.cons.injEq, and_true] at same
  have high := digitChar_inj (by omega) (by omega) same.1
  have low := digitChar_inj (by omega) (by omega) same.2
  apply UInt8.toNat_inj.mp
  omega

theorem hexBytes_inj {a b : Bytes} (same : a.flatMap hexByte = b.flatMap hexByte) : a = b := by
  induction a generalizing b with
  | nil =>
    cases b with
    | nil => rfl
    | cons => simp [hexByte] at same
  | cons x a ih =>
    cases b with
    | nil => simp [hexByte] at same
    | cons y b =>
      rw [List.flatMap_cons, List.flatMap_cons] at same
      obtain ⟨first, rest⟩ := List.append_inj same rfl
      rw [hexByte_inj first, ih rest]

theorem hexdigest_inj {a b : Bytes} (same : "sha256:" ++ hexdigest sha256 a = "sha256:" ++ hexdigest sha256 b) :
    sha256 a = sha256 b := by
  apply hexBytes_inj
  apply String.ofList_inj.mp
  apply String.toList_inj.mp
  have texts := congrArg String.toList same
  rw [String.toList_append, String.toList_append] at texts
  exact List.append_cancel_left texts

theorem rowHash_plain (row : Row) : 0 ∉ utf8 (rowHash sha256 doubles row) := by
  intro member
  have digit : ∀ n < 16, Nat.digitChar n ≠ '\x00' := by decide
  have nul := nul_of_utf8 member
  rw [rowHash, hexdigest, String.toList_append, List.mem_append] at nul
  rcases nul with head | digits
  · exact absurd head (by decide)
  · rw [String.toList_ofList] at digits
    obtain ⟨byte, -, there⟩ := List.mem_flatMap.mp digits
    have bound := byte.toNat_lt
    simp only [hexByte, List.mem_cons, List.not_mem_nil, or_false] at there
    rcases there with high | low
    · exact digit _ (by omega) high.symm
    · exact digit _ (by omega) low.symm

theorem dumpsFields_texts (cells : List (String × String)) :
    ∃ written, dumpsFields doubles (cells.map fun cell => (cell.1, .str cell.2)) = some written := by
  induction cells with
  | nil => exact ⟨[], rfl⟩
  | cons cell cells ih =>
    obtain ⟨written, rest⟩ := ih
    exact ⟨(cell.1, encodeBasestring cell.2) :: written, by simp [dumpsFields, dumps, rest]⟩

theorem rowText_written (row : Row) : canonicalJson doubles row.json = some (rowText doubles row) := by
  obtain ⟨written, fields⟩ := @dumpsFields_texts doubles row.cells
  simp [rowText, canonicalJson, Row.json, dumps, fields]

theorem texts_eq {values values' : List Json} (same : List.Forall₂ Same values values')
    (texts : ∀ v ∈ values, ∃ text, v = .str text) : values = values' := by
  induction same with
  | nil => rfl
  | cons head _ ih =>
    obtain ⟨text, rfl⟩ := texts _ List.mem_cons_self
    cases head
    rw [ih fun v member => texts v (List.mem_cons_of_mem _ member)]

theorem cells_of_rowText {a b : Row} (same : rowText doubles a = rowText doubles b) : a.cells.Perm b.cells := by
  have texts := same_of_canonicalJson (rowText_written a) (by rw [same]; exact rowText_written b)
  unfold Row.json at texts
  cases texts with
  | @obj _ _ ordered ordered' perm perm' keys values =>
    have equal : ordered.map Prod.snd = ordered'.map Prod.snd := by
      apply texts_eq values
      intro v member
      obtain ⟨field, there, rfl⟩ := List.mem_map.mp member
      obtain ⟨cell, -, rfl⟩ := List.mem_map.mp (perm.mem_iff.mpr there)
      exact ⟨cell.2, rfl⟩
    have one : ordered = ordered' := (List.zip_of_prod keys equal).trans (List.zip_of_prod rfl rfl).symm
    rw [one] at perm
    have injective : Function.Injective fun cell : String × String => (cell.1, Json.str cell.2) := by
      intro cell cell' both
      simp only [Prod.mk.injEq, Json.str.injEq] at both
      exact Prod.ext both.1 both.2
    exact (List.map_perm_map_iff injective).mp (perm.trans perm'.symm)

end Digest

def SameRows (rows rows' : List Row) : Prop :=
  ∃ arranged, rows.Perm arranged ∧ List.Forall₂ (fun a b => a.cells.Perm b.cells) arranged rows'

section Content

variable (sha256 : Bytes → Bytes) (doubles : Doubles)

def PublishRequest.digested (request : PublishRequest) : List Bytes :=
  streamOf ((hashed sha256 doubles request.keyColumn request.rows).insertionSort (pairLe · ·)) :: request.rows.map (rowText doubles)

def CollisionFree (requests : List PublishRequest) : Prop :=
  ∀ a ∈ requests.flatMap (·.digested sha256 doubles), ∀ b ∈ requests.flatMap (·.digested sha256 doubles),
    sha256 a = sha256 b → a = b

variable {sha256 doubles}

theorem rowText_eq {requests : List PublishRequest} (apart : CollisionFree sha256 doubles requests)
    {first second : PublishRequest} (mine : first ∈ requests) (yours : second ∈ requests) {a b : Row} (left : a ∈ first.rows)
    (right : b ∈ second.rows) (same : rowHash sha256 doubles a = rowHash sha256 doubles b) :
    rowText doubles a = rowText doubles b := by
  apply apart _ _ _ _ (hexdigest_inj same)
  · exact List.mem_flatMap.mpr ⟨first, mine, List.mem_cons_of_mem _ (List.mem_map_of_mem left)⟩
  · exact List.mem_flatMap.mpr ⟨second, yours, List.mem_cons_of_mem _ (List.mem_map_of_mem right)⟩

theorem key_plain {row : Row} (plain : ∀ cell ∈ row.cells, '\x00' ∉ cell.2.toList) (keyColumn : String) :
    0 ∉ utf8 (keyOf keyColumn row) := by
  intro member
  have nul := nul_of_utf8 member
  unfold keyOf Row.get at nul
  cases found : row.cells.lookup keyColumn with
  | none => simp [found] at nul
  | some value =>
    rw [found, Option.getD_some] at nul
    exact plain _ (Lib.mem_of_lookup found) nul

theorem storable_plain {row : Row} (storable : row.isStorable = true) : ∀ cell ∈ row.cells, '\x00' ∉ cell.2.toList := by
  intro cell member there
  have both := List.all_eq_true.mp storable cell member
  simp [there] at both

theorem exists_arranged {keyColumn keyColumn' : String} {rows rows' : List Row}
    (perm : (hashed sha256 doubles keyColumn rows).Perm (hashed sha256 doubles keyColumn' rows')) :
    ∃ arranged, rows.Perm arranged ∧
      List.Forall₂ (fun a b => rowHash sha256 doubles a = rowHash sha256 doubles b) arranged rows' := by
  have each : List.Forall₂ (fun row pair => (keyOf keyColumn row, rowHash sha256 doubles row) = pair) rows
      (hashed sha256 doubles keyColumn rows) := List.forall₂_map_right_iff.mpr (List.forall₂_same.mpr fun _ _ => rfl)
  obtain ⟨arranged, order, matched⟩ :
      Relation.Comp List.Perm (List.Forall₂ fun row pair => (keyOf keyColumn row, rowHash sha256 doubles row) = pair) rows
        (hashed sha256 doubles keyColumn' rows') := by
    rw [← List.forall₂_comp_perm_eq_perm_comp_forall₂]
    exact ⟨_, each, perm⟩
  refine ⟨arranged, order, (List.forall₂_map_right_iff.mp matched).imp fun a b same => ?_⟩
  exact (Prod.mk.inj same).2

theorem rows_of_address {requests : List PublishRequest} (apart : CollisionFree sha256 doubles requests)
    {first second : PublishRequest} (mine : first ∈ requests) (yours : second ∈ requests)
    (storable : first.rows.all Row.isStorable = true) (same : first.address sha256 doubles = second.address sha256 doubles) :
    SameRows second.rows first.rows := by
  have streams := apart _ (List.mem_flatMap.mpr ⟨first, mine, List.mem_cons_self⟩) _
    (List.mem_flatMap.mpr ⟨second, yours, List.mem_cons_self⟩) (hexdigest_inj same)
  have pairs : ∀ (request : PublishRequest), ∀ pair ∈ (hashed sha256 doubles request.keyColumn request.rows).insertionSort (pairLe · ·),
      ∃ row ∈ request.rows, (keyOf request.keyColumn row, rowHash sha256 doubles row) = pair := by
    intro request pair member
    exact List.mem_map.mp ((List.mem_insertionSort _).mp member)
  have sorted := streamOf_inj ?_ ?_ ?_ ?_ streams
  · have perm : (hashed sha256 doubles second.keyColumn second.rows).Perm (hashed sha256 doubles first.keyColumn first.rows) :=
      (List.perm_insertionSort _ _).symm.trans ((List.Perm.of_eq sorted.symm).trans (List.perm_insertionSort _ _))
    obtain ⟨arranged, order, matched⟩ := exists_arranged perm
    refine ⟨arranged, order, ?_⟩
    have left := (List.forall₂_and_left _ _).mpr ⟨fun row (member : row ∈ arranged) => order.mem_iff.mpr member, matched⟩
    have both := (List.forall₂_and_left _ _).mpr ⟨fun row (member : row ∈ first.rows) => member, left.flip⟩
    exact both.flip.imp fun a b found => cells_of_rowText (rowText_eq apart yours mine found.2.1 found.1 found.2.2)
  · intro pair member
    obtain ⟨row, there, rfl⟩ := pairs first pair member
    exact key_plain (storable_plain (List.all_eq_true.mp storable row there)) _
  · intro pair member
    obtain ⟨row, there, rfl⟩ := pairs first pair member
    exact rowHash_plain row
  · intro pair member
    obtain ⟨row, there, rfl⟩ := pairs second pair member
    exact rowHash_plain row
  · -- A row of one hash with a stored one has its cells, and the key is one of them.
    intro pair' member' pair member hashes
    obtain ⟨row', there', rfl⟩ := pairs second pair' member'
    obtain ⟨row, there, rfl⟩ := pairs first pair member
    have cells := cells_of_rowText (rowText_eq apart mine yours there there' hashes)
    have plain := storable_plain (List.all_eq_true.mp storable row there)
    exact key_plain (fun cell stands => plain cell (cells.mem_iff.mpr stands)) _

end Content

section Delivered

variable {sha256 : Bytes → Bytes} {doubles : Doubles} {datasetId : String}

structure Stores (sha256 : Bytes → Bytes) (doubles : Doubles) (request : PublishRequest) (version : DatasetVersion) : Prop where
  storable : request.rows.all Row.isStorable = true
  records : version.records = recordsOf request.keyColumn request.rows
  checksum : version.checksum = request.address sha256 doubles

theorem Stores.rows {request : PublishRequest} {version : DatasetVersion} (stores : Stores sha256 doubles request version) :
    version.records.map (·.data) = request.rows := by
  rw [stores.records, recordsOf]
  apply List.ext_getElem
  · simp
  · intro i _ _
    simp

theorem publishDatasetVersion_spec {number : Nat} {checksum keyColumn : String} {rows : List Row} {version : DatasetVersion}
    (stored : publishDatasetVersion datasetId number checksum keyColumn rows = some version) :
    version.records = recordsOf keyColumn rows ∧ version.checksum = checksum := by
  unfold publishDatasetVersion at stored
  split at stored
  · cases stored
    exact ⟨rfl, rfl⟩
  · cases stored

theorem publishDatasetVersion_usable {keyColumn : String} {rows : List Row} (usable : Usable keyColumn rows) (number : Nat)
    (checksum : String) : (publishDatasetVersion datasetId number checksum keyColumn rows).isSome = true := by
  unfold publishDatasetVersion
  split
  · rfl
  · rename_i refused
    exact absurd usable refused

theorem publishAt_cases {request : PublishRequest} {versions : List DatasetVersion} {number : Nat} {outcome : Published}
    (returned : request.publishAt sha256 doubles datasetId versions number = some outcome) :
    (outcome.created = false ∧ outcome.versions = versions ∧ outcome.version ∈ versions ∧
        outcome.version.checksum = request.address sha256 doubles) ∨
      (outcome.created = true ∧ outcome.versions = versions ++ [outcome.version] ∧
        Stores sha256 doubles request outcome.version) := by
  unfold PublishRequest.publishAt at returned
  split at returned
  · rename_i existing found
    split at returned
    · rename_i same
      cases returned
      exact Or.inl ⟨rfl, rfl, List.mem_of_find?_eq_some found, same⟩
    · cases returned
  · split at returned
    · rename_i storable
      obtain ⟨version, stored, rfl⟩ := Option.map_eq_some_iff.mp returned
      obtain ⟨records, checksum⟩ := publishDatasetVersion_spec stored
      exact Or.inr ⟨rfl, rfl, storable, records, checksum⟩
    · cases returned

theorem newest_mem {versions : List DatasetVersion} {latest : DatasetVersion} (found : newest versions = some latest) :
    latest ∈ versions :=
  (List.mem_insertionSort _).mp (List.mem_of_mem_head? found)

theorem publish_cases {request : PublishRequest} {versions : List DatasetVersion} {outcome : Published}
    (returned : request.publish sha256 doubles datasetId versions = some outcome) :
    (outcome.created = false ∧ outcome.versions = versions ∧ outcome.version ∈ versions ∧
        outcome.version.checksum = request.address sha256 doubles) ∨
      (outcome.created = true ∧ outcome.versions = versions ++ [outcome.version] ∧
        Stores sha256 doubles request outcome.version) := by
  unfold PublishRequest.publish at returned
  split at returned
  · split at returned
    · exact publishAt_cases returned
    · split at returned
      · rename_i latest found
        split at returned
        · rename_i same
          cases returned
          exact Or.inl ⟨rfl, rfl, newest_mem found, same⟩
        · exact publishAt_cases returned
      · exact publishAt_cases returned
  · cases returned

theorem published_append (history : List PublishRequest) (request : PublishRequest) :
    published sha256 doubles datasetId (history ++ [request]) =
      ((request.publish sha256 doubles datasetId (published sha256 doubles datasetId history)).map (·.versions)).getD
        (published sha256 doubles datasetId history) := by
  simp [published, List.foldl_append]

structure MadeBy (sha256 : Bytes → Bytes) (doubles : Doubles) (datasetId : String) (history : List PublishRequest)
    (first : PublishRequest) (version : DatasetVersion) : Prop where
  publishes : ∃ earlier later, history = earlier ++ first :: later ∧
    first.publish sha256 doubles datasetId (published sha256 doubles datasetId earlier) =
      some ⟨published sha256 doubles datasetId earlier ++ [version], version, true⟩
  stores : Stores sha256 doubles first version

theorem MadeBy.append {history : List PublishRequest} {first : PublishRequest} {version : DatasetVersion}
    (made : MadeBy sha256 doubles datasetId history first version) (request : PublishRequest) :
    MadeBy sha256 doubles datasetId (history ++ [request]) first version := by
  obtain ⟨⟨earlier, later, rfl, publishes⟩, stores⟩ := made
  exact ⟨⟨earlier, later ++ [request], by simp, publishes⟩, stores⟩

theorem MadeBy.mem {history : List PublishRequest} {first : PublishRequest} {version : DatasetVersion}
    (made : MadeBy sha256 doubles datasetId history first version) : first ∈ history := by
  obtain ⟨⟨earlier, later, rfl, -⟩, -⟩ := made
  simp

theorem exists_madeBy {history : List PublishRequest} {version : DatasetVersion}
    (member : version ∈ published sha256 doubles datasetId history) :
    ∃ first, MadeBy sha256 doubles datasetId history first version := by
  induction history using List.reverseRecOn with
  | nil => cases member
  | append_singleton history request ih =>
    have before : version ∈ published sha256 doubles datasetId history →
        ∃ first, MadeBy sha256 doubles datasetId (history ++ [request]) first version := by
      intro there
      obtain ⟨first, made⟩ := ih there
      exact ⟨first, made.append request⟩
    rw [published_append] at member
    cases outcome : request.publish sha256 doubles datasetId (published sha256 doubles datasetId history) with
    | none =>
      rw [outcome] at member
      exact before member
    | some outcome' =>
      rw [outcome] at member
      obtain ⟨versions, stored, created⟩ := outcome'
      rcases publish_cases outcome with ⟨-, same, -, -⟩ | ⟨(rfl : created = true), grown, stores⟩
      · exact before (same ▸ member)
      · dsimp only at grown
        subst grown
        rcases List.mem_append.mp member with there | last
        · exact before there
        · rw [List.mem_singleton] at last
          subst last
          exact ⟨request, ⟨history, [], rfl, outcome⟩, stores⟩

theorem le_newest {versions : List DatasetVersion} {latest : DatasetVersion} (found : newest versions = some latest) :
    ∀ version ∈ versions, version.version ≤ latest.version := by
  intro version member
  have trans : IsTrans DatasetVersion fun a b => b.version ≤ a.version := ⟨fun _ _ _ first second => Nat.le_trans second first⟩
  have total : Std.Total fun a b : DatasetVersion => b.version ≤ a.version := ⟨fun a b => Nat.le_total b.version a.version⟩
  have sorted := List.pairwise_insertionSort (fun a b : DatasetVersion => b.version ≤ a.version) versions
  have there := (List.mem_insertionSort fun a b : DatasetVersion => b.version ≤ a.version).mpr member
  unfold newest at found
  cases listed : versions.insertionSort fun a b => b.version ≤ a.version with
  | nil =>
    rw [listed] at there
    cases there
  | cons head rest =>
    rw [listed, List.head?_cons, Option.some.injEq] at found
    rw [listed, List.pairwise_cons, found] at sorted
    rw [listed, found] at there
    rcases List.mem_cons.mp there with rfl | later
    · exact le_refl _
    · exact sorted.1 version later

theorem publish_unnamed {request : PublishRequest} (unnamed : request.version = none)
    (usable : Usable request.keyColumn request.rows) (storable : request.rows.all Row.isStorable = true)
    (versions : List DatasetVersion) : (request.publish sha256 doubles datasetId versions).isSome = true := by
  have fresh : ∀ number, (∀ version ∈ versions, version.version < number) →
      (request.publishAt sha256 doubles datasetId versions number).isSome = true := by
    intro number above
    have missing : versions.find? (fun version => version.version = number) = none := by
      rw [List.find?_eq_none]
      intro version member same
      have less := above version member
      simp only [decide_eq_true_eq] at same
      omega
    unfold PublishRequest.publishAt
    simp only [missing, storable, if_true, Option.isSome_map]
    exact publishDatasetVersion_usable usable _ _
  unfold PublishRequest.publish
  rw [if_pos usable, unnamed]
  cases found : newest versions with
  | none =>
    apply fresh
    intro version member
    have there := (List.mem_insertionSort fun a b : DatasetVersion => b.version ≤ a.version).mpr member
    rw [List.head?_eq_none_iff.mp found] at there
    cases there
  | some latest =>
    dsimp only
    split
    · rfl
    · apply fresh
      intro version member
      have le := le_newest found version member
      omega

/-- What is published is what is delivered: the rows of the request with their cells, each once, in pages of any sizes. The
order is the request's own where it made the version, and else that of the publish that did. -/
theorem published_delivered (history : List PublishRequest) (request : PublishRequest)
    (apart : CollisionFree sha256 doubles (history ++ [request])) :
    (∀ outcome, request.publish sha256 doubles datasetId (published sha256 doubles datasetId history) = some outcome →
      (∀ limits rows, (∀ limit ∈ limits, 1 ≤ limit) → outcome.version.Walk none limits rows →
        SameRows request.rows rows ∧ (outcome.created = true → rows = request.rows) ∧
          (outcome.created = false →
            ∃ first, MadeBy sha256 doubles datasetId history first outcome.version ∧ rows = first.rows)) ∧
      ∀ sizes : ℕ → ℕ, (∀ k, 1 ≤ sizes k) → ∃ n rows, outcome.version.Walk none ((List.range n).map sizes) rows) ∧
    (request.version = none → Usable request.keyColumn request.rows → request.rows.all Row.isStorable = true →
      (request.publish sha256 doubles datasetId (published sha256 doubles datasetId history)).isSome = true) := by
  refine ⟨fun outcome returned => ⟨fun limits rows positive walk => ?_, fun sizes positive => ?_⟩,
    fun unnamed usable storable => publish_unnamed unnamed usable storable _⟩
  · have all : rows = outcome.version.records.map (·.data) := outcome.version.walk_rows walk positive
    rcases publish_cases returned with ⟨old, -, member, same⟩ | ⟨created, -, stores⟩
    · obtain ⟨first, made⟩ := exists_madeBy member
      have theirs : rows = first.rows := by rw [all, made.stores.rows]
      have address := made.stores.checksum.symm.trans same
      refine ⟨?_, fun created => ?_, fun _ => ⟨first, made, theirs⟩⟩
      · rw [theirs]
        apply rows_of_address apart _ _ made.stores.storable address
        · exact List.mem_append_left _ made.mem
        · simp
      · rw [old] at created
        cases created
    · have mine : rows = request.rows := by rw [all, stores.rows]
      refine ⟨⟨rows, by rw [mine], List.forall₂_same.mpr fun _ _ => List.Perm.refl _⟩, fun _ => mine, fun old => ?_⟩
      rw [created] at old
      cases old
  · exact outcome.version.exists_walk positive none

end Delivered

section Orders

def digests (bytes : Bytes) : Bytes :=
  if bytes = utf8 "\x7b\"k\":\"a\"\x7d" then
    [11, 184, 195, 132, 38, 213, 26, 233, 255, 226, 129, 158, 27, 136, 149, 49, 227, 52, 17, 236, 219,
      70, 164, 43, 220, 197, 242, 59, 128, 105, 56, 3]
  else if bytes = utf8 "\x7b\"k\":\"b\"\x7d" then
    [122, 174, 71, 216, 85, 99, 23, 129, 76, 15, 72, 85, 82, 106, 89, 159, 83, 7, 47, 54, 70, 133, 253,
      21, 237, 25, 128, 41, 138, 176, 215, 241]
  else
    [223, 44, 122, 232, 248, 94, 45, 97, 123, 201, 242, 3, 225, 67, 224, 241, 221, 50, 116, 77, 80, 82,
      230, 97, 145, 107, 255, 177, 242, 52, 105, 82]

theorem one_digits : ∀ c ∈ ['1'], c.isDigit = true := List.all_eq_true.mp rfl

theorem one_nonempty : ['1'] ≠ [] := List.cons_ne_nil _ _

theorem one_first : ['1'].head? ≠ some '0' := by decide

theorem one_last : ['1'].getLast? ≠ some '0' := by decide

theorem powers_apart {m m' : ℕ} (same : (m : ℤ) = m') : m = m' := Int.ofNat_inj.mp same

def powers : Doubles where
  shortest m := ⟨['1'], m, one_digits, one_nonempty, one_first, one_last⟩
  apart _ _ _ _ _ _ same := powers_apart (congrArg Shortest.exponent same)

def rowA : Row := ⟨[("k", "a")], by decide⟩
def rowB : Row := ⟨[("k", "b")], by decide⟩
def inOrder : PublishRequest := ⟨[rowA, rowB], "k", none⟩
def reversed : PublishRequest := ⟨[rowB, rowA], "k", none⟩

theorem orders_apart : CollisionFree digests powers [inOrder, reversed] := by
  unfold CollisionFree
  decide +kernel

theorem ones_positive (n : ℕ) : ∀ limit ∈ (List.range n).map fun _ => 1, 1 ≤ limit := by
  intro limit member
  obtain ⟨k, -, rfl⟩ := List.mem_map.mp member
  exact le_refl 1

theorem reversed_delivered : ∃ outcome rows n, reversed.publish digests powers "d" (published digests powers "d" [inOrder]) =
    some outcome ∧ outcome.version.Walk none ((List.range n).map fun _ => 1) rows ∧ SameRows reversed.rows rows := by
  obtain ⟨delivered, returns⟩ := @published_delivered digests powers "d" [inOrder] reversed orders_apart
  obtain ⟨outcome, returned⟩ := Option.isSome_iff_exists.mp (returns rfl (by decide) (by decide))
  obtain ⟨same, ends⟩ := delivered outcome returned
  obtain ⟨n, rows, walk⟩ := ends (fun _ => 1) fun _ => le_refl 1
  exact ⟨outcome, rows, n, returned, walk, (same _ _ (ones_positive n) walk).1⟩

theorem reversed_returned : (reversed.publish digests powers "d" (published digests powers "d" [inOrder])).map
    (fun outcome => outcome.version.records.map (·.data)) = some [rowA, rowB] := by
  decide +kernel

/-- The rows in another order are the version that is there, and come in its order. -/
theorem order_kept : CollisionFree digests powers [inOrder, reversed] ∧ Usable "k" [rowB, rowA] ∧
    ∃ outcome limits rows, reversed.publish digests powers "d" (published digests powers "d" [inOrder]) = some outcome ∧
      (∀ limit ∈ limits, 1 ≤ limit) ∧ outcome.version.Walk none limits rows ∧ rows ≠ reversed.rows := by
  refine ⟨orders_apart, by decide, ?_⟩
  obtain ⟨outcome, returned, records⟩ := Option.map_eq_some_iff.mp reversed_returned
  obtain ⟨n, rows, walk⟩ := @DatasetVersion.exists_walk outcome.version (fun _ => 1) (fun _ => le_refl 1) none
  refine ⟨outcome, _, rows, returned, ones_positive n, walk, ?_⟩
  have given : rows = [rowA, rowB] := (outcome.version.walk_rows walk (ones_positive n)).trans records
  rw [given]
  decide

end Orders

end DataCollectionLab.Entities
