import Mathlib.Data.List.Dedup
import DataCollectionLab.Form.Choices

/-!
Published dataset versions on the server: how one comes about, the paged walk of its rows, and the
difference between two versions for one form version. A published version does not change.
-/

namespace DataCollectionLab.Entities

open Form

/-- A dataset row, text to text, its cells in the order the stored object has them. -/
structure Row where
  cells : List (String × String)
  distinct : (cells.map Prod.fst).Nodup
  deriving DecidableEq

namespace Row

def get (row : Row) (column : String) : Option String := row.cells.lookup column

/-- `{**row, column: value}`. -/
def extend (row : Row) (column value : String) : Row where
  cells := row.cells.filter (fun cell => cell.1 ≠ column) ++ [(column, value)]
  distinct := by
    rw [List.map_append, List.nodup_append]
    refine ⟨?_, List.nodup_singleton _, ?_⟩
    · exact (List.filter_sublist.map Prod.fst).nodup row.distinct
    · intro a member b last same
      obtain ⟨cell, kept, rfl⟩ := List.mem_map.mp member
      rw [List.mem_singleton.mp last] at same
      exact of_decide_eq_true (List.mem_filter.mp kept).2 same

end Row

/-- `dataset_record`, with the row's position in the file it was published from. -/
structure DatasetRecord where
  recordKey : String
  data : Row
  ordinal : Nat
  deriving DecidableEq

/-- `dataset_version` with its records, read by ordinal. No key is blank and none is there twice. -/
structure DatasetVersion where
  datasetId : String
  version : Nat
  checksum : String
  records : List DatasetRecord
  ordered : records.Pairwise fun a b => a.ordinal < b.ordinal
  distinct : (records.map (·.recordKey)).Nodup
  keyed : ∀ record ∈ records, record.recordKey ≠ ""

namespace DatasetVersion

def keys (version : DatasetVersion) : List String := version.records.map (·.recordKey)

def row (version : DatasetVersion) (key : String) : Option Row :=
  (version.records.find? fun record => record.recordKey = key).map (·.data)

theorem row_of_mem (version : DatasetVersion) {record : DatasetRecord} (member : record ∈ version.records) :
    version.row record.recordKey = some record.data := by
  unfold row
  cases found : version.records.find? fun other => other.recordKey = record.recordKey with
  | none =>
    have missing := List.find?_eq_none.mp found record member
    simp at missing
  | some other =>
    have same : other.recordKey = record.recordKey := by simpa using List.find?_some found
    have one := List.inj_on_of_nodup_map version.distinct (List.mem_of_find?_eq_some found) member same
    rw [one]
    rfl

theorem row_eq_some_iff (version : DatasetVersion) {key : String} {row : Row} :
    version.row key = some row ↔ ∃ record ∈ version.records, record.recordKey = key ∧ record.data = row := by
  constructor
  · intro found
    obtain ⟨record, at_, rfl⟩ := Option.map_eq_some_iff.mp found
    exact ⟨record, List.mem_of_find?_eq_some at_, by simpa using List.find?_some at_, rfl⟩
  · rintro ⟨record, member, rfl, rfl⟩
    exact version.row_of_mem member

theorem row_eq_none_iff (version : DatasetVersion) {key : String} :
    version.row key = none ↔ key ∉ version.keys := by
  unfold row keys
  rw [Option.map_eq_none_iff, List.find?_eq_none, List.mem_map]
  constructor
  · rintro none ⟨record, member, rfl⟩
    exact none record member (by simp)
  · intro missing record member same
    exact missing ⟨record, member, by simpa using same⟩

theorem row_isSome_iff (version : DatasetVersion) {key : String} :
    (version.row key).isSome ↔ key ∈ version.keys := by
  rw [Option.isSome_iff_ne_none, ne_eq, row_eq_none_iff, not_not]

end DatasetVersion

def isSpace (c : Char) : Bool :=
  c.toNat ∈ [0x20, 0x85, 0xa0, 0x1680, 0x2028, 0x2029, 0x202f, 0x205f, 0x3000] ||
    (0x09 ≤ c.toNat && c.toNat ≤ 0x0d) || (0x1c ≤ c.toNat && c.toNat ≤ 0x1f) ||
    (0x2000 ≤ c.toNat && c.toNat ≤ 0x200a)

/-- `not key.strip()`. -/
def isBlank (key : String) : Bool := key.toList.all isSpace

def recordsOf (keyColumn : String) (rows : List Row) : List DatasetRecord :=
  rows.mapIdx fun index row => ⟨(row.get keyColumn).getD "", row, index⟩

theorem recordsOf_ordered (keyColumn : String) (rows : List Row) :
    (recordsOf keyColumn rows).Pairwise fun a b => a.ordinal < b.ordinal := by
  rw [List.pairwise_iff_getElem]
  intro i j _ _ less
  simpa [recordsOf] using less

/-- `publish_dataset_version` of new content. No rows, a row with no key and a repeated key are refused. -/
def publishDatasetVersion (datasetId : String) (version : Nat) (checksum keyColumn : String)
    (rows : List Row) : Option DatasetVersion :=
  if usable : rows ≠ [] ∧ (∀ record ∈ recordsOf keyColumn rows, isBlank record.recordKey = false) ∧
      ((recordsOf keyColumn rows).map (·.recordKey)).Nodup then
    some {
      datasetId, version, checksum
      records := recordsOf keyColumn rows
      ordered := recordsOf_ordered keyColumn rows
      distinct := usable.2.2
      keyed := by
        intro record member empty
        have blank := usable.2.1 record member
        rw [empty] at blank
        cases blank }
  else none

end DataCollectionLab.Entities
