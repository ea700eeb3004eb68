import Mathlib.Data.Option.Basic
import DataCollectionLab.Core.DatasetTransfers

/-!
What a delta makes of the rows of a version: agreement of stored rows with a published version, column
by column, and how it comes about page by page.
-/

namespace DataCollectionLab.Core

open Entities DatasetVersion

def SameOn (lists : List (List String)) (a b : Row) : Prop :=
  ∀ column, (∀ columns ∈ lists, column ∈ columns) → a.get column = b.get column

def HoldsVersion (version : DatasetVersion) (rows : AList fun _ : String => Row) (lists : List (List String)) : Prop :=
  ∀ key, Option.Rel (SameOn lists) (rows.lookup key) (version.row key)

def Filed (version : DatasetVersion) : Prop :=
  ∀ record ∈ version.records, pickKey record.data = record.recordKey

/-- A row's key is its `name` cell. -/
def Named (version : DatasetVersion) : Prop :=
  ∀ record ∈ version.records, record.data.get "name" = some record.recordKey

theorem Named.filed {version : DatasetVersion} (named : Named version) : Filed version := by
  intro record member
  rw [pickKey, named record member, Option.getD_some]

def Separates (rowHash : List (String × Option String) → String) (columns : List String)
    (older newer : DatasetVersion) : Prop :=
  ∀ a ∈ older.records, ∀ b ∈ newer.records,
    projection rowHash columns a.data = projection rowHash columns b.data →
      ∀ column ∈ columns, a.data.get column = b.data.get column

theorem keyed_records {version : DatasetVersion} (filed : Filed version) {records : List DatasetRecord}
    (sub : records.Sublist version.records) :
    (records.map (·.data)).map keyed = records.map fun record => (record.recordKey, record.data) := by
  rw [List.map_map]
  apply List.map_congr_left
  intro record member
  show (pickKey record.data, record.data) = _
  rw [filed record (sub.subset member)]

section Insert

variable {version : DatasetVersion} {records : List DatasetRecord}

theorem records_distinct (sub : records.Sublist version.records) :
    ((records.map fun record => (record.recordKey, record.data)).map Prod.fst).Nodup := by
  rw [List.map_map]
  exact (sub.map _).nodup version.distinct

theorem lookup_insert_record (sub : records.Sublist version.records) (rows : AList fun _ : String => Row)
    {record : DatasetRecord} (member : record ∈ records) :
    (Lib.insertAll rows (records.map fun record => (record.recordKey, record.data))).lookup record.recordKey =
      some record.data :=
  Lib.lookup_insertAll_of_mem rows (records_distinct sub) (List.mem_map_of_mem member)

theorem lookup_insert_other (rows : AList fun _ : String => Row) {key : String}
    (absent : key ∉ records.map (·.recordKey)) :
    (Lib.insertAll rows (records.map fun record => (record.recordKey, record.data))).lookup key =
      rows.lookup key := by
  apply Lib.lookup_insertAll_of_not_mem
  rwa [List.map_map]

end Insert

section Patch

variable {rowHash : List (String × Option String) → String} {columns : List String}
  {older newer : DatasetVersion} {lists : List (List String)}

/-- The stored rows in the middle of a delta: nothing but keys of the two versions, and every key the pages
left do not name agrees with the newer version. -/
structure Patched (older newer : DatasetVersion) (lists : List (List String))
    (left : List DatasetRecord × List String) (rows : AList fun _ : String => Row) : Prop where
  within : ∀ key ∈ rows, key ∈ older.keys ∨ key ∈ newer.keys
  settled : ∀ key, key ∉ left.1.map (·.recordKey) → key ∉ left.2 →
    Option.Rel (SameOn lists) (rows.lookup key) (newer.row key)

theorem Patched.holds {rows : AList fun _ : String => Row} (patched : Patched older newer lists ([], []) rows) :
    HoldsVersion newer rows lists := fun key => patched.settled key List.not_mem_nil List.not_mem_nil

theorem HoldsVersion.mem_iff {rows : AList fun _ : String => Row} (holds : HoldsVersion newer rows lists) {key : String} :
    key ∈ rows ↔ key ∈ newer.keys := by
  have both : ∀ a b : Option Row, Option.Rel (SameOn lists) a b → (a.isSome ↔ b.isSome) := by
    intro a b rel
    cases rel <;> simp
  rw [← AList.lookup_isSome, ← newer.row_isSome_iff]
  exact both _ _ (holds key)

theorem same_of_unchanged (separates : Separates rowHash columns older newer) {old : DatasetRecord}
    (member : old ∈ older.records)
    (unchanged : old.recordKey ∉ (newer.records.filter (isChanged rowHash columns older)).map (·.recordKey))
    (kept : old.recordKey ∉ gone older newer) :
    ∃ record ∈ newer.records, record.recordKey = old.recordKey ∧
      ∀ column ∈ columns, old.data.get column = record.data.get column := by
  have present : old.recordKey ∈ newer.keys := by
    by_contra missing
    exact kept ((mem_gone older newer).mpr ⟨List.mem_map_of_mem member, missing⟩)
  obtain ⟨record, newMember, same⟩ := List.mem_map.mp present
  have equal : projection rowHash columns old.data = projection rowHash columns record.data := by
    by_contra differ
    refine unchanged (List.mem_map.mpr ⟨record, List.mem_filter.mpr ⟨newMember, ?_⟩, same⟩)
    simpa [isChanged, same, older.row_of_mem member] using differ
  exact ⟨record, newMember, same, separates old member record newMember equal⟩

theorem settled_of_unchanged (separates : Separates rowHash columns older newer)
    {baseRows : AList fun _ : String => Row} (base : HoldsVersion older baseRows lists) {key : String}
    (held : key ∈ older.keys)
    (unchanged : key ∉ (newer.records.filter (isChanged rowHash columns older)).map (·.recordKey))
    (kept : key ∉ gone older newer) :
    Option.Rel (SameOn (columns :: lists)) (baseRows.lookup key) (newer.row key) := by
  obtain ⟨old, member, rfl⟩ := List.mem_map.mp held
  obtain ⟨record, newMember, same, agree⟩ := same_of_unchanged separates member unchanged kept
  have agrees := base old.recordKey
  rw [older.row_of_mem member] at agrees
  rw [← same, newer.row_of_mem newMember, same]
  cases found : baseRows.lookup old.recordKey with
  | none =>
    rw [found] at agrees
    cases agrees
  | some row =>
    rw [found] at agrees
    cases agrees with
    | some rel =>
      refine Option.Rel.some fun column named => ?_
      rw [rel column fun columns' later => named columns' (List.mem_cons_of_mem _ later)]
      exact agree column (named columns List.mem_cons_self)

theorem Patched.seed (separates : Separates rowHash columns older newer) {rows baseRows : AList fun _ : String => Row}
    (within : ∀ key ∈ rows, key ∈ older.keys ∨ key ∈ newer.keys) (base : HoldsVersion older baseRows lists)
    {copied : List (String × Row)} (distinct : (copied.map Prod.fst).Nodup)
    (copy : ∀ key row, (key, row) ∈ copied ↔ baseRows.lookup key = some row) :
    Patched older newer (columns :: lists) (remaining rowHash columns older newer none)
      (Lib.insertAll rows copied) := by
  have keys : ∀ key, key ∈ copied.map Prod.fst ↔ key ∈ older.keys := by
    intro key
    rw [← base.mem_iff, ← AList.lookup_isSome, Option.isSome_iff_exists, List.mem_map]
    constructor
    · rintro ⟨⟨_, row⟩, member, rfl⟩
      exact ⟨row, (copy _ row).mp member⟩
    · rintro ⟨row, found⟩
      exact ⟨(key, row), (copy key row).mpr found, rfl⟩
  constructor
  · intro key member
    rcases (Lib.mem_insertAll_iff _ _ _).mp member with old | new
    · exact within key old
    · exact Or.inl ((keys key).mp new)
  · intro key unchanged kept
    by_cases held : key ∈ older.keys
    · obtain ⟨⟨_, row⟩, member, rfl⟩ := List.mem_map.mp ((keys key).mpr held)
      rw [Lib.lookup_insertAll_of_mem rows distinct member, ← (copy _ row).mp member]
      exact settled_of_unchanged separates base held unchanged kept
    · rw [Lib.lookup_insertAll_of_not_mem rows fun new => held ((keys key).mp new)]
      have missing : key ∉ newer.keys := by
        intro present
        obtain ⟨record, member, rfl⟩ := List.mem_map.mp present
        refine unchanged (List.mem_map.mpr ⟨record, List.mem_filter.mpr ⟨member, ?_⟩, rfl⟩)
        simp [isChanged, older.row_eq_none_iff.mpr held]
      have absent : rows.lookup key = none := by
        rw [AList.lookup_eq_none]
        intro present
        exact (within key present).elim held missing
      rw [absent, newer.row_eq_none_iff.mpr missing]
      exact Option.Rel.none

theorem Patched.page {cursor : Option DeltaCursor} {page : DatasetDelta}
    {records laterRecords : List DatasetRecord} {laterKeys : List String} (filed : Filed newer)
    (pageOf : PageOf rowHash columns older newer cursor page records laterRecords laterKeys)
    {rows : AList fun _ : String => Row}
    (patched : Patched older newer lists (remaining rowHash columns older newer cursor) rows) :
    Patched older newer lists (laterRecords, laterKeys)
      (Lib.eraseAll (Lib.insertAll rows (page.changed.map keyed)) page.deleted) := by
  obtain ⟨subRecords, subKeys⟩ := remaining_sublist rowHash columns older newer cursor
  rw [pageOf.accounts] at subRecords subKeys patched
  have sub : records.Sublist newer.records := (List.sublist_append_left _ _).trans subRecords
  rw [pageOf.changed, keyed_records filed sub]
  constructor
  · intro key member
    rw [← AList.lookup_isSome, Lib.lookup_eraseAll] at member
    split at member
    · cases member
    · rw [AList.lookup_isSome, Lib.mem_insertAll_iff, List.map_map] at member
      rcases member with old | new
      · exact patched.within key old
      · exact Or.inr ((sub.map _).subset new)
  · intro key notRecord notKey
    rw [Lib.lookup_eraseAll]
    split
    · rename_i deleted
      have missing := ((mem_gone older newer).mp (subKeys.subset (List.mem_append_left _ deleted))).2
      rw [newer.row_eq_none_iff.mpr missing]
      exact Option.Rel.none
    · rename_i kept
      by_cases changed : key ∈ records.map (·.recordKey)
      · obtain ⟨record, member, rfl⟩ := List.mem_map.mp changed
        rw [lookup_insert_record sub rows member, newer.row_of_mem (sub.subset member)]
        exact Option.Rel.some fun _ _ => rfl
      · rw [lookup_insert_other rows changed]
        refine patched.settled key ?_ ?_
        · rw [List.map_append, List.mem_append]
          exact fun member => member.elim changed notRecord
        · rw [List.mem_append]
          exact fun member => member.elim kept notKey

end Patch

end DataCollectionLab.Core
