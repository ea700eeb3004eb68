import DataCollectionLab.Core.DatasetStore

/-!
A dataset version on its way to the device, page by page. The connection may be lost after any page; a
transfer that is not cut off ends with the version marked complete.
-/

namespace DataCollectionLab.Core

open Entities

def pickKey (row : Row) : String := (row.get "name").getD ((row.cells.head?.map Prod.snd).getD "")

def keyed (row : Row) : String × Row := (pickKey row, row)

section Fetch

variable (server : Server) (limit : Nat)

/-- The loop of `fetchDatasetRows`, for as many pages as arrive. -/
def fetchRowsFrom (id : String) : (pages : Nat) → Option Cursor → DatasetStore → DatasetStore
  | 0, _, store => store
  | pages + 1, cursor, store =>
    match server.datasetRowsPage id cursor limit with
    | none => store
    | some page =>
      let stored := store.appendRows id (page.rows.map keyed) (page.nextCursor.map .row)
      match page.nextCursor with
      | none => stored
      | some ordinal => fetchRowsFrom id pages (some (.row ordinal)) stored

/-- `fetchDatasetRows`: every remaining page, from the stored cursor on. -/
def fetchDatasetRows (id : String) (pages : Nat) (store : DatasetStore) : DatasetStore :=
  fetchRowsFrom server limit id pages ((store.versions.lookup id).bind (·.nextCursor)) store

/-- The loop of `fetchDatasetDelta`; the held rows are copied across on the first page only. -/
def fetchDeltaFrom (db : ScanOrder) (entry : DatasetManifestEntry) (base : String) :
    (pages : Nat) → Option DeltaCursor → (first : Bool) → DatasetStore → DatasetStore
  | 0, _, _, store => store
  | pages + 1, cursor, first, store =>
    match server.datasetDelta entry.formVersionId entry.datasetKey base cursor limit with
    | none => store
    | some page =>
      let stored := store.applyDelta db entry.datasetVersionId base (page.changed.map keyed) page.deleted
        (page.nextCursor.map .delta) first
      match page.nextCursor with
      | none => stored
      | some next => fetchDeltaFrom db entry base pages (some next) false stored

def fetchDatasetDelta (db : ScanOrder) (entry : DatasetManifestEntry) (base : String) (pages : Nat)
    (store : DatasetStore) : DatasetStore :=
  fetchDeltaFrom server limit db entry base pages none true store

/-- One list's turn in `refreshDatasets`: a delta where a base is held, else the rows. -/
def fetchDataset (db : ScanOrder) (entry : DatasetManifestEntry) (pages : Nat) (store : DatasetStore) :
    DatasetStore :=
  match store.deltaBaseFor entry.datasetKey entry.datasetVersionId with
  | some base => fetchDatasetDelta server limit db entry base pages store
  | none => fetchDatasetRows server limit entry.datasetVersionId pages store

end Fetch

structure Within (id : String) (before after : DatasetStore) : Prop where
  rows : ∀ other, other ≠ id → after.rows other = before.rows other
  versions : ∀ other, other ≠ id → after.versions.lookup other = before.versions.lookup other
  held : ∀ held', after.versions.lookup id = some held' → ∃ held nextCursor,
    before.versions.lookup id = some held ∧ held' = { held with complete := held'.complete, nextCursor }
  pins : after.pins = before.pins

namespace Within

theorem refl (id : String) (store : DatasetStore) : Within id store store where
  rows _ _ := rfl
  versions _ _ := rfl
  held held' found := ⟨held', held'.nextCursor, found, rfl⟩
  pins := rfl

theorem trans {id : String} {s₁ s₂ s₃ : DatasetStore} (one : Within id s₁ s₂) (two : Within id s₂ s₃) :
    Within id s₁ s₃ where
  rows other apart := (two.rows other apart).trans (one.rows other apart)
  versions other apart := (two.versions other apart).trans (one.versions other apart)
  held held' found := by
    obtain ⟨middle, cursor, found, same⟩ := two.held held' found
    obtain ⟨held, cursor', found, same'⟩ := one.held middle found
    refine ⟨held, cursor, found, ?_⟩
    rw [same, same']
  pins := two.pins.trans one.pins

theorem of_pageEffect {id : String} {before after : DatasetStore} {rows : AList fun _ : String => Row}
    {nextCursor : Option Cursor} (effect : before.PageEffect id rows nextCursor after) :
    Within id before after where
  rows other apart := by rw [effect.rows, Function.update_of_ne apart]
  versions other apart := by rw [effect.versions, if_neg apart]
  held held' found := by
    rw [effect.versions, if_pos rfl] at found
    obtain ⟨held, was, rfl⟩ := Option.map_eq_some_iff.mp found
    exact ⟨held, nextCursor, was, rfl⟩
  pins := effect.pins

end Within

theorem fetchRowsFrom_within (server : Server) (limit : Nat) (id : String) (pages : Nat)
    (cursor : Option Cursor) (store : DatasetStore) :
    Within id store (fetchRowsFrom server limit id pages cursor store) := by
  induction pages generalizing cursor store with
  | zero => exact Within.refl id store
  | succ pages ih =>
    rw [fetchRowsFrom]
    split
    · exact Within.refl id store
    · rename_i page _
      have here := Within.of_pageEffect
        (store.appendRows_effect id (page.rows.map keyed) (page.nextCursor.map .row))
      dsimp only
      split
      · exact here
      · exact here.trans (ih _ _)

theorem fetchDeltaFrom_within (server : Server) (limit : Nat) (db : ScanOrder) (entry : DatasetManifestEntry)
    (base : String) (pages : Nat) (cursor : Option DeltaCursor) (first : Bool) (store : DatasetStore) :
    Within entry.datasetVersionId store (fetchDeltaFrom server limit db entry base pages cursor first store) := by
  induction pages generalizing cursor first store with
  | zero => exact Within.refl _ store
  | succ pages ih =>
    rw [fetchDeltaFrom]
    split
    · exact Within.refl _ store
    · rename_i page _
      have here := Within.of_pageEffect
        (store.applyDelta_effect db entry.datasetVersionId base (page.changed.map keyed) page.deleted
          (page.nextCursor.map .delta) first)
      dsimp only
      split
      · exact here
      · exact here.trans (ih _ _ _)

theorem fetchDataset_within (server : Server) (limit : Nat) (db : ScanOrder) (entry : DatasetManifestEntry)
    (pages : Nat) (store : DatasetStore) :
    Within entry.datasetVersionId store (fetchDataset server limit db entry pages store) := by
  unfold fetchDataset
  split
  · exact fetchDeltaFrom_within ..
  · exact fetchRowsFrom_within ..

section FullTransfer

variable {server : Server} {limit : Nat} {id : String} {version : DatasetVersion}

theorem fetchRowsFrom_rows (published : server.versions id = some version) (positive : 0 < limit)
    {pages : Nat} {cursor : Option Cursor}
    (enough : (version.after (cursor.bind Cursor.ordinal?)).length < pages) (store : DatasetStore) :
    (fetchRowsFrom server limit id pages cursor store).rows id =
      Lib.insertAll (store.rows id)
        ((version.after (cursor.bind Cursor.ordinal?)).map fun record => keyed record.data) := by
  induction pages generalizing cursor store with
  | zero => exact absurd enough (Nat.not_lt_zero _)
  | succ pages ih =>
    have page : server.datasetRowsPage id cursor limit = some (version.rowsPage cursor limit) := by
      rw [Server.datasetRowsPage, published]
      rfl
    have rows := version.rowsPage_rows cursor limit
    have wrote := (store.appendRows_effect id ((version.rowsPage cursor limit).rows.map keyed)
      ((version.rowsPage cursor limit).nextCursor.map .row)).rows
    rw [fetchRowsFrom, page]
    dsimp only
    cases next : (version.rowsPage cursor limit).nextCursor with
    | none =>
      have short := version.rowsPage_last cursor positive next
      rw [next] at wrote
      dsimp only
      rw [wrote, Function.update_self, rows, List.take_of_length_le short, List.map_map]
      rfl
    | some ordinal =>
      obtain ⟨more, rest⟩ := version.rowsPage_next cursor next
      rw [next] at wrote
      dsimp only
      have fewer : (version.after ((some (Cursor.row ordinal)).bind Cursor.ordinal?)).length < pages := by
        show (version.after (some ordinal)).length < pages
        rw [rest, List.length_drop]
        omega
      rw [ih fewer, wrote, Function.update_self, rows]
      show Lib.insertAll (Lib.insertAll _ _) ((version.after (some ordinal)).map _) = _
      rw [rest, List.map_map, Lib.insertAll, Lib.insertAll, ← List.foldl_append]
      conv_rhs => rw [← List.take_append_drop limit (version.after (cursor.bind Cursor.ordinal?)), List.map_append]
      rfl

theorem rowsOf_of_distinct {store : DatasetStore} {pairs : List (String × Row)}
    (stored : store.rows id = Lib.insertAll ∅ pairs) (distinct : (pairs.map Prod.fst).Nodup) :
    store.rowsOf id = pairs := by
  rw [DatasetStore.rowsOf, stored, inOrder_insertAll ∅ distinct]
  rfl

/-- An uninterrupted transfer into a fresh placeholder stores every record's row, in page order, exactly
when the keys the device picks are distinct. -/
theorem fetchDatasetRows_keeps_iff (published : server.versions id = some version) (positive : 0 < limit)
    {pages : Nat} (enough : version.records.length < pages) {store : DatasetStore}
    (empty : store.rows id = ∅) (start : (store.versions.lookup id).bind (·.nextCursor) = none) :
    ((fetchDatasetRows server limit id pages store).rowsOf id).map Prod.snd = version.records.map (·.data) ↔
      (version.records.map fun record => pickKey record.data).Nodup := by
  have stored : (fetchDatasetRows server limit id pages store).rows id =
      Lib.insertAll ∅ (version.records.map fun record => keyed record.data) := by
    rw [← empty, fetchDatasetRows, start]
    exact @fetchRowsFrom_rows server limit id version published positive pages none enough store
  have picked : (version.records.map fun record => keyed record.data).map Prod.fst =
      version.records.map fun record => pickKey record.data := by
    rw [List.map_map]
    rfl
  rw [← picked]
  constructor
  · intro all
    apply Lib.distinct_of_length_insertAll
    have length := congrArg List.length all
    rw [DatasetStore.rowsOf, stored, inOrder] at length
    simpa using length
  · intro distinct
    rw [rowsOf_of_distinct stored distinct, List.map_map]
    rfl

end FullTransfer

section Sample

def sampleOf (first second : String) : List Row :=
  [⟨[("hh", "1"), ("name", first), ("case_key", "1")], by simp⟩,
    ⟨[("hh", "2"), ("name", second), ("case_key", "2")], by simp⟩]

def sampleVersion (first second : String) : DatasetVersion where
  datasetId := "sample"
  version := 1
  checksum := "sha256:1"
  records := recordsOf "case_key" (sampleOf first second)
  ordered := recordsOf_ordered _ _
  distinct := by show ["1", "2"].Nodup; decide
  keyed := by
    intro record member empty
    have key : record.recordKey ∈ ["1", "2"] := List.mem_map_of_mem (f := fun r => r.recordKey) member
    rw [empty] at key
    revert key
    decide

def sampleServer (version : DatasetVersion) : Server where
  rowHash := fun _ => ""
  versions := fun id => if id = "v1" then some version else none
  pins := fun _ _ => none
  irs := fun _ => []

def samplePlaceholder : DatasetStore :=
  ({} : DatasetStore).applyManifest [{
    formVersionId := "fv1", datasetKey := "households", datasetVersionId := "v1", version := 1
    rowCount := 2, checksum := "sha256:1" }]

theorem namedSample_kept :
    ((fetchDatasetRows (sampleServer (sampleVersion "Amina" "Bashir")) 2000 "v1" 3
      samplePlaceholder).rowsOf "v1").map Prod.snd = (sampleVersion "Amina" "Bashir").records.map (·.data) :=
  (fetchDatasetRows_keeps_iff rfl (by decide) (by decide) rfl rfl).mpr (by decide)

/-- Two heads of household of one name: the second replaces the first. -/
theorem sample_loses_row :
    publishDatasetVersion "sample" 1 "sha256:1" "case_key" (sampleOf "Amina" "Amina") =
        some (sampleVersion "Amina" "Amina") ∧
      samplePlaceholder.rows "v1" = ∅ ∧
      ((fetchDatasetRows (sampleServer (sampleVersion "Amina" "Amina")) 2000 "v1" 3
        samplePlaceholder).rowsOf "v1").map Prod.snd ≠ (sampleVersion "Amina" "Amina").records.map (·.data) :=
  ⟨rfl, rfl, by decide⟩

end Sample

end DataCollectionLab.Core
