import Mathlib.Data.List.MinMax
import DataCollectionLab.Core.RowText
import DataCollectionLab.Entities.Delivery
import DataCollectionLab.Lib.Dict
import DataCollectionLab.Lib.Lists

/-!
The reference data a device holds. Rows are kept per dataset version and read only through the version
a form version pins; a version is served once every page of it has arrived. A method of the store is
one transaction.
-/

namespace DataCollectionLab.Core

open Entities

/-- One row of `dataset_version`. -/
structure StoredDatasetVersion where
  datasetKey : String
  version : Nat
  checksum : String
  rowCount : Nat
  complete : Bool := false
  nextCursor : Option Cursor := none
  filterColumns : List String

structure DatasetManifestEntry where
  formVersionId : String
  datasetKey : String
  datasetVersionId : String
  version : Nat
  rowCount : Nat
  checksum : String
  filterColumns : List String := []
  deriving DecidableEq

/-- One entry of `dataset_cell` for a version. -/
structure Cell where
  column : String
  value : String
  recordKey : String
  deriving DecidableEq

structure ScanOrder where
  scan : List (String × Row) → List (String × Row)
  perm : ∀ rows, (scan rows).Perm rows

def ScanOrder.byKey : ScanOrder where
  scan := List.insertionSort fun a b => a.1 ≤ b.1
  perm := List.perm_insertionSort _

structure DatasetStore where
  versions : AList fun _ : String => StoredDatasetVersion := ∅
  /-- `dataset_row`, for each version: the newest row first. -/
  rows : String → AList fun _ : String => Row := fun _ => ∅
  cells : String → List Cell := fun _ => []
  /-- `form_version_dataset`: form version and dataset key to dataset version. -/
  pins : AList fun _ : String × String => String := ∅
  indexedColumnsCache : AList fun _ : String => List String := ∅

/-- `filter_columns` as it is stored and read back: joined by commas, and split at them. -/
def splitColumns (columns : List String) : List String :=
  (((",".intercalate columns).toList.splitOn ',').map String.ofList).filter (· ≠ "")

def inOrder (rows : AList fun _ : String => Row) : List (String × Row) :=
  rows.entries.reverse.map fun entry => (entry.1, entry.2)

theorem inOrder_insertAll (rows : AList fun _ : String => Row) {pairs : List (String × Row)}
    (distinct : (pairs.map Prod.fst).Nodup) :
    inOrder (Lib.insertAll rows pairs) =
      (inOrder rows).filter (fun row => row.1 ∉ pairs.map Prod.fst) ++ pairs := by
  rw [inOrder, Lib.entries_insertAll rows distinct, List.reverse_append, List.reverse_reverse, List.map_append,
    List.map_map, inOrder, List.filter_map, ← List.filter_reverse]
  exact congrArg (_ ++ ·) (List.map_id _)

theorem inOrder_eraseAll (rows : AList fun _ : String => Row) (keys : List String) :
    inOrder (Lib.eraseAll rows keys) = (inOrder rows).filter fun row => row.1 ∉ keys := by
  rw [inOrder, Lib.entries_eraseAll, inOrder, List.filter_map, ← List.filter_reverse]
  rfl

namespace DatasetStore

variable (store : DatasetStore)

def updateVersion (id : String) (change : StoredDatasetVersion → StoredDatasetVersion) : DatasetStore :=
  match store.versions.lookup id with
  | some held => { store with versions := store.versions.insert id (change held) }
  | none => store

def markComplete (id : String) : DatasetStore :=
  store.updateVersion id fun held => { held with complete := true, nextCursor := none }

def setCursor (id : String) (next : Cursor) : DatasetStore :=
  store.updateVersion id fun held => { held with complete := false, nextCursor := some next }

def insertRow (id key : String) (row : Row) : DatasetStore :=
  { store with rows := Function.update store.rows id ((store.rows id).insert key row) }

def deleteRow (id key : String) : DatasetStore :=
  { store with rows := Function.update store.rows id ((store.rows id).erase key) }

def deleteCellsForRow (id key : String) : DatasetStore :=
  { store with cells := Function.update store.cells id ((store.cells id).filter (·.recordKey ≠ key)) }

/-- The rows of a version, `ORDER BY rowid`. -/
def rowsOf (id : String) : List (String × Row) := inOrder (store.rows id)

/-- `indexedColumns`: what the version row says the first time it is asked, and that answer ever after. -/
def indexedColumns (id : String) : List String :=
  match store.indexedColumnsCache.lookup id with
  | some columns => columns
  | none => (store.versions.lookup id).elim [] (·.filterColumns)

def indexCells (wanted : List String) (key : String) (row : Row) : List Cell :=
  ((flatJsonPairs (encodeToString row)).filter fun pair => pair.2 ≠ "" ∧ pair.1 ∈ wanted).map fun pair =>
    ⟨pair.1, pair.2, key⟩

def index (id key : String) (row : Row) : DatasetStore :=
  let wanted := store.indexedColumns id
  { store with
    indexedColumnsCache := store.indexedColumnsCache.insert id wanted
    cells := Function.update store.cells id
      ((indexCells wanted key row).foldl (fun cells cell => cells.insert cell) (store.cells id)) }

/-- `missingFrom`: what of the manifest is not held whole. -/
def missingFrom (manifest : List DatasetManifestEntry) : List DatasetManifestEntry :=
  (Lib.firstBy (·.datasetVersionId) manifest).filter fun entry =>
    match store.versions.lookup entry.datasetVersionId with
    | none => true
    | some held => held.checksum ≠ entry.checksum || !held.complete

def placeholder (entry : DatasetManifestEntry) : StoredDatasetVersion where
  datasetKey := entry.datasetKey
  version := entry.version
  checksum := entry.checksum
  rowCount := entry.rowCount
  filterColumns := splitColumns entry.filterColumns

def needsPlaceholder (entry : DatasetManifestEntry) : Bool :=
  (store.versions.lookup entry.datasetVersionId).all fun held => held.checksum ≠ entry.checksum

def applyEntry (entry : DatasetManifestEntry) : DatasetStore :=
  let id := entry.datasetVersionId
  let pinned := { store with pins := store.pins.insert (entry.formVersionId, entry.datasetKey) id }
  if store.needsPlaceholder entry then
    { pinned with
      rows := Function.update store.rows id ∅
      cells := Function.update store.cells id []
      versions := store.versions.insert id (placeholder entry) }
  else pinned

/-- `applyManifest`: the pins of the form versions it names are replaced, not merged. -/
def applyManifest (manifest : List DatasetManifestEntry) : DatasetStore :=
  manifest.foldl applyEntry { store with
    pins := Lib.dropKeys (fun pin => pin.1 ∈ manifest.map (·.formVersionId)) store.pins }

def endPage (id : String) : Option Cursor → DatasetStore
  | none => store.markComplete id
  | some next => store.setCursor id next

def appendRows (id : String) (rows : List (String × Row)) (nextCursor : Option Cursor) : DatasetStore :=
  (rows.foldl (fun store row => (store.insertRow id row.1 row.2).index id row.1 row.2) store).endPage id
    nextCursor

/-- `copyRowsToVersion` and `copyCellsToVersion`. -/
def seedFrom (db : ScanOrder) (id source : String) : DatasetStore :=
  { store with
    rows := Function.update store.rows id
      (Lib.insertAll (store.rows id) (db.scan (store.rowsOf source)))
    cells := Function.update store.cells id
      ((store.cells source).foldl (fun cells cell => cells.insert cell) (store.cells id)) }

def changeRow (id key : String) (row : Row) : DatasetStore :=
  ((store.insertRow id key row).deleteCellsForRow id key).index id key row

def applyDelta (db : ScanOrder) (id source : String) (changed : List (String × Row)) (deleted : List String)
    (nextCursor : Option Cursor) (seed : Bool) : DatasetStore :=
  let seeded := if seed then store.seedFrom db id source else store
  let patched := changed.foldl (fun store row => store.changeRow id row.1 row.2) seeded
  (deleted.foldl (fun store key => (store.deleteRow id key).deleteCellsForRow id key) patched).endPage id
    nextCursor

/-- `deltaBaseFor`: the newest complete version of the same dataset. -/
def deltaBaseFor (datasetKey exclude : String) : Option String :=
  ((store.versions.entries.filter fun entry =>
    entry.2.datasetKey = datasetKey ∧ entry.2.complete ∧ entry.1 ≠ exclude).argmax (·.2.version)).map (·.1)

/-- `rowsFor`: the rows of the version a form version pins, once it is whole. -/
def rowsFor (formVersionId datasetKey : String) : List (String × Row) :=
  match store.pins.lookup (formVersionId, datasetKey) with
  | none => []
  | some id =>
    match store.versions.lookup id with
    | none => []
    | some held => if held.complete then store.rowsOf id else []

/-- `deletableDatasetVersions`: pinned by no form version that is held. -/
def deletable (formVersions : List String) (id : String) : Bool :=
  !store.pins.entries.any fun pin => pin.2 = id ∧ pin.1.1 ∈ formVersions

/-- `prune`: the pins of form versions that are gone, then the versions nothing pins. -/
def prune (formVersions : List String) : DatasetStore :=
  let swept := { store with pins := Lib.dropKeys (fun pin => pin.1 ∉ formVersions) store.pins }
  let removable (id : String) : Bool := (store.versions.lookup id).isSome && swept.deletable formVersions id
  { swept with
    rows := fun id => if removable id then ∅ else store.rows id
    cells := fun id => if removable id then [] else store.cells id
    versions := Lib.dropKeys removable store.versions }

section Effects

variable {store}

theorem mem_rowsOf {id key : String} {row : Row} :
    (key, row) ∈ store.rowsOf id ↔ (store.rows id).lookup key = some row := by
  rw [← Option.mem_def, AList.mem_lookup_iff]
  simp [rowsOf, inOrder]

theorem rowsOf_distinct (store : DatasetStore) (id : String) : ((store.rowsOf id).map Prod.fst).Nodup := by
  have keys := (store.rows id).nodupKeys
  unfold List.NodupKeys List.keys at keys
  rw [rowsOf, inOrder, List.map_map, List.map_reverse, List.nodup_reverse]
  exact keys

theorem updateVersion_lookup (store : DatasetStore) (id other : String)
    (change : StoredDatasetVersion → StoredDatasetVersion) :
    (store.updateVersion id change).versions.lookup other =
      if other = id then (store.versions.lookup id).map change else store.versions.lookup other := by
  unfold updateVersion
  split
  · rename_i held found
    rw [found]
    exact Lib.lookup_insert_eq_ite _ _ _ _
  · rename_i found
    rw [found]
    split
    · rename_i same
      rw [same, found]
      rfl
    · rfl

theorem updateVersion_frame (store : DatasetStore) (id : String)
    (change : StoredDatasetVersion → StoredDatasetVersion) :
    (store.updateVersion id change).rows = store.rows ∧ (store.updateVersion id change).cells = store.cells ∧
      (store.updateVersion id change).pins = store.pins := by
  unfold updateVersion
  split <;> exact ⟨rfl, rfl, rfl⟩

def pageEnded (nextCursor : Option Cursor) (held : StoredDatasetVersion) : StoredDatasetVersion :=
  { held with complete := nextCursor.isNone, nextCursor := nextCursor }

theorem endPage_eq (store : DatasetStore) (id : String) (nextCursor : Option Cursor) :
    store.endPage id nextCursor = store.updateVersion id (pageEnded nextCursor) := by
  cases nextCursor <;> rfl

/-- The rows of one version are replaced; no version and no pin is touched. -/
structure Rewrites (before : DatasetStore) (id : String) (rows : AList fun _ : String => Row)
    (after : DatasetStore) : Prop where
  rows : after.rows = Function.update before.rows id rows
  pins : after.pins = before.pins
  versions : after.versions = before.versions

theorem Rewrites.foldl {α : Type} (id : String) (f : DatasetStore → α → DatasetStore)
    (g : (AList fun _ : String => Row) → α → AList fun _ : String => Row)
    (step : ∀ store a, Rewrites store id (g (store.rows id) a) (f store a)) (l : List α)
    (store : DatasetStore) : Rewrites store id (l.foldl g (store.rows id)) (l.foldl f store) := by
  induction l generalizing store with
  | nil => exact ⟨(Function.update_eq_self id _).symm, rfl, rfl⟩
  | cons a l ih =>
    have first := step store a
    have later := ih (f store a)
    rw [first.rows, Function.update_self] at later
    refine ⟨?_, later.pins.trans first.pins, later.versions.trans first.versions⟩
    rw [List.foldl_cons, List.foldl_cons, later.rows, first.rows, Function.update_idem]

theorem Rewrites.trans {id : String} {s₁ s₂ s₃ : DatasetStore} {rows rows' : AList fun _ : String => Row}
    (one : Rewrites s₁ id rows s₂) (two : Rewrites s₂ id rows' s₃) : Rewrites s₁ id rows' s₃ where
  rows := by rw [two.rows, one.rows, Function.update_idem]
  pins := two.pins.trans one.pins
  versions := two.versions.trans one.versions

/-- What a page leaves: one version's rows, and the end of the page on that version's row. -/
structure PageEffect (before : DatasetStore) (id : String) (rows : AList fun _ : String => Row)
    (nextCursor : Option Cursor) (after : DatasetStore) : Prop where
  rows : after.rows = Function.update before.rows id rows
  pins : after.pins = before.pins
  versions : ∀ other, after.versions.lookup other =
    if other = id then (before.versions.lookup id).map (pageEnded nextCursor) else before.versions.lookup other

theorem Rewrites.endPage {id : String} {before after : DatasetStore} {rows : AList fun _ : String => Row}
    (writes : Rewrites before id rows after) (nextCursor : Option Cursor) :
    PageEffect before id rows nextCursor (after.endPage id nextCursor) := by
  rw [endPage_eq]
  obtain ⟨same, -, samePins⟩ := updateVersion_frame after id (pageEnded nextCursor)
  refine ⟨same.trans writes.rows, samePins.trans writes.pins, fun other => ?_⟩
  rw [updateVersion_lookup, writes.versions]

theorem appendRows_effect (store : DatasetStore) (id : String) (rows : List (String × Row))
    (nextCursor : Option Cursor) :
    PageEffect store id (Lib.insertAll (store.rows id) rows) nextCursor
      (store.appendRows id rows nextCursor) := by
  have inserts : Rewrites store id (Lib.insertAll (store.rows id) rows)
      (rows.foldl (fun store row => (store.insertRow id row.1 row.2).index id row.1 row.2) store) := by
    apply Rewrites.foldl
    exact fun _ _ => ⟨rfl, rfl, rfl⟩
  exact inserts.endPage nextCursor

def seededRows (store : DatasetStore) (db : ScanOrder) (id source : String) (seed : Bool) :
    AList fun _ : String => Row :=
  if seed then Lib.insertAll (store.rows id) (db.scan (store.rowsOf source)) else store.rows id

theorem changeRow_rewrites (store : DatasetStore) (id : String) (changed : List (String × Row)) :
    Rewrites store id (Lib.insertAll (store.rows id) changed)
      (changed.foldl (fun store row => store.changeRow id row.1 row.2) store) := by
  apply Rewrites.foldl
  exact fun _ _ => ⟨rfl, rfl, rfl⟩

theorem deleteRow_rewrites (store : DatasetStore) (id : String) (deleted : List String) :
    Rewrites store id (Lib.eraseAll (store.rows id) deleted)
      (deleted.foldl (fun store key => (store.deleteRow id key).deleteCellsForRow id key) store) := by
  apply Rewrites.foldl
  exact fun _ _ => ⟨rfl, rfl, rfl⟩

theorem applyDelta_effect (store : DatasetStore) (db : ScanOrder) (id source : String)
    (changed : List (String × Row)) (deleted : List String) (nextCursor : Option Cursor) (seed : Bool) :
    PageEffect store id
      (Lib.eraseAll (Lib.insertAll (store.seededRows db id source seed) changed) deleted) nextCursor
      (store.applyDelta db id source changed deleted nextCursor seed) := by
  have seeds : Rewrites store id (store.seededRows db id source seed)
      (if seed then store.seedFrom db id source else store) := by
    cases seed with
    | false => exact ⟨(Function.update_eq_self id _).symm, rfl, rfl⟩
    | true => exact ⟨rfl, rfl, rfl⟩
  have changes := changeRow_rewrites (if seed then store.seedFrom db id source else store) id changed
  rw [seeds.rows, Function.update_self] at changes
  have deletes := deleteRow_rewrites (changed.foldl (fun store row => store.changeRow id row.1 row.2)
    (if seed then store.seedFrom db id source else store)) id deleted
  rw [changes.rows, Function.update_self] at deletes
  exact ((seeds.trans changes).trans deletes).endPage nextCursor

def renews (store : DatasetStore) (id : String) (entry : DatasetManifestEntry) : Bool :=
  entry.datasetVersionId = id && store.needsPlaceholder entry

theorem applyEntry_renewed {id : String} {entry : DatasetManifestEntry} (renewed : store.renews id entry = true) :
    (store.applyEntry entry).versions.lookup id = some (placeholder entry) ∧
      (store.applyEntry entry).rows id = ∅ ∧ (store.applyEntry entry).cells id = [] := by
  rw [renews, Bool.and_eq_true, decide_eq_true_eq] at renewed
  obtain ⟨rfl, needed⟩ := renewed
  rw [applyEntry, if_pos needed]
  exact ⟨AList.lookup_insert _, Function.update_self .., Function.update_self ..⟩

theorem applyEntry_kept {id : String} {entry : DatasetManifestEntry} (kept : store.renews id entry = false) :
    (store.applyEntry entry).versions.lookup id = store.versions.lookup id ∧
      (store.applyEntry entry).rows id = store.rows id ∧ (store.applyEntry entry).cells id = store.cells id := by
  rw [renews, Bool.and_eq_false_iff, decide_eq_false_iff_not] at kept
  unfold applyEntry
  dsimp only
  split
  · rename_i needed
    have apart : id ≠ entry.datasetVersionId := by
      rintro rfl
      rcases kept with no | no
      · exact no rfl
      · rw [needed] at no
        cases no
    exact ⟨AList.lookup_insert_ne apart, Function.update_of_ne apart .., Function.update_of_ne apart ..⟩
  · exact ⟨rfl, rfl, rfl⟩

theorem renews_congr {s s' : DatasetStore} {id : String} (same : s.versions.lookup id = s'.versions.lookup id)
    (entry : DatasetManifestEntry) : s.renews id entry = s'.renews id entry := by
  unfold renews needsPlaceholder
  by_cases here : entry.datasetVersionId = id
  · rw [here, same]
  · simp [here]

theorem applyEntries_version (entries : List DatasetManifestEntry) (store : DatasetStore) (id : String) :
    let after := entries.foldl applyEntry store
    if entries.any (store.renews id) then
      (∃ entry ∈ entries, entry.datasetVersionId = id ∧ after.versions.lookup id = some (placeholder entry)) ∧
        after.rows id = ∅ ∧ after.cells id = []
    else
      after.versions.lookup id = store.versions.lookup id ∧ after.rows id = store.rows id ∧
        after.cells id = store.cells id := by
  induction entries generalizing store with
  | nil => exact ⟨rfl, rfl, rfl⟩
  | cons entry entries ih =>
    have later := ih (store.applyEntry entry)
    dsimp only at later ⊢
    rw [List.foldl_cons, List.any_cons]
    cases renewed : store.renews id entry with
    | true =>
      obtain ⟨fresh, noRows, noCells⟩ := applyEntry_renewed renewed
      rw [Bool.true_or, if_pos rfl]
      split at later
      · obtain ⟨⟨other, member, here⟩, rest⟩ := later
        exact ⟨⟨other, List.mem_cons_of_mem _ member, here⟩, rest⟩
      · rw [fresh, noRows, noCells] at later
        rw [renews, Bool.and_eq_true, decide_eq_true_eq] at renewed
        exact ⟨⟨entry, List.mem_cons_self, renewed.1, later.1⟩, later.2⟩
    | false =>
      obtain ⟨same, sameRows, sameCells⟩ := applyEntry_kept renewed
      have alike : (store.applyEntry entry).renews id = store.renews id := funext (renews_congr same)
      rw [Bool.false_or]
      rw [alike, same, sameRows, sameCells] at later
      split at later
      · rename_i some
        rw [if_pos some]
        obtain ⟨⟨other, member, here⟩, rest⟩ := later
        exact ⟨⟨other, List.mem_cons_of_mem _ member, here⟩, rest⟩
      · rename_i none
        rw [if_neg none]
        exact later

theorem applyManifest_version (entries : List DatasetManifestEntry) (store : DatasetStore) (id : String) :
    let after := store.applyManifest entries
    if entries.any (store.renews id) then
      (∃ entry ∈ entries, entry.datasetVersionId = id ∧ after.versions.lookup id = some (placeholder entry)) ∧
        after.rows id = ∅ ∧ after.cells id = []
    else
      after.versions.lookup id = store.versions.lookup id ∧ after.rows id = store.rows id ∧
        after.cells id = store.cells id :=
  applyEntries_version entries { store with
    pins := Lib.dropKeys (fun pin => pin.1 ∈ entries.map (·.formVersionId)) store.pins } id

theorem prune_version {formVersions : List String} {id : String} {held : StoredDatasetVersion}
    (found : (store.prune formVersions).versions.lookup id = some held) :
    store.versions.lookup id = some held ∧ (store.prune formVersions).rows id = store.rows id ∧
      (store.prune formVersions).cells id = store.cells id := by
  unfold prune at found ⊢
  dsimp only at found ⊢
  rw [Lib.lookup_dropKeys] at found
  split at found
  · cases found
  · rename_i kept
    exact ⟨found, if_neg kept, if_neg kept⟩

theorem deltaBaseFor_some {datasetKey exclude base : String}
    (found : store.deltaBaseFor datasetKey exclude = some base) :
    ∃ held, store.versions.lookup base = some held ∧ held.datasetKey = datasetKey ∧ held.complete = true ∧
      base ≠ exclude := by
  obtain ⟨entry, best, rfl⟩ := Option.map_eq_some_iff.mp found
  have member := List.mem_filter.mp (List.argmax_mem best)
  refine ⟨entry.2, AList.mem_lookup_iff.mpr member.1, ?_⟩
  simpa using member.2

end Effects

end DatasetStore

end DataCollectionLab.Core
