import DataCollectionLab.Core.DeltaMeaning

/-!
The cell index of the device's reference data, beside a scan of the rows. Three operations maintain the
index, and one of them copies it from another version.
-/

namespace DataCollectionLab.Core

open Entities Form

namespace DatasetStore

variable (store : DatasetStore)

/-- `filter_columns` of a version's row. -/
def filterColumnsOf (id : String) : List String := (store.versions.lookup id).elim [] (·.filterColumns)

/-- `rowsForVersionWhere1` and `rowsForVersionWhere2`: a row joined with a cell for every term. -/
def rowsForVersionWhere (id : String) (terms : List (String × String)) : List (String × Row) :=
  (store.rowsOf id).filter fun row => terms.all fun term => ⟨term.1, term.2, row.1⟩ ∈ store.cells id

/-- `rowsMatching`; `none` where the index cannot help. -/
def rowsMatching (formVersionId datasetKey : String) (selector : List (String × String)) :
    Option (List (String × Row)) :=
  match store.pins.lookup (formVersionId, datasetKey) with
  | none => some []
  | some id =>
    match store.versions.lookup id with
    | none => some []
    | some held =>
      if !held.complete then some []
      else if !selector.all fun term => term.1 ∈ held.filterColumns then none
      else if selector.length = 1 ∨ selector.length = 2 then some (store.rowsForVersionWhere id selector)
      else none

end DatasetStore

def textTerms : List (String × FormValue) → Option (List (String × String))
  | [] => some []
  | (column, .text value) :: rest => (textTerms rest).map ((column, value) :: ·)
  | _ :: _ => none

def isNull : FormValue → Bool
  | .null => true
  | _ => false

/-- `StoredDatasetSource.rows`: the index where it can help, else the scan. -/
def storedRows (engine : Engine) (store : DatasetStore) (formVersionId datasetKey : String)
    (terms : List (String × FormValue)) : List Row :=
  let found := if terms.isEmpty then none
    else (textTerms terms).bind (store.rowsMatching formVersionId datasetKey)
  match found with
  | some rows => rows.map Prod.snd
  | none =>
    if terms.any fun term => isNull term.2 then []
    else matching engine ((store.rowsFor formVersionId datasetKey).map Prod.snd) terms

section Index

def bears (columns : List String) (old new : Row) : Bool :=
  columns.all fun column => (old.get column).all fun value => value = "" || new.get column = some value

/-- The cells of a version are those of its rows, in the columns that are looked up. -/
structure Indexed (columns : List String) (rows : AList fun _ : String => Row) (cells : List Cell) : Prop where
  owned : ∀ cell ∈ cells, cell.recordKey ∈ rows
  exact : ∀ column ∈ columns, ∀ key row, rows.lookup key = some row → ∀ value, value ≠ "" →
    (⟨column, value, key⟩ ∈ cells ↔ row.get column = some value)

variable {columns wanted : List String} {rows : AList fun _ : String => Row} {cells : List Cell}
  {key : String} {row : Row}

def LegibleRow (row : Row) : Prop := ∀ cell ∈ row.cells, Legible cell.1 ∧ Legible cell.2

instance (row : Row) : Decidable (LegibleRow row) :=
  inferInstanceAs (Decidable (∀ cell ∈ row.cells, Legible cell.1 ∧ Legible cell.2))

theorem get_eq_some_iff {column value : String} : row.get column = some value ↔ (column, value) ∈ row.cells := by
  obtain ⟨cells, distinct⟩ := row
  show cells.lookup column = some value ↔ (column, value) ∈ cells
  induction cells with
  | nil => simp
  | cons cell rest ih =>
    obtain ⟨first, other⟩ := cell
    rw [List.map_cons, List.nodup_cons] at distinct
    rw [List.lookup_cons, List.mem_cons, Prod.mk.injEq]
    by_cases same : column = first
    · subst same
      have later : (column, value) ∉ rest :=
        fun member => distinct.1 (List.mem_map.mpr ⟨(column, value), member, rfl⟩)
      simp [later, eq_comm]
    · have differ : (column == first) = false := beq_false_of_ne same
      rw [differ]
      simp [same, ih distinct.2]

theorem mem_indexCells (legible : LegibleRow row) {cell : Cell} :
    cell ∈ DatasetStore.indexCells wanted key row ↔
      cell.recordKey = key ∧ cell.value ≠ "" ∧ cell.column ∈ wanted ∧ row.get cell.column = some cell.value := by
  have pairs : flatJsonPairs (encodeToString row) = row.cells := by
    rw [flatJsonPairs_encodeToString]
    refine (List.map_congr_left fun pair member => ?_).trans (List.map_id _)
    obtain ⟨first, second⟩ := legible pair member
    rw [misreadText_of_legible first, misreadText_of_legible second, id]
  rw [DatasetStore.indexCells, pairs, get_eq_some_iff, List.mem_map]
  simp only [List.mem_filter, decide_eq_true_eq]
  constructor
  · rintro ⟨pair, ⟨member, filled, named⟩, rfl⟩
    exact ⟨rfl, filled, named, member⟩
  · rintro ⟨rfl, filled, named, member⟩
    exact ⟨(cell.column, cell.value), ⟨member, filled, named⟩, rfl⟩

theorem mem_foldl_insert {α : Type} [DecidableEq α] {added l : List α} {a : α} :
    a ∈ added.foldl (fun l b => l.insert b) l ↔ a ∈ l ∨ a ∈ added := by
  induction added generalizing l with
  | nil => simp
  | cons b added ih =>
    rw [List.foldl_cons, ih, List.mem_insert_iff, List.mem_cons]
    tauto

namespace Indexed

theorem insert (indexed : Indexed columns rows cells) (legible : LegibleRow row)
    (covers : ∀ column ∈ columns, column ∈ wanted)
    (kept : ∀ old, rows.lookup key = some old → bears columns old row = true) :
    Indexed columns (rows.insert key row)
      ((DatasetStore.indexCells wanted key row).foldl (fun cells cell => cells.insert cell) cells) := by
  constructor
  · intro cell member
    rw [AList.mem_insert]
    rcases mem_foldl_insert.mp member with old | new
    · exact Or.inr (indexed.owned cell old)
    · exact Or.inl ((mem_indexCells legible).mp new).1
  · intro column looked key' row' found value filled
    rw [mem_foldl_insert, mem_indexCells legible]
    rcases Lib.lookup_insert_some found with ⟨rfl, rfl⟩ | ⟨apart, old⟩
    · constructor
      · rintro (stale | ⟨-, -, -, here⟩)
        · obtain ⟨old, was⟩ := Option.isSome_iff_exists.mp
            (AList.lookup_isSome.mpr (indexed.owned _ stale))
          have had := (indexed.exact column looked key' old was value filled).mp stale
          have all := List.all_eq_true.mp (kept old was) column looked
          rw [had] at all
          simpa [filled] using all
        · exact here
      · exact fun here => Or.inr ⟨rfl, filled, covers column looked, here⟩
    · rw [indexed.exact column looked key' row' old value filled]
      simp [apart]

theorem erase (indexed : Indexed columns rows cells) (key : String) :
    Indexed columns (rows.erase key) (cells.filter (·.recordKey ≠ key)) := by
  constructor
  · intro cell member
    obtain ⟨was, other⟩ := List.mem_filter.mp member
    rw [AList.mem_erase]
    exact ⟨of_decide_eq_true other, indexed.owned cell was⟩
  · intro column looked key' row' found value filled
    obtain ⟨apart, old⟩ := Lib.lookup_erase_some found
    rw [List.mem_filter, indexed.exact column looked key' row' old value filled]
    simp [apart]

theorem change (indexed : Indexed columns rows cells) (legible : LegibleRow row)
    (covers : ∀ column ∈ columns, column ∈ wanted) :
    Indexed columns (rows.insert key row)
      ((DatasetStore.indexCells wanted key row).foldl (fun cells cell => cells.insert cell)
        (cells.filter (·.recordKey ≠ key))) := by
  have again := @insert _ wanted _ _ key _ (indexed.erase key) legible covers fun old found => by
    rw [AList.lookup_erase] at found
    cases found
  have same : (rows.erase key).insert key row = rows.insert key row := by
    apply AList.ext
    rw [Lib.entries_insert, Lib.entries_insert, Lib.entries_erase, List.filter_filter]
    simp
  rwa [same] at again

theorem seed {others : List String} {base : AList fun _ : String => Row} {baseCells : List Cell}
    (indexed : Indexed columns rows cells) (indexedBase : Indexed others base baseCells)
    (covers : ∀ column ∈ columns, column ∈ others) {pairs : List (String × Row)}
    (distinct : (pairs.map Prod.fst).Nodup)
    (copied : ∀ key row, (key, row) ∈ pairs ↔ base.lookup key = some row)
    (kept : ∀ pair ∈ pairs, ∀ old, rows.lookup pair.1 = some old → bears columns old pair.2 = true) :
    Indexed columns (Lib.insertAll rows pairs) (baseCells.foldl (fun cells cell => cells.insert cell) cells) := by
  have ofBase : ∀ key, key ∈ base ↔ key ∈ pairs.map Prod.fst := by
    intro key
    rw [← AList.lookup_isSome, Option.isSome_iff_exists, List.mem_map]
    constructor
    · rintro ⟨row, found⟩
      exact ⟨(key, row), (copied key row).mpr found, rfl⟩
    · rintro ⟨⟨key, row⟩, member, rfl⟩
      exact ⟨row, (copied key row).mp member⟩
  constructor
  · intro cell member
    rw [Lib.mem_insertAll_iff]
    rcases mem_foldl_insert.mp member with old | new
    · exact Or.inl (indexed.owned cell old)
    · exact Or.inr ((ofBase _).mp (indexedBase.owned cell new))
  · intro column looked key row found value filled
    rw [mem_foldl_insert]
    by_cases brought : key ∈ pairs.map Prod.fst
    · obtain ⟨⟨key, row'⟩, member, rfl⟩ := List.mem_map.mp brought
      rw [Lib.lookup_insertAll_of_mem rows distinct member, Option.some_inj] at found
      subst found
      have fromBase := indexedBase.exact column (covers column looked) key row' ((copied key row').mp member)
        value filled
      rw [fromBase]
      refine ⟨fun either => either.elim (fun stale => ?_) id, Or.inr⟩
      obtain ⟨old, was⟩ := Option.isSome_iff_exists.mp (AList.lookup_isSome.mpr (indexed.owned _ stale))
      have had := (indexed.exact column looked key old was value filled).mp stale
      have all := List.all_eq_true.mp (kept (key, row') member old was) column looked
      rw [had] at all
      simpa [filled] using all
    · rw [Lib.lookup_insertAll_of_not_mem rows brought] at found
      rw [indexed.exact column looked key row found value filled]
      refine ⟨fun either => either.elim id fun new => ?_, Or.inl⟩
      exact absurd ((ofBase _).mp (indexedBase.owned _ new)) brought

end Indexed

end Index

/-- What changes the reference data of a device, or what the store remembers of it. -/
inductive IndexStep where
  | manifest (entries : List DatasetManifestEntry)
  | append (id : String) (rows : List (String × Row)) (nextCursor : Option Cursor)
  | delta (id source : String) (changed : List (String × Row)) (deleted : List String)
    (nextCursor : Option Cursor) (seed : Bool)
  | prune (formVersions : List String)
  | restart

namespace DatasetStore

variable (db : ScanOrder) (store : DatasetStore)

def indexStep : IndexStep → DatasetStore
  | .manifest entries => store.applyManifest entries
  | .append id rows nextCursor => store.appendRows id rows nextCursor
  | .delta id source changed deleted nextCursor seed =>
    store.applyDelta db id source changed deleted nextCursor seed
  | .prune formVersions => store.prune formVersions
  | .restart => { store with indexedColumnsCache := ∅ }

def coversFilter (id : String) : Bool := (store.filterColumnsOf id).all (· ∈ store.indexedColumns id)

def bearsAll (columns : List String) : (AList fun _ : String => Row) → List (String × Row) → Bool
  | _, [] => true
  | rows, (key, row) :: rest =>
    ((rows.lookup key).all fun old => bears columns old row) && bearsAll columns (rows.insert key row) rest

def seeds (id source : String) : Bool :=
  ((store.filterColumnsOf id).all (· ∈ store.filterColumnsOf source)) &&
    (store.rowsOf source).all fun row =>
      ((store.rows id).lookup row.1).all fun old => bears (store.filterColumnsOf id) old row.2

def Indexes : IndexStep → Prop
  | .append id rows _ => store.coversFilter id ∧ (∀ row ∈ rows, LegibleRow row.2) ∧
      bearsAll (store.filterColumnsOf id) (store.rows id) rows
  | .delta id source changed _ _ seed => (changed ≠ [] → store.coversFilter id) ∧
      (∀ row ∈ changed, LegibleRow row.2) ∧ (seed → store.seeds id source)
  | .manifest _ | .prune _ | .restart => True

instance (a : IndexStep) : Decidable (store.Indexes a) := by
  cases a <;> unfold Indexes <;> infer_instance

def AllIndexed : Prop := ∀ id, Indexed (store.filterColumnsOf id) (store.rows id) (store.cells id)

variable {db store}

theorem AllIndexed.update {after : DatasetStore} (indexed : store.AllIndexed) {id : String}
    {rows : AList fun _ : String => Row} {cells : List Cell} (versions : after.versions = store.versions)
    (sameRows : after.rows = Function.update store.rows id rows)
    (sameCells : after.cells = Function.update store.cells id cells)
    (here : Indexed (store.filterColumnsOf id) rows cells) : after.AllIndexed := by
  intro other
  rw [filterColumnsOf, versions, sameRows, sameCells]
  by_cases same : other = id
  · rw [same, Function.update_self, Function.update_self]
    exact here
  · rw [Function.update_of_ne same, Function.update_of_ne same]
    exact indexed other

theorem indexed_empty (columns : List String) : Indexed columns ∅ [] where
  owned _ member := absurd member List.not_mem_nil
  exact _ _ _ _ found := nomatch found

theorem indexedColumns_index (id key : String) (row : Row) :
    (store.index id key row).indexedColumns id = store.indexedColumns id := by
  rw [indexedColumns, index]
  dsimp only
  rw [AList.lookup_insert]

theorem allIndexed_append {id : String} {rows : List (String × Row)} (indexed : store.AllIndexed)
    (covers : store.coversFilter id = true) (legible : ∀ row ∈ rows, LegibleRow row.2)
    (kept : bearsAll (store.filterColumnsOf id) (store.rows id) rows = true) :
    (rows.foldl (fun store row => (store.insertRow id row.1 row.2).index id row.1 row.2) store).AllIndexed := by
  induction rows generalizing store with
  | nil => exact indexed
  | cons pair rest ih =>
    obtain ⟨key, row⟩ := pair
    rw [bearsAll, Bool.and_eq_true] at kept
    rw [List.foldl_cons]
    have columns := List.all_eq_true.mp covers
    have first : ((store.insertRow id key row).index id key row).AllIndexed := by
      refine indexed.update rfl rfl rfl ((indexed id).insert (legible _ List.mem_cons_self) ?_ ?_)
      · exact fun column looked => of_decide_eq_true (columns column looked)
      · intro old found
        have all := kept.1
        rw [found] at all
        exact all
    refine ih first ?_ (fun row member => legible row (List.mem_cons_of_mem _ member)) ?_
    · unfold coversFilter
      rw [indexedColumns_index]
      exact covers
    · show bearsAll _ (Function.update store.rows id _ id) rest = true
      rw [Function.update_self]
      exact kept.2

theorem allIndexed_change {id : String} {changed : List (String × Row)} (indexed : store.AllIndexed)
    (covers : changed ≠ [] → store.coversFilter id = true) (legible : ∀ row ∈ changed, LegibleRow row.2) :
    (changed.foldl (fun store row => store.changeRow id row.1 row.2) store).AllIndexed := by
  induction changed generalizing store with
  | nil => exact indexed
  | cons pair rest ih =>
    rw [List.foldl_cons]
    have columns := covers (List.cons_ne_nil pair rest)
    have first : (store.changeRow id pair.1 pair.2).AllIndexed := by
      refine indexed.update rfl rfl ?_ ((indexed id).change (legible _ List.mem_cons_self) fun column looked =>
        of_decide_eq_true (List.all_eq_true.mp columns column looked))
      rw [changeRow, index, deleteCellsForRow]
      dsimp only
      rw [Function.update_self, Function.update_idem]
      rfl
    refine ih first (fun _ => ?_) fun row member => legible row (List.mem_cons_of_mem _ member)
    unfold coversFilter changeRow
    rw [indexedColumns_index]
    exact columns

theorem allIndexed_delete {id : String} {deleted : List String} (indexed : store.AllIndexed) :
    (deleted.foldl (fun store key => (store.deleteRow id key).deleteCellsForRow id key) store).AllIndexed := by
  induction deleted generalizing store with
  | nil => exact indexed
  | cons key rest ih =>
    rw [List.foldl_cons]
    exact ih (indexed.update rfl rfl rfl ((indexed id).erase key))

theorem allIndexed_seed {id source : String} (indexed : store.AllIndexed)
    (covers : store.seeds id source = true) : (store.seedFrom db id source).AllIndexed := by
  rw [seeds, Bool.and_eq_true] at covers
  have copied := db.perm (store.rowsOf source)
  refine indexed.update rfl rfl rfl ((indexed id).seed (indexed source) ?_ ?_ ?_ ?_)
  · exact fun column looked => of_decide_eq_true (List.all_eq_true.mp covers.1 column looked)
  · exact (copied.map Prod.fst).nodup_iff.mpr (rowsOf_distinct store source)
  · intro key row
    rw [copied.mem_iff, mem_rowsOf]
  · intro pair member old found
    have all := List.all_eq_true.mp covers.2 pair (copied.mem_iff.mp member)
    rw [found] at all
    exact all

theorem allIndexed_endPage {id : String} {nextCursor : Option Cursor} (indexed : store.AllIndexed) :
    (store.endPage id nextCursor).AllIndexed := by
  obtain ⟨rows, cells, -⟩ := updateVersion_frame store id (pageEnded nextCursor)
  rw [endPage_eq]
  intro other
  have columns : (store.updateVersion id (pageEnded nextCursor)).filterColumnsOf other =
      store.filterColumnsOf other := by
    rw [filterColumnsOf, updateVersion_lookup]
    split
    · rename_i same
      rw [same, filterColumnsOf]
      cases store.versions.lookup id <;> rfl
    · rfl
  rw [columns, rows, cells]
  exact indexed other

theorem allIndexed_manifest {entries : List DatasetManifestEntry} (indexed : store.AllIndexed) :
    (store.applyManifest entries).AllIndexed := by
  intro id
  have left := applyManifest_version entries store id
  dsimp only at left
  split at left
  · obtain ⟨-, rows, cells⟩ := left
    rw [rows, cells]
    exact indexed_empty _
  · obtain ⟨version, rows, cells⟩ := left
    rw [filterColumnsOf, version, rows, cells]
    exact indexed id

theorem allIndexed_prune {formVersions : List String} (indexed : store.AllIndexed) :
    (store.prune formVersions).AllIndexed := by
  intro id
  cases held : (store.prune formVersions).versions.lookup id with
  | some version =>
    obtain ⟨was, rows, cells⟩ := prune_version held
    rw [filterColumnsOf, held, rows, cells, ← was]
    exact indexed id
  | none =>
    rw [filterColumnsOf, held]
    refine ⟨fun cell member => ?_, fun _ looked => absurd looked List.not_mem_nil⟩
    unfold prune at member ⊢
    dsimp only at member ⊢
    split at member
    · cases member
    · rename_i kept
      rw [if_neg kept]
      exact (indexed id).owned cell member

theorem allIndexed_step {a : IndexStep} (indexed : store.AllIndexed) (allowed : store.Indexes a) :
    (store.indexStep db a).AllIndexed := by
  cases a with
  | manifest entries => exact allIndexed_manifest indexed
  | append id rows nextCursor =>
    obtain ⟨covers, legible, kept⟩ := allowed
    exact allIndexed_endPage (allIndexed_append indexed covers legible kept)
  | delta id source changed deleted nextCursor seed =>
    obtain ⟨covers, legible, seeds⟩ := allowed
    refine allIndexed_endPage (allIndexed_delete (allIndexed_change ?_ ?_ legible))
    · cases seed with
      | true => exact allIndexed_seed indexed (seeds rfl)
      | false => exact indexed
    · intro some
      have columns := covers some
      cases seed <;> exact columns
  | prune formVersions => exact allIndexed_prune indexed
  | restart => exact indexed

def scanFor (engine : Engine) (store : DatasetStore) (formVersionId datasetKey : String)
    (selector : List (String × String)) : List (String × Row) :=
  (store.rowsFor formVersionId datasetKey).filter fun row =>
    selector.all fun term => same engine (row.2.get term.1) (.text term.2)

theorem rowsMatching_eq_scanFor (engine : Engine) (indexed : store.AllIndexed) {formVersionId datasetKey : String}
    {selector : List (String × String)} (filled : ∀ term ∈ selector, term.2 ≠ "") {found : List (String × Row)}
    (matched : store.rowsMatching formVersionId datasetKey selector = some found) :
    found = scanFor engine store formVersionId datasetKey selector := by
  unfold rowsMatching at matched
  unfold scanFor rowsFor
  cases pinned : store.pins.lookup (formVersionId, datasetKey) with
  | none =>
    rw [pinned] at matched
    cases matched
    rfl
  | some id =>
    rw [pinned] at matched
    dsimp only at matched ⊢
    cases held : store.versions.lookup id with
    | none =>
      rw [held] at matched
      cases matched
      rfl
    | some version =>
      rw [held] at matched
      dsimp only at matched ⊢
      cases whole : version.complete with
      | false =>
        rw [whole] at matched
        cases matched
        rfl
      | true =>
        rw [whole, Bool.not_true, if_neg Bool.false_ne_true] at matched
        split at matched
        · cases matched
        · rename_i covered
          split at matched
          · cases matched
            refine List.filter_congr fun row member => ?_
            rw [Bool.eq_iff_iff, List.all_eq_true, List.all_eq_true]
            refine forall₂_congr fun term asked => ?_
            have looked : term.1 ∈ store.filterColumnsOf id := by
              rw [filterColumnsOf, held]
              have all : (selector.all fun term => decide (term.1 ∈ version.filterColumns)) = true := by
                simpa using covered
              exact of_decide_eq_true (List.all_eq_true.mp all term asked)
            rw [decide_eq_true_eq, same, decide_eq_true_eq]
            exact (indexed id).exact term.1 looked row.1 row.2 (mem_rowsOf.mp member) term.2 (filled term asked)
          · cases matched

end DatasetStore

theorem textTerms_text (selector : List (String × String)) :
    textTerms (selector.map fun term => (term.1, FormValue.text term.2)) = some selector := by
  induction selector with
  | nil => rfl
  | cons term rest ih =>
    rw [List.map_cons, textTerms, ih]
    rfl

/-- In every history whose steps keep the index, a look-up by text gives the rows of a scan in their order,
through the index or not. -/
theorem storedRows_eq_scan (engine : Engine) {db : ScanOrder} {steps : List IndexStep} {store : DatasetStore}
    (ran : Lib.run (fun store a => some (DatasetStore.indexStep db store a)) {} steps = some store)
    (along : Lib.Along (fun store a => some (DatasetStore.indexStep db store a)) DatasetStore.Indexes {} steps)
    (formVersionId datasetKey : String) {selector : List (String × String)}
    (filled : ∀ term ∈ selector, term.2 ≠ "") :
    (∀ found, store.rowsMatching formVersionId datasetKey selector = some found →
      found = DatasetStore.scanFor engine store formVersionId datasetKey selector) ∧
    storedRows engine store formVersionId datasetKey (selector.map fun term => (term.1, .text term.2)) =
      matching engine ((store.rowsFor formVersionId datasetKey).map Prod.snd)
        (selector.map fun term => (term.1, .text term.2)) := by
  have indexed : store.AllIndexed := by
    refine Lib.run_invariant (fun s a s' indexed allowed stepped => ?_) (fun id => ?_) along ran
    · cases stepped
      exact DatasetStore.allIndexed_step indexed allowed
    · exact DatasetStore.indexed_empty _
  have scans := fun found => @DatasetStore.rowsMatching_eq_scanFor store engine indexed formVersionId datasetKey
    selector filled found
  refine ⟨scans, ?_⟩
  have noNull : (selector.map fun term => (term.1, FormValue.text term.2)).any (fun term => isNull term.2) =
      false := by
    simp [isNull]
  unfold storedRows
  dsimp only
  rw [textTerms_text, noNull, Option.bind_some]
  cases selector with
  | nil => rfl
  | cons term rest =>
    rw [List.map_cons, List.isEmpty_cons, if_neg Bool.false_ne_true, if_neg Bool.false_ne_true]
    cases matched : store.rowsMatching formVersionId datasetKey (term :: rest) with
    | none => rfl
    | some found =>
      dsimp only
      rw [scans found matched, DatasetStore.scanFor, matching, List.filter_map]
      refine congrArg (List.map Prod.snd) (List.filter_congr fun row _ => ?_)
      rw [Function.comp, List.all_cons, List.all_cons, List.all_map]
      rfl

section Plots

def plot (region phase : String) : Row := ⟨[("name", region ++ phase), ("region", region), ("phase", phase)], by simp⟩

def plotEntry (number : Nat) (formVersionId datasetVersionId : String) (filterColumns : List String) :
    DatasetManifestEntry where
  formVersionId
  datasetKey := "plots"
  datasetVersionId
  version := number
  rowCount := 2
  checksum := datasetVersionId
  filterColumns

def plotSteps (filterColumns : List String) : List IndexStep :=
  [.manifest [plotEntry 1 "fv1" "v1" ["region"]],
    .append "v1" [("north1", plot "north" "1"), ("north2", plot "north" "2")] none,
    .manifest [plotEntry 1 "fv1" "v1" ["region"], plotEntry 2 "fv2" "v2" filterColumns],
    .delta "v2" "v1" [("south1", plot "south" "1")] ["north2"] none true]

def plotStore (filterColumns : List String) : DatasetStore :=
  (plotSteps filterColumns).foldl (DatasetStore.indexStep ScanOrder.byKey) {}

set_option maxRecDepth 20000 in
theorem plotsByRegion_scanned :
    ∃ found, (plotStore ["region"]).rowsMatching "fv2" "plots" [("region", "north")] = some found ∧
      found = DatasetStore.scanFor lookupEngine (plotStore ["region"]) "fv2" "plots" [("region", "north")] := by
  have some : ((plotStore ["region"]).rowsMatching "fv2" "plots" [("region", "north")]).isSome = true := by decide
  obtain ⟨found, matched⟩ := Option.isSome_iff_exists.mp some
  refine ⟨found, matched, ?_⟩
  exact (@storedRows_eq_scan lookupEngine ScanOrder.byKey (plotSteps ["region"]) _ rfl (by decide) "fv2" "plots" _
    (by decide)).1 found matched

set_option maxRecDepth 20000 in
/-- A column the base was not indexed in: the plot that did not change is not found. -/
theorem plotsByPhase_lost :
    ∃ found, (plotStore ["region", "phase"]).rowsMatching "fv2" "plots" [("phase", "1")] = some found ∧
      found.map Prod.fst = ["south1"] ∧
      (DatasetStore.scanFor lookupEngine (plotStore ["region", "phase"]) "fv2" "plots"
        [("phase", "1")]).map Prod.fst = ["north1", "south1"] := by
  have looked : ((plotStore ["region", "phase"]).rowsMatching "fv2" "plots" [("phase", "1")]).map
      (·.map Prod.fst) = some ["south1"] := by decide +kernel
  obtain ⟨found, matched, keys⟩ := Option.map_eq_some_iff.mp looked
  exact ⟨found, matched, keys, by decide +kernel⟩

end Plots

end DataCollectionLab.Core
