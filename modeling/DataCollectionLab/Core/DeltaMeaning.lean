import DataCollectionLab.Core.DatasetHistory
import DataCollectionLab.Form.Evaluate

/-!
A delta beside a full transfer: what its pages list, the table they leave, and when that table means the
same to the form it was made for.
-/

namespace DataCollectionLab.Core

open Entities DatasetVersion Form

section Listing

variable (rowHash : List (String × Option String) → String) (columns : List String)
  (older newer : DatasetVersion)

def deltaPages (limit : Nat) : (fuel : Nat) → Option DeltaCursor → List DatasetDelta
  | 0, _ => []
  | fuel + 1, cursor =>
    let page := delta rowHash columns older newer cursor limit
    page :: match page.nextCursor with
      | none => []
      | some next => deltaPages limit fuel (some next)

def differs (record : DatasetRecord) : Bool :=
  match older.row record.recordKey with
  | none => true
  | some old => columns.any fun column => old.get column ≠ record.data.get column

variable {rowHash columns older newer}

theorem isChanged_eq_differs (separates : Separates rowHash columns older newer) {record : DatasetRecord}
    (member : record ∈ newer.records) :
    isChanged rowHash columns older record = differs columns older record := by
  unfold isChanged differs
  cases found : older.row record.recordKey with
  | none => simp
  | some old =>
    obtain ⟨before, beforeMember, -, rfl⟩ := older.row_eq_some_iff.mp found
    rw [Bool.eq_iff_iff, List.any_eq_true]
    simp only [Option.map_some, ne_eq, decide_eq_true_eq, Option.some_inj]
    constructor
    · intro apart
      by_contra same
      refine apart (congrArg rowHash (List.map_congr_left fun column read => ?_))
      by_contra differ
      exact same ⟨column, read, fun equal => differ (by rw [equal])⟩
    · rintro ⟨column, read, apart⟩ same
      exact apart (separates before beforeMember record member same column read)

theorem deltaPages_flatMap {limit : Nat} (positive : 0 < limit) {fuel : Nat} {cursor : Option DeltaCursor}
    (enough : (remaining rowHash columns older newer cursor).1.length +
      (remaining rowHash columns older newer cursor).2.length < fuel) :
    (deltaPages rowHash columns older newer limit fuel cursor).flatMap (·.changed) =
        (remaining rowHash columns older newer cursor).1.map (·.data) ∧
      (deltaPages rowHash columns older newer limit fuel cursor).flatMap (·.deleted) =
        (remaining rowHash columns older newer cursor).2 := by
  induction fuel generalizing cursor with
  | zero => exact absurd enough (Nat.not_lt_zero _)
  | succ fuel ih =>
    obtain ⟨records, laterRecords, laterKeys, pageOf⟩ := @delta_pageOf rowHash columns older newer cursor limit
      positive
    rw [deltaPages, List.flatMap_cons, List.flatMap_cons]
    rw [pageOf.accounts, pageOf.changed, List.map_append]
    cases more : (delta rowHash columns older newer cursor limit).nextCursor with
    | none =>
      obtain ⟨rfl, rfl⟩ := pageOf.last more
      simp
    | some next =>
      obtain ⟨left, -⟩ := pageOf.next next more
      obtain ⟨changes, deletions⟩ := ih (Nat.lt_of_lt_of_le (pageOf.shrinks more) (Nat.le_of_lt_succ enough))
      rw [left] at changes deletions
      dsimp only
      rw [changes, deletions]
      exact ⟨rfl, rfl⟩

end Listing

section Table

variable {rowHash : List (String × Option String) → String} {columns : List String}
  {older newer : DatasetVersion}

def finish (left : List DatasetRecord × List String) (rows : List (String × Row)) : List (String × Row) :=
  rows.filter (fun row => row.1 ∉ left.1.map (·.recordKey) ∧ row.1 ∉ left.2) ++
    left.1.map fun record => (record.recordKey, record.data)

theorem finish_page {cursor : Option DeltaCursor} {page : DatasetDelta}
    {records laterRecords : List DatasetRecord} {laterKeys : List String} (filed : Filed newer)
    (pageOf : PageOf rowHash columns older newer cursor page records laterRecords laterKeys)
    (rows : AList fun _ : String => Row) :
    finish (laterRecords, laterKeys)
        (inOrder (Lib.eraseAll (Lib.insertAll rows (page.changed.map keyed)) page.deleted)) =
      finish (remaining rowHash columns older newer cursor) (inOrder rows) := by
  obtain ⟨subRecords, subKeys⟩ := remaining_sublist rowHash columns older newer cursor
  rw [pageOf.accounts] at subRecords subKeys ⊢
  have sub : records.Sublist newer.records := (List.sublist_append_left _ _).trans subRecords
  have keyOf : (records.map fun record => (record.recordKey, record.data)).map Prod.fst =
      records.map (·.recordKey) := by
    rw [List.map_map]
    rfl
  rw [pageOf.changed, keyed_records filed sub, inOrder_eraseAll, inOrder_insertAll rows (records_distinct sub),
    keyOf]
  have distinct := (subRecords.map (·.recordKey)).nodup newer.distinct
  rw [List.map_append, List.nodup_append] at distinct
  -- A row of this page is neither deleted nor named again.
  have last : ∀ row ∈ records.map (fun record => (record.recordKey, record.data)),
      row.1 ∉ page.deleted ∧ row.1 ∉ laterRecords.map (·.recordKey) ∧ row.1 ∉ laterKeys := by
    intro row member
    obtain ⟨record, here, rfl⟩ := List.mem_map.mp member
    have present : record.recordKey ∈ newer.keys := List.mem_map_of_mem (sub.subset here)
    have kept : ∀ key ∈ page.deleted ++ laterKeys, key ≠ record.recordKey := by
      rintro key gone rfl
      exact ((mem_gone older newer).mp (subKeys.subset gone)).2 present
    refine ⟨fun gone => kept _ (List.mem_append_left _ gone) rfl, ?_,
      fun gone => kept _ (List.mem_append_right _ gone) rfl⟩
    exact fun later => distinct.2.2 _ (List.mem_map_of_mem here) _ later rfl
  have back : ((records.map fun record => (record.recordKey, record.data)).filter
      fun row => row.1 ∉ page.deleted).filter
        (fun row => row.1 ∉ laterRecords.map (·.recordKey) ∧ row.1 ∉ laterKeys) =
      records.map fun record => (record.recordKey, record.data) := by
    rw [List.filter_filter, List.filter_eq_self]
    intro row member
    obtain ⟨one, two, three⟩ := last row member
    simp [one, two, three]
  have front : (((inOrder rows).filter fun row => row.1 ∉ records.map (·.recordKey)).filter
      fun row => row.1 ∉ page.deleted).filter
        (fun row => row.1 ∉ laterRecords.map (·.recordKey) ∧ row.1 ∉ laterKeys) =
      (inOrder rows).filter fun row =>
        row.1 ∉ (records ++ laterRecords).map (·.recordKey) ∧ row.1 ∉ page.deleted ++ laterKeys := by
    rw [List.filter_filter, List.filter_filter]
    apply List.filter_congr
    intro row _
    rw [List.map_append, Bool.eq_iff_iff]
    simp only [Bool.and_eq_true, decide_eq_true_eq, List.mem_append, not_or]
    tauto
  unfold finish
  dsimp only
  rw [List.filter_append, List.filter_append, front, back, List.append_assoc, ← List.map_append]

theorem fetchDeltaFrom_inOrder {server : Server} {limit : Nat} {db : ScanOrder} {entry : DatasetManifestEntry}
    {base : String}
    (answers : ∀ cursor, server.datasetDelta entry.formVersionId entry.datasetKey base cursor limit =
      some (delta rowHash columns older newer cursor limit))
    (filed : Filed newer) (positive : 0 < limit) {pages : Nat} {cursor : Option DeltaCursor} {first : Bool}
    (enough : (remaining rowHash columns older newer cursor).1.length +
      (remaining rowHash columns older newer cursor).2.length < pages) (store : DatasetStore) :
    (fetchDeltaFrom server limit db entry base pages cursor first store).rowsOf entry.datasetVersionId =
      finish (remaining rowHash columns older newer cursor)
        (inOrder (store.seededRows db entry.datasetVersionId base first)) := by
  induction pages generalizing cursor first store with
  | zero => exact absurd enough (Nat.not_lt_zero _)
  | succ pages ih =>
    obtain ⟨records, laterRecords, laterKeys, pageOf⟩ := @delta_pageOf rowHash columns older newer cursor limit
      positive
    have page := finish_page filed pageOf (store.seededRows db entry.datasetVersionId base first)
    rw [fetchDeltaFrom, answers cursor]
    generalize delta rowHash columns older newer cursor limit = answer at page pageOf
    have wrote := (store.applyDelta_effect db entry.datasetVersionId base (answer.changed.map keyed)
      answer.deleted (answer.nextCursor.map .delta) first).rows
    rw [← page]
    dsimp only
    cases more : answer.nextCursor with
    | none =>
      obtain ⟨rfl, rfl⟩ := pageOf.last more
      rw [more] at wrote
      dsimp only
      rw [DatasetStore.rowsOf, wrote, Function.update_self]
      simp [finish]
    | some next =>
      obtain ⟨left, -⟩ := pageOf.next next more
      rw [more] at wrote
      dsimp only
      rw [ih (Nat.lt_of_lt_of_le (pageOf.shrinks more) (Nat.le_of_lt_succ enough)), left]
      show finish _ (inOrder ((store.applyDelta ..).rows entry.datasetVersionId)) = _
      rw [wrote, Function.update_self]

end Table

section Meaning

variable {columns : List String} {older newer : DatasetVersion} {db : ScanOrder}

def pairsOf (version : DatasetVersion) : List (String × Row) :=
  version.records.map fun record => (record.recordKey, record.data)

/-- The records of the newer version that are the same in the columns, in the order the older ones are copied
in, and the others after them: the order the device ends up with is that of the file. -/
def InFileOrder (db : ScanOrder) (columns : List String) (older newer : DatasetVersion) : Prop :=
  ((db.scan (pairsOf older)).map Prod.fst).filter (fun key => newer.records.any fun record =>
      record.recordKey = key && !differs columns older record) ++
    (newer.records.filter (differs columns older)).map (·.recordKey) = newer.keys

instance : Decidable (InFileOrder db columns older newer) := inferInstanceAs (Decidable (_ = _))

def LookupsWithin (engine : Engine) (ir : List Node) (datasetKey : String) : Prop :=
  ∀ expr ∈ exprsInAll ir ++ ((choicesInAll ir).filterMap compileChoices).flatMap queryExprs,
    ∀ args ∈ pulldataCalls expr, ReadsWithin engine datasetKey (columnsReadBy ir datasetKey) args

def MeansSame (engine : Engine) (ir : List Node) (datasetKey : String) (rows rows' : List Row) : Prop :=
  ∀ (resolve : String → Option FormValue) (datasets : String → List Row),
    let ctx : EvalContext := { resolve, datasets := Function.update datasets datasetKey rows }
    let ctx' : EvalContext := { resolve, datasets := Function.update datasets datasetKey rows' }
    (∀ choices ∈ choicesInAll ir, ∀ query ∈ compileChoices choices,
      resolveChoices engine ctx query = resolveChoices engine ctx' query) ∧
    ∀ expr ∈ exprsInAll ir, evaluate engine ctx expr = evaluate engine ctx' expr

theorem mem_columnsReadBy {ir : List Node} {datasetKey : String} {choices : Choices} {query : ChoiceQuery}
    (member : choices ∈ choicesInAll ir) (compiled : compileChoices choices = some query)
    (mine : query.dataset = datasetKey) {column : String} (read : column ∈ columnsOf query) :
    column ∈ columnsReadBy ir datasetKey := by
  have same : choices.dataset = query.dataset := by
    unfold compileChoices at compiled
    split at compiled
    · cases compiled
    · cases compiled
      rfl
  rw [columnsReadBy, List.mem_insertionSort, List.mem_dedup, List.mem_flatMap]
  refine ⟨query, List.mem_filterMap.mpr ⟨choices, List.mem_filter.mpr ⟨member, ?_⟩, compiled⟩, read⟩
  simpa [same] using mine

theorem meansSame_of_agree {engine : Engine} {ir : List Node} {datasetKey : String} {rows rows' : List Row}
    (lookups : LookupsWithin engine ir datasetKey)
    (agree : List.Forall₂ (AgreeIn (columnsReadBy ir datasetKey)) rows rows') :
    MeansSame engine ir datasetKey rows rows' := by
  intro resolve datasets
  have alike : Alike datasetKey (columnsReadBy ir datasetKey)
      { resolve, datasets := Function.update datasets datasetKey rows }
      { resolve, datasets := Function.update datasets datasetKey rows' } := by
    refine ⟨rfl, fun other apart => ?_, ?_⟩
    · dsimp only
      rw [Function.update_of_ne apart, Function.update_of_ne apart]
    · dsimp only
      rw [Function.update_self, Function.update_self]
      exact agree
  refine ⟨fun choices member query compiled => ?_, fun expr member => ?_⟩
  · refine resolveChoices_alike alike rfl query (fun mine column read => ?_) fun expr inQuery => ?_
    · exact mem_columnsReadBy member compiled mine read
    · refine lookups expr (List.mem_append_right _ (List.mem_flatMap.mpr ⟨query, ?_, inQuery⟩))
      exact List.mem_filterMap.mpr ⟨choices, member, compiled⟩
  · exact evaluate_alike alike expr (fun _ _ => rfl) (lookups expr (List.mem_append_left _ member))

variable {rowHash : List (String × Option String) → String}

theorem filter_isChanged (separates : Separates rowHash columns older newer) :
    newer.records.filter (isChanged rowHash columns older) = newer.records.filter (differs columns older) :=
  List.filter_congr fun _ member => isChanged_eq_differs separates member

theorem finished_agrees (separates : Separates rowHash columns older newer)
    (order : InFileOrder db columns older newer) :
    List.Forall₂ (AgreeIn columns)
      ((finish (remaining rowHash columns older newer none) (db.scan (pairsOf older))).map Prod.snd)
      (newer.records.map (·.data)) := by
  have copied : ∀ row ∈ db.scan (pairsOf older), ∃ old ∈ older.records, row = (old.recordKey, old.data) := by
    intro row member
    obtain ⟨old, here, rfl⟩ := List.mem_map.mp ((db.perm _).mem_iff.mp member)
    exact ⟨old, here, rfl⟩
  have keys : (finish (remaining rowHash columns older newer none) (db.scan (pairsOf older))).map Prod.fst =
      newer.records.map (·.recordKey) := by
    rw [finish, remaining]
    dsimp only
    rw [filter_isChanged separates, List.map_append, List.map_map]
    refine Eq.trans (congrArg (· ++ _) ?_) order
    rw [List.filter_map]
    refine congrArg (List.map Prod.fst) (List.filter_congr fun row member => ?_)
    obtain ⟨old, here, rfl⟩ := copied row member
    have held : old.recordKey ∈ older.keys := List.mem_map_of_mem here
    rw [Bool.eq_iff_iff]
    simp only [decide_eq_true_eq, Function.comp, List.any_eq_true, Bool.and_eq_true, Bool.not_eq_true',
      List.mem_map, List.mem_filter, mem_gone, not_exists, not_and, not_not]
    constructor
    · rintro ⟨unchanged, kept⟩
      obtain ⟨record, present, same⟩ := List.mem_map.mp (kept held)
      refine ⟨record, present, same, ?_⟩
      by_contra differ
      exact unchanged record ⟨present, by simpa using differ⟩ same
    · rintro ⟨record, present, same, alike⟩
      refine ⟨?_, fun _ => List.mem_map.mpr ⟨record, present, same⟩⟩
      rintro other ⟨otherPresent, differ⟩ otherSame
      have one := List.inj_on_of_nodup_map newer.distinct otherPresent present (otherSame.trans same.symm)
      rw [one, alike] at differ
      simp at differ
  rw [List.forall₂_map_left_iff, List.forall₂_map_right_iff]
  refine Lib.forall₂_of_keys keys fun row member record present same => ?_
  rcases List.mem_append.mp member with kept | changed
  · obtain ⟨here, outside⟩ := List.mem_filter.mp kept
    obtain ⟨old, oldMember, rfl⟩ := copied row here
    rw [decide_eq_true_eq] at outside
    obtain ⟨record', present', same', agree⟩ := same_of_unchanged separates oldMember outside.1 outside.2
    have one := List.inj_on_of_nodup_map newer.distinct present' present (same'.trans same)
    exact one ▸ agree
  · obtain ⟨record', present', rfl⟩ := List.mem_map.mp changed
    have one := List.inj_on_of_nodup_map newer.distinct (List.mem_filter.mp present').1 present same
    rw [one]
    exact fun _ _ => rfl

variable {server : Server} {limit pages : Nat} {entry : DatasetManifestEntry} {base : String}

/-- The pages of a delta list every record that is new or differs in a column the form reads, and every key
that is gone, once each. Applied to the rows of the older version they leave a table that means the same to
the form, provided the device files rows under the server's keys, the lookups of the form read the columns its
lists read, and the changed records stand last in the file. -/
theorem delta_means_transfer {store : DatasetStore} (engine : Engine)
    (pinned : server.pins entry.formVersionId entry.datasetKey = some entry.datasetVersionId)
    (published : server.versions entry.datasetVersionId = some newer)
    (publishedBase : server.versions base = some older) (same : older.datasetId = newer.datasetId)
    (separates : Separates server.rowHash (columnsReadBy (server.irs entry.formVersionId) entry.datasetKey)
      older newer)
    (positive : 0 < limit) (enough : newer.records.length + older.records.length < pages)
    (empty : store.rows entry.datasetVersionId = ∅)
    (based : store.rowsOf base = older.records.map fun record => keyed record.data) :
    let columns := columnsReadBy (server.irs entry.formVersionId) entry.datasetKey
    let listed := deltaPages server.rowHash columns older newer limit pages none
    (listed.flatMap (·.changed) = (newer.records.filter (differs columns older)).map (·.data) ∧
      listed.flatMap (·.deleted) = gone older newer ∧ (gone older newer).Nodup ∧
        ∀ key, key ∈ gone older newer ↔ key ∈ older.keys ∧ key ∉ newer.keys) ∧
    (Filed older → Filed newer → LookupsWithin engine (server.irs entry.formVersionId) entry.datasetKey →
      InFileOrder db columns older newer →
        MeansSame engine (server.irs entry.formVersionId) entry.datasetKey
          (((fetchDatasetDelta server limit db entry base pages store).rowsOf entry.datasetVersionId).map Prod.snd)
          (newer.records.map (·.data))) := by
  intro columns listed
  have short : (remaining server.rowHash columns older newer none).1.length +
      (remaining server.rowHash columns older newer none).2.length < pages := by
    obtain ⟨records, keys⟩ := remaining_sublist server.rowHash columns older newer none
    have few := records.length_le
    have fewKeys := keys.length_le
    have all : (gone older newer).length ≤ older.records.length := by
      rw [gone, List.length_insertionSort]
      refine (List.length_filter_le _ _).trans_eq ?_
      exact List.length_map _
    omega
  obtain ⟨changes, deletions⟩ := deltaPages_flatMap positive short
  refine ⟨⟨?_, deletions, ?_, fun key => mem_gone older newer⟩, fun filedOlder filedNewer lookups order => ?_⟩
  · rw [← filter_isChanged separates]
    exact changes
  · exact (gone_ordered older newer).imp fun less => ne_of_lt less
  · have answers : ∀ cursor, server.datasetDelta entry.formVersionId entry.datasetKey base cursor limit =
        some (delta server.rowHash columns older newer cursor limit) := by
      intro cursor
      simp [Server.datasetDelta, pinned, published, publishedBase, same, columns]
    have stored : store.rowsOf base = pairsOf older := by
      have pairs := keyed_records filedOlder (List.Sublist.refl older.records)
      rw [List.map_map] at pairs
      rw [based]
      exact pairs
    have seeded : inOrder (store.seededRows db entry.datasetVersionId base true) = db.scan (pairsOf older) := by
      have distinct : ((db.scan (pairsOf older)).map Prod.fst).Nodup := by
        rw [((db.perm (pairsOf older)).map Prod.fst).nodup_iff]
        exact records_distinct (List.Sublist.refl _)
      rw [DatasetStore.seededRows, if_pos rfl, empty, stored, inOrder_insertAll ∅ distinct]
      rfl
    refine meansSame_of_agree lookups ?_
    rw [fetchDatasetDelta, fetchDeltaFrom_inOrder answers filedNewer positive short, seeded]
    exact finished_agrees separates order

end Meaning

section Lookups

/-- The look-up `pulldata("villages", column, "name", ${village})`. -/
def lookup (column : String) : List Expr :=
  [.lit (.text "villages"), .lit (.text column), .lit (.text "name"), .ref "village"]

def lookupForm (column : String) : List Node :=
  villageForm ++ [.mk none [.call "pulldata" (lookup column)] []]

def lookupServer (column : String) : Server := { villageServer with irs := fun _ => lookupForm column }

/-- No operator is used, and no function but `pulldata`. -/
def lookupEngine : Engine where
  operator := fun _ _ => none
  function := fun _ _ => none
  plainDecimal := fun _ => ""

def lookupStore (column : String) : DatasetStore :=
  (fetchDatasetRows (lookupServer column) 2000 "v1" 1
    (({} : DatasetStore).applyManifest [villageEntry 1 "fv1" "v1" "sha256:1"])).applyManifest villageManifest

def patchedVillages (column : String) : List Row :=
  ((fetchDatasetDelta (lookupServer column) 1 ScanOrder.byKey (villageEntry 2 "fv2" "v2" "sha256:2") "v1" 5
    (lookupStore column)).rowsOf "v2").map Prod.snd

theorem lookup_readsWithin : LookupsWithin lookupEngine (lookupForm "name") "villages" := by
  intro expr member args call ctx column keyColumn value came
  have isLookup : args = lookup "name" := by
    rcases List.mem_append.mp member with inForm | inQuery
    · have only : expr = .call "pulldata" (lookup "name") := List.mem_singleton.mp inForm
      rw [only] at call
      exact List.mem_singleton.mp call
    · exact absurd inQuery List.not_mem_nil
  rw [isLookup] at came
  cases village : ctx.resolve "village" with
  | none => simp [lookup, evaluateAll, evaluate, village, show rowPath "village" = none by decide] at came
  | some given =>
    simp only [lookup, evaluateAll, evaluate, village, show rowPath "village" = none by decide,
      Option.bind_some, Option.map_some, Option.some_inj, List.cons.injEq, FormValue.text.injEq] at came
    obtain ⟨-, rfl, rfl, -⟩ := came
    exact ⟨by decide, by decide⟩

set_option maxRecDepth 20000 in
theorem nameLookup_means_transfer :
    MeansSame lookupEngine (lookupForm "name") "villages" (patchedVillages "name")
      (villagesV2.records.map (·.data)) :=
  (@delta_means_transfer _ _ ScanOrder.byKey (lookupServer "name") 1 5
    (villageEntry 2 "fv2" "v2" "sha256:2") "v1" (lookupStore "name") lookupEngine rfl rfl rfl rfl (by unfold Separates; decide) (by decide) (by decide) rfl rfl).2
    (by unfold Filed; decide) (by unfold Filed; decide) lookup_readsWithin (by decide)

set_option maxRecDepth 20000 in
/-- The population of a village that is only looked up is not sent. -/
theorem populationLookup_stale :
    ¬ MeansSame lookupEngine (lookupForm "population") "villages" (patchedVillages "population")
      (villagesV2.records.map (·.data)) := by
  intro means
  have same := (means (fun _ => some (.text "a")) (fun _ => [])).2 (.call "pulldata" (lookup "population"))
    (by simp [lookupForm, villageForm, exprsInAll, exprsIn])
  have stale : patchedVillages "population" = [village "a" "100", village "c" "50"] := by decide
  rw [stale] at same
  have differ : some (FormValue.text "100") = some (FormValue.text "150") := same
  simp at differ

end Lookups

end DataCollectionLab.Core
