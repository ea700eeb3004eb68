import DataCollectionLab.Core.DatasetPatch
import DataCollectionLab.Lib.Runs

/-!
Whole histories of a device's reference data: manifests, transfers that may be cut off after any page
and taken up again by whatever route the next pass chooses, and prunes in between.
-/

namespace DataCollectionLab.Core

open Entities DatasetVersion

/-- How the rows of a held version came about: from pages of its rows alone, or by deltas, with the last
delta's base and the columns of every delta on the way. -/
inductive Origin where
  | whole
  | patched (base : String) (lists : List (List String))

def Origin.lists : Origin → List (List String)
  | .whole => []
  | .patched _ lists => lists

/-- The device between two steps of its passes. `origin` is kept for the account only: no step reads it. -/
structure Passes where
  store : DatasetStore := {}
  formVersions : List String := []
  manifest : List DatasetManifestEntry := []
  origin : String → Origin := fun _ => .whole

/-- The steps of passes. A pass applies a manifest, fetches what is missing from it and prunes. -/
inductive PassStep where
  /-- The form versions the device holds become these. -/
  | forms (formVersions : List String)
  | manifest (entries : List DatasetManifestEntry)
  /-- A transfer of which so many pages arrive. -/
  | fetch (entry : DatasetManifestEntry) (limit pages : Nat)
  | prune

def listed (server : Server) (entry : DatasetManifestEntry) : Bool :=
  server.pins entry.formVersionId entry.datasetKey = some entry.datasetVersionId ∧
    (server.versions entry.datasetVersionId).any fun version =>
      entry.version = version.version ∧ entry.checksum = version.checksum ∧ entry.rowCount = version.records.length

namespace Passes

variable (server : Server) (db : ScanOrder) (w : Passes)

def deltaColumns (entry : DatasetManifestEntry) : List String :=
  columnsReadBy (server.irs entry.formVersionId) entry.datasetKey

def originAfter (entry : DatasetManifestEntry) (limit pages : Nat) : String → Origin :=
  match w.store.deltaBaseFor entry.datasetKey entry.datasetVersionId with
  | none => w.origin
  | some base =>
    if 0 < pages ∧ (server.datasetDelta entry.formVersionId entry.datasetKey base none limit).isSome then
      Function.update w.origin entry.datasetVersionId
        (.patched base (deltaColumns server entry :: (w.origin base).lists))
    else w.origin

def step : PassStep → Option Passes
  | .forms formVersions => some { w with formVersions }
  | .manifest entries =>
    if entries.all (listed server) then
      some { w with
        store := w.store.applyManifest entries
        manifest := entries
        origin := fun id => if entries.any (w.store.renews id) then .whole else w.origin id }
    else none
  | .fetch entry limit pages =>
    if 0 < limit ∧ entry ∈ w.store.missingFrom w.manifest then
      some { w with
        store := fetchDataset server limit db entry pages w.store
        origin := w.originAfter server entry limit pages }
    else none
  | .prune => some { w with store := w.store.prune w.formVersions, manifest := [] }

def SameRoute : PassStep → Prop
  | .fetch entry _ _ =>
    match w.origin entry.datasetVersionId with
    | .whole => True
    | .patched base _ => w.store.deltaBaseFor entry.datasetKey entry.datasetVersionId = some base
  | .forms _ | .manifest _ | .prune => True

instance (a : PassStep) : Decidable (w.SameRoute a) :=
  match a with
  | .fetch entry _ _ =>
    match origin : w.origin entry.datasetVersionId with
    | .whole => isTrue (by simp [SameRoute, origin])
    | .patched base _ =>
      decidable_of_iff (w.store.deltaBaseFor entry.datasetKey entry.datasetVersionId = some base)
        (by simp [SameRoute, origin])
  | .forms _ | .manifest _ | .prune => isTrue trivial

end Passes

/-- Part of a full transfer: rows of the version, and every record that is not left. -/
structure Received (version : DatasetVersion) (left : List DatasetRecord) (rows : AList fun _ : String => Row) :
    Prop where
  keys : ∀ key ∈ rows, key ∈ version.keys
  rows : ∀ record ∈ version.records, record ∉ left → rows.lookup record.recordKey = some record.data

theorem Received.nothing (version : DatasetVersion) : Received version version.records ∅ where
  keys key member := absurd member (AList.notMem_empty key)
  rows _ member beyond := absurd member beyond

theorem Received.holds {version : DatasetVersion} {rows : AList fun _ : String => Row}
    (received : Received version [] rows) : HoldsVersion version rows [] := by
  intro key
  cases found : version.row key with
  | none =>
    have absent : rows.lookup key = none := by
      rw [AList.lookup_eq_none]
      exact fun member => version.row_eq_none_iff.mp found (received.keys key member)
    rw [absent]
    exact Option.Rel.none
  | some row =>
    obtain ⟨record, member, rfl, rfl⟩ := version.row_eq_some_iff.mp found
    rw [received.rows record member List.not_mem_nil]
    exact Option.Rel.some fun _ _ => rfl

theorem Received.page {version : DatasetVersion} (filed : Filed version) {left : List DatasetRecord}
    (sub : left.Sublist version.records) {rows : AList fun _ : String => Row}
    (received : Received version left rows) (limit : Nat) :
    Received version (left.drop limit) (Lib.insertAll rows (((left.take limit).map (·.data)).map keyed)) := by
  have front : (left.take limit).Sublist version.records := (List.take_sublist _ _).trans sub
  rw [keyed_records filed front]
  constructor
  · intro key member
    rcases (Lib.mem_insertAll_iff _ _ _).mp member with old | new
    · exact received.keys key old
    · rw [List.map_map] at new
      exact (front.map _).subset new
  · intro record member beyond
    by_cases here : record ∈ left.take limit
    · exact lookup_insert_record front rows here
    · have earlier : record ∉ left := by
        rw [← List.take_append_drop limit left, List.mem_append]
        exact fun either => either.elim here beyond
      rw [lookup_insert_other rows ?_]
      · exact received.rows record member earlier
      · intro taken
        obtain ⟨other, at_, same⟩ := List.mem_map.mp taken
        have one := List.inj_on_of_nodup_map version.distinct (front.subset at_) member same
        exact here (one ▸ at_)

structure Stored (server : Server) (id : String) (origin : Origin) (held : StoredDatasetVersion)
    (rows : AList fun _ : String => Row) : Prop where
  published : ∃ version, server.versions id = some version ∧ held.checksum = version.checksum
  complete : ∀ version, server.versions id = some version → held.complete = true →
    HoldsVersion version rows origin.lists
  whole : ∀ version, server.versions id = some version → held.complete = false → origin = .whole →
    Received version (version.after (held.nextCursor.bind Cursor.ordinal?)) rows
  patched : ∀ version base lists, server.versions id = some version → held.complete = false →
    origin = .patched base lists → ∃ older, server.versions base = some older ∧
      ∀ key ∈ rows, key ∈ older.keys ∨ key ∈ version.keys

/-- Every version the device holds is stored as its origin says, and the manifest is the server's. -/
structure Passes.Sound (server : Server) (w : Passes) : Prop where
  listed : ∀ entry ∈ w.manifest, Core.listed server entry = true
  stored : ∀ id held, w.store.versions.lookup id = some held →
    Stored server id (w.origin id) held (w.store.rows id)

/-- What is assumed of the published versions: a row's key is its `name` cell, and the hash does not take two
rows for one. -/
structure Published (server : Server) : Prop where
  named : ∀ id version, server.versions id = some version → Named version
  separates : ∀ id id' older newer formVersionId datasetKey, server.versions id = some older →
    server.versions id' = some newer →
      Separates server.rowHash (columnsReadBy (server.irs formVersionId) datasetKey) older newer

section Transfers

variable {server : Server} {limit : Nat} {id : String} {version : DatasetVersion}

theorem fetchRowsFrom_stored (published : server.versions id = some version) (named : Named version)
    (positive : 0 < limit) (pages : Nat) {cursor : Option Cursor} {store : DatasetStore}
    {held : StoredDatasetVersion} (found : store.versions.lookup id = some held)
    (stored : Stored server id .whole held (store.rows id)) (started : held.complete = false)
    (here : held.nextCursor = cursor) {held' : StoredDatasetVersion}
    (after : (fetchRowsFrom server limit id pages cursor store).versions.lookup id = some held') :
    Stored server id .whole held' ((fetchRowsFrom server limit id pages cursor store).rows id) := by
  induction pages generalizing cursor store held with
  | zero =>
    rw [fetchRowsFrom, found] at after
    cases after
    exact stored
  | succ pages ih =>
    have page : server.datasetRowsPage id cursor limit = some (version.rowsPage cursor limit) := by
      rw [Server.datasetRowsPage, published]
      rfl
    have effect := store.appendRows_effect id ((version.rowsPage cursor limit).rows.map keyed)
      ((version.rowsPage cursor limit).nextCursor.map .row)
    have received := stored.whole version published started rfl
    rw [here] at received
    rw [fetchRowsFrom, page] at after ⊢
    dsimp only at after ⊢
    have wrote := effect.rows
    have ended := effect.versions id
    rw [if_pos rfl, found] at ended
    have arrived := received.page named.filed (version.after_sublist _) limit
    rw [← version.rowsPage_rows cursor limit] at arrived
    cases next : (version.rowsPage cursor limit).nextCursor with
    | none =>
      rw [next] at after wrote ended
      dsimp only at after ⊢
      rw [ended] at after
      cases after
      have short := version.rowsPage_last cursor positive next
      rw [List.drop_eq_nil_of_le short] at arrived
      rw [wrote, Function.update_self]
      exact {
        published := stored.published
        complete := fun other same _ => by
          cases published.symm.trans same
          exact arrived.holds
        whole := fun _ _ open_ => by cases open_
        patched := fun _ _ _ _ open_ => by cases open_ }
    | some ordinal =>
      obtain ⟨-, rest⟩ := version.rowsPage_next cursor next
      rw [next] at after wrote ended
      dsimp only at after ⊢
      refine ih ended ?_ rfl rfl after
      rw [wrote, Function.update_self]
      exact {
        published := stored.published
        complete := fun _ _ whole => by cases whole
        whole := fun other same _ _ => by
          cases published.symm.trans same
          show Received version (version.after (some ordinal)) _
          rw [rest]
          exact arrived
        patched := fun _ _ _ _ _ origin => by cases origin }

section Delta

variable {entry : DatasetManifestEntry} {base : String} {older newer : DatasetVersion}
  {lists : List (List String)} {db : ScanOrder}

theorem datasetDelta_eq (pinned : server.pins entry.formVersionId entry.datasetKey = some entry.datasetVersionId)
    (published : server.versions entry.datasetVersionId = some newer)
    (publishedBase : server.versions base = some older) (same : older.datasetId = newer.datasetId)
    (cursor : Option DeltaCursor) (limit : Nat) :
    server.datasetDelta entry.formVersionId entry.datasetKey base cursor limit =
      some (delta server.rowHash (Passes.deltaColumns server entry) older newer cursor limit) := by
  simp [Server.datasetDelta, pinned, published, publishedBase, same, Passes.deltaColumns]

theorem fetchDeltaFrom_stored
    (pinned : server.pins entry.formVersionId entry.datasetKey = some entry.datasetVersionId)
    (published : server.versions entry.datasetVersionId = some newer)
    (publishedBase : server.versions base = some older) (same : older.datasetId = newer.datasetId)
    (named : Named newer) (positive : 0 < limit) (pages : Nat) {cursor : Option DeltaCursor} {first : Bool}
    (begun : first = true → 0 < pages) {store : DatasetStore} {held : StoredDatasetVersion}
    (found : store.versions.lookup entry.datasetVersionId = some held)
    (checked : held.checksum = newer.checksum) (started : first = false → held.complete = false)
    (patched : Patched older newer lists
      (remaining server.rowHash (Passes.deltaColumns server entry) older newer cursor)
      (store.seededRows db entry.datasetVersionId base first))
    {held' : StoredDatasetVersion}
    (after : (fetchDeltaFrom server limit db entry base pages cursor first store).versions.lookup
      entry.datasetVersionId = some held') :
    Stored server entry.datasetVersionId (.patched base lists) held'
      ((fetchDeltaFrom server limit db entry base pages cursor first store).rows entry.datasetVersionId) := by
  induction pages generalizing cursor first store held with
  | zero =>
    cases first with
    | true => exact absurd (begun rfl) (Nat.lt_irrefl 0)
    | false =>
      rw [fetchDeltaFrom, found] at after
      cases after
      exact {
        published := ⟨newer, published, checked⟩
        complete := fun _ _ whole => by
          rw [started rfl] at whole
          cases whole
        whole := fun _ _ _ origin => by cases origin
        patched := fun version _ _ here _ origin => by
          cases origin
          cases published.symm.trans here
          exact ⟨older, publishedBase, patched.within⟩ }
  | succ pages ih =>
    have page := datasetDelta_eq pinned published publishedBase same cursor limit
    obtain ⟨records, laterRecords, laterKeys, pageOf⟩ := @delta_pageOf server.rowHash
      (Passes.deltaColumns server entry) older newer cursor limit positive
    have next := patched.page named.filed pageOf
    generalize delta server.rowHash (Passes.deltaColumns server entry) older newer cursor limit = answer
      at page pageOf next
    have effect := store.applyDelta_effect db entry.datasetVersionId base (answer.changed.map keyed)
      answer.deleted (answer.nextCursor.map .delta) first
    have wrote := effect.rows
    have ended := effect.versions entry.datasetVersionId
    rw [if_pos rfl, found] at ended
    rw [fetchDeltaFrom, page] at after ⊢
    dsimp only at after ⊢
    cases more : answer.nextCursor with
    | none =>
      rw [more] at after wrote ended
      dsimp only at after ⊢
      rw [ended] at after
      cases after
      obtain ⟨rfl, rfl⟩ := pageOf.last more
      rw [wrote, Function.update_self]
      exact {
        published := ⟨newer, published, checked⟩
        complete := fun version here _ => by
          cases published.symm.trans here
          exact next.holds
        whole := fun _ _ open_ => by cases open_
        patched := fun _ _ _ _ open_ => by cases open_ }
    | some cursor' =>
      obtain ⟨left, -⟩ := pageOf.next cursor' more
      rw [more] at after wrote ended
      dsimp only at after ⊢
      refine ih ?_ ended checked (fun _ => rfl) ?_ after
      · exact fun again => by cases again
      · rw [left]
        show Patched older newer lists _ ((store.applyDelta ..).rows entry.datasetVersionId)
        rw [wrote, Function.update_self]
        exact next

end Delta

theorem listed_iff {entry : DatasetManifestEntry} :
    listed server entry = true ↔
      server.pins entry.formVersionId entry.datasetKey = some entry.datasetVersionId ∧
        ∃ version, server.versions entry.datasetVersionId = some version ∧ entry.version = version.version ∧
          entry.checksum = version.checksum ∧ entry.rowCount = version.records.length := by
  simp [listed, Option.any_eq_true]

end Transfers

namespace Passes

variable {server : Server} {db : ScanOrder} {w w' : Passes}

theorem sound_manifest (sound : w.Sound server) {entries : List DatasetManifestEntry}
    (described : ∀ entry ∈ entries, listed server entry = true) :
    Sound server { w with
      store := w.store.applyManifest entries
      manifest := entries
      origin := fun id => if entries.any (w.store.renews id) then .whole else w.origin id } := by
  refine ⟨described, fun id held found => ?_⟩
  have left := DatasetStore.applyManifest_version entries w.store id
  dsimp only at left found ⊢
  split at left
  · rename_i renewed
    obtain ⟨⟨entry, member, rfl, fresh⟩, noRows, -⟩ := left
    obtain ⟨-, version, published, -, checked, -⟩ := listed_iff.mp (described entry member)
    rw [fresh] at found
    cases found
    rw [if_pos renewed, noRows]
    exact {
      published := ⟨version, published, checked⟩
      complete := fun _ _ whole => by cases whole
      whole := fun version _ _ _ => Received.nothing version
      patched := fun _ _ _ _ _ origin => by cases origin }
  · rename_i kept
    obtain ⟨same, sameRows, -⟩ := left
    rw [if_neg kept, sameRows]
    exact sound.stored id held (same.symm.trans found)

theorem open_of_missing (sound : w.Sound server) {entry : DatasetManifestEntry}
    (missing : entry ∈ w.store.missingFrom w.manifest) :
    listed server entry = true ∧
      ∀ held, w.store.versions.lookup entry.datasetVersionId = some held → held.complete = false := by
  obtain ⟨first, absent⟩ := List.mem_filter.mp missing
  have described := sound.listed entry (Lib.firstBy_subset first)
  refine ⟨described, fun held found => ?_⟩
  obtain ⟨-, version, published, -, checked, -⟩ := listed_iff.mp described
  obtain ⟨version', published', checked'⟩ := (sound.stored _ held found).published
  cases published.symm.trans published'
  rw [found] at absent
  simpa [checked, checked'] using absent

theorem stored_delta (sound : w.Sound server) (published : Published server) {entry : DatasetManifestEntry}
    {limit pages : Nat} (positive : 0 < limit) (missing : entry ∈ w.store.missingFrom w.manifest)
    (route : w.SameRoute (.fetch entry limit pages)) {base : String}
    (chosen : w.store.deltaBaseFor entry.datasetKey entry.datasetVersionId = some base) (begun : 0 < pages)
    (answered : (server.datasetDelta entry.formVersionId entry.datasetKey base none limit).isSome)
    {held' : StoredDatasetVersion}
    (after : (fetchDatasetDelta server limit db entry base pages w.store).versions.lookup
      entry.datasetVersionId = some held') :
    Stored server entry.datasetVersionId (.patched base (deltaColumns server entry :: (w.origin base).lists)) held'
      ((fetchDatasetDelta server limit db entry base pages w.store).rows entry.datasetVersionId) := by
  obtain ⟨described, unfinished⟩ := open_of_missing sound missing
  obtain ⟨pinned, newer, publishedNewer, -⟩ := listed_iff.mp described
  obtain ⟨heldBase, foundBase, -, whole, apart⟩ := DatasetStore.deltaBaseFor_some chosen
  have storedBase := sound.stored base heldBase foundBase
  obtain ⟨older, publishedOlder, -⟩ := storedBase.published
  have holds := storedBase.complete older publishedOlder whole
  have same : older.datasetId = newer.datasetId := by
    by_contra differ
    simp [Server.datasetDelta, pinned, publishedNewer, publishedOlder, differ] at answered
  obtain ⟨held, -, found, -⟩ := (fetchDeltaFrom_within ..).held held' after
  have stored := sound.stored _ held found
  obtain ⟨version, publishedVersion, checked⟩ := stored.published
  cases publishedNewer.symm.trans publishedVersion
  have within : ∀ key ∈ w.store.rows entry.datasetVersionId, key ∈ older.keys ∨ key ∈ newer.keys := by
    unfold SameRoute at route
    dsimp only at route
    cases origin : w.origin entry.datasetVersionId with
    | whole =>
      have received := stored.whole newer publishedNewer (unfinished held found) origin
      exact fun key member => Or.inr (received.keys key member)
    | patched base' lists =>
      rw [origin] at route
      cases chosen.symm.trans route
      obtain ⟨older', publishedOlder', within⟩ := stored.patched newer base lists publishedNewer
        (unfinished held found) origin
      cases publishedOlder.symm.trans publishedOlder'
      exact within
  have copied := db.perm (w.store.rowsOf base)
  refine fetchDeltaFrom_stored pinned publishedNewer publishedOlder same
    (published.named _ _ publishedNewer) positive pages (fun _ => begun) found checked ?_ ?_ after
  · exact fun later => nomatch later
  refine Patched.seed (published.separates _ _ _ _ _ _ publishedOlder publishedNewer) within holds ?_ ?_
  · exact (copied.map Prod.fst).nodup_iff.mpr (DatasetStore.rowsOf_distinct w.store base)
  · intro key row
    rw [copied.mem_iff, DatasetStore.mem_rowsOf]

theorem sound_fetch (sound : w.Sound server) (published : Published server) {entry : DatasetManifestEntry}
    {limit pages : Nat} (positive : 0 < limit) (missing : entry ∈ w.store.missingFrom w.manifest)
    (route : w.SameRoute (.fetch entry limit pages)) :
    Sound server { w with
      store := fetchDataset server limit db entry pages w.store
      origin := w.originAfter server entry limit pages } := by
  refine ⟨sound.listed, fun id held' found => ?_⟩
  dsimp only at found ⊢
  by_cases here : id = entry.datasetVersionId
  · subst here
    obtain ⟨described, unfinished⟩ := open_of_missing sound missing
    obtain ⟨-, version, publishedVersion, -⟩ := listed_iff.mp described
    unfold fetchDataset at found ⊢
    unfold originAfter
    cases chosen : w.store.deltaBaseFor entry.datasetKey entry.datasetVersionId with
    | none =>
      rw [chosen] at found
      dsimp only at found ⊢
      have origin : w.origin entry.datasetVersionId = .whole := by
        unfold SameRoute at route
        dsimp only at route
        cases origin : w.origin entry.datasetVersionId with
        | whole => rfl
        | patched base lists =>
          rw [origin, chosen] at route
          cases route
      obtain ⟨held, -, was, -⟩ := (fetchRowsFrom_within ..).held held' found
      have stored := sound.stored _ held was
      rw [origin] at stored ⊢
      refine fetchRowsFrom_stored publishedVersion (published.named _ _ publishedVersion) positive pages was
        stored (unfinished held was) ?_ found
      rw [was]
      rfl
    | some base =>
      rw [chosen] at found
      dsimp only at found ⊢
      split
      · rename_i begun
        rw [Function.update_self]
        exact stored_delta sound published positive missing route chosen begun.1 begun.2 found
      · rename_i idle
        have nothing : fetchDatasetDelta server limit db entry base pages w.store = w.store := by
          cases pages with
          | zero => rfl
          | succ pages =>
            have refused : server.datasetDelta entry.formVersionId entry.datasetKey base none limit = none := by
              simpa using idle
            rw [fetchDatasetDelta, fetchDeltaFrom, refused]
        rw [nothing] at found ⊢
        exact sound.stored _ held' found
  · have within := fetchDataset_within server limit db entry pages w.store
    rw [within.versions id here] at found
    rw [within.rows id here]
    have origin : w.originAfter server entry limit pages id = w.origin id := by
      unfold originAfter
      cases w.store.deltaBaseFor entry.datasetKey entry.datasetVersionId with
      | none => rfl
      | some base =>
        dsimp only
        split
        · exact Function.update_of_ne here ..
        · rfl
    rw [origin]
    exact sound.stored id held' found

theorem sound_step (published : Published server) {a : PassStep} (sound : w.Sound server)
    (route : w.SameRoute a) (stepped : w.step server db a = some w') : w'.Sound server := by
  cases a with
  | forms formVersions =>
    cases stepped
    exact ⟨sound.listed, sound.stored⟩
  | manifest entries =>
    rw [step] at stepped
    split at stepped
    · rename_i described
      cases stepped
      exact sound_manifest sound (List.all_eq_true.mp described)
    · cases stepped
  | fetch entry limit pages =>
    rw [step] at stepped
    split at stepped
    · rename_i allowed
      cases stepped
      exact sound_fetch sound published allowed.1 allowed.2 route
    · cases stepped
  | prune =>
    cases stepped
    refine ⟨fun _ none => absurd none List.not_mem_nil, fun id held found => ?_⟩
    obtain ⟨was, sameRows, -⟩ := DatasetStore.prune_version found
    dsimp only
    rw [sameRows]
    exact sound.stored id held was

/-- In every history in which a cut-off delta is taken up only by a delta from the same base, a version marked
complete has the server's keys, and its rows agree with the server's in every column of every delta on the
way to it. -/
theorem complete_holds (published : Published server) {steps : List PassStep} {w : Passes}
    (ran : Lib.run (step server db) {} steps = some w) (route : Lib.Along (step server db) SameRoute {} steps)
    {id : String} {held : StoredDatasetVersion} (found : w.store.versions.lookup id = some held)
    (whole : held.complete = true) :
    ∃ version, server.versions id = some version ∧ HoldsVersion version (w.store.rows id) (w.origin id).lists := by
  have start : Sound server {} := ⟨fun _ none => absurd none List.not_mem_nil, fun _ _ none => nomatch none⟩
  have sound := Lib.run_invariant (fun _ _ _ sound route stepped => sound_step published sound route stepped)
    start route ran
  have stored := sound.stored id held found
  obtain ⟨version, here, -⟩ := stored.published
  exact ⟨version, here, stored.complete version here whole⟩

end Passes

section Villages

def village (name population : String) : Row := ⟨[("name", name), ("population", population)], by simp⟩

def villagesV1 : DatasetVersion where
  datasetId := "villages"
  version := 1
  checksum := "sha256:1"
  records := [⟨"a", village "a" "100", 0⟩, ⟨"b", village "b" "200", 1⟩]
  ordered := by decide
  distinct := by decide
  keyed := by decide

def villagesV2 : DatasetVersion where
  datasetId := "villages"
  version := 2
  checksum := "sha256:2"
  records := [⟨"a", village "a" "150", 0⟩, ⟨"c", village "c" "50", 1⟩]
  ordered := by decide
  distinct := by decide
  keyed := by decide

def villageForm : List Node :=
  [.mk (some { kind := "dataset", dataset := "villages", valueColumn := "name", labelColumn := [("en", "name")] })
    [] []]

def villageHash : List (String × Option String) → String
  | [("name", some "a")] => "sha256:d9d719b27480b55cd4918020e7473e716ed3569c8adafe926cf9b10b4f8ef064"
  | [("name", some "b")] => "sha256:4990ff99be213c83fdc8397bfca008af54807ffa699ce10bb132bada6347fbf3"
  | [("name", some "c")] => "sha256:34d4ef5d76af5eb4569a4f78ee79709083aec757c4a5545bea82a8ca8d58b673"
  | _ => "sha256:"

def villageServer : Server where
  rowHash := villageHash
  versions := fun id => if id = "v1" then some villagesV1 else if id = "v2" then some villagesV2 else none
  pins := fun formVersionId datasetKey =>
    if (formVersionId, datasetKey) = ("fv1", "villages") then some "v1"
    else if (formVersionId, datasetKey) = ("fv2", "villages") then some "v2" else none
  irs := fun formVersionId => if formVersionId = "fv1" ∨ formVersionId = "fv2" then villageForm else []

def villageEntry (number : Nat) (formVersionId datasetVersionId checksum : String) : DatasetManifestEntry where
  formVersionId
  datasetKey := "villages"
  datasetVersionId
  version := number
  rowCount := 2
  checksum
  filterColumns := ["name"]

def villageManifest : List DatasetManifestEntry :=
  [villageEntry 1 "fv1" "v1" "sha256:1", villageEntry 2 "fv2" "v2" "sha256:2"]

def villagePasses : List PassStep :=
  [.forms ["fv1", "fv2"], .manifest [villageEntry 1 "fv1" "v1" "sha256:1"],
    .fetch (villageEntry 1 "fv1" "v1" "sha256:1") 2000 1, .prune, .manifest villageManifest,
    .fetch (villageEntry 2 "fv2" "v2" "sha256:2") 1 1, .prune, .manifest villageManifest,
    .fetch (villageEntry 2 "fv2" "v2" "sha256:2") 1 2]

theorem villageServer_published : Published villageServer := by
  have known : ∀ id version, villageServer.versions id = some version →
      version = villagesV1 ∨ version = villagesV2 := by
    intro id version found
    dsimp only [villageServer] at found
    split at found
    · cases found
      exact Or.inl rfl
    · split at found
      · cases found
        exact Or.inr rfl
      · cases found
  have read : ∀ formVersionId datasetKey,
      columnsReadBy (villageServer.irs formVersionId) datasetKey = ["name"] ∨
        columnsReadBy (villageServer.irs formVersionId) datasetKey = [] := by
    intro formVersionId datasetKey
    dsimp only [villageServer]
    split
    · by_cases villages : datasetKey = "villages"
      · rw [villages]
        exact Or.inl (by decide)
      · refine Or.inr ?_
        simp [columnsReadBy, villageForm, choicesInAll, choicesIn, Ne.symm villages]
    · exact Or.inr rfl
  constructor
  · intro id version found
    unfold Named
    rcases known id version found with rfl | rfl
    · decide
    · decide
  · intro id id' older newer formVersionId datasetKey found found'
    unfold Separates
    rcases read formVersionId datasetKey with one | none
    · rw [one]
      rcases known id older found with rfl | rfl <;> rcases known id' newer found' with rfl | rfl <;> decide
    · rw [none]
      simp

set_option maxRecDepth 20000 in
theorem villagePasses_hold :
    ∃ w held version, Lib.run (Passes.step villageServer ScanOrder.byKey) {} villagePasses = some w ∧
      w.store.versions.lookup "v2" = some held ∧ held.complete = true ∧
        villageServer.versions "v2" = some version ∧ HoldsVersion version (w.store.rows "v2") (w.origin "v2").lists := by
  have ends : ((Lib.run (Passes.step villageServer ScanOrder.byKey) {} villagePasses).bind fun w =>
      w.store.versions.lookup "v2").map (·.complete) = some true := by decide
  obtain ⟨held, found, whole⟩ := Option.map_eq_some_iff.mp ends
  obtain ⟨w, ran, held'⟩ := Option.bind_eq_some_iff.mp found
  obtain ⟨version, here, holds⟩ := Passes.complete_holds villageServer_published ran (by decide) held' whole
  exact ⟨w, held, version, ran, held', whole, here, holds⟩

set_option maxRecDepth 20000 in
/-- The corrected population does not reach the device. -/
theorem villagePasses_stale :
    Published villageServer ∧ ∃ w held, Lib.run (Passes.step villageServer ScanOrder.byKey) {} villagePasses = some w ∧
      w.store.versions.lookup "v2" = some held ∧ held.complete = true ∧
        ((w.store.rows "v2").lookup "a").bind (·.get "population") ≠
          (villagesV2.row "a").bind (·.get "population") := by
  have ends : ((Lib.run (Passes.step villageServer ScanOrder.byKey) {} villagePasses).bind fun w =>
      (w.store.versions.lookup "v2").map fun held =>
        (held.complete, ((w.store.rows "v2").lookup "a").bind (·.get "population"))) =
          some (true, some "100") := by decide
  obtain ⟨w, ran, found⟩ := Option.bind_eq_some_iff.mp ends
  obtain ⟨held, held', both⟩ := Option.map_eq_some_iff.mp found
  obtain ⟨whole, stale⟩ := Prod.mk.inj both
  refine ⟨villageServer_published, w, held, ran, held', whole, ?_⟩
  rw [stale]
  decide

end Villages

end DataCollectionLab.Core
