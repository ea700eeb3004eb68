import DataCollectionLab.Core.DatasetStore
import DataCollectionLab.Core.SubmissionStore
import DataCollectionLab.Lib.Runs

/-!
The form versions a device holds, and what a prune leaves of them and of the reference data they pin. A
version goes only when the server has stopped deploying it and no submission was collected under it; a
list goes only when no form version that is held pins it.
-/

namespace DataCollectionLab.Core

open Entities

/-- One row of `form_version`. No document means that it is deployed and not downloaded. -/
structure StoredFormVersion where
  formId : String
  version : Nat
  title : String
  irJson : Option String
  irChecksum : String
  deployed : Bool := true

structure FormManifestEntry where
  formVersionId : String
  formId : String
  version : Nat
  title : String
  irChecksum : String

/-- `(form_id, version)`, unique in the table. -/
def StoredFormVersion.isVersion (formId : String) (version : Nat) (row : StoredFormVersion) : Bool :=
  row.formId = formId && row.version = version

def FormManifestEntry.row (entry : FormManifestEntry) (document : Option String) : StoredFormVersion where
  formId := entry.formId
  version := entry.version
  title := entry.title
  irJson := document
  irChecksum := entry.irChecksum

/-- `form_version`, by its id. -/
abbrev FormStore := Dict StoredFormVersion

namespace FormStore

variable (forms : FormStore)

def find (formId : String) (version : Nat) : Option StoredFormVersion :=
  (forms.entries.find? fun entry => entry.2.isVersion formId version).map (·.2)

/-- `missingFrom`: what of the manifest is not held, by the checksum of its document. -/
def missingFrom (manifest : List FormManifestEntry) : List FormManifestEntry :=
  manifest.filter fun entry =>
    ((forms.lookup entry.formVersionId).filter (·.irJson.isSome)).map (·.irChecksum) ≠ some entry.irChecksum

def upsertFormVersion (entry : FormManifestEntry) (document : String) : FormStore :=
  (Lib.dropKeys (fun id => (forms.lookup id).any (·.isVersion entry.formId entry.version)) forms).insert
    entry.formVersionId (entry.row (some document))

def insertDeployedPlaceholder (entry : FormManifestEntry) : FormStore :=
  if (forms.lookup entry.formVersionId).isSome || (forms.find entry.formId entry.version).isSome then forms
  else forms.insert entry.formVersionId (entry.row none)

def markDeployed (id : String) : FormStore :=
  match forms.lookup id with
  | some row => forms.insert id { row with deployed := true }
  | none => forms

def markAllUndeployed : FormStore := Lib.mapValues (fun _ row => { row with deployed := false }) forms

def applyEntry (documents : Dict String) (entry : FormManifestEntry) : FormStore :=
  match documents.lookup entry.formVersionId with
  | none => (insertDeployedPlaceholder forms entry).markDeployed entry.formVersionId
  | some document => forms.upsertFormVersion entry document

/-- `applyManifest`: everything is undeployed but what the manifest lists. -/
def applyManifest (manifest : List FormManifestEntry) (documents : Dict String) : FormStore :=
  manifest.foldl (fun forms entry => forms.applyEntry documents entry) forms.markAllUndeployed

def named (submissions : Dict LocalSubmission) (formId : String) (version : Nat) : Bool :=
  submissions.entries.any fun entry => entry.2.formId = formId && entry.2.formVersion = version

/-- `deletableFormVersions`. -/
def deletable (submissions : Dict LocalSubmission) (row : StoredFormVersion) : Bool :=
  !row.deployed && !named submissions row.formId row.version

def prune (submissions : Dict LocalSubmission) : FormStore :=
  Lib.dropKeys (fun id => (forms.lookup id).any (deletable submissions)) forms

end FormStore

/-- A device: what it collected, the forms it holds and their reference data. `manifest` is the last one
applied, for the account only. -/
structure Device where
  store : SubmissionStore
  forms : FormStore := (∅ : Dict StoredFormVersion)
  datasets : DatasetStore := {}
  manifest : List FormManifestEntry := []

inductive DeviceStep where
  /-- A manifest, with the documents that could be fetched. -/
  | forms (entries : List FormManifestEntry) (documents : Dict String)
  | pruneForms
  | datasets (entries : List DatasetManifestEntry)
  | appendRows (id : String) (rows : List (String × Row)) (nextCursor : Option Cursor)
  | applyDelta (id source : String) (changed : List (String × Row)) (deleted : List String)
    (nextCursor : Option Cursor) (seed : Bool)
  | pruneDatasets
  | createDraft (id formId : String) (formVersion : Nat) (caseId : Option String) (now : Timestamp)
  | pull (ops : List SyncOp) (nextCursor : Nat)

namespace Device

variable (db : ScanOrder) (w : Device)

def pruneForms : Device := { w with forms := w.forms.prune w.store.submissions }

def pruneDatasets : Device := { w with datasets := w.datasets.prune w.forms.keys }

def step : DeviceStep → Option Device
  | .forms entries documents =>
    some { w with forms := w.forms.applyManifest entries documents, manifest := entries }
  | .pruneForms => some w.pruneForms
  | .datasets entries => some { w with datasets := w.datasets.applyManifest entries }
  | .appendRows id rows nextCursor => some { w with datasets := w.datasets.appendRows id rows nextCursor }
  | .applyDelta id source changed deleted nextCursor seed =>
    some { w with datasets := w.datasets.applyDelta db id source changed deleted nextCursor seed }
  | .pruneDatasets => some w.pruneDatasets
  | .createDraft id formId formVersion caseId now =>
    (w.store.createDraft id formId formVersion caseId now).map fun store => { w with store }
  | .pull ops nextCursor => some { w with store := w.store.applyPullBatch ops nextCursor }

def Mapped (idOf : String → Nat → String) : Device → DeviceStep → Prop
  | _, .forms entries _ => ∀ entry ∈ entries, entry.formVersionId = idOf entry.formId entry.version
  | _, _ => True

def names (formId : String) (version : Nat) : Prop := FormStore.named w.store.submissions formId version = true

def KeepsPinned (formVersionId : String) : Prop :=
  ∀ datasetKey id held, w.datasets.pins.lookup (formVersionId, datasetKey) = some id →
    w.datasets.versions.lookup id = some held → held.complete = true →
      w.pruneDatasets.datasets.pins.lookup (formVersionId, datasetKey) = some id ∧
        w.pruneDatasets.datasets.versions.lookup id = some held ∧
          w.pruneDatasets.datasets.rowsOf id = w.datasets.rowsOf id

end Device

section Keyed

variable {idOf : String → Nat → String} {forms : FormStore} {entry : FormManifestEntry} {documents : Dict String}

def Keyed (idOf : String → Nat → String) (forms : FormStore) : Prop :=
  ∀ id row, forms.lookup id = some row → id = idOf row.formId row.version

theorem isVersion_iff {row : StoredFormVersion} {formId : String} {version : Nat} :
    row.isVersion formId version = true ↔ row.formId = formId ∧ row.version = version := by
  simp [StoredFormVersion.isVersion]

theorem find_isSome {formId : String} {version : Nat} (found : (forms.find formId version).isSome = true) :
    ∃ id row, forms.lookup id = some row ∧ row.formId = formId ∧ row.version = version := by
  unfold FormStore.find at found
  rw [Option.isSome_map, Option.isSome_iff_exists] at found
  obtain ⟨⟨id, row⟩, found⟩ := found
  have member := List.mem_of_find?_eq_some found
  have matched := List.find?_some found
  exact ⟨id, row, AList.mem_lookup_iff.mpr member, isVersion_iff.mp matched⟩

theorem markDeployed_lookup (id other : String) :
    (forms.markDeployed id).lookup other =
      if other = id then (forms.lookup id).map fun row => { row with deployed := true } else forms.lookup other := by
  unfold FormStore.markDeployed
  cases found : forms.lookup id with
  | some row => exact Lib.lookup_insert_eq_ite _ _ _ _
  | none =>
    dsimp only
    split
    · rename_i same
      rw [same, found]
      rfl
    · rfl

theorem applyEntry_lookup (keyed : Keyed idOf forms)
    (mapped : entry.formVersionId = idOf entry.formId entry.version) :
    (∃ row, (forms.applyEntry documents entry).lookup entry.formVersionId = some row ∧ row.deployed = true ∧
      entry.formVersionId = idOf row.formId row.version) ∧
    ∀ id, id ≠ entry.formVersionId → (forms.applyEntry documents entry).lookup id = forms.lookup id := by
  unfold FormStore.applyEntry
  cases documents.lookup entry.formVersionId with
  | some document =>
    dsimp only
    refine ⟨⟨entry.row (some document), AList.lookup_insert _, rfl, mapped⟩, fun id apart => ?_⟩
    rw [FormStore.upsertFormVersion, AList.lookup_insert_ne apart, Lib.lookup_dropKeys]
    split
    · rename_i dropped
      cases found : forms.lookup id with
      | none => rfl
      | some row =>
        rw [found] at dropped
        obtain ⟨sameForm, sameVersion⟩ := isVersion_iff.mp dropped
        have same := keyed id row found
        rw [sameForm, sameVersion, ← mapped] at same
        exact absurd same apart
    · rfl
  | none =>
    dsimp only
    -- Ignored or not, the entry's id has a row afterwards, and no other id has a new one.
    have placed : (∃ row, (forms.insertDeployedPlaceholder entry).lookup entry.formVersionId = some row ∧
        entry.formVersionId = idOf row.formId row.version) ∧
        ∀ id, id ≠ entry.formVersionId →
          (forms.insertDeployedPlaceholder entry).lookup id = forms.lookup id := by
      unfold FormStore.insertDeployedPlaceholder
      split
      · rename_i taken
        refine ⟨?_, fun _ _ => rfl⟩
        rw [Bool.or_eq_true] at taken
        rcases taken with same | same
        · obtain ⟨row, found⟩ := Option.isSome_iff_exists.mp same
          exact ⟨row, found, keyed _ row found⟩
        · obtain ⟨id, row, found, sameForm, sameVersion⟩ := find_isSome same
          have here := keyed id row found
          rw [sameForm, sameVersion, ← mapped] at here
          subst here
          exact ⟨row, found, keyed _ row found⟩
      · exact ⟨⟨entry.row none, AList.lookup_insert _, mapped⟩, fun id apart => AList.lookup_insert_ne apart⟩
    obtain ⟨⟨row, found, own⟩, others⟩ := placed
    refine ⟨⟨{ row with deployed := true }, ?_, rfl, own⟩, fun id apart => ?_⟩
    · rw [markDeployed_lookup, if_pos rfl, found]
      rfl
    · rw [markDeployed_lookup, if_neg apart, others id apart]

theorem keyed_applyEntry (keyed : Keyed idOf forms)
    (mapped : entry.formVersionId = idOf entry.formId entry.version) :
    Keyed idOf (forms.applyEntry documents entry) := by
  obtain ⟨⟨row, found, -, own⟩, others⟩ := @applyEntry_lookup _ _ _ documents keyed mapped
  intro id row' found'
  by_cases same : id = entry.formVersionId
  · subst same
    cases found.symm.trans found'
    exact own
  · rw [others id same] at found'
    exact keyed id row' found'

def Listed (forms : FormStore) (manifest : List FormManifestEntry) : Prop :=
  ∀ entry ∈ manifest, ∃ row, forms.lookup entry.formVersionId = some row ∧ row.deployed = true

theorem applyEntries_listed {manifest done : List FormManifestEntry} (keyed : Keyed idOf forms)
    (listed : Listed forms done)
    (mapped : ∀ entry ∈ manifest, entry.formVersionId = idOf entry.formId entry.version) :
    let after := manifest.foldl (fun forms entry => forms.applyEntry documents entry) forms
    Keyed idOf after ∧ Listed after (done ++ manifest) := by
  induction manifest generalizing forms done with
  | nil =>
    rw [List.append_nil]
    exact ⟨keyed, listed⟩
  | cons entry rest ih =>
    have own := mapped entry List.mem_cons_self
    obtain ⟨⟨row, found, deployed, -⟩, others⟩ := @applyEntry_lookup _ _ _ documents keyed own
    have listed' : Listed (forms.applyEntry documents entry) (done ++ [entry]) := by
      intro other member
      by_cases same : other.formVersionId = entry.formVersionId
      · rw [same]
        exact ⟨row, found, deployed⟩
      · rw [others _ same]
        rcases List.mem_append.mp member with before | last
        · exact listed other before
        · exact absurd (congrArg _ (List.mem_singleton.mp last)) same
    have later := ih (keyed_applyEntry keyed own) listed' fun other member =>
      mapped other (List.mem_cons_of_mem _ member)
    rw [List.append_assoc] at later
    exact later

theorem keyed_markAllUndeployed (keyed : Keyed idOf forms) : Keyed idOf forms.markAllUndeployed := by
  intro id row found
  rw [FormStore.markAllUndeployed, Lib.lookup_mapValues] at found
  obtain ⟨before, was, rfl⟩ := Option.map_eq_some_iff.mp found
  exact keyed id before was

theorem prune_lookup {submissions : Dict LocalSubmission} {id : String} {row : StoredFormVersion}
    (found : forms.lookup id = some row) (needed : FormStore.deletable submissions row = false) :
    (forms.prune submissions).lookup id = some row := by
  rw [FormStore.prune, Lib.lookup_dropKeys, found, Option.any_some, needed, if_neg Bool.false_ne_true]

theorem lookup_of_prune {submissions : Dict LocalSubmission} {id : String} {row : StoredFormVersion}
    (found : (forms.prune submissions).lookup id = some row) : forms.lookup id = some row := by
  rw [FormStore.prune, Lib.lookup_dropKeys] at found
  split at found
  · cases found
  · exact found

theorem prune_find {submissions : Dict LocalSubmission} {formId : String} {version : Nat}
    (named : FormStore.named submissions formId version = true) :
    (forms.prune submissions).find formId version = forms.find formId version := by
  unfold FormStore.find FormStore.prune
  refine congrArg (Option.map _) ?_
  show (forms.entries.filter _).find? _ = forms.entries.find? _
  rw [← List.head?_filter, ← List.head?_filter, List.filter_filter]
  refine congrArg List.head? (List.filter_congr fun entry member => ?_)
  obtain ⟨id, row⟩ := entry
  have found : forms.lookup id = some row := AList.mem_lookup_iff.mpr member
  dsimp only
  rw [found, Option.any_some]
  cases matched : row.isVersion formId version with
  | false => simp
  | true =>
    obtain ⟨sameForm, sameVersion⟩ := isVersion_iff.mp matched
    simp [FormStore.deletable, sameForm, sameVersion, named]

end Keyed

namespace Device

variable {idOf : String → Nat → String} {db : ScanOrder} {w w' : Device}

structure Held (idOf : String → Nat → String) (w : Device) : Prop where
  keyed : Keyed idOf w.forms
  listed : Listed w.forms w.manifest

theorem held_step {a : DeviceStep} (held : Held idOf w) (mapped : Mapped idOf w a)
    (stepped : w.step db a = some w') : Held idOf w' := by
  cases a with
  | forms entries documents =>
    cases stepped
    have after := @applyEntries_listed idOf w.forms.markAllUndeployed documents entries []
      (keyed_markAllUndeployed held.keyed) (fun _ none => absurd none List.not_mem_nil) mapped
    exact ⟨after.1, after.2⟩
  | pruneForms =>
    cases stepped
    refine ⟨fun id row found => held.keyed id row (lookup_of_prune found), fun entry member => ?_⟩
    obtain ⟨row, found, deployed⟩ := held.listed entry member
    exact ⟨row, prune_lookup found (by simp [FormStore.deletable, deployed]), deployed⟩
  | createDraft id formId formVersion caseId now =>
    obtain ⟨store, -, rfl⟩ := Option.map_eq_some_iff.mp stepped
    exact ⟨held.keyed, held.listed⟩
  | datasets _ | appendRows _ _ _ | applyDelta _ _ _ _ _ _ | pruneDatasets | pull _ _ =>
    cases stepped
    exact ⟨held.keyed, held.listed⟩

theorem keepsPinned_of_held {id : String} {row : StoredFormVersion} (found : w.forms.lookup id = some row) :
    w.KeepsPinned id := by
  intro datasetKey pinned held pin version _
  have present : id ∈ w.forms.keys := by
    rw [← AList.mem_keys, ← AList.lookup_isSome, found]
    rfl
  have kept : (Lib.dropKeys (fun pin : String × String => pin.1 ∉ w.forms.keys) w.datasets.pins).lookup
      (id, datasetKey) = some pinned := by
    rw [Lib.lookup_dropKeys, if_neg (by simpa using present), pin]
  have needed : DatasetStore.deletable
      { w.datasets with pins := Lib.dropKeys (fun pin => pin.1 ∉ w.forms.keys) w.datasets.pins }
      w.forms.keys pinned = false := by
    rw [DatasetStore.deletable, Bool.not_eq_false', List.any_eq_true]
    exact ⟨⟨(id, datasetKey), pinned⟩, AList.mem_lookup_iff.mp kept, by simpa using present⟩
  refine ⟨kept, ?_, congrArg inOrder (if_neg ?_)⟩
  · show (Lib.dropKeys _ w.datasets.versions).lookup pinned = some held
    rw [Lib.lookup_dropKeys, needed, Bool.and_false, if_neg Bool.false_ne_true, version]
  · intro removed
    exact Bool.false_ne_true (needed.symm.trans (Bool.and_eq_true_iff.mp removed).2)

/-- In every state a device comes to: a prune keeps the document of a form version that a submission names,
the complete lists which that version pins while it is held, and what every version of the current manifest
has. -/
theorem prune_retains {start : SubmissionStore} {steps : List DeviceStep}
    (ran : Lib.run (step db) { store := start } steps = some w)
    (mapped : Lib.Along (step db) (Mapped idOf) { store := start } steps) :
    (∀ formId version, w.names formId version →
      w.pruneForms.forms.find formId version = w.forms.find formId version ∧
      w.pruneDatasets.forms.find formId version = w.forms.find formId version ∧
      ∀ id row, w.forms.lookup id = some row → row.formId = formId → row.version = version →
        w.KeepsPinned id) ∧
    ∀ entry ∈ w.manifest, ∃ row, w.forms.lookup entry.formVersionId = some row ∧
      w.pruneForms.forms.lookup entry.formVersionId = some row ∧ w.KeepsPinned entry.formVersionId := by
  have held : Held idOf w := by
    refine Lib.run_invariant (fun _ _ _ held mapped stepped => held_step held mapped stepped) ?_ mapped ran
    exact ⟨fun _ _ none => (nomatch none), fun _ none => absurd none List.not_mem_nil⟩
  refine ⟨fun formId version named => ⟨prune_find named, rfl, fun id row found _ _ => ?_⟩, fun entry member => ?_⟩
  · exact keepsPinned_of_held found
  · obtain ⟨row, found, deployed⟩ := held.listed entry member
    refine ⟨row, found, prune_lookup found ?_, keepsPinned_of_held found⟩
    rw [FormStore.deletable, deployed]
    rfl

end Device

section Withdrawn

def surveyEntry : FormManifestEntry where
  formVersionId := "fv5"
  formId := "survey"
  version := 5
  title := "Survey"
  irChecksum := "sha256:5"

def surveyHeld : List DeviceStep :=
  [.forms [surveyEntry] ((∅ : Dict String).insert "fv5" "ir"),
    .datasets [{
      formVersionId := "fv5", datasetKey := "villages", datasetVersionId := "v1", version := 1
      rowCount := 1, checksum := "sha256:1" }],
    .appendRows "v1" [("a", ⟨[("name", "a")], by simp⟩)] none]

def withdrawnUnderDraft : List DeviceStep :=
  surveyHeld ++ [.createDraft "s1" "survey" 5 none 0, .forms [] ∅]

def pulledAfterWithdrawal : List DeviceStep :=
  surveyHeld ++ [.forms [] ∅, .pruneForms,
    .pull [{ opId := "o1", submissionId := "s1", formId := "survey", formVersion := 5, kind := .set
             deviceId := "d2", actorId := "u2", counter := 1 }] 1]

def newDevice : Device := { store := { deviceId := "d1" } }

set_option maxRecDepth 20000 in
theorem withdrawn_kept :
    ∃ w row, Lib.run (Device.step ScanOrder.byKey) newDevice withdrawnUnderDraft = some w ∧
      w.names "survey" 5 ∧ w.forms.lookup "fv5" = some row ∧ row.irJson = some "ir" ∧
        w.pruneForms.forms.find "survey" 5 = w.forms.find "survey" 5 ∧ w.KeepsPinned "fv5" := by
  have ends : (Lib.run (Device.step ScanOrder.byKey) newDevice withdrawnUnderDraft).map (fun w =>
      (FormStore.named w.store.submissions "survey" 5, (w.forms.lookup "fv5").map fun row =>
        (row.formId, row.version, row.irJson))) = some (true, some ("survey", 5, some "ir")) := by decide
  obtain ⟨w, ran, both⟩ := Option.map_eq_some_iff.mp ends
  obtain ⟨named, held⟩ := Prod.mk.inj both
  obtain ⟨row, found, fields⟩ := Option.map_eq_some_iff.mp held
  simp only [Prod.mk.injEq] at fields
  obtain ⟨sameForm, sameVersion, document⟩ := fields
  obtain ⟨same, -, pinned⟩ := (@Device.prune_retains (fun _ _ => "fv5") ScanOrder.byKey w _ withdrawnUnderDraft ran
    (by simp [withdrawnUnderDraft, surveyHeld, Lib.Along, Device.Mapped, surveyEntry])).1 "survey" 5 named
  exact ⟨w, row, ran, named, found, document, same, pinned "fv5" row found sameForm sameVersion⟩

set_option maxRecDepth 20000 in
/-- The list goes although a submission names the form version that pins it. -/
theorem pulled_list_pruned :
    ∃ w, Lib.run (Device.step ScanOrder.byKey) newDevice pulledAfterWithdrawal = some w ∧
      w.names "survey" 5 ∧ w.datasets.pins.lookup ("fv5", "villages") = some "v1" ∧
        (w.datasets.versions.lookup "v1").map (·.complete) = some true ∧
          (w.pruneDatasets.datasets.versions.lookup "v1").map (·.complete) = none := by
  have ends : (Lib.run (Device.step ScanOrder.byKey) newDevice pulledAfterWithdrawal).map (fun w =>
      (FormStore.named w.store.submissions "survey" 5, w.datasets.pins.lookup ("fv5", "villages"),
        (w.datasets.versions.lookup "v1").map (·.complete),
        (w.pruneDatasets.datasets.versions.lookup "v1").map (·.complete))) =
      some (true, some "v1", some true, none) := by decide
  obtain ⟨w, ran, fields⟩ := Option.map_eq_some_iff.mp ends
  simp only [Prod.mk.injEq] at fields
  exact ⟨w, ran, fields⟩

end Withdrawn

end DataCollectionLab.Core
