import DataCollectionLab.Cases.Models
import DataCollectionLab.Entities.Versions
import DataCollectionLab.Lib.Runs

/-!
The sample of a project and the cases made of it. An upload opens a case for every key the project does not know,
reopens those of its dataset that come back, and withdraws those that are gone.
-/

namespace DataCollectionLab.Cases

open Entities (Row isBlank)
open People (Principal)

section CaseKey

def escape (part : String) : List Char :=
  part.toList.flatMap fun c => if c = '\\' then ['\\', '\\'] else if c = '|' then ['\\', '|'] else [c]

def compose (parts : List String) : String := String.ofList (['|'].intercalate (parts.map escape))

def keyOf (row : Row) (keyColumns : List String) : Option String :=
  let parts := keyColumns.map fun column => (row.get column).getD ""
  if parts.any isBlank then none else some (compose parts)

end CaseKey

/-! ### The statements of `dcp_upsert_cases` -/

section Upsert

variable (p : Principal) (db : Db) (projectId datasetKey : String) (keys : List String)

/-- WITH CHECK of `case_record`. -/
def writesCase (c : CaseRecord) : Bool := p.has .sampleUpload && (p.orgWide || p.inProjects (some c.projectId))

def madeFrom (c : CaseRecord) : Bool := c.projectId == projectId && c.dataset == some datasetKey

def keyIn (c : CaseRecord) : Bool := c.caseKey.any (keys.contains ·)

def known (key : String) : Bool :=
  db.cases.any fun c => caseInScope p db c.id && c.projectId == projectId && c.caseKey == some key

def newCases (ids : List String) : List CaseRecord :=
  ((keys.zip ids).filter fun pair => !known p db projectId pair.1).map fun pair =>
    { id := pair.2, projectId, sample := some (datasetKey, pair.1) }

def clashes (new : List CaseRecord) : Bool :=
  new.any (fun c => db.cases.any fun other =>
    other.id == c.id || (other.projectId == c.projectId && other.caseKey == c.caseKey)) ||
    !decide (new.map (·.id)).Nodup || !decide (new.map (·.caseKey)).Nodup

def insertCases (ids : List String) : Except Refusal Db :=
  let new := newCases p db projectId datasetKey keys ids
  if !new.all (writesCase p) then .error .outsideYourAuthority
  else if clashes db new then .error .integrityError
  else .ok { db with cases := db.cases ++ new }

def due (hit : CaseRecord → Bool) (c : CaseRecord) : Bool := hit c && caseInScope p db c.id

def updateCases (hit : CaseRecord → Bool) (becomes : CaseRecord → CaseRecord) : Except Refusal Db :=
  if !(db.cases.filter (due p db hit)).all fun c => writesCase p (becomes c) then .error .outsideYourAuthority
  else .ok { db with cases := db.cases.map fun c => if due p db hit c then becomes c else c }

def comesBack (c : CaseRecord) : Bool := madeFrom projectId datasetKey c && c.status == .withdrawn && keyIn keys c

def isGone (c : CaseRecord) : Bool := madeFrom projectId datasetKey c && c.status != .withdrawn && !keyIn keys c

def reopened (c : CaseRecord) : CaseRecord := { c with status := .open, closedAt := none }

def withdrawn (now : ℕ) (c : CaseRecord) : CaseRecord := { c with status := .withdrawn, closedAt := some now }

/-- `dcp_upsert_cases` -/
def upsertCases (ids : List String) (now : ℕ) : Except Refusal Db := do
  if keys.length ≠ ids.length then throw .integrityError
  else
    let db ← insertCases p db projectId datasetKey keys ids
    let db ← updateCases p db (comesBack projectId datasetKey keys) reopened
    let stones := (db.cases.filter (due p db (isGone projectId datasetKey keys))).map fun c => ⟨projectId, c.id⟩
    let db ← updateCases p db (isGone projectId datasetKey keys) (withdrawn now)
    return { db with tombstones := db.tombstones ++ stones }

end Upsert

structure Deployment where
  db : Db
  latest : String × String → List String := fun _ => []

structure Upload where
  projectId : String
  datasetKey : String
  keyColumns : List String
  rows : List Row
  /-- Fresh ids, one for each row. -/
  ids : List String
  now : ℕ

def Upload.keys (upload : Upload) : Option (List String) := upload.rows.mapM (keyOf · upload.keyColumns)

/-- What `publish_dataset_version` admits: some rows, and no key blank or repeated. -/
def publishable (keys : List String) : Bool := !keys.isEmpty && keys.all (!isBlank ·) && decide keys.Nodup

def uploadSample (p : Principal) (d : Deployment) (upload : Upload) : Except Refusal Deployment :=
  if upload.keyColumns = [] ∨ upload.rows.head?.any (fun row => upload.keyColumns.any fun c => (row.get c).isNone) then
    .error .badRequest
  else
    match upload.keys with
    | none => .error .badKeyRow
    | some keys =>
      if !publishable keys then .error .badKeyRow
      else if !p.seesProject d.db.people upload.projectId then .error .outsideYourAuthority
      else do
        let db ← upsertCases p d.db upload.projectId upload.datasetKey keys upload.ids upload.now
        return { db, latest := Function.update d.latest (upload.projectId, upload.datasetKey) keys }

inductive SampleAct where
  | upload (p : Principal) (upload : Upload)
  | assign (p : Principal) (caseId : String) (holder : Holder) (now : ℕ)

def Deployment.step (d : Deployment) : SampleAct → Deployment
  | .upload p upload =>
    match uploadSample p d upload with
    | .ok d' => d'
    | .error _ => d
  | .assign p caseId holder now =>
    match assignCase p now d.db caseId holder with
    | .ok db => { d with db }
    | .error _ => d

/-! ### What an upload leaves -/

def settle (p : Principal) (db : Db) (projectId datasetKey : String) (keys : List String) (now : ℕ) (c : CaseRecord) :
    CaseRecord :=
  let c := if due p db (comesBack projectId datasetKey keys) c then reopened c else c
  if due p db (isGone projectId datasetKey keys) c then withdrawn now c else c

section Settle

variable {p : Principal} {db db' : Db} {projectId datasetKey : String} {keys ids : List String} {now : ℕ} {c : CaseRecord}

@[simp] theorem settle_projectId : (settle p db projectId datasetKey keys now c).projectId = c.projectId := by
  unfold settle
  dsimp only
  split <;> split <;> rfl

@[simp] theorem settle_sample : (settle p db projectId datasetKey keys now c).sample = c.sample := by
  unfold settle
  dsimp only
  split <;> split <;> rfl

theorem keyIn_iff {d key : String} (sample : c.sample = some (d, key)) : keyIn keys c = true ↔ key ∈ keys := by
  unfold keyIn CaseRecord.caseKey
  rw [sample]
  simp

theorem settle_of_not_due (back : due p db (comesBack projectId datasetKey keys) c = false)
    (gone : due p db (isGone projectId datasetKey keys) c = false) : settle p db projectId datasetKey keys now c = c := by
  simp [settle, back, gone]

theorem settle_congr (seen : caseInScope p db' c.id = caseInScope p db c.id) :
    settle p db' projectId datasetKey keys now c = settle p db projectId datasetKey keys now c := by
  have due_eq : ∀ (hit : CaseRecord → Bool) (c' : CaseRecord), c'.id = c.id → due p db' hit c' = due p db hit c' := by
    intro hit c' same
    unfold due
    rw [same, seen]
  unfold settle
  dsimp only
  rw [due_eq _ c rfl]
  split
  · rw [due_eq _ (reopened c) rfl]
  · rw [due_eq _ c rfl]

theorem settle_of_other (other : madeFrom projectId datasetKey c = false) :
    settle p db projectId datasetKey keys now c = c :=
  settle_of_not_due (by simp [due, comesBack, other]) (by simp [due, isGone, other])

theorem settle_of_unseen (unseen : caseInScope p db c.id = false) : settle p db projectId datasetKey keys now c = c :=
  settle_of_not_due (by simp [due, unseen]) (by simp [due, unseen])

theorem settle_of_stays (inside : keyIn keys c = true) (live : c.status ≠ .withdrawn) :
    settle p db projectId datasetKey keys now c = c :=
  settle_of_not_due (by simp [due, comesBack, live]) (by simp [due, isGone, inside])

theorem settle_of_back (own : madeFrom projectId datasetKey c = true) (inside : keyIn keys c = true)
    (seen : caseInScope p db c.id = true) : (settle p db projectId datasetKey keys now c).status ≠ .withdrawn := by
  by_cases live : c.status = .withdrawn
  · have back : due p db (comesBack projectId datasetKey keys) c = true := by simp [due, comesBack, own, live, inside, seen]
    have kept : due p db (isGone projectId datasetKey keys) (reopened c) = false := by
      have inside' : keyIn keys (reopened c) = true := inside
      simp [due, isGone, inside']
    unfold settle
    rw [if_pos back]
    dsimp only
    rw [if_neg (by rw [kept]; exact Bool.false_ne_true)]
    intro closed
    cases closed
  · rw [settle_of_stays inside live]
    exact live

theorem settle_of_gone (own : madeFrom projectId datasetKey c = true) (outside : keyIn keys c = false)
    (seen : caseInScope p db c.id = true) : (settle p db projectId datasetKey keys now c).status = .withdrawn := by
  have back : due p db (comesBack projectId datasetKey keys) c = false := by simp [due, comesBack, outside]
  simp only [settle, back, Bool.false_eq_true, if_false]
  by_cases live : c.status = .withdrawn
  · rw [if_neg (by simp [due, isGone, live])]
    exact live
  · rw [if_pos (by simp [due, isGone, own, live, outside, seen])]
    rfl

end Settle

section Statements

variable {p : Principal} {db db' : Db} {projectId datasetKey : String} {keys ids : List String} {now : ℕ}

theorem caseInScope_map {f : CaseRecord → CaseRecord} (id : ∀ c, (f c).id = c.id)
    (project : ∀ c, (f c).projectId = c.projectId) (caseId : String) :
    caseInScope p { db with cases := db.cases.map f } caseId = caseInScope p db caseId := by
  unfold caseInScope
  simp only [List.any_map, Function.comp_def, id, project]

theorem caseInScope_append {new : List CaseRecord} {caseId : String} (fresh : ∀ c ∈ new, c.id ≠ caseId) :
    caseInScope p { db with cases := db.cases ++ new } caseId = caseInScope p db caseId := by
  have none : new.any (fun c => c.id == caseId && p.inProjects (some c.projectId)) = false := by
    rw [List.any_eq_false]
    intro c member
    simp [fresh c member]
  unfold caseInScope
  simp only [List.any_append, none, Bool.or_false]

theorem due_map {f : CaseRecord → CaseRecord} (id : ∀ c, (f c).id = c.id)
    (project : ∀ c, (f c).projectId = c.projectId) (hit : CaseRecord → Bool) (c : CaseRecord) :
    due p { db with cases := db.cases.map f } hit c = due p db hit c := by
  unfold due
  rw [caseInScope_map id project]

theorem insertCases_ok (done : insertCases p db projectId datasetKey keys ids = .ok db') :
    clashes db (newCases p db projectId datasetKey keys ids) = false ∧
      db' = { db with cases := db.cases ++ newCases p db projectId datasetKey keys ids } := by
  unfold insertCases at done
  dsimp only at done
  split at done
  · cases done
  split at done
  · cases done
  rename_i apart
  exact ⟨by simpa using apart, (Except.ok.inj done).symm⟩

theorem updateCases_ok {hit : CaseRecord → Bool} {becomes : CaseRecord → CaseRecord}
    (done : updateCases p db hit becomes = .ok db') :
    db' = { db with cases := db.cases.map fun c => if due p db hit c then becomes c else c } := by
  unfold updateCases at done
  split at done
  · cases done
  exact (Except.ok.inj done).symm

theorem upsertCases_ok (done : upsertCases p db projectId datasetKey keys ids now = .ok db') :
    keys.length = ids.length ∧ clashes db (newCases p db projectId datasetKey keys ids) = false ∧
      db'.assignments = db.assignments ∧ db'.people = db.people ∧
      db'.cases = (db.cases ++ newCases p db projectId datasetKey keys ids).map
        (settle p { db with cases := db.cases ++ newCases p db projectId datasetKey keys ids } projectId datasetKey keys now) := by
  unfold upsertCases at done
  split at done
  · cases done
  rename_i lengths
  obtain ⟨one, first, rest⟩ := Lib.bind_ok_iff.mp done
  obtain ⟨two, second, rest⟩ := Lib.bind_ok_iff.mp rest
  obtain ⟨three, third, last⟩ := Lib.bind_ok_iff.mp rest
  obtain rfl := Except.ok.inj last
  obtain ⟨apart, rfl⟩ := insertCases_ok first
  obtain rfl := updateCases_ok second
  obtain rfl := updateCases_ok third
  refine ⟨not_not.mp lengths, apart, rfl, rfl, ?_⟩
  rw [List.map_map]
  refine List.map_congr_left fun c _ => ?_
  refine if_congr ?_ rfl rfl
  rw [due_map (fun c => by split <;> rfl) (fun c => by split <;> rfl)]

end Statements

/-! ### One case for each key -/

def Keyed (cases : List CaseRecord) : Prop :=
  cases.Pairwise fun a b => a.caseKey.isSome → ¬ (a.projectId = b.projectId ∧ a.caseKey = b.caseKey)

theorem Keyed.eq {cases : List CaseRecord} (unique : Keyed cases) {a b : CaseRecord} (inA : a ∈ cases) (inB : b ∈ cases)
    {key : String} (keyed : a.caseKey = some key) (project : a.projectId = b.projectId) (same : b.caseKey = some key) :
    a = b := by
  by_contra apart
  have : Std.Symm fun a b : CaseRecord =>
      a.caseKey.isSome → ¬ (a.projectId = b.projectId ∧ a.caseKey = b.caseKey) := by
    refine ⟨fun a b clash keyed same => ?_⟩
    exact clash (same.2 ▸ keyed) ⟨same.1.symm, same.2.symm⟩
  exact List.Pairwise.forall unique inA inB apart (by rw [keyed]; rfl) ⟨project, keyed.trans same.symm⟩

theorem keyed_map {f : CaseRecord → CaseRecord} (project : ∀ c, (f c).projectId = c.projectId)
    (sample : ∀ c, (f c).sample = c.sample) {cases : List CaseRecord} : Keyed (cases.map f) ↔ Keyed cases := by
  unfold Keyed
  rw [List.pairwise_map]
  simp only [CaseRecord.caseKey, project, sample]

section Uploads

variable {p : Principal} {db db' : Db} {projectId datasetKey : String} {keys ids : List String} {now : ℕ} {c : CaseRecord}

theorem mem_newCases : c ∈ newCases p db projectId datasetKey keys ids ↔
    ∃ key id, (key, id) ∈ keys.zip ids ∧ known p db projectId key = false ∧
      c = { id, projectId, sample := some (datasetKey, key) } := by
  simp only [newCases, List.mem_map, List.mem_filter, Bool.not_eq_true', Prod.exists]
  constructor
  · rintro ⟨key, id, ⟨paired, unknown⟩, rfl⟩
    exact ⟨key, id, paired, unknown, rfl⟩
  · rintro ⟨key, id, paired, unknown, rfl⟩
    exact ⟨key, id, ⟨paired, unknown⟩, rfl⟩

theorem newCases_key (lengths : keys.length = ids.length) (key : String) :
    (∃ c ∈ newCases p db projectId datasetKey keys ids, c.caseKey = some key) ↔
      key ∈ keys ∧ known p db projectId key = false := by
  constructor
  · rintro ⟨c, new, same⟩
    obtain ⟨key', id, paired, unknown, rfl⟩ := mem_newCases.mp new
    obtain rfl := Option.some.inj same
    exact ⟨(List.of_mem_zip paired).1, unknown⟩
  · rintro ⟨member, unknown⟩
    obtain ⟨i, inside, rfl⟩ := List.mem_iff_getElem.mp member
    have paired : (keys[i], ids.get ⟨i, lengths ▸ inside⟩) ∈ keys.zip ids :=
      List.mem_iff_getElem.mpr ⟨i, by simpa [← lengths] using inside, List.getElem_zip⟩
    exact ⟨_, mem_newCases.mpr ⟨_, _, paired, unknown, rfl⟩, rfl⟩

theorem fresh_of_apart (apart : clashes db (newCases p db projectId datasetKey keys ids) = false)
    (new : c ∈ newCases p db projectId datasetKey keys ids) {other : CaseRecord} (there : other ∈ db.cases) :
    other.id ≠ c.id ∧ ¬ (other.projectId = c.projectId ∧ other.caseKey = c.caseKey) := by
  unfold clashes at apart
  simp only [Bool.or_eq_false_iff, List.any_eq_false] at apart
  have free := apart.1.1 c new
  rw [List.any_eq_true] at free
  simpa [not_or] using fun clash => free ⟨other, there, clash⟩

theorem keyed_append (unique : Keyed db.cases) (apart : clashes db (newCases p db projectId datasetKey keys ids) = false) :
    Keyed (db.cases ++ newCases p db projectId datasetKey keys ids) := by
  refine List.pairwise_append.mpr ⟨unique, ?_, fun a there b new _ => (fresh_of_apart apart new there).2⟩
  unfold clashes at apart
  simp only [Bool.or_eq_false_iff, Bool.not_eq_false', decide_eq_true_eq] at apart
  exact (List.pairwise_map.mp apart.2).imp fun differ _ same => differ same.2

theorem keyed_upsert (unique : Keyed db.cases) (done : upsertCases p db projectId datasetKey keys ids now = .ok db') :
    Keyed db'.cases := by
  obtain ⟨-, apart, -, -, cases⟩ := upsertCases_ok done
  rw [cases]
  exact (keyed_map (fun _ => settle_projectId) fun _ => settle_sample).mpr (keyed_append unique apart)

theorem upsertCases_cases (done : upsertCases p db projectId datasetKey keys ids now = .ok db') :
    db'.cases = db.cases.map (settle p db projectId datasetKey keys now) ++
      newCases p db projectId datasetKey keys ids := by
  obtain ⟨-, apart, -, -, cases⟩ := upsertCases_ok done
  rw [cases, List.map_append]
  congr 1
  · refine List.map_congr_left fun c there => ?_
    have seen : caseInScope p { db with cases := db.cases ++ newCases p db projectId datasetKey keys ids } c.id =
        caseInScope p db c.id := caseInScope_append fun _ new => (fresh_of_apart apart new there).1.symm
    exact settle_congr seen
  · refine (List.map_congr_left fun c new => ?_).trans (List.map_id _)
    obtain ⟨key, id, paired, -, rfl⟩ := mem_newCases.mp new
    refine settle_of_stays ?_ (fun closed => by cases closed)
    exact (keyIn_iff rfl).mpr (List.of_mem_zip paired).1

end Uploads

/-! ### Cases follow the sample -/

def Deployment.sampled (d : Deployment) (projectId datasetKey : String) : List CaseRecord :=
  d.db.cases.filter fun c => madeFrom projectId datasetKey c && c.status != .withdrawn

def Deployment.others (d : Deployment) (projectId datasetKey : String) : List CaseRecord :=
  d.db.cases.filter fun c => !madeFrom projectId datasetKey c

/-- One case that is not withdrawn for each key of the newest sample and no other; the cases of other datasets as they
were; a case that stays, and every assignment, as it was. -/
structure Follows (d d' : Deployment) (projectId datasetKey : String) : Prop where
  keys : ((d'.sampled projectId datasetKey).map (·.caseKey)).Perm ((d'.latest (projectId, datasetKey)).map some)
  others : d'.others projectId datasetKey = d.others projectId datasetKey
  stays : ∀ c ∈ d.sampled projectId datasetKey, keyIn (d'.latest (projectId, datasetKey)) c = true → c ∈ d'.db.cases
  assignments : d'.db.assignments = d.db.assignments

def Fits (p : Principal) (d : Deployment) (projectId datasetKey : String) (keys : List String) : Prop :=
  ∀ c ∈ d.db.cases, c.projectId = projectId →
    (keyIn keys c = true → c.dataset = some datasetKey) ∧
    (c.dataset = some datasetKey → c.status ≠ .withdrawn → keyIn keys c = false → caseInScope p d.db c.id = true)

instance (p : Principal) (d : Deployment) (projectId datasetKey : String) (keys : List String) :
    Decidable (Fits p d projectId datasetKey keys) :=
  inferInstanceAs (Decidable (∀ c ∈ d.db.cases, c.projectId = projectId → _ ∧ _))

theorem uploadSample_ok {p : Principal} {d d' : Deployment} {upload : Upload} (done : uploadSample p d upload = .ok d') :
    ∃ keys, upload.keys = some keys ∧ keys.Nodup ∧
      upsertCases p d.db upload.projectId upload.datasetKey keys upload.ids upload.now = .ok d'.db ∧
      d'.latest = Function.update d.latest (upload.projectId, upload.datasetKey) keys := by
  unfold uploadSample at done
  split at done
  · cases done
  split at done
  · cases done
  rename_i keys composed
  split at done
  · cases done
  rename_i good
  split at done
  · cases done
  obtain ⟨db, upserted, last⟩ := Lib.bind_ok_iff.mp done
  obtain rfl := Except.ok.inj last
  have nodup : keys.Nodup := by
    unfold publishable at good
    simp only [Bool.not_eq_true', Bool.not_eq_false, Bool.and_eq_true, decide_eq_true_eq] at good
    exact good.2
  exact ⟨keys, composed, nodup, upserted, rfl⟩

section Follows

variable {p : Principal} {d d' : Deployment} {projectId datasetKey : String} {keys ids : List String} {now : ℕ}

theorem mem_sampled {c : CaseRecord} : c ∈ d.sampled projectId datasetKey ↔
    c ∈ d.db.cases ∧ (c.projectId = projectId ∧ c.dataset = some datasetKey) ∧ c.status ≠ .withdrawn := by
  simp [Deployment.sampled, madeFrom]

theorem caseKey_of_dataset {c : CaseRecord} {dataset : String} (made : c.dataset = some dataset) :
    ∃ key, c.sample = some (dataset, key) := by
  obtain ⟨⟨dataset', key⟩, sample, rfl⟩ := Option.map_eq_some_iff.mp made
  exact ⟨key, sample⟩

theorem sampled_nodup (unique : Keyed d.db.cases) : ((d.sampled projectId datasetKey).map (·.caseKey)).Nodup := by
  refine List.pairwise_map.mpr (List.Pairwise.imp_of_mem ?_ (unique.filter _))
  intro a b inA inB clash same
  obtain ⟨-, ⟨projectA, madeA⟩, -⟩ := mem_sampled.mp inA
  obtain ⟨-, ⟨projectB, -⟩, -⟩ := mem_sampled.mp inB
  obtain ⟨key, sample⟩ := caseKey_of_dataset madeA
  exact clash (by simp [CaseRecord.caseKey, sample]) ⟨projectA.trans projectB.symm, same⟩

theorem others_upsert (done : upsertCases p d.db projectId datasetKey keys ids now = .ok d'.db) :
    d'.others projectId datasetKey = d.others projectId datasetKey := by
  unfold Deployment.others
  rw [upsertCases_cases done, List.filter_append]
  have none : (newCases p d.db projectId datasetKey keys ids).filter (fun c => !madeFrom projectId datasetKey c) = [] := by
    refine List.filter_eq_nil_iff.mpr fun c new => ?_
    obtain ⟨key, id, -, -, rfl⟩ := mem_newCases.mp new
    simp [madeFrom, CaseRecord.dataset]
  rw [none, List.append_nil]
  refine Lib.filter_map_of_fixed (fun c => ?_) (fun c other => ?_) d.db.cases
  · simp only [madeFrom, CaseRecord.dataset, settle_projectId, settle_sample]
  · exact settle_of_other (by simpa using other)

theorem stays_upsert (done : upsertCases p d.db projectId datasetKey keys ids now = .ok d'.db) {c : CaseRecord}
    (sampled : c ∈ d.sampled projectId datasetKey) (inside : keyIn keys c = true) : c ∈ d'.db.cases := by
  obtain ⟨there, -, live⟩ := mem_sampled.mp sampled
  rw [upsertCases_cases done]
  refine List.mem_append_left _ (List.mem_map.mpr ⟨c, there, ?_⟩)
  exact settle_of_stays inside live

theorem key_of_sampled (fits : Fits p d projectId datasetKey keys)
    (done : upsertCases p d.db projectId datasetKey keys ids now = .ok d'.db) {c : CaseRecord}
    (sampled : c ∈ d'.sampled projectId datasetKey) : keyIn keys c = true := by
  obtain ⟨there, ⟨project, made⟩, live⟩ := mem_sampled.mp sampled
  rw [upsertCases_cases done, List.mem_append] at there
  rcases there with settled | new
  · obtain ⟨before, there, rfl⟩ := List.mem_map.mp settled
    simp only [settle_projectId, CaseRecord.dataset, settle_sample] at project made
    have own : madeFrom projectId datasetKey before = true := by simp [madeFrom, CaseRecord.dataset, project, made]
    have same : keyIn keys (settle p d.db projectId datasetKey keys now before) = keyIn keys before := by
      simp only [keyIn, CaseRecord.caseKey, settle_sample]
    rw [same]
    by_contra outside
    rw [Bool.not_eq_true] at outside
    by_cases open' : before.status = .withdrawn
    · refine live ?_
      rw [settle_of_not_due (by simp [due, comesBack, outside]) (by simp [due, isGone, open'])]
      exact open'
    · exact live (settle_of_gone own outside ((fits before there project).2 made open' outside))
  · obtain ⟨key, id, paired, -, rfl⟩ := mem_newCases.mp new
    exact (keyIn_iff rfl).mpr (List.of_mem_zip paired).1

theorem sampled_of_key (fits : Fits p d projectId datasetKey keys)
    (done : upsertCases p d.db projectId datasetKey keys ids now = .ok d'.db) {key : String} (member : key ∈ keys) :
    ∃ c ∈ d'.sampled projectId datasetKey, c.caseKey = some key := by
  have cases := upsertCases_cases done
  by_cases unknown : known p d.db projectId key = false
  · obtain ⟨c, new, same⟩ := (newCases_key (upsertCases_ok done).1 key).mpr ⟨member, unknown⟩
    refine ⟨c, mem_sampled.mpr ⟨?_, ?_⟩, same⟩
    · rw [cases]
      exact List.mem_append_right _ new
    · obtain ⟨key', id, -, -, rfl⟩ := mem_newCases.mp new
      exact ⟨⟨rfl, rfl⟩, fun closed => by cases closed⟩
  · rw [Bool.not_eq_false] at unknown
    obtain ⟨c, there, matched⟩ := List.any_eq_true.mp unknown
    simp only [Bool.and_eq_true, beq_iff_eq] at matched
    obtain ⟨⟨seen, project⟩, same⟩ := matched
    have inside : keyIn keys c = true := by simp [keyIn, same, member]
    have made : c.dataset = some datasetKey := (fits c there project).1 inside
    refine ⟨settle p d.db projectId datasetKey keys now c, mem_sampled.mpr ⟨?_, ⟨?_, ?_⟩, ?_⟩, ?_⟩
    · rw [cases]
      exact List.mem_append_left _ (List.mem_map_of_mem there)
    · rw [settle_projectId, project]
    · rw [CaseRecord.dataset, settle_sample]
      exact made
    · exact settle_of_back (by simp [madeFrom, project, made]) inside seen
    · rw [CaseRecord.caseKey, settle_sample]
      exact same

theorem fits_of_keys (unique : Keyed d'.db.cases) (done : upsertCases p d.db projectId datasetKey keys ids now = .ok d'.db)
    (exactly : ∀ key, (∃ c ∈ d'.sampled projectId datasetKey, c.caseKey = some key) ↔ key ∈ keys) :
    Fits p d projectId datasetKey keys := by
  intro c there project
  have after : settle p d.db projectId datasetKey keys now c ∈ d'.db.cases := by
    rw [upsertCases_cases done]
    exact List.mem_append_left _ (List.mem_map_of_mem there)
  constructor
  · intro inside
    obtain ⟨key, keyed, member⟩ : ∃ key, c.caseKey = some key ∧ key ∈ keys := by
      cases keyed : c.caseKey with
      | none => simp [keyIn, keyed] at inside
      | some key => exact ⟨key, rfl, by simpa [keyIn, keyed] using inside⟩
    obtain ⟨c', sampled, same⟩ := (exactly key).mpr member
    obtain ⟨there', ⟨project', made⟩, -⟩ := mem_sampled.mp sampled
    have one : c' = settle p d.db projectId datasetKey keys now c :=
      unique.eq there' after same (by rw [project', settle_projectId, project]) (by
        rw [CaseRecord.caseKey, settle_sample]
        exact keyed)
    rw [one, CaseRecord.dataset, settle_sample] at made
    exact made
  · intro made live outside
    by_contra unseen
    rw [Bool.not_eq_true] at unseen
    rw [settle_of_unseen unseen] at after
    obtain ⟨key, sample⟩ := caseKey_of_dataset made
    have member := (exactly key).mp ⟨c, mem_sampled.mpr ⟨after, ⟨project, made⟩, live⟩, by rw [CaseRecord.caseKey, sample]; rfl⟩
    rw [(keyIn_iff sample).mpr member] at outside
    cases outside

theorem follows_iff (unique : Keyed d.db.cases) (nodup : keys.Nodup)
    (done : upsertCases p d.db projectId datasetKey keys ids now = .ok d'.db)
    (latest : d'.latest (projectId, datasetKey) = keys) :
    Follows d d' projectId datasetKey ↔ Fits p d projectId datasetKey keys := by
  have unique' := keyed_upsert unique done
  have listed : ∀ key, some key ∈ (d'.sampled projectId datasetKey).map (·.caseKey) ↔
      ∃ c ∈ d'.sampled projectId datasetKey, c.caseKey = some key := fun key => List.mem_map
  constructor
  · intro follows
    refine fits_of_keys unique' done fun key => ?_
    rw [← listed, follows.keys.mem_iff, latest, List.mem_map_of_injective (Option.some_injective _)]
  · intro fits
    refine ⟨?_, others_upsert done, fun c sampled inside => ?_, ?_⟩
    · rw [latest]
      refine (List.perm_ext_iff_of_nodup (sampled_nodup unique') (nodup.map (Option.some_injective _))).mpr fun entry => ?_
      constructor
      · intro left
        obtain ⟨c, sampled, rfl⟩ := List.mem_map.mp left
        obtain ⟨key, sample⟩ := caseKey_of_dataset (mem_sampled.mp sampled).2.1.2
        have member := (keyIn_iff sample).mp (key_of_sampled fits done sampled)
        rw [CaseRecord.caseKey, sample]
        exact List.mem_map_of_mem member
      · intro listed'
        obtain ⟨key, member, rfl⟩ := List.mem_map.mp listed'
        exact (listed key).mpr (sampled_of_key fits done member)
    · rw [latest] at inside
      exact stays_upsert done sampled inside
    · exact (upsertCases_ok done).2.2.1

end Follows

namespace Deployment

def Followed (d : Deployment) : SampleAct → Prop
  | .upload p upload => ∀ d', uploadSample p d upload = .ok d' → Follows d d' upload.projectId upload.datasetKey
  | .assign .. => True

def Fitting (d : Deployment) : SampleAct → Prop
  | .upload p upload => ∀ d' keys, uploadSample p d upload = .ok d' → upload.keys = some keys →
      Fits p d upload.projectId upload.datasetKey keys
  | .assign .. => True

theorem keyed_step {d : Deployment} (unique : Keyed d.db.cases) (act : SampleAct) : Keyed (d.step act).db.cases := by
  cases act with
  | upload p upload =>
    unfold step
    dsimp only
    split
    · rename_i d' done
      obtain ⟨keys, -, -, upserted, -⟩ := uploadSample_ok done
      exact keyed_upsert unique upserted
    · exact unique
  | assign p caseId holder now =>
    unfold step
    dsimp only
    split
    · rename_i db done
      rw [(assignCase_ok done).2.2.1]
      exact unique
    · exact unique

/-- In every run, the cases follow each sample exactly when each upload fits the state it finds. -/
theorem followed_iff_fitting (d : Deployment) (unique : Keyed d.db.cases) (acts : List SampleAct) :
    (∀ first a rest, acts = first ++ a :: rest → (first.foldl step d).Followed a) ↔
      ∀ first a rest, acts = first ++ a :: rest → (first.foldl step d).Fitting a := by
  let Unique (d : Deployment) : Prop := Keyed d.db.cases
  have keeps : ∀ d act, Unique d → True → Unique (step d act) := fun _ act unique _ => keyed_step unique act
  have keyed := Lib.reached_of_met keeps unique (fun _ _ _ (_ : acts = _) => trivial)
  refine forall₄_congr fun first act rest split => ?_
  have unique := keyed first _ split
  cases act with
  | assign p caseId holder now => exact Iff.rfl
  | upload p upload =>
    constructor
    · intro followed d' keys done composed
      obtain ⟨keys', composed', nodup, upserted, latest⟩ := uploadSample_ok done
      obtain rfl := Option.some.inj (composed.symm.trans composed')
      exact (follows_iff unique nodup upserted (by rw [latest, Function.update_self])).mp (followed d' done)
    · intro fitting d' done
      obtain ⟨keys, composed, nodup, upserted, latest⟩ := uploadSample_ok done
      exact (follows_iff unique nodup upserted (by rw [latest, Function.update_self])).mpr
        (fitting d' keys done composed)

/-! ### A sample of households -/

theorem nobody_granted : ∀ grant ∈ ([] : List People.UserRole), ∃ role ∈ ([] : List People.Role), role.id = grant.roleId := nofun

def surveys : Deployment where
  db.people := { projects := [⟨"p", "org"⟩], teams := [⟨"A", "p", none⟩], granted := nobody_granted }

def surveyor : Principal where
  orgId := "org"
  userId := "surveyor"
  scopeKind := some .organization
  visibleUserIds := {"surveyor"}
  projectIds := ∅
  teamIds := ∅
  permissions := {.sampleUpload, .sampleAssign}

def listing (datasetKey : String) (keys ids : List String) : SampleAct :=
  .upload surveyor
    { projectId := "p", datasetKey, keyColumns := ["hh"], rows := keys.map fun key => ⟨[("hh", key)], List.nodup_singleton _⟩,
      ids, now := 1 }

def returning : List SampleAct :=
  [listing "main" ["1", "2"] ["a", "b"], .assign surveyor "b" (.team "A") 1, listing "main" ["2"] ["c"],
    listing "main" ["1", "2"] ["d", "e"]]

def shared : List SampleAct := [listing "main" ["1"] ["a"], listing "extra" ["1"] ["b"]]

theorem returning_followed :
    ((returning.take 3).foldl step surveys).Followed (listing "main" ["1", "2"] ["d", "e"]) := by
  refine (followed_iff_fitting surveys List.Pairwise.nil returning).mpr ?_ _ _ [] rfl
  refine Lib.along_total_iff.mp ⟨?_, fun _ one => ⟨trivial, fun _ two => ⟨?_, fun _ three => ⟨?_, fun _ _ => trivial⟩⟩⟩⟩
  · intro d' keys _ composed
    obtain rfl := Option.some.inj composed
    decide +kernel
  · obtain rfl := Option.some.inj one
    obtain rfl := Option.some.inj two
    intro d' keys _ composed
    obtain rfl := Option.some.inj composed
    decide +kernel
  · obtain rfl := Option.some.inj one
    obtain rfl := Option.some.inj two
    obtain rfl := Option.some.inj three
    intro d' keys _ composed
    obtain rfl := Option.some.inj composed
    decide +kernel

/-- The second sample makes no case of the household, and moves none. -/
theorem shared_not_followed :
    ¬ ∀ first a rest, shared = first ++ a :: rest → (first.foldl step surveys).Followed a := by
  intro followed
  have here := followed [listing "main" ["1"] ["a"]] (listing "extra" ["1"] ["b"]) [] rfl
  obtain ⟨d', done, cases⟩ : ∃ d', uploadSample surveyor (surveys.step (listing "main" ["1"] ["a"]))
      ⟨"p", "extra", ["hh"], [⟨[("hh", "1")], List.nodup_singleton _⟩], ["b"], 1⟩ = .ok d' ∧
        d'.db.cases = [{ id := "a", projectId := "p", sample := some ("main", "1") }] := ⟨_, rfl, by decide +kernel⟩
  have listed := (here d' done).keys.length_eq
  obtain ⟨keys, composed, -, -, latest⟩ := uploadSample_ok done
  obtain rfl := Option.some.inj composed
  rw [latest, Function.update_self] at listed
  unfold sampled at listed
  rw [cases] at listed
  revert listed
  decide +kernel

end Deployment

end DataCollectionLab.Cases
