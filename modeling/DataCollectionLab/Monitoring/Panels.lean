import DataCollectionLab.Cases.Models
import DataCollectionLab.Lib.Tables
import DataCollectionLab.Submissions.Status
import Mathlib.Data.List.Sort

/-!
What the monitoring panels count. Each panel is a query of its own over the same tables; an organisation-wide principal
is shown every row of them.
-/

namespace DataCollectionLab.Monitoring

open Lib Tables
open Cases (Assignment CaseRecord Holder)

structure PlatformUser where
  id : String
  displayName : String

structure Submission where
  projectId : String
  caseId : Option String
  createdBy : Option String
  status : Status

structure Device where
  projectId : String
  userId : Option String
  lastSyncAt : Option ℕ

structure Dataset where
  id : String
  projectId : String
  datasetKey : String
  keyColumns : Option (List String)

structure DatasetVersion where
  id : String
  datasetId : String
  version : ℕ

structure DatasetRecord where
  versionId : String
  recordKey : String
  /-- `data ->> column`. -/
  text : String → Option String

def userId (a : Assignment) : Option String :=
  match a.holder with
  | .person id => some id
  | .team _ => none

/-- `released_at IS NULL AND user_id IS NOT NULL`. -/
def heldByPerson (a : Assignment) : Bool := a.releasedAt.isNone && (userId a).isSome

/-- The tables, under their keys and `assignment_live_person_idx`. -/
structure Database where
  users : List PlatformUser
  cases : List CaseRecord
  assignments : List Assignment
  submissions : List Submission := []
  devices : List Device := []
  datasets : List Dataset := []
  versions : List DatasetVersion := []
  records : List DatasetRecord := []
  userKey : (users.map (·.id)).Nodup
  caseKey : (cases.map (·.id)).Nodup
  assigned : ∀ a ∈ assignments, a.caseId ∈ cases.map (·.id)
  holder : ∀ a ∈ assignments, ∀ id, userId a = some id → id ∈ users.map (·.id)
  livePerson : ((assignments.filter heldByPerson).map (·.caseId)).Nodup

section Queries

variable (collation : String → String → Prop) [DecidableRel collation] (db : Database) (project : String)

/-- `COVERED_STATUSES` -/
def coveredStatuses : List Status := [.finalized, .inReview, .approved]

def covered (caseId : String) : Bool :=
  db.submissions.any fun s => s.caseId == some caseId && decide (s.status ∈ coveredStatuses)

def held (c : CaseRecord) (a : Assignment) : Bool := a.caseId == c.id && heldByPerson a

structure Overview where
  casesAssigned : ℕ
  casesCovered : ℕ
  submissions : ℕ
  uncasedSubmissions : ℕ
  devices : ℕ

/-- The rows of `_PROGRESS_SQL`. -/
def progressRows : List (CaseRecord × Assignment) :=
  (join db.cases db.assignments held).filter fun row => row.1.projectId == project

def overview : Overview where
  casesAssigned := (progressRows db project).length
  casesCovered := (progressRows db project).countP fun row => covered db row.1.id
  submissions := db.submissions.countP fun s => s.projectId == project
  uncasedSubmissions := db.submissions.countP fun s => s.projectId == project && s.caseId.isNone
  devices := db.devices.countP fun d => d.projectId == project

structure EnumeratorProgress where
  userId : String
  displayName : String
  assigned : ℕ
  covered : ℕ
  finalized : ℕ
  lastSyncAt : Option ℕ

abbrev EnumeratorRow := (PlatformUser × Option Assignment) × Option CaseRecord

def caseOf (row : EnumeratorRow) : Option String := row.1.2.map (·.caseId)

/-- The rows of `_ENUMERATORS_SQL`, each person with what they hold. -/
def enumeratorRows : List EnumeratorRow :=
  leftJoin (leftJoin db.users db.assignments fun u a => userId a == some u.id && a.releasedAt.isNone) db.cases
    fun row c => row.2.any fun a => c.id == a.caseId && c.projectId == project

def enumeratorProgress (group : (String × String) × List EnumeratorRow) : EnumeratorProgress where
  userId := group.1.1
  displayName := group.1.2
  assigned := countDistinct caseOf group.2
  covered := countDistinct caseOf (group.2.filter fun row => (caseOf row).any (covered db))
  finalized := db.submissions.countP fun s =>
    s.createdBy == some group.1.1 && s.projectId == project && decide (s.status ∈ coveredStatuses)
  lastSyncAt := ((db.devices.filter fun d => d.userId == some group.1.1).filterMap (·.lastSyncAt)).max?

def listed (row : EnumeratorProgress) : Bool :=
  0 < row.assigned || db.submissions.any fun s => s.createdBy == some row.userId && s.projectId == project

def enumerators : List EnumeratorProgress :=
  (((groupBy (fun row : EnumeratorRow => (row.1.1.id, row.1.1.displayName)) (enumeratorRows db project)).map
    (enumeratorProgress db project)).filter (listed db project)).insertionSort
      fun a b => collation a.displayName b.displayName

def sampleRows (c : CaseRecord) : List DatasetRecord :=
  let rows := (join (join db.records db.versions fun r v => v.id == r.versionId) db.datasets
    fun row d => d.id == row.2.datasetId).filter fun row =>
      row.2.projectId == c.projectId && some row.2.datasetKey == c.dataset && some row.1.1.recordKey == c.caseKey
  (rows.insertionSort fun a b => b.1.2.version ≤ a.1.2.version).map fun row => row.1.1

def areaColumn : Option String := do
  let composed := db.datasets.filter fun d => d.projectId == project && d.keyColumns.isSome
  let first ← (composed.insertionSort fun a b => collation a.datasetKey b.datasetKey).head?
  (← first.keyColumns).head?

structure AreaProgress where
  area : String
  assigned : ℕ
  covered : ℕ

abbrev AreaRow := (CaseRecord × Assignment) × Option DatasetRecord

/-- The rows of `_AREAS_SQL`. -/
def areaRows : List AreaRow :=
  (lateral (join db.cases db.assignments held) fun row => sampleRows db row.1).filter
    fun row => row.1.1.projectId == project

def areaOf (column : String) (row : AreaRow) : String := (row.2.bind fun r => r.text column).getD "(no area)"

def areaProgress (group : String × List AreaRow) : AreaProgress where
  area := group.1
  assigned := group.2.length
  covered := group.2.countP fun row => covered db row.1.1.id

def areasBy (column : String) : List AreaProgress :=
  ((groupBy (areaOf column) (areaRows db project)).map (areaProgress db)).insertionSort fun a b => collation a.area b.area

def areas : Option String × List AreaProgress :=
  match areaColumn collation db project with
  | none => (none, [])
  | some column => (some column, areasBy collation db project column)

end Queries

variable {db : Database} {project : String}

def inProject (db : Database) (project : String) (caseId : String) : Bool :=
  db.cases.any fun c => c.id == caseId && c.projectId == project

/-! ### The overview and the areas -/

theorem inProject_iff {c : CaseRecord} (member : c ∈ db.cases) : inProject db project c.id = (c.projectId == project) := by
  apply Bool.eq_iff_iff.mpr
  constructor
  · intro inside
    obtain ⟨c', member', both⟩ := List.any_eq_true.mp inside
    rw [Bool.and_eq_true, beq_iff_eq] at both
    rw [List.inj_on_of_nodup_map db.caseKey member member' both.1.symm]
    exact both.2
  · intro ofProject
    exact List.any_eq_true.mpr ⟨c, member, by rw [beq_self_eq_true, ofProject]; rfl⟩

theorem countP_progressRows (q : String → Bool) : (progressRows db project).countP (fun row => q row.1.id) =
    db.assignments.countP fun a => (heldByPerson a && q a.caseId) && inProject db project a.caseId := by
  have ofCase : ∀ c ∈ db.cases,
      (db.assignments.countP fun a => (q c.id && c.projectId == project) && held c a) =
        db.assignments.countP fun a =>
          ((heldByPerson a && q a.caseId) && inProject db project a.caseId) && decide (a.caseId = c.id) := by
    intro c member
    apply List.countP_congr
    intro a _
    by_cases same : a.caseId = c.id
    · rw [held, same, inProject_iff member]
      simp only [beq_self_eq_true, Bool.true_and, decide_true, Bool.and_true, Bool.and_eq_true]
      tauto
    · simp [held, same]
  have fibres := sum_countP_fibres (·.caseId)
    (fun a => (heldByPerson a && q a.caseId) && inProject db project a.caseId) db.caseKey db.assignments
  rw [progressRows, List.countP_filter, countP_join, List.map_congr_left ofCase]
  rw [List.map_map] at fibres
  refine fibres.trans (List.countP_congr fun a member => ?_)
  rw [decide_eq_true (db.assigned a member), Bool.and_true]

theorem length_progressRows : (progressRows db project).length =
    db.assignments.countP fun a => heldByPerson a && inProject db project a.caseId := by
  have all := @countP_progressRows db project fun _ => true
  simpa only [Bool.and_true, List.countP_true] using all

theorem areaRows_fst : (areaRows db project).map Prod.fst = progressRows db project := by
  rw [areaRows, lateral, progressRows, List.filter_map, List.map_map]
  exact List.map_id _

theorem countP_areaRows (q : String → Bool) : (areaRows db project).countP (fun row => q row.1.1.id) =
    (progressRows db project).countP fun row => q row.1.id := by
  rw [← areaRows_fst, List.countP_map]
  rfl

def liveOf (db : Database) (user : String) : List Assignment :=
  db.assignments.filter fun a => userId a == some user && a.releasedAt.isNone

def rowsOf (db : Database) (project : String) (u : PlatformUser) : List EnumeratorRow :=
  (leftRows db.assignments (fun u a => userId a == some u.id && a.releasedAt.isNone) u).flatMap
    (leftRows db.cases fun row c => row.2.any fun a => c.id == a.caseId && c.projectId == project)

theorem enumeratorRows_eq : enumeratorRows db project = db.users.flatMap (rowsOf db project) := List.flatMap_assoc

theorem rowsOf_ne_nil (u : PlatformUser) : rowsOf db project u ≠ [] := by
  obtain ⟨first, inFirst⟩ := List.exists_mem_of_ne_nil _
    (leftRows_ne_nil db.assignments (fun u a => userId a == some u.id && a.releasedAt.isNone) u)
  obtain ⟨row, inRow⟩ := List.exists_mem_of_ne_nil _
    (leftRows_ne_nil db.cases (fun row c => row.2.any fun a => c.id == a.caseId && c.projectId == project) first)
  exact List.ne_nil_of_mem (List.mem_flatMap.mpr ⟨first, inFirst, inRow⟩)

theorem fst_of_mem_rowsOf {u : PlatformUser} {row : EnumeratorRow} (member : row ∈ rowsOf db project u) : row.1.1 = u := by
  obtain ⟨first, inFirst, inRow⟩ := List.mem_flatMap.mp member
  rw [(mem_leftRows inRow).1]
  exact (mem_leftRows inFirst).1

theorem caseOf_iff {u : PlatformUser} {caseId : String} :
    (∃ row ∈ rowsOf db project u, caseOf row = some caseId) ↔ caseId ∈ (liveOf db u.id).map (·.caseId) := by
  constructor
  · rintro ⟨row, member, named⟩
    obtain ⟨first, inFirst, inRow⟩ := List.mem_flatMap.mp member
    obtain ⟨a, isSome, rfl⟩ := Option.map_eq_some_iff.mp named
    rw [(mem_leftRows inRow).1] at isSome
    exact List.mem_map.mpr ⟨a, List.mem_filter.mpr ((mem_leftRows inFirst).2 a isSome), rfl⟩
  · intro listed
    obtain ⟨a, live, rfl⟩ := List.mem_map.mp listed
    obtain ⟨member, met⟩ := List.mem_filter.mp live
    obtain ⟨row, inRow⟩ := List.exists_mem_of_ne_nil _
      (leftRows_ne_nil db.cases (fun row c => row.2.any fun a => c.id == a.caseId && c.projectId == project) (u, some a))
    refine ⟨row, List.mem_flatMap.mpr ⟨(u, some a), some_mem_leftRows member met, inRow⟩, ?_⟩
    rw [caseOf, (mem_leftRows inRow).1]
    rfl

theorem liveOf_distinct (user : String) : ((liveOf db user).map (·.caseId)).Nodup := by
  refine db.livePerson.sublist (List.Sublist.map _ (List.monotone_filter_right db.assignments fun a live => ?_))
  simp only [Bool.and_eq_true, beq_iff_eq] at live
  rw [heldByPerson, live.1, live.2]
  rfl

theorem countDistinct_rowsOf (u : PlatformUser) :
    countDistinct caseOf (rowsOf db project u) = (liveOf db u.id).length := by
  rw [countDistinct_eq (liveOf_distinct u.id) fun _ => caseOf_iff, List.length_map]

theorem countDistinct_covered (u : PlatformUser) (q : String → Bool) :
    countDistinct caseOf ((rowsOf db project u).filter fun row => (caseOf row).any q) =
      (liveOf db u.id).countP fun a => q a.caseId := by
  have distinct : (((liveOf db u.id).filter fun a => q a.caseId).map (·.caseId)).Nodup :=
    (liveOf_distinct u.id).sublist (List.filter_sublist.map _)
  rw [countDistinct_eq distinct, List.length_map, List.countP_eq_length_filter]
  intro caseId
  have listed := @caseOf_iff db project u caseId
  constructor
  · rintro ⟨row, member, named⟩
    obtain ⟨member, test⟩ := List.mem_filter.mp member
    obtain ⟨a, live, rfl⟩ := List.mem_map.mp (listed.mp ⟨row, member, named⟩)
    rw [named] at test
    exact List.mem_map.mpr ⟨a, List.mem_filter.mpr ⟨live, test⟩, rfl⟩
  · intro member
    obtain ⟨a, live, rfl⟩ := List.mem_map.mp member
    obtain ⟨live, test⟩ := List.mem_filter.mp live
    obtain ⟨row, inRows, named⟩ := listed.mpr (List.mem_map_of_mem live)
    refine ⟨row, List.mem_filter.mpr ⟨inRows, ?_⟩, named⟩
    rw [named]
    exact test

theorem sum_liveOf (q : String → Bool) : (db.users.map fun u => (liveOf db u.id).countP fun a => q a.caseId).sum =
    db.assignments.countP fun a => heldByPerson a && q a.caseId := by
  have keys : db.users.map (fun u => some u.id) = (db.users.map (·.id)).map some := by
    rw [List.map_map]
    rfl
  have distinct : (db.users.map fun u => some u.id).Nodup := keys ▸ db.userKey.map (Option.some_injective _)
  have fibres := sum_countP_fibres userId (fun a => heldByPerson a && q a.caseId) distinct db.assignments
  have ofPerson : ∀ u ∈ db.users, ((liveOf db u.id).countP fun a => q a.caseId) =
      db.assignments.countP fun a => (heldByPerson a && q a.caseId) && decide (userId a = some u.id) := by
    intro u _
    rw [liveOf, List.countP_filter]
    apply List.countP_congr
    intro a _
    by_cases same : userId a = some u.id
    · rw [heldByPerson, same]
      simp only [beq_self_eq_true, Option.isSome_some, Bool.true_and, Bool.and_true, decide_true, Bool.and_eq_true]
      exact and_comm
    · simp [same]
  rw [List.map_map] at fibres
  rw [List.map_congr_left ofPerson]
  refine fibres.trans (List.countP_congr fun a member => ?_)
  cases named : userId a with
  | none => simp [heldByPerson, named]
  | some id =>
    have known : some id ∈ db.users.map fun u => some u.id := by
      rw [keys]
      exact List.mem_map_of_mem (db.holder a member id named)
    simp only [known, decide_true, Bool.and_true]

section Sums

variable (collation : String → String → Prop) [DecidableRel collation]

theorem groups_eq : groupBy (fun row : EnumeratorRow => (row.1.1.id, row.1.1.displayName)) (enumeratorRows db project) =
    db.users.map fun u => ((u.id, u.displayName), rowsOf db project u) := by
  have distinct : (db.users.map fun u => (u.id, u.displayName)).Nodup := by
    apply List.Nodup.of_map Prod.fst
    rw [List.map_map]
    exact db.userKey
  rw [enumeratorRows_eq]
  refine groupBy_flatMap distinct (fun u _ => rowsOf_ne_nil u) fun u _ row member => ?_
  rw [fst_of_mem_rowsOf member]

def progressOf (db : Database) (project : String) (u : PlatformUser) : EnumeratorProgress :=
  enumeratorProgress db project ((u.id, u.displayName), rowsOf db project u)

theorem progressOf_assigned (u : PlatformUser) : (progressOf db project u).assigned = (liveOf db u.id).length :=
  countDistinct_rowsOf u

theorem progressOf_covered (u : PlatformUser) :
    (progressOf db project u).covered = (liveOf db u.id).countP fun a => covered db a.caseId :=
  countDistinct_covered u (covered db)

theorem sum_enumerators {column : EnumeratorProgress → ℕ}
    (zero : ∀ u, (progressOf db project u).assigned = 0 → column (progressOf db project u) = 0) :
    ((enumerators collation db project).map column).sum = (db.users.map fun u => column (progressOf db project u)).sum := by
  have perm := List.perm_insertionSort (fun a b : EnumeratorProgress => collation a.displayName b.displayName)
    ((db.users.map (progressOf db project)).filter (listed db project))
  have rows : (groupBy (fun row : EnumeratorRow => (row.1.1.id, row.1.1.displayName)) (enumeratorRows db project)).map
      (enumeratorProgress db project) = db.users.map (progressOf db project) := by
    rw [groups_eq, List.map_map]
    rfl
  rw [enumerators, rows, (perm.map column).sum_eq, sum_map_filter, List.map_map]
  · rfl
  · intro row member dropped
    obtain ⟨u, -, rfl⟩ := List.mem_map.mp member
    apply zero
    rw [listed, Bool.or_eq_false_iff, decide_eq_false_iff_not] at dropped
    omega

theorem sum_assigned :
    ((enumerators collation db project).map (·.assigned)).sum = db.assignments.countP heldByPerson := by
  have total := @sum_liveOf db fun _ => true
  simp only [Bool.and_true, List.countP_true] at total
  rw [sum_enumerators collation fun _ => id, ← total]
  simp only [progressOf_assigned]

theorem sum_covered : ((enumerators collation db project).map (·.covered)).sum =
    db.assignments.countP fun a => heldByPerson a && covered db a.caseId := by
  have zero : ∀ u, (progressOf db project u).assigned = 0 → (progressOf db project u).covered = 0 := by
    intro u none
    rw [progressOf_assigned, List.length_eq_zero_iff] at none
    rw [progressOf_covered, none, List.countP_nil]
  rw [sum_enumerators collation zero, ← sum_liveOf]
  simp only [progressOf_covered]

theorem sum_areas (column : String) :
    ((areasBy collation db project column).map (·.assigned)).sum = (overview db project).casesAssigned ∧
      ((areasBy collation db project column).map (·.covered)).sum = (overview db project).casesCovered := by
  have perm := List.perm_insertionSort (fun a b : AreaProgress => collation a.area b.area)
    ((groupBy (areaOf column) (areaRows db project)).map (areaProgress db))
  constructor
  · have total := sum_countP_groupBy (areaOf column) (fun _ => true) (areaRows db project)
    simp only [List.countP_true] at total
    rw [areasBy, (perm.map (·.assigned)).sum_eq, List.map_map]
    refine total.trans ?_
    rw [← List.length_map, areaRows_fst]
    rfl
  · have total := sum_countP_groupBy (areaOf column) (fun row => covered db row.1.1.id) (areaRows db project)
    rw [areasBy, (perm.map (·.covered)).sum_eq, List.map_map]
    exact total.trans (countP_areaRows (covered db))

/-- The two sums of a panel are the overview's two figures, in the panel of the persons and in the one of the areas. -/
def PanelsAgree (db : Database) (project : String) : Prop :=
  ((enumerators collation db project).map (·.assigned)).sum = (overview db project).casesAssigned ∧
    ((areas collation db project).2.map (·.assigned)).sum = (overview db project).casesAssigned ∧
    ((enumerators collation db project).map (·.covered)).sum = (overview db project).casesCovered ∧
    ((areas collation db project).2.map (·.covered)).sum = (overview db project).casesCovered

/-- The panels agree exactly when no person holds a case of another project. -/
theorem panels_agree_iff {column : String} (byArea : areaColumn collation db project = some column) :
    PanelsAgree collation db project ↔
      ∀ a ∈ db.assignments, heldByPerson a = true → inProject db project a.caseId = true := by
  obtain ⟨areasAssigned, areasCovered⟩ := @sum_areas db project collation _ column
  have shown : (areas collation db project).2 = areasBy collation db project column := by
    rw [areas, byArea]
  have assigned : (overview db project).casesAssigned =
      db.assignments.countP fun a => heldByPerson a && inProject db project a.caseId := length_progressRows
  have isCovered : (overview db project).casesCovered =
      db.assignments.countP fun a => (heldByPerson a && covered db a.caseId) && inProject db project a.caseId :=
    countP_progressRows (covered db)
  rw [PanelsAgree, shown, areasAssigned, areasCovered, sum_assigned, sum_covered, assigned, isCovered,
    countP_eq_countP_and_iff, countP_eq_countP_and_iff]
  constructor
  · exact fun agree => agree.1
  · intro inside
    refine ⟨inside, rfl, fun a member both => inside a member ?_, rfl⟩
    exact (Bool.and_eq_true _ _ ▸ both).1

end Sums

def twoProjects (both : Bool) : Database where
  users := [{ id := "U", displayName := "Amina" }]
  cases := [{ id := "C1", projectId := "P" }, { id := "C2", projectId := "Q" }]
  assignments := { caseId := "C1", holder := .person "U" } ::
    if both then [{ caseId := "C2", holder := .person "U" }] else []
  datasets := [{ id := "D", projectId := "P", datasetKey := "sample", keyColumns := some ["settlement"] }]
  userKey := by decide
  caseKey := by decide
  assigned := by cases both <;> decide
  holder a member id named := by
    have person : userId a = some "U" := by
      cases both <;> simp at member
      · rw [member]
        rfl
      · rcases member with rfl | rfl <;> rfl
    rw [person] at named
    rw [← Option.some.inj named]
    exact List.mem_cons_self
  livePerson := by cases both <;> decide

theorem one_project_agrees : areaColumn (· ≤ ·) (twoProjects false) "P" = some "settlement" ∧
    PanelsAgree (· ≤ ·) (twoProjects false) "P" :=
  ⟨rfl, (panels_agree_iff (· ≤ ·) rfl).mpr (by decide)⟩

/-- What a person holds in another project is counted in this one. -/
theorem other_project_counted : areaColumn (· ≤ ·) (twoProjects true) "P" = some "settlement" ∧
    ((enumerators (· ≤ ·) (twoProjects true) "P").map (·.assigned)).sum = 2 ∧
    (overview (twoProjects true) "P").casesAssigned = 1 ∧
    ¬ PanelsAgree (· ≤ ·) (twoProjects true) "P" := by
  have persons : ((enumerators (· ≤ ·) (twoProjects true) "P").map (·.assigned)).sum = 2 := rfl
  have total : (overview (twoProjects true) "P").casesAssigned = 1 := rfl
  refine ⟨rfl, persons, total, fun agree => ?_⟩
  have same := agree.1
  rw [persons, total] at same
  exact absurd same (by decide)

end DataCollectionLab.Monitoring
