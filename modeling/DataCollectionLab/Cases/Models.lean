import DataCollectionLab.Lib.Except
import DataCollectionLab.Lib.Lists
import DataCollectionLab.People.Service

/-!
Cases and who holds them, under the policies of migrations 012 and 014. A case is held at two levels, by a team and by a
person; a release is a timestamp.
-/

namespace DataCollectionLab.Cases

open People (Principal Permission)

inductive CaseStatus where
  | open
  | closed
  | withdrawn
  deriving DecidableEq

/-- `case_record`. One made from a sample row names its sample; one without has no key. -/
structure CaseRecord where
  id : String
  projectId : String
  sample : Option (String × String) := none
  status : CaseStatus := .open
  closedAt : Option ℕ := none
  deriving DecidableEq

namespace CaseRecord

def dataset (c : CaseRecord) : Option String := c.sample.map Prod.fst

def caseKey (c : CaseRecord) : Option String := c.sample.map Prod.snd

end CaseRecord

/-- What `assignment` names: a team or a person, never both. -/
inductive Holder where
  | team (id : String)
  | person (id : String)
  deriving DecidableEq

structure Assignment where
  caseId : String
  holder : Holder
  assignedBy : Option String := none
  releasedAt : Option ℕ := none
  deriving DecidableEq

structure Tombstone where
  projectId : String
  subjectId : String
  deriving DecidableEq

structure Db where
  people : People.Db
  cases : List CaseRecord := []
  assignments : List Assignment := []
  tombstones : List Tombstone := []

inductive Level where
  | team
  | person
  deriving DecidableEq

def Holder.level : Holder → Level
  | .team _ => .team
  | .person _ => .person

namespace Db

variable (db : Db)

def live (caseId : String) (level : Level) : List Assignment :=
  db.assignments.filter fun a => a.caseId == caseId && a.releasedAt.isNone && a.holder.level == level

def inTeam (person team : String) : Bool :=
  db.people.members.any fun m => m.teamId == some team && m.userId == person && m.status == .active

end Db

section Policies

variable (p : Principal) (db : Db)

/-- `dcp_membership_active` -/
def membershipActive (person : String) : Bool :=
  db.people.memberships.any fun m => m.userId == person && m.status == .active && m.organizationId == p.orgId

def holderInScope : Holder → Bool
  | .person user => user == p.userId || (p.has .sampleAssign && p.sees user)
  | .team team => p.has .sampleAssign && p.inTeams (some team)

/-- `dcp_case_in_scope` -/
def caseInScope (caseId : String) : Bool :=
  p.orgWide || db.cases.any (fun c => c.id == caseId && p.inProjects (some c.projectId)) ||
    db.assignments.any fun a => a.caseId == caseId && a.releasedAt.isNone && holderInScope p a.holder

/-- `dcp_person_under_live_team`, as 014 leaves it. -/
def personUnderLiveTeam (caseId person : String) : Bool :=
  membershipActive p db person && (db.live caseId .team).any fun a =>
    match a.holder with
    | .team team => db.inTeam person team
    | .person _ => false

/-- WITH CHECK of `assignment`. -/
def writesAssignment (row : Assignment) : Bool :=
  p.has .sampleAssign && caseInScope p db row.caseId &&
    match row.holder with
    | .team team => p.orgWide || (p.getTeam db.people team).any fun t => p.inProjects (some t.projectId)
    | .person user => (p.orgWide || p.sees user) && personUnderLiveTeam p db row.caseId user

end Policies

/-- `CaseFailure`, and the constraints of the tables. -/
inductive Refusal where
  | outsideYourAuthority
  | badRequest
  | badKeyRow
  | integrityError
  deriving DecidableEq

section Assign

variable (p : Principal) (now : ℕ) (db : Db)

def released (caseId : String) (level : Level) (a : Assignment) : Assignment :=
  if a.caseId == caseId && a.releasedAt.isNone && a.holder.level == level && caseInScope p db a.caseId then
    { a with releasedAt := some now }
  else a

/-- UPDATE assignment SET released_at = now(), of what USING shows. A released row is held to the check as well. -/
def release (caseId : String) (level : Level) : Except Refusal Db :=
  if caseInScope p db caseId && !(db.live caseId level).all (fun a => writesAssignment p db a) then
    .error .outsideYourAuthority
  else .ok { db with assignments := db.assignments.map (released p now db caseId level) }

def insertAssignment (row : Assignment) : Except Refusal Db :=
  if !writesAssignment p db row then .error .outsideYourAuthority
  else if !(db.live row.caseId row.holder.level).isEmpty || !db.cases.any (·.id == row.caseId) then
    .error .integrityError
  else
    match row.holder with
    | .team team =>
      if db.people.teams.any (·.id == team) then .ok { db with assignments := db.assignments ++ [row] }
      else .error .integrityError
    | .person _ => .ok { db with assignments := db.assignments ++ [row] }

/-- `dcp_assign_case`: a team takes the person's hold with it. -/
def assignCase (caseId : String) : Holder → Except Refusal Db
  | .team team => do
    let db ← release p now db caseId .person
    let db ← release p now db caseId .team
    insertAssignment p db { caseId, holder := .team team, assignedBy := p.me }
  | .person person => do
    let db ← release p now db caseId .person
    insertAssignment p db { caseId, holder := .person person, assignedBy := p.me }

end Assign

/-! ### What a release and an insert leave -/

variable {p : Principal} {now : ℕ} {db db' : Db}

theorem mem_live {caseId : String} {level : Level} {a : Assignment} :
    a ∈ db.live caseId level ↔
      a ∈ db.assignments ∧ a.caseId = caseId ∧ a.releasedAt = none ∧ a.holder.level = level := by
  unfold Db.live
  simp only [List.mem_filter, Bool.and_eq_true, beq_iff_eq, Option.isNone_iff_eq_none, and_assoc]

theorem release_people {caseId : String} {level : Level} (done : release p now db caseId level = .ok db') :
    db'.people = db.people ∧ db'.cases = db.cases := by
  unfold release at done
  split at done
  · cases done
  obtain rfl := Except.ok.inj done
  exact ⟨rfl, rfl⟩

theorem live_release {caseId : String} {level : Level} (done : release p now db caseId level = .ok db')
    (caseId' : String) (level' : Level) : db'.live caseId' level' =
      if caseId' = caseId ∧ level' = level ∧ caseInScope p db caseId = true then [] else db.live caseId' level' := by
  unfold release at done
  split at done
  · cases done
  obtain rfl := Except.ok.inj done
  split
  · rename_i own
    obtain ⟨rfl, rfl, inside⟩ := own
    refine List.filter_eq_nil_iff.mpr fun a member => ?_
    obtain ⟨before, -, rfl⟩ := List.mem_map.mp member
    unfold released
    split
    · simp
    · rename_i other
      intro live
      refine other ?_
      simp only [Bool.and_eq_true, beq_iff_eq] at live ⊢
      exact ⟨live, by rw [live.1.1]; exact inside⟩
  · rename_i other
    refine Lib.filter_map_of_fixed (fun a => ?_) (fun a live => ?_) db.assignments
    · unfold released
      split
      · rename_i hit
        simp only [Bool.and_eq_true, beq_iff_eq] at hit
        obtain ⟨⟨⟨rfl, live⟩, rfl⟩, inside⟩ := hit
        by_cases same : a.caseId = caseId' ∧ a.holder.level = level'
        · exact absurd ⟨same.1.symm, same.2.symm, inside⟩ other
        · simp only [not_and_or] at same
          rcases same with apart | apart <;> simp [apart]
      · rfl
    · unfold released
      rw [if_neg]
      intro hit
      simp only [Bool.and_eq_true, beq_iff_eq] at hit live
      obtain ⟨⟨⟨rfl, -⟩, rfl⟩, inside⟩ := hit
      exact other ⟨live.1.1.symm, live.2.symm, inside⟩

theorem release_outside {caseId : String} {level : Level} (outside : caseInScope p db caseId = false) :
    release p now db caseId level = .ok db := by
  have same : db.assignments.map (released p now db caseId level) = db.assignments := by
    refine (List.map_congr_left fun a _ => ?_).trans (List.map_id _)
    unfold released
    rw [if_neg, id]
    intro hit
    simp only [Bool.and_eq_true, beq_iff_eq] at hit
    obtain ⟨⟨⟨rfl, -⟩, -⟩, inside⟩ := hit
    rw [outside] at inside
    cases inside
  unfold release
  rw [outside, Bool.false_and, if_neg Bool.false_ne_true, same]

theorem insertAssignment_ok {row : Assignment} (done : insertAssignment p db row = .ok db') :
    writesAssignment p db row = true ∧ db.live row.caseId row.holder.level = [] ∧
      db' = { db with assignments := db.assignments ++ [row] } := by
  unfold insertAssignment at done
  split at done
  · cases done
  rename_i writes
  split at done
  · cases done
  rename_i free
  simp only [Bool.or_eq_true, Bool.not_eq_true', not_or, Bool.not_eq_false, List.isEmpty_iff] at free
  refine ⟨by simpa using writes, free.1, ?_⟩
  split at done
  · split at done
    · exact (Except.ok.inj done).symm
    · cases done
  · exact (Except.ok.inj done).symm

theorem live_append {row : Assignment} (open' : row.releasedAt = none) (caseId : String) (level : Level) :
    ({ db with assignments := db.assignments ++ [row] } : Db).live caseId level =
      db.live caseId level ++ if row.caseId = caseId ∧ row.holder.level = level then [row] else [] := by
  unfold Db.live
  rw [List.filter_append, List.filter_singleton, open']
  simp

theorem caseInScope_of_writes {row : Assignment} (writes : writesAssignment p db row = true) :
    caseInScope p db row.caseId = true := by
  unfold writesAssignment at writes
  simp only [Bool.and_eq_true] at writes
  exact writes.1.2

theorem personUnderLiveTeam_congr {caseId : String} (people : db'.people = db.people)
    (live : db'.live caseId .team = db.live caseId .team) (person : String) :
    personUnderLiveTeam p db' caseId person = personUnderLiveTeam p db caseId person := by
  unfold personUnderLiveTeam membershipActive Db.inTeam
  rw [people, live]

theorem under_of_writes {row : Assignment} {person : String} (writes : writesAssignment p db row = true)
    (holds : row.holder = .person person) : personUnderLiveTeam p db row.caseId person = true := by
  unfold writesAssignment at writes
  rw [holds] at writes
  simp only [Bool.and_eq_true] at writes
  exact writes.2.2

/-- Everything an assignment does: the case was in scope, its live rows at the level are the new one, and a team has
taken the person's hold. A person stands under the team that is there. -/
theorem assignCase_ok {caseId : String} {holder : Holder} (done : assignCase p now db caseId holder = .ok db') :
    caseInScope p db caseId = true ∧ db'.people = db.people ∧ db'.cases = db.cases ∧
      (∀ other level, db'.live other level =
        if other = caseId then
          if level = holder.level then [{ caseId, holder, assignedBy := p.me }]
          else if holder.level = .team then [] else db.live other level
        else db.live other level) ∧
      ∀ person, holder = .person person → personUnderLiveTeam p db caseId person = true := by
  cases holder with
  | team team =>
    obtain ⟨one, first, rest⟩ := Lib.bind_ok_iff.mp done
    obtain ⟨two, second, third⟩ := Lib.bind_ok_iff.mp rest
    obtain ⟨writes, free, rfl⟩ := insertAssignment_ok third
    have inside : caseInScope p db caseId = true := by
      by_contra outside
      rw [Bool.not_eq_true] at outside
      obtain rfl := Except.ok.inj ((release_outside outside).symm.trans first)
      obtain rfl := Except.ok.inj ((release_outside outside).symm.trans second)
      exact Bool.false_ne_true (outside.symm.trans (caseInScope_of_writes writes))
    refine ⟨inside, (release_people second).1.trans (release_people first).1,
      (release_people second).2.trans (release_people first).2, fun other level => ?_, fun person holds => by cases holds⟩
    rw [live_append rfl, live_release second, live_release first]
    by_cases same : other = caseId
    · subst same
      cases level with
      | team =>
        have none : two.live other .team = [] := free
        rw [live_release second, live_release first] at none
        rw [none]
        simp [Holder.level]
      | person => simp [Holder.level, inside]
    · simp [same, Ne.symm same]
  | person person =>
    obtain ⟨one, first, second⟩ := Lib.bind_ok_iff.mp done
    obtain ⟨writes, free, rfl⟩ := insertAssignment_ok second
    have inside : caseInScope p db caseId = true := by
      by_contra outside
      rw [Bool.not_eq_true] at outside
      obtain rfl := Except.ok.inj ((release_outside outside).symm.trans first)
      exact Bool.false_ne_true (outside.symm.trans (caseInScope_of_writes writes))
    have team : one.live caseId .team = db.live caseId .team := by
      rw [live_release first, if_neg (by simp)]
    refine ⟨inside, (release_people first).1, (release_people first).2, fun other level => ?_, fun person' holds => ?_⟩
    · rw [live_append rfl, live_release first]
      by_cases same : other = caseId
      · subst same
        cases level with
        | team => simp [Holder.level]
        | person => simp [Holder.level, inside]
      · simp [same, Ne.symm same]
    · rw [← personUnderLiveTeam_congr (release_people first).1 team]
      exact under_of_writes writes holds

end DataCollectionLab.Cases
