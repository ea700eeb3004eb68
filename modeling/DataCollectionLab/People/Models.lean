import DataCollectionLab.Lib.Closure

/-!
People, their teams, roles and grants, and the policies of migrations 010 and 011 over them. A session's principal is
flat: what its person may do, and where, each gathered over all their grants.
-/

namespace DataCollectionLab.People

open Lib

inductive Permission where
  | userCreate | userApprove | userDeactivate | userAssignRole
  | teamManage
  | sampleUpload | sampleAssign
  | formEdit | formPublish | formDeploy
  | submissionView | submissionReview
  | exportDownload
  | deviceRevoke
  | projectManage
  deriving DecidableEq

inductive ScopeKind where
  | organization
  | project
  | team
  deriving DecidableEq

structure Project where
  id : String
  organizationId : String

structure Team where
  id : String
  projectId : String
  parentTeamId : Option String := none

structure PlatformUser where
  id : String
  organizationId : String
  username : String
  createdBy : Option String := none

inductive MembershipStatus where
  | active
  | pendingApproval
  | deactivated
  deriving DecidableEq

structure OrgMembership where
  organizationId : String
  userId : String
  status : MembershipStatus
  approvedBy : Option String := none
  approvedAt : Option ℕ := none
  deactivatedAt : Option ℕ := none

structure Role where
  id : String
  organizationId : String
  name : String
  scopeKind : ScopeKind
  builtin : Bool := false

structure RolePermission where
  roleId : String
  permission : Permission
  deriving DecidableEq

structure UserRole where
  id : String
  userId : String
  roleId : String
  scopeKind : ScopeKind
  projectId : Option String := none
  teamId : Option String := none
  grantedBy : Option String := none
  revokedAt : Option ℕ := none

inductive MemberStatus where
  | active
  | removed
  deriving DecidableEq

structure ProjectMember where
  projectId : String
  userId : String
  teamId : Option String
  status : MemberStatus := .active

structure Db where
  projects : List Project := []
  teams : List Team := []
  users : List PlatformUser := []
  memberships : List OrgMembership := []
  roles : List Role := []
  rolePermissions : List RolePermission := []
  userRoles : List UserRole := []
  members : List ProjectMember := []
  granted : ∀ grant ∈ userRoles, ∃ role ∈ roles, role.id = grant.roleId := by simp

structure Principal where
  orgId : String
  userId : String
  scopeKind : Option ScopeKind
  visibleUserIds : Finset String
  projectIds : Finset String
  teamIds : Finset String
  permissions : Finset Permission

/-! ### The principal of a person -/

section PrincipalFor

def childTeams (teams : List Team) (ids : Finset String) : Finset String :=
  ((teams.filter fun team => team.parentTeamId.any (· ∈ ids)).map (·.id)).toFinset

def subTeams (teams : List Team) (ids : Finset String) : Finset String :=
  rounds (childTeams teams) teams.length ids

variable (db : Db) (person : String)

def Db.grants : List UserRole := db.userRoles.filter fun grant => grant.userId == person && grant.revokedAt.isNone

def Db.permissionsOf (roleId : String) : Finset Permission :=
  ((db.rolePermissions.filter (·.roleId == roleId)).map (·.permission)).toFinset

def held (grants : List UserRole) : Finset Permission :=
  ((db.rolePermissions.filter fun rp => grants.any (·.roleId == rp.roleId)).map (·.permission)).toFinset

def widestScope (grants : List UserRole) : Option ScopeKind :=
  if grants.any (·.scopeKind == .organization) then some .organization
  else if grants.any (·.scopeKind == .project) then some .project
  else if grants.any (·.scopeKind == .team) then some .team
  else none

def grantedProjects (grants : List UserRole) : Finset String :=
  ((grants.filter (·.scopeKind == .project)).filterMap (·.projectId)).toFinset

def grantedTeams (grants : List UserRole) : Finset String := (grants.filterMap (·.teamId)).toFinset

def visibleMembers (permissions : Finset Permission) (projectIds teamIds : Finset String) : Finset String :=
  if .submissionView ∈ permissions then
    ((db.members.filter fun member => member.status == .active &&
      (decide (member.projectId ∈ projectIds) || member.teamId.any (· ∈ teamIds))).map (·.userId)).toFinset
  else ∅

/-- `dcp_principal_for`, on a connection of the organisation. -/
def Db.principalFor (orgId : String) : Principal :=
  let grants := db.grants person
  let permissions := held db grants
  let projectIds := grantedProjects grants
  let teamIds := subTeams db.teams (grantedTeams grants)
  { orgId
    userId := person
    scopeKind := widestScope grants
    visibleUserIds := {person} ∪ visibleMembers db permissions projectIds teamIds
    projectIds, teamIds, permissions }

end PrincipalFor

namespace Principal

variable (p : Principal) (db : Db)

def has (permission : Permission) : Bool := decide (permission ∈ p.permissions)

/-- `dcp_org_wide`. -/
def orgWide : Bool := p.scopeKind == some .organization

def inProjects (projectId : Option String) : Bool := projectId.any (· ∈ p.projectIds)

def inTeams (teamId : Option String) : Bool := teamId.any (· ∈ p.teamIds)

def sees (userId : String) : Bool := decide (userId ∈ p.visibleUserIds)

def me : Option String := if p.userId = "" then none else some p.userId

def seesProject (projectId : String) : Bool :=
  db.projects.any fun project => project.id == projectId && project.organizationId == p.orgId

def getTeam (teamId : String) : Option Team :=
  db.teams.find? fun team => team.id == teamId && p.seesProject db team.projectId

/-- USING of `platform_user`. -/
def seesUser (user : PlatformUser) : Bool :=
  user.organizationId == p.orgId &&
    (p.orgWide || p.sees user.id || user.createdBy == some p.userId || user.id == p.userId)

/-- WITH CHECK of `platform_user`. -/
def writesUser (user : PlatformUser) : Bool :=
  user.organizationId == p.orgId &&
    (p.orgWide || p.sees user.id || user.id == p.userId ||
      (user.createdBy == some p.userId && p.has .userCreate))

def seesUserId (userId : String) : Bool := db.users.any fun user => user.id == userId && p.seesUser user

def seesMembership (m : OrgMembership) : Bool := m.organizationId == p.orgId && p.seesUserId db m.userId

def writesMembership (m : OrgMembership) : Bool :=
  p.seesMembership db m &&
    match m.status with
    | .pendingApproval => p.has .userCreate
    | .active => p.has .userApprove
    | .deactivated => p.has .userDeactivate

def getRole (roleId : String) : Option Role :=
  db.roles.find? fun role => role.id == roleId && role.organizationId == p.orgId

def writesRole (role : Role) : Bool :=
  role.organizationId == p.orgId && p.has .userAssignRole && !role.builtin

/-- The check of `role_permission`, and what its DELETE policies ask for as well. -/
def writesRolePermission (rp : RolePermission) : Bool :=
  (p.getRole db rp.roleId).any (fun role => !role.builtin) && p.has .userAssignRole && p.has rp.permission

def seesUserRole (grant : UserRole) : Bool := (p.getRole db grant.roleId).isSome && p.seesUserId db grant.userId

def inScope (grant : UserRole) : Bool :=
  match grant.scopeKind with
  | .organization => p.orgWide
  | .project => p.orgWide || p.inProjects grant.projectId
  | .team => p.orgWide || p.inTeams grant.teamId ||
      grant.teamId.any fun teamId => (p.getTeam db teamId).any fun team => p.inProjects (some team.projectId)

def writesUserRole (grant : UserRole) : Bool :=
  p.seesUserRole db grant && p.has .userAssignRole &&
    decide (db.permissionsOf grant.roleId ⊆ p.permissions) && p.inScope db grant

def seesMember (member : ProjectMember) : Bool := p.seesProject db member.projectId && p.seesUserId db member.userId

def writesMember (member : ProjectMember) : Bool :=
  p.seesMember db member && (p.orgWide || p.inProjects (some member.projectId) || p.inTeams member.teamId)

end Principal

theorem mem_childTeams {teams : List Team} {ids : Finset String} {id : String} :
    id ∈ childTeams teams ids ↔ ∃ parent ∈ ids, ∃ team ∈ teams, team.id = id ∧ team.parentTeamId = some parent := by
  unfold childTeams
  rw [List.mem_toFinset, List.mem_map]
  constructor
  · rintro ⟨team, member, rfl⟩
    obtain ⟨present, under⟩ := List.mem_filter.mp member
    obtain ⟨parent, same, there⟩ := (Option.any_eq_true _ _).mp under
    exact ⟨parent, of_decide_eq_true there, team, present, rfl, same⟩
  · rintro ⟨parent, there, team, present, rfl, same⟩
    refine ⟨team, List.mem_filter.mpr ⟨present, ?_⟩, rfl⟩
    rw [same, Option.any_some]
    exact decide_eq_true there

theorem childTeams_union (teams : List Team) (ids more : Finset String) :
    childTeams teams (ids ∪ more) = childTeams teams ids ∪ childTeams teams more := by
  ext id
  rw [Finset.mem_union, mem_childTeams, mem_childTeams, mem_childTeams]
  constructor
  · rintro ⟨parent, there, rest⟩
    exact (Finset.mem_union.mp there).imp (fun one => ⟨parent, one, rest⟩) fun two => ⟨parent, two, rest⟩
  · rintro (⟨parent, there, rest⟩ | ⟨parent, there, rest⟩)
    · exact ⟨parent, Finset.mem_union_left _ there, rest⟩
    · exact ⟨parent, Finset.mem_union_right _ there, rest⟩

theorem subTeams_union (teams : List Team) (ids more : Finset String) :
    subTeams teams (ids ∪ more) = subTeams teams ids ∪ subTeams teams more :=
  rounds_union (childTeams_union teams) teams.length ids more

theorem mem_subTeams {teams : List Team} {ids : Finset String} {id : String} :
    id ∈ subTeams teams ids ↔ ∃ top ∈ ids,
      Relation.ReflTransGen (fun parent id => ∃ team ∈ teams, team.id = id ∧ team.parentTeamId = some parent) top id := by
  have within : ∀ s, childTeams teams s ⊆ (teams.map (·.id)).toFinset := by
    intro s id member
    obtain ⟨-, -, team, present, rfl, -⟩ := mem_childTeams.mp member
    exact List.mem_toFinset.mpr (List.mem_map_of_mem present)
  have enough : (teams.map (·.id)).toFinset.card ≤ teams.length :=
    (List.toFinset_card_le _).trans_eq (List.length_map _)
  exact mem_rounds_iff (fun _ _ => mem_childTeams) within enough

end DataCollectionLab.People
