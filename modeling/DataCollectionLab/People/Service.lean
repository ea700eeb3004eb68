import DataCollectionLab.Lib.Except
import DataCollectionLab.People.Models

/-!
What the people service does to the tables, each call in one transaction under its person's principal. A refusal, the
database's or the service's own, leaves them as they were.
-/

namespace DataCollectionLab.People

/-- `PeopleFailure`, and the constraint violations that reach no answer of their own. -/
inductive Refusal where
  | outsideYourAuthority
  | notFound
  | alreadyExists
  | integrityError
  deriving DecidableEq

structure GrantRequest where
  roleId : String
  projectId : Option String := none
  teamId : Option String := none

structure CreatePersonRequest extends GrantRequest where
  username : String

structure CreateRoleRequest where
  name : String
  scopeKind : ScopeKind
  permissions : List Permission := []

def grantRow (id userId : String) (role : Role) (projectId teamId grantedBy : Option String) : UserRole where
  id := id
  userId := userId
  roleId := role.id
  scopeKind := role.scopeKind
  projectId := if role.scopeKind = .project then projectId else none
  teamId := if role.scopeKind = .team then teamId else none
  grantedBy := grantedBy

namespace UserRole

/-- `user_role_scope_target_check` and the two foreign keys. -/
def targeted (db : Db) (grant : UserRole) : Bool :=
  (match grant.scopeKind with
    | .organization => grant.projectId.isNone && grant.teamId.isNone
    | .project => grant.projectId.isSome && grant.teamId.isNone
    | .team => grant.teamId.isSome) &&
  grant.projectId.all (fun id => db.projects.any (·.id == id)) && grant.teamId.all fun id => db.teams.any (·.id == id)

/-- `user_role_live_idx` has the grant already. -/
def held (db : Db) (grant : UserRole) : Bool :=
  db.userRoles.any fun other => other.revokedAt.isNone && other.userId == grant.userId &&
    other.roleId == grant.roleId && other.scopeKind == grant.scopeKind && other.projectId == grant.projectId &&
    other.teamId == grant.teamId

end UserRole

section Statements

variable (p : Principal) (db : Db)

theorem Principal.getRole_id {p : Principal} {db : Db} {roleId : String} (seen : (p.getRole db roleId).isSome = true) :
    ∃ role ∈ db.roles, role.id = roleId := by
  obtain ⟨role, found⟩ := Option.isSome_iff_exists.mp seen
  have test := List.find?_some found
  rw [Bool.and_eq_true, beq_iff_eq] at test
  exact ⟨role, List.mem_of_find?_eq_some found, test.1⟩

theorem Principal.role_of_writes {p : Principal} {db : Db} {grant : UserRole} (writes : p.writesUserRole db grant = true) :
    ∃ role ∈ db.roles, role.id = grant.roleId := by
  unfold writesUserRole seesUserRole at writes
  simp only [Bool.and_eq_true] at writes
  exact getRole_id writes.1.1.1.1

def insertUserRole (grant : UserRole) : Except Refusal Db :=
  if writes : p.writesUserRole db grant = true then
    if !grant.targeted db || grant.held db || db.userRoles.any (·.id == grant.id) then .error .integrityError
    else .ok { db with
      userRoles := db.userRoles ++ [grant]
      granted := by
        intro g member
        rcases List.mem_append.mp member with old | new
        · exact db.granted g old
        · rw [List.mem_singleton.mp new]
          exact p.role_of_writes writes }
  else .error .outsideYourAuthority

def insertMember (member : ProjectMember) : Except Refusal Db :=
  if !p.writesMember db member then .error .outsideYourAuthority
  else if db.members.any fun m => m.projectId == member.projectId && m.userId == member.userId then
    .error .integrityError
  else .ok { db with members := db.members ++ [member] }

def getPerson (userId : String) : Except Refusal Db :=
  if db.memberships.any (fun m => m.userId == userId && p.seesMembership db m) then .ok db else .error .notFound

def insertRolePermission (rp : RolePermission) : Except Refusal Db :=
  if !p.writesRolePermission db rp then .error .outsideYourAuthority
  else .ok { db with rolePermissions := db.rolePermissions ++ [rp] }

def deleteRolePermission (rp : RolePermission) : Except Refusal Db :=
  if !p.writesRolePermission db rp then .error .outsideYourAuthority
  else .ok { db with rolePermissions := db.rolePermissions.filter (· ≠ rp) }

/-- UPDATE of the memberships that are shown and meet `due`, none of which may be refused. -/
def updateMembership (due : OrgMembership → Bool) (becomes : OrgMembership → OrgMembership) : Except Refusal Db :=
  let hit := fun m => due m && p.seesMembership db m
  if (db.memberships.filter hit).isEmpty then .error .notFound
  else if !(db.memberships.filter hit).all fun m => p.writesMembership db (becomes m) then .error .outsideYourAuthority
  else .ok { db with memberships := db.memberships.map fun m => if hit m then becomes m else m }

/-- UPDATE project_member, of the rows that are shown and meet `due`. -/
def updateMember (due : ProjectMember → Bool) (becomes : ProjectMember → ProjectMember) : Except Refusal Db :=
  let hit := fun m => due m && p.seesMember db m
  if (db.members.filter hit).isEmpty then .error .notFound
  else if !(db.members.filter hit).all fun m => p.writesMember db (becomes m) then .error .outsideYourAuthority
  else .ok { db with members := db.members.map fun m => if hit m then becomes m else m }

end Statements

section Service

variable (p : Principal) (db : Db)

/-- `grant` -/
def giveGrant (userId : String) (request : GrantRequest) (newId : String) : Except Refusal Db :=
  match p.getRole db request.roleId with
  | none => .error .notFound
  | some role => do
    let db ← insertUserRole p db (grantRow newId userId role request.projectId request.teamId p.me)
    getPerson p db userId

def revoke (userId grantId : String) (now : ℕ) : Except Refusal Db :=
  let hit := fun grant : UserRole => grant.id == grantId && grant.userId == userId && grant.revokedAt.isNone &&
    p.seesUserRole db grant
  let revoked := fun grant : UserRole => { grant with revokedAt := some now }
  if (db.userRoles.filter hit).isEmpty then .error .notFound
  else if !(db.userRoles.filter hit).all fun grant => p.writesUserRole db (revoked grant) then
    .error .outsideYourAuthority
  else getPerson p { db with
    userRoles := db.userRoles.map fun grant => if hit grant then revoked grant else grant
    granted := by
      intro grant member
      obtain ⟨before, old, rfl⟩ := List.mem_map.mp member
      obtain ⟨role, there, same⟩ := db.granted before old
      refine ⟨role, there, ?_⟩
      split <;> exact same } userId

def createRole (request : CreateRoleRequest) (newId : String) : Except Refusal Db := do
  let role : Role := ⟨newId, p.orgId, request.name, request.scopeKind, false⟩
  if !p.writesRole role then throw .outsideYourAuthority
  else if db.roles.any fun r => r.organizationId == role.organizationId && r.name == role.name then throw .alreadyExists
  else if db.roles.any (·.id == newId) then throw .integrityError
  else
    let db : Db := { db with
      roles := db.roles ++ [role]
      granted := fun grant member =>
        let ⟨r, there, same⟩ := db.granted grant member
        ⟨r, List.mem_append_left _ there, same⟩ }
    request.permissions.dedup.foldlM (fun db permission => insertRolePermission p db ⟨newId, permission⟩) db

def setRolePermissions (roleId : String) (permissions : List Permission) : Except Refusal Db := do
  if (p.getRole db roleId).isNone then throw .notFound
  else
    let current := (db.rolePermissions.filter (·.roleId == roleId)).map (·.permission)
    let db ← (current.filter fun permission => !permissions.contains permission).foldlM
      (fun db permission => deleteRolePermission p db ⟨roleId, permission⟩) db
    (permissions.dedup.filter fun permission => !current.contains permission).foldlM
      (fun db permission => insertRolePermission p db ⟨roleId, permission⟩) db

def defaultTeam (role : Role) (teamId : Option String) : Option String :=
  if role.scopeKind = .team ∧ teamId = none ∧ p.teamIds.card = 1 then
    (db.teams.find? fun team => decide (team.id ∈ p.teamIds)).map (·.id)
  else teamId

def personScope (request : CreatePersonRequest) (role : Role) : Option String × Option String :=
  let teamId := defaultTeam p db role request.teamId
  (request.projectId.or ((teamId.bind (p.getTeam db)).map (·.projectId)), teamId)

def personGrant (request : CreatePersonRequest) (newUserId newGrantId : String) (role : Role) : UserRole :=
  grantRow newGrantId newUserId role (personScope p db request role).1 (personScope p db request role).2 p.me

/-- `dcp_default_membership_status` -/
def defaultMembershipStatus : MembershipStatus := if p.has .userApprove then .active else .pendingApproval

def joinProject (userId : String) (projectId teamId : Option String) : Except Refusal Db :=
  match projectId with
  | none => .ok db
  | some projectId => insertMember p db ⟨projectId, userId, teamId, .active⟩

def createPerson (request : CreatePersonRequest) (newUserId newGrantId : String) : Except Refusal Db :=
  match p.getRole db request.roleId with
  | none => .error .notFound
  | some role => do
    let grant := personGrant p db request newUserId newGrantId role
    let scope := personScope p db request role
    let user : PlatformUser := ⟨newUserId, p.orgId, request.username, p.me⟩
    if !p.writesUser user then throw .outsideYourAuthority
    else if db.users.any (fun u => u.id == newUserId || u.username == request.username) then throw .alreadyExists
    else
      let db := { db with users := db.users ++ [user] }
      let membership : OrgMembership := ⟨p.orgId, newUserId, defaultMembershipStatus p, none, none, none⟩
      if !p.writesMembership db membership then throw .outsideYourAuthority
      else
        let db := { db with memberships := db.memberships ++ [membership] }
        let db ← insertUserRole p db grant
        let db ← joinProject p db newUserId scope.1 scope.2
        getPerson p db newUserId

def addTeamMember (teamId userId : String) : Except Refusal Db :=
  match p.getTeam db teamId with
  | none => .error .notFound
  | some team =>
    let row := fun m : ProjectMember => m.projectId == team.projectId && m.userId == userId
    if db.members.any fun m => row m && p.seesMember db m then
      updateMember p db row fun m => { m with teamId := some team.id, status := .active }
    else insertMember p db ⟨team.projectId, userId, some team.id, .active⟩

def removeTeamMember (teamId userId : String) : Except Refusal Db :=
  match p.getTeam db teamId with
  | none => .error .notFound
  | some team =>
    updateMember p db
      (fun m => m.projectId == team.projectId && m.userId == userId && m.teamId == some team.id)
      fun m => { m with teamId := none, status := .removed }

/-- `platform_org_membership_approval_check` wants who approved beside when. -/
def approvedNow (userId : String) (now : ℕ) (was : MembershipStatus)
    (becomes : OrgMembership → OrgMembership) : Except Refusal Db := do
  let db ← updateMembership p db
    (fun m => m.userId == userId && m.organizationId == p.orgId && m.status == was)
    fun m => becomes { m with status := .active, approvedBy := p.me, approvedAt := some now }
  if p.me.isNone then throw .integrityError else getPerson p db userId

def approve (userId : String) (now : ℕ) : Except Refusal Db := approvedNow p db userId now .pendingApproval fun m => m

def reactivate (userId : String) (now : ℕ) : Except Refusal Db :=
  approvedNow p db userId now .deactivated fun m => { m with deactivatedAt := none }

def deactivate (userId : String) (now : ℕ) : Except Refusal Db := do
  let db ← updateMembership p db
    (fun m => m.userId == userId && m.organizationId == p.orgId && m.status != .deactivated)
    fun m => { m with status := .deactivated, deactivatedAt := some now }
  getPerson p db userId

end Service

/-! ### What the calls leave of the memberships -/

variable {p : Principal} {db db' : Db}

theorem updateMember_members {due : ProjectMember → Bool} {becomes : ProjectMember → ProjectMember}
    (done : updateMember p db due becomes = .ok db') :
    (∀ m ∈ db.members, due m = true → p.seesMember db m = true → p.writesMember db (becomes m) = true) ∧
      db'.members = db.members.map fun m => if due m && p.seesMember db m then becomes m else m := by
  unfold updateMember at done
  dsimp only at done
  split at done
  · cases done
  split at done
  · cases done
  rename_i allowed
  obtain rfl := Except.ok.inj done
  refine ⟨fun m member hit seen => ?_, rfl⟩
  simp only [Bool.not_eq_true, Bool.not_eq_false', List.all_eq_true, List.mem_filter, Bool.and_eq_true] at allowed
  exact allowed m ⟨member, hit, seen⟩

theorem insertMember_members {member : ProjectMember} (done : insertMember p db member = .ok db') :
    db'.members = db.members ++ [member] := by
  unfold insertMember at done
  split at done
  · cases done
  split at done
  · cases done
  obtain rfl := Except.ok.inj done
  rfl

theorem updateMembership_members {due : OrgMembership → Bool} {becomes : OrgMembership → OrgMembership}
    (done : updateMembership p db due becomes = .ok db') : db'.members = db.members := by
  unfold updateMembership at done
  dsimp only at done
  split at done
  · cases done
  split at done
  · cases done
  obtain rfl := Except.ok.inj done
  rfl

theorem getPerson_ok {userId : String} (done : getPerson p db userId = .ok db') : db' = db := by
  unfold getPerson at done
  split at done
  · exact (Except.ok.inj done).symm
  · cases done

theorem approvedNow_members {now : ℕ} {userId : String} {was : MembershipStatus} {becomes : OrgMembership → OrgMembership}
    (done : approvedNow p db userId now was becomes = .ok db') : db'.members = db.members := by
  obtain ⟨mid, update, rest⟩ := Lib.bind_ok_iff.mp done
  split at rest
  · cases rest
  · rw [getPerson_ok rest]
    exact updateMembership_members update

theorem approve_members {userId : String} {now : ℕ} (done : approve p db userId now = .ok db') :
    db'.members = db.members := approvedNow_members done

theorem reactivate_members {userId : String} {now : ℕ} (done : reactivate p db userId now = .ok db') :
    db'.members = db.members := approvedNow_members done

theorem deactivate_members {now : ℕ} {userId : String} (done : deactivate p db userId now = .ok db') :
    db'.members = db.members := by
  obtain ⟨mid, update, last⟩ := Lib.bind_ok_iff.mp done
  rw [getPerson_ok last]
  exact updateMembership_members update

end DataCollectionLab.People
