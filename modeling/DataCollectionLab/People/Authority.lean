import Mathlib.Data.Set.Basic
import DataCollectionLab.Lib.Except
import DataCollectionLab.People.Service

/-!
What a person may do where, and what a call can add to it. The principal pairs every permission with every scope, so a
row that is inside its writer's authority can still pair what nobody had paired.
-/

namespace DataCollectionLab.People

open Lib

inductive Target where
  | organization
  | project (id : String)
  | team (id : String)

def Principal.covers (teams : List Team) (p : Principal) : Target → Prop
  | .organization => p.orgWide = true
  | .project id => p.orgWide = true ∨ id ∈ p.projectIds
  | .team id => p.orgWide = true ∨ id ∈ p.teamIds ∨ ∃ team ∈ teams, team.id = id ∧ team.projectId ∈ p.projectIds

def Principal.auth (teams : List Team) (p : Principal) : Set (Permission × Target) :=
  { pair | pair.1 ∈ p.permissions ∧ p.covers teams pair.2 }

def Db.auth (db : Db) (orgId person : String) : Set (Permission × Target) :=
  (db.principalFor person orgId).auth db.teams

inductive Call where
  | grant (userId : String) (request : GrantRequest) (newId : String)
  | revoke (userId grantId : String) (now : ℕ)
  | createRole (request : CreateRoleRequest) (newId : String)
  | setRolePermissions (roleId : String) (permissions : List Permission)
  | createPerson (request : CreatePersonRequest) (newUserId newGrantId : String)
  | addTeamMember (teamId userId : String)

def Call.run (p : Principal) (db : Db) : Call → Except Refusal Db
  | .grant userId request newId => giveGrant p db userId request newId
  | .revoke userId grantId now => People.revoke p db userId grantId now
  | .createRole request newId => People.createRole p db request newId
  | .setRolePermissions roleId permissions => People.setRolePermissions p db roleId permissions
  | .createPerson request newUserId newGrantId => People.createPerson p db request newUserId newGrantId
  | .addTeamMember teamId userId => People.addTeamMember p db teamId userId

/-! ### The scope of a list of grants -/

def reaches (teams : List Team) (grants : List UserRole) : Target → Prop
  | .organization => ∃ g ∈ grants, g.scopeKind = .organization
  | .project id => (∃ g ∈ grants, g.scopeKind = .organization) ∨ id ∈ grantedProjects grants
  | .team id => (∃ g ∈ grants, g.scopeKind = .organization) ∨ id ∈ subTeams teams (grantedTeams grants) ∨
      ∃ team ∈ teams, team.id = id ∧ team.projectId ∈ grantedProjects grants

theorem widestScope_organization {grants : List UserRole} :
    widestScope grants = some .organization ↔ ∃ g ∈ grants, g.scopeKind = .organization := by
  unfold widestScope
  constructor
  · intro widest
    split at widest
    · rename_i some
      obtain ⟨g, member, same⟩ := List.any_eq_true.mp some
      exact ⟨g, member, by simpa using same⟩
    · split at widest
      · cases widest
      · split at widest <;> cases widest
  · rintro ⟨g, member, same⟩
    rw [if_pos (List.any_eq_true.mpr ⟨g, member, by simpa using same⟩)]

theorem covers_principalFor {db : Db} {orgId person : String} {t : Target} :
    (db.principalFor person orgId).covers db.teams t ↔ reaches db.teams (db.grants person) t := by
  have wide : (db.principalFor person orgId).orgWide = true ↔ ∃ g ∈ db.grants person, g.scopeKind = .organization := by
    rw [← widestScope_organization, Principal.orgWide, beq_iff_eq]
    rfl
  cases t with
  | organization => exact wide
  | project id => exact or_congr_left wide
  | team id => exact or_congr_left wide

theorem mem_auth {db : Db} {orgId person : String} {permission : Permission} {t : Target} :
    (permission, t) ∈ db.auth orgId person ↔
      permission ∈ held db (db.grants person) ∧ reaches db.teams (db.grants person) t :=
  and_congr_right fun _ => covers_principalFor

theorem grantedProjects_append (one two : List UserRole) :
    grantedProjects (one ++ two) = grantedProjects one ∪ grantedProjects two := by
  simp [grantedProjects, List.filter_append, List.filterMap_append]

theorem grantedTeams_append (one two : List UserRole) :
    grantedTeams (one ++ two) = grantedTeams one ∪ grantedTeams two := by
  simp [grantedTeams, List.filterMap_append]

theorem reaches_append {teams : List Team} {one two : List UserRole} {t : Target} :
    reaches teams (one ++ two) t ↔ reaches teams one t ∨ reaches teams two t := by
  have wide : (∃ g ∈ one ++ two, g.scopeKind = .organization) ↔
      (∃ g ∈ one, g.scopeKind = .organization) ∨ ∃ g ∈ two, g.scopeKind = .organization := by
    simp only [List.mem_append, or_and_right, exists_or]
  cases t with
  | organization => exact wide
  | project id =>
    simp only [reaches, wide, grantedProjects_append, Finset.mem_union]
    exact or_or_or_comm
  | team id =>
    simp only [reaches, wide, grantedTeams_append, subTeams_union, grantedProjects_append, Finset.mem_union,
      and_or_left, exists_or]
    rw [or_or_or_comm (a := id ∈ subTeams teams (grantedTeams one)), or_or_or_comm]

theorem mem_held {db : Db} {grants : List UserRole} {permission : Permission} :
    permission ∈ held db grants ↔ ∃ g ∈ grants, ⟨g.roleId, permission⟩ ∈ db.rolePermissions := by
  unfold held
  rw [List.mem_toFinset, List.mem_map]
  constructor
  · rintro ⟨rp, member, rfl⟩
    obtain ⟨there, some⟩ := List.mem_filter.mp member
    obtain ⟨g, present, same⟩ := List.any_eq_true.mp some
    rw [beq_iff_eq] at same
    exact ⟨g, present, by rw [same]; exact there⟩
  · rintro ⟨g, present, there⟩
    exact ⟨_, List.mem_filter.mpr ⟨there, List.any_eq_true.mpr ⟨g, present, beq_self_eq_true _⟩⟩, rfl⟩

theorem mem_permissionsOf {db : Db} {roleId : String} {permission : Permission} :
    permission ∈ db.permissionsOf roleId ↔ ⟨roleId, permission⟩ ∈ db.rolePermissions := by
  unfold Db.permissionsOf
  rw [List.mem_toFinset, List.mem_map]
  constructor
  · rintro ⟨rp, member, rfl⟩
    obtain ⟨there, same⟩ := List.mem_filter.mp member
    rw [beq_iff_eq] at same
    rw [← same]
    exact there
  · intro there
    exact ⟨_, List.mem_filter.mpr ⟨there, beq_self_eq_true roleId⟩, rfl⟩

theorem reaches_mono {teams : List Team} {one two : List UserRole} (sub : one ⊆ two) {t : Target}
    (covered : reaches teams one t) : reaches teams two t := by
  have wide : (∃ g ∈ one, g.scopeKind = .organization) → ∃ g ∈ two, g.scopeKind = .organization :=
    fun ⟨g, member, same⟩ => ⟨g, sub member, same⟩
  have projects : grantedProjects one ⊆ grantedProjects two := by
    intro id member
    unfold grantedProjects at member ⊢
    rw [List.mem_toFinset, List.mem_filterMap] at member ⊢
    obtain ⟨g, present, same⟩ := member
    obtain ⟨there, kind⟩ := List.mem_filter.mp present
    exact ⟨g, List.mem_filter.mpr ⟨sub there, kind⟩, same⟩
  have teamsOf : grantedTeams one ⊆ grantedTeams two := by
    intro id member
    unfold grantedTeams at member ⊢
    rw [List.mem_toFinset, List.mem_filterMap] at member ⊢
    obtain ⟨g, present, same⟩ := member
    exact ⟨g, sub present, same⟩
  cases t with
  | organization => exact wide covered
  | project id => exact covered.imp wide fun member => projects member
  | team id =>
    refine covered.imp wide (Or.imp (fun member => ?_) fun ⟨team, there, same, member⟩ => ⟨team, there, same, projects member⟩)
    have both := subTeams_union teams (grantedTeams one) (grantedTeams two)
    rw [Finset.union_eq_right.mpr teamsOf] at both
    rw [both]
    exact Finset.mem_union_left _ member

/-! ### What each call leaves -/

variable {p : Principal} {db db' : Db}

theorem insertUserRole_ok {grant : UserRole} (done : insertUserRole p db grant = .ok db') :
    p.writesUserRole db grant = true ∧ db'.userRoles = db.userRoles ++ [grant] ∧
      db'.rolePermissions = db.rolePermissions ∧ db'.teams = db.teams ∧ db'.roles = db.roles := by
  unfold insertUserRole at done
  split at done
  · rename_i writes
    split at done
    · cases done
    · obtain rfl := Except.ok.inj done
      exact ⟨writes, rfl, rfl, rfl, rfl⟩
  · cases done

theorem insertMember_ok {member : ProjectMember} (done : insertMember p db member = .ok db') :
    db'.userRoles = db.userRoles ∧ db'.rolePermissions = db.rolePermissions ∧ db'.teams = db.teams := by
  unfold insertMember at done
  split at done
  · cases done
  · split at done
    · cases done
    · obtain rfl := Except.ok.inj done
      exact ⟨rfl, rfl, rfl⟩

theorem updateMember_ok {due : ProjectMember → Bool} {becomes : ProjectMember → ProjectMember}
    (done : updateMember p db due becomes = .ok db') :
    db'.userRoles = db.userRoles ∧ db'.rolePermissions = db.rolePermissions ∧ db'.teams = db.teams := by
  unfold updateMember at done
  dsimp only at done
  split at done
  · cases done
  · split at done
    · cases done
    · obtain rfl := Except.ok.inj done
      exact ⟨rfl, rfl, rfl⟩

theorem insertRolePermissions_ok {roleId : String} {permissions : List Permission}
    (done : permissions.foldlM (fun db permission => insertRolePermission p db ⟨roleId, permission⟩) db = .ok db') :
    db'.userRoles = db.userRoles ∧ db'.teams = db.teams ∧
      db'.rolePermissions = db.rolePermissions ++ permissions.map (⟨roleId, ·⟩) ∧
      ∀ permission ∈ permissions, permission ∈ p.permissions := by
  induction permissions generalizing db with
  | nil =>
    obtain rfl := Except.ok.inj done
    exact ⟨rfl, rfl, (List.append_nil _).symm, fun _ none => (by cases none)⟩
  | cons permission rest ih =>
    obtain ⟨mid, one, later⟩ := foldlM_cons_ok_iff.mp done
    unfold insertRolePermission at one
    split at one
    · cases one
    · rename_i writes
      obtain rfl := Except.ok.inj one
      obtain ⟨roles, teams, rows, inside⟩ := ih later
      refine ⟨roles, teams, by rw [rows, List.append_assoc]; rfl, fun q member => ?_⟩
      rcases List.mem_cons.mp member with rfl | later'
      · simp only [Principal.writesRolePermission, Principal.has, Bool.not_eq_true, Bool.not_eq_false',
          Bool.and_eq_true, decide_eq_true_eq] at writes
        exact writes.2
      · exact inside q later'

theorem deleteRolePermissions_ok {roleId : String} {permissions : List Permission}
    (done : permissions.foldlM (fun db permission => deleteRolePermission p db ⟨roleId, permission⟩) db = .ok db') :
    db'.userRoles = db.userRoles ∧ db'.teams = db.teams ∧
      ∀ rp, rp ∈ db'.rolePermissions ↔ rp ∈ db.rolePermissions ∧ ¬ (rp.roleId = roleId ∧ rp.permission ∈ permissions) := by
  induction permissions generalizing db with
  | nil =>
    obtain rfl := Except.ok.inj done
    exact ⟨rfl, rfl, by simp⟩
  | cons permission rest ih =>
    obtain ⟨mid, one, later⟩ := foldlM_cons_ok_iff.mp done
    unfold deleteRolePermission at one
    split at one
    · cases one
    · obtain rfl := Except.ok.inj one
      obtain ⟨roles, teams, rows⟩ := ih later
      refine ⟨roles, teams, fun rp => ?_⟩
      rw [rows rp, List.mem_filter, decide_eq_true_eq, List.mem_cons]
      have eq : rp = ⟨roleId, permission⟩ ↔ rp.roleId = roleId ∧ rp.permission = permission := by
        constructor
        · rintro rfl
          exact ⟨rfl, rfl⟩
        · rintro ⟨rfl, rfl⟩
          rfl
      rw [ne_eq, eq]
      tauto

theorem grants_insert {grant : UserRole} (rows : db'.userRoles = db.userRoles ++ [grant]) (live : grant.revokedAt = none)
    (person : String) : db'.grants person = db.grants person ++ if grant.userId = person then [grant] else [] := by
  unfold Db.grants
  rw [rows, List.filter_append, List.filter_singleton, live]
  simp

/-- A grant that pairs nothing new. What its person may do already is not carried by the new scope to where neither
they nor the grantor could do it; what its role brings is not carried by their other grants to where neither could; and
the sub-teams that come with a team are the grantor's as well. -/
def Fits (db : Db) (orgId actor : String) (grant : UserRole) : Prop :=
  (∀ permission t, (permission ∈ held db (db.grants grant.userId)) → reaches db.teams [grant] t →
    reaches db.teams (db.grants grant.userId) t ∨ (permission, t) ∈ db.auth orgId actor) ∧
  (∀ permission t, permission ∈ db.permissionsOf grant.roleId → reaches db.teams (db.grants grant.userId) t →
    permission ∈ held db (db.grants grant.userId) ∨ reaches db.teams (db.grants actor) t) ∧
  ∀ permission team sub, permission ∈ db.permissionsOf grant.roleId → grant.teamId = some team →
    sub ∈ subTeams db.teams {team} →
    (permission, .team sub) ∈ db.auth orgId grant.userId ∨ reaches db.teams (db.grants actor) (.team sub)

theorem mem_grantedProjects_singleton {grant : UserRole} {id : String} :
    id ∈ grantedProjects [grant] ↔ grant.scopeKind = .project ∧ grant.projectId = some id := by
  unfold grantedProjects
  rw [List.mem_toFinset, List.mem_filterMap]
  constructor
  · rintro ⟨g, member, same⟩
    obtain ⟨only, kind⟩ := List.mem_filter.mp member
    obtain rfl := List.mem_singleton.mp only
    exact ⟨by simpa using kind, same⟩
  · rintro ⟨kind, same⟩
    exact ⟨grant, List.mem_filter.mpr ⟨List.mem_singleton_self grant, by simpa using kind⟩, same⟩

theorem mem_subTeams_singleton {teams : List Team} {grant : UserRole} {sub : String} :
    sub ∈ subTeams teams (grantedTeams [grant]) ↔ ∃ team, grant.teamId = some team ∧ sub ∈ subTeams teams {team} := by
  rw [mem_subTeams]
  constructor
  · rintro ⟨top, member, path⟩
    unfold grantedTeams at member
    rw [List.mem_toFinset, List.mem_filterMap] at member
    obtain ⟨g, only, same⟩ := member
    obtain rfl := List.mem_singleton.mp only
    exact ⟨top, same, mem_subTeams.mpr ⟨top, Finset.mem_singleton_self top, path⟩⟩
  · rintro ⟨team, same, member⟩
    obtain ⟨top, only, path⟩ := mem_subTeams.mp member
    obtain rfl := Finset.mem_singleton.mp only
    refine ⟨top, ?_, path⟩
    unfold grantedTeams
    exact List.mem_toFinset.mpr (List.mem_filterMap.mpr ⟨grant, List.mem_singleton_self grant, same⟩)

theorem reaches_of_orgWide {orgId actor : String} (wide : (db.principalFor actor orgId).orgWide = true) (t : Target) :
    reaches db.teams (db.grants actor) t := by
  have some : ∃ g ∈ db.grants actor, g.scopeKind = .organization := by
    rw [← widestScope_organization]
    rw [Principal.orgWide, beq_iff_eq] at wide
    exact wide
  cases t with
  | organization => exact some
  | project id => exact .inl some
  | team id => exact .inl some

theorem reaches_of_inScope {orgId actor : String} {grant : UserRole} {t : Target}
    (scope : (db.principalFor actor orgId).inScope db grant = true) (covered : reaches db.teams [grant] t) :
    reaches db.teams (db.grants actor) t ∨
      ∃ team sub, t = .team sub ∧ grant.teamId = some team ∧ sub ∈ subTeams db.teams {team} := by
  unfold Principal.inScope at scope
  cases kind : grant.scopeKind with
  | organization =>
    rw [kind] at scope
    exact .inl (reaches_of_orgWide scope t)
  | project =>
    simp only [kind, Bool.or_eq_true] at scope
    rcases scope with wide | inside
    · exact .inl (reaches_of_orgWide wide t)
    · obtain ⟨project, same, there⟩ := (Option.any_eq_true _ _).mp inside
      have mine : project ∈ grantedProjects (db.grants actor) := of_decide_eq_true there
      have narrow : ¬ ∃ g ∈ [grant], g.scopeKind = .organization := by simp [kind]
      cases t with
      | organization => exact absurd covered narrow
      | project id =>
        have named := mem_grantedProjects_singleton.mp (covered.resolve_left narrow)
        obtain rfl := Option.some.inj (same.symm.trans named.2)
        exact .inl (.inr mine)
      | team id =>
        rcases covered.resolve_left narrow with under | ⟨team, present, here, named⟩
        · obtain ⟨team, named, sub⟩ := mem_subTeams_singleton.mp under
          exact .inr ⟨team, id, rfl, named, sub⟩
        · obtain ⟨-, named⟩ := mem_grantedProjects_singleton.mp named
          obtain rfl := Option.some.inj (same.symm.trans named)
          exact .inl (.inr (.inr ⟨team, present, here, mine⟩))
  | team =>
    have narrow : ¬ ∃ g ∈ [grant], g.scopeKind = .organization := by simp [kind]
    have none : ∀ id, id ∉ grantedProjects [grant] := by
      intro id member
      have project := (mem_grantedProjects_singleton.mp member).1
      rw [kind] at project
      cases project
    cases t with
    | organization => exact absurd covered narrow
    | project id => exact absurd (covered.resolve_left narrow) (none id)
    | team id =>
      rcases covered.resolve_left narrow with under | ⟨team, -, -, member⟩
      · obtain ⟨team, named, sub⟩ := mem_subTeams_singleton.mp under
        exact .inr ⟨team, id, rfl, named, sub⟩
      · exact absurd member (none _)

theorem writesUserRole_iff {grant : UserRole} : p.writesUserRole db grant = true ↔
    (p.seesUserRole db grant = true ∧ p.has .userAssignRole = true) ∧ db.permissionsOf grant.roleId ⊆ p.permissions ∧
      p.inScope db grant = true := by
  unfold Principal.writesUserRole
  simp only [Bool.and_eq_true, decide_eq_true_eq, and_assoc]

theorem insert_within_iff {orgId actor : String} {grant : UserRole} (live : grant.revokedAt = none)
    (role : db.permissionsOf grant.roleId ⊆ held db (db.grants actor))
    (scope : (db.principalFor actor orgId).inScope db grant = true)
    (rows : db'.userRoles = db.userRoles ++ [grant]) (same : db'.rolePermissions = db.rolePermissions)
    (teams : db'.teams = db.teams) :
    (∀ person, db'.auth orgId person ⊆ db.auth orgId person ∪ db.auth orgId actor) ↔ Fits db orgId actor grant := by
  have heldSame : ∀ gs, held db' gs = held db gs := fun gs => by
    unfold held
    rw [same]
  have bring : ∀ permission, permission ∈ held db [grant] ↔ permission ∈ db.permissionsOf grant.roleId := by
    intro permission
    rw [mem_held, mem_permissionsOf]
    simp
  have heldAppend : ∀ gs permission, permission ∈ held db (gs ++ [grant]) ↔
      permission ∈ held db gs ∨ permission ∈ db.permissionsOf grant.roleId := by
    intro gs permission
    rw [← bring]
    simp only [mem_held, List.mem_append, or_and_right, exists_or]
  have after : ∀ permission t, (permission, t) ∈ db'.auth orgId grant.userId ↔
      (permission ∈ held db (db.grants grant.userId) ∨ permission ∈ db.permissionsOf grant.roleId) ∧
        (reaches db.teams (db.grants grant.userId) t ∨ reaches db.teams [grant] t) := by
    intro permission t
    rw [mem_auth, heldSame, teams, grants_insert rows live, if_pos rfl, heldAppend, reaches_append]
  constructor
  · intro within
    have into {permission : Permission} {t : Target} (there : (permission, t) ∈ db'.auth orgId grant.userId) :
        (permission, t) ∈ db.auth orgId grant.userId ∨ (permission, t) ∈ db.auth orgId actor :=
      within grant.userId there
    refine ⟨fun permission t own new => ?_, fun permission t brought old => ?_, fun permission team sub brought named under => ?_⟩
    · exact (into ((after permission t).mpr ⟨.inl own, .inr new⟩)).imp_left fun before => (mem_auth.mp before).2
    · exact (into ((after permission t).mpr ⟨.inr brought, .inl old⟩)).imp (fun before => (mem_auth.mp before).1)
        fun actors => (mem_auth.mp actors).2
    · refine (into ((after permission (.team sub)).mpr ⟨.inr brought, .inr ?_⟩)).imp_right fun actors => (mem_auth.mp actors).2
      exact .inr (.inl (mem_subTeams_singleton.mpr ⟨team, named, under⟩))
  · rintro ⟨carries, brings, subs⟩ person ⟨permission, t⟩ there
    by_cases own : grant.userId = person
    · subst own
      obtain ⟨may, where'⟩ := (after permission t).mp there
      rcases may with own | brought
      · rcases where' with old | new
        · exact .inl (mem_auth.mpr ⟨own, old⟩)
        · exact (carries permission t own new).imp_left fun old => mem_auth.mpr ⟨own, old⟩
      · have actors := role brought
        rcases where' with old | new
        · exact (brings permission t brought old).imp (fun own => mem_auth.mpr ⟨own, old⟩)
            fun covered => mem_auth.mpr ⟨actors, covered⟩
        · rcases reaches_of_inScope scope new with covered | ⟨team, sub, rfl, named, under⟩
          · exact .inr (mem_auth.mpr ⟨actors, covered⟩)
          · exact (subs permission team sub brought named under).imp_right fun covered => mem_auth.mpr ⟨actors, covered⟩
    · refine .inl ?_
      rw [mem_auth, heldSame, teams, grants_insert rows live, if_neg own, List.append_nil] at there
      exact mem_auth.mpr there

theorem auth_congr (userRoles : db'.userRoles = db.userRoles) (same : db'.rolePermissions = db.rolePermissions)
    (teams : db'.teams = db.teams) (orgId person : String) : db'.auth orgId person = db.auth orgId person := by
  have grants : db'.grants person = db.grants person := by
    unfold Db.grants
    rw [userRoles]
  ext ⟨permission, t⟩
  rw [mem_auth, mem_auth, grants, mem_held, mem_held, same, teams]

def Call.Fits (db : Db) (orgId actor : String) : Call → Prop
  | .grant userId request newId =>
    ∀ role, (db.principalFor actor orgId).getRole db request.roleId = some role →
      People.Fits db orgId actor
        (grantRow newId userId role request.projectId request.teamId (db.principalFor actor orgId).me)
  | .createPerson request newUserId newGrantId =>
    ∀ role, (db.principalFor actor orgId).getRole db request.roleId = some role →
      People.Fits db orgId actor (personGrant (db.principalFor actor orgId) db request newUserId newGrantId role)
  -- every holder of the role gains its permissions wherever their other grants reach
  | .setRolePermissions roleId permissions =>
    ∀ person, (∃ g ∈ db.grants person, g.roleId = roleId) → ∀ permission ∈ permissions, ∀ t,
      reaches db.teams (db.grants person) t →
        permission ∈ held db (db.grants person) ∨ reaches db.teams (db.grants actor) t
  | .revoke .. | .createRole .. | .addTeamMember .. => True

theorem giveGrant_within_iff {orgId actor userId newId : String} {request : GrantRequest}
    (done : giveGrant (db.principalFor actor orgId) db userId request newId = .ok db') :
    (∀ person, db'.auth orgId person ⊆ db.auth orgId person ∪ db.auth orgId actor) ↔
      (Call.grant userId request newId).Fits db orgId actor := by
  unfold giveGrant at done
  split at done
  · cases done
  · rename_i role seen
    obtain ⟨mid, insert, last⟩ := bind_ok_iff.mp done
    obtain rfl := getPerson_ok last
    obtain ⟨writes, rows, same, teams, -⟩ := insertUserRole_ok insert
    obtain ⟨-, role, scope⟩ := writesUserRole_iff.mp writes
    rw [insert_within_iff rfl role scope rows same teams]
    simp only [Call.Fits, seen, Option.some.injEq, forall_eq']

theorem createPerson_within_iff {orgId actor newUserId newGrantId : String} {request : CreatePersonRequest}
    (done : createPerson (db.principalFor actor orgId) db request newUserId newGrantId = .ok db') :
    (∀ person, db'.auth orgId person ⊆ db.auth orgId person ∪ db.auth orgId actor) ↔
      (Call.createPerson request newUserId newGrantId).Fits db orgId actor := by
  unfold createPerson at done
  split at done
  · cases done
  rename_i role seen
  dsimp only at done
  split at done
  · cases done
  split at done
  · cases done
  split at done
  · cases done
  obtain ⟨granted, insert, rest⟩ := bind_ok_iff.mp done
  obtain ⟨joined, member, last⟩ := bind_ok_iff.mp rest
  obtain rfl := getPerson_ok last
  obtain ⟨writes, rows, same, teams, -⟩ := insertUserRole_ok insert
  have joins : db'.userRoles = granted.userRoles ∧ db'.rolePermissions = granted.rolePermissions ∧
      db'.teams = granted.teams := by
    unfold joinProject at member
    split at member
    · obtain rfl := Except.ok.inj member
      exact ⟨rfl, rfl, rfl⟩
    · exact insertMember_ok member
  -- the rows of the new person are read by no principal
  obtain ⟨-, role, scope⟩ := writesUserRole_iff.mp writes
  refine (insert_within_iff rfl role scope (joins.1.trans rows) (joins.2.1.trans same) (joins.2.2.trans teams)).trans ?_
  simp only [Call.Fits, seen, Option.some.injEq, forall_eq']
  exact Iff.rfl

theorem revoke_ok {userId grantId : String} {now : ℕ} (done : People.revoke p db userId grantId now = .ok db') :
    (∀ g ∈ db'.userRoles, g.revokedAt = none → g ∈ db.userRoles) ∧
      db'.rolePermissions = db.rolePermissions ∧ db'.teams = db.teams := by
  unfold People.revoke at done
  dsimp only at done
  split at done
  · cases done
  split at done
  · cases done
  obtain rfl := getPerson_ok done
  refine ⟨fun g member live => ?_, rfl, rfl⟩
  obtain ⟨before, old, rfl⟩ := List.mem_map.mp member
  split at live
  · cases live
  · rename_i kept
    rw [if_neg kept]
    exact old

theorem revoke_within {orgId actor userId grantId : String} {now : ℕ}
    (done : People.revoke p db userId grantId now = .ok db') (person : String) :
    db'.auth orgId person ⊆ db.auth orgId person ∪ db.auth orgId actor := by
  obtain ⟨live, same, teams⟩ := revoke_ok done
  rintro ⟨permission, t⟩ there
  refine .inl ?_
  have sub : db'.grants person ⊆ db.grants person := by
    intro g member
    obtain ⟨present, test⟩ := List.mem_filter.mp member
    refine List.mem_filter.mpr ⟨live g present ?_, test⟩
    simp only [Bool.and_eq_true, Option.isNone_iff_eq_none] at test
    exact test.2
  obtain ⟨may, covered⟩ := mem_auth.mp there
  obtain ⟨g, present, row⟩ := mem_held.mp may
  rw [teams] at covered
  rw [same] at row
  exact mem_auth.mpr ⟨mem_held.mpr ⟨g, sub present, row⟩, reaches_mono sub covered⟩

theorem createRole_within {orgId actor newId : String} {request : CreateRoleRequest}
    (done : People.createRole p db request newId = .ok db') (person : String) :
    db'.auth orgId person ⊆ db.auth orgId person ∪ db.auth orgId actor := by
  unfold People.createRole at done
  dsimp only at done
  split at done
  · cases done
  split at done
  · cases done
  split at done
  · cases done
  rename_i fresh
  obtain ⟨userRoles, teams, rows, -⟩ := insertRolePermissions_ok done
  have grants : db'.grants person = db.grants person := by
    unfold Db.grants
    rw [userRoles]
  rintro ⟨permission, t⟩ there
  obtain ⟨may, covered⟩ := mem_auth.mp there
  rw [grants, teams] at covered
  obtain ⟨g, present, row⟩ := mem_held.mp may
  rw [grants] at present
  rw [rows] at row
  rcases List.mem_append.mp row with old | new
  · exact .inl (mem_auth.mpr ⟨mem_held.mpr ⟨g, present, old⟩, covered⟩)
  · -- nobody holds a role that was not there
    obtain ⟨q, -, equal⟩ := List.mem_map.mp new
    obtain ⟨role, member, same⟩ := db.granted g (List.mem_filter.mp present).1
    have named : role.id = newId := same.trans (congrArg RolePermission.roleId equal).symm
    have clash : db.roles.any (·.id == newId) = true := List.any_eq_true.mpr ⟨role, member, by simpa using named⟩
    exact absurd clash fresh

theorem setRolePermissions_ok {roleId : String} {permissions : List Permission}
    (done : People.setRolePermissions p db roleId permissions = .ok db') :
    db'.userRoles = db.userRoles ∧ db'.teams = db.teams ∧
      (∀ rp, rp ∈ db'.rolePermissions ↔
        if rp.roleId = roleId then rp.permission ∈ permissions else rp ∈ db.rolePermissions) ∧
      ∀ permission ∈ permissions, ⟨roleId, permission⟩ ∈ db.rolePermissions ∨ permission ∈ p.permissions := by
  unfold People.setRolePermissions at done
  split at done
  · cases done
  obtain ⟨mid, deletes, inserts⟩ := bind_ok_iff.mp done
  obtain ⟨roles₁, teams₁, left⟩ := deleteRolePermissions_ok deletes
  obtain ⟨roles₂, teams₂, rows, inside⟩ := insertRolePermissions_ok inserts
  have current : ∀ permission, permission ∈ (db.rolePermissions.filter (·.roleId == roleId)).map (·.permission) ↔
      ⟨roleId, permission⟩ ∈ db.rolePermissions := by
    intro permission
    rw [List.mem_map]
    constructor
    · rintro ⟨⟨id, q⟩, member, rfl⟩
      obtain ⟨there, same⟩ := List.mem_filter.mp member
      obtain rfl := beq_iff_eq.mp same
      exact there
    · exact fun there => ⟨_, List.mem_filter.mpr ⟨there, beq_self_eq_true roleId⟩, rfl⟩
  refine ⟨roles₂.trans roles₁, teams₂.trans teams₁, fun ⟨id, q⟩ => ?_, fun permission wanted => ?_⟩
  · rw [rows, List.mem_append, left, List.mem_map]
    simp only [List.mem_filter, List.mem_dedup, Bool.not_eq_true', List.contains_eq_mem, decide_eq_false_iff_not, current,
      RolePermission.mk.injEq, exists_eq_right_right]
    by_cases same : id = roleId
    · subst same
      rw [if_pos rfl]
      tauto
    · rw [if_neg same]
      tauto
  · by_cases there : ⟨roleId, permission⟩ ∈ db.rolePermissions
    · exact .inl there
    · refine .inr (inside permission (List.mem_filter.mpr ⟨List.mem_dedup.mpr wanted, ?_⟩))
      simpa [current] using there

theorem setRolePermissions_within_iff {orgId actor roleId : String} {permissions : List Permission}
    (done : People.setRolePermissions (db.principalFor actor orgId) db roleId permissions = .ok db') :
    (∀ person, db'.auth orgId person ⊆ db.auth orgId person ∪ db.auth orgId actor) ↔
      (Call.setRolePermissions roleId permissions).Fits db orgId actor := by
  obtain ⟨userRoles, teams, rows, inside⟩ := setRolePermissions_ok done
  have grants : ∀ person, db'.grants person = db.grants person := fun person => by
    unfold Db.grants
    rw [userRoles]
  constructor
  · intro within person ⟨g, holds, same⟩ permission wanted t covered
    have there : (permission, t) ∈ db'.auth orgId person := by
      rw [mem_auth, grants, teams, mem_held]
      exact ⟨⟨g, holds, (rows _).mpr (by rw [if_pos same]; exact wanted)⟩, covered⟩
    exact (within person there).imp (fun own => (mem_auth.mp own).1) fun actors => (mem_auth.mp actors).2
  · rintro fits person ⟨permission, t⟩ there
    rw [mem_auth, grants, teams, mem_held] at there
    obtain ⟨⟨g, holds, row⟩, covered⟩ := there
    have now := (rows _).mp row
    by_cases same : g.roleId = roleId
    · rw [if_pos same] at now
      rcases fits person ⟨g, holds, same⟩ permission now t covered with own | actors
      · exact .inl (mem_auth.mpr ⟨own, covered⟩)
      · rcases inside permission now with old | authority
        · exact .inl (mem_auth.mpr ⟨mem_held.mpr ⟨g, holds, by rw [same]; exact old⟩, covered⟩)
        · exact .inr (mem_auth.mpr ⟨authority, actors⟩)
    · rw [if_neg same] at now
      exact .inl (mem_auth.mpr ⟨mem_held.mpr ⟨g, holds, now⟩, covered⟩)

theorem addTeamMember_ok {teamId userId : String} (done : People.addTeamMember p db teamId userId = .ok db') :
    db'.userRoles = db.userRoles ∧ db'.rolePermissions = db.rolePermissions ∧ db'.teams = db.teams := by
  unfold People.addTeamMember at done
  split at done
  · cases done
  · dsimp only at done
    split at done
    · exact updateMember_ok done
    · exact insertMember_ok done

/-- A call that the policies let its person make gives nobody more than they had or its person holds, exactly when it
pairs nothing new. -/
theorem within_iff_fits (db db' : Db) (orgId actor : String) (call : Call)
    (done : call.run (db.principalFor actor orgId) db = .ok db') :
    (∀ person, db'.auth orgId person ⊆ db.auth orgId person ∪ db.auth orgId actor) ↔ call.Fits db orgId actor := by
  cases call with
  | grant userId request newId => exact giveGrant_within_iff done
  | createPerson request newUserId newGrantId => exact createPerson_within_iff done
  | setRolePermissions roleId permissions => exact setRolePermissions_within_iff done
  | revoke userId grantId now => exact iff_of_true (revoke_within done) trivial
  | createRole request newId => exact iff_of_true (createRole_within done) trivial
  | addTeamMember teamId userId =>
    obtain ⟨userRoles, same, teams⟩ := addTeamMember_ok done
    exact iff_of_true (fun person => by rw [auth_congr userRoles same teams]; exact Set.subset_union_left) trivial

instance (teams : List Team) (grants : List UserRole) (t : Target) : Decidable (reaches teams grants t) := by
  cases t <;> unfold reaches <;> infer_instance

def twoProjects : Db where
  projects := [⟨"first", "org"⟩, ⟨"second", "org"⟩]
  users := [⟨"publisher", "org", "publisher", some "manager"⟩, ⟨"manager", "org", "manager", none⟩]
  memberships := [⟨"org", "publisher", .active, none, none, none⟩, ⟨"org", "manager", .active, none, none, none⟩]
  roles := [⟨"publishing", "org", "Publishing", .project, false⟩, ⟨"viewing", "org", "Viewing", .project, false⟩,
    ⟨"managing", "org", "Managing", .project, false⟩]
  rolePermissions := [⟨"publishing", .formPublish⟩, ⟨"viewing", .submissionView⟩, ⟨"managing", .submissionView⟩,
    ⟨"managing", .userAssignRole⟩]
  userRoles := [
    { id := "g1", userId := "publisher", roleId := "publishing", scopeKind := .project, projectId := some "first" },
    { id := "g2", userId := "manager", roleId := "managing", scopeKind := .project, projectId := some "second" }]

def viewing (projectId : String) : Call := .grant "publisher" ⟨"viewing", some projectId, none⟩ "g3"

theorem revoked_within : ∃ db', (Call.revoke "manager" "g2" 1).run (twoProjects.principalFor "manager" "org") twoProjects =
    .ok db' ∧ ((∀ person, db'.auth "org" person ⊆ twoProjects.auth "org" person ∪ twoProjects.auth "org" "manager") ↔
      (Call.revoke "manager" "g2" 1).Fits twoProjects "org" "manager") :=
  ⟨_, rfl, within_iff_fits twoProjects _ "org" "manager" (Call.revoke "manager" "g2" 1) rfl⟩

/-- The manager of the second project lets the publisher view submissions there, and they now view those of the first,
which neither of the two could. -/
theorem viewing_not_within : ∃ db', (viewing "second").run (twoProjects.principalFor "manager" "org") twoProjects = .ok db' ∧
    ¬ ∀ person, db'.auth "org" person ⊆ twoProjects.auth "org" person ∪ twoProjects.auth "org" "manager" := by
  refine ⟨_, rfl, fun within => ?_⟩
  have there := within "publisher" (a := (.submissionView, .project "first")) (mem_auth.mpr (by decide +kernel))
  rcases there with own | actors
  · revert own
    rw [mem_auth]
    decide +kernel
  · revert actors
    rw [mem_auth]
    decide +kernel

end DataCollectionLab.People
