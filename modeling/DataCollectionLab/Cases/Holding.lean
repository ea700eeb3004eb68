import DataCollectionLab.Cases.Models
import DataCollectionLab.Lib.Runs

/-!
Holding a case through assignments and through what happens to people meanwhile. The check of an assignment reads the
team of a person when the row is written, and again when it is released.
-/

namespace DataCollectionLab.Cases

open People (Principal)

inductive Move where
  | assign (p : Principal) (caseId : String) (holder : Holder) (now : ℕ)
  | addTeamMember (p : Principal) (teamId userId : String)
  | removeTeamMember (p : Principal) (teamId userId : String)
  | approve (p : Principal) (userId : String) (now : ℕ)
  | deactivate (p : Principal) (userId : String) (now : ℕ)
  | reactivate (p : Principal) (userId : String) (now : ℕ)

namespace Db

variable (db : Db)

def withPeople : Except People.Refusal People.Db → Db
  | .ok people => { db with people }
  | .error _ => db

def step : Move → Db
  | .assign p caseId holder now =>
    match assignCase p now db caseId holder with
    | .ok db' => db'
    | .error _ => db
  | .addTeamMember p teamId userId => db.withPeople (People.addTeamMember p db.people teamId userId)
  | .removeTeamMember p teamId userId => db.withPeople (People.removeTeamMember p db.people teamId userId)
  | .approve p userId now => db.withPeople (People.approve p db.people userId now)
  | .deactivate p userId now => db.withPeople (People.deactivate p db.people userId now)
  | .reactivate p userId now => db.withPeople (People.reactivate p db.people userId now)

def unassigned (people : People.Db) (cases : List CaseRecord) : Db := { people, cases }

/-- One live holder at each level, and a person only under a live team they are in. -/
structure HeldUnderTeams : Prop where
  single : ∀ caseId level, (db.live caseId level).length ≤ 1
  under : ∀ caseId, ∀ a ∈ db.live caseId .person, ∀ person, a.holder = .person person →
    ∃ b ∈ db.live caseId .team, ∃ team, b.holder = .team team ∧ db.inTeam person team = true

def HoldsUnder (person team : String) : Prop :=
  ∃ caseId, (∃ a ∈ db.live caseId .person, a.holder = .person person) ∧ ∃ b ∈ db.live caseId .team, b.holder = .team team

def LeavesNothing : Move → Prop
  | .addTeamMember p teamId userId => ∀ team, p.getTeam db.people teamId = some team →
    ∀ m ∈ db.people.members, m.projectId = team.projectId → m.userId = userId → m.status = .active →
      p.seesMember db.people m = true →
      p.writesMember db.people { m with teamId := some team.id, status := .active } = true →
      ∀ left, m.teamId = some left → left ≠ team.id → ¬ db.HoldsUnder userId left
  | .removeTeamMember p teamId userId => ∀ team, p.getTeam db.people teamId = some team →
    ∀ m ∈ db.people.members, m.projectId = team.projectId → m.userId = userId → m.teamId = some team.id →
      m.status = .active → p.seesMember db.people m = true →
      p.writesMember db.people { m with teamId := none, status := .removed } = true →
      ¬ db.HoldsUnder userId team.id
  | _ => True

variable {db} {db' : Db}

theorem inTeam_iff {person team : String} :
    db.inTeam person team = true ↔
      ∃ m ∈ db.people.members, m.teamId = some team ∧ m.userId = person ∧ m.status = .active := by
  unfold inTeam
  simp only [List.any_eq_true, Bool.and_eq_true, beq_iff_eq, and_assoc]

theorem live_withPeople (result : Except People.Refusal People.Db) (caseId : String) (level : Level) :
    (db.withPeople result).live caseId level = db.live caseId level := by
  cases result <;> rfl

theorem HeldUnderTeams.withPeople (held : db.HeldUnderTeams) {result : Except People.Refusal People.Db}
    (stays : ∀ person team, db.HoldsUnder person team → db.inTeam person team = true →
      (db.withPeople result).inTeam person team = true) : (db.withPeople result).HeldUnderTeams where
  single caseId level := by
    rw [live_withPeople]
    exact held.single caseId level
  under caseId a member person holds := by
    rw [live_withPeople] at member
    obtain ⟨b, live, team, named, inside⟩ := held.under caseId a member person holds
    rw [live_withPeople]
    exact ⟨b, live, team, named, stays person team ⟨caseId, ⟨a, member, holds⟩, b, live, named⟩ inside⟩

theorem HeldUnderTeams.assign (held : db.HeldUnderTeams) {p : Principal} {now : ℕ} {caseId : String} {holder : Holder}
    (done : assignCase p now db caseId holder = .ok db') : db'.HeldUnderTeams := by
  obtain ⟨-, people, -, live, stands⟩ := assignCase_ok done
  have inTeam : ∀ person team, db'.inTeam person team = db.inTeam person team := fun person team => by
    unfold Db.inTeam
    rw [people]
  constructor
  · intro other level
    rw [live]
    split
    · split
      · exact le_refl 1
      · split
        · exact Nat.zero_le 1
        · exact held.single other level
    · exact held.single other level
  · intro other a member person holds
    rw [live] at member
    rw [live]
    by_cases same : other = caseId
    · subst same
      rw [if_pos rfl] at member ⊢
      cases holder with
      | team team => simp [Holder.level] at member
      | person person' =>
        -- the new row, checked against the team that is live
        have new : a = { caseId := other, holder := .person person', assignedBy := p.me } := by
          simpa [Holder.level] using member
        subst new
        obtain rfl := Holder.person.inj holds
        have under := stands person' rfl
        unfold personUnderLiveTeam at under
        obtain ⟨b, present, inside⟩ := List.any_eq_true.mp ((Bool.and_eq_true _ _).mp under).2
        rw [if_neg (by simp [Holder.level]), if_neg (by simp [Holder.level])]
        cases named : b.holder with
        | team team => exact ⟨b, present, team, named, by rw [inTeam]; simpa [named] using inside⟩
        | person _ => simp [named] at inside
    · rw [if_neg same] at member ⊢
      obtain ⟨b, present, team, named, inside⟩ := held.under other a member person holds
      exact ⟨b, present, team, named, by rw [inTeam]; exact inside⟩

theorem HeldUnderTeams.addTeamMember (held : db.HeldUnderTeams) {p : Principal} {teamId userId : String}
    (leaves : db.LeavesNothing (.addTeamMember p teamId userId)) :
    (db.step (.addTeamMember p teamId userId)).HeldUnderTeams := by
  refine held.withPeople fun person team holds inside => ?_
  cases done : People.addTeamMember p db.people teamId userId with
  | error refusal => exact inside
  | ok people =>
    obtain ⟨m, member, named, own, active⟩ := inTeam_iff.mp inside
    rw [inTeam_iff]
    simp only [Db.withPeople]
    unfold People.addTeamMember at done
    split at done
    · cases done
    rename_i joined found
    dsimp only at done
    split at done
    · -- the membership of the project moves
      obtain ⟨written, members⟩ := People.updateMember_members done
      rw [members]
      refine ⟨_, List.mem_map_of_mem member, ?_⟩
      split
      · rename_i hit
        simp only [Bool.and_eq_true, beq_iff_eq] at hit
        obtain ⟨⟨project, same⟩, seen⟩ := hit
        refine ⟨?_, own, rfl⟩
        by_contra left
        have differ : team ≠ joined.id := fun same => left (congrArg some same.symm)
        have moves := written m member (by simp [project, same]) seen
        refine leaves joined found m member project same active seen moves team named differ ?_
        rw [← same, own]
        exact holds
      · exact ⟨named, own, active⟩
    · rw [People.insertMember_members done]
      exact ⟨m, List.mem_append_left _ member, named, own, active⟩

theorem HeldUnderTeams.removeTeamMember (held : db.HeldUnderTeams) {p : Principal} {teamId userId : String}
    (leaves : db.LeavesNothing (.removeTeamMember p teamId userId)) :
    (db.step (.removeTeamMember p teamId userId)).HeldUnderTeams := by
  refine held.withPeople fun person team holds inside => ?_
  cases done : People.removeTeamMember p db.people teamId userId with
  | error refusal => exact inside
  | ok people =>
    obtain ⟨m, member, named, own, active⟩ := inTeam_iff.mp inside
    rw [inTeam_iff]
    simp only [Db.withPeople]
    unfold People.removeTeamMember at done
    split at done
    · cases done
    rename_i left found
    obtain ⟨written, members⟩ := People.updateMember_members done
    rw [members]
    refine ⟨m, List.mem_map.mpr ⟨m, member, if_neg fun hit => ?_⟩, named, own, active⟩
    simp only [Bool.and_eq_true, beq_iff_eq] at hit
    obtain ⟨⟨⟨project, same⟩, there⟩, seen⟩ := hit
    obtain rfl := Option.some.inj (named.symm.trans there)
    have moves := written m member (by simp [project, same, there]) seen
    refine leaves left found m member project same there active seen moves ?_
    rw [← same, own]
    exact holds

theorem inTeam_withPeople {result : Except People.Refusal People.Db}
    (same : ∀ people, result = .ok people → people.members = db.people.members) (person team : String) :
    (db.withPeople result).inTeam person team = db.inTeam person team := by
  cases result with
  | error refusal => rfl
  | ok people =>
    unfold inTeam withPeople
    rw [same people rfl]

theorem HeldUnderTeams.step (held : db.HeldUnderTeams) {move : Move} (leaves : db.LeavesNothing move) :
    (db.step move).HeldUnderTeams := by
  cases move with
  | assign p caseId holder now =>
    simp only [Db.step]
    split
    · exact held.assign (by assumption)
    · exact held
  | addTeamMember p teamId userId => exact held.addTeamMember leaves
  | removeTeamMember p teamId userId => exact held.removeTeamMember leaves
  | approve p userId now =>
    exact held.withPeople fun person team _ inside =>
      (inTeam_withPeople (fun _ done => People.approve_members done) person team).trans inside
  | deactivate p userId now =>
    exact held.withPeople fun person team _ inside =>
      (inTeam_withPeople (fun _ done => People.deactivate_members done) person team).trans inside
  | reactivate p userId now =>
    exact held.withPeople fun person team _ inside =>
      (inTeam_withPeople (fun _ done => People.reactivate_members done) person team).trans inside

theorem heldUnderTeams_unassigned (people : People.Db) (cases : List CaseRecord) :
    (unassigned people cases).HeldUnderTeams where
  single _ _ := Nat.zero_le 1
  under _ _ member := by cases member

/-- In a run in which nobody leaves a team under which they hold a case, a person holds one only under their team. -/
theorem heldUnderTeams_of_leavesNothing (people : People.Db) (cases : List CaseRecord) (moves : List Move)
    (leaves : ∀ first move rest, moves = first ++ move :: rest →
      (first.foldl step (unassigned people cases)).LeavesNothing move) :
    ∀ first rest, moves = first ++ rest → (first.foldl step (unassigned people cases)).HeldUnderTeams :=
  Lib.reached_of_met (fun _ _ held leaves => held.step leaves) (heldUnderTeams_unassigned people cases) leaves

def Moves (db : Db) (p : Principal) (now : ℕ) (caseId : String) : Holder → Prop
  | .team team => ∃ db', assignCase p now db caseId (.team team) = .ok db' ∧
      (db'.live caseId .team).map (·.holder) = [.team team]
  | .person person =>
    ((∃ db', assignCase p now db caseId (.person person) = .ok db') ↔ personUnderLiveTeam p db caseId person = true) ∧
      ∀ db', assignCase p now db caseId (.person person) = .ok db' →
        (db'.live caseId .person).map (·.holder) = [.person person]

def HolderStands (db : Db) (p : Principal) (caseId : String) : Prop :=
  ∀ a ∈ db.live caseId .person, ∀ person, a.holder = .person person → personUnderLiveTeam p db caseId person = true

theorem insertAssignment_succeeds {p : Principal} {row : Assignment} (writes : writesAssignment p db row = true)
    (free : db.live row.caseId row.holder.level = []) (there : ∃ c ∈ db.cases, c.id = row.caseId)
    (team : ∀ t, row.holder = .team t → ∃ team ∈ db.people.teams, team.id = t) :
    ∃ db', insertAssignment p db row = .ok db' := by
  have known : db.cases.any (·.id == row.caseId) = true := by
    obtain ⟨c, member, same⟩ := there
    exact List.any_eq_true.mpr ⟨c, member, by simpa using same⟩
  unfold insertAssignment
  rw [writes, free, known]
  cases holds : row.holder with
  | person person => exact ⟨_, rfl⟩
  | team t =>
    obtain ⟨team, member, same⟩ := team t holds
    have known : db.people.teams.any (·.id == t) = true := List.any_eq_true.mpr ⟨team, member, by simpa using same⟩
    simp only [known]
    exact ⟨_, rfl⟩

section OrgWide

variable {p : Principal} {now : ℕ} {caseId : String} (wide : p.orgWide = true) (may : p.has .sampleAssign = true)
include wide

theorem caseInScope_of_orgWide (db : Db) (caseId : String) : caseInScope p db caseId = true := by
  unfold caseInScope
  rw [wide, Bool.true_or, Bool.true_or]

include may

theorem writesAssignment_of_orgWide {row : Assignment} : writesAssignment p db row = true ↔
    ∀ person, row.holder = .person person → personUnderLiveTeam p db row.caseId person = true := by
  unfold writesAssignment
  rw [may, caseInScope_of_orgWide wide]
  cases row.holder with
  | team team => simp [wide]
  | person person => simp [wide]

theorem release_person_ok_iff : (∃ db', release p now db caseId .person = .ok db') ↔ db.HolderStands p caseId := by
  unfold release HolderStands
  rw [caseInScope_of_orgWide wide, Bool.true_and]
  constructor
  · rintro ⟨db', done⟩ a member person holds
    split at done
    · cases done
    rename_i allowed
    simp only [Bool.not_eq_true', Bool.not_eq_false, List.all_eq_true] at allowed
    have writes := (writesAssignment_of_orgWide wide may).mp (allowed a member) person holds
    rw [(mem_live.mp member).2.1] at writes
    exact writes
  · intro stands
    rw [if_neg]
    · exact ⟨_, rfl⟩
    · simp only [Bool.not_eq_true', Bool.not_eq_false, List.all_eq_true]
      intro a member
      refine (writesAssignment_of_orgWide wide may).mpr fun person holds => ?_
      rw [(mem_live.mp member).2.1]
      exact stands a member person holds

theorem release_team_ok (db : Db) : ∃ db', release p now db caseId .team = .ok db' := by
  unfold release
  rw [if_neg]
  · exact ⟨_, rfl⟩
  · rw [caseInScope_of_orgWide wide, Bool.true_and]
    simp only [Bool.not_eq_true', Bool.not_eq_false, List.all_eq_true]
    intro a member
    refine (writesAssignment_of_orgWide wide may).mpr fun person holds => ?_
    have level := (mem_live.mp member).2.2.2
    rw [holds] at level
    cases level

theorem assign_team_ok_iff {t : String} (there : ∃ c ∈ db.cases, c.id = caseId)
    (team : ∃ team ∈ db.people.teams, team.id = t) :
    (∃ db', assignCase p now db caseId (.team t) = .ok db') ↔ db.HolderStands p caseId := by
  rw [← release_person_ok_iff wide may]
  constructor
  · rintro ⟨db', done⟩
    obtain ⟨one, first, -⟩ := Lib.bind_ok_iff.mp done
    exact ⟨one, first⟩
  · rintro ⟨one, first⟩
    obtain ⟨two, second⟩ := release_team_ok wide may one
    have people : two.people = db.people := (release_people second).1.trans (release_people first).1
    have cases' : two.cases = db.cases := (release_people second).2.trans (release_people first).2
    have free : two.live caseId .team = [] := by
      rw [live_release second, if_pos ⟨rfl, rfl, caseInScope_of_orgWide wide one caseId⟩]
    let row : Assignment := { caseId, holder := .team t, assignedBy := p.me }
    have writes : writesAssignment p two row = true :=
      (writesAssignment_of_orgWide wide may).mpr fun _ holds => by cases holds
    obtain ⟨db', third⟩ := insertAssignment_succeeds writes free (by rw [cases']; exact there)
      (fun t' same => by obtain rfl := Holder.team.inj same; rw [people]; exact team)
    exact ⟨db', Lib.bind_ok_iff.mpr ⟨one, first, Lib.bind_ok_iff.mpr ⟨two, second, third⟩⟩⟩

theorem assign_person_ok_iff {person : String} (there : ∃ c ∈ db.cases, c.id = caseId) :
    (∃ db', assignCase p now db caseId (.person person) = .ok db') ↔
      db.HolderStands p caseId ∧ personUnderLiveTeam p db caseId person = true := by
  constructor
  · rintro ⟨db', done⟩
    obtain ⟨one, first, -⟩ := Lib.bind_ok_iff.mp done
    obtain ⟨-, -, -, -, stands⟩ := assignCase_ok done
    exact ⟨(release_person_ok_iff wide may).mp ⟨one, first⟩, stands person rfl⟩
  · rintro ⟨stands, under⟩
    obtain ⟨one, first⟩ := (release_person_ok_iff wide may).mpr stands
    have team : one.live caseId .team = db.live caseId .team := by
      rw [live_release first, if_neg (by simp)]
    have free : one.live caseId .person = [] := by
      rw [live_release first, if_pos ⟨rfl, rfl, caseInScope_of_orgWide wide db caseId⟩]
    let row : Assignment := { caseId, holder := .person person, assignedBy := p.me }
    have writes : writesAssignment p one row = true := by
      refine (writesAssignment_of_orgWide wide may).mpr fun person' holds => ?_
      obtain rfl := Holder.person.inj holds
      exact (personUnderLiveTeam_congr (release_people first).1 team person).trans under
    obtain ⟨db', second⟩ := insertAssignment_succeeds writes free (by rw [(release_people first).2]; exact there)
      fun _ holds => by cases holds
    exact ⟨db', Lib.bind_ok_iff.mpr ⟨one, first, second⟩⟩

theorem moves_iff_holderStands {holder : Holder} (there : ∃ c ∈ db.cases, c.id = caseId)
    (team : ∀ t, holder = .team t → ∃ team ∈ db.people.teams, team.id = t) :
    db.Moves p now caseId holder ↔ db.HolderStands p caseId ∨
      ∃ person, holder = .person person ∧ personUnderLiveTeam p db caseId person = false := by
  have only {db' : Db} {holder : Holder} (done : assignCase p now db caseId holder = .ok db') :
      (db'.live caseId holder.level).map (·.holder) = [holder] := by
    obtain ⟨-, -, -, live, -⟩ := assignCase_ok done
    rw [live, if_pos rfl, if_pos rfl]
    rfl
  cases holder with
  | team t =>
    have ok : (∃ db', assignCase p now db caseId (.team t) = .ok db') ↔ db.HolderStands p caseId :=
      assign_team_ok_iff wide may there (team t rfl)
    constructor
    · rintro ⟨db', done, -⟩
      exact .inl (ok.mp ⟨db', done⟩)
    · rintro (stands | ⟨person, other, -⟩)
      · obtain ⟨db', done⟩ := ok.mpr stands
        exact ⟨db', done, only done⟩
      · cases other
  | person person =>
    have ok : (∃ db', assignCase p now db caseId (.person person) = .ok db') ↔
        db.HolderStands p caseId ∧ personUnderLiveTeam p db caseId person = true := assign_person_ok_iff wide may there
    simp only [Moves, ok]
    constructor
    · rintro ⟨exactly, -⟩
      cases under : personUnderLiveTeam p db caseId person with
      | true => exact .inl (exactly.mpr under).1
      | false => exact .inr ⟨person, rfl, under⟩
    · rintro (stands | ⟨person', same, under⟩)
      · exact ⟨⟨And.right, fun under => ⟨stands, under⟩⟩, fun _ done => only done⟩
      · obtain rfl := Holder.person.inj same
        rw [under]
        exact ⟨⟨And.right, fun absurd => by cases absurd⟩, fun _ done => only done⟩

end OrgWide

/-- In every state reached, a case can be moved as it should exactly when its holder stands, or where it should not be
given to the person named anyway. -/
theorem reached_moves_iff (people : People.Db) (cases : List CaseRecord) (history : List Move) (p : Principal) (now : ℕ)
    (caseId : String) (holder : Holder) (wide : p.orgWide = true) (may : p.has .sampleAssign = true)
    (there : ∃ c ∈ (history.foldl step (unassigned people cases)).cases, c.id = caseId ∧ ∀ t, holder = .team t →
      ∃ team ∈ (history.foldl step (unassigned people cases)).people.teams, team.id = t ∧ team.projectId = c.projectId) :
    (history.foldl step (unassigned people cases)).Moves p now caseId holder ↔
      (history.foldl step (unassigned people cases)).HolderStands p caseId ∨
        ∃ person, holder = .person person ∧
          personUnderLiveTeam p (history.foldl step (unassigned people cases)) caseId person = false := by
  obtain ⟨c, member, same, inProject⟩ := there
  refine moves_iff_holderStands wide may ⟨c, member, same⟩ fun t holds => ?_
  obtain ⟨team, present, named, -⟩ := inProject t holds
  exact ⟨team, present, named⟩

def twoTeams : People.Db where
  projects := [⟨"p", "org"⟩]
  teams := [⟨"A", "p", none⟩, ⟨"B", "p", none⟩]
  users := [⟨"admin", "org", "admin", none⟩, ⟨"worker", "org", "worker", none⟩]
  memberships := [⟨"org", "admin", .active, none, none, none⟩, ⟨"org", "worker", .active, none, none, none⟩]
  members := [⟨"p", "worker", some "A", .active⟩]

def oneCase : List CaseRecord := [{ id := "c", projectId := "p" }]

def admin : Principal where
  orgId := "org"
  userId := "admin"
  scopeKind := some .organization
  visibleUserIds := {"admin"}
  projectIds := ∅
  teamIds := ∅
  permissions := {.sampleAssign, .userDeactivate}

def given : List Move := [.assign admin "c" (.team "A") 1, .assign admin "c" (.person "worker") 2]

theorem given_moves : (given.foldl step (unassigned twoTeams oneCase)).Moves admin 3 "c" (.team "B") := by
  refine (reached_moves_iff twoTeams oneCase given admin 3 "c" (.team "B") (by decide) (by decide) ?_).mpr (.inl ?_)
  · refine ⟨{ id := "c", projectId := "p" }, List.mem_singleton_self _, rfl, fun t same => ?_⟩
    obtain rfl := Holder.team.inj same
    exact ⟨⟨"B", "p", none⟩, List.mem_cons_of_mem _ List.mem_cons_self, rfl, rfl⟩
  · intro a member person holds
    have only : (given.foldl step (unassigned twoTeams oneCase)).live "c" .person =
      [{ caseId := "c", holder := .person "worker", assignedBy := some "admin" }] := by decide +kernel
    rw [only, List.mem_singleton] at member
    subst member
    obtain rfl := Holder.person.inj holds
    decide +kernel

def thenDeactivated : List Move := given ++ [.deactivate admin "worker" 3]

def thenMoved : List Move := given ++ [.addTeamMember admin "B" "worker"]

/-- Once the worker is deactivated, nobody moves the case: the release is refused. -/
theorem deactivated_stuck :
    ¬ (thenDeactivated.foldl step (unassigned twoTeams oneCase)).Moves admin 4 "c" (.team "B") := by
  rintro ⟨db', done, -⟩
  have refused : assignCase admin 4 (thenDeactivated.foldl step (unassigned twoTeams oneCase)) "c"
      (.team "B") = .error .outsideYourAuthority := by rfl
  rw [refused] at done
  cases done

def movedFirst : List Move :=
  [.addTeamMember admin "B" "worker", .assign admin "c" (.team "B") 1, .assign admin "c" (.person "worker") 2]

theorem movedFirst_heldUnderTeams : (movedFirst.foldl step (unassigned twoTeams oneCase)).HeldUnderTeams := by
  refine heldUnderTeams_of_leavesNothing twoTeams oneCase movedFirst ?_ movedFirst [] (List.append_nil _).symm
  refine Lib.along_total_iff.mp ⟨?_, fun _ _ => ⟨trivial, fun _ _ => ⟨trivial, fun _ _ => trivial⟩⟩⟩
  rintro team - m - - - - - - left - - ⟨caseId, ⟨a, none, -⟩, -⟩
  cases none

/-- The worker is moved while they hold the case under their first team. -/
theorem moved_not_heldUnderTeams :
    ¬ ∀ first rest, thenMoved = first ++ rest →
      (first.foldl step (unassigned twoTeams oneCase)).HeldUnderTeams := by
  intro reached
  have held := reached thenMoved [] (List.append_nil _).symm
  have live : (thenMoved.foldl step (unassigned twoTeams oneCase)).live "c" .person =
      [{ caseId := "c", holder := .person "worker", assignedBy := some "admin" }] := by decide +kernel
  obtain ⟨b, member, team, named, inside⟩ := held.under "c" _ (by rw [live]; exact List.mem_singleton_self _) "worker" rfl
  have only : (thenMoved.foldl step (unassigned twoTeams oneCase)).live "c" .team =
      [{ caseId := "c", holder := .team "A", assignedBy := some "admin" }] := by decide +kernel
  rw [only, List.mem_singleton] at member
  subst member
  obtain rfl := Holder.team.inj named
  revert inside
  decide +kernel

end Db

end DataCollectionLab.Cases
