import DataCollectionLab.Projects.Keys

/-!
What the recipients of a project are through a run: an active key remains, and no public key is active twice. Both hold
as long as what a transaction has read of the keys stands until it commits.
-/

namespace DataCollectionLab.Projects

open Lib

namespace Server

variable (env : Environment) (s : Server)

def Distinct : Prop := (s.active.map (·.publicKey)).Nodup

instance : Decidable s.Distinct := inferInstanceAs (Decidable (s.active.map (·.publicKey)).Nodup)

def KeepsRecipients (moves : List Action) : Prop :=
  (s.project.securityMode ≠ .standard → ∀ first later rest s₁ s₂, moves = first ++ later ++ rest →
    run (step env) s first = some s₁ → run (step env) s₁ later = some s₂ → s₁.active ≠ [] → s₂.active ≠ []) ∧
  (s.Distinct → ∀ first rest s₁, moves = first ++ rest → run (step env) s first = some s₁ → s₁.Distinct)

/-- A count that finds another active key finds one that nobody else is revoking, and a public key that passes its
check is in nobody else's hand. -/
def Heeds : Action → Prop
  | .next t _ =>
    match s.txs.lookup t with
    | some (.found keyId) =>
      s.project.securityMode ≠ .standard → s.remaining keyId ≠ [] →
        ∃ key ∈ s.remaining keyId, Others (fun other => other.retires ≠ some key.id) t s.txs
    | some (.adding request) =>
      s.refusesChecked env request = none → Others (fun other => other.brings ≠ some request.publicKey) t s.txs
    | _ => True
  | _ => True

instance : DecidablePred (s.Heeds env) := fun action => by
  unfold Heeds
  split
  · split <;> infer_instance
  · infer_instance

def atRest (project : Project) (keys : List ProjectKey) : Server := { project, keys }

inductive Effect : Action → Server → Prop where
  | stays (action : Action) : Effect action s
  | ends (action : Action) (t : ℕ) : Effect action (s.ends t)
  | begins {t : ℕ} {tx : Tx} (action : Action) (brings : tx.brings = none) (names : tx.names = none)
      (inserted : tx.insertedId = none) : Effect action (s.goes t tx)
  | checks {t : ℕ} {draw : Draw} {request : ProjectKeyCreate} (mine : s.txs.lookup t = some (.adding request))
      (passes : s.refusesChecked env request = none) : Effect (.next t draw) (s.goes t (.checked request))
  | inserts {t : ℕ} {draw : Draw} {request : ProjectKeyCreate} (mine : s.txs.lookup t = some (.checked request))
      (alone : Others (fun other => other.insertedId ≠ some draw.id) t s.txs)
      (fresh : ¬ ∃ key ∈ s.keys, key.id = draw.id) :
      Effect (.next t draw) (s.goes t (.inserted (s.newKey request draw)))
  | reads {t : ℕ} {draw : Draw} {keyId : String} {key : ProjectKey} (mine : s.txs.lookup t = some (.revoking keyId))
      (got : s.getKey keyId = some key) : Effect (.next t draw) (s.goes t (.found keyId))
  | counts {t : ℕ} {draw : Draw} {keyId : String} (mine : s.txs.lookup t = some (.found keyId))
      (passes : s.refusesRevoke keyId = none) : Effect (.next t draw) (s.goes t (.counted keyId))
  | updates {t : ℕ} {draw : Draw} {keyId : String} (mine : s.txs.lookup t = some (.counted keyId)) :
      Effect (.next t draw) (s.goes t (.updated keyId draw.now))
  | adds {t : ℕ} {key : ProjectKey} (mine : s.txs.lookup t = some (.inserted key)) :
      Effect (.commit t) { s.ends t with keys := s.keys ++ [key] }
  | revokes {t : ℕ} {keyId : String} {at' : ℕ} (mine : s.txs.lookup t = some (.updated keyId at')) :
      Effect (.commit t) { s.ends t with keys := s.keys.map (retire keyId at') }

variable {env s} {s' : Server} {action : Action}

theorem effect_of_exec {t : ℕ} {draw : Draw} {tx : Tx} (mine : s.txs.lookup t = some tx)
    (ran : s.exec env t draw tx = some s') : Effect env s (.next t draw) s' := by
  cases tx with
  | adding request =>
    obtain rfl := Option.some.inj ran
    split
    · exact .ends _ t
    · exact .checks mine (by assumption)
  | checked request =>
    simp only [exec] at ran
    split at ran
    case isFalse => cases ran
    rename_i alone
    split at ran
    · obtain rfl := Option.some.inj ran
      exact .ends _ t
    · rename_i fresh
      obtain rfl := Option.some.inj ran
      exact .inserts mine alone fresh
  | revoking keyId =>
    obtain rfl := Option.some.inj ran
    cases got : s.getKey keyId with
    | none =>
      simp only [readKey, got]
      exact .ends _ t
    | some key =>
      simp only [readKey, got]
      split
      · exact .begins _ rfl rfl rfl
      · exact .reads mine got
  | found keyId =>
    obtain rfl := Option.some.inj ran
    split
    · exact .ends _ t
    · exact .counts mine (by assumption)
  | counted keyId =>
    simp only [exec] at ran
    split at ran
    case isFalse => cases ran
    obtain rfl := Option.some.inj ran
    exact .updates mine
  | inserted key => cases ran
  | updated keyId revokedAt => cases ran
  | unchanged => cases ran

theorem effect_of_step (stepped : s.step env action = some s') : Effect env s action s' := by
  cases action with
  | add t request =>
    simp only [step] at stepped
    split at stepped
    case isFalse => cases stepped
    obtain rfl := Option.some.inj stepped
    split
    · exact .stays _
    · exact .begins _ rfl rfl rfl
  | revoke t keyId =>
    simp only [step] at stepped
    split at stepped
    case isFalse => cases stepped
    obtain rfl := Option.some.inj stepped
    exact .begins _ rfl rfl rfl
  | next t draw =>
    obtain ⟨tx, mine, ran⟩ := Option.bind_eq_some_iff.mp stepped
    exact effect_of_exec mine ran
  | commit t =>
    obtain ⟨tx, mine, ran⟩ := Option.bind_eq_some_iff.mp stepped
    cases tx with
    | inserted key =>
      obtain rfl := Option.some.inj ran
      exact .adds mine
    | updated keyId revokedAt =>
      obtain rfl := Option.some.inj ran
      exact .revokes mine
    | unchanged =>
      obtain rfl := Option.some.inj ran
      exact .ends _ t
    | adding | checked | revoking | found | counted => cases ran
  | abort t =>
    obtain rfl := Option.some.inj stepped
    exact .ends _ t

theorem active_retire (s : Server) (keyId : String) (revokedAt : ℕ) :
    (s.keys.map (retire keyId revokedAt)).filter s.isActive = s.remaining keyId := by
  unfold remaining active
  induction s.keys with
  | nil => rfl
  | cons key rest ih =>
    rw [List.map_cons, List.filter_cons, List.filter_cons, ih]
    by_cases same : key.id = keyId
    · -- revoked now, so on neither side
      rw [retire, if_pos same, if_neg (by simp [isActive])]
      split
      · rw [List.filter_cons_of_neg (by simp [same])]
      · rfl
    · rw [retire, if_neg same]
      split
      · rw [List.filter_cons_of_pos (by simpa using same)]
      · rfl

theorem Tx.names_of_retires {tx : Tx} {keyId : String} (retires : tx.retires = some keyId) :
    tx.names = some keyId := by
  cases tx <;> first | exact retires | cases retires

/-! ### Public keys stay distinct -/

structure KeyInv (s : Server) : Prop where
  distinct : s.Distinct
  fresh : Each (fun tx => ∀ k, tx.brings = some k → ∀ key ∈ s.active, key.publicKey ≠ k) s.txs
  apart : Pairs (fun tx tx' => ∀ k, tx.brings = some k → tx'.brings ≠ some k) s.txs

namespace KeyInv

variable (inv : KeyInv s)
include inv

theorem ends (t : ℕ) : KeyInv (s.ends t) := ⟨inv.distinct, inv.fresh.erase t, inv.apart.erase t⟩

theorem goes_same {t : ℕ} {tx tx' : Tx} (mine : s.txs.lookup t = some tx)
    (same : ∀ k, tx'.brings = some k → tx.brings = some k) : KeyInv (s.goes t tx') := by
  refine ⟨inv.distinct, inv.fresh.insert (fun k brings => inv.fresh t tx mine k (same k brings)) t, ?_⟩
  refine inv.apart.insert fun t' other differ found => ⟨fun k brings => ?_, fun k brings both => ?_⟩
  · exact inv.apart t t' tx other (Ne.symm differ) mine found k (same k brings)
  · exact inv.apart t' t other tx differ found mine k brings (same k both)

theorem goes_none {t : ℕ} {tx : Tx} (brings : tx.brings = none) : KeyInv (s.goes t tx) := by
  refine ⟨inv.distinct, inv.fresh.insert (fun k brought => ?_) t, inv.apart.insert fun t' other differ found =>
    ⟨fun k brought => ?_, fun k _ both => ?_⟩⟩
  · rw [brings] at brought
    cases brought
  · rw [brings] at brought
    cases brought
  · rw [brings] at both
    cases both

theorem step {action : Action} (heeds : s.Heeds env action) (stepped : s.step env action = some s') : KeyInv s' := by
  cases effect_of_step stepped with
  | stays => exact inv
  | ends _ t => exact inv.ends t
  | begins _ brings => exact inv.goes_none brings
  | reads | counts | updates => exact inv.goes_none rfl
  | inserts mine => exact inv.goes_same mine fun k brings => brings
  | @checks t draw request mine passes =>
    have alone : Others (fun other => other.brings ≠ some request.publicKey) t s.txs := by
      simp only [Heeds, mine] at heeds
      exact heeds passes
    have none : s.duplicates request.publicKey = [] := by
      unfold refusesChecked at passes
      split at passes
      · cases passes
      · exact not_not.mp (by assumption)
    refine ⟨inv.distinct, inv.fresh.insert (fun k brings key active same => ?_) t, inv.apart.insert fun t' other differ found =>
      ⟨fun k brings both => ?_, fun k brings both => ?_⟩⟩
    · obtain rfl := Option.some.inj brings
      have member : key ∈ s.duplicates request.publicKey := List.mem_filter.mpr ⟨active, by simpa using same⟩
      rw [none] at member
      cases member
    · obtain rfl := Option.some.inj brings
      exact others_iff.mp alone t' other differ found both
    · obtain rfl := Option.some.inj both
      exact others_iff.mp alone t' other differ found brings
  | @adds t key mine =>
    have added : ({ s.ends t with keys := s.keys ++ [key] } : Server).active = s.active ++ [key].filter s.isActive :=
      List.filter_append ..
    have new := inv.fresh t _ mine key.publicKey rfl
    refine ⟨?_, ?_, inv.apart.erase t⟩
    · unfold Distinct
      rw [added, List.map_append]
      refine List.Nodup.append inv.distinct ?_ ?_
      · exact (List.filter_sublist.map _).nodup (List.nodup_singleton key.publicKey)
      · intro k old brought
        obtain ⟨key', active, rfl⟩ := List.mem_map.mp old
        obtain ⟨key'', only, same⟩ := List.mem_map.mp brought
        obtain rfl := List.mem_singleton.mp (List.mem_filter.mp only).1
        exact new key' active same.symm
    · intro t' other found k brings key' active
      obtain ⟨differ, before⟩ := lookup_erase_some found
      rw [added] at active
      rcases List.mem_append.mp active with old | only
      · exact inv.fresh t' other before k brings key' old
      · obtain rfl := List.mem_singleton.mp (List.mem_filter.mp only).1
        intro same
        exact inv.apart t' t other _ differ before mine k brings (congrArg some same)
  | @revokes t keyId at' mine =>
    have left : ({ s.ends t with keys := s.keys.map (retire keyId at') } : Server).active = s.remaining keyId :=
      active_retire s keyId at'
    refine ⟨?_, fun t' other found k brings key active => ?_, inv.apart.erase t⟩
    · unfold Distinct
      rw [left]
      exact (List.filter_sublist.map _).nodup inv.distinct
    · rw [left] at active
      exact inv.fresh t' other (lookup_erase_some found).2 k brings key (List.mem_filter.mp active).1

end KeyInv

/-! ### An active key remains -/

structure SpareInv (s : Server) : Prop where
  known : Each (fun tx => ∀ id, tx.names = some id → ∃ key ∈ s.keys, key.id = id) s.txs
  unborn : Each (fun tx => ∀ id, tx.insertedId = some id → ∀ key ∈ s.keys, key.id ≠ id) s.txs
  once : Pairs (fun tx tx' => ∀ id, tx.insertedId = some id → tx'.insertedId ≠ some id) s.txs
  /-- One of the active keys is in no revocation's hand. -/
  spare : s.project.securityMode ≠ .standard → s.active ≠ [] →
    ∃ key ∈ s.active, Each (fun tx => tx.retires ≠ some key.id) s.txs

namespace SpareInv

variable (inv : SpareInv s)
include inv

theorem ends (t : ℕ) : SpareInv (s.ends t) where
  known := inv.known.erase t
  unborn := inv.unborn.erase t
  once := inv.once.erase t
  spare encrypting collects := by
    obtain ⟨key, active, free⟩ := inv.spare encrypting collects
    exact ⟨key, active, free.erase t⟩

theorem goes {t : ℕ} {tx : Tx} (known : ∀ id, tx.names = some id → ∃ key ∈ s.keys, key.id = id)
    (inserted : tx.insertedId = none)
    (spare : s.project.securityMode ≠ .standard → s.active ≠ [] →
      ∃ key ∈ s.active, tx.retires ≠ some key.id ∧ Others (fun other => other.retires ≠ some key.id) t s.txs) :
    SpareInv (s.goes t tx) where
  known := inv.known.insert known t
  unborn := inv.unborn.insert (fun id own => by rw [inserted] at own; cases own) t
  once := inv.once.insert fun t' other _ _ =>
    ⟨fun id own => (by rw [inserted] at own; cases own), fun id _ both => (by rw [inserted] at both; cases both)⟩
  spare encrypting collects := by
    obtain ⟨key, active, mine, others⟩ := spare encrypting collects
    refine ⟨key, active, fun t' other found => ?_⟩
    rcases lookup_insert_some found with ⟨-, rfl⟩ | ⟨differ, old⟩
    · exact mine
    · exact others_iff.mp others t' other differ old

theorem keeps_spare {t : ℕ} {tx : Tx} (same : ∀ id, tx.retires = some id →
      ∃ before, s.txs.lookup t = some before ∧ before.retires = some id) :
    s.project.securityMode ≠ .standard → s.active ≠ [] →
      ∃ key ∈ s.active, tx.retires ≠ some key.id ∧ Others (fun other => other.retires ≠ some key.id) t s.txs := by
  intro encrypting collects
  obtain ⟨key, active, free⟩ := inv.spare encrypting collects
  refine ⟨key, active, fun retires => ?_, others_iff.mpr fun t' other _ found => free t' other found⟩
  obtain ⟨before, mine, retired⟩ := same key.id retires
  exact free t before mine retired

theorem remaining {t : ℕ} {keyId : String} {at' : ℕ} (mine : s.txs.lookup t = some (.updated keyId at'))
    (encrypting : s.project.securityMode ≠ .standard) (collects : s.active ≠ []) :
    ∃ key ∈ s.remaining keyId, Each (fun tx => tx.retires ≠ some key.id) s.txs := by
  obtain ⟨key, active, free⟩ := inv.spare encrypting collects
  refine ⟨key, List.mem_filter.mpr ⟨active, ?_⟩, free⟩
  have apart : key.id ≠ keyId := fun same => free t _ mine (congrArg some same.symm)
  simpa using apart

theorem step {action : Action} (heeds : s.Heeds env action) (stepped : s.step env action = some s') :
    SpareInv s' := by
  cases effect_of_step stepped with
  | stays => exact inv
  | ends _ t => exact inv.ends t
  | begins _ brings names inserted =>
    refine inv.goes (fun id own => ?_) inserted (inv.keeps_spare fun id retires => ?_)
    · rw [names] at own
      cases own
    · rw [Tx.names_of_retires retires] at names
      cases names
  | checks mine =>
    exact inv.goes (fun id own => (by cases own)) rfl (inv.keeps_spare fun id retires => (by cases retires))
  | @reads t draw keyId key mine got =>
    refine inv.goes (fun id own => ?_) rfl (inv.keeps_spare fun id retires => (by cases retires))
    obtain rfl := Option.some.inj own
    have read := List.find?_some got
    simp only [Bool.and_eq_true, beq_iff_eq] at read
    exact ⟨key, List.mem_of_find?_eq_some got, read.1⟩
  | @counts t draw keyId mine passes =>
    refine inv.goes (inv.known t (.found keyId) mine) rfl fun encrypting _ => ?_
    have others : s.remaining keyId ≠ [] := by
      intro none
      unfold refusesRevoke at passes
      rw [if_pos ⟨encrypting, none⟩] at passes
      cases passes
    simp only [Heeds, mine] at heeds
    obtain ⟨key, member, free⟩ := heeds encrypting others
    obtain ⟨active, apart⟩ := List.mem_filter.mp member
    refine ⟨key, active, fun same => ?_, free⟩
    obtain rfl := Option.some.inj same
    simp at apart
  | @updates t draw keyId mine =>
    exact inv.goes (inv.known t (.counted keyId) mine) rfl (inv.keeps_spare fun id retires => ⟨_, mine, retires⟩)
  | @inserts t draw request mine alone fresh =>
    have new : ∀ key ∈ s.keys, key.id ≠ draw.id := fun key member same => fresh ⟨key, member, same⟩
    refine ⟨inv.known.insert (fun id own => (by cases own)) t, inv.unborn.insert (fun id own => ?_) t,
      inv.once.insert fun t' other differ found => ⟨fun id own both => ?_, fun id own both => ?_⟩,
      fun encrypting collects => ?_⟩
    · obtain rfl := Option.some.inj own
      exact new
    · obtain rfl := Option.some.inj own
      exact others_iff.mp alone t' other differ found both
    · obtain rfl := Option.some.inj both
      exact others_iff.mp alone t' other differ found own
    · obtain ⟨key, active, free⟩ := inv.spare encrypting collects
      exact ⟨key, active, free.insert (fun retires => (by cases retires)) t⟩
  | @adds t key mine =>
    have unborn := inv.unborn t _ mine key.id rfl
    have added : ({ s.ends t with keys := s.keys ++ [key] } : Server).active = s.active ++ [key].filter s.isActive :=
      List.filter_append ..
    refine ⟨fun t' other found id names => ?_, fun t' other found id inserted key' member => ?_, inv.once.erase t,
      fun encrypting collects => ?_⟩
    · obtain ⟨key', member, same⟩ := inv.known t' other (lookup_erase_some found).2 id names
      exact ⟨key', List.mem_append_left _ member, same⟩
    · obtain ⟨differ, before⟩ := lookup_erase_some found
      rcases List.mem_append.mp member with old | only
      · exact inv.unborn t' other before id inserted key' old
      · obtain rfl := List.mem_singleton.mp only
        intro same
        exact inv.once t' t other _ differ before mine id inserted (congrArg some same)
    · by_cases before : s.active = []
      · -- the first active key: no revocation has read it
        rw [added, before, List.nil_append] at collects
        obtain ⟨key', member⟩ := List.exists_mem_of_ne_nil _ collects
        refine ⟨key', by rw [added]; exact List.mem_append_right _ member, fun t' other found retires => ?_⟩
        obtain rfl := List.mem_singleton.mp (List.mem_filter.mp member).1
        obtain ⟨old, present, same⟩ :=
          inv.known t' other (lookup_erase_some found).2 _ (Tx.names_of_retires retires)
        exact unborn old present same
      · obtain ⟨key', active, free⟩ := inv.spare encrypting before
        exact ⟨key', by rw [added]; exact List.mem_append_left _ active, free.erase t⟩
  | @revokes t keyId at' mine =>
    have left : ({ s.ends t with keys := s.keys.map (retire keyId at') } : Server).active = s.remaining keyId :=
      active_retire s keyId at'
    have ids : ∀ key, (retire keyId at' key).id = key.id := fun key => by
      unfold retire
      split <;> rfl
    refine ⟨fun t' other found id names => ?_, fun t' other found id inserted key member => ?_, inv.once.erase t,
      fun encrypting collects => ?_⟩
    · obtain ⟨key, member, same⟩ := inv.known t' other (lookup_erase_some found).2 id names
      exact ⟨retire keyId at' key, List.mem_map_of_mem member, (ids key).trans same⟩
    · obtain ⟨key', before, rfl⟩ := List.mem_map.mp member
      rw [ids]
      exact inv.unborn t' other (lookup_erase_some found).2 id inserted key' before
    · have before : s.active ≠ [] := by
        intro none
        rw [left, Server.remaining, none] at collects
        exact collects rfl
      obtain ⟨key, remains, free⟩ := inv.remaining mine encrypting before
      exact ⟨key, by rw [left]; exact remains, free.erase t⟩

theorem active_step {action : Action} (encrypting : s.project.securityMode ≠ .standard) (collects : s.active ≠ [])
    (stepped : s.step env action = some s') : s'.active ≠ [] := by
  cases effect_of_step stepped with
  | stays | ends | begins | checks | reads | counts | updates | inserts => exact collects
  | @adds t key mine =>
    have added : ({ s.ends t with keys := s.keys ++ [key] } : Server).active = s.active ++ [key].filter s.isActive :=
      List.filter_append ..
    rw [added]
    exact List.append_ne_nil_of_left_ne_nil collects _
  | @revokes t keyId at' mine =>
    obtain ⟨key, remains, -⟩ := inv.remaining mine encrypting collects
    rw [← active_retire s keyId at'] at remains
    exact List.ne_nil_of_mem remains

end SpareInv

theorem project_step (stepped : s.step env action = some s') : s'.project = s.project := by
  cases effect_of_step stepped <;> rfl

theorem keyInv_atRest {project : Project} {keys : List ProjectKey} (distinct : (atRest project keys).Distinct) :
    KeyInv (atRest project keys) :=
  ⟨distinct, fun _ _ found => (by cases found), fun _ _ _ _ _ found => (by cases found)⟩

theorem spareInv_atRest (project : Project) (keys : List ProjectKey) : SpareInv (atRest project keys) where
  known _ _ found := by cases found
  unborn _ _ found := by cases found
  once _ _ _ _ _ found := by cases found
  spare _ collects := by
    obtain ⟨key, active⟩ := List.exists_mem_of_ne_nil _ collects
    exact ⟨key, active, fun _ _ found => (by cases found)⟩

/-- A project keeps its recipients where every check still stands when its transaction commits. -/
theorem keepsRecipients_of_heeds (env : Environment) (project : Project) (keys : List ProjectKey) (moves : List Action)
    (heeds : Along (step env) (fun s action => s.Heeds env action) (atRest project keys) moves) :
    (atRest project keys).KeepsRecipients env moves := by
  refine ⟨fun encrypting first later rest s₁ s₂ split one two collects => ?_,
    fun distinct first rest s₁ split ran => ?_⟩
  · subst split
    have whole : run (step env) (atRest project keys) (first ++ later) = some s₂ := run_append_iff.mpr ⟨s₁, one, two⟩
    obtain ⟨before, after⟩ := (heeds.append whole).1.append one
    let Inv : Server → Prop := fun s => SpareInv s ∧ s.project = project
    have keeps {s s' : Server} {action : Action} (inv : Inv s) (here : s.Heeds env action)
        (stepped : s.step env action = some s') : Inv s' :=
      ⟨inv.1.step here stepped, (project_step stepped).trans inv.2⟩
    have reached : Inv s₁ := run_invariant (fun _ _ _ inv here stepped => keeps inv here stepped)
      ⟨spareInv_atRest project keys, rfl⟩ before one
    let Collects : Server → Prop := fun s => Inv s ∧ s.active ≠ []
    have last : Collects s₂ := by
      refine run_invariant (fun s a s' inv here stepped => ⟨keeps inv.1 here stepped, ?_⟩) ⟨reached, collects⟩ after two
      exact inv.1.1.active_step (by rw [inv.1.2]; exact encrypting) inv.2 stepped
    exact last.2
  · subst split
    have inv : KeyInv s₁ := run_invariant (fun _ _ _ inv here stepped => inv.step here stepped)
      (keyInv_atRest distinct) (heeds.append ran).1 ran
    exact inv.distinct

def anywhere : Environment := ⟨"production", fun _ => true, id, Char.isWhitespace, Char.isAlphanum⟩

def encrypted : Project := { id := "p", securityMode := .projectE2e }

def twoKeys : List ProjectKey :=
  [⟨"k1", "p", List.replicate 32 1, .primary, "ministry", 0, none⟩,
    ⟨"k2", "p", List.replicate 32 2, .backup, "vault", 0, none⟩]

def replaced : List Action :=
  [.add 0 ⟨List.replicate 32 3, .recovery, "notary"⟩, .next 0 {}, .next 0 { id := "k3", now := 1 }, .commit 0,
    .revoke 1 "k1", .revoke 2 "k2", .next 1 {}, .next 2 {}, .next 1 {}, .next 2 {}, .next 1 { now := 2 },
    .next 2 { now := 2 }, .commit 1, .commit 2]

theorem replaced_keepsRecipients : (atRest encrypted twoKeys).KeepsRecipients anywhere replaced :=
  keepsRecipients_of_heeds anywhere encrypted twoKeys replaced (by decide +kernel)

def bothRevoke : List Action :=
  [.revoke 1 "k1", .revoke 2 "k2", .next 1 {}, .next 2 {}, .next 1 {}, .next 2 {}, .next 1 { now := 2 },
    .next 2 { now := 2 }, .commit 1, .commit 2]

def bothAdd : List Action :=
  let request : ProjectKeyCreate := ⟨List.replicate 32 3, .recovery, "notary"⟩
  [.add 1 request, .add 2 request, .next 1 {}, .next 2 {}, .next 1 { id := "k3" }, .next 2 { id := "k4" },
    .commit 1, .commit 2]

theorem bothRevoke_leavesNone : ¬ (atRest encrypted twoKeys).KeepsRecipients anywhere bothRevoke ∧
    ¬ (atRest encrypted twoKeys).KeepsRecipients anywhere bothAdd := by
  constructor
  · rintro ⟨kept, -⟩
    exact kept (by decide) [] bothRevoke [] _ _ rfl rfl rfl (by decide) rfl
  · rintro ⟨-, distinct⟩
    have twice := distinct (by decide) bothAdd [] _ (List.append_nil _).symm rfl
    revert twice
    decide +kernel

end Server

end DataCollectionLab.Projects
