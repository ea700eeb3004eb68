import DataCollectionLab.Lib.Runs
import DataCollectionLab.Submissions.Models

/-!
The draft of one form and the authors who save it. A save looks the row up and locks it, then writes and commits;
between the two of a save that found no row, other saves may come.
-/

namespace DataCollectionLab.Forms

open Lib

structure Content where
  ir : Json
  testCases : List Json

/-- `FormDraft`. -/
structure FormDraft where
  content : Content
  revision : ℕ
  updatedBy : Option String

/-- The arguments of `save_draft` apart from the revision. -/
structure Edit where
  ir : Json
  updatedBy : Option String := none
  testCases : Option (List Json) := none

inductive LookedUp where
  /-- `DraftConflict`. -/
  | conflict (current : ℕ)
  | creates
  | replaces

section SaveDraft

variable (edit : Edit)

/-- `save_draft`, up to its writes. -/
def checkDraft (draft : Option FormDraft) (expectedRevision : Option ℕ) : LookedUp :=
  match draft with
  | none => if expectedRevision.isSome then .conflict 0 else .creates
  | some draft =>
    match expectedRevision with
    | none => .replaces
    | some expected => if expected ≠ draft.revision then .conflict draft.revision else .replaces

def createdDraft : FormDraft := ⟨⟨edit.ir, edit.testCases.getD []⟩, 1, edit.updatedBy⟩

def replacedDraft (draft : FormDraft) : FormDraft :=
  ⟨⟨edit.ir, edit.testCases.getD draft.content.testCases⟩, draft.revision + 1, edit.updatedBy⟩

end SaveDraft

/-- A save after its look-up, with what its author had read when it was sent. -/
structure Pending where
  edit : Edit
  seen : Option FormDraft
  /-- The row was found, and is locked. -/
  found : Bool

structure Saved where
  replaced : Option Content
  seen : Option Content
  written : Content

structure Drafts (α : Type) where
  draft : Option FormDraft := none
  /-- Who holds the lock of the row. -/
  lock : Option α := none
  /-- What each author read last; an answer to a save is read too. -/
  reads : α → Option (Option FormDraft) := fun _ => none
  pending : α → Option Pending := fun _ => none
  log : List Saved := []

inductive Act (α : Type) where
  | read (author : α)
  /-- A save, carrying the revision that its author read last. -/
  | lookUp (author : α) (edit : Edit)
  | commit (author : α)

def update {α β : Type} [DecidableEq α] (f : α → β) (a : α) (b : β) : α → β := fun x => if x = a then b else f x

namespace Drafts

variable {α : Type} [DecidableEq α]

def content (s : Drafts α) : Option Content := s.draft.map (·.content)

def saved (s : Drafts α) (author : α) (p : Pending) (new : FormDraft) : Drafts α where
  draft := some new
  lock := if p.found then none else s.lock
  reads := update s.reads author (some (some new))
  pending := update s.pending author none
  log := s.log ++ [⟨s.content, p.seen.map (·.content), new.content⟩]

def step (s : Drafts α) : Act α → Option (Drafts α)
  | .read author => some { s with reads := update s.reads author (some s.draft) }
  | .lookUp author edit =>
    match s.reads author, s.pending author with
    | some seen, none =>
      -- `FOR UPDATE` waits for the row's lock
      if s.lock.isSome then none
      else
        match checkDraft s.draft (seen.map (·.revision)) with
        | .conflict _ => some s
        | .creates => some { s with pending := update s.pending author (some ⟨edit, seen, false⟩) }
        | .replaces => some { s with
            lock := some author
            pending := update s.pending author (some ⟨edit, seen, true⟩) }
    | _, _ => none
  | .commit author =>
    match s.pending author with
    | none => none
    | some p =>
      match p.found, s.draft with
      | true, some draft => some (s.saved author p (replacedDraft p.edit draft))
      | false, none => some (s.saved author p (createdDraft p.edit))
      -- the row was inserted meanwhile: the primary key refuses a second
      | false, some _ => some { s with pending := update s.pending author none }
      | true, none => none

def Faithful (s s' : Drafts α) : Prop :=
  (s'.draft = s.draft ∧ s'.log = s.log) ∨
    ∃ save, s'.log = s.log ++ [save] ∧ save.replaced = s.content ∧ save.seen = s.content ∧ s'.content = some save.written

def Chain : Option Content → List Saved → Option Content → Prop
  | start, [], last => start = last
  | start, save :: rest, last => save.replaced = start ∧ save.seen = start ∧ Chain (some save.written) rest last

def NothingOverwritten (draft : Option FormDraft) (moves : List (Act α)) : Prop :=
  (∀ first act rest s s', moves = first ++ act :: rest → run step { draft := draft } first = some s →
    step s act = some s' → Faithful s s') ∧
  ∀ first rest s, moves = first ++ rest → run step { draft := draft } first = some s →
    Chain (draft.map (·.content)) s.log s.content

def StartsFresh (s : Drafts α) : Act α → Prop
  | .lookUp author _ => s.reads author = some none → s.draft = none
  | _ => True

/-! ### What authors have read -/

def Stands (seen : FormDraft) (draft : Option FormDraft) : Prop :=
  ∃ d, draft = some d ∧ seen.revision ≤ d.revision ∧ (d.revision = seen.revision → d.content = seen.content)

structure Inv (start : Option Content) (s : Drafts α) : Prop where
  reads : ∀ a seen, s.reads a = some (some seen) → Stands seen s.draft
  creating : ∀ a p, s.pending a = some p → p.found = false → p.seen = none
  replacing : ∀ a p, s.pending a = some p → p.found = true →
    s.lock = some a ∧ ∃ seen d, p.seen = some seen ∧ s.draft = some d ∧ d.content = seen.content
  chain : Chain start s.log s.content

variable {s s' : Drafts α} {start : Option Content}

theorem Stands.self (d : FormDraft) : Stands d (some d) := ⟨d, rfl, le_refl _, fun _ => rfl⟩

theorem Stands.replaced {seen : FormDraft} {d new : FormDraft} (stands : Stands seen (some d))
    (grows : d.revision < new.revision) : Stands seen (some new) := by
  obtain ⟨d', same, older, -⟩ := stands
  obtain rfl := Option.some.inj same
  exact ⟨new, rfl, by omega, fun equal => by omega⟩

theorem chain_concat {last : Option Content} {log : List Saved} {save : Saved} (chain : Chain start log last)
    (replaced : save.replaced = last) (seen : save.seen = last) : Chain start (log ++ [save]) (some save.written) := by
  induction log generalizing start with
  | nil =>
    obtain rfl : start = last := chain
    exact ⟨replaced, seen, rfl⟩
  | cons first rest ih =>
    obtain ⟨here, there, later⟩ := chain
    exact ⟨here, there, ih later⟩

theorem update_some {β : Type} {f : α → Option β} {a b : α} {x y : β} (found : update f a (some x) b = some y) :
    (b = a ∧ y = x) ∨ f b = some y := by
  unfold update at found
  split at found
  · exact .inl ⟨by assumption, (Option.some.inj found).symm⟩
  · exact .inr found

theorem update_none {β : Type} {f : α → Option β} {a b : α} {y : β} (found : update f a none b = some y) :
    b ≠ a ∧ f b = some y := by
  unfold update at found
  split at found
  · cases found
  · exact ⟨by assumption, found⟩

theorem Inv.saved (inv : Inv start s) {author : α} {p : Pending} {new : FormDraft} (own : s.pending author = some p)
    (unlocked : p.found = false → s.draft = none) (seen : p.seen.map (·.content) = s.content)
    (grows : ∀ d, s.draft = some d → d.revision < new.revision) :
    Inv start (s.saved author p new) ∧ Faithful s (s.saved author p new) := by
  refine ⟨⟨fun a seen read => ?_, fun a q waiting => ?_, fun a q waiting found => ?_, ?_⟩, .inr ⟨_, rfl, rfl, seen, rfl⟩⟩
  · rcases update_some read with ⟨-, same⟩ | before
    · obtain rfl := Option.some.inj same
      exact Stands.self _
    · obtain ⟨d, there, rest⟩ := inv.reads a seen before
      exact Stands.replaced (there ▸ ⟨d, there, rest⟩ : Stands seen (some d)) (grows d there)
  · exact inv.creating a q (update_none waiting).2
  · obtain ⟨other, before⟩ := update_none waiting
    obtain ⟨locked, seen', d, -, there, -⟩ := inv.replacing a q before found
    -- the lock is the other author's, so this save found no row, and there is one
    exfalso
    cases held : p.found with
    | true =>
      have mine := (inv.replacing author p own held).1
      exact other (Option.some.inj (locked.symm.trans mine))
    | false =>
      rw [unlocked held] at there
      cases there
  · exact chain_concat inv.chain rfl seen

theorem step_inv (inv : Inv start s) {act : Act α} (fresh : StartsFresh s act) (stepped : step s act = some s') :
    Inv start s' ∧ Faithful s s' := by
  cases act with
  | read author =>
    obtain rfl := Option.some.inj stepped
    refine ⟨⟨fun a seen read => ?_, inv.creating, inv.replacing, inv.chain⟩, .inl ⟨rfl, rfl⟩⟩
    rcases update_some read with ⟨-, same⟩ | before
    · rw [← same]
      exact Stands.self seen
    · exact inv.reads a seen before
  | lookUp author edit =>
    simp only [step] at stepped
    split at stepped
    case h_2 => cases stepped
    rename_i seen read idle
    split at stepped
    · cases stepped
    rename_i free
    split at stepped
    · obtain rfl := Option.some.inj stepped
      exact ⟨inv, .inl ⟨rfl, rfl⟩⟩
    · -- no row: what was read was its absence
      rename_i creates
      obtain rfl := Option.some.inj stepped
      have absent : seen = none := by
        unfold checkDraft at creates
        split at creates
        · cases seen with
          | none => rfl
          | some d => simp at creates
        · split at creates
          · cases creates
          · split at creates <;> cases creates
      refine ⟨⟨inv.reads, fun a p waiting found => ?_, fun a p waiting found => ?_, inv.chain⟩, .inl ⟨rfl, rfl⟩⟩
      · rcases update_some waiting with ⟨-, rfl⟩ | before
        · exact absent
        · exact inv.creating a p before found
      · rcases update_some waiting with ⟨-, rfl⟩ | before
        · cases found
        · exact inv.replacing a p before found
    · -- a row under the revision that was read, so the content that was read
      rename_i replaces
      obtain rfl := Option.some.inj stepped
      have known : ∃ d₀ d, seen = some d₀ ∧ s.draft = some d ∧ d.content = d₀.content := by
        unfold checkDraft at replaces
        split at replaces
        · split at replaces <;> cases replaces
        · rename_i d there
          cases seen with
          | none =>
            have absent : s.draft = none := fresh read
            rw [there] at absent
            cases absent
          | some d₀ =>
            simp only [Option.map_some] at replaces
            split at replaces
            · cases replaces
            · rename_i current
              obtain ⟨d', there', -, same⟩ := inv.reads author d₀ read
              obtain rfl := Option.some.inj (there.symm.trans there')
              exact ⟨d₀, d, rfl, there, same (not_not.mp current).symm⟩
      refine ⟨⟨inv.reads, fun a p waiting found => ?_, fun a p waiting found => ?_, inv.chain⟩, .inl ⟨rfl, rfl⟩⟩
      · rcases update_some waiting with ⟨-, rfl⟩ | before
        · cases found
        · exact inv.creating a p before found
      · rcases update_some waiting with ⟨rfl, rfl⟩ | before
        · exact ⟨rfl, known⟩
        · have locked := (inv.replacing a p before found).1
          rw [locked] at free
          exact absurd rfl free
  | commit author =>
    simp only [step] at stepped
    split at stepped
    · cases stepped
    rename_i p own
    split at stepped
    · rename_i draft found there
      obtain rfl := Option.some.inj stepped
      obtain ⟨-, d₀, d, seen, there', same⟩ := inv.replacing author p own found
      obtain rfl := Option.some.inj (there.symm.trans there')
      refine inv.saved own (fun absent => ?_) ?_ fun d' before => ?_
      · rw [found] at absent
        cases absent
      · rw [seen, content, there, Option.map_some, Option.map_some, same]
      · obtain rfl := Option.some.inj (there.symm.trans before)
        exact Nat.lt_succ_self _
    · rename_i found there
      obtain rfl := Option.some.inj stepped
      refine inv.saved own (fun _ => there) ?_ fun d' before => ?_
      · rw [inv.creating author p own found, content, there, Option.map_none]
      · rw [there] at before
        cases before
    · obtain rfl := Option.some.inj stepped
      refine ⟨⟨inv.reads, fun a q waiting => inv.creating a q (update_none waiting).2,
        fun a q waiting => inv.replacing a q (update_none waiting).2, inv.chain⟩, .inl ⟨rfl, rfl⟩⟩
    · cases stepped

omit [DecidableEq α] in
theorem inv_start (draft : Option FormDraft) : Inv (draft.map (·.content)) ({ draft := draft } : Drafts α) :=
  ⟨fun _ _ read => (by cases read), fun _ _ waiting => (by cases waiting), fun _ _ waiting => (by cases waiting), rfl⟩

/-- Where every save that starts a draft finds none, no content is lost under any schedule. -/
theorem nothingOverwritten_of_fresh (draft : Option FormDraft) (moves : List (Act α))
    (fresh : Along step StartsFresh { draft := draft } moves) : NothingOverwritten draft moves := by
  have reached {first rest : List (Act α)} {s : Drafts α} (split : moves = first ++ rest)
      (ran : run step { draft := draft } first = some s) :
      Inv (draft.map (·.content)) s ∧ Along step StartsFresh s rest := by
    subst split
    obtain ⟨before, later⟩ := fresh.append ran
    exact ⟨run_invariant (fun _ _ _ inv here stepped => (step_inv inv here stepped).1) (inv_start draft) before ran, later⟩
  refine ⟨fun first act rest s s' split ran stepped => ?_, fun first rest s split ran => ?_⟩
  · obtain ⟨inv, here, -⟩ := reached split ran
    exact (step_inv inv here stepped).2
  · exact (reached split ran).1.chain

def editOf (text : String) : Edit := { ir := .str text }

def tookTurns : List (Act Bool) :=
  [.read true, .lookUp true (editOf "a"), .commit true, .lookUp true (editOf "b"), .commit true, .read false,
    .lookUp false (editOf "c"), .commit false]

theorem tookTurns_nothingOverwritten : NothingOverwritten none tookTurns := by
  refine nothingOverwritten_of_fresh none tookTurns ?_
  refine ⟨trivial, fun s₁ h₁ => ?_⟩
  obtain rfl := Option.some.inj h₁
  refine ⟨fun _ => rfl, fun s₂ h₂ => ?_⟩
  obtain rfl := Option.some.inj h₂
  refine ⟨trivial, fun s₃ h₃ => ?_⟩
  obtain rfl := Option.some.inj h₃
  refine ⟨fun absent => (by cases absent), fun s₄ h₄ => ?_⟩
  obtain rfl := Option.some.inj h₄
  refine ⟨trivial, fun s₅ h₅ => ?_⟩
  obtain rfl := Option.some.inj h₅
  refine ⟨trivial, fun s₆ h₆ => ?_⟩
  obtain rfl := Option.some.inj h₆
  refine ⟨fun absent => (by cases absent), fun s₇ h₇ => ?_⟩
  obtain rfl := Option.some.inj h₇
  exact ⟨trivial, fun _ _ => trivial⟩

/-- Both authors read that there is no draft. The second save is the first's content, gone. -/
theorem bothStart_overwritten : ¬ NothingOverwritten none
    [.read true, .read false, .lookUp true (editOf "a"), .commit true, .lookUp false (editOf "b"), .commit false] := by
  rintro ⟨-, chained⟩
  have chain := chained _ [] _ (List.append_nil _).symm rfl
  obtain ⟨-, -, -, seen, -⟩ := chain
  cases seen

end Drafts

end DataCollectionLab.Forms
