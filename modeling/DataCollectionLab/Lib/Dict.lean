import Mathlib.Data.List.AList
import Mathlib.Data.List.Dedup

/-! Association lists: deleting by a test, and what holds of every entry and every two. -/

namespace DataCollectionLab.Lib

section Drop

variable {α : Type} {β : α → Type}

/-- The entries whose key fails `drop`. -/
def dropKeys (drop : α → Bool) (s : AList β) : AList β :=
  ⟨s.entries.filter fun entry => !drop entry.1,
    (List.filter_sublist.map Sigma.fst).nodup s.nodupKeys⟩

theorem lookup_dropKeys [DecidableEq α] (drop : α → Bool) (s : AList β) (k : α) :
    (dropKeys drop s).lookup k = if drop k then none else s.lookup k := by
  apply Option.ext
  intro v
  rw [← Option.mem_def, AList.mem_lookup_iff]
  simp only [dropKeys, List.mem_filter]
  rw [← AList.mem_lookup_iff, Option.mem_def]
  cases drop k <;> simp

end Drop

section Map

variable {α : Type} {β γ : α → Type} (f : ∀ a, β a → γ a)

def mapValues (s : AList β) : AList γ :=
  ⟨s.entries.map fun entry => ⟨entry.1, f entry.1 entry.2⟩, by
    have keys := s.nodupKeys
    unfold List.NodupKeys List.keys at keys ⊢
    rwa [List.map_map]⟩

theorem lookup_mapValues [DecidableEq α] (s : AList β) (k : α) :
    (mapValues f s).lookup k = (s.lookup k).map (f k) := by
  obtain ⟨entries, keys⟩ := s
  show List.dlookup k (entries.map _) = (List.dlookup k entries).map (f k)
  clear keys
  induction entries with
  | nil => rfl
  | cons entry entries ih =>
    obtain ⟨k', v⟩ := entry
    by_cases here : k' = k
    · subst here
      simp
    · rw [List.map_cons, List.dlookup_cons_ne _ _ (Ne.symm here), ih,
        List.dlookup_cons_ne _ _ (Ne.symm here)]

end Map

variable {κ ν : Type} [DecidableEq κ] {P : ν → Prop} {R : ν → ν → Prop}
  {s : AList fun _ : κ => ν}

/-- Every value has `P`. -/
def Each (P : ν → Prop) (s : AList fun _ : κ => ν) : Prop := ∀ k v, s.lookup k = some v → P v

def Pairs (R : ν → ν → Prop) (s : AList fun _ : κ => ν) : Prop :=
  ∀ k k' v v', k ≠ k' → s.lookup k = some v → s.lookup k' = some v' → R v v'

/-- Every value under another key has `P`. -/
def Others (P : ν → Prop) (k : κ) (s : AList fun _ : κ => ν) : Prop :=
  ∀ entry ∈ s.entries, entry.1 ≠ k → P entry.2

instance (P : ν → Prop) [DecidablePred P] (k : κ) (s : AList fun _ : κ => ν) : Decidable (Others P k s) :=
  inferInstanceAs (Decidable (∀ entry ∈ s.entries, entry.1 ≠ k → P entry.2))

theorem others_iff {k : κ} : Others P k s ↔ ∀ k' v, k' ≠ k → s.lookup k' = some v → P v := by
  constructor
  · intro others k' v apart found
    exact others ⟨k', v⟩ (AList.mem_lookup_iff.mp found) apart
  · intro others entry member apart
    exact others entry.1 entry.2 apart (AList.mem_lookup_iff.mpr member)

theorem lookup_insert_eq_ite (s : AList fun _ : κ => ν) (k k' : κ) (v : ν) :
    (s.insert k v).lookup k' = if k' = k then some v else s.lookup k' := by
  split
  · rename_i same
    rw [same, AList.lookup_insert]
  · rename_i apart
    exact AList.lookup_insert_ne apart

theorem lookup_erase_eq_ite (s : AList fun _ : κ => ν) (k k' : κ) :
    (s.erase k).lookup k' = if k' = k then none else s.lookup k' := by
  split
  · rename_i same
    rw [same, AList.lookup_erase]
  · rename_i apart
    exact AList.lookup_erase_ne apart

theorem lookup_erase_some {k k' : κ} {v : ν} (found : (s.erase k).lookup k' = some v) :
    k' ≠ k ∧ s.lookup k' = some v := by
  have apart : k' ≠ k := by
    rintro rfl
    rw [AList.lookup_erase] at found
    cases found
  rw [AList.lookup_erase_ne apart] at found
  exact ⟨apart, found⟩

theorem lookup_insert_some {k k' : κ} {v v' : ν} (found : (s.insert k v).lookup k' = some v') :
    (k' = k ∧ v' = v) ∨ (k' ≠ k ∧ s.lookup k' = some v') := by
  by_cases same : k' = k
  · subst same
    rw [AList.lookup_insert, Option.some_inj] at found
    exact Or.inl ⟨rfl, found.symm⟩
  · rw [AList.lookup_insert_ne same] at found
    exact Or.inr ⟨same, found⟩

def insertAll (s : AList fun _ : κ => ν) (pairs : List (κ × ν)) : AList fun _ : κ => ν :=
  pairs.foldl (fun s pair => s.insert pair.1 pair.2) s

def eraseAll (s : AList fun _ : κ => ν) (keys : List κ) : AList fun _ : κ => ν :=
  keys.foldl (fun s key => s.erase key) s

theorem lookup_insertAll_of_not_mem (s : AList fun _ : κ => ν) {pairs : List (κ × ν)} {k : κ}
    (absent : k ∉ pairs.map Prod.fst) : (insertAll s pairs).lookup k = s.lookup k := by
  induction pairs generalizing s with
  | nil => rfl
  | cons pair pairs ih =>
    rw [List.map_cons, List.mem_cons, not_or] at absent
    rw [insertAll, List.foldl_cons]
    exact (ih _ absent.2).trans (AList.lookup_insert_ne absent.1)

theorem lookup_insertAll_of_mem (s : AList fun _ : κ => ν) {pairs : List (κ × ν)} {k : κ} {v : ν}
    (distinct : (pairs.map Prod.fst).Nodup) (member : (k, v) ∈ pairs) :
    (insertAll s pairs).lookup k = some v := by
  induction pairs generalizing s with
  | nil => cases member
  | cons pair pairs ih =>
    rw [List.map_cons, List.nodup_cons] at distinct
    rw [insertAll, List.foldl_cons]
    rcases List.mem_cons.mp member with rfl | later
    · exact (lookup_insertAll_of_not_mem _ distinct.1).trans (AList.lookup_insert _)
    · exact ih _ distinct.2 later

theorem mem_insertAll_iff (s : AList fun _ : κ => ν) (pairs : List (κ × ν)) (k : κ) :
    k ∈ insertAll s pairs ↔ k ∈ s ∨ k ∈ pairs.map Prod.fst := by
  induction pairs generalizing s with
  | nil => simp [insertAll]
  | cons pair pairs ih =>
    rw [insertAll, List.foldl_cons]
    refine (ih _).trans ?_
    rw [AList.mem_insert, List.map_cons, List.mem_cons, or_assoc, or_left_comm]

theorem entries_erase (s : AList fun _ : κ => ν) (k : κ) :
    (s.erase k).entries = s.entries.filter fun entry => entry.1 ≠ k := by
  obtain ⟨entries, distinct⟩ := s
  show entries.kerase k = _
  induction entries with
  | nil => rfl
  | cons entry entries ih =>
    obtain ⟨fresh, distinct⟩ := List.nodupKeys_cons.mp distinct
    by_cases here : k = entry.1
    · rw [List.kerase_cons_eq here, List.filter_cons_of_neg (by simp [here]), List.filter_eq_self.mpr]
      intro other member
      rw [decide_eq_true_eq, here]
      intro same
      exact fresh (same ▸ List.mem_keys_of_mem member)
    · rw [List.kerase_cons_ne here, List.filter_cons_of_pos (by simp [Ne.symm here]), ih distinct]

theorem entries_insert (s : AList fun _ : κ => ν) (k : κ) (v : ν) :
    (s.insert k v).entries = ⟨k, v⟩ :: s.entries.filter fun entry => entry.1 ≠ k := by
  rw [AList.entries_insert, ← entries_erase]
  rfl

theorem entries_eraseAll (s : AList fun _ : κ => ν) (keys : List κ) :
    (eraseAll s keys).entries = s.entries.filter fun entry => entry.1 ∉ keys := by
  induction keys generalizing s with
  | nil => simp [eraseAll]
  | cons key keys ih =>
    rw [eraseAll, List.foldl_cons]
    refine (ih _).trans ?_
    rw [entries_erase, List.filter_filter]
    apply List.filter_congr
    intro entry _
    simp [Bool.and_comm]

omit [DecidableEq κ] in
theorem entries_mapValues {μ : Type} (f : ν → μ) (s : AList fun _ : κ => ν) :
    (mapValues (fun _ => f) s).entries = s.entries.map fun entry => ⟨entry.1, f entry.2⟩ := rfl

theorem mapValues_insert {μ : Type} (f : ν → μ) (s : AList fun _ : κ => ν) (k : κ) (v : ν) :
    mapValues (fun _ => f) (s.insert k v) = (mapValues (fun _ => f) s).insert k (f v) := by
  apply AList.ext
  rw [entries_insert, entries_mapValues, entries_mapValues, entries_insert, List.map_cons, List.filter_map]
  rfl

theorem mapValues_erase {μ : Type} (f : ν → μ) (s : AList fun _ : κ => ν) (k : κ) :
    mapValues (fun _ => f) (s.erase k) = (mapValues (fun _ => f) s).erase k := by
  apply AList.ext
  rw [entries_erase, entries_mapValues, entries_mapValues, entries_erase, List.filter_map]
  rfl

theorem entries_insertAll (s : AList fun _ : κ => ν) {pairs : List (κ × ν)}
    (distinct : (pairs.map Prod.fst).Nodup) :
    (insertAll s pairs).entries = (pairs.map fun pair => (⟨pair.1, pair.2⟩ : (_ : κ) × ν)).reverse ++
      s.entries.filter fun entry => entry.1 ∉ pairs.map Prod.fst := by
  induction pairs generalizing s with
  | nil => simp [insertAll]
  | cons pair pairs ih =>
    rw [List.map_cons, List.nodup_cons] at distinct
    rw [insertAll, List.foldl_cons]
    refine (ih _ distinct.2).trans ?_
    rw [entries_insert, List.filter_cons_of_pos (by simpa using distinct.1), List.filter_filter, List.map_cons,
      List.reverse_cons, List.append_assoc, List.singleton_append]
    refine congrArg (_ ++ _ :: ·) (List.filter_congr fun entry _ => ?_)
    rw [List.map_cons]
    simp only [List.mem_cons, not_or, Bool.decide_and, decide_not, Bool.and_comm, ne_eq]

theorem distinct_of_length_insertAll {pairs : List (κ × ν)}
    (all : (insertAll (∅ : AList fun _ : κ => ν) pairs).entries.length = pairs.length) :
    (pairs.map Prod.fst).Nodup := by
  have same : (insertAll (∅ : AList fun _ : κ => ν) pairs).keys.Perm (pairs.map Prod.fst).dedup := by
    refine (List.perm_ext_iff_of_nodup (AList.keys_nodup _) (List.nodup_dedup _)).mpr fun k => ?_
    rw [List.mem_dedup, ← AList.mem_keys]
    simpa using mem_insertAll_iff (∅ : AList fun _ : κ => ν) pairs k
  have length := same.length_eq
  have counted : (insertAll (∅ : AList fun _ : κ => ν) pairs).keys.length = (pairs.map Prod.fst).length := by
    rw [List.length_map, ← all]
    exact List.length_map _
  have whole := (List.dedup_sublist (pairs.map Prod.fst)).eq_of_length (length.symm.trans counted)
  rw [← whole]
  exact List.nodup_dedup _

theorem lookup_eraseAll (s : AList fun _ : κ => ν) (keys : List κ) (k : κ) :
    (eraseAll s keys).lookup k = if k ∈ keys then none else s.lookup k := by
  induction keys generalizing s with
  | nil => rfl
  | cons key keys ih =>
    rw [eraseAll, List.foldl_cons]
    refine (ih _).trans ?_
    rw [lookup_erase_eq_ite]
    by_cases later : k ∈ keys
    · rw [if_pos later, if_pos (List.mem_cons_of_mem key later)]
    · rw [if_neg later]
      simp only [List.mem_cons, later, or_false]

theorem Each.insert (each : Each P s) {v : ν} (new : P v) (k : κ) : Each P (s.insert k v) := by
  intro k' v' found
  rcases lookup_insert_some found with ⟨-, rfl⟩ | ⟨-, old⟩
  · exact new
  · exact each k' v' old

theorem Each.erase (each : Each P s) (k : κ) : Each P (s.erase k) := fun k' v found =>
  each k' v (lookup_erase_some found).2

theorem Pairs.insert (pairs : Pairs R s) {k : κ} {v : ν}
    (new : ∀ k' v', k' ≠ k → s.lookup k' = some v' → R v v' ∧ R v' v) : Pairs R (s.insert k v) := by
  intro k₁ k₂ v₁ v₂ apart one two
  rcases lookup_insert_some one with ⟨rfl, rfl⟩ | ⟨other, old⟩
  · rcases lookup_insert_some two with ⟨rfl, -⟩ | ⟨other, old⟩
    · exact absurd rfl apart
    · exact (new k₂ v₂ other old).1
  · rcases lookup_insert_some two with ⟨rfl, rfl⟩ | ⟨-, old'⟩
    · exact (new k₁ v₁ other old).2
    · exact pairs k₁ k₂ v₁ v₂ apart old old'

theorem Pairs.erase (pairs : Pairs R s) (k : κ) : Pairs R (s.erase k) :=
  fun k₁ k₂ v₁ v₂ apart one two =>
    pairs k₁ k₂ v₁ v₂ apart (lookup_erase_some one).2 (lookup_erase_some two).2

end DataCollectionLab.Lib
