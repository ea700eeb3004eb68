import DataCollectionLab.Lib.Lists
import Mathlib.Data.List.Nodup
import Mathlib.Data.List.Perm.Subperm

/-! A search through numbered candidates for the first that is free. -/

namespace DataCollectionLab.Lib

variable {α κ : Type}

def firstFree (candidate : ℕ → α) (free : α → Bool) : ℕ → ℕ → Option α
  | 0, _ => none
  | tries + 1, n => if free (candidate n) then some (candidate n) else firstFree candidate free tries (n + 1)

def Ends (candidate : ℕ → α) (free : α → Bool) (a : α) : Prop := ∃ tries, firstFree candidate free tries 0 = some a

variable {candidate : ℕ → α} {free : α → Bool}

theorem firstFree_eq_find? (candidate : ℕ → α) (free : α → Bool) (tries n : ℕ) :
    firstFree candidate free tries n = ((List.range' n tries).map candidate).find? free := by
  induction tries generalizing n with
  | zero => rfl
  | succ tries ih =>
    rw [firstFree, ih, List.range'_succ, List.map_cons, List.find?_cons]
    cases free (candidate n) <;> rfl

theorem firstFree_found {tries n : ℕ} {a : α} (found : firstFree candidate free tries n = some a) :
    free a = true ∧ ∃ m, n ≤ m ∧ m < n + tries ∧ a = candidate m := by
  rw [firstFree_eq_find?] at found
  obtain ⟨m, listed, rfl⟩ := List.mem_map.mp (List.mem_of_find?_eq_some found)
  obtain ⟨lower, upper⟩ := List.mem_range'_1.mp listed
  exact ⟨List.find?_some found, m, lower, upper, rfl⟩

theorem firstFree_isSome {tries n m : ℕ} (lower : n ≤ m) (upper : m < n + tries) (is : free (candidate m) = true) :
    ∃ a, firstFree candidate free tries n = some a := by
  rw [firstFree_eq_find?]
  apply Option.isSome_iff_exists.mp
  rw [List.find?_isSome]
  exact ⟨candidate m, List.mem_map_of_mem (List.mem_range'_1.mpr ⟨lower, upper⟩), is⟩

theorem exists_free {first : ℕ} {key : α → κ} (taken : List κ)
    (apart : ∀ m n, first ≤ m → first ≤ n → key (candidate m) = key (candidate n) → m = n) :
    ∃ n, first ≤ n ∧ n ≤ first + taken.length ∧ key (candidate n) ∉ taken := by
  by_contra none
  have all : (List.range' first (taken.length + 1)).map (fun n => key (candidate n)) ⊆ taken := by
    intro name member
    obtain ⟨n, listed, rfl⟩ := List.mem_map.mp member
    obtain ⟨lower, upper⟩ := List.mem_range'_1.mp listed
    by_contra unused
    exact none ⟨n, lower, by omega, unused⟩
  have distinct : ((List.range' first (taken.length + 1)).map fun n => key (candidate n)).Nodup := by
    refine List.Nodup.map_on ?_ List.nodup_range'
    intro m listed n listed' same
    exact apart m n (List.mem_range'_1.mp listed).1 (List.mem_range'_1.mp listed').1 same
  have short := (distinct.subperm all).length_le
  rw [List.length_map, List.length_range'] at short
  omega

theorem firstFree_ends [DecidableEq κ] {first : ℕ} {key : α → κ} (taken : List κ)
    (apart : ∀ m n, first ≤ m → first ≤ n → key (candidate m) = key (candidate n) → m = n) :
    ∃ a, firstFree candidate (fun a => decide (key a ∉ taken)) (first + taken.length + 1) 0 = some a := by
  obtain ⟨n, -, within, unused⟩ := exists_free taken apart
  exact firstFree_isSome (Nat.zero_le n) (by omega) (decide_eq_true unused)

end DataCollectionLab.Lib
