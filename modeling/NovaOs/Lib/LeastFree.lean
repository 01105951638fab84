import NovaOs.Lib.Machine
import Mathlib.Data.Finset.Card
import Mathlib.Data.Fintype.Card
import Mathlib.Data.Fin.Embedding
import Mathlib.Order.Bounds.Basic

/-!
# Numbers that are taken lowest first

Calls take numbers and give them back, and a call takes the least number that is not held. As many numbers are then
touched in a run as were ever held at once, and these are the lowest ones.
-/

namespace Lib

variable {σ ι ο : Type*}

/-- The largest size of a state of the run. -/
def Machine.peak (M : Machine σ ι ο) (size : σ → Nat) : σ → List ι → Nat
  | s, [] => size s
  | s, i :: is => max (size s) (Machine.peak M size (M.next s i) is)

theorem Machine.size_le_peak (M : Machine σ ι ο) (size : σ → Nat) (s : σ) (is : List ι) :
    size s ≤ M.peak size s is := by
  cases is with
  | nil => exact le_rfl
  | cons i is => exact le_max_left ..

/-- `taken` reads off a call and its answer which number the call took, if any. -/
structure TakesLeast (M : Machine σ ι ο) (held : σ → Finset Nat) (taken : ι × ο → Option Nat) : Prop where
  take : ∀ s i k, taken (i, M.out s i) = some k →
    IsLeast {j | j ∉ held s} k ∧ held (M.next s i) = insert k (held s)
  give : ∀ s i, taken (i, M.out s i) = none → held (M.next s i) ⊆ held s

/-- The first free slot of a table has the least number that is free. -/
theorem isLeast_free {n : Nat} {used : Finset (Fin n)} {i : Fin n} (hi : i ∉ used) (hlt : ∀ j < i, j ∈ used) :
    IsLeast {k | k ∉ used.map Fin.valEmbedding} (i : Nat) := by
  refine ⟨fun hmem => ?_, fun k hfree => ?_⟩
  · obtain ⟨j, hj, hji⟩ := Finset.mem_map.mp hmem
    exact hi (Fin.ext hji ▸ hj)
  · by_contra hk
    have hki : k < i := not_le.mp hk
    exact hfree (Finset.mem_map.mpr ⟨⟨k, hki.trans i.isLt⟩, hlt _ hki, rfl⟩)

/-- When none of the lowest `n` numbers is free, and no other is held, the next one is taken. -/
theorem eq_range_of_isLeast {held : Finset Nat} {n k : Nat} (h : held ⊆ Finset.range n)
    (hk : IsLeast {j | j ∉ held} k) (hn : n ≤ k) : held = Finset.range n ∧ k = n := by
  have hbelow : ∀ j < k, j ∈ held := fun j hj => by_contra fun hfree => absurd (hk.2 hfree) (not_le.mpr hj)
  have hfree : n ∉ held := fun hmem => absurd (Finset.mem_range.mp (h hmem)) (lt_irrefl n)
  refine ⟨h.antisymm fun j hj => ?_, le_antisymm (hk.2 hfree) hn⟩
  exact hbelow j ((Finset.mem_range.mp hj).trans_le hn)

namespace TakesLeast

variable {M : Machine σ ι ο} {held : σ → Finset Nat} {taken : ι × ο → Option Nat}

/-- `n` numbers have been touched before the run. -/
theorem touched_iff (h : TakesLeast M held taken) {s : σ} {n : Nat} (hs : held s ⊆ Finset.range n) (is : List ι)
    (k : Nat) :
    (k < n ∨ ∃ call ∈ M.trace s is, taken call = some k) ↔ k < max n (M.peak (fun s => (held s).card) s is) := by
  induction is generalizing s n with
  | nil =>
      have hcard : (held s).card ≤ n := by simpa using Finset.card_le_card hs
      rw [Machine.peak, max_eq_left hcard]
      simp
  | cons i is ih =>
      have hcard : (held s).card ≤ n := by simpa using Finset.card_le_card hs
      have hpeak := M.size_le_peak (fun s => (held s).card) (M.next s i) is
      rw [Machine.peak, Machine.trace_cons, List.exists_mem_cons_iff]
      cases htaken : taken (i, M.out s i) with
      | none =>
          have hs' := (h.give s i htaken).trans hs
          have hrest := ih hs'
          rw [← max_assoc, max_eq_left hcard, ← hrest]
          simp
      | some j =>
          obtain ⟨hleast, hnext⟩ := h.take s i j htaken
          by_cases hj : j < n
          · -- A number that was given back is taken again.
            have hs' : held (M.next s i) ⊆ Finset.range n := by
              rw [hnext]
              exact Finset.insert_subset (Finset.mem_range.mpr hj) hs
            have hrest := ih hs'
            rw [← max_assoc, max_eq_left hcard, ← hrest]
            simp only [Option.some.injEq]
            grind
          · -- All the numbers touched are held, so that more are held now than ever before.
            obtain ⟨hheld, rfl⟩ := eq_range_of_isLeast hs hleast (not_lt.mp hj)
            have hnext' : held (M.next s i) = Finset.range (j + 1) := by
              rw [hnext, hheld, Finset.range_add_one]
            have hgrown : (held (M.next s i)).card = j + 1 := by rw [hnext', Finset.card_range]
            have hrest := ih hnext'.le
            rw [max_eq_right (by omega)] at hrest
            rw [max_eq_right (by omega), max_eq_right (by omega), ← hrest]
            simp only [Option.some.injEq]
            grind

/-- From a state that holds nothing, the numbers taken are those below the most that were held at once. -/
theorem taken_iff (h : TakesLeast M held taken) {s : σ} (hs : held s = ∅) (is : List ι) (k : Nat) :
    (∃ call ∈ M.trace s is, taken call = some k) ↔ k < M.peak (fun s => (held s).card) s is := by
  have htouched := h.touched_iff (n := 0) (by rw [hs]; exact Finset.empty_subset _) is k
  simpa using htouched

end TakesLeast

end Lib
