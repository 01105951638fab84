import Mathlib.Algebra.BigOperators.Group.Finset.Piecewise
import Mathlib.Algebra.Order.BigOperators.Group.Finset

/-!
# Serving the least served first

At each step the one of `R` with the least count is served, the first one of several, and its count goes up by one. The
step at which `j` is served when its count is `v` can be read off the counts at the start: by then each of the others has
been brought up to `v`, and past it if it comes before `j`. So the whole timetable is known in advance. Once the counts
are level, it is a round robin.
-/

namespace Lib

variable {ι : Type*} [LinearOrder ι] {R : Finset ι} {q q' : ι → Nat} {i j : ι} {v : Nat} {served : List ι}

/-- The one of `R` that is served next. -/
structure Least (R : Finset ι) (q : ι → Nat) (i : ι) : Prop where
  mem : i ∈ R
  le : ∀ j ∈ R, j ≠ i → q i < q j ∨ q i = q j ∧ i < j

/-- The step at which `j` is served when its count is `v`. -/
def slot (R : Finset ι) (q : ι → Nat) (j : ι) (v : Nat) : Nat :=
  ∑ i ∈ R, (v - q i) + (R.filter fun i => i < j ∧ q i ≤ v).card

/-- The run that serves the list in its order. -/
inductive Serves (R : Finset ι) : (ι → Nat) → List ι → (ι → Nat) → Prop where
  | nil (q : ι → Nat) : Serves R q [] q
  | cons {q q' : ι → Nat} {i : ι} {served : List ι} (h : Least R q i)
      (h' : Serves R (Function.update q i (q i + 1)) served q') : Serves R q (i :: served) q'

/-! ## One step -/

/-- What is before `v` of the count `c`, and the turn at `v`. -/
def wait (first : Prop) [Decidable first] (c v : Nat) : Nat := v - c + if first ∧ c ≤ v then 1 else 0

theorem slot_eq_sum (R : Finset ι) (q : ι → Nat) (j : ι) (v : Nat) : slot R q j v = ∑ i ∈ R, wait (i < j) (q i) v := by
  simp only [slot, wait]
  rw [Finset.sum_add_distrib, Finset.card_filter]

theorem Least.count_le (h : Least R q i) (hj : j ∈ R) : q i ≤ q j := by
  by_cases hne : j = i
  · rw [hne]
  · rcases h.le j hj hne with hlt | ⟨he, _⟩
    · exact hlt.le
    · exact he.le

/-- The slot is the first one exactly for the one that is served next. -/
theorem slot_eq_zero_iff (hj : j ∈ R) (hv : q j ≤ v) : slot R q j v = 0 ↔ Least R q j ∧ v = q j := by
  rw [slot_eq_sum, Finset.sum_eq_zero_iff]
  constructor
  · intro hzero
    have hself := hzero j hj
    simp only [wait] at hself
    refine ⟨⟨hj, fun i hi hne => ?_⟩, by omega⟩
    have hother := hzero i hi
    simp only [wait] at hother
    rcases lt_or_gt_of_ne hne with hlt | hlt
    · simp only [hlt, true_and] at hother
      split at hother <;> omega
    · have hle : q j ≤ q i := by omega
      rcases hle.lt_or_eq with hless | he
      · exact .inl hless
      · exact .inr ⟨he, hlt⟩
  · rintro ⟨hleast, rfl⟩ i hi
    simp only [wait]
    by_cases hne : i = j
    · simp [hne]
    · rcases hleast.le i hi hne with hlt | ⟨he, hlt⟩
      · rw [if_neg (by omega)]
        omega
      · rw [if_neg fun hfirst => lt_asymm hlt hfirst.1]
        omega

/-- Serving one brings every later slot one step nearer. -/
theorem slot_update (h : Least R q i) (hj : j ∈ R) (hv : Function.update q i (q i + 1) j ≤ v) :
    slot R q j v = slot R (Function.update q i (q i + 1)) j v + 1 := by
  have hothers : ∑ k ∈ R.erase i, wait (k < j) (Function.update q i (q i + 1) k) v =
      ∑ k ∈ R.erase i, wait (k < j) (q k) v := by
    apply Finset.sum_congr rfl
    intro k hk
    rw [Function.update_of_ne (Finset.ne_of_mem_erase hk)]
  have hself : wait (i < j) (q i) v = wait (i < j) (q i + 1) v + 1 := by
    simp only [wait]
    have hle := h.count_le hj
    by_cases hji : j = i
    · subst hji
      rw [Function.update_self] at hv
      rw [if_neg fun hfirst => lt_irrefl _ hfirst.1, if_neg fun hfirst => lt_irrefl _ hfirst.1]
      omega
    · rw [Function.update_of_ne hji] at hv
      by_cases hlevel : v = q i
      · have hfirst : i < j := by
          rcases h.le j hj hji with hlt | ⟨_, hlt⟩
          · omega
          · exact hlt
        simp only [hfirst, true_and]
        rw [if_pos (by omega), if_neg (by omega)]
        omega
      · by_cases hfirst : i < j
        · simp only [hfirst, true_and]
          rw [if_pos (by omega), if_pos (by omega)]
          omega
        · simp only [hfirst, false_and, if_false]
          omega
  rw [slot_eq_sum, slot_eq_sum, ← Finset.add_sum_erase _ _ h.mem,
    ← Finset.add_sum_erase _ (fun k => wait (k < j) (Function.update q i (q i + 1) k) v) h.mem, hothers, hself,
    Function.update_self]
  omega

/-! ## The timetable -/

/-- The one that is served at a step is the one whose slot it is. -/
theorem Serves.slot_of_getElem? (h : Serves R q served q') {k : Nat} (hk : served[k]? = some j) :
    j ∈ R ∧ ∃ v, q j ≤ v ∧ slot R q j v = k := by
  induction h generalizing k with
  | nil => simp at hk
  | @cons q q' i served hleast _ ih =>
      cases k with
      | zero =>
          obtain rfl : i = j := by simpa using hk
          exact ⟨hleast.mem, q i, le_rfl, (slot_eq_zero_iff hleast.mem le_rfl).mpr ⟨hleast, rfl⟩⟩
      | succ k =>
          obtain ⟨hj, v, hv, hslot⟩ := ih (by simpa using hk)
          have hle : q j ≤ v := by
            refine le_trans ?_ hv
            rw [Function.update_apply]
            split
            · next he => rw [he]; exact Nat.le_succ _
            · exact le_rfl
          exact ⟨hj, v, hle, by rw [slot_update hleast hj hv, hslot]⟩

/-- Each one is served at its slots, as long as the run goes on. -/
theorem Serves.getElem?_slot (h : Serves R q served q') (hj : j ∈ R) (hv : q j ≤ v) (hlt : slot R q j v < served.length) :
    served[slot R q j v]? = some j := by
  induction h generalizing v with
  | nil => simp at hlt
  | @cons q q' i served hleast _ ih =>
      by_cases hv' : Function.update q i (q i + 1) j ≤ v
      · rw [slot_update hleast hj hv', List.length_cons] at hlt
        rw [slot_update hleast hj hv', List.getElem?_cons_succ]
        exact ih hv' (by omega)
      · have hji : j = i := by
          by_contra hne
          rw [Function.update_of_ne hne] at hv'
          exact hv' hv
        subst hji
        rw [Function.update_self] at hv'
        rw [(slot_eq_zero_iff hj hv).mpr ⟨hleast, by omega⟩]
        rfl

/-- The timetable of a run. -/
theorem Serves.getElem?_iff (h : Serves R q served q') {k : Nat} (hk : k < served.length) :
    served[k]? = some j ↔ j ∈ R ∧ ∃ v, q j ≤ v ∧ slot R q j v = k := by
  constructor
  · exact h.slot_of_getElem?
  · rintro ⟨hj, v, hv, rfl⟩
    exact h.getElem?_slot hj hv hk

/-! ## Round robin -/

/-- Above the level of all counts, the slots go round. -/
theorem slot_of_le (hv : ∀ i ∈ R, q i ≤ v) : slot R q j v = ∑ i ∈ R, (v - q i) + (R.filter (· < j)).card := by
  rw [slot]
  congr 2
  apply Finset.filter_congr
  intro i hi
  simp [hv i hi]

theorem slot_add (hv : ∀ i ∈ R, q i ≤ v) (n : Nat) : slot R q j (v + n) = slot R q j v + n * R.card := by
  rw [slot_of_le hv, slot_of_le fun i hi => (hv i hi).trans (Nat.le_add_right v n)]
  have hsum : ∑ i ∈ R, (v + n - q i) = ∑ i ∈ R, (v - q i) + n * R.card := by
    have hconst : ∑ i ∈ R, n = R.card * n := Finset.sum_const_nat fun _ _ => rfl
    rw [Nat.mul_comm, ← hconst, ← Finset.sum_add_distrib]
    apply Finset.sum_congr rfl
    intro i hi
    have hle := hv i hi
    omega
  omega

/-- A slot below the level is one of those that bring the counts up to it. -/
theorem slot_lt_of_lt {level : Nat} (hj : j ∈ R) (hq : q j ≤ v) (hv : v < level) :
    slot R q j v < ∑ i ∈ R, (level - q i) := by
  rw [slot_eq_sum]
  apply Finset.sum_lt_sum
  · intro i _
    simp only [wait]
    split <;> omega
  · refine ⟨j, hj, ?_⟩
    simp only [wait, lt_irrefl, false_and, if_false]
    omega

theorem rank_lt_card (hj : j ∈ R) : (R.filter (· < j)).card < R.card := by
  apply Finset.card_lt_card
  rw [Finset.filter_ssubset]
  exact ⟨j, hj, lt_irrefl j⟩

/-- Once the counts are level the slots are given in turns, in their order. -/
theorem slot_level_iff {level m : Nat} (hlevel : ∀ i ∈ R, q i ≤ level) :
    (j ∈ R ∧ ∃ v, q j ≤ v ∧ slot R q j v = ∑ i ∈ R, (level - q i) + m) ↔
      j ∈ R ∧ (R.filter (· < j)).card = m % R.card := by
  constructor
  · rintro ⟨hj, v, hv, hslot⟩
    have hle : level ≤ v := by
      by_contra hlt
      have hless := slot_lt_of_lt hj hv (Nat.lt_of_not_le hlt)
      omega
    obtain ⟨n, rfl⟩ := Nat.exists_eq_add_of_le hle
    rw [slot_add hlevel, slot_of_le hlevel] at hslot
    have hrank : (R.filter (· < j)).card + n * R.card = m := by omega
    rw [← hrank, Nat.add_mul_mod_self_right, Nat.mod_eq_of_lt (rank_lt_card hj)]
    exact ⟨hj, rfl⟩
  · rintro ⟨hj, hrank⟩
    refine ⟨hj, level + m / R.card, (hlevel j hj).trans (Nat.le_add_right _ _), ?_⟩
    rw [slot_add hlevel, slot_of_le hlevel, hrank, Nat.add_assoc, Nat.mod_add_div']

end Lib
