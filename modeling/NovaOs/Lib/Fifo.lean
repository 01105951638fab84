import Mathlib.Data.List.Basic
import Mathlib.Data.Vector.Basic
import Mathlib.Data.Fin.Basic
import Mathlib.Algebra.Order.Ring.Nat

/-!
# Bounded first-in first-out queues and their ring layout

A bounded queue carries its bound. A ring stores the items of a queue in a fixed array: the oldest at
`head`, the others after it, round the end of the array.
-/

namespace Lib

variable {α β : Type*} {n : Nat}

/-- A queue of at most `n` items, the oldest first. -/
@[ext]
structure BoundedFifo (α : Type*) (n : Nat) where
  items : List α
  bound : items.length ≤ n

namespace BoundedFifo

def empty : BoundedFifo α n := ⟨[], Nat.zero_le n⟩

def push (q : BoundedFifo α n) (a : α) : Option (BoundedFifo α n) :=
  if h : q.items.length < n then some ⟨q.items ++ [a], by simpa [Nat.succ_le_iff] using h⟩ else none

def pop : BoundedFifo α n → Option (α × BoundedFifo α n)
  | ⟨[], _⟩ => none
  | ⟨a :: as, h⟩ => some (a, ⟨as, Nat.le_of_succ_le h⟩)

theorem push_eq_none_iff {q : BoundedFifo α n} {a : α} : q.push a = none ↔ q.items.length = n := by
  have := q.bound
  simp only [push, dite_eq_right_iff, reduceCtorEq, imp_false]
  omega

theorem items_push {q q' : BoundedFifo α n} {a : α} (h : q.push a = some q') : q'.items = q.items ++ [a] := by
  unfold push at h
  split at h
  · cases h; rfl
  · cases h

theorem pop_eq_none_iff {q : BoundedFifo α n} : q.pop = none ↔ q.items = [] := by
  obtain ⟨_ | ⟨a, as⟩, h⟩ := q <;> simp [pop]

theorem items_pop {q q' : BoundedFifo α n} {a : α} (h : q.pop = some (a, q')) : q.items = a :: q'.items := by
  obtain ⟨_ | ⟨b, bs⟩, hb⟩ := q
  · simp [pop] at h
  · simp only [pop, Option.some.injEq, Prod.mk.injEq] at h
    obtain ⟨rfl, rfl⟩ := h
    rfl

end BoundedFifo

/-! ## The ring layout -/

variable [NeZero n]

/-- The `count` items that a ring holds from `head` on. -/
def ring (slots : Vector α n) (head count : Nat) : List α :=
  (List.range count).map fun k => slots[Fin.ofNat n (head + k)]

@[simp] theorem ring_length (slots : Vector α n) (head count : Nat) : (ring slots head count).length = count := by
  simp [ring]

/-- Two offsets less than one turn apart name two slots. -/
theorem ofNat_add_ne (head : Nat) {j k : Nat} (hjk : j < k) (hk : k < n) :
    Fin.ofNat n (head + k) ≠ Fin.ofNat n (head + j) := by
  intro h
  have hmod : (head + k) % n = (head + j) % n := congrArg Fin.val h
  have hmod' : (k - j) % n = 0 := by
    rw [show k - j = head + k - (head + j) by omega]
    exact Nat.sub_mod_eq_zero_of_mod_eq hmod
  rw [Nat.mod_eq_of_lt (by omega)] at hmod'
  omega

/-- Writing the slot after the last item appends the item. -/
theorem ring_push {slots : Vector α n} {head count : Nat} (h : count < n) (a : α) :
    ring (slots.set (Fin.ofNat n (head + count)) a) head (count + 1) = ring slots head count ++ [a] := by
  have hkeep : ∀ k ∈ List.range count,
      (slots.set (Fin.ofNat n (head + count)) a)[Fin.ofNat n (head + k)] = slots[Fin.ofNat n (head + k)] := by
    intro k hk
    have hne := ofNat_add_ne head (List.mem_range.mp hk) h
    simp only [Fin.getElem_fin, Vector.getElem_set, Fin.val_ne_iff.mpr hne, ↓reduceIte]
  simp only [ring, List.range_succ, List.map_append, List.map_cons, List.map_nil, List.map_congr_left hkeep]
  simp

/-- The oldest item is in the slot `head`; the others start in the slot after it. -/
theorem ring_pop (slots : Vector α n) (head count : Nat) :
    ring slots head (count + 1) = slots[Fin.ofNat n head] :: ring slots (head + 1) count := by
  simp only [ring, List.range_succ_eq_map, List.map_cons, List.map_map, Nat.add_zero, List.cons.injEq, true_and]
  refine List.map_congr_left fun k _ => ?_
  simp only [Function.comp_apply, Nat.succ_eq_add_one, Nat.add_assoc, Nat.add_comm 1]

/-- The layout depends on the head up to whole turns. -/
theorem ring_mod (slots : Vector α n) (head count : Nat) : ring slots (head % n) count = ring slots head count := by
  have hmod : ∀ k, Fin.ofNat n (head % n + k) = Fin.ofNat n (head + k) := fun k => Fin.ext (by simp)
  simp only [ring, hmod]

end Lib
