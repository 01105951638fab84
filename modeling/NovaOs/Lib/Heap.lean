import Mathlib.Logic.Function.Basic

/-!
# Heaps of objects of one type

An address is never handed out twice, so an object that was freed stays dead. `get` and `free` of a dead address
have no result: a run that has one has touched no dead object and freed none twice.
-/

namespace Lib

structure Heap (α : Type*) where
  cells : Nat → Option α
  fresh : Nat
  fresh_none : ∀ p, fresh ≤ p → cells p = none

namespace Heap

variable {α : Type*} (h : Heap α) {p q : Nat} {a : α}

def empty : Heap α := ⟨fun _ => none, 0, fun _ _ => rfl⟩

def get (p : Nat) : Option α := h.cells p

def Live (p : Nat) : Prop := h.get p ≠ none

theorem live_of_get (hp : h.get p = some a) : h.Live p := by
  rw [Live, hp]
  exact Option.some_ne_none a

theorem lt_fresh (hp : h.get p = some a) : p < h.fresh := by
  by_contra hle
  rw [get, h.fresh_none p (Nat.le_of_not_lt hle)] at hp
  cases hp

def alloc (a : α) : Heap α where
  cells := Function.update h.cells h.fresh (some a)
  fresh := h.fresh + 1
  fresh_none p hp := by
    rw [Function.update_of_ne (by omega), h.fresh_none p (by omega)]

def write (p : Nat) (a : α) : Heap α :=
  if hp : (h.get p).isSome then
    { h with
      cells := Function.update h.cells p (some a)
      fresh_none := fun q hq => by
        obtain ⟨b, hb⟩ := Option.isSome_iff_exists.mp hp
        have hlt := h.lt_fresh hb
        rw [Function.update_of_ne (by omega), h.fresh_none q hq] }
  else h

def free (p : Nat) : Option (Heap α) :=
  if (h.get p).isSome then
    some
      { h with
        cells := Function.update h.cells p none
        fresh_none := fun q hq => by
          rcases eq_or_ne q p with rfl | hne
          · rw [Function.update_self]
          · rw [Function.update_of_ne hne, h.fresh_none q hq] }
  else none

@[simp] theorem get_fresh : h.get h.fresh = none := h.fresh_none _ (Nat.le_refl _)

theorem get_alloc : (h.alloc a).get q = if q = h.fresh then some a else h.get q := Function.update_apply ..

@[simp] theorem get_alloc_fresh : (h.alloc a).get h.fresh = some a := by
  rw [get_alloc, if_pos rfl]

theorem live_alloc_fresh : (h.alloc a).Live h.fresh := live_of_get _ h.get_alloc_fresh

@[simp] theorem fresh_alloc : (h.alloc a).fresh = h.fresh + 1 := rfl

theorem get_write (hp : h.Live p) : (h.write p a).get q = if q = p then some a else h.get q := by
  have hsome : (h.get p).isSome := Option.isSome_iff_ne_none.mpr hp
  rw [write, dif_pos hsome]
  exact Function.update_apply ..

theorem live_write (hp : h.Live p) : (h.write p a).Live p := by
  refine live_of_get _ (a := a) ?_
  rw [get_write _ hp, if_pos rfl]

theorem write_self (hp : h.get p = some a) : h.write p a = h := by
  have hcells : Function.update h.cells p (some a) = h.cells := by
    rw [← hp]
    exact Function.update_eq_self ..
  rw [write, dif_pos (by rw [hp]; rfl)]
  simp only [hcells]

theorem write_write (hp : h.Live p) (a b : α) : (h.write p a).write p b = h.write p b := by
  have hsome : (h.get p).isSome := Option.isSome_iff_ne_none.mpr hp
  have hsome' : ((h.write p a).get p).isSome := Option.isSome_iff_ne_none.mpr (live_write h hp)
  rw [write, dif_pos hsome']
  simp only [write, dif_pos hsome, Function.update_idem]

@[simp] theorem fresh_write : (h.write p a).fresh = h.fresh := by
  unfold write
  split <;> rfl

theorem exists_free (hp : h.Live p) :
    ∃ h', h.free p = some h' ∧ h'.fresh = h.fresh ∧ ∀ q, h'.get q = if q = p then none else h.get q := by
  rw [free, if_pos (Option.isSome_iff_ne_none.mpr hp)]
  exact ⟨_, rfl, rfl, fun q => Function.update_apply ..⟩

/-! ## Objects seen through a function -/

section

variable {β : Type*} (f : α → β)

/-- The heap of what `f` shows of each object. -/
def map : Heap β where
  cells p := (h.cells p).map f
  fresh := h.fresh
  fresh_none p hp := by rw [h.fresh_none p hp, Option.map_none]

theorem ext {h h' : Heap α} (hcells : h.cells = h'.cells) (hfresh : h.fresh = h'.fresh) : h = h' := by
  cases h
  cases h'
  cases hcells
  cases hfresh
  rfl

@[simp] theorem get_map : (h.map f).get p = (h.get p).map f := rfl

theorem map_update (b : Option α) :
    (fun q => (Function.update h.cells p b q).map f) = Function.update (h.map f).cells p (b.map f) :=
  Function.comp_update (Option.map f) ..

theorem map_alloc : (h.alloc a).map f = (h.map f).alloc (f a) := ext (h.map_update f (some a)) rfl

theorem map_write : (h.write p a).map f = (h.map f).write p (f a) := by
  unfold write
  split
  · next hp =>
      rw [dif_pos (by rwa [get_map, Option.isSome_map])]
      exact ext (h.map_update f (some a)) rfl
  · next hp => rw [dif_neg (by rwa [get_map, Option.isSome_map])]

theorem map_free : (h.map f).free p = (h.free p).map fun h => h.map f := by
  unfold free
  split
  · next hp =>
      rw [get_map, Option.isSome_map] at hp
      rw [if_pos hp]
      exact congrArg some (ext (h.map_update f none).symm rfl)
  · next hp =>
      rw [get_map, Option.isSome_map] at hp
      rw [if_neg hp]
      rfl

end

end Heap

end Lib
