import Mathlib.Data.Finset.Max
import Mathlib.Data.Finset.Card

/-!
# Partial maps over a finite set of keys

A map whose keys lie in a given finite set, with the least key that is not bound.
-/

namespace Lib

/-- A partial map that binds keys of `keys` only. -/
@[ext]
structure SlotMap {κ : Type*} (keys : Finset κ) (α : Type*) where
  entry : κ → Option α
  mem_keys : ∀ k, entry k ≠ none → k ∈ keys

namespace SlotMap

variable {κ α : Type*} {keys : Finset κ} {m : SlotMap keys α} {k : κ}

def empty : SlotMap keys α := ⟨fun _ => none, fun _ h => (h rfl).elim⟩

def dom (m : SlotMap keys α) : Finset κ := keys.filter fun k => (m.entry k).isSome

theorem mem_dom : k ∈ m.dom ↔ m.entry k ≠ none := by
  rw [dom, Finset.mem_filter, Option.isSome_iff_ne_none]
  exact ⟨fun h => h.2, fun h => ⟨m.mem_keys k h, h⟩⟩

theorem not_mem_dom : k ∉ m.dom ↔ m.entry k = none := by
  rw [mem_dom, not_not]

theorem card_dom_eq_iff : m.dom.card = keys.card ↔ ∀ k ∈ keys, m.entry k ≠ none := by
  simp only [dom, Finset.card_filter_eq_iff, Option.isSome_iff_ne_none]

/-! ## Binding and unbinding -/

section

variable [DecidableEq κ]

/-- Bind a key or, with `none`, unbind it. A key outside `keys` cannot be bound. -/
def assign (m : SlotMap keys α) (k : κ) (a : Option α) : SlotMap keys α where
  entry := if k ∈ keys then Function.update m.entry k a else m.entry
  mem_keys := by
    intro j hj
    split at hj
    · rcases eq_or_ne j k with rfl | hne
      · assumption
      · exact m.mem_keys j (by simpa [hne] using hj)
    · exact m.mem_keys j hj

theorem entry_assign (hk : k ∈ keys) (a : Option α) : (m.assign k a).entry = Function.update m.entry k a :=
  if_pos hk

end

/-! ## The least free key -/

variable [LinearOrder κ]

def firstFree (m : SlotMap keys α) : Option κ :=
  if h : (keys \ m.dom).Nonempty then some ((keys \ m.dom).min' h) else none

theorem firstFree_eq_none_iff : m.firstFree = none ↔ ∀ k ∈ keys, m.entry k ≠ none := by
  simp only [firstFree, dite_eq_right_iff, reduceCtorEq, imp_false, Finset.not_nonempty_iff_eq_empty,
    Finset.sdiff_eq_empty_iff_subset]
  exact ⟨fun h k hk => mem_dom.mp (h hk), fun h k hk => mem_dom.mpr (h k hk)⟩

theorem firstFree_eq_some_iff :
    m.firstFree = some k ↔ k ∈ keys ∧ m.entry k = none ∧ ∀ j ∈ keys, m.entry j = none → k ≤ j := by
  have hmem : ∀ j, j ∈ keys \ m.dom ↔ j ∈ keys ∧ m.entry j = none := fun j => by
    rw [Finset.mem_sdiff, not_mem_dom]
  constructor
  · intro h
    unfold firstFree at h
    split at h
    · cases h
      have hmin := (hmem _).mp (Finset.min'_mem _ ‹_›)
      exact ⟨hmin.1, hmin.2, fun j hj hfree => Finset.min'_le _ j ((hmem j).mpr ⟨hj, hfree⟩)⟩
    · cases h
  · rintro ⟨hk, hfree, hle⟩
    have hne : (keys \ m.dom).Nonempty := ⟨k, (hmem k).mpr ⟨hk, hfree⟩⟩
    have hmin := (hmem _).mp (Finset.min'_mem _ hne)
    rw [firstFree, dif_pos hne, Option.some.injEq]
    exact le_antisymm (Finset.min'_le _ k ((hmem k).mpr ⟨hk, hfree⟩)) (hle _ hmin.1 hmin.2)

end SlotMap

end Lib
