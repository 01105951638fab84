import NovaOs.Core.Theorems.Vm
import NovaOs.Lib.Admission

/-!
# What an address space becomes of any maps

Nothing is ever unmapped, so the calls alone tell how each of them is answered, and what every page translates to in the
end.
-/

namespace NovaOs.Core

open Lib

theorem space_admits :
    Admits spaceMachine MapOp.virtualPage 128 NovaAddressSpace.Distinct NovaAddressSpace.pages .ok .full where
  refuse s op hs hfull := by
    rw [spaceMachine_out, spaceMachine_next]
    rcases novaVmMap_cases hs op.virtualPage op.physicalPage op.writable with ⟨_, _, hr⟩ | ⟨hroom, _⟩
    · rw [hr]
      exact ⟨rfl, rfl⟩
    · exact absurd hfull hroom
  accept s op hs hroom := by
    rw [spaceMachine_out, spaceMachine_next]
    rcases novaVmMap_cases hs op.virtualPage op.physicalPage op.writable with
      ⟨hnew, hcard, _⟩ | ⟨_, s', hr, hdistinct, _, hpages⟩
    · exact absurd ⟨hnew, hcard⟩ hroom
    · rw [hr]
      exact ⟨rfl, hdistinct, hpages⟩

/-- How many other pages were asked for before the page `v` was asked for first. -/
def pageRank (ops : List MapOp) (v : UInt64) : Nat := rank (ops.map MapOp.virtualPage) v

/-- The last call for the page `v`, if it is one of the first 128. -/
def lastCall (ops : List MapOp) (v : UInt64) : Option MapOp :=
  if pageRank ops v < 128 then ops.reverse.find? fun op => op.virtualPage = v else none

/-- What a map answers, when these are all the calls. -/
def mapAnswer (ops : List MapOp) (op : MapOp) : NovaResult := if pageRank ops op.virtualPage < 128 then .ok else .full

theorem lastMapped_mapAnswer (ops : List MapOp) (v : UInt64) :
    lastMapped (ops.map fun op => (op, mapAnswer ops op)) v =
      (lastCall ops v).map fun op => (op.physicalPage, op.writable) := by
  rw [lastMapped, ← List.map_reverse, List.findSome?_map, lastCall]
  by_cases hv : pageRank ops v < 128
  · rw [if_pos hv]
    generalize ops.reverse = calls
    induction calls with
    | nil => rfl
    | cons op calls ih =>
        by_cases hop : op.virtualPage = v
        · simp [hop, mapAnswer, hv]
        · simpa [hop] using ih
  · rw [if_neg hv, Option.map_none, List.findSome?_eq_none_iff]
    intro op _
    simp only [Function.comp_apply, ite_eq_right_iff, reduceCtorEq, imp_false, not_and, mapAnswer]
    rintro rfl
    simp [hv]

/-- A map is accepted when fewer than 128 other pages were asked for before its page was asked for first, and a page that
was accepted translates to the last call for it. -/
theorem space_told_by_calls (memory : Vector NovaVmMapping 128) (ops : List MapOp) :
    spaceMachine.trace (novaVmAddressSpaceInit memory) ops = ops.map (fun op => (op, mapAnswer ops op)) ∧
    ∀ v p w, novaVmTranslate (spaceMachine.exec (novaVmAddressSpaceInit memory) ops) v p w =
      match lastCall ops v with
      | some op => (.ok, op.physicalPage, op.writable)
      | none => (.notFound, p, w) := by
  have htrace : spaceMachine.trace (novaVmAddressSpaceInit memory) ops = ops.map fun op => (op, mapAnswer ops op) :=
    space_admits.trace_eq (.init memory) (NovaAddressSpace.pages_init memory) ops
  have hspace := SpaceIs.exec memory ops
  refine ⟨htrace, fun v p w => ?_⟩
  rw [novaVmTranslate_eq, hspace.lookup, htrace, lastMapped_mapAnswer]
  cases lastCall ops v with
  | none => rfl
  | some op => rfl

end NovaOs.Core
