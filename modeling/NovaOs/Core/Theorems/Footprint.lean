import NovaOs.Core.Theorems.Scheduler
import NovaOs.Core.Theorems.Vm
import NovaOs.Lib.LeastFree

/-!
# The pages and the ids that a run touches

`nova_vm_alloc_page` and `nova_sched_add` search their tables from the start. Whatever is freed in between, a run
touches as many pages as are handed out at once at some moment, and as many ids as threads live at once.
-/

namespace NovaOs.Core

open Lib

/-! ## Pages -/

/-- The page that a call handed out. -/
def takenPage : PageOp × NovaResult × Option UInt32 → Option Nat
  | (.alloc _, .ok, some page) => some page.toNat
  | _ => none

theorem takenPage_eq_some_iff {op result answer k} : takenPage (op, result, answer) = some k ↔
    ∃ asked page, op = .alloc asked ∧ result = .ok ∧ answer = some page ∧ page.toNat = k := by
  cases op <;> cases result <;> cases answer <;> simp [takenPage]

theorem pages_takesLeast : TakesLeast pageMachine NovaPageAllocator.held takenPage where
  take a op k htaken := by
    cases op with
    | free page => cases htaken
    | alloc asked =>
        rw [pageMachine_out_alloc] at htaken
        rw [pageMachine_next_alloc]
        rcases novaVmAllocPage_cases a asked with ⟨_, hr⟩ | ⟨i, hi, hlt, hr⟩ <;> rw [hr] at htaken ⊢
        · cases htaken
        · obtain rfl : (i : Nat) = k := (toNat_ofNat_page i).symm.trans (Option.some.inj htaken)
          refine ⟨isLeast_free (by simpa using hi) fun j hj => ?_, ?_⟩
          · simpa using hlt j hj
          · exact NovaPageAllocator.held_setFlag_of_ne (by decide)
  give a op htaken := by
    cases op with
    | alloc asked =>
        rw [pageMachine_out_alloc] at htaken
        rw [pageMachine_next_alloc]
        rcases novaVmAllocPage_cases a asked with ⟨_, hr⟩ | ⟨i, _, _, hr⟩ <;> rw [hr] at htaken ⊢
        cases htaken
    | free page =>
        rw [pageMachine_next_free]
        rcases novaVmFreePage_cases a page with ⟨_, hr⟩ | ⟨i, _, _, hr⟩ <;> rw [hr]
        rw [NovaPageAllocator.held_setFlag_zero]
        exact Finset.erase_subset ..

/-- A run hands out the lowest pages, and as many as were in use at once. -/
theorem page_ever_allocated_iff (memory : NovaPageAllocator) (ops : List PageOp) (page : UInt32) :
    (∃ asked, (.alloc asked, .ok, some page) ∈ pageMachine.trace (novaVmInit memory) ops) ↔
      page.toNat < pageMachine.peak (fun a => a.held.card) (novaVmInit memory) ops := by
  rw [← pages_takesLeast.taken_iff (NovaPageAllocator.held_init memory)]
  simp only [Prod.exists, takenPage_eq_some_iff, UInt32.toNat_inj]
  grind

/-! ## Ids -/

/-- The slot of the thread that a call added. -/
def takenSlot : SchedOp × Option NovaResult × Option UInt32 → Option Nat
  | (.add _ _, some .ok, some id) => some (id.toNat - 1)
  | _ => none

theorem takenSlot_eq_some_iff {op result answer k} : takenSlot (op, result, answer) = some k ↔
    ∃ priority asked id, op = .add priority asked ∧ result = some .ok ∧ answer = some id ∧ id.toNat - 1 = k := by
  cases op <;> rcases result with _ | _ | _ | _ | _ <;> cases answer <;> simp [takenSlot]

/-- No thread gets the id 0. -/
theorem id_pos_of_mem_trace {memory : NovaScheduler} {ops priority asked} {id : UInt32}
    (h : (.add priority asked, some .ok, some id) ∈ schedMachine.trace memory ops) : 1 ≤ id.toNat := by
  obtain ⟨s, hout⟩ := Machine.exists_out_of_mem_trace _ h
  rw [schedMachine_out_add] at hout
  rcases novaSchedAdd_cases s priority asked with ⟨_, hr⟩ | ⟨i, _, _, hr⟩ <;> rw [hr] at hout
  · cases hout
  · obtain rfl : UInt32.ofNat i + 1 = id := Option.some.inj (Prod.mk.inj hout).2
    rw [toNat_ofNat_add_one]
    exact Nat.le_add_left ..

theorem ids_takesLeast : TakesLeast schedMachine (fun s => s.live.map Fin.valEmbedding) takenSlot where
  take s op k htaken := by
    cases op with
    | setState id state => cases htaken
    | account id => cases htaken
    | add priority asked =>
        rw [schedMachine_out_add] at htaken
        rw [schedMachine_next_add]
        rcases novaSchedAdd_cases s priority asked with ⟨_, hr⟩ | ⟨i, hi, hlt, hr⟩ <;> rw [hr] at htaken ⊢
        · cases htaken
        · have hk : (UInt32.ofNat i + 1).toNat - 1 = k := Option.some.inj htaken
          obtain rfl : (i : Nat) = k := by rwa [toNat_ofNat_add_one] at hk
          refine ⟨isLeast_free (by simpa [mem_live] using hi) fun j hj => ?_, ?_⟩
          · simpa [mem_live] using hlt j hj
          · rw [live_spawn, Finset.map_insert]
            rfl
  give s op htaken := by
    apply Finset.map_subset_map.mpr
    cases op with
    | add priority asked =>
        rw [schedMachine_out_add] at htaken
        rw [schedMachine_next_add]
        rcases novaSchedAdd_cases s priority asked with ⟨_, hr⟩ | ⟨i, _, _, hr⟩ <;> rw [hr] at htaken ⊢
        cases htaken
    | setState id state =>
        rw [schedMachine_next_setState]
        rcases novaSchedSetState_cases s id state with ⟨_, hr⟩ | ⟨i, _, hi, hr⟩ <;> rw [hr]
        by_cases hstate : state = .dead
        · rw [hstate, live_mark_dead]
          exact Finset.erase_subset ..
        · rw [live_mark_of_ne hi hstate]
    | account id =>
        rw [schedMachine_next_account]
        rcases novaSchedAccount_cases s id with ⟨_, hr⟩ | ⟨i, _, _, hr⟩ <;> rw [hr]
        rw [live_charge]

/-- A run gives threads the lowest ids, and as many as threads live at once. -/
theorem id_ever_given_iff (memory : NovaScheduler) (ops : List SchedOp) (id : UInt32) :
    (∃ priority asked, (.add priority asked, some .ok, some id) ∈ schedMachine.trace (novaSchedInit memory) ops) ↔
      1 ≤ id.toNat ∧ id.toNat ≤ schedMachine.peak (fun s => s.live.card) (novaSchedInit memory) ops := by
  have hstart : (novaSchedInit memory).live.map Fin.valEmbedding = ∅ := by rw [live_init, Finset.map_empty]
  have htaken := ids_takesLeast.taken_iff hstart ops (id.toNat - 1)
  simp only [Finset.card_map, Prod.exists, takenSlot_eq_some_iff] at htaken
  constructor
  · rintro ⟨priority, asked, hcall⟩
    have hpos := id_pos_of_mem_trace hcall
    have hlt := htaken.mp ⟨_, _, _, hcall, _, _, _, rfl, rfl, rfl, rfl⟩
    omega
  · rintro ⟨hpos, hle⟩
    obtain ⟨_, _, _, hcall, priority, asked, id', rfl, rfl, rfl, hid⟩ := htaken.mpr (by omega)
    have hpos' := id_pos_of_mem_trace hcall
    obtain rfl : id' = id := UInt32.toNat_inj.mp (by omega)
    exact ⟨priority, asked, hcall⟩

end NovaOs.Core
