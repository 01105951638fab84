import NovaOs.Network.Lemmas.Sockets
import Mathlib.Order.Interval.Finset.Nat

/-!
# How many sockets can be open

Descriptors are handed out in ascending order and never again, so the stack runs out of them after 63 sockets,
whether they were closed or not.
-/

namespace NovaOs.Network

open Lib

variable {pool : Nat} {net net' : Net pool}

/-! ## The open descriptors -/

def Net.openFds (net : Net pool) : Finset (Fin 64) := Finset.univ.filter fun fd => (net.entry fd).isSome

theorem Net.mem_openFds {fd : Fin 64} : fd ∈ net.openFds ↔ (net.entry fd).isSome := by
  simp only [Net.openFds, Finset.mem_filter, Finset.mem_univ, true_and]

theorem Net.openFds_openSocket (fd : Fin 64) (socket) : (net.openSocket fd socket).openFds = insert fd net.openFds := by
  ext fd'
  rw [Net.mem_openFds, Net.entry_openSocket, Finset.mem_insert, Net.mem_openFds]
  split
  · next he => simp [he]
  · next hne => simp [hne]

theorem Net.openFds_close (fd : Fin 64) (sockets) :
    ({ net.setEntry fd none with sockets := sockets } : Net pool).openFds = net.openFds.erase fd := by
  ext fd'
  rw [Net.mem_openFds, Net.entry_closeSocket, Finset.mem_erase, Net.mem_openFds]
  split
  · next he => simp [he]
  · next hne => simp [hne]

theorem StackInv.card_openFds_lt (h : StackInv net) : net.openFds.card < net.nextSocketFd := by
  have hsub : net.openFds.map Fin.valEmbedding ⊆ Finset.Ico 1 net.nextSocketFd := by
    intro k hk
    obtain ⟨fd, hfd, rfl⟩ := Finset.mem_map.mp hk
    obtain ⟨sock, hentry⟩ := Option.isSome_iff_exists.mp (Net.mem_openFds.mp hfd)
    exact Finset.mem_Ico.mpr (h.issued fd sock hentry)
  have hcard := Finset.card_le_card hsub
  rw [Finset.card_map, Nat.card_Ico] at hcard
  have hpos := h.next_pos
  omega

theorem StackInv.notMem_openFds (h : StackInv net) {fd : Fin 64} (hfd : net.nextSocketFd ≤ fd.val) : fd ∉ net.openFds := by
  rw [Net.mem_openFds, h.entry_next hfd]
  exact Bool.false_ne_true

/-! ## Capacity -/

/-- A call that creates a socket, for which there is memory, or closes one. -/
def SocketOp.OpensOrCloses : SocketOp → Prop
  | .socket _ _ _ memory => memory = true
  | .close _ => True
  | _ => False

/-- A supported socket can be created exactly as long as fewer than 63 sockets are open. -/
def CapacityMeets (net : Net pool) : Prop :=
  ∀ domain type protocol, Supported domain type →
    ((∃ fd net', fd ≠ -1 ∧ novaSocket net domain type protocol true = some (fd, net')) ↔ net.openFds.card < 63)

/-- The last descriptor is taken while one of the others is closed, or an open one is closed after the last was
taken. -/
def Exhausts (net : Net pool) : SocketOp → Prop
  | .socket domain type _ _ => Supported domain type ∧ net.nextSocketFd = 63 ∧ net.openFds.card < 62
  | .close sockfd => net.nextSocketFd = 64 ∧ novaSocketLookup net sockfd ≠ none
  | _ => False

/-- There are descriptors left, or all 63 are open. -/
structure CapacityInv (net : Net pool) : Prop where
  stack : StackInv net
  initialized : net.initialized = true
  free : net.nextSocketFd = 64 → net.openFds.card = 63

theorem StackInv.capacityMeets_iff (h : StackInv net) (hinitialized : net.initialized = true) :
    CapacityMeets net ↔ (net.nextSocketFd = 64 → net.openFds.card = 63) := by
  have hlt := h.card_openFds_lt
  have hle := h.next_le
  have hcreates : ∀ domain type protocol, Supported domain type →
      ((∃ fd net', fd ≠ -1 ∧ novaSocket net domain type protocol true = some (fd, net')) ↔ net.nextSocketFd < 64) := by
    intro domain type protocol hsupported
    obtain ⟨result, net', hcall, _, hcases⟩ := h.socket_cases domain type protocol true
    rw [Net.awake_of_initialized hinitialized] at hcases
    rcases hcases with ⟨hrefused, rfl, _⟩ | ⟨_, _, hmemory, _⟩ | ⟨_, _, fd, hfd, rfl, _⟩
    · have hfull : 64 ≤ net.nextSocketFd := hrefused.resolve_left (not_not_intro hsupported)
      refine iff_of_false ?_ (by omega)
      rintro ⟨fd, net'', hne, hcall'⟩
      rw [hcall, Option.some.injEq, Prod.mk.injEq] at hcall'
      exact hne hcall'.1.symm
    · cases hmemory
    · exact iff_of_true ⟨fd.val, net', by omega, hcall⟩ (by omega)
  constructor
  · intro hmeets hfull
    have hiff := (hcreates 2 1 0 (by decide)).symm.trans (hmeets 2 1 0 (by decide))
    omega
  · intro hfree domain type protocol hsupported
    rw [hcreates domain type protocol hsupported]
    omega

/-! ## One call -/

/-- What a call does to the counter and to the number of open sockets. -/
theorem CapacityInv.next (h : CapacityInv net) (drivers : Nat → NovaNetDeviceOps pool) {op : SocketOp} (hop : op.OpensOrCloses) :
    ∃ result net', socketStep drivers net op = some (result, net') ∧ StackInv net' ∧ net'.initialized = true ∧
      ((net'.nextSocketFd = 64 → net'.openFds.card = 63) ↔ ¬ Exhausts net op) := by
  have hlt := h.stack.card_openFds_lt
  match op, hop with
  | .socket domain type protocol memory, hmemory =>
      obtain ⟨result, net', hcall, hstack, hcases⟩ := h.stack.socket_cases domain type protocol memory
      rw [Net.awake_of_initialized h.initialized] at hcases
      refine ⟨result, net', hcall, hstack, ?_⟩
      rcases hcases with ⟨hrefused, _, rfl⟩ | ⟨_, _, hnone, _⟩ | ⟨hsupported, _, fd, hfd, _, dev, _, rfl⟩
      · refine ⟨h.initialized, iff_of_true h.free ?_⟩
        rintro ⟨hsupported, hnext, _⟩
        have hfull := hrefused.resolve_left (not_not_intro hsupported)
        omega
      · exact absurd (hmemory.symm.trans hnone) (by decide)
      · refine ⟨h.initialized, ?_⟩
        have hnext : (net.openSocket fd ⟨domain, type, protocol, 0, 0, dev⟩).nextSocketFd = net.nextSocketFd + 1 := rfl
        rw [Net.openFds_openSocket, Finset.card_insert_of_notMem (h.stack.notMem_openFds hfd.ge), hnext]
        simp only [Exhausts, hsupported, true_and]
        omega
  | .close k, _ =>
      rcases h.stack.close_cases k with ⟨hnone, hcall⟩ | ⟨fd, sock, sockets, _, _, hentry, hlookup, hcall, hgets⟩
      · exact ⟨-1, net, hcall, h.stack, h.initialized, iff_of_true h.free fun hexhausts => hexhausts.2 hnone⟩
      · refine ⟨0, _, hcall, h.stack.closeSocket hentry hgets, h.initialized, ?_⟩
        have hopen : fd ∈ net.openFds := by
          rw [Net.mem_openFds, hentry]
          exact Option.isSome_some
        have hpos : 0 < net.openFds.card := Finset.card_pos.mpr ⟨fd, hopen⟩
        rw [Net.openFds_close, Finset.card_erase_of_mem hopen]
        show (net.nextSocketFd = 64 → _) ↔ _
        simp only [Exhausts, hlookup, ne_eq, reduceCtorEq, not_false_eq_true, and_true]
        have hle := h.stack.next_le
        omega

/-! ## Whole runs -/

def CapacityKept (st : Option (Net pool)) : Prop := ∃ net, st = some net ∧ CapacityInv net

/-- In a run of calls that create and close sockets, the capacity is kept in every state exactly when no step
exhausts it. -/
theorem capacity_given_back_iff (drivers : Nat → NovaNetDeviceOps pool) (net₀ : Net pool) {ops : List SocketOp}
    (hops : ∀ op ∈ ops, op.OpensOrCloses) :
    (socketMachine drivers).Always (fun st => ∃ net, st = some net ∧ CapacityMeets net)
        (some (novaNetworkInit net₀).2) ops ↔
      (socketMachine drivers).Along (fun st op => ∀ net, st = some net → ¬ Exhausts net op)
        (some (novaNetworkInit net₀).2) ops := by
  have hstart : CapacityKept (some (novaNetworkInit net₀).2) := ⟨_, rfl, .init net₀, rfl, by simp [novaNetworkInit]⟩
  refine Machine.always_iff_along_of ?_ ?_ ?_ hstart (Machine.along_of_forall hops)
  · rintro _ ⟨net, rfl, h⟩
    exact ⟨net, rfl, (h.stack.capacityMeets_iff h.initialized).mpr h.free⟩
  · rintro _ op ⟨net, rfl, h⟩ hop hkeeps
    obtain ⟨result, net', hstep, hstack, hinitialized, hiff⟩ := h.next drivers hop
    exact ⟨net', Machine.ofPartial_next hstep, hstack, hinitialized, hiff.mpr (hkeeps net rfl)⟩
  · rintro _ op ⟨net, rfl, h⟩ hop hexhausts ⟨net'', hnext, hmeets⟩
    obtain ⟨result, net', hstep, hstack, hinitialized, hiff⟩ := h.next drivers hop
    rw [socketMachine, Machine.ofPartial_next hstep, Option.some.injEq] at hnext
    subst hnext
    refine hexhausts fun net₁ hnet₁ => ?_
    cases hnet₁
    exact hiff.mp ((hstack.capacityMeets_iff hinitialized).mp hmeets)

def opensAndCloses : List SocketOp := [.socket 2 1 0 true, .socket 10 2 17 true, .close 1, .close 1, .socket 1 5 0 true]

theorem capacity_given_back_iff_three :
    (socketMachine noDrivers).Always (fun st => ∃ net, st = some net ∧ CapacityMeets net)
        (some (novaNetworkInit (zeroNet 0)).2) opensAndCloses ↔
      (socketMachine noDrivers).Along (fun st op => ∀ net, st = some net → ¬ Exhausts net op)
        (some (novaNetworkInit (zeroNet 0)).2) opensAndCloses :=
  capacity_given_back_iff noDrivers (zeroNet 0) (by simp [opensAndCloses, SocketOp.OpensOrCloses])

/-- Every socket is closed as soon as it is created, 63 times. -/
def openAndClose : List SocketOp := (List.range 63).flatMap fun k => [.socket 2 1 0 true, .close (k + 1)]

/-- No socket is open, and none can be created. -/
theorem capacity_lost_after_closing :
    ¬ ∃ net, (socketMachine noDrivers).exec (some (novaNetworkInit (zeroNet 0)).2) openAndClose = some net ∧
      CapacityMeets net := by
  rintro ⟨net, hnet, hmeets⟩
  have hlost : ((socketMachine noDrivers).exec (some (novaNetworkInit (zeroNet 0)).2) openAndClose).map
      (fun net => (net.openFds.card, (novaSocket net 2 1 0 true).map Prod.fst)) = some (0, some (-1)) := by
    decide +kernel
  rw [hnet, Option.map_some, Option.some.injEq, Prod.mk.injEq] at hlost
  obtain ⟨hcard, hrefused⟩ := hlost
  obtain ⟨fd, net', hne, hcall⟩ := (hmeets 2 1 0 (by decide)).mpr (by omega)
  rw [hcall, Option.map_some, Option.some.injEq] at hrefused
  exact hne hrefused

end NovaOs.Network
