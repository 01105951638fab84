import NovaOs.Network.Theorems.LazyInit

/-!
# Which devices the open sockets send through

A socket keeps the device it was given when it was created, connected or first used, and a device that leaves the
registry is not taken from it. The devices that were unregistered or shut down are followed through the run.
-/

namespace NovaOs.Network

open Lib

variable {pool : Nat} {drivers : Nat → NovaNetDeviceOps pool} {net net' : Net pool} {gone : Set (DevPtr pool)}

/-- An open socket has the device. -/
def Net.Uses (net : Net pool) (dev : DevPtr pool) : Prop :=
  ∃ fd sock socket, net.entry fd = some sock ∧ net.sockets.get sock = some socket ∧ socket.dev = some dev

/-- The devices that left the registry one by one or with all others, and did not return. -/
def retire (st : Option (Net pool)) (op : StackOp pool) (answer : Option (RegistryAnswer pool))
    (gone : Set (DevPtr pool)) : Set (DevPtr pool) :=
  match st, op, answer with
  | _, .registry (.register (some dev)), some (.int 0) => gone \ {dev}
  | _, .registry (.unregister (some dev)), some (.int 0) => insert dev gone
  | some net, .registry .shutdown, _ => gone ∪ {dev | net.Registered dev}
  | _, _, _ => gone

/-- The devices of the open sockets are registered, and no send goes through one that has left. -/
structure DevicesMeet (drivers : Nat → NovaNetDeviceOps pool) (net : Net pool) (gone : Set (DevPtr pool)) : Prop where
  attached : ∀ dev, net.Uses dev → net.Registered dev
  goes : ∀ c, SendGoes drivers net c (net.sendsThrough drivers c)
  sends : ∀ c dev, net.sendsThrough drivers c = some dev → dev ∉ gone

/-- A device leaves the registry while an open socket has it. -/
def Strands (net : Net pool) (op : StackOp pool) : Prop :=
  ∃ dev, net.Uses dev ∧ (op = .registry (.unregister (some dev)) ∨ op = .registry .shutdown)

/-! ## The devices in use -/

theorem RegistryIs.registered_of_search {devs} (h : RegistryIs net devs) {name dev}
    (hsearch : net.searchName name = some (some dev)) : net.Registered dev := by
  rw [h.search, Option.some.injEq] at hsearch
  exact h.registered_iff.mpr (List.mem_of_find?_eq_some hsearch)

theorem Net.SameSockets.uses (h : net.SameSockets net') {dev} : net'.Uses dev ↔ net.Uses dev := by
  rw [Net.Uses, Net.Uses, Net.entry_congr h.socketTable, h.sockets]

theorem Net.not_uses_init (net : Net pool) (dev) : ¬ (novaNetworkInit net).2.Uses dev := by
  rintro ⟨fd, sock, socket, hentry, _⟩
  rw [StackInv.entry_init] at hentry
  cases hentry

theorem Net.Uses.of_openSocket {fd : Fin 64} {socket dev} (h : (net.openSocket fd socket).Uses dev) :
    net.Uses dev ∨ socket.dev = some dev := by
  obtain ⟨fd', sock, socket', hentry, hget, hdev⟩ := h
  rw [Net.openSocket, Heap.get_alloc] at hget
  split at hget
  · rw [Option.some.injEq] at hget
    exact .inr (by rw [hget, hdev])
  · next hne =>
      rw [Net.entry_openSocket] at hentry
      split at hentry
      · exact absurd (Option.some.inj hentry).symm hne
      · exact .inl ⟨fd', sock, socket', hentry, hget, hdev⟩

theorem Net.Uses.of_closeSocket {fd : Fin 64} {sock sockets dev}
    (hgets : ∀ p, sockets.get p = if p = sock then none else net.sockets.get p)
    (h : ({ net.setEntry fd none with sockets := sockets } : Net pool).Uses dev) : net.Uses dev := by
  obtain ⟨fd', sock', socket, hentry, hget, hdev⟩ := h
  rw [Net.entry_closeSocket] at hentry
  split at hentry
  · cases hentry
  · have hget' : sockets.get sock' = some socket := hget
    rw [hgets] at hget'
    split at hget'
    · cases hget'
    · exact ⟨fd', sock', socket, hentry, hget', hdev⟩

theorem Net.Uses.of_writes {fd sock socket state dev} (h : net'.Uses dev) (hwrites : net.Writes sock socket state net')
    (hentry : net.entry fd = some sock) (hget : net.sockets.get sock = some socket) :
    net.Uses dev ∨ net.searchName "lo" = some (some dev) := by
  obtain ⟨dev', hdev', hsame⟩ := hwrites.write
  obtain ⟨fd', sock', socket', hentry', hget', hused⟩ := h
  rw [Net.entry_congr hsame.socketTable] at hentry'
  rw [hsame.sockets, Net.setSocket, Heap.get_write _ (net.sockets.live_of_get hget)] at hget'
  split at hget'
  · rw [Option.some.injEq] at hget'
    subst hget'
    rcases hdev' with rfl | ⟨_, hsearch⟩
    · exact .inl ⟨fd, sock, socket, hentry, hget, hused⟩
    · rw [← hused]
      exact .inr hsearch
  · exact .inl ⟨fd', sock', socket', hentry', hget', hused⟩

theorem Net.Writes.sameRegistry {sock socket state} (h : net.Writes sock socket state net') : net.SameRegistry net' := by
  obtain ⟨dev, _, hsame⟩ := h.write
  exact ⟨hsame.sameRegistry.registry, hsame.sameRegistry.next, hsame.sameRegistry.name⟩

/-! ## The invariant -/

structure DevicesInv (net : Net pool) (gone : Set (DevPtr pool)) : Prop where
  stack : StackInv net
  attached : ∀ dev, net.Uses dev → net.Registered dev
  gone : ∀ dev, dev ∈ gone → ¬ net.Registered dev

theorem DevicesInv.meets (h : DevicesInv net gone) (drivers : Nat → NovaNetDeviceOps pool) :
    DevicesMeet drivers net gone where
  attached := h.attached
  goes := h.stack.sendGoes drivers
  sends c dev hsends hgone := by
    refine h.gone dev hgone ?_
    have hgoes := h.stack.sendGoes drivers c
    rw [hsends] at hgoes
    cases hgoes with
    | through sock socket buf _ hlookup hget hbuf hdev hxmit hsend =>
        rcases hdev with hdev | ⟨_, hsearch⟩
        · obtain ⟨fd, _, _, hentry⟩ := lookup_eq_some_iff.mp hlookup
          exact h.attached dev ⟨fd, sock, socket, hentry, hget, hdev⟩
        · obtain ⟨devs, hdevs⟩ := h.stack.registry
          exact hdevs.registered_of_search hsearch

theorem DevicesInv.init (net : Net pool) (gone : Set (DevPtr pool)) : DevicesInv (novaNetworkInit net).2 gone where
  stack := .init net
  attached dev huses := absurd huses (Net.not_uses_init net dev)
  gone dev _ hdev := by
    have hempty : RegistryIs (novaNetworkInit net).2 [] := .of_empty rfl
    rw [hempty.registered_iff] at hdev
    cases hdev

theorem DevicesInv.start (devices : DevPtr pool → NovaNetDevice pool) : DevicesInv (programStart devices) ∅ where
  stack := .start devices
  attached dev huses := absurd huses (Net.not_uses_init (programStart devices) dev)
  gone dev hdev := absurd hdev (Set.notMem_empty dev)

theorem DevicesInv.awake (h : DevicesInv net gone) : DevicesInv net.awake gone := by
  unfold Net.awake
  split
  · exact h
  · exact .init net gone

/-- A call on a socket leaves the registry alone and gives a socket no device but one it finds there. -/
theorem DevicesInv.socket_next (h : DevicesInv net gone) (hstack : StackInv net') (hsame : net.SameRegistry net')
    (huses : ∀ dev, net'.Uses dev → net.Uses dev ∨ net.searchName "lo" = some (some dev)) : DevicesInv net' gone where
  stack := hstack
  attached dev hdev := by
    rw [hsame.registered]
    cases huses dev hdev with
    | inl huses => exact h.attached dev huses
    | inr hsearch =>
        obtain ⟨devs, hdevs⟩ := h.stack.registry
        exact hdevs.registered_of_search hsearch
  gone dev hdev := by
    rw [hsame.registered]
    exact h.gone dev hdev

/-! ## One call -/

theorem mem_retire {op : RegistryOp pool} {answer dev} (h : dev ∈ retire (some net) (.registry op) (some answer) gone) :
    dev ∈ gone ∧ ¬ (op = .register (some dev) ∧ answer = .int 0) ∨ op = .unregister (some dev) ∨ op = .shutdown := by
  unfold retire at h
  split at h
  · next hop hanswer =>
      cases hop
      obtain ⟨hdev, hne⟩ := (Set.mem_sdiff dev).mp h
      refine .inl ⟨hdev, ?_⟩
      rintro ⟨hop, _⟩
      cases hop
      exact hne rfl
  · next hop hanswer =>
      cases hop
      cases h with
      | inl he => exact .inr (.inl (by rw [he]))
      | inr hdev => exact .inl ⟨hdev, by simp⟩
  · next hop =>
      cases hop
      exact .inr (.inr rfl)
  · next _ hregister _ =>
      refine .inl ⟨h, ?_⟩
      rintro ⟨rfl, rfl⟩
      exact hregister dev rfl rfl

theorem DevicesInv.registry_next (h : DevicesInv net gone) (hopens : OpensKeep drivers Net.SameStack)
    {op : RegistryOp pool} (hop : ProperEdit (some net) op) (hinit : op ≠ .init) :
    ∃ answer net', registryStep drivers net op = some (answer, net') ∧
      (¬ Strands net (.registry op) → DevicesInv net' (retire (some net) (.registry op) (some answer) gone)) ∧
      (Strands net (.registry op) → ¬ ∀ dev, net'.Uses dev → net'.Registered dev) := by
  obtain ⟨answer, net', hstep, hsame, hstack, _, hmoves⟩ := h.stack.registry_next hopens hop hinit
  refine ⟨answer, net', hstep, fun hkeeps => ⟨hstack, fun dev huses => ?_, fun dev hdev hregistered => ?_⟩, ?_⟩
  · rw [hsame.uses] at huses
    rcases hmoves.stays dev (h.attached dev huses) with hregistered | rfl | rfl
    · exact hregistered
    · exact absurd ⟨dev, huses, .inl rfl⟩ hkeeps
    · exact absurd ⟨dev, huses, .inr rfl⟩ hkeeps
  · rcases mem_retire hdev with ⟨hgone, hne⟩ | hleaves
    · exact (hmoves.joins dev hregistered).elim (h.gone dev hgone) hne
    · exact hmoves.leaves dev hleaves hregistered
  · rintro ⟨dev, huses, hleaves⟩ hattached
    refine hmoves.leaves dev ?_ (hattached dev (hsame.uses.mpr huses))
    simpa using hleaves

theorem DevicesInv.socketStep_next (h : DevicesInv net gone) (hxmits : XmitsKeep drivers) (op : SocketOp) :
    ∃ result net', socketStep drivers net op = some (result, net') ∧ DevicesInv net' gone := by
  rcases op.socket_or_sockfd with ⟨domain, type, protocol, memory, rfl⟩ | ⟨k, hk⟩
  · obtain ⟨result, net', hcall, hstack, hcases⟩ := h.stack.socket_cases domain type protocol memory
    refine ⟨result, net', hcall, ?_⟩
    rcases hcases with ⟨_, _, rfl⟩ | ⟨_, _, _, _, rfl⟩ | ⟨_, _, fd, hfd, _, dev, hsearch, rfl⟩
    · exact h.awake
    · exact h.awake.socket_next hstack ⟨rfl, fun _ => rfl, fun _ => rfl⟩ fun dev huses => .inl huses
    · refine h.awake.socket_next hstack ⟨rfl, fun _ => rfl, fun _ => rfl⟩ fun dev' huses => ?_
      refine huses.of_openSocket.imp_right fun hdev => ?_
      have hdev' : dev = some dev' := hdev
      rw [hsearch, hdev']
  · rcases h.stack.descriptor_cases hxmits hk with ⟨_, hcall⟩ | ⟨fd, sock, socket, _, _, hentry, _, hget, hcases⟩
    · exact ⟨-1, net, hcall, h⟩
    rcases hcases with ⟨rfl, sockets, hcall, hgets⟩ | ⟨_, result, net', hcall, hwrites⟩
    · exact ⟨0, _, hcall, h.socket_next (h.stack.closeSocket hentry hgets) ⟨rfl, fun _ => rfl, fun _ => rfl⟩
        fun dev huses => .inl (Net.Uses.of_closeSocket hgets huses)⟩
    · exact ⟨result, net', hcall, h.socket_next (hwrites.stackInv (net.sockets.live_of_get hget) h.stack)
        hwrites.sameRegistry fun dev huses => huses.of_writes hwrites hentry hget⟩

theorem DevicesInv.next (h : DevicesInv net gone) (hopens : OpensKeep drivers Net.SameStack)
    (hxmits : XmitsKeep drivers) {op : StackOp pool} (hedit : ProperStackEdit (some net) op) :
    ∃ net' gone', ((stackMachine drivers).withGhost retire).next (some net, gone) op = (some net', gone') ∧
      (¬ Strands net op → DevicesInv net' gone') ∧ (Strands net op → ¬ ∀ dev, net'.Uses dev → net'.Registered dev) := by
  cases op with
  | registry op =>
      by_cases hinit : op = .init
      · subst hinit
        refine ⟨_, _, stackMachine_follows retire rfl gone, fun _ => .init net gone, ?_⟩
        rintro ⟨_, _, hop | hop⟩ <;> cases hop
      · obtain ⟨answer, net', hstep, hkeeps, hbreaks⟩ := h.registry_next hopens (hedit op rfl) hinit
        exact ⟨net', _, stackMachine_follows retire (stackStep_registry hstep) gone, hkeeps, hbreaks⟩
  | socket op =>
      obtain ⟨result, net', hcall, h'⟩ := h.socketStep_next hxmits op
      refine ⟨net', _, stackMachine_follows retire (stackStep_socket hcall) gone, fun _ => h', ?_⟩
      rintro ⟨_, _, hop | hop⟩ <;> cases hop

/-! ## Whole runs -/

def DevicesKept (s : Option (Net pool) × Set (DevPtr pool)) : Prop := ∃ net, s.1 = some net ∧ DevicesInv net s.2

/-- In a run of the whole interface from the start of the program, the open sockets have registered devices only and
no send uses one that has left, in every state, exactly when no device leaves while an open socket has it. -/
theorem devices_attached_iff (hopens : OpensKeep drivers Net.SameStack) (hxmits : XmitsKeep drivers)
    (devices : DevPtr pool → NovaNetDevice pool) {ops : List (StackOp pool)}
    (hedits : (stackMachine drivers).Along ProperStackEdit (some (programStart devices)) ops) :
    ((stackMachine drivers).withGhost retire).Always (fun s => ∃ net, s.1 = some net ∧ DevicesMeet drivers net s.2)
        (some (programStart devices), ∅) ops ↔
      (stackMachine drivers).Along (fun st op => ∀ net, st = some net → ¬ Strands net op)
        (some (programStart devices)) ops := by
  rw [← (stackMachine drivers).withGhost_along retire (c := ∅)]
  have hstart : DevicesKept (some (programStart devices), ∅) := ⟨_, rfl, .start devices⟩
  refine Machine.always_iff_along_of ?_ ?_ ?_ hstart (((stackMachine drivers).withGhost_along retire).mpr hedits)
  · rintro ⟨_, gone⟩ ⟨net, rfl, h⟩
    exact ⟨net, rfl, h.meets drivers⟩
  · rintro ⟨_, gone⟩ op ⟨net, rfl, h⟩ hedit hkeeps
    obtain ⟨net', gone', hnext, h', _⟩ := h.next hopens hxmits hedit
    exact ⟨net', congrArg Prod.fst hnext, by rw [hnext]; exact h' (hkeeps net rfl)⟩
  · rintro ⟨_, gone⟩ op ⟨net, rfl, h⟩ hedit hstrands ⟨net'', hnet'', hmeets⟩
    obtain ⟨net', gone', hnext, _, hbreaks⟩ := h.next hopens hxmits hedit
    rw [hnext] at hnet''
    cases hnet''
    refine hstrands fun net₀ hnet₀ hstrands' => ?_
    cases hnet₀
    exact hbreaks hstrands' hmeets.attached

def loopbackReturns : List (StackOp 1) :=
  [.registry .init, .registry (.register (some .lo)), .socket (.socket 2 1 0 true),
    .socket (.send ⟨1, some fun _ => 7, 4, true, true⟩), .socket (.close 1), .registry (.unregister (some .lo)),
    .socket (.socket 2 1 0 true), .registry (.register (some .lo)), .socket (.connect 2)]

theorem devices_attached_iff_loopback :
    ((stackMachine stubDrivers).withGhost retire).Always
        (fun s => ∃ net, s.1 = some net ∧ DevicesMeet stubDrivers net s.2) (some (programStart prepared), ∅)
        loopbackReturns ↔
      (stackMachine stubDrivers).Along (fun st op => ∀ net, st = some net → ¬ Strands net op)
        (some (programStart prepared)) loopbackReturns := by
  refine devices_attached_iff (opensKeep_stubDrivers fun _ _ hsame => hsame) xmitsKeep_stubDrivers prepared ?_
  refine Machine.Along.mono (fun st op => properStackEdit_of_ne) (Machine.along_of_forall ?_)
  simp [loopbackReturns]

def loopbackLeavesSocket : List (StackOp 0) :=
  [.registry .init, .registry (.register (some .lo)), .socket (.socket 2 1 0 true),
    .registry (.unregister (some .lo))]

/-- The loopback was unregistered, and the open socket still has it. -/
theorem socket_keeps_unregistered_loopback :
    ¬ ∃ net, (((stackMachine stubDrivers).withGhost retire).exec (some (programStart prepared), ∅)
          loopbackLeavesSocket).1 = some net ∧
        DevicesMeet stubDrivers net (((stackMachine stubDrivers).withGhost retire).exec
          (some (programStart prepared), ∅) loopbackLeavesSocket).2 := by
  rintro ⟨net, hnet, hmeets⟩
  have hkept : (((stackMachine stubDrivers).withGhost retire).exec (some (programStart prepared), ∅)
      loopbackLeavesSocket).1.map (fun net => (net.registry, net.entry 1, (net.sockets.get 0).bind (·.dev))) =
        some (none, some 0, some .lo) := by
    decide +kernel
  rw [hnet, Option.map_some, Option.some.injEq, Prod.mk.injEq, Prod.mk.injEq, Option.bind_eq_some_iff] at hkept
  obtain ⟨hempty, hentry, socket, hget, hdev⟩ := hkept
  have hgone := hmeets.attached .lo ⟨1, 0, socket, hentry, hget, hdev⟩
  rw [(RegistryIs.of_empty hempty).registered_iff] at hgone
  cases hgone

end NovaOs.Network
