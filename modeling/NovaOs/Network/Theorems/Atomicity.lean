import NovaOs.Network.Theorems.Sockets

/-!
# What failed calls leave behind

A call that fails should change nothing. Two calls change the state before a step that can still fail:
`nova_socket` takes the descriptor before it asks for memory, and `nova_send` binds the socket to the loopback before
it allocates the packet and transmits it.
-/

namespace NovaOs.Network

open Lib

variable {pool : Nat} {drivers : Nat → NovaNetDeviceOps pool} {net net' : Net pool}

/-- Descriptors, open sockets, the counter, the registry and the statistics of the devices are as they were. -/
structure Net.Untouched (net net' : Net pool) : Prop where
  socketTable : net'.socketTable = net.socketTable
  sockets : ∀ fd sock, net.entry fd = some sock → net'.sockets.get sock = net.sockets.get sock
  nextSocketFd : net'.nextSocketFd = net.nextSocketFd
  registry : net'.registry = net.registry
  next : ∀ dev, net'.next dev = net.next dev
  stats : ∀ dev, (net'.devices dev).stats = (net.devices dev).stats

namespace Net.Untouched

theorem refl (net : Net pool) : net.Untouched net := ⟨rfl, fun _ _ _ => rfl, rfl, rfl, fun _ => rfl, fun _ => rfl⟩

theorem trans {net₁ net₂ net₃ : Net pool} (h : net₁.Untouched net₂) (h' : net₂.Untouched net₃) : net₁.Untouched net₃ where
  socketTable := h'.socketTable.trans h.socketTable
  sockets fd sock hentry := by
    have hentry' : net₂.entry fd = some sock := by rw [Net.entry_congr h.socketTable, hentry]
    rw [h'.sockets fd sock hentry', h.sockets fd sock hentry]
  nextSocketFd := h'.nextSocketFd.trans h.nextSocketFd
  registry := h'.registry.trans h.registry
  next dev := (h'.next dev).trans (h.next dev)
  stats dev := (h'.stats dev).trans (h.stats dev)

theorem skbs (net : Net pool) (skbs : Heap (NovaSkBuff pool)) : net.Untouched { net with skbs := skbs } :=
  ⟨rfl, fun _ _ _ => rfl, rfl, rfl, fun _ => rfl, fun _ => rfl⟩

end Net.Untouched

/-- A transmission hook of another driver that fails has changed nothing. -/
def XmitsFailClean (drivers : Nat → NovaNetDeviceOps pool) : Prop :=
  ∀ n hook, (drivers n).startXmit = some hook → ∀ net dev skb result net',
    hook net dev skb = some (result, net') → result ≠ 0 → net.Untouched net'

/-- The call takes the last step that it cannot undo and fails for lack of memory, or it binds its socket. -/
def LeavesTrace (net : Net pool) : StackOp pool → Prop
  | .socket (.socket domain type _ memory) => Supported domain type ∧ net.nextSocketFd < 64 ∧ memory = false
  | .socket (.send c) => ∃ sock socket dev, novaSocketLookup net c.sockfd = some sock ∧
      net.sockets.get sock = some socket ∧ socket.dev = none ∧ c.buf.isSome ∧ c.len ≠ 0 ∧
      net.searchName "lo" = some (some dev)
  | _ => False

/-- Every failing call on an initialised stack leaves no trace exactly when it is not one of the two. -/
def FailuresMeet (drivers : Nat → NovaNetDeviceOps pool) (net : Net pool) : Prop :=
  net.initialized = true → ∀ op net', stackStep drivers net op = some (.int (-1), net') →
    (net.Untouched net' ↔ ¬ LeavesTrace net op)

/-! ## Transmission -/

theorem loStartXmit_failed {dev? : Option (DevPtr pool)} {skb? result} (h : loStartXmit net dev? skb? = some (result, net'))
    (hresult : result ≠ 0) : net' = net := by
  cases skb? with
  | none =>
      cases h
      rfl
  | some skb =>
      cases dev? with
      | none => cases h
      | some dev =>
          simp only [loStartXmit, Option.bind_eq_some_iff, Option.map_eq_some_iff, Prod.mk.injEq] at h
          obtain ⟨_, _, _, _, hzero, _⟩ := h
          exact absurd hzero.symm hresult

theorem nicStartXmit_failed {dev? : Option (DevPtr pool)} {skb? result} (h : nicStartXmit net dev? skb? = some (result, net'))
    (hresult : result ≠ 0) : net' = net := by
  cases dev? with
  | none =>
      cases h
      rfl
  | some dev =>
      cases skb? with
      | none =>
          cases h
          rfl
      | some skb =>
          simp only [nicStartXmit, Option.bind_eq_some_iff, Option.map_eq_some_iff, Prod.mk.injEq] at h
          obtain ⟨_, _, _, _, hzero, _⟩ := h
          exact absurd hzero.symm hresult

theorem XmitsFailClean.startXmit (h : XmitsFailClean drivers) {net₀ : Net pool} {dev?} {hook}
    (hhook : net₀.startXmit drivers dev? = some hook) {dev skb result} (hcall : hook net dev skb = some (result, net'))
    (hresult : result ≠ 0) : net.Untouched net' := by
  rcases Net.startXmit_eq_some hhook with rfl | rfl | ⟨n, hother⟩
  · rw [loStartXmit_failed hcall hresult]
    exact .refl net
  · rw [nicStartXmit_failed hcall hresult]
    exact .refl net
  · exact h n hook hother net dev skb result net' hcall hresult

theorem novaDevQueueXmit_failed (h : XmitsFailClean drivers) {skb? result}
    (hcall : novaDevQueueXmit drivers net skb? = some (result, net')) (hresult : result ≠ 0) : net.Untouched net' := by
  cases skb? with
  | none =>
      cases hcall
      exact .refl net
  | some skb =>
      rw [novaDevQueueXmit, Option.bind_eq_some_iff] at hcall
      obtain ⟨buff, _, hcall⟩ := hcall
      cases hhook : net.startXmit drivers buff.dev with
      | none =>
          simp only [hhook, Option.some.injEq, Prod.mk.injEq] at hcall
          rw [← hcall.2]
          exact .refl net
      | some hook =>
          simp only [hhook] at hcall
          exact h.startXmit hhook hcall hresult

theorem novaSendSkb_failed (h : XmitsFailClean drivers) {skb len} (hlen : len.toInt64.toInt ≠ -1)
    (hcall : novaSendSkb drivers net skb len = some (-1, net')) : net.Untouched net' := by
  rw [novaSendSkb, Option.bind_eq_some_iff] at hcall
  obtain ⟨⟨result, net₁⟩, hqueue, hcall⟩ := hcall
  split at hcall
  · next hresult =>
      simp only [novaFreeSkb, Option.map_eq_some_iff, Prod.mk.injEq] at hcall
      obtain ⟨_, ⟨skbs, _, rfl⟩, _, rfl⟩ := hcall
      exact (novaDevQueueXmit_failed h hqueue hresult).trans (.skbs ..)
  · rw [Option.some.injEq, Prod.mk.injEq] at hcall
    exact absurd hcall.1 hlen

theorem novaSendPacket_failed (h : XmitsFailClean drivers) {buf c dev} (hlen : c.len ≠ 0)
    (hcall : novaSendPacket drivers net buf c dev = some (-1, net')) : net.Untouched net' := by
  rw [novaSendPacket] at hcall
  rcases novaAllocSkb_cases net c.len c.memSkb c.memData with ⟨_, skbs, halloc, _⟩ | ⟨hmemory, buff, halloc⟩
  · rw [halloc, Option.bind_some, Option.some.injEq, Prod.mk.injEq] at hcall
    rw [← hcall.2]
    exact .skbs ..
  · have hload : ({ net with skbs := net.skbs.alloc buff } : Net pool).skbs.get net.skbs.fresh = some buff :=
      Heap.get_alloc_fresh _
    rw [halloc, Option.bind_some] at hcall
    simp only [hload, Option.bind_some] at hcall
    exact ((Net.Untouched.skbs ..).trans (.skbs ..)).trans (novaSendSkb_failed h (toInt_of_memory hlen hmemory) hcall)

/-! ## Failing calls -/

theorem Net.Untouched.of_setSocket {sock socket socket' fd} (hget : net.sockets.get sock = some socket)
    (hentry : net.entry fd = some sock) (h : (net.setSocket sock socket').Untouched net') :
    net.Untouched net' ↔ socket' = socket := by
  have hlive : net.sockets.Live sock := net.sockets.live_of_get hget
  constructor
  · intro huntouched
    have hkept := (h.sockets fd sock hentry).symm.trans (huntouched.sockets fd sock hentry)
    rw [Net.setSocket, Heap.get_write _ hlive, if_pos rfl, hget, Option.some.injEq] at hkept
    exact hkept
  · rintro rfl
    rwa [Net.setSocket, Heap.write_self _ hget] at h

/-- A send that fails has changed its socket alone, when it found the loopback for it. -/
theorem StackInv.send_failed (h : StackInv net) (hclean : XmitsFailClean drivers) {c : SendCall}
    (hcall : novaSend drivers net c = some (-1, net')) :
    net.Untouched net' ↔ ¬ LeavesTrace net (.socket (.send c)) := by
  rcases h.send_outline drivers c with
    ⟨hidle, hcall'⟩ | ⟨fd, sock, socket, found, buf, hentry, hlookup, hget, hsearch, hbuf, hlen⟩
  · rw [hcall', Option.some.injEq, Prod.mk.injEq] at hcall
    rw [← hcall.2]
    refine iff_of_true (.refl net) ?_
    rintro ⟨_, _, _, hlookup, _, _, hbuf, hlen, _⟩
    rcases hidle with hnone | hnone | hzero
    · rw [hnone] at hlookup
      cases hlookup
    · rw [hnone] at hbuf
      cases hbuf
    · exact hlen hzero
  · have hrouted : (net.setSocket sock { socket with dev := socket.dev.or found }).Untouched net' := by
      rw [novaSend_of_route drivers hlookup hget hsearch hbuf hlen] at hcall
      split at hcall
      · rw [Option.some.injEq, Prod.mk.injEq] at hcall
        rw [← hcall.2]
        exact .refl _
      · exact novaSendPacket_failed hclean hlen hcall
    have htrace : LeavesTrace net (.socket (.send c)) ↔ socket.dev = none ∧ found ≠ none := by
      constructor
      · rintro ⟨sock', socket', dev, hlookup', hget', hnone, _, _, hfound⟩
        rw [hlookup, Option.some.injEq] at hlookup'
        rw [← hlookup', hget, Option.some.injEq] at hget'
        rw [hsearch, Option.some.injEq] at hfound
        exact ⟨by rw [hget', hnone], by rw [hfound]; exact Option.some_ne_none dev⟩
      · rintro ⟨hnone, hfound⟩
        obtain ⟨dev, rfl⟩ := Option.ne_none_iff_exists'.mp hfound
        exact ⟨sock, socket, dev, hlookup, hget, hnone, by rw [hbuf]; rfl, hlen, hsearch⟩
    have hkept : { socket with dev := socket.dev.or found } = socket ↔ socket.dev.or found = socket.dev :=
      ⟨congrArg NovaSocket.dev, fun he => by rw [he]⟩
    rw [Net.Untouched.of_setSocket hget hentry hrouted, hkept, htrace]
    cases socket.dev with
    | none => simp
    | some dev => simp

theorem StackInv.socket_failed (h : StackInv net) (hinitialized : net.initialized = true) {domain type protocol memory}
    (hcall : novaSocket net domain type protocol memory = some (-1, net')) :
    net.Untouched net' ↔ ¬ LeavesTrace net (.socket (.socket domain type protocol memory)) := by
  obtain ⟨result, net'', hcall', _, hcases⟩ := h.socket_cases domain type protocol memory
  rw [Net.awake_of_initialized hinitialized] at hcases
  rw [hcall, Option.some.injEq, Prod.mk.injEq] at hcall'
  obtain ⟨rfl, rfl⟩ := hcall'
  rcases hcases with ⟨hrefused, _, rfl⟩ | ⟨hsupported, hlt, hmemory, _, rfl⟩ | ⟨_, _, fd, _, hresult, _⟩
  · refine iff_of_true (.refl _) ?_
    rintro ⟨hsupported, hlt, _⟩
    have hfull := hrefused.resolve_left (not_not_intro hsupported)
    omega
  · refine iff_of_false (fun huntouched => ?_) (not_not_intro ⟨hsupported, hlt, hmemory⟩)
    have hnext : net.nextSocketFd + 1 = net.nextSocketFd := huntouched.nextSocketFd
    omega
  · omega

theorem Net.setState_failed {sockfd state} (h : net.setState sockfd state = some (-1, net')) : net' = net := by
  unfold Net.setState at h
  split at h
  · cases h
    rfl
  · simp only [Option.map_eq_some_iff, Prod.mk.injEq] at h
    obtain ⟨_, _, hzero, _⟩ := h
    cases hzero

theorem novaConnect_failed {sockfd} (h : novaConnect net sockfd = some (-1, net')) : net' = net := by
  unfold novaConnect at h
  split at h
  · cases h
    rfl
  · simp only [Option.bind_eq_some_iff, Option.map_eq_some_iff, Prod.mk.injEq] at h
    obtain ⟨_, _, _, _, hzero, _⟩ := h
    cases hzero

theorem StackInv.close_failed (h : StackInv net) {sockfd} (hcall : novaClose net sockfd = some (-1, net')) : net' = net := by
  rcases h.close_cases sockfd with ⟨_, hcall'⟩ | ⟨_, _, _, _, _, _, _, hcall', _⟩
  · rw [hcall, Option.some.injEq, Prod.mk.injEq] at hcall'
    exact hcall'.2
  · rw [hcall] at hcall'
    cases hcall'

theorem StackInv.socketStep_failed (h : StackInv net) {op : SocketOp} (hcall : socketStep drivers net op = some (-1, net'))
    (hsocket : ∀ domain type protocol memory, op ≠ .socket domain type protocol memory) (hsend : ∀ c, op ≠ .send c) :
    net' = net := by
  cases op with
  | socket domain type protocol memory => exact absurd rfl (hsocket domain type protocol memory)
  | send c => exact absurd rfl (hsend c)
  | connect sockfd => exact novaConnect_failed hcall
  | listen sockfd => exact Net.setState_failed hcall
  | shutdown sockfd => exact Net.setState_failed hcall
  | close sockfd => exact h.close_failed hcall
  | _ =>
      simp only [socketStep, Option.some.injEq, Prod.mk.injEq] at hcall
      exact hcall.2.symm

theorem StackInv.registryStep_failed (h : StackInv net) {op : RegistryOp pool}
    (hcall : registryStep drivers net op = some (.int (-1), net')) : net' = net := by
  obtain ⟨devs, hdevs⟩ := h.registry
  cases op with
  | init => cases hcall
  | shutdown =>
      obtain ⟨net'', hshutdown, _⟩ := hdevs.exists_shutdown
      rw [registryStep, hshutdown] at hcall
      cases hcall
  | register dev? =>
      rcases hdevs.register_cases drivers dev? with ⟨_, hregister⟩ | ⟨dev, rfl, _, hregister⟩
      · rw [registryStep, hregister] at hcall
        cases hcall
        rfl
      · rw [registryStep, hregister] at hcall
        split at hcall
        · cases hcall
        · simp at hcall
  | unregister dev? =>
      rcases hdevs.unregister_cases dev? with ⟨_, hunregister⟩ | ⟨_, _, _, _, hunregister, _⟩
      · rw [registryStep, hunregister] at hcall
        cases hcall
        rfl
      · rw [registryStep, hunregister] at hcall
        cases hcall
  | find name? => simp [registryStep] at hcall
  | edit n device => simp [registryStep] at hcall

theorem StackInv.failuresMeet (h : StackInv net) (hclean : XmitsFailClean drivers) : FailuresMeet drivers net := by
  intro hinitialized op net' hcall
  cases op with
  | registry op =>
      rw [h.registryStep_failed hcall]
      exact iff_of_true (.refl net) not_false
  | socket op =>
      have hcall' : socketStep drivers net op = some (-1, net') := by
        simp only [stackStep, Option.map_eq_some_iff, Prod.mk.injEq, RegistryAnswer.int.injEq] at hcall
        obtain ⟨⟨result, net''⟩, hcall, rfl, rfl⟩ := hcall
        exact hcall
      cases op with
      | socket domain type protocol memory => exact h.socket_failed hinitialized hcall'
      | send c => exact h.send_failed hclean hcall'
      | _ =>
          rw [h.socketStep_failed hcall' (by simp) (by simp)]
          exact iff_of_true (.refl net) not_false

/-! ## Whole runs -/

/-- Every call of the interface has a result and keeps the invariant. -/
theorem StackInv.next (h : StackInv net) (hopens : OpensKeep drivers Net.SameStack) (hxmits : XmitsKeep drivers)
    {op : StackOp pool} (hedit : ProperStackEdit (some net) op) :
    ∃ answer net', stackStep drivers net op = some (answer, net') ∧ StackInv net' := by
  cases op with
  | registry op =>
      by_cases hinit : op = .init
      · subst hinit
        exact ⟨_, _, rfl, .init net⟩
      · obtain ⟨answer, net', hstep, _, hstack, _⟩ := h.registry_next hopens (hedit op rfl) hinit
        exact ⟨answer, net', hstep, hstack⟩
  | socket op =>
      rcases op.socket_or_sockfd with ⟨domain, type, protocol, memory, rfl⟩ | ⟨k, hk⟩
      · obtain ⟨result, net', hcall, hstack, _⟩ := h.socket_cases domain type protocol memory
        have hstep : socketStep drivers net (.socket domain type protocol memory) = some (result, net') := hcall
        exact ⟨.int result, net', stackStep_socket hstep, hstack⟩
      · rcases h.descriptor_cases hxmits hk with ⟨_, hcall⟩ | ⟨fd, sock, socket, _, _, hentry, _, hget, hcases⟩
        · exact ⟨.int (-1), net, stackStep_socket hcall, h⟩
        rcases hcases with ⟨_, sockets, hcall, hgets⟩ | ⟨_, result, net', hcall, hwrites⟩
        · exact ⟨.int 0, _, stackStep_socket hcall, h.closeSocket hentry hgets⟩
        · exact ⟨.int result, net', stackStep_socket hcall, hwrites.stackInv (net.sockets.live_of_get hget) h⟩

/-- In every state of every run, every call that fails on an initialised stack leaves no trace exactly when it is
neither a socket that gets a descriptor and no memory nor a send that binds its socket. -/
theorem failures_traceless_iff (hopens : OpensKeep drivers Net.SameStack) (hxmits : XmitsKeep drivers)
    (hclean : XmitsFailClean drivers) (devices : DevPtr pool → NovaNetDevice pool) {ops : List (StackOp pool)}
    (hedits : (stackMachine drivers).Along ProperStackEdit (some (programStart devices)) ops) :
    (stackMachine drivers).Always (fun st => ∃ net, st = some net ∧ FailuresMeet drivers net)
      (some (programStart devices)) ops := by
  have hinv : (stackMachine drivers).Always (fun st => ∃ net, st = some net ∧ StackInv net)
      (some (programStart devices)) ops := by
    refine Machine.always_of_along ?_ ⟨_, rfl, .start devices⟩ hedits
    rintro _ op ⟨net, rfl, h⟩ hedit
    obtain ⟨answer, net', hstep, hstack⟩ := h.next hopens hxmits hedit
    exact ⟨net', Machine.ofPartial_next hstep, hstack⟩
  refine hinv.mono ?_
  rintro _ ⟨net, rfl, h⟩
  exact ⟨net, rfl, h.failuresMeet hclean⟩

theorem xmitsFailClean_stubDrivers : XmitsFailClean (stubDrivers : Nat → NovaNetDeviceOps pool) := by
  intro n hook hhook net dev skb result net' hcall hresult
  cases hhook
  rw [nicStartXmit_failed hcall hresult]
  exact .refl net

/-- Descriptors and memory run short, and sockets are used before there is a loopback and after. -/
def callsFail : List (StackOp 1) :=
  [.registry .init, .socket (.socket 2 1 0 false), .socket (.socket 2 1 0 true),
    .socket (.send ⟨2, some fun _ => 7, 4, true, true⟩), .registry (.register (some .lo)),
    .registry (.register (some .lo)), .socket (.send ⟨2, some fun _ => 7, 4, true, false⟩), .socket (.close 1)]

theorem failures_traceless_iff_calls :
    (stackMachine stubDrivers).Always (fun st => ∃ net, st = some net ∧ FailuresMeet stubDrivers net)
      (some (programStart prepared)) callsFail := by
  refine failures_traceless_iff (opensKeep_stubDrivers fun _ _ hsame => hsame) xmitsKeep_stubDrivers
    xmitsFailClean_stubDrivers prepared ?_
  refine Machine.Along.mono (fun st op => properStackEdit_of_ne) (Machine.along_of_forall ?_)
  simp [callsFail]

/-- A socket that there is no memory for costs a descriptor. -/
theorem socket_without_memory_takes_descriptor :
    ∃ net net' : Net 0, (stackMachine stubDrivers).exec (some (programStart prepared)) [.registry .init] = some net ∧
      net.initialized = true ∧
      stackStep stubDrivers net (.socket (.socket 2 1 0 false)) = some (.int (-1), net') ∧ ¬ net.Untouched net' :=
  ⟨_, _, rfl, rfl, rfl, fun huntouched => absurd huntouched.nextSocketFd (by decide)⟩

end NovaOs.Network
