import NovaOs.Network.Theorems.Sockets

/-!
# What creating a socket destroys

`nova_socket` resets a stack that is not initialised. The reset drops the registry and the table of sockets, so it
does no harm only where both are empty. The descriptors that callers hold are followed through the run.
-/

namespace NovaOs.Network

open Lib

variable {pool : Nat} {drivers : Nat → NovaNetDeviceOps pool} {net net' : Net pool}

/-- `held` are the descriptors that were returned and not closed since, `dropped` those of them that were open when
the stack was reset. -/
structure Returned where
  held : Set Int
  dropped : Set Int

def Returned.start : Returned := ⟨∅, ∅⟩

def remember (st : Option (Net pool)) (op : StackOp pool) (answer : Option (RegistryAnswer pool)) (r : Returned) :
    Returned :=
  match st, op, answer with
  | some net, .registry .init, _ => { r with dropped := r.dropped ∪ {k | novaSocketLookup net k ≠ none} }
  | _, .socket (.socket ..), some (.int result) => if result = -1 then r else { r with held := insert result r.held }
  | _, .socket (.close sockfd), some (.int result) => if result = 0 then { r with held := r.held \ {sockfd} } else r
  | _, _, _ => r

/-- What is registered stays registered, what is open stays open, and at most one descriptor is added. -/
structure Net.Extends (net net' : Net pool) : Prop where
  registered : ∀ dev, net.Registered dev → net'.Registered dev
  bound : ∀ k sock, novaSocketLookup net k = some sock →
    novaSocketLookup net' k = some sock ∧ net'.sockets.get sock = net.sockets.get sock
  added : ∃ k₀, ∀ k, k ≠ k₀ → novaSocketLookup net' k = novaSocketLookup net k

/-- Creating a socket extends the stack, and the descriptor it returns is not held. -/
def CreationKeeps (s : Option (Net pool) × Returned) (op : StackOp pool) : Prop :=
  ∀ domain type protocol memory, op = .socket (.socket domain type protocol memory) →
    ∃ net result net', s.1 = some net ∧ novaSocket net domain type protocol memory = some (result, net') ∧
      net.Extends net' ∧ (result ≠ -1 → result ∉ s.2.held)

/-- The stack is initialised, or it has nothing to lose. -/
def Net.Safe (net : Net pool) : Prop :=
  net.initialized = true ∨ net.registry = none ∧ ∀ k, novaSocketLookup net k = none

/-- A socket is asked for when the stack is initialised or there is nothing to lose, and a descriptor that is handed
out was not open at an earlier reset. -/
def AsksSafely (s : Option (Net pool) × Returned) (op : StackOp pool) : Prop :=
  ∀ domain type protocol memory, op = .socket (.socket domain type protocol memory) → ∀ net, s.1 = some net →
    net.Safe ∧
    (Supported domain type → memory = true → net.awake.nextSocketFd < 64 → (net.awake.nextSocketFd : Int) ∉ s.2.dropped)

/-! ## The invariant -/

/-- The descriptors that callers hold are those that are open and those that were dropped. -/
structure ReturnedInv (net : Net pool) (r : Returned) : Prop where
  stack : StackInv net
  held : ∀ k, k ∈ r.held ↔ novaSocketLookup net k ≠ none ∨ k ∈ r.dropped
  fresh : ∀ k, novaSocketLookup net k ≠ none → k ∉ r.dropped

variable {r : Returned}

theorem ReturnedInv.same (h : ReturnedInv net r) (hstack : StackInv net')
    (htable : ∀ k, novaSocketLookup net' k = novaSocketLookup net k) : ReturnedInv net' r where
  stack := hstack
  held k := by rw [htable, h.held]
  fresh k := by rw [htable]; exact h.fresh k

theorem lookup_init (net : Net pool) (k) : novaSocketLookup (novaNetworkInit net).2 k = none :=
  lookup_eq_none_iff.mpr fun fd _ _ => StackInv.entry_init net fd

theorem ReturnedInv.start (devices : DevPtr pool → NovaNetDevice pool) : ReturnedInv (programStart devices) .start where
  stack := .start devices
  held k := by
    have hnone : novaSocketLookup (programStart devices) k = none := lookup_init (programStart devices) k
    simp [Returned.start, hnone]
  fresh _ _ := Set.notMem_empty _

/-! ## Creating a socket -/

theorem Net.awake_sockets (net : Net pool) : net.awake.sockets = net.sockets := by
  unfold Net.awake
  split <;> rfl

/-- What a call makes of the state in which it checks its arguments. -/
theorem StackInv.creates (h : StackInv net) (domain type protocol memory) :
    ∃ result net', novaSocket net domain type protocol memory = some (result, net') ∧ StackInv net' ∧
      net.awake.SameRegistry net' ∧ (∀ p, net.sockets.Live p → net'.sockets.get p = net.sockets.get p) ∧
      ((result = -1 ∧ ¬ (Supported domain type ∧ memory = true ∧ net.awake.nextSocketFd < 64) ∧
          ∀ k, novaSocketLookup net' k = novaSocketLookup net.awake k) ∨
        (Supported domain type ∧ memory = true ∧ net.awake.nextSocketFd < 64 ∧ result = net.awake.nextSocketFd ∧
          novaSocketLookup net.awake result = none ∧
          ∀ k, novaSocketLookup net' k =
            if k = result then some net.sockets.fresh else novaSocketLookup net.awake k)) := by
  obtain ⟨result, net', hcall, hstack, hcases⟩ := h.socket_cases domain type protocol memory
  refine ⟨result, net', hcall, hstack, ?_⟩
  rcases hcases with ⟨hrefused, rfl, rfl⟩ | ⟨_, _, hmemory, rfl, rfl⟩ | ⟨hsupported, hmemory, fd, hfd, rfl, dev, _, rfl⟩
  · refine ⟨⟨rfl, fun _ => rfl, fun _ => rfl⟩, fun p _ => congrArg (Heap.get · p) net.awake_sockets, .inl ⟨rfl, ?_, fun _ => rfl⟩⟩
    rintro ⟨hsupported, _, hlt⟩
    exact (hrefused.resolve_left (not_not_intro hsupported)).not_gt hlt
  · refine ⟨⟨rfl, fun _ => rfl, fun _ => rfl⟩, fun p _ => congrArg (Heap.get · p) net.awake_sockets, .inl ⟨rfl, ?_, fun _ => rfl⟩⟩
    rintro ⟨_, htrue, _⟩
    exact absurd (htrue.symm.trans hmemory) (by decide)
  · have hpos := h.awake.next_pos
    have hlt := fd.isLt
    refine ⟨⟨rfl, fun _ => rfl, fun _ => rfl⟩, fun p hp => ?_,
      .inr ⟨hsupported, hmemory, by omega, by omega, ?_, fun k => ?_⟩⟩
    · rw [Net.openSocket, Heap.get_alloc, Net.awake_sockets, if_neg]
      rintro rfl
      exact hp net.sockets.get_fresh
    · refine lookup_eq_none_iff.mpr fun fd' hval _ => h.awake.entry_next ?_
      omega
    · rw [← Net.awake_sockets]
      exact lookup_openSocket (by omega) ..

theorem Net.Safe.awake (h : net.Safe) :
    (∀ dev, net.Registered dev → net.awake.Registered dev) ∧
      ∀ k, novaSocketLookup net.awake k = novaSocketLookup net k := by
  by_cases hinitialized : net.initialized = true
  · rw [Net.awake_of_initialized hinitialized]
    exact ⟨fun _ hdev => hdev, fun _ => rfl⟩
  · obtain ⟨hregistry, hclosed⟩ := h.resolve_left hinitialized
    rw [Net.awake, if_neg hinitialized]
    refine ⟨fun dev hdev => ?_, fun k => (lookup_init net k).trans (hclosed k).symm⟩
    rw [(RegistryIs.of_empty hregistry).registered_iff] at hdev
    cases hdev

/-- Where there is something to lose, the call loses it. -/
theorem StackInv.safe_of_extends (h : StackInv net) {domain type protocol memory result}
    (hcall : novaSocket net domain type protocol memory = some (result, net')) (hextends : net.Extends net') :
    net.Safe := by
  by_cases hinitialized : net.initialized = true
  · exact .inl hinitialized
  have hawake : net.awake = (novaNetworkInit net).2 := if_neg hinitialized
  obtain ⟨result', net'', hcall', _, hsame, _, hcases⟩ := h.creates domain type protocol memory
  rw [hcall, Option.some.injEq, Prod.mk.injEq] at hcall'
  obtain ⟨rfl, rfl⟩ := hcall'
  rw [hawake] at hsame hcases
  refine .inr ⟨?_, fun k => ?_⟩
  · cases hregistry : net.registry with
    | none => rfl
    | some dev =>
        obtain ⟨devs, hdevs⟩ := h.registry
        have hgone := hextends.registered dev (hdevs.registered_head hregistry)
        rw [(RegistryIs.of_empty hsame.registry).registered_iff] at hgone
        cases hgone
  · cases hlookup : novaSocketLookup net k with
    | none => rfl
    | some sock =>
        have hkept := (hextends.bound k sock hlookup).1
        rcases hcases with ⟨_, _, hsame⟩ | ⟨_, _, _, _, _, hset⟩
        · rw [hsame, lookup_init] at hkept
          cases hkept
        · rw [hset, lookup_init] at hkept
          split at hkept
          · obtain ⟨fd, _, _, hentry⟩ := lookup_eq_some_iff.mp hlookup
            rw [Option.some.injEq] at hkept
            exact absurd (hkept ▸ hentry) (h.entry_ne_fresh fd)
          · cases hkept

/-- Where there is nothing to lose, the call extends the stack. -/
theorem StackInv.extends_of_safe (h : StackInv net) (hsafe : net.Safe) {domain type protocol memory result}
    (hcall : novaSocket net domain type protocol memory = some (result, net')) : net.Extends net' := by
  obtain ⟨hregistered, htable⟩ := hsafe.awake
  obtain ⟨result', net'', hcall', _, hsame, hget, hcases⟩ := h.creates domain type protocol memory
  rw [hcall, Option.some.injEq, Prod.mk.injEq] at hcall'
  obtain ⟨rfl, rfl⟩ := hcall'
  have hadded : ∀ k, k ≠ result → novaSocketLookup net' k = novaSocketLookup net k := fun k hk => by
    rw [← htable]
    rcases hcases with ⟨_, _, hsame⟩ | ⟨_, _, _, _, _, hset⟩
    · exact hsame k
    · rw [hset, if_neg hk]
  refine ⟨fun dev hdev => hsame.registered.mpr (hregistered dev hdev), fun k sock hlookup => ?_, result, hadded⟩
  obtain ⟨fd, _, _, hentry⟩ := lookup_eq_some_iff.mp hlookup
  refine ⟨?_, hget sock (h.live fd sock hentry)⟩
  rcases hcases with ⟨_, _, hsame⟩ | ⟨_, _, _, _, hnone, _⟩
  · rw [hsame, htable, hlookup]
  · rw [hadded, hlookup]
    rintro rfl
    rw [htable, hlookup] at hnone
    cases hnone

theorem ReturnedInv.creationKeeps_iff (h : ReturnedInv net r) (op : StackOp pool) :
    CreationKeeps (some net, r) op ↔ AsksSafely (some net, r) op := by
  constructor
  · intro hkeeps domain type protocol memory hop net₁ hnet₁
    cases hnet₁
    obtain ⟨net₁, result, net', hnet₁, hcall, hextends, hfresh⟩ := hkeeps domain type protocol memory hop
    cases hnet₁
    refine ⟨h.stack.safe_of_extends hcall hextends, fun hsupported hmemory hlt hdropped => ?_⟩
    obtain ⟨result', net'', hcall', _, _, _, hcases⟩ := h.stack.creates domain type protocol memory
    rw [hcall, Option.some.injEq, Prod.mk.injEq] at hcall'
    obtain ⟨rfl, rfl⟩ := hcall'
    rcases hcases with ⟨_, hrefused, _⟩ | ⟨_, _, _, rfl, _⟩
    · exact hrefused ⟨hsupported, hmemory, hlt⟩
    · exact hfresh (by omega) ((h.held _).mpr (.inr hdropped))
  · intro hsafely domain type protocol memory hop
    obtain ⟨hsafe, hdropped⟩ := hsafely domain type protocol memory hop net rfl
    obtain ⟨result, net', hcall, _, _, _, hcases⟩ := h.stack.creates domain type protocol memory
    refine ⟨net, result, net', rfl, hcall, h.stack.extends_of_safe hsafe hcall, fun hresult hheld => ?_⟩
    rcases hcases with ⟨hrefused, _⟩ | ⟨hsupported, hmemory, hlt, rfl, hnone, _⟩
    · exact hresult hrefused
    · rw [hsafe.awake.2] at hnone
      exact ((h.held _).mp hheld).elim (fun hopen => hopen hnone) (hdropped hsupported hmemory hlt)

/-! ## One call -/

theorem remember_other {op : SocketOp} {k : Int} (hk : op.sockfd = some k) (hne : op ≠ .close k) (answer) (net : Net pool) :
    remember (some net) (.socket op) answer r = r := by
  cases op with
  | socket => cases hk
  | close sockfd =>
      cases hk
      exact absurd rfl hne
  | _ => rfl

theorem ReturnedInv.reset (h : ReturnedInv net r) :
    ReturnedInv (novaNetworkInit net).2 { r with dropped := r.dropped ∪ {k | novaSocketLookup net k ≠ none} } where
  stack := .init net
  held k := by
    rw [h.held, lookup_init]
    simp only [ne_eq, not_true_eq_false, false_or, Set.mem_union, Set.mem_ofPred_eq]
    exact or_comm
  fresh k hopen := absurd (lookup_init net k) hopen

theorem ReturnedInv.create (h : ReturnedInv net r) (hstack : StackInv net') {k : Int} (hk : k ∉ r.dropped) (sock)
    (hlookup : ∀ k', novaSocketLookup net' k' = if k' = k then some sock else novaSocketLookup net k') :
    ReturnedInv net' { r with held := insert k r.held } where
  stack := hstack
  held k' := by
    rw [Set.mem_insert_iff, h.held, hlookup]
    by_cases he : k' = k <;> simp [he]
  fresh k' := by
    rw [hlookup]
    split
    · next he => exact fun _ => he ▸ hk
    · exact h.fresh k'

theorem ReturnedInv.close (h : ReturnedInv net r) {fd : Fin 64} (hpos : 0 < (fd.val : Int)) {sock sockets}
    (hentry : net.entry fd = some sock) (hlookup : novaSocketLookup net fd.val = some sock)
    (hgets : ∀ p, sockets.get p = if p = sock then none else net.sockets.get p) :
    ReturnedInv { net.setEntry fd none with sockets := sockets } { r with held := r.held \ {(fd.val : Int)} } := by
  have hset : ∀ k, novaSocketLookup ({ net.setEntry fd none with sockets := sockets } : Net pool) k =
      if k = fd.val then none else novaSocketLookup net k := lookup_closeSocket (by omega) sockets
  have hfresh : (fd.val : Int) ∉ r.dropped := h.fresh _ (by simp [hlookup])
  refine ⟨h.stack.closeSocket hentry hgets, fun k => ?_, fun k => ?_⟩
  · rw [Set.mem_sdiff, h.held, hset, Set.mem_singleton_iff]
    by_cases he : k = fd.val <;> simp [he, hfresh]
  · rw [hset]
    split
    · exact fun hopen => absurd rfl hopen
    · exact h.fresh k

theorem ReturnedInv.next (h : ReturnedInv net r) (hopens : OpensKeep drivers Net.SameStack)
    (hxmits : XmitsKeep drivers) {op : StackOp pool} (hedit : ProperStackEdit (some net) op)
    (hsafely : AsksSafely (some net, r) op) :
    ∃ net' r', ((stackMachine drivers).withGhost remember).next (some net, r) op = (some net', r') ∧
      ReturnedInv net' r' := by
  cases op with
  | registry op =>
      by_cases hinit : op = .init
      · subst hinit
        exact ⟨_, _, stackMachine_follows remember rfl r, h.reset⟩
      · obtain ⟨answer, net', hstep, hsame, hstack, _, _⟩ := h.stack.registry_next hopens (hedit op rfl) hinit
        refine ⟨net', r, ?_, h.same hstack fun k => lookup_congr hsame.socketTable k⟩
        rw [stackMachine_follows remember (stackStep_registry hstep)]
        cases op with
        | init => exact absurd rfl hinit
        | _ => rfl
  | socket op =>
      rcases op.socket_or_sockfd with ⟨domain, type, protocol, memory, rfl⟩ | ⟨k, hk⟩
      · obtain ⟨hsafe, hdropped⟩ := hsafely domain type protocol memory rfl net rfl
        obtain ⟨result, net', hcall, hstack, _, _, hcases⟩ := h.stack.creates domain type protocol memory
        have hstep : socketStep drivers net (.socket domain type protocol memory) = some (result, net') := hcall
        refine ⟨net', _, stackMachine_follows remember (stackStep_socket hstep) r, ?_⟩
        rcases hcases with ⟨rfl, _, htable⟩ | ⟨hsupported, hmemory, hlt, rfl, _, hset⟩
        · exact h.same hstack fun k => (htable k).trans (hsafe.awake.2 k)
        · rw [remember, if_neg (by omega)]
          refine h.create hstack (hdropped hsupported hmemory hlt) net.sockets.fresh fun k => ?_
          rw [hset, hsafe.awake.2]
      · rcases h.stack.descriptor_cases hxmits hk with ⟨_, hcall⟩ | ⟨fd, sock, socket, rfl, hpos, hentry, hlookup, hget, hcases⟩
        · refine ⟨net, r, ?_, h⟩
          rw [stackMachine_follows remember (stackStep_socket hcall)]
          cases op <;> rfl
        rcases hcases with ⟨rfl, sockets, hcall, hgets⟩ | ⟨hne, result, net', hcall, hwrites⟩
        · exact ⟨_, _, stackMachine_follows remember (stackStep_socket hcall) r, h.close hpos hentry hlookup hgets⟩
        · refine ⟨net', r, ?_, h.same (hwrites.stackInv (net.sockets.live_of_get hget) h.stack) fun k =>
            lookup_congr hwrites.socketTable k⟩
          rw [stackMachine_follows remember (stackStep_socket hcall), remember_other hk hne]

/-! ## Whole runs -/

def ReturnedKept (s : Option (Net pool) × Returned) : Prop := ∃ net, s.1 = some net ∧ ReturnedInv net s.2

/-- In a run of the whole interface from the start of the program, every creation of a socket keeps what there is
exactly when each is asked for in order. -/
theorem creation_keeps_iff (hopens : OpensKeep drivers Net.SameStack) (hxmits : XmitsKeep drivers)
    (devices : DevPtr pool → NovaNetDevice pool) {ops : List (StackOp pool)}
    (hedits : (stackMachine drivers).Along ProperStackEdit (some (programStart devices)) ops) :
    ((stackMachine drivers).withGhost remember).Along CreationKeeps (some (programStart devices), .start) ops ↔
      ((stackMachine drivers).withGhost remember).Along AsksSafely (some (programStart devices), .start) ops := by
  have hstart : ReturnedKept (some (programStart devices), .start) := ⟨_, rfl, .start devices⟩
  refine Machine.along_iff_along_of ?_ ?_ hstart (((stackMachine drivers).withGhost_along remember).mpr hedits)
  · rintro ⟨_, r⟩ op ⟨net, rfl, h⟩ _
    exact h.creationKeeps_iff op
  · rintro ⟨_, r⟩ op ⟨net, rfl, h⟩ hedit hsafely
    obtain ⟨net', r', hnext, h'⟩ := h.next hopens hxmits hedit hsafely
    exact ⟨net', congrArg Prod.fst hnext, by rw [hnext]; exact h'⟩

def socketsAfterBoot : List (StackOp 1) :=
  [.registry .init, .registry (.register (some .lo)), .socket (.socket 2 1 0 true), .socket (.close 1),
    .registry .shutdown, .socket (.socket 2 2 0 true)]

theorem creation_keeps_iff_boot :
    ((stackMachine stubDrivers).withGhost remember).Along CreationKeeps (some (programStart prepared), .start)
        socketsAfterBoot ↔
      ((stackMachine stubDrivers).withGhost remember).Along AsksSafely (some (programStart prepared), .start)
        socketsAfterBoot := by
  refine creation_keeps_iff (opensKeep_stubDrivers fun _ _ hsame => hsame) xmitsKeep_stubDrivers prepared ?_
  refine Machine.Along.mono (fun st op => properStackEdit_of_ne) (Machine.along_of_forall ?_)
  simp [socketsAfterBoot]

/-- The loopback is registered before the stack is initialised. -/
def loopbackFirst : List (StackOp 0) := [.registry (.register (some .lo)), .socket (.socket 2 1 0 true)]

theorem creation_drops_loopback :
    ¬ ((stackMachine stubDrivers).withGhost remember).Along CreationKeeps (some (programStart prepared), .start)
      loopbackFirst := by
  rintro ⟨_, hkeeps, _⟩
  obtain ⟨net, result, net', hnet, hcall, hextends, _⟩ := hkeeps 2 1 0 true rfl
  have hdropped : ((stackMachine stubDrivers).exec (some (programStart prepared)) (loopbackFirst.take 1)).bind
      (fun net => (novaSocket net 2 1 0 true).map fun r => (net.registry, net.next .lo, r.2.registry)) =
        some (some .lo, none, none) := by
    decide +kernel
  have hnet' : (stackMachine stubDrivers).exec (some (programStart prepared)) (loopbackFirst.take 1) = some net := hnet
  rw [hnet', Option.bind_some, hcall, Option.map_some, Option.some.injEq, Prod.mk.injEq, Prod.mk.injEq] at hdropped
  obtain ⟨hhead, hlast, hempty⟩ := hdropped
  have hgone := hextends.registered .lo ⟨[.lo], ⟨hhead, hlast⟩, List.mem_singleton_self _⟩
  rw [(RegistryIs.of_empty hempty).registered_iff] at hgone
  cases hgone

end NovaOs.Network
