import NovaOs.Network.Lemmas.Sockets
import NovaOs.Network.Theorems.Lifecycle

/-!
# A descriptor names exactly one open socket

The descriptors are followed through a run of the whole interface, from a reset of the stack: which socket each of
them names, and how often it was handed out and closed.
-/

namespace NovaOs.Network

open Lib

variable {pool : Nat} {drivers : Nat → NovaNetDeviceOps pool} {net net' : Net pool}

/-- `opened k` is the socket created by the last `nova_socket` that returned `k`, unless it was closed since. -/
structure Descriptors where
  opened : Int → Option SockPtr
  created : Int → Nat
  closed : Int → Nat

namespace Descriptors

def start : Descriptors := ⟨fun _ => none, fun _ => 0, fun _ => 0⟩

variable (d : Descriptors) (k : Int)

def create (sock : SockPtr) : Descriptors :=
  { d with
    opened := Function.update d.opened k (some sock)
    created := Function.update d.created k (d.created k + 1) }

def close : Descriptors :=
  { d with
    opened := Function.update d.opened k none
    closed := Function.update d.closed k (d.closed k + 1) }

/-- A descriptor is open when it was handed out once more than it was closed. -/
def Paired (d : Descriptors) : Prop := ∀ k, d.created k = d.closed k + if (d.opened k).isSome then 1 else 0

variable {d k}

theorem Paired.create (h : d.Paired) (hk : d.opened k = none) (sock) : (d.create k sock).Paired := by
  intro k'
  have hpaired := h k'
  simp only [Descriptors.create, Function.update_apply]
  split
  · next he =>
      subst he
      simp only [hk, Option.isSome_none, Bool.false_eq_true, ↓reduceIte] at hpaired
      simp only [Option.isSome_some, ↓reduceIte]
      omega
  · exact hpaired

theorem Paired.close (h : d.Paired) {sock} (hk : d.opened k = some sock) : (d.close k).Paired := by
  intro k'
  have hpaired := h k'
  simp only [Descriptors.close, Function.update_apply]
  split
  · next he =>
      subst he
      simp only [hk, Option.isSome_some, ↓reduceIte] at hpaired
      simp only [Option.isSome_none, Bool.false_eq_true, ↓reduceIte]
      omega
  · exact hpaired

end Descriptors

/-- A socket that is created has the address that was fresh. -/
def follow (st : Option (Net pool)) (op : StackOp pool) (answer : Option (RegistryAnswer pool)) (d : Descriptors) :
    Descriptors :=
  match st, op, answer with
  | some net, .socket (.socket ..), some (.int result) => if result = -1 then d else d.create result net.sockets.fresh
  | some _, .socket (.close sockfd), some (.int result) => if result = 0 then d.close sockfd else d
  | _, _, _ => d

def ProperStackEdit (st : Option (Net pool)) (op : StackOp pool) : Prop := ∀ rop, op = .registry rop → ProperEdit st rop

theorem properStackEdit_of_ne {st : Option (Net pool)} {op : StackOp pool}
    (hne : ∀ n device, op ≠ .registry (.edit n device)) : ProperStackEdit st op := by
  rintro rop rfl net _
  cases rop with
  | edit n device => exact absurd rfl (hne n device)
  | _ => trivial

/-- The stack is neither reset nor shut down. -/
def StackOp.Keeps (op : StackOp pool) : Prop := op ≠ .registry .init ∧ op ≠ .registry .shutdown

/-- What a call on an open descriptor may return. A send returns the length, or it fails. -/
def SocketOp.Answers : SocketOp → Int → Prop
  | .accept _, result => result = -1
  | .recv _ buf len, result => result = if buf.isNone ∨ len = 0 then -1 else len.toInt64.toInt
  | .send c, result => result = -1 ∨ c.buf.isSome ∧ c.len ≠ 0 ∧ result = c.len.toInt64.toInt
  | _, result => result = 0

/-- The table holds the sockets that the descriptors name, and every call answers for these. -/
structure DescriptorsMeet (drivers : Nat → NovaNetDeviceOps pool) (net : Net pool) (d : Descriptors) : Prop where
  table : ∀ k, novaSocketLookup net k = d.opened k
  range : ∀ k sock, d.opened k = some sock → 1 ≤ k ∧ k ≤ 63
  live : ∀ k sock, d.opened k = some sock → net.sockets.Live sock
  distinct : ∀ k k' sock, d.opened k = some sock → d.opened k' = some sock → k = k'
  paired : d.Paired
  create : ∀ domain type protocol memory, ∃ result net',
    novaSocket net domain type protocol memory = some (result, net') ∧
      (result = -1 ∧ net'.socketTable = net.socketTable ∧ net'.sockets = net.sockets ∨
        1 ≤ result ∧ result ≤ 63 ∧ d.opened result = none ∧
          (∀ k, novaSocketLookup net' k = if k = result then some net.sockets.fresh else d.opened k) ∧
          ∃ dev, net'.sockets = net.sockets.alloc ⟨domain, type, protocol, 0, 0, dev⟩)
  refuse : ∀ op k, op.sockfd = some k → d.opened k = none → socketStep drivers net op = some (-1, net)
  close : ∀ k sock, d.opened k = some sock → ∃ net', novaClose net k = some (0, net') ∧
    (∀ k', novaSocketLookup net' k' = if k' = k then none else d.opened k') ∧
    ∀ p, net'.sockets.get p = if p = sock then none else net.sockets.get p
  act : ∀ op k sock, op.sockfd = some k → op ≠ .close k → d.opened k = some sock →
    ∃ result net' socket, socketStep drivers net op = some (result, net') ∧ op.Answers result ∧
      net.sockets.get sock = some socket ∧ net.Writes sock socket (op.state socket.state) net' ∧
      net'.socketTable = net.socketTable ∧ ∀ p, p ≠ sock → net'.sockets.get p = net.sockets.get p
  send : ∀ c, SendGoes drivers net c (net.sendsThrough drivers c)

/-! ## Answers -/

theorem novaSendSkb_answers {skb : SkbPtr} {len : UInt64} {result}
    (h : novaSendSkb drivers net skb len = some (result, net')) : result = -1 ∨ result = len.toInt64.toInt := by
  rw [novaSendSkb, Option.bind_eq_some_iff] at h
  obtain ⟨r, _, h⟩ := h
  split at h
  · obtain ⟨_, _, he⟩ := Option.map_eq_some_iff.mp h
    exact .inl (congrArg Prod.fst he).symm
  · exact .inr (congrArg Prod.fst (Option.some.inj h)).symm

theorem novaSendPacket_answers {buf : Nat → UInt8} {c : SendCall} {dev result}
    (h : novaSendPacket drivers net buf c dev = some (result, net')) : result = -1 ∨ result = c.len.toInt64.toInt := by
  rw [novaSendPacket, Option.bind_eq_some_iff] at h
  obtain ⟨⟨skb?, net₁⟩, _, h⟩ := h
  cases skb? with
  | none => exact .inl (congrArg Prod.fst (Option.some.inj h)).symm
  | some skb =>
      obtain ⟨buff, _, h⟩ := Option.bind_eq_some_iff.mp h
      exact novaSendSkb_answers h

theorem novaSend_answers {c : SendCall} {result} (h : novaSend drivers net c = some (result, net')) :
    result = -1 ∨ c.buf.isSome ∧ c.len ≠ 0 ∧ result = c.len.toInt64.toInt := by
  rw [novaSend] at h
  split at h
  · next sock buf _ hbuf =>
      split at h
      · exact .inl (congrArg Prod.fst (Option.some.inj h)).symm
      · next hlen =>
          obtain ⟨net₁, _, h⟩ := Option.bind_eq_some_iff.mp h
          obtain ⟨socket, _, h⟩ := Option.bind_eq_some_iff.mp h
          split at h
          · exact .inl (congrArg Prod.fst (Option.some.inj h)).symm
          · exact (novaSendPacket_answers h).imp_right fun hresult => ⟨by rw [hbuf]; rfl, hlen, hresult⟩
  · exact .inl (congrArg Prod.fst (Option.some.inj h)).symm

theorem setState_answers {k sock state result} (hlookup : novaSocketLookup net k = some sock)
    (h : net.setState k state = some (result, net')) : result = 0 := by
  rw [Net.setState, hlookup] at h
  obtain ⟨_, _, he⟩ := Option.map_eq_some_iff.mp h
  exact (congrArg Prod.fst he).symm

theorem checkSocket_of_open {k sock} (hlookup : novaSocketLookup net k = some sock) (result : Int) :
    net.checkSocket k result = result := by
  rw [Net.checkSocket, hlookup]

theorem answers_of_step {op : SocketOp} {k sock result} (hop : op.sockfd = some k) (hne : op ≠ .close k)
    (hlookup : novaSocketLookup net k = some sock) (h : socketStep drivers net op = some (result, net')) :
    op.Answers result := by
  cases op with
  | socket => cases hop
  | close sockfd =>
      cases hop
      exact absurd rfl hne
  | send c => exact novaSend_answers h
  | listen sockfd =>
      cases hop
      exact setState_answers hlookup h
  | shutdown sockfd =>
      cases hop
      exact setState_answers hlookup h
  | connect sockfd =>
      cases hop
      rw [socketStep, novaConnect, hlookup] at h
      obtain ⟨socket, _, h⟩ := Option.bind_eq_some_iff.mp h
      obtain ⟨_, _, he⟩ := Option.map_eq_some_iff.mp h
      exact (congrArg Prod.fst he).symm
  | recv sockfd buf len =>
      cases hop
      have hresult := (congrArg Prod.fst (Option.some.inj h)).symm
      simp only [novaRecv, hlookup] at hresult
      cases buf with
      | none => exact hresult
      | some buf =>
          by_cases hlen : len = 0
          · simpa [SocketOp.Answers, hlen] using hresult
          · simpa [SocketOp.Answers, hlen] using hresult
  | bind sockfd =>
      cases hop
      exact (congrArg Prod.fst (Option.some.inj h)).symm.trans (checkSocket_of_open hlookup _)
  | accept sockfd =>
      cases hop
      exact (congrArg Prod.fst (Option.some.inj h)).symm.trans (checkSocket_of_open hlookup _)
  | getsockopt sockfd =>
      cases hop
      exact (congrArg Prod.fst (Option.some.inj h)).symm.trans (checkSocket_of_open hlookup _)
  | setsockopt sockfd =>
      cases hop
      exact (congrArg Prod.fst (Option.some.inj h)).symm.trans (checkSocket_of_open hlookup _)

/-! ## The invariant -/

structure DescriptorsInv (net : Net pool) (d : Descriptors) : Prop where
  stack : StackInv net
  initialized : net.initialized = true
  table : ∀ k, novaSocketLookup net k = d.opened k
  paired : d.Paired

variable {d : Descriptors}

theorem DescriptorsInv.opened (h : DescriptorsInv net d) {k sock} (hk : d.opened k = some sock) :
    ∃ fd : Fin 64, k = fd.val ∧ net.entry fd = some sock := by
  rw [← h.table, lookup_eq_some_iff] at hk
  obtain ⟨fd, hfd, _, hentry⟩ := hk
  exact ⟨fd, hfd, hentry⟩

theorem DescriptorsInv.lookup_created (h : DescriptorsInv net d) {fd : Fin 64} (hfd : fd.val = net.nextSocketFd)
    (socket) :
    d.opened fd.val = none ∧
      ∀ k, novaSocketLookup (net.openSocket fd socket) k = if k = fd.val then some net.sockets.fresh else d.opened k := by
  have hpos := h.stack.next_pos
  constructor
  · rw [← h.table, lookup_eq_none_iff]
    intro fd' hval _
    exact h.stack.entry_next (by omega)
  · intro k
    rw [← h.table]
    exact lookup_openSocket (by omega) ..

theorem DescriptorsInv.novaSocket_cases (h : DescriptorsInv net d) (domain type protocol memory) :
    ∃ result net', novaSocket net domain type protocol memory = some (result, net') ∧ StackInv net' ∧
      net'.initialized = true ∧
      (result = -1 ∧ net'.socketTable = net.socketTable ∧ net'.sockets = net.sockets ∨
        1 ≤ result ∧ result ≤ 63 ∧ d.opened result = none ∧
          (∀ k, novaSocketLookup net' k = if k = result then some net.sockets.fresh else d.opened k) ∧
          ∃ dev, net'.sockets = net.sockets.alloc ⟨domain, type, protocol, 0, 0, dev⟩) := by
  obtain ⟨result, net', hcall, hstack, hcases⟩ := h.stack.socket_cases domain type protocol memory
  rw [Net.awake_of_initialized h.initialized] at hcases
  refine ⟨result, net', hcall, hstack, ?_⟩
  rcases hcases with ⟨_, rfl, rfl⟩ | ⟨_, _, _, rfl, rfl⟩ | ⟨_, _, fd, hfd, rfl, dev, _, rfl⟩
  · exact ⟨h.initialized, .inl ⟨rfl, rfl, rfl⟩⟩
  · exact ⟨h.initialized, .inl ⟨rfl, rfl, rfl⟩⟩
  · obtain ⟨hnone, hlookup⟩ := h.lookup_created hfd ⟨domain, type, protocol, 0, 0, dev⟩
    have hlt := fd.isLt
    have hpos := h.stack.next_pos
    exact ⟨h.initialized, .inr ⟨by omega, by omega, hnone, hlookup, dev, rfl⟩⟩

theorem DescriptorsInv.meets (h : DescriptorsInv net d) (hxmits : XmitsKeep drivers) : DescriptorsMeet drivers net d where
  table := h.table
  range k sock hk := by
    obtain ⟨fd, rfl, hentry⟩ := h.opened hk
    have hissued := h.stack.issued fd sock hentry
    have hlt := fd.isLt
    omega
  live k sock hk := by
    obtain ⟨fd, _, hentry⟩ := h.opened hk
    exact h.stack.live fd sock hentry
  distinct k k' sock hk hk' := by
    obtain ⟨fd, rfl, hentry⟩ := h.opened hk
    obtain ⟨fd', rfl, hentry'⟩ := h.opened hk'
    rw [h.stack.distinct fd fd' sock hentry hentry']
  paired := h.paired
  create domain type protocol memory := by
    obtain ⟨result, net', hsocket, _, _, hcases⟩ := h.novaSocket_cases domain type protocol memory
    exact ⟨result, net', hsocket, hcases⟩
  refuse op k hop hk := by
    rcases h.stack.descriptor_cases hxmits hop with ⟨_, hstep⟩ | ⟨fd, sock, _, _, _, _, hlookup, _⟩
    · exact hstep
    · rw [h.table, hk] at hlookup
      cases hlookup
  close k sock hk := by
    have hclose : SocketOp.sockfd (.close k) = some k := rfl
    rcases h.stack.descriptor_cases hxmits hclose with
      ⟨hnone, _⟩ | ⟨fd, sock', socket, rfl, hpos, _, hlookup, _, ⟨_, sockets, hstep, hgets⟩ | ⟨hne, _⟩⟩
    · rw [h.table, hk] at hnone
      cases hnone
    · rw [h.table, hk, Option.some.injEq] at hlookup
      subst hlookup
      refine ⟨_, hstep, fun k' => ?_, hgets⟩
      rw [← h.table]
      exact lookup_closeSocket (by omega) ..
    · exact absurd rfl hne
  act op k sock hop hne hk := by
    rcases h.stack.descriptor_cases hxmits hop with
      ⟨hnone, _⟩ | ⟨fd, sock', socket, _, _, _, hlookup, hget, ⟨rfl, _⟩ | ⟨_, result, net', hstep, hwrites⟩⟩
    · rw [h.table, hk] at hnone
      cases hnone
    · exact absurd rfl hne
    · have hanswers := answers_of_step hop hne hlookup hstep
      rw [h.table, hk, Option.some.injEq] at hlookup
      subst hlookup
      exact ⟨result, net', socket, hstep, hanswers, hget, hwrites, hwrites.socketTable,
        fun p hp => hwrites.sockets (net.sockets.live_of_get hget) hp⟩
  send := h.stack.sendGoes drivers

/-! ## One call -/

theorem DescriptorsInv.start (net : Net pool) : DescriptorsInv (novaNetworkInit net).2 .start where
  stack := .init net
  initialized := rfl
  table _ := lookup_eq_none_iff.mpr fun fd _ _ => StackInv.entry_init net fd
  paired _ := rfl

theorem DescriptorsInv.create (h : DescriptorsInv net d) (hstack : StackInv net') (hinitialized : net'.initialized = true)
    {k : Int} (hk : d.opened k = none)
    (hlookup : ∀ k', novaSocketLookup net' k' = if k' = k then some net.sockets.fresh else d.opened k') :
    DescriptorsInv net' (d.create k net.sockets.fresh) where
  stack := hstack
  initialized := hinitialized
  table k' := by
    rw [hlookup]
    exact (Function.update_apply ..).symm
  paired := h.paired.create hk _

theorem DescriptorsInv.same (h : DescriptorsInv net d) (hstack : StackInv net') (hinitialized : net'.initialized = true)
    (htable : net'.socketTable = net.socketTable) : DescriptorsInv net' d where
  stack := hstack
  initialized := hinitialized
  table k := (lookup_congr htable k).trans (h.table k)
  paired := h.paired

theorem DescriptorsInv.close (h : DescriptorsInv net d) {fd : Fin 64} (hpos : 0 < (fd.val : Int)) {sock sockets}
    (hentry : net.entry fd = some sock) (hlookup : novaSocketLookup net fd.val = some sock)
    (hgets : ∀ p, sockets.get p = if p = sock then none else net.sockets.get p) :
    DescriptorsInv { net.setEntry fd none with sockets := sockets } (d.close fd.val) where
  stack := h.stack.closeSocket hentry hgets
  initialized := h.initialized
  table k := by
    rw [lookup_closeSocket (by omega), h.table]
    exact (Function.update_apply ..).symm
  paired := h.paired.close (by rw [← h.table, hlookup])

theorem follow_other {op : SocketOp} {k : Int} (hk : op.sockfd = some k) (hne : op ≠ .close k) (answer) (net : Net pool) :
    follow (some net) (.socket op) answer d = d := by
  cases op with
  | socket => cases hk
  | close sockfd =>
      cases hk
      exact absurd rfl hne
  | _ => rfl

theorem DescriptorsInv.next (h : DescriptorsInv net d) (hopens : OpensKeep drivers Net.SameStack)
    (hxmits : XmitsKeep drivers) {op : StackOp pool} (hop : op.Keeps) (hedit : ProperStackEdit (some net) op) :
    ∃ net' d', ((stackMachine drivers).withGhost follow).next (some net, d) op = (some net', d') ∧
      DescriptorsInv net' d' := by
  cases op with
  | registry op =>
      have hne : op ≠ .init ∧ op ≠ .shutdown := by
        constructor
        · rintro rfl
          exact hop.1 rfl
        · rintro rfl
          exact hop.2 rfl
      obtain ⟨answer, net', hstep, hsame, hstack, hinitialized, _⟩ := h.stack.registry_next hopens (hedit op rfl) hne.1
      exact ⟨net', d, stackMachine_follows follow (stackStep_registry hstep) d, h.same hstack ((hinitialized hne.2).trans h.initialized) hsame.socketTable⟩
  | socket op =>
      rcases op.socket_or_sockfd with ⟨domain, type, protocol, memory, rfl⟩ | ⟨k, hk⟩
      · obtain ⟨result, net', hcall, hstack, hinitialized, hcases⟩ := h.novaSocket_cases domain type protocol memory
        have hstep : socketStep drivers net (.socket domain type protocol memory) = some (result, net') := hcall
        refine ⟨net', _, stackMachine_follows follow (stackStep_socket hstep) d, ?_⟩
        rcases hcases with ⟨rfl, htable, _⟩ | ⟨hpos, _, hnone, hlookup, _⟩
        · exact h.same hstack hinitialized htable
        · rw [follow, if_neg (by omega)]
          exact h.create hstack hinitialized hnone hlookup
      · rcases h.stack.descriptor_cases hxmits hk with ⟨_, hcall⟩ | ⟨fd, sock, socket, rfl, hpos, hentry, hlookup, hget, hcases⟩
        · refine ⟨net, d, ?_, h⟩
          rw [stackMachine_follows follow (stackStep_socket hcall)]
          cases op <;> rfl
        rcases hcases with ⟨rfl, sockets, hcall, hgets⟩ | ⟨hne, result, net', hcall, hwrites⟩
        · exact ⟨_, _, stackMachine_follows follow (stackStep_socket hcall) d, h.close hpos hentry hlookup hgets⟩
        · refine ⟨net', d, ?_, h.same (hwrites.stackInv (net.sockets.live_of_get hget) h.stack)
            (hwrites.initialized.trans h.initialized) hwrites.socketTable⟩
          rw [stackMachine_follows follow (stackStep_socket hcall), follow_other hk hne]

/-! ## Whole runs -/

/-- In every state of every run of the interface after a reset, each descriptor names one open socket, and every call
answers for the sockets that the descriptors name. -/
theorem descriptors_name_sockets (hopens : OpensKeep drivers Net.SameStack) (hxmits : XmitsKeep drivers)
    (net₀ : Net pool) {ops : List (StackOp pool)} (hops : ∀ op ∈ ops, op.Keeps)
    (hedits : (stackMachine drivers).Along ProperStackEdit (some (novaNetworkInit net₀).2) ops) :
    ((stackMachine drivers).withGhost follow).Always (fun s => ∃ net, s.1 = some net ∧ DescriptorsMeet drivers net s.2)
      (some (novaNetworkInit net₀).2, .start) ops := by
  have hinv : ((stackMachine drivers).withGhost follow).Always (fun s => ∃ net, s.1 = some net ∧ DescriptorsInv net s.2)
      (some (novaNetworkInit net₀).2, .start) ops := by
    have hedits' := ((stackMachine drivers).withGhost_along follow (c := Descriptors.start)).mpr hedits
    refine Machine.always_of_along ?_ ⟨_, rfl, .start net₀⟩ (hedits'.and (Machine.along_of_forall hops))
    rintro ⟨_, d⟩ op ⟨net, rfl, h⟩ ⟨hedit, hop⟩
    obtain ⟨net', d', hnext, h'⟩ := h.next hopens hxmits hop hedit
    exact ⟨net', congrArg Prod.fst hnext, by rw [hnext]; exact h'⟩
  refine hinv.mono ?_
  rintro s ⟨net, hnet, h⟩
  exact ⟨net, hnet, h.meets hxmits⟩

theorem xmitsKeep_stubDrivers : XmitsKeep (stubDrivers : Nat → NovaNetDeviceOps pool) := by
  intro n hook hhook net dev skb hlive
  cases hhook
  obtain ⟨net', hxmit, hsame⟩ := nicStartXmit_keeps dev hlive
  exact ⟨0, net', hxmit, hsame, fun hne => absurd rfl hne⟩

/-- Two sockets, one of them connected, used and closed twice, and a call on a descriptor out of range. -/
def socketsComeAndGo : List (StackOp 0) :=
  [.registry (.register (some .lo)), .socket (.socket 2 1 0 true), .socket (.socket 10 2 0 true),
    .socket (.connect 1), .socket (.send ⟨2, some fun _ => 7, 3, true, true⟩), .socket (.close 1), .socket (.close 1),
    .socket (.socket 2 1 0 false), .socket (.recv 64 none 8)]

theorem descriptors_name_sockets_loopback :
    ((stackMachine stubDrivers).withGhost follow).Always
      (fun s => ∃ net, s.1 = some net ∧ DescriptorsMeet stubDrivers net s.2)
      (some (novaNetworkInit (programStart prepared)).2, .start) socketsComeAndGo := by
  refine descriptors_name_sockets (opensKeep_stubDrivers fun _ _ hsame => hsame) xmitsKeep_stubDrivers
    (programStart prepared) ?_ ?_
  · simp [socketsComeAndGo, StackOp.Keeps]
  · refine Machine.Along.mono (fun st op => properStackEdit_of_ne) (Machine.along_of_forall ?_)
    simp [socketsComeAndGo]

end NovaOs.Network
