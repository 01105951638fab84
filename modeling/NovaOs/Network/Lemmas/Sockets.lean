import NovaOs.Network.Lemmas.Hooks

/-!
# What the calls on sockets do

`StackInv` holds in every state of the stack: the registry is well formed, the open descriptors were handed out and
name different sockets that are alive. Under it every call on a socket has a result, and a call on an open descriptor
works on the socket of that descriptor.
-/

namespace NovaOs.Network

open Lib

variable {pool : Nat} {drivers : Nat → NovaNetDeviceOps pool} {net net' : Net pool}

/-! ## Descriptors -/

theorem entryOf_eq_some_iff {sockfd : Int} {fd : Fin 64} : entryOf sockfd = some fd ↔ sockfd = fd.val ∧ 0 < sockfd := by
  have hfd := fd.isLt
  unfold entryOf
  split
  · simp only [reduceCtorEq, false_iff]
    omega
  · rw [Option.some.injEq, Fin.ext_iff]
    constructor
    · intro h
      have hval : sockfd.toNat = fd.val := h
      omega
    · rintro ⟨rfl, _⟩
      simp

theorem lookup_eq_some_iff {sockfd : Int} {sock : SockPtr} :
    novaSocketLookup net sockfd = some sock ↔ ∃ fd : Fin 64, sockfd = fd.val ∧ 0 < sockfd ∧ net.entry fd = some sock := by
  simp only [novaSocketLookup, Option.bind_eq_some_iff, entryOf_eq_some_iff, and_assoc]

theorem lookup_eq_none_iff {sockfd : Int} :
    novaSocketLookup net sockfd = none ↔ ∀ fd : Fin 64, sockfd = fd.val → 0 < sockfd → net.entry fd = none := by
  simp only [novaSocketLookup, Option.bind_eq_none_iff, entryOf_eq_some_iff, and_imp]

theorem lookup_congr (h : net'.socketTable = net.socketTable) (sockfd) :
    novaSocketLookup net' sockfd = novaSocketLookup net sockfd := by
  rw [novaSocketLookup, Net.entry_congr h, novaSocketLookup]

theorem lookup_setEntry {fd : Fin 64} (hpos : 0 < fd.val) (sock? sockfd) :
    novaSocketLookup (net.setEntry fd sock?) sockfd =
      if sockfd = fd.val then sock? else novaSocketLookup net sockfd := by
  split
  · next he =>
      have hfd : entryOf sockfd = some fd := entryOf_eq_some_iff.mpr ⟨he, by omega⟩
      rw [novaSocketLookup, hfd, Option.bind_some, Net.entry_setEntry, if_pos rfl]
  · next hne =>
      rw [novaSocketLookup, novaSocketLookup]
      cases hfd : entryOf sockfd with
      | none => rfl
      | some fd' =>
          rw [Option.bind_some, Option.bind_some, Net.entry_setEntry, if_neg]
          rintro rfl
          exact hne (entryOf_eq_some_iff.mp hfd).1

theorem lookup_closeSocket {fd : Fin 64} (hpos : 0 < fd.val) (sockets sockfd) :
    novaSocketLookup ({ net.setEntry fd none with sockets := sockets } : Net pool) sockfd =
      if sockfd = fd.val then none else novaSocketLookup net sockfd := lookup_setEntry hpos ..

/-! ## The sockets as they are -/

/-- Descriptors and sockets are the same. -/
structure Net.SameSockets (net net' : Net pool) : Prop where
  socketTable : net'.socketTable = net.socketTable
  nextSocketFd : net'.nextSocketFd = net.nextSocketFd
  sockets : net'.sockets = net.sockets

theorem Net.SameSockets.refl (net : Net pool) : net.SameSockets net := ⟨rfl, rfl, rfl⟩

theorem Net.SameSockets.trans {net₁ net₂ net₃ : Net pool} (h : net₁.SameSockets net₂) (h' : net₂.SameSockets net₃) :
    net₁.SameSockets net₃ where
  socketTable := h'.socketTable.trans h.socketTable
  nextSocketFd := h'.nextSocketFd.trans h.nextSocketFd
  sockets := h'.sockets.trans h.sockets

theorem Net.SameStack.sameSockets (h : net.SameStack net') : net.SameSockets net' :=
  ⟨h.socketTable, h.nextSocketFd, h.sockets⟩

theorem Net.Relinked.sameSockets (h : net.Relinked net') : net.SameSockets net' :=
  ⟨h.socketTable, h.nextSocketFd, h.sockets⟩

/-! ## Creating a socket -/

def Supported (domain type : Int) : Prop := domain ∈ novaDomains ∧ type ∈ novaSockTypes

instance (domain type : Int) : Decidable (Supported domain type) := inferInstanceAs (Decidable (_ ∧ _))

/-- The state in which `nova_socket` checks its arguments. -/
def Net.awake (net : Net pool) : Net pool := if net.initialized then net else (novaNetworkInit net).2

def Net.openSocket (net : Net pool) (fd : Fin 64) (socket : NovaSocket pool) : Net pool :=
  { net.setEntry fd (some net.sockets.fresh) with
    sockets := net.sockets.alloc socket
    nextSocketFd := net.nextSocketFd + 1 }

theorem Net.entry_openSocket (fd socket fd') :
    (net.openSocket fd socket).entry fd' = if fd' = fd then some net.sockets.fresh else net.entry fd' :=
  Net.entry_setEntry ..

theorem lookup_openSocket {fd : Fin 64} (hpos : 0 < fd.val) (socket sockfd) :
    novaSocketLookup (net.openSocket fd socket) sockfd =
      if sockfd = fd.val then some net.sockets.fresh else novaSocketLookup net sockfd := lookup_setEntry hpos ..

theorem novaSocket_cases (net : Net pool) (domain type protocol memory) :
    ((¬ Supported domain type ∨ 64 ≤ net.awake.nextSocketFd) ∧
      novaSocket net domain type protocol memory = some (-1, net.awake)) ∨
    (Supported domain type ∧ net.awake.nextSocketFd < 64 ∧ memory = false ∧
      novaSocket net domain type protocol memory =
        some (-1, { net.awake with nextSocketFd := net.awake.nextSocketFd + 1 })) ∨
    (Supported domain type ∧ memory = true ∧ ∃ fd : Fin 64, fd.val = net.awake.nextSocketFd ∧
      novaSocket net domain type protocol memory = (net.awake.searchName "lo").map fun dev =>
        ((fd.val : Int), net.awake.openSocket fd ⟨domain, type, protocol, 0, 0, dev⟩)) := by
  have hdef : novaSocket net domain type protocol memory =
      if domain ∉ novaDomains then some (-1, net.awake)
      else if type ∉ novaSockTypes then some (-1, net.awake)
      else if h : net.awake.nextSocketFd ≥ 64 then some (-1, net.awake)
      else if memory then
        (net.awake.searchName "lo").map fun dev =>
          (((⟨net.awake.nextSocketFd, not_le.mp h⟩ : Fin 64).val : Int),
            net.awake.openSocket ⟨net.awake.nextSocketFd, not_le.mp h⟩ ⟨domain, type, protocol, 0, 0, dev⟩)
      else some (-1, { net.awake with nextSocketFd := net.awake.nextSocketFd + 1 }) := rfl
  rw [hdef]
  by_cases hdomain : domain ∈ novaDomains
  · by_cases htype : type ∈ novaSockTypes
    · by_cases hfull : net.awake.nextSocketFd ≥ 64
      · exact .inl ⟨.inr hfull, by simp only [hdomain, htype, hfull, not_true_eq_false, ↓reduceIte, ↓reduceDIte]⟩
      · have hlt : net.awake.nextSocketFd < 64 := not_le.mp hfull
        cases memory with
        | false =>
            refine .inr (.inl ⟨⟨hdomain, htype⟩, hlt, rfl, ?_⟩)
            simp only [hdomain, htype, hfull, not_true_eq_false, ↓reduceIte, ↓reduceDIte, Bool.false_eq_true]
        | true =>
            refine .inr (.inr ⟨⟨hdomain, htype⟩, rfl, ⟨net.awake.nextSocketFd, hlt⟩, rfl, ?_⟩)
            simp only [hdomain, htype, hfull, not_true_eq_false, ↓reduceIte, ↓reduceDIte]
    · exact .inl ⟨.inl fun h => htype h.2, by simp only [hdomain, htype, not_true_eq_false, not_false_eq_true, ↓reduceIte]⟩
  · exact .inl ⟨.inl fun h => hdomain h.1, by simp only [hdomain, not_false_eq_true, ↓reduceIte]⟩

/-! ## The invariant -/

structure StackInv (net : Net pool) : Prop where
  registry : ∃ devs, RegistryIs net devs
  live : ∀ fd sock, net.entry fd = some sock → net.sockets.Live sock
  distinct : ∀ fd fd' sock, net.entry fd = some sock → net.entry fd' = some sock → fd = fd'
  issued : ∀ fd sock, net.entry fd = some sock → 1 ≤ fd.val ∧ fd.val < net.nextSocketFd
  next_pos : 1 ≤ net.nextSocketFd
  next_le : net.nextSocketFd ≤ 64

namespace StackInv

theorem of_closed (hregistry : ∃ devs, RegistryIs net devs) (hclosed : ∀ fd, net.entry fd = none)
    (hnext : net.nextSocketFd = 1) : StackInv net where
  registry := hregistry
  live fd sock hentry := absurd (hentry.symm.trans (hclosed fd)) (by simp)
  distinct fd fd' sock hentry := absurd (hentry.symm.trans (hclosed fd)) (by simp)
  issued fd sock hentry := absurd (hentry.symm.trans (hclosed fd)) (by simp)
  next_pos := by omega
  next_le := by omega

theorem entry_init (net : Net pool) (fd) : (novaNetworkInit net).2.entry fd = none := by
  simp [Net.entry, novaNetworkInit]

theorem init (net : Net pool) : StackInv (novaNetworkInit net).2 :=
  of_closed ⟨[], .of_empty rfl⟩ (entry_init net) rfl

theorem start (devices : DevPtr pool → NovaNetDevice pool) : StackInv (programStart devices) :=
  of_closed ⟨[], .of_empty rfl⟩ (fun fd => by simp [Net.entry, programStart, zeroNet]) rfl

theorem awake (h : StackInv net) : StackInv net.awake := by
  unfold Net.awake
  split
  · exact h
  · exact init net

/-- What the calls keep that leave the table of sockets alone. -/
theorem keep (h : StackInv net) (hregistry : ∃ devs, RegistryIs net' devs)
    (htable : net'.socketTable = net.socketTable) (hnext : net'.nextSocketFd = net.nextSocketFd)
    (hsockets : ∀ p, net.sockets.Live p → net'.sockets.Live p) : StackInv net' := by
  have hentry : net'.entry = net.entry := Net.entry_congr htable
  refine ⟨hregistry, ?_, ?_, ?_, by rw [hnext]; exact h.next_pos, by rw [hnext]; exact h.next_le⟩
  · rw [hentry]
    exact fun fd sock hfd => hsockets sock (h.live fd sock hfd)
  · rw [hentry]
    exact h.distinct
  · rw [hentry, hnext]
    exact h.issued

theorem sameSockets (h : StackInv net) (hsame : net.SameSockets net') (hregistry : ∃ devs, RegistryIs net' devs) :
    StackInv net' :=
  h.keep hregistry hsame.socketTable hsame.nextSocketFd fun p hp => by rwa [hsame.sockets]

theorem sameStack (h : StackInv net) (hsame : net.SameStack net') : StackInv net' := by
  obtain ⟨devs, hdevs⟩ := h.registry
  exact h.sameSockets hsame.sameSockets ⟨devs, hdevs.same hsame.sameRegistry⟩

theorem live_setSocket {sock socket} (hlive : net.sockets.Live sock) {p} (hp : net.sockets.Live p) :
    (net.setSocket sock socket).sockets.Live p := by
  rw [Heap.Live, Net.setSocket, Heap.get_write _ hlive]
  split
  · exact Option.some_ne_none _
  · exact hp

theorem setSocket (h : StackInv net) {sock} (hlive : net.sockets.Live sock) (socket) :
    StackInv (net.setSocket sock socket) := by
  obtain ⟨devs, hdevs⟩ := h.registry
  exact h.keep ⟨devs, hdevs.linked, hdevs.names⟩ rfl rfl fun p hp => live_setSocket hlive hp

theorem entry_ne_fresh (h : StackInv net) (fd) : net.entry fd ≠ some net.sockets.fresh := fun hentry =>
  h.live fd _ hentry net.sockets.get_fresh

theorem entry_next (h : StackInv net) {fd : Fin 64} (hfd : net.nextSocketFd ≤ fd.val) : net.entry fd = none := by
  cases hentry : net.entry fd with
  | none => rfl
  | some sock =>
      have hlt := (h.issued fd sock hentry).2
      omega

theorem openSocket (h : StackInv net) {fd : Fin 64} (hfd : fd.val = net.nextSocketFd) (socket) :
    StackInv (net.openSocket fd socket) := by
  obtain ⟨devs, hdevs⟩ := h.registry
  refine ⟨⟨devs, hdevs.linked, hdevs.names⟩, fun fd' sock h' => ?_, fun fd₁ fd₂ sock h₁ h₂ => ?_,
    fun fd' sock h' => ?_, Nat.le_succ_of_le h.next_pos, ?_⟩
  · rw [Net.entry_openSocket] at h'
    rw [Heap.Live, Net.openSocket, Heap.get_alloc]
    split
    · exact Option.some_ne_none _
    · next hne =>
        split at h'
        · exact absurd (Option.some.inj h').symm hne
        · exact h.live fd' sock h'
  · rw [Net.entry_openSocket] at h₁ h₂
    split at h₁ <;> split at h₂
    · next he₁ he₂ => rw [he₁, he₂]
    · exact absurd (h₂.trans h₁.symm) (h.entry_ne_fresh fd₂)
    · exact absurd (h₁.trans h₂.symm) (h.entry_ne_fresh fd₁)
    · exact h.distinct fd₁ fd₂ sock h₁ h₂
  · rw [Net.entry_openSocket] at h'
    show 1 ≤ fd'.val ∧ fd'.val < net.nextSocketFd + 1
    split at h'
    · next he =>
        have hpos := h.next_pos
        rw [he]
        omega
    · have hissued := h.issued fd' sock h'
      omega
  · show net.nextSocketFd + 1 ≤ 64
    have hlt := fd.isLt
    omega

theorem closeSocket (h : StackInv net) {fd : Fin 64} {sock} (hfd : net.entry fd = some sock) {sockets}
    (hgets : ∀ p, sockets.get p = if p = sock then none else net.sockets.get p) :
    StackInv { net.setEntry fd none with sockets := sockets } := by
  have hopen : ∀ fd' sock', ({ net.setEntry fd none with sockets := sockets } : Net pool).entry fd' = some sock' →
      fd' ≠ fd ∧ net.entry fd' = some sock' := fun fd' sock' h' => by
    rw [Net.entry_closeSocket] at h'
    split at h'
    · cases h'
    · next hne => exact ⟨hne, h'⟩
  obtain ⟨devs, hdevs⟩ := h.registry
  refine ⟨⟨devs, hdevs.linked, hdevs.names⟩, fun fd' sock' h' => ?_, fun fd₁ fd₂ sock' h₁ h₂ => ?_,
    fun fd' sock' h' => h.issued fd' sock' (hopen fd' sock' h').2, h.next_pos, h.next_le⟩
  · obtain ⟨hne, hold⟩ := hopen fd' sock' h'
    rw [Heap.Live, hgets, if_neg]
    · exact h.live fd' sock' hold
    · rintro rfl
      exact hne (h.distinct fd' fd sock' hold hfd)
  · exact h.distinct fd₁ fd₂ sock' (hopen fd₁ sock' h₁).2 (hopen fd₂ sock' h₂).2

/-- A descriptor that was taken for no socket is lost. -/
theorem skip (h : StackInv net) (hnext : net.nextSocketFd < 64) :
    StackInv { net with nextSocketFd := net.nextSocketFd + 1 } where
  registry := h.registry.imp fun _ hdevs => ⟨hdevs.linked, hdevs.names⟩
  live := h.live
  distinct := h.distinct
  issued fd sock hentry := (h.issued fd sock hentry).imp_right Nat.lt_succ_of_lt
  next_pos := Nat.le_succ_of_le h.next_pos
  next_le := hnext

theorem socket_cases (h : StackInv net) (domain type protocol memory) :
    ∃ result net', novaSocket net domain type protocol memory = some (result, net') ∧ StackInv net' ∧
      ((¬ Supported domain type ∨ 64 ≤ net.awake.nextSocketFd) ∧ result = -1 ∧ net' = net.awake ∨
        Supported domain type ∧ net.awake.nextSocketFd < 64 ∧ memory = false ∧ result = -1 ∧
          net' = { net.awake with nextSocketFd := net.awake.nextSocketFd + 1 } ∨
        Supported domain type ∧ memory = true ∧ ∃ fd : Fin 64, fd.val = net.awake.nextSocketFd ∧ result = fd.val ∧
          ∃ dev, net.awake.searchName "lo" = some dev ∧
            net' = net.awake.openSocket fd ⟨domain, type, protocol, 0, 0, dev⟩) := by
  rcases novaSocket_cases net domain type protocol memory with
    ⟨hrefused, hcall⟩ | ⟨hsupported, hlt, hmemory, hcall⟩ | ⟨hsupported, hmemory, fd, hfd, hcall⟩
  · exact ⟨-1, _, hcall, h.awake, .inl ⟨hrefused, rfl, rfl⟩⟩
  · exact ⟨-1, _, hcall, h.awake.skip hlt, .inr (.inl ⟨hsupported, hlt, hmemory, rfl, rfl⟩)⟩
  · obtain ⟨devs, hdevs⟩ := h.awake.registry
    rw [hdevs.search "lo", Option.map_some] at hcall
    exact ⟨fd.val, _, hcall, h.awake.openSocket hfd _,
      .inr (.inr ⟨hsupported, hmemory, fd, hfd, rfl, _, hdevs.search "lo", rfl⟩)⟩

end StackInv

theorem Net.awake_of_initialized (h : net.initialized = true) : net.awake = net := if_pos h

/-! ## Calls on a descriptor -/

def SocketOp.sockfd : SocketOp → Option Int
  | .socket .. => none
  | .bind sockfd | .connect sockfd | .listen sockfd | .accept sockfd | .recv sockfd _ _ | .shutdown sockfd => some sockfd
  | .getsockopt sockfd | .setsockopt sockfd | .close sockfd => some sockfd
  | .send c => some c.sockfd

theorem SocketOp.socket_or_sockfd (op : SocketOp) :
    (∃ domain type protocol memory, op = .socket domain type protocol memory) ∨ ∃ k, op.sockfd = some k := by
  cases op with
  | socket domain type protocol memory => exact .inl ⟨domain, type, protocol, memory, rfl⟩
  | _ => exact .inr ⟨_, rfl⟩

/-- The state that a call leaves its socket in. -/
def SocketOp.state : SocketOp → Int → Int
  | .connect _ => fun _ => 1
  | .listen _ => fun _ => 2
  | .shutdown _ => fun _ => 0
  | _ => id

/-- The call wrote to the socket and changed nothing else but packets, counters and flags: the state of the socket is
now `state`, and its device is the one it had or, when it had none, what is found under the name of the loopback. -/
structure Net.Writes (net : Net pool) (sock : SockPtr) (socket : NovaSocket pool) (state : Int) (net' : Net pool) : Prop where
  write : ∃ dev, (dev = socket.dev ∨ socket.dev = none ∧ net.searchName "lo" = some dev) ∧
    (net.setSocket sock { socket with state := state, dev := dev }).SameStack net'

theorem Net.Writes.refl {sock socket} (hget : net.sockets.get sock = some socket) :
    net.Writes sock socket socket.state net := by
  have hself : net.setSocket sock socket = net := by
    rw [Net.setSocket, Heap.write_self _ hget]
  exact ⟨socket.dev, .inl rfl, by rw [hself]; exact .refl net⟩

namespace Net.Writes

variable {sock : SockPtr} {socket : NovaSocket pool} {state : Int}

theorem sockets (h : net.Writes sock socket state net') (hlive : net.sockets.Live sock) {p} (hp : p ≠ sock) :
    net'.sockets.get p = net.sockets.get p := by
  obtain ⟨dev, _, hsame⟩ := h.write
  rw [hsame.sockets, Net.setSocket, Heap.get_write _ hlive, if_neg hp]

theorem socketTable (h : net.Writes sock socket state net') : net'.socketTable = net.socketTable := by
  obtain ⟨dev, _, hsame⟩ := h.write
  exact hsame.socketTable

theorem initialized (h : net.Writes sock socket state net') : net'.initialized = net.initialized := by
  obtain ⟨dev, _, hsame⟩ := h.write
  exact hsame.initialized

theorem stackInv (h : net.Writes sock socket state net') (hlive : net.sockets.Live sock) (hinv : StackInv net) :
    StackInv net' := by
  obtain ⟨dev, _, hsame⟩ := h.write
  exact (hinv.setSocket hlive _).sameStack hsame

end Net.Writes

theorem Net.setState_of_open {sockfd sock socket} (state) (hlookup : novaSocketLookup net sockfd = some sock)
    (hget : net.sockets.get sock = some socket) :
    ∃ net', net.setState sockfd state = some (0, net') ∧ net.Writes sock socket state net' := by
  refine ⟨net.setSocket sock { socket with state := state }, ?_, ⟨socket.dev, .inl rfl, .refl _⟩⟩
  simp only [Net.setState, hlookup, hget, Option.map_some]

theorem Net.routeSocket_of_open {sock socket found} (hget : net.sockets.get sock = some socket)
    (hsearch : net.searchName "lo" = some found) :
    net.routeSocket sock = some (net.setSocket sock { socket with dev := socket.dev.or found }) := by
  cases hdev : socket.dev with
  | none => simp only [Net.routeSocket, hget, hdev, novaNetdevFind, hsearch, Option.bind_some, Option.map_some, Option.none_or]
  | some dev =>
      have hself : net.setSocket sock { socket with dev := some dev } = net := by
        rw [← hdev, Net.setSocket, Heap.write_self _ hget]
      rw [Option.some_or, hself]
      simp only [Net.routeSocket, hget, hdev, Option.bind_some]

theorem Net.Writes.of_route {sock socket found state} (hsearch : net.searchName "lo" = some found)
    (hsame : (net.setSocket sock { socket with state := state, dev := socket.dev.or found }).SameStack net') :
    net.Writes sock socket state net' := by
  refine ⟨_, ?_, hsame⟩
  cases socket.dev with
  | none => exact .inr ⟨rfl, hsearch⟩
  | some dev => exact .inl rfl

theorem novaConnect_of_open {sockfd sock socket found} (hlookup : novaSocketLookup net sockfd = some sock)
    (hget : net.sockets.get sock = some socket) (hsearch : net.searchName "lo" = some found) :
    ∃ net', novaConnect net sockfd = some (0, net') ∧ net.Writes sock socket 1 net' := by
  have hlive : net.sockets.Live sock := net.sockets.live_of_get hget
  have hget' : (net.setSocket sock { socket with state := 1 }).sockets.get sock = some { socket with state := 1 } := by
    rw [Net.setSocket, Heap.get_write _ hlive, if_pos rfl]
  have hsearch' : (net.setSocket sock { socket with state := 1 }).searchName "lo" = some found := hsearch
  have hwrites : (net.setSocket sock { socket with state := 1 }).setSocket sock
      { socket with state := 1, dev := socket.dev.or found } =
        net.setSocket sock { socket with state := 1, dev := socket.dev.or found } := by
    simp only [Net.setSocket, Heap.write_write _ hlive]
  refine ⟨_, ?_, .of_route hsearch (.refl _)⟩
  simp only [novaConnect, hlookup, hget, Option.bind_some, Net.routeSocket_of_open hget' hsearch', Option.map_some, hwrites]

/-- A packet is freed by a driver that takes it and by the send when the driver refuses it. -/
theorem novaSendSkb_keeps (hxmits : XmitsKeep drivers) {skb : SkbPtr} (hlive : net.skbs.Live skb) (len) :
    ∃ result net', novaSendSkb drivers net skb len = some (result, net') ∧ net.SameStack net' := by
  obtain ⟨buff, hget⟩ := Option.ne_none_iff_exists'.mp hlive
  have hqueue : ∃ result net', novaDevQueueXmit drivers net (some skb) = some (result, net') ∧ net.SameStack net' ∧
      (result ≠ 0 → net'.skbs.Live skb) := by
    cases hhook : net.startXmit drivers buff.dev with
    | none => exact ⟨-1, net, by simp only [novaDevQueueXmit, hget, hhook, Option.bind_some], .refl net, fun _ => hlive⟩
    | some hook =>
        cases hdev : buff.dev with
        | none =>
            rw [hdev] at hhook
            cases hhook
        | some dev =>
            obtain ⟨result, net', hxmit, hsame, hback⟩ := hxmits.startXmit hhook net dev hlive
            rw [hdev] at hhook
            exact ⟨result, net', by simp only [novaDevQueueXmit, hget, hdev, hhook, hxmit, Option.bind_some], hsame, hback⟩
  obtain ⟨result, net', hcall, hsame, hback⟩ := hqueue
  by_cases hresult : result = 0
  · exact ⟨_, net', by simp only [novaSendSkb, hcall, Option.bind_some, hresult, ne_eq, not_true_eq_false, ↓reduceIte]; rfl,
      hsame⟩
  · obtain ⟨skbs, hfree, _⟩ := Heap.exists_free _ (hback hresult)
    refine ⟨-1, { net' with skbs := skbs }, ?_, hsame.trans (.skbs ..)⟩
    simp only [novaSendSkb, hcall, Option.bind_some, ne_eq, hresult, not_false_eq_true, ↓reduceIte, novaFreeSkb, hfree,
      Option.map_some]

theorem novaSendPacket_keeps (hxmits : XmitsKeep drivers) (net : Net pool) (buf c dev) :
    ∃ result net', novaSendPacket drivers net buf c dev = some (result, net') ∧ net.SameStack net' := by
  rcases novaAllocSkb_cases net c.len c.memSkb c.memData with ⟨_, skbs, halloc, _⟩ | ⟨_, buff, halloc⟩
  · exact ⟨-1, _, by rw [novaSendPacket, halloc]; rfl, .skbs ..⟩
  · have hload : ({ net with skbs := net.skbs.alloc buff } : Net pool).skbs.get net.skbs.fresh = some buff :=
      Heap.get_alloc_fresh _
    have hlive : (({ net with skbs := net.skbs.alloc buff } : Net pool).setSkb net.skbs.fresh
        (buff.load buf c.len dev)).skbs.Live net.skbs.fresh := Heap.live_write _ (Heap.live_alloc_fresh _)
    obtain ⟨result, net', hsend, hsame⟩ := novaSendSkb_keeps hxmits hlive c.len
    refine ⟨result, net', ?_, ((Net.SameStack.skbs ..).trans (.skbs ..)).trans hsame⟩
    rw [novaSendPacket, halloc, Option.bind_some]
    simp only [hload, Option.bind_some, hsend]

/-- A send with something to send routes its socket and looks for the hook of the device. -/
theorem novaSend_of_route (drivers : Nat → NovaNetDeviceOps pool) {c : SendCall} {sock socket found buf}
    (hlookup : novaSocketLookup net c.sockfd = some sock) (hget : net.sockets.get sock = some socket)
    (hsearch : net.searchName "lo" = some found) (hbuf : c.buf = some buf) (hlen : c.len ≠ 0) :
    novaSend drivers net c =
      if (net.startXmit drivers (socket.dev.or found)).isNone then
        some (-1, net.setSocket sock { socket with dev := socket.dev.or found })
      else
        novaSendPacket drivers (net.setSocket sock { socket with dev := socket.dev.or found }) buf c
          (socket.dev.or found) := by
  have hget' : (net.setSocket sock { socket with dev := socket.dev.or found }).sockets.get sock =
      some { socket with dev := socket.dev.or found } := by
    rw [Net.setSocket, Heap.get_write _ (net.sockets.live_of_get hget), if_pos rfl]
  simp only [novaSend, hlookup, hbuf, hlen, Net.routeSocket_of_open hget hsearch, hget', Option.bind_some, ↓reduceIte]
  rfl

theorem novaSend_of_open (hxmits : XmitsKeep drivers) {c : SendCall} {sock socket found}
    (hlookup : novaSocketLookup net c.sockfd = some sock) (hget : net.sockets.get sock = some socket)
    (hsearch : net.searchName "lo" = some found) :
    ∃ result net', novaSend drivers net c = some (result, net') ∧ net.Writes sock socket socket.state net' := by
  cases hbuf : c.buf with
  | none => exact ⟨-1, net, by simp only [novaSend, hlookup, hbuf], .refl hget⟩
  | some buf =>
      by_cases hlen : c.len = 0
      · exact ⟨-1, net, by simp only [novaSend, hlookup, hbuf, hlen, ↓reduceIte], .refl hget⟩
      · have hsend := novaSend_of_route drivers hlookup hget hsearch hbuf hlen
        split at hsend
        · exact ⟨-1, _, hsend, .of_route hsearch (.refl _)⟩
        · obtain ⟨result, net', hpacket, hsame⟩ := novaSendPacket_keeps hxmits
            (net.setSocket sock { socket with dev := socket.dev.or found }) buf c (socket.dev.or found)
          exact ⟨result, net', hsend.trans hpacket, .of_route hsearch hsame⟩

/-- A send that has nothing to send, or no socket to send it through, fails at once. -/
theorem StackInv.send_outline (h : StackInv net) (drivers : Nat → NovaNetDeviceOps pool) (c : SendCall) :
    ((novaSocketLookup net c.sockfd = none ∨ c.buf = none ∨ c.len = 0) ∧ novaSend drivers net c = some (-1, net)) ∨
    (∃ fd sock socket found buf, net.entry fd = some sock ∧ novaSocketLookup net c.sockfd = some sock ∧
      net.sockets.get sock = some socket ∧ net.searchName "lo" = some found ∧ c.buf = some buf ∧ c.len ≠ 0) := by
  cases hlookup : novaSocketLookup net c.sockfd with
  | none => exact .inl ⟨.inl rfl, by simp only [novaSend, hlookup]⟩
  | some sock =>
      cases hbuf : c.buf with
      | none => exact .inl ⟨.inr (.inl rfl), by simp only [novaSend, hlookup, hbuf]⟩
      | some buf =>
          by_cases hlen : c.len = 0
          · exact .inl ⟨.inr (.inr hlen), by simp only [novaSend, hlookup, hbuf, hlen, ↓reduceIte]⟩
          · obtain ⟨fd, _, _, hentry⟩ := lookup_eq_some_iff.mp hlookup
            obtain ⟨socket, hget⟩ := Option.ne_none_iff_exists'.mp (h.live fd sock hentry)
            obtain ⟨devs, hdevs⟩ := h.registry
            exact .inr ⟨fd, sock, socket, _, buf, hentry, rfl, hget, hdevs.search "lo", rfl, hlen⟩

/-! ## The device of a send -/

/-- The device whose `start_xmit` a send finds and builds its packet for. -/
def Net.sendsThrough (drivers : Nat → NovaNetDeviceOps pool) (net : Net pool) (c : SendCall) : Option (DevPtr pool) :=
  (novaSocketLookup net c.sockfd).bind fun sock =>
    if c.buf.isNone ∨ c.len = 0 then none
    else
      (net.routeSocket sock).bind fun net =>
        (net.sockets.get sock).bind fun socket =>
          if (net.startXmit drivers socket.dev).isNone then none else socket.dev

/-- What a send does: it fails before it has a packet, or it builds a packet for the device of its socket, which is the
one the socket has or, when it has none, the loopback, and hands it to the hook of this device. -/
inductive SendGoes (drivers : Nat → NovaNetDeviceOps pool) (net : Net pool) (c : SendCall) : Option (DevPtr pool) → Prop where
  | fails (net' : Net pool) (hsend : novaSend drivers net c = some (-1, net')) (hskbs : net'.skbs = net.skbs) :
      SendGoes drivers net c none
  | through (sock : SockPtr) (socket : NovaSocket pool) (buf : Nat → UInt8) (dev : DevPtr pool)
      (hlookup : novaSocketLookup net c.sockfd = some sock) (hget : net.sockets.get sock = some socket)
      (hbuf : c.buf = some buf) (hdev : socket.dev = some dev ∨ socket.dev = none ∧ net.searchName "lo" = some (some dev))
      (hxmit : (net.startXmit drivers (some dev)).isSome)
      (hsend : novaSend drivers net c =
        novaSendPacket drivers (net.setSocket sock { socket with dev := some dev }) buf c (some dev)) :
      SendGoes drivers net c (some dev)

theorem Net.sendsThrough_of_route (drivers : Nat → NovaNetDeviceOps pool) {c : SendCall} {sock socket found buf}
    (hlookup : novaSocketLookup net c.sockfd = some sock) (hget : net.sockets.get sock = some socket)
    (hsearch : net.searchName "lo" = some found) (hbuf : c.buf = some buf) (hlen : c.len ≠ 0) :
    net.sendsThrough drivers c =
      if (net.startXmit drivers (socket.dev.or found)).isNone then none else socket.dev.or found := by
  have hget' : (net.setSocket sock { socket with dev := socket.dev.or found }).sockets.get sock =
      some { socket with dev := socket.dev.or found } := by
    rw [Net.setSocket, Heap.get_write _ (net.sockets.live_of_get hget), if_pos rfl]
  simp only [Net.sendsThrough, hlookup, hbuf, hlen, Net.routeSocket_of_open hget hsearch, hget', Option.bind_some,
    Option.isNone_some, Bool.false_eq_true, or_self, ↓reduceIte]
  rfl

theorem Net.sendsThrough_of_idle (drivers : Nat → NovaNetDeviceOps pool) {c : SendCall}
    (hidle : novaSocketLookup net c.sockfd = none ∨ c.buf = none ∨ c.len = 0) : net.sendsThrough drivers c = none := by
  rw [Net.sendsThrough, Option.bind_eq_none_iff]
  intro sock hlookup
  rw [if_pos]
  rcases hidle with hnone | hnone | hzero
  · rw [hnone] at hlookup
    cases hlookup
  · exact .inl (Option.isNone_iff_eq_none.mpr hnone)
  · exact .inr hzero

/-- A send goes through the device that it finds a hook of. -/
theorem StackInv.sendGoes (h : StackInv net) (drivers : Nat → NovaNetDeviceOps pool) (c : SendCall) :
    SendGoes drivers net c (net.sendsThrough drivers c) := by
  rcases h.send_outline drivers c with
    ⟨hidle, hcall⟩ | ⟨fd, sock, socket, found, buf, hentry, hlookup, hget, hsearch, hbuf, hlen⟩
  · rw [Net.sendsThrough_of_idle drivers hidle]
    exact .fails net hcall rfl
  have hsend := novaSend_of_route drivers hlookup hget hsearch hbuf hlen
  rw [Net.sendsThrough_of_route drivers hlookup hget hsearch hbuf hlen]
  cases hdev : socket.dev.or found with
  | none =>
      rw [hdev] at hsend
      exact .fails _ hsend rfl
  | some dev =>
      rw [hdev] at hsend
      cases hxmit : net.startXmit drivers (some dev) with
      | none =>
          rw [hxmit, Option.isNone_none, if_pos rfl] at hsend
          exact .fails _ hsend rfl
      | some hook =>
          rw [hxmit, Option.isNone_some, if_neg Bool.false_ne_true] at hsend
          refine .through sock socket buf dev hlookup hget hbuf ?_ (by rw [hxmit]; rfl) hsend
          rw [hsearch]
          exact (Option.or_eq_some_iff.mp hdev).imp_right fun hfound => ⟨hfound.1, congrArg some hfound.2⟩

/-! ## Calls on an open descriptor -/

/-- Closing a descriptor that is not open fails; closing any other frees the socket and the descriptor. -/
theorem StackInv.close_cases (h : StackInv net) (k : Int) :
    (novaSocketLookup net k = none ∧ novaClose net k = some (-1, net)) ∨
    (∃ fd : Fin 64, ∃ sock sockets, k = fd.val ∧ 0 < k ∧ net.entry fd = some sock ∧ novaSocketLookup net k = some sock ∧
      novaClose net k = some (0, { net.setEntry fd none with sockets := sockets }) ∧
      ∀ p, sockets.get p = if p = sock then none else net.sockets.get p) := by
  cases hlookup : novaSocketLookup net k with
  | none =>
      refine .inl ⟨rfl, ?_⟩
      rw [novaSocketLookup] at hlookup
      cases hfd : entryOf k with
      | none => simp only [novaClose, hfd]
      | some fd =>
          rw [hfd, Option.bind_some] at hlookup
          simp only [novaClose, hfd, hlookup]
  | some sock =>
      obtain ⟨fd, hfd, hpos, hentry⟩ := lookup_eq_some_iff.mp hlookup
      have hentryOf : entryOf k = some fd := entryOf_eq_some_iff.mpr ⟨hfd, hpos⟩
      obtain ⟨sockets, hfree, _, hgets⟩ := Heap.exists_free _ (h.live fd sock hentry)
      refine .inr ⟨fd, sock, sockets, hfd, hpos, hentry, rfl, ?_, hgets⟩
      simp only [novaClose, hentryOf, hentry, hfree, Option.map_some]

theorem StackInv.descriptor_refused (h : StackInv net) {op : SocketOp} {k : Int} (hk : op.sockfd = some k)
    (hlookup : novaSocketLookup net k = none) : socketStep drivers net op = some (-1, net) := by
  cases op with
  | socket => cases hk
  | close sockfd =>
      cases hk
      rcases h.close_cases k with ⟨_, hclose⟩ | ⟨_, _, _, _, _, _, hsome, _⟩
      · exact hclose
      · rw [hlookup] at hsome
        cases hsome
  | send c =>
      cases hk
      simp only [socketStep, novaSend, hlookup]
  | recv sockfd buf len =>
      cases hk
      simp only [socketStep, novaRecv, hlookup]
  | connect sockfd =>
      cases hk
      simp only [socketStep, novaConnect, hlookup]
  | listen sockfd =>
      cases hk
      simp only [socketStep, novaListen, Net.setState, hlookup]
  | shutdown sockfd =>
      cases hk
      simp only [socketStep, novaShutdown, Net.setState, hlookup]
  | bind sockfd =>
      cases hk
      simp only [socketStep, novaBind, Net.checkSocket, hlookup]
  | accept sockfd =>
      cases hk
      simp only [socketStep, novaAccept, Net.checkSocket, hlookup]
  | getsockopt sockfd =>
      cases hk
      simp only [socketStep, novaGetsockopt, Net.checkSocket, hlookup]
  | setsockopt sockfd =>
      cases hk
      simp only [socketStep, novaSetsockopt, Net.checkSocket, hlookup]

/-- A close frees the socket and the descriptor; any other call writes to the socket. -/
theorem StackInv.descriptor_served (h : StackInv net) (hxmits : XmitsKeep drivers) {op : SocketOp} {k : Int} {fd : Fin 64}
    {sock : SockPtr} {socket : NovaSocket pool} (hk : op.sockfd = some k) (hfd : k = fd.val)
    (hlookup : novaSocketLookup net k = some sock) (hget : net.sockets.get sock = some socket) :
    (op = .close k ∧ ∃ sockets,
        socketStep drivers net op = some (0, { net.setEntry fd none with sockets := sockets }) ∧
        ∀ p, sockets.get p = if p = sock then none else net.sockets.get p) ∨
      (op ≠ .close k ∧ ∃ result net', socketStep drivers net op = some (result, net') ∧
        net.Writes sock socket (op.state socket.state) net') := by
  obtain ⟨devs, hdevs⟩ := h.registry
  have hsearch := hdevs.search "lo"
  cases op with
  | socket => cases hk
  | close sockfd =>
      cases hk
      rcases h.close_cases k with ⟨hnone, _⟩ | ⟨fd', sock', sockets, hfd', _, _, hlookup', hclose, hgets⟩
      · rw [hlookup] at hnone
        cases hnone
      · have hfd_eq : fd' = fd := Fin.ext (by omega)
        have hsock : sock' = sock := Option.some.inj (hlookup'.symm.trans hlookup)
        subst hfd_eq hsock
        exact .inl ⟨rfl, sockets, hclose, hgets⟩
  | send c =>
      cases hk
      exact .inr ⟨nofun, novaSend_of_open hxmits hlookup hget hsearch⟩
  | connect sockfd =>
      cases hk
      exact .inr ⟨nofun, _, novaConnect_of_open hlookup hget hsearch⟩
  | listen sockfd =>
      cases hk
      exact .inr ⟨nofun, _, Net.setState_of_open 2 hlookup hget⟩
  | shutdown sockfd =>
      cases hk
      exact .inr ⟨nofun, _, Net.setState_of_open 0 hlookup hget⟩
  | recv => exact .inr ⟨nofun, _, net, rfl, .refl hget⟩
  | bind => exact .inr ⟨nofun, _, net, rfl, .refl hget⟩
  | accept => exact .inr ⟨nofun, _, net, rfl, .refl hget⟩
  | getsockopt => exact .inr ⟨nofun, _, net, rfl, .refl hget⟩
  | setsockopt => exact .inr ⟨nofun, _, net, rfl, .refl hget⟩

/-- A call on a descriptor that is not open fails and changes nothing; a close frees the socket and the descriptor;
any other call writes to the socket. -/
theorem StackInv.descriptor_cases (h : StackInv net) (hxmits : XmitsKeep drivers) {op : SocketOp} {k : Int}
    (hk : op.sockfd = some k) :
    (novaSocketLookup net k = none ∧ socketStep drivers net op = some (-1, net)) ∨
    (∃ fd : Fin 64, ∃ sock socket, k = fd.val ∧ 0 < k ∧ net.entry fd = some sock ∧
      novaSocketLookup net k = some sock ∧ net.sockets.get sock = some socket ∧
      ((op = .close k ∧ ∃ sockets,
          socketStep drivers net op = some (0, { net.setEntry fd none with sockets := sockets }) ∧
          ∀ p, sockets.get p = if p = sock then none else net.sockets.get p) ∨
        (op ≠ .close k ∧ ∃ result net', socketStep drivers net op = some (result, net') ∧
          net.Writes sock socket (op.state socket.state) net'))) := by
  cases hlookup : novaSocketLookup net k with
  | none => exact .inl ⟨rfl, h.descriptor_refused hk hlookup⟩
  | some sock =>
      obtain ⟨fd, hfd, hpos, hentry⟩ := lookup_eq_some_iff.mp hlookup
      obtain ⟨socket, hget⟩ := Option.ne_none_iff_exists'.mp (h.live fd sock hentry)
      exact .inr ⟨fd, sock, socket, hfd, hpos, hentry, rfl, hget, h.descriptor_served hxmits hk hfd hlookup hget⟩

/-! ## Calls on the registry -/

/-- Which devices a call on the registry lets in and out. -/
structure Net.Moves (net net' : Net pool) (op : RegistryOp pool) (answer : RegistryAnswer pool) : Prop where
  stays : ∀ dev, net.Registered dev → net'.Registered dev ∨ op = .unregister (some dev) ∨ op = .shutdown
  joins : ∀ dev, net'.Registered dev → net.Registered dev ∨ op = .register (some dev) ∧ answer = .int 0
  leaves : ∀ dev, op = .unregister (some dev) ∨ op = .shutdown → ¬ net'.Registered dev

theorem Net.Moves.of_iff {op : RegistryOp pool} {answer} (hiff : ∀ dev, net'.Registered dev ↔ net.Registered dev)
    (hleaves : ∀ dev, op = .unregister (some dev) ∨ op = .shutdown → ¬ net.Registered dev) :
    net.Moves net' op answer where
  stays dev hdev := .inl ((hiff dev).mpr hdev)
  joins dev hdev := .inl ((hiff dev).mp hdev)
  leaves dev hop hdev := hleaves dev hop ((hiff dev).mp hdev)

theorem RegistryIs.moves_shutdown (h' : RegistryIs net' []) (answer : RegistryAnswer pool) :
    net.Moves net' .shutdown answer where
  stays _ _ := .inr (.inr rfl)
  joins _ hdev := absurd (h'.registered_iff.mp hdev) List.not_mem_nil
  leaves _ _ hdev := absurd (h'.registered_iff.mp hdev) List.not_mem_nil

theorem RegistryIs.moves_register {devs : List (DevPtr pool)} {dev : DevPtr pool} (h : RegistryIs net devs)
    (h' : RegistryIs net' (dev :: devs)) : net.Moves net' (.register (some dev)) (.int 0) where
  stays d hd := by
    rw [h'.registered_iff]
    exact .inl (List.mem_cons_of_mem dev (h.registered_iff.mp hd))
  joins d hd := by
    rw [h'.registered_iff, List.mem_cons, ← h.registered_iff] at hd
    cases hd with
    | inl he => exact .inr ⟨by rw [he], rfl⟩
    | inr hd => exact .inl hd
  leaves := by simp

theorem RegistryIs.moves_unregister {devs : List (DevPtr pool)} {dev : DevPtr pool} (h : RegistryIs net devs)
    (h' : RegistryIs net' (devs.erase dev)) (answer : RegistryAnswer pool) :
    net.Moves net' (.unregister (some dev)) answer where
  stays d hd := by
    by_cases he : d = dev
    · exact .inr (.inl (by rw [he]))
    · rw [h'.registered_iff]
      exact .inl ((List.mem_erase_of_ne he).mpr (h.registered_iff.mp hd))
  joins d hd := by
    rw [h'.registered_iff] at hd
    exact .inl (h.registered_iff.mpr (List.mem_of_mem_erase hd))
  leaves d hop := by
    have he : dev = d := by simpa using hop
    rw [h'.registered_iff, ← he]
    exact h.nodup.not_mem_erase

theorem StackInv.registry_next (h : StackInv net) (hopens : OpensKeep drivers Net.SameStack) {op : RegistryOp pool}
    (hop : ProperEdit (some net) op) (hinit : op ≠ .init) :
    ∃ answer net', registryStep drivers net op = some (answer, net') ∧ net.SameSockets net' ∧ StackInv net' ∧
      (op ≠ .shutdown → net'.initialized = net.initialized) ∧ net.Moves net' op answer := by
  obtain ⟨devs, hdevs⟩ := h.registry
  cases op with
  | init => exact absurd rfl hinit
  | shutdown =>
      obtain ⟨net', hshutdown, hregistry, _, hrelinked⟩ := hdevs.exists_shutdown
      have hdevs' : RegistryIs net' [] := .of_empty hregistry
      exact ⟨_, net', by rw [registryStep, hshutdown]; rfl, hrelinked.sameSockets,
        h.sameSockets hrelinked.sameSockets ⟨[], hdevs'⟩, fun hne => absurd rfl hne, hdevs'.moves_shutdown _⟩
  | register dev? =>
      rcases hdevs.register hopens ignoresStack_sameStack dev? with
        ⟨_, hregister⟩ | ⟨dev, net', rfl, haccepts, hregister, hsame⟩
      · exact ⟨_, net, by rw [registryStep, hregister]; rfl, .refl net, h, fun _ => rfl,
          .of_iff (fun _ => Iff.rfl) (by simp)⟩
      · have hsockets : net.SameSockets net' := (net.relinked_link dev).sameSockets.trans hsame.sameSockets
        have hdevs' : RegistryIs net' (dev :: devs) := (hdevs.link haccepts).same hsame.sameRegistry
        exact ⟨_, net', by rw [registryStep, hregister]; rfl, hsockets, h.sameSockets hsockets ⟨_, hdevs'⟩,
          fun _ => hsame.initialized, hdevs.moves_register hdevs'⟩
  | unregister dev? =>
      rcases hdevs.unregister_cases dev? with
        ⟨hrefused, hunregister⟩ | ⟨dev, net', rfl, _, hunregister, herase, hrelinked, hinitialized⟩
      · refine ⟨_, net, by rw [registryStep, hunregister]; rfl, .refl net, h, fun _ => rfl,
          .of_iff (fun _ => Iff.rfl) fun dev hop => ?_⟩
        rw [hdevs.registered_iff]
        exact hrefused dev (by simpa using hop)
      · exact ⟨_, net', by rw [registryStep, hunregister]; rfl, hrelinked.sameSockets,
          h.sameSockets hrelinked.sameSockets ⟨_, herase⟩, fun _ => hinitialized, hdevs.moves_unregister herase _⟩
  | find name? =>
      obtain ⟨dev?, hfind, _⟩ := hdevs.find_eq_some_iff name?
      exact ⟨_, net, by rw [registryStep, hfind]; rfl, .refl net, h, fun _ => rfl, .of_iff (fun _ => Iff.rfl) (by simp)⟩
  | edit n device =>
      obtain ⟨hnext, hname⟩ := hop net rfl
      have hsame : net.SameSockets (net.setDevice (.other n) device) := ⟨rfl, rfl, rfl⟩
      have hdevs' := hdevs.edit hnext fun hdev => hname (hdevs.registered_iff.mpr hdev)
      refine ⟨_, _, rfl, hsame, h.sameSockets hsame ⟨devs, hdevs'⟩, fun _ => rfl, .of_iff (fun dev => ?_) (by simp)⟩
      rw [hdevs'.registered_iff, hdevs.registered_iff]

/-! ## Steps -/

theorem stackStep_registry {op : RegistryOp pool} {answer} (hcall : registryStep drivers net op = some (answer, net')) :
    stackStep drivers net (.registry op) = some (answer, net') := hcall

theorem stackStep_socket {op : SocketOp} {result} (hcall : socketStep drivers net op = some (result, net')) :
    stackStep drivers net (.socket op) = some (.int result, net') := by
  rw [stackStep, hcall]
  rfl

theorem stackMachine_follows {γ : Type*} (g : Option (Net pool) → StackOp pool → Option (RegistryAnswer pool) → γ → γ)
    {op answer} (hstep : stackStep drivers net op = some (answer, net')) (c : γ) :
    ((stackMachine drivers).withGhost g).next (some net, c) op = (some net', g (some net) op (some answer) c) :=
  Machine.withGhost_ofPartial_next g hstep c

end NovaOs.Network
