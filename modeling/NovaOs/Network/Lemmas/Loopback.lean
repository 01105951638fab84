import NovaOs.Network.Lemmas.Send

/-!
# The stack with the loopback as its only device

After `nova_network_init` and `nova_loopback_init` every socket is routed to `lo`, and the calls of the stack's
users keep it so.
-/

namespace NovaOs.Network

open Lib

variable {pool : Nat} (drivers : Nat → NovaNetDeviceOps pool) {net net' : Net pool}

/-- The stack is initialised, `lo` is its only device, and the open descriptors name different sockets of `lo`. -/
structure LoReady (net : Net pool) : Prop where
  initialized : net.initialized = true
  registry : net.registry = some .lo
  device : (net.devices .lo).wiring = ("lo", some .lo, none)
  sockets : ∀ fd sock, net.entry fd = some sock →
    ∃ socket, net.sockets.get sock = some socket ∧ socket.dev = some .lo
  distinct : ∀ fd fd' sock, net.entry fd = some sock → net.entry fd' = some sock → fd = fd'

namespace LoReady

theorem ops (h : LoReady net) : (net.devices .lo).ops = some .lo := congrArg (fun w => w.2.1) h.device

theorem linked (h : LoReady net) : Linked (fun dev => (net.devices dev).next) net.registry [.lo] :=
  have hnext : (net.devices .lo).next = none := congrArg (fun w => w.2.2) h.device
  ⟨h.registry, hnext⟩

theorem wired (h : LoReady net) : Wired net := by
  have hbuiltin : Builtin net.devices .lo := ⟨.inl rfl, .inr h.ops⟩
  refine ⟨fun fd sock hentry => ?_, [.lo], h.linked, List.nodup_singleton _, ?_⟩
  · obtain ⟨socket, hget, hdev⟩ := h.sockets fd sock hentry
    refine ⟨socket, hget, fun dev hdev' => ?_⟩
    rw [hdev, Option.some.injEq] at hdev'
    exact hdev' ▸ hbuiltin
  · intro dev hdev
    rw [List.mem_singleton.mp hdev]
    exact hbuiltin

theorem agrees (h : LoReady net) (hagrees : net.Agrees net') : LoReady net' where
  initialized := hagrees.initialized.trans h.initialized
  registry := hagrees.registry.trans h.registry
  device := (hagrees.wiring .lo).trans h.device
  sockets fd sock hentry := by
    rw [Net.entry_congr hagrees.socketTable] at hentry
    rw [hagrees.sockets]
    exact h.sockets fd sock hentry
  distinct fd fd' sock hentry hentry' := by
    rw [Net.entry_congr hagrees.socketTable] at hentry hentry'
    exact h.distinct fd fd' sock hentry hentry'

theorem searchName (h : LoReady net) : net.searchName "lo" = some (some .lo) := by
  have hname : (net.devices .lo).name = "lo" := congrArg Prod.fst h.device
  rw [Net.searchName, search_eq_find?_of_nodup h.linked (List.nodup_singleton _), List.find?_cons]
  simp only [hname, decide_true]

theorem lookup (h : LoReady net) {sockfd sock} (hlookup : novaSocketLookup net sockfd = some sock) :
    ∃ socket, net.sockets.get sock = some socket ∧ socket.dev = some .lo := by
  rw [novaSocketLookup, Option.bind_eq_some_iff] at hlookup
  obtain ⟨fd, _, hentry⟩ := hlookup
  exact h.sockets fd sock hentry

theorem routeSocket (h : LoReady net) {sockfd sock} (hlookup : novaSocketLookup net sockfd = some sock) :
    net.routeSocket sock = some net := by
  obtain ⟨socket, hget, hdev⟩ := h.lookup hlookup
  simp only [Net.routeSocket, hget, hdev, Option.bind_some]

theorem routed (h : LoReady net) {net₁ : Net pool} (hrouted : Routed net net₁) : net₁ = net := by
  rcases hrouted with rfl | ⟨sockfd, sock, hlookup, hroute⟩
  · rfl
  · rw [h.routeSocket hlookup, Option.some.injEq] at hroute
    exact hroute.symm

/-! ## The calls on descriptors -/

theorem setSocket (h : LoReady net) {sock socket} (hlive : net.sockets.Live sock) (hdev : socket.dev = some .lo) :
    LoReady (net.setSocket sock socket) where
  initialized := h.initialized
  registry := h.registry
  device := h.device
  sockets fd sock' hentry := by
    rw [Net.setSocket, Heap.get_write _ hlive]
    split
    · exact ⟨socket, rfl, hdev⟩
    · exact h.sockets fd sock' hentry
  distinct := h.distinct

theorem openSocket (h : LoReady net) (fd : Fin 64) {socket} (hdev : socket.dev = some .lo)
    (hdevices : net'.devices = net.devices) (hregistry : net'.registry = net.registry)
    (hinitialized : net'.initialized = true)
    (htable : net'.socketTable = (net.setEntry fd (some net.sockets.fresh)).socketTable)
    (hsockets : net'.sockets = net.sockets.alloc socket) : LoReady net' := by
  have hnew : ∀ fd', net.entry fd' ≠ some net.sockets.fresh := fun fd' hentry => by
    obtain ⟨socket', hget, _⟩ := h.sockets fd' _ hentry
    rw [Heap.get_fresh] at hget
    cases hget
  refine ⟨hinitialized, hregistry.trans h.registry, by rw [hdevices]; exact h.device, fun fd' sock hentry => ?_,
    fun fd₁ fd₂ sock hentry₁ hentry₂ => ?_⟩
  · rw [Net.entry_congr htable, Net.entry_setEntry] at hentry
    rw [hsockets, Heap.get_alloc]
    split at hentry
    · rw [if_pos (Option.some.inj hentry).symm]
      exact ⟨socket, rfl, hdev⟩
    · rw [if_neg fun hsock : sock = net.sockets.fresh => hnew fd' (hsock ▸ hentry)]
      exact h.sockets fd' sock hentry
  · rw [Net.entry_congr htable, Net.entry_setEntry] at hentry₁ hentry₂
    split at hentry₁ <;> split at hentry₂
    · next h₁ h₂ => rw [h₁, h₂]
    · exact absurd (hentry₂.trans hentry₁.symm) (hnew fd₂)
    · exact absurd (hentry₁.trans hentry₂.symm) (hnew fd₁)
    · exact h.distinct fd₁ fd₂ sock hentry₁ hentry₂

theorem closeSocket (h : LoReady net) {fd : Fin 64} {sock} (hentry : net.entry fd = some sock)
    (hdevices : net'.devices = net.devices) (hregistry : net'.registry = net.registry)
    (hinitialized : net'.initialized = net.initialized) (htable : net'.socketTable = (net.setEntry fd none).socketTable)
    (hsockets : ∀ p, net'.sockets.get p = if p = sock then none else net.sockets.get p) : LoReady net' := by
  have hopen : ∀ fd' sock', net'.entry fd' = some sock' → fd' ≠ fd ∧ net.entry fd' = some sock' :=
    fun fd' sock' hentry' => by
      rw [Net.entry_congr htable, Net.entry_setEntry] at hentry'
      split at hentry'
      · cases hentry'
      · next hne => exact ⟨hne, hentry'⟩
  refine ⟨hinitialized.trans h.initialized, hregistry.trans h.registry, by rw [hdevices]; exact h.device,
    fun fd' sock' hentry' => ?_, fun fd₁ fd₂ sock' hentry₁ hentry₂ => ?_⟩
  · obtain ⟨hne, hold⟩ := hopen fd' sock' hentry'
    have hsock : sock' ≠ sock := by
      rintro rfl
      exact hne (h.distinct fd' fd sock' hold hentry)
    rw [hsockets, if_neg hsock]
    exact h.sockets fd' sock' hold
  · exact h.distinct fd₁ fd₂ sock' (hopen fd₁ sock' hentry₁).2 (hopen fd₂ sock' hentry₂).2

end LoReady

/-! ## The calls that leave the devices -/

namespace LoReady

theorem socket (h : LoReady net) (domain type protocol memory) :
    ∃ result net', novaSocket net domain type protocol memory = some (result, net') ∧ LoReady net' ∧
      net'.devices = net.devices := by
  have hinit : (if net.initialized then net else (novaNetworkInit net).2) = net := if_pos h.initialized
  unfold novaSocket
  simp only [hinit]
  split
  · exact ⟨-1, net, rfl, h, rfl⟩
  split
  · exact ⟨-1, net, rfl, h, rfl⟩
  split
  · exact ⟨-1, net, rfl, h, rfl⟩
  · next hfd =>
      have h' : LoReady { net with nextSocketFd := net.nextSocketFd + 1 } :=
        h.agrees ⟨fun _ => rfl, rfl, rfl, rfl, rfl⟩
      cases memory with
      | false => exact ⟨-1, _, rfl, h', rfl⟩
      | true =>
          simp only [novaNetdevFind, h'.searchName, Option.map_some, ↓reduceIte]
          exact ⟨_, _, rfl, h'.openSocket ⟨net.nextSocketFd, not_le.mp hfd⟩ rfl rfl rfl h.initialized rfl rfl, rfl⟩

theorem connect (h : LoReady net) (sockfd) :
    ∃ result net', novaConnect net sockfd = some (result, net') ∧ LoReady net' ∧ net'.devices = net.devices := by
  cases hlookup : novaSocketLookup net sockfd with
  | none => exact ⟨-1, net, by simp only [novaConnect, hlookup], h, rfl⟩
  | some sock =>
      obtain ⟨socket, hget, hdev⟩ := h.lookup hlookup
      have h' : LoReady (net.setSocket sock { socket with state := 1 }) :=
        h.setSocket (net.sockets.live_of_get hget) hdev
      have hlookup' : novaSocketLookup (net.setSocket sock { socket with state := 1 }) sockfd = some sock := hlookup
      have hroute := h'.routeSocket hlookup'
      exact ⟨0, _, by simp only [novaConnect, hlookup, hget, Option.bind_some, hroute, Option.map_some], h', rfl⟩

theorem close (h : LoReady net) (sockfd) :
    ∃ result net', novaClose net sockfd = some (result, net') ∧ LoReady net' ∧ net'.devices = net.devices := by
  cases hfd : entryOf sockfd with
  | none => exact ⟨-1, net, by simp only [novaClose, hfd], h, rfl⟩
  | some fd =>
      cases hentry : net.entry fd with
      | none => exact ⟨-1, net, by simp only [novaClose, hfd, hentry], h, rfl⟩
      | some sock =>
          obtain ⟨socket, hget, _⟩ := h.sockets fd sock hentry
          obtain ⟨sockets, hfree, _, hgets⟩ := Heap.exists_free _ (net.sockets.live_of_get hget)
          refine ⟨0, { net.setEntry fd none with sockets := sockets }, ?_,
            h.closeSocket hentry rfl rfl rfl rfl hgets, rfl⟩
          simp only [novaClose, hfd, hentry, hfree, Option.map_some]

theorem allocSkb (h : LoReady net) (size memSkb memData) :
    ∃ result net', novaAllocSkb net size memSkb memData = some (result, net') ∧ LoReady net' ∧
      net'.devices = net.devices := by
  rcases novaAllocSkb_cases net size memSkb memData with ⟨_, skbs, halloc, _⟩ | ⟨_, buff, halloc⟩
  · exact ⟨none, _, halloc, h.agrees (.skbs ..), rfl⟩
  · exact ⟨_, _, halloc, h.agrees (.skbs ..), rfl⟩

theorem freeSkb (h : LoReady net) {skb? : Option SkbPtr} (hlive : ∀ skb, skb? = some skb → net.skbs.Live skb) :
    ∃ net', novaFreeSkb net skb? = some net' ∧ LoReady net' ∧ net'.devices = net.devices := by
  cases skb? with
  | none => exact ⟨net, rfl, h, rfl⟩
  | some skb =>
      obtain ⟨skbs, hfree, _⟩ := Heap.exists_free _ (hlive skb rfl)
      exact ⟨{ net with skbs := skbs }, by simp only [novaFreeSkb, hfree, Option.map_some], h.agrees (.skbs ..), rfl⟩

/-! ## Sends -/

/-- A send fails and leaves the counters, or its packet goes round the loopback. -/
theorem send (h : LoReady net) (c : SendCall) :
    ∃ net', LoReady net' ∧
      ((¬ SendsThrough net c .lo ∧ novaSend drivers net c = some (-1, net') ∧
          (net'.devices .lo).stats = (net.devices .lo).stats) ∨
        (SendsThrough net c .lo ∧ novaSend drivers net c = some (c.len.toInt64.toInt, net') ∧
          (net'.devices .lo).stats = (net.devices .lo).stats.loopback c.len)) := by
  obtain ⟨net₁, net', hrouted, _, hcases⟩ := h.wired.send drivers c
  rw [h.routed hrouted] at hcases
  rcases hcases with ⟨hnone, hfails⟩ | ⟨hlo, hloops⟩ | ⟨hnic, _⟩
  · exact ⟨net', h.agrees hfails.agrees, .inl ⟨hnone .lo, hfails.result, hfails.stats⟩⟩
  · exact ⟨net', h.agrees hloops.agrees, .inr ⟨hlo, hloops.result, hloops.stats⟩⟩
  · obtain ⟨sock, hlookup, hroute⟩ := hnic.route
    obtain ⟨socket, hget, hdev⟩ := h.lookup hlookup
    simp [Net.routeOf, hget, hdev] at hroute

end LoReady

end NovaOs.Network
