import NovaOs.Network.Lemmas.Stack

/-!
# Sends over the two drivers of the stack

In a wired state every device that a socket has, or that the registry leads to, is `lo` or `nic0` with its own
hooks. There a send always has a result, and it transmits through the device its socket is routed to.
-/

namespace NovaOs.Network

open Lib

variable {pool : Nat} (drivers : Nat → NovaNetDeviceOps pool) {net net' : Net pool}

/-! ## Wired states -/

def DevPtr.ownOps : DevPtr pool → Option OpsPtr
  | .lo => some .lo
  | .nic => some .nic
  | .other _ => none

/-- The device is `lo` or `nic0`, and it has its own hooks or is not set up. -/
structure Builtin (devices : DevPtr pool → NovaNetDevice pool) (dev : DevPtr pool) : Prop where
  own : dev = .lo ∨ dev = .nic
  ops : (devices dev).ops = none ∨ (devices dev).ops = dev.ownOps

/-- Every device that an open socket has or that the registry leads to is `lo` or `nic0`. -/
structure Wired (net : Net pool) : Prop where
  sockets : ∀ fd sock, net.entry fd = some sock →
    ∃ socket, net.sockets.get sock = some socket ∧ ∀ dev, socket.dev = some dev → Builtin net.devices dev
  chain : ∃ devs, Linked (fun dev => (net.devices dev).next) net.registry devs ∧ devs.Nodup ∧
    ∀ dev ∈ devs, Builtin net.devices dev

theorem Builtin.agrees {dev : DevPtr pool} (h : Builtin net.devices dev) (hagrees : net.Agrees net') :
    Builtin net'.devices dev where
  own := h.own
  ops := by
    have hops : (net'.devices dev).ops = (net.devices dev).ops := congrArg (fun w => w.2.1) (hagrees.wiring dev)
    rw [hops]
    exact h.ops

theorem Wired.agrees (h : Wired net) (hagrees : net.Agrees net') : Wired net' where
  sockets fd sock hentry := by
    rw [Net.entry_congr hagrees.socketTable] at hentry
    obtain ⟨socket, hget, hdev⟩ := h.sockets fd sock hentry
    exact ⟨socket, by rw [hagrees.sockets]; exact hget, fun dev hd => (hdev dev hd).agrees hagrees⟩
  chain := by
    obtain ⟨devs, hlinked, hnodup, hbuiltin⟩ := h.chain
    have hnext : (fun dev => (net'.devices dev).next) = fun dev => (net.devices dev).next :=
      funext fun dev => congrArg (fun w => w.2.2) (hagrees.wiring dev)
    exact ⟨devs, by rw [hnext, hagrees.registry]; exact hlinked, hnodup, fun dev hd => (hbuiltin dev hd).agrees hagrees⟩

/-- The registry is searched to its end, and what it leads to is `lo` or `nic0`. -/
theorem Wired.searchName (h : Wired net) (name : String) :
    ∃ dev?, net.searchName name = some dev? ∧ ∀ dev, dev? = some dev → Builtin net.devices dev := by
  obtain ⟨devs, hlinked, hnodup, hbuiltin⟩ := h.chain
  exact ⟨_, search_eq_find?_of_nodup hlinked hnodup, fun dev hdev => hbuiltin dev (List.mem_of_find?_eq_some hdev)⟩

theorem Wired.lookup (h : Wired net) {sockfd sock} (hlookup : novaSocketLookup net sockfd = some sock) :
    ∃ socket, net.sockets.get sock = some socket ∧ ∀ dev, socket.dev = some dev → Builtin net.devices dev := by
  rw [novaSocketLookup, Option.bind_eq_some_iff] at hlookup
  obtain ⟨fd, _, hentry⟩ := hlookup
  exact h.sockets fd sock hentry

/-! ## Routes -/

/-- The device that a send through the socket transmits with. -/
def Net.routeOf (net : Net pool) (sock : SockPtr) : Option (DevPtr pool) :=
  (net.sockets.get sock).bind fun socket =>
    match socket.dev with
    | some dev => some dev
    | none => (net.searchName "lo").join

theorem Wired.routeSocket (h : Wired net) {sockfd sock} (hlookup : novaSocketLookup net sockfd = some sock) :
    ∃ net₁ socket, net.routeSocket sock = some net₁ ∧ net₁.sockets.get sock = some socket ∧
      socket.dev = net.routeOf sock ∧ net₁.devices = net.devices ∧ net₁.skbs = net.skbs ∧ Wired net₁ ∧
      ∀ dev, net.routeOf sock = some dev → Builtin net.devices dev := by
  obtain ⟨socket, hget, hbuiltin⟩ := h.lookup hlookup
  have hroute : net.routeOf sock = match socket.dev with
      | some dev => some dev
      | none => (net.searchName "lo").join := by
    rw [Net.routeOf, hget]
    rfl
  cases hdev : socket.dev with
  | some dev =>
      rw [hdev] at hroute
      refine ⟨net, socket, ?_, hget, hdev.trans hroute.symm, rfl, rfl, h, fun dev' hdev' => ?_⟩
      · simp only [Net.routeSocket, hget, hdev, Option.bind_some]
      · exact hbuiltin dev' (hdev.trans (hroute.symm.trans hdev'))
  | none =>
      obtain ⟨dev?, hsearch, hfound⟩ := h.searchName "lo"
      rw [hdev, hsearch, Option.join_some] at hroute
      have hlive : net.sockets.Live sock := net.sockets.live_of_get hget
      refine ⟨net.setSocket sock { socket with dev := dev? }, { socket with dev := dev? }, ?_, ?_, ?_, rfl, rfl,
        ⟨fun fd sock' hentry => ?_, h.chain⟩, fun dev hdev => hfound dev (hroute.symm.trans hdev)⟩
      · simp only [Net.routeSocket, hget, hdev, novaNetdevFind, hsearch, Option.bind_some, Option.map_some]
      · rw [Net.setSocket, Heap.get_write _ hlive, if_pos rfl]
      · rw [hroute]
      · rw [Net.setSocket, Heap.get_write _ hlive]
        split
        · exact ⟨_, rfl, hfound⟩
        · exact h.sockets fd sock' hentry

/-! ## Sends -/

/-- The send hands a packet to the device. -/
structure SendsThrough (net : Net pool) (c : SendCall) (dev : DevPtr pool) : Prop where
  route : ∃ sock, novaSocketLookup net c.sockfd = some sock ∧ net.routeOf sock = some dev
  buf : c.buf ≠ none
  len : c.len ≠ 0
  ops : (net.devices dev).ops ≠ none
  memory : SkbMemory c.len c.memSkb c.memData

/-- The state that a send routes its socket in. -/
def Routed (net net₁ : Net pool) : Prop :=
  net₁ = net ∨ ∃ sockfd sock, novaSocketLookup net sockfd = some sock ∧ net.routeSocket sock = some net₁

/-- The send gave up before a driver was called. -/
structure SendFails (drivers : Nat → NovaNetDeviceOps pool) (net : Net pool) (c : SendCall) (net₁ net' : Net pool) :
    Prop where
  result : novaSend drivers net c = some (-1, net')
  stats : (net'.devices .lo).stats = (net.devices .lo).stats
  skbs : ∀ p, net'.skbs.get p = net.skbs.get p
  fresh : net.skbs.fresh ≤ net'.skbs.fresh
  agrees : net₁.Agrees net'

/-- The packet went round the loopback and is still allocated. -/
structure SendLoops (drivers : Nat → NovaNetDeviceOps pool) (net : Net pool) (c : SendCall) (net₁ net' : Net pool) :
    Prop where
  result : novaSend drivers net c = some (c.len.toInt64.toInt, net')
  stats : (net'.devices .lo).stats = (net.devices .lo).stats.loopback c.len
  skbs : net'.skbs.Live net.skbs.fresh
  agrees : net₁.Agrees net'

/-- The packet was sent by `nic0` and freed. -/
structure SendLeaves (drivers : Nat → NovaNetDeviceOps pool) (net : Net pool) (c : SendCall) (net₁ net' : Net pool) :
    Prop where
  result : novaSend drivers net c = some (c.len.toInt64.toInt, net')
  stats : (net'.devices .lo).stats = (net.devices .lo).stats
  skbs : ∀ p, net'.skbs.get p = net.skbs.get p
  fresh : net.skbs.fresh ≤ net'.skbs.fresh
  agrees : net₁.Agrees net'

/-- Only `lo` and `nic0` are called, and only when they are set up. -/
theorem startXmit_cases {dev? : Option (DevPtr pool)} (h : ∀ dev, dev? = some dev → Builtin net.devices dev) :
    ((∀ dev, dev? = some dev → (net.devices dev).ops = none) ∧ net.startXmit drivers dev? = none) ∨
    (dev? = some .lo ∧ (net.devices .lo).ops = some .lo ∧ net.startXmit drivers dev? = some loStartXmit) ∨
    (dev? = some .nic ∧ (net.devices .nic).ops = some .nic ∧ net.startXmit drivers dev? = some nicStartXmit) := by
  cases dev? with
  | none => exact .inl ⟨by simp, rfl⟩
  | some dev =>
      obtain ⟨hown, hops⟩ := h dev rfl
      rcases hops with hops | hops
      · refine .inl ⟨fun dev' hdev' => ?_, by simp only [Net.startXmit, hops, Option.bind_some, Option.bind_none]⟩
        cases hdev'
        exact hops
      · rcases hown with rfl | rfl
        · exact .inr (.inl ⟨rfl, hops, by simp only [Net.startXmit, hops, DevPtr.ownOps, Option.bind_some]; rfl⟩)
        · exact .inr (.inr ⟨rfl, hops, by simp only [Net.startXmit, hops, DevPtr.ownOps, Option.bind_some]; rfl⟩)

/-- The packet of a send, in the state the driver is called in. -/
structure Loaded (net₁ net₂ : Net pool) (c : SendCall) (dev : Option (DevPtr pool)) (buff : NovaSkBuff pool) :
    Prop where
  get : ∀ p, net₂.skbs.get p = if p = net₁.skbs.fresh then some buff else net₁.skbs.get p
  fresh : net₂.skbs.fresh = net₁.skbs.fresh + 1
  len : buff.len = c.len
  dev : buff.dev = dev
  stats : (net₂.devices .lo).stats = (net₁.devices .lo).stats
  agrees : net₁.Agrees net₂

/-- A send through a driver either finds no memory or hands its packet to the driver. -/
theorem novaSend_cases {c : SendCall} {sock buf net₁ socket hook}
    (hlookup : novaSocketLookup net c.sockfd = some sock) (hbuf : c.buf = some buf) (hlen : c.len ≠ 0)
    (hroute : net.routeSocket sock = some net₁) (hget : net₁.sockets.get sock = some socket)
    (hxmit : net₁.startXmit drivers socket.dev = some hook) :
    (¬ SkbMemory c.len c.memSkb c.memData ∧
      ∃ skbs, novaSend drivers net c = some (-1, { net₁ with skbs := skbs }) ∧
        (∀ p, skbs.get p = net₁.skbs.get p) ∧ net₁.skbs.fresh ≤ skbs.fresh) ∨
    (SkbMemory c.len c.memSkb c.memData ∧
      ∃ net₂ buff, Loaded net₁ net₂ c socket.dev buff ∧
        novaSend drivers net c = novaSendSkb drivers net₂ net₁.skbs.fresh c.len) := by
  have hsend : novaSend drivers net c = novaSendPacket drivers net₁ buf c socket.dev := by
    simp only [novaSend, hlookup, hbuf, hlen, hroute, hget, hxmit, Option.bind_some, Option.isNone_some, ↓reduceIte,
      Bool.false_eq_true]
  rcases novaAllocSkb_cases net₁ c.len c.memSkb c.memData with ⟨hmem, skbs, halloc, hskbs, hfresh⟩ | ⟨hmem, buff, halloc⟩
  · exact .inl ⟨hmem, skbs, by rw [hsend, novaSendPacket, halloc]; rfl, hskbs, hfresh⟩
  · have hload : ({ net₁ with skbs := net₁.skbs.alloc buff } : Net pool).skbs.get net₁.skbs.fresh = some buff :=
      Heap.get_alloc_fresh _
    refine .inr ⟨hmem, ({ net₁ with skbs := net₁.skbs.alloc buff } : Net pool).setSkb net₁.skbs.fresh
      (buff.load buf c.len socket.dev), buff.load buf c.len socket.dev, ⟨fun p => ?_, ?_, rfl, rfl, rfl, .skbs ..⟩, ?_⟩
    · rw [Net.setSkb, Heap.get_write _ (Heap.live_alloc_fresh _), Heap.get_alloc]
      split <;> rfl
    · rw [Net.setSkb, Heap.fresh_write, Heap.fresh_alloc]
    · rw [hsend, novaSendPacket, halloc, Option.bind_some]
      simp only [hload, Option.bind_some]

theorem novaSendSkb_lo {net₁ net₂ : Net pool} {c buff} (h : Loaded net₁ net₂ c (some .lo) buff)
    (hops : (net₁.devices .lo).ops = some .lo) :
    ∃ net', novaSendSkb drivers net₂ net₁.skbs.fresh c.len = some (c.len.toInt64.toInt, net') ∧ net₁.Agrees net' ∧
      (net'.devices .lo).stats = (net₂.devices .lo).stats.loopback c.len ∧ net'.skbs.Live net₁.skbs.fresh := by
  have hget : net₂.skbs.get net₁.skbs.fresh = some buff := by rw [h.get, if_pos rfl]
  have hops₂ : (net₂.devices .lo).ops = some .lo := (congrArg (fun w => w.2.1) (h.agrees.wiring .lo)).trans hops
  obtain ⟨net', hxmit, hagrees, hstats, hskbs⟩ := novaDevQueueXmit_lo drivers hget h.dev hops₂
  refine ⟨net', ?_, h.agrees.trans hagrees, by rw [hstats, h.len], ?_⟩
  · simp only [novaSendSkb, hxmit, Option.bind_some, ne_eq, not_true_eq_false, ↓reduceIte]
  · rw [hskbs]
    exact Heap.live_write _ (net₂.skbs.live_of_get hget)

theorem novaSendSkb_nic {net₁ net₂ : Net pool} {c buff} (h : Loaded net₁ net₂ c (some .nic) buff)
    (hops : (net₁.devices .nic).ops = some .nic) :
    ∃ net', novaSendSkb drivers net₂ net₁.skbs.fresh c.len = some (c.len.toInt64.toInt, net') ∧ net₁.Agrees net' ∧
      (net'.devices .lo).stats = (net₂.devices .lo).stats ∧ (∀ p, net'.skbs.get p = net₁.skbs.get p) ∧
      net₁.skbs.fresh ≤ net'.skbs.fresh := by
  have hget : net₂.skbs.get net₁.skbs.fresh = some buff := by rw [h.get, if_pos rfl]
  have hops₂ : (net₂.devices .nic).ops = some .nic := (congrArg (fun w => w.2.1) (h.agrees.wiring .nic)).trans hops
  obtain ⟨net', hxmit, hagrees, hstats, hfree⟩ := novaDevQueueXmit_nic drivers hget h.dev hops₂
  obtain ⟨skbs, hskbs, hfresh, hgets⟩ := Heap.exists_free _ (net₂.skbs.live_of_get hget)
  rw [hskbs, Option.some.injEq] at hfree
  refine ⟨net', ?_, h.agrees.trans hagrees, hstats, fun p => ?_, ?_⟩
  · simp only [novaSendSkb, hxmit, Option.bind_some, ne_eq, not_true_eq_false, ↓reduceIte]
  · rw [← hfree, hgets, h.get]
    split
    · next hp => rw [hp, Heap.get_fresh]
    · rfl
  · rw [← hfree, hfresh, h.fresh]
    exact Nat.le_succ _

/-- A send through an open socket, once its buffer and its length are right. -/
theorem Wired.send_open (h : Wired net) {c : SendCall} {sock buf} (hlookup : novaSocketLookup net c.sockfd = some sock)
    (hbuf : c.buf = some buf) (hlen : c.len ≠ 0) :
    ∃ net₁ net', Routed net net₁ ∧ Wired net₁ ∧
      (((∀ dev, ¬ SendsThrough net c dev) ∧ SendFails drivers net c net₁ net') ∨
        (SendsThrough net c .lo ∧ SendLoops drivers net c net₁ net') ∨
        (SendsThrough net c .nic ∧ SendLeaves drivers net c net₁ net')) := by
  obtain ⟨net₁, socket, hroute, hget, hdev, hdevices, hskbs, hwired, hbuiltin⟩ := h.routeSocket hlookup
  have hrouted : Routed net net₁ := .inr ⟨c.sockfd, sock, hlookup, hroute⟩
  have hbuiltin₁ : ∀ dev, socket.dev = some dev → Builtin net₁.devices dev := fun dev hd => by
    rw [hdevices]
    exact hbuiltin dev (hdev.symm.trans hd)
  have hthrough : ∀ dev, socket.dev = some dev → (net₁.devices dev).ops = dev.ownOps → dev.ownOps ≠ none →
      SkbMemory c.len c.memSkb c.memData → SendsThrough net c dev := fun dev hd hops hown hmem => by
    refine ⟨⟨sock, hlookup, hdev.symm.trans hd⟩, by rw [hbuf]; simp, hlen, ?_, hmem⟩
    rwa [← hdevices, hops]
  have hfails : ∀ skbs : Heap (NovaSkBuff pool), novaSend drivers net c = some (-1, { net₁ with skbs := skbs }) →
      (∀ p, skbs.get p = net₁.skbs.get p) → net₁.skbs.fresh ≤ skbs.fresh →
      SendFails drivers net c net₁ { net₁ with skbs := skbs } := fun skbs hsend hgets hfresh =>
    ⟨hsend, by rw [hdevices], fun p => by rw [← hskbs]; exact hgets p, by rw [← hskbs]; exact hfresh, .skbs ..⟩
  rcases startXmit_cases drivers hbuiltin₁ with ⟨hops, hxmit⟩ | ⟨hlo, hops, hxmit⟩ | ⟨hnic, hops, hxmit⟩
  · refine ⟨net₁, net₁, hrouted, hwired, .inl ⟨fun dev hsend => ?_, hfails net₁.skbs ?_ (fun _ => rfl) (Nat.le_refl _)⟩⟩
    · obtain ⟨sock', hsock', hdev'⟩ := hsend.route
      rw [hlookup, Option.some.injEq] at hsock'
      rw [← hsock', ← hdev] at hdev'
      exact hsend.ops (hdevices ▸ hops dev hdev')
    · simp only [novaSend, hlookup, hbuf, hlen, hroute, hget, hxmit, Option.bind_some, Option.isNone_none, ↓reduceIte]
  · rcases novaSend_cases drivers hlookup hbuf hlen hroute hget hxmit with
      ⟨hmem, skbs, hsend, hgets, hfresh⟩ | ⟨hmem, net₂, buff, hload, hsend⟩
    · exact ⟨net₁, _, hrouted, hwired, .inl ⟨fun dev hs => hmem hs.memory, hfails skbs hsend hgets hfresh⟩⟩
    · rw [hlo] at hload
      obtain ⟨net', hskb, hagrees, hstats, hlive⟩ := novaSendSkb_lo drivers hload hops
      refine ⟨net₁, net', hrouted, hwired, .inr (.inl ⟨hthrough .lo hlo hops (Option.some_ne_none _) hmem, ?_⟩)⟩
      refine ⟨hsend.trans hskb, ?_, hskbs ▸ hlive, hagrees⟩
      rw [hstats, hload.stats, hdevices]
  · rcases novaSend_cases drivers hlookup hbuf hlen hroute hget hxmit with
      ⟨hmem, skbs, hsend, hgets, hfresh⟩ | ⟨hmem, net₂, buff, hload, hsend⟩
    · exact ⟨net₁, _, hrouted, hwired, .inl ⟨fun dev hs => hmem hs.memory, hfails skbs hsend hgets hfresh⟩⟩
    · rw [hnic] at hload
      obtain ⟨net', hskb, hagrees, hstats, hgets, hfresh⟩ := novaSendSkb_nic drivers hload hops
      refine ⟨net₁, net', hrouted, hwired, .inr (.inr ⟨hthrough .nic hnic hops (Option.some_ne_none _) hmem, ?_⟩)⟩
      refine ⟨hsend.trans hskb, ?_, fun p => by rw [hgets, hskbs], hskbs ▸ hfresh, hagrees⟩
      rw [hstats, hload.stats, hdevices]

theorem Wired.send (h : Wired net) (c : SendCall) :
    ∃ net₁ net', Routed net net₁ ∧ Wired net₁ ∧
      (((∀ dev, ¬ SendsThrough net c dev) ∧ SendFails drivers net c net₁ net') ∨
        (SendsThrough net c .lo ∧ SendLoops drivers net c net₁ net') ∨
        (SendsThrough net c .nic ∧ SendLeaves drivers net c net₁ net')) := by
  have hfails : novaSend drivers net c = some (-1, net) → SendFails drivers net c net net :=
    fun hsend => ⟨hsend, rfl, fun _ => rfl, Nat.le_refl _, .refl net⟩
  cases hlookup : novaSocketLookup net c.sockfd with
  | none =>
      refine ⟨net, net, .inl rfl, h, .inl ⟨fun dev hsend => ?_, hfails (by simp only [novaSend, hlookup])⟩⟩
      obtain ⟨sock, hsock, _⟩ := hsend.route
      rw [hlookup] at hsock
      cases hsock
  | some sock =>
      cases hbuf : c.buf with
      | none =>
          refine ⟨net, net, .inl rfl, h, .inl ⟨fun dev hsend => hsend.buf hbuf, hfails ?_⟩⟩
          simp only [novaSend, hlookup, hbuf]
      | some buf =>
          by_cases hlen : c.len = 0
          · refine ⟨net, net, .inl rfl, h, .inl ⟨fun dev hsend => hsend.len hlen, hfails ?_⟩⟩
            simp only [novaSend, hlookup, hbuf, hlen, ↓reduceIte]
          · exact h.send_open drivers hlookup hbuf hlen

end NovaOs.Network
