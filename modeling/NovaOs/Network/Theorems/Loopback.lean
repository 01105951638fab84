import NovaOs.Network.Lemmas.Loopback

/-!
# The counters of the loopback

Every packet that goes round the loopback is counted as received by `lo_start_xmit` and again by
`nova_netif_receive_skb`, so the counters balance only in the runs that send nothing round it.
-/

namespace NovaOs.Network

open Lib

variable {pool : Nat} (drivers : Nat → NovaNetDeviceOps pool)

/-! ## Runs over the loopback -/

def loopbackStart (memory : Net pool) : Option (Net pool) :=
  (novaLoopbackInit drivers (novaNetworkInit memory).2).map Prod.snd

/-- A caller transmits live packets of `lo` only, and fills in and frees live packets only. -/
def ProperCall (st : Option (Net pool)) (op : NetOp pool) : Prop :=
  ∀ net, st = some net → match op with
    | .queueXmit (some skb) => ∃ buff, net.skbs.get skb = some buff ∧ buff.dev = some .lo
    | .fillSkb skb _ _ _ => net.skbs.Live skb
    | .freeSkb (some skb) => net.skbs.Live skb
    | _ => True

/-- The call hands a packet to `lo_start_xmit`. -/
def Transmits (st : Option (Net pool)) (op : NetOp pool) : Prop :=
  ∃ net, st = some net ∧ match op with
    | .queueXmit (some _) => True
    | .send c => SendsThrough net c .lo
    | _ => False

/-- The lengths of the accepted transmissions after one more call, the latest first. -/
def acceptedLens (st : Option (Net pool)) (op : NetOp pool) (answer : Option NetAnswer) (lens : List UInt64) :
    List UInt64 :=
  match st, op, answer with
  | some _, .send c, some (.int result) => if result = -1 then lens else c.len :: lens
  | some net, .queueXmit (some skb), some (.int 0) =>
      match net.skbs.get skb with
      | some buff => buff.len :: lens
      | none => lens
  | _, _, _ => lens

/-- The run has a result, what `lo` received is what it sent, and that is what was accepted. -/
def Balanced (s : Option (Net pool) × List UInt64) : Prop :=
  ∃ net, s.1 = some net ∧
    let stats := (net.devices .lo).stats
    stats.rxPackets = stats.txPackets ∧ stats.rxBytes = stats.txBytes ∧
      stats.txPackets = UInt64.ofNat s.2.length ∧ stats.txBytes = s.2.sum

/-! ## What one call can do -/

/-- A call that does not transmit leaves the counters and is not accepted. -/
structure Idles (net : Net pool) (op : NetOp pool) (answer : NetAnswer) (net' : Net pool) : Prop where
  idle : ¬ Transmits (some net) op
  stats : (net'.devices .lo).stats = (net.devices .lo).stats
  accepted : ∀ lens, acceptedLens (some net) op (some answer) lens = lens

/-- A call that transmits is accepted and counts its packet once as sent and twice as received. -/
structure Loops (net : Net pool) (op : NetOp pool) (answer : NetAnswer) (net' : Net pool) (len : UInt64) : Prop where
  transmits : Transmits (some net) op
  stats : (net'.devices .lo).stats = (net.devices .lo).stats.loopback len
  accepted : ∀ lens, acceptedLens (some net) op (some answer) lens = len :: lens

theorem not_transmits_of {net : Net pool} {op} (h : ¬ match op with
    | .queueXmit (some _) => True
    | .send c => SendsThrough net c .lo
    | _ => False) : ¬ Transmits (some net) op := by
  rintro ⟨net', hnet, htransmits⟩
  cases hnet
  exact h htransmits

theorem LoReady.netStep {net : Net pool} (h : LoReady net) {op : NetOp pool} (hop : ProperCall (some net) op) :
    ∃ answer net', Network.netStep drivers net op = some (answer, net') ∧ LoReady net' ∧
      (Idles net op answer net' ∨ ∃ len, Loops net op answer net' len) := by
  cases op with
  | socket domain type protocol memory =>
      obtain ⟨result, net', hcall, hready, hdevices⟩ := h.socket domain type protocol memory
      refine ⟨.int result, net', by simp only [Network.netStep, hcall, Option.map_some], hready, .inl ?_⟩
      exact ⟨not_transmits_of not_false, by rw [hdevices], fun _ => rfl⟩
  | connect sockfd =>
      obtain ⟨result, net', hcall, hready, hdevices⟩ := h.connect sockfd
      refine ⟨.int result, net', by simp only [Network.netStep, hcall, Option.map_some], hready, .inl ?_⟩
      exact ⟨not_transmits_of not_false, by rw [hdevices], fun _ => rfl⟩
  | close sockfd =>
      obtain ⟨result, net', hcall, hready, hdevices⟩ := h.close sockfd
      refine ⟨.int result, net', by simp only [Network.netStep, hcall, Option.map_some], hready, .inl ?_⟩
      exact ⟨not_transmits_of not_false, by rw [hdevices], fun _ => rfl⟩
  | allocSkb size memSkb memData =>
      obtain ⟨result, net', hcall, hready, hdevices⟩ := h.allocSkb size memSkb memData
      refine ⟨.skb result, net', by simp only [Network.netStep, hcall, Option.map_some], hready, .inl ?_⟩
      exact ⟨not_transmits_of not_false, by rw [hdevices], fun _ => rfl⟩
  | fillSkb skb data len dev =>
      have hlive : net.skbs.Live skb := hop net rfl
      obtain ⟨buff, hget⟩ := Option.ne_none_iff_exists'.mp hlive
      refine ⟨.void, _, by simp only [Network.netStep, hget, Option.map_some]; rfl, h.agrees (.skbs ..), .inl ?_⟩
      exact ⟨not_transmits_of not_false, rfl, fun _ => rfl⟩
  | freeSkb skb =>
      have hlive : ∀ skb', skb = some skb' → net.skbs.Live skb' := by
        rintro skb' rfl
        exact hop net rfl
      obtain ⟨net', hcall, hready, hdevices⟩ := h.freeSkb hlive
      refine ⟨.void, net', by simp only [Network.netStep, hcall, Option.map_some], hready, .inl ?_⟩
      exact ⟨not_transmits_of not_false, by rw [hdevices], fun _ => rfl⟩
  | queueXmit skb =>
      cases skb with
      | none =>
          exact ⟨.int (-1), net, rfl, h, .inl ⟨not_transmits_of not_false, rfl, fun _ => rfl⟩⟩
      | some skb =>
          obtain ⟨buff, hget, hdev⟩ := hop net rfl
          obtain ⟨net', hxmit, hagrees, hstats, _⟩ := novaDevQueueXmit_lo drivers hget hdev h.ops
          refine ⟨.int 0, net', by simp only [Network.netStep, hxmit, Option.map_some], h.agrees hagrees,
            .inr ⟨buff.len, ⟨net, rfl, trivial⟩, hstats, fun lens => ?_⟩⟩
          simp only [acceptedLens, hget]
  | send c =>
      obtain ⟨net', hready, ⟨hnot, hsend, hstats⟩ | ⟨hlo, hsend, hstats⟩⟩ := h.send drivers c
      · refine ⟨.int (-1), net', by simp only [Network.netStep, hsend, Option.map_some], hready, .inl ?_⟩
        exact ⟨not_transmits_of hnot, hstats, fun _ => rfl⟩
      · refine ⟨.int c.len.toInt64.toInt, net', by simp only [Network.netStep, hsend, Option.map_some], hready,
          .inr ⟨c.len, ⟨net, rfl, hlo⟩, hstats, fun lens => ?_⟩⟩
        simp only [acceptedLens, toInt_of_memory hlo.len hlo.memory, ↓reduceIte]

/-! ## Whole runs -/

def countedMachine : Machine (Option (Net pool) × List UInt64) (NetOp pool) (Option NetAnswer) :=
  (netMachine drivers).withGhost acceptedLens

theorem countedMachine_next {net : Net pool} (h : LoReady net) {op : NetOp pool} (hop : ProperCall (some net) op)
    (lens : List UInt64) : ∃ net', LoReady net' ∧
      ((¬ Transmits (some net) op ∧ (countedMachine drivers).next (some net, lens) op = (some net', lens) ∧
          (net'.devices .lo).stats = (net.devices .lo).stats) ∨
        (Transmits (some net) op ∧ ∃ len,
          (countedMachine drivers).next (some net, lens) op = (some net', len :: lens) ∧
          (net'.devices .lo).stats = (net.devices .lo).stats.loopback len)) := by
  obtain ⟨answer, net', hstep, hready, hcases⟩ := h.netStep drivers hop
  have hnext : (countedMachine drivers).next (some net, lens) op =
      (some net', acceptedLens (some net) op (some answer) lens) := by
    rw [countedMachine, netMachine, Machine.withGhost_ofPartial_next _ hstep]
  refine ⟨net', hready, ?_⟩
  rcases hcases with hidles | ⟨len, hloops⟩
  · exact .inl ⟨hidles.idle, by rw [hnext, hidles.accepted], hidles.stats⟩
  · exact .inr ⟨hloops.transmits, len, by rw [hnext, hloops.accepted], hloops.stats⟩

def ReadyWith (P : NovaNetStats → List UInt64 → Prop) (s : Option (Net pool) × List UInt64) : Prop :=
  ∃ net, s.1 = some net ∧ LoReady net ∧ P (net.devices .lo).stats s.2

/-- A device that is registered in an empty registry is its head, and `open` is called. -/
theorem novaNetdevRegister_lo {net : Net pool} (hregistry : net.registry = none)
    (hname : (net.devices .lo).name = "lo") (hops : (net.devices .lo).ops = some .lo) :
    novaNetdevRegister drivers net (some .lo) =
      some (0, { ({ net.setDevice .lo { net.devices .lo with next := none } with registry := some .lo } :
        Net pool).raiseFlags .lo (novaIffRunning ||| novaIffLoopback) with
          hookCalls := ⟨.lo, .openDev, 0⟩ :: net.hookCalls }) := by
  have hsearch : net.searchName (net.devices .lo).name = some none := by
    rw [Net.searchName, hregistry, search]
  have hnonempty : (net.devices .lo).name ≠ "" := by
    rw [hname]
    decide
  simp only [novaNetdevRegister, hnonempty, hsearch, hregistry, ↓reduceIte, Option.bind_some, Net.devices_setDevice, hops]
  rfl

theorem readyWith_start (memory : Net pool) {P : NovaNetStats → List UInt64 → Prop} (hP : P ⟨0, 0, 0, 0⟩ []) :
    ReadyWith P (loopbackStart drivers memory, []) := by
  have hnone : ∀ fd : Fin 64, (novaNetworkInit memory).2.entry fd = none := fun fd => by
    simp [Net.entry, novaNetworkInit]
  rw [loopbackStart, novaLoopbackInit, novaNetdevRegister_lo drivers rfl, Option.map_some]
  · refine ⟨_, rfl, ⟨rfl, rfl, ?_, fun fd sock hentry => ?_, fun fd fd' sock hentry => ?_⟩, ?_⟩
    · simp only [Net.raiseFlags, Net.devices_setDevice, ↓reduceIte, NovaNetDevice.wiring]
    · exact absurd ((hnone fd).symm.trans hentry) (by simp)
    · exact absurd ((hnone fd).symm.trans hentry) (by simp)
    · simp only [Net.raiseFlags, Net.devices_setDevice, ↓reduceIte]
      exact hP
  · rw [Net.devices_setDevice, if_pos rfl]
  · rw [Net.devices_setDevice, if_pos rfl]

/-- What was sent was accepted, and it was received twice. -/
structure CountedTwice (stats : NovaNetStats) (lens : List UInt64) : Prop where
  rxPackets : stats.rxPackets = 2 * stats.txPackets
  rxBytes : stats.rxBytes = 2 * stats.txBytes
  txPackets : stats.txPackets = UInt64.ofNat lens.length
  txBytes : stats.txBytes = lens.sum

theorem CountedTwice.loopback {stats lens} (h : CountedTwice stats lens) (len : UInt64) :
    CountedTwice (stats.loopback len) (len :: lens) where
  rxPackets := by
    have hrx := h.rxPackets
    simp only [NovaNetStats.loopback]
    grind
  rxBytes := by
    have hrx := h.rxBytes
    simp only [NovaNetStats.loopback]
    grind
  txPackets := by
    rw [List.length_cons, UInt64.ofNat_add, ← h.txPackets]
    rfl
  txBytes := by
    rw [List.sum_cons, ← h.txBytes, UInt64.add_comm]
    rfl

/-- In every run of proper calls `lo` sends what is accepted and receives it twice. -/
theorem loopback_counted_twice (memory : Net pool) (ops : List (NetOp pool))
    (hops : (netMachine drivers).Along ProperCall (loopbackStart drivers memory) ops) :
    (countedMachine drivers).Always (ReadyWith CountedTwice) (loopbackStart drivers memory, []) ops := by
  have hproper := ((netMachine drivers).withGhost_along acceptedLens (c := [])).mpr hops
  refine Machine.always_of_along ?_ (readyWith_start drivers memory ⟨rfl, rfl, rfl, rfl⟩) hproper
  rintro ⟨_, lens⟩ op ⟨net, rfl, hready, hcount⟩ hop
  obtain ⟨net', hready', ⟨_, hnext, hstats⟩ | ⟨_, len, hnext, hstats⟩⟩ := countedMachine_next drivers hready hop lens
  · rw [← hstats] at hcount
    exact hnext ▸ ⟨net', rfl, hready', hcount⟩
  · have hloop := hcount.loopback len
    rw [← hstats] at hloop
    exact hnext ▸ ⟨net', rfl, hready', hloop⟩

def Silent (stats : NovaNetStats) (lens : List UInt64) : Prop := stats = ⟨0, 0, 0, 0⟩ ∧ lens = []

theorem balanced_of_silent {s : Option (Net pool) × List UInt64} (h : ReadyWith Silent s) : Balanced s := by
  obtain ⟨net, hnet, _, hstats, hlens⟩ := h
  refine ⟨net, hnet, ?_⟩
  rw [hstats, hlens]
  exact ⟨rfl, rfl, rfl, rfl⟩

/-- The first packet that goes round the loopback is counted twice as received. -/
theorem not_balanced_loopback {net' : Net pool} {lens : List UInt64} {len : UInt64}
    (h : (net'.devices .lo).stats = NovaNetStats.loopback ⟨0, 0, 0, 0⟩ len) : ¬ Balanced (some net', lens) := by
  rintro ⟨net, hnet, hpackets, _⟩
  rw [Option.some.injEq] at hnet
  rw [← hnet, h] at hpackets
  have hne : (0 + 1 + 1 : UInt64) ≠ 0 + 1 := by decide
  exact hne hpackets

/-- In a run of proper calls the counters of `lo` balance in every state exactly when no call hands a packet to
`lo_start_xmit`. -/
theorem loopback_balanced_iff_silent (memory : Net pool) (ops : List (NetOp pool))
    (hops : (netMachine drivers).Along ProperCall (loopbackStart drivers memory) ops) :
    (countedMachine drivers).Always Balanced (loopbackStart drivers memory, []) ops ↔
      (netMachine drivers).Along (fun st op => ¬ Transmits st op) (loopbackStart drivers memory) ops := by
  have hproper := ((netMachine drivers).withGhost_along acceptedLens (c := [])).mpr hops
  rw [← (netMachine drivers).withGhost_along acceptedLens (c := [])]
  refine Machine.always_iff_along_of (M := countedMachine drivers) (Q := Balanced) (fun s => balanced_of_silent) ?_ ?_
    (readyWith_start drivers memory ⟨rfl, rfl⟩) hproper
  · rintro ⟨_, lens⟩ op ⟨net, rfl, hready, hstats, rfl⟩ hop hquiet
    obtain ⟨net', hready', ⟨_, hnext, hsame⟩ | ⟨htransmits, _⟩⟩ := countedMachine_next drivers hready hop []
    · exact ⟨net', congrArg Prod.fst hnext, hready', hsame.trans hstats, congrArg Prod.snd hnext⟩
    · exact absurd htransmits hquiet
  · rintro ⟨_, lens⟩ op ⟨net, rfl, hready, hstats, rfl⟩ hop htransmits hbalanced
    obtain ⟨net', _, ⟨hquiet, _⟩ | ⟨_, len, hnext, hloop⟩⟩ := countedMachine_next drivers hready hop []
    · exact htransmits hquiet
    · rw [hstats] at hloop
      exact not_balanced_loopback hloop (hnext ▸ hbalanced)

/-- A caller allocates a packet of 32 bytes, addresses it to `lo` and transmits it. -/
def loopOnce : List (NetOp 0) :=
  [.allocSkb 32 true true, .fillSkb 0 (List.replicate 32 65) 32 (some .lo), .queueXmit (some 0)]

/-- One packet was sent and two were received. -/
theorem loopback_unbalanced :
    (netMachine noDrivers).Along ProperCall (loopbackStart noDrivers (zeroNet 0)) loopOnce ∧
      ¬ Balanced ((countedMachine noDrivers).exec (loopbackStart noDrivers (zeroNet 0), []) loopOnce) := by
  have hlive : (((netMachine noDrivers).exec (loopbackStart noDrivers (zeroNet 0)) (loopOnce.take 1)).bind fun net =>
      net.skbs.get 0).isSome := by decide +kernel
  have hdev : (((netMachine noDrivers).exec (loopbackStart noDrivers (zeroNet 0)) (loopOnce.take 2)).bind fun net =>
      (net.skbs.get 0).bind fun buff => buff.dev) = some .lo := by decide +kernel
  have hstats : (((countedMachine noDrivers).exec (loopbackStart noDrivers (zeroNet 0), []) loopOnce).1.map fun net =>
      (net.devices .lo).stats) = some ⟨64, 2, 32, 1⟩ := by decide +kernel
  constructor
  · refine ⟨fun net _ => trivial, fun net hnet => ?_, fun net hnet => ?_, trivial⟩
    · have hnet' : (netMachine noDrivers).exec (loopbackStart noDrivers (zeroNet 0)) (loopOnce.take 1) = some net := hnet
      rw [hnet', Option.bind_some] at hlive
      exact Option.isSome_iff_ne_none.mp hlive
    · have hnet' : (netMachine noDrivers).exec (loopbackStart noDrivers (zeroNet 0)) (loopOnce.take 2) = some net := hnet
      rw [hnet', Option.bind_some, Option.bind_eq_some_iff] at hdev
      exact hdev
  · rintro ⟨net, hnet, hpackets, _⟩
    rw [hnet, Option.map_some, Option.some.injEq] at hstats
    rw [hstats] at hpackets
    exact absurd hpackets (by decide)

/-- A caller allocates a packet, addresses it to `lo`, and frees it instead of sending it. -/
def sendNothing : List (NetOp 0) :=
  [.socket 2 1 6 true, .allocSkb 32 true true, .connect 1, .fillSkb 0 (List.replicate 32 65) 32 (some .lo),
    .send ⟨1, none, 5, true, true⟩, .freeSkb (some 0), .queueXmit none, .close 1]

theorem loopback_balanced_quiet :
    (countedMachine noDrivers).Always Balanced (loopbackStart noDrivers (zeroNet 0), []) sendNothing := by
  have hfilled : (((netMachine noDrivers).exec (loopbackStart noDrivers (zeroNet 0)) (sendNothing.take 3)).bind
      fun net => net.skbs.get 0).isSome := by decide +kernel
  have hfreed : (((netMachine noDrivers).exec (loopbackStart noDrivers (zeroNet 0)) (sendNothing.take 5)).bind
      fun net => net.skbs.get 0).isSome := by decide +kernel
  refine (loopback_balanced_iff_silent noDrivers (zeroNet 0) _ ?_).mpr ?_
  · refine ⟨fun _ _ => trivial, fun _ _ => trivial, fun _ _ => trivial, fun net hnet => ?_, fun _ _ => trivial,
      fun net hnet => ?_, fun _ _ => trivial, fun _ _ => trivial, trivial⟩
    · have hnet' : (netMachine noDrivers).exec (loopbackStart noDrivers (zeroNet 0)) (sendNothing.take 3) = some net :=
        hnet
      rw [hnet', Option.bind_some] at hfilled
      exact Option.isSome_iff_ne_none.mp hfilled
    · have hnet' : (netMachine noDrivers).exec (loopbackStart noDrivers (zeroNet 0)) (sendNothing.take 5) = some net :=
        hnet
      rw [hnet', Option.bind_some] at hfreed
      exact Option.isSome_iff_ne_none.mp hfreed
  · exact ⟨fun ⟨_, _, h⟩ => h, fun ⟨_, _, h⟩ => h, fun ⟨_, _, h⟩ => h, fun ⟨_, _, h⟩ => h, fun ⟨_, _, h⟩ => h.buf rfl,
      fun ⟨_, _, h⟩ => h, fun ⟨_, _, h⟩ => h, fun ⟨_, _, h⟩ => h, trivial⟩

end NovaOs.Network
