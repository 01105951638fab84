import NovaOs.Network.Stack

/-!
# What the calls of the stack do

`Agrees` says that two states differ in packets and counters only. A packet that reaches a driver is handed to the
receive path by `lo` and freed by `nic0`; everything else of the stack stays as it is.
-/

namespace NovaOs.Network

open Lib

variable {pool : Nat} (drivers : Nat → NovaNetDeviceOps pool) {net net' : Net pool}

/-! ## Devices and their counters -/

theorem Net.devices_setDevice (dev dev' : DevPtr pool) (device) :
    (net.setDevice dev device).devices dev' = if dev' = dev then device else net.devices dev' :=
  Function.update_apply ..

/-- The counters of a device after a packet went round the loopback: it is counted once as sent and twice as
received. -/
def NovaNetStats.loopback (stats : NovaNetStats) (len : UInt64) : NovaNetStats where
  rxBytes := stats.rxBytes + len + len
  rxPackets := stats.rxPackets + 1 + 1
  txBytes := stats.txBytes + len
  txPackets := stats.txPackets + 1

/-! ## The table of sockets -/

theorem Net.entry_congr (h : net'.socketTable = net.socketTable) : net'.entry = net.entry := by
  funext fd
  rw [Net.entry, Net.entry, h]

theorem Net.entry_setEntry (fd sock? fd') :
    (net.setEntry fd sock?).entry fd' = if fd' = fd then sock? else net.entry fd' := by
  simp only [Net.entry, Net.setEntry, Fin.getElem_fin, Vector.getElem_set, Fin.val_inj, eq_comm]

theorem Net.entry_closeSocket (fd sockets fd') :
    ({ net.setEntry fd none with sockets := sockets } : Net pool).entry fd' =
      if fd' = fd then none else net.entry fd' := Net.entry_setEntry ..

/-! ## States that differ in packets and counters only -/

/-- What the stack reads of a device. -/
def NovaNetDevice.wiring (device : NovaNetDevice pool) : String × Option OpsPtr × Option (DevPtr pool) :=
  (device.name, device.ops, device.next)

structure Net.Agrees (net net' : Net pool) : Prop where
  wiring : ∀ dev, (net'.devices dev).wiring = (net.devices dev).wiring
  registry : net'.registry = net.registry
  socketTable : net'.socketTable = net.socketTable
  initialized : net'.initialized = net.initialized
  sockets : net'.sockets = net.sockets

namespace Net.Agrees

theorem refl (net : Net pool) : net.Agrees net := ⟨fun _ => rfl, rfl, rfl, rfl, rfl⟩

theorem trans {net₁ net₂ net₃ : Net pool} (h : net₁.Agrees net₂) (h' : net₂.Agrees net₃) : net₁.Agrees net₃ where
  wiring dev := (h'.wiring dev).trans (h.wiring dev)
  registry := h'.registry.trans h.registry
  socketTable := h'.socketTable.trans h.socketTable
  initialized := h'.initialized.trans h.initialized
  sockets := h'.sockets.trans h.sockets

theorem skbs (net : Net pool) (skbs : Heap (NovaSkBuff pool)) : net.Agrees { net with skbs := skbs } :=
  ⟨fun _ => rfl, rfl, rfl, rfl, rfl⟩

theorem setDevice {dev : DevPtr pool} {device : NovaNetDevice pool}
    (h : device.wiring = (net.devices dev).wiring) : net.Agrees (net.setDevice dev device) where
  wiring dev' := by
    rw [Net.devices_setDevice]
    split
    · next he => rw [he, h]
    · rfl
  registry := rfl
  socketTable := rfl
  initialized := rfl
  sockets := rfl

theorem countTx (net : Net pool) (dev len) : net.Agrees (net.countTx dev len) := .setDevice rfl

theorem countRx (net : Net pool) (dev len) : net.Agrees (net.countRx dev len) := .setDevice rfl

end Net.Agrees

/-! ## Packets -/

/-- There is memory for a packet of `size` bytes. -/
def SkbMemory (size : UInt64) (memSkb memData : Bool) : Prop :=
  memSkb ∧ calloc memData (if size = 0 then 1 else size.toNat)

/-- The length of a packet that there is memory for is not taken for a failure. -/
theorem toInt_of_memory {len : UInt64} {memSkb memData} (hlen : len ≠ 0) (h : SkbMemory len memSkb memData) :
    len.toInt64.toInt ≠ -1 := by
  have hsize := h.2
  rw [if_neg hlen, calloc, Bool.and_eq_true, decide_eq_true_eq] at hsize
  have hlt : 2 * len.toBitVec.toNat < 2 ^ 64 := by
    have hlen' : len.toBitVec.toNat < 2 ^ 63 := hsize.2
    omega
  have hint : len.toInt64.toInt = len.toNat := BitVec.toInt_eq_toNat_of_lt hlt
  omega

theorem novaAllocSkb_cases (net : Net pool) (size : UInt64) (memSkb memData : Bool) :
    (¬ SkbMemory size memSkb memData ∧
      ∃ skbs, novaAllocSkb net size memSkb memData = some (none, { net with skbs := skbs }) ∧
        (∀ p, skbs.get p = net.skbs.get p) ∧ net.skbs.fresh ≤ skbs.fresh) ∨
    (SkbMemory size memSkb memData ∧
      ∃ buff, novaAllocSkb net size memSkb memData =
        some (some net.skbs.fresh, { net with skbs := net.skbs.alloc buff })) := by
  cases memSkb with
  | false => exact .inl ⟨by simp [SkbMemory], net.skbs, rfl, fun _ => rfl, Nat.le_refl _⟩
  | true =>
      cases hcalloc : calloc memData (if size = 0 then 1 else size.toNat) with
      | true => exact .inr ⟨⟨rfl, hcalloc⟩, _, by simp only [novaAllocSkb, hcalloc, ↓reduceIte]; rfl⟩
      | false =>
          obtain ⟨skbs, hfree, hfresh, hget⟩ := Heap.exists_free _ net.skbs.live_alloc_fresh
          refine .inl ⟨by simp [SkbMemory, hcalloc], skbs, ?_, fun p => ?_, ?_⟩
          · simp only [novaAllocSkb, hcalloc, ↓reduceIte, Bool.false_eq_true]
            exact congrArg (Option.map _) hfree
          · rw [hget, Heap.get_alloc]
            split
            · next hp => rw [hp, Heap.get_fresh]
            · rfl
          · rw [hfresh, Heap.fresh_alloc]
            exact Nat.le_succ _

/-- `lo` hands the packet to the receive path, which counts it once more and leaves it allocated. -/
theorem novaDevQueueXmit_lo {skb : SkbPtr} {buff : NovaSkBuff pool} (hget : net.skbs.get skb = some buff)
    (hdev : buff.dev = some .lo) (hops : (net.devices .lo).ops = some .lo) :
    ∃ net', novaDevQueueXmit drivers net (some skb) = some (0, net') ∧ net.Agrees net' ∧
      (net'.devices .lo).stats = (net.devices .lo).stats.loopback buff.len ∧
      net'.skbs = net.skbs.write skb { buff with error := 0 } := by
  refine ⟨(((net.countTx .lo buff.len).countRx .lo buff.len).countRx .lo buff.len).setSkb skb
    { buff with error := 0 }, ?_, ?_, ?_, rfl⟩
  · have hget' : ((net.countTx .lo buff.len).countRx .lo buff.len).skbs.get skb = some buff := hget
    simp only [novaDevQueueXmit, hget, hdev, Net.startXmit, hops, opsOf, OpsPtr.table, NovaNetDeviceOps.recorded, loOps, Option.bind_some, loStartXmit,
      novaNetifReceiveSkb, hget', Option.map_some]
  · exact ((Net.Agrees.countTx ..).trans (.countRx ..)).trans ((Net.Agrees.countRx ..).trans (.skbs ..))
  · simp only [Net.setSkb, Net.countRx, Net.countTx, Net.devices_setDevice, ↓reduceIte, NovaNetStats.loopback]

theorem novaDevQueueXmit_nic {skb : SkbPtr} {buff : NovaSkBuff pool} (hget : net.skbs.get skb = some buff)
    (hdev : buff.dev = some .nic) (hops : (net.devices .nic).ops = some .nic) :
    ∃ net', novaDevQueueXmit drivers net (some skb) = some (0, net') ∧ net.Agrees net' ∧
      (net'.devices .lo).stats = (net.devices .lo).stats ∧ net.skbs.free skb = some net'.skbs := by
  obtain ⟨skbs, hfree, _, _⟩ := Heap.exists_free _ (net.skbs.live_of_get hget)
  refine ⟨{ net.countTx .nic buff.len with skbs := skbs }, ?_, ?_, ?_, hfree⟩
  · have hfree' : (net.countTx .nic buff.len).skbs.free skb = some skbs := hfree
    simp only [novaDevQueueXmit, hget, hdev, Net.startXmit, hops, opsOf, OpsPtr.table, NovaNetDeviceOps.recorded, nicOps, Option.bind_some, nicStartXmit,
      novaFreeSkb, hfree', Option.map_some]
  · exact (Net.Agrees.countTx ..).trans (.skbs ..)
  · simp only [Net.countTx, Net.devices_setDevice, reduceCtorEq, ↓reduceIte]

end NovaOs.Network
