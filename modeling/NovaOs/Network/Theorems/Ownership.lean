import NovaOs.Network.Lemmas.Send

/-!
# Who owns a packet

The stack has no queue, so it has taken a packet over when it has freed it. `nic0` keeps to that and `lo` does not:
a packet that goes round the loopback is reported as taken and stays allocated.
-/

namespace NovaOs.Network

open Lib

variable {pool : Nat} (drivers : Nat → NovaNetDeviceOps pool)

/-- A packet that is answered with 0 is freed, and one that is refused is still the caller's. -/
def TakesOver (net : Net pool) (skb : SkbPtr) : Prop :=
  ∃ result net', novaDevQueueXmit drivers net (some skb) = some (result, net') ∧
    (result = 0 → ¬ net'.skbs.Live skb) ∧ (result ≠ 0 → net'.skbs.Live skb)

/-- The run has a result, so it has freed no packet twice, and of the packets from `first` on none is allocated. -/
def NoneLeaked (first : SkbPtr) (st : Option (Net pool)) : Prop :=
  ∃ net, st = some net ∧ ∀ skb, first ≤ skb → ¬ net.skbs.Live skb

def SendsToLo (st : Option (Net pool)) (c : SendCall) : Prop :=
  ∃ net, st = some net ∧ SendsThrough net c .lo

theorem not_takesOver_lo {net : Net pool} {skb buff} (hops : (net.devices .lo).ops = some .lo)
    (hget : net.skbs.get skb = some buff) (hdev : buff.dev = some .lo) : ¬ TakesOver drivers net skb := by
  rintro ⟨result, net', hresult, hfreed, _⟩
  obtain ⟨net'', hxmit, _, _, hskbs⟩ := novaDevQueueXmit_lo drivers hget hdev hops
  rw [hresult, Option.some.injEq, Prod.mk.injEq] at hxmit
  obtain ⟨hzero, rfl⟩ := hxmit
  refine hfreed hzero ?_
  rw [hskbs]
  exact Heap.live_write _ (net.skbs.live_of_get hget)

theorem takesOver_nic {net : Net pool} {skb buff} (hops : (net.devices .nic).ops = some .nic)
    (hget : net.skbs.get skb = some buff) (hdev : buff.dev = some .nic) : TakesOver drivers net skb := by
  obtain ⟨net', hxmit, _, _, hfree⟩ := novaDevQueueXmit_nic drivers hget hdev hops
  obtain ⟨skbs, hskbs, _, hgets⟩ := Heap.exists_free _ (net.skbs.live_of_get hget)
  rw [hskbs, Option.some.injEq] at hfree
  refine ⟨0, net', hxmit, fun _ hlive' => hlive' ?_, fun h => absurd rfl h⟩
  rw [← hfree, hgets, if_pos rfl]

/-! ## Runs of sends -/

structure SendInv (first : SkbPtr) (net : Net pool) : Prop where
  wired : Wired net
  fresh : first ≤ net.skbs.fresh
  freed : ∀ skb, first ≤ skb → ¬ net.skbs.Live skb

theorem SendInv.start {net : Net pool} (h : Wired net) : SendInv net.skbs.fresh net where
  wired := h
  fresh := Nat.le_refl _
  freed skb hskb hlive := hlive (net.skbs.fresh_none skb hskb)

theorem SendInv.frame {first} {net net₁ net' : Net pool} (h : SendInv first net) (hwired : Wired net₁)
    (hagrees : net₁.Agrees net') (hskbs : ∀ p, net'.skbs.get p = net.skbs.get p)
    (hfresh : net.skbs.fresh ≤ net'.skbs.fresh) : SendInv first net' where
  wired := hwired.agrees hagrees
  fresh := h.fresh.trans hfresh
  freed skb hskb hlive := h.freed skb hskb (by rwa [Heap.Live, ← hskbs])

theorem SendInv.next {first} {net : Net pool} (h : SendInv first net) {c : SendCall} (hc : ¬ SendsThrough net c .lo) :
    ∃ net', (sendMachine drivers).next (some net) c = some net' ∧ SendInv first net' := by
  obtain ⟨net₁, net', _, hwired, hcases⟩ := h.wired.send drivers c
  rcases hcases with ⟨_, hfails⟩ | ⟨hlo, _⟩ | ⟨_, hleaves⟩
  · exact ⟨net', Machine.ofPartial_next hfails.result, h.frame hwired hfails.agrees hfails.skbs hfails.fresh⟩
  · exact absurd hlo hc
  · exact ⟨net', Machine.ofPartial_next hleaves.result, h.frame hwired hleaves.agrees hleaves.skbs hleaves.fresh⟩

theorem SendInv.leaks {first} {net : Net pool} (h : SendInv first net) {c : SendCall} (hc : SendsThrough net c .lo) :
    ¬ NoneLeaked first ((sendMachine drivers).next (some net) c) := by
  obtain ⟨net₁, net', _, _, hcases⟩ := h.wired.send drivers c
  rcases hcases with ⟨hnone, _⟩ | ⟨_, hloops⟩ | ⟨hnic, _⟩
  · exact absurd hc (hnone .lo)
  · rintro ⟨net'', hnext, hfreed⟩
    have hsend : (sendMachine drivers).next (some net) c = some net' := Machine.ofPartial_next hloops.result
    rw [hsend, Option.some.injEq] at hnext
    exact hfreed _ h.fresh (hnext ▸ hloops.skbs)
  · obtain ⟨sock, hsock, hlo⟩ := hc.route
    obtain ⟨sock', hsock', hdev⟩ := hnic.route
    rw [hsock, Option.some.injEq] at hsock'
    rw [← hsock', hlo] at hdev
    cases hdev

/-- Of the two drivers `nic0` takes its packets over and `lo` does not, and a run of sends leaves no packet behind
exactly when none of them goes through `lo`. -/
theorem packets_owned_iff_not_looped :
    (∀ (net : Net pool) dev skb buff, dev = .lo ∨ dev = .nic → (net.devices dev).ops = dev.ownOps →
      net.skbs.get skb = some buff → buff.dev = some dev → (TakesOver drivers net skb ↔ dev = .nic)) ∧
    (∀ net : Net pool, Wired net → ∀ calls,
      (sendMachine drivers).Always (NoneLeaked net.skbs.fresh) (some net) calls ↔
        (sendMachine drivers).Along (fun st c => ¬ SendsToLo st c) (some net) calls) := by
  refine ⟨fun net dev skb buff hown hops hget hdev => ?_, fun net hwired calls => ?_⟩
  · rcases hown with rfl | rfl
    · exact iff_of_false (not_takesOver_lo drivers hops hget hdev) (by simp)
    · exact iff_of_true (takesOver_nic drivers hops hget hdev) rfl
  · have hkeep : ∀ (st : Option (Net pool)) c, (∃ net', st = some net' ∧ SendInv net.skbs.fresh net') →
        ¬ SendsToLo st c → ∃ net', (sendMachine drivers).next st c = some net' ∧ SendInv net.skbs.fresh net' := by
      rintro _ c ⟨net', rfl, hinv⟩ hc
      exact hinv.next drivers fun hlo => hc ⟨net', rfl, hlo⟩
    have hbreak : ∀ (st : Option (Net pool)) c, (∃ net', st = some net' ∧ SendInv net.skbs.fresh net') →
        ¬ ¬ SendsToLo st c → ¬ NoneLeaked net.skbs.fresh ((sendMachine drivers).next st c) := by
      rintro _ c ⟨net', rfl, hinv⟩ hc
      obtain ⟨net'', hsome, hlo⟩ := not_not.mp hc
      cases hsome
      exact hinv.leaks drivers hlo
    refine Machine.always_iff_along ?_ hkeep hbreak ⟨net, rfl, .start hwired⟩
    rintro _ ⟨net', rfl, hinv⟩
    exact ⟨net', rfl, hinv.freed⟩

/-- The stack with both devices, an open socket and a packet of 20 bytes for `nic0`. -/
def bootNet : Net 0 :=
  let booted := (novaLoopbackInit noDrivers (novaNetworkInit (zeroNet 0)).2).bind fun r => novaNicStubInit noDrivers r.2
  ((netMachine noDrivers).exec (booted.map Prod.snd)
    [.socket 2 1 6 true, .allocSkb 20 true true, .fillSkb 0 (List.replicate 20 66) 20 (some .nic)]).getD (zeroNet 0)

/-- One byte is sent through the open socket, and its packet stays allocated. -/
theorem loopback_leaks_packet :
    ¬ NoneLeaked bootNet.skbs.fresh ((sendMachine noDrivers).exec (some bootNet) [⟨1, some fun _ => 65, 1, true, true⟩]) := by
  rintro ⟨net, hnet, hfreed⟩
  have hlive : (((sendMachine noDrivers).exec (some bootNet) [⟨1, some fun _ => 65, 1, true, true⟩]).bind fun net =>
      net.skbs.get bootNet.skbs.fresh).isSome := by decide +kernel
  rw [hnet, Option.bind_some] at hlive
  exact hfreed _ (Nat.le_refl _) (Option.isSome_iff_ne_none.mp hlive)

theorem bootNet_wired : Wired bootNet := by
  have hlo : Builtin bootNet.devices .lo := ⟨.inl rfl, .inr (by decide +kernel)⟩
  have hnic : Builtin bootNet.devices .nic := ⟨.inr rfl, .inr (by decide +kernel)⟩
  have hentry : ∀ fd, bootNet.entry fd = if fd = 1 then some 0 else none := by decide +kernel
  have hsocket : bootNet.sockets.get 0 = some ⟨2, 1, 6, 0, 0, some .lo⟩ := by decide +kernel
  have hregistry : bootNet.registry = some .nic := by decide +kernel
  have hnext : (bootNet.devices .nic).next = some .lo := by decide +kernel
  have hlast : (bootNet.devices .lo).next = none := by decide +kernel
  refine ⟨fun fd sock hfd => ?_, [.nic, .lo], ⟨hregistry, hnext, hlast⟩, by decide, ?_⟩
  · rw [hentry fd] at hfd
    split at hfd
    · cases hfd
      refine ⟨_, hsocket, fun dev hdev => ?_⟩
      cases hdev
      exact hlo
    · cases hfd
  · rw [List.forall_mem_cons, List.forall_mem_singleton]
    exact ⟨hnic, hlo⟩

theorem packets_owned_boot :
    TakesOver noDrivers bootNet 0 ∧
      (sendMachine noDrivers).Always (NoneLeaked bootNet.skbs.fresh) (some bootNet)
        [⟨1, none, 4, true, true⟩, ⟨1, some fun _ => 65, 0, true, true⟩, ⟨1, some fun _ => 65, 4, true, false⟩] := by
  obtain ⟨buff, hget, hdev⟩ : ∃ buff, bootNet.skbs.get 0 = some buff ∧ buff.dev = some .nic := by
    rw [← Option.bind_eq_some_iff]
    decide +kernel
  refine ⟨((packets_owned_iff_not_looped noDrivers).1 bootNet .nic 0 buff (.inr rfl) (by decide +kernel) hget hdev).mpr rfl,
    ((packets_owned_iff_not_looped noDrivers).2 bootNet bootNet_wired _).mpr ⟨?_, ?_, ?_, trivial⟩⟩
  · rintro ⟨_, _, h⟩
    exact h.buf rfl
  · rintro ⟨_, _, h⟩
    exact h.len rfl
  · rintro ⟨_, _, h⟩
    exact absurd h.memory.2 (by decide)

end NovaOs.Network
