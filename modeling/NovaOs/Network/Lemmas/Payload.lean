import NovaOs.Network.Lemmas.Hooks
import NovaOs.Network.Lemmas.Sockets

/-!
# No call reads the bytes of a packet

In states that differ in bytes of packets alone, a call answers the same and leaves such states again.
-/

namespace NovaOs.Network

open Lib

variable {pool : Nat} {drivers : Nat → NovaNetDeviceOps pool} {net net' : Net pool} {α β : Type*}

/-! ## Packets without their bytes -/

def NovaSkBuff.erase (buff : NovaSkBuff pool) : NovaSkBuff pool := { buff with data := [] }

/-- The state without the bytes of its packets. -/
def Net.erase (net : Net pool) : Net pool := { net with skbs := net.skbs.map NovaSkBuff.erase }

/-- The states differ in bytes of packets at most. -/
def Net.Alike (net net' : Net pool) : Prop := net.erase = net'.erase

/-- Neither call has a result, or both have the same and leave states that are alike. -/
inductive SameResult : Option (α × Net pool) → Option (α × Net pool) → Prop where
  | none : SameResult none none
  | some {a net net'} (h : Net.Alike net net') : SameResult (some (a, net)) (some (a, net'))

/-- The call does not depend on the bytes of packets. -/
def Oblivious (f : Net pool → Option (α × Net pool)) : Prop :=
  ∀ net net', Net.Alike net net' → SameResult (f net) (f net')

/-- The hooks of the other drivers do not look into packets. -/
structure ObliviousDrivers (drivers : Nat → NovaNetDeviceOps pool) : Prop where
  openDev : ∀ n hook, (drivers n).openDev = some hook → ∀ dev, Oblivious fun net => hook net dev
  startXmit : ∀ n hook, (drivers n).startXmit = some hook → ∀ dev skb, Oblivious fun net => hook net dev skb

namespace SameResult

variable {r r' : Option (α × Net pool)}

theorem map (h : SameResult r r') (f : α → β) :
    SameResult (r.map fun r => (f r.1, r.2)) (r'.map fun r => (f r.1, r.2)) := by
  cases h with
  | none => exact .none
  | some h => exact .some h

theorem bind (h : SameResult r r') {g g' : α × Net pool → Option (β × Net pool)}
    (hg : ∀ a net net', Net.Alike net net' → SameResult (g (a, net)) (g' (a, net'))) :
    SameResult (r.bind g) (r'.bind g') := by
  cases h with
  | none => exact .none
  | some h => exact hg _ _ _ h

theorem void_cases {n? n?' : Option (Net pool)}
    (h : SameResult (n?.map fun net => ((), net)) (n?'.map fun net => ((), net))) :
    (n? = Option.none ∧ n?' = Option.none) ∨
      ∃ n n', n? = Option.some n ∧ n?' = Option.some n' ∧ n.Alike n' := by
  cases n? with
  | none =>
      cases n?' with
      | none => exact .inl ⟨rfl, rfl⟩
      | some n' => cases h
  | some n =>
      cases n?' with
      | none => cases h
      | some n' =>
          cases h with
          | some h => exact .inr ⟨n, n', rfl, rfl, h⟩

theorem map_erase (h : SameResult r r') : r.map (Prod.map id Net.erase) = r'.map (Prod.map id Net.erase) := by
  cases h with
  | none => rfl
  | some h => exact congrArg (fun net => Option.some (_, net)) h

/-- The call does with the packets closed what it does with them open. -/
theorem of_erase {f : Net pool → Option (α × Net pool)}
    (h : ∀ net, f net.erase = (f net).map (Prod.map id Net.erase)) : Oblivious f := by
  intro net net' halike
  have hsame : (f net).map (Prod.map id Net.erase) = (f net').map (Prod.map id Net.erase) := by
    rw [← h, ← h, halike]
  cases hf : f net with
  | none =>
      cases hf' : f net' with
      | none => exact .none
      | some r' =>
          rw [hf, hf'] at hsame
          cases hsame
  | some r =>
      cases hf' : f net' with
      | none =>
          rw [hf, hf'] at hsame
          cases hsame
      | some r' =>
          rw [hf, hf'] at hsame
          obtain ⟨a, n⟩ := r
          obtain ⟨a', n'⟩ := r'
          obtain ⟨rfl, hn⟩ := Prod.mk.inj (Option.some.inj hsame)
          exact .some hn

end SameResult

namespace Net.Alike

theorem refl (net : Net pool) : net.Alike net := rfl

/-- What is read of the state besides bytes of packets. -/
theorem read {γ : Type*} (h : net.Alike net') (view : Net pool → γ) (hview : ∀ net, view net.erase = view net) :
    view net = view net' := by
  rw [← hview net, ← hview net', h]

/-- A write that does not look into packets. -/
theorem write (h : net.Alike net') (f : Net pool → Net pool) (hf : ∀ net, (f net).erase = f net.erase) :
    (f net).Alike (f net') := by
  rw [Net.Alike, hf, hf, h]

theorem devices (h : net.Alike net') : net.devices = net'.devices := h.read (fun net => net.devices) fun _ => rfl

theorem sockets (h : net.Alike net') : net.sockets = net'.sockets := h.read (fun net => net.sockets) fun _ => rfl

theorem lookup (h : net.Alike net') (sockfd : Int) : novaSocketLookup net sockfd = novaSocketLookup net' sockfd :=
  h.read (fun net => novaSocketLookup net sockfd) fun _ => rfl

theorem recv (h : net.Alike net') (sockfd buf len) : novaRecv net sockfd buf len = novaRecv net' sockfd buf len :=
  h.read (fun net => novaRecv net sockfd buf len) fun _ => rfl

theorem searchName (h : net.Alike net') (name) : net.searchName name = net'.searchName name :=
  h.read (fun net => net.searchName name) fun _ => rfl

theorem startXmit (h : net.Alike net') (dev?) : net.startXmit drivers dev? = net'.startXmit drivers dev? :=
  h.read (fun net => net.startXmit drivers dev?) fun _ => rfl

theorem setDevice (h : net.Alike net') (dev device) : (net.setDevice dev device).Alike (net'.setDevice dev device) :=
  h.write (fun net => net.setDevice dev device) fun _ => rfl

theorem setSocket (h : net.Alike net') (sock socket) : (net.setSocket sock socket).Alike (net'.setSocket sock socket) :=
  h.write (fun net => net.setSocket sock socket) fun _ => rfl

theorem countTx (h : net.Alike net') (dev len) : (net.countTx dev len).Alike (net'.countTx dev len) :=
  h.write (fun net => net.countTx dev len) fun _ => rfl

theorem countRx (h : net.Alike net') (dev len) : (net.countRx dev len).Alike (net'.countRx dev len) :=
  h.write (fun net => net.countRx dev len) fun _ => rfl

theorem skbs_map (h : net.Alike net') : net.skbs.map NovaSkBuff.erase = net'.skbs.map NovaSkBuff.erase :=
  congrArg Net.skbs h

theorem fresh (h : net.Alike net') : net.skbs.fresh = net'.skbs.fresh := h.read (fun net => net.skbs.fresh) fun _ => rfl

theorem of_skbs (h : net.Alike net') {skbs skbs' : Heap (NovaSkBuff pool)}
    (hskbs : skbs.map NovaSkBuff.erase = skbs'.map NovaSkBuff.erase) :
    Net.Alike { net with skbs := skbs } { net' with skbs := skbs' } := by
  have hwrite : ∀ (net : Net pool) (skbs : Heap (NovaSkBuff pool)), Net.erase { net with skbs := skbs } =
      { net.erase with skbs := skbs.map NovaSkBuff.erase } := fun _ _ => rfl
  rw [Net.Alike, hwrite net, hwrite net', hskbs, h]

/-- The packets of alike states are the same but for their bytes. -/
theorem get_cases (h : net.Alike net') (skb : SkbPtr) :
    (net.skbs.get skb = none ∧ net'.skbs.get skb = none) ∨
    ∃ buff data, net.skbs.get skb = some buff ∧ net'.skbs.get skb = some { buff with data := data } := by
  have hget : (net.skbs.get skb).map NovaSkBuff.erase = (net'.skbs.get skb).map NovaSkBuff.erase := by
    rw [← Heap.get_map, ← Heap.get_map, h.skbs_map]
  cases hb : net.skbs.get skb with
  | none =>
      rw [hb] at hget
      exact .inl ⟨rfl, Option.map_eq_none_iff.mp hget.symm⟩
  | some buff =>
      rw [hb] at hget
      obtain ⟨buff', hb', heq⟩ := Option.map_eq_some_iff.mp hget.symm
      obtain ⟨data, len, headroom, tailroom, dev, hash, protocol, priority, error⟩ := buff
      obtain ⟨data', len', headroom', tailroom', dev', hash', protocol', priority', error'⟩ := buff'
      cases heq
      exact .inr ⟨_, data', rfl, hb'⟩

theorem setSkb (h : net.Alike net') (skb : SkbPtr) {buff buff' : NovaSkBuff pool} (hbuff : buff.erase = buff'.erase) :
    (net.setSkb skb buff).Alike (net'.setSkb skb buff') :=
  h.of_skbs (by rw [Heap.map_write, Heap.map_write, h.skbs_map, hbuff])

end Net.Alike

/-! ## Packets -/

theorem oblivious_freeSkb (skb? : Option SkbPtr) :
    Oblivious fun net : Net pool => (novaFreeSkb net skb?).map fun net => ((), net) := by
  refine .of_erase fun net => ?_
  cases skb? with
  | none => rfl
  | some skb =>
      simp only [novaFreeSkb, Net.erase, Heap.map_free, Option.map_map]
      rfl

theorem oblivious_allocSkb (size memSkb memData) :
    Oblivious fun net : Net pool => novaAllocSkb net size memSkb memData := by
  intro net net' h
  cases memSkb with
  | false => exact .some h
  | true =>
      have halloc : ∀ buff : NovaSkBuff pool,
          (net.skbs.alloc buff).map NovaSkBuff.erase = (net'.skbs.alloc buff).map NovaSkBuff.erase := fun buff => by
        rw [Heap.map_alloc, Heap.map_alloc, h.skbs_map]
      simp only [novaAllocSkb, ↓reduceIte, h.fresh]
      generalize (if size = 0 then 1 else size.toNat) = bytes
      by_cases hmem : calloc memData bytes
      · rw [if_pos hmem, if_pos hmem]
        exact .some (h.of_skbs (halloc _))
      · rw [if_neg hmem, if_neg hmem]
        have hfree := (oblivious_freeSkb (some net'.skbs.fresh) _ _ (h.of_skbs (halloc
          ⟨List.replicate bytes 0, size, 0, 0, none, 0, 0, 0, 0⟩))).map fun _ => (none : Option SkbPtr)
        simp only [novaFreeSkb, Option.map_map] at hfree
        exact hfree

theorem oblivious_receiveSkb (skb? : Option SkbPtr) : Oblivious fun net : Net pool => novaNetifReceiveSkb net skb? := by
  intro net net' h
  cases skb? with
  | none => exact .some h
  | some skb =>
      simp only [novaNetifReceiveSkb]
      rcases h.get_cases skb with ⟨hget, hget'⟩ | ⟨buff, data, hget, hget'⟩
      · rw [hget, hget']
        exact .none
      · rw [hget, hget']
        simp only [Option.map_some]
        cases buff.dev with
        | none => exact .some (h.setSkb skb rfl)
        | some dev => exact .some ((h.countRx dev buff.len).setSkb skb rfl)

theorem oblivious_loStartXmit (dev? : Option (DevPtr pool)) (skb?) :
    Oblivious fun net => loStartXmit net dev? skb? := by
  intro net net' h
  cases skb? with
  | none => exact .some h
  | some skb =>
      cases dev? with
      | none => exact .none
      | some dev =>
          simp only [loStartXmit]
          rcases h.get_cases skb with ⟨hget, hget'⟩ | ⟨buff, data, hget, hget'⟩
          · rw [hget, hget']
            exact .none
          · rw [hget, hget']
            exact (oblivious_receiveSkb (some skb) _ _ ((h.countTx dev buff.len).countRx dev buff.len)).map fun _ => 0

theorem oblivious_nicStartXmit (dev? : Option (DevPtr pool)) (skb?) :
    Oblivious fun net => nicStartXmit net dev? skb? := by
  intro net net' h
  cases dev? with
  | none => exact .some h
  | some dev =>
      cases skb? with
      | none => exact .some h
      | some skb =>
          simp only [nicStartXmit]
          rcases h.get_cases skb with ⟨hget, hget'⟩ | ⟨buff, data, hget, hget'⟩
          · rw [hget, hget']
            exact .none
          · rw [hget, hget']
            have hfree := (oblivious_freeSkb (some skb) _ _ (h.countTx dev buff.len)).map fun _ => (0 : Int)
            rwa [Option.map_map, Option.map_map] at hfree

theorem ObliviousDrivers.hook (hdrivers : ObliviousDrivers drivers) {net₀ : Net pool} {dev₀ hook}
    (hhook : net₀.startXmit drivers dev₀ = some hook) (dev? skb?) : Oblivious fun net => hook net dev? skb? := by
  rcases Net.startXmit_eq_some hhook with rfl | rfl | ⟨n, hother⟩
  · exact oblivious_loStartXmit dev? skb?
  · exact oblivious_nicStartXmit dev? skb?
  · exact hdrivers.startXmit n hook hother dev? skb?

theorem oblivious_devQueueXmit (hdrivers : ObliviousDrivers drivers) (skb? : Option SkbPtr) :
    Oblivious fun net => novaDevQueueXmit drivers net skb? := by
  intro net net' h
  cases skb? with
  | none => exact .some h
  | some skb =>
      simp only [novaDevQueueXmit]
      rcases h.get_cases skb with ⟨hget, hget'⟩ | ⟨buff, data, hget, hget'⟩
      · rw [hget, hget']
        exact .none
      · rw [hget, hget']
        simp only [Option.bind_some, h.startXmit]
        cases hhook : net'.startXmit drivers buff.dev with
        | none => exact .some h
        | some hook => exact hdrivers.hook hhook buff.dev (some skb) net net' h

/-! ## Sockets -/

theorem oblivious_sendSkb (hdrivers : ObliviousDrivers drivers) (skb len) :
    Oblivious fun net => novaSendSkb drivers net skb len := by
  intro net net' h
  refine (oblivious_devQueueXmit hdrivers (some skb) net net' h).bind fun result n n' hn => ?_
  by_cases hresult : result ≠ 0
  · have hfree := (oblivious_freeSkb (some skb) n n' hn).map fun _ => (-1 : Int)
    rw [Option.map_map, Option.map_map] at hfree
    rw [if_pos hresult, if_pos hresult]
    exact hfree
  · rw [if_neg hresult, if_neg hresult]
    exact .some hn

/-- Routing a socket looks at no packet. -/
theorem oblivious_routeSocket (sock : SockPtr) :
    Oblivious fun net : Net pool => (net.routeSocket sock).map fun net => ((), net) := by
  refine .of_erase fun net => ?_
  have hget : net.erase.sockets.get sock = net.sockets.get sock := rfl
  simp only [Net.routeSocket, hget]
  cases net.sockets.get sock with
  | none => rfl
  | some socket =>
      simp only [Option.bind_some]
      cases socket.dev with
      | some dev => rfl
      | none =>
          have hfind : novaNetdevFind net.erase (some "lo") = novaNetdevFind net (some "lo") := rfl
          simp only [hfind, Option.map_map]
          rfl

/-- The send without its bytes. -/
def SendCall.blur (c : SendCall) : SendCall := { c with buf := c.buf.map fun _ _ => 0 }

theorem sameResult_sendPacket (hdrivers : ObliviousDrivers drivers) (h : net.Alike net') {c c' : SendCall}
    (hc : c.blur = c'.blur) (buf buf' dev) :
    SameResult (novaSendPacket drivers net buf c dev) (novaSendPacket drivers net' buf' c' dev) := by
  obtain ⟨sockfd, sent, len, memSkb, memData⟩ := c
  obtain ⟨sockfd', sent', len', memSkb', memData'⟩ := c'
  obtain ⟨rfl, hsent, rfl, rfl, rfl⟩ := SendCall.mk.inj hc
  refine (oblivious_allocSkb len memSkb memData net net' h).bind fun skb? n n' hn => ?_
  cases skb? with
  | none => exact .some hn
  | some skb =>
      dsimp only
      rcases hn.get_cases skb with ⟨hget, hget'⟩ | ⟨buff, data, hget, hget'⟩
      · rw [hget, hget']
        exact .none
      · rw [hget, hget']
        exact oblivious_sendSkb hdrivers skb len _ _ (hn.setSkb skb rfl)

theorem sameResult_send (hdrivers : ObliviousDrivers drivers) (h : net.Alike net') {c c' : SendCall}
    (hc : c.blur = c'.blur) : SameResult (novaSend drivers net c) (novaSend drivers net' c') := by
  have hpacket := fun buf buf' dev => fun n n' (hn : Net.Alike n n') =>
    sameResult_sendPacket hdrivers hn hc buf buf' dev
  obtain ⟨sockfd, sent, len, memSkb, memData⟩ := c
  obtain ⟨sockfd', sent', len', memSkb', memData'⟩ := c'
  obtain ⟨rfl, hsent, rfl, rfl, rfl⟩ := SendCall.mk.inj hc
  simp only [novaSend, h.lookup]
  cases novaSocketLookup net' sockfd with
  | none => exact .some h
  | some sock =>
      cases sent with
      | none =>
          obtain rfl : sent' = none := Option.map_eq_none_iff.mp hsent.symm
          exact .some h
      | some buf =>
          obtain ⟨buf', rfl, _⟩ := Option.map_eq_some_iff.mp hsent.symm
          dsimp only
          by_cases hlen : len = 0
          · rw [if_pos hlen, if_pos hlen]
            exact .some h
          · rw [if_neg hlen, if_neg hlen]
            have hrouted := oblivious_routeSocket sock net net' h
            rcases hrouted.void_cases with ⟨hroute, hroute'⟩ | ⟨n, n', hroute, hroute', hn⟩
            · rw [hroute, hroute']
              exact .none
            · rw [hroute, hroute', Option.bind_some, Option.bind_some, hn.sockets]
              cases n'.sockets.get sock with
              | none => exact .none
              | some socket =>
                  simp only [Option.bind_some, hn.startXmit]
                  by_cases hxmit : (n'.startXmit drivers socket.dev).isNone
                  · rw [if_pos hxmit, if_pos hxmit]
                    exact .some hn
                  · rw [if_neg hxmit, if_neg hxmit]
                    exact hpacket buf buf' socket.dev n n' hn

/-! ## The other calls -/

theorem awake_erase (net : Net pool) : net.erase.awake = net.awake.erase := by
  have hinit : net.erase.initialized = net.initialized := rfl
  unfold Net.awake
  rw [hinit]
  cases net.initialized with
  | false => rfl
  | true => rfl

theorem oblivious_socket (domain type protocol memory) :
    Oblivious fun net : Net pool => novaSocket net domain type protocol memory := by
  refine .of_erase fun net => ?_
  have hdef : ∀ net : Net pool, novaSocket net domain type protocol memory =
      if domain ∉ novaDomains then some (-1, net.awake)
      else if type ∉ novaSockTypes then some (-1, net.awake)
      else if h : net.awake.nextSocketFd ≥ 64 then some (-1, net.awake)
      else if memory then
        (net.awake.searchName "lo").map fun dev =>
          (((⟨net.awake.nextSocketFd, not_le.mp h⟩ : Fin 64).val : Int),
            net.awake.openSocket ⟨net.awake.nextSocketFd, not_le.mp h⟩ ⟨domain, type, protocol, 0, 0, dev⟩)
      else some (-1, { net.awake with nextSocketFd := net.awake.nextSocketFd + 1 }) := fun _ => rfl
  rw [hdef net.erase, hdef net]
  simp only [awake_erase]
  by_cases hdomain : domain ∉ novaDomains
  · rw [if_pos hdomain, if_pos hdomain]
    rfl
  · rw [if_neg hdomain, if_neg hdomain]
    by_cases htype : type ∉ novaSockTypes
    · rw [if_pos htype, if_pos htype]
      rfl
    · rw [if_neg htype, if_neg htype]
      by_cases hfull : net.awake.nextSocketFd ≥ 64
      · have hfull' : net.awake.erase.nextSocketFd ≥ 64 := hfull
        rw [dif_pos hfull, dif_pos hfull']
        rfl
      · have hfull' : ¬ net.awake.erase.nextSocketFd ≥ 64 := hfull
        rw [dif_neg hfull, dif_neg hfull']
        cases memory with
        | false => rfl
        | true =>
            have hsearch : net.awake.erase.searchName "lo" = net.awake.searchName "lo" := rfl
            simp only [↓reduceIte, hsearch, Option.map_map]
            rfl

theorem oblivious_connect (sockfd) : Oblivious fun net : Net pool => novaConnect net sockfd := by
  intro net net' h
  simp only [novaConnect, h.lookup]
  cases novaSocketLookup net' sockfd with
  | none => exact .some h
  | some sock =>
      simp only [h.sockets]
      cases net'.sockets.get sock with
      | none => exact .none
      | some socket =>
          have hset := h.setSocket sock { socket with state := 1 }
          have hroute := (oblivious_routeSocket sock _ _ hset).map fun _ => (0 : Int)
          rwa [Option.map_map, Option.map_map] at hroute

theorem oblivious_close (sockfd) : Oblivious fun net : Net pool => novaClose net sockfd := by
  refine .of_erase fun net => ?_
  simp only [novaClose]
  cases entryOf sockfd with
  | none => rfl
  | some fd =>
      have hentry : net.erase.entry fd = net.entry fd := rfl
      simp only [hentry]
      cases net.entry fd with
      | none => rfl
      | some sock =>
          simp only [Option.map_map]
          rfl

theorem oblivious_setState (sockfd state) : Oblivious fun net : Net pool => net.setState sockfd state := by
  intro net net' h
  simp only [Net.setState, h.lookup]
  cases novaSocketLookup net' sockfd with
  | none => exact .some h
  | some sock =>
      simp only [h.sockets]
      cases net'.sockets.get sock with
      | none => exact .none
      | some socket => exact .some (h.setSocket sock _)

theorem sameResult_checkSocket (h : net.Alike net') (sockfd result : Int) :
    SameResult (some (net.checkSocket sockfd result, net)) (some (net'.checkSocket sockfd result, net')) := by
  rw [Net.checkSocket, Net.checkSocket, h.lookup]
  exact .some h

/-! ## The registry of devices -/

theorem ObliviousDrivers.openHook (hdrivers : ObliviousDrivers drivers) {net₀ : Net pool} {dev₀ hook}
    (hhook : net₀.openHook drivers dev₀ = some hook) (dev) : Oblivious fun net => hook net dev := by
  obtain ⟨call, rfl, hcall⟩ := Net.openHook_eq_some hhook
  have hoblivious : Oblivious fun net => call net dev := by
    rcases hcall with rfl | rfl | ⟨n, hother⟩
    · exact .of_erase fun _ => rfl
    · exact .of_erase fun _ => rfl
    · exact hdrivers.openDev n call hother dev
  intro net net' h
  simp only [recorded, h.read (fun net => net.hookCalls) fun _ => rfl]
  generalize hr : call net dev = r, hr' : call net' dev = r'
  have hsame : SameResult r r' := by
    rw [← hr, ← hr']
    exact hoblivious net net' h
  cases hsame with
  | none => exact .none
  | some hsame => exact .some (hsame.write (fun net => { net with hookCalls := _ }) fun _ => rfl)

/-- What a registration ends with. -/
def Net.callOpen (net : Net pool) (dev : DevPtr pool) :
    Option (Net pool → DevPtr pool → Option (Int × Net pool)) → Option (Int × Net pool)
  | none => some (0, net)
  | some openDev => (openDev net dev).map fun r => (0, r.2)

theorem register_eq {dev : DevPtr pool} (hname : (net.devices dev).name ≠ "")
    (hsearch : net.searchName (net.devices dev).name = some none) :
    novaNetdevRegister drivers net (some dev) =
      (net.link dev).callOpen dev ((net.link dev).openHook drivers dev) := by
  simp only [novaNetdevRegister, hname, hsearch, ↓reduceIte, Option.bind_some]
  rfl

theorem oblivious_register (hdrivers : ObliviousDrivers drivers) (dev? : Option (DevPtr pool)) :
    Oblivious fun net => novaNetdevRegister drivers net dev? := by
  intro net net' h
  cases dev? with
  | none => exact .some h
  | some dev =>
      have hdevices : net.devices dev = net'.devices dev := congrFun h.devices dev
      have hsearch := h.searchName (net'.devices dev).name
      by_cases hname : (net'.devices dev).name = ""
      · simp only [novaNetdevRegister, hdevices, hname, ↓reduceIte]
        exact .some h
      · cases hsearch' : net'.searchName (net'.devices dev).name with
        | none =>
            simp only [novaNetdevRegister, hdevices, hname, hsearch, hsearch', ↓reduceIte, Option.bind_none]
            exact .none
        | some found =>
            cases found with
            | some other =>
                simp only [novaNetdevRegister, hdevices, hname, hsearch, hsearch', ↓reduceIte, Option.bind_some]
                exact .some h
            | none =>
                have hlink : (net.link dev).Alike (net'.link dev) := h.write (fun net => net.link dev) fun _ => rfl
                have hhook : (net.link dev).openHook drivers dev = (net'.link dev).openHook drivers dev := by
                  rw [Net.openHook, Net.openHook, hlink.devices]
                have heq : novaNetdevRegister drivers net (some dev) = _ :=
                  register_eq (by rwa [hdevices]) (by rw [hdevices, hsearch, hsearch'])
                simp only [heq, register_eq hname hsearch', hhook]
                cases hopen : (net'.link dev).openHook drivers dev with
                | none => exact .some hlink
                | some openDev => exact (hdrivers.openHook hopen dev _ _ hlink).map fun _ => 0

theorem oblivious_unregister (dev? : Option (DevPtr pool)) :
    Oblivious fun net : Net pool => novaNetdevUnregister net dev? := by
  refine .of_erase fun net => ?_
  cases dev? with
  | none => rfl
  | some dev =>
      have hlocate : locate net.erase.next dev (Fintype.card (DevPtr pool)) none net.erase.registry =
          locate net.next dev (Fintype.card (DevPtr pool)) none net.registry := rfl
      simp only [novaNetdevUnregister, hlocate]
      cases locate net.next dev (Fintype.card (DevPtr pool)) none net.registry with
      | none => rfl
      | some found =>
          cases found with
          | none => rfl
          | some prev =>
              cases prev with
              | none => rfl
              | some prev => rfl

theorem clearNext_erase (fuel : Nat) (ptr : Option (DevPtr pool)) (net : Net pool) :
    Net.clearNext fuel ptr net.erase = (Net.clearNext fuel ptr net).map Net.erase := by
  induction fuel generalizing ptr net with
  | zero =>
      cases ptr with
      | none => rfl
      | some dev => rfl
  | succ fuel ih =>
      cases ptr with
      | none => rfl
      | some dev => exact ih (net.next dev) (net.setNext dev none)

theorem oblivious_shutdown : Oblivious fun net : Net pool => novaNetworkShutdown net := by
  refine .of_erase fun net => ?_
  have hregistry : net.erase.registry = net.registry := rfl
  simp only [novaNetworkShutdown, hregistry, clearNext_erase, Option.map_map]
  rfl

theorem oblivious_registryStep (hdrivers : ObliviousDrivers drivers) (op : RegistryOp pool) :
    Oblivious fun net => registryStep drivers net op := by
  intro net net' h
  cases op with
  | init => exact .some (h.write (fun net => (novaNetworkInit net).2) fun _ => rfl)
  | shutdown => exact (oblivious_shutdown net net' h).map _
  | register dev => exact (oblivious_register hdrivers dev net net' h).map _
  | unregister dev => exact (oblivious_unregister dev net net' h).map _
  | find name =>
      have hfind : novaNetdevFind net name = novaNetdevFind net' name :=
        h.read (fun net => novaNetdevFind net name) fun _ => rfl
      simp only [registryStep, hfind]
      cases novaNetdevFind net' name with
      | none => exact .none
      | some dev => exact .some h
  | edit n device => exact .some (h.write (fun net => net.setDevice (.other n) device) fun _ => rfl)

theorem oblivious_bootStep (hdrivers : ObliviousDrivers drivers) (op : BootOp pool) :
    Oblivious fun net => bootStep drivers net op := by
  intro net net' h
  cases op with
  | registry op => exact oblivious_registryStep hdrivers op net net' h
  | loopbackInit => exact (oblivious_register hdrivers (some .lo) _ _ (h.setDevice .lo _)).map _
  | nicStubInit => exact (oblivious_register hdrivers (some .nic) _ _ (h.setDevice .nic _)).map _

end NovaOs.Network
