import NovaOs.Network.Lemmas.Payload

/-!
# What the bytes of packets are for

Two runs of calls that differ in bytes of packets alone are answered alike, the bytes that are received included, and
leave the same state but for the bytes of the packets in it.
-/

namespace NovaOs.Network

open Lib

variable {pool : Nat} {drivers : Nat → NovaNetDeviceOps pool} {net net' : Net pool}

/-! ## The whole interface -/

/-- The calls of the network API: those of a boot sequence, on sockets, and on packets. -/
inductive NetworkOp (pool : Nat) where
  | boot (op : BootOp pool)
  | socket (op : SocketOp)
  | packet (op : NetOp pool)

/-- A call on a socket also answers what the buffer of a receive holds after it. -/
inductive NetworkAnswer (pool : Nat) where
  | boot (answer : RegistryAnswer pool)
  | socket (result : Int) (received : Option (Nat → UInt8))
  | packet (answer : NetAnswer)

def Net.received (net : Net pool) : SocketOp → Option (Nat → UInt8)
  | .recv sockfd buf len => (novaRecv net sockfd buf len).2
  | _ => none

def networkStep (drivers : Nat → NovaNetDeviceOps pool) (net : Net pool) :
    NetworkOp pool → Option (NetworkAnswer pool × Net pool)
  | .boot op => (bootStep drivers net op).map fun r => (.boot r.1, r.2)
  | .socket op => (socketStep drivers net op).map fun r => (.socket r.1 (net.received op), r.2)
  | .packet op => (netStep drivers net op).map fun r => (.packet r.1, r.2)

def networkMachine (drivers : Nat → NovaNetDeviceOps pool) :
    Machine (Option (Net pool)) (NetworkOp pool) (Option (NetworkAnswer pool)) := .ofPartial (networkStep drivers)

def SocketOp.blur : SocketOp → SocketOp
  | .send c => .send c.blur
  | op => op

def NetOp.blur : NetOp pool → NetOp pool
  | .send c => .send c.blur
  | .fillSkb skb _ len dev => .fillSkb skb [] len dev
  | op => op

/-- The call without the bytes that it puts into a packet. -/
def NetworkOp.blur : NetworkOp pool → NetworkOp pool
  | .boot op => .boot op
  | .socket op => .socket op.blur
  | .packet op => .packet op.blur

theorem SocketOp.blur_eq {op op' : SocketOp} (h : op.blur = op'.blur) :
    op = op' ∨ ∃ c c', op = .send c ∧ op' = .send c' ∧ c.blur = c'.blur := by
  cases op with
  | send c =>
      cases op' with
      | send c' => exact .inr ⟨c, c', rfl, rfl, SocketOp.send.inj h⟩
      | _ => cases h
  | _ =>
      cases op' with
      | send c' => cases h
      | _ => exact .inl h

theorem NetOp.blur_eq {op op' : NetOp pool} (h : op.blur = op'.blur) :
    op = op' ∨ (∃ c c', op = .send c ∧ op' = .send c' ∧ c.blur = c'.blur) ∨
      ∃ skb data data' len dev, op = .fillSkb skb data len dev ∧ op' = .fillSkb skb data' len dev := by
  cases op with
  | send c =>
      cases op' with
      | send c' => exact .inr (.inl ⟨c, c', rfl, rfl, NetOp.send.inj h⟩)
      | _ => cases h
  | fillSkb skb data len dev =>
      cases op' with
      | fillSkb skb' data' len' dev' =>
          obtain ⟨rfl, _, rfl, rfl⟩ := NetOp.fillSkb.inj h
          exact .inr (.inr ⟨skb, data, data', len, dev, rfl, rfl⟩)
      | _ => cases h
  | _ =>
      cases op' with
      | send c' => cases h
      | fillSkb skb data len dev => cases h
      | _ => exact .inl h

theorem sameResult_socketStep (hdrivers : ObliviousDrivers drivers) (h : net.Alike net') {op op' : SocketOp}
    (hop : op.blur = op'.blur) : SameResult (socketStep drivers net op) (socketStep drivers net' op') := by
  rcases SocketOp.blur_eq hop with rfl | ⟨c, c', rfl, rfl, hc⟩
  · cases op with
    | socket domain type protocol memory => exact oblivious_socket domain type protocol memory net net' h
    | bind sockfd => exact sameResult_checkSocket h sockfd 0
    | connect sockfd => exact oblivious_connect sockfd net net' h
    | listen sockfd => exact oblivious_setState sockfd 2 net net' h
    | accept sockfd => exact sameResult_checkSocket h sockfd (-1)
    | send c => exact sameResult_send hdrivers h rfl
    | recv sockfd buf len =>
        simp only [socketStep, h.recv]
        exact .some h
    | shutdown sockfd => exact oblivious_setState sockfd 0 net net' h
    | getsockopt sockfd => exact sameResult_checkSocket h sockfd 0
    | setsockopt sockfd => exact sameResult_checkSocket h sockfd 0
    | close sockfd => exact oblivious_close sockfd net net' h
  · exact sameResult_send hdrivers h hc

theorem received_eq (h : net.Alike net') {op op' : SocketOp} (hop : op.blur = op'.blur) :
    net.received op = net'.received op' := by
  rcases SocketOp.blur_eq hop with rfl | ⟨c, c', rfl, rfl, hc⟩
  · cases op with
    | recv sockfd buf len => exact congrArg Prod.snd (h.recv sockfd buf len)
    | _ => rfl
  · rfl

theorem sameResult_netStep (hdrivers : ObliviousDrivers drivers) (h : net.Alike net') {op op' : NetOp pool}
    (hop : op.blur = op'.blur) : SameResult (netStep drivers net op) (netStep drivers net' op') := by
  have hfill : ∀ skb data data' len dev, SameResult (netStep drivers net (.fillSkb skb data len dev))
      (netStep drivers net' (.fillSkb skb data' len dev)) := by
    intro skb data data' len dev
    simp only [netStep]
    rcases h.get_cases skb with ⟨hget, hget'⟩ | ⟨buff, bytes, hget, hget'⟩
    · rw [hget, hget']
      exact .none
    · rw [hget, hget']
      exact .some (h.setSkb skb rfl)
  rcases NetOp.blur_eq hop with rfl | ⟨c, c', rfl, rfl, hc⟩ | ⟨skb, data, data', len, dev, rfl, rfl⟩
  · cases op with
    | socket domain type protocol memory => exact (oblivious_socket domain type protocol memory net net' h).map _
    | connect sockfd => exact (oblivious_connect sockfd net net' h).map _
    | send c => exact (sameResult_send hdrivers h rfl).map _
    | queueXmit skb => exact (oblivious_devQueueXmit hdrivers skb net net' h).map _
    | close sockfd => exact (oblivious_close sockfd net net' h).map _
    | allocSkb size memSkb memData => exact (oblivious_allocSkb size memSkb memData net net' h).map _
    | fillSkb skb data len dev => exact hfill skb data data len dev
    | freeSkb skb =>
        have hfree := (oblivious_freeSkb skb net net' h).map fun _ => NetAnswer.void
        rwa [Option.map_map, Option.map_map] at hfree
  · exact (sameResult_send hdrivers h hc).map _
  · exact hfill skb data data' len dev

theorem networkStep_respects (hdrivers : ObliviousDrivers drivers) :
    Machine.RespectsView (networkStep drivers) Net.erase NetworkOp.blur := by
  intro net net' op op' h hop
  have halike : net.Alike net' := h
  have hsame : SameResult (networkStep drivers net op) (networkStep drivers net' op') := by
    cases op with
    | boot op =>
        cases op' with
        | boot op' =>
            obtain rfl := NetworkOp.boot.inj hop
            exact (oblivious_bootStep hdrivers op net net' halike).map _
        | socket op' => cases hop
        | packet op' => cases hop
    | socket op =>
        cases op' with
        | boot op' => cases hop
        | socket op' =>
            have hop' := NetworkOp.socket.inj hop
            simp only [networkStep, received_eq halike hop']
            exact (sameResult_socketStep hdrivers halike hop').map fun result =>
              NetworkAnswer.socket result (net'.received op')
        | packet op' => cases hop
    | packet op =>
        cases op' with
        | boot op' => cases hop
        | socket op' => cases hop
        | packet op' => exact (sameResult_netStep hdrivers halike (NetworkOp.packet.inj hop)).map _
  exact hsame.map_erase

/-- Two runs of the same calls, but for the bytes that they put into packets, are answered alike, down to the bytes that
are received, and leave states that differ in bytes of packets at most. -/
theorem payload_never_read (hdrivers : ObliviousDrivers drivers) {net net' : Net pool} (hnet : net.Alike net')
    {ops ops' : List (NetworkOp pool)} (hops : ops.map NetworkOp.blur = ops'.map NetworkOp.blur) :
    ((networkMachine drivers).trace (some net) ops).map Prod.snd =
        ((networkMachine drivers).trace (some net') ops').map Prod.snd ∧
      ((networkMachine drivers).exec (some net) ops).map Net.erase =
        ((networkMachine drivers).exec (some net') ops').map Net.erase := by
  have hstart : (some net).map Net.erase = (some net').map Net.erase := congrArg some hnet
  exact (networkStep_respects hdrivers).run hstart hops

theorem noDrivers_oblivious : ObliviousDrivers (noDrivers : Nat → NovaNetDeviceOps pool) where
  openDev n hook h := by cases h
  startXmit n hook h := by cases h

/-- A byte is sent round the loopback, and then read back. -/
def sendAndReceive (byte : UInt8) : List (NetworkOp 0) :=
  [.boot (.registry .init), .boot .loopbackInit, .socket (.socket 2 1 0 true),
    .socket (.send ⟨1, some fun _ => byte, 1, true, true⟩), .socket (.recv 1 (some fun _ => 7) 1)]

theorem payload_never_read_sendAndReceive :
    ((networkMachine noDrivers).trace (some (zeroNet 0)) (sendAndReceive 1)).map Prod.snd =
        ((networkMachine noDrivers).trace (some (zeroNet 0)) (sendAndReceive 2)).map Prod.snd ∧
      ((networkMachine noDrivers).exec (some (zeroNet 0)) (sendAndReceive 1)).map Net.erase =
        ((networkMachine noDrivers).exec (some (zeroNet 0)) (sendAndReceive 2)).map Net.erase :=
  payload_never_read noDrivers_oblivious (.refl _) rfl

end NovaOs.Network
