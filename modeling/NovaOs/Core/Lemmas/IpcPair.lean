import NovaOs.Core.IpcPair
import NovaOs.Core.Lemmas.Ipc

/-!
# Two threads on an endpoint, one call after the other

`done` is the endpoint as the calls that were answered leave it. A send in progress has changed nothing but the slot after
the last queued message, and its tail; a receive in progress has read nothing but the slot of the first.
-/

namespace NovaOs.Core

open Lib

variable {done : NovaIpcEndpoint}

/-! ## How far the threads have come -/

/-- What the slot `tail` holds while the sender is there. -/
def Sender.slot (done : NovaIpcEndpoint) : Sender → NovaIpcMessage
  | .idle | .sending _ .test | .sending _ .setSender => done.message done.tail
  | .sending call .setLength => { done.message done.tail with sender := call.sender }
  | .sending call (.copy k) =>
      { (done.message done.tail).fill call.sender call.payload call.length with
        payload := memcpy (done.message done.tail).payload call.payload k }
  | .sending call .advance | .sending call .load | .sending call (.store _) =>
      (done.message done.tail).fill call.sender call.payload call.length

def Sender.tail (done : NovaIpcEndpoint) : Sender → Fin 16
  | .sending _ .load | .sending _ (.store _) => nextSlot done.tail
  | _ => done.tail

/-- A send that got past its tests has found room. -/
def Sender.Writes (done : NovaIpcEndpoint) : Sender → Prop
  | .idle | .sending _ .test => True
  | .sending call (.copy k) => (call.length ≤ 64 ∧ done.count ≠ 16) ∧ k ≤ call.length
  | .sending call _ => call.length ≤ 64 ∧ done.count ≠ 16

def Receiver.head (done : NovaIpcEndpoint) : Receiver → Fin 16
  | .receiving _ _ .load | .receiving _ _ (.store _) => nextSlot done.head
  | _ => done.head

/-- The front message, and as much of it as `k` bytes of the payload. -/
structure CopiedTo (done : NovaIpcEndpoint) (message : NovaIpcMessage) (k : Nat) : Prop where
  sender : message.sender = (done.message done.head).sender
  length : message.length = (done.message done.head).length
  payload : ∀ i (h : i < 64), i < k → message.payload[i] = (done.message done.head).payload[i]

/-- A receive that got past its test has found a message, and has read it so far. -/
def Receiver.Reads (done : NovaIpcEndpoint) : Receiver → Prop
  | .idle => True
  | .receiving buffer message .test => message = buffer
  | .receiving _ _ .copySender => done.count ≠ 0
  | .receiving _ message .copyLength => done.count ≠ 0 ∧ message.sender = (done.message done.head).sender
  | .receiving _ message (.copy k) => done.count ≠ 0 ∧ CopiedTo done message k
  | .receiving _ message .advance | .receiving _ message .load =>
      done.count ≠ 0 ∧ message = done.message done.head
  | .receiving _ message (.store loaded) => done.count ≠ 0 ∧ message = done.message done.head ∧ loaded ≠ 0

/-- The pair is in the middle of calls on the endpoint `done`. -/
structure Amid (done : NovaIpcEndpoint) (s : Pair) : Prop where
  inv : IpcInv done
  messages : s.endpoint.messages = (done.write fun _ => s.sender.slot done).messages
  head : s.endpoint.head = s.receiver.head done
  tail : s.endpoint.tail = s.sender.tail done
  count : s.endpoint.count = done.count
  writes : s.sender.Writes done
  reads : s.receiver.Reads done

theorem write_message_tail (e : NovaIpcEndpoint) : (e.write fun _ => e.message e.tail).messages = e.messages := by
  refine Vector.ext fun k hk => ?_
  rw [NovaIpcEndpoint.write, Vector.getElem_set]
  split
  · next he => simp [NovaIpcEndpoint.message, he]
  · rfl

theorem Amid.start (memory : NovaIpcEndpoint) : Amid (novaIpcEndpointInit memory) (pairStart memory) where
  inv := .init memory
  messages := (write_message_tail _).symm
  head := rfl
  tail := rfl
  count := rfl
  writes := trivial
  reads := trivial

/-! ## Copies -/

theorem memcpy_zero {n : Nat} (dst : Vector UInt8 n) (src : Nat → UInt8) : memcpy dst src 0 = dst := by
  refine Vector.ext fun k hk => ?_
  simp [getElem_memcpy]

theorem memcpy_succ {n : Nat} (dst : Vector UInt8 n) (src : Nat → UInt8) (k : Nat) :
    (memcpy dst src k).setIfInBounds k (src k) = memcpy dst src (k + 1) := by
  refine Vector.ext fun i hi => ?_
  rw [Vector.getElem_setIfInBounds, getElem_memcpy, getElem_memcpy]
  split
  · next he => rw [he, if_pos (Nat.lt_succ_self i)]
  · next hne =>
      have hiff : i < k + 1 ↔ i < k := by omega
      simp only [hiff]

theorem CopiedTo.next {message : NovaIpcMessage} {k : Nat} (h : CopiedTo done message k) (hk : k < 64) :
    CopiedTo done { message with payload := message.payload.set k (done.message done.head).payload[k] } (k + 1) where
  sender := h.sender
  length := h.length
  payload i hi hlt := by
    rw [Vector.getElem_set]
    split
    · next he => simp only [he]
    · next hne => exact h.payload i hi (by omega)

theorem CopiedTo.eq {message : NovaIpcMessage} {k : Nat} (h : CopiedTo done message k) (hk : ¬ k < 64) :
    message = done.message done.head :=
  NovaIpcMessage.ext h.sender h.length (Vector.ext fun i hi => h.payload i hi (by omega))

/-! ## What a thread leaves alone -/

theorem head_ne_tail {e : NovaIpcEndpoint} (h : IpcInv e) (hsome : e.count ≠ 0) (hroom : e.count ≠ 16) :
    e.head ≠ e.tail := by
  have hle := h.count_le
  have hne := ofNat_add_ne (n := 16) e.head.val (Nat.pos_of_ne_zero hsome) (by omega)
  rw [h.tail_eq]
  intro he
  apply hne
  rw [← he]
  exact (Fin.ext (Nat.mod_eq_of_lt e.head.isLt)).symm

theorem Sender.slot_of_full {w : Sender} (h : w.Writes done) (hfull : done.count = 16) :
    w.slot done = done.message done.tail := by
  cases w with
  | idle => rfl
  | sending call point =>
      cases point with
      | test => rfl
      | copy k => exact absurd hfull h.1.2
      | setSender | setLength | advance | load | store loaded => exact absurd hfull h.2

/-- The first message is not written to while it is read. -/
theorem Amid.front {s : Pair} (h : Amid done s) (hsome : done.count ≠ 0) :
    s.endpoint.message done.head = done.message done.head := by
  rw [NovaIpcEndpoint.message, h.messages]
  by_cases hfull : done.count = 16
  · rw [Sender.slot_of_full h.writes hfull, write_message_tail]
    rfl
  · have hne := head_ne_tail h.inv hsome hfull
    exact Vector.getElem_set_ne done.tail.isLt done.head.isLt (by omega)

theorem front_put (h : IpcInv done) (hsome : done.count ≠ 0) (hroom : done.count ≠ 16) (sender payload length) :
    (done.put sender payload length).message (done.put sender payload length).head = done.message done.head := by
  have hne := head_ne_tail h hsome hroom
  have hval : done.tail.val ≠ done.head.val := fun he => hne (Fin.ext he.symm)
  exact Vector.getElem_set_ne done.tail.isLt done.head.isLt hval

theorem Receiver.Reads.of_front {done' : NovaIpcEndpoint} {r : Receiver} (h : r.Reads done)
    (hsame : done.count ≠ 0 → done'.count ≠ 0 ∧ done'.message done'.head = done.message done.head) :
    r.Reads done' := by
  cases r with
  | idle => trivial
  | receiving buffer message point =>
      cases point with
      | test => exact h
      | copySender => exact (hsame h).1
      | copyLength =>
          obtain ⟨hsome, hsender⟩ := h
          obtain ⟨hsome', hfront⟩ := hsame hsome
          exact ⟨hsome', by rw [hfront, hsender]⟩
      | copy k =>
          obtain ⟨hsome, hcopied⟩ := h
          obtain ⟨hsome', hfront⟩ := hsame hsome
          refine ⟨hsome', ?_, ?_, ?_⟩
          · rw [hfront, hcopied.sender]
          · rw [hfront, hcopied.length]
          · rw [hfront]
            exact hcopied.payload
      | advance | load =>
          obtain ⟨hsome, hmessage⟩ := h
          obtain ⟨hsome', hfront⟩ := hsame hsome
          exact ⟨hsome', hmessage.trans hfront.symm⟩
      | store loaded =>
          obtain ⟨hsome, hmessage, hloaded⟩ := h
          obtain ⟨hsome', hfront⟩ := hsame hsome
          exact ⟨hsome', hmessage.trans hfront.symm, hloaded⟩

theorem Sender.Writes.drop {w : Sender} (h : w.Writes done) (hle : done.count ≤ 16) : w.Writes done.drop := by
  have hroom : done.drop.count ≠ 16 := by
    simp only [NovaIpcEndpoint.drop]
    omega
  cases w with
  | idle => trivial
  | sending call point =>
      cases point with
      | test => trivial
      | copy k => exact ⟨⟨h.1.1, hroom⟩, h.2⟩
      | setSender | setLength | advance | load | store loaded => exact ⟨h.1, hroom⟩

theorem Sender.slot_drop (w : Sender) : w.slot done.drop = w.slot done := by
  cases w with
  | idle => rfl
  | sending call point => cases point <;> rfl

theorem Sender.tail_drop (w : Sender) : w.tail done.drop = w.tail done := by
  cases w with
  | idle => rfl
  | sending call point => cases point <;> rfl

theorem Receiver.head_put (r : Receiver) (sender payload length) :
    r.head (done.put sender payload length) = r.head done := by
  cases r with
  | idle => rfl
  | receiving buffer message point => cases point <;> rfl

/-! ## The steps of the sender -/

section

variable {e : NovaIpcEndpoint} {w w' : Sender} {r r' : Receiver}

theorem Amid.sender_to (h : Amid done ⟨e, w, r⟩) (hslot : w'.slot done = w.slot done)
    (htail : w'.tail done = w.tail done) (hwrites : w'.Writes done) : Amid done ⟨e, w', r⟩ where
  inv := h.inv
  messages := h.messages.trans (by rw [hslot])
  head := h.head
  tail := h.tail.trans htail.symm
  count := h.count
  writes := hwrites
  reads := h.reads

theorem Amid.write (h : Amid done ⟨e, w, r⟩) {f : NovaIpcMessage → NovaIpcMessage} (hbefore : w.tail done = done.tail)
    (hafter : w'.tail done = done.tail) (hslot : f (w.slot done) = w'.slot done) (hwrites : w'.Writes done) :
    Amid done ⟨e.write f, w', r⟩ where
  inv := h.inv
  messages := by
    have hmessages : e.messages = (done.write fun _ => w.slot done).messages := h.messages
    have htail : e.tail = done.tail := h.tail.trans hbefore
    simp only [NovaIpcEndpoint.write, NovaIpcEndpoint.message, htail, hmessages, Fin.getElem_fin,
      Vector.getElem_set_self, Vector.set_set, hslot]
  head := h.head
  tail := (h.tail.trans hbefore).trans hafter.symm
  count := h.count
  writes := hwrites
  reads := h.reads

/-- Nothing is answered before the counter is stored, and a store from the counter's value makes the send happen. -/
theorem Amid.send {s : Pair} (h : Amid done s) (next : SendCall) (hfresh : s.StoresFresh (.sender next)) :
    ipcMachine.Follows Amid done (s.sendTurn next) := by
  obtain ⟨e, w, r⟩ := s
  cases w with
  | idle => exact .silent (h.sender_to rfl rfl trivial)
  | sending call point =>
      have hwrites := h.writes
      cases point with
      | test =>
          have hcount : e.count = done.count := h.count
          have hidle : Amid done ⟨e, .idle, r⟩ := h.sender_to rfl rfl trivial
          simp only [Pair.sendTurn, NovaIpcEndpoint.sendStep, hcount]
          rcases novaIpcSend_cases done call.sender call.payload call.length with ⟨hl, hs⟩ | ⟨hl, hc, hs⟩ | ⟨hl, hc, hs⟩
          · rw [if_pos hl]
            refine .answer (by rw [SendCall.op, ipcMachine_out_send, hs]) ?_
            rw [SendCall.op, ipcMachine_next_send, hs]
            exact hidle
          · rw [if_neg (Nat.not_lt.mpr hl), if_pos hc]
            refine .answer (by rw [SendCall.op, ipcMachine_out_send, hs]) ?_
            rw [SendCall.op, ipcMachine_next_send, hs]
            exact hidle
          · rw [if_neg (Nat.not_lt.mpr hl), if_neg hc]
            exact .silent (h.sender_to rfl rfl ⟨hl, hc⟩)
      | setSender => exact .silent (h.write rfl rfl rfl hwrites)
      | setLength =>
          refine .silent (h.write rfl rfl ?_ ⟨hwrites, Nat.zero_le _⟩)
          simp only [Sender.slot, NovaIpcMessage.fill, memcpy_zero]
      | copy k =>
          obtain ⟨hroom, hk⟩ := hwrites
          simp only [Pair.sendTurn, NovaIpcEndpoint.sendStep]
          by_cases hmore : k < call.length
          · rw [if_pos hmore]
            refine .silent (h.write rfl rfl ?_ ⟨hroom, hmore⟩)
            simp only [Sender.slot, memcpy_succ]
          · obtain rfl : k = call.length := by omega
            rw [if_neg hmore]
            exact .silent (h.sender_to rfl rfl hroom)
      | advance =>
          have htail : e.tail = done.tail := h.tail
          refine .silent ⟨h.inv, h.messages, h.head, ?_, h.count, hwrites, h.reads⟩
          simp only [htail]
          rfl
      | load => exact .silent (h.sender_to rfl rfl hwrites)
      | store loaded =>
          obtain ⟨hl, hc⟩ := hwrites
          have hloaded : loaded = e.count := hfresh loaded rfl
          have hs : novaIpcSend done call.sender call.payload call.length =
              (.ok, done.put call.sender call.payload call.length) := by
            rw [novaIpcSend, if_neg (Nat.not_lt.mpr hl), if_neg hc]
          refine .answer (by rw [SendCall.op, ipcMachine_out_send, hs]) ?_
          rw [SendCall.op, ipcMachine_next_send, hs]
          refine ⟨h.inv.put hc hl .., ?_, ?_, h.tail, ?_, trivial, ?_⟩
          · exact h.messages.trans (write_message_tail (done.put call.sender call.payload call.length)).symm
          · exact h.head.trans (Receiver.head_put r ..).symm
          · exact congrArg (· + 1) (hloaded.trans h.count)
          · refine h.reads.of_front fun hsome => ⟨Nat.succ_ne_zero _, front_put h.inv hsome hc ..⟩

/-! ## The steps of the receiver -/

theorem Amid.receiver_to (h : Amid done ⟨e, w, r⟩) (hhead : r'.head done = r.head done) (hreads : r'.Reads done) :
    Amid done ⟨e, w, r'⟩ where
  inv := h.inv
  messages := h.messages
  head := h.head.trans hhead.symm
  tail := h.tail
  count := h.count
  writes := h.writes
  reads := hreads

theorem Amid.receive {s : Pair} (h : Amid done s) (next : NovaIpcMessage) (hfresh : s.StoresFresh (.receiver next)) :
    ipcMachine.Follows Amid done (s.receiveTurn next) := by
  obtain ⟨e, w, r⟩ := s
  cases r with
  | idle => exact .silent (h.receiver_to rfl rfl)
  | receiving buffer message point =>
      have hreads := h.reads
      have hcount : e.count = done.count := h.count
      have hfront : done.count ≠ 0 → e.message done.head = done.message done.head := h.front
      cases point with
      | test =>
          obtain rfl : message = buffer := hreads
          simp only [Pair.receiveTurn, NovaIpcEndpoint.receiveStep, hcount]
          rcases novaIpcReceive_cases done message with ⟨hc, hr⟩ | ⟨hc, hr⟩
          · rw [if_pos hc]
            refine .answer (by rw [ipcMachine_out_receive, hr]) ?_
            rw [ipcMachine_next_receive, hr]
            exact h.receiver_to rfl trivial
          · rw [if_neg hc]
            exact .silent (h.receiver_to rfl hc)
      | copySender =>
          have hhead : e.head = done.head := h.head
          refine .silent (h.receiver_to rfl ⟨hreads, ?_⟩)
          simp only [hhead, hfront hreads]
      | copyLength =>
          have hhead : e.head = done.head := h.head
          obtain ⟨hsome, hsender⟩ := hreads
          refine .silent (h.receiver_to rfl ⟨hsome, hsender, ?_, fun i _ hi => absurd hi (Nat.not_lt_zero i)⟩)
          simp only [hhead, hfront hsome]
      | copy k =>
          have hhead : e.head = done.head := h.head
          obtain ⟨hsome, hcopied⟩ := hreads
          simp only [Pair.receiveTurn, NovaIpcEndpoint.receiveStep, hhead, hfront hsome]
          by_cases hk : k < 64
          · rw [dif_pos hk]
            exact .silent (h.receiver_to rfl ⟨hsome, hcopied.next hk⟩)
          · rw [dif_neg hk]
            exact .silent (h.receiver_to rfl ⟨hsome, hcopied.eq hk⟩)
      | advance =>
          have hhead : e.head = done.head := h.head
          refine .silent ⟨h.inv, h.messages, ?_, h.tail, h.count, h.writes, hreads⟩
          simp only [hhead]
          rfl
      | load =>
          obtain ⟨hsome, hmessage⟩ := hreads
          exact .silent (h.receiver_to rfl ⟨hsome, hmessage, by rwa [hcount]⟩)
      | store loaded =>
          obtain ⟨hsome, rfl, _⟩ := hreads
          have hloaded : loaded = e.count := hfresh loaded rfl
          have hr : novaIpcReceive done buffer = (.ok, done.drop, done.message done.head) := by
            rw [novaIpcReceive, if_neg hsome]
          refine .answer (by rw [ipcMachine_out_receive, hr]) ?_
          rw [ipcMachine_next_receive, hr]
          refine ⟨h.inv.drop hsome, ?_, h.head, ?_, ?_, h.writes.drop h.inv.count_le, trivial⟩
          · exact h.messages.trans (by rw [Sender.slot_drop]; rfl)
          · exact h.tail.trans (Sender.tail_drop w).symm
          · exact congrArg (· - 1) (hloaded.trans hcount)

end

theorem amid_step (done : NovaIpcEndpoint) (s : Pair) (turn : Turn) (h : Amid done s) (hfresh : s.StoresFresh turn) :
    ipcMachine.Follows Amid done (pairMachine.step s turn) := by
  cases turn with
  | sender call => exact h.send call hfresh
  | receiver buffer => exact h.receive buffer hfresh

end NovaOs.Core
