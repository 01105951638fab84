import NovaOs.Core.Lemmas.Ipc

/-!
# What an IPC endpoint guarantees

An endpoint is a bounded queue of 16 datagrams. What it does not keep apart are the payload bytes beyond the
length of a message: a receiver gets there what the ring slot held before the send.
-/

namespace NovaOs.Core

open Lib

/-! ## The bounded queue -/

/-- How a send answers when the endpoint stands for the queue `q`, and what becomes of the queue. -/
structure SendMeets (e : NovaIpcEndpoint) (q : BoundedFifo Datagram 16) (sender : UInt32) (payload : Nat → UInt8)
    (length : Nat) : Prop where
  err_iff : (novaIpcSend e sender payload length).1 = .err ↔ 64 < length
  full_iff : (novaIpcSend e sender payload length).1 = .full ↔ length ≤ 64 ∧ q.items.length = 16
  ok_iff : (novaIpcSend e sender payload length).1 = .ok ↔ length ≤ 64 ∧ q.items.length < 16
  appends : (novaIpcSend e sender payload length).1 = .ok →
    (fifoMachine.next q (.send sender payload length)).items = q.items ++ [(sender, bytes payload length)]
  fails : (novaIpcSend e sender payload length).1 ≠ .ok →
    (novaIpcSend e sender payload length).2 = e ∧ fifoMachine.next q (.send sender payload length) = q

/-- How a receive answers when the endpoint stands for the queue `q`, and what becomes of the queue. -/
structure ReceiveMeets (e : NovaIpcEndpoint) (q : BoundedFifo Datagram 16) (message : NovaIpcMessage) : Prop where
  empty_iff : (novaIpcReceive e message).1 = .empty ↔ q.items = []
  ok_iff : (novaIpcReceive e message).1 = .ok ↔ q.items ≠ []
  fails : (novaIpcReceive e message).1 ≠ .ok →
    (novaIpcReceive e message).2 = (e, message) ∧ fifoMachine.next q (.receive message) = q
  takes : ∀ sender content rest, q.items = (sender, content) :: rest →
    (fifoMachine.next q (.receive message)).items = rest ∧
    (novaIpcReceive e message).2.2.sender = sender ∧
    (novaIpcReceive e message).2.2.length.toNat = content.length ∧
    (novaIpcReceive e message).2.2.payload.toList.take content.length = content

theorem EndpointIs.sendMeets {e q} (h : EndpointIs e q) (sender payload length) :
    SendMeets e q sender payload length := by
  have hlen := h.items_length
  rcases novaIpcSend_cases e sender payload length with ⟨hl, hs⟩ | ⟨hl, hc, hs⟩ | ⟨hl, hc, hs⟩
  · have hq : fifoMachine.next q (.send sender payload length) = q := by
      simp [Machine.next, fifoMachine, hl]
    constructor <;> simp [hs, hl, Nat.not_le.mpr hl, hq]
  · have hq : fifoMachine.next q (.send sender payload length) = q := by
      simp [Machine.next, fifoMachine, Nat.not_lt.mpr hl, h.push_full hc]
    constructor <;> simp [hs, hl, hlen, hc, hq]
  · obtain ⟨q', hq', _⟩ := h.push hc hl sender payload
    have hq : fifoMachine.next q (.send sender payload length) = q' := by
      simp [Machine.next, fifoMachine, Nat.not_lt.mpr hl, hq']
    have hlt : e.count < 16 := lt_of_le_of_ne h.inv.count_le hc
    constructor <;> simp [hs, hl, hlen, hc, hlt, hq, BoundedFifo.items_push hq']

theorem EndpointIs.receiveMeets {e q} (h : EndpointIs e q) (message : NovaIpcMessage) :
    ReceiveMeets e q message := by
  have hlen := h.items_length
  rcases novaIpcReceive_cases e message with ⟨hc, hr⟩ | ⟨hc, hr⟩
  · have hnil : q.items = [] := List.length_eq_zero_iff.mp (hlen.trans hc)
    have hq : fifoMachine.next q (.receive message) = q := by
      simp [Machine.next, fifoMachine, h.pop_empty hc]
    constructor <;> simp [hr, hnil, hq]
  · obtain ⟨q', hpop, _⟩ := h.pop hc
    have hitems := BoundedFifo.items_pop hpop
    have hq : fifoMachine.next q (.receive message) = q' := by simp [Machine.next, fifoMachine, hpop]
    refine ⟨by simp [hr, hitems], by simp [hr, hitems], by simp [hr], ?_⟩
    intro sender content rest hcons
    have hlength := h.front_length hc
    obtain ⟨hfront, hrest⟩ := List.cons.inj (hitems.symm.trans hcons)
    rw [hfront] at hlength
    rw [hq, hr]
    refine ⟨hrest, congrArg Prod.fst hfront, hlength, ?_⟩
    rw [← hlength]
    exact congrArg Prod.snd hfront

/-- After any calls on an initialised endpoint, there is a queue of at most 16 datagrams, itself moved by these
calls, that every further send and receive answers for; and what was accepted is what was delivered, in
order, followed by the queue. -/
theorem ipc_endpoint_refines_fifo (memory : NovaIpcEndpoint) (ops : List IpcOp) :
    let e := ipcMachine.exec (novaIpcEndpointInit memory) ops
    let h := ipcMachine.trace (novaIpcEndpointInit memory) ops
    let q := fifoMachine.exec BoundedFifo.empty ops
    (∀ sender payload length, SendMeets e q sender payload length) ∧
    (∀ message, ReceiveMeets e q message) ∧
    accepted h = (delivered h).map NovaIpcMessage.datagram ++ q.items := by
  intro e h q
  have he : EndpointIs e q := .exec memory ops
  exact ⟨he.sendMeets, he.receiveMeets, by rw [he.items]; exact accepted_eq memory ops⟩

/-! ## The bytes beyond the length -/

/-- A run in which a message is sent after the calls `before` and received, into `buffer`, after the calls
`between`. -/
structure IpcDelivery where
  memory : NovaIpcEndpoint
  before : List IpcOp
  between : List IpcOp
  buffer : NovaIpcMessage

namespace IpcDelivery

variable (d : IpcDelivery) (sender : UInt32) (payload : Nat → UInt8) (length : Nat)

def atSend : NovaIpcEndpoint := ipcMachine.exec (novaIpcEndpointInit d.memory) d.before

def afterSend : NovaIpcEndpoint := (novaIpcSend d.atSend sender payload length).2

def atReceive : NovaIpcEndpoint := ipcMachine.exec (d.afterSend sender payload length) d.between

def received : NovaIpcMessage := (novaIpcReceive (d.atReceive sender payload length) d.buffer).2.2

/-- The send is accepted, and the receive is the successful one that comes after as many deliveries as
messages were queued before it. -/
def Delivers : Prop :=
  (novaIpcSend d.atSend sender payload length).1 = .ok ∧
  (delivered (ipcMachine.trace (d.afterSend sender payload length) d.between)).length = d.atSend.count ∧
  (novaIpcReceive (d.atReceive sender payload length) d.buffer).1 = .ok

instance : Decidable (d.Delivers sender payload length) := by unfold Delivers; infer_instance

/-- The payload of the ring slot that the send writes to, as it was before. -/
def slotPayload : Vector UInt8 64 := (d.atSend.message d.atSend.tail).payload

variable {d sender payload length}

theorem received_eq (h : d.Delivers sender payload length) :
    d.received sender payload length = (d.atSend.message d.atSend.tail).fill sender payload length := by
  obtain ⟨hsend, hdel, hrecv⟩ := h
  have hinv : IpcInv d.atSend := .exec d.memory d.before
  rcases novaIpcSend_cases d.atSend sender payload length with ⟨_, hs⟩ | ⟨_, _, hs⟩ | ⟨hl, hc, hs⟩
  · simp [hs] at hsend
  · simp [hs] at hsend
  · have hafter : d.afterSend sender payload length = d.atSend.put sender payload length := by rw [afterSend, hs]
    rw [hafter] at hdel
    obtain ⟨behind, hq⟩ := queued_of_delivered (hinv.put hc hl sender payload) (queued_put hinv hc ..)
      (hdel.trans (queued_length _).symm)
    rw [← hafter] at hq
    rcases novaIpcReceive_cases (d.atReceive sender payload length) d.buffer with ⟨_, hr⟩ | ⟨hne, hr⟩
    · simp [hr] at hrecv
    · rw [received, hr]
      exact (List.cons.inj ((queued_drop hne).symm.trans hq)).1

end IpcDelivery

theorem fill_eq_iff {slot slot' : NovaIpcMessage} {sender payload length} :
    slot.fill sender payload length = slot'.fill sender payload length ↔
      ∀ k (hk : k < 64), length ≤ k → slot.payload[k] = slot'.payload[k] := by
  simp only [NovaIpcMessage.fill, NovaIpcMessage.mk.injEq, true_and]
  constructor
  · intro h k hk hle
    have := congrArg (fun v => v[k]) h
    simpa [getElem_memcpy, Nat.not_lt.mpr hle] using this
  · intro h
    refine Vector.ext fun k hk => ?_
    rw [getElem_memcpy, getElem_memcpy]
    split
    · rfl
    · exact h k hk (by omega)

/-- The same message, delivered in two runs, reaches the receivers alike exactly when the ring slots it was put
in held the same bytes at and beyond its length. -/
theorem received_eq_iff {d d' : IpcDelivery} {sender payload length} (h : d.Delivers sender payload length)
    (h' : d'.Delivers sender payload length) :
    d.received sender payload length = d'.received sender payload length ↔
      ∀ k (hk : k < 64), length ≤ k → d.slotPayload[k] = d'.slotPayload[k] := by
  rw [d.received_eq h, d'.received_eq h']
  exact fill_eq_iff

def quietRun : IpcDelivery where
  memory := zeroedEndpoint
  before := []
  between := []
  buffer := ⟨0, 0, Vector.replicate 64 0⟩

/-- The same after sixteen messages of 64 bytes went through and were all received. -/
def busyRun : IpcDelivery :=
  { quietRun with
    before := (List.replicate 16 [.send 7 (fun _ => 0xAA) 64, .receive quietRun.buffer]).flatten }

theorem received_eq_iff_quiet_busy :
    quietRun.received 9 (fun _ => 1) 1 = busyRun.received 9 (fun _ => 1) 1 ↔
      ∀ k (hk : k < 64), 1 ≤ k → quietRun.slotPayload[k] = busyRun.slotPayload[k] :=
  received_eq_iff (by decide +kernel) (by decide +kernel)

/-- The receiver of one byte gets 63 bytes of the earlier traffic with it. -/
theorem received_depends_on_earlier_traffic :
    ¬ ∀ (d d' : IpcDelivery) sender payload length, d.Delivers sender payload length →
      d'.Delivers sender payload length →
      d.received sender payload length = d'.received sender payload length := by
  intro h
  have heq := h quietRun busyRun 9 (fun _ => 1) 1 (by decide +kernel) (by decide +kernel)
  have hbyte : (quietRun.received 9 (fun _ => 1) 1).payload[1] ≠
      (busyRun.received 9 (fun _ => 1) 1).payload[1] := by decide +kernel
  rw [heq] at hbyte
  exact hbyte rfl

end NovaOs.Core
