import NovaOs.Core.Ipc

/-!
# The ring of an endpoint holds a queue

Every operation keeps `IpcInv`, and under it a send appends one message to the queue of the endpoint and a
receive takes the oldest. The endpoint is then simulated by the bounded queue of datagrams.
-/

namespace NovaOs.Core

open Lib

/-! ## What one call can do -/

theorem novaIpcSend_cases (e : NovaIpcEndpoint) (sender payload length) :
    (64 < length ∧ novaIpcSend e sender payload length = (.err, e)) ∨
    (length ≤ 64 ∧ e.count = 16 ∧ novaIpcSend e sender payload length = (.full, e)) ∨
    (length ≤ 64 ∧ e.count ≠ 16 ∧
      novaIpcSend e sender payload length = (.ok, e.put sender payload length)) := by
  simp only [novaIpcSend]
  split
  · exact .inl ⟨‹_›, rfl⟩
  · split
    · exact .inr (.inl ⟨Nat.not_lt.mp ‹_›, ‹_›, rfl⟩)
    · exact .inr (.inr ⟨Nat.not_lt.mp ‹_›, ‹_›, rfl⟩)

theorem novaIpcReceive_cases (e : NovaIpcEndpoint) (message : NovaIpcMessage) :
    (e.count = 0 ∧ novaIpcReceive e message = (.empty, e, message)) ∨
    (e.count ≠ 0 ∧ novaIpcReceive e message = (.ok, e.drop, e.message e.head)) := by
  simp only [novaIpcReceive]
  split
  · exact .inl ⟨‹_›, rfl⟩
  · exact .inr ⟨‹_›, rfl⟩

@[simp] theorem ipcMachine_next_send (e : NovaIpcEndpoint) (sender payload length) :
    ipcMachine.next e (.send sender payload length) = (novaIpcSend e sender payload length).2 := rfl

@[simp] theorem ipcMachine_out_send (e : NovaIpcEndpoint) (sender payload length) :
    ipcMachine.out e (.send sender payload length) = ((novaIpcSend e sender payload length).1, none) := rfl

@[simp] theorem ipcMachine_next_receive (e : NovaIpcEndpoint) (message : NovaIpcMessage) :
    ipcMachine.next e (.receive message) = (novaIpcReceive e message).2.1 := rfl

@[simp] theorem ipcMachine_out_receive (e : NovaIpcEndpoint) (message : NovaIpcMessage) :
    ipcMachine.out e (.receive message) =
      ((novaIpcReceive e message).1, some (novaIpcReceive e message).2.2) := rfl

/-! ## The invariant -/

/-- `tail` is the slot after the last queued message, and every queued length fits the payload. -/
structure IpcInv (e : NovaIpcEndpoint) : Prop where
  count_le : e.count ≤ 16
  tail_eq : e.tail = Fin.ofNat 16 (e.head + e.count)
  length_le : ∀ m ∈ e.queued, m.length.toNat ≤ 64

@[simp] theorem queued_length (e : NovaIpcEndpoint) : e.queued.length = e.count := ring_length ..

theorem queued_eq_nil_iff {e : NovaIpcEndpoint} : e.queued = [] ↔ e.count = 0 := by
  rw [← List.length_eq_zero_iff, queued_length]

@[simp] theorem queued_init (memory : NovaIpcEndpoint) : (novaIpcEndpointInit memory).queued = [] :=
  queued_eq_nil_iff.mpr rfl

theorem IpcInv.init (memory : NovaIpcEndpoint) : IpcInv (novaIpcEndpointInit memory) where
  count_le := Nat.zero_le _
  tail_eq := rfl
  length_le := by simp

theorem queued_put {e : NovaIpcEndpoint} (h : IpcInv e) (hc : e.count ≠ 16) (sender payload length) :
    (e.put sender payload length).queued = e.queued ++ [(e.message e.tail).fill sender payload length] := by
  have hlt : e.count < 16 := by have := h.count_le; omega
  simp only [NovaIpcEndpoint.queued, NovaIpcEndpoint.put, h.tail_eq]
  exact ring_push hlt _

theorem queued_drop {e : NovaIpcEndpoint} (hc : e.count ≠ 0) :
    e.queued = e.message e.head :: e.drop.queued := by
  obtain ⟨count, hcount⟩ := Nat.exists_eq_succ_of_ne_zero hc
  have hhead : Fin.ofNat 16 e.head.val = e.head := Fin.ext (Nat.mod_eq_of_lt e.head.isLt)
  simp only [NovaIpcEndpoint.queued, NovaIpcEndpoint.drop, hcount, Nat.succ_eq_add_one, Nat.add_sub_cancel]
  simp only [ring_pop, hhead]
  exact congrArg _ (ring_mod ..).symm

theorem fill_length {slot : NovaIpcMessage} {sender payload length} (h : length ≤ 64) :
    (slot.fill sender payload length).length.toNat = length := by
  simp only [NovaIpcMessage.fill, UInt16.toNat_ofNat']
  omega

theorem datagram_fill {slot : NovaIpcMessage} {sender payload length} (h : length ≤ 64) :
    (slot.fill sender payload length).datagram = (sender, bytes payload length) := by
  simp only [NovaIpcMessage.datagram, fill_length h]
  exact Prod.ext rfl (take_memcpy _ _ h)

theorem datagram_length {m : NovaIpcMessage} (h : m.length.toNat ≤ 64) :
    m.datagram.2.length = m.length.toNat := by
  simpa [NovaIpcMessage.datagram] using h

theorem IpcInv.put {e : NovaIpcEndpoint} (h : IpcInv e) (hc : e.count ≠ 16) {length} (hl : length ≤ 64)
    (sender payload) : IpcInv (e.put sender payload length) where
  count_le := by have := h.count_le; simp only [NovaIpcEndpoint.put]; omega
  tail_eq := by
    simp only [NovaIpcEndpoint.put, h.tail_eq]
    refine Fin.ext ?_
    simp [Nat.add_assoc]
  length_le := by
    intro m hm
    rw [queued_put h hc, List.mem_append, List.mem_singleton] at hm
    rcases hm with hm | rfl
    · exact h.length_le m hm
    · exact (fill_length hl).trans_le hl

theorem IpcInv.drop {e : NovaIpcEndpoint} (h : IpcInv e) (hc : e.count ≠ 0) : IpcInv e.drop where
  count_le := by have := h.count_le; simp only [NovaIpcEndpoint.drop]; omega
  tail_eq := by
    simp only [NovaIpcEndpoint.drop, h.tail_eq]
    refine Fin.ext ?_
    simp only [Fin.val_ofNat]
    omega
  length_le := fun m hm => h.length_le m (by rw [queued_drop hc]; exact List.mem_cons_of_mem _ hm)

theorem IpcInv.next {e : NovaIpcEndpoint} (h : IpcInv e) (op : IpcOp) : IpcInv (ipcMachine.next e op) := by
  cases op with
  | send sender payload length =>
      rw [ipcMachine_next_send]
      rcases novaIpcSend_cases e sender payload length with ⟨_, hs⟩ | ⟨_, _, hs⟩ | ⟨hl, hc, hs⟩ <;> rw [hs]
      · exact h
      · exact h
      · exact h.put hc hl ..
  | receive message =>
      rw [ipcMachine_next_receive]
      rcases novaIpcReceive_cases e message with ⟨_, hr⟩ | ⟨hc, hr⟩ <;> rw [hr]
      · exact h
      · exact h.drop hc

theorem IpcInv.exec (memory : NovaIpcEndpoint) (ops : List IpcOp) :
    IpcInv (ipcMachine.exec (novaIpcEndpointInit memory) ops) :=
  Machine.exec_invariant (fun _ op h => h.next op) (.init memory) ops

/-! ## The simulation by the queue of datagrams -/

/-- The endpoint stands for the queue. -/
structure EndpointIs (e : NovaIpcEndpoint) (q : BoundedFifo Datagram 16) : Prop where
  inv : IpcInv e
  items : q.items = e.queued.map NovaIpcMessage.datagram

/-- The endpoint answers as the queue does, and what it hands over carries the datagram. -/
def SameAnswer (_ : IpcOp) (o : NovaResult × Option NovaIpcMessage) (o' : NovaResult × Option Datagram) : Prop :=
  o.1 = o'.1 ∧ ∀ d, o'.2 = some d → ∃ m, o.2 = some m ∧ m.datagram = d ∧ m.length.toNat = d.2.length

theorem EndpointIs.init (memory : NovaIpcEndpoint) : EndpointIs (novaIpcEndpointInit memory) BoundedFifo.empty :=
  ⟨.init memory, by simp [BoundedFifo.empty]⟩

theorem EndpointIs.items_length {e q} (h : EndpointIs e q) : q.items.length = e.count := by
  simp [h.items]

theorem EndpointIs.push {e q} (h : EndpointIs e q) (hc : e.count ≠ 16) {length} (hl : length ≤ 64)
    (sender payload) :
    ∃ q', q.push (sender, bytes payload length) = some q' ∧ EndpointIs (e.put sender payload length) q' := by
  obtain ⟨q', hq'⟩ : ∃ q', q.push (sender, bytes payload length) = some q' := by
    refine Option.ne_none_iff_exists'.mp fun hnone => hc ?_
    rw [← h.items_length]
    exact BoundedFifo.push_eq_none_iff.mp hnone
  refine ⟨q', hq', h.inv.put hc hl .., ?_⟩
  rw [BoundedFifo.items_push hq', queued_put h.inv hc, List.map_append, ← h.items, List.map_singleton,
    datagram_fill hl]

theorem EndpointIs.pop {e q} (h : EndpointIs e q) (hc : e.count ≠ 0) :
    ∃ q', q.pop = some ((e.message e.head).datagram, q') ∧ EndpointIs e.drop q' := by
  obtain ⟨⟨d, q'⟩, hpop⟩ : ∃ r, q.pop = some r := by
    refine Option.ne_none_iff_exists'.mp fun hnone => hc ?_
    rw [← h.items_length, BoundedFifo.pop_eq_none_iff.mp hnone, List.length_nil]
  have hcons := BoundedFifo.items_pop hpop
  rw [h.items, queued_drop hc, List.map_cons, List.cons.injEq] at hcons
  exact ⟨q', by rw [hpop, hcons.1], h.inv.drop hc, hcons.2.symm⟩

theorem EndpointIs.push_full {e q} (h : EndpointIs e q) (hc : e.count = 16) (d : Datagram) : q.push d = none :=
  BoundedFifo.push_eq_none_iff.mpr (h.items_length.trans hc)

theorem EndpointIs.pop_empty {e q} (h : EndpointIs e q) (hc : e.count = 0) : q.pop = none :=
  BoundedFifo.pop_eq_none_iff.mpr (List.length_eq_zero_iff.mp (h.items_length.trans hc))

theorem EndpointIs.front_length {e q} (h : EndpointIs e q) (hc : e.count ≠ 0) :
    (e.message e.head).length.toNat = (e.message e.head).datagram.2.length := by
  refine (datagram_length (h.inv.length_le _ ?_)).symm
  rw [queued_drop hc]
  exact List.mem_cons_self

theorem endpoint_simulation : Machine.Simulation ipcMachine fifoMachine EndpointIs SameAnswer := by
  have hstep : ∀ e q op, EndpointIs e q → SameAnswer op (ipcMachine.out e op) (fifoMachine.out q op) ∧
      EndpointIs (ipcMachine.next e op) (fifoMachine.next q op) := by
    intro e q op h
    cases op with
    | send sender payload length =>
        rw [ipcMachine_out_send, ipcMachine_next_send]
        rcases novaIpcSend_cases e sender payload length with ⟨hl, hs⟩ | ⟨hl, hc, hs⟩ | ⟨hl, hc, hs⟩ <;> rw [hs]
        · simp [SameAnswer, Machine.out, Machine.next, fifoMachine, hl, h]
        · simp [SameAnswer, Machine.out, Machine.next, fifoMachine, Nat.not_lt.mpr hl, h.push_full hc, h]
        · obtain ⟨q', hq', hput⟩ := h.push hc hl sender payload
          simp [SameAnswer, Machine.out, Machine.next, fifoMachine, Nat.not_lt.mpr hl, hq', hput]
    | receive message =>
        rw [ipcMachine_out_receive, ipcMachine_next_receive]
        rcases novaIpcReceive_cases e message with ⟨hc, hr⟩ | ⟨hc, hr⟩ <;> rw [hr]
        · simp [SameAnswer, Machine.out, Machine.next, fifoMachine, h.pop_empty hc, h]
        · obtain ⟨q', hq', hdrop⟩ := h.pop hc
          simpa [SameAnswer, Machine.out, Machine.next, fifoMachine, hq', hdrop] using h.front_length hc
  exact ⟨fun e q op h => (hstep e q op h).1, fun e q op h => (hstep e q op h).2⟩

theorem EndpointIs.exec (memory : NovaIpcEndpoint) (ops : List IpcOp) :
    EndpointIs (ipcMachine.exec (novaIpcEndpointInit memory) ops) (fifoMachine.exec BoundedFifo.empty ops) :=
  endpoint_simulation.exec (.init memory) ops

/-! ## Nothing is lost on the way -/

theorem accepted_cons (c : IpcOp × NovaResult × Option NovaIpcMessage) (h) :
    accepted (c :: h) = accepted [c] ++ accepted h := by
  rw [← List.singleton_append]
  exact List.filterMap_append

theorem delivered_cons (c : IpcOp × NovaResult × Option NovaIpcMessage) (h) :
    delivered (c :: h) = delivered [c] ++ delivered h := by
  rw [← List.singleton_append]
  exact List.filterMap_append

/-- A call takes what it delivers from the front of the queue and puts what it accepts at the end. -/
theorem queued_next {e : NovaIpcEndpoint} (h : IpcInv e) (op : IpcOp) :
    ∃ new, e.queued ++ new = delivered [(op, ipcMachine.out e op)] ++ (ipcMachine.next e op).queued ∧
      accepted [(op, ipcMachine.out e op)] = new.map NovaIpcMessage.datagram := by
  cases op with
  | send sender payload length =>
      rw [ipcMachine_next_send, ipcMachine_out_send]
      rcases novaIpcSend_cases e sender payload length with ⟨_, hs⟩ | ⟨_, _, hs⟩ | ⟨hl, hc, hs⟩ <;> rw [hs]
      · exact ⟨[], by simp [accepted, delivered]⟩
      · exact ⟨[], by simp [accepted, delivered]⟩
      · refine ⟨[(e.message e.tail).fill sender payload length], ?_, ?_⟩
        · rw [queued_put h hc]; simp [delivered]
        · rw [List.map_singleton, datagram_fill hl]; rfl
  | receive message =>
      rw [ipcMachine_next_receive, ipcMachine_out_receive]
      rcases novaIpcReceive_cases e message with ⟨_, hr⟩ | ⟨hc, hr⟩ <;> rw [hr]
      · exact ⟨[], by simp [accepted, delivered]⟩
      · rw [queued_drop hc]
        exact ⟨[], by simp [accepted, delivered]⟩

theorem queued_exec {e : NovaIpcEndpoint} (h : IpcInv e) (ops : List IpcOp) :
    ∃ new, e.queued ++ new = delivered (ipcMachine.trace e ops) ++ (ipcMachine.exec e ops).queued ∧
      accepted (ipcMachine.trace e ops) = new.map NovaIpcMessage.datagram := by
  induction ops generalizing e with
  | nil => exact ⟨[], by simp [accepted, delivered]⟩
  | cons op ops ih =>
      obtain ⟨new, hnew, hacc⟩ := queued_next h op
      obtain ⟨rest, hrest, hacc'⟩ := ih (h.next op)
      refine ⟨new ++ rest, ?_, ?_⟩
      · rw [Machine.trace_cons, delivered_cons, Machine.exec_cons, List.append_assoc, ← hrest,
          ← List.append_assoc, hnew, List.append_assoc]
      · rw [Machine.trace_cons, accepted_cons, hacc, hacc', List.map_append]

/-- From an empty endpoint on, the accepted datagrams are those delivered and those still queued. -/
theorem accepted_eq (memory : NovaIpcEndpoint) (ops : List IpcOp) :
    accepted (ipcMachine.trace (novaIpcEndpointInit memory) ops) =
      (delivered (ipcMachine.trace (novaIpcEndpointInit memory) ops)).map NovaIpcMessage.datagram ++
        (ipcMachine.exec (novaIpcEndpointInit memory) ops).queued.map NovaIpcMessage.datagram := by
  obtain ⟨new, hnew, hacc⟩ := queued_exec (.init memory) ops
  rw [queued_init, List.nil_append] at hnew
  rw [hacc, hnew, List.map_append]

/-- The message behind `ahead` others comes to the front, unchanged, once as many have been delivered. -/
theorem queued_of_delivered {e : NovaIpcEndpoint} (h : IpcInv e) {ahead behind : List NovaIpcMessage}
    {m : NovaIpcMessage} (hq : e.queued = ahead ++ m :: behind) {ops : List IpcOp}
    (hops : (delivered (ipcMachine.trace e ops)).length = ahead.length) :
    ∃ behind', (ipcMachine.exec e ops).queued = m :: behind' := by
  obtain ⟨new, hnew, _⟩ := queued_exec h ops
  rw [hq, List.append_assoc, List.cons_append] at hnew
  exact ⟨behind ++ new, (List.append_inj hnew hops.symm).2.symm⟩

end NovaOs.Core
