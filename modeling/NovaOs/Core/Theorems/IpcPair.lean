import NovaOs.Core.Lemmas.IpcPair
import Mathlib.Data.List.Induction

/-!
# What an endpoint between two threads guarantees

The counter is all that both threads write. As long as neither stores it from a value that the other has replaced, the
two are answered as one thread would be that makes their calls one after the other.
-/

namespace NovaOs.Core

open Lib

variable {memory : NovaIpcEndpoint} {turns : List Turn}

/-- The calls that the two threads have been answered. -/
def pairAnswers (memory : NovaIpcEndpoint) (turns : List Turn) : List IpcAnswer :=
  Machine.answers (pairMachine.trace (pairStart memory) turns)

/-- The endpoint as one thread leaves it that makes the calls that were answered. -/
def oneByOne (memory : NovaIpcEndpoint) (turns : List Turn) : NovaIpcEndpoint :=
  ipcMachine.exec (novaIpcEndpointInit memory) ((pairAnswers memory turns).map Prod.fst)

theorem pair_run (hfresh : pairMachine.Along Pair.StoresFresh (pairStart memory) turns) :
    ipcMachine.trace (novaIpcEndpointInit memory) ((pairAnswers memory turns).map Prod.fst) = pairAnswers memory turns ∧
      Amid (oneByOne memory turns) (pairMachine.exec (pairStart memory) turns) :=
  Machine.answers_of_follows amid_step (.start memory) hfresh

theorem accepted_pairAnswers (hfresh : pairMachine.Along Pair.StoresFresh (pairStart memory) turns) :
    accepted (pairAnswers memory turns) = (delivered (pairAnswers memory turns)).map NovaIpcMessage.datagram ++
      (oneByOne memory turns).queued.map NovaIpcMessage.datagram := by
  have heq := accepted_eq memory ((pairAnswers memory turns).map Prod.fst)
  rwa [(pair_run hfresh).1] at heq

theorem Amid.endpoint_eq {done : NovaIpcEndpoint} {s : Pair} (h : Amid done s) (hsender : s.sender = .idle)
    (hreceiver : s.receiver = .idle) : s.endpoint = done := by
  obtain ⟨⟨messages, head, tail, count⟩, w, r⟩ := s
  obtain rfl : w = .idle := hsender
  obtain rfl : r = .idle := hreceiver
  obtain rfl : messages = done.messages := h.messages.trans (write_message_tail done)
  obtain rfl : head = done.head := h.head
  obtain rfl : tail = done.tail := h.tail
  obtain rfl : count = done.count := h.count
  rfl

/-- While no store of the counter is stale, the threads are answered, byte for byte, as one thread is that makes their
calls in turn; what was accepted is what was delivered, in order, and at most 16 datagrams on the way; and between calls
the endpoint is as that thread leaves it. -/
theorem ipc_pair_one_by_one (hfresh : pairMachine.Along Pair.StoresFresh (pairStart memory) turns) :
    let s := pairMachine.exec (pairStart memory) turns
    let h := pairAnswers memory turns
    ipcMachine.trace (novaIpcEndpointInit memory) (h.map Prod.fst) = h ∧
    accepted h = (delivered h).map NovaIpcMessage.datagram ++
      (oneByOne memory turns).queued.map NovaIpcMessage.datagram ∧
    (oneByOne memory turns).queued.length ≤ 16 ∧
    (s.sender = .idle → s.receiver = .idle → s.endpoint = oneByOne memory turns) := by
  intro s h
  obtain ⟨htrace, hamid⟩ := pair_run hfresh
  refine ⟨htrace, accepted_pairAnswers hfresh, ?_, hamid.endpoint_eq⟩
  rw [queued_length]
  exact hamid.inv.count_le

/-- The turns of one call each, the receive's between those of the send. -/
def turnsApart : List Turn :=
  let send : Turn := .sender ⟨7, fun _ => 1, 2⟩
  let receive : Turn := .receiver ⟨0, 0, Vector.replicate 64 0⟩
  List.replicate 11 send ++ (List.replicate 6 [send, receive]).flatten ++ List.replicate 70 receive ++
    List.replicate 4 send

theorem ipc_pair_one_by_one_turnsApart :
    let s := pairMachine.exec (pairStart zeroedEndpoint) turnsApart
    let h := pairAnswers zeroedEndpoint turnsApart
    ipcMachine.trace (novaIpcEndpointInit zeroedEndpoint) (h.map Prod.fst) = h ∧
    accepted h = (delivered h).map NovaIpcMessage.datagram ++
      (oneByOne zeroedEndpoint turnsApart).queued.map NovaIpcMessage.datagram ∧
    (oneByOne zeroedEndpoint turnsApart).queued.length ≤ 16 ∧
    (s.sender = .idle → s.receiver = .idle → s.endpoint = oneByOne zeroedEndpoint turnsApart) :=
  ipc_pair_one_by_one (by decide +kernel)

/-! ## The counter -/

/-- The counter is what was accepted less what was delivered. -/
def Tallies (memory : NovaIpcEndpoint) (turns : List Turn) : Prop :=
  (pairMachine.exec (pairStart memory) turns).endpoint.count + (delivered (pairAnswers memory turns)).length =
    (accepted (pairAnswers memory turns)).length

theorem tallies_of_fresh (hfresh : pairMachine.Along Pair.StoresFresh (pairStart memory) turns) :
    Tallies memory turns := by
  have hlength := congrArg List.length (accepted_pairAnswers hfresh)
  have hcount := (pair_run hfresh).2.count
  rw [List.length_append, List.length_map, List.length_map, queued_length, ← hcount] at hlength
  rw [Tallies, hlength, Nat.add_comm]

theorem pairAnswers_concat (turn : Turn) :
    pairAnswers memory (turns ++ [turn]) = pairAnswers memory turns ++
      (pairMachine.out (pairMachine.exec (pairStart memory) turns) turn).toList := by
  rw [pairAnswers, pairAnswers, Machine.trace_append, Machine.answers, List.filterMap_append]
  rfl

theorem exists_of_loaded_sender {s : Pair} {next : SendCall} {loaded : Nat} (h : loaded ∈ s.loaded (.sender next)) :
    ∃ call : SendCall, pairMachine.out s (.sender next) = some (call.op, .ok, none) ∧
      (pairMachine.next s (.sender next)).endpoint.count = loaded + 1 := by
  obtain ⟨e, w, r⟩ := s
  cases w with
  | idle => cases h
  | sending call point =>
      cases point with
      | store loaded' =>
          cases h
          exact ⟨call, rfl, rfl⟩
      | test | setSender | setLength | copy k | advance | load => cases h

theorem exists_of_loaded_receiver {s : Pair} {next : NovaIpcMessage} {loaded : Nat}
    (h : loaded ∈ s.loaded (.receiver next)) :
    ∃ buffer message, pairMachine.out s (.receiver next) = some (.receive buffer, .ok, some message) ∧
      (pairMachine.next s (.receiver next)).endpoint.count = loaded - 1 ∧
      s.receiver = .receiving buffer message (.store loaded) := by
  obtain ⟨e, w, r⟩ := s
  cases r with
  | idle => cases h
  | receiving buffer message point =>
      cases point with
      | store loaded' =>
          cases h
          exact ⟨buffer, message, rfl, rfl, rfl⟩
      | test | copySender | copyLength | copy k | advance | load => cases h

/-- A stale store is one count off. -/
theorem storesFresh_of_tallies {turn : Turn} (hfresh : pairMachine.Along Pair.StoresFresh (pairStart memory) turns)
    (h : Tallies memory (turns ++ [turn])) : (pairMachine.exec (pairStart memory) turns).StoresFresh turn := by
  intro loaded hloaded
  have hbefore := tallies_of_fresh hfresh
  rw [Tallies, pairAnswers_concat, Machine.exec_append, Machine.exec_cons, Machine.exec_nil] at h
  rw [Tallies] at hbefore
  cases turn with
  | sender next =>
      obtain ⟨call, hout, hcount⟩ := exists_of_loaded_sender hloaded
      rw [hout, hcount] at h
      simp only [accepted, delivered, Option.toList_some, List.filterMap_append, List.length_append, SendCall.op,
        List.filterMap_cons, List.filterMap_nil, List.length_cons, List.length_nil] at h hbefore
      omega
  | receiver next =>
      obtain ⟨buffer, message, hout, hcount, hreceiver⟩ := exists_of_loaded_receiver hloaded
      have hreads := (pair_run hfresh).2.reads
      rw [hreceiver] at hreads
      have hsome : loaded ≠ 0 := hreads.2.2
      rw [hout, hcount] at h
      simp only [accepted, delivered, Option.toList_some, List.filterMap_append, List.length_append,
        List.filterMap_cons, List.filterMap_nil, List.length_cons, List.length_nil] at h hbefore
      omega

/-- The counter tallies after every step exactly when no store of it was stale. -/
theorem ipc_pair_tallies_iff (memory : NovaIpcEndpoint) (turns : List Turn) :
    (∀ before later, turns = before ++ later → Tallies memory before) ↔
      pairMachine.Along Pair.StoresFresh (pairStart memory) turns := by
  constructor
  · intro h
    induction turns using List.reverseRecOn with
    | nil => trivial
    | append_singleton turns turn ih =>
        have hfresh := ih fun before later he => h before (later ++ [turn]) (by rw [he, List.append_assoc])
        have hturn := storesFresh_of_tallies hfresh (h (turns ++ [turn]) [] (List.append_nil _).symm)
        exact Machine.along_append.mpr ⟨hfresh, hturn, trivial⟩
  · intro h before later he
    rw [he] at h
    exact tallies_of_fresh (Machine.along_append.mp h).1

end NovaOs.Core
