import NovaOs.Core.Basic
import NovaOs.Lib.SlotMap
import Mathlib.Order.Interval.Finset.Nat
import Mathlib.Data.Fin.Basic

/-!
# The scheduler (`kernel/core/scheduler.c`)

`NOVA_MAX_THREADS` is 32. The counters have the widths of the source (`size_t` being 64 bits wide), so they
wrap. A loop that runs to the first slot with a property is `Fin.find?`.
-/

namespace NovaOs.Core

open Lib

inductive NovaThreadState where
  | dead
  | runnable
  | blocked
  deriving DecidableEq, Repr

structure NovaThread where
  id : UInt32
  priority : UInt8
  quanta : UInt64
  state : NovaThreadState
  deriving DecidableEq, Repr

structure NovaScheduler where
  threads : Vector NovaThread 32
  count : UInt64
  tick : UInt64
  deriving DecidableEq

def NovaScheduler.thread (scheduler : NovaScheduler) (index : Fin 32) : NovaThread := scheduler.threads[index]

def NovaScheduler.setThread (scheduler : NovaScheduler) (index : Fin 32) (thread : NovaThread) : NovaScheduler :=
  { scheduler with threads := scheduler.threads.set index thread }

/-- The other fields of the threads keep what the memory held. -/
def novaSchedInit (scheduler : NovaScheduler) : NovaScheduler where
  threads := scheduler.threads.map fun thread => { thread with state := .dead }
  count := 0
  tick := 0

def NovaScheduler.spawn (scheduler : NovaScheduler) (index : Fin 32) (priority : UInt8) : NovaScheduler :=
  { scheduler.setThread index
      { id := UInt32.ofNat index + 1, priority := priority, quanta := 0, state := .runnable } with
    count := scheduler.count + 1 }

/-- The slot that the loop of `nova_sched_add` stops at. -/
@[irreducible] def NovaScheduler.firstDead (scheduler : NovaScheduler) : Option (Fin 32) :=
  Fin.find? fun index => (scheduler.thread index).state = .dead

def novaSchedAdd (scheduler : NovaScheduler) (priority : UInt8) (id : UInt32) :
    NovaResult × NovaScheduler × UInt32 :=
  match scheduler.firstDead with
  | none => (.full, scheduler, id)
  | some index =>
      let scheduler' := scheduler.spawn index priority
      (.ok, scheduler', (scheduler'.thread index).id)

/-- The slot `id - 1`, unless `id == 0 || id > NOVA_MAX_THREADS`. -/
def slotOf (id : UInt32) : Option (Fin 32) :=
  if h : id.toNat = 0 ∨ id.toNat > 32 then none else some ⟨id.toNat - 1, by omega⟩

def NovaScheduler.mark (scheduler : NovaScheduler) (index : Fin 32) (state : NovaThreadState) : NovaScheduler :=
  scheduler.setThread index { scheduler.thread index with state := state }

def novaSchedSetState (scheduler : NovaScheduler) (id : UInt32) (state : NovaThreadState) :
    NovaResult × NovaScheduler :=
  match slotOf id with
  | none => (.notFound, scheduler)
  | some index =>
      if (scheduler.thread index).state = .dead then (.notFound, scheduler)
      else (.ok, scheduler.mark index state)

def NovaThread.beats (candidate current : NovaThread) : Bool :=
  candidate.priority > current.priority ||
    (candidate.priority == current.priority && candidate.quanta < current.quanta)

/-- The body of the loop of `nova_sched_pick_next`; `none` is the initial -1 of `selected`. -/
def pickStep (scheduler : NovaScheduler) (selected : Option (Fin 32)) (index : Fin 32) : Option (Fin 32) :=
  if (scheduler.thread index).state ≠ .runnable then selected
  else match selected with
    | none => some index
    | some current =>
        if (scheduler.thread index).beats (scheduler.thread current) then some index else some current

@[irreducible] def NovaScheduler.selected (scheduler : NovaScheduler) : Option (Fin 32) :=
  (List.finRange 32).foldl (pickStep scheduler) none

def novaSchedPickNext (scheduler : NovaScheduler) : Int32 :=
  match scheduler.selected with
  | none => -1
  | some selected => (scheduler.thread selected).id.toInt32

def NovaScheduler.charge (scheduler : NovaScheduler) (index : Fin 32) : NovaScheduler :=
  { scheduler.setThread index
      { scheduler.thread index with quanta := (scheduler.thread index).quanta + 1 } with
    tick := scheduler.tick + 1 }

def novaSchedAccount (scheduler : NovaScheduler) (id : UInt32) : NovaScheduler :=
  match slotOf id with
  | none => scheduler
  | some index => if (scheduler.thread index).state ≠ .dead then scheduler.charge index else scheduler

/-! ## Runs -/

inductive SchedOp where
  | add (priority : UInt8) (id : UInt32)
  | setState (id : UInt32) (state : NovaThreadState)
  | account (id : UInt32)
  deriving DecidableEq, Repr

/-- The calls on a scheduler. An add also answers what the caller's `id` holds after it. -/
def schedMachine : Machine NovaScheduler SchedOp (Option NovaResult × Option UInt32) where
  step
    | s, .add priority id =>
        let r := novaSchedAdd s priority id
        ((some r.1, some r.2.2), r.2.1)
    | s, .setState id state =>
        let r := novaSchedSetState s id state
        ((some r.1, none), r.2)
    | s, .account id => ((none, none), novaSchedAccount s id)

/-- Account the thread that is picked next, if there is one. -/
def novaSchedule (scheduler : NovaScheduler) : NovaScheduler :=
  let id := novaSchedPickNext scheduler
  if id ≠ -1 then novaSchedAccount scheduler id.toUInt32 else scheduler

inductive SchedStep where
  | schedule
  | call (op : SchedOp)
  deriving DecidableEq, Repr

def stepMachine : Machine NovaScheduler SchedStep Unit where
  step
    | s, .schedule => ((), novaSchedule s)
    | s, .call op => ((), schedMachine.next s op)

/-- The states that the calls lead to from an initialised scheduler. -/
def SchedReachable (s : NovaScheduler) : Prop :=
  ∃ memory ops, s = schedMachine.exec (novaSchedInit memory) ops

/-! ## The map of threads a scheduler stands for -/

inductive LiveState where
  | runnable
  | blocked
  deriving DecidableEq, Repr

structure ThreadEntry where
  priority : UInt8
  quanta : UInt64
  state : LiveState
  deriving DecidableEq, Repr

abbrev ThreadMap := SlotMap (Finset.Icc 1 32) ThreadEntry

/-- The entry with a new state; the state `dead` takes the entry away. -/
def ThreadEntry.withState (entry : ThreadEntry) : NovaThreadState → Option ThreadEntry
  | .dead => none
  | .runnable => some { entry with state := .runnable }
  | .blocked => some { entry with state := .blocked }

def mapMachine : Machine ThreadMap SchedOp (Option NovaResult × Option UInt32) where
  step
    | m, .add priority id =>
        match m.firstFree with
        | none => ((some .full, some id), m)
        | some new => ((some .ok, some (UInt32.ofNat new)), m.assign new (some ⟨priority, 0, .runnable⟩))
    | m, .setState id state =>
        match m.entry id.toNat with
        | none => ((some .notFound, none), m)
        | some entry => ((some .ok, none), m.assign id.toNat (entry.withState state))
    | m, .account id =>
        match m.entry id.toNat with
        | none => ((none, none), m)
        | some entry => ((none, none), m.assign id.toNat (some { entry with quanta := entry.quanta + 1 }))

def NovaThread.entry (thread : NovaThread) : Option ThreadEntry :=
  (ThreadEntry.mk thread.priority thread.quanta .runnable).withState thread.state

/-- The map whose id `i + 1` names the slot `i`. -/
def NovaScheduler.threadMap (scheduler : NovaScheduler) : ThreadMap where
  entry id := if h : 1 ≤ id ∧ id ≤ 32 then (scheduler.thread ⟨id - 1, by omega⟩).entry else none
  mem_keys := by
    intro id h
    by_contra hid
    exact h (dif_neg (by simpa using hid))

end NovaOs.Core
