import NovaOs.Lib.Machine
import Mathlib.Logic.Function.Basic

/-!
# Objects behind a lock

Any number of threads call an object. A call answers at once, or it waits for the lock, goes through its critical section
one statement at a time, and frees the lock as it answers. The threads take their steps in any order. What they are
answered is what one thread would be answered that makes the calls in the order of the answers.
-/

namespace Lib

/-- The calls `ι` on an object `σ`, with the points `κ` of their critical sections. -/
structure Monitor (σ κ ι ο : Type*) where
  /-- The answer of a call that does without the lock. -/
  enter : ι → σ → Option ο
  start : ι → κ
  step : κ → σ → κ × σ
  /-- The answer of a call whose critical section ends here. -/
  answer : κ → Option ο
  held : σ → Bool
  acquire : σ → σ
  release : σ → σ
  held_acquire : ∀ s, held (acquire s) = true
  held_step : ∀ k s, held (step k s).2 = held s
  held_release : ∀ s, held (release s) = false
  enter_acquire : ∀ i s, enter i (acquire s) = enter i s
  enter_step : ∀ i k s, enter i (step k s).2 = enter i s
  enter_release : ∀ i s, enter i (release s) = enter i s

/-- Where a thread is. -/
inductive Control (ι κ : Type*) where
  | idle
  | called (call : ι)
  | waiting (call : ι)
  | inside (call : ι) (point : κ)

/-- The call that a thread has not been answered yet. -/
def Control.pending {ι κ : Type*} : Control ι κ → List ι
  | .idle => []
  | .called call | .waiting call | .inside call _ => [call]

inductive Event (ι ο : Type*) where
  | invoke (call : ι)
  | respond (call : ι) (answer : ο)

namespace Monitor

variable {σ κ ι ο τ : Type*} (M : Monitor σ κ ι ο)

/-- The step of one thread; `i` is the call that it makes if it is idle. A lock that is held is tried again. -/
def advance (s : σ) (i : ι) : Control ι κ → Option (Event ι ο) × σ × Control ι κ
  | .idle => (some (.invoke i), s, .called i)
  | .called call =>
      match M.enter call s with
      | some answer => (some (.respond call answer), s, .idle)
      | none => (none, s, .waiting call)
  | .waiting call =>
      if M.held s then (none, s, .waiting call) else (none, M.acquire s, .inside call (M.start call))
  | .inside call point =>
      match M.answer point with
      | some answer => (some (.respond call answer), M.release s, .idle)
      | none => (none, (M.step point s).2, .inside call (M.step point s).1)

/-- The threads `τ` on one object. A move is a step of a thread. -/
def concurrent [DecidableEq τ] : Machine (σ × (τ → Control ι κ)) (τ × ι) (Option (Event ι ο)) where
  step st move :=
    let r := M.advance st.1 move.2 (st.2 move.1)
    (r.1, (r.2.1, Function.update st.2 move.1 r.2.2))

/-! ## Histories -/

abbrev History (τ ι ο : Type*) := List ((τ × ι) × Option (Event ι ο))

/-- The calls that were answered, in the order of their answers. -/
def responses (history : History τ ι ο) : List (ι × ο) :=
  history.filterMap fun move => match move.2 with
    | some (.respond call answer) => some (call, answer)
    | _ => none

/-- The calls that the thread made. -/
def invokedBy [DecidableEq τ] (t : τ) (history : History τ ι ο) : List ι :=
  history.filterMap fun move => match move.2 with
    | some (.invoke call) => if move.1.1 = t then some call else none
    | _ => none

/-- What the thread was answered, in order. -/
def answersTo [DecidableEq τ] (t : τ) (history : History τ ι ο) : List (ι × ο) :=
  history.filterMap fun move => match move.2 with
    | some (.respond call answer) => if move.1.1 = t then some (call, answer) else none
    | _ => none

/-! ## Critical sections -/

/-- The critical section from the point `k` ends after `n` steps. -/
inductive Completes : Nat → κ → σ → ο → σ → Prop where
  | answer {k s o} (h : M.answer k = some o) : Completes 0 k s o (M.release s)
  | step {n k s o s'} (h : M.answer k = none) (h' : Completes n (M.step k s).1 (M.step k s).2 o s') :
      Completes (n + 1) k s o s'

/-- The critical section from the point `k₀` gets to the point `k`. -/
inductive Reaches (k₀ : κ) (s₀ : σ) : κ → σ → Prop where
  | start : Reaches k₀ s₀ k₀ s₀
  | step {k s} (h : Reaches k₀ s₀ k s) (h' : M.answer k = none) : Reaches k₀ s₀ (M.step k s).1 (M.step k s).2

/-- The calls do what `f` says when nobody interferes. A critical section ends exactly when `f` has an answer. -/
structure Implements (f : σ → ι → Option (ο × σ)) : Prop where
  enter : ∀ {s i o}, M.enter i s = some o → f s i = some (o, s)
  body : ∀ {s i o s'}, M.enter i s = none → M.held s = false →
    ((∃ n, M.Completes n (M.start i) (M.acquire s) o s') ↔ f s i = some (o, s'))

variable {M} {k k₀ : κ} {s s₀ s' : σ} {o : ο} {n : Nat}

theorem Completes.unique {m : Nat} {o' : ο} {s'' : σ} (h : M.Completes n k s o s') (h' : M.Completes m k s o' s'') :
    o' = o ∧ s'' = s' := by
  induction h generalizing m with
  | answer hsome =>
      cases h' with
      | answer hsome' => exact ⟨Option.some.inj (hsome'.symm.trans hsome), rfl⟩
      | step hnone _ => cases hsome.symm.trans hnone
  | step hnone _ ih =>
      cases h' with
      | answer hsome' => cases hnone.symm.trans hsome'
      | step _ hrest' => exact ih hrest'

theorem Completes.exists_step (h : M.Completes n k s o s') (hnone : M.answer k = none) :
    ∃ m, n = m + 1 ∧ M.Completes m (M.step k s).1 (M.step k s).2 o s' := by
  cases h with
  | answer hsome => cases hnone.symm.trans hsome
  | step _ hrest => exact ⟨_, rfl, hrest⟩

theorem Reaches.completes (h : M.Reaches k₀ s₀ k s) (h' : M.Completes n k s o s') : ∃ m, M.Completes m k₀ s₀ o s' := by
  induction h generalizing n with
  | start => exact ⟨n, h'⟩
  | step _ hnone ih => exact ih (.step hnone h')

theorem Reaches.held (h : M.Reaches k₀ s₀ k s) : M.held s = M.held s₀ := by
  induction h with
  | start => rfl
  | step _ _ ih => rw [M.held_step, ih]

theorem Reaches.enter (h : M.Reaches k₀ s₀ k s) (i : ι) : M.enter i s = M.enter i s₀ := by
  induction h with
  | start => rfl
  | step _ _ ih => rw [M.enter_step, ih]

/-- A critical section that ends leaves from every point that it gets to. -/
theorem Reaches.exists_completes (h : M.Reaches k₀ s₀ k s) (h' : M.Completes n k₀ s₀ o s') :
    ∃ m, m ≤ n ∧ M.Completes m k s o s' := by
  induction h with
  | start => exact ⟨n, Nat.le_refl n, h'⟩
  | step _ hnone ih =>
      obtain ⟨m, hm, hcompletes⟩ := ih
      cases hcompletes with
      | answer hsome =>
          rw [hnone] at hsome
          cases hsome
      | step _ hrest => exact ⟨_, by omega, hrest⟩

/-! ## One order -/

section

variable (M) (f : σ → ι → Option (ο × σ))

/-- Who is in the critical section, while the calls that were answered have left the object as it is in `done`. -/
inductive Section (done : σ) : σ → (τ → Control ι κ) → Prop where
  | nobody {c} (h : ∀ t i k, c t ≠ .inside i k) : Section done done c
  | somebody {s c} (t i k) (h : c t = .inside i k) (hothers : ∀ t' i' k', c t' = .inside i' k' → t' = t)
      (henter : M.enter i done = none) (hreaches : M.Reaches (M.start i) (M.acquire done) k s) : Section done s c

/-- The calls that were answered have had their answers from one thread that made them in that order on `s₀`. -/
structure Linearized (s₀ : σ) (st : σ × (τ → Control ι κ)) (history : History τ ι ο) (done : σ) : Prop where
  exec : (Machine.ofPartial f).exec (some s₀) ((responses history).map Prod.fst) = some done
  trace : (Machine.ofPartial f).trace (some s₀) ((responses history).map Prod.fst) =
    (responses history).map fun r => (r.1, some r.2)
  free : M.held done = false
  inside : Section M done st.1 st.2
  waiting : ∀ t i, st.2 t = .waiting i → M.enter i done = none

end

section

variable {f : σ → ι → Option (ο × σ)} {done : σ} {c : τ → Control ι κ} {history : History τ ι ο} {t : τ} {i : ι}

theorem Section.enter (h : M.Section done s c) (i : ι) : M.enter i s = M.enter i done := by
  cases h with
  | nobody h => rfl
  | somebody t i' k h hothers henter hreaches => rw [hreaches.enter, M.enter_acquire]

theorem Section.held_iff (h : M.Section done s c) (hfree : M.held done = false) :
    M.held s = true ↔ ∃ t i k, c t = .inside i k := by
  cases h with
  | nobody h => simp [hfree, h]
  | somebody t i' k h hothers henter hreaches =>
      rw [hreaches.held, M.held_acquire]
      exact iff_of_true rfl ⟨t, i', k, h⟩

theorem Section.eq_done (h : M.Section done s c) (hfree : M.held s = false) : s = done := by
  cases h with
  | nobody h => rfl
  | somebody t i' k h hothers henter hreaches =>
      rw [hreaches.held, M.held_acquire] at hfree
      cases hfree

theorem Section.exclusive (h : M.Section done s c) {t' : τ} {i' : ι} {k' : κ} (ht : c t = .inside i k)
    (ht' : c t' = .inside i' k') : t = t' := by
  cases h with
  | nobody h => exact absurd ht (h t i k)
  | somebody u j l h hothers henter hreaches => rw [hothers t i k ht, hothers t' i' k' ht']

theorem responses_concat (move : τ × ι) (event : Option (Event ι ο)) :
    responses (history ++ [(move, event)]) =
      responses history ++ match event with
        | some (.respond call answer) => [(call, answer)]
        | _ => [] := by
  rw [responses, responses, List.filterMap_append]
  congr 1
  cases event with
  | none => rfl
  | some event => cases event <;> rfl

/-- Nothing is answered. -/
theorem Linearized.silent {s₀ : σ} {st st' : σ × (τ → Control ι κ)} (h : M.Linearized f s₀ st history done)
    (hinside : M.Section done st'.1 st'.2) (hwaiting : ∀ t i, st'.2 t = .waiting i → M.enter i done = none)
    {move : τ × ι} {event : Option (Event ι ο)} (hevent : ∀ call answer, event ≠ some (.respond call answer)) :
    M.Linearized f s₀ st' (history ++ [(move, event)]) done := by
  have hsame : responses (history ++ [(move, event)]) = responses history := by
    rw [responses_concat]
    cases event with
    | none => exact List.append_nil _
    | some event =>
        cases event with
        | invoke call => exact List.append_nil _
        | respond call answer => exact absurd rfl (hevent call answer)
  refine ⟨?_, ?_, h.free, hinside, hwaiting⟩
  · rw [hsame, h.exec]
  · rw [hsame, h.trace]

/-- A call is answered that `f` answers the same. -/
theorem Linearized.respond {s₀ done' : σ} {st st' : σ × (τ → Control ι κ)} (h : M.Linearized f s₀ st history done)
    (hcall : f done i = some (o, done')) (hfree : M.held done' = false) (hinside : M.Section done' st'.1 st'.2)
    (hwaiting : ∀ t i, st'.2 t = .waiting i → M.enter i done' = none) (move : τ × ι) :
    M.Linearized f s₀ st' (history ++ [(move, some (.respond i o))]) done' := by
  have hmore : responses (history ++ [(move, some (.respond i o))]) = responses history ++ [(i, o)] :=
    responses_concat move _
  refine ⟨?_, ?_, hfree, hinside, hwaiting⟩
  · rw [hmore, List.map_append, Machine.exec_append, h.exec]
    exact Machine.ofPartial_next hcall
  · rw [hmore, List.map_append, List.map_append, Machine.trace_append, h.exec, h.trace]
    congr 1
    simp [Machine.ofPartial_out hcall]

variable (M) in
/-- The thread is alone in its critical section, at the point `k`. -/
structure Holds (t : τ) (i : ι) (k : κ) (st : σ × (τ → Control ι κ)) : Prop where
  inside : st.2 t = .inside i k
  alone : ∀ t' i' k', st.2 t' = .inside i' k' → t' = t
  held : M.held st.1 = true

theorem Section.holds (h : M.Section done s c) (ht : c t = .inside i k) (hfree : M.held done = false) :
    M.Holds t i k (s, c) where
  inside := ht
  alone _ _ _ ht' := h.exclusive ht' ht
  held := (h.held_iff hfree).mpr ⟨t, i, k, ht⟩

theorem Linearized.pending {s₀ : σ} {st : σ × (τ → Control ι κ)} (h : M.Linearized f s₀ st history done)
    (ht : st.2 t = .inside i k) :
    M.enter i done = none ∧ M.Reaches (M.start i) (M.acquire done) k st.1 ∧ M.Holds t i k st := by
  have hholds : M.Holds t i k st := h.inside.holds ht h.free
  obtain ⟨s, c⟩ := st
  have hc : c t = .inside i k := ht
  cases h.inside with
  | nobody hnobody => exact absurd ht (hnobody t i k)
  | somebody u j l hu hothers henter hreaches =>
      have hcu : c u = .inside j l := hu
      obtain rfl := hothers t i k ht
      rw [hc] at hcu
      cases hcu
      exact ⟨henter, hreaches, hholds⟩

variable [DecidableEq τ]

/-- A thread that is outside and stays there. -/
theorem Section.move (h : M.Section done s c) (ht : ∀ i k, c t ≠ .inside i k) {here : Control ι κ}
    (hhere : ∀ i k, here ≠ .inside i k) : M.Section done s (Function.update c t here) := by
  cases h with
  | nobody h =>
      refine .nobody fun t' i k => ?_
      rw [Function.update_apply]
      split
      · exact hhere i k
      · exact h t' i k
  | somebody u j l h hothers henter hreaches =>
      have hne : u ≠ t := by
        rintro rfl
        exact ht j l h
      refine .somebody u j l ?_ (fun t' i' k' h' => ?_) henter hreaches
      · rw [Function.update_of_ne hne, h]
      · rw [Function.update_apply] at h'
        split at h'
        · exact absurd h' (hhere i' k')
        · exact hothers t' i' k' h'

theorem waiting_move {P : ι → Prop} (h : ∀ t i, c t = .waiting i → P i) {here : Control ι κ}
    (hhere : ∀ i, here = .waiting i → P i) (t' : τ) (i : ι) (h' : Function.update c t here t' = .waiting i) : P i := by
  rw [Function.update_apply] at h'
  split at h'
  · exact hhere i h'
  · exact h t' i h'

/-- A thread that moves while nobody else is inside is the only one that can be. -/
theorem inside_move (h : ∀ t' i' k', c t' = .inside i' k' → t' = t) {here : Control ι κ} (t' : τ) (i' : ι) (k' : κ)
    (h' : Function.update c t here t' = .inside i' k') : t' = t := by
  by_contra hne
  rw [Function.update_of_ne hne] at h'
  exact hne (h t' i' k' h')

theorem Section.leave (h : ∀ t' i' k', c t' = .inside i' k' → t' = t) (done : σ) :
    M.Section done done (Function.update c t .idle) := by
  refine .nobody fun t' i' k' h' => ?_
  obtain rfl := inside_move h t' i' k' h'
  rw [Function.update_self] at h'
  cases h'

theorem Linearized.next (hf : M.Implements f) {s₀ : σ} (h : M.Linearized f s₀ (s, c) history done) (t : τ) (i : ι) :
    ∃ done', M.Linearized f s₀ (M.concurrent.next (s, c) (t, i))
      (history ++ [((t, i), M.concurrent.out (s, c) (t, i))]) done' := by
  simp only [Machine.next, Machine.out, concurrent]
  cases hc : c t with
  | idle =>
      have hout : ∀ i k, c t ≠ .inside i k := by simp [hc]
      refine ⟨done, ?_⟩
      simp only [advance]
      exact h.silent (h.inside.move hout (by simp)) (waiting_move h.waiting (by simp)) (by simp)
  | called call =>
      have hout : ∀ i k, c t ≠ .inside i k := by simp [hc]
      cases henter : M.enter call s with
      | some answer =>
          have hcall : f done call = some (answer, done) := hf.enter (by rw [← h.inside.enter, henter])
          refine ⟨done, ?_⟩
          simp only [advance, henter]
          exact h.respond hcall h.free (h.inside.move hout (by simp)) (waiting_move h.waiting (by simp)) (t, i)
      | none =>
          have hwaits : M.enter call done = none := by rw [← h.inside.enter, henter]
          refine ⟨done, ?_⟩
          simp only [advance, henter]
          refine h.silent (h.inside.move hout (by simp)) (waiting_move h.waiting fun i hi => ?_) (by simp)
          cases hi
          exact hwaits
  | waiting call =>
      have hout : ∀ i k, c t ≠ .inside i k := by simp [hc]
      cases hheld : M.held s with
      | true =>
          refine ⟨done, ?_⟩
          simp only [advance, hheld, if_true]
          refine h.silent (h.inside.move hout (by simp)) (waiting_move h.waiting fun i hi => ?_) (by simp)
          cases hi
          exact h.waiting t call hc
      | false =>
          obtain rfl := h.inside.eq_done hheld
          have hnobody : ∀ t' i' k', c t' = .inside i' k' → t' = t := by
            intro t' i' k' hinside
            have hheld' := (h.inside.held_iff h.free).mpr ⟨t', i', k', hinside⟩
            rw [hheld] at hheld'
            cases hheld'
          refine ⟨s, ?_⟩
          simp only [advance, hheld, Bool.false_eq_true, if_false]
          refine h.silent ?_ (waiting_move h.waiting (by simp)) (by simp)
          exact .somebody t call (M.start call) (Function.update_self ..) (inside_move hnobody)
            (h.waiting t call hc) .start
  | inside call point =>
      cases h.inside with
      | nobody hnobody => exact absurd hc (hnobody t call point)
      | somebody u j l hu hothers henter hreaches =>
          obtain rfl := hothers t call point hc
          rw [show c t = .inside j l from hu] at hc
          cases hc
          cases hanswer : M.answer point with
          | some answer =>
              obtain ⟨n, hcompletes⟩ := hreaches.completes (.answer hanswer)
              have hcall := (hf.body henter h.free).mp ⟨n, hcompletes⟩
              refine ⟨M.release s, ?_⟩
              simp only [advance, hanswer]
              refine h.respond hcall (M.held_release s) (.leave hothers (M.release s))
                (waiting_move (fun t' i' hi' => ?_) (by simp)) (t, i)
              rw [M.enter_release, h.inside.enter]
              exact h.waiting t' i' hi'
          | none =>
              refine ⟨done, ?_⟩
              simp only [advance, hanswer]
              refine h.silent ?_ (waiting_move h.waiting (by simp)) (by simp)
              exact .somebody t call _ (Function.update_self ..) (inside_move hothers) henter (hreaches.step hanswer)

/-- Whatever steps the threads take, the calls that were answered are linearized. -/
theorem linearized (hf : M.Implements f) (hfree : M.held s = false) (moves : List (τ × ι)) :
    ∃ done, M.Linearized f s ((M.concurrent).exec (s, fun _ => .idle) moves)
      ((M.concurrent).trace (s, fun _ => .idle) moves) done := by
  have hstep : ∀ (st : σ × (τ → Control ι κ)) (history : History τ ι ο) (move : τ × ι),
      (∃ done, M.Linearized f s st history done) →
        ∃ done, M.Linearized f s (M.concurrent.next st move) (history ++ [(move, M.concurrent.out st move)]) done := by
    rintro st history move ⟨done, h⟩
    exact h.next hf move.1 move.2
  have hstart : ∃ done, M.Linearized f s ((s, fun _ => .idle) : σ × (τ → Control ι κ)) [] done :=
    ⟨s, rfl, rfl, hfree, .nobody (by simp), by simp⟩
  exact Machine.history_invariant hstep hstart moves

theorem invokedBy_concat (move : τ × ι) (event : Option (Event ι ο)) :
    invokedBy t (history ++ [(move, event)]) =
      invokedBy t history ++ match event with
        | some (.invoke call) => if move.1 = t then [call] else []
        | _ => [] := by
  rw [invokedBy, invokedBy, List.filterMap_append]
  congr 1
  cases event with
  | none => rfl
  | some event =>
      cases event with
      | invoke call => by_cases h : move.1 = t <;> simp [h]
      | respond call answer => rfl

theorem answersTo_concat (move : τ × ι) (event : Option (Event ι ο)) :
    answersTo t (history ++ [(move, event)]) =
      answersTo t history ++ match event with
        | some (.respond call answer) => if move.1 = t then [(call, answer)] else []
        | _ => [] := by
  rw [answersTo, answersTo, List.filterMap_append]
  congr 1
  cases event with
  | none => rfl
  | some event =>
      cases event with
      | invoke call => rfl
      | respond call answer => by_cases h : move.1 = t <;> simp [h]

/-- A thread is answered what it called, each call once and in its order; the call it made last may be pending. -/
theorem invokedBy_eq (s : σ) (t : τ) (moves : List (τ × ι)) :
    invokedBy t (M.concurrent.trace (s, fun _ => .idle) moves) =
      (answersTo t (M.concurrent.trace (s, fun _ => .idle) moves)).map Prod.fst ++
        ((M.concurrent.exec (s, fun _ => .idle) moves).2 t).pending := by
  have hstep : ∀ (st : σ × (τ → Control ι κ)) (history : History τ ι ο) (move : τ × ι),
      invokedBy t history = (answersTo t history).map Prod.fst ++ (st.2 t).pending →
        invokedBy t (history ++ [(move, M.concurrent.out st move)]) =
          (answersTo t (history ++ [(move, M.concurrent.out st move)])).map Prod.fst ++
            ((M.concurrent.next st move).2 t).pending := by
    rintro ⟨s, c⟩ history ⟨u, i⟩ h
    rw [invokedBy_concat, answersTo_concat, h]
    simp only [Machine.next, Machine.out, concurrent]
    by_cases hu : u = t
    · obtain rfl := hu
      rw [Function.update_self]
      cases hc : c u with
      | idle => simp [advance, Control.pending]
      | called call => cases henter : M.enter call s <;> simp [advance, henter, Control.pending]
      | waiting call => cases hheld : M.held s <;> simp [advance, hheld, Control.pending]
      | inside call point => cases hanswer : M.answer point <;> simp [advance, hanswer, Control.pending]
    · rw [Function.update_of_ne (Ne.symm hu)]
      cases M.advance s i (c u) with
      | mk event rest =>
          cases event with
          | none => simp
          | some event => cases event <;> simp [hu]
  exact Machine.history_invariant hstep rfl moves

/-! ## Progress -/

/-- Nobody else changes the object meanwhile. -/
theorem Holds.other {st : σ × (τ → Control ι κ)} (h : M.Holds t i k st) {u : τ} (hu : u ≠ t) (j : ι) :
    M.Holds t i k (M.concurrent.next st (u, j)) ∧ (M.concurrent.next st (u, j)).1 = st.1 ∧
      ∀ moves, answersTo t (M.concurrent.trace st ((u, j) :: moves)) =
        answersTo t (M.concurrent.trace (M.concurrent.next st (u, j)) moves) := by
  obtain ⟨s, c⟩ := st
  have hout : ∀ j k, c u ≠ .inside j k := fun j k hinside => hu (h.alone u j k hinside)
  have hsame : (M.advance s j (c u)).2.1 = s ∧ ∀ i' k', (M.advance s j (c u)).2.2 ≠ .inside i' k' := by
    cases hc : c u with
    | idle => simp [advance]
    | called call => cases henter : M.enter call s <;> simp [advance, henter]
    | waiting call =>
        have hheld : M.held s = true := h.held
        simp [advance, hheld]
    | inside call point => exact absurd hc (hout call point)
  refine ⟨⟨?_, fun t' i' k' h' => ?_, ?_⟩, hsame.1, fun moves => ?_⟩
  · exact (Function.update_of_ne (Ne.symm hu) ..).trans h.inside
  · have h'' : Function.update c u (M.advance s j (c u)).2.2 t' = .inside i' k' := h'
    rw [Function.update_apply] at h''
    split at h''
    · exact absurd h'' (hsame.2 i' k')
    · exact h.alone t' i' k' h''
  · rw [show (M.concurrent.next (s, c) (u, j)).1 = s from hsame.1]
    exact h.held
  · rw [Machine.trace_cons, answersTo, List.filterMap_cons]
    simp only [hu, if_false]
    cases M.concurrent.out (s, c) (u, j) with
    | none => rfl
    | some event => cases event <;> rfl

theorem Holds.own {st : σ × (τ → Control ι κ)} (h : M.Holds t i k st) (hnone : M.answer k = none) (j : ι) :
    M.Holds t i (M.step k st.1).1 (M.concurrent.next st (t, j)) ∧
      (M.concurrent.next st (t, j)).1 = (M.step k st.1).2 ∧
        ∀ moves, answersTo t (M.concurrent.trace st ((t, j) :: moves)) =
          answersTo t (M.concurrent.trace (M.concurrent.next st (t, j)) moves) := by
  obtain ⟨s, c⟩ := st
  have hc : c t = .inside i k := h.inside
  have hadvance : M.advance s j (c t) = (none, (M.step k s).2, .inside i (M.step k s).1) := by
    simp only [hc, advance, hnone]
  have hnext : M.concurrent.next (s, c) (t, j) =
      ((M.step k s).2, Function.update c t (.inside i (M.step k s).1)) := by
    simp only [Machine.next, concurrent, hadvance]
  have hout : M.concurrent.out (s, c) (t, j) = none := by simp only [Machine.out, concurrent, hadvance]
  rw [hnext]
  refine ⟨⟨Function.update_self .., inside_move h.alone, ?_⟩, rfl, fun moves => ?_⟩
  · exact (M.held_step k s).trans h.held
  · rw [Machine.trace_cons, hout, hnext]
    rfl

/-- A critical section that ends is over after so many steps of its own thread, whatever the others do in between. -/
theorem Holds.answered {st : σ × (τ → Control ι κ)} (h : M.Holds t i k st) (hcompletes : M.Completes n k st.1 o s')
    {moves : List (τ × ι)} (hmoves : n < moves.countP fun move => move.1 = t) :
    ∃ rest, answersTo t (M.concurrent.trace st moves) = (i, o) :: rest := by
  induction moves generalizing n k st with
  | nil => simp at hmoves
  | cons move moves ih =>
      obtain ⟨u, j⟩ := move
      by_cases hu : u = t
      · obtain rfl := hu
        rw [List.countP_cons_of_pos (by simp)] at hmoves
        cases hcompletes with
        | answer hsome =>
            obtain ⟨s, c⟩ := st
            have hc : c u = .inside i k := h.inside
            have hout : M.concurrent.out (s, c) (u, j) = some (.respond i o) := by
              simp only [Machine.out, concurrent, hc, advance, hsome]
            refine ⟨answersTo u (M.concurrent.trace (M.concurrent.next (s, c) (u, j)) moves), ?_⟩
            rw [Machine.trace_cons, hout, answersTo, List.filterMap_cons]
            simp only [if_true]
            rfl
        | step hnone hrest =>
            obtain ⟨h', hsame, hanswers⟩ := h.own hnone j
            rw [hanswers]
            rw [← hsame] at hrest
            exact ih h' hrest (by omega)
      · rw [List.countP_cons_of_neg (by simpa using hu)] at hmoves
        obtain ⟨h', hsame, hanswers⟩ := h.other hu j
        rw [hanswers]
        rw [← hsame] at hcompletes
        exact ih h' hcompletes hmoves

/-- A critical section that does not end keeps the lock. -/
theorem Holds.stuck {st : σ × (τ → Control ι κ)} (h : M.Holds t i k st)
    (hnever : ∀ n o s', ¬ M.Completes n k st.1 o s') (moves : List (τ × ι)) :
    ∃ k', M.Holds t i k' (M.concurrent.exec st moves) := by
  induction moves generalizing k st with
  | nil => exact ⟨k, h⟩
  | cons move moves ih =>
      obtain ⟨u, j⟩ := move
      by_cases hu : u = t
      · obtain rfl := hu
        cases hanswer : M.answer k with
        | some answer => exact absurd (.answer hanswer) (hnever 0 answer (M.release st.1))
        | none =>
            obtain ⟨h', hsame, _⟩ := h.own hanswer j
            refine ih h' fun n o s' hcompletes => hnever (n + 1) o s' (.step hanswer ?_)
            rwa [hsame] at hcompletes
      · obtain ⟨h', hsame, _⟩ := h.other hu j
        refine ih h' fun n o s' hcompletes => hnever n o s' ?_
        rwa [hsame] at hcompletes

/-- A thread that is inside is answered after so many of its own steps as it would need alone. -/
theorem Linearized.answered {s₀ : σ} {st : σ × (τ → Control ι κ)} (h : M.Linearized f s₀ st history done)
    (ht : st.2 t = .inside i k) (hcompletes : M.Completes n (M.start i) (M.acquire done) o s') {moves : List (τ × ι)}
    (hmoves : n < moves.countP fun move => move.1 = t) :
    ∃ rest, answersTo t (M.concurrent.trace st moves) = (i, o) :: rest := by
  obtain ⟨_, hreaches, hholds⟩ := h.pending ht
  obtain ⟨m, hm, hrest⟩ := hreaches.exists_completes hcompletes
  exact hholds.answered hrest (Nat.lt_of_le_of_lt hm hmoves)

/-- A thread that is inside a call without an answer keeps the lock for ever. -/
theorem Linearized.stuck (hf : M.Implements f) {s₀ : σ} {st : σ × (τ → Control ι κ)}
    (h : M.Linearized f s₀ st history done) (ht : st.2 t = .inside i k) (hnone : f done i = none)
    (moves : List (τ × ι)) : ∃ k', M.Holds t i k' (M.concurrent.exec st moves) := by
  obtain ⟨henter, hreaches, hholds⟩ := h.pending ht
  refine hholds.stuck (fun n o s' hcompletes => ?_) moves
  obtain hcall := (hf.body henter h.free).mp (hreaches.completes hcompletes)
  rw [hnone] at hcall
  cases hcall

end

end Monitor

end Lib
