import Mathlib.Tactic.TypeStar
import Mathlib.Tactic.Common

/-!
# State machines and their runs

A machine answers each call with an output and moves to a next state. What holds over a whole run is
derived from one step: an invariant, a property of every state passed, an invariant that also reads the
history of the run, and a simulation between two machines.
-/

namespace Lib

/-- `step s i` is the output of the call `i` in the state `s`, with the state after it. -/
structure Machine (σ ι ο : Type*) where
  step : σ → ι → ο × σ

namespace Machine

variable {σ τ ι ο ο' : Type*} (M : Machine σ ι ο)

def out (s : σ) (i : ι) : ο := (M.step s i).1

def next (s : σ) (i : ι) : σ := (M.step s i).2

/-! ## Runs -/

def exec : σ → List ι → σ
  | s, [] => s
  | s, i :: is => exec (M.next s i) is

/-- The history of a run: each call with what it returned. -/
def trace : σ → List ι → List (ι × ο)
  | _, [] => []
  | s, i :: is => (i, M.out s i) :: trace (M.next s i) is

@[simp] theorem exec_nil (s : σ) : M.exec s [] = s := rfl

@[simp] theorem exec_cons (s : σ) (i : ι) (is : List ι) : M.exec s (i :: is) = M.exec (M.next s i) is := rfl

@[simp] theorem trace_nil (s : σ) : M.trace s [] = [] := rfl

@[simp] theorem trace_cons (s : σ) (i : ι) (is : List ι) :
    M.trace s (i :: is) = (i, M.out s i) :: M.trace (M.next s i) is := rfl

theorem exec_append (s : σ) (is js : List ι) : M.exec s (is ++ js) = M.exec (M.exec s is) js := by
  induction is generalizing s with
  | nil => rfl
  | cons i is ih => exact ih (M.next s i)

theorem trace_append (s : σ) (is js : List ι) : M.trace s (is ++ js) = M.trace s is ++ M.trace (M.exec s is) js := by
  induction is generalizing s with
  | nil => rfl
  | cons i is ih => exact congrArg _ (ih (M.next s i))

theorem exists_out_of_mem_trace {s : σ} {is : List ι} {call : ι × ο} (h : call ∈ M.trace s is) :
    ∃ s', M.out s' call.1 = call.2 := by
  induction is generalizing s with
  | nil => cases h
  | cons i is ih =>
      cases h with
      | head => exact ⟨s, rfl⟩
      | tail _ h => exact ih h

theorem map_fst_trace (s : σ) (is : List ι) : (M.trace s is).map Prod.fst = is := by
  induction is generalizing s with
  | nil => rfl
  | cons i is ih => exact congrArg (i :: ·) (ih (M.next s i))

/-! ## Invariants -/

variable {M}

theorem exec_invariant {Inv : σ → Prop} (hstep : ∀ s i, Inv s → Inv (M.next s i)) {s : σ} (hs : Inv s)
    (is : List ι) : Inv (M.exec s is) := by
  induction is generalizing s with
  | nil => exact hs
  | cons i is ih => exact ih (hstep s i hs)

/-- An invariant of the state and the history: it holds with the empty history at the start and is kept
when a call and its output are added at the end. -/
theorem history_invariant {Inv : σ → List (ι × ο) → Prop}
    (hstep : ∀ s h i, Inv s h → Inv (M.next s i) (h ++ [(i, M.out s i)])) {s : σ} (hs : Inv s [])
    (is : List ι) : Inv (M.exec s is) (M.trace s is) := by
  have hgen : ∀ (is : List ι) (s : σ) (h : List (ι × ο)), Inv s h →
      Inv (M.exec s is) (h ++ M.trace s is) := by
    intro is
    induction is with
    | nil => intro s h hs; simpa using hs
    | cons i is ih => intro s h hs; simpa using ih _ _ (hstep s h i hs)
  simpa using hgen is s [] hs

/-! ## Conditions on the steps and on the states of a run -/

variable (M)

/-- `P` holds of every step of the run, read in the state before the step. -/
def Along (P : σ → ι → Prop) : σ → List ι → Prop
  | _, [] => True
  | s, i :: is => P s i ∧ Along P (M.next s i) is

/-- `Q` holds in every state of the run, the first and the last included. -/
def Always (Q : σ → Prop) : σ → List ι → Prop
  | s, [] => Q s
  | s, i :: is => Q s ∧ Always Q (M.next s i) is

instance decidableAlong (P : σ → ι → Prop) [∀ s i, Decidable (P s i)] :
    (s : σ) → (is : List ι) → Decidable (M.Along P s is)
  | _, [] => inferInstanceAs (Decidable True)
  | s, i :: is =>
      have := decidableAlong P (M.next s i) is
      inferInstanceAs (Decidable (P s i ∧ M.Along P (M.next s i) is))

variable {M}

theorem Always.head {Q : σ → Prop} {s : σ} {is : List ι} (h : M.Always Q s is) : Q s := by
  cases is with
  | nil => exact h
  | cons i is => exact h.1

theorem Always.exec {Q : σ → Prop} {s : σ} {is : List ι} (h : M.Always Q s is) : Q (M.exec s is) := by
  induction is generalizing s with
  | nil => exact h
  | cons i is ih => exact ih h.2

theorem always_append {Q : σ → Prop} {s : σ} {is js : List ι} (h : M.Always Q s is) (h' : M.Always Q (M.exec s is) js) :
    M.Always Q s (is ++ js) := by
  induction is generalizing s with
  | nil => exact h'
  | cons i is ih => exact ⟨h.1, ih h.2 h'⟩

theorem along_append {P : σ → ι → Prop} {s : σ} {is js : List ι} :
    M.Along P s (is ++ js) ↔ M.Along P s is ∧ M.Along P (M.exec s is) js := by
  induction is generalizing s with
  | nil => simp only [List.nil_append, Along, exec_nil, true_and]
  | cons i is ih => simp only [List.cons_append, Along, exec_cons, ih, and_assoc]

theorem Along.mono {P P' : σ → ι → Prop} (hP : ∀ s i, P s i → P' s i) {s : σ} {is : List ι}
    (h : M.Along P s is) : M.Along P' s is := by
  induction is generalizing s with
  | nil => trivial
  | cons i is ih => exact ⟨hP s i h.1, ih h.2⟩

theorem Always.mono {Q Q' : σ → Prop} (hQ : ∀ s, Q s → Q' s) {s : σ} {is : List ι}
    (h : M.Always Q s is) : M.Always Q' s is := by
  induction is generalizing s with
  | nil => exact hQ s h
  | cons i is ih => exact ⟨hQ s h.1, ih h.2⟩

theorem along_of_forall {P : ι → Prop} {s : σ} {is : List ι} (h : ∀ i ∈ is, P i) :
    M.Along (fun _ i => P i) s is := by
  induction is generalizing s with
  | nil => trivial
  | cons i is ih => exact ⟨h i List.mem_cons_self, ih fun j hj => h j (List.mem_cons_of_mem i hj)⟩

theorem Along.and {P P' : σ → ι → Prop} {s : σ} {is : List ι} (h : M.Along P s is) (h' : M.Along P' s is) :
    M.Along (fun s i => P s i ∧ P' s i) s is := by
  induction is generalizing s with
  | nil => trivial
  | cons i is ih => exact ⟨⟨h.1, h'.1⟩, ih h.2 h'.2⟩

theorem Always.along {Q : σ → Prop} {s : σ} {is : List ι} (h : M.Always Q s is) :
    M.Along (fun s _ => Q s) s is := by
  induction is generalizing s with
  | nil => trivial
  | cons i is ih => exact ⟨h.1, ih h.2⟩

/-- An invariant that the steps meeting `P` keep holds throughout a run of such steps. -/
theorem always_of_along {P : σ → ι → Prop} {Inv : σ → Prop}
    (hstep : ∀ s i, Inv s → P s i → Inv (M.next s i)) {s : σ} (hs : Inv s) {is : List ι}
    (h : M.Along P s is) : M.Always Inv s is := by
  induction is generalizing s with
  | nil => exact hs
  | cons i is ih => exact ⟨hs, ih (hstep s i hs h.1) h.2⟩

/-- In a run whose steps all meet `H`: when the steps meeting `P` keep an invariant that gives `Q`, and every
other step breaks `Q` at once, the run keeps `Q` exactly when its steps all meet `P`. -/
theorem always_iff_along_of {H P : σ → ι → Prop} {Inv Q : σ → Prop} (hQ : ∀ s, Inv s → Q s)
    (hkeep : ∀ s i, Inv s → H s i → P s i → Inv (M.next s i))
    (hbreak : ∀ s i, Inv s → H s i → ¬ P s i → ¬ Q (M.next s i)) {s : σ} (hs : Inv s) {is : List ι}
    (h : M.Along H s is) : M.Always Q s is ↔ M.Along P s is := by
  induction is generalizing s with
  | nil => exact iff_of_true (hQ s hs) trivial
  | cons i is ih =>
      obtain ⟨hH, hrest⟩ := h
      by_cases hP : P s i
      · simp only [Always, Along, ih (hkeep s i hs hH hP) hrest, hQ s hs, hP]
      · refine iff_of_false (fun hall => ?_) (fun hall => hP hall.1)
        exact hbreak s i hs hH hP hall.2.head

theorem always_iff_along {P : σ → ι → Prop} {Inv Q : σ → Prop} (hQ : ∀ s, Inv s → Q s)
    (hkeep : ∀ s i, Inv s → P s i → Inv (M.next s i))
    (hbreak : ∀ s i, Inv s → ¬ P s i → ¬ Q (M.next s i)) {s : σ} (hs : Inv s) {is : List ι} :
    M.Always Q s is ↔ M.Along P s is :=
  always_iff_along_of hQ (fun s i h _ => hkeep s i h) (fun s i h _ => hbreak s i h) hs
    (along_of_forall fun _ _ => trivial)

/-- In a run whose steps all meet `H`: when `K` and `P` agree on each step taken under an invariant, and the steps
meeting `P` keep the invariant, `K` holds of every step of the run exactly when `P` does. -/
theorem along_iff_along_of {H K P : σ → ι → Prop} {Inv : σ → Prop} (hiff : ∀ s i, Inv s → H s i → (K s i ↔ P s i))
    (hkeep : ∀ s i, Inv s → H s i → P s i → Inv (M.next s i)) {s : σ} (hs : Inv s) {is : List ι} (h : M.Along H s is) :
    M.Along K s is ↔ M.Along P s is := by
  induction is generalizing s with
  | nil => exact Iff.rfl
  | cons i is ih =>
      obtain ⟨hH, hrest⟩ := h
      simp only [Along, hiff s i hs hH]
      exact and_congr_right fun hP => ih (hkeep s i hs hH hP) hrest

/-- What is read of the state is frozen: once it meets `F` it stays as it is to the end of the run. -/
def Frozen {α : Type*} (M : Machine σ ι ο) (view : σ → α) (F : α → Prop) (s : σ) (is : List ι) : Prop :=
  ∀ before later rest, is = before ++ later ++ rest → F (view (M.exec s before)) →
    view (M.exec s (before ++ later)) = view (M.exec s before)

theorem frozen_iff_along {α : Type*} {view : σ → α} {F : α → Prop} {s : σ} {is : List ι} :
    M.Frozen view F s is ↔ M.Along (fun s i => F (view s) → view (M.next s i) = view s) s is := by
  induction is generalizing s with
  | nil =>
      refine iff_of_true (fun before later rest h _ => ?_) trivial
      obtain ⟨⟨rfl, rfl⟩, rfl⟩ : (before = [] ∧ later = []) ∧ rest = [] := by simpa [and_assoc] using h
      rfl
  | cons i is ih =>
      rw [Along, ← ih]
      constructor
      · intro h
        refine ⟨h [] [i] is rfl, fun before later rest he => ?_⟩
        exact h (i :: before) later rest (congrArg _ he)
      · rintro ⟨hstep, hrest⟩ before later rest he hF
        cases before with
        | nil =>
            cases later with
            | nil => rfl
            | cons j later =>
                obtain ⟨rfl, htail⟩ := List.cons_eq_cons.mp he
                have hkept := hstep hF
                have hlater := hrest [] later rest htail (by rwa [exec_nil, hkept])
                exact hlater.trans hkept
        | cons j before =>
            obtain ⟨rfl, htail⟩ := List.cons_eq_cons.mp he
            exact hrest before later rest htail hF

/-! ## Ghost state -/

section

variable (M) {γ : Type*} (g : σ → ι → ο → γ → γ)

/-- The machine that keeps ghost state: `g` reads the state before a call, the call and its output. -/
def withGhost : Machine (σ × γ) ι ο where
  step s i := (M.out s.1 i, (M.next s.1 i, g s.1 i (M.out s.1 i) s.2))

@[simp] theorem withGhost_next (s : σ) (c : γ) (i : ι) :
    (M.withGhost g).next (s, c) i = (M.next s i, g s i (M.out s i) c) := rfl

theorem withGhost_along {P : σ → ι → Prop} {s : σ} {c : γ} {is : List ι} :
    (M.withGhost g).Along (fun s => P s.1) (s, c) is ↔ M.Along P s is := by
  induction is generalizing s c with
  | nil => exact Iff.rfl
  | cons i is ih => simp only [Along, withGhost_next, ih]

end

/-! ## Calls that may have no result -/

/-- The machine of calls that may have no result. After a call without one, the run has no state. -/
def ofPartial (f : σ → ι → Option (ο × σ)) : Machine (Option σ) ι (Option ο) where
  step s i :=
    let r := s.bind fun s => f s i
    (r.map Prod.fst, r.map Prod.snd)

section

variable {f : σ → ι → Option (ο × σ)} {s s' : σ} {i : ι} {o : ο}

theorem ofPartial_next (h : f s i = some (o, s')) : (ofPartial f).next (some s) i = some s' := by
  simp [next, ofPartial, h]

theorem ofPartial_out (h : f s i = some (o, s')) : (ofPartial f).out (some s) i = some o := by
  simp [out, ofPartial, h]

variable (f) in
/-- The calls may be given by what stands for them. -/
theorem ofPartial_comap {κ : Type*} (g : κ → ι) (s : Option σ) (js : List κ) :
    (ofPartial fun s j => f s (g j)).exec s js = (ofPartial f).exec s (js.map g) ∧
      ((ofPartial fun s j => f s (g j)).trace s js).map (fun call => (g call.1, call.2)) =
        (ofPartial f).trace s (js.map g) := by
  induction js generalizing s with
  | nil => exact ⟨rfl, rfl⟩
  | cons j js ih =>
      obtain ⟨hexec, htrace⟩ := ih ((ofPartial f).next s (g j))
      exact ⟨hexec, congrArg ((g j, (ofPartial f).out s (g j)) :: ·) htrace⟩

theorem withGhost_ofPartial_next {γ : Type*} (g : Option σ → ι → Option ο → γ → γ) (h : f s i = some (o, s')) (c : γ) :
    ((ofPartial f).withGhost g).next (some s, c) i = (some s', g (some s) i (some o) c) := by
  rw [withGhost_next, ofPartial_next h, ofPartial_out h]

end

/-! ## Runs that look alike -/

section

variable {κ : Type*} {f : σ → ι → Option (ο × σ)} {view : σ → τ} {blur : ι → κ}

/-- The calls answer alike and leave states that look alike, in states and at calls that do. -/
def RespectsView (f : σ → ι → Option (ο × σ)) (view : σ → τ) (blur : ι → κ) : Prop :=
  ∀ s s' i i', view s = view s' → blur i = blur i' →
    (f s i).map (Prod.map id view) = (f s' i').map (Prod.map id view)

theorem RespectsView.run (h : RespectsView f view blur) {s s' : Option σ} (hs : s.map view = s'.map view)
    {is is' : List ι} (his : is.map blur = is'.map blur) :
    ((ofPartial f).trace s is).map Prod.snd = ((ofPartial f).trace s' is').map Prod.snd ∧
      ((ofPartial f).exec s is).map view = ((ofPartial f).exec s' is').map view := by
  induction is generalizing s s' is' with
  | nil =>
      obtain rfl : is' = [] := List.map_eq_nil_iff.mp his.symm
      exact ⟨rfl, hs⟩
  | cons i is ih =>
      cases is' with
      | nil => cases his
      | cons i' is' =>
          obtain ⟨hi, his⟩ := List.cons_eq_cons.mp his
          have hstep : (s.bind fun s => f s i).map (Prod.map id view) =
              (s'.bind fun s => f s i').map (Prod.map id view) := by
            cases s with
            | none =>
                obtain rfl : s' = none := Option.map_eq_none_iff.mp hs.symm
                rfl
            | some s =>
                obtain ⟨s', rfl, hs'⟩ := Option.map_eq_some_iff.mp hs.symm
                exact h s s' i i' hs'.symm hi
          have hout : (ofPartial f).out s i = (ofPartial f).out s' i' := by
            have hfst := congrArg (Option.map Prod.fst) hstep
            rwa [Option.map_map, Option.map_map] at hfst
          have hnext : ((ofPartial f).next s i).map view = ((ofPartial f).next s' i').map view := by
            have hsnd := congrArg (Option.map Prod.snd) hstep
            rw [Option.map_map, Option.map_map] at hsnd
            simp only [next, ofPartial, Option.map_map]
            exact hsnd
          obtain ⟨htrace, hexec⟩ := ih hnext his
          exact ⟨by rw [trace_cons, trace_cons, List.map_cons, List.map_cons, htrace, hout], hexec⟩

end

/-! ## Instrumented machines -/

section

variable {f : σ → ι → Option (ο × σ)} {g : τ → ι → Option (ο × τ)} {view : σ → τ}

/-- The states of `f` carry more than those of `g`, and the calls do the same with what `view` leaves. -/
def Projects (f : σ → ι → Option (ο × σ)) (g : τ → ι → Option (ο × τ)) (view : σ → τ) : Prop :=
  ∀ s i, (f s i).map (Prod.map id view) = g (view s) i

theorem Projects.next (h : Projects f g view) (s : Option σ) (i : ι) :
    ((ofPartial f).next s i).map view = (ofPartial g).next (s.map view) i := by
  cases s with
  | none => rfl
  | some s =>
      have hstep : (ofPartial g).next ((some s).map view) i = (g (view s) i).map Prod.snd := rfl
      rw [hstep, ← h s i, Option.map_map]
      exact Option.map_map ..

theorem Projects.along (h : Projects f g view) {P : Option τ → ι → Prop} {s : Option σ} {is : List ι} :
    (ofPartial f).Along (fun s i => P (s.map view) i) s is ↔ (ofPartial g).Along P (s.map view) is := by
  induction is generalizing s with
  | nil => exact Iff.rfl
  | cons i is ih => rw [Along, Along, ih, h.next]

end

/-! ## Simulations -/

/-- Related states answer a call with related outputs and move to related states. -/
structure Simulation (M : Machine σ ι ο) (N : Machine τ ι ο') (R : σ → τ → Prop) (V : ι → ο → ο' → Prop) :
    Prop where
  out : ∀ s t i, R s t → V i (M.out s i) (N.out t i)
  next : ∀ s t i, R s t → R (M.next s i) (N.next t i)

variable {N : Machine τ ι ο'} {R : σ → τ → Prop} {V : ι → ο → ο' → Prop}

theorem Simulation.exec (h : Simulation M N R V) {s : σ} {t : τ} (hst : R s t) (is : List ι) :
    R (M.exec s is) (N.exec t is) := by
  induction is generalizing s t with
  | nil => exact hst
  | cons i is ih => exact ih (h.next s t i hst)

theorem Simulation.trace (h : Simulation M N R V) {s : σ} {t : τ} (hst : R s t) (is : List ι) :
    List.Forall₂ (fun call call' => call.1 = call'.1 ∧ V call.1 call.2 call'.2) (M.trace s is) (N.trace t is) := by
  induction is generalizing s t with
  | nil => exact .nil
  | cons i is ih => exact .cons ⟨rfl, h.out s t i hst⟩ (ih (h.next s t i hst))

/-- When every call that meets `P` has a result, and it is the one of `N`, a run of such calls is answered as `N` answers
it. -/
theorem ofPartial_refines {f : σ → ι → Option (ο × σ)} {N : Machine τ ι ο} {P : τ → ι → Prop} {R : τ → σ → Prop}
    (hstep : ∀ t s i, R t s → P t i → ∃ s', f s i = some (N.out t i, s') ∧ R (N.next t i) s') {t : τ} {s : σ}
    (hs : R t s) {is : List ι} (his : N.Along P t is) :
    (ofPartial f).trace (some s) is = (N.trace t is).map (Prod.map id some) ∧
      ∃ s', (ofPartial f).exec (some s) is = some s' ∧ R (N.exec t is) s' := by
  induction is generalizing t s with
  | nil => exact ⟨rfl, s, rfl, hs⟩
  | cons i is ih =>
      obtain ⟨s', hcall, hs'⟩ := hstep t s i hs his.1
      obtain ⟨htrace, hexec⟩ := ih hs' his.2
      rw [trace_cons, trace_cons, exec_cons, exec_cons, ofPartial_next hcall, ofPartial_out hcall, htrace]
      exact ⟨rfl, hexec⟩

/-! ## Calls that take several steps -/

section

variable {κ : Type*} {M : Machine σ ι (Option (κ × ο))} {N : Machine τ κ ο}

/-- The calls that were answered in a history in which a step may answer none, in the order of the answers. -/
def answers (history : List (ι × Option (κ × ο))) : List (κ × ο) := history.filterMap Prod.snd

theorem answers_cons_some (i : ι) (c : κ × ο) (history : List (ι × Option (κ × ο))) :
    answers ((i, some c) :: history) = c :: answers history := rfl

/-- What a step comes to: one that answers a call does what `N` does at the call, any other does nothing in `N`. -/
inductive Follows (N : Machine τ κ ο) (R : τ → σ → Prop) (t : τ) : Option (κ × ο) × σ → Prop where
  | silent {s} (h : R t s) : Follows N R t (none, s)
  | answer {k o s} (hout : N.out t k = o) (h : R (N.next t k) s) : Follows N R t (some (k, o), s)

/-- When every step that meets `P` follows `N`, a run of such steps is answered as `N` answers the calls one by one. -/
theorem answers_of_follows {P : σ → ι → Prop} {R : τ → σ → Prop}
    (h : ∀ t s i, R t s → P s i → N.Follows R t (M.step s i)) {t : τ} {s : σ} (hs : R t s) {is : List ι}
    (his : M.Along P s is) :
    N.trace t ((answers (M.trace s is)).map Prod.fst) = answers (M.trace s is) ∧
      R (N.exec t ((answers (M.trace s is)).map Prod.fst)) (M.exec s is) := by
  induction is generalizing t s with
  | nil => exact ⟨rfl, hs⟩
  | cons i is ih =>
      obtain ⟨hi, his⟩ := his
      have hstep : N.Follows R t (M.out s i, M.next s i) := h t s i hs hi
      rw [trace_cons, exec_cons]
      generalize M.next s i = s' at hstep his
      generalize M.out s i = o at hstep
      cases hstep with
      | silent hs' => exact ih hs' his
      | answer hout hs' =>
          obtain ⟨htrace, hexec⟩ := ih hs' his
          rw [answers_cons_some, List.map_cons, trace_cons, exec_cons, htrace, hout]
          exact ⟨rfl, hexec⟩

end

end Machine

end Lib
