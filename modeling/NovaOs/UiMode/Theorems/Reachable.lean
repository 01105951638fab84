import NovaOs.UiMode.Theorems.BootPath

/-!
# The contexts that there can be

A context that was prepared is in one of five shapes, whatever calls follow, and each context in one of them is what some
calls lead to.
-/

namespace NovaOs.UiMode

open Lib

variable {ctx ctx' : NovaUiBootContext} {op : UiOp} {plan : NovaUiBootPlan}

/-- A refused start of the compatibility shell from the serial shell leaves its mode behind. -/
def NovaUiBootContext.RefusedCompat (ctx : NovaUiBootContext) : Prop := ctx.currentMode = .compat ∧ ¬ ctx.AllowsCompat

/-- The stages that are up, with the modes that go with them. -/
inductive Shape (ctx : NovaUiBootContext) : Prop where
  | prepared (hstages : ctx.stages = (1, 0, 0, 0, 0))
      (hmode : ctx.currentMode = ctx.plan.mode ∨ ctx.currentMode = .text ∨ ctx.RefusedCompat)
  | text (hstages : ctx.stages = (1, 1, 1, 0, 0)) (hmode : ctx.currentMode = .text ∨ ctx.RefusedCompat)
  | textCompat (hstages : ctx.stages = (1, 0, 1, 0, 0)) (hmode : ctx.currentMode = .text) (hallows : ctx.AllowsCompat)
  | desktop (hstages : ctx.stages = (1, 1, 1, 1, 0)) (hmode : ctx.currentMode = .desktop ∨ ctx.RefusedCompat)
  | compat (hstages : ctx.stages = (1, 1, 1, 1, 1) ∨ ctx.stages = (1, 0, 1, 1, 1))
      (hmode : ctx.currentMode = .desktop ∨ ctx.currentMode = .compat) (hallows : ctx.AllowsCompat)

/-! ## What the calls make of the shapes -/

namespace Shape

/-- A desktop, with the compatibility shell if it was up. -/
theorem boot (h : Shape ctx) :
    Shape { ctx with userlandReady := 1, sessionStarted := 1, desktopReady := 1, currentMode := .desktop } := by
  cases h with
  | prepared hstages _ | text hstages _ | textCompat hstages _ _ | desktop hstages _ =>
      obtain ⟨hserial, _, _, _, hcompat⟩ := ctx.stages_eq hstages
      exact .desktop (by simp [NovaUiBootContext.stages, hserial, hcompat]) (.inl rfl)
  | compat hstages _ hallows =>
      have hflags : ctx.serialReady = 1 ∧ ctx.compatShellReady = 1 := by
        rcases hstages with hstages | hstages
        · exact ⟨(ctx.stages_eq hstages).1, (ctx.stages_eq hstages).2.2.2.2⟩
        · exact ⟨(ctx.stages_eq hstages).1, (ctx.stages_eq hstages).2.2.2.2⟩
      exact .compat (.inl (by simp [NovaUiBootContext.stages, hflags])) (.inl rfl) hallows

theorem flags (h : Shape ctx) : ctx.serialReady = 1 ∧ (ctx.userlandReady = 1 ∨ ctx.userlandReady = 0) := by
  cases h with
  | prepared hstages _ | textCompat hstages _ _ =>
      exact ⟨(ctx.stages_eq hstages).1, .inr (ctx.stages_eq hstages).2.1⟩
  | text hstages _ | desktop hstages _ => exact ⟨(ctx.stages_eq hstages).1, .inl (ctx.stages_eq hstages).2.1⟩
  | compat hstages _ _ =>
      rcases hstages with hstages | hstages
      · exact ⟨(ctx.stages_eq hstages).1, .inl (ctx.stages_eq hstages).2.1⟩
      · exact ⟨(ctx.stages_eq hstages).1, .inr (ctx.stages_eq hstages).2.1⟩

theorem launchCompat (h : Shape ctx) (hallows : ctx.AllowsCompat) :
    Shape { ctx with compatShellReady := 1, currentMode := .compat, desktopReady := 1, sessionStarted := 1 } := by
  obtain ⟨hserial, huserland⟩ := h.flags
  refine .compat ?_ (.inr rfl) hallows
  simpa [NovaUiBootContext.stages, hserial] using huserland

/-- The mode of a start that is refused stays. -/
theorem refuse (h : Shape ctx) (hallows : ¬ ctx.AllowsCompat) : Shape { ctx with currentMode := .compat } := by
  cases h with
  | prepared hstages _ => exact .prepared hstages (.inr (.inr ⟨rfl, hallows⟩))
  | text hstages _ => exact .text hstages (.inr ⟨rfl, hallows⟩)
  | desktop hstages _ => exact .desktop hstages (.inr ⟨rfl, hallows⟩)
  | textCompat _ _ hallows' | compat _ _ hallows' => exact absurd hallows' hallows

theorem close (h : Shape ctx) : Shape { ctx with currentMode := .text, desktopReady := 0, compatShellReady := 0 } := by
  cases h with
  | prepared hstages _ =>
      obtain ⟨hserial, huserland, hsession, _, _⟩ := ctx.stages_eq hstages
      exact .prepared (by simp [NovaUiBootContext.stages, hserial, huserland, hsession]) (.inr (.inl rfl))
  | text hstages _ | desktop hstages _ =>
      obtain ⟨hserial, huserland, hsession, _, _⟩ := ctx.stages_eq hstages
      exact .text (by simp [NovaUiBootContext.stages, hserial, huserland, hsession]) (.inl rfl)
  | textCompat hstages _ hallows =>
      obtain ⟨hserial, huserland, hsession, _, _⟩ := ctx.stages_eq hstages
      exact .textCompat (by simp [NovaUiBootContext.stages, hserial, huserland, hsession]) rfl hallows
  | compat hstages _ hallows =>
      rcases hstages with hstages | hstages
      · obtain ⟨hserial, huserland, hsession, _, _⟩ := ctx.stages_eq hstages
        exact .text (by simp [NovaUiBootContext.stages, hserial, huserland, hsession]) (.inl rfl)
      · obtain ⟨hserial, huserland, hsession, _, _⟩ := ctx.stages_eq hstages
        exact .textCompat (by simp [NovaUiBootContext.stages, hserial, huserland, hsession]) rfl hallows

/-- An application runs on the desktop that is up. -/
theorem launch (h : Shape ctx) (hdesktop : ctx.desktopReady ≠ 0) : Shape { ctx with currentMode := .desktop } := by
  cases h with
  | prepared hstages _ | text hstages _ | textCompat hstages _ _ =>
      exact absurd (ctx.stages_eq hstages).2.2.2.1 hdesktop
  | desktop hstages _ => exact .desktop hstages (.inl rfl)
  | compat hstages _ hallows => exact .compat hstages (.inl rfl) hallows

theorem launchCompatShell (h : Shape ctx) :
    ∃ ctx', (novaUiLaunchCompatShell (some ctx)).2 = some ctx' ∧ Shape ctx' := by
  by_cases hallows : ctx.plan.enableCompatShell = 0 ∧ ctx.plan.vmDisplayDevice = none
  · exact ⟨ctx, by rw [novaUiLaunchCompatShell, if_pos hallows], h⟩
  · exact ⟨_, by rw [novaUiLaunchCompatShell, if_neg hallows], h.launchCompat hallows⟩

theorem serialShell (h : Shape ctx) (command : CString) :
    ∃ ctx', (novaUiBootFromSerialShell (some ctx) (some command)).2 = some ctx' ∧ Shape ctx' := by
  rw [novaUiBootFromSerialShell_eq]
  cases requested command with
  | none => exact ⟨ctx, rfl, h⟩
  | some mode =>
      cases mode with
      | text => exact ⟨_, rfl, h.close⟩
      | desktop => exact ⟨_, rfl, h.boot⟩
      | compat =>
          by_cases hallows : ctx.plan.enableCompatShell = 0 ∧ ctx.plan.vmDisplayDevice = none
          · exact ⟨_, by rw [novaUiLaunchCompatShell, if_pos hallows], h.refuse (not_not_intro hallows)⟩
          · exact ⟨_, by rw [novaUiLaunchCompatShell, if_neg hallows], h.launchCompat hallows⟩

theorem launchApp (h : Shape ctx) (path : Option CString) :
    ∃ ctx', (UiMode.launchApp (some ctx) path).2 = some ctx' ∧ Shape ctx' := by
  cases path with
  | none => exact ⟨ctx, rfl, h⟩
  | some path =>
      by_cases hdesktop : ctx.desktopReady = 0
      · exact ⟨ctx, by rw [UiMode.launchApp, if_pos hdesktop], h⟩
      · exact ⟨_, by rw [UiMode.launchApp, if_neg hdesktop], h.launch hdesktop⟩

theorem next (h : Shape ctx) (op : UiOp) : ∃ ctx', uiMachine.next (some ctx) op = some ctx' ∧ Shape ctx' := by
  cases op with
  | prepare plan =>
      cases plan with
      | none => exact ⟨ctx, rfl, h⟩
      | some plan => exact ⟨_, rfl, .prepared rfl (.inl rfl)⟩
  | serialShell command =>
      cases command with
      | none => exact ⟨ctx, rfl, h⟩
      | some command => exact h.serialShell command
  | desktop => exact ⟨_, rfl, h.boot⟩
  | compatShell => exact h.launchCompatShell
  | linuxApp path => exact h.launchApp path
  | windowsApp path => exact h.launchApp path

end Shape

/-! ## Calls that lead to a shape -/

/-- Some calls lead to the context from one that was prepared. -/
def Reached (ctx : NovaUiBootContext) : Prop :=
  ∃ memory plan ops, uiMachine.exec (novaUiBootPrepare (some memory) (some plan)).2 ops = some ctx

theorem Reached.next (h : Reached ctx) (op : UiOp) (hnext : uiMachine.next (some ctx) op = some ctx') : Reached ctx' := by
  obtain ⟨memory, plan, ops, hexec⟩ := h
  refine ⟨memory, plan, ops ++ [op], ?_⟩
  rw [Machine.exec_append, hexec]
  exact hnext

theorem Reached.shape (h : Reached ctx) : Shape ctx := by
  obtain ⟨memory, plan, ops, hexec⟩ := h
  have hstart : ∃ ctx, (novaUiBootPrepare (some memory) (some plan)).2 = some ctx ∧ Shape ctx :=
    ⟨_, rfl, .prepared rfl (.inl rfl)⟩
  have hstep : ∀ (st : Option NovaUiBootContext) (op : UiOp), (∃ ctx, st = some ctx ∧ Shape ctx) →
      ∃ ctx, uiMachine.next st op = some ctx ∧ Shape ctx := by
    rintro _ op ⟨ctx, rfl, h⟩
    exact h.next op
  obtain ⟨ctx', hexec', h⟩ := Machine.exec_invariant hstep hstart ops
  cases hexec.symm.trans hexec'
  exact h

theorem Reached.prepared (memory : NovaUiBootContext) (plan : NovaUiBootPlan) :
    Reached { plan := plan, currentMode := plan.mode, serialReady := 1, userlandReady := 0, sessionStarted := 0
              desktopReady := 0, compatShellReady := 0 } := ⟨memory, plan, [], rfl⟩

theorem Reached.desktop (h : Reached ctx) :
    Reached { ctx with userlandReady := 1, sessionStarted := 1, desktopReady := 1, currentMode := .desktop } :=
  h.next .desktop rfl

theorem Reached.compat (h : Reached ctx) (hallows : ctx.AllowsCompat) :
    Reached { ctx with compatShellReady := 1, currentMode := .compat, desktopReady := 1, sessionStarted := 1 } :=
  h.next .compatShell (congrArg Prod.snd (if_neg hallows))

theorem Reached.text (h : Reached ctx) :
    Reached { ctx with currentMode := .text, desktopReady := 0, compatShellReady := 0 } := by
  have hrequested : requested (.ofString "text") = some .text := by decide +kernel
  refine h.next (.serialShell (some (.ofString "text"))) ?_
  show (novaUiBootFromSerialShell (some ctx) _).2 = _
  rw [novaUiBootFromSerialShell_eq, hrequested]

theorem Reached.refuse (h : Reached ctx) (hallows : ¬ ctx.AllowsCompat) : Reached { ctx with currentMode := .compat } := by
  have hrequested : requested (.ofString "compat") = some .compat := by decide +kernel
  refine h.next (.serialShell (some (.ofString "compat"))) ?_
  show (novaUiBootFromSerialShell (some ctx) _).2 = _
  rw [novaUiBootFromSerialShell_eq, hrequested]
  exact congrArg Prod.snd (if_pos (not_not.mp hallows))

theorem Reached.app (h : Reached ctx) (hdesktop : ctx.desktopReady ≠ 0) : Reached { ctx with currentMode := .desktop } :=
  h.next (.linuxApp (some (.ofString ""))) (congrArg Prod.snd (if_neg hdesktop))

/-- A context is told by its plan, its mode and its stages. -/
theorem NovaUiBootContext.eq_of_stages {mode : NovaUiMode} {a b c d e : Int} (hmode : ctx.currentMode = mode)
    (hstages : ctx.stages = (a, b, c, d, e)) :
    ctx = { plan := ctx.plan, currentMode := mode, serialReady := a, userlandReady := b, sessionStarted := c
            desktopReady := d, compatShellReady := e } := by
  obtain ⟨rfl, rfl, rfl, rfl, rfl⟩ := ctx.stages_eq hstages
  rw [← hmode]

/-- A mode that a refused start left behind comes from the context with another mode. -/
theorem Reached.of_refused {a b c d e : Int} {mode : NovaUiMode} (hrefused : ctx.RefusedCompat)
    (hstages : ctx.stages = (a, b, c, d, e))
    (h : Reached { plan := ctx.plan, currentMode := mode, serialReady := a, userlandReady := b, sessionStarted := c
                   desktopReady := d, compatShellReady := e }) : Reached ctx := by
  obtain ⟨hmode, hallows⟩ := hrefused
  rw [ctx.eq_of_stages hmode hstages]
  exact h.refuse hallows

theorem Shape.reached (h : Shape ctx) : Reached ctx := by
  have hstart := Reached.prepared ctx ctx.plan
  cases h with
  | prepared hstages hmode =>
      rcases hmode with hmode | hmode | hrefused
      · rw [ctx.eq_of_stages hmode hstages]
        exact hstart
      · rw [ctx.eq_of_stages hmode hstages]
        exact hstart.text
      · exact .of_refused hrefused hstages hstart
  | text hstages hmode =>
      rcases hmode with hmode | hrefused
      · rw [ctx.eq_of_stages hmode hstages]
        exact hstart.desktop.text
      · exact .of_refused hrefused hstages hstart.desktop.text
  | textCompat hstages hmode hallows =>
      rw [ctx.eq_of_stages hmode hstages]
      exact (hstart.compat hallows).text
  | desktop hstages hmode =>
      rcases hmode with hmode | hrefused
      · rw [ctx.eq_of_stages hmode hstages]
        exact hstart.desktop
      · exact .of_refused hrefused hstages hstart.desktop
  | compat hstages hmode hallows =>
      have hcompat := hstart.compat hallows
      rcases hstages with hstages | hstages
      · rcases hmode with hmode | hmode
        · rw [ctx.eq_of_stages hmode hstages]
          exact hcompat.desktop
        · rw [ctx.eq_of_stages hmode hstages]
          exact hstart.desktop.compat hallows
      · rcases hmode with hmode | hmode
        · rw [ctx.eq_of_stages hmode hstages]
          exact hcompat.app one_ne_zero
        · rw [ctx.eq_of_stages hmode hstages]
          exact hcompat

/-- The contexts that some calls lead to from one that was prepared are those in one of the shapes. -/
theorem reached_iff_shape (ctx : NovaUiBootContext) :
    (∃ memory plan ops, uiMachine.exec (novaUiBootPrepare (some memory) (some plan)).2 ops = some ctx) ↔ Shape ctx :=
  ⟨Reached.shape, Shape.reached⟩

end NovaOs.UiMode
