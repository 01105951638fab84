import NovaOs.UiMode.BootPath

/-!
# The stages of the boot path

A call changes the stages in one of five ways, or it leaves them alone: `Effect` says which, and when. The order of
the stages and the gate for applications are then a matter of these ways.
-/

namespace NovaOs.UiMode

open Lib

variable {ctx ctx' : NovaUiBootContext} {op : UiOp} {result : Int}

/-! ## What a call does to the stages -/

/-- The mode that a command of the serial shell asks for. -/
def requested (command : CString) : Option NovaUiMode :=
  if isUiCommand command "desktop" || startsWith command "ui desktop" || startsWith command "start desktop" then
    some .desktop
  else if isUiCommand command "compat" || startsWith command "ui compat" || startsWith command "compat shell" then
    some .compat
  else if isUiCommand command "text" || startsWith command "ui text" then some .text
  else none

/-- The mode that a call asks for. -/
def UiOp.mode : UiOp → Option NovaUiMode
  | .serialShell (some command) => requested command
  | .desktop => some .desktop
  | .compatShell => some .compat
  | _ => none

/-- The call launches an application. -/
def UiOp.Launches : UiOp → Prop
  | .linuxApp (some _) | .windowsApp (some _) => True
  | _ => False

theorem UiOp.Launches.mode_eq_none (h : op.Launches) : op.mode = none := by
  cases op with
  | linuxApp | windowsApp => rfl
  | _ => cases h

namespace NovaUiBootContext

/-- The five flags, in the order in which they are to be raised. -/
def stages (ctx : NovaUiBootContext) : Int × Int × Int × Int × Int :=
  (ctx.serialReady, ctx.userlandReady, ctx.sessionStarted, ctx.desktopReady, ctx.compatShellReady)

/-- The plan has a compatibility shell. -/
def AllowsCompat (ctx : NovaUiBootContext) : Prop :=
  ¬ (ctx.plan.enableCompatShell = 0 ∧ ctx.plan.vmDisplayDevice = none)

end NovaUiBootContext

/-- What the call `op` makes of the stages when it answers `result`. -/
inductive Effect (ctx : NovaUiBootContext) (op : UiOp) (result : Int) (ctx' : NovaUiBootContext) : Prop where
  | prepare (plan) (hop : op = .prepare (some plan)) (hresult : result = 0) (hstages : ctx'.stages = (1, 0, 0, 0, 0))
  | desktop (hmode : op.mode = some .desktop) (hresult : result = 0)
      (hstages : ctx'.stages = (ctx.serialReady, 1, 1, 1, ctx.compatShellReady))
  | compat (hmode : op.mode = some .compat) (hallows : ctx.AllowsCompat) (hresult : result = 0)
      (hstages : ctx'.stages = (ctx.serialReady, ctx.userlandReady, 1, 1, 1))
  | text (hmode : op.mode = some .text) (hresult : result = 0)
      (hstages : ctx'.stages = (ctx.serialReady, ctx.userlandReady, ctx.sessionStarted, 0, 0))
  | launch (hlaunches : op.Launches) (hresult : result = 0) (hstages : ctx'.stages = ctx.stages)
  | refuse (hmode : op.mode = none ∨ op.mode = some .compat ∧ ¬ ctx.AllowsCompat) (hresult : result ≠ 0)
      (hstages : ctx'.stages = ctx.stages)

theorem effect_compatShell (hmode : op.mode = some .compat) (mode : NovaUiMode) :
    ∃ result ctx', novaUiLaunchCompatShell (some { ctx with currentMode := mode }) = (result, some ctx') ∧
      Effect ctx op result ctx' := by
  by_cases hallows : ctx.plan.enableCompatShell = 0 ∧ ctx.plan.vmDisplayDevice = none
  · exact ⟨-2, _, if_pos hallows, .refuse (.inr ⟨hmode, not_not_intro hallows⟩) (by decide) rfl⟩
  · exact ⟨0, _, if_neg hallows, .compat hmode hallows rfl rfl⟩

/-- A command is the call of the mode that it asks for. -/
theorem novaUiBootFromSerialShell_eq (ctx : NovaUiBootContext) (command : CString) :
    novaUiBootFromSerialShell (some ctx) (some command) =
      match requested command with
      | some .desktop => novaUiBootDesktop (some { ctx with currentMode := .desktop })
      | some .compat => novaUiLaunchCompatShell (some { ctx with currentMode := .compat })
      | some .text => (0, some { ctx with currentMode := .text, desktopReady := 0, compatShellReady := 0 })
      | none => (-2, some ctx) := by
  simp only [novaUiBootFromSerialShell, requested]
  split_ifs <;> rfl

theorem effect_serialShell (ctx : NovaUiBootContext) (command : CString) :
    ∃ result ctx', novaUiBootFromSerialShell (some ctx) (some command) = (result, some ctx') ∧
      Effect ctx (.serialShell (some command)) result ctx' := by
  rw [novaUiBootFromSerialShell_eq]
  have hmode : (UiOp.serialShell (some command)).mode = requested command := rfl
  cases hrequested : requested command with
  | none => exact ⟨-2, ctx, rfl, .refuse (.inl (hmode.trans hrequested)) (by decide) rfl⟩
  | some mode =>
      rw [hrequested] at hmode
      cases mode with
      | text => exact ⟨0, _, rfl, .text hmode rfl rfl⟩
      | desktop => exact ⟨0, _, rfl, .desktop hmode rfl rfl⟩
      | compat => exact effect_compatShell hmode .compat

theorem uiMachine_launch (ctx : NovaUiBootContext) (hlaunches : op.Launches) :
    uiMachine.step (some ctx) op =
      if ctx.desktopReady = 0 then (-2, some ctx) else (0, some { ctx with currentMode := .desktop }) := by
  cases op with
  | linuxApp path =>
      cases path with
      | none => cases hlaunches
      | some path => rfl
  | windowsApp path =>
      cases path with
      | none => cases hlaunches
      | some path => rfl
  | _ => cases hlaunches

theorem out_launch (ctx : NovaUiBootContext) (hlaunches : op.Launches) :
    uiMachine.out (some ctx) op = if ctx.desktopReady = 0 then -2 else 0 := by
  rw [Machine.out, uiMachine_launch ctx hlaunches]
  split <;> rfl

theorem effect_launch (hlaunches : op.Launches) :
    ∃ result ctx', uiMachine.step (some ctx) op = (result, some ctx') ∧ Effect ctx op result ctx' := by
  by_cases hdesktop : ctx.desktopReady = 0
  · exact ⟨-2, ctx, by rw [uiMachine_launch ctx hlaunches, if_pos hdesktop], .refuse (.inl hlaunches.mode_eq_none) (by decide) rfl⟩
  · exact ⟨0, { ctx with currentMode := .desktop }, by rw [uiMachine_launch ctx hlaunches, if_neg hdesktop],
      .launch hlaunches rfl rfl⟩

theorem uiMachine_effect (ctx : NovaUiBootContext) (op : UiOp) :
    ∃ result ctx', uiMachine.step (some ctx) op = (result, some ctx') ∧ Effect ctx op result ctx' := by
  cases op with
  | prepare plan =>
      cases plan with
      | none => exact ⟨-1, ctx, rfl, .refuse (.inl rfl) (by decide) rfl⟩
      | some plan => exact ⟨0, _, rfl, .prepare plan rfl rfl rfl⟩
  | serialShell command =>
      cases command with
      | none => exact ⟨-1, ctx, rfl, .refuse (.inl rfl) (by decide) rfl⟩
      | some command => exact effect_serialShell ctx command
  | desktop => exact ⟨0, _, rfl, .desktop rfl rfl rfl⟩
  | compatShell => exact effect_compatShell rfl ctx.currentMode
  | linuxApp path =>
      cases path with
      | none => exact ⟨-1, ctx, rfl, .refuse (.inl rfl) (by decide) rfl⟩
      | some path => exact effect_launch trivial
  | windowsApp path =>
      cases path with
      | none => exact ⟨-1, ctx, rfl, .refuse (.inl rfl) (by decide) rfl⟩
      | some path => exact effect_launch trivial

/-! ## The order of the stages -/

/-- No stage is up before the one that it needs. -/
structure StagesInOrder (ctx : NovaUiBootContext) : Prop where
  compat : ctx.compatShellReady ≠ 0 → ctx.desktopReady ≠ 0
  desktop : ctx.desktopReady ≠ 0 → ctx.sessionStarted ≠ 0
  session : ctx.sessionStarted ≠ 0 → ctx.userlandReady ≠ 0
  userland : ctx.userlandReady ≠ 0 → ctx.serialReady ≠ 0

/-- The compatibility shell is started, and not refused, before the userland is up. -/
def SkipsUserland (ctx : NovaUiBootContext) (op : UiOp) : Prop :=
  op.mode = some .compat ∧ ctx.AllowsCompat ∧ ctx.userlandReady = 0

theorem NovaUiBootContext.stages_eq {a b c d e : Int} (h : ctx.stages = (a, b, c, d, e)) :
    ctx.serialReady = a ∧ ctx.userlandReady = b ∧ ctx.sessionStarted = c ∧ ctx.desktopReady = d ∧
      ctx.compatShellReady = e := by
  simpa only [stages, Prod.mk.injEq] using h

/-- The order as a matter of the flags, with the serial console up. -/
theorem stagesInOrder_iff {a b c d e : Int} (h : ctx.stages = (a, b, c, d, e)) :
    StagesInOrder ctx ∧ ctx.serialReady ≠ 0 ↔ (e ≠ 0 → d ≠ 0) ∧ (d ≠ 0 → c ≠ 0) ∧ (c ≠ 0 → b ≠ 0) ∧ a ≠ 0 := by
  obtain ⟨rfl, rfl, rfl, rfl, rfl⟩ := ctx.stages_eq h
  constructor
  · rintro ⟨⟨hcompat, hdesktop, hsession, huserland⟩, hserial⟩
    exact ⟨hcompat, hdesktop, hsession, hserial⟩
  · rintro ⟨hcompat, hdesktop, hsession, hserial⟩
    exact ⟨⟨hcompat, hdesktop, hsession, fun _ => hserial⟩, hserial⟩

def BootInv (st : Option NovaUiBootContext) : Prop := ∃ ctx, st = some ctx ∧ StagesInOrder ctx ∧ ctx.serialReady ≠ 0

/-- A call that does not skip the userland keeps the order. -/
theorem StagesInOrder.effect (h : StagesInOrder ctx) (hserial : ctx.serialReady ≠ 0) (heffect : Effect ctx op result ctx')
    (hskip : ¬ SkipsUserland ctx op) : StagesInOrder ctx' ∧ ctx'.serialReady ≠ 0 := by
  obtain ⟨hcompat, hdesktop, hsession, _⟩ := (stagesInOrder_iff rfl).mp ⟨h, hserial⟩
  cases heffect with
  | prepare plan hop hresult hstages =>
      rw [stagesInOrder_iff hstages]
      simp
  | desktop hmode hresult hstages =>
      rw [stagesInOrder_iff hstages]
      simpa using hserial
  | compat hmode hallows hresult hstages =>
      have hready : ctx.userlandReady ≠ 0 := fun hzero => hskip ⟨hmode, hallows, hzero⟩
      rw [stagesInOrder_iff hstages]
      simpa using ⟨hready, hserial⟩
  | text hmode hresult hstages =>
      rw [stagesInOrder_iff hstages]
      simpa using ⟨hsession, hserial⟩
  | launch hlaunches hresult hstages | refuse hmode hresult hstages =>
      rw [stagesInOrder_iff hstages]
      exact ⟨hcompat, hdesktop, hsession, hserial⟩

/-- A call that skips the userland leaves a session without it. -/
theorem Effect.not_stagesInOrder (heffect : Effect ctx op result ctx') (hskip : SkipsUserland ctx op) :
    ¬ StagesInOrder ctx' := by
  obtain ⟨hmode, hallows, hzero⟩ := hskip
  cases heffect with
  | compat _ _ _ hstages =>
      obtain ⟨_, huserland', hsession', _, _⟩ := ctx'.stages_eq hstages
      intro horder
      have hready := horder.session
      omega
  | refuse hrefused _ _ =>
      rcases hrefused with hnone | ⟨_, hnot⟩
      · simp [hnone] at hmode
      · exact absurd hallows hnot
  | prepare plan hop _ _ => simp [hop, UiOp.mode] at hmode
  | desktop hmode' _ _ | text hmode' _ _ => simp [hmode'] at hmode
  | launch hlaunches _ _ => simp [hlaunches.mode_eq_none] at hmode

/-- The stages keep their order along a run from a call that prepares the context exactly when the run never starts the
compatibility shell before the userland is up. -/
theorem stages_in_order_iff (memory : NovaUiBootContext) (plan : NovaUiBootPlan) (ops : List UiOp) :
    uiMachine.Always (fun st => ∃ ctx, st = some ctx ∧ StagesInOrder ctx)
        (novaUiBootPrepare (some memory) (some plan)).2 ops ↔
      uiMachine.Along (fun st op => ∀ ctx, st = some ctx → ¬ SkipsUserland ctx op)
        (novaUiBootPrepare (some memory) (some plan)).2 ops := by
  have hprepared : BootInv (novaUiBootPrepare (some memory) (some plan)).2 := ⟨_, rfl, (stagesInOrder_iff rfl).mpr (by simp)⟩
  refine Machine.always_iff_along ?_ ?_ ?_ hprepared
  · rintro st ⟨ctx, hst, horder, hserial⟩
    exact ⟨ctx, hst, horder⟩
  · rintro st op ⟨ctx, rfl, horder, hserial⟩ hskip
    obtain ⟨result, ctx', hstep, heffect⟩ := uiMachine_effect ctx op
    refine ⟨ctx', congrArg Prod.snd hstep, horder.effect hserial heffect (hskip ctx rfl)⟩
  · rintro st op ⟨ctx, rfl, horder, hserial⟩ hskip ⟨ctx'', hnext, horder''⟩
    obtain ⟨result, ctx', hstep, heffect⟩ := uiMachine_effect ctx op
    obtain rfl : ctx' = ctx'' := Option.some_inj.mp ((congrArg Prod.snd hstep).symm.trans hnext)
    refine hskip fun ctx₀ hctx hskips => ?_
    cases hctx
    exact heffect.not_stagesInOrder hskips horder''

/-- The compatibility shell runs in a session and has no userland under it. -/
theorem compatShell_skips_userland :
    ¬ ∀ (memory : NovaUiBootContext) (plan : NovaUiBootPlan) (ops : List UiOp),
      uiMachine.Always (fun st => ∃ ctx, st = some ctx ∧ StagesInOrder ctx)
        (novaUiBootPrepare (some memory) (some plan)).2 ops := by
  intro hall
  let plan : NovaUiBootPlan :=
    { mode := .text, displayServer := none, sessionManager := none, desktopShell := none, compatShell := none
      kernelConsoleDevice := none, vmDisplayDevice := none, autoStartDesktop := 0, enableCompatShell := 1 }
  let memory : NovaUiBootContext :=
    { plan := plan, currentMode := .text, serialReady := 0, userlandReady := 0, sessionStarted := 0
      desktopReady := 0, compatShellReady := 0 }
  obtain ⟨ctx, hctx, horder⟩ := (hall memory plan [.compatShell]).2.head
  cases hctx
  exact horder.session (by decide) rfl

/-! ## The gate for applications -/

/-- What a call that succeeds does to the gate: it opens it, closes it, or leaves it. -/
def UiOp.gate : UiOp → Option Bool
  | .prepare _ => some false
  | op => op.mode.map fun mode => decide (mode ≠ .text)

/-- The events at the gate, in order. -/
def gateEvents (history : List (UiOp × Int)) : List Bool :=
  history.filterMap fun call => if call.2 = 0 then call.1.gate else none

/-- The last event at the gate opened it. -/
def GateOpen (history : List (UiOp × Int)) : Prop := (gateEvents history).getLast? = some true

/-- How applications are launched in a state with the history of the run so far. -/
structure LaunchMeets (st : Option NovaUiBootContext) (history : List (UiOp × Int)) : Prop where
  launched : ∀ op, op.Launches → (uiMachine.out st op = 0 ↔ GateOpen history)
  refused : ∀ op, op.Launches → ¬ GateOpen history → uiMachine.step st op = (-2, st)
  failed : ∀ op, uiMachine.out st op ≠ 0 → ∀ launch, launch.Launches →
    uiMachine.out (uiMachine.next st op) launch = uiMachine.out st launch

theorem UiOp.gate_of_mode {mode : NovaUiMode} (h : op.mode = some mode) : op.gate = some (decide (mode ≠ .text)) := by
  cases op with
  | prepare => cases h
  | _ => simp only [gate, h, Option.map_some]

theorem UiOp.Launches.gate_eq_none (h : op.Launches) : op.gate = none := by
  cases op with
  | linuxApp | windowsApp => rfl
  | _ => cases h

/-- The events and the flag agree after a call if they did before it. -/
theorem Effect.gate (heffect : Effect ctx op result ctx') {events : List Bool}
    (h : ∀ isOpen ∈ events.getLast?, ctx.desktopReady ≠ 0 ↔ isOpen = true) :
    ∀ isOpen ∈ (events ++ gateEvents [(op, result)]).getLast?, ctx'.desktopReady ≠ 0 ↔ isOpen = true := by
  cases heffect with
  | prepare plan hop hresult hstages =>
      obtain ⟨_, _, _, hdesktop', _⟩ := ctx'.stages_eq hstages
      simp [gateEvents, UiOp.gate, hop, hresult, hdesktop']
  | desktop hmode hresult hstages | compat hmode _ hresult hstages | text hmode hresult hstages =>
      obtain ⟨_, _, _, hdesktop', _⟩ := ctx'.stages_eq hstages
      simp [gateEvents, UiOp.gate_of_mode hmode, hresult, hdesktop']
  | launch hlaunches hresult hstages =>
      obtain ⟨_, _, _, hdesktop', _⟩ := ctx'.stages_eq hstages
      simpa [gateEvents, hlaunches.gate_eq_none, hdesktop'] using h
  | refuse hmode hresult hstages =>
      obtain ⟨_, _, _, hdesktop', _⟩ := ctx'.stages_eq hstages
      simpa [gateEvents, hresult, hdesktop'] using h

/-- The last event at the gate, if there was one, is what the flag says. -/
def GateInv (st : Option NovaUiBootContext) (history : List (UiOp × Int)) : Prop :=
  ∃ ctx, st = some ctx ∧ ∀ isOpen ∈ (gateEvents history).getLast?, ctx.desktopReady ≠ 0 ↔ isOpen = true

theorem GateInv.next {st : Option NovaUiBootContext} {history : List (UiOp × Int)} (h : GateInv st history) (op : UiOp) :
    GateInv (uiMachine.next st op) (history ++ [(op, uiMachine.out st op)]) := by
  obtain ⟨ctx, rfl, hgate⟩ := h
  obtain ⟨result, ctx', hstep, heffect⟩ := uiMachine_effect ctx op
  refine ⟨ctx', congrArg Prod.snd hstep, ?_⟩
  have hout : uiMachine.out (some ctx) op = result := congrArg Prod.fst hstep
  rw [hout, gateEvents, List.filterMap_append]
  exact heffect.gate hgate

theorem GateInv.exec (memory : NovaUiBootContext) (ops : List UiOp) :
    GateInv (uiMachine.exec (some memory) ops) (uiMachine.trace (some memory) ops) :=
  Machine.history_invariant (fun _ _ op h => h.next op) ⟨memory, rfl, by simp [gateEvents]⟩ ops

theorem launchMeets_of_gate {history : List (UiOp × Int)} (hgate : ctx.desktopReady ≠ 0 ↔ GateOpen history) :
    LaunchMeets (some ctx) history where
  launched op hlaunches := by
    rw [out_launch ctx hlaunches, ← hgate]
    by_cases hdesktop : ctx.desktopReady = 0 <;> simp [hdesktop]
  refused op hlaunches hclosed := by
    have hdesktop : ctx.desktopReady = 0 := not_not.mp fun hup => hclosed (hgate.mp hup)
    rw [uiMachine_launch ctx hlaunches, if_pos hdesktop]
  failed op hfails launch hlaunches := by
    obtain ⟨result, ctx', hstep, heffect⟩ := uiMachine_effect ctx op
    have hresult : result ≠ 0 := fun hzero => hfails ((congrArg Prod.fst hstep).trans hzero)
    have hnext : uiMachine.next (some ctx) op = some ctx' := congrArg Prod.snd hstep
    cases heffect with
    | refuse _ _ hstages =>
        obtain ⟨_, _, _, hdesktop', _⟩ := ctx'.stages_eq hstages
        rw [hnext, out_launch ctx' hlaunches, out_launch ctx hlaunches, hdesktop']
    | _ => contradiction

/-- In a context that was prepared, applications are launched exactly when there is a desktop. -/
theorem apps_launch_iff_gateOpen (memory : NovaUiBootContext) (before after : List UiOp) (plan : NovaUiBootPlan) :
    LaunchMeets (uiMachine.exec (some memory) (before ++ .prepare (some plan) :: after))
      (uiMachine.trace (some memory) (before ++ .prepare (some plan) :: after)) := by
  obtain ⟨ctx, hexec, hgate⟩ := GateInv.exec memory (before ++ .prepare (some plan) :: after)
  rw [hexec]
  refine launchMeets_of_gate ?_
  -- The call that prepares the context is an event.
  have hevent : gateEvents (uiMachine.trace (some memory) (before ++ .prepare (some plan) :: after)) ≠ [] := by
    obtain ⟨ctx₀, hbefore, _⟩ := GateInv.exec memory before
    rw [Machine.trace_append, hbefore, gateEvents, List.filterMap_append]
    exact List.append_ne_nil_of_right_ne_nil _ (List.cons_ne_nil false _)
  obtain ⟨isOpen, hlast⟩ := Option.ne_none_iff_exists'.mp (List.getLast?_eq_none_iff.not.mpr hevent)
  rw [hgate isOpen hlast, GateOpen, hlast, Option.some_inj]

end NovaOs.UiMode
