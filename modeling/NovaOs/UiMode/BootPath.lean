import NovaOs.Lib.CString
import NovaOs.Lib.Machine

/-!
# The boot path of the user interface (`userland/uimode/desktop/ui_boot_path.c`)

A definition has the name of the C function, type or constant it models, in camel case. A null pointer is `none`. The
arguments of the applications, which the source ignores, are left out.
-/

namespace NovaOs.UiMode

open Lib

inductive NovaUiMode where
  | text
  | desktop
  | compat
  deriving DecidableEq, Repr

structure NovaUiBootPlan where
  mode : NovaUiMode
  displayServer : Option CString
  sessionManager : Option CString
  desktopShell : Option CString
  compatShell : Option CString
  kernelConsoleDevice : Option CString
  vmDisplayDevice : Option CString
  autoStartDesktop : UInt32
  enableCompatShell : UInt32
  deriving DecidableEq

structure NovaUiBootContext where
  plan : NovaUiBootPlan
  currentMode : NovaUiMode
  serialReady : Int
  userlandReady : Int
  sessionStarted : Int
  desktopReady : Int
  compatShellReady : Int
  deriving DecidableEq

/-! ## Commands -/

def startsWith (value : CString) (start : String) : Bool :=
  value.sameUpTo (CString.ofString start).length (.ofString start)

def isUiCommand (command : CString) (name : String) : Bool := command = .ofString name

/-! ## The calls -/

def novaUiBootPrepare : Option NovaUiBootContext → Option NovaUiBootPlan → Int × Option NovaUiBootContext
  | some _, some plan =>
      (0, some
        { plan := plan
          currentMode := plan.mode
          serialReady := 1
          userlandReady := 0
          sessionStarted := 0
          desktopReady := 0
          compatShellReady := 0 })
  | ctx, _ => (-1, ctx)

def novaUiBootDesktop : Option NovaUiBootContext → Int × Option NovaUiBootContext
  | none => (-1, none)
  | some ctx =>
      (0, some { ctx with userlandReady := 1, sessionStarted := 1, desktopReady := 1, currentMode := .desktop })

def novaUiLaunchCompatShell : Option NovaUiBootContext → Int × Option NovaUiBootContext
  | none => (-1, none)
  | some ctx =>
      if ctx.plan.enableCompatShell = 0 ∧ ctx.plan.vmDisplayDevice = none then (-2, some ctx)
      else (0, some { ctx with compatShellReady := 1, currentMode := .compat, desktopReady := 1, sessionStarted := 1 })

def novaUiBootFromSerialShell : Option NovaUiBootContext → Option CString → Int × Option NovaUiBootContext
  | some ctx, some command =>
      if isUiCommand command "desktop" || startsWith command "ui desktop" || startsWith command "start desktop" then
        novaUiBootDesktop (some { ctx with currentMode := .desktop })
      else if isUiCommand command "compat" || startsWith command "ui compat" || startsWith command "compat shell" then
        novaUiLaunchCompatShell (some { ctx with currentMode := .compat })
      else if isUiCommand command "text" || startsWith command "ui text" then
        (0, some { ctx with currentMode := .text, desktopReady := 0, compatShellReady := 0 })
      else (-2, some ctx)
  | ctx, _ => (-1, ctx)

/-- The body of the two functions that launch an application. -/
def launchApp : Option NovaUiBootContext → Option CString → Int × Option NovaUiBootContext
  | some ctx, some _ =>
      if ctx.desktopReady = 0 then (-2, some ctx) else (0, some { ctx with currentMode := .desktop })
  | ctx, _ => (-1, ctx)

def novaUiLaunchLinuxApp : Option NovaUiBootContext → Option CString → Int × Option NovaUiBootContext := launchApp

def novaUiLaunchWindowsApp : Option NovaUiBootContext → Option CString → Int × Option NovaUiBootContext := launchApp

/-! ## Runs -/

inductive UiOp where
  | prepare (plan : Option NovaUiBootPlan)
  | serialShell (command : Option CString)
  | desktop
  | compatShell
  | linuxApp (path : Option CString)
  | windowsApp (path : Option CString)
  deriving DecidableEq

def uiMachine : Machine (Option NovaUiBootContext) UiOp Int where
  step
    | ctx, .prepare plan => novaUiBootPrepare ctx plan
    | ctx, .serialShell command => novaUiBootFromSerialShell ctx command
    | ctx, .desktop => novaUiBootDesktop ctx
    | ctx, .compatShell => novaUiLaunchCompatShell ctx
    | ctx, .linuxApp path => novaUiLaunchLinuxApp ctx path
    | ctx, .windowsApp path => novaUiLaunchWindowsApp ctx path

end NovaOs.UiMode
