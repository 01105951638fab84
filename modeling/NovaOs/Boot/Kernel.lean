import NovaOs.Lib.CString
import NovaOs.Lib.Machine

/-!
# The serial shell of the boot kernel (`boot/kernel.c`)

A definition has the name of the C function, type or constant it models, in camel case. What a function sends to the
serial port is part of its answer; the wait for the port is left out. A pointer to characters is the list of the bytes
from there to the end of the object, and a call that reads or writes outside an object has no result. The kernel is
built for 32 bits, where `unsigned long` is `UInt32`.
-/

namespace NovaOs.Boot

open Lib

/-! ## The serial port -/

def serialPutc (value : UInt8) : List UInt8 := if value = 10 then [10, 13] else [value]

/-- The digits of a number, the last one first, as far as there is room for them. -/
def digits : Nat → Nat → List UInt8
  | 0, _ => []
  | room + 1, value => if value = 0 then [] else UInt8.ofNat (48 + value % 10) :: digits room (value / 10)

def writeUnsigned (value : Nat) : List UInt8 :=
  if value = 0 then serialPutc 48 else (digits 20 value).reverse.flatMap serialPutc

/-! ## Strings -/

def novaStrlen : List UInt8 → Option Nat
  | [] => none
  | c :: text => if c = 0 then some 0 else (novaStrlen text).map (· + 1)

def startsWith : List UInt8 → List UInt8 → Option Bool
  | _, [] => none
  | text, p :: rest =>
      if p = 0 then some true
      else
        match text with
        | [] => none
        | t :: text => if t ≠ p then some false else startsWith text rest

/-- The comparison of the command with an expected one. -/
def commandIs : List UInt8 → List UInt8 → Option Bool
  | _, [] => none
  | [], _ => none
  | c :: command, e :: expected =>
      if e = 0 then some (c = 0) else if c = e then commandIs command expected else some false

/-! ## System calls -/

structure NovaUtsname where
  sysname : CString
  nodename : CString
  release : CString
  version : CString
  machine : CString

/-- A system call with the arguments it looks at. -/
inductive NovaSyscall where
  | write (buffer : List UInt8) (length : Nat)
  | readConsole
  | uname
  | getpid
  | uptime

/-- What a system call returns, sends to the port and stores where its first argument points. -/
structure SyscallAnswer where
  result : Int32
  output : List UInt8
  uts : Option NovaUtsname

def novaUtsRelease : CString := .ofString "3.1.0-prototype"

def novaUtsMachine : CString := .ofString "i386-qemu"

section

variable (ticks : UInt32)

def novaSyscallDispatch : NovaSyscall → Option SyscallAnswer
  | .write buffer length =>
      if length ≤ buffer.length then some ⟨.ofNat length, (buffer.take length).flatMap serialPutc, none⟩ else none
  | .uname =>
      some ⟨0, [], some
        { sysname := .ofString "NovaOS"
          nodename := .ofString "qemu0"
          release := novaUtsRelease
          version := .ofString "Rapid Kernel Phase 3.1"
          machine := novaUtsMachine }⟩
  | .getpid => some ⟨3, [], none⟩
  | .uptime => some ⟨ticks.toInt32, [], none⟩
  | .readConsole => some ⟨-1, [], none⟩

/-- No caller looks at the number of bytes that it returns. -/
def sysWrite (text : List UInt8) : Option (List UInt8) :=
  (novaStrlen text).bind fun length => (novaSyscallDispatch ticks (.write text length)).map SyscallAnswer.output

/-- Several calls of `sys_write`, one after the other. -/
def sysWrites : List (List UInt8) → Option (List UInt8)
  | [] => some []
  | text :: texts => (sysWrite ticks text).bind fun output => (sysWrites texts).map (output ++ ·)

/-- A literal as it lies in memory. -/
def lit (literal : String) : List UInt8 := (CString.ofString literal).text

def serialPrompt : Option (List UInt8) := sysWrite ticks (lit "nova> ")

/-! ## What the commands print -/

structure NovaTask where
  pid : Nat
  name : CString
  state : CString

def tasks : List NovaTask :=
  [⟨0, .ofString "kernel", .ofString "running"⟩, ⟨1, .ofString "init", .ofString "ready"⟩,
    ⟨2, .ofString "novakitd", .ofString "ready"⟩, ⟨3, .ofString "shell", .ofString "running"⟩]

def printUname : Option (List UInt8) :=
  (novaSyscallDispatch ticks .uname).bind fun answer =>
    answer.uts.bind fun uts =>
      sysWrites ticks
        [uts.sysname.text, lit " ", uts.nodename.text, lit " ", uts.release.text, lit " ", uts.version.text, lit " ",
          uts.machine.text, lit "\n"]

def NovaTask.print (task : NovaTask) : Option (List UInt8) :=
  (sysWrites ticks [lit "   ", task.state.text, lit " ", task.name.text, lit "\n"]).map (writeUnsigned task.pid ++ ·)

def printPs : Option (List UInt8) :=
  (sysWrite ticks (lit "PID STATE   COMMAND\n")).bind fun header =>
    (tasks.mapM (NovaTask.print ticks)).map fun rows => header ++ rows.flatten

end

/-! ## The command line -/

structure Console where
  command : Vector UInt8 160
  commandLength : Nat
  ticks : UInt32
  deriving DecidableEq

namespace Console

variable (console : Console)

/-- The memory at the pointer `command`. -/
def text : List UInt8 := console.command.toList

/-- The assignment `command[index] = value`. -/
def store (index : Nat) (value : UInt8) : Option Console :=
  if h : index < 160 then some { console with command := console.command.set index value } else none

end Console

/-- The branches of `run_command`. -/
inductive Handler where
  | help
  | info
  | uname
  | ps
  | echo
  | syscalls
  | devices
  | posix
  | clear
  | uptime
  | unknown
  | nothing
  deriving DecidableEq, Repr

/-- The branch `if (command_is(expected))` before the branches `otherwise`. -/
def Console.ifCommand (console : Console) (expected : String) (handler : Handler) (otherwise : Option Handler) :
    Option Handler :=
  (commandIs console.text (lit expected)).bind fun yes => if yes then some handler else otherwise

/-- The branch `if (starts_with(command, prefix))` before the branches `otherwise`. -/
def Console.ifStarts (console : Console) (start : String) (handler : Handler) (otherwise : Option Handler) :
    Option Handler :=
  (startsWith console.text (lit start)).bind fun yes => if yes then some handler else otherwise

/-- The branch that `run_command` takes. -/
def chooseHandler (console : Console) : Option Handler :=
  console.ifCommand "help" .help <|
  console.ifCommand "info" .info <|
  console.ifCommand "uname" .uname <|
  console.ifCommand "ps" .ps <|
  console.ifStarts "echo " .echo <|
  console.ifCommand "syscalls" .syscalls <|
  console.ifCommand "devices" .devices <|
  console.ifCommand "posix" .posix <|
  console.ifCommand "clear" .clear <|
  console.ifCommand "uptime" .uptime <|
  if console.commandLength ≠ 0 then some .unknown else some .nothing

/-- The literals that a branch writes, where it writes literals only. -/
def Handler.texts : Handler → List String
  | .help => ["commands: help, info, uname, ps, echo, syscalls, devices, posix, clear, uptime\n"]
  | .info =>
      ["NovaOS Phase 3.1 Rapid Kernel prototype\n",
        "hybrid layers: microkernel core, BSD/POSIX personality, NovaKit drivers\n",
        "boot: Multiboot kernel with serial command line in QEMU\n"]
  | .syscalls =>
      ["implemented syscall ABI: write, uname, getpid, uptime; planned: open/read/close/fork/exec/wait\n"]
  | .devices =>
      ["novakit registry: console0(com1), cpu0(qemu), bus0(multiboot), blk0(virtio planned)\n"]
  | .posix =>
      ["POSIX status: command names and uname/getpid/write semantics are present; full POSIX requires BSD VFS/process integration.\n"]
  | .clear => ["\x1b[2J\x1b[H"]
  | .unknown => ["unknown command; use help\n"]
  | _ => []

/-- What the branch sends to the port. -/
def runHandler (console : Console) : Handler → Option (List UInt8)
  | .uname => printUname console.ticks
  | .ps => printPs console.ticks
  | .echo => sysWrites console.ticks [console.text.drop 5, lit "\n"]
  | .uptime =>
      (sysWrite console.ticks (lit "uptime ticks: ")).bind fun label =>
        (novaSyscallDispatch console.ticks .uptime).bind fun answer =>
          (sysWrite console.ticks (lit "\n")).map fun newline =>
            label ++ writeUnsigned answer.result.toUInt32.toNat ++ newline
  | handler => sysWrites console.ticks (handler.texts.map lit)

/-- The command that was entered is ended with a NUL, run and forgotten. -/
def runCommand (console : Console) : Option (List UInt8 × Console) :=
  (console.store console.commandLength 0).bind fun console =>
    (chooseHandler console).bind fun handler =>
      (runHandler console handler).bind fun output =>
        (serialPrompt console.ticks).map fun prompt =>
          (serialPutc 10 ++ output ++ prompt, { console with commandLength := 0 })

def serialBackspace (console : Console) : Option (List UInt8 × Console) :=
  if console.commandLength = 0 then some ([], console)
  else
    (sysWrite console.ticks (lit "\x08 \x08")).map fun output =>
      (output, { console with commandLength := console.commandLength - 1 })

/-- The byte that waits at the port, if one does, is taken and answered. -/
def serialPoll (console : Console) : Option UInt8 → Option (List UInt8 × Console)
  | none => some ([], console)
  | some value =>
      if value = 13 ∨ value = 10 then runCommand console
      else if value = 8 ∨ value = 0x7F then serialBackspace console
      else if 0x20 ≤ value ∧ value ≤ 0x7E ∧ console.commandLength < 159 then
        (console.store console.commandLength value).map fun console =>
          (serialPutc value, { console with commandLength := console.commandLength + 1 })
      else some ([], console)

/-! ## Runs -/

/-- What is sent before the first poll. -/
def bootBanner (ticks : UInt32) : Option (List UInt8) :=
  (sysWrites ticks
    [lit "\nNovaOS Phase 3.1 Rapid Kernel booted.\n",
      lit "QEMU command line online; type help for POSIX and NovaKit commands.\n"]).bind fun banner =>
    (serialPrompt ticks).map (banner ++ ·)

def bootConsole : Console where
  command := Vector.replicate 160 0
  commandLength := 0
  ticks := 0

/-- One round of the loop of `kmain`. -/
def kmainStep (console : Console) (input : Option UInt8) : Option (List UInt8 × Console) :=
  serialPoll { console with ticks := console.ticks + 1 } input

def consoleMachine : Machine (Option Console) (Option UInt8) (Option (List UInt8)) := .ofPartial kmainStep

end NovaOs.Boot
