import NovaOs.Boot.Kernel
import Mathlib.Data.List.DropRight
import Mathlib.Data.List.ReduceOption

/-!
# What the serial shell is for

The shell edits a line and answers it when it is entered. Nothing here knows of the buffer that the kernel keeps the
line in: the answer is a function of the line and of the tick count.
-/

namespace NovaOs.Boot

open Lib

/-! ## Lines -/

structure Line where
  bytes : List UInt8
  printable : ∀ b ∈ bytes, 0x20 ≤ b ∧ b ≤ 0x7E
  length_le : bytes.length ≤ 159

namespace Line

variable (line : Line)

def length : Nat := line.bytes.length

def string : CString := ⟨line.bytes, fun h => absurd (line.printable 0 h) (by decide)⟩

def empty : Line := ⟨[], by simp, by simp⟩

/-- The last character is dropped, if there is one. -/
def erase : Line where
  bytes := line.bytes.dropLast
  printable b hb := line.printable b (List.mem_of_mem_dropLast hb)
  length_le := by
    have hle := line.length_le
    rw [List.length_dropLast]
    omega

def append (value : UInt8) (hvalue : 0x20 ≤ value ∧ value ≤ 0x7E) (hroom : line.length < 159) : Line where
  bytes := line.bytes ++ [value]
  printable b hb := by
    cases List.mem_append.mp hb with
    | inl hold => exact line.printable b hold
    | inr hnew => rwa [List.mem_singleton.mp hnew]
  length_le := by
    rw [List.length_append]
    exact hroom

/-- The line after a byte that does not enter it. -/
def edit (value : UInt8) : Line :=
  if value = 8 ∨ value = 0x7F then line.erase
  else if h : (0x20 ≤ value ∧ value ≤ 0x7E) ∧ line.length < 159 then line.append value h.1 h.2
  else line

end Line

/-- The bytes that enter a line. -/
def Enters (value : UInt8) : Prop := value = 13 ∨ value = 10

instance (value : UInt8) : Decidable (Enters value) := inferInstanceAs (Decidable (_ ∨ _))

/-- The line that the bytes since the last entered one make. -/
def currentLine (input : List UInt8) : Line := (input.rtakeWhile fun value => ¬ Enters value).foldl Line.edit .empty

/-! ## Answers -/

/-- The bytes of a string as they are sent. -/
def puts (s : CString) : List UInt8 := s.bytes.flatMap serialPutc

def Line.handler (line : Line) : Handler :=
  if line.string = .ofString "help" then .help
  else if line.string = .ofString "info" then .info
  else if line.string = .ofString "uname" then .uname
  else if line.string = .ofString "ps" then .ps
  else if (CString.ofString "echo ").bytes <+: line.bytes then .echo
  else if line.string = .ofString "syscalls" then .syscalls
  else if line.string = .ofString "devices" then .devices
  else if line.string = .ofString "posix" then .posix
  else if line.string = .ofString "clear" then .clear
  else if line.string = .ofString "uptime" then .uptime
  else if line.length ≠ 0 then .unknown
  else .nothing

def unameOutput : List UInt8 :=
  puts (.ofString "NovaOS") ++ puts (.ofString " ") ++ puts (.ofString "qemu0") ++ puts (.ofString " ") ++
    puts novaUtsRelease ++ puts (.ofString " ") ++ puts (.ofString "Rapid Kernel Phase 3.1") ++
    puts (.ofString " ") ++ puts novaUtsMachine ++ puts (.ofString "\n")

def NovaTask.row (task : NovaTask) : List UInt8 :=
  writeUnsigned task.pid ++ puts (.ofString "   ") ++ puts task.state ++ puts (.ofString " ") ++ puts task.name ++
    puts (.ofString "\n")

/-- What a branch prints for the line. -/
def Line.answer (line : Line) (ticks : UInt32) : Handler → List UInt8
  | .uname => unameOutput
  | .ps => puts (.ofString "PID STATE   COMMAND\n") ++ tasks.flatMap NovaTask.row
  | .echo => puts (line.string.rest 5) ++ puts (.ofString "\n")
  | .uptime => puts (.ofString "uptime ticks: ") ++ writeUnsigned ticks.toNat ++ puts (.ofString "\n")
  | handler => handler.texts.flatMap fun text => puts (.ofString text)

/-! ## The shell -/

structure Shell where
  line : Line
  ticks : UInt32

def bootShell : Shell := ⟨.empty, 0⟩

/-- The shell after a poll of the port. -/
def Line.after (line : Line) : Option UInt8 → Line
  | none => line
  | some value => if Enters value then .empty else line.edit value

/-- What is sent in answer to a poll. -/
def Line.output (line : Line) (ticks : UInt32) : Option UInt8 → List UInt8
  | none => []
  | some value =>
      if Enters value then serialPutc 10 ++ line.answer ticks line.handler ++ puts (.ofString "nova> ")
      else if value = 8 ∨ value = 0x7F then if line.length = 0 then [] else puts (.ofString "\x08 \x08")
      else if (0x20 ≤ value ∧ value ≤ 0x7E) ∧ line.length < 159 then serialPutc value
      else []

def shellMachine : Machine Shell (Option UInt8) (List UInt8) where
  step shell input := (shell.line.output (shell.ticks + 1) input, ⟨shell.line.after input, shell.ticks + 1⟩)

end NovaOs.Boot
