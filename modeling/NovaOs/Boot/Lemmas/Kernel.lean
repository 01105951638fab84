import NovaOs.Boot.Editor

/-!
# What the functions of the kernel make of a string

Where the memory at a pointer holds a string, the scans stop at its NUL: they see the string and nothing behind it.
-/

namespace NovaOs.Boot

open Lib

variable {text : List UInt8} {s : CString} {console : Console} {line : Line}

/-! ## Scans -/

theorem novaStrlen_append (bytes after : List UInt8) (h : 0 ∉ bytes) :
    novaStrlen (bytes ++ 0 :: after) = some bytes.length := by
  induction bytes with
  | nil => rfl
  | cons b bytes ih =>
      simp only [List.mem_cons, not_or] at h
      simp [novaStrlen, Ne.symm h.1, ih h.2]

theorem novaStrlen_of_holds (h : Holds text s) : novaStrlen text = some s.length := by
  obtain ⟨after, rfl⟩ := h.exists_append
  exact novaStrlen_append s.bytes after s.nul_free

theorem startsWith_append (start bytes after : List UInt8) (hstart : 0 ∉ start) :
    startsWith (bytes ++ 0 :: after) (start ++ [0]) = some (decide (start <+: bytes)) := by
  induction start generalizing bytes with
  | nil =>
      unfold startsWith
      simp
  | cons p start ih =>
      simp only [List.mem_cons, not_or] at hstart
      cases bytes with
      | nil => simp [startsWith, Ne.symm hstart.1, hstart.1]
      | cons b bytes =>
          by_cases he : b = p
          · simp [startsWith, Ne.symm hstart.1, he, ih bytes hstart.2, List.cons_prefix_cons]
          · simp [startsWith, Ne.symm hstart.1, he, List.cons_prefix_cons, Ne.symm he]

theorem startsWith_of_holds (h : Holds text s) (start : CString) :
    startsWith text start.text = some (decide (start.bytes <+: s.bytes)) := by
  obtain ⟨after, rfl⟩ := h.exists_append
  exact startsWith_append start.bytes s.bytes after start.nul_free

theorem commandIs_append (bytes expected after : List UInt8) (hbytes : 0 ∉ bytes) (hexpected : 0 ∉ expected) :
    commandIs (bytes ++ 0 :: after) (expected ++ [0]) = some (decide (bytes = expected)) := by
  induction expected generalizing bytes with
  | nil =>
      cases bytes with
      | nil => simp [commandIs]
      | cons b bytes =>
          simp only [List.mem_cons, not_or] at hbytes
          simp [commandIs, Ne.symm hbytes.1]
  | cons e expected ih =>
      simp only [List.mem_cons, not_or] at hexpected
      cases bytes with
      | nil => simp [commandIs, Ne.symm hexpected.1, hexpected.1]
      | cons b bytes =>
          simp only [List.mem_cons, not_or] at hbytes
          by_cases he : b = e
          · simp [commandIs, Ne.symm hexpected.1, he, ih bytes hbytes.2 hexpected.2]
          · simp [commandIs, Ne.symm hexpected.1, he]

theorem commandIs_of_holds (h : Holds text s) (expected : CString) :
    commandIs text expected.text = some (decide (s = expected)) := by
  obtain ⟨after, rfl⟩ := h.exists_append
  have hiff : s.bytes = expected.bytes ↔ s = expected := ⟨CString.eq_of_bytes, fun he => by rw [he]⟩
  rw [CString.text, commandIs_append s.bytes expected.bytes after s.nul_free expected.nul_free]
  simp only [hiff]

/-! ## Writes -/

theorem sysWrite_of_holds (ticks : UInt32) (h : Holds text s) : sysWrite ticks text = some (puts s) := by
  obtain ⟨after, rfl⟩ := h.exists_append
  have hlen : s.length = s.bytes.length := rfl
  simp [sysWrite, novaStrlen_of_holds (Holds.append s after), novaSyscallDispatch, hlen, puts]

@[simp] theorem sysWrite_text (ticks : UInt32) (s : CString) : sysWrite ticks s.text = some (puts s) :=
  sysWrite_of_holds ticks (Holds.text_self s)

@[simp] theorem sysWrite_lit (ticks : UInt32) (literal : String) :
    sysWrite ticks (lit literal) = some (puts (.ofString literal)) := sysWrite_text ticks _

theorem sysWrites_lit (ticks : UInt32) (literals : List String) :
    sysWrites ticks (literals.map lit) = some (literals.flatMap fun text => puts (.ofString text)) := by
  induction literals with
  | nil => rfl
  | cons literal literals ih => simp [sysWrites, ih]

theorem printUname_eq (ticks : UInt32) : printUname ticks = some unameOutput := by
  simp only [printUname, novaSyscallDispatch, sysWrites, sysWrite_text, sysWrite_lit, Option.bind_some, Option.map_some,
    List.append_nil, List.append_assoc, unameOutput]

theorem print_eq (ticks : UInt32) (task : NovaTask) : task.print ticks = some task.row := by
  simp only [NovaTask.print, sysWrites, sysWrite_text, sysWrite_lit, Option.bind_some, Option.map_some, List.append_nil,
    List.append_assoc, NovaTask.row]

theorem printPs_eq (ticks : UInt32) :
    printPs ticks = some (puts (.ofString "PID STATE   COMMAND\n") ++ tasks.flatMap NovaTask.row) := by
  have hrows : tasks.mapM (NovaTask.print ticks) = some (tasks.map NovaTask.row) := by
    simp only [tasks, List.mapM_cons, List.mapM_nil, print_eq, List.map_cons, List.map_nil]
    rfl
  simp only [printPs, sysWrite_lit, hrows, Option.bind_some, Option.map_some, List.flatMap]

/-! ## The branches of a command -/

theorem ifCommand_of_holds (h : Holds console.text s) (expected handler otherwise) :
    console.ifCommand expected handler otherwise =
      if s = .ofString expected then some handler else otherwise := by
  simp [Console.ifCommand, lit, commandIs_of_holds h]

theorem ifStarts_of_holds (h : Holds console.text s) (start handler otherwise) :
    console.ifStarts start handler otherwise =
      if (CString.ofString start).bytes <+: s.bytes then some handler else otherwise := by
  simp [Console.ifStarts, lit, startsWith_of_holds h]

theorem chooseHandler_of_holds (h : Holds console.text line.string) (hlen : console.commandLength = line.length) :
    chooseHandler console = some line.handler := by
  simp only [chooseHandler, ifCommand_of_holds h, ifStarts_of_holds h, hlen, Line.handler, apply_ite some]
  rfl

theorem starts_of_echo (h : line.handler = .echo) : (CString.ofString "echo ").bytes <+: line.bytes := by
  by_contra hnot
  -- No other branch is the one of `echo`.
  simp only [Line.handler, hnot, ↓reduceIte, ite_eq_iff, reduceCtorEq, and_false, or_self] at h

theorem runHandler_of_holds (h : Holds console.text line.string) :
    runHandler console line.handler = some (line.answer console.ticks line.handler) := by
  cases hhandler : line.handler with
  | uname => exact printUname_eq console.ticks
  | ps => exact printPs_eq console.ticks
  | echo =>
      have hstarts := (starts_of_echo hhandler).length_le
      have hlen : 5 ≤ line.string.length := hstarts
      simp only [runHandler, sysWrites, sysWrite_of_holds console.ticks (h.drop hlen), sysWrite_lit, Option.bind_some,
        Option.map_some, List.append_nil, Line.answer]
  | uptime =>
      simp only [runHandler, novaSyscallDispatch, sysWrite_lit, Option.bind_some, Option.map_some,
        UInt32.toUInt32_toInt32, Line.answer]
  | help => exact sysWrites_lit console.ticks _
  | info => exact sysWrites_lit console.ticks _
  | syscalls => exact sysWrites_lit console.ticks _
  | devices => exact sysWrites_lit console.ticks _
  | posix => exact sysWrites_lit console.ticks _
  | clear => exact sysWrites_lit console.ticks _
  | unknown => exact sysWrites_lit console.ticks _
  | nothing => exact sysWrites_lit console.ticks _

end NovaOs.Boot
