import NovaOs.Boot.Lemmas.Kernel

/-!
# The kernel runs the line that was edited

The buffer is used again for every line and never cleared. `ConsoleIs` says that it begins with the current line; what
lies behind it is the rest of earlier lines, and no scan gets there.
-/

namespace NovaOs.Boot

open Lib

variable {console console' : Console} {line : Line}

/-- The buffer begins with the line. -/
structure ConsoleIs (console : Console) (line : Line) : Prop where
  length : console.commandLength = line.length
  bytes : console.text.take line.length = line.bytes

/-! ## One poll -/

theorem ConsoleIs.boot : ConsoleIs bootConsole .empty := ⟨rfl, rfl⟩

theorem ConsoleIs.tick (h : ConsoleIs console line) (ticks : UInt32) : ConsoleIs { console with ticks := ticks } line :=
  ⟨h.length, h.bytes⟩

theorem ConsoleIs.store (h : ConsoleIs console line) (value : UInt8) :
    ∃ stored, console.store console.commandLength value = some stored ∧
      stored.commandLength = line.length ∧ stored.ticks = console.ticks ∧
      ∃ after, stored.text = line.bytes ++ value :: after := by
  have hle := line.length_le
  have hlen : line.length = line.bytes.length := rfl
  have hroom : line.length < 160 := by omega
  have htext : ∀ hroom', ({ console with command := console.command.set line.length value hroom' } : Console).text =
      console.text.take line.length ++ value :: console.text.drop (line.length + 1) := by
    intro hroom'
    simp [Console.text, Vector.toList_set, List.set_eq_take_append_cons_drop, hroom]
  rw [h.bytes] at htext
  rw [h.length]
  exact ⟨_, dif_pos hroom, h.length, rfl, _, htext hroom⟩

/-- A line that is entered is ended, looked at and answered. -/
theorem ConsoleIs.enter (h : ConsoleIs console line) :
    ∃ ended console', console.store console.commandLength 0 = some ended ∧ chooseHandler ended = some line.handler ∧
      runCommand console =
        some (serialPutc 10 ++ line.answer console.ticks line.handler ++ puts (.ofString "nova> "), console') ∧
      ConsoleIs console' .empty ∧ console'.ticks = console.ticks := by
  obtain ⟨ended, hstore, hlength, hticks, after, htext⟩ := h.store 0
  have hholds : Holds ended.text line.string := by
    rw [htext]
    exact .append line.string after
  have hhandler := chooseHandler_of_holds hholds hlength
  refine ⟨ended, { ended with commandLength := 0 }, hstore, hhandler, ?_, ⟨rfl, rfl⟩, hticks⟩
  simp [runCommand, hstore, hhandler, runHandler_of_holds hholds, serialPrompt, hticks]

theorem ConsoleIs.backspace (h : ConsoleIs console line) :
    ∃ console', serialBackspace console =
        some (if line.length = 0 then [] else puts (.ofString "\x08 \x08"), console') ∧
      ConsoleIs console' line.erase ∧ console'.ticks = console.ticks := by
  have hlen : line.length = line.bytes.length := rfl
  have herase : line.erase.length = line.length - 1 := List.length_dropLast
  unfold serialBackspace
  rw [h.length]
  by_cases hzero : line.length = 0
  · have hnil : line.bytes = [] := List.length_eq_zero_iff.mp hzero
    refine ⟨console, by rw [if_pos hzero, if_pos hzero], ⟨?_, ?_⟩, rfl⟩
    · rw [herase, h.length]
      omega
    · show console.text.take line.erase.length = line.bytes.dropLast
      rw [herase, hzero, hnil]
      rfl
  · refine ⟨{ console with commandLength := line.length - 1 }, by simp [hzero], ⟨herase.symm, ?_⟩, rfl⟩
    have hbytes := h.bytes
    show console.text.take line.erase.length = line.bytes.dropLast
    rw [herase, List.dropLast_eq_take, ← hlen, ← hbytes, List.take_take]
    congr 1
    omega

theorem ConsoleIs.type (h : ConsoleIs console line) {value : UInt8} (hvalue : 0x20 ≤ value ∧ value ≤ 0x7E)
    (hroom : line.length < 159) :
    ∃ console', (console.store console.commandLength value).map (fun console =>
        (serialPutc value, { console with commandLength := console.commandLength + 1 })) =
          some (serialPutc value, console') ∧
      ConsoleIs console' (line.append value hvalue hroom) ∧ console'.ticks = console.ticks := by
  obtain ⟨stored, hstore, hlength, hticks, after, htext⟩ := h.store value
  have happend : (line.append value hvalue hroom).length = line.length + 1 := List.length_append
  refine ⟨{ stored with commandLength := stored.commandLength + 1 }, by rw [hstore]; rfl, ⟨?_, ?_⟩, hticks⟩
  · rw [happend, ← hlength]
  · have hlen : line.length = line.bytes.length := rfl
    show stored.text.take _ = line.bytes ++ [value]
    rw [htext, happend, hlen]
    simp [List.take_append]

section

variable {value : UInt8}

theorem serialPoll_enters (h : Enters value) : serialPoll console (some value) = runCommand console := if_pos h

theorem serialPoll_erases (h : ¬ Enters value) (h' : value = 8 ∨ value = 0x7F) :
    serialPoll console (some value) = serialBackspace console := (if_neg h).trans (if_pos h')

theorem serialPoll_types (h : ¬ Enters value) (h' : ¬ (value = 8 ∨ value = 0x7F))
    (h'' : 0x20 ≤ value ∧ value ≤ 0x7E ∧ console.commandLength < 159) :
    serialPoll console (some value) =
      (console.store console.commandLength value).map fun console =>
        (serialPutc value, { console with commandLength := console.commandLength + 1 }) :=
  (if_neg h).trans ((if_neg h').trans (if_pos h''))

theorem serialPoll_ignores (h : ¬ Enters value) (h' : ¬ (value = 8 ∨ value = 0x7F))
    (h'' : ¬ (0x20 ≤ value ∧ value ≤ 0x7E ∧ console.commandLength < 159)) :
    serialPoll console (some value) = some ([], console) :=
  (if_neg h).trans ((if_neg h').trans (if_neg h''))

end

theorem ConsoleIs.poll (h : ConsoleIs console line) (input : Option UInt8) :
    ∃ console', serialPoll console input = some (line.output console.ticks input, console') ∧
      ConsoleIs console' (line.after input) ∧ console'.ticks = console.ticks := by
  cases input with
  | none => exact ⟨console, rfl, h, rfl⟩
  | some value =>
      by_cases henters : Enters value
      · obtain ⟨_, console', _, _, hcall, hempty, hticks⟩ := h.enter
        refine ⟨console', ?_, ?_, hticks⟩
        · rw [serialPoll_enters henters, hcall, Line.output, if_pos henters]
        · rwa [Line.after, if_pos henters]
      · by_cases herases : value = 8 ∨ value = 0x7F
        · obtain ⟨console', hcall, herase, hticks⟩ := h.backspace
          refine ⟨console', ?_, ?_, hticks⟩
          · rw [serialPoll_erases henters herases, hcall, Line.output, if_neg henters, if_pos herases]
          · rwa [Line.after, if_neg henters, Line.edit, if_pos herases]
        · have hguard : (0x20 ≤ value ∧ value ≤ 0x7E ∧ console.commandLength < 159) ↔
              (0x20 ≤ value ∧ value ≤ 0x7E) ∧ line.length < 159 := by
            rw [h.length, and_assoc]
          by_cases htypes : (0x20 ≤ value ∧ value ≤ 0x7E) ∧ line.length < 159
          · obtain ⟨console', hcall, happend, hticks⟩ := h.type htypes.1 htypes.2
            refine ⟨console', ?_, ?_, hticks⟩
            · rw [serialPoll_types henters herases (hguard.mpr htypes), hcall, Line.output, if_neg henters,
                if_neg herases, if_pos htypes]
            · rwa [Line.after, if_neg henters, Line.edit, if_neg herases, dif_pos htypes]
          · refine ⟨console, ?_, ?_, rfl⟩
            · rw [serialPoll_ignores henters herases (mt hguard.mp htypes), Line.output, if_neg henters, if_neg herases,
                if_neg htypes]
            · rwa [Line.after, if_neg henters, Line.edit, if_neg herases, dif_neg htypes]

theorem ConsoleIs.next (h : ConsoleIs console line) (input : Option UInt8) :
    ∃ console', kmainStep console input = some (line.output (console.ticks + 1) input, console') ∧
      ConsoleIs console' (line.after input) ∧ console'.ticks = console.ticks + 1 :=
  (h.tick (console.ticks + 1)).poll input

/-! ## Whole runs -/

/-- The kernel simulates the shell. -/
theorem console_refines_shell :
    Machine.Simulation consoleMachine shellMachine
      (fun st shell => ∃ console, st = some console ∧ ConsoleIs console shell.line ∧ console.ticks = shell.ticks)
      (fun _ output output' => output = some output') where
  out := by
    rintro _ shell input ⟨console, rfl, h, hticks⟩
    obtain ⟨console', hstep, _⟩ := h.next input
    rw [consoleMachine, Machine.ofPartial_out hstep, hticks]
    rfl
  next := by
    rintro _ shell input ⟨console, rfl, h, hticks⟩
    obtain ⟨console', hstep, h', hticks'⟩ := h.next input
    refine ⟨console', Machine.ofPartial_next hstep, h', ?_⟩
    rw [hticks', hticks]
    rfl

theorem currentLine_concat (polls : List (Option UInt8)) (input : Option UInt8) :
    currentLine (polls ++ [input]).reduceOption = (currentLine polls.reduceOption).after input := by
  cases input with
  | none => rw [List.reduceOption_append, List.reduceOption_singleton, Option.toList_none, List.append_nil, Line.after]
  | some value =>
      rw [List.reduceOption_append, List.reduceOption_singleton, Option.toList_some, Line.after]
      by_cases h : Enters value
      · simp [currentLine, h]
      · simp [currentLine, h]

theorem shell_line (polls : List (Option UInt8)) :
    (shellMachine.exec bootShell polls).line = currentLine polls.reduceOption := by
  induction polls using List.reverseRecOn with
  | nil => rfl
  | append_singleton polls input ih =>
      rw [currentLine_concat, Machine.exec_append, ← ih]
      rfl

/-- At every point of a run the kernel has the line that the bytes polled make. -/
theorem exec_console (polls : List (Option UInt8)) :
    ∃ console, consoleMachine.exec (some bootConsole) polls = some console ∧
      ConsoleIs console (currentLine polls.reduceOption) := by
  have hboot : ∃ console, some bootConsole = some console ∧ ConsoleIs console bootShell.line ∧
      console.ticks = bootShell.ticks := ⟨bootConsole, rfl, .boot, rfl⟩
  obtain ⟨console, hexec, h, _⟩ := console_refines_shell.exec hboot polls
  rw [shell_line] at h
  exact ⟨console, hexec, h⟩

/-- Every poll of a run is answered as the shell answers it. -/
theorem trace_console (polls : List (Option UInt8)) :
    List.Forall₂ (fun call call' => call.1 = call'.1 ∧ call.2 = some call'.2)
      (consoleMachine.trace (some bootConsole) polls) (shellMachine.trace bootShell polls) :=
  console_refines_shell.trace ⟨bootConsole, rfl, .boot, rfl⟩ polls

/-- What the editor has to do with a line. -/
structure ShellMeets (console : Console) (line : Line) : Prop where
  length : console.commandLength = line.length
  bound : console.commandLength ≤ 159
  inside : ∀ input, (kmainStep console input).isSome
  enter : ∀ value, Enters value → ∃ ended console',
    { console with ticks := console.ticks + 1 }.store console.commandLength 0 = some ended ∧
      chooseHandler ended = some line.handler ∧
      kmainStep console (some value) =
        some (serialPutc 10 ++ line.answer (console.ticks + 1) line.handler ++ puts (.ofString "nova> "), console') ∧
      ConsoleIs console' .empty

theorem ConsoleIs.meets (h : ConsoleIs console line) : ShellMeets console line where
  length := h.length
  bound := h.length.trans_le line.length_le
  inside input := by
    obtain ⟨console', hstep, _⟩ := h.next input
    rw [hstep]
    rfl
  enter value hvalue := by
    obtain ⟨ended, console', hstore, hhandler, hcall, hempty, _⟩ := (h.tick (console.ticks + 1)).enter
    exact ⟨ended, console', hstore, hhandler, (serialPoll_enters hvalue).trans hcall, hempty⟩

/-- After any polls the shell has the current line, and it is run and answered by that line alone. -/
theorem shell_interprets_line (polls : List (Option UInt8)) :
    ∃ console, consoleMachine.exec (some bootConsole) polls = some console ∧
      ShellMeets console (currentLine polls.reduceOption) := by
  obtain ⟨console, hexec, h⟩ := exec_console polls
  exact ⟨console, hexec, h.meets⟩

end NovaOs.Boot
