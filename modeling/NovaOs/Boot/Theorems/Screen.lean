import NovaOs.Lib.Terminal
import NovaOs.Boot.Theorems.Shell

/-!
# What is on the screen

At the other end of the serial line is a terminal. What it shows behind the prompt is the line that is in the buffer.
-/

namespace NovaOs.Boot

open Lib

variable {console : Console} {line : Line}

/-- The polls of a run, with what each of them sent. -/
abbrev History := List (Option UInt8 × Option (List UInt8))

def sent (history : History) : List UInt8 := history.flatMap fun call => call.2.getD []

/-- The polls since the last that entered a line. -/
def sinceEntered (history : History) : History := history.rtakeWhile fun call => call.1.all fun value => ¬ Enters value

def prompt : List UInt8 := puts (.ofString "nova> ")

/-- The terminal shows the text behind the prompt: the prompt is the last thing sent before what was sent since a line was
entered, and that puts the text there and never touches the prompt or what is before it. -/
structure ScreenShows (text : List UInt8) (history : History) : Prop where
  prompted : ∃ banner before, bootBanner bootConsole.ticks = some banner ∧
    banner ++ sent history = before ++ prompt ++ sent (sinceEntered history)
  shows : ∀ cells, Displays (cells ++ prompt) (cells ++ prompt) (sent (sinceEntered history)) (cells ++ prompt ++ text)

/-! ## One poll -/

theorem sent_append (history history' : History) : sent (history ++ history') = sent history ++ sent history' :=
  List.flatMap_append

theorem sinceEntered_concat (history : History) (input : Option UInt8) (output : Option (List UInt8)) :
    sinceEntered (history ++ [(input, output)]) =
      if input.all fun value => ¬ Enters value then sinceEntered history ++ [(input, output)] else [] := by
  split
  · next h => exact List.rtakeWhile_concat_pos _ _ _ h
  · next h => exact List.rtakeWhile_concat_neg _ _ _ h

/-- A printable byte is sent as it is. -/
theorem serialPutc_of_printable {value : UInt8} (h : 0x20 ≤ value ∧ value ≤ 0x7E) : serialPutc value = [value] := by
  have hne : value ≠ 10 := by
    rintro rfl
    exact absurd h.1 (by decide)
  exact if_neg hne

theorem displays_erase (line : Line) (kept : List UInt8) :
    Displays kept (kept ++ line.bytes) (if line.length = 0 then [] else puts (.ofString "\x08 \x08"))
      (kept ++ line.erase.bytes) := by
  by_cases hzero : line.length = 0
  · have hnil : line.bytes = [] := List.length_eq_zero_iff.mp hzero
    have herase : line.erase.bytes = [] := (congrArg List.dropLast hnil).trans List.dropLast_nil
    rw [if_pos hzero, herase, hnil]
    exact .nil (List.prefix_append kept [])
  · have hne : line.bytes ≠ [] := fun hnil => hzero (List.length_eq_zero_iff.mpr hnil)
    have hline : line.bytes = line.erase.bytes ++ [line.bytes.getLast hne] := (List.dropLast_append_getLast hne).symm
    have hsent : puts (.ofString "\x08 \x08") = [8, 0x20, 8] := by decide
    rw [if_neg hzero, hsent, hline, ← List.append_assoc]
    exact .erase (List.prefix_append kept _)

/-- What is sent for a byte that does not enter the line does to the screen what the byte does to the line. -/
theorem Line.displays (line : Line) (ticks : UInt32) {input : Option UInt8} (h : input.all fun value => ¬ Enters value)
    (kept : List UInt8) :
    Displays kept (kept ++ line.bytes) (line.output ticks input) (kept ++ (line.after input).bytes) := by
  cases input with
  | none => exact .nil (List.prefix_append kept line.bytes)
  | some value =>
      have henters : ¬ Enters value := by simpa using h
      rw [Line.output, Line.after, if_neg henters, if_neg henters, Line.edit]
      by_cases herases : value = 8 ∨ value = 0x7F
      · rw [if_pos herases, if_pos herases]
        exact displays_erase line kept
      · rw [if_neg herases, if_neg herases]
        by_cases htypes : (0x20 ≤ value ∧ value ≤ 0x7E) ∧ line.length < 159
        · rw [if_pos htypes, dif_pos htypes, serialPutc_of_printable htypes.1, Line.append, ← List.append_assoc]
          exact .put (List.prefix_append kept line.bytes) htypes.1
        · rw [if_neg htypes, dif_neg htypes]
          exact .nil (List.prefix_append kept line.bytes)

theorem Line.output_enters (line : Line) (ticks : UInt32) {input : Option UInt8}
    (h : ¬ input.all fun value => ¬ Enters value) :
    ∃ answer, line.output ticks input = answer ++ prompt ∧ line.after input = .empty := by
  cases input with
  | none => exact absurd rfl h
  | some value =>
      have henters : Enters value := by simpa using h
      exact ⟨serialPutc 10 ++ line.answer ticks line.handler, if_pos henters, if_pos henters⟩

/-! ## Whole runs -/

theorem ScreenShows.boot : ScreenShows [] [] where
  prompted := by
    let text := puts (.ofString "\nNovaOS Phase 3.1 Rapid Kernel booted.\n") ++
      puts (.ofString "QEMU command line online; type help for POSIX and NovaKit commands.\n")
    refine ⟨text ++ prompt, text, ?_, ?_⟩
    · simp only [bootBanner, sysWrites, serialPrompt, sysWrite_lit, Option.bind_some, Option.map_some, List.append_nil]
      rfl
    · simp [sent, sinceEntered]
  shows cells := by
    rw [List.append_nil]
    exact .nil List.prefix_rfl

theorem ScreenShows.next {history : History} (h : ScreenShows line.bytes history) (ticks : UInt32) (input : Option UInt8) :
    ScreenShows (line.after input).bytes (history ++ [(input, some (line.output ticks input))]) := by
  have hsent : sent [(input, some (line.output ticks input))] = line.output ticks input := List.append_nil _
  obtain ⟨banner, before, hbanner, hprompt⟩ := h.prompted
  by_cases hstays : input.all fun value => ¬ Enters value
  · constructor
    · refine ⟨banner, before, hbanner, ?_⟩
      rw [sinceEntered_concat, if_pos hstays, sent_append, sent_append, ← List.append_assoc, hprompt, List.append_assoc]
    · intro cells
      rw [sinceEntered_concat, if_pos hstays, sent_append, hsent]
      exact (h.shows cells).trans (line.displays ticks hstays (cells ++ prompt))
  · obtain ⟨answer, houtput, hempty⟩ := line.output_enters ticks hstays
    constructor
    · refine ⟨banner, banner ++ sent history ++ answer, hbanner, ?_⟩
      rw [sinceEntered_concat, if_neg hstays, sent_append, hsent, houtput]
      simp [sent]
    · intro cells
      rw [sinceEntered_concat, if_neg hstays, hempty, Line.empty, List.append_nil]
      exact .nil List.prefix_rfl

/-- The buffer and the screen have the same line. -/
def ScreenInv (st : Option Console) (history : History) : Prop :=
  ∃ console line, st = some console ∧ ConsoleIs console line ∧ ScreenShows line.bytes history

theorem ScreenInv.next {st : Option Console} {history : History} (h : ScreenInv st history) (input : Option UInt8) :
    ScreenInv (consoleMachine.next st input) (history ++ [(input, consoleMachine.out st input)]) := by
  obtain ⟨console, line, rfl, h, hscreen⟩ := h
  obtain ⟨console', hstep, h', _⟩ := h.next input
  refine ⟨console', line.after input, Machine.ofPartial_next hstep, h', ?_⟩
  rw [consoleMachine, Machine.ofPartial_out hstep]
  exact hscreen.next (console.ticks + 1) input

theorem ScreenInv.exec (polls : List (Option UInt8)) :
    ScreenInv (consoleMachine.exec (some bootConsole) polls) (consoleMachine.trace (some bootConsole) polls) :=
  Machine.history_invariant (fun _ _ input h => h.next input) ⟨bootConsole, .empty, rfl, .boot, .boot⟩ polls

/-- At every point of a run, what the screen shows behind the prompt is what is in the buffer. -/
theorem screen_shows_command (polls : List (Option UInt8)) :
    ∃ console, consoleMachine.exec (some bootConsole) polls = some console ∧
      ScreenShows (console.text.take console.commandLength) (consoleMachine.trace (some bootConsole) polls) := by
  obtain ⟨console, line, hexec, h, hscreen⟩ := ScreenInv.exec polls
  refine ⟨console, hexec, ?_⟩
  rwa [h.length, h.bytes]

end NovaOs.Boot
