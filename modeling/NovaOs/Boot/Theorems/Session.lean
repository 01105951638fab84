import NovaOs.Boot.Theorems.Numerals
import NovaOs.Boot.Theorems.Screen

/-!
# Whole sessions

What goes over the serial line in a run is the text of its session: what was typed for each line that was entered, the
answer to it and the prompt. When the port is polled makes no difference, but to the number that `uptime` prints.
-/

namespace NovaOs.Boot

open Lib

variable {line : Line} {typed : List UInt8} {value : UInt8}

/-- The bytes that were typed for a line, and the tick count when it was entered. -/
structure Entry where
  typed : List UInt8
  ticks : UInt32

/-- The lines that were entered, and the bytes that were typed since. -/
structure Session where
  entered : List Entry
  typed : List UInt8
  ticks : UInt32

def Session.start : Session := ⟨[], [], 0⟩

def Session.poll (session : Session) : Option UInt8 → Session
  | none => { session with ticks := session.ticks + 1 }
  | some value =>
      if Enters value then ⟨session.entered ++ [⟨session.typed, session.ticks + 1⟩], [], session.ticks + 1⟩
      else ⟨session.entered, session.typed ++ [value], session.ticks + 1⟩

def session (polls : List (Option UInt8)) : Session := polls.foldl Session.poll .start

/-- The line that bytes make that do not enter it. -/
def editedLine (typed : List UInt8) : Line := typed.foldl Line.edit .empty

/-- The tick counts of the polls that entered a line. -/
def enterTicks (polls : List (Option UInt8)) : List UInt32 :=
  ((polls.zipIdx 1).filter fun poll => poll.1.any fun value => Enters value).map fun poll => UInt32.ofNat poll.2

/-- What is sent while bytes are typed that do not enter the line. -/
def echo : Line → List UInt8 → List UInt8
  | _, [] => []
  | line, value :: typed => line.output 0 (some value) ++ echo (line.edit value) typed

/-- What is sent from one prompt to the next. -/
def Entry.text (entry : Entry) : List UInt8 :=
  echo .empty entry.typed ++ serialPutc 10 ++
    (editedLine entry.typed).answer entry.ticks (editedLine entry.typed).handler ++ prompt

/-- What is sent behind the first prompt. -/
def Session.text (session : Session) : List UInt8 := session.entered.flatMap Entry.text ++ echo .empty session.typed

/-! ## The text of a session -/

theorem session_concat (polls : List (Option UInt8)) (input : Option UInt8) :
    session (polls ++ [input]) = (session polls).poll input := List.foldl_concat _ _ _ _

theorem echo_concat (line : Line) (typed : List UInt8) (value : UInt8) :
    echo line (typed ++ [value]) = echo line typed ++ (typed.foldl Line.edit line).output 0 (some value) := by
  induction typed generalizing line with
  | nil => simp [echo]
  | cons b typed ih => simp [echo, ih]

theorem editedLine_concat (typed : List UInt8) (value : UInt8) :
    editedLine (typed ++ [value]) = (editedLine typed).edit value := List.foldl_concat _ _ _ _

/-- The tick count matters to a line that is entered only. -/
theorem Line.output_of_not_enters (line : Line) (ticks ticks' : UInt32) (h : ¬ Enters value) :
    line.output ticks (some value) = line.output ticks' (some value) := by
  rw [Line.output, Line.output, if_neg h, if_neg h]

/-- A poll adds to the text of the session what the shell sends for it. -/
theorem Session.text_poll (session : Session) (input : Option UInt8) :
    (session.poll input).text =
      session.text ++ (editedLine session.typed).output (session.ticks + 1) input := by
  cases input with
  | none => simp [poll, text, Line.output]
  | some value =>
      by_cases henters : Enters value
      · simp [poll, text, henters, Entry.text, echo, Line.output, prompt]
      · rw [(editedLine session.typed).output_of_not_enters (session.ticks + 1) 0 henters]
        simp [poll, text, henters, echo_concat, editedLine]

theorem Session.editedLine_poll (session : Session) (input : Option UInt8) :
    editedLine (session.poll input).typed = (editedLine session.typed).after input := by
  cases input with
  | none => rfl
  | some value =>
      by_cases henters : Enters value
      · simp [poll, henters, Line.after, editedLine]
      · simp [poll, henters, Line.after, editedLine_concat]

theorem Session.ticks_poll (session : Session) (input : Option UInt8) :
    (session.poll input).ticks = session.ticks + 1 := by
  cases input with
  | none => rfl
  | some value => by_cases henters : Enters value <;> simp [poll, henters]

/-- The shell sends the text of its session. -/
theorem shell_session (polls : List (Option UInt8)) :
    shellMachine.exec bootShell polls = ⟨editedLine (session polls).typed, (session polls).ticks⟩ ∧
      (shellMachine.trace bootShell polls).flatMap Prod.snd = (session polls).text := by
  induction polls using List.reverseRecOn with
  | nil => exact ⟨rfl, rfl⟩
  | append_singleton polls input ih =>
      obtain ⟨hexec, htrace⟩ := ih
      rw [session_concat, Session.editedLine_poll, Session.ticks_poll, Session.text_poll, Machine.exec_append,
        Machine.trace_append, hexec, List.flatMap_append, htrace]
      exact ⟨rfl, by simp [Machine.out, shellMachine]⟩

theorem sent_of_trace {history : History} {history' : List (Option UInt8 × List UInt8)}
    (h : List.Forall₂ (fun call call' => call.1 = call'.1 ∧ call.2 = some call'.2) history history') :
    (∀ call ∈ history, call.2.isSome) ∧ sent history = history'.flatMap Prod.snd := by
  induction h with
  | nil => exact ⟨by simp, rfl⟩
  | cons hcall _ ih =>
      obtain ⟨hsome, hsent⟩ := ih
      constructor
      · simpa [hcall.2] using hsome
      · rw [List.flatMap_cons, ← hsent, sent, sent, List.flatMap_cons, hcall.2, Option.getD_some]

theorem sent_eq_text (polls : List (Option UInt8)) :
    sent (consoleMachine.trace (some bootConsole) polls) = (session polls).text := by
  rw [← (shell_session polls).2, (sent_of_trace (trace_console polls)).2]

/-! ## What a session says about the polls -/

theorem lines_foldl (session : Session) (polls : List (Option UInt8)) :
    (polls.foldl Session.poll session).entered.map Entry.typed ++ [(polls.foldl Session.poll session).typed] =
      session.entered.map Entry.typed ++
        polls.reduceOption.splitOnPPrepend (fun value => Enters value) session.typed.reverse := by
  induction polls generalizing session with
  | nil => simp
  | cons input polls ih =>
      rw [List.foldl_cons, ih]
      cases input with
      | none => rfl
      | some value =>
          rw [List.reduceOption_cons_of_some, List.splitOnPPrepend_cons_eq_if]
          by_cases henters : Enters value
          · simp [Session.poll, henters]
          · simp [Session.poll, henters]

theorem ticks_foldl (session : Session) (polls : List (Option UInt8)) (n : Nat)
    (hticks : session.ticks + 1 = UInt32.ofNat n) :
    (polls.foldl Session.poll session).entered.map Entry.ticks =
      session.entered.map Entry.ticks ++
        ((polls.zipIdx n).filter fun poll => poll.1.any fun value => Enters value).map fun poll => UInt32.ofNat poll.2 := by
  induction polls generalizing session n with
  | nil => simp
  | cons input polls ih =>
      have hnext : (session.poll input).ticks + 1 = UInt32.ofNat (n + 1) := by
        rw [session.ticks_poll, hticks, UInt32.ofNat_add]
        rfl
      rw [List.foldl_cons, ih _ _ hnext, List.zipIdx_cons, List.filter_cons]
      cases input with
      | none => rfl
      | some value =>
          by_cases henters : Enters value
          · simp [Session.poll, henters, hticks]
          · simp [Session.poll, henters]

/-- In any run the serial line carries the text of the session: the lines are the bytes that came, cut where a line was
entered, and each was entered at the count of the polls until then. -/
theorem session_transcript (polls : List (Option UInt8)) :
    (∀ call ∈ consoleMachine.trace (some bootConsole) polls, call.2.isSome) ∧
      sent (consoleMachine.trace (some bootConsole) polls) = (session polls).text ∧
      (session polls).entered.map Entry.typed ++ [(session polls).typed] =
        polls.reduceOption.splitOnP (fun value => Enters value) ∧
      (session polls).entered.map Entry.ticks = enterTicks polls := by
  exact ⟨(sent_of_trace (trace_console polls)).1, sent_eq_text polls, lines_foldl .start polls,
    ticks_foldl .start polls 1 rfl⟩

/-! ## When the port is polled -/

theorem Entry.text_of_ne_uptime {entry entry' : Entry} (htyped : entry'.typed = entry.typed)
    (hhandler : (editedLine entry.typed).handler ≠ .uptime) : entry'.text = entry.text := by
  rw [text, text, htyped]
  congr 2
  generalize (editedLine entry.typed).handler = handler at hhandler
  cases handler with
  | uptime => exact absurd rfl hhandler
  | _ => rfl

/-- What is in front of a byte, and what is behind it, are told apart by it. -/
theorem append_cons_inj_of_not_mem {sep : UInt8} {before before' after after' : List UInt8} (h : sep ∉ before)
    (h' : sep ∉ before') : before ++ sep :: after = before' ++ sep :: after' ↔ before = before' ∧ after = after' := by
  induction before generalizing before' with
  | nil =>
      cases before' with
      | nil => simp
      | cons b before' =>
          rw [List.mem_cons, not_or] at h'
          simp [h'.1]
  | cons b before ih =>
      rw [List.mem_cons, not_or] at h
      cases before' with
      | nil => simp [Ne.symm h.1]
      | cons b' before' =>
          rw [List.mem_cons, not_or] at h'
          simp [ih h.2 h'.2, and_assoc]

theorem isNumeral_ticks (ticks : UInt32) : IsNumeral (writeUnsigned ticks.toNat) ticks.toNat := by
  have hlt := ticks.toNat_lt
  exact isNumeral_writeUnsigned (by omega)

theorem not_mem_writeUnsigned (ticks : UInt32) : (10 : UInt8) ∉ writeUnsigned ticks.toNat := by
  intro hmem
  exact absurd ((isNumeral_ticks ticks).digits 10 hmem).1 (by decide)

theorem writeUnsigned_inj {ticks ticks' : UInt32} (h : writeUnsigned ticks.toNat = writeUnsigned ticks'.toNat) :
    ticks = ticks' := by
  rw [← UInt32.toNat_inj, ← (isNumeral_ticks ticks).reads, h, (isNumeral_ticks ticks').reads]

theorem Entry.text_uptime {entry : Entry} (hhandler : (editedLine entry.typed).handler = .uptime) (after : List UInt8) :
    entry.text ++ after =
      (echo .empty entry.typed ++ serialPutc 10 ++ puts (.ofString "uptime ticks: ")) ++
        (writeUnsigned entry.ticks.toNat ++ 10 :: (13 :: prompt ++ after)) := by
  have hnewline : puts (.ofString "\n") = [10, 13] := by decide
  rw [text, hhandler, Line.answer, hnewline]
  simp

/-- Where `uptime` was entered, what is sent tells the tick count. -/
theorem Entry.text_append_iff {entry entry' : Entry} (htyped : entry'.typed = entry.typed)
    (hhandler : (editedLine entry.typed).handler = .uptime) (after after' : List UInt8) :
    entry.text ++ after = entry'.text ++ after' ↔ entry.ticks = entry'.ticks ∧ after = after' := by
  rw [text_uptime hhandler, text_uptime (by rw [htyped, hhandler]), htyped, List.append_cancel_left_eq,
    append_cons_inj_of_not_mem (not_mem_writeUnsigned _) (not_mem_writeUnsigned _)]
  simp only [List.cons_append, List.cons.injEq, true_and, List.append_cancel_left_eq]
  refine and_congr_left fun _ => ⟨writeUnsigned_inj, fun h => ?_⟩
  rw [h]

/-- Entries of the same lines have the same text only if the tick counts are those that `uptime` tells. -/
theorem text_entries_iff {entries entries' : List Entry} (htyped : entries.map Entry.typed = entries'.map Entry.typed)
    (after : List UInt8) :
    entries.flatMap Entry.text ++ after = entries'.flatMap Entry.text ++ after ↔
      ∀ pair ∈ entries.zip entries', (editedLine pair.1.typed).handler = .uptime → pair.1.ticks = pair.2.ticks := by
  induction entries generalizing entries' with
  | nil =>
      have hnil : entries' = [] := by simpa using htyped.symm
      simp [hnil]
  | cons entry entries ih =>
      cases entries' with
      | nil => cases htyped
      | cons entry' entries' =>
          obtain ⟨hhead, htail⟩ := List.cons_eq_cons.mp htyped
          simp only [List.flatMap_cons, List.append_assoc, List.zip_cons_cons, List.forall_mem_cons, ← ih htail]
          by_cases hhandler : (editedLine entry.typed).handler = .uptime
          · simp only [Entry.text_append_iff hhead.symm hhandler, hhandler, true_imp_iff]
          · simp only [Entry.text_of_ne_uptime hhead.symm hhandler, List.append_cancel_left_eq, hhandler, false_imp_iff,
              true_and]

/-- What is sent for the same bytes differs only where `uptime` was entered at another tick count. -/
theorem sent_eq_iff (polls polls' : List (Option UInt8)) (hbytes : polls.reduceOption = polls'.reduceOption) :
    sent (consoleMachine.trace (some bootConsole) polls) = sent (consoleMachine.trace (some bootConsole) polls') ↔
      ∀ pair ∈ (session polls).entered.zip (session polls').entered,
        (editedLine pair.1.typed).handler = .uptime → pair.1.ticks = pair.2.ticks := by
  have hlines : (session polls).entered.map Entry.typed ++ [(session polls).typed] =
      (session polls').entered.map Entry.typed ++ [(session polls').typed] := by
    rw [session, session, lines_foldl, lines_foldl, hbytes]
  obtain ⟨hentered, htyped⟩ := List.append_inj' hlines rfl
  have hsince : (session polls).typed = (session polls').typed := (List.cons_eq_cons.mp htyped).1
  rw [sent_eq_text, sent_eq_text, Session.text, Session.text, hsince]
  exact text_entries_iff hentered _

/-- The line `uptime` is typed at once, and then with a pause. -/
theorem sent_eq_iff_pause :
    sent (consoleMachine.trace (some bootConsole) ((CString.ofString "uptime\n").bytes.map some)) =
        sent (consoleMachine.trace (some bootConsole) (none :: (CString.ofString "uptime\n").bytes.map some)) ↔
      ∀ pair ∈ (session ((CString.ofString "uptime\n").bytes.map some)).entered.zip
          (session (none :: (CString.ofString "uptime\n").bytes.map some)).entered,
        (editedLine pair.1.typed).handler = .uptime → pair.1.ticks = pair.2.ticks :=
  sent_eq_iff _ _ (List.reduceOption_cons_of_none _).symm

/-! ## Lines that are typed through -/

theorem enters_of_printable (h : 0x20 ≤ value ∧ value ≤ 0x7E) : ¬ Enters value := by
  rintro (rfl | rfl)
  · exact absurd h.1 (by decide)
  · exact absurd h.1 (by decide)

theorem erases_of_printable (h : 0x20 ≤ value ∧ value ≤ 0x7E) : ¬ (value = 8 ∨ value = 0x7F) := by
  rintro (rfl | rfl)
  · exact absurd h.1 (by decide)
  · exact absurd h.2 (by decide)

/-- Bytes that fit into the line are put there and sent back. -/
theorem echo_printable (line : Line) (typed : List UInt8) (hprintable : ∀ b ∈ typed, 0x20 ≤ b ∧ b ≤ 0x7E)
    (hroom : line.length + typed.length ≤ 159) :
    echo line typed = typed ∧ (typed.foldl Line.edit line).bytes = line.bytes ++ typed := by
  induction typed generalizing line with
  | nil => exact ⟨rfl, (List.append_nil _).symm⟩
  | cons b typed ih =>
      have hb := hprintable b List.mem_cons_self
      rw [List.length_cons] at hroom
      have hputs : (0x20 ≤ b ∧ b ≤ 0x7E) ∧ line.length < 159 := ⟨hb, by omega⟩
      have hedit : line.edit b = line.append b hb hputs.2 := by
        rw [Line.edit, if_neg (erases_of_printable hb), dif_pos hputs]
      have hlength : (line.append b hb hputs.2).length = line.length + 1 := List.length_append
      obtain ⟨hecho, hbytes⟩ := ih (line.append b hb hputs.2) (fun b hb => hprintable b (List.mem_cons_of_mem _ hb))
        (by omega)
      constructor
      · rw [echo, hedit, hecho, Line.output, if_neg (enters_of_printable hb), if_neg (erases_of_printable hb),
          if_pos hputs, serialPutc_of_printable hb]
        rfl
      · rw [List.foldl_cons, hedit, hbytes, Line.append, List.append_assoc]
        rfl

theorem Line.eq_of_bytes {line line' : Line} (h : line.bytes = line'.bytes) : line = line' := by
  cases line
  cases line'
  cases h
  rfl

theorem editedLine_bytes (line : Line) : editedLine line.bytes = line ∧ echo .empty line.bytes = line.bytes := by
  have hroom : Line.empty.length + line.bytes.length ≤ 159 := by
    have hle := line.length_le
    rw [Line.empty, Line.length, List.length_nil]
    omega
  obtain ⟨hecho, hbytes⟩ := echo_printable .empty line.bytes line.printable hroom
  exact ⟨Line.eq_of_bytes hbytes, hecho⟩

/-- The bytes of lines that are typed through, each with the byte that enters it. -/
def script (lines : List (Line × UInt8)) : List UInt8 := lines.flatMap fun line => line.1.bytes ++ [line.2]

theorem splitOnP_script (lines : List (Line × UInt8)) (henters : ∀ line ∈ lines, Enters line.2) :
    (script lines).splitOnP (fun value => Enters value) = lines.map (fun line => line.1.bytes) ++ [[]] := by
  induction lines with
  | nil => rfl
  | cons line lines ih =>
      have hrest := ih fun line hline => henters line (List.mem_cons_of_mem _ hline)
      have hline : ∀ b ∈ line.1.bytes, decide (Enters b) = false := fun b hb =>
        decide_eq_false (enters_of_printable (line.1.printable b hb))
      rw [script, List.flatMap_cons, List.append_assoc, List.singleton_append,
        List.splitOnP_append_cons_of_forall_mem hline line.2 (decide_eq_true (henters line List.mem_cons_self))]
      exact congrArg _ hrest

/-- What is sent for a line that is typed through and entered. -/
def exchange (line : Line) (ticks : UInt32) : List UInt8 :=
  line.bytes ++ serialPutc 10 ++ line.answer ticks line.handler ++ prompt

theorem text_exchanges {entries : List Entry} {lines : List (Line × UInt8)}
    (htyped : entries.map Entry.typed = lines.map fun line => line.1.bytes) :
    entries.flatMap Entry.text =
      (List.zipWith (fun line ticks => exchange line.1 ticks) lines (entries.map Entry.ticks)).flatten := by
  induction lines generalizing entries with
  | nil =>
      have hnil : entries = [] := by simpa using htyped
      rw [hnil]
      rfl
  | cons line lines ih =>
      cases entries with
      | nil => cases htyped
      | cons entry entries =>
          obtain ⟨hhead, htail⟩ := List.cons_eq_cons.mp htyped
          obtain ⟨hline, hecho⟩ := editedLine_bytes line.1
          rw [List.flatMap_cons, ih htail, List.map_cons, List.zipWith_cons_cons, List.flatten_cons, Entry.text, hhead,
            hecho, hline]
          rfl

/-- However the bytes of the lines arrive, what is sent is each of them with its answer, in order. -/
theorem script_answered (lines : List (Line × UInt8)) (henters : ∀ line ∈ lines, Enters line.2)
    (polls : List (Option UInt8)) (hbytes : polls.reduceOption = script lines) :
    (enterTicks polls).length = lines.length ∧
      sent (consoleMachine.trace (some bootConsole) polls) =
        (List.zipWith (fun line ticks => exchange line.1 ticks) lines (enterTicks polls)).flatten := by
  have hlines : (session polls).entered.map Entry.typed ++ [(session polls).typed] =
      lines.map (fun line => line.1.bytes) ++ [[]] := by
    rw [← splitOnP_script lines henters, ← hbytes]
    exact lines_foldl .start polls
  obtain ⟨hentered, htyped⟩ := List.append_inj' hlines rfl
  have hsince : (session polls).typed = [] := (List.cons_eq_cons.mp htyped).1
  have hticks : (session polls).entered.map Entry.ticks = enterTicks polls := ticks_foldl .start polls 1 rfl
  constructor
  · have hlen := congrArg List.length hentered
    rwa [List.length_map, List.length_map, ← List.length_map Entry.ticks, hticks] at hlen
  · rw [sent_eq_text, Session.text, hsince, text_exchanges hentered, hticks]
    exact List.append_nil _

/-- The commands of `scripted-shell.sh`. -/
def shellCommands : List (Line × UInt8) :=
  ["help", "info", "uname", "ps", "syscalls", "posix", "uptime"].map fun text =>
    (editedLine (CString.ofString text).bytes, 10)

theorem script_answered_shellCommands :
    (enterTicks ((script shellCommands).map some)).length = shellCommands.length ∧
      sent (consoleMachine.trace (some bootConsole) ((script shellCommands).map some)) =
        (List.zipWith (fun line ticks => exchange line.1 ticks) shellCommands
          (enterTicks ((script shellCommands).map some))).flatten := by
  have hbytes : ((script shellCommands).map some).reduceOption = script shellCommands := by
    simp [List.reduceOption, List.filterMap_map]
  exact script_answered shellCommands (by simp [shellCommands, Enters]) _ hbytes

end NovaOs.Boot
