import NovaOs.UiMode.Theorems.BootPath

/-!
# The commands of the user interface

Which calls leave something behind when they are refused, and which commands the serial shell takes.
-/

namespace NovaOs.UiMode

open Lib

variable {ctx : NovaUiBootContext} {command : CString} {mode : NovaUiMode}

/-! ## Refused calls -/

/-- A command asks for the compatibility shell in another mode, and the plan has none. -/
def HalfApplies (st : Option NovaUiBootContext) (op : UiOp) : Prop :=
  ∃ ctx command, st = some ctx ∧ op = .serialShell (some command) ∧ requested command = some .compat ∧
    ¬ ctx.AllowsCompat ∧ ctx.currentMode ≠ .compat

theorem novaUiLaunchCompatShell_of_allows (ctx : NovaUiBootContext) (h : ctx.AllowsCompat) :
    novaUiLaunchCompatShell (some ctx) =
      (0, some { ctx with compatShellReady := 1, currentMode := .compat, desktopReady := 1, sessionStarted := 1 }) :=
  if_neg h

theorem novaUiLaunchCompatShell_of_not_allows (ctx : NovaUiBootContext) (h : ¬ ctx.AllowsCompat) :
    novaUiLaunchCompatShell (some ctx) = (-2, some ctx) := if_pos (not_not.mp h)

theorem prepare_refused {st : Option NovaUiBootContext} {plan : Option NovaUiBootPlan}
    (h : (novaUiBootPrepare st plan).1 < 0) : (novaUiBootPrepare st plan).2 = st := by
  cases st with
  | none => rfl
  | some ctx =>
      cases plan with
      | none => rfl
      | some plan => exact absurd h (lt_irrefl 0)

theorem desktop_refused {st : Option NovaUiBootContext} (h : (novaUiBootDesktop st).1 < 0) :
    (novaUiBootDesktop st).2 = st := by
  cases st with
  | none => rfl
  | some ctx => exact absurd h (lt_irrefl 0)

theorem compatShell_refused {st : Option NovaUiBootContext} (h : (novaUiLaunchCompatShell st).1 < 0) :
    (novaUiLaunchCompatShell st).2 = st := by
  cases st with
  | none => rfl
  | some ctx =>
      by_cases hallows : ctx.AllowsCompat
      · rw [novaUiLaunchCompatShell_of_allows ctx hallows] at h
        exact absurd h (lt_irrefl 0)
      · rw [novaUiLaunchCompatShell_of_not_allows ctx hallows]

theorem launchApp_refused {st : Option NovaUiBootContext} {path : Option CString} (h : (launchApp st path).1 < 0) :
    (launchApp st path).2 = st := by
  cases st with
  | none => rfl
  | some ctx =>
      cases path with
      | none => rfl
      | some path =>
          rw [launchApp] at h ⊢
          split
          · rfl
          · next hready => simp [hready] at h

/-- The command is refused and changes nothing, but for one that asks for a compatibility shell that is not in the plan. -/
theorem serialShell_refused_iff (ctx : NovaUiBootContext) (command : CString) :
    ((novaUiBootFromSerialShell (some ctx) (some command)).1 < 0 →
      (novaUiBootFromSerialShell (some ctx) (some command)).2 = some ctx) ↔
        ¬ (requested command = some .compat ∧ ¬ ctx.AllowsCompat ∧ ctx.currentMode ≠ .compat) := by
  rw [novaUiBootFromSerialShell_eq]
  cases hrequested : requested command with
  | none => simp
  | some mode =>
      cases mode with
      | text => simp
      | desktop => simp [novaUiBootDesktop]
      | compat =>
          simp only
          by_cases hallows : ctx.AllowsCompat
          · rw [novaUiLaunchCompatShell_of_allows { ctx with currentMode := .compat } hallows]
            simp [hallows]
          · rw [novaUiLaunchCompatShell_of_not_allows { ctx with currentMode := .compat } hallows]
            constructor
            · rintro hkept ⟨_, _, hmode⟩
              have hsame := Option.some.inj (hkept (Int.negSucc_lt_zero 1))
              exact hmode (congrArg NovaUiBootContext.currentMode hsame).symm
            · intro hnot _
              have hmode : ctx.currentMode = .compat := by simpa [hallows] using hnot
              rw [← hmode]

/-- A call that is refused leaves the context as it was exactly when it does not ask by a command for a compatibility
shell that is not in the plan, or is in that mode already. -/
theorem refused_changes_nothing_iff (st : Option NovaUiBootContext) (op : UiOp) :
    (uiMachine.out st op < 0 → uiMachine.next st op = st) ↔ ¬ HalfApplies st op := by
  cases op with
  | serialShell command =>
      cases st with
      | none => exact iff_of_true (fun _ => rfl) (by simp [HalfApplies])
      | some ctx =>
          cases command with
          | none => exact iff_of_true (fun _ => rfl) (by simp [HalfApplies])
          | some command =>
              apply (serialShell_refused_iff ctx command).trans
              simp [HalfApplies]
  | prepare plan => exact iff_of_true prepare_refused (by simp [HalfApplies])
  | desktop => exact iff_of_true desktop_refused (by simp [HalfApplies])
  | compatShell => exact iff_of_true compatShell_refused (by simp [HalfApplies])
  | linuxApp path => exact iff_of_true launchApp_refused (by simp [HalfApplies])
  | windowsApp path => exact iff_of_true launchApp_refused (by simp [HalfApplies])

/-- A context in text mode, whose plan has a compatibility shell or not. -/
def textContext (enableCompatShell : UInt32) : NovaUiBootContext where
  plan :=
    { mode := .text, displayServer := none, sessionManager := none, desktopShell := none, compatShell := none
      kernelConsoleDevice := none, vmDisplayDevice := none, autoStartDesktop := 0
      enableCompatShell := enableCompatShell }
  currentMode := .text
  serialReady := 1
  userlandReady := 0
  sessionStarted := 0
  desktopReady := 0
  compatShellReady := 0

/-- The compatibility shell is refused, and the context is in its mode. -/
theorem refused_compat_changes_mode :
    ¬ (uiMachine.out (some (textContext 0)) (.serialShell (some (.ofString "compat"))) < 0 →
      uiMachine.next (some (textContext 0)) (.serialShell (some (.ofString "compat"))) = some (textContext 0)) := by
  decide +kernel

/-! ## The language of the commands -/

/-- The commands of one word. -/
def words : List (String × NovaUiMode) := [("desktop", .desktop), ("compat", .compat), ("text", .text)]

/-- The commands that may have arguments. -/
def phrases : List (String × NovaUiMode) :=
  [("ui desktop", .desktop), ("start desktop", .desktop), ("ui compat", .compat), ("compat shell", .compat),
    ("ui text", .text)]

/-- The command is a word, or a phrase by itself or with a space and arguments behind it. -/
def Names (command : CString) (mode : NovaUiMode) : Prop :=
  (∃ word, (word, mode) ∈ words ∧ command = .ofString word) ∨
    ∃ phrase, (phrase, mode) ∈ phrases ∧
      (command = .ofString phrase ∨ (CString.ofString phrase).bytes ++ [0x20] <+: command.bytes)

/-- The command is a word, or it starts with a phrase. -/
def Matches (command : CString) (mode : NovaUiMode) : Prop :=
  (∃ word, (word, mode) ∈ words ∧ command = .ofString word) ∨
    ∃ phrase, (phrase, mode) ∈ phrases ∧ (CString.ofString phrase).bytes <+: command.bytes

/-- A phrase goes on with another character than a space. -/
def RunsOn (command : CString) : Prop :=
  ∃ phrase mode b rest, (phrase, mode) ∈ phrases ∧
    command.bytes = (CString.ofString phrase).bytes ++ b :: rest ∧ b ≠ 0x20

theorem startsWith_iff {start : String} :
    startsWith command start = true ↔ (CString.ofString start).bytes <+: command.bytes := by
  have hself : (CString.ofString start).cut (CString.ofString start).length = .ofString start :=
    CString.eq_of_bytes List.take_length
  rw [startsWith, CString.sameUpTo, decide_eq_true_eq, hself, List.prefix_iff_eq_take]
  constructor
  · intro h
    exact (congrArg CString.bytes h).symm
  · intro h
    exact CString.eq_of_bytes h.symm

theorem isUiCommand_iff {name : String} : isUiCommand command name = true ↔ command = .ofString name := by
  rw [isUiCommand, decide_eq_true_eq]

/-! ### No command is two -/

theorem phrase_of_start {p q : String × NovaUiMode} (hp : p ∈ phrases) (hq : q ∈ phrases)
    (h : (CString.ofString p.1).bytes <+: (CString.ofString q.1).bytes) : p = q := by
  have hfree : ∀ p ∈ phrases, ∀ q ∈ phrases, (CString.ofString p.1).bytes <+: (CString.ofString q.1).bytes → p = q := by
    decide +kernel
  exact hfree p hp q hq h

theorem not_start_word {phrase word : String} {mode' : NovaUiMode} (hphrase : (phrase, mode) ∈ phrases)
    (hword : (word, mode') ∈ words) : ¬ (CString.ofString phrase).bytes <+: (CString.ofString word).bytes := by
  have hfree : ∀ p ∈ phrases, ∀ w ∈ words, ¬ (CString.ofString p.1).bytes <+: (CString.ofString w.1).bytes := by
    decide +kernel
  exact hfree (phrase, mode) hphrase (word, mode') hword

theorem word_of_eq {v w : String × NovaUiMode} (hv : v ∈ words) (hw : w ∈ words)
    (h : CString.ofString v.1 = .ofString w.1) : v = w := by
  have hfree : ∀ v ∈ words, ∀ w ∈ words, CString.ofString v.1 = .ofString w.1 → v = w := by decide +kernel
  exact hfree v hv w hw h

/-- At most one phrase is at the start of a command. -/
theorem phrase_unique {p q : String × NovaUiMode} (hp : p ∈ phrases) (hq : q ∈ phrases)
    (hp' : (CString.ofString p.1).bytes <+: command.bytes) (hq' : (CString.ofString q.1).bytes <+: command.bytes) :
    p = q := by
  rcases List.prefix_or_prefix_of_prefix hp' hq' with h | h
  · exact phrase_of_start hp hq h
  · exact (phrase_of_start hq hp h).symm

theorem Matches.unique {mode' : NovaUiMode} (h : Matches command mode) (h' : Matches command mode') : mode = mode' := by
  rcases h with ⟨word, hword, he⟩ | ⟨phrase, hphrase, hstart⟩
  · rcases h' with ⟨word', hword', he'⟩ | ⟨phrase', hphrase', hstart'⟩
    · exact congrArg Prod.snd (word_of_eq hword hword' (he.symm.trans he'))
    · rw [he] at hstart'
      exact absurd hstart' (not_start_word hphrase' hword)
  · rcases h' with ⟨word', hword', he'⟩ | ⟨phrase', hphrase', hstart'⟩
    · rw [he'] at hstart
      exact absurd hstart (not_start_word hphrase hword')
    · exact congrArg Prod.snd (phrase_unique hphrase hphrase' hstart hstart')

/-! ### What the parser takes -/

theorem matches_desktop_iff : Matches command .desktop ↔
    (isUiCommand command "desktop" || startsWith command "ui desktop" || startsWith command "start desktop") = true := by
  simp [Matches, words, phrases, isUiCommand_iff, startsWith_iff, or_assoc]

theorem matches_compat_iff : Matches command .compat ↔
    (isUiCommand command "compat" || startsWith command "ui compat" || startsWith command "compat shell") = true := by
  simp [Matches, words, phrases, isUiCommand_iff, startsWith_iff, or_assoc]

theorem matches_text_iff : Matches command .text ↔
    (isUiCommand command "text" || startsWith command "ui text") = true := by
  simp [Matches, words, phrases, isUiCommand_iff, startsWith_iff]

theorem matches_of_requested (h : requested command = some mode) : Matches command mode := by
  unfold requested at h
  split at h
  · next hdesktop =>
      cases h
      exact matches_desktop_iff.mpr hdesktop
  · split at h
    · next hcompat =>
        cases h
        exact matches_compat_iff.mpr hcompat
    · split at h
      · next htext =>
          cases h
          exact matches_text_iff.mpr htext
      · cases h

theorem not_matches_of_requested (h : requested command = none) : ¬ Matches command mode := by
  unfold requested at h
  split at h
  · cases h
  · next hdesktop =>
      split at h
      · cases h
      · next hcompat =>
          split at h
          · cases h
          · next htext =>
              cases mode with
              | text => exact mt matches_text_iff.mp htext
              | desktop => exact mt matches_desktop_iff.mp hdesktop
              | compat => exact mt matches_compat_iff.mp hcompat

theorem requested_eq_some_iff : requested command = some mode ↔ Matches command mode := by
  constructor
  · exact matches_of_requested
  · intro h
    cases hrequested : requested command with
    | none => exact absurd h (not_matches_of_requested hrequested)
    | some mode' => rw [h.unique (matches_of_requested hrequested)]

/-- Phrases are matched at their characters, whatever comes behind them. -/
theorem names_iff : Names command mode ↔ Matches command mode ∧ ¬ RunsOn command := by
  constructor
  · rintro (⟨word, hword, rfl⟩ | ⟨phrase, hphrase, hcommand⟩)
    · refine ⟨.inl ⟨word, hword, rfl⟩, ?_⟩
      rintro ⟨phrase, mode', b, rest, hphrase, he, _⟩
      exact not_start_word hphrase hword ⟨b :: rest, he.symm⟩
    · have hstart : (CString.ofString phrase).bytes <+: command.bytes := by
        rcases hcommand with rfl | hspace
        · exact List.prefix_rfl
        · exact (List.prefix_append _ _).trans hspace
      refine ⟨.inr ⟨phrase, hphrase, hstart⟩, ?_⟩
      rintro ⟨phrase', mode', b, rest, hphrase', he, hb⟩
      cases phrase_unique hphrase' hphrase ⟨b :: rest, he.symm⟩ hstart
      rcases hcommand with rfl | hspace
      · simp at he
      · rw [he, List.prefix_append_right_inj, List.cons_prefix_cons] at hspace
        exact hb hspace.1.symm
  · rintro ⟨⟨word, hword, he⟩ | ⟨phrase, hphrase, rest, he⟩, hruns⟩
    · exact .inl ⟨word, hword, he⟩
    · refine .inr ⟨phrase, hphrase, ?_⟩
      cases rest with
      | nil =>
          rw [List.append_nil] at he
          exact .inl (CString.eq_of_bytes he.symm)
      | cons b rest =>
          have hspace : b = 0x20 := by
            by_contra hb
            exact hruns ⟨phrase, mode, b, rest, hphrase, he.symm, hb⟩
          refine .inr ⟨rest, ?_⟩
          rw [← he, hspace, List.append_assoc, List.singleton_append]

theorem RunsOn.matches (h : RunsOn command) : ∃ mode, Matches command mode := by
  obtain ⟨phrase, mode, b, rest, hphrase, he, _⟩ := h
  exact ⟨mode, .inr ⟨phrase, hphrase, b :: rest, he.symm⟩⟩

/-- How the serial shell of the context answers the command: it takes it exactly when the command names a mode, goes into
that mode, and otherwise changes nothing. -/
structure ParserMeets (ctx : NovaUiBootContext) (command : CString) : Prop where
  accepts : (novaUiBootFromSerialShell (some ctx) (some command)).1 = 0 ↔ ∃ mode, Names command mode
  enters : ∀ mode, Names command mode →
    ∃ ctx', novaUiBootFromSerialShell (some ctx) (some command) = (0, some ctx') ∧ ctx'.currentMode = mode
  refuses : (∀ mode, ¬ Names command mode) →
    novaUiBootFromSerialShell (some ctx) (some command) = (-2, some ctx)

theorem serialShell_of_matches (hallows : ctx.AllowsCompat) (h : Matches command mode) :
    ∃ ctx', novaUiBootFromSerialShell (some ctx) (some command) = (0, some ctx') ∧ ctx'.currentMode = mode := by
  rw [novaUiBootFromSerialShell_eq, requested_eq_some_iff.mpr h]
  cases mode with
  | text => exact ⟨_, rfl, rfl⟩
  | desktop => exact ⟨_, rfl, rfl⟩
  | compat =>
      exact ⟨_, novaUiLaunchCompatShell_of_allows { ctx with currentMode := .compat } hallows, rfl⟩

theorem serialShell_of_not_matches (ctx : NovaUiBootContext) (h : ∀ mode, ¬ Matches command mode) :
    novaUiBootFromSerialShell (some ctx) (some command) = (-2, some ctx) := by
  rw [novaUiBootFromSerialShell_eq]
  cases hrequested : requested command with
  | none => rfl
  | some mode => exact absurd (matches_of_requested hrequested) (h mode)

/-- When the plan has a compatibility shell, the parser takes whole words only, exactly when no phrase runs on. -/
theorem parser_whole_words_iff (hallows : ctx.AllowsCompat) (command : CString) :
    ParserMeets ctx command ↔ ¬ RunsOn command := by
  constructor
  · intro h hruns
    obtain ⟨mode, hmatches⟩ := hruns.matches
    obtain ⟨ctx', hcall, _⟩ := serialShell_of_matches hallows hmatches
    obtain ⟨mode', hnames⟩ := h.accepts.mp (congrArg Prod.fst hcall)
    exact (names_iff.mp hnames).2 hruns
  · intro hruns
    have hnames : ∀ mode, Names command mode ↔ Matches command mode := by
      intro mode
      rw [names_iff, and_iff_left hruns]
    constructor
    · constructor
      · intro hzero
        by_contra hnone
        rw [serialShell_of_not_matches ctx fun mode hmatches => hnone ⟨mode, (hnames mode).mpr hmatches⟩] at hzero
        cases hzero
      · rintro ⟨mode, hmode⟩
        obtain ⟨ctx', hcall, _⟩ := serialShell_of_matches hallows ((hnames mode).mp hmode)
        exact congrArg Prod.fst hcall
    · intro mode hmode
      exact serialShell_of_matches hallows ((hnames mode).mp hmode)
    · intro hnone
      exact serialShell_of_not_matches ctx fun mode hmatches => hnone mode ((hnames mode).mpr hmatches)

theorem parser_whole_words_iff_wayland :
    ParserMeets (textContext 1) (.ofString "ui desktop --wayland") ↔ ¬ RunsOn (.ofString "ui desktop --wayland") :=
  parser_whole_words_iff (fun hplan => absurd hplan.1 (by decide)) _

/-- The letter behind the phrase is not looked at, and the desktop is started. -/
theorem letter_after_phrase_accepted : ¬ ParserMeets (textContext 1) (.ofString "ui desktops") := by
  intro h
  have hbytes : (CString.ofString "ui desktops").bytes = (CString.ofString "ui desktop").bytes ++ [0x73] := by
    decide +kernel
  have hcall : (novaUiBootFromSerialShell (some (textContext 1)) (some (.ofString "ui desktops"))).1 = 0 := by
    decide +kernel
  obtain ⟨mode, hnames⟩ := h.accepts.mp hcall
  exact (names_iff.mp hnames).2 ⟨"ui desktop", .desktop, 0x73, [], by decide, hbytes, by decide⟩

end NovaOs.UiMode
