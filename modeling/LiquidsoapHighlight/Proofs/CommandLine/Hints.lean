import LiquidsoapHighlight.Proofs.CommandLine.Changes
import LiquidsoapHighlight.Proofs.Config.Chosen
import LiquidsoapHighlight.Proofs.Grammar.Defects
import LiquidsoapHighlight.Proofs.Report.Hint

/-!
The hint of a failed run, to write a config file with `init`. It is meant for failures that lie in a
config file, but it is given for the words of a message, and a script or a language can have these
words in its name.
-/

namespace LiquidsoapHighlight

namespace Failure

/-- The failure is that of a config file. -/
def IsOfConfig : Failure → Prop
  | unreadableConfig _ _ => True
  | invalidConfig _ => True
  | unwritableConfig _ _ => True
  | _ => False

/-- The failure is not of a config file, but of something that is named like one. -/
def IsNamedLikeConfig : Failure → Prop
  | unreadableScript path _ => "config file".toList <:+: path
  | unknownLanguage name _ => "config file".toList <:+: name
  | _ => False

theorem IsOfConfig.not_isNamedLikeConfig {failure : Failure} (h : failure.IsOfConfig) :
    ¬ failure.IsNamedLikeConfig := by
  cases failure <;> first | exact id | cases h

end Failure

namespace CommandLine

/-- The names of languages that a failure to find one lists. -/
def knownLanguages : List (List Char) := Language.liquidsoap.id :: Language.liquidsoap.aliases

/-- How a command fails once there are settings, but for writing the config file. -/
inductive CommandFailure : Command → Failure → Prop where
  | script {command : Command} {file : Path} {cause : FileError}
      (reads : command.script? = some file) :
      CommandFailure command (.unreadableScript file cause)
  | language {file : Path} {name : List Char} :
      CommandFailure (.highlight file name) (.unknownLanguage name knownLanguages)
  | existing : CommandFailure .init (.existingConfig Config.fileName)

/-- How a run fails to read its settings or to write the config file. -/
def ConfigFailure (w : World) (i : Invocation) (failure : Failure) : Prop :=
  loadConfig w.directory.read i = .error failure ∨
    i.command = .init ∧ (writeConfig Config.defaultContent w).1 = .error failure

theorem load_error {files : Files} {path : Path} {failure : Failure}
    (h : Config.load files path = .error failure) : failure.IsOfConfig := by
  cases Config.load_eq_error h <;> trivial

theorem map_error {α β ε : Type} {x : Except ε α} {f : α → β} {e : ε} :
    x.map f = .error e ↔ x = .error e := by
  cases x <;> simp [Except.map]

theorem loadConfig_error {files : Files} {i : Invocation} {failure : Failure}
    (h : loadConfig files i = .error failure) : failure.IsOfConfig := by
  unfold loadConfig Config.loadFound at h
  split at h
  · exact load_error (map_error.mp h)
  · split at h
    · cases h
    · exact load_error (map_error.mp h)

/-- What is done with a script once it is read does not fail. -/
theorem unreadable_of_error {s : Surroundings} {file : Path} {f : Script → Except Failure Product}
    {failure : Failure} (goesOn : ∀ script, (f script).isOk = true)
    (h : readScript s file >>= f = .error failure) :
    ∃ cause, failure = .unreadableScript file cause := by
  obtain unread | ⟨script, -, failed⟩ := Check.bind_eq_error.mp h
  · unfold readScript at unread
    split at unread
    · cases unread
      exact ⟨_, rfl⟩
    · cases unread
  · have ok := goesOn script
    rw [failed] at ok
    cases ok

theorem runCommand_error {s : Surroundings} {colors : Bool} {config : Config} {command : Command}
    {failure : Failure} (h : runCommand s colors config command = .error failure) :
    CommandFailure command failure := by
  cases command with
  | tokens file raw =>
      obtain ⟨cause, rfl⟩ := unreadable_of_error (fun _ => by cases raw <;> rfl) h
      exact .script rfl
  | highlight file name =>
      change runHighlight s colors config file name = _ at h
      unfold runHighlight at h
      cases known : Language.find? name with
      | none =>
          rw [known] at h
          cases h
          exact .language
      | some language =>
          rw [known] at h
          obtain ⟨cause, rfl⟩ := unreadable_of_error (fun _ => rfl) h
          exact .script rfl
  | score file =>
      obtain ⟨cause, rfl⟩ := unreadable_of_error (fun _ => rfl) h
      exact .script rfl
  | init =>
      change runInit s colors = _ at h
      unfold runInit at h
      split at h
      · cases h
        exact .existing
      · cases h

theorem run_of_loadConfig_error {s : Surroundings} {i : Invocation} {failure : Failure}
    (h : loadConfig s.files i = .error failure) : (run s i).result = .error failure := by
  rw [run_result]
  exact Check.bind_eq_error.mpr (.inl (map_error.mpr h))

/-- A run fails to read its settings, or its command fails. -/
theorem run_error {s : Surroundings} {i : Invocation} {failure : Failure}
    (h : (run s i).result = .error failure) :
    loadConfig s.files i = .error failure ∨ CommandFailure i.command failure := by
  rw [run_result] at h
  obtain unread | ⟨settings, -, failed⟩ := Check.bind_eq_error.mp h
  · exact .inl (map_error.mp unread)
  · exact .inr (runCommand_error failed)

/-- Where the system may refuse to write, a run fails in its config file or its command fails. -/
theorem settle_runIn_error {w : World} {stdin : List UInt8} {colors : Bool} {i : Invocation}
    {failure : Failure}
    (h : ((runIn w.directory stdin colors i).settle w).result = .error failure) :
    ConfigFailure w i failure ∨ CommandFailure i.command failure := by
  obtain failed | ⟨p, content, ran, writes, refused⟩ := Outcome.settle_error h
  · exact (run_error failed).imp_left .inl
  · obtain ⟨-, unwritten⟩ | ⟨init, -, written⟩ := runIn_written ran
    · cases unwritten.symm.trans writes
    · obtain rfl := Option.some.inj (written.symm.trans writes)
      exact .inl (.inr ⟨init, refused⟩)

theorem writeConfig_error {content : List UInt8} {w : World} {failure : Failure}
    (h : (writeConfig content w).1 = .error failure) : failure.IsOfConfig := by
  obtain ⟨done, left, written, outcome⟩ := exists_written content w
  obtain rfl : done = .error failure := (congrArg Prod.fst written).symm.trans h
  cases outcome <;> trivial

theorem ConfigFailure.isOfConfig {w : World} {i : Invocation} {failure : Failure}
    (h : ConfigFailure w i failure) : failure.IsOfConfig :=
  h.elim loadConfig_error fun h => writeConfig_error h.2

theorem CommandFailure.not_isOfConfig {command : Command} {failure : Failure}
    (h : CommandFailure command failure) : ¬ failure.IsOfConfig := by
  cases h <;> exact id

/-- The headline of a failure of a config file says so itself. -/
theorem help_eq_of_isOfConfig {failure : Failure} (h : failure.IsOfConfig) :
    failure.report.help = some Report.configHelp := by
  have occurs (verb path : List Char) :
      Report.help? (verb ++ " config file ".toList ++ path) = some Report.configHelp := by
    refine (Report.help?_eq _).mpr (.trans ?_ (List.prefix_append _ path).isInfix)
    exact .trans (by decide) (List.suffix_append verb " config file ".toList).isInfix
  cases failure with
  | unreadableConfig path cause => exact occurs "Failed to read".toList path
  | invalidConfig path => exact occurs "Invalid".toList path
  | unwritableConfig path cause => exact occurs "Failed to write".toList path
  | existingConfig path => cases h
  | unreadableScript path cause => cases h
  | unknownLanguage name known => cases h

/-- That of a command's failure says it only in the name of a script or a language. -/
theorem CommandFailure.help_iff {command : Command} {failure : Failure}
    (h : CommandFailure command failure) :
    failure.report.help = some Report.configHelp ↔ failure.IsNamedLikeConfig := by
  cases h with
  | @script command file cause reads =>
      change Report.help? ("Failed to read ".toList ++ file) = _ ↔ _
      rw [Report.help?_eq]
      exact Report.infix_append_iff_of_head (by decide)
  | @language file name =>
      -- The words cannot begin before the name, and the quote after it keeps them from going on.
      let rest := " (known: liquidsoap, liq)".toList
      have headline : (Failure.unknownLanguage name knownLanguages).messages =
          [("Unknown language '".toList ++ name) ++ '\'' :: rest] := by
        simp only [Failure.messages, List.append_assoc]
        rfl
      have front : "config file".toList <:+: "Unknown language '".toList ++ name ↔
          "config file".toList <:+: name := Report.infix_append_iff_of_head (by decide)
      have back : ¬ "config file".toList <:+: rest := by decide
      rw [Failure.report, headline, Report.ofChain, Report.help?_eq,
        Report.infix_append_cons_iff (by decide), front, or_iff_left back]
      rfl
  | existing => exact iff_of_false (by decide) id

/-- The user is told to run `init`. -/
def Outcome.SuggestsInit (o : Outcome) : Prop :=
  Report.helpText o.colors Report.configHelp ∈ o.report

instance (o : Outcome) : Decidable o.SuggestsInit :=
  inferInstanceAs (Decidable (_ ∈ o.report))

theorem Outcome.suggestsInit_iff {o : Outcome} {failure : Failure}
    (h : o.result = .error failure) :
    o.SuggestsInit ↔ failure.report.help = some Report.configHelp := by
  rw [Outcome.SuggestsInit, Outcome.report, h]
  exact Report.helpText_mem_lines o.colors failure.report Report.configHelp

/-- The hint is right but for failures that only name something like a config file. -/
theorem hint_iff_configFailure {args : List Argument} {i : Invocation}
    (accepted : Invocation.read args = .ok i) (w : World) (stdin : List UInt8) (colors : Bool) :
    ∃ o, answer ⟨w.directory.read, stdin, colors⟩ args = .ran o ∧
      ((Answer.ran (o.settle w)).status = 1 →
        ∃ failure, (o.settle w).result = .error failure ∧
          ((o.settle w).SuggestsInit ↔
            ConfigFailure w i failure ∨ failure.IsNamedLikeConfig) ∧
          (((o.settle w).SuggestsInit ↔ ConfigFailure w i failure) ↔
            ¬ failure.IsNamedLikeConfig)) := by
  refine ⟨runIn w.directory stdin colors i, by rw [answer, accepted]; rfl, fun failed => ?_⟩
  obtain ⟨failure, hresult⟩ := Outcome.exists_failure failed
  refine ⟨failure, hresult, ?_⟩
  rw [Outcome.suggestsInit_iff hresult]
  obtain hconfig | hcommand := settle_runIn_error hresult
  · have help := help_eq_of_isOfConfig hconfig.isOfConfig
    have unnamed := hconfig.isOfConfig.not_isNamedLikeConfig
    simp only [help, hconfig, unnamed, true_or, not_false_iff, and_self]
  · have not_config : ¬ ConfigFailure w i failure := fun h =>
      hcommand.not_isOfConfig h.isOfConfig
    rw [hcommand.help_iff]
    simp only [not_config, false_or, iff_false, and_self]

/-- A directory with a config file that sets a format there is not. -/
def pdfDirectory : Directory :=
  [(Config.fileName, .file (Utf8.encode "format = \"pdf\"\n".toList))]

def scoreStdin : Invocation := ⟨.score ['-'], none, ⟨none, none, none, none⟩⟩

theorem invalid_config_gets_hint :
    ∃ o, answer ⟨pdfDirectory.read, [], false⟩ ["score".toList, "-".toList] = .ran o ∧
      ConfigFailure ⟨pdfDirectory, none, []⟩ scoreStdin
        (.invalidConfig (Config.here Config.fileName)) ∧ o.SuggestsInit := by
  have loaded : loadConfig pdfDirectory.read scoreStdin =
      .error (.invalidConfig (Config.here Config.fileName)) := by
    decide +kernel
  obtain ⟨o, hanswer, hhint⟩ := @hint_iff_configFailure ["score".toList, "-".toList]
    scoreStdin rfl ⟨pdfDirectory, none, []⟩ [] false
  obtain rfl : run ⟨pdfDirectory.read, [], false⟩ scoreStdin = o := Answer.ran.inj hanswer
  have failed := run_of_loadConfig_error (s := ⟨pdfDirectory.read, [], false⟩) loaded
  obtain ⟨failure, hresult, hsuggests, -⟩ := hhint (Outcome.status_of_error failed)
  obtain rfl := Except.error.inj (failed.symm.trans hresult)
  exact ⟨_, hanswer, .inl loaded, hsuggests.mpr (.inl (.inl loaded))⟩

/-- A script that is not there, and is named like a config file. -/
theorem missing_script_gets_hint :
    ∃ o, answer ⟨Directory.read [], [], false⟩ ["tokens".toList, "config file".toList] = .ran o ∧
      o.result = .error (.unreadableScript "config file".toList .notFound) ∧
      o.SuggestsInit ∧
      ∀ i, ¬ ConfigFailure ⟨[], none, []⟩ i
        (.unreadableScript "config file".toList .notFound) := by
  refine ⟨_, rfl, rfl, by decide +kernel, fun i h => h.isOfConfig⟩

end CommandLine
end LiquidsoapHighlight
