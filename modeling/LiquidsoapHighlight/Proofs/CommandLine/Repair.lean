import LiquidsoapHighlight.Proofs.CommandLine.Hints

/-!
What comes of following the hint. A run of `init` reads the settings first, as every run does, so it
fails in the same way as the run before it if that one failed to read them. So it does if the system
kept the config file from being written.
-/

namespace LiquidsoapHighlight
namespace CommandLine

theorem answer_initArgs (d : Directory) (stdin : List UInt8) (colors : Bool) :
    answer ⟨d.read, stdin, colors⟩ initArgs = .ran (runIn d stdin colors plainInit) := rfl

/-- A run of `init` succeeds in the world, and the settings can be read then. -/
def InitRepairs (w : World) : Prop :=
  ∀ stdin colors, ∃ o, answer ⟨w.directory.read, stdin, colors⟩ initArgs = .ran o ∧
    (Answer.ran (o.settle w)).status = 0 ∧
      ∃ settings,
        Config.loadFound (execute stdin colors plainInit w).2.directory.read = .ok settings

/-- A config file can be written, and takes the place of nothing. -/
structure World.TakesConfig (w : World) : Prop where
  absent : Files.isPresent w.directory.read Config.fileName = false
  written : (writeConfig Config.defaultContent w).1 = .ok ()

/-- The system does not refuse to write, and no link stands for the config file. -/
structure World.Ordinary (w : World) : Prop where
  unrefused : w.refusal = none
  noLink : ∀ target, w.directory.lookup Config.fileName ≠ some (.link target)

theorem World.TakesConfig.target {w : World} (h : w.TakesConfig) :
    ∃ names, w.directory.target Config.fileName = .ok names ∧
      writeConfig Config.defaultContent w =
        (.ok (), { w with directory := w.directory.add Config.written names }) := by
  obtain ⟨done, left, written, outcome⟩ := exists_written Config.defaultContent w
  obtain rfl : done = .ok () := (congrArg Prod.fst written).symm.trans h.written
  cases outcome with
  | whole target => exact ⟨_, target, written⟩

theorem World.Ordinary.takesConfig_iff {w : World} (ordinary : w.Ordinary) :
    w.TakesConfig ↔ w.directory.lookup Config.fileName = none := by
  refine ⟨fun takes => lookup_of_absent takes.absent ordinary.noLink, fun free => ⟨?_, ?_⟩⟩
  · rw [Files.isPresent, Directory.kind?_read, Directory.entry,
      Directory.arrive_of_lookup_none Config.fileName_isPlain free]
    rfl
  · have opened : w.opened = .ok [Config.fileName] := by
      rw [World.opened, ordinary.unrefused, target_of_lookup_none free]
    rw [writeConfig_of_opened opened, fillConfig_eq, World.fits, ordinary.unrefused]

theorem runIn_init {d : Directory} {settings : Config × Option Path}
    (loaded : Config.loadFound d.read = .ok settings)
    (absent : Files.isPresent d.read Config.fileName = false) (stdin : List UInt8)
    (colors : Bool) :
    ∃ text notes, (runIn d stdin colors plainInit).result =
      .ok ⟨text, notes, some Config.defaultContent⟩ := by
  have effective : effectiveConfig d.read plainInit =
      .ok (settings.1.override plainInit.settings, settings.2) := by
    rw [effectiveConfig]
    change (Config.loadFound d.read).map _ = _
    rw [loaded]
    rfl
  rw [runIn, run_result, effective]
  change ∃ text notes, runInit ⟨d.read, stdin, colors⟩ _ = .ok ⟨text, notes, _⟩
  rw [runInit, if_neg (by simp [absent])]
  exact ⟨_, _, rfl⟩

/-- This takes settings that can be read before, and a config file that can be written. -/
theorem initRepairs_iff {w : World} :
    InitRepairs w ↔
      (∃ settings, Config.loadFound w.directory.read = .ok settings) ∧ w.TakesConfig := by
  constructor
  · intro repairs
    obtain ⟨o, hanswer, succeeded, -⟩ := repairs [] false
    obtain rfl := Answer.ran.inj ((answer_initArgs w.directory [] false).symm.trans hanswer)
    obtain ⟨p, settled⟩ := Outcome.exists_product succeeded
    have h := settled
    rw [Outcome.settle_ok settled] at h
    obtain ⟨other, -⟩ | ⟨-, absent, written⟩ := runIn_written h
    · exact absurd rfl other
    · refine ⟨?_, absent, ?_⟩
      · cases loaded : Config.loadFound w.directory.read with
        | ok settings => exact ⟨settings, rfl⟩
        | error failure => cases h.symm.trans (run_of_loadConfig_error (i := plainInit) loaded)
      · obtain ⟨text, notes, content⟩ := p
        obtain rfl : content = some Config.defaultContent := written
        cases hwrite : (writeConfig Config.defaultContent w).1 with
        | ok => rfl
        | error failure =>
            rw [Outcome.settle_of_refused h hwrite] at settled
            cases settled
  · rintro ⟨⟨settings, loaded⟩, takes⟩ stdin colors
    obtain ⟨text, notes, h⟩ := runIn_init loaded takes.absent stdin colors
    obtain ⟨names, target, written⟩ := takes.target
    refine ⟨_, answer_initArgs w.directory stdin colors, ?_,
      ⟨Config.default, some (Config.here Config.fileName)⟩, ?_⟩
    · rw [Outcome.settle_of_written h takes.written]
      exact Outcome.status_of_ok h
    · rw [execute_directory h, written]
      exact (addsConfig takes.absent target).found

/-- What comes of following the hint after a run that failed with it. -/
structure HintFollowed (w left : World) (i : Invocation) (failure : Failure) : Prop where
  /-- It helps only where no config file was at fault, but something that is named like one. -/
  repairs : InitRepairs left ↔ failure.IsNamedLikeConfig ∧ left.TakesConfig
  fault : ¬ failure.IsNamedLikeConfig → ConfigFailure w i failure
  /-- Else a run of `init` fails as the run before did, with the hint to run it. -/
  again : ¬ failure.IsNamedLikeConfig → ¬ CutShort w i left.directory →
    ∀ stdin colors, ∃ again, answer ⟨left.directory.read, stdin, colors⟩ initArgs = .ran again ∧
      (again.settle left).result = .error failure ∧ (again.settle left).SuggestsInit
  ordinary : w.Ordinary → left.directory = w.directory ∧
    (InitRepairs w ↔
      failure.IsNamedLikeConfig ∧ w.directory.lookup Config.fileName = none) ∧
    (¬ failure.IsNamedLikeConfig → Config.loadFound w.directory.read = .error failure)

theorem enact_of_refused {w : World} {text : List Char} {notes : List LogEntry}
    {content : List UInt8} {failure : Failure}
    (refused : (writeConfig content w).1 = .error failure) :
    enact (.ok ⟨text, notes, some content⟩) w = writeConfig content w := by
  have written : writeConfig content w = (.error failure, (writeConfig content w).2) :=
    Prod.ext refused rfl
  rw [enact, bind_error written, ← written]

section Following

variable {w : World} {i : Invocation} {failure : Failure}

theorem hintFollowed_of_unread (unset : i.configFile = none)
    (unread : Config.loadFound w.directory.read = .error failure)
    (help : failure.report.help = some Report.configHelp) : HintFollowed w w i failure := by
  have loads : loadConfig w.directory.read i = .error failure := by
    rw [loadConfig, unset]
    exact unread
  have unnamed := (loadConfig_error loads).not_isNamedLikeConfig
  have fails : ¬ InitRepairs w := fun repairs => by
    obtain ⟨⟨settings, loaded⟩, -⟩ := initRepairs_iff.mp repairs
    cases unread.symm.trans loaded
  refine ⟨iff_of_false fails fun h => unnamed h.1, fun _ => .inl loads,
    fun _ _ stdin colors => ?_,
    fun _ => ⟨rfl, iff_of_false fails fun h => unnamed h.1, fun _ => unread⟩⟩
  have again : (runIn w.directory stdin colors plainInit).result = .error failure :=
    run_of_loadConfig_error unread
  refine ⟨_, answer_initArgs w.directory stdin colors, ?_⟩
  rw [Outcome.settle_of_error again]
  exact ⟨again, (Outcome.suggestsInit_iff again).mpr help⟩

theorem hintFollowed_of_named {settings : Config × Option Path}
    (loaded : Config.loadFound w.directory.read = .ok settings)
    (named : failure.IsNamedLikeConfig) : HintFollowed w w i failure := by
  have repairs : InitRepairs w ↔ failure.IsNamedLikeConfig ∧ w.TakesConfig := by
    rw [initRepairs_iff, and_congr_left fun _ => iff_of_true ⟨settings, loaded⟩ named]
  refine ⟨repairs, fun unnamed => absurd named unnamed, fun unnamed => absurd named unnamed,
    fun ordinary => ⟨rfl, ?_, fun unnamed => absurd named unnamed⟩⟩
  rw [repairs, ordinary.takesConfig_iff]

theorem hintFollowed_of_refused {settings : Config × Option Path}
    (loaded : Config.loadFound w.directory.read = .ok settings) (init : i.command = .init)
    (absent : Files.isPresent w.directory.read Config.fileName = false)
    (refused : (writeConfig Config.defaultContent w).1 = .error failure)
    (help : failure.report.help = some Report.configHelp) :
    HintFollowed w (writeConfig Config.defaultContent w).2 i failure := by
  have unnamed := (writeConfig_error refused).not_isNamedLikeConfig
  have fault : ConfigFailure w i failure := .inr ⟨init, refused⟩
  have notOrdinary : ¬ w.Ordinary := fun ordinary => by
    have takes := ordinary.takesConfig_iff.mpr (lookup_of_absent absent ordinary.noLink)
    cases refused.symm.trans takes.written
  obtain ⟨done, left, written, outcome⟩ := exists_written Config.defaultContent w
  obtain rfl : done = .error failure := (congrArg Prod.fst written).symm.trans refused
  rw [written]
  change HintFollowed w left i failure
  cases outcome with
  | unopened cause =>
      have fails : ¬ InitRepairs w := fun repairs => by
        cases refused.symm.trans (initRepairs_iff.mp repairs).2.written
      refine ⟨iff_of_false fails fun h => unnamed h.1, fun _ => fault, fun _ _ stdin colors => ?_,
        fun ordinary => absurd ordinary notOrdinary⟩
      obtain ⟨text, notes, h⟩ := runIn_init loaded absent stdin colors
      have again := congrArg Outcome.result (Outcome.settle_of_refused h refused)
      exact ⟨_, answer_initArgs w.directory stdin colors, again,
        (Outcome.suggestsInit_iff again).mpr help⟩
  | @cut names room cause target filling short =>
      obtain ⟨place, name, free, rfl⟩ := Directory.free_of_target absent target
      have added := Directory.addsFile_of_free free (Config.defaultContent.take room)
      have present := isPresent_of_entry (added.entry_eq free)
      refine ⟨iff_of_false (fun repairs => ?_) fun h => unnamed h.1, fun _ => fault,
        fun _ uncut => absurd ⟨init, absent, room, cause, _, filling, short, added⟩ uncut,
        fun ordinary => absurd ordinary notOrdinary⟩
      cases present.symm.trans (initRepairs_iff.mp repairs).2.absent

end Following

/-- The hint works only where it is not meant to be given. -/
theorem suggested_initRepairs_iff {w : World} {stdin : List UInt8} {colors : Bool}
    {args : List Argument} {i : Invocation} {o : Outcome}
    (accepted : Invocation.read args = .ok i) (unset : i.configFile = none)
    (ran : answer ⟨w.directory.read, stdin, colors⟩ args = .ran o)
    (failed : (Answer.ran (o.settle w)).status = 1) (suggested : (o.settle w).SuggestsInit) :
    ∃ failure, (o.settle w).result = .error failure ∧
      HintFollowed w (execute stdin colors i w).2 i failure := by
  obtain rfl : runIn w.directory stdin colors i = o := by
    rw [answer, accepted] at ran
    exact Answer.ran.inj ran
  obtain ⟨failure, hresult⟩ := Outcome.exists_failure failed
  refine ⟨failure, hresult, ?_⟩
  have help := (Outcome.suggestsInit_iff hresult).mp suggested
  have loads : loadConfig w.directory.read i = Config.loadFound w.directory.read := by
    rw [loadConfig, unset]
  rw [execute_eq_enact]
  cases loaded : Config.loadFound w.directory.read with
  | error other =>
      have unread : (runIn w.directory stdin colors i).result = .error other :=
        run_of_loadConfig_error (loads.trans loaded)
      rw [Outcome.settle_of_error unread, unread] at hresult
      obtain rfl := Except.error.inj hresult
      rw [unread]
      exact hintFollowed_of_unread unset loaded help
  | ok settings =>
      obtain h | ⟨⟨text, notes, _⟩, content, h, rfl, refused⟩ := Outcome.settle_error hresult
      · obtain unread | hcommand := run_error h
        · cases (loads.trans loaded).symm.trans unread
        · rw [h]
          exact hintFollowed_of_named loaded (hcommand.help_iff.mp help)
      · obtain ⟨-, unwritten⟩ | ⟨init, absent, written⟩ := runIn_written h
        · cases unwritten
        · have same : content = Config.defaultContent := Option.some.inj written
          rw [same] at h refused
          rw [h, enact_of_refused refused]
          exact hintFollowed_of_refused loaded init absent refused help

/-- A script that is not there, and is named like a config file. -/
def missingScript : Invocation :=
  ⟨.tokens "config file".toList false, none, ⟨none, none, none, none⟩⟩

theorem init_works_after_missingScript :
    ∃ o, answer ⟨Directory.read [], [], false⟩ ["tokens".toList, "config file".toList] = .ran o ∧
      o.SuggestsInit ∧ InitRepairs ⟨[], none, []⟩ := by
  have missing : (runIn [] [] false missingScript).result =
      .error (.unreadableScript "config file".toList .notFound) := rfl
  have suggested : (runIn [] [] false missingScript).SuggestsInit := by decide +kernel
  obtain ⟨failure, hresult, followed⟩ := @suggested_initRepairs_iff ⟨[], none, []⟩ [] false
    ["tokens".toList, "config file".toList] missingScript _ rfl rfl rfl
    (Outcome.status_of_error missing) suggested
  obtain rfl := Except.error.inj (missing.symm.trans hresult)
  have repairs := (followed.ordinary ⟨rfl, nofun⟩).2.1
  exact ⟨_, rfl, suggested, repairs.mpr ⟨List.infix_rfl, rfl⟩⟩

/-- A directory with an invalid config file, but not under the name of the one that is written. -/
def pdfTomlDirectory : Directory :=
  [(".liqhlrc.toml".toList, .file (Utf8.encode "format = \"pdf\"\n".toList))]

theorem init_fails_for_invalid_toml :
    ∃ o, answer ⟨pdfTomlDirectory.read, [], false⟩ ["tokens".toList, "-".toList] = .ran o ∧
      (Answer.ran o).status = 1 ∧ o.SuggestsInit ∧
      (answer ⟨pdfTomlDirectory.read, [], false⟩ initArgs).status = 1 ∧
      ¬ InitRepairs ⟨pdfTomlDirectory, none, []⟩ := by
  have unread : Config.loadFound pdfTomlDirectory.read =
      .error (.invalidConfig "./.liqhlrc.toml".toList) := by
    decide +kernel
  refine ⟨_, rfl, by decide +kernel, by decide +kernel, by decide +kernel, fun repairs => ?_⟩
  obtain ⟨⟨settings, loaded⟩, -⟩ := initRepairs_iff.mp repairs
  cases unread.symm.trans loaded

end CommandLine
end LiquidsoapHighlight
