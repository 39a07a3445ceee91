import LiquidsoapHighlight.Proofs.CommandLine.Hints
import LiquidsoapHighlight.Proofs.CommandLine.WrittenOptions

/-!
Where the settings in effect come from: each by itself from the command line, the chosen config file
or the defaults. Files that are not chosen have no part in them.
-/

namespace LiquidsoapHighlight

theorem OutputFormat.name_inj {format other : OutputFormat} :
    format.name = other.name ↔ format = other := by
  cases format <;> cases other <;> decide

namespace CommandLine

open WrittenOption

/-- Each setting is the one that is written in the command line, or else the one of the config
file's key, or else the default. -/
structure Layered (options : List WrittenOption) (keys : Toml.Entries) (config : Config) :
    Prop where
  colored : config.colored = if (.noColor, none) ∈ options then false else
    (Config.keySetting? ConfigOverride.boolean? keys "colored").getD Config.default.colored
  verbose : config.verbose = if (.verbose, none) ∈ options then true else
    (Config.keySetting? ConfigOverride.boolean? keys "verbose").getD Config.default.verbose
  format : config.format.name = (value? options .format).getD
    ((Config.keySetting? ConfigOverride.format? keys "format").getD Config.default.format).name
  classPrefix : config.classPrefix = (value? options .classPrefix).getD
    ((Config.keySetting? ConfigOverride.string? keys "class_prefix").getD
      Config.default.classPrefix)

theorem getD_if_some {α : Type} {p : Prop} [Decidable p] {a b : α} :
    (if p then some a else none).getD b = if p then a else b := by
  split <;> rfl

theorem layered_iff {options : List WrittenOption} {keys : Toml.Entries} {config : Config}
    {i : Invocation} (holds : i.Holds options) :
    Layered options keys config ↔
      (Config.default.override (Config.keySettings keys)).override i.settings = config := by
  have name (format : OutputFormat) : (i.settings.format.getD format).name =
      (value? options .format).getD format.name := by
    rw [← holds.format, Option.getD_map]
  constructor
  · rintro ⟨colored, verbose, format, classPrefix⟩
    rw [← getD_if_some, ← holds.colored] at colored
    rw [← getD_if_some, ← holds.verbose] at verbose
    rw [← name, OutputFormat.name_inj] at format
    rw [← holds.classPrefix] at classPrefix
    cases config
    simp only at colored verbose format classPrefix
    subst colored verbose format classPrefix
    rfl
  · rintro rfl
    constructor
    · rw [← getD_if_some, ← holds.colored]; rfl
    · rw [← getD_if_some, ← holds.verbose]; rfl
    · rw [← name]; rfl
    · rw [← holds.classPrefix]; rfl

theorem loadConfig_eq {d : Directory} {i : Invocation} {chosen : Option Path}
    (choice : Config.Chosen d i.configFile chosen) :
    loadConfig d.read i = Config.loadChosen d.read chosen := by
  rw [Config.chosen_iff] at choice
  subst choice
  rw [loadConfig]
  cases i.configFile with
  | some path => rfl
  | none =>
      change Config.loadFound d.read = Config.loadChosen d.read (Config.find? d.read)
      rw [Config.loadFound]
      cases Config.find? d.read <;> rfl

theorem effectiveConfig_eq_ok {files : Files} {i : Invocation} {config : Config}
    {path : Option Path} : effectiveConfig files i = .ok (config, path) ↔
      ∃ loaded, loadConfig files i = .ok (loaded, path) ∧
        loaded.override i.settings = config := by
  rw [effectiveConfig, Check.map_eq_ok]
  simp only [Prod.exists, Prod.mk.injEq]
  constructor
  · rintro ⟨loaded, _, hloaded, made, rfl⟩
    exact ⟨loaded, hloaded, made⟩
  · rintro ⟨loaded, hloaded, made⟩
    exact ⟨loaded, path, hloaded, made, rfl⟩

/-- The settings in effect are layered over the chosen config file, and no other matters. -/
structure TakesSettings (options : List WrittenOption) (d : Directory) (i : Invocation)
    (chosen : Option Path) : Prop where
  choice : Config.Chosen d (value? options .config) chosen
  layered : ∀ config path, effectiveConfig d.read i = .ok (config, path) ↔
    path = chosen ∧ ∃ keys, Config.KeysOf d chosen keys ∧ Layered options keys config
  /-- A chosen file that is not valid makes the run fail. -/
  invalid : (¬ ∃ keys, Config.KeysOf d chosen keys) →
    ∃ path failure, chosen = some path ∧ Config.LoadFailure path failure ∧
      effectiveConfig d.read i = .error failure ∧
      ∀ stdin colors, (runIn d stdin colors i).result = .error failure
  /-- The directory may change in any way that leaves the choice and the chosen file. -/
  unchosen : ∀ d' : Directory, Config.Chosen d' (value? options .config) chosen →
    (∀ path ∈ chosen, d'.entry path = d.entry path) →
      effectiveConfig d'.read i = effectiveConfig d.read i
  /-- It does if the places are the same up to the chosen one. -/
  untried : ∀ d' : Directory,
    (∀ path ∈ Config.placesTried (value? options .config) chosen,
        d'.entry path = d.entry path) →
      Config.Chosen d' (value? options .config) chosen ∧
        effectiveConfig d'.read i = effectiveConfig d.read i

theorem takesSettings {options : List WrittenOption} {d : Directory} {i : Invocation}
    {chosen : Option Path} (holds : i.Holds options)
    (choice : Config.Chosen d (value? options .config) chosen) :
    TakesSettings options d i chosen := by
  have loads {d : Directory} (choice : Config.Chosen d (value? options .config) chosen) :
      loadConfig d.read i = Config.loadChosen d.read chosen := by
    rw [← holds.configFile] at choice
    exact loadConfig_eq choice
  have unchosen (d' : Directory) (choice' : Config.Chosen d' (value? options .config) chosen)
      (same : ∀ path ∈ chosen, d'.entry path = d.entry path) :
      effectiveConfig d'.read i = effectiveConfig d.read i := by
    rw [effectiveConfig, effectiveConfig, loads choice', loads choice,
      Config.loadChosen_congr same]
  refine ⟨choice, fun config path => ?_, fun invalid => ?_, unchosen, fun d' same => ?_⟩
  · rw [effectiveConfig_eq_ok, loads choice]
    constructor
    · rintro ⟨loaded, hloaded, rfl⟩
      obtain ⟨rfl, keys, keysOf, rfl⟩ := Config.loadChosen_eq_ok.mp hloaded
      exact ⟨rfl, keys, keysOf, (layered_iff holds).mpr rfl⟩
    · rintro ⟨rfl, keys, keysOf, layers⟩
      exact ⟨_, Config.loadChosen_eq_ok.mpr ⟨rfl, keys, keysOf, rfl⟩,
        (layered_iff holds).mp layers⟩
  · obtain ⟨path, failure, hpath, hfailure, failed⟩ := Config.loadChosen_of_not_keysOf invalid
    rw [← loads choice] at failed
    exact ⟨path, failure, hpath, hfailure, map_error.mpr failed,
      fun stdin colors => run_of_loadConfig_error failed⟩
  · have choice' := choice.of_entries same
    exact ⟨choice', unchosen d' choice' fun path hpath =>
      same path (Config.mem_placesTried choice hpath)⟩

/-- A directory whose preferred config file is a directory, and the next one sets two keys. -/
def twoKeysDirectory : Directory :=
  [(Config.fileName, .directory []),
    (".liqhlrc.toml".toList, .file (Utf8.encode "colored = false\nclass_prefix = \"a-\"".toList))]

def prefixArguments : List Argument :=
  ["highlight".toList, "--class-prefix".toList, "x-".toList, ['-']]

def prefixInvocation : Invocation :=
  ⟨.highlight ['-'] "liquidsoap".toList, none, ⟨none, none, none, some "x-".toList⟩⟩

end CommandLine
end LiquidsoapHighlight
