import LiquidsoapHighlight.CommandLine.Invocation
import LiquidsoapHighlight.Proofs.Grammar.Built

/-!
The options of a command line as they are written, whichever of them a command has and however
often one may be given. What an accepted command line gives is what is written in it: the options
before the command and those after it are read into two records, and put together they say the same
as all options in a row.
-/

namespace LiquidsoapHighlight
namespace CommandLine

namespace OptionName

def all : List OptionName :=
  [verbose, noColor, config, help, version, raw, format, classPrefix, language]

def ofLetter? (c : Char) : Option OptionName := all.find? fun option => option.short? = some c

def ofName? (name : Argument) : Option OptionName := all.find? fun option => option.long = name

theorem ofLetter?_of_ofShort? {command : Option CommandName} {c : Char} {option : OptionName}
    (h : ofShort? command c = some option) :
    option ∈ availableTo command ∧ ofLetter? c = some option := by
  have letter := List.find?_some h
  refine ⟨List.mem_of_find?_eq_some h, ?_⟩
  cases option <;> simp [short?] at letter <;> subst letter <;> rfl

theorem ofName?_of_ofLong? {command : Option CommandName} {name : Argument} {option : OptionName}
    (h : ofLong? command name = some option) :
    option ∈ availableTo command ∧ ofName? name = some option := by
  have long := List.find?_some h
  refine ⟨List.mem_of_find?_eq_some h, ?_⟩
  rw [decide_eq_true_eq] at long
  subst long
  cases option <;> decide

end OptionName

/-- An option with the value that is written for it, if it takes one. -/
abbrev WrittenOption := OptionName × Option Argument

namespace WrittenOption

/-- An option with the value that comes right after its letter, or else has to be waited for. -/
def attached (option : OptionName) : List Char → List WrittenOption × Option OptionName
  | [] => ([], some option)
  | '=' :: value => ([(option, some value)], none)
  | value => ([(option, some value)], none)

theorem attached_of_ne {option : OptionName} {value : List Char} (nonempty : value ≠ [])
    (noEquals : ∀ rest, value ≠ '=' :: rest) :
    attached option value = ([(option, some value)], none) := by
  rw [attached]
  · exact nonempty
  · exact noEquals

/-- The options in a run of letters. The last one may have to wait for its value. -/
def ofLetters : List Char → List WrittenOption × Option OptionName
  | [] => ([], none)
  | c :: rest =>
    match OptionName.ofLetter? c with
    | none => ([], none)
    | some option =>
      if option.takesValue then attached option rest
      else ((option, none) :: (ofLetters rest).1, (ofLetters rest).2)

/-- The option of a long name, with a value after an equals sign. -/
def ofWord (text : List Char) : List WrittenOption × Option OptionName :=
  match OptionName.ofName? (text.takeWhile (· ≠ '=')), text.dropWhile (· ≠ '=') with
  | none, _ => ([], none)
  | some option, [] => if option.takesValue then ([], some option) else ([(option, none)], none)
  | some option, _ :: value => ([(option, some value)], none)

/-- The options of a command line in the order in which they are written. One may wait for its
value. After two dashes there are no options. -/
def inArguments : Option OptionName → List Argument → List WrittenOption
  | _, [] => []
  | some option, value :: rest => (option, some value) :: inArguments none rest
  | none, arg :: rest =>
    match arg with
    | ['-', '-'] => []
    | '-' :: '-' :: text => (ofWord text).1 ++ inArguments (ofWord text).2 rest
    | '-' :: c :: text => (ofLetters (c :: text)).1 ++ inArguments (ofLetters (c :: text)).2 rest
    | _ => inArguments none rest

/-- The value of an option, the last one that is written. -/
def value? (options : List WrittenOption) (name : OptionName) : Option Argument :=
  (options.filterMap fun (option, value) => if option = name then value else none).getLast?

theorem value?_append (options later : List WrittenOption) (name : OptionName) :
    value? (options ++ later) name = (value? later name).or (value? options name) := by
  rw [value?, List.filterMap_append, List.getLast?_append]
  rfl

@[simp]
theorem value?_add_flag (options : List WrittenOption) (option name : OptionName) :
    value? (options ++ [(option, none)]) name = value? options name := by
  rw [value?_append]
  by_cases same : option = name <;> simp [value?, same]

@[simp]
theorem value?_add_value (options : List WrittenOption) (option name : OptionName)
    (value : Argument) :
    value? (options ++ [(option, some value)]) name =
      if option = name then some value else value? options name := by
  rw [value?_append]
  by_cases same : option = name <;> simp [value?, same]

/-- An option that is not available has no value. -/
theorem value?_eq_none {options : List WrittenOption} {names : List OptionName}
    (available : ∀ option ∈ options, option.1 ∈ names) {name : OptionName} (h : name ∉ names) :
    value? options name = none := by
  rw [value?, List.getLast?_eq_none_iff, List.filterMap_eq_nil_iff]
  rintro ⟨option, value⟩ written
  exact if_neg fun same : option = name => h (same ▸ available _ written)

end WrittenOption

open WrittenOption

theorem Given.unlessSet_eq_ok {α : Type} {set : Bool} {value result : α} :
    unlessSet set value = .ok result ↔ set = false ∧ value = result := by
  cases set <;> simp [unlessSet]

/-- What is given is what the options say, and the command has these options. -/
structure Given.Holds (command : Option CommandName) (g : Given) (options : List WrittenOption) :
    Prop where
  available : ∀ option ∈ options, option.1 ∈ OptionName.availableTo command
  verbose : g.verbose = true ↔ (.verbose, none) ∈ options
  noColor : g.noColor = true ↔ (.noColor, none) ∈ options
  config : g.config = value? options .config
  format : g.format.map OutputFormat.name = value? options .format
  classPrefix : g.classPrefix = value? options .classPrefix

namespace Given.Holds

variable {command : Option CommandName} {g after : Given} {options : List WrittenOption}
  {option : OptionName}

theorem nothing : Holds command .nothing [] where
  available := by simp
  verbose := by simp [Given.nothing]
  noColor := by simp [Given.nothing]
  config := rfl
  format := rfl
  classPrefix := rfl

theorem available_add (h : Holds command g options)
    (available : option ∈ OptionName.availableTo command) (value : Option Argument) :
    ∀ written ∈ options ++ [(option, value)], written.1 ∈ OptionName.availableTo command := by
  intro written hmem
  obtain earlier | last := List.mem_append.mp hmem
  · exact h.available written earlier
  · rw [List.mem_singleton] at last
    rwa [last]

theorem addFlag (h : Holds command g options)
    (available : option ∈ OptionName.availableTo command) (added : g.addFlag option = .ok after) :
    Holds command after (options ++ [(option, none)]) := by
  have hmem := h.available_add available none
  cases option <;> simp only [Given.addFlag, unlessSet_eq_ok, reduceCtorEq] at added <;>
    obtain ⟨-, rfl⟩ := added <;>
    exact ⟨hmem, by simp [h.verbose], by simp [h.noColor], by simp [h.config], by simp [h.format],
      by simp [h.classPrefix]⟩

theorem addValue (h : Holds command g options)
    (available : option ∈ OptionName.availableTo command) {value : Argument}
    (added : g.addValue option value = .ok after) :
    Holds command after (options ++ [(option, some value)]) := by
  have hmem := h.available_add available (some value)
  cases option with
  | config | classPrefix | language =>
      simp only [Given.addValue, unlessSet_eq_ok] at added
      obtain ⟨-, rfl⟩ := added
      exact ⟨hmem, by simp [h.verbose], by simp [h.noColor], by simp [h.config], by simp [h.format],
        by simp [h.classPrefix]⟩
  | format =>
      simp only [Given.addValue] at added
      split at added
      · next format named =>
          have name : format.name = value := by simpa using List.find?_some named
          obtain ⟨-, rfl⟩ := unlessSet_eq_ok.mp added
          exact ⟨hmem, by simp [h.verbose], by simp [h.noColor], by simp [h.config],
            by simp [name], by simp [h.classPrefix]⟩
      · cases added
  | _ => cases added

theorem addFile (h : Holds command g options) {name : CommandName} {file : Argument}
    (added : g.addFile name file = .ok after) : Holds command after options := by
  obtain ⟨-, rfl⟩ := unlessSet_eq_ok.mp added
  exact ⟨h.available, h.verbose, h.noColor, h.config, h.format, h.classPrefix⟩

theorem addFiles (h : Holds command g options) {name : CommandName} {files : List Argument}
    (added : files.foldlM (fun g file => g.addFile name file) g = .ok after) :
    Holds command after options := by
  induction files generalizing g with
  | nil =>
      cases added
      exact h
  | cons file files ih =>
      rw [List.foldlM_cons] at added
      obtain ⟨g', first, rest⟩ := Check.bind_eq_ok.mp added
      exact ih (h.addFile first) rest

end Given.Holds

/-- An argument has been read: its options are added to those before it, but for one that waits for
its value. -/
structure ReadArgument (command : Option CommandName) (options : List WrittenOption)
    (argument : List WrittenOption × Option OptionName) (state : Given × Option OptionName) :
    Prop where
  holds : state.1.Holds command (options ++ argument.1)
  waiting : argument.2 = state.2
  available : ∀ option ∈ state.2, option ∈ OptionName.availableTo command

theorem ReadArgument.append_rest {command : Option CommandName} {options : List WrittenOption}
    {argument : List WrittenOption × Option OptionName} {state : Given × Option OptionName}
    (h : ReadArgument command options argument state) (rest : List Argument) :
    options ++ argument.1 ++ inArguments state.2 rest =
      options ++ (argument.1 ++ inArguments argument.2 rest) := by
  rw [List.append_assoc, h.waiting]

section Arguments

variable {command : Option CommandName} {g : Given} {options : List WrittenOption}
  {state : Given × Option OptionName}

theorem readArgument_flag {option : OptionName} (h : g.Holds command options)
    (available : option ∈ OptionName.availableTo command)
    (hread : (g.addFlag option).map (·, none) = .ok state) :
    ReadArgument command options ([(option, none)], none) state := by
  obtain ⟨after, added, rfl⟩ := Check.map_eq_ok.mp hread
  exact ⟨h.addFlag available added, rfl, nofun⟩

theorem readArgument_value {option : OptionName} {value : Argument} (h : g.Holds command options)
    (available : option ∈ OptionName.availableTo command)
    (hread : (g.addValue option value).map (·, none) = .ok state) :
    ReadArgument command options ([(option, some value)], none) state := by
  obtain ⟨after, added, rfl⟩ := Check.map_eq_ok.mp hread
  exact ⟨h.addValue available added, rfl, nofun⟩

theorem readArgument_waiting {option : OptionName} (h : g.Holds command options)
    (available : option ∈ OptionName.availableTo command)
    (hread : Except.ok (g, some option) = (.ok state : Except Stop _)) :
    ReadArgument command options ([], some option) state := by
  cases hread
  refine ⟨by rwa [List.append_nil], rfl, fun other waits => ?_⟩
  cases waits
  exact available

theorem readShort_options {text : List Char} (h : g.Holds command options)
    (hread : readShort command g text = .ok state) :
    ReadArgument command options (ofLetters text) state := by
  induction text generalizing g options with
  | nil =>
      cases hread
      exact ⟨by rwa [ofLetters, List.append_nil], rfl, nofun⟩
  | cons c rest ih =>
      rw [readShort] at hread
      cases letter : OptionName.ofShort? command c with
      | none => rw [letter] at hread; cases hread
      | some option =>
          obtain ⟨available, known⟩ := OptionName.ofLetter?_of_ofShort? letter
          simp only [letter] at hread
          simp only [ofLetters, known]
          by_cases takes : option.takesValue = true
          · rw [if_pos takes] at hread ⊢
            split at hread
            · exact readArgument_waiting h available hread
            · exact readArgument_value h available hread
            · next nonempty noEquals =>
                rw [attached_of_ne nonempty noEquals]
                exact readArgument_value h available hread
          · rw [if_neg takes] at hread ⊢
            obtain ⟨after, added, goesOn⟩ := Check.bind_eq_ok.mp hread
            obtain ⟨holds, waiting, waits⟩ := ih (h.addFlag available added) goesOn
            refine ⟨?_, waiting, waits⟩
            rwa [List.append_assoc] at holds

theorem readLong_options {text : List Char} (h : g.Holds command options)
    (hread : readLong command g text = .ok state) :
    ReadArgument command options (ofWord text) state := by
  rw [readLong] at hread
  rw [ofWord]
  cases name : OptionName.ofLong? command (text.takeWhile (· ≠ '=')) with
  | none => rw [name] at hread; cases hread
  | some option =>
      obtain ⟨available, known⟩ := OptionName.ofName?_of_ofLong? name
      rw [name] at hread
      rw [known]
      cases value : text.dropWhile (· ≠ '=') with
      | nil =>
          rw [value] at hread
          by_cases takes : option.takesValue = true
          · simp only [takes, if_true] at hread ⊢
            exact readArgument_waiting h available hread
          · simp only [takes] at hread ⊢
            exact readArgument_flag h available hread
      | cons equals given =>
          rw [value] at hread
          by_cases takes : option.takesValue = true
          · simp only [takes, if_true] at hread ⊢
            exact readArgument_value h available hread
          · simp only [takes] at hread
            cases hread

end Arguments

theorem readAfter_options {command : CommandName} {args : List Argument} {g after : Given}
    {waiting : Option OptionName} {options : List WrittenOption}
    (h : g.Holds (some command) options)
    (available : ∀ option ∈ waiting, option ∈ OptionName.availableTo (some command))
    (hread : readAfter command g waiting args = .ok after) :
    after.Holds (some command) (options ++ inArguments waiting args) := by
  fun_induction readAfter command g waiting args generalizing options with
  | case1 g =>
      cases hread
      rwa [inArguments, List.append_nil]
  | case2 => cases hread
  | case3 g rest =>
      rw [inArguments, List.append_nil]
      exact h.addFiles hread
  | case4 g rest text _ ih =>
      obtain ⟨state, argument, goesOn⟩ := Check.bind_eq_ok.mp hread
      have read := readLong_options h argument
      have := ih _ _ read.holds read.available goesOn
      rw [read.append_rest] at this
      simpa only [inArguments] using this
  | case5 g rest c text _ _ ih =>
      obtain ⟨state, argument, goesOn⟩ := Check.bind_eq_ok.mp hread
      have read := readShort_options h argument
      have := ih _ _ read.holds read.available goesOn
      rw [read.append_rest] at this
      simpa only [inArguments] using this
  | case6 => cases hread
  | case7 g rest value option _ ih =>
      obtain ⟨g', added, goesOn⟩ := Check.bind_eq_ok.mp hread
      have := ih _ (h.addValue (available option rfl) added) nofun goesOn
      rwa [List.append_assoc] at this
  | case8 g rest file _ _ _ ih =>
      obtain ⟨g', added, goesOn⟩ := Check.bind_eq_ok.mp hread
      have := ih _ (h.addFile added) nofun goesOn
      simpa only [inArguments] using this

/-- What an invocation has from the options that are written. -/
structure Invocation.Holds (i : Invocation) (options : List WrittenOption) : Prop where
  configFile : i.configFile = value? options .config
  colored : i.settings.colored = if (.noColor, none) ∈ options then some false else none
  verbose : i.settings.verbose = if (.verbose, none) ∈ options then some true else none
  format : i.settings.format.map OutputFormat.name = value? options .format
  classPrefix : i.settings.classPrefix = value? options .classPrefix
  isHighlight : (value? options .format).isSome ∨ (value? options .classPrefix).isSome →
    ∃ file language, i.command = .highlight file language

theorem Given.toInvocation_ok {command : CommandName} {before after : Given} {i : Invocation}
    (made : before.toInvocation after command = .ok i) :
    i.configFile = after.config.or before.config ∧
      i.settings = ⟨if before.noColor || after.noColor then some false else none,
        if before.verbose || after.verbose then some true else none, after.format,
        after.classPrefix⟩ ∧
      (command = .highlight → ∃ file language, i.command = .highlight file language) := by
  cases file : after.file <;> cases command <;>
    simp only [Given.toInvocation, file] at made <;> cases made <;> exact ⟨rfl, rfl, by simp⟩

theorem toInvocation_options {command : CommandName} {before after : Given} {i : Invocation}
    {options later : List WrittenOption} (hbefore : before.Holds none options)
    (hafter : after.Holds (some command) later)
    (made : before.toInvocation after command = .ok i) : i.Holds (options ++ later) := by
  obtain ⟨configFile, settings, isHighlight⟩ := Given.toInvocation_ok made
  -- These options are not available before the command, so only those after it count.
  have format : value? options .format = none :=
    value?_eq_none hbefore.available (by decide)
  have classPrefix : value? options .classPrefix = none :=
    value?_eq_none hbefore.available (by decide)
  refine ⟨?_, ?_, ?_, ?_, ?_, ?_⟩
  · rw [configFile, value?_append, hbefore.config, hafter.config]
  · simp only [settings, List.mem_append, Bool.or_eq_true, hbefore.noColor, hafter.noColor]
  · simp only [settings, List.mem_append, Bool.or_eq_true, hbefore.verbose, hafter.verbose]
  · rw [settings, value?_append, format, Option.or_none, hafter.format]
  · rw [settings, value?_append, classPrefix, Option.or_none, hafter.classPrefix]
  · rw [value?_append, value?_append, format, classPrefix, Option.or_none, Option.or_none]
    intro written
    cases command with
    | highlight => exact isHighlight rfl
    | _ =>
        rw [value?_eq_none hafter.available (by decide),
          value?_eq_none hafter.available (by decide)] at written
        simp at written

theorem readBefore_options {args : List Argument} {g : Given} {i : Invocation}
    {waiting : Option OptionName} {options : List WrittenOption} (h : g.Holds none options)
    (available : ∀ option ∈ waiting, option ∈ OptionName.availableTo none)
    (hread : readBefore g waiting args = .ok i) :
    i.Holds (options ++ inArguments waiting args) := by
  fun_induction readBefore g waiting args generalizing options with
  | case3 g rest text _ ih =>
      obtain ⟨state, argument, goesOn⟩ := Check.bind_eq_ok.mp hread
      have read := readLong_options h argument
      have := ih _ _ read.holds read.available goesOn
      rw [read.append_rest] at this
      simpa only [inArguments] using this
  | case4 g rest c text _ _ ih =>
      obtain ⟨state, argument, goesOn⟩ := Check.bind_eq_ok.mp hread
      have read := readShort_options h argument
      have := ih _ _ read.holds read.available goesOn
      rw [read.append_rest] at this
      simpa only [inArguments] using this
  | case6 g rest value option _ _ ih =>
      obtain ⟨g', added, goesOn⟩ := Check.bind_eq_ok.mp hread
      have := ih _ (h.addValue (available option rfl) added) nofun goesOn
      rwa [List.append_assoc] at this
  | case7 g rest name _ _ _ command _ =>
      obtain ⟨after, hafter, made⟩ := Check.bind_eq_ok.mp hread
      have holds : after.Holds (some command) (inArguments none rest) :=
        readAfter_options .nothing nofun hafter
      have := toInvocation_options h holds made
      simpa only [inArguments] using this
  | _ => cases hread

/-- An accepted command line gives what is written in it. -/
theorem Invocation.holds_of_read {args : List Argument} {i : Invocation}
    (accepted : Invocation.read args = .ok i) : i.Holds (inArguments none args) :=
  readBefore_options .nothing nofun accepted

example : inArguments none ["-v".toList, "highlight".toList, "-fmarkup".toList,
    "--class-prefix=x-".toList, "--config".toList, "rc".toList, "-".toList] =
    [(.verbose, none), (.format, some "markup".toList), (.classPrefix, some "x-".toList),
      (.config, some "rc".toList)] := by
  decide +kernel

end CommandLine
end LiquidsoapHighlight
