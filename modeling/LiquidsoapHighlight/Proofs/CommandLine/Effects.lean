import LiquidsoapHighlight.CommandLine.Run
import LiquidsoapHighlight.Proofs.Config.Created

/-!
A run as what it does, one thing after another. Each part of it may print, write to the directory or
fail, and a failure takes nothing back. A file is opened first and then filled, and the system may
stop either. What is done in the end is what the outcome of the run says.
-/

namespace LiquidsoapHighlight
namespace CommandLine

/-- What keeps a file from being written: it is not opened, or no more than so many bytes fit. -/
inductive Refusal where
  | opening (cause : FileError)
  | filling (room : Nat) (cause : FileError)

/-- What a run finds and leaves behind: its directory, and what it has printed. The system may
refuse to write to the directory. -/
structure World where
  directory : Directory
  refusal : Option Refusal
  printed : List Char

/-- A part of a run. What it does before it fails stays done. -/
abbrev Action (α : Type) := ExceptT Failure (StateM World) α

def print (text : List Char) : Action Unit :=
  modify fun w => { w with printed := w.printed ++ text }

/-- Something that was read, or the failure to read it. -/
def obtained {α : Type} (result : Except Failure α) : Action α := ExceptT.mk (pure result)

/-- The names under which the config file is opened for writing, or the failure to open it. -/
def World.opened (w : World) : Except Failure (List (List Char)) :=
  match w.refusal, w.directory.target Config.fileName with
  | some (.opening cause), _ => .error (.unwritableConfig Config.fileName cause)
  | _, .error cause => .error (.unwritableConfig Config.fileName cause)
  | _, .ok names => .ok names

/-- Leaves a file with a content under names. -/
def leave (names : List (List Char)) (content : List UInt8) : Action Unit :=
  modify fun w => { w with directory := w.directory.add (.file content) names }

/-- Opens the config file for writing, which leaves it empty. -/
def openConfig : Action (List (List Char)) := do
  let names ← obtained (← get).opened
  leave names []
  return names

/-- The part of a content that there is room for, and whether that is all of it. -/
def World.fits (w : World) (content : List UInt8) : List UInt8 × Except Failure Unit :=
  match w.refusal with
  | some (.filling room cause) =>
    if room < content.length then
      (content.take room, .error (.unwritableConfig Config.fileName cause))
    else (content, .ok ())
  | _ => (content, .ok ())

/-- Writes to the open config file. -/
def fillConfig (names : List (List Char)) (content : List UInt8) : Action Unit := do
  let (part, done) := (← get).fits content
  leave names part
  obtained done

def writeConfig (content : List UInt8) : Action Unit := do
  fillConfig (← openConfig) content

def printTokens (s : Surroundings) (colors : Bool) (file : Path) (raw : Bool) : Action Unit := do
  let script ← obtained (readScript s file)
  if raw then
    (Scanner.steps Liquidsoap.grammar script.text).forM fun (piece, state) =>
      print (Terminal.tokenLine colors piece.token ++ [' '] ++
        stateColumn colors state.stack ++ ['\n'])
  else
    (Token.scan Liquidsoap.grammar script.text).forM fun token =>
      print (Terminal.tokenLine colors token ++ ['\n'])

def printHighlighted (s : Surroundings) (colors : Bool) (config : Config) (file : Path)
    (languageName : List Char) : Action Unit :=
  match Language.find? languageName with
  | none =>
    throw (.unknownLanguage languageName (Language.liquidsoap.id :: Language.liquidsoap.aliases))
  | some language => do
    let script ← obtained (readScript s file)
    let text := rendered colors config (language.highlight script.text)
    print text
    if text.getLast? = some '\n' then return ()
    else print ['\n']

def printScore (s : Surroundings) (colors : Bool) (file : Path) : Action Unit := do
  let script ← obtained (readScript s file)
  let relevance := (Language.liquidsoap.highlight script.text).relevance
  print (Terminal.paint colors ⟨[.bold], none⟩ (Text.decimal relevance.toNat))
  print ([' '] ++ verdict colors relevance ++ ['\n'])

def createConfig (s : Surroundings) (colors : Bool) : Action Unit := do
  if s.files.isPresent Config.fileName then throw (.existingConfig Config.fileName)
  else
    writeConfig Config.defaultContent
    print (Terminal.paint colors ⟨[.bold], some .green⟩ "Created".toList)
    print ([' '] ++ Config.fileName ++ ['\n'])

def executeCommand (s : Surroundings) (colors : Bool) (config : Config) : Command → Action Unit
  | .tokens file raw => printTokens s colors file raw
  | .highlight file language => printHighlighted s colors config file language
  | .score file => printScore s colors file
  | .init => createConfig s colors

/-- Runs a command in the world as it is found. -/
def execute (stdin : List UInt8) (colors : Bool) (i : Invocation) : Action Unit := do
  let s : Surroundings := ⟨(← get).directory.read, stdin, colors⟩
  let (config, _) ← obtained (effectiveConfig s.files i)
  executeCommand s (colors && config.colored) config i.command

/-- Carries out what a command leads to: a new config file is written, and then the text printed,
or nothing is done. -/
def enact : Except Failure Product → Action Unit
  | .error failure => throw failure
  | .ok ⟨text, _, none⟩ => print text
  | .ok ⟨text, _, some content⟩ => do
    writeConfig content
    print text

/-- The outcome of a run in a world, which may refuse to write. -/
def Outcome.settle (w : World) (o : Outcome) : Outcome :=
  match o.result with
  | .ok ⟨_, _, some content⟩ =>
    match (writeConfig content w).1 with
    | .ok () => o
    | .error failure => { o with result := .error failure }
  | _ => o

section
variable {α β : Type} {a : Action α} {f : α → Action β} {w w' : World}

theorem bind_ok {x : α} (h : a w = (.ok x, w')) : (a >>= f) w = f x w' := by
  change (ExceptT.bindCont f (a w).1) (a w).2 = _
  rw [h]
  rfl

theorem bind_error {failure : Failure} (h : a w = (.error failure, w')) :
    (a >>= f) w = (.error failure, w') := by
  change (ExceptT.bindCont f (a w).1) (a w).2 = _
  rw [h]
  rfl

theorem obtained_bind_ok (x : α) : obtained (.ok x) >>= f = f x := rfl

end

theorem print_bind {α : Type} (text : List Char) (f : Unit → Action α) (w : World) :
    (print text >>= f) w = f () { w with printed := w.printed ++ text } := rfl

theorem print_print (text more : List Char) (w : World) :
    print more { w with printed := w.printed ++ text } = print (text ++ more) w := by
  change (Except.ok (), { w with printed := (w.printed ++ text) ++ more }) = _
  rw [List.append_assoc]
  rfl

theorem forM_print {α : Type} (line : α → List Char) (items : List α) (w : World) :
    (items.forM fun item => print (line item)) w =
      (.ok (), { w with printed := w.printed ++ items.flatMap line }) := by
  induction items generalizing w with
  | nil =>
      rw [List.flatMap_nil, List.append_nil]
      rfl
  | cons item items ih =>
      change (print (line item) >>= fun _ => items.forM fun item => print (line item)) w = _
      rw [print_bind, ih]
      simp [List.append_assoc]

/-- What comes of writing the config file. -/
inductive Written (content : List UInt8) (w : World) : Except Failure Unit → World → Prop where
  | unopened (cause : FileError) :
      Written content w (.error (.unwritableConfig Config.fileName cause)) w
  | cut {names : List (List Char)} {room : Nat} {cause : FileError}
      (target : w.directory.target Config.fileName = .ok names)
      (refused : w.refusal = some (.filling room cause)) (short : room < content.length) :
      Written content w (.error (.unwritableConfig Config.fileName cause))
        { w with directory := w.directory.add (.file (content.take room)) names }
  | whole {names : List (List Char)} (target : w.directory.target Config.fileName = .ok names) :
      Written content w (.ok ()) { w with directory := w.directory.add (.file content) names }

theorem Written.kept {content : List UInt8} {w left : World} {done : Except Failure Unit}
    (h : Written content w done left) : left.refusal = w.refusal ∧ left.printed = w.printed := by
  cases h <;> exact ⟨rfl, rfl⟩

theorem opened_eq_ok {w : World} {names : List (List Char)} (h : w.opened = .ok names) :
    w.directory.target Config.fileName = .ok names := by
  unfold World.opened at h
  split at h
  · cases h
  · cases h
  · next target _ => cases h; exact target

theorem opened_eq_error {w : World} {failure : Failure} (h : w.opened = .error failure) :
    ∃ cause, failure = .unwritableConfig Config.fileName cause := by
  unfold World.opened at h
  split at h <;> cases h <;> exact ⟨_, rfl⟩

theorem fillConfig_eq (names : List (List Char)) (content : List UInt8) (w : World) :
    fillConfig names content w = ((w.fits content).2,
      { w with directory := w.directory.add (.file (w.fits content).1) names }) := rfl

theorem writeConfig_of_unopened {w : World} {failure : Failure}
    (unopened : w.opened = .error failure) (content : List UInt8) :
    writeConfig content w = (.error failure, w) := by
  have failed : openConfig w = (.error failure, w) := by
    change (obtained w.opened >>= _) w = _
    rw [unopened]
    rfl
  rw [writeConfig, bind_error failed]

/-- The file that was opened is filled in its place. -/
theorem writeConfig_of_opened {w : World} {names : List (List Char)} (opened : w.opened = .ok names)
    (content : List UInt8) : writeConfig content w = fillConfig names content w := by
  have emptied : openConfig w =
      (.ok names, { w with directory := w.directory.add (.file []) names }) := by
    change (obtained w.opened >>= _) w = _
    rw [opened]
    rfl
  rw [writeConfig, bind_ok emptied, fillConfig_eq, fillConfig_eq, Directory.add_add]
  rfl

theorem exists_written (content : List UInt8) (w : World) :
    ∃ done left, writeConfig content w = (done, left) ∧ Written content w done left := by
  cases opened : w.opened with
  | error failure =>
      obtain ⟨cause, rfl⟩ := opened_eq_error opened
      exact ⟨_, _, writeConfig_of_unopened opened content, .unopened cause⟩
  | ok names =>
      have target := opened_eq_ok opened
      have filled := writeConfig_of_opened opened content
      rw [fillConfig_eq, World.fits] at filled
      split at filled
      · next room cause refused =>
          split at filled
          · next short => exact ⟨_, _, filled, .cut target refused short⟩
          · exact ⟨_, _, filled, .whole target⟩
      · exact ⟨_, _, filled, .whole target⟩

/-- Where the system does not refuse to write, the config file is created at once. -/
theorem writeConfig_eq_create {w : World} (unrefused : w.refusal = none) :
    writeConfig Config.defaultContent w =
      match Config.create w.directory Config.fileName with
      | .ok directory => (.ok (), { w with directory := directory })
      | .error failure => (.error failure, w) := by
  rw [Config.create, Directory.write]
  generalize Config.defaultContent = content
  cases target : w.directory.target Config.fileName with
  | error cause =>
      have unopened : w.opened = .error (.unwritableConfig Config.fileName cause) := by
        rw [World.opened, unrefused, target]
      exact writeConfig_of_unopened unopened content
  | ok names =>
      have opened : w.opened = .ok names := by
        rw [World.opened, unrefused, target]
      rw [writeConfig_of_opened opened, fillConfig_eq, World.fits, unrefused]
      rfl

theorem printTokens_eq_enact (s : Surroundings) (colors : Bool) (file : Path) (raw : Bool)
    (w : World) : printTokens s colors file raw w = enact (runTokens s colors file raw) w := by
  unfold printTokens runTokens
  cases readScript s file with
  | error failure => rfl
  | ok script =>
      rw [obtained_bind_ok]
      cases raw with
      | true => exact forM_print _ _ w
      | false => exact forM_print _ _ w

theorem printHighlighted_eq_enact (s : Surroundings) (colors : Bool) (config : Config)
    (file : Path) (languageName : List Char) (w : World) :
    printHighlighted s colors config file languageName w =
      enact (runHighlight s colors config file languageName) w := by
  unfold printHighlighted runHighlight
  cases Language.find? languageName with
  | none => rfl
  | some language =>
      cases readScript s file with
      | error failure => rfl
      | ok script =>
          simp only [obtained_bind_ok, print_bind]
          change _ = print (endLine _) w
          rw [endLine]
          split
          · rfl
          · exact print_print _ _ _

theorem printScore_eq_enact (s : Surroundings) (colors : Bool) (file : Path) (w : World) :
    printScore s colors file w = enact (runScore s colors file) w := by
  unfold printScore runScore
  cases readScript s file with
  | error failure => rfl
  | ok script =>
      simp only [obtained_bind_ok, print_bind]
      change _ = print _ w
      simp only [print_print, List.append_assoc]

theorem createConfig_eq_enact (s : Surroundings) (colors : Bool) (w : World) :
    createConfig s colors w = enact (runInit s colors) w := by
  unfold createConfig runInit
  cases s.files.isPresent Config.fileName with
  | true => rfl
  | false =>
      simp only [Bool.false_eq_true, if_false, enact]
      cases written : writeConfig Config.defaultContent w with
      | mk done left =>
          cases done with
          | error failure => rw [bind_error written, bind_error written]
          | ok =>
              rw [bind_ok written, bind_ok written, print_bind, print_print]
              simp only [List.append_assoc]

theorem executeCommand_eq_enact (s : Surroundings) (colors : Bool) (config : Config)
    (command : Command) (w : World) :
    executeCommand s colors config command w = enact (runCommand s colors config command) w := by
  cases command with
  | tokens file raw => exact printTokens_eq_enact _ _ _ _ _
  | highlight file language => exact printHighlighted_eq_enact _ _ _ _ _ _
  | score file => exact printScore_eq_enact _ _ _ _
  | init => exact createConfig_eq_enact _ _ _

/-- A run comes to what its command does under the settings in effect. -/
theorem run_result (s : Surroundings) (i : Invocation) :
    (run s i).result = effectiveConfig s.files i >>= fun (config, _) =>
      runCommand s (s.colors && config.colored) config i.command := by
  rw [run]
  cases effectiveConfig s.files i with
  | error failure => rfl
  | ok settings =>
      change _ = runCommand s (s.colors && settings.1.colored) settings.1 i.command
      dsimp only
      cases runCommand s (s.colors && settings.1.colored) settings.1 i.command <;> rfl

/-- A run done step by step reads all that it needs before it writes, and writes before it
prints. -/
theorem execute_eq_enact (stdin : List UInt8) (colors : Bool) (i : Invocation) (w : World) :
    execute stdin colors i w = enact (runIn w.directory stdin colors i).result w := by
  rw [runIn, run_result]
  change (obtained (effectiveConfig w.directory.read i) >>= _) w = _
  cases effectiveConfig w.directory.read i with
  | error failure => rfl
  | ok settings =>
      rw [obtained_bind_ok]
      exact executeCommand_eq_enact ⟨w.directory.read, stdin, colors⟩
        (colors && settings.1.colored) settings.1 i.command w

section Settle

variable {o : Outcome} {w : World} {text : List Char} {notes : List LogEntry}
variable {content : List UInt8} {failure : Failure}

theorem Outcome.settle_of_error (h : o.result = .error failure) (w : World) : o.settle w = o := by
  rw [settle, h]

theorem Outcome.settle_of_unwritten {p : Product} (h : o.result = .ok p)
    (unwritten : p.written = none) (w : World) : o.settle w = o := by
  obtain ⟨text, notes, _ | content⟩ := p
  · rw [settle, h]
  · cases unwritten

theorem Outcome.settle_of_written (h : o.result = .ok ⟨text, notes, some content⟩)
    (written : (writeConfig content w).1 = .ok ()) : o.settle w = o := by
  simp only [settle, h, written]

theorem Outcome.settle_of_refused (h : o.result = .ok ⟨text, notes, some content⟩)
    (refused : (writeConfig content w).1 = .error failure) :
    o.settle w = { o with result := .error failure } := by
  simp only [settle, h, refused]

theorem Outcome.settle_ok {p : Product} (h : (o.settle w).result = .ok p) : o.settle w = o := by
  unfold settle at h ⊢
  split at h
  · split at h
    · rfl
    · cases h
  · rfl

/-- A refusal makes a difference only to an outcome with something to write. -/
theorem Outcome.settle_error (h : (o.settle w).result = .error failure) :
    o.result = .error failure ∨ ∃ p content, o.result = .ok p ∧ p.written = some content ∧
      (writeConfig content w).1 = .error failure := by
  unfold settle at h
  split at h
  · next text notes content ran =>
      split at h
      · cases h.symm.trans ran
      · next other failed =>
          cases h
          exact .inr ⟨_, content, ran, rfl, failed⟩
  · exact .inl h

end Settle

theorem enact_eq_settle (o : Outcome) (w : World) :
    enact o.result w = ((o.settle w).result.map fun _ => (),
      ⟨(enact o.result w).2.directory, w.refusal, w.printed ++ (o.settle w).text⟩) := by
  obtain ⟨result, log, colors⟩ := o
  match result with
  | .error failure =>
      change (Except.error failure, w) = (Except.error failure, World.mk _ _ (w.printed ++ []))
      rw [List.append_nil]
      rfl
  | .ok ⟨text, notes, none⟩ => rfl
  | .ok ⟨text, notes, some content⟩ =>
      obtain ⟨done, left, written, outcome⟩ := exists_written content w
      obtain ⟨refusal, printed⟩ := outcome.kept
      dsimp only
      rw [enact]
      cases done with
      | error failure =>
          rw [bind_error written, Outcome.settle_of_refused rfl (congrArg Prod.fst written)]
          change (Except.error failure, left) =
            (Except.error failure, World.mk _ _ (w.printed ++ []))
          rw [List.append_nil, ← refusal, ← printed]
      | ok =>
          rw [bind_ok written, Outcome.settle_of_written rfl (congrArg Prod.fst written)]
          change (Except.ok (), World.mk _ _ (left.printed ++ text)) =
            (Except.ok (), World.mk _ _ (w.printed ++ text))
          rw [← refusal, ← printed]
          rfl

end CommandLine
end LiquidsoapHighlight
