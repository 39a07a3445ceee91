import Mathlib.Data.List.Basic
import LiquidsoapHighlight.Proofs.CommandLine.Effects
import LiquidsoapHighlight.Proofs.Grammar.Built

/-!
What runs change in their directory. A run that succeeds adds at most the config file, which no
later run takes away or writes again. One that fails leaves nothing behind, unless the system stops
the config file from being filled once it is there.
-/

namespace LiquidsoapHighlight
namespace CommandLine

/-- What the program is called with, apart from the directory it finds, and what the system keeps it
from writing. -/
structure Request where
  args : List Argument
  stdin : List UInt8
  colors : Bool
  refusal : Option Refusal

namespace Request

def answer (r : Request) (d : Directory) : Answer :=
  CommandLine.answer ⟨d.read, r.stdin, r.colors⟩ r.args

/-- The directory afterwards. -/
def leaves (d : Directory) (r : Request) : Directory :=
  match Invocation.read r.args with
  | .error _ => d
  | .ok i => (execute r.stdin r.colors i ⟨d, r.refusal, []⟩).2.directory

end Request

/-- The directory after runs of the program, one after another. -/
def afterAll (d : Directory) (requests : List Request) : Directory :=
  requests.foldl Request.leaves d

/-- The config file is the one thing that is added. It has the defaults, it is the one that is
found, and it stays as it is through all later runs. -/
structure AddsConfig (d after : Directory) : Prop where
  absent : Files.isPresent d.read Config.fileName = false
  added : ∃ names, Directory.AddsFile Config.defaultContent d names after
  /-- It gets its own name where no link leads elsewhere. -/
  own : (∀ target, d.lookup Config.fileName ≠ some (.link target)) →
    d.lookup Config.fileName = none ∧
      after = d ++ [(Config.fileName, .file Config.defaultContent)]
  found : Config.loadFound after.read = .ok (.default, some (Config.here Config.fileName))
  stays : ∀ requests, afterAll after requests = after
  refused : ∀ (requests : List Request) (request : Request) (i : Invocation),
    Invocation.read request.args = .ok i → i.command = .init →
      (request.answer (afterAll after requests)).status = 1

/-- The config file is the one thing that is added, but it was stopped from being filled. -/
structure CutShort (w : World) (i : Invocation) (after : Directory) : Prop where
  init : i.command = .init
  absent : Files.isPresent w.directory.read Config.fileName = false
  added : ∃ room cause names, w.refusal = some (.filling room cause) ∧
    room < Config.defaultContent.length ∧
      Directory.AddsFile (Config.defaultContent.take room) w.directory names after

/-- What a run does, by its outcome and the directory after it. A run that fails does nothing, but
for a config file that it could not fill. -/
structure AllOrNothing (w : World) (stdin : List UInt8) (colors : Bool) (i : Invocation)
    (o : Outcome) (after : Directory) : Prop where
  done : execute stdin colors i w =
    (o.result.map fun _ => (), ⟨after, w.refusal, w.printed ++ o.text⟩)
  uncut : ¬ CutShort w i after → after = o.directory w.directory
  failed : (Answer.ran o).status = 1 → o.text = [] ∧ (after = w.directory ∨ CutShort w i after)
  succeeded : (Answer.ran o).status = 0 →
    if i.command = .init then AddsConfig w.directory after else after = w.directory

theorem runTokens_written {s : Surroundings} {colors raw : Bool} {file : Path} {p : Product}
    (h : runTokens s colors file raw = .ok p) : p.written = none := by
  obtain ⟨script, -, h⟩ := Check.bind_eq_ok.mp h
  cases raw <;> cases h <;> rfl

theorem runHighlight_written {s : Surroundings} {colors : Bool} {config : Config} {file : Path}
    {name : List Char} {p : Product} (h : runHighlight s colors config file name = .ok p) :
    p.written = none := by
  unfold runHighlight at h
  cases known : Language.find? name with
  | none => rw [known] at h; cases h
  | some language =>
      rw [known] at h
      obtain ⟨script, -, h⟩ := Check.bind_eq_ok.mp h
      cases h
      rfl

theorem runScore_written {s : Surroundings} {colors : Bool} {file : Path} {p : Product}
    (h : runScore s colors file = .ok p) : p.written = none := by
  obtain ⟨script, -, h⟩ := Check.bind_eq_ok.mp h
  cases h
  rfl

theorem runInit_ok {s : Surroundings} {colors : Bool} {p : Product} (h : runInit s colors = .ok p) :
    s.files.isPresent Config.fileName = false ∧
      p.written = some Config.defaultContent := by
  unfold runInit at h
  cases present : s.files.isPresent Config.fileName with
  | true => rw [present, if_pos rfl] at h; cases h
  | false =>
      rw [present, if_neg Bool.false_ne_true] at h
      cases h
      exact ⟨rfl, rfl⟩

/-- What a command has written: a config file where none was, or nothing. -/
theorem runCommand_written {s : Surroundings} {colors : Bool} {config : Config}
    {command : Command} {p : Product} (h : runCommand s colors config command = .ok p) :
    (command ≠ .init ∧ p.written = none) ∨
      (command = .init ∧ s.files.isPresent Config.fileName = false ∧
        p.written = some Config.defaultContent) := by
  cases command with
  | tokens file raw => exact .inl ⟨nofun, runTokens_written h⟩
  | highlight file language => exact .inl ⟨nofun, runHighlight_written h⟩
  | score file => exact .inl ⟨nofun, runScore_written h⟩
  | init => exact .inr ⟨rfl, runInit_ok h⟩

theorem Outcome.status_of_error {o : Outcome} {failure : Failure} (h : o.result = .error failure) :
    (Answer.ran o).status = 1 := by
  simp [Answer.status, h, Except.isOk, Except.toBool]

theorem Outcome.status_of_ok {o : Outcome} {p : Product} (h : o.result = .ok p) :
    (Answer.ran o).status = 0 := by
  simp [Answer.status, h, Except.isOk, Except.toBool]

theorem Outcome.exists_failure {o : Outcome} (h : (Answer.ran o).status = 1) :
    ∃ failure, o.result = .error failure := by
  cases hresult : o.result with
  | error failure => exact ⟨failure, rfl⟩
  | ok p => cases h.symm.trans (Outcome.status_of_ok hresult)

theorem Outcome.exists_product {o : Outcome} (h : (Answer.ran o).status = 0) :
    ∃ p, o.result = .ok p := by
  cases hresult : o.result with
  | error failure => cases h.symm.trans (Outcome.status_of_error hresult)
  | ok p => exact ⟨p, rfl⟩

theorem Outcome.text_of_error {o : Outcome} {failure : Failure} (h : o.result = .error failure) :
    o.text = [] := by
  rw [text, h]

theorem Outcome.directory_of_error {o : Outcome} {failure : Failure}
    (h : o.result = .error failure) (d : Directory) : o.directory d = d := by
  rw [directory, h]

theorem Outcome.directory_of_unwritten {o : Outcome} {p : Product} (h : o.result = .ok p)
    (unwritten : p.written = none) (d : Directory) : o.directory d = d := by
  obtain ⟨text, notes, _ | content⟩ := p
  · rw [directory, h]
  · cases unwritten

/-- What a run that succeeds has written to its directory. -/
theorem runIn_written {d : Directory} {stdin : List UInt8} {colors : Bool} {i : Invocation}
    {p : Product} (h : (runIn d stdin colors i).result = .ok p) :
    (i.command ≠ .init ∧ p.written = none) ∨
      (i.command = .init ∧ Files.isPresent d.read Config.fileName = false ∧
        p.written = some Config.defaultContent) := by
  rw [runIn, run_result] at h
  obtain ⟨settings, -, ran⟩ := Check.bind_eq_ok.mp h
  exact runCommand_written ran

theorem isPresent_of_entry {d : Directory} {content : List UInt8}
    (there : d.entry Config.fileName = .ok (.file content)) :
    Files.isPresent d.read Config.fileName = true := by
  rw [Files.isPresent, Directory.kind?_read, there]
  rfl

/-- A config file that is there keeps `init` from running. -/
theorem runIn_init_of_present {d : Directory}
    (present : Files.isPresent d.read Config.fileName = true) {i : Invocation}
    (init : i.command = .init) (stdin : List UInt8) (colors : Bool) :
    ∃ failure, (runIn d stdin colors i).result = .error failure := by
  cases h : (runIn d stdin colors i).result with
  | error failure => exact ⟨failure, rfl⟩
  | ok p =>
      obtain ⟨other, -⟩ | ⟨-, absent, -⟩ := runIn_written h
      · exact absurd init other
      · cases present.symm.trans absent

theorem enact_unwritten {p : Product} (unwritten : p.written = none) (w : World) :
    (enact (.ok p) w).2.directory = w.directory := by
  obtain ⟨text, notes, _ | content⟩ := p
  · rfl
  · cases unwritten

/-- It stays as it is, whatever the program is called with. -/
theorem leaves_of_present {d : Directory}
    (present : Files.isPresent d.read Config.fileName = true) (r : Request) : r.leaves d = d := by
  rw [Request.leaves]
  cases Invocation.read r.args with
  | error stop => rfl
  | ok i =>
      dsimp only
      rw [execute_eq_enact]
      cases h : (runIn d r.stdin r.colors i).result with
      | error failure => rfl
      | ok p =>
          obtain ⟨-, unwritten⟩ | ⟨-, absent, -⟩ := runIn_written h
          · exact enact_unwritten unwritten _
          · cases present.symm.trans absent

theorem afterAll_of_present {d : Directory}
    (present : Files.isPresent d.read Config.fileName = true) (requests : List Request) :
    afterAll d requests = d :=
  List.foldl_fixed' (leaves_of_present present) requests

/-- Where nothing is found under the name of the config file, only a link can have it. -/
theorem lookup_of_absent {d : Directory}
    (absent : Files.isPresent d.read Config.fileName = false)
    (noLink : ∀ target, d.lookup Config.fileName ≠ some (.link target)) :
    d.lookup Config.fileName = none := by
  cases stands : d.lookup Config.fileName with
  | none => rfl
  | some e =>
      have there := Directory.entry_of_lookup_some Config.fileName_isPlain stands
        fun target same => noLink target (stands.trans (congrArg some same))
      rw [Files.isPresent, Directory.kind?_read, there] at absent
      cases e with
      | link target => exact absurd stands (noLink target)
      | _ => cases absent

theorem target_of_lookup_none {d : Directory} (free : d.lookup Config.fileName = none) :
    d.target Config.fileName = .ok [Config.fileName] := by
  rw [Directory.target, Directory.arrive_of_lookup_none Config.fileName_isPlain free]
  rfl

theorem addsConfig {d : Directory} {names : List (List Char)}
    (absent : Files.isPresent d.read Config.fileName = false)
    (target : d.target Config.fileName = .ok names) :
    AddsConfig d (d.add (.file Config.defaultContent) names) := by
  obtain ⟨place, name, free, rfl⟩ := Directory.free_of_target absent target
  have added := Directory.addsFile_of_free free Config.defaultContent
  have there := added.entry_eq free
  have present := isPresent_of_entry there
  refine ⟨absent, ⟨_, added⟩, fun noLink => ?_, Config.loadFound_of_written there,
    afterAll_of_present present, fun requests request i accepted init => ?_⟩
  · have own := lookup_of_absent absent noLink
    rw [target_of_lookup_none own] at target
    rw [← Except.ok.inj target]
    exact ⟨own, Directory.set_of_lookup_none own _⟩
  · obtain ⟨failure, failed⟩ := runIn_init_of_present present init request.stdin request.colors
    rw [afterAll_of_present present, Request.answer, answer, accepted]
    exact Outcome.status_of_error failed

theorem enact_writes (text : List Char) (notes : List LogEntry) (content : List UInt8) (w : World) :
    (enact (.ok ⟨text, notes, some content⟩) w).2.directory =
      (writeConfig content w).2.directory := by
  rw [enact]
  cases written : writeConfig content w with
  | mk done left =>
      cases done with
      | error failure => rw [bind_error written]
      | ok => rw [bind_ok written]; rfl

section Run

variable {w : World} {stdin : List UInt8} {colors : Bool} {i : Invocation}

theorem execute_eq_settle (w : World) (stdin : List UInt8) (colors : Bool) (i : Invocation) :
    execute stdin colors i w =
      (((runIn w.directory stdin colors i).settle w).result.map fun _ => (),
        ⟨(execute stdin colors i w).2.directory, w.refusal,
          w.printed ++ ((runIn w.directory stdin colors i).settle w).text⟩) := by
  rw [execute_eq_enact]
  exact enact_eq_settle _ w

theorem allOrNothing_of_error {failure : Failure}
    (failed : ((runIn w.directory stdin colors i).settle w).result = .error failure)
    (after : (execute stdin colors i w).2.directory = w.directory ∨
      CutShort w i (execute stdin colors i w).2.directory) :
    AllOrNothing w stdin colors i ((runIn w.directory stdin colors i).settle w)
      (execute stdin colors i w).2.directory where
  done := execute_eq_settle w stdin colors i
  uncut uncut := by rw [after.resolve_right uncut, Outcome.directory_of_error failed]
  failed _ := ⟨Outcome.text_of_error failed, after⟩
  succeeded succeeded := by cases succeeded.symm.trans (Outcome.status_of_error failed)

theorem allOrNothing_of_ok {p : Product} (h : (runIn w.directory stdin colors i).result = .ok p)
    (settled : (runIn w.directory stdin colors i).settle w = runIn w.directory stdin colors i)
    (after : (execute stdin colors i w).2.directory =
      (runIn w.directory stdin colors i).directory w.directory)
    (succeeded : if i.command = .init then
        AddsConfig w.directory (execute stdin colors i w).2.directory
      else (execute stdin colors i w).2.directory = w.directory) :
    AllOrNothing w stdin colors i ((runIn w.directory stdin colors i).settle w)
      (execute stdin colors i w).2.directory where
  done := execute_eq_settle w stdin colors i
  uncut _ := by rw [settled, after]
  failed failed := by
    rw [settled] at failed
    cases failed.symm.trans (Outcome.status_of_ok h)
  succeeded _ := succeeded

theorem allOrNothing_of_unwritten {p : Product} (other : i.command ≠ .init)
    (h : (runIn w.directory stdin colors i).result = .ok p) (unwritten : p.written = none) :
    AllOrNothing w stdin colors i ((runIn w.directory stdin colors i).settle w)
      (execute stdin colors i w).2.directory := by
  have same : (execute stdin colors i w).2.directory = w.directory := by
    rw [execute_eq_enact, h, enact_unwritten unwritten]
  refine allOrNothing_of_ok h (Outcome.settle_of_unwritten h unwritten w) ?_ ?_
  · rw [same, Outcome.directory_of_unwritten h unwritten]
  · rw [if_neg other]
    exact same

theorem execute_directory {text : List Char} {notes : List LogEntry} {content : List UInt8}
    (h : (runIn w.directory stdin colors i).result = .ok ⟨text, notes, some content⟩) :
    (execute stdin colors i w).2.directory = (writeConfig content w).2.directory := by
  rw [execute_eq_enact, h, enact_writes]

/-- A run of `init` that comes to writing adds the config file, a beginning of it, or nothing. -/
theorem allOrNothing_of_written {text : List Char} {notes : List LogEntry}
    (init : i.command = .init) (absent : Files.isPresent w.directory.read Config.fileName = false)
    (h : (runIn w.directory stdin colors i).result =
      .ok ⟨text, notes, some Config.defaultContent⟩) :
    AllOrNothing w stdin colors i ((runIn w.directory stdin colors i).settle w)
      (execute stdin colors i w).2.directory := by
  have after := execute_directory h
  obtain ⟨done, left, written, outcome⟩ := exists_written Config.defaultContent w
  have hdone : (writeConfig Config.defaultContent w).1 = done := congrArg Prod.fst written
  rw [written] at after
  cases outcome with
  | unopened cause =>
      have settled := Outcome.settle_of_refused h hdone
      exact allOrNothing_of_error (congrArg Outcome.result settled) (.inl after)
  | @cut names room cause target refused short =>
      obtain ⟨place, name, free, rfl⟩ := Directory.free_of_target absent target
      have added := Directory.addsFile_of_free free (Config.defaultContent.take room)
      have settled := Outcome.settle_of_refused h hdone
      refine allOrNothing_of_error (congrArg Outcome.result settled) (.inr ⟨init, absent, ?_⟩)
      rw [after]
      exact ⟨room, cause, _, refused, short, added⟩
  | @whole names target =>
      refine allOrNothing_of_ok h (Outcome.settle_of_written h hdone) ?_ ?_
      · rw [after, Outcome.directory, h]
        simp only [Directory.overwritten, Directory.write, target, Except.map]
      · rw [if_pos init, after]
        exact addsConfig absent target

end Run

/-- A directory with a config file of another name. -/
def tomlDirectory : Directory := [(".liqhlrc.toml".toList, .file [])]

def initArgs : List Argument := ["init".toList]

def plainInit : Invocation := ⟨.init, none, ⟨none, none, none, none⟩⟩

/-- A link to nothing in the place of the config file. -/
def linkedDirectory : Directory := [(Config.fileName, .link "target".toList)]

def fullDisk : World := ⟨[], some (.filling 0 (.other "No space left on device".toList)), []⟩

end CommandLine
end LiquidsoapHighlight
