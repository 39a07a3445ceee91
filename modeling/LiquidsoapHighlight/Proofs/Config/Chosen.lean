import Mathlib.Data.List.TakeWhile
import LiquidsoapHighlight.Proofs.Directory.Names
import LiquidsoapHighlight.Proofs.Grammar.Built

/-!
Which config file is chosen, and what it sets. The choice looks for files at the places up to the
chosen one, and nothing but the chosen file is read.
-/

namespace LiquidsoapHighlight

namespace Directory

/-- There is a file at the path, one that can be read or not. A directory is none. -/
def HasFile (d : Directory) (path : Path) : Prop :=
  (∃ content, d.entry path = .ok (.file content)) ∨ ∃ cause, d.entry path = .ok (.locked cause)

theorem content_eq_ok {d : Directory} {path : Path} {content : List UInt8} :
    d.read.content path = .ok content ↔ d.entry path = .ok (.file content) := by
  rw [content_read, Directory.content]
  rcases d.entry path with e | content | cause | entries | target <;> simp

theorem isFile_read {d : Directory} {path : Path} :
    Files.isFile d.read path = true ↔ d.HasFile path := by
  rw [Files.isFile, kind?_read, HasFile]
  rcases d.entry path with e | content | cause | entries | target <;>
    simp [Except.toOption, Entry.kind?]

theorem content_congr {d d' : Directory} {path : Path} (h : d'.entry path = d.entry path) :
    d'.read.content path = d.read.content path := by
  rw [content_read, Directory.content, h, content_read, Directory.content]

end Directory

namespace Config

/-- The config file that is chosen: the one that is asked for, or the first of the candidates that
is a file. -/
inductive Chosen (d : Directory) : Option Path → Option Path → Prop where
  | asked (path : Path) : Chosen d (some path) (some path)
  | found {before after : List Path} {path : Path} (places : candidates = before ++ path :: after)
      (earlier : ∀ other ∈ before, ¬ d.HasFile (here other)) (file : d.HasFile (here path)) :
      Chosen d none (some (here path))
  | absent (nowhere : ∀ path ∈ candidates, ¬ d.HasFile (here path)) : Chosen d none none

theorem find?_read (d : Directory) : Chosen d none (find? d.read) := by
  rw [find?, List.find?_map]
  cases first : candidates.find? (Files.isFile d.read ∘ here) with
  | none =>
      refine .absent fun path hmem file => ?_
      exact List.find?_eq_none.mp first path hmem (Directory.isFile_read.mpr file)
  | some path =>
      obtain ⟨file, before, after, places, earlier⟩ := List.find?_eq_some_iff_append.mp first
      refine .found places (fun other hmem there => ?_) (Directory.isFile_read.mp file)
      have := earlier other hmem
      rw [Function.comp_apply, Directory.isFile_read.mpr there] at this
      cases this

/-- There is one choice, and it is the one that is made. -/
theorem chosen_iff {d : Directory} {asked chosen : Option Path} :
    Chosen d asked chosen ↔ asked.or (find? d.read) = chosen := by
  constructor
  · intro choice
    cases choice with
    | asked path => rfl
    | @found before after path places earlier file =>
        have first : candidates.find? (Files.isFile d.read ∘ here) = some path := by
          refine List.find?_eq_some_iff_append.mpr
            ⟨Directory.isFile_read.mpr file, before, after, places, fun other hmem => ?_⟩
          rw [Bool.not_eq_true', Bool.eq_false_iff]
          exact mt Directory.isFile_read.mp (earlier other hmem)
        rw [find?, List.find?_map, first]
        rfl
    | absent nowhere =>
        refine List.find?_eq_none.mpr fun path hmem file => ?_
        obtain ⟨place, hplace, rfl⟩ := List.mem_map.mp hmem
        exact nowhere place hplace (Directory.isFile_read.mp file)
  · rintro rfl
    cases asked with
    | some path => exact .asked path
    | none => exact find?_read d

/-- The places that decide which file is chosen, and the chosen one. -/
def placesTried (asked chosen : Option Path) : List Path :=
  match asked with
  | some path => [path]
  | none => (candidates.map here).takeWhile (some · ≠ chosen) ++ chosen.toList

theorem mem_placesTried {d : Directory} {asked chosen : Option Path}
    (choice : Chosen d asked chosen) {path : Path} (h : path ∈ chosen) :
    path ∈ placesTried asked chosen := by
  cases choice with
  | asked path' => simpa [placesTried, eq_comm] using h
  | _ => simp_all [placesTried]

/-- What is at other places does not matter. -/
theorem Chosen.of_entries {d d' : Directory} {asked chosen : Option Path}
    (choice : Chosen d asked chosen)
    (same : ∀ path ∈ placesTried asked chosen, d'.entry path = d.entry path) :
    Chosen d' asked chosen := by
  have hasFile {path : Path} (h : path ∈ placesTried asked chosen) :
      d'.HasFile path ↔ d.HasFile path := by
    rw [Directory.HasFile, same path h, Directory.HasFile]
  cases choice with
  | asked path => exact .asked path
  | @found before after path places earlier file =>
      refine .found places (fun other hmem => ?_) ((hasFile ?_).mpr file)
      · -- The places differ, so those before the chosen one are all passed over.
        have distinct : ∀ place ∈ before.map here,
            decide (some place ≠ some (here path)) = true := by
          have nodup : (candidates.map here).Nodup := by decide
          rw [places, List.map_append, List.map_cons] at nodup
          intro place hplace
          simpa using (List.nodup_append.mp nodup).2.2 place hplace _ List.mem_cons_self
        refine mt (hasFile ?_).mp (earlier other hmem)
        simp only [placesTried]
        rw [places, List.map_append, List.takeWhile_append_of_pos distinct]
        exact List.mem_append_left _ (List.mem_append_left _ (List.mem_map_of_mem hmem))
      · simp [placesTried]
  | absent nowhere =>
      refine .absent fun path hmem => mt (hasFile ?_).mp (nowhere path hmem)
      have all : ∀ place ∈ candidates.map here, decide (some place ≠ none) = true := by simp
      rw [placesTried, List.takeWhile_eq_self_iff.mpr all]
      exact List.mem_append_left _ (List.mem_map_of_mem hmem)

section Keys

open ConfigOverride Toml

/-- The value under a key fits what it sets, if there is one. -/
def Fits {α : Type} (read : Value → Option α) (keys : Entries) (key : String) : Prop :=
  ∀ value, keys.lookup key.toList = some value → (read value).isSome

/-- What a key sets. -/
def keySetting? {α : Type} (read : Value → Option α) (keys : Entries) (key : String) : Option α :=
  (keys.lookup key.toList).bind read

theorem setting?_eq_some {α : Type} {read : Value → Option α} {keys : Entries} {key : String}
    {result : Option α} :
    setting? read keys key = some result ↔
      Fits read keys key ∧ keySetting? read keys key = result := by
  rw [setting?, Fits, keySetting?]
  cases keys.lookup key.toList with
  | none => simp
  | some value => cases fit : read value <;> simp [fit]

structure ValuesFit (keys : Entries) : Prop where
  colored : Fits boolean? keys "colored"
  verbose : Fits boolean? keys "verbose"
  format : Fits format? keys "format"
  classPrefix : Fits string? keys "class_prefix"

/-- What the keys of a config file set. -/
def keySettings (keys : Entries) : ConfigOverride :=
  ⟨keySetting? boolean? keys "colored", keySetting? boolean? keys "verbose",
    keySetting? format? keys "format", keySetting? string? keys "class_prefix"⟩

theorem ofEntries?_eq_some {keys : Entries} {settings : ConfigOverride} :
    ofEntries? keys = some settings ↔ ValuesFit keys ∧ keySettings keys = settings := by
  simp only [ofEntries?, Option.bind_eq_bind, Option.bind_eq_some_iff, setting?_eq_some]
  constructor
  · rintro ⟨_, ⟨colored, rfl⟩, _, ⟨verbose, rfl⟩, _, ⟨format, rfl⟩, _, ⟨classPrefix, rfl⟩, made⟩
    exact ⟨⟨colored, verbose, format, classPrefix⟩, Option.some.inj made⟩
  · rintro ⟨⟨colored, verbose, format, classPrefix⟩, rfl⟩
    exact ⟨_, ⟨colored, rfl⟩, _, ⟨verbose, rfl⟩, _, ⟨format, rfl⟩, _, ⟨classPrefix, rfl⟩, rfl⟩

/-- The keys of the chosen config file, which has to be TOML with values that fit. Without a file
there are no keys. -/
inductive KeysOf (d : Directory) : Option Path → Entries → Prop where
  | none : KeysOf d none []
  | file {path : Path} {content : List UInt8} {text : List Char} {keys : Entries}
      (there : d.entry path = .ok (.file content)) (decoded : Utf8.decode? content = some text)
      (parsed : Toml.read? text = some keys) (fit : ValuesFit keys) : KeysOf d (some path) keys

theorem ofText?_eq_some {text : List Char} {config : Config} :
    ofText? text = some config ↔ ∃ keys, Toml.read? text = some keys ∧ ValuesFit keys ∧
      default.override (keySettings keys) = config := by
  simp only [ofText?, Option.bind_eq_bind, Option.bind_eq_some_iff, ofEntries?_eq_some]
  constructor
  · rintro ⟨keys, parsed, _, ⟨fit, rfl⟩, made⟩
    exact ⟨keys, parsed, fit, Option.some.inj made⟩
  · rintro ⟨keys, parsed, fit, rfl⟩
    exact ⟨keys, parsed, _, ⟨fit, rfl⟩, rfl⟩

theorem load_eq_ok {d : Directory} {path : Path} {config : Config} :
    load d.read path = .ok config ↔
      ∃ keys, KeysOf d (some path) keys ∧ default.override (keySettings keys) = config := by
  constructor
  · intro h
    unfold load at h
    split at h
    · cases h
    · next content there =>
        split at h
        · cases h
        · next text decoded =>
            split at h
            · cases h
            · next loaded hloaded =>
                cases h
                obtain ⟨keys, parsed, fit, made⟩ := ofText?_eq_some.mp hloaded
                exact ⟨keys, .file (Directory.content_eq_ok.mp there) decoded parsed fit, made⟩
  · rintro ⟨keys, keysOf, made⟩
    cases keysOf with
    | file there decoded parsed fit =>
        have loaded := ofText?_eq_some.mpr ⟨keys, parsed, fit, made⟩
        simp only [load, Directory.content_eq_ok.mpr there, decoded, loaded]

end Keys

/-- How a config file fails to load. -/
inductive LoadFailure (path : Path) : Failure → Prop where
  | unreadable (cause : ConfigReadError) : LoadFailure path (.unreadableConfig path cause)
  | invalid : LoadFailure path (.invalidConfig path)

theorem load_eq_error {files : Files} {path : Path} {failure : Failure}
    (h : load files path = .error failure) : LoadFailure path failure := by
  unfold load at h
  split at h
  · cases h; exact .unreadable _
  · split at h
    · cases h; exact .unreadable _
    · split at h
      · cases h; exact .invalid
      · cases h

/-- The settings of a chosen file, and its path; or the defaults. -/
def loadChosen (files : Files) : Option Path → Except Failure (Config × Option Path)
  | none => .ok (default, none)
  | some path => (load files path).map (·, some path)

theorem loadChosen_eq_ok {d : Directory} {chosen path : Option Path} {config : Config} :
    loadChosen d.read chosen = .ok (config, path) ↔ path = chosen ∧
      ∃ keys, KeysOf d chosen keys ∧ default.override (keySettings keys) = config := by
  cases chosen with
  | none =>
      constructor
      · intro h
        cases h
        exact ⟨rfl, [], .none, rfl⟩
      · rintro ⟨rfl, keys, keysOf, rfl⟩
        cases keysOf
        rfl
  | some chosen =>
      rw [loadChosen, Check.map_eq_ok, ← load_eq_ok]
      constructor
      · rintro ⟨_, loaded, same⟩
        cases same
        exact ⟨rfl, loaded⟩
      · rintro ⟨rfl, loaded⟩
        exact ⟨config, loaded, rfl⟩

/-- Where the keys cannot be had from the chosen file, that file fails to load. -/
theorem loadChosen_of_not_keysOf {d : Directory} {chosen : Option Path}
    (invalid : ¬ ∃ keys, KeysOf d chosen keys) :
    ∃ path failure, chosen = some path ∧ LoadFailure path failure ∧
      loadChosen d.read chosen = .error failure := by
  cases chosen with
  | none => exact absurd ⟨[], .none⟩ invalid
  | some path =>
      cases loaded : load d.read path with
      | ok config =>
          obtain ⟨keys, keysOf, -⟩ := load_eq_ok.mp loaded
          exact absurd ⟨keys, keysOf⟩ invalid
      | error failure =>
          refine ⟨path, failure, rfl, load_eq_error loaded, ?_⟩
          rw [loadChosen, loaded]
          rfl

/-- A file that cannot be read is chosen all the same. -/
example : loadFound (Directory.read
    [(fileName, .locked .denied), (".liqhlrc.toml".toList, .file [])]) =
      .error (.unreadableConfig (here fileName) (.file .denied)) := by
  decide +kernel

/-- Only the chosen file is read. -/
theorem loadChosen_congr {d d' : Directory} {chosen : Option Path}
    (same : ∀ path ∈ chosen, d'.entry path = d.entry path) :
    loadChosen d'.read chosen = loadChosen d.read chosen := by
  cases chosen with
  | none => rfl
  | some path => rw [loadChosen, loadChosen, load, load, Directory.content_congr (same path rfl)]

end Config
end LiquidsoapHighlight
