import LiquidsoapHighlight.Proofs.Directory.Added
import LiquidsoapHighlight.Proofs.Text.Decoding

/-!
The config file that is written to a directory. It is added where nothing is found under its name,
it is the first one found afterwards, and it reads as the defaults that it was written for.
-/

namespace LiquidsoapHighlight

namespace Utf8

theorem decode?_encode (text : List Char) : decode? (encode text) = some text := by
  induction text with
  | nil => rfl
  | cons c text ih =>
      have hitems := items_encode c (encode text)
      change (items none (String.utf8EncodeChar c ++ encode text)).mapM id = _
      rw [hitems, List.mapM_cons]
      change (some c >>= fun c => decode? (encode text) >>= fun text => some (c :: text)) = _
      rw [ih]
      rfl

end Utf8

namespace Config

theorem fileName_isPlain : Path.IsPlain fileName :=
  ⟨by decide, by decide, by decide, by decide, by decide⟩

/-- The config file that is written. -/
def written : Entry := .file defaultContent

theorem ofText?_defaultText : ofText? defaultText = some default := by
  unfold defaultText
  rw [String.toList_ofList]
  decide +kernel

theorem defaultContent_ne_nil : defaultContent ≠ [] := by
  unfold defaultContent defaultText
  rw [String.toList_ofList]
  exact nofun

theorem find?_of_entry {d : Directory} {content : List UInt8}
    (there : d.entry fileName = .ok (.file content)) : find? d.read = some (here fileName) := by
  have isFile : Files.isFile d.read (here fileName) = true := by
    rw [Files.isFile, Directory.kind?_read, Directory.entry_here fileName_isPlain, there]
    rfl
  simp [find?, candidates, isFile]

theorem load_of_encode {files : Files} {path : Path} {text : List Char} {config : Config}
    (read : files.content path = .ok (Utf8.encode text)) (h : ofText? text = some config) :
    load files path = .ok config := by
  simp only [load, read, Utf8.decode?_encode, h]

/-- What is written is found before any other config file, and reads as the defaults. -/
theorem loadFound_of_written {d : Directory} (there : d.entry fileName = .ok written) :
    loadFound d.read = .ok (default, some (here fileName)) := by
  have read : d.read.content (here fileName) = .ok defaultContent := by
    rw [Directory.content_read, Directory.content, Directory.entry_here fileName_isPlain, there,
      written]
  rw [loadFound, find?_of_entry there]
  change (load d.read (here fileName)).map _ = _
  rw [load_of_encode read ofText?_defaultText, Except.map]

end Config
end LiquidsoapHighlight
