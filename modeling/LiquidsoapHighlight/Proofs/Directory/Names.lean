import LiquidsoapHighlight.Config.Files

/-!
What a path of one name leads to. Alone or with a dot and a slash before it, it leads to the entry
of that name, and further if this is a link.
-/

namespace LiquidsoapHighlight
namespace Path

/-- A name that stands for an entry of the directory itself. -/
structure IsPlain (name : Path) : Prop where
  noSlash : '/' ∉ name
  nonempty : name ≠ []
  notHere : name ≠ ['.']
  notAbove : name ≠ ['.', '.']
  short : Text.byteLength name ≤ Directory.longestName

theorem names_of_noSlash {name : Path} (h : '/' ∉ name) : names name = [name] := by
  induction name with
  | nil => rfl
  | cons c rest ih =>
      simp only [List.mem_cons, not_or] at h
      simp [names, Ne.symm h.1, ih h.2]

theorem names_here (path : Path) : names (Config.here path) = ['.'] :: names path := by
  simp [Config.here, names]

theorem isAbsolute_of_noSlash {name : Path} (h : '/' ∉ name) : name.isAbsolute = false := by
  cases name with
  | nil => rfl
  | cons c rest =>
      simp only [List.mem_cons, not_or] at h
      simpa [isAbsolute] using Ne.symm h.1

end Path

namespace Directory

theorem arrive_of_relative {path : Path} (nonempty : path ≠ [])
    (short : Text.byteLength path ≤ longestPath) (relative : path.isAbsolute = false)
    (d : Directory) : d.arrive path = d.follow mostLinks (some []) path.names := by
  rw [arrive, if_neg nonempty, if_neg (Nat.not_lt.mpr short), Place.start, relative]
  rfl

theorem follow_dot (d : Directory) (links : Nat) (p : Place) (names : List (List Char)) :
    d.follow links p (['.'] :: names) = d.follow links p names := by
  have stays : d.walk p (['.'] :: names) = d.walk p names := by simp [walk]
  cases links <;> simp only [follow, stays]

theorem arrive_plain {name : Path} (plain : Path.IsPlain name) (d : Directory) :
    d.arrive name = d.follow mostLinks (some []) [name] := by
  have short : Text.byteLength name ≤ longestPath := Nat.le_trans plain.short (by decide)
  have relative := Path.isAbsolute_of_noSlash plain.noSlash
  rw [arrive_of_relative plain.nonempty short relative, Path.names_of_noSlash plain.noSlash]

theorem arrive_here {name : Path} (plain : Path.IsPlain name) (d : Directory) :
    d.arrive (Config.here name) = d.arrive name := by
  have short : Text.byteLength (Config.here name) ≤ longestPath := by
    have := plain.short
    have two : Text.byteLength "./".toList = 2 := by decide
    rw [Config.here, Text.byteLength_append, two]
    simp only [longestName, longestPath] at *
    omega
  rw [arrive_of_relative (by simp [Config.here]) short (by simp [Config.here, Path.isAbsolute]),
    Path.names_here, follow_dot, arrive_plain plain, Path.names_of_noSlash plain.noSlash]

theorem entry_here {name : Path} (plain : Path.IsPlain name) (d : Directory) :
    d.entry (Config.here name) = d.entry name := by
  rw [entry, arrive_here plain, entry]

theorem kind?_read (d : Directory) (path : Path) :
    d.read.kind? path = (d.entry path).toOption.bind Entry.kind? := rfl

theorem content_read (d : Directory) (path : Path) : d.read.content path = d.content path := rfl

theorem child?_top (d : Directory) (name : List Char) :
    d.child? (some []) name = d.lookup name := by
  change (d.lookup name).bind (Entry.under · []) = d.lookup name
  cases d.lookup name with
  | none => rfl
  | some e => cases e <;> rfl

theorem walk_plain {name : Path} (plain : Path.IsPlain name) (d : Directory) :
    d.walk (some []) [name] = .ok (match d.lookup name with
      | none => .free (some []) name []
      | some (.link target) => .link (some []) target []
      | some _ => .found (some [name])) := by
  rw [walk, if_neg (by simp [plain.nonempty, plain.notHere]), if_neg plain.notAbove,
    if_neg (Nat.not_lt.mpr plain.short), child?_top]
  cases d.lookup name with
  | none => rfl
  | some e => cases e <;> rfl

/-- Where there is no entry of the name, one may be added. -/
theorem arrive_of_lookup_none {name : Path} (plain : Path.IsPlain name) {d : Directory}
    (absent : d.lookup name = none) : d.arrive name = .ok (.free (some []) name []) := by
  rw [arrive_plain plain, mostLinks, follow, walk_plain plain, absent]

/-- An entry that is no link is what its name leads to. -/
theorem arrive_of_lookup_some {name : Path} (plain : Path.IsPlain name) {d : Directory} {e : Entry}
    (present : d.lookup name = some e) (noLink : ∀ target, e ≠ .link target) :
    d.arrive name = .ok (.found (some [name])) := by
  rw [arrive_plain plain, mostLinks, follow, walk_plain plain, present]
  cases e with
  | link target => exact absurd rfl (noLink target)
  | _ => rfl

theorem entry_of_lookup_some {name : Path} (plain : Path.IsPlain name) {d : Directory} {e : Entry}
    (present : d.lookup name = some e) (noLink : ∀ target, e ≠ .link target) :
    d.entry name = .ok e := by
  have stands : d.entryAt (some [name]) = some e := (child?_top d name).trans present
  rw [entry, arrive_of_lookup_some plain present noLink]
  change (d.entryAt (some [name])).elim _ _ = _
  rw [stands]
  rfl

end Directory
end LiquidsoapHighlight
