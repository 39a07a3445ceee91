import LiquidsoapHighlight.Proofs.Directory.Names

/-!
What changes when a file is added. One entry comes to a directory that is there, the others stay as
they are, and a path that led to the free place leads to the file afterwards.
-/

namespace LiquidsoapHighlight

theorem Entry.under_append (e : Entry) (front back : List (List Char)) :
    e.under (front ++ back) = (e.under front).bind (under · back) := by
  induction front generalizing e with
  | nil => rw [List.nil_append, under, Option.bind_some]
  | cons name front ih =>
      cases e with
      | directory entries =>
          rw [List.cons_append, under, under, Option.bind_assoc]
          congr 1
          funext inner
          exact ih inner
      | _ => rfl

/-- What entries have in common with one another if they differ in what directories hold. -/
inductive Entry.Alike : Entry → Entry → Prop where
  | same (e : Entry) : Alike e e
  | directories (entries entries' : Directory) : Alike (.directory entries) (.directory entries')

namespace Directory

/-- One file comes to a directory, under names that nothing stands under but directories. -/
inductive AddsFile (content : List UInt8) : Directory → List (List Char) → Directory → Prop where
  | own {d : Directory} {name : List Char} (free : d.lookup name = none) :
      AddsFile content d [name] (d ++ [(name, .file content)])
  | inside {d inner inner' : Directory} {name : List Char} {names : List (List Char)}
      (there : d.lookup name = some (.directory inner))
      (added : AddsFile content inner names inner') :
      AddsFile content d (name :: names) (d.set name (.directory inner'))

theorem lookup_set (d : Directory) (name : List Char) (e : Entry) :
    (d.set name e).lookup name = some e := by
  induction d with
  | nil => simp [set]
  | cons first rest ih =>
      obtain ⟨other, old⟩ := first
      by_cases same : other = name
      · simp [set, same]
      · simp [set, same, List.lookup_cons, beq_eq_false_iff_ne.mpr (Ne.symm same), ih]

theorem lookup_set_of_ne (d : Directory) {name other : List Char} (h : other ≠ name) (e : Entry) :
    (d.set name e).lookup other = d.lookup other := by
  induction d with
  | nil => simp [set, List.lookup_cons, beq_eq_false_iff_ne.mpr h]
  | cons first rest ih =>
      obtain ⟨own, old⟩ := first
      by_cases same : own = name
      · subst same
        simp [set, List.lookup_cons, beq_eq_false_iff_ne.mpr h]
      · simp [set, same, List.lookup_cons, ih]

/-- A new name is added after the others. -/
theorem set_of_lookup_none {d : Directory} {name : List Char} (h : d.lookup name = none)
    (e : Entry) : d.set name e = d ++ [(name, e)] := by
  induction d with
  | nil => rfl
  | cons first rest ih =>
      obtain ⟨other, old⟩ := first
      by_cases same : other = name
      · simp [same] at h
      · rw [List.lookup_cons, beq_eq_false_iff_ne.mpr (Ne.symm same)] at h
        simp [set, same, ih h]

theorem set_set (d : Directory) (name : List Char) (e e' : Entry) :
    (d.set name e).set name e' = d.set name e' := by
  induction d with
  | nil => simp [set]
  | cons first rest ih =>
      obtain ⟨other, old⟩ := first
      by_cases same : other = name <;> simp [set, same, ih]

theorem inside_eq {d inner : Directory} {name : List Char}
    (there : d.lookup name = some (.directory inner)) : d.inside name = inner := by
  rw [inside, there]

theorem add_cons (d : Directory) (e : Entry) (name : List Char) {names : List (List Char)}
    (nonempty : names ≠ []) :
    add d e (name :: names) = d.set name (.directory (add (d.inside name) e names)) := by
  rw [add]
  exact nonempty

/-- Adding over what was added before. -/
theorem add_add (d : Directory) (e e' : Entry) (names : List (List Char)) :
    (d.add e names).add e' names = d.add e' names := by
  fun_induction add d e names with
  | case1 d => rfl
  | case2 d name => exact set_set d name e e'
  | case3 d name names nonempty ih =>
      have inner := inside_eq (d.lookup_set name (.directory (add (d.inside name) e names)))
      rw [add_cons _ e' name nonempty, inner, ih, set_set, add_cons d e' name nonempty]

theorem addsFile_add {d inner : Directory} {front : List (List Char)} {name : List Char}
    (content : List UInt8) (there : (Entry.directory d).under front = some (.directory inner))
    (free : inner.lookup name = none) :
    AddsFile content d (front ++ [name]) (d.add (.file content) (front ++ [name])) := by
  induction front generalizing d with
  | nil =>
      cases there
      change AddsFile content inner [name] (inner.set name (.file content))
      rw [set_of_lookup_none free]
      exact .own free
  | cons first front ih =>
      obtain ⟨e, stands, hunder⟩ := Option.bind_eq_some_iff.mp there
      -- Only a directory has a directory under it or in its place.
      obtain ⟨entries, rfl⟩ : ∃ entries, e = .directory entries := by
        cases e with
        | directory entries => exact ⟨entries, rfl⟩
        | _ => cases front <;> cases hunder
      rw [List.cons_append, add_cons _ _ _ (by simp), inside_eq stands]
      exact .inside stands (ih hunder)

namespace AddsFile

variable {content : List UInt8} {d after : Directory} {names : List (List Char)}

theorem under_self (h : AddsFile content d names after) :
    (Entry.directory after).under names = some (.file content) := by
  induction h with
  | @own d name free => simp [Entry.under, List.lookup_append, free]
  | inside there added ih =>
      rw [Entry.under, lookup_set]
      exact ih

theorem under_other (h : AddsFile content d names after) {others : List (List Char)} {e : Entry}
    (stands : (Entry.directory d).under others = some e) :
    ∃ e', (Entry.directory after).under others = some e' ∧ e.Alike e' := by
  induction h generalizing others with
  | @own d name free =>
      cases others with
      | nil => cases stands; exact ⟨_, rfl, .directories _ _⟩
      | cons first others =>
          obtain ⟨found, hfound, hunder⟩ := Option.bind_eq_some_iff.mp stands
          exact ⟨e, by simp [Entry.under, List.lookup_append, hfound, hunder], .same e⟩
  | @inside d inner inner' name names there added ih =>
      cases others with
      | nil => cases stands; exact ⟨_, rfl, .directories _ _⟩
      | cons first others =>
          obtain ⟨found, hfound, hunder⟩ := Option.bind_eq_some_iff.mp stands
          by_cases same : first = name
          · subst same
            obtain rfl := Option.some.inj (there.symm.trans hfound)
            obtain ⟨e', hunder', alike⟩ := ih hunder
            exact ⟨e', by rw [Entry.under, lookup_set]; exact hunder', alike⟩
          · exact ⟨e, by rw [Entry.under, lookup_set_of_ne d same, hfound]; exact hunder, .same e⟩

end AddsFile

/-- A directory stands at the place. -/
def HoldsDirectory (d : Directory) (p : Place) : Prop :=
  ∃ inner, d.entryAt p = some (.directory inner)

theorem HoldsDirectory.above {d : Directory} {p : Place} (h : d.HoldsDirectory p) :
    d.HoldsDirectory p.above := by
  obtain ⟨inner, stands⟩ := h
  match p with
  | none => exact ⟨[], rfl⟩
  | some [] => exact ⟨[], rfl⟩
  | some (name :: names) =>
      rw [entryAt, List.reverse_cons, Entry.under_append] at stands
      obtain ⟨e, hunder, hname⟩ := Option.bind_eq_some_iff.mp stands
      cases e with
      | directory entries => exact ⟨entries, hunder⟩
      | _ => cases hname

/-- Where a walk ends short of an entry, it is in a directory. -/
def EndsInDirectory (d : Directory) : Arrival → Prop
  | .found _ => True
  | .free p name _ => d.HoldsDirectory p ∧ d.child? p name = none
  | .link p _ _ => d.HoldsDirectory p

theorem walk_endsInDirectory {d : Directory} {p : Place} {names : List (List Char)}
    {arrival : Arrival} (h : d.HoldsDirectory p) (walked : d.walk p names = .ok arrival) :
    d.EndsInDirectory arrival := by
  fun_induction walk d p names with
  | case1 => cases walked; trivial
  | case2 p name rest hstay ih => exact ih h walked
  | case3 p rest hstay ih => exact ih h.above walked
  | case4 => cases walked
  | case5 p name rest _ _ _ free => cases walked; exact ⟨h, free⟩
  | case6 => cases walked; exact h
  | case7 p name rest _ _ _ entries there ih =>
      refine ih ?_ walked
      cases p with
      | none => cases there
      | some names => exact ⟨entries, there⟩
  | case8 => cases walked; trivial
  | case9 => cases walked

theorem follow_endsInDirectory {d : Directory} {links : Nat} {p : Place}
    {names : List (List Char)} {arrival : Arrival} (h : d.HoldsDirectory p)
    (followed : d.follow links p names = .ok arrival) : d.EndsInDirectory arrival := by
  induction links generalizing p names with
  | zero => exact walk_endsInDirectory h followed
  | succ links ih =>
      rw [follow] at followed
      split at followed
      · next p' target rest walked =>
          have hlink : d.HoldsDirectory p' := walk_endsInDirectory h walked
          refine ih ?_ followed
          rw [Place.start]
          split
          · exact ⟨[], rfl⟩
          · exact hlink
      · exact walk_endsInDirectory h followed

theorem arrive_endsInDirectory {d : Directory} {path : Path} {arrival : Arrival}
    (arrived : d.arrive path = .ok arrival) : d.EndsInDirectory arrival := by
  unfold arrive at arrived
  split at arrived
  · cases arrived
  · split at arrived
    · cases arrived
    · refine follow_endsInDirectory ?_ arrived
      rw [Place.start]
      split
      · exact ⟨[], rfl⟩
      · exact ⟨d, rfl⟩

section Simulation

variable {content : List UInt8} {d after : Directory} {place : List (List Char)} {name : List Char}

/-- What stands at other places is alike. -/
theorem AddsFile.child?_other (h : AddsFile content d (name :: place).reverse after) {p : Place}
    {other : List Char} {e : Entry} (stands : d.child? p other = some e) :
    ∃ e', after.child? p other = some e' ∧ e.Alike e' := by
  obtain ⟨names, rfl, hstands⟩ := Option.bind_eq_some_iff.mp stands
  exact h.under_other hstands

/-- A walk to the free place goes on to the file, and one to a link still comes to it. -/
theorem AddsFile.walk (h : AddsFile content d (name :: place).reverse after) {p : Place}
    {names : List (List Char)} {arrival : Arrival} (walked : d.walk p names = .ok arrival) :
    (arrival = .free (some place) name [] →
        after.walk p names = .ok (.found (some (name :: place)))) ∧
      ∀ p' target rest, arrival = .link p' target rest →
        after.walk p names = .ok (.link p' target rest) := by
  fun_induction Directory.walk d p names with
  | case1 => cases walked; simp
  | case2 p other rest stay ih => simpa only [Directory.walk, stay, if_true] using ih walked
  | case3 p rest stay ih => simpa only [Directory.walk, stay, if_false, if_true] using ih walked
  | case4 => cases walked
  | case5 p other rest stay up short free =>
      cases walked
      refine ⟨fun hfree => ?_, by simp⟩
      cases hfree
      have stands : after.child? (some place) name = some (.file content) := h.under_self
      rw [Directory.walk, if_neg stay, if_neg up, if_neg short, stands]
      rfl
  | case6 p other rest stay up short target there =>
      cases walked
      obtain ⟨e', there', alike⟩ := h.child?_other there
      cases alike
      rw [Directory.walk, if_neg stay, if_neg up, if_neg short, there']
      simp
  | case7 p other rest stay up short entries there ih =>
      obtain ⟨e', there', alike⟩ := h.child?_other there
      rw [Directory.walk.eq_def after]
      cases alike <;> simpa only [stay, up, short, there', if_false] using ih walked
  | case8 => cases walked; simp
  | case9 => cases walked

theorem AddsFile.follow (h : AddsFile content d (name :: place).reverse after) {links : Nat}
    {p : Place} {names : List (List Char)}
    (free : d.follow links p names = .ok (.free (some place) name [])) :
    after.follow links p names = .ok (.found (some (name :: place))) := by
  induction links generalizing p names with
  | zero => exact (h.walk free).1 rfl
  | succ links ih =>
      rw [Directory.follow] at free ⊢
      split at free
      · next p' target rest walked =>
          rw [(h.walk walked).2 p' target rest rfl]
          exact ih free
      · rw [(h.walk free).1 rfl]

/-- A path that led to the free place leads to the file afterwards. -/
theorem AddsFile.entry_eq {path : Path} (h : AddsFile content d (name :: place).reverse after)
    (free : d.arrive path = .ok (.free (some place) name [])) :
    after.entry path = .ok (.file content) := by
  have arrived : after.arrive path = .ok (.found (some (name :: place))) := by
    unfold arrive at free ⊢
    split at free
    · cases free
    · next nonempty =>
        split at free
        · cases free
        · next short => rw [if_neg nonempty, if_neg short, h.follow free]
  have stands : after.entryAt (some (name :: place)) = some (.file content) := h.under_self
  simp only [entry, arrived, stands, Option.elim_some]

/-- What is written for a path at a free place is added there, in the directory that it is in. -/
theorem addsFile_of_free {path : Path}
    (free : d.arrive path = .ok (.free (some place) name [])) (content : List UInt8) :
    AddsFile content d (name :: place).reverse (d.add (.file content) (name :: place).reverse) := by
  obtain ⟨⟨inner, there⟩, vacant⟩ := arrive_endsInDirectory free
  rw [List.reverse_cons]
  refine addsFile_add content there ?_
  change d.entryAt (some (name :: place)) = none at vacant
  rw [entryAt, List.reverse_cons, Entry.under_append] at vacant
  rw [entryAt] at there
  rw [there] at vacant
  simpa [Entry.under] using vacant

end Simulation

/-- Where nothing is found, a file is written at a free place. -/
theorem free_of_target {d : Directory} {path : Path} {names : List (List Char)}
    (absent : Files.isPresent d.read path = false) (h : d.target path = .ok names) :
    ∃ place name, d.arrive path = .ok (.free (some place) name []) ∧
      names = (name :: place).reverse := by
  unfold target at h
  split at h
  · next place name arrived => cases h; exact ⟨place, name, arrived, rfl⟩
  · cases h
  · split at h <;> cases h
  · next p arrived =>
      split at h
      · next place content stands =>
          -- A file that is found is present.
          rw [Files.isPresent, kind?_read, entry, arrived] at absent
          simp only [stands, Option.elim_some] at absent
          cases absent
      · cases h
      · cases h
  · cases h
  · cases h

end Directory
end LiquidsoapHighlight
