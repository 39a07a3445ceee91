import LiquidsoapHighlight.Regex.Reader

/-!
Reading a source inside a group. One that can be read alone stays whole there: the bracket that
closes the group after it is read as such, and what comes before it is read as it is alone.
-/

namespace LiquidsoapHighlight
namespace Regex

/-- A closing bracket after a text does not add to signs that the text begins with. -/
theorem exists_rest_of_append_closing (signs : List Char) {source rest : List Char}
    (h : source ++ [')'] = signs ++ rest) (hs : ')' ∉ signs) :
    ∃ rest, source = signs ++ rest := by
  obtain hwhole | ⟨rest, hrest⟩ := List.prefix_concat_iff.mp ⟨rest, h.symm⟩
  · exact absurd (by simp [hwhole]) hs
  · exact ⟨rest, hrest.symm⟩

/-- To a single character, a closing bracket after it is the same as the end of the text. -/
theorem sign?_append_closing (c : Char) (source : List Char) :
    sign? c (source ++ [')']).head? = sign? c source.head? := by
  cases source with
  | nil => simp [sign?]
  | cons d rest => rfl

theorem addSign?_append_closing (s : OpenClass) (c : Char) (source : List Char) :
    s.addSign? c (source ++ [')']).head? = s.addSign? c source.head? := by
  cases source with
  | nil => simp [OpenClass.addSign?]
  | cons d rest => rfl

/-- A text that ends outside of all classes keeps its lexemes before a closing bracket. -/
theorem lexemes?_append_closing {s : Option OpenClass} {source : List Char} {ls : List Lexeme}
    (h : lexemes? s source = some ls) :
    lexemes? s (source ++ [')']) = some (ls ++ [.closing]) := by
  fun_induction lexemes? s source generalizing ls with
  | case1 =>
      obtain rfl := Option.some.inj h
      rfl
  | case2 => cases h
  | case3 c rest ih =>
      simp only [Option.bind_eq_bind, Option.bind_eq_some_iff] at h
      obtain ⟨r, hr, tail, htail, hls⟩ := h
      obtain rfl := Option.some.inj hls
      rw [List.cons_append, List.cons_append, lexemes?, hr, ih htail]
      rfl
  | case4 rest ih | case5 rest ih =>
      obtain ⟨tail, htail, rfl⟩ := Option.map_eq_some_iff.mp h
      simp only [List.cons_append, lexemes?]
      rw [ih htail]
      rfl
  | case6 rest ih =>
      simp only [List.cons_append, lexemes?]
      exact ih h
  | case7 rest hnot ih =>
      rw [List.cons_append, lexemes?.eq_7]
      · exact ih h
      · intro _ hr
        obtain ⟨rest', hrest⟩ := exists_rest_of_append_closing ['^'] hr (by decide)
        exact hnot rest' hrest
  | case8 c rest hescape hplain hdot hnegated hclass ih =>
      simp only [Option.bind_eq_bind, Option.bind_eq_some_iff] at h
      obtain ⟨l, hl, tail, htail, hls⟩ := h
      obtain rfl := Option.some.inj hls
      rw [List.cons_append, lexemes?.eq_8, sign?_append_closing, hl, ih htail]
      · rfl
      -- Still no longer form begins at the character.
      · rintro _ _ rfl _
        simp [sign?] at hl
      · intro _ hc hr
        obtain ⟨rest', hrest⟩ := exists_rest_of_append_closing ['?', ':'] hr (by decide)
        exact hplain rest' hc hrest
      · intro _ hc hr
        obtain ⟨rest', hrest⟩ := exists_rest_of_append_closing ['?', 's', ':'] hr (by decide)
        exact hdot rest' hc hrest
      · exact fun _ hc _ => hclass hc
      · exact hclass
  | case9 s c rest ih =>
      obtain ⟨s', hs, htail⟩ := Option.bind_eq_some_iff.mp h
      rw [List.cons_append, List.cons_append, lexemes?, hs]
      exact ih s' htail
  | case10 s rest ih =>
      obtain ⟨tail, htail, rfl⟩ := Option.map_eq_some_iff.mp h
      simp only [List.cons_append, lexemes?]
      rw [ih htail]
      rfl
  | case11 s rest hfirst ih =>
      rw [List.cons_append, lexemes?, if_pos hfirst]
      exact ih h
  | case12 s rest hlater ih =>
      obtain ⟨tail, htail, rfl⟩ := Option.map_eq_some_iff.mp h
      rw [List.cons_append, lexemes?, if_neg hlater, ih htail]
      rfl
  | case13 s c rest hescape hdash hend ih =>
      obtain ⟨s', hs, htail⟩ := Option.bind_eq_some_iff.mp h
      rw [List.cons_append, lexemes?.eq_12, addSign?_append_closing, hs]
      · exact ih s' htail
      · rintro _ _ rfl _
        simp [OpenClass.addSign?] at hs
      · intro _ hc hr
        obtain ⟨rest', hrest⟩ := exists_rest_of_append_closing [']'] hr (by decide)
        exact hdash rest' hc hrest
      · exact hend

/-- What reads as a whole by itself becomes one item of a group around it. -/
theorem ofLexemes?_append_closing {g h result : Group} (outer : List Group) {ls : List Lexeme}
    (hread : ofLexemes? g outer ls = some result) :
    ofLexemes? g (outer ++ [h]) (ls ++ [.closing]) = some (h.add result.toRegex) := by
  fun_induction ofLexemes? g outer ls with
  | case1 g =>
      obtain rfl := Option.some.inj hread
      rfl
  | case2 | case7 => cases hread
  | case3 g outer _ rest ih | case5 g outer _ rest ih =>
      rw [List.cons_append, ofLexemes?]
      exact ih hread
  | case4 g outer rest ih | case6 g outer rest ih | case9 g outer rest ih =>
      rw [List.cons_append, ofLexemes?]
      exact ih hread
  | case8 g inner outer rest ih => exact ih hread
  | case10 g outer rest ih | case11 g outer rest ih | case12 g outer rest ih =>
      obtain ⟨g', hg, htail⟩ := Option.bind_eq_some_iff.mp hread
      rw [List.cons_append, ofLexemes?, hg]
      exact ih g' htail

/-- A source that can be read alone is read the same inside the group that binds it to the start of
a text, and no branch of it gets out of that group. -/
theorem readAnchored?_of_read? {source : List Char} {r : Regex} (h : read? source = some r) :
    readAnchored? (anchored source) = some (concatenation [r], none) := by
  obtain ⟨g, hg, rfl⟩ := Option.map_eq_some_iff.mp h
  obtain ⟨ls, hls, hread⟩ := Option.bind_eq_some_iff.mp hg
  have hlexemes : lexemes? none ("(?:".toList ++ source ++ [')']) =
      some (.opening false :: (ls ++ [.closing])) := by
    change (lexemes? none (source ++ [')'])).map _ = _
    rw [lexemes?_append_closing hls]
    rfl
  have hall : readAll? ("(?:".toList ++ source ++ [')']) =
      some ((Group.start false false).add g.toRegex) := by
    rw [readAll?, hlexemes]
    exact ofLexemes?_append_closing [] hread
  change readAnchored? ('\\' :: 'A' :: ("(?:".toList ++ source ++ [')'])) = _
  rw [readAnchored?, hall]
  rfl

end Regex
end LiquidsoapHighlight
