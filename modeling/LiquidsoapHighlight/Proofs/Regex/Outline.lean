import LiquidsoapHighlight.Proofs.Regex.Words

/-!
What can be read off an expression about all of its words: bounds on their length, and the classes
that their characters are in, place by place and altogether. From this follows, for some pairs of
expressions, that at no text a word of the second is longer than one of the first.
-/

namespace LiquidsoapHighlight

namespace Regex

open CharClass (AnyContains allDisjoint)

/-- The fewest characters of a word. -/
def fewest : Regex → Nat
  | empty => 0
  | oneOf _ => 1
  | boundary => 0
  | seq r s => fewest r + fewest s
  | alt r s => min (fewest r) (fewest s)
  | opt _ => 0
  | star _ => 0
  | plus r => fewest r
  | capture r => fewest r

/-- The most characters of a word, if there is a bound. -/
def most? : Regex → Option Nat
  | empty => some 0
  | oneOf _ => some 1
  | boundary => some 0
  | seq r s => do return (← most? r) + (← most? s)
  | alt r s => do return max (← most? r) (← most? s)
  | opt r => most? r
  | star _ => none
  | plus _ => none
  | capture r => most? r

/-- The classes of the characters of words. -/
def chars : Regex → List CharClass
  | empty => []
  | oneOf s => [s]
  | boundary => []
  | seq r s => chars r ++ chars s
  | alt r s => chars r ++ chars s
  | opt r => chars r
  | star r => chars r
  | plus r => chars r
  | capture r => chars r

/-- The classes of the character at a place of a word. -/
def charsAt : Nat → Regex → List CharClass
  | _, empty => []
  | 0, oneOf s => [s]
  | _ + 1, oneOf _ => []
  | _, boundary => []
  | i, seq r s =>
    charsAt i r ++ (List.range (i + 1)).flatMap fun j =>
      if fewest r ≤ j && (most? r).all (j ≤ ·) then charsAt (i - j) s else []
  | i, alt r s => charsAt i r ++ charsAt i s
  | i, opt r => charsAt i r
  | i, star r => (List.range (i + 1)).flatMap fun j => charsAt j r
  | i, plus r => (List.range (i + 1)).flatMap fun j => charsAt j r
  | i, capture r => charsAt i r

/-- Classes of which each word has a character, for each item of the list. -/
def needs : Regex → List (List CharClass)
  | empty => []
  | oneOf s => [[s]]
  | boundary => []
  | seq r s => needs r ++ needs s
  | alt r s => (needs r).flatMap fun classes => (needs s).map fun others => classes ++ others
  | opt _ => []
  | star _ => []
  | plus r => needs r
  | capture r => needs r

/-- The classes of the last characters of words. -/
def lasts : Regex → List CharClass
  | empty => []
  | oneOf s => [s]
  | boundary => []
  | seq r s => if fewest s = 0 then lasts r ++ lasts s else lasts s
  | alt r s => lasts r ++ lasts s
  | opt r => lasts r
  | star r => lasts r
  | plus r => lasts r
  | capture r => lasts r

theorem fewest_le_length {r : Regex} {w : List Char} (h : w ∈ r.words) :
    r.fewest ≤ w.length := by
  induction h using words_induction with
  | empty | boundary | skip _ | once _ _ _ _ | done _ | again _ _ _ _ _ _ _ => exact Nat.zero_le _
  | oneOf s c hc => exact Nat.le_refl 1
  | seq r s u v _ _ ihu ihv =>
      rw [List.length_append]
      exact Nat.add_le_add ihu ihv
  | left r s w _ ih => exact Nat.le_trans (Nat.min_le_left _ _) ih
  | right r s w _ ih => exact Nat.le_trans (Nat.min_le_right _ _) ih
  | first r u v _ _ ihu _ =>
      rw [List.length_append]
      exact Nat.le_trans ihu (Nat.le_add_right _ _)
  | group r w _ ih => exact ih

theorem length_le_most {r : Regex} {w : List Char} (h : w ∈ r.words) :
    ∀ n, r.most? = some n → w.length ≤ n := by
  induction h using words_induction with
  | empty | boundary | skip _ => exact fun n _ => Nat.zero_le n
  | oneOf s c hc =>
      intro n hn
      obtain rfl := Option.some.inj hn
      exact Nat.le_refl 1
  | seq r s u v _ _ ihu ihv =>
      intro n hn
      simp only [most?, Option.bind_eq_bind, Option.bind_eq_some_iff] at hn
      obtain ⟨a, ha, b, hb, hab⟩ := hn
      obtain rfl := Option.some.inj hab
      rw [List.length_append]
      exact Nat.add_le_add (ihu a ha) (ihv b hb)
  | left r s w _ ih =>
      intro n hn
      simp only [most?, Option.bind_eq_bind, Option.bind_eq_some_iff] at hn
      obtain ⟨a, ha, b, _, hab⟩ := hn
      obtain rfl := Option.some.inj hab
      exact Nat.le_trans (ih a ha) (Nat.le_max_left _ _)
  | right r s w _ ih =>
      intro n hn
      simp only [most?, Option.bind_eq_bind, Option.bind_eq_some_iff] at hn
      obtain ⟨a, _, b, hb, hab⟩ := hn
      obtain rfl := Option.some.inj hab
      exact Nat.le_trans (ih b hb) (Nat.le_max_right _ _)
  | once r w _ ih | group r w _ ih => exact ih
  | done _ | again _ _ _ _ _ _ _ | first _ _ _ _ _ _ _ => nofun

theorem anyContains_chars {r : Regex} {w : List Char} (h : w ∈ r.words) :
    ∀ c ∈ w, AnyContains r.chars c := by
  induction h using words_induction with
  | empty | boundary | skip _ | done _ => exact nofun
  | oneOf s c hc =>
      intro d hd
      obtain rfl := List.mem_singleton.mp hd
      exact ⟨s, List.mem_singleton_self s, hc⟩
  | seq r s u v _ _ ihu ihv =>
      intro c hc
      cases List.mem_append.mp hc with
      | inl hc => exact (ihu c hc).mono (List.subset_append_left _ _)
      | inr hc => exact (ihv c hc).mono (List.subset_append_right _ _)
  | left r s w _ ih => exact fun c hc => (ih c hc).mono (List.subset_append_left _ _)
  | right r s w _ ih => exact fun c hc => (ih c hc).mono (List.subset_append_right _ _)
  | once r w _ ih | group r w _ ih => exact ih
  | again r u v _ _ ihu ihv | first r u v _ _ ihu ihv =>
      intro c hc
      cases List.mem_append.mp hc with
      | inl hc => exact ihu c hc
      | inr hc => exact ihv c hc

theorem anyContains_needs {r : Regex} {w : List Char} (h : w ∈ r.words) :
    ∀ classes ∈ r.needs, ∃ c ∈ w, AnyContains classes c := by
  induction h using words_induction with
  | empty | boundary | skip _ | once _ _ _ _ | done _ | again _ _ _ _ _ _ _ => exact nofun
  | oneOf s c hc =>
      intro classes hs
      obtain rfl := List.mem_singleton.mp hs
      exact ⟨c, List.mem_singleton_self c, s, List.mem_singleton_self s, hc⟩
  | seq r s u v _ _ ihu ihv =>
      intro classes hs
      cases List.mem_append.mp hs with
      | inl hs =>
          obtain ⟨c, hc, ha⟩ := ihu classes hs
          exact ⟨c, List.mem_append_left v hc, ha⟩
      | inr hs =>
          obtain ⟨c, hc, ha⟩ := ihv classes hs
          exact ⟨c, List.mem_append_right u hc, ha⟩
  | left r s w _ ih =>
      intro classes hs
      obtain ⟨a, ha, hs⟩ := List.mem_flatMap.mp hs
      obtain ⟨b, _, rfl⟩ := List.mem_map.mp hs
      obtain ⟨c, hc, hac⟩ := ih a ha
      exact ⟨c, hc, hac.mono (List.subset_append_left _ _)⟩
  | right r s w _ ih =>
      intro classes hs
      obtain ⟨a, _, hs⟩ := List.mem_flatMap.mp hs
      obtain ⟨b, hb, rfl⟩ := List.mem_map.mp hs
      obtain ⟨c, hc, hbc⟩ := ih b hb
      exact ⟨c, hc, hbc.mono (List.subset_append_right _ _)⟩
  | first r u v _ _ ihu _ =>
      intro classes hs
      obtain ⟨c, hc, ha⟩ := ihu classes hs
      exact ⟨c, List.mem_append_left v hc, ha⟩
  | group r w _ ih => exact ih

theorem charsAt_subset_star {i j : Nat} (h : j ≤ i) (r : Regex) :
    charsAt j r ⊆ charsAt i (star r) := by
  intro s hs
  simp only [charsAt, List.mem_flatMap, List.mem_range]
  exact ⟨j, Nat.lt_succ_of_le h, hs⟩

theorem charsAt_star_mono {i j : Nat} (h : j ≤ i) (r : Regex) :
    charsAt j (star r) ⊆ charsAt i (star r) := by
  intro s hs
  simp only [charsAt, List.mem_flatMap, List.mem_range] at hs ⊢
  obtain ⟨k, hk, hs⟩ := hs
  exact ⟨k, by omega, hs⟩

theorem anyContains_charsAt {r : Regex} {w : List Char} (h : w ∈ r.words) :
    ∀ i c, w[i]? = some c → AnyContains (charsAt i r) c := by
  induction h using words_induction with
  | empty | boundary | skip _ | done _ => exact nofun
  | oneOf s c hc =>
      intro i d hd
      cases i with
      | zero =>
          obtain rfl := Option.some.inj hd
          exact ⟨s, by simp [charsAt], hc⟩
      | succ i => cases hd
  | seq r s u v hu _ ihu ihv =>
      intro i c hc
      simp only [charsAt]
      by_cases hi : i < u.length
      · rw [List.getElem?_append_left hi] at hc
        exact (ihu i c hc).mono (List.subset_append_left _ _)
      · rw [List.getElem?_append_right (Nat.le_of_not_lt hi)] at hc
        refine (ihv _ c hc).mono (List.subset_append_of_subset_right _ ?_)
        -- The place in the second word is counted from where the first one ends.
        have hsplit : (decide (r.fewest ≤ u.length) && r.most?.all (u.length ≤ ·)) = true := by
          simp only [Bool.and_eq_true, decide_eq_true_eq, Option.all_eq_true]
          exact ⟨fewest_le_length hu, fun n hn => length_le_most hu n hn⟩
        intro cls hcls
        refine List.mem_flatMap.mpr ⟨u.length, List.mem_range.mpr (by omega), ?_⟩
        rwa [if_pos hsplit]
  | left r s w _ ih =>
      intro i c hc
      simp only [charsAt]
      exact (ih i c hc).mono (List.subset_append_left _ _)
  | right r s w _ ih =>
      intro i c hc
      simp only [charsAt]
      exact (ih i c hc).mono (List.subset_append_right _ _)
  | once r w _ ih | group r w _ ih =>
      intro i c hc
      simp only [charsAt]
      exact ih i c hc
  | again r u v _ _ ihu ihv | first r u v _ _ ihu ihv =>
      intro i c hc
      change AnyContains (charsAt i (star r)) c
      by_cases hi : i < u.length
      · rw [List.getElem?_append_left hi] at hc
        exact (ihu i c hc).mono (charsAt_subset_star (Nat.le_refl i) r)
      · rw [List.getElem?_append_right (Nat.le_of_not_lt hi)] at hc
        exact (ihv _ c hc).mono (charsAt_star_mono (Nat.sub_le _ _) r)

theorem anyContains_lasts {r : Regex} {w : List Char} (h : w ∈ r.words) :
    ∀ c, w.getLast? = some c → AnyContains r.lasts c := by
  induction h using words_induction with
  | empty | boundary | skip _ | done _ => exact nofun
  | oneOf s c hc =>
      intro d hd
      obtain rfl := Option.some.inj hd
      exact ⟨s, List.mem_singleton_self s, hc⟩
  | seq r s u v _ hv ihu ihv =>
      intro c hc
      have hfewest := fewest_le_length hv
      rw [List.getLast?_append] at hc
      cases hl : v.getLast? with
      | none =>
          rw [hl, Option.none_or] at hc
          rw [List.getLast?_eq_none_iff.mp hl, List.length_nil, Nat.le_zero] at hfewest
          rw [lasts, if_pos hfewest]
          exact (ihu c hc).mono (List.subset_append_left _ _)
      | some d =>
          rw [hl, Option.some_or] at hc
          have hd := ihv c (hl.trans hc)
          rw [lasts]
          split
          · exact hd.mono (List.subset_append_right _ _)
          · exact hd
  | left r s w _ ih => exact fun c hc => (ih c hc).mono (List.subset_append_left _ _)
  | right r s w _ ih => exact fun c hc => (ih c hc).mono (List.subset_append_right _ _)
  | once r w _ ih | group r w _ ih => exact ih
  | again r u v _ _ ihu ihv | first r u v _ _ ihu ihv =>
      intro c hc
      rw [List.getLast?_append] at hc
      cases hl : v.getLast? with
      | none =>
          rw [hl, Option.none_or] at hc
          exact ihu c hc
      | some d =>
          rw [hl, Option.some_or] at hc
          exact ihv c (hl.trans hc)

/-- At no text a word of the second expression is longer than a word of the first. -/
def outlasts (r s : Regex) : Bool :=
  s.most?.any (· ≤ r.fewest) ||
    (List.range r.fewest).any (fun i => allDisjoint (r.charsAt i) (s.charsAt i)) ||
    r.needs.any fun classes => allDisjoint classes s.chars

theorem length_le_of_outlasts {r s : Regex} (h : r.outlasts s = true) {text u v : List Char}
    (hu : u ∈ r.words) (hv : v ∈ s.words) (hut : u <+: text) (hvt : v <+: text) :
    v.length ≤ u.length := by
  -- Otherwise the first word is the beginning of the second.
  by_contra hlt
  have huv : u <+: v := List.prefix_of_prefix_length_le hut hvt (by omega)
  simp only [outlasts, Bool.or_eq_true, List.any_eq_true] at h
  obtain (hmost | ⟨i, hi, hdisjoint⟩) | ⟨classes, hneeds, hdisjoint⟩ := h
  · obtain ⟨n, hn, hle⟩ := (Option.any_eq_true _ _).mp hmost
    have := length_le_most hv n hn
    have := fewest_le_length hu
    have := of_decide_eq_true hle
    omega
  · have hiu : i < u.length := Nat.lt_of_lt_of_le (List.mem_range.mp hi) (fewest_le_length hu)
    have hget : u[i]? = some u[i] := List.getElem?_eq_getElem hiu
    obtain ⟨rest, rfl⟩ := huv
    have hgetv : (u ++ rest)[i]? = some u[i] := (List.getElem?_append_left hiu).trans hget
    exact CharClass.not_anyContains hdisjoint (anyContains_charsAt hu i _ hget)
      (anyContains_charsAt hv i _ hgetv)
  · obtain ⟨c, hc, hcontains⟩ := anyContains_needs hu classes hneeds
    exact CharClass.not_anyContains hdisjoint hcontains (anyContains_chars hv c (huv.subset hc))

end Regex
end LiquidsoapHighlight
