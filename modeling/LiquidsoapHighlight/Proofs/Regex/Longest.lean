import Mathlib.Data.List.Sublists
import LiquidsoapHighlight.Proofs.Regex.Continuation

/-!
Expressions whose preferred match is the longest. The threads that can be alive together are found
by going through the expression once; where none of them is ever given up for a match of higher
preference, the match is the longest word of the expression at the start of the text.
-/

namespace LiquidsoapHighlight

/-- The word is one of the language that the text starts with, and none of these is longer. -/
structure LongestWord (l : Language Char) (text w : List Char) : Prop where
  mem : w ∈ l
  starts : w <+: text
  longest : ∀ v ∈ l, v <+: text → v.length ≤ w.length

theorem LongestWord.unique {l : Language Char} {text v w : List Char} (hv : LongestWord l text v)
    (hw : LongestWord l text w) : v = w := by
  have hle := hw.longest v hv.mem hv.starts
  have hge := hv.longest w hw.mem hw.starts
  exact (List.prefix_of_prefix_length_le hv.starts hw.starts hle).eq_of_length (by omega)

/-- A longest word cannot go on. -/
theorem LongestWord.eq_nil_of_append {l : Language Char} {text w more : List Char}
    (h : LongestWord l text w) (hmem : w ++ more ∈ l) (hstarts : w ++ more <+: text) :
    more = [] := by
  have hle := h.longest _ hmem hstarts
  rw [List.length_append] at hle
  exact List.eq_nil_of_length_eq_zero (by omega)

namespace Regex

/-- The first characters of an expression's words, each with what is left to be matched after it. -/
def heads : Regex → Address → Thread → List (CharClass × Thread)
  | empty, _, _ => []
  | oneOf s, _, t => [(s, t)]
  | boundary, _, _ => []
  | seq r s, a, t =>
    heads r (false :: a) (.start (true :: a) s :: t) ++
      if fewest r = 0 then heads s (true :: a) t else []
  | alt r s, a, t => heads r (false :: a) t ++ heads s (true :: a) t
  | opt r, a, t => heads r (false :: a) t
  | star r, a, t => heads r (false :: a) (.again a r :: t)
  | plus r, a, t => heads r (false :: a) (.again a r :: t)
  | capture r, a, t => heads r (false :: a) t

def Thread.heads : Thread → List (CharClass × Thread)
  | [] => []
  | .start a r :: t => r.heads a t ++ if fewest r = 0 then Thread.heads t else []
  | .again a r :: t => r.heads (false :: a) (.again a r :: t) ++ Thread.heads t

def Task.canEnd : Task → Bool
  | .start _ r => r.fewest = 0
  | .again _ _ => true

/-- One of the items takes the first character of the text, and what is left after it can take the
others. -/
def CanTake (items : List (CharClass × Thread)) (text : List Char) : Prop :=
  ∃ c rest, text = c :: rest ∧
    ∃ item ∈ items, item.1.contains c = true ∧ rest ∈ Thread.words item.2

theorem CanTake.mono {items more : List (CharClass × Thread)} {text : List Char}
    (h : CanTake items text) (hm : items ⊆ more) : CanTake more text := by
  obtain ⟨c, rest, htext, item, hitem, htakes⟩ := h
  exact ⟨c, rest, htext, item, hm hitem, htakes⟩

theorem fewest_eq_zero {r : Regex} (h : [] ∈ r.words) : r.fewest = 0 :=
  Nat.le_zero.mp (fewest_le_length h)

theorem Thread.append_mem_words (task : Task) {t : Thread} {u v : List Char} (hu : u ∈ task.words)
    (hv : v ∈ Thread.words t) : u ++ v ∈ Thread.words (task :: t) := by
  rw [Thread.words_cons]
  exact Language.append_mem_mul hu hv

theorem canTake_heads {r : Regex} {w : List Char} (h : w ∈ r.words) (hne : w ≠ []) (a : Address)
    {t : Thread} {x : List Char} (hx : x ∈ Thread.words t) : CanTake (heads r a t) (w ++ x) := by
  induction h using words_induction generalizing a t x with
  | empty | boundary | skip _ | done _ => exact absurd rfl hne
  | oneOf s c hc => exact ⟨c, x, rfl, (s, t), List.mem_singleton_self _, hc, hx⟩
  | seq r s u v hu hv ihu ihv =>
      by_cases hnil : u = []
      · subst hnil
        rw [heads, if_pos (fewest_eq_zero hu)]
        exact (ihv hne _ hx).mono (List.subset_append_right _ _)
      · have hlater := ihu hnil (false :: a) (Thread.append_mem_words
          (.start (true :: a) s) hv hx)
        rw [List.append_assoc]
        exact hlater.mono (List.subset_append_left _ _)
  | left r s w _ ih => exact (ih hne _ hx).mono (List.subset_append_left _ _)
  | right r s w _ ih => exact (ih hne _ hx).mono (List.subset_append_right _ _)
  | once r w _ ih | group r w _ ih => exact ih hne _ hx
  | again r u v _ hv ihu ihv | first r u v _ hv ihu ihv =>
      by_cases hnil : u = []
      · subst hnil
        exact ihv hne a hx
      · rw [List.append_assoc]
        exact ihu hnil (false :: a) (Thread.append_mem_words (.again a r) hv hx)

theorem Thread.canTake_heads {t : Thread} {w : List Char} (h : w ∈ Thread.words t)
    (hne : w ≠ []) : CanTake (Thread.heads t) w := by
  induction t generalizing w with
  | nil => exact absurd h hne
  | cons task t ih =>
      rw [Thread.words_cons, Language.mem_mul] at h
      obtain ⟨u, hu, v, hv, rfl⟩ := h
      cases task with
      | start a r =>
          by_cases hnil : u = []
          · subst hnil
            rw [Thread.heads, if_pos (fewest_eq_zero hu)]
            exact (ih hv hne).mono (List.subset_append_right _ _)
          · exact (Regex.canTake_heads hu hnil a hv).mono (List.subset_append_left _ _)
      | again a r =>
          by_cases hnil : u = []
          · subst hnil
            exact (ih hv hne).mono (List.subset_append_right _ _)
          · have hstar : u ∈ (star r).words := hu
            exact (Regex.canTake_heads hstar hnil a hv).mono (List.subset_append_left _ _)

theorem Thread.canEnd_of_nil_mem {t : Thread} (h : [] ∈ Thread.words t) :
    t.all Task.canEnd = true := by
  induction t with
  | nil => rfl
  | cons task t ih =>
      rw [Thread.words_cons, Language.mem_mul] at h
      obtain ⟨u, hu, v, hv, happ⟩ := h
      obtain ⟨rfl, rfl⟩ := List.append_eq_nil_iff.mp happ
      rw [List.all_cons, ih hv, Bool.and_true]
      cases task with
      | start a r => exact decide_eq_true (fewest_eq_zero hu)
      | again a r => rfl

namespace Frontier

/-- All ways in which the threads can go on are there, and the end if one of them can end. -/
def keeps (f : Frontier) (threads : List Thread) : Bool :=
  threads.all fun t =>
    (Thread.heads t).all f.waiting.contains && (f.accepted || !t.all Task.canEnd)

/-- The threads that a character may leave. Those of classes without a common character never go on
together. -/
def successors (f : Frontier) : List (List Thread) :=
  (f.waiting.reverse.sublists.filter fun items =>
    items.all fun item => items.all fun other => !item.1.disjoint other.1).map (List.map Prod.snd)

theorem accepted_of_keeps {f : Frontier} {threads : List Thread} (h : f.keeps threads = true)
    {t : Thread} (ht : t ∈ threads) (hnil : [] ∈ Thread.words t) : f.accepted = true := by
  have hkept := List.all_eq_true.mp h t ht
  rw [Bool.and_eq_true, Thread.canEnd_of_nil_mem hnil, Bool.not_true, Bool.or_false] at hkept
  exact hkept.2

theorem canTake_of_keeps {f : Frontier} {threads : List Thread} (h : f.keeps threads = true)
    {t : Thread} (ht : t ∈ threads) {w : List Char} (hw : w ∈ Thread.words t) (hne : w ≠ []) :
    CanTake f.waiting w := by
  have hkept := List.all_eq_true.mp h t ht
  rw [Bool.and_eq_true, List.all_eq_true] at hkept
  refine (Thread.canTake_heads hw hne).mono fun item hitem => ?_
  exact List.contains_iff_mem.mp (hkept.1 item hitem)

theorem advance_mem_successors (f : Frontier) (c : Char) : f.advance c ∈ f.successors := by
  have hadvance : f.advance c =
      (f.waiting.reverse.filter fun item => item.1.contains c).map Prod.snd := by
    rw [advance, ← List.filterMap_eq_map, List.filterMap_filter]
    rfl
  rw [hadvance]
  refine List.mem_map_of_mem (List.mem_filter.mpr ⟨?_, ?_⟩)
  · exact List.mem_sublists.mpr List.filter_sublist
  · simp only [List.all_eq_true, List.mem_filter, Bool.not_eq_true']
    rintro item ⟨_, hitem⟩ other ⟨_, hother⟩
    by_contra hdisjoint
    rw [Bool.not_eq_false] at hdisjoint
    rw [CharClass.not_contains_of_disjoint hdisjoint hitem] at hother
    cases hother

end Frontier

/-- What is known of the threads, whether there is a boundary or not. -/
def frontiers (threads : List Thread) : List Frontier :=
  [true, false].map fun atBoundary => frontier atBoundary threads

/-- Nothing is given up in any of the states, and each character leads to another one of them. -/
def settled (states : List (List Thread)) : Bool :=
  states.all fun threads => (frontiers threads).all fun f =>
    f.keeps threads && f.successors.all states.contains

/-- The states that some states lead to in a number of rounds. -/
def statesFrom : Nat → List (List Thread) → List (List Thread)
  | 0, states => states
  | rounds + 1, states =>
    statesFrom rounds
      (states ++ states.flatMap fun t => (frontiers t).flatMap Frontier.successors).dedup

/-- No thread is ever given up when the expression is matched. -/
def takesLongest (r : Regex) : Bool :=
  let states := statesFrom r.chars.length [[[.start [] r]]]
  states.contains [[.start [] r]] && settled states

theorem settled_frontier {states : List (List Thread)} (h : settled states = true)
    {threads : List Thread} (ht : threads ∈ states) (atBoundary : Bool) :
    (frontier atBoundary threads).keeps threads = true ∧
      ∀ c, (frontier atBoundary threads).advance c ∈ states := by
  have hf : frontier atBoundary threads ∈ frontiers threads :=
    List.mem_map_of_mem (by cases atBoundary <;> decide)
  have hstate := List.all_eq_true.mp (List.all_eq_true.mp h threads ht) _ hf
  rw [Bool.and_eq_true, List.all_eq_true] at hstate
  refine ⟨hstate.1, fun c => ?_⟩
  exact List.contains_iff_mem.mp (hstate.2 _ (Frontier.advance_mem_successors _ c))

/-- A match takes no less than any word of the threads that the text starts with. -/
theorem exists_le_follow {states : List (List Thread)} (h : settled states = true)
    {threads : List Thread} (ht : threads ∈ states) (before : Option Char) (count : Nat)
    (best : Option Nat) {t : Thread} (hmem : t ∈ threads) {w rest : List Char}
    (hw : w ∈ Thread.words t) :
    ∃ n, follow threads before count best (w ++ rest) = some n ∧ count + w.length ≤ n := by
  induction w generalizing threads before count best t with
  | nil =>
      have haccepted := fun atBoundary =>
        Frontier.accepted_of_keeps (settled_frontier h ht atBoundary).1 hmem hw
      cases rest with
      | nil => exact ⟨count, by simp [follow, haccepted], Nat.le_refl _⟩
      | cons c rest =>
          simp only [List.nil_append, follow, haccepted, if_true]
          split
          · exact ⟨count, rfl, Nat.le_refl _⟩
          · obtain hsame | ⟨taken, hlater⟩ := follow_eq_or
              ((frontier (isBoundary before (some c)) threads).advance c) (some c) (count + 1)
              (some count) rest
            · exact ⟨count, hsame, Nat.le_refl _⟩
            · exact ⟨_, hlater, by simp only [List.length_nil]; omega⟩
  | cons c w ih =>
      simp only [List.cons_append, follow]
      obtain ⟨hkeeps, hnext⟩ := settled_frontier h ht (isBoundary before (some c))
      generalize frontier (isBoundary before (some c)) threads = f at hkeeps hnext
      obtain ⟨_, _, heq, item, hitem, hc, hrest⟩ :=
        Frontier.canTake_of_keeps hkeeps hmem hw (List.cons_ne_nil c w)
      obtain ⟨rfl, rfl⟩ := List.cons.inj heq
      have hgoes : item.2 ∈ f.advance c :=
        List.mem_filterMap.mpr ⟨item, List.mem_reverse.mpr hitem, if_pos hc⟩
      have hwaits : ¬ f.waiting.isEmpty = true := by
        rw [List.isEmpty_iff]
        exact List.ne_nil_of_mem hitem
      rw [if_neg hwaits]
      obtain ⟨n, hn, hle⟩ := ih (hnext c) (some c) (count + 1)
        (if f.accepted = true then some count else best) hgoes hrest
      exact ⟨n, hn, by rw [List.length_cons]; omega⟩

theorem exists_le_matchCount? {r : Regex} (h : r.takesLongest = true) {w text : List Char}
    (hw : w ∈ r.words) (htext : w <+: text) :
    ∃ n, r.matchCount? text = some n ∧ w.length ≤ n := by
  obtain ⟨hstart, hsettled⟩ := Bool.and_eq_true_iff.mp h
  obtain ⟨rest, rfl⟩ := htext
  have hthread : w ∈ Thread.words [.start [] r] := by
    rwa [Thread.words_cons, Thread.words_nil, mul_one]
  obtain ⟨n, hn, hle⟩ := exists_le_follow hsettled (List.contains_iff_mem.mp hstart) none 0 none
    List.mem_cons_self hthread
  exact ⟨n, hn, by omega⟩

/-- What is matched is the longest word that the text starts with. -/
theorem matchCount?_eq_some_iff {r : Regex} (h : r.takesLongest = true) {text : List Char}
    {n : Nat} : r.matchCount? text = some n ↔
      ∃ w, LongestWord r.words text w ∧ n = w.length := by
  constructor
  · intro hn
    have hlength := List.length_take_of_le (matchCountAfter?_le_length hn)
    refine ⟨text.take n, ⟨take_mem_words hn, List.take_prefix n text, ?_⟩, hlength.symm⟩
    intro v hv hvt
    obtain ⟨m, hm, hle⟩ := exists_le_matchCount? h hv hvt
    obtain rfl := Option.some.inj (hn.symm.trans hm)
    rwa [hlength]
  · rintro ⟨w, hw, rfl⟩
    obtain ⟨n, hn, hle⟩ := exists_le_matchCount? h hw.mem hw.starts
    have hge := hw.longest _ (take_mem_words hn) (List.take_prefix n text)
    rw [List.length_take_of_le (matchCountAfter?_le_length hn)] at hge
    rw [hn, Nat.le_antisymm hge hle]

end Regex
end LiquidsoapHighlight
