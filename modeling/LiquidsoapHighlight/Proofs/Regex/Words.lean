import Mathlib.Computability.Language
import LiquidsoapHighlight.Proofs.Regex.Bounds
import LiquidsoapHighlight.Proofs.Regex.Classes

/-!
The words of an expression, as a language. Matching is sound for it: what a match takes is a word of
the expression. Which of the words at the start of a text is taken is left open here.
-/

namespace LiquidsoapHighlight
namespace Regex

open scoped Computability

/-- The texts that an expression describes. Boundaries are left aside, so that some of the words may
not match where they stand. -/
def words : Regex → Language Char
  | empty => 1
  | oneOf s => {w | ∃ c, s.contains c = true ∧ w = [c]}
  | boundary => 1
  | seq r s => words r * words s
  | alt r s => words r + words s
  | opt r => 1 + words r
  | star r => (words r)∗
  | plus r => words r * (words r)∗
  | capture r => words r

theorem append_mem_kstar {l : Language Char} {u v : List Char} (hu : u ∈ l) (hv : v ∈ l∗) :
    u ++ v ∈ l∗ := by
  obtain ⟨rounds, rfl, hr⟩ := Language.mem_kstar.mp hv
  exact Language.join_mem_kstar (L := u :: rounds) (List.forall_mem_cons.mpr ⟨hu, hr⟩)

/-- Words are made of words: of the parts of a sequence, of a branch, of the rounds of a
repetition. -/
theorem words_induction {motive : (r : Regex) → (w : List Char) → w ∈ r.words → Prop}
    (empty : motive empty [] rfl)
    (oneOf : ∀ s c (h : s.contains c = true), motive (oneOf s) [c] ⟨c, h, rfl⟩)
    (boundary : motive boundary [] rfl)
    (seq : ∀ r s u v (hu : u ∈ r.words) (hv : v ∈ s.words), motive r u hu → motive s v hv →
      motive (seq r s) (u ++ v) (Language.append_mem_mul hu hv))
    (left : ∀ r s w (hw : w ∈ r.words), motive r w hw → motive (alt r s) w (.inl hw))
    (right : ∀ r s w (hw : w ∈ s.words), motive s w hw → motive (alt r s) w (.inr hw))
    (skip : ∀ r, motive (opt r) [] (.inl rfl))
    (once : ∀ r w (hw : w ∈ r.words), motive r w hw → motive (opt r) w (.inr hw))
    (done : ∀ r, motive (star r) [] (Language.nil_mem_kstar _))
    (again : ∀ r u v (hu : u ∈ r.words) (hv : v ∈ (star r).words), motive r u hu →
      motive (star r) v hv → motive (star r) (u ++ v) (append_mem_kstar hu hv))
    (first : ∀ r u v (hu : u ∈ r.words) (hv : v ∈ (star r).words), motive r u hu →
      motive (star r) v hv → motive (plus r) (u ++ v) (Language.append_mem_mul hu hv))
    (group : ∀ r w (hw : w ∈ r.words), motive r w hw → motive (capture r) w hw)
    {r : Regex} {w : List Char} (h : w ∈ r.words) : motive r w h := by
  have hrounds : ∀ r : Regex, (∀ w (hw : w ∈ r.words), motive r w hw) →
      ∀ w (hw : w ∈ (star r).words), motive (star r) w hw := by
    intro r hr w hw
    obtain ⟨rounds, rfl, hrounds⟩ := Language.mem_kstar.mp hw
    induction rounds with
    | nil => exact done r
    | cons u rounds ih =>
        obtain ⟨hu, hv⟩ := List.forall_mem_cons.mp hrounds
        have hv' : rounds.flatten ∈ (star r).words := Language.join_mem_kstar hv
        exact again r u _ hu hv' (hr u hu) (ih hv hv')
  induction r generalizing w with
  | empty => obtain rfl := h; exact empty
  | oneOf s => obtain ⟨c, hc, rfl⟩ := h; exact oneOf s c hc
  | boundary => obtain rfl := h; exact boundary
  | seq r s ihr ihs =>
      obtain ⟨u, hu, v, hv, rfl⟩ := Language.mem_mul.mp h
      exact seq r s u v hu hv (ihr hu) (ihs hv)
  | alt r s ihr ihs =>
      cases h with
      | inl hw => exact left r s w hw (ihr hw)
      | inr hw => exact right r s w hw (ihs hw)
  | opt r ih =>
      cases h with
      | inl hw => obtain rfl := hw; exact skip r
      | inr hw => exact once r w hw (ih hw)
  | star r ih => exact hrounds r (fun _ hw => ih hw) w h
  | plus r ih =>
      obtain ⟨u, hu, v, hv, rfl⟩ := Language.mem_mul.mp h
      exact first r u v hu hv (ih hu) (hrounds r (fun _ hw => ih hw) v hv)
  | capture r ih => exact group r w h (ih h)

theorem mem_words_char {c : Char} {w : List Char} : w ∈ (char c).words ↔ w = [c] := by
  constructor
  · rintro ⟨d, hd, rfl⟩
    rw [CharClass.contains_singleton.mp hd]
  · rintro rfl
    exact ⟨c, CharClass.contains_singleton.mpr rfl, rfl⟩

theorem mem_words_text {cs w : List Char} : w ∈ (text cs).words ↔ w = cs := by
  induction cs generalizing w with
  | nil => exact Iff.rfl
  | cons c cs ih =>
      cases cs with
      | nil => exact mem_words_char
      | cons d cs =>
          change w ∈ (char c).words * (text (d :: cs)).words ↔ _
          rw [Language.mem_mul]
          constructor
          · rintro ⟨u, hu, v, hv, rfl⟩
            rw [mem_words_char.mp hu, ih.mp hv]
            rfl
          · rintro rfl
            exact ⟨[c], mem_words_char.mpr rfl, d :: cs, ih.mpr rfl, rfl⟩

theorem mem_words_choice {r : Regex} {rest : List Regex} {w : List Char} :
    w ∈ (choice r rest).words ↔ ∃ s ∈ r :: rest, w ∈ s.words := by
  induction rest generalizing r with
  | nil => simp [choice]
  | cons s rest ih =>
      rw [List.exists_mem_cons_iff]
      exact or_congr Iff.rfl ih

theorem mem_words_star_oneOf {s : CharClass} {w : List Char}
    (h : ∀ c ∈ w, s.contains c = true) : w ∈ (star (oneOf s)).words := by
  induction w with
  | nil => exact Language.nil_mem_kstar _
  | cons c w ih =>
      obtain ⟨hc, hw⟩ := List.forall_mem_cons.mp h
      exact append_mem_kstar (u := [c]) ⟨c, hc, rfl⟩ (ih hw)

theorem mem_words_star_oneOf_iff {s : CharClass} {w : List Char} :
    w ∈ (star (oneOf s)).words ↔ ∀ c ∈ w, s.contains c = true := by
  refine ⟨fun h => ?_, mem_words_star_oneOf⟩
  obtain ⟨rounds, rfl, hrounds⟩ := Language.mem_kstar.mp h
  intro c hc
  obtain ⟨u, hu, hcu⟩ := List.mem_flatten.mp hc
  obtain ⟨d, hd, rfl⟩ := hrounds u hu
  rwa [List.mem_singleton.mp hcu]

theorem mem_words_seq_oneOf {s : CharClass} {r : Regex} {w : List Char} :
    w ∈ (seq (oneOf s) r).words ↔ ∃ c v, s.contains c = true ∧ v ∈ r.words ∧ w = c :: v := by
  constructor
  · intro h
    obtain ⟨u, ⟨c, hc, rfl⟩, v, hv, rfl⟩ := Language.mem_mul.mp h
    exact ⟨c, v, hc, hv, rfl⟩
  · rintro ⟨c, v, hc, hv, rfl⟩
    exact Language.append_mem_mul (a := [c]) ⟨c, hc, rfl⟩ hv

theorem mem_words_seq_char {c : Char} {r : Regex} {w : List Char} :
    w ∈ (seq (char c) r).words ↔ ∃ v ∈ r.words, w = c :: v := by
  simp only [char, mem_words_seq_oneOf, CharClass.contains_singleton]
  simp

/-- The words of a repetition are made of one or more rounds. -/
theorem mem_words_plus {r : Regex} {w : List Char} :
    w ∈ (plus r).words ↔ ∃ rounds ≠ [], (∀ u ∈ rounds, u ∈ r.words) ∧ rounds.flatten = w := by
  constructor
  · intro h
    obtain ⟨u, hu, v, hv, rfl⟩ := Language.mem_mul.mp h
    obtain ⟨rounds, rfl, hrounds⟩ := Language.mem_kstar.mp hv
    exact ⟨u :: rounds, List.cons_ne_nil u rounds, List.forall_mem_cons.mpr ⟨hu, hrounds⟩, rfl⟩
  · rintro ⟨rounds, hne, hrounds, rfl⟩
    obtain ⟨u, rounds, rfl⟩ := List.exists_cons_of_ne_nil hne
    obtain ⟨hu, hmore⟩ := List.forall_mem_cons.mp hrounds
    exact Language.append_mem_mul hu (Language.join_mem_kstar hmore)

/-- The words of a repetition as sequences of what the rounds stand for. -/
theorem mem_words_plus_of_text {α : Type} {text : α → List Char} {r : Regex}
    (h : ∀ u, u ∈ r.words ↔ ∃ part, text part = u) {w : List Char} :
    w ∈ (plus r).words ↔ ∃ parts ≠ [], parts.flatMap text = w := by
  simp only [mem_words_plus, h]
  constructor
  · rintro ⟨rounds, hne, hrounds, rfl⟩
    obtain ⟨parts, rfl⟩ := (Set.ext_iff.mp (Set.range_list_map text) rounds).mpr hrounds
    exact ⟨parts, by simpa using hne, rfl⟩
  · rintro ⟨parts, hne, rfl⟩
    refine ⟨parts.map text, by simpa using hne, ?_, rfl⟩
    exact List.forall_mem_map.mpr fun part _ => ⟨part, rfl⟩

theorem mem_words_plus_oneOf {s : CharClass} {w : List Char} :
    w ∈ (plus (oneOf s)).words ↔ w ≠ [] ∧ ∀ c ∈ w, s.contains c = true := by
  have hplus : (plus (oneOf s)).words = (seq (oneOf s) (star (oneOf s))).words := rfl
  rw [hplus, mem_words_seq_oneOf]
  simp only [mem_words_star_oneOf_iff]
  constructor
  · rintro ⟨c, v, hc, hv, rfl⟩
    exact ⟨List.cons_ne_nil c v, List.forall_mem_cons.mpr ⟨hc, hv⟩⟩
  · rintro ⟨hne, hall⟩
    obtain ⟨c, v, rfl⟩ := List.exists_cons_of_ne_nil hne
    obtain ⟨hc, hv⟩ := List.forall_mem_cons.mp hall
    exact ⟨c, v, hc, hv, rfl⟩

def Task.words : Task → Language Char
  | .start _ r => r.words
  | .again _ r => r.words∗

def Thread.words (t : Thread) : Language Char := (t.map Task.words).prod

theorem Thread.words_nil : Thread.words [] = 1 := rfl

theorem Thread.words_cons (task : Task) (t : Thread) :
    Thread.words (task :: t) = task.words * Thread.words t :=
  List.prod_cons

/-- All that the frontier can still lead to is in the language. -/
structure Frontier.Within (l : Language Char) (f : Frontier) : Prop where
  accepted : f.accepted = true → [] ∈ l
  waiting : ∀ item ∈ f.waiting, ∀ c : Char, item.1.contains c = true →
    ∀ w ∈ Thread.words item.2, c :: w ∈ l

namespace Frontier.Within
variable {l : Language Char} {f : Frontier}

theorem empty : Frontier.empty.Within l :=
  ⟨nofun, nofun⟩

theorem accept (h : f.Within l) (hl : [] ∈ l) : f.accept.Within l :=
  ⟨fun _ => hl, h.waiting⟩

theorem wait (h : f.Within l) {s : CharClass} {t : Thread}
    (hs : ∀ c : Char, s.contains c = true → ∀ w ∈ Thread.words t, c :: w ∈ l) :
    (f.wait s t).Within l := by
  unfold Frontier.wait
  split
  · exact h
  · exact ⟨h.accepted, List.forall_mem_cons.mpr ⟨hs, h.waiting⟩⟩

theorem pass (h : f.Within l) (a : Address) {next : Frontier → Frontier}
    (hn : ∀ f : Frontier, f.Within l → (next f).Within l) : (f.pass a next).Within l := by
  unfold Frontier.pass
  split
  · exact h
  · exact hn _ ⟨h.accepted, h.waiting⟩

theorem advance (h : f.Within l) (c : Char) :
    ∀ t ∈ f.advance c, ∀ w ∈ Thread.words t, c :: w ∈ l := by
  intro t ht w hw
  obtain ⟨⟨s, u⟩, hitem, hsome⟩ := List.mem_filterMap.mp ht
  simp only [Option.ite_none_right_eq_some, Option.some.injEq] at hsome
  obtain ⟨hc, rfl⟩ := hsome
  exact h.waiting (s, u) (List.mem_reverse.mp hitem) c hc w hw

end Frontier.Within

/-- A word and what a task takes after it, as one word. -/
theorem continues {l : Language Char} {r whole : Regex} {task : Task} {t : Thread}
    (hw : ∀ u ∈ r.words, ∀ x ∈ task.words, u ++ x ∈ whole.words)
    (ht : ∀ u ∈ whole.words, u ≠ [] → ∀ v ∈ Thread.words t, u ++ v ∈ l) :
    ∀ u ∈ r.words, u ≠ [] → ∀ v ∈ Thread.words (task :: t), u ++ v ∈ l := by
  intro u hu hne v hv
  rw [Thread.words_cons, Language.mem_mul] at hv
  obtain ⟨x, hx, y, hy, rfl⟩ := hv
  rw [← List.append_assoc]
  exact ht _ (hw u hu x hx) (List.append_ne_nil_of_left_ne_nil hne x) y hy

/-- Following an expression keeps to a language that has its words, each continued by what is to
come after it. -/
theorem explore_within {l : Language Char} (atBoundary : Bool) (r : Regex) (a : Address)
    (t : Thread) (leave : Frontier → Frontier) (f : Frontier) (hf : f.Within l)
    (ht : ∀ u ∈ r.words, u ≠ [] → ∀ v ∈ Thread.words t, u ++ v ∈ l)
    (hleave : [] ∈ r.words → ∀ f : Frontier, f.Within l → (leave f).Within l) :
    (explore atBoundary r a t leave f).Within l := by
  induction r generalizing a t leave f with
  | empty => exact hleave Language.nil_mem_one f hf
  | oneOf s =>
      refine hf.wait fun c hc w hw => ?_
      exact ht [c] ⟨c, hc, rfl⟩ (List.cons_ne_nil _ _) w hw
  | boundary =>
      simp only [explore]
      split
      · exact hleave Language.nil_mem_one f hf
      · exact hf
  | seq r s ihr ihs =>
      have hseq : ∀ u ∈ r.words, ∀ x ∈ s.words, u ++ x ∈ (seq r s).words :=
        fun u hu x hx => Language.append_mem_mul hu hx
      refine ihr _ _ _ f hf (continues hseq ht) fun hr f hf => ?_
      exact ihs _ _ _ f hf (fun u hu => ht u (hseq [] hr u hu)) fun hs => hleave (hseq [] hr [] hs)
  | alt r s ihr ihs =>
      refine hf.pass a fun f hf => ihs _ _ _ _ ?_ (fun u hu => ht u (.inr hu)) ?_
      · exact ihr _ _ _ f hf (fun u hu => ht u (.inl hu)) (fun hr => hleave (.inl hr))
      · exact fun hs => hleave (.inr hs)
  | opt r ih =>
      refine hf.pass a fun f hf => hleave (.inl Language.nil_mem_one) _ ?_
      exact ih _ _ _ f hf (fun u hu => ht u (.inr hu)) (fun hr => hleave (.inr hr))
  | star r ih =>
      have hstar : ∀ u ∈ r.words, ∀ x ∈ r.words∗, u ++ x ∈ (star r).words :=
        fun u hu x hx => append_mem_kstar hu hx
      have hround := fun leave f hf =>
        ih (false :: a) (.again a r :: t) leave f hf (continues hstar ht)
      have hdone := hleave (Language.nil_mem_kstar _)
      refine hf.pass (true :: a) fun f hf => hdone _ (hround _ f hf fun _ f hf => ?_)
      exact hf.pass a fun f hf => hdone _ (hround id f hf fun _ _ hf => hf)
  | plus r ih =>
      have hplus : ∀ u ∈ r.words, ∀ x ∈ r.words∗, u ++ x ∈ (plus r).words :=
        fun u hu x hx => Language.append_mem_mul hu hx
      have hround := fun leave f hf =>
        ih (false :: a) (.again a r :: t) leave f hf (continues hplus ht)
      refine hround _ f hf fun hr f hf => ?_
      have hdone := hleave (hplus [] hr [] (Language.nil_mem_kstar _))
      exact hf.pass a fun f hf => hdone _ (hround id f hf fun _ _ hf => hf)
  | capture r ih => exact ih _ _ _ f hf ht hleave

theorem Thread.explore_within {l : Language Char} (atBoundary : Bool) (t : Thread) (f : Frontier)
    (hf : f.Within l) (ht : ∀ w ∈ Thread.words t, w ∈ l) :
    (Thread.explore atBoundary t f).Within l := by
  induction t generalizing f with
  | nil => exact hf.accept (ht [] Language.nil_mem_one)
  | cons task t ih =>
      have htask : ∀ u ∈ task.words, ∀ v ∈ Thread.words t, u ++ v ∈ l := by
        intro u hu v hv
        apply ht
        rw [Thread.words_cons]
        exact Language.append_mem_mul hu hv
      cases task with
      | start a r =>
          exact Regex.explore_within atBoundary r a t _ f hf (fun u hu _ => htask u hu)
            fun hr f hf => ih f hf (htask [] hr)
      | again a r =>
          have hnil : [] ∈ (Task.again a r).words := Language.nil_mem_kstar _
          have hround : ∀ u ∈ r.words, ∀ x ∈ (Task.again a r).words, u ++ x ∈ (star r).words :=
            fun u hu x hx => append_mem_kstar hu hx
          refine hf.pass a fun f hf => ih _ ?_ (htask [] hnil)
          exact Regex.explore_within atBoundary r (false :: a) (.again a r :: t) id f hf
            (continues hround fun u hu _ => htask u hu) fun _ _ hf => hf

theorem frontier_within {l : Language Char} (atBoundary : Bool) (threads : List Thread)
    (h : ∀ t ∈ threads, ∀ w ∈ Thread.words t, w ∈ l) : (frontier atBoundary threads).Within l := by
  have hfold : ∀ f : Frontier, f.Within l →
      (threads.foldl (fun f t => Thread.explore atBoundary t f) f).Within l := by
    induction threads with
    | nil => exact fun f hf => hf
    | cons t threads ih =>
        intro f hf
        exact ih (fun u hu => h u (List.mem_cons_of_mem _ hu)) _
          (Thread.explore_within atBoundary t f hf (h t List.mem_cons_self))
  exact hfold _ Frontier.Within.empty

/-- What is found is the match known before, or the end of a word that one of the threads takes. -/
theorem follow_sound {l : Language Char} {threads : List Thread} {before : Option Char}
    {count : Nat} {best : Option Nat} {text : List Char} {n : Nat}
    (h : ∀ t ∈ threads, ∀ w ∈ Thread.words t, w ∈ l)
    (hn : follow threads before count best text = some n) :
    best = some n ∨ ∃ taken, n = count + taken ∧ taken ≤ text.length ∧ text.take taken ∈ l := by
  induction text generalizing l threads before count best with
  | nil =>
      simp only [follow] at hn
      split at hn
      · next ha =>
          refine .inr ⟨0, (Option.some.inj hn).symm, Nat.le_refl _, ?_⟩
          exact (frontier_within _ threads h).accepted ha
      · exact .inl hn
  | cons c rest ih =>
      have hf := frontier_within (isBoundary before (some c)) threads h
      simp only [follow] at hn
      generalize frontier (isBoundary before (some c)) threads = f at hf hn
      have hnow : (if f.accepted = true then some count else best) = some n →
          best = some n ∨ ∃ taken, n = count + taken ∧ taken ≤ (c :: rest).length ∧
            (c :: rest).take taken ∈ l := by
        intro hb
        split at hb
        · next ha => exact .inr ⟨0, (Option.some.inj hb).symm, Nat.zero_le _, hf.accepted ha⟩
        · exact .inl hb
      split at hn
      · exact hnow hn
      · -- After the character, the threads take what can follow it in the language.
        cases ih (l := {w | c :: w ∈ l}) (hf.advance c) hn with
        | inl hb => exact hnow hb
        | inr hlater =>
            obtain ⟨taken, rfl, hle, hmem⟩ := hlater
            exact .inr ⟨taken + 1, by omega, Nat.succ_le_succ hle, hmem⟩

/-- A match takes a word of the expression. -/
theorem take_mem_words {r : Regex} {text : List Char} {n : Nat}
    (h : r.matchCount? text = some n) : text.take n ∈ r.words := by
  have hstart : ∀ t ∈ [[Task.start [] r]], ∀ w ∈ Thread.words t, w ∈ r.words := by
    intro t ht w hw
    obtain rfl := List.mem_singleton.mp ht
    rwa [Thread.words_cons, Thread.words_nil, mul_one] at hw
  cases follow_sound hstart h with
  | inl hb => cases hb
  | inr hfound =>
      obtain ⟨taken, rfl, _, hmem⟩ := hfound
      rwa [Nat.zero_add]

end Regex
end LiquidsoapHighlight
