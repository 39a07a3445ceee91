import Mathlib.Data.List.Infix
import Mathlib.Data.List.TakeWhile
import Mathlib.Logic.Equiv.Basic
import LiquidsoapHighlight.Proofs.Regex.Outline

/-!
Characters that stand in for each other. An expression sees of a character only in which of its
classes it is, so that characters can be exchanged which are in the same of them; no match changes.
-/

namespace LiquidsoapHighlight

namespace Regex
variable {P : CharClass → Prop}

def Task.regex : Task → Regex
  | .start _ r => r
  | .again _ r => r

/-- All classes of the thread have the property. -/
def Thread.All (P : CharClass → Prop) (t : Thread) : Prop :=
  ∀ task ∈ t, ∀ s ∈ task.regex.chars, P s

/-- All classes that the frontier can still lead to have the property. -/
def Frontier.All (P : CharClass → Prop) (f : Frontier) : Prop :=
  ∀ item ∈ f.waiting, P item.1 ∧ Thread.All P item.2

theorem Thread.All.cons {task : Task} {t : Thread} (htask : ∀ s ∈ task.regex.chars, P s)
    (ht : Thread.All P t) : Thread.All P (task :: t) :=
  List.forall_mem_cons.mpr ⟨htask, ht⟩

namespace Frontier.All
variable {f : Frontier}

theorem wait (hf : f.All P) {s : CharClass} {t : Thread} (hs : P s) (ht : Thread.All P t) :
    (f.wait s t).All P := by
  unfold Frontier.wait
  split
  · exact hf
  · exact List.forall_mem_cons.mpr ⟨⟨hs, ht⟩, hf⟩

theorem pass (hf : f.All P) (a : Address) {next : Frontier → Frontier}
    (hn : ∀ f : Frontier, f.All P → (next f).All P) : (f.pass a next).All P := by
  unfold Frontier.pass
  split
  · exact hf
  · exact hn _ hf

theorem advance (hf : f.All P) (c : Char) : ∀ t ∈ f.advance c, Thread.All P t := by
  intro t ht
  obtain ⟨⟨s, u⟩, hitem, hsome⟩ := List.mem_filterMap.mp ht
  simp only [Option.ite_none_right_eq_some, Option.some.injEq] at hsome
  obtain ⟨_, rfl⟩ := hsome
  exact (hf (s, u) (List.mem_reverse.mp hitem)).2

end Frontier.All

/-- Following an expression leads to no classes but its own and those of what comes after it. -/
theorem explore_all (atBoundary : Bool) (r : Regex) (a : Address) (t : Thread)
    (leave : Frontier → Frontier) (f : Frontier) (hf : f.All P) (hr : ∀ s ∈ r.chars, P s)
    (ht : Thread.All P t) (hleave : ∀ f : Frontier, f.All P → (leave f).All P) :
    (explore atBoundary r a t leave f).All P := by
  induction r generalizing a t leave f with
  | empty => exact hleave f hf
  | oneOf s => exact hf.wait (hr s List.mem_cons_self) ht
  | boundary =>
      simp only [explore]
      split
      · exact hleave f hf
      · exact hf
  | seq r s ihr ihs =>
      obtain ⟨hr, hs⟩ := List.forall_mem_append.mp hr
      exact ihr _ _ _ f hf hr (ht.cons hs) fun f hf => ihs _ _ _ f hf hs ht hleave
  | alt r s ihr ihs =>
      obtain ⟨hr, hs⟩ := List.forall_mem_append.mp hr
      exact hf.pass a fun f hf => ihs _ _ _ _ (ihr _ _ _ f hf hr ht hleave) hs ht hleave
  | opt r ih => exact hf.pass a fun f hf => hleave _ (ih _ _ _ f hf hr ht hleave)
  | star r ih =>
      -- A round leads back to the expression, whose classes come after its own.
      have hround := fun leave f hf => ih (false :: a) (.again a r :: t) leave f hf hr (ht.cons hr)
      refine hf.pass (true :: a) fun f hf => hleave _ (hround _ f hf fun f hf => ?_)
      exact hf.pass a fun f hf => hleave _ (hround id f hf fun _ hf => hf)
  | plus r ih =>
      have hround := fun leave f hf => ih (false :: a) (.again a r :: t) leave f hf hr (ht.cons hr)
      refine hround _ f hf fun f hf => ?_
      exact hf.pass a fun f hf => hleave _ (hround id f hf fun _ hf => hf)
  | capture r ih => exact ih _ _ _ f hf hr ht hleave

theorem Thread.explore_all (atBoundary : Bool) {t : Thread} (ht : Thread.All P t) (f : Frontier)
    (hf : f.All P) : (Thread.explore atBoundary t f).All P := by
  induction t generalizing f with
  | nil => exact hf
  | cons task t ih =>
      obtain ⟨htask, hrest⟩ := List.forall_mem_cons.mp ht
      cases task with
      | start a r => exact Regex.explore_all atBoundary r a t _ f hf htask hrest (ih hrest)
      | again a r =>
          refine hf.pass a fun f hf => ih hrest _ ?_
          exact Regex.explore_all atBoundary r _ _ id f hf htask ht fun _ hf => hf

theorem frontier_all (atBoundary : Bool) {threads : List Thread}
    (h : ∀ t ∈ threads, Thread.All P t) : (frontier atBoundary threads).All P := by
  have hfold : ∀ f : Frontier, f.All P →
      (threads.foldl (fun f t => Thread.explore atBoundary t f) f).All P := by
    induction threads with
    | nil => exact fun f hf => hf
    | cons t threads ih =>
        obtain ⟨ht, hthreads⟩ := List.forall_mem_cons.mp h
        exact fun f hf => ih hthreads _ (Thread.explore_all atBoundary ht f hf)
  exact hfold .empty nofun

variable {f : Char → Char}

theorem Frontier.advance_map {frontier : Frontier} {c : Char}
    (h : frontier.All fun s => ∀ c, s.contains (f c) = s.contains c) :
    frontier.advance (f c) = frontier.advance c :=
  List.filterMap_congr fun (s, t) hitem => by
    have hs : s.contains (f c) = s.contains c := (h (s, t) (List.mem_reverse.mp hitem)).1 c
    simp only [hs]

/-- Threads do the same at characters that are in the same classes. -/
theorem follow_map (hword : ∀ c, Text.wordChars.contains (f c) = Text.wordChars.contains c)
    {threads : List Thread}
    (h : ∀ t ∈ threads, Thread.All (fun s => ∀ c, s.contains (f c) = s.contains c) t)
    (before : Option Char) (count : Nat) (best : Option Nat) (text : List Char) :
    follow threads (before.map f) count best (text.map f) =
      follow threads before count best text := by
  have hboundary : ∀ before after : Option Char,
      isBoundary (before.map f) (after.map f) = isBoundary before after := by
    intro before after
    cases before <;> cases after <;> simp [isBoundary, hword]
  induction text generalizing threads before count best with
  | nil =>
      have hend : isBoundary (before.map f) none = isBoundary before none := hboundary before none
      simp only [List.map_nil, follow, hend]
  | cons c text ih =>
      have hnext : isBoundary (before.map f) (some (f c)) = isBoundary before (some c) :=
        hboundary before (some c)
      have hall := frontier_all (isBoundary before (some c)) h
      have hlater := fun best => ih (hall.advance c) (some c) (count + 1) best
      simp only [List.map_cons, follow, hnext, Frontier.advance_map hall, ← hlater,
        Option.map_some]

theorem matchCount?_map (hword : ∀ c, Text.wordChars.contains (f c) = Text.wordChars.contains c)
    {r : Regex} (h : ∀ s ∈ r.chars, ∀ c, s.contains (f c) = s.contains c) (text : List Char) :
    r.matchCount? (text.map f) = r.matchCount? text := by
  have hstart : Thread.All (fun s => ∀ c, s.contains (f c) = s.contains c) [.start [] r] :=
    List.forall_mem_singleton.mpr h
  exact follow_map hword (List.forall_mem_singleton.mpr hstart) none 0 none text

end Regex

section Swap
variable {c d : Char}

/-- Neither of the characters is in the text. -/
def lacks (c d : Char) (text : List Char) : Bool := !text.contains c && !text.contains d

theorem map_swap_eq_self {text : List Char} (hc : c ∉ text) (hd : d ∉ text) :
    text.map (Equiv.swap c d) = text := by
  refine (List.map_congr_left fun x hx => ?_).trans (List.map_id text)
  refine Equiv.swap_apply_of_ne_of_ne ?_ ?_
  · rintro rfl
    exact hc hx
  · rintro rfl
    exact hd hx

theorem map_swap_of_lacks {text : List Char} (h : lacks c d text = true) :
    text.map (Equiv.swap c d) = text := by
  simp only [lacks, Bool.and_eq_true, Bool.not_eq_true', List.contains_eq_mem,
    decide_eq_false_iff_not] at h
  exact map_swap_eq_self h.1 h.2

theorem isPrefixOf_map_swap (lit text : List Char) :
    (lit.map (Equiv.swap c d)).isPrefixOf (text.map (Equiv.swap c d)) = lit.isPrefixOf text := by
  rw [Bool.eq_iff_iff, List.isPrefixOf_iff_prefix, List.isPrefixOf_iff_prefix]
  exact List.prefix_map_iff_of_injective (Equiv.swap c d).injective

theorem isPrefixOf_map_swap_of_lacks {lit : List Char} (h : lacks c d lit = true)
    (text : List Char) : lit.isPrefixOf (text.map (Equiv.swap c d)) = lit.isPrefixOf text := by
  conv_lhs => rw [← map_swap_of_lacks h]
  exact isPrefixOf_map_swap lit text

/-- Characters that are not part of words can be exchanged around them. -/
theorem Word.run_map_swap (hc : isContinue c = false) (hd : isContinue d = false)
    (text : List Char) : run (text.map (Equiv.swap c d)) = run text := by
  have hstart : ∀ {x}, isContinue x = false → isStart x = false := fun {x} hx => by
    rw [← Bool.not_eq_true] at hx ⊢
    exact fun h => hx (isContinue_of_isStart h)
  have hfixed : ∀ word : List Char, (∀ x ∈ word, isContinue x = true) →
      word.map (Equiv.swap c d) = word := by
    intro word hw
    refine map_swap_eq_self (fun hm => ?_) (fun hm => ?_)
    · exact absurd ((hw c hm).symm.trans hc) (by decide)
    · exact absurd ((hw d hm).symm.trans hd) (by decide)
  cases text with
  | nil => rfl
  | cons x rest =>
      have hx : isStart (Equiv.swap c d x) = isStart x :=
        Equiv.apply_swap_eq_self ((hstart hc).trans (hstart hd).symm) x
      have hcomp : isContinue ∘ Equiv.swap c d = isContinue :=
        funext (Equiv.apply_swap_eq_self (hc.trans hd.symm))
      simp only [List.map_cons, run, List.takeWhile_map, hcomp, hx]
      split
      · next hword =>
          refine hfixed (x :: rest.takeWhile isContinue) (List.forall_mem_cons.mpr ⟨?_, ?_⟩)
          · exact isContinue_of_isStart hword
          · exact fun y hy => List.mem_takeWhile_imp hy
      · rfl

namespace Pattern

theorem matchCount?_literal_swap (lit text : List Char) :
    (literal (lit.map (Equiv.swap c d))).matchCount? (text.map (Equiv.swap c d)) =
      (literal lit).matchCount? text := by
  simp only [matchCount?, candidate?, isPrefixOf_map_swap, List.length_map]

/-- No match of the pattern depends on which of the two characters there is. -/
def confuses (c d : Char) : Pattern → Bool
  | literal lit => lacks c d lit
  | oneOf alternatives => alternatives.all (lacks c d)
  | keywords _ => !Word.isContinue c && !Word.isContinue d
  | expression e _ =>
    Text.wordChars.contains c == Text.wordChars.contains d &&
      Word.isContinue c == Word.isContinue d &&
      e.regex?.any fun r => r.chars.all fun s => s.contains c == s.contains d
  | anyChar => true

theorem matchCount?_swap {p : Pattern} (h : p.confuses c d = true) (text : List Char) :
    p.matchCount? (text.map (Equiv.swap c d)) = p.matchCount? text := by
  refine congrArg (Option.filter (0 < ·)) ?_
  cases p with
  | literal lit => simp only [candidate?, isPrefixOf_map_swap_of_lacks h]
  | oneOf alternatives =>
      have hfilter : alternatives.filter (fun lit => lit.isPrefixOf (text.map (Equiv.swap c d))) =
          alternatives.filter fun lit => lit.isPrefixOf text :=
        List.filter_congr fun lit hl =>
          isPrefixOf_map_swap_of_lacks (List.all_eq_true.mp h lit hl) text
      simp only [candidate?, ← List.head?_filter, hfilter]
  | keywords words =>
      simp only [confuses, Bool.and_eq_true, Bool.not_eq_true'] at h
      simp only [candidate?, Word.run_map_swap h.1 h.2]
  | expression e bounded =>
      simp only [confuses, Bool.and_eq_true, beq_iff_eq, Option.any_eq_true,
        List.all_eq_true] at h
      obtain ⟨⟨hword, hcont⟩, r, hr, hchars⟩ := h
      have hmatch := Regex.matchCount?_map (Equiv.apply_swap_eq_self hword)
        (fun s hs => Equiv.apply_swap_eq_self (hchars s hs)) text
      have hnext : ∀ count : Nat,
          ((text.map (Equiv.swap c d)).drop count).head?.any Word.isContinue =
            (text.drop count).head?.any Word.isContinue := by
        intro count
        rw [← List.map_drop, List.head?_map, Option.any_map]
        exact congrArg (Option.any · _) (funext (Equiv.apply_swap_eq_self hcont))
      simp only [candidate?, e.matchCount?_of_regex? hr, hmatch, hnext]
  | anyChar => simp only [candidate?, List.isEmpty_map]

end Pattern
end Swap
end LiquidsoapHighlight
