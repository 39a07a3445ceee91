import Mathlib.Algebra.GroupWithZero.Nat
import LiquidsoapHighlight.Mode.Stack

/-!
What a transition does to the frames of a stack. Only the frames at the top change; those further
down stay as they are, and a frame keeps its serial number for as long as it is there.
-/

namespace LiquidsoapHighlight

/-- A frame without its serial number. -/
def Frame.level (frame : Frame) : Mode × UInt32 := (frame.mode, frame.depth)

/-- A frame without its depth. -/
def Frame.entry (frame : Frame) : Mode × UInt32 := (frame.mode, frame.serial)

namespace ModeStack

theorem frames_pop {s : ModeStack} (h : s.below ≠ []) : s.pop.frames = s.below := by
  obtain ⟨top, below, pushes⟩ := s
  cases below with
  | nil => exact absurd rfl h
  | cons frame below => rfl

theorem dropTo_of_mode {mode : Mode} {top : Frame} (h : top.mode = mode) (below : List Frame) :
    dropTo mode top below = (top, below) := by
  cases below <;> simp [dropTo, h]

theorem dropTo_of_ne {mode : Mode} {top : Frame} (h : top.mode ≠ mode) (frame : Frame)
    (below : List Frame) : dropTo mode top (frame :: below) = dropTo mode frame below := by
  rw [dropTo, if_neg h]

theorem dropTo_append {mode : Mode} {top frame : Frame} {below upper lower : List Frame}
    (h : top :: below = upper ++ frame :: lower) (hframe : frame.mode = mode)
    (hupper : ∀ other ∈ upper, other.mode ≠ mode) : dropTo mode top below = (frame, lower) := by
  induction upper generalizing top below with
  | nil =>
      obtain ⟨rfl, rfl⟩ := List.cons.inj h
      exact dropTo_of_mode hframe below
  | cons first upper ih =>
      obtain ⟨rfl, hbelow⟩ := List.cons.inj h
      obtain ⟨hfirst, hrest⟩ := List.forall_mem_cons.mp hupper
      cases below with
      | nil => simp at hbelow
      | cons next below =>
          rw [dropTo_of_ne hfirst]
          exact ih hbelow hrest

/-- Popping to a mode leaves the uppermost frame that has it, and the frames below that one. -/
theorem frames_popTo_uppermost {mode : Mode} {s : ModeStack} {frame : Frame}
    {upper lower : List Frame} (h : s.frames = upper ++ frame :: lower) (hframe : frame.mode = mode)
    (hupper : ∀ other ∈ upper, other.mode ≠ mode) : (s.popTo mode).frames = frame :: lower := by
  rw [popTo, dropTo_append h hframe hupper]
  rfl

/-- Popping to the mode of the frame right below the top one pops a single frame. -/
theorem frames_popTo {mode : Mode} {top next : Frame} (below : List Frame) (pushes : UInt32)
    (htop : top.mode ≠ mode) (hnext : next.mode = mode) :
    (popTo mode ⟨top, next :: below, pushes⟩).frames = next :: below := by
  have hframes : (⟨top, next :: below, pushes⟩ : ModeStack).frames = [top] ++ next :: below := rfl
  exact frames_popTo_uppermost hframes hnext (by simpa using htop)

theorem unnest_eq (s : ModeStack) :
    s.unnest = s.pop ∨ ∃ depth, s.unnest = { s with top := { s.top with depth := depth } } := by
  unfold unnest
  split
  · exact .inl rfl
  · exact .inr ⟨_, rfl⟩

theorem pushes_pop (s : ModeStack) : s.pop.pushes = s.pushes := by
  unfold pop
  split <;> rfl

def levels (s : ModeStack) : List (Mode × UInt32) := s.frames.map Frame.level

/-- What a transition makes of the uppermost levels. -/
def relevel : Transition → Mode × UInt32 → List (Mode × UInt32) → List (Mode × UInt32)
  | .stay, top, below => top :: below
  | .push mode, top, below => (mode, 0) :: top :: below
  | .pop, _, below => below
  | .popTo _, _, below => below
  | .nest, (mode, depth), below => (mode, depth + 1) :: below
  | .unnest, (mode, depth), below => if depth = 0 then below else (mode, depth - 1) :: below

theorem below_ne_nil {s : ModeStack} (h : 1 < s.levels.length) : s.below ≠ [] := by
  intro hbelow
  simp [levels, frames, hbelow] at h

theorem levels_pop {s : ModeStack} {top : Mode × UInt32} {below : List (Mode × UInt32)}
    (h : s.levels = top :: below) (hne : below ≠ []) : s.pop.levels = below := by
  obtain ⟨frame, frames, pushes⟩ := s
  obtain ⟨rfl, rfl⟩ := List.cons.inj h
  rw [levels, frames_pop (by simpa using hne)]

/-- A transition changes only the uppermost levels, if it pops to no mode further down than to the
next. -/
theorem levels_apply {s : ModeStack} {t : Transition} {top : Mode × UInt32}
    {below base : List (Mode × UInt32)} (h : s.levels = top :: below ++ base) (hbase : base ≠ [])
    (hpop : ∀ mode, t = .popTo mode → top.1 ≠ mode ∧ (below.head?.map Prod.fst) = some mode) :
    (s.apply t).levels = relevel t top below ++ base := by
  have hne : below ++ base ≠ [] := List.append_ne_nil_of_right_ne_nil _ hbase
  cases t with
  | stay => exact h
  | push mode => exact congrArg (List.cons (mode, 0)) h
  | pop => exact levels_pop h hne
  | popTo mode =>
      obtain ⟨htop, hnext⟩ := hpop mode rfl
      obtain ⟨frame, frames, pushes⟩ := s
      obtain ⟨rfl, hframes⟩ := List.cons.inj h
      cases below with
      | nil => cases hnext
      | cons next below =>
          obtain ⟨second, frames, rfl, rfl, hrest⟩ := List.map_eq_cons_iff.mp hframes
          have hp := frames_popTo frames pushes htop (Option.some.inj hnext)
          exact (congrArg (List.map Frame.level) hp).trans (by rw [List.map_cons, hrest]; rfl)
  | nest =>
      obtain ⟨frame, frames, pushes⟩ := s
      obtain ⟨rfl, hframes⟩ := List.cons.inj h
      exact congrArg (List.cons _) hframes
  | unnest =>
      have hpopped := levels_pop h hne
      obtain ⟨frame, frames, pushes⟩ := s
      obtain ⟨rfl, hframes⟩ := List.cons.inj h
      by_cases hdepth : frame.depth = 0
      · simp only [apply, unnest, relevel, Frame.level, hdepth, if_true]
        exact hpopped
      · simp only [apply, unnest, relevel, Frame.level, hdepth, if_false]
        exact congrArg (List.cons _) hframes

/-- Serial numbers wrap around, but not from one to the next. -/
theorem serial_ne_next (serial : UInt32) : serial ≠ serial + 1 :=
  fun h => absurd (UInt32.left_eq_add.mp h) (by decide)

def serials (s : ModeStack) : List UInt32 := s.frames.map Frame.serial

theorem length_serials (s : ModeStack) : s.serials.length = s.size := List.length_map _

def entries (s : ModeStack) : List (Mode × UInt32) := s.frames.map Frame.entry

theorem map_fst_entries (s : ModeStack) : s.entries.map Prod.fst = s.frames.map Frame.mode :=
  List.map_map

theorem map_snd_entries (s : ModeStack) : s.entries.map Prod.snd = s.serials := List.map_map

theorem serials_suffix {s t : ModeStack} (h : t.entries <:+ s.entries) :
    t.serials <:+ s.serials := by
  have hmap := h.map Prod.snd
  rwa [map_snd_entries, map_snd_entries] at hmap

theorem dropTo_suffix (mode : Mode) (top : Frame) (below : List Frame) :
    (dropTo mode top below).1 :: (dropTo mode top below).2 <:+ top :: below := by
  induction below generalizing top with
  | nil => exact List.suffix_refl _
  | cons frame below ih =>
      simp only [dropTo]
      split
      · exact List.suffix_refl _
      · exact (ih frame).trans (List.suffix_cons _ _)

theorem popTo_suffix (mode : Mode) (s : ModeStack) : (s.popTo mode).frames <:+ s.frames :=
  dropTo_suffix mode s.top s.below

theorem pop_suffix (s : ModeStack) : s.pop.frames <:+ s.frames := by
  obtain ⟨top, below, pushes⟩ := s
  cases below with
  | nil => exact List.suffix_refl _
  | cons frame below => exact List.suffix_cons _ _

/-- A transition that pushes nothing leaves some of the frames, from the bottom up. -/
theorem apply_keeps {t : Transition} (h : ∀ mode, t ≠ .push mode) (s : ModeStack) :
    (s.apply t).entries <:+ s.entries ∧ (s.apply t).pushes = s.pushes := by
  cases t with
  | stay | nest => exact ⟨List.suffix_refl _, rfl⟩
  | push mode => exact absurd rfl (h mode)
  | pop => exact ⟨s.pop_suffix.map _, s.pushes_pop⟩
  | popTo mode => exact ⟨(s.popTo_suffix mode).map _, rfl⟩
  | unnest =>
      change s.unnest.entries <:+ s.entries ∧ s.unnest.pushes = s.pushes
      obtain hu | ⟨depth, hu⟩ := s.unnest_eq
      · rw [hu]
        exact ⟨s.pop_suffix.map _, s.pushes_pop⟩
      · rw [hu]
        exact ⟨List.suffix_refl _, rfl⟩

theorem push_or_keeps (t : Transition) (s : ModeStack) :
    (∃ mode, t = .push mode) ∨
      (s.apply t).entries <:+ s.entries ∧ (s.apply t).pushes = s.pushes := by
  by_cases hpush : ∃ mode, t = .push mode
  · exact .inl hpush
  · exact .inr (apply_keeps (fun mode hmode => hpush ⟨mode, hmode⟩) s)

/-- The lowest frame is never left. -/
theorem lowest_apply {entry : Mode × UInt32} (t : Transition) {s : ModeStack}
    (h : [entry] <:+ s.entries) : [entry] <:+ (s.apply t).entries := by
  obtain ⟨mode, rfl⟩ | ⟨hkept, _⟩ := push_or_keeps t s
  · exact h.trans (List.suffix_cons _ _)
  · exact List.suffix_of_suffix_length_le h hkept (Nat.succ_pos _)

theorem exists_lowest {entry : Mode × UInt32} {s : ModeStack} (h : [entry] <:+ s.entries) :
    ∃ depth, s.frames.getLast? = some ⟨entry.1, depth, entry.2⟩ := by
  obtain ⟨upper, hupper⟩ := h
  obtain ⟨frames, lowest, hframes, _, hlowest⟩ := List.map_eq_append_iff.mp hupper.symm
  obtain ⟨frame, rfl, rfl⟩ := List.map_eq_singleton_iff.mp hlowest
  exact ⟨frame.depth, by rw [hframes, List.getLast?_concat]; rfl⟩

/-- A transition brings in no mode but the one that it pushes. -/
theorem modes_apply_subset (t : Transition) (s : ModeStack) {mode : Mode}
    (h : mode ∈ (s.apply t).frames.map Frame.mode) :
    mode ∈ s.frames.map Frame.mode ∨ t = .push mode := by
  obtain ⟨pushed, rfl⟩ | ⟨hkept, _⟩ := push_or_keeps t s
  · obtain rfl | hmem := List.mem_cons.mp h
    · exact .inr rfl
    · exact .inl hmem
  · rw [← map_fst_entries] at h ⊢
    exact .inl ((hkept.map Prod.fst).subset h)

theorem size_apply_le {t : Transition} (h : ∀ mode, t ≠ .push mode) (s : ModeStack) :
    (s.apply t).size ≤ s.size := by
  have hle := (serials_suffix (apply_keeps h s).1).length_le
  rwa [length_serials, length_serials] at hle

theorem size_push (mode : Mode) (s : ModeStack) : (s.push mode).size = s.size + 1 := rfl

theorem toNat_add_one_le (n : UInt32) : (n + 1).toNat ≤ n.toNat + 1 := by
  rw [UInt32.toNat_add]
  exact Nat.mod_le _ _

theorem toNat_add_one {n : UInt32} (h : n.toNat + 1 < 2 ^ 32) : (n + 1).toNat = n.toNat + 1 := by
  rw [UInt32.toNat_add]
  exact Nat.mod_eq_of_lt h

theorem toNat_sub_one {n : UInt32} (h : n ≠ 0) : (n - 1).toNat = n.toNat - 1 := by
  refine UInt32.toNat_sub_of_le _ _ ?_
  rw [UInt32.le_iff_toNat_le]
  exact Nat.one_le_iff_ne_zero.mpr fun hzero => h (UInt32.toNat_inj.mp hzero)

theorem toNat_pushes_apply_le (t : Transition) (s : ModeStack) :
    (s.apply t).pushes.toNat ≤ s.pushes.toNat + 1 := by
  obtain ⟨mode, rfl⟩ | ⟨_, hpushes⟩ := push_or_keeps t s
  · exact toNat_add_one_le _
  · rw [hpushes]
    exact Nat.le_succ _

/-- No frame gets deeper by more than one level at a time. -/
theorem depth_apply_le {s : ModeStack} {bound : Nat}
    (h : ∀ frame ∈ s.frames, frame.depth.toNat ≤ bound) (t : Transition) :
    ∀ frame ∈ (s.apply t).frames, frame.depth.toNat ≤ bound + 1 := by
  have hsame : ∀ frame ∈ s.frames, frame.depth.toNat ≤ bound + 1 :=
    fun frame hf => Nat.le_succ_of_le (h frame hf)
  obtain ⟨htop, _⟩ := List.forall_mem_cons.mp h
  obtain ⟨_, hrest⟩ := List.forall_mem_cons.mp hsame
  cases t with
  | stay => exact hsame
  | push mode => exact List.forall_mem_cons.mpr ⟨Nat.zero_le _, hsame⟩
  | pop => exact fun frame hf => hsame frame (s.pop_suffix.subset hf)
  | popTo mode => exact fun frame hf => hsame frame ((s.popTo_suffix mode).subset hf)
  | nest =>
      refine List.forall_mem_cons.mpr ⟨?_, hrest⟩
      exact Nat.le_trans (toNat_add_one_le _) (Nat.succ_le_succ htop)
  | unnest =>
      change ∀ frame ∈ s.unnest.frames, _
      unfold unnest
      split
      · exact fun frame hf => hsame frame (s.pop_suffix.subset hf)
      · next hdepth =>
          refine List.forall_mem_cons.mpr ⟨?_, hrest⟩
          change (s.top.depth - 1).toNat ≤ bound + 1
          rw [toNat_sub_one hdepth]
          exact Nat.le_trans (Nat.sub_le _ _) (Nat.le_succ_of_le htop)

end ModeStack
end LiquidsoapHighlight
