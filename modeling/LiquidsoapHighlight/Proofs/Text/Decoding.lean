import Mathlib.Algebra.Group.Nat.Defs
import Mathlib.Logic.Basic
import LiquidsoapHighlight.Text.Utf8

/-!
Reading bytes as UTF-8, against what UTF-8 is. Each character is read from its own bytes; where no
character stands, the longest beginning of one is replaced as a whole, or else a single byte.
-/

namespace LiquidsoapHighlight
namespace Utf8

/-- The bytes are the beginning of those of a character. -/
def Begins (bytes : List UInt8) : Prop := ∃ c : Char, bytes <+: String.utf8EncodeChar c

/-- Bytes at which no character stands, up to where a character that begins there breaks off. If
none begins there, it is the first byte alone. -/
structure IsInvalid (bad rest : List UInt8) : Prop where
  nonempty : bad ≠ []
  noChar : ∀ c : Char, ¬ String.utf8EncodeChar c <+: bad ++ rest
  begins : Begins bad ∨ bad.length = 1
  longest : ∀ longer, longer <+: bad ++ rest → bad.length < longer.length → ¬ Begins longer

/-- The text that bytes are read as, with a replacement character for what is invalid. -/
inductive Reads : List UInt8 → List Char → Prop where
  | done : Reads [] []
  | char (c : Char) {rest : List UInt8} {text : List Char} :
      Reads rest text → Reads (String.utf8EncodeChar c ++ rest) (c :: text)
  | invalid {bad rest : List UInt8} {text : List Char} :
      IsInvalid bad rest → Reads rest text → Reads (bad ++ rest) ('\ufffd' :: text)

/-- The last bytes of the character with the number, six bits in each. -/
def continuation : Nat → Nat → List UInt8
  | 0, _ => []
  | k + 1, n => UInt8.ofNat (n / 64 ^ k % 64 + 128) :: continuation k n

/-- The first byte of a character that takes more than one, with what is then pending. -/
inductive Lead (b : UInt8) : Pending → Prop where
  | two : 194 ≤ b.toNat → b.toNat < 224 → Lead b ⟨b.toNat - 192, 1, 128, 191⟩
  | three {low high : Nat} : 224 ≤ b.toNat → b.toNat < 240 →
      low = (if b.toNat = 224 then 160 else 128) → high = (if b.toNat = 237 then 159 else 191) →
      Lead b ⟨b.toNat - 224, 2, low, high⟩
  | four {low high : Nat} : 240 ≤ b.toNat → b.toNat < 245 →
      low = (if b.toNat = 240 then 144 else 128) → high = (if b.toNat = 244 then 143 else 191) →
      Lead b ⟨b.toNat - 240, 3, low, high⟩

/-- The character with the number can come of what is pending: its highest bits are there, and its
next byte is in the range. -/
structure Pending.Admits (p : Pending) (n : Nat) : Prop where
  low : p.low + 64 * p.bits ≤ n / 64 ^ (p.owed - 1) + 128
  high : n / 64 ^ (p.owed - 1) + 128 ≤ p.high + 64 * p.bits

theorem begin_of_lead {b : UInt8} {p : Pending} (h : Lead b p) : begin b = ([], some p) := by
  cases h with
  | two hb hb' => rw [begin, if_neg (by omega), if_neg (by omega), if_pos hb']
  | three hb hb' hlow hhigh =>
      rw [begin, if_neg (by omega), if_neg (by omega), if_neg (by omega), if_pos hb', hlow, hhigh]
  | four hb hb' hlow hhigh =>
      rw [begin, if_neg (by omega), if_neg (by omega), if_neg (by omega), if_neg (by omega),
        if_pos hb', hlow, hhigh]

theorem begin_cases (b : UInt8) :
    (b.toNat < 128 ∧ begin b = ([some (Char.ofNat b.toNat)], none)) ∨
      begin b = ([none], none) ∨ ∃ p, Lead b p := by
  by_cases hone : b.toNat < 128
  · exact .inl ⟨hone, if_pos hone⟩
  · by_cases hlow : b.toNat < 194
    · exact .inr (.inl (by rw [begin, if_neg hone, if_pos hlow]))
    · by_cases htwo : b.toNat < 224
      · exact .inr (.inr ⟨_, .two (by omega) htwo⟩)
      · by_cases hthree : b.toNat < 240
        · exact .inr (.inr ⟨_, .three (by omega) hthree rfl rfl⟩)
        · by_cases hfour : b.toNat < 245
          · exact .inr (.inr ⟨_, .four (by omega) hfour rfl rfl⟩)
          · refine .inr (.inl ?_)
            rw [begin, if_neg hone, if_neg hlow, if_neg htwo, if_neg hthree, if_neg hfour]

theorem exists_char {n : Nat} (h : n.isValidChar) : ∃ c : Char, c.toNat = n :=
  ⟨Char.ofNatAux n h, rfl⟩

theorem encode_of_lt {b : UInt8} (h : b.toNat < 128) :
    String.utf8EncodeChar (Char.ofNat b.toNat) = [b] := by
  obtain ⟨c, hc⟩ := exists_char (n := b.toNat) (.inl (by omega))
  rw [← hc, Char.ofNat_toNat, String.utf8EncodeChar, ← Char.toNat, hc, if_pos (by omega),
    UInt8.ofNat_toNat]

theorem encode_two {c : Char} (hmin : 128 ≤ c.toNat) (hmax : c.toNat < 2048) :
    String.utf8EncodeChar c = UInt8.ofNat (c.toNat / 64 + 192) :: continuation 1 c.toNat := by
  have hlead : c.toNat / 64 % 32 = c.toNat / 64 := by omega
  rw [String.utf8EncodeChar, ← Char.toNat, if_neg (by omega), if_pos (by omega), hlead]
  simp [continuation]

theorem encode_three {c : Char} (hmin : 2048 ≤ c.toNat) (hmax : c.toNat < 65536) :
    String.utf8EncodeChar c = UInt8.ofNat (c.toNat / 4096 + 224) :: continuation 2 c.toNat := by
  have hlead : c.toNat / 4096 % 16 = c.toNat / 4096 := by omega
  rw [String.utf8EncodeChar, ← Char.toNat, if_neg (by omega), if_neg (by omega),
    if_pos (by omega), hlead]
  simp [continuation]

theorem encode_four {c : Char} (hmin : 65536 ≤ c.toNat) :
    String.utf8EncodeChar c = UInt8.ofNat (c.toNat / 262144 + 240) :: continuation 3 c.toNat := by
  have hvalid : c.toNat < 55296 ∨ 57343 < c.toNat ∧ c.toNat < 1114112 := c.valid
  have hlead : c.toNat / 262144 % 8 = c.toNat / 262144 := by omega
  rw [String.utf8EncodeChar, ← Char.toNat, if_neg (by omega), if_neg (by omega),
    if_neg (by omega), hlead]
  simp [continuation]

/-- The characters that can come of the first byte have this byte before the pending ones. -/
theorem Lead.exists_char {b : UInt8} {p : Pending} (h : Lead b p) {n : Nat} (hn : p.Admits n) :
    ∃ c : Char, c.toNat = n ∧ String.utf8EncodeChar c = b :: continuation p.owed n := by
  obtain ⟨hmin, hmax⟩ := hn
  cases h with
  | two hb hb' =>
      simp only [Nat.sub_self, Nat.pow_zero, Nat.div_one] at hmin hmax
      obtain ⟨c, rfl⟩ := Utf8.exists_char (n := n) (.inl (by omega))
      have hlead : c.toNat / 64 + 192 = b.toNat := by omega
      exact ⟨c, rfl, by rw [encode_two (by omega) (by omega), hlead, UInt8.ofNat_toNat]⟩
  | three hb hb' hlow hhigh =>
      rw [eq_ite_iff] at hlow hhigh
      simp only [Nat.reduceSub, Nat.pow_one] at hmin hmax
      obtain ⟨c, rfl⟩ := Utf8.exists_char (n := n) (by unfold Nat.isValidChar; omega)
      have hlead : c.toNat / 4096 + 224 = b.toNat := by omega
      exact ⟨c, rfl, by rw [encode_three (by omega) (by omega), hlead, UInt8.ofNat_toNat]⟩
  | four hb hb' hlow hhigh =>
      rw [eq_ite_iff] at hlow hhigh
      simp only [Nat.reduceSub, Nat.reducePow] at hmin hmax
      obtain ⟨c, rfl⟩ := Utf8.exists_char (n := n) (.inr (by omega))
      have hlead : c.toNat / 262144 + 240 = b.toNat := by omega
      exact ⟨c, rfl, by rw [encode_four (by omega), hlead, UInt8.ofNat_toNat]⟩

/-- A character is a byte of its own, or it has a first byte and comes of what is then pending. -/
theorem exists_lead (c : Char) :
    (∃ b : UInt8, b.toNat < 128 ∧ c.toNat = b.toNat) ∨
      ∃ b p, Lead b p ∧ p.Admits c.toNat ∧
        String.utf8EncodeChar c = b :: continuation p.owed c.toNat := by
  have hvalid : c.toNat < 55296 ∨ 57343 < c.toNat ∧ c.toNat < 1114112 := c.valid
  have htoNat : ∀ m < 256, (UInt8.ofNat m).toNat = m := by
    intro m hm
    rw [UInt8.toNat_ofNat', Nat.mod_eq_of_lt hm]
  by_cases hone : c.toNat < 128
  · have hb := htoNat c.toNat (by omega)
    exact .inl ⟨UInt8.ofNat c.toNat, by omega, hb.symm⟩
  · right
    by_cases htwo : c.toNat < 2048
    · have hb := htoNat (c.toNat / 64 + 192) (by omega)
      refine ⟨_, _, .two (by omega) (by omega), ?_, encode_two (by omega) htwo⟩
      constructor <;> simp only [Nat.sub_self, Nat.pow_zero] <;> omega
    · by_cases hthree : c.toNat < 65536
      · have hb := htoNat (c.toNat / 4096 + 224) (by omega)
        refine ⟨_, _, .three (by omega) (by omega) rfl rfl, ?_, encode_three (by omega) hthree⟩
        constructor <;> simp only [Nat.reduceSub, Nat.pow_one] <;> split <;> omega
      · have hb := htoNat (c.toNat / 262144 + 240) (by omega)
        refine ⟨_, _, .four (by omega) (by omega) rfl rfl, ?_, encode_four (by omega)⟩
        constructor <;> simp only [Nat.reduceSub, Nat.reducePow] <;> split <;> omega

namespace Pending

/-- What is pending after one more byte. -/
def next (p : Pending) (b : UInt8) : Pending :=
  ⟨p.bits * 64 + (b.toNat - 128), p.owed - 1, 128, 191⟩

@[simp]
theorem next_bits (p : Pending) (b : UInt8) :
    (p.next b).bits = p.bits * 64 + (b.toNat - 128) := rfl

@[simp]
theorem next_owed (p : Pending) (b : UInt8) : (p.next b).owed = p.owed - 1 := rfl

@[simp]
theorem next_low (p : Pending) (b : UInt8) : (p.next b).low = 128 := rfl

@[simp]
theorem next_high (p : Pending) (b : UInt8) : (p.next b).high = 191 := rfl

/-- The byte may be the next one. -/
structure Takes (p : Pending) (b : UInt8) : Prop where
  low : p.low ≤ b.toNat
  high : b.toNat ≤ p.high

/-- Bytes are owed, and each of them brings six bits. -/
structure Sound (p : Pending) : Prop where
  owed : 0 < p.owed
  low : 128 ≤ p.low
  nonempty : p.low ≤ p.high
  high : p.high ≤ 191

theorem sound_next {p : Pending} (b : UInt8) (h : 1 < p.owed) : (p.next b).Sound := by
  constructor
  · exact Nat.sub_pos_of_lt h
  all_goals simp

/-- The pending bits are the highest ones, and the next six make up a byte in the range. -/
theorem admits_iff {p : Pending} {n k : Nat} (hp : p.Sound) (hk : p.owed = k + 1) :
    p.Admits n ↔ p.bits = n / 64 ^ (k + 1) ∧ p.low ≤ n / 64 ^ k % 64 + 128 ∧
      n / 64 ^ k % 64 + 128 ≤ p.high := by
  have hdiv : n / 64 ^ (k + 1) = n / 64 ^ k / 64 := by rw [Nat.pow_succ, Nat.div_div_eq_div_mul]
  have howed : p.owed - 1 = k := by omega
  have hlow := hp.low
  have hhigh := hp.high
  rw [hdiv]
  constructor
  · rintro ⟨hmin, hmax⟩
    rw [howed] at hmin hmax
    omega
  · intro h
    constructor <;> rw [howed] <;> omega

theorem admits_next {p : Pending} {b : UInt8} {n k : Nat} (hk : p.owed = k + 2) :
    (p.next b).Admits n ↔ (p.next b).bits = n / 64 ^ (k + 1) := by
  have howed : (p.next b).owed = k + 1 := by simp [hk]
  rw [admits_iff (sound_next b (by omega)) howed, next_low, next_high]
  omega

/-- The next byte of a character that can come of what is pending brings its next bits. -/
theorem takes_iff {p : Pending} {b : UInt8} {n k : Nat} (hp : p.Sound) (hk : p.owed = k + 1) :
    p.Takes b ∧ (p.next b).bits = n / 64 ^ k ↔
      p.Admits n ∧ UInt8.ofNat (n / 64 ^ k % 64 + 128) = b := by
  have hlow := hp.low
  have hhigh := hp.high
  have hdiv : n / 64 ^ (k + 1) = n / 64 ^ k / 64 := by rw [Nat.pow_succ, Nat.div_div_eq_div_mul]
  rw [admits_iff hp hk, hdiv, next_bits, ← UInt8.toNat_inj, UInt8.toNat_ofNat']
  constructor
  · rintro ⟨⟨hmin, hmax⟩, hbits⟩
    omega
  · rintro ⟨⟨hbits, hmin, hmax⟩, hb⟩
    exact ⟨⟨by omega, by omega⟩, by omega⟩

end Pending

theorem Lead.sound {b : UInt8} {p : Pending} (h : Lead b p) : p.Sound := by
  cases h with
  | two => constructor <;> simp
  | three _ _ hlow hhigh =>
      rw [eq_ite_iff] at hlow hhigh
      constructor <;> dsimp only <;> omega
  | four _ _ hlow hhigh =>
      rw [eq_ite_iff] at hlow hhigh
      constructor <;> dsimp only <;> omega

theorem items_begin {b : UInt8} {p : Pending} (h : Lead b p) (rest : List UInt8) :
    items none (b :: rest) = items (some p) rest := by
  simp [items, step, begin_of_lead h]

theorem items_last {p : Pending} {b : UInt8} (h : p.Takes b) (howed : p.owed = 1)
    (rest : List UInt8) :
    items (some p) (b :: rest) = some (Char.ofNat (p.next b).bits) :: items none rest := by
  simp [items, step, h.low, h.high, howed]

theorem items_next {p : Pending} {b : UInt8} (h : p.Takes b) (howed : 1 < p.owed)
    (rest : List UInt8) : items (some p) (b :: rest) = items (some (p.next b)) rest := by
  simp only [items, step, h.low, h.high, Nat.not_le.mpr howed, decide_true, Bool.and_self, if_true,
    if_false, List.nil_append]
  rfl

theorem items_break {p : Pending} {b : UInt8} (h : ¬ p.Takes b) (rest : List UInt8) :
    items (some p) (b :: rest) = none :: items none (b :: rest) := by
  have hrange : (p.low ≤ b.toNat && b.toNat ≤ p.high) = false := by
    rw [Bool.eq_false_iff]
    intro ht
    simp only [Bool.and_eq_true, decide_eq_true_eq] at ht
    exact h ⟨ht.1, ht.2⟩
  simp [items, step, hrange]

/-- The bytes that are owed to a character are read as this character. -/
theorem items_continuation {p : Pending} {n k : Nat} (hp : p.Sound) (hk : p.owed = k + 1)
    (h : p.Admits n) (rest : List UInt8) :
    items (some p) (continuation p.owed n ++ rest) = some (Char.ofNat n) :: items none rest := by
  rw [hk, continuation, List.cons_append]
  generalize hb : UInt8.ofNat (n / 64 ^ k % 64 + 128) = b
  obtain ⟨htakes, hbits⟩ := (Pending.takes_iff hp hk).mpr ⟨h, hb⟩
  -- On the number of bytes after the next one, which brings the bits of the number above them.
  induction k generalizing p b with
  | zero =>
      rw [items_last htakes hk, hbits, Nat.pow_zero, Nat.div_one]
      rfl
  | succ k ih =>
      have hnext : (p.next b).owed = k + 1 := by simp [hk]
      have hsound := Pending.sound_next b (p := p) (by omega)
      have hadmits := (Pending.admits_next hk).mpr hbits
      obtain ⟨htakes', hbits'⟩ := (Pending.takes_iff hsound hnext).mpr ⟨hadmits, rfl⟩
      rw [items_next htakes (by omega), continuation, List.cons_append]
      exact ih hsound hnext hadmits _ rfl htakes' hbits'

/-- A character is read from its bytes, whatever comes after them. -/
theorem items_encode (c : Char) (rest : List UInt8) :
    items none (String.utf8EncodeChar c ++ rest) = some c :: items none rest := by
  have hself : Char.ofNat c.toNat = c := Char.ofNat_toNat c
  obtain ⟨b, hlt, hb⟩ | ⟨b, p, hlead, hadmits, he⟩ := exists_lead c
  · have he := encode_of_lt hlt
    rw [← hb, hself] at he
    rw [he, List.singleton_append, items, step, begin, if_pos hlt, ← hb, hself]
    rfl
  · have hsound := hlead.sound
    obtain ⟨k, hk⟩ := Nat.exists_eq_succ_of_ne_zero (Nat.ne_of_gt hsound.owed)
    rw [he, List.cons_append, items_begin hlead, items_continuation hsound hk hadmits, hself]

/-- Bytes after which something is pending. -/
structure Leads (begun : List UInt8) (p : Pending) : Prop where
  sound : p.Sound
  items : ∀ rest, items none (begun ++ rest) = items (some p) rest
  completes : ∀ n, p.Admits n →
    ∃ c : Char, c.toNat = n ∧ String.utf8EncodeChar c = begun ++ continuation p.owed n

theorem Lead.leads {b : UInt8} {p : Pending} (h : Lead b p) : Leads [b] p :=
  ⟨h.sound, items_begin h, fun _ => h.exists_char⟩

namespace Leads
variable {begun : List UInt8} {p : Pending} {b : UInt8}

theorem next (h : Leads begun p) (htakes : p.Takes b) (howed : 1 < p.owed) :
    Leads (begun ++ [b]) (p.next b) where
  sound := Pending.sound_next b howed
  items rest := by
    rw [List.append_assoc, h.items, List.singleton_append, items_next htakes howed]
  completes n hn := by
    obtain ⟨k, hk⟩ := Nat.exists_eq_add_of_lt howed
    have hk : p.owed = k + 2 := by omega
    have hbits := (Pending.admits_next hk).mp hn
    obtain ⟨hadmits, hb⟩ := (Pending.takes_iff h.sound hk).mp ⟨htakes, hbits⟩
    obtain ⟨c, rfl, hc⟩ := h.completes n hadmits
    have hnext : (p.next b).owed = k + 1 := by simp [hk]
    refine ⟨c, rfl, ?_⟩
    rw [hc, hk, continuation, hb, hnext, List.append_assoc, List.singleton_append]

theorem last (h : Leads begun p) (htakes : p.Takes b) (howed : p.owed = 1) :
    String.utf8EncodeChar (Char.ofNat (p.next b).bits) = begun ++ [b] := by
  have hbits : (p.next b).bits = (p.next b).bits / 64 ^ 0 := (Nat.div_one _).symm
  obtain ⟨hadmits, hb⟩ := (Pending.takes_iff h.sound howed).mp ⟨htakes, hbits⟩
  obtain ⟨c, hc, hbytes⟩ := h.completes _ hadmits
  rw [← hc, Char.ofNat_toNat, hbytes, howed, continuation, hb, continuation]

theorem ne_nil (h : Leads begun p) : begun ≠ [] := by
  rintro rfl
  have hitems := h.items []
  cases hitems

theorem begins (h : Leads begun p) : Begins begun := by
  have hpos : 0 < 64 ^ (p.owed - 1) := Nat.pow_pos (by decide)
  have hlow := h.sound.low
  have hle := h.sound.nonempty
  have hdiv := Nat.mul_div_cancel (p.low - 128 + 64 * p.bits) hpos
  have hadmits : p.Admits ((p.low - 128 + 64 * p.bits) * 64 ^ (p.owed - 1)) := by
    constructor <;> rw [hdiv] <;> omega
  obtain ⟨c, _, hc⟩ := h.completes _ hadmits
  exact ⟨c, hc ▸ List.prefix_append _ _⟩

theorem not_encode_append (h : Leads begun p) (hb : ¬ p.Takes b) (c : Char)
    (others more : List UInt8) : String.utf8EncodeChar c ++ others ≠ begun ++ b :: more := by
  intro he
  have hitems := items_encode c others
  rw [he, h.items, items_break hb] at hitems
  cases hitems

/-- What the next byte does not continue is invalid up to there. -/
theorem isInvalid (h : Leads begun p) {rest : List UInt8} (hrest : ∀ b ∈ rest.head?, ¬ p.Takes b) :
    IsInvalid begun rest := by
  refine ⟨h.ne_nil, ?_, .inl h.begins, ?_⟩
  · rintro c ⟨others, he⟩
    cases rest with
    | nil =>
        have hitems := items_encode c others
        rw [he, h.items] at hitems
        cases hitems
    | cons b rest => exact h.not_encode_append (hrest b rfl) c others rest he
  · rintro longer hlonger hlt ⟨c, others, he⟩
    obtain ⟨more, rfl⟩ :=
      List.prefix_of_prefix_length_le (List.prefix_append _ _) hlonger (Nat.le_of_lt hlt)
    have hmore := (List.prefix_append_right_inj begun).mp hlonger
    cases more with
    | nil => simp at hlt
    | cons b more =>
        obtain ⟨tail, rfl⟩ := hmore
        refine h.not_encode_append (hrest b rfl) c [] (more ++ others) ?_
        rw [List.append_nil, ← he, List.append_assoc, List.cons_append]

end Leads

/-- A byte that begins no character. -/
theorem isInvalid_singleton {b : UInt8} (h : begin b = ([none], none)) (rest : List UInt8) :
    IsInvalid [b] rest := by
  have hnone : ∀ (c : Char) (others more : List UInt8),
      String.utf8EncodeChar c ++ others ≠ b :: more := by
    intro c others more he
    have hitems := items_encode c others
    rw [he, items, step, h] at hitems
    cases hitems
  refine ⟨List.cons_ne_nil _ _, ?_, .inr rfl, ?_⟩
  · rintro c ⟨others, he⟩
    exact hnone c others rest he
  · rintro longer ⟨more, hlonger⟩ hlt ⟨c, others, he⟩
    cases longer with
    | nil => simp at hlt
    | cons d longer =>
        obtain ⟨rfl, _⟩ := List.cons.inj hlonger
        exact hnone c [] (longer ++ others) (by rw [List.append_nil, ← he, List.cons_append])

/-- The text of some items, with a replacement character for what is invalid. -/
def lossy (items : List Item) : List Char := items.map fun item => item.getD '\ufffd'

theorem lossy_some (c : Char) (items : List Item) : lossy (some c :: items) = c :: lossy items :=
  rfl

theorem lossy_none (items : List Item) : lossy (none :: items) = '\ufffd' :: lossy items := rfl

/-- Bytes are read as the text that is given for them, between characters and within one. -/
theorem reads_items (bytes : List UInt8) :
    Reads bytes (lossy (items none bytes)) ∧
      ∀ begun p, Leads begun p → Reads (begun ++ bytes) (lossy (items (some p) bytes)) := by
  induction bytes with
  | nil => exact ⟨.done, fun begun p h => .invalid (h.isInvalid nofun) .done⟩
  | cons b rest ih =>
      obtain ⟨hrest, hpending⟩ := ih
      -- The byte that breaks a character off is read once more, as the first one of what follows.
      have hnone : Reads (b :: rest) (lossy (items none (b :: rest))) := by
        obtain ⟨hlt, hb⟩ | hb | ⟨p, hlead⟩ := begin_cases b
        · have hchar := Reads.char (Char.ofNat b.toNat) hrest
          rw [encode_of_lt hlt] at hchar
          rwa [items, step, hb]
        · rw [items, step, hb]
          exact .invalid (isInvalid_singleton hb rest) hrest
        · rw [items_begin hlead]
          exact hpending [b] p hlead.leads
      refine ⟨hnone, fun begun p h => ?_⟩
      by_cases htakes : p.Takes b
      · rw [← List.singleton_append, ← List.append_assoc]
        by_cases howed : 1 < p.owed
        · rw [List.singleton_append, items_next htakes howed]
          exact hpending _ _ (h.next htakes howed)
        · have hone : p.owed = 1 := Nat.le_antisymm (Nat.not_lt.mp howed) h.sound.owed
          rw [List.singleton_append, items_last htakes hone, lossy_some, ← h.last htakes hone]
          exact .char _ hrest
      · rw [items_break htakes, lossy_none]
        refine .invalid (h.isInvalid fun d hd => ?_) hnone
        obtain rfl := Option.some.inj hd
        exact htakes

theorem IsInvalid.length_le {bad bad' rest rest' : List UInt8} (h : IsInvalid bad rest)
    (h' : IsInvalid bad' rest') (he : bad' ++ rest' = bad ++ rest) : bad'.length ≤ bad.length := by
  rw [← Nat.not_lt]
  intro hlt
  have hpos := List.length_pos_iff.mpr h.nonempty
  have hnot := h.longest bad' ⟨rest', he⟩ hlt
  obtain hbegins | hone := h'.begins
  · exact hnot hbegins
  · omega

theorem encode_ne_nil (c : Char) : String.utf8EncodeChar c ≠ [] := by
  intro hnil
  have hitems := items_encode c []
  rw [hnil] at hitems
  cases hitems

/-- Bytes cannot be read in two ways. -/
theorem Reads.unique {bytes : List UInt8} {text other : List Char} (h : Reads bytes text)
    (h' : Reads bytes other) : text = other := by
  induction h generalizing other with
  | done =>
      generalize he : [] = bytes at h'
      cases h' with
      | done => rfl
      | char c => exact absurd (List.append_eq_nil_iff.mp he.symm).1 (encode_ne_nil c)
      | invalid hbad => exact absurd (List.append_eq_nil_iff.mp he.symm).1 hbad.nonempty
  | @char c rest text hrest ih =>
      generalize he : String.utf8EncodeChar c ++ rest = bytes at h'
      cases h' with
      | done => exact absurd (List.append_eq_nil_iff.mp he).1 (encode_ne_nil c)
      | @char d rest' other hrest' =>
          have hitems := items_encode c rest
          rw [he, items_encode] at hitems
          obtain rfl := Option.some.inj (List.cons.inj hitems).1
          rw [ih (List.append_cancel_left he ▸ hrest')]
      | invalid hbad => exact absurd ⟨rest, he⟩ (hbad.noChar c)
  | @invalid bad rest text hbad hrest ih =>
      generalize he : bad ++ rest = bytes at h'
      cases h' with
      | done => exact absurd (List.append_eq_nil_iff.mp he).1 hbad.nonempty
      | @char d rest' => exact absurd ⟨rest', he.symm⟩ (hbad.noChar d)
      | @invalid bad' rest' other hbad' hrest' =>
          have hlength := Nat.le_antisymm (hbad'.length_le hbad he) (hbad.length_le hbad' he.symm)
          obtain ⟨rfl, rfl⟩ := List.append_inj he hlength
          rw [ih hrest']

/-- The decoding is the one text that the bytes are read as. -/
theorem reads_iff {bytes : List UInt8} {text : List Char} :
    Reads bytes text ↔ text = decodeLossy bytes :=
  ⟨fun h => h.unique (reads_items bytes).1, fun h => h ▸ (reads_items bytes).1⟩

/-- Two of the three bytes of a character are replaced as one. -/
example : decodeLossy [0xe2, 0x82, 0x61] = ['\ufffd', 'a'] := by decide

/-- Text in UTF-8 is read as it is. -/
theorem decodeLossy_encode (text : List Char) : decodeLossy (encode text) = text := by
  induction text with
  | nil => rfl
  | cons c text ih =>
      have hitems := items_encode c (encode text)
      have hlossy := lossy_some c (items none (encode text))
      rw [← hitems] at hlossy
      exact hlossy.trans (congrArg (List.cons c) ih)

end Utf8
end LiquidsoapHighlight
