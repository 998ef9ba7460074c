import Mathlib.Data.List.Basic
import Mathlib.Data.List.Forall2
import Mathlib.Tactic.NormNum
import Mathlib.Tactic.Ring
import Mathlib.Tactic.SplitIfs

/-!
# UTF-8, a byte at a time

A decoder keeps between two bytes what it has read of a character, so it may be handed its bytes in
pieces. A byte that fits nowhere, and a character that is never finished, each give one
replacement character. Decoding every piece on its own keeps the text where no piece ends inside a
character, and writes two or more replacement characters over each character that is cut.

A number of a fixed width lies in its bytes with the smallest first. What is read where it was
written is that number, and a read behind other bytes is a read of what follows them.
-/

namespace Clearotron.Utf8

/-- What has been read of a character: how many bytes are missing, the bits so far, and the range
the next byte lies in. -/
structure Partly where
  needed : Nat
  point : Nat
  lower : Nat
  upper : Nat
deriving DecidableEq, Repr

/-- Between two characters. -/
def whole : Partly := ⟨0, 0, 0x80, 0xBF⟩

def replacement : Char := Char.ofNat 0xFFFD

/-- The first byte of a character. -/
def lead (n : Nat) : Partly × List Char :=
  if n < 0x80 then (whole, [Char.ofNat n])
  else if n < 0xC2 then (whole, [replacement])
  else if n < 0xE0 then (⟨1, n - 0xC0, 0x80, 0xBF⟩, [])
  else if n < 0xF0 then
    -- the ranges shut out overlong forms and surrogates
    (⟨2, n - 0xE0, if n = 0xE0 then 0xA0 else 0x80, if n = 0xED then 0x9F else 0xBF⟩, [])
  else if n < 0xF5 then
    (⟨3, n - 0xF0, if n = 0xF0 then 0x90 else 0x80, if n = 0xF4 then 0x8F else 0xBF⟩, [])
  else (whole, [replacement])

def step (s : Partly) (b : UInt8) : Partly × List Char :=
  if s.needed = 0 then lead b.toNat
  else if s.lower ≤ b.toNat ∧ b.toNat ≤ s.upper then
    if s.needed = 1 then (whole, [Char.ofNat (s.point * 64 + (b.toNat - 0x80))])
    else (⟨s.needed - 1, s.point * 64 + (b.toNat - 0x80), 0x80, 0xBF⟩, [])
  -- the character is given up, and the byte is read as a first one
  else ((lead b.toNat).1, replacement :: (lead b.toNat).2)

def run : Partly → List UInt8 → Partly × List Char
  | s, [] => (s, [])
  | s, b :: bs => ((run (step s b).1 bs).1, (step s b).2 ++ (run (step s b).1 bs).2)

/-- What the end of the bytes leaves of a character. -/
def flush (s : Partly) : List Char := if s.needed = 0 then [] else [replacement]

/-- The text of some bytes read on their own. -/
def decode (bs : List UInt8) : List Char := (run whole bs).2 ++ flush (run whole bs).1

/-- The bytes of a text. -/
def encode (text : List Char) : List UInt8 := text.flatMap String.utf8EncodeChar

@[simp] theorem encode_nil : encode [] = [] := rfl

@[simp] theorem encode_cons (c : Char) (text : List Char) :
    encode (c :: text) = String.utf8EncodeChar c ++ encode text := rfl

@[simp] theorem encode_append (a b : List Char) : encode (a ++ b) = encode a ++ encode b :=
  List.flatMap_append

@[simp] theorem run_nil (s : Partly) : run s [] = (s, []) := rfl

@[simp] theorem flush_whole : flush whole = [] := rfl

@[simp] theorem decode_nil : decode [] = [] := rfl

/-- Bytes may be handed over in pieces. -/
theorem run_append (s : Partly) (a b : List UInt8) :
    run s (a ++ b) = ((run (run s a).1 b).1, (run s a).2 ++ (run (run s a).1 b).2) := by
  induction a generalizing s with
  | nil => rfl
  | cons x a ih => simp [run, ih, List.append_assoc]

/-- The bytes that are missing of a character, each in its range. -/
inductive Spells : Partly → List UInt8 → Char → Prop
  | last {s : Partly} {b : UInt8} {c : Char} (needed : s.needed = 1) (low : s.lower ≤ b.toNat)
      (high : b.toNat ≤ s.upper) (own : Char.ofNat (s.point * 64 + (b.toNat - 0x80)) = c) :
      Spells s [b] c
  | inside {s : Partly} {b : UInt8} {bs : List UInt8} {c : Char} (needed : 1 < s.needed)
      (low : s.lower ≤ b.toNat) (high : b.toNat ≤ s.upper)
      (rest : Spells ⟨s.needed - 1, s.point * 64 + (b.toNat - 0x80), 0x80, 0xBF⟩ bs c) :
      Spells s (b :: bs) c

/-- Is this a byte inside a character? -/
def Continues (b : UInt8) : Prop := 0x80 ≤ b.toNat ∧ b.toNat ≤ 0xBF

section Character

variable {s : Partly} {b : UInt8} {c : Char}

theorem step_last (needed : s.needed = 1) (low : s.lower ≤ b.toNat) (high : b.toNat ≤ s.upper) :
    step s b = (whole, [Char.ofNat (s.point * 64 + (b.toNat - 0x80))]) := by
  simp [step, needed, low, high]

theorem step_inside (needed : 1 < s.needed) (low : s.lower ≤ b.toNat)
    (high : b.toNat ≤ s.upper) :
    step s b = (⟨s.needed - 1, s.point * 64 + (b.toNat - 0x80), 0x80, 0xBF⟩, []) := by
  have some_left : s.needed ≠ 0 := by omega
  have more_left : s.needed ≠ 1 := by omega
  simp [step, some_left, more_left, low, high]

theorem Spells.ne_nil {bs : List UInt8} (spells : Spells s bs c) : bs ≠ [] := by
  cases spells <;> simp

theorem Spells.needed_pos {bs : List UInt8} (spells : Spells s bs c) : s.needed ≠ 0 := by
  cases spells with
  | last needed => omega
  | inside needed => omega

theorem Spells.run {bs : List UInt8} (spells : Spells s bs c) : run s bs = (whole, [c]) := by
  induction spells with
  | last needed low high own => simp [Utf8.run, step_last needed low high, own]
  | inside needed low high rest ih => simp [Utf8.run, step_inside needed low high, ih]

/-- A character cut short leaves nothing but bytes still missing. -/
theorem Spells.cut {p q : List UInt8} (spells : Spells s (p ++ q) c) (rest : q ≠ []) :
    (Utf8.run s p).2 = [] ∧ (Utf8.run s p).1.needed ≠ 0 := by
  induction p generalizing s with
  | nil => exact ⟨rfl, spells.needed_pos⟩
  | cons b p ih =>
    rw [List.cons_append] at spells
    generalize tail : p ++ q = bs at spells
    cases spells with
    | last => exact absurd (List.append_eq_nil_iff.mp tail).2 rest
    | inside needed low high rest' =>
      have := ih (tail ▸ rest')
      simpa [Utf8.run, step_inside needed low high] using this

theorem toNat_ofNat {n : Nat} (small : n < 256) : (UInt8.ofNat n).toNat = n :=
  UInt8.toNat_ofNat_of_lt' small

theorem lead_two {n : Nat} (low : 0xC2 ≤ n) (high : n < 0xE0) :
    lead n = (⟨1, n - 0xC0, 0x80, 0xBF⟩, []) := by
  unfold lead
  rw [if_neg (by omega), if_neg (by omega), if_pos high]

theorem lead_three {n : Nat} (low : 0xE0 ≤ n) (high : n < 0xF0) :
    lead n = (⟨2, n - 0xE0, if n = 0xE0 then 0xA0 else 0x80,
      if n = 0xED then 0x9F else 0xBF⟩, []) := by
  unfold lead
  rw [if_neg (by omega), if_neg (by omega), if_neg (by omega), if_pos high]

theorem lead_four {n : Nat} (low : 0xF0 ≤ n) (high : n < 0xF5) :
    lead n = (⟨3, n - 0xF0, if n = 0xF0 then 0x90 else 0x80,
      if n = 0xF4 then 0x8F else 0xBF⟩, []) := by
  unfold lead
  rw [if_neg (by omega), if_neg (by omega), if_neg (by omega), if_neg (by omega), if_pos high]

/-- The low six bits of a number, as a byte inside a character. -/
theorem continues_six (n : Nat) : Continues (UInt8.ofNat (n % 64 + 128)) := by
  rw [Continues, toNat_ofNat (by omega)]
  omega

/-- The last byte of a character, from what it leaves to be read. -/
theorem Spells.six {n point lower upper : Nat} (low : lower ≤ n % 64 + 128)
    (high : n % 64 + 128 ≤ upper) (own : Char.ofNat (point * 64 + n % 64) = c) :
    Spells ⟨1, point, lower, upper⟩ [UInt8.ofNat (n % 64 + 128)] c := by
  have value := toNat_ofNat (n := n % 64 + 128) (by omega)
  refine .last rfl (by rwa [value]) (by rwa [value]) ?_
  rw [value]
  simpa using own

/-- A byte of a character before its last. -/
theorem Spells.six_more {n needed point lower upper : Nat} {bs : List UInt8} (more : needed ≠ 0)
    (low : lower ≤ n % 64 + 128) (high : n % 64 + 128 ≤ upper)
    (rest : Spells ⟨needed, point * 64 + n % 64, 0x80, 0xBF⟩ bs c) :
    Spells ⟨needed + 1, point, lower, upper⟩ (UInt8.ofNat (n % 64 + 128) :: bs) c := by
  have value := toNat_ofNat (n := n % 64 + 128) (by omega)
  refine .inside (by simp; omega) (by rwa [value]) (by rwa [value]) ?_
  rw [value]
  simpa using rest

/-- A character is one ASCII byte, or a first byte and those it asks for. -/
theorem encode_cases (c : Char) :
    (c.toNat < 0x80 ∧ String.utf8EncodeChar c = [UInt8.ofNat c.toNat]) ∨
    (0x80 ≤ c.toNat ∧ ∃ b bs, String.utf8EncodeChar c = b :: bs ∧ (lead b.toNat).2 = [] ∧
      Spells (lead b.toNat).1 bs c ∧ ∀ d ∈ bs, Continues d) := by
  have valid : c.toNat < 0xD800 ∨ (0xDFFF < c.toNat ∧ c.toNat < 0x110000) := c.valid
  have own : Char.ofNat c.toNat = c := Char.ofNat_toNat c
  unfold String.utf8EncodeChar
  simp only [show c.val.toNat = c.toNat from rfl]
  generalize c.toNat = n at valid own
  by_cases one : n ≤ 0x7F
  · exact .inl ⟨by omega, by simp [one]⟩
  right
  by_cases two : n ≤ 0x7FF
  · have first := toNat_ofNat (n := n / 64 % 32 + 0xC0) (by omega)
    refine ⟨by omega, _, _, by rw [if_neg one, if_pos two], ?_⟩
    rw [first, lead_two (by omega) (by omega)]
    refine ⟨rfl, Spells.six (by omega) (by omega) ?_, by
      simp only [List.forall_mem_cons, continues_six, List.not_mem_nil, false_imp_iff,
        implies_true, and_self]⟩
    rw [← own]
    congr 1
    omega
  by_cases three : n ≤ 0xFFFF
  · have first := toNat_ofNat (n := n / 4096 % 16 + 0xE0) (by omega)
    refine ⟨by omega, _, _, by rw [if_neg one, if_neg two, if_pos three], ?_⟩
    rw [first, lead_three (by omega) (by omega)]
    refine ⟨rfl, Spells.six_more (by decide) (by split <;> omega) (by split <;> omega)
      (Spells.six (by omega) (by omega) ?_), by
      simp only [List.forall_mem_cons, continues_six, List.not_mem_nil, false_imp_iff,
        implies_true, and_self]⟩
    rw [← own]
    congr 1
    omega
  · have first := toNat_ofNat (n := n / 262144 % 8 + 0xF0) (by omega)
    refine ⟨by omega, _, _, by rw [if_neg one, if_neg two, if_neg three], ?_⟩
    rw [first, lead_four (by omega) (by omega)]
    refine ⟨rfl, Spells.six_more (by decide) (by split <;> omega) (by split <;> omega)
      (Spells.six_more (by decide) (by omega) (by omega)
        (Spells.six (by omega) (by omega) ?_)), by
      simp only [List.forall_mem_cons, continues_six, List.not_mem_nil, false_imp_iff,
        implies_true, and_self]⟩
    rw [← own]
    congr 1
    omega

/-- The bytes of a character give it back. -/
theorem run_encode (c : Char) : run whole (String.utf8EncodeChar c) = (whole, [c]) := by
  obtain ⟨ascii, bytes⟩ | ⟨_, b, bs, bytes, quiet, spells, _⟩ := encode_cases c
  · have value := toNat_ofNat (n := c.toNat) (by omega)
    simp [bytes, run, step, whole, lead, value, ascii]
  · have opened : step whole b = lead b.toNat := by simp [step, whole]
    simp [bytes, run, opened, quiet, spells.run]

theorem run_text (text : List Char) : run whole (encode text) = (whole, text) := by
  induction text with
  | nil => rfl
  | cons c text ih => rw [encode_cons, run_append, run_encode, ih]; rfl

/-- Text that is written and read again. -/
theorem decode_encode (text : List Char) : decode (encode text) = text := by
  simp [decode, run_text]

/-- A character that is cut is not ASCII; its first part is one replacement character, and its
second part holds bytes that only continue one. -/
theorem cut_character {p q : List UInt8} (bytes : String.utf8EncodeChar c = p ++ q) (first : p ≠ [])
    (second : q ≠ []) :
    0x80 ≤ c.toNat ∧ (run whole p).2 = [] ∧ (run whole p).1.needed ≠ 0 ∧
      ∀ d ∈ q, Continues d := by
  obtain ⟨b, p, rfl⟩ := List.exists_cons_of_ne_nil first
  rw [List.cons_append] at bytes
  obtain ⟨_, single⟩ | ⟨wide, b', bs, own, quiet, spells, inside⟩ := encode_cases c
  · rw [single, List.cons.injEq] at bytes
    exact absurd (List.append_eq_nil_iff.mp bytes.2.symm).2 second
  · rw [own, List.cons.injEq] at bytes
    obtain ⟨rfl, rfl⟩ := bytes
    have opened : step whole b' = lead b'.toNat := by simp [step, whole]
    have cut := spells.cut second
    refine ⟨wide, ?_, ?_, fun d mem => inside d (List.mem_append_right _ mem)⟩
    · simpa [run, opened, quiet] using cut.1
    · simpa [run, opened] using cut.2

/-- Bytes that only continue a character, read on their own. -/
theorem run_continues {q : List UInt8} (inside : ∀ d ∈ q, Continues d) :
    run whole q = (whole, List.replicate q.length replacement) := by
  induction q with
  | nil => rfl
  | cons b q ih =>
    have low := (inside b (by simp)).1
    have high := (inside b (by simp)).2
    have stray : step whole b = (whole, [replacement]) := by
      have opened : step whole b = lead b.toNat := by simp [step, whole]
      rw [opened]
      unfold lead
      rw [if_neg (by omega), if_pos (by omega)]
    rw [run, stray, ih fun d mem => inside d (List.mem_cons_of_mem _ mem)]
    rfl

end Character

theorem encode_eq_nil {text : List Char} : encode text = [] ↔ text = [] := by
  cases text with
  | nil => simp
  | cons c text => simp [String.utf8EncodeChar_ne_nil]

theorem encode_injective {a b : List Char} (same : encode a = encode b) : a = b := by
  rw [← decode_encode a, same, decode_encode]

/-- Does this piece hold whole characters only? -/
def Whole (piece : List UInt8) : Prop := ∃ text, piece = encode text

/-- The text of pieces that are each read on their own. -/
def decodeEach (pieces : List (List UInt8)) : List Char := pieces.flatMap decode

@[simp] theorem decodeEach_nil : decodeEach [] = [] := rfl

@[simp] theorem decodeEach_cons (p : List UInt8) (pieces : List (List UInt8)) :
    decodeEach (p :: pieces) = decode p ++ decodeEach pieces := rfl

/-- A text and what is read of it when some of its characters are cut: none of ASCII, and two
replacement characters at least for each that is. -/
inductive Torn : List Char → List Char → Prop
  | nil : Torn [] []
  | keep {a b : List Char} (c : Char) (rest : Torn a b) : Torn (c :: a) (c :: b)
  | tear {a b : List Char} (c : Char) (k : Nat) (wide : 0x80 ≤ c.toNat) (twice : 2 ≤ k)
      (rest : Torn a b) : Torn (c :: a) (List.replicate k replacement ++ b)

theorem Torn.refl (a : List Char) : Torn a a := by
  induction a with
  | nil => exact .nil
  | cons c a ih => exact .keep c ih

theorem Torn.kept {a b : List Char} (torn : Torn a b) (pre : List Char) :
    Torn (pre ++ a) (pre ++ b) := by
  induction pre with
  | nil => exact torn
  | cons c pre ih => exact .keep c ih

theorem Torn.length_le {a b : List Char} (torn : Torn a b) : a.length ≤ b.length := by
  induction torn with
  | nil => rfl
  | keep c rest ih => simpa using ih
  | tear c k wide twice rest ih => simp; omega

/-- A text is torn, or longer than it was, with a replacement character in it. -/
theorem Torn.eq_or_longer {a b : List Char} (torn : Torn a b) :
    a = b ∨ (a.length < b.length ∧ replacement ∈ b) := by
  induction torn with
  | nil => exact .inl rfl
  | keep c rest ih =>
    obtain rfl | ⟨longer, mem⟩ := ih
    · exact .inl rfl
    · exact .inr ⟨by simpa using longer, List.mem_cons_of_mem _ mem⟩
  | tear c k wide twice rest ih =>
    have := rest.length_le
    refine .inr ⟨by simp; omega, List.mem_append_left _ ?_⟩
    exact List.mem_replicate.mpr ⟨by omega, rfl⟩

/-- A piece that starts with a text ends between two of its characters or inside one. -/
theorem split_encode {text : List Char} {p rest : List UInt8} (bytes : p ++ rest = encode text) :
    (∃ a b, text = a ++ b ∧ p = encode a ∧ rest = encode b) ∨
    (∃ a c b x y, text = a ++ c :: b ∧ String.utf8EncodeChar c = x ++ y ∧ x ≠ [] ∧ y ≠ [] ∧
      p = encode a ++ x ∧ rest = y ++ encode b) := by
  induction text generalizing p with
  | nil =>
    obtain ⟨rfl, rfl⟩ := List.append_eq_nil_iff.mp bytes
    exact .inl ⟨[], [], rfl, rfl, rfl⟩
  | cons c text ih =>
    rw [encode_cons] at bytes
    obtain ⟨y, own, rfl⟩ | ⟨p', rfl, rest'⟩ := List.append_eq_append_iff.mp bytes
    · rcases eq_or_ne p [] with rfl | first
      · exact .inl ⟨[], c :: text, rfl, rfl, by simp [own]⟩
      rcases eq_or_ne y [] with rfl | second
      · exact .inl ⟨[c], text, rfl, by simpa using own.symm, rfl⟩
      · exact .inr ⟨[], c, text, p, y, rfl, own, first, second, rfl, rfl⟩
    · obtain ⟨a, b, rfl, rfl, rfl⟩ | ⟨a, d, b, x, y, rfl, own, first, second, rfl, rfl⟩ :=
        ih rest'.symm
      · exact .inl ⟨c :: a, b, rfl, rfl, rfl⟩
      · exact .inr ⟨c :: a, d, b, x, y, rfl, own, first, second, by simp, rfl⟩

/-- One piece: what it leaves of a character is read as replacement characters. -/
theorem decode_piece {text : List Char} {p rest : List UInt8} (bytes : p ++ rest = encode text) :
    ∃ q text', (∀ d ∈ q, Continues d) ∧ rest = q ++ encode text' ∧ ∀ t', Torn text' t' →
      Torn text (decode p ++ (List.replicate q.length replacement ++ t')) ∧
      (decode p ++ (List.replicate q.length replacement ++ t') = text →
        Whole p ∧ q = [] ∧ t' = text') := by
  obtain ⟨a, b, rfl, rfl, rfl⟩ | ⟨a, c, b, x, y, rfl, own, first, second, rfl, rfl⟩ :=
    split_encode bytes
  · refine ⟨[], b, by simp, rfl, fun t' torn => ?_⟩
    simp only [decode_encode, List.length_nil, List.replicate_zero, List.nil_append]
    exact ⟨torn.kept a, fun same => ⟨⟨a, rfl⟩, by simp, List.append_cancel_left same⟩⟩
  · obtain ⟨wide, quiet, missing, inside⟩ := cut_character own first second
    have read : decode (encode a ++ x) = a ++ [replacement] := by
      simp [decode, run_append, run_text, quiet, flush, missing]
    have many : 1 ≤ y.length := List.length_pos_iff.mpr second
    refine ⟨y, b, inside, rfl, fun t' torn => ?_⟩
    have joined : a ++ [replacement] ++ (List.replicate y.length replacement ++ t') =
        a ++ (List.replicate (y.length + 1) replacement ++ t') := by
      simp [List.replicate_succ]
    rw [read, joined]
    refine ⟨(Torn.tear c _ wide (by omega) torn).kept a, fun same => ?_⟩
    have lengths := congrArg List.length same
    have := torn.length_le
    simp at lengths
    omega

/-- Bytes that continue a character that was cut, in front of a piece. -/
theorem decode_continued {q p : List UInt8} (inside : ∀ d ∈ q, Continues d) :
    decode (q ++ p) = List.replicate q.length replacement ++ decode p := by
  simp [decode, run_append, run_continues inside]

/-- Pieces each read on their own: the text, torn where a piece ends inside a character. -/
theorem decode_pieces {pieces : List (List UInt8)} {q : List UInt8} {text : List Char}
    (inside : ∀ d ∈ q, Continues d) (bytes : pieces.flatten = q ++ encode text) :
    ∃ t, decodeEach pieces = List.replicate q.length replacement ++ t ∧ Torn text t ∧
      (q = [] → t = text → ∀ p ∈ pieces, Whole p) := by
  induction pieces generalizing q text with
  | nil =>
    obtain ⟨rfl, none'⟩ := List.append_eq_nil_iff.mp bytes.symm
    obtain rfl := encode_eq_nil.mp none'
    exact ⟨[], rfl, .nil, by simp⟩
  | cons p pieces ih =>
    rw [List.flatten_cons] at bytes
    obtain ⟨q', rfl, rest⟩ | ⟨p', rfl, rest⟩ := List.append_eq_append_iff.mp bytes
    -- the piece holds no more than the character that was cut
    · have front : ∀ d ∈ p, Continues d := fun d mem => inside d (List.mem_append_left _ mem)
      have back : ∀ d ∈ q', Continues d := fun d mem => inside d (List.mem_append_right _ mem)
      obtain ⟨t, read, torn, all⟩ := ih back rest
      refine ⟨t, ?_, torn, fun empty same => ?_⟩
      · have own := decode_continued (p := []) front
        rw [List.append_nil, decode_nil, List.append_nil] at own
        rw [decodeEach_cons, own, read, List.length_append,
          List.replicate_add, List.append_assoc]
      · obtain ⟨rfl, rfl⟩ := List.append_eq_nil_iff.mp empty
        simpa using ⟨⟨[], rfl⟩, all rfl same⟩
    · obtain ⟨q', text', back, rest', step⟩ := decode_piece rest.symm
      obtain ⟨t', read, torn, all⟩ := ih back rest'
      obtain ⟨torn', only⟩ := step t' torn
      refine ⟨_, ?_, torn', fun empty same => ?_⟩
      · rw [decodeEach_cons, decode_continued inside, read, List.append_assoc]
      · obtain ⟨own, rfl, rfl⟩ := only same
        subst empty
        simpa using ⟨own, all rfl rfl⟩

/-- Reading pieces on their own gives the text exactly where none ends inside a character. -/
theorem decodeEach_eq_iff {pieces : List (List UInt8)} {text : List Char}
    (bytes : pieces.flatten = encode text) :
    decodeEach pieces = text ↔ ∀ p ∈ pieces, Whole p := by
  constructor
  · intro same
    obtain ⟨t, read, _, all⟩ := decode_pieces (q := []) (by simp) (by simpa using bytes)
    exact all rfl (by simpa [same] using read.symm)
  · intro all
    have joined : encode (decodeEach pieces) = pieces.flatten := by
      clear bytes
      induction pieces with
      | nil => rfl
      | cons p pieces ih =>
        obtain ⟨own, rfl⟩ := all p (by simp)
        have rest := ih fun p mem => all p (List.mem_cons_of_mem _ mem)
        rw [decodeEach_cons, decode_encode, encode_append, rest]
        rfl
    exact encode_injective (joined.trans bytes)

theorem Torn.modifyHead {xs ys : List (List Char)} {f g : List Char → List Char}
    (rows : List.Forall₂ Torn xs ys) (maps : ∀ a b, Torn a b → Torn (f a) (g b)) :
    List.Forall₂ Torn (xs.modifyHead f) (ys.modifyHead g) := by
  cases rows with
  | nil => exact .nil
  | cons head tail => exact .cons (maps _ _ head) tail

/-- An ASCII character parts a text and what is read of it at the same places. -/
theorem Torn.splitOn {a b : List Char} {mark : Char} (ascii : mark.toNat < 0x80)
    (torn : Torn a b) : List.Forall₂ Torn (a.splitOn mark) (b.splitOn mark) := by
  induction torn with
  | nil => exact .cons .nil .nil
  | keep c rest ih =>
    rw [List.splitOn_cons_eq_if_modifyHead, List.splitOn_cons_eq_if_modifyHead]
    split
    · exact .cons .nil ih
    · exact modifyHead ih fun _ _ torn => torn.keep c
  | @tear a b c k wide twice rest ih =>
    have apart : (c == mark) = false := by
      refine beq_false_of_ne fun same => ?_
      subst same
      omega
    have own : (replacement == mark) = false := by
      refine beq_false_of_ne fun same => ?_
      subst same
      exact absurd ascii (by decide)
    have front : (List.replicate k replacement ++ b).splitOn mark =
        (b.splitOn mark).modifyHead (List.replicate k replacement ++ ·) := by
      clear twice
      induction k with
      | zero =>
        rw [List.replicate_zero, List.nil_append]
        cases b.splitOn mark <;> rfl
      | succ k ih =>
        rw [List.replicate_succ, List.cons_append, List.splitOn_cons_eq_if_modifyHead, own, ih]
        cases b.splitOn mark <;> rfl
    rw [List.splitOn_cons_eq_if_modifyHead, apart, front]
    exact modifyHead ih fun _ _ torn => torn.tear c k wide twice

end Clearotron.Utf8

namespace Clearotron.Bytes

variable {k n i : ℕ} {l rest : List UInt8}

/-- The number of some bytes, the smallest first. -/
def value : List UInt8 → ℕ
  | [] => 0
  | b :: l => b.toNat + 256 * value l

/-- The bytes of a number. -/
def le : ℕ → ℕ → List UInt8
  | 0, _ => []
  | k + 1, n => UInt8.ofNat n :: le k (n / 256)

@[simp] theorem length_le (k n : ℕ) : (le k n).length = k := by
  induction k generalizing n with
  | zero => rfl
  | succ k ih => rw [le, List.length_cons, ih]

theorem value_le (fits : n < 256 ^ k) : value (le k n) = n := by
  induction k generalizing n with
  | zero =>
    rw [pow_zero, Nat.lt_one_iff] at fits
    rw [fits]
    rfl
  | succ k ih =>
    have smaller : n / 256 < 256 ^ k := Nat.div_lt_of_lt_mul (by rwa [pow_succ, mul_comm] at fits)
    rw [le, value, ih smaller, UInt8.toNat_ofNat']
    omega

/-- The number in `k` bytes from `i` on. -/
def readLE (k i : ℕ) (l : List UInt8) : ℕ := value ((l.drop i).take k)

theorem readLE_here (fits : n < 256 ^ k) : readLE k 0 (le k n ++ rest) = n := by
  have front : (le k n ++ rest).take k = le k n := List.take_left' (length_le k n)
  rw [readLE, List.drop_zero, front, value_le fits]

theorem readLE_append (x : List UInt8) : readLE k (x.length + i) (x ++ rest) = readLE k i rest := by
  rw [readLE, ← List.drop_drop, List.drop_left]
  rfl

theorem readLE_drop (j : ℕ) : readLE k i (l.drop j) = readLE k (j + i) l := by
  rw [readLE, List.drop_drop, readLE]

end Clearotron.Bytes
