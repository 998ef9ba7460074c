import Clearotron.Library.Utf8
import Clearotron.Register.Text

/-!
# The ledger read line by line

The ledger outgrew the longest string the platform holds, so it is read in pieces: each is decoded
on its own, and the text behind its last newline rides to the next. What is handed on is the lines
of the file exactly where no read ends inside a character and no line outgrows the platform.
-/

namespace Clearotron.LedgerLines

open Clearotron.Utf8

/-- `LEDGER_CHUNK`. -/
def ledgerChunk : Nat := 8 * 1024 * 1024

/-- The reads of a ledger up to its end: none is empty, none is more than the buffer holds, and
together they are the bytes of a text. -/
structure LedgerReads where
  reads : List (List UInt8)
  text : List Char
  bytes : reads.flatten = encode text
  filled : ∀ read ∈ reads, read ≠ [] ∧ read.length ≤ ledgerChunk

/-- What a walk leaves: the lines handed on, and what it returns. -/
structure Walked where
  handed : List (List Char)
  lines : Nat
  error : Option String
deriving DecidableEq

/-- The length of a text as the platform counts it. -/
def units (text : List Char) : Nat := (text.map fun c => if c.toNat < 0x10000 then 1 else 2).sum

/-- `ln.trim()`, as a condition. -/
def nonBlank (ln : List Char) : Bool := ln.any (!Text.isSpace ·)

/-- `if (ln.trim()) { onLine(ln); lines++; }` -/
def hand (w : List (List Char) × Nat) (ln : List Char) : List (List Char) × Nat :=
  if nonBlank ln then (w.1 ++ [ln], w.2 + 1) else w

/-- The end of the file. -/
def finish (carry : List Char) (w : List (List Char) × Nat) : Walked :=
  ⟨(hand w carry).1, (hand w carry).2, none⟩

/-- The text behind the last newline: `parts.pop()`. -/
def lineTail (text : List Char) : List Char := (text.splitOn '\n').getLastD []

/-- The loop over the reads; `limit` is the longest string the platform holds. -/
def walk (limit : Nat) : List Char → List (List Char) × Nat → List (List UInt8) → Walked
  | carry, w, [] => finish carry w
  | carry, w, read :: reads =>
    if read = [] then finish carry w
    else if limit < units (carry ++ decode read) then ⟨w.1, 0, some "Invalid string length"⟩
    else walk limit (lineTail (carry ++ decode read))
      (((carry ++ decode read).splitOn '\n').dropLast.foldl hand w) reads

def forEachLedgerLine (limit : Nat) (reads : List (List UInt8)) : Walked :=
  walk limit [] ([], 0) reads

/-- The non-blank lines of a text. -/
def ledgerLines (text : List Char) : List (List Char) := (text.splitOn '\n').filter nonBlank

/-- Was the whole ledger handed on, and nothing else? -/
def SeesLines (limit : Nat) (r : LedgerReads) : Prop :=
  forEachLedgerLine limit r.reads = ⟨ledgerLines r.text, (ledgerLines r.text).length, none⟩

/-- Each read fits into a string behind what was read before of its first line. -/
def Fits (limit : Nat) (reads : List (List UInt8)) : Prop :=
  ∀ pre read post, reads = pre ++ read :: post →
    units (lineTail (decodeEach pre)) + units (decode read) ≤ limit

theorem units_append (a b : List Char) : units (a ++ b) = units a + units b := by
  simp [units]

theorem foldl_hand (w : List (List Char) × Nat) (parts : List (List Char)) :
    parts.foldl hand w =
      (w.1 ++ parts.filter nonBlank, w.2 + (parts.filter nonBlank).length) := by
  induction parts generalizing w with
  | nil => simp
  | cons ln parts ih =>
    rw [List.foldl_cons, ih, hand]
    cases shown : nonBlank ln with
    | true => simp [shown, Nat.add_comm, Nat.add_left_comm]
    | false => simp [shown]

theorem lines_eq (x : List Char) :
    x.splitOn '\n' = (x.splitOn '\n').dropLast ++ [lineTail x] := by
  rw [lineTail, List.getLastD_eq_getLast?, List.getLast?_eq_getLast_of_ne_nil (by simp)]
  exact (List.dropLast_append_getLast (by simp)).symm

/-- A text that grows keeps its complete lines; what is added continues the last one. -/
theorem splitOn_append (x y : List Char) :
    (x ++ y).splitOn '\n' = (x.splitOn '\n').dropLast ++ (lineTail x ++ y).splitOn '\n' := by
  induction x with
  | nil => rfl
  | cons c x ih =>
    obtain ⟨l, ps, parts⟩ := List.exists_cons_of_ne_nil (List.splitOn_ne_nil '\n' x)
    rw [lineTail, parts] at ih
    rw [lineTail, List.cons_append, List.splitOn_cons_eq_if_modifyHead,
      List.splitOn_cons_eq_if_modifyHead c x, parts, ih]
    split
    · rfl
    · rename_i inLine
      cases ps with
      | nil => simp [List.splitOn_cons_eq_if_modifyHead, inLine]
      | cons l' ps => rfl

theorem lineTail_append (x y : List Char) : lineTail (x ++ y) = lineTail (lineTail x ++ y) := by
  obtain ⟨l, ps, parts⟩ := List.exists_cons_of_ne_nil
    (List.splitOn_ne_nil '\n' (lineTail x ++ y))
  show ((x ++ y).splitOn '\n').getLastD [] = ((lineTail x ++ y).splitOn '\n').getLastD []
  rw [splitOn_append, parts, List.getLastD_eq_getLast?, List.getLast?_append_cons,
    ← List.getLastD_eq_getLast?]

theorem newline_not_mem_of_mem_splitOn {x ln : List Char} (mem : ln ∈ x.splitOn '\n') :
    '\n' ∉ ln := by
  induction x generalizing ln with
  | nil => simp_all
  | cons c x ih =>
    obtain ⟨l, ps, parts⟩ := List.exists_cons_of_ne_nil (List.splitOn_ne_nil '\n' x)
    rw [parts] at ih
    rw [List.splitOn_cons_eq_if_modifyHead, parts] at mem
    split at mem
    · obtain rfl | mem := List.mem_cons.mp mem
      · simp
      · exact ih mem
    · rename_i inLine
      obtain rfl | mem := List.mem_cons.mp mem
      · have apart : '\n' ≠ c := fun same => inLine (by simp [← same])
        exact List.not_mem_cons_of_ne_of_not_mem apart (ih (by simp))
      · exact ih (List.mem_cons_of_mem _ mem)

theorem newline_not_mem_lineTail (x : List Char) : '\n' ∉ lineTail x :=
  newline_not_mem_of_mem_splitOn (x := x) (by rw [lines_eq x]; simp)

theorem splitOn_of_newline_not_mem {x : List Char} (plain : '\n' ∉ x) :
    x.splitOn '\n' = [x] := by
  rw [List.splitOn_eq_splitOnP]
  exact List.splitOnP_eq_singleton fun c mem => beq_false_of_ne fun same => plain (same ▸ mem)

theorem lineTail_of_newline_not_mem {x : List Char} (plain : '\n' ∉ x) : lineTail x = x := by
  rw [lineTail, splitOn_of_newline_not_mem plain]
  rfl

section Walk

variable {limit : Nat} {carry : List Char} {w : List (List Char) × Nat}
  {reads : List (List UInt8)}

/-- Where every read fits, the walk hands on the non-blank lines of what the reads give. -/
theorem walk_of_fits (filled : ∀ read ∈ reads, read ≠ []) (plain : '\n' ∉ carry)
    (fits : ∀ pre read post, reads = pre ++ read :: post →
      units (lineTail (carry ++ decodeEach pre)) + units (decode read) ≤ limit) :
    walk limit carry w reads =
      ⟨w.1 ++ ledgerLines (carry ++ decodeEach reads),
        w.2 + (ledgerLines (carry ++ decodeEach reads)).length, none⟩ := by
  induction reads generalizing carry w with
  | nil =>
    have own := foldl_hand w [carry]
    rw [List.foldl_cons, List.foldl_nil] at own
    simp [walk, finish, own, ledgerLines, decodeEach, splitOn_of_newline_not_mem plain]
  | cons read reads ih =>
    have first := fits [] read reads rfl
    rw [decodeEach_nil, List.append_nil, lineTail_of_newline_not_mem plain,
      ← units_append] at first
    have rest : ∀ pre read' post, reads = pre ++ read' :: post →
        units (lineTail (lineTail (carry ++ decode read) ++ decodeEach pre)) +
          units (decode read') ≤ limit := by
      intro pre read' post split
      have := fits (read :: pre) read' post (by rw [split]; rfl)
      rwa [decodeEach_cons, ← List.append_assoc, lineTail_append] at this
    rw [walk, if_neg (filled read (by simp)), if_neg (by omega),
      ih (fun r mem => filled r (List.mem_cons_of_mem _ mem)) (newline_not_mem_lineTail _) rest,
      foldl_hand, decodeEach_cons, ← List.append_assoc, ledgerLines, ledgerLines,
      splitOn_append (carry ++ decode read), List.filter_append]
    simp [Nat.add_assoc]

/-- A read that does not fit ends the walk with an error. -/
theorem walk_of_not_fits (filled : ∀ read ∈ reads, read ≠ []) (plain : '\n' ∉ carry)
    (done : (walk limit carry w reads).error = none) :
    ∀ pre read post, reads = pre ++ read :: post →
      units (lineTail (carry ++ decodeEach pre)) + units (decode read) ≤ limit := by
  induction reads generalizing carry w with
  | nil => intro pre read post split; simp at split
  | cons read reads ih =>
    rw [walk, if_neg (filled read (by simp))] at done
    split at done
    · cases done
    · rename_i room
      have own := ih (fun r mem => filled r (List.mem_cons_of_mem _ mem))
        (newline_not_mem_lineTail _) done
      intro pre read' post parts
      cases pre with
      | nil =>
        obtain ⟨rfl, rfl⟩ := List.cons.inj parts
        rw [decodeEach_nil, List.append_nil, lineTail_of_newline_not_mem plain,
          ← units_append]
        omega
      | cons r pre =>
        obtain ⟨rfl, rfl⟩ := List.cons.inj parts
        rw [decodeEach_cons, ← List.append_assoc, lineTail_append]
        exact own pre read' post rfl

end Walk

/-- How much of a line is handed on. -/
def weight (ln : List Char) : Nat := if nonBlank ln then ln.length else 0

theorem sum_weight (ls : List (List Char)) :
    (ls.map weight).sum = ((ls.filter nonBlank).map List.length).sum := by
  induction ls with
  | nil => rfl
  | cons ln ls ih =>
    rw [List.map_cons, List.sum_cons, ih, weight]
    cases shown : nonBlank ln <;> simp [shown]

/-- A torn line is handed on, and longer. -/
theorem weight_of_torn {a b : List Char} (torn : Torn a b) : a = b ∨ weight a < weight b := by
  refine torn.eq_or_longer.imp id fun ⟨longer, mem⟩ => ?_
  have shown : nonBlank b = true := List.any_eq_true.mpr ⟨_, mem, by decide⟩
  have most : weight a ≤ a.length := by unfold weight; split <;> omega
  simp only [weight, shown, if_true] at most ⊢
  omega

theorem eq_of_weight {as bs : List (List Char)} (rows : List.Forall₂ Torn as bs) :
    (as.map weight).sum ≤ (bs.map weight).sum ∧
      ((as.map weight).sum = (bs.map weight).sum → as = bs) := by
  induction rows with
  | nil => simp
  | cons torn rows ih =>
    simp only [List.map_cons, List.sum_cons]
    obtain rfl | heavier := weight_of_torn torn
    · exact ⟨by omega, fun same => by rw [ih.2 (by omega)]⟩
    · exact ⟨by omega, fun same => by omega⟩

/-- Lines that are cut are seen to be. -/
theorem ledgerLines_of_torn {a b : List Char} (torn : Torn a b)
    (same : ledgerLines b = ledgerLines a) : a = b := by
  have ascii : ('\n').toNat < 0x80 := by decide
  have rows := torn.splitOn ascii
  have sums : ((a.splitOn '\n').map weight).sum = ((b.splitOn '\n').map weight).sum := by
    rw [sum_weight, sum_weight, ← ledgerLines, ← ledgerLines, same]
  have joined := congrArg (List.intercalate ['\n']) ((eq_of_weight rows).2 sums)
  rwa [List.intercalate_splitOn, List.intercalate_splitOn] at joined

/-- Reads of whole characters, each of which fits, hand on the lines of the file. -/
theorem seesLines_of_whole {limit : Nat} {r : LedgerReads} (whole : ∀ read ∈ r.reads, Whole read)
    (fits : Fits limit r.reads) : SeesLines limit r := by
  have filled : ∀ read ∈ r.reads, read ≠ [] := fun read mem => (r.filled read mem).1
  have walked := @walk_of_fits limit [] ([], 0) r.reads filled (by simp) fits
  simp only [List.nil_append, Nat.zero_add] at walked
  rw [SeesLines, forEachLedgerLine, walked, (decodeEach_eq_iff r.bytes).mpr whole]

/-- What is added behind a newline adds its own lines. -/
theorem ledgerLines_append {x : List Char} (ended : lineTail x = []) (y : List Char) :
    ledgerLines (x ++ y) = ledgerLines x ++ ledgerLines y := by
  unfold ledgerLines
  rw [splitOn_append, ended, List.nil_append, List.filter_append, lines_eq x, ended,
    List.dropLast_concat, List.filter_append]
  simp [nonBlank]

theorem splitOn_line {ln : List Char} (plain : '\n' ∉ ln) :
    (ln ++ ['\n']).splitOn '\n' = [ln, []] := by
  induction ln with
  | nil => rfl
  | cons c ln ih =>
    have inLine : c ≠ '\n' := fun same => plain (by simp [same])
    rw [List.cons_append, List.splitOn_cons_eq_if_modifyHead,
      ih fun mem => plain (List.mem_cons_of_mem _ mem)]
    simp [inLine]

theorem ledgerLines_line {ln : List Char} (plain : '\n' ∉ ln) (shown : nonBlank ln = true) :
    ledgerLines (ln ++ ['\n']) = [ln] := by
  rw [ledgerLines, splitOn_line plain, List.filter_cons_of_pos shown]
  simp [nonBlank]

/-- Lines that are each ended. -/
def endLines (lines : List (List Char)) : List Char := lines.flatMap (· ++ ['\n'])

theorem lineTail_line (x : List Char) : lineTail (x ++ ['\n']) = [] := by
  rw [lineTail_append, lineTail, splitOn_line (newline_not_mem_lineTail x)]
  rfl

/-- Lines that are ended one by one are the lines of their text. -/
theorem ledgerLines_endLines {lines : List (List Char)}
    (plain : ∀ line ∈ lines, '\n' ∉ line ∧ nonBlank line = true) :
    ledgerLines (endLines lines) = lines := by
  induction lines with
  | nil => rfl
  | cons line lines ih =>
    obtain ⟨first, rest⟩ := List.forall_mem_cons.mp plain
    rw [endLines, List.flatMap_cons, ledgerLines_append (lineTail_line line),
      ledgerLines_line first.1 first.2, ← endLines, ih rest]
    rfl

theorem units_le (text : List Char) : units text ≤ 2 * text.length := by
  induction text with
  | nil => simp [units]
  | cons c text ih =>
    rw [units, List.map_cons, List.sum_cons, List.length_cons, ← units]
    split <;> omega

/-- The walk hands on the lines of the file exactly where no read ends inside a character and each
fits behind what was read of its first line. -/
theorem sees_lines_iff (limit : Nat) (r : LedgerReads) :
    SeesLines limit r ↔ (∀ read ∈ r.reads, Whole read) ∧ Fits limit r.reads := by
  have filled : ∀ read ∈ r.reads, read ≠ [] := fun read mem => (r.filled read mem).1
  constructor
  · intro seen
    have fits : Fits limit r.reads :=
      @walk_of_not_fits limit [] ([], 0) r.reads filled (by simp)
        (by rw [SeesLines, forEachLedgerLine] at seen; rw [seen])
    have walked := @walk_of_fits limit [] ([], 0) r.reads filled (by simp) fits
    simp only [List.nil_append, Nat.zero_add] at walked
    rw [SeesLines, forEachLedgerLine, walked, Walked.mk.injEq] at seen
    obtain ⟨t, read, torn, _⟩ := decode_pieces (q := []) (by simp) (by simpa using r.bytes)
    rw [List.length_nil, List.replicate_zero, List.nil_append] at read
    have same := (ledgerLines_of_torn (read ▸ torn) seen.1).symm
    exact ⟨(decodeEach_eq_iff r.bytes).mp same, fits⟩
  · exact fun ⟨whole, fits⟩ => seesLines_of_whole whole fits

/-- A ledger of one line, with a read that ends inside its only character. -/
def cutLedger : LedgerReads where
  reads := [[0xC3], [0xA9]]
  text := ['é']
  bytes := by decide
  filled := by decide

/-- The longest string of the platform. -/
def maxStringLength : Nat := 536870888

/-- The line is handed on as two replacement characters. -/
theorem cut_line_is_mangled : ¬ SeesLines maxStringLength cutLedger := by
  have handed : forEachLedgerLine maxStringLength cutLedger.reads =
      ⟨[[replacement, replacement]], 1, none⟩ := by decide
  rw [SeesLines, handed]
  decide

end Clearotron.LedgerLines
