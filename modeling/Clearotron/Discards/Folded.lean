import Clearotron.Discards.Rows
import Clearotron.Records.LedgerLines

/-!
# What the ledger gives back

A file of whole lines gives back, for each record and seam, the last row. What an append leaves
that was cut adds the rows whose lines it reached, and behind them at most the front of one line,
which reads as no row and ends in no newline.
-/

namespace Clearotron.Discards

open JsonLine (Fields Scalar get?)
open Utf8 (encode decode)

theorem get?_uri (w : Written) : get? (w.2.fields w.1) "uri" = some (.str w.2.uri) := by
  obtain ⟨ts, r⟩ := w
  cases own : r.verdict <;> simp [Row.fields, get?, own]

theorem get?_seam (w : Written) : get? (w.2.fields w.1) "seam" = some (.str w.2.seam.name) := by
  obtain ⟨ts, r⟩ := w
  cases own : r.verdict <;> simp [Row.fields, get?, own]

theorem get?_verdict (w : Written) :
    get? (w.2.fields w.1) "verdict" = some (.str w.2.verdict.name) := by
  obtain ⟨ts, r⟩ := w
  cases own : r.verdict <;> simp [Row.fields, get?, own]

theorem seamOf_name (seam : Seam) : seamOf seam.name = some seam := by
  cases seam <;> decide

theorem line_head (w : Written) : ∃ t, Written.line w = '\x7b' :: t := ⟨_, rfl⟩

theorem foldLine_line (m : Folded) (w : Written) :
    foldLine m (Written.line w) = m.add w.2.uri w.2.seam (w.2.fields w.1) := by
  obtain ⟨t, is⟩ := line_head w
  have written : (Written.line w).all Text.isSpace = false := by
    rw [is, List.all_cons, show Text.isSpace '\x7b' = false from by decide, Bool.false_and]
  unfold foldLine
  rw [written, if_neg (by decide), Written.line, JsonLine.read_write]
  simp only [get?_uri, get?_seam, text, w.2.normal, seamOf_name]

/-- A line that is no object leaves what the records were given. -/
theorem foldLine_byUri_of_unread (m : Folded) {ln : List Char} (unread : JsonLine.read ln = none) :
    (foldLine m ln).byUri = m.byUri := by
  unfold foldLine
  split
  · rfl
  · rw [unread]

theorem standing_append (ws : List Written) (w : Written) (uri : String) (seam : Seam) :
    standing (ws ++ [w]) uri seam =
      if w.2.uri = uri ∧ w.2.seam = seam then some w else standing ws uri seam := by
  unfold standing
  rw [List.reverse_append, List.reverse_singleton, List.singleton_append, List.find?_cons]
  by_cases own : w.2.uri = uri ∧ w.2.seam = seam <;> simp [own]

/-- What stands is a row that was written. -/
theorem mem_of_standing {ws : List Written} {uri : String} {seam : Seam} {w : Written}
    (is : standing ws uri seam = some w) : w ∈ ws ∧ w.2.uri = uri ∧ w.2.seam = seam := by
  have own := List.find?_some is
  exact ⟨List.mem_reverse.1 (List.mem_of_find?_eq_some is), by simpa using own⟩

theorem standing_append_list (ws ws' : List Written) (uri : String) (seam : Seam) :
    standing (ws ++ ws') uri seam = (standing ws' uri seam).or (standing ws uri seam) := by
  rw [standing, List.reverse_append, List.find?_append]
  rfl

theorem lines_append (ws ws' : List Written) :
    linesText (ws ++ ws') = linesText ws ++ linesText ws' := by
  simp [linesText]

theorem newline_notMem_line (w : Written) : '\n' ∉ Written.line w :=
  JsonLine.newline_notMem_write _

theorem splitOn_linesText (ws : List Written) {t : List Char} (last : '\n' ∉ t) :
    (linesText ws ++ t).splitOn '\n' = ws.map Written.line ++ [t] := by
  induction ws with
  | nil => exact LedgerLines.splitOn_of_newline_not_mem last
  | cons w ws ih =>
    have line : (Written.line w ++ '\n' :: (linesText ws ++ t)).splitOn '\n' =
        Written.line w :: (linesText ws ++ t).splitOn '\n' := by
      rw [List.splitOn_append_cons_self_of_not_mem (newline_notMem_line w)]
    rw [linesText, List.flatMap_cons, List.append_assoc, List.append_assoc, List.singleton_append]
    exact line.trans (congrArg _ ih)

theorem foldl_lines (ws : List Written) (uri : String) (seam : Seam) :
    ((ws.map Written.line).foldl foldLine {}).byUri uri seam =
      (standing ws uri seam).map fun w => w.2.fields w.1 := by
  induction ws using List.reverseRecOn with
  | nil => rfl
  | append_singleton ws w ih =>
    rw [List.map_append, List.foldl_append, List.map_singleton, List.foldl_cons, List.foldl_nil,
      foldLine_line, standing_append]
    by_cases own : w.2.uri = uri ∧ w.2.seam = seam
    · rw [if_pos own]
      simp [Folded.add, own.1.symm, own.2.symm]
    · rw [if_neg own, ← ih]
      have other : ¬ (uri = w.2.uri ∧ seam = w.2.seam) := fun same => own ⟨same.1.symm, same.2.symm⟩
      simp [Folded.add, other]

/-- Behind the last newline of the file: nothing, or the front of a line, which is a row that was
written whole where it is the line. -/
inductive Tail : List UInt8 → List Written → Prop
  | closed : Tail [] []
  | open' (w : Written) (p q : List UInt8) (bytes : p ++ q = encode (Written.line w))
      (some' : p ≠ []) : Tail p (if q = [] then [w] else [])

theorem newline_notMem_encode {t : List Char} (plain : '\n' ∉ t) : (0x0A : UInt8) ∉ encode t := by
  intro mem
  obtain ⟨c, own, byte⟩ := List.mem_flatMap.1 mem
  have other : c.toNat ≠ 10 := by
    intro is
    have same : c = '\n' := by rw [← Char.ofNat_toNat c, is]
    exact plain (same ▸ own)
  obtain ⟨small, single⟩ | ⟨-, b, bs, spelt, quiet, -, inside⟩ := Utf8.encode_cases c
  · rw [single, List.mem_singleton] at byte
    have value := congrArg UInt8.toNat byte
    rw [Utf8.toNat_ofNat (by omega)] at value
    exact other value.symm
  · rw [spelt, List.mem_cons] at byte
    rcases byte with rfl | byte
    · exact absurd quiet (by decide)
    · exact absurd (inside _ byte).1 (by decide)

/-- An open end does not close the file. -/
theorem Tail.getLast?_ne {p : List UInt8} {last : List Written} (tail : Tail p last)
    (some' : p ≠ []) : p.getLast? ≠ some 0x0A := by
  cases tail with
  | closed => exact absurd rfl some'
  | open' w p q bytes _ =>
    intro is
    have mem : (0x0A : UInt8) ∈ encode (Written.line w) :=
      bytes ▸ List.mem_append_left q (List.mem_of_getLast? is)
    exact newline_notMem_encode (newline_notMem_line w) mem

/-- What is read of the end: no newline, and a row where it is one. -/
theorem Tail.read {p : List UInt8} {last : List Written} (tail : Tail p last) :
    '\n' ∉ decode p ∧ ((last = [] ∧ JsonLine.read (decode p) = none) ∨
      ∃ w, last = [w] ∧ decode p = Written.line w) := by
  cases tail with
  | closed => exact ⟨by simp, .inl ⟨rfl, rfl⟩⟩
  | open' w p q bytes some' =>
    have plain := newline_notMem_line w
    obtain ⟨a, b, line, rfl, rfl⟩ | ⟨a, c, b, x, y, line, own, first, second, rfl, rfl⟩ :=
      Utf8.split_encode bytes
    · rw [Utf8.decode_encode]
      rw [line] at plain
      refine ⟨fun mem => plain (List.mem_append_left b mem), ?_⟩
      by_cases rest : b = []
      · exact .inr ⟨w, by simp [rest], by rw [line, rest, List.append_nil]⟩
      · have cut : a ++ b = JsonLine.write (w.2.fields w.1) := line.symm
        exact .inl ⟨by simp [Utf8.encode_eq_nil, rest], JsonLine.read_cut cut rest⟩
    · obtain ⟨-, quiet, missing, -⟩ := Utf8.cut_character own first second
      have read : decode (encode a ++ x) = a ++ [Utf8.replacement] := by
        simp [decode, Utf8.run_append, Utf8.run_text, quiet, Utf8.flush, missing]
      rw [read]
      rw [line] at plain
      refine ⟨?_, .inl ⟨by simp [second], JsonLine.read_ends (by decide)⟩⟩
      rw [List.mem_append, List.mem_singleton]
      rintro (mem | is)
      · exact plain (List.mem_append_left _ mem)
      · exact absurd is (by decide)

/-- What a file gives back whose last line may have been cut. -/
theorem fold_cut (done : List Written) {p : List UInt8} {last : List Written} (tail : Tail p last)
    (uri : String) (seam : Seam) :
    (foldDiscardLedger (decode (encode (linesText done) ++ p))).byUri uri seam =
      (standing (done ++ last) uri seam).map fun w => w.2.fields w.1 := by
  have text : decode (encode (linesText done) ++ p) = linesText done ++ decode p := by
    simp [decode, Utf8.run_append, Utf8.run_text]
  obtain ⟨plain, read⟩ := tail.read
  rw [text, foldDiscardLedger, splitOn_linesText done plain]
  obtain ⟨rfl, unread⟩ | ⟨w, rfl, line⟩ := read
  · rw [List.foldl_append, List.foldl_cons, List.foldl_nil, foldLine_byUri_of_unread _ unread,
      foldl_lines, List.append_nil]
  · have lines : done.map Written.line ++ [decode p] = (done ++ [w]).map Written.line := by
      rw [line, List.map_append, List.map_singleton]
    rw [lines, foldl_lines]

theorem encode_newline : encode ['\n'] = [0x0A] := by decide

theorem encode_linesText_cons (w : Written) (ws : List Written) :
    encode (linesText (w :: ws)) = encode (Written.line w) ++ 0x0A :: encode (linesText ws) := by
  rw [linesText, List.flatMap_cons, Utf8.encode_append, Utf8.encode_append, encode_newline,
    List.append_assoc]
  rfl

theorem encode_line_ne_nil (w : Written) : encode (Written.line w) ≠ [] := by
  rw [Ne, Utf8.encode_eq_nil]
  obtain ⟨t, is⟩ := line_head w
  simp [is]

theorem wholeOf_zero (ws : List Written) : wholeOf ws 0 = [] := by
  cases ws with
  | nil => rfl
  | cons w ws =>
    rw [wholeOf, if_neg]
    have := List.length_pos_iff.2 (encode_line_ne_nil w)
    omega

/-- The bytes of an append up to a cut. -/
theorem take_lines (ws : List Written) (k : Nat) :
    ∃ done p last, (encode (linesText ws)).take k = encode (linesText done) ++ p ∧ Tail p last ∧
      wholeOf ws k = done ++ last := by
  induction ws generalizing k with
  | nil => exact ⟨[], [], [], by simp [linesText], .closed, rfl⟩
  | cons w ws ih =>
    rw [encode_linesText_cons, wholeOf]
    by_cases inside : k ≤ (encode (Written.line w)).length
    · rw [List.take_append_of_le_length inside]
      by_cases none' : k = 0
      · subst none'
        refine ⟨[], [], [], by simp [linesText], .closed, ?_⟩
        rw [if_neg]
        · rfl
        · have := List.length_pos_iff.2 (encode_line_ne_nil w)
          omega
      · refine ⟨[], _, _, rfl, .open' w _ ((encode (Written.line w)).drop k)
          (List.take_append_drop k _) ?_, ?_⟩
        · rw [Ne, List.take_eq_nil_iff]
          simp [none', encode_line_ne_nil]
        · rw [List.nil_append]
          by_cases whole : (encode (Written.line w)).length ≤ k
          · rw [if_pos whole, if_pos (List.drop_eq_nil_of_le whole),
              show k - ((encode (Written.line w)).length + 1) = 0 by omega, wholeOf_zero]
          · rw [if_neg whole, if_neg (by rw [List.drop_eq_nil_iff]; exact whole)]
    · obtain ⟨done, p, last, bytes, tail, whole⟩ := ih (k - ((encode (Written.line w)).length + 1))
      refine ⟨w :: done, p, last, ?_, tail, ?_⟩
      · rw [List.take_append, List.take_of_length_le (by omega),
          show k - (encode (Written.line w)).length =
            k - ((encode (Written.line w)).length + 1) + 1 by omega,
          List.take_succ_cons, bytes, encode_linesText_cons, List.append_assoc, List.cons_append]
      · rw [if_pos (by omega), whole, List.cons_append]

/-- The rows a cut leaves whole are the first ones. -/
theorem wholeOf_front (ws : List Written) (k : Nat) : wholeOf ws k <+: ws := by
  induction ws generalizing k with
  | nil => exact List.prefix_refl []
  | cons w ws ih =>
    rw [wholeOf]
    split
    · exact List.cons_prefix_cons.2 ⟨rfl, ih _⟩
    · exact List.nil_prefix

end Clearotron.Discards
