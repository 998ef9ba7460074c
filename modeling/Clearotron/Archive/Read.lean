import Clearotron.Archive.Layout
import Clearotron.Library.Each

/-!
# An archive read back

What was laid out is read where it was laid: the end by its signature, the directory where the end
says, each entry behind the one before it, and its data behind its own header.
-/

namespace Clearotron.Zip

open Bytes (le readLE readLE_here readLE_append readLE_drop length_le)

variable {R : Runtime} {file l rest cd : List UInt8} {k n i j : ℕ} {a : Archive}
  {e : CentralEntry} {codePage : UInt8 → Char}

theorem number_of_lt (small : n < 2 ^ 53) : number n = n := if_pos small

theorem le_number (large : 2 ^ 53 ≤ n) : 2 ^ 53 ≤ number n := by
  rw [number, if_neg (not_lt.mpr large)]
  have positive : n ≠ 0 := by omega
  have log : 53 ≤ Nat.log2 n := (Nat.le_log2 positive).mpr large
  have bits : 2 ^ Nat.log2 n ≤ n := Nat.log2_self_le positive
  have split : 2 ^ Nat.log2 n = 2 ^ 52 * 2 ^ (Nat.log2 n - 52) := by
    rw [← pow_add]
    congr 1
    omega
  have unit : 2 ≤ 2 ^ (Nat.log2 n - 52) := by
    calc 2 = 2 ^ 1 := rfl
      _ ≤ 2 ^ (Nat.log2 n - 52) := Nat.pow_le_pow_right (by decide) (by omega)
  have quotient : 2 ^ 52 ≤ n / 2 ^ (Nat.log2 n - 52) :=
    (Nat.le_div_iff_mul_le (by positivity)).mpr (split ▸ bits)
  have kept : 2 ^ 52 * 2 ≤ n / 2 ^ (Nat.log2 n - 52) * 2 ^ (Nat.log2 n - 52) :=
    Nat.mul_le_mul quotient unit
  simp only
  split
  · calc 2 ^ 53 = 2 ^ 52 * 2 := by norm_num
      _ ≤ n / 2 ^ (Nat.log2 n - 52) * 2 ^ (Nat.log2 n - 52) := kept
      _ ≤ _ := Nat.mul_le_mul_right _ (Nat.le_succ _)
  · calc 2 ^ 53 = 2 ^ 52 * 2 := by norm_num
      _ ≤ _ := kept

/-- A number that the runtime takes for an index is the one that was written. -/
theorem number_of_safe (safe : number n ≤ maxSafeInteger) : number n = n :=
  number_of_lt (not_le.mp fun large => by
    have := le_number large
    rw [maxSafeInteger] at safe
    omega)

theorem readSlice_eq {start length : ℕ} {slice : List UInt8}
    (read : readSlice R file start length = .ok slice) :
    slice = (file.drop start).take length ∧ length ≤ R.maxLength ∧ start ≤ maxSafeInteger := by
  rw [readSlice] at read
  split at read
  · cases read
  · rename_i inside
    rw [not_or, not_lt, not_lt] at inside
    exact ⟨(Except.ok.inj read).symm, inside⟩

theorem scanBack_eq {sig : ℕ} (here : readLE 4 n l = sig) (le : n ≤ i)
    (behind : ∀ j, n < j → j ≤ i → readLE 4 j l ≠ sig) : scanBack sig l i = some n := by
  induction i with
  | zero =>
    obtain rfl := Nat.le_zero.mp le
    rw [scanBack, if_pos here]
  | succ i ih =>
    rw [scanBack]
    obtain rfl | lt := Nat.eq_or_lt_of_le le
    · rw [if_pos here]
    · rw [if_neg (behind (i + 1) lt le_rfl)]
      exact ih (Nat.lt_succ_iff.mp lt) fun j after before =>
        behind j after (before.trans (Nat.le_succ i))

theorem takeWide_of_member (needed : Bool) (lt : n < 2 ^ 64) :
    takeWide needed ((wideMember needed n).length + k) (wideMember needed n ++ rest) =
      .ok (if needed then some n else none, k, rest) := by
  cases needed with
  | false => simp [takeWide, wideMember]
  | true =>
    have whole : readLE 8 0 (le 8 n ++ rest) = n := readLE_here lt
    have drop : (le 8 n ++ rest).drop 8 = rest := List.drop_left' (length_le 8 n)
    simp only [takeWide, wideMember, if_true, length_le, true_and]
    rw [if_pos (Nat.le_add_right 8 k), if_neg (by simp), whole, drop, Nat.add_sub_cancel_left]

theorem zip64Extra_field {x : ℕ × List UInt8} (id : x.1 < 2 ^ 16) (other : x.1 ≠ 1)
    (length : x.2.length < 2 ^ 16) (s c o : Bool) (fuel : ℕ) :
    zip64Extra s c o (fuel + 1) (extraField x ++ rest) = zip64Extra s c o fuel rest := by
  have own : readLE 2 0 (extraField x ++ rest) = x.1 := by
    rw [extraField, List.append_assoc]
    exact readLE_here id
  have size : readLE 2 2 (extraField x ++ rest) = x.2.length := by
    rw [extraField, List.append_assoc, List.append_assoc]
    exact (readLE_append (le 2 x.1)).trans (readLE_here length)
  have drop : (extraField x ++ rest).drop (4 + x.2.length) = rest :=
    List.drop_left' (by simp [extraField]; omega)
  rw [zip64Extra, if_neg (by simp [extraField]; omega), own, if_neg other, size, drop]

theorem zip64Extra_fields {fields : List (ℕ × List UInt8)}
    (each : ∀ x ∈ fields, (x.1 < 2 ^ 16 ∧ x.1 ≠ 1) ∧ x.2.length < 2 ^ 16) (s c o : Bool)
    (fuel : ℕ) :
    zip64Extra s c o (fields.length + fuel) (fields.flatMap extraField ++ rest) =
      zip64Extra s c o fuel rest := by
  induction fields with
  | nil => simp
  | cons x fields ih =>
    obtain ⟨⟨id, other⟩, length⟩ := each x List.mem_cons_self
    rw [List.flatMap_cons, List.append_assoc, List.length_cons, Nat.add_right_comm,
      zip64Extra_field id other length]
    exact ih fun x mem => each x (List.mem_cons_of_mem _ mem)

theorem readLE_of_drop (behind : l.drop i = le k n ++ rest) (fits : n < 256 ^ k) :
    readLE k i l = n := by
  rw [← Nat.add_zero i, ← readLE_drop, behind]
  exact readLE_here fits

theorem narrow_lt {wide : Bool} (small : wide = false → n < MAX32) : narrow wide n < 256 ^ 4 := by
  cases wide with
  | true => exact show MAX32 < 256 ^ 4 by decide
  | false =>
    have own := small rfl
    rw [MAX32] at own
    show n < 256 ^ 4
    omega

theorem narrow_eq_iff {wide : Bool} (small : wide = false → n < MAX32) :
    decide (narrow wide n = MAX32) = wide := by
  cases wide with
  | true => simp [narrow]
  | false =>
    have own := small rfl
    simp [narrow, own.ne]

section

variable (fits : e.Fits)

include fits

theorem header_flags : readLE 2 8 (e.header ++ rest) = e.flags :=
  readLE_of_drop rfl fits.flags

theorem header_method : readLE 2 10 (e.header ++ rest) = e.method :=
  readLE_of_drop rfl fits.method

theorem header_compressedSize :
    readLE 4 20 (e.header ++ rest) = narrow e.wideCompressed e.compressedSize :=
  readLE_of_drop rfl (narrow_lt fits.compressed_narrow)

theorem header_size : readLE 4 24 (e.header ++ rest) = narrow e.wideSize e.size :=
  readLE_of_drop rfl (narrow_lt fits.size_narrow)

theorem header_nameLen : readLE 2 28 (e.header ++ rest) = e.name.length :=
  readLE_of_drop rfl fits.name_length

theorem header_extraLen : readLE 2 30 (e.header ++ rest) = e.extra.length :=
  readLE_of_drop rfl fits.extra_length

theorem header_commentLen : readLE 2 32 (e.header ++ rest) = e.comment.length :=
  readLE_of_drop rfl fits.comment_length

theorem header_offset : readLE 4 42 (e.header ++ rest) = narrow e.wideOffset e.offset :=
  readLE_of_drop rfl (narrow_lt fits.offset_narrow)

end

theorem header_behind :
    (e.header ++ rest).drop 46 = e.name ++ (e.extra ++ (e.comment ++ rest)) := by
  have drop : (e.header ++ rest).drop 46 = (e.name ++ (e.extra ++ e.comment)) ++ rest := rfl
  rw [drop, List.append_assoc, List.append_assoc]

theorem header_length : 46 ≤ (e.header ++ rest).length := by
  simp [CentralEntry.header]
  omega

theorem length_extraField (x : ℕ × List UInt8) : (extraField x).length = 4 + x.2.length := by
  simp [extraField]
  omega

/-- A field of an extra field that has room for its length. -/
theorem CentralEntry.Fits.field_fits (fits : e.Fits) :
    ∀ x ∈ e.fieldsBefore, (x.1 < 2 ^ 16 ∧ x.1 ≠ 1) ∧ x.2.length < 2 ^ 16 := by
  intro x mem
  refine ⟨fits.fieldsBefore x mem, ?_⟩
  have inside := (List.sublist_flatten_of_mem (List.mem_map_of_mem (f := extraField) mem)).length_le
  have whole := fits.extra_length
  rw [CentralEntry.extra, List.length_append, List.flatMap] at whole
  rw [length_extraField] at inside
  omega

theorem length_fields_le (fields : List (ℕ × List UInt8)) :
    fields.length ≤ (fields.flatMap extraField).length := by
  induction fields with
  | nil => simp
  | cons x fields ih =>
    rw [List.length_cons, List.flatMap_cons, List.length_append, length_extraField]
    omega

/-- The numbers that an extra field was given are read from it. -/
theorem zip64Extra_extra (fits : e.Fits) (isWide : e.isWide = true) :
    zip64Extra e.wideSize e.wideCompressed e.wideOffset (e.extra.length + 1) e.extra =
      .ok ⟨if e.wideSize then some e.size else none,
        if e.wideCompressed then some e.compressedSize else none,
        if e.wideOffset then some e.offset else none⟩ := by
  have whole : e.extra = e.fieldsBefore.flatMap extraField ++
      (extraField (1, e.wide) ++ e.fieldsBehind) := by rw [CentralEntry.extra, if_pos isWide]
  have length : e.wide.length < 2 ^ 16 := by
    have own := fits.extra_length
    rw [whole] at own
    simp only [List.length_append, length_extraField] at own
    omega
  have fuel : ∃ more, e.extra.length + 1 = e.fieldsBefore.length + (more + 1) := by
    refine ⟨e.extra.length - e.fieldsBefore.length, ?_⟩
    have le := length_fields_le e.fieldsBefore
    rw [whole]
    simp only [List.length_append]
    omega
  obtain ⟨more, fuel⟩ := fuel
  rw [fuel, whole, zip64Extra_fields fits.field_fits]
  have id : readLE 2 0 (extraField (1, e.wide) ++ e.fieldsBehind) = 1 := by
    rw [extraField, List.append_assoc]
    exact readLE_here (show 1 < 256 ^ 2 by decide)
  have size : readLE 2 2 (extraField (1, e.wide) ++ e.fieldsBehind) = e.wide.length := by
    rw [extraField, List.append_assoc, List.append_assoc]
    exact (readLE_append (le 2 1)).trans (readLE_here length)
  have drop : (extraField (1, e.wide) ++ e.fieldsBehind).drop 4 = e.wide ++ e.fieldsBehind := by
    rw [extraField, ← List.append_assoc, List.append_assoc (le 2 1 ++ le 2 e.wide.length)]
    exact List.drop_left' (by simp)
  have long : ¬ (extraField (1, e.wide) ++ e.fieldsBehind).length < 4 := by
    rw [List.length_append, length_extraField]
    omega
  rw [zip64Extra, if_neg long, if_pos id, size, drop]
  have room : e.wide.length = (wideMember e.wideSize e.size).length +
      ((wideMember e.wideCompressed e.compressedSize).length +
        ((wideMember e.wideOffset e.offset).length + e.wideMore.length)) := by
    simp [CentralEntry.wide]
  rw [room, CentralEntry.wide, List.append_assoc, takeWide_of_member _ fits.size]
  show (takeWide e.wideCompressed _ _ >>= _) = _
  rw [List.append_assoc, takeWide_of_member _ fits.compressedSize]
  show (takeWide e.wideOffset _ _ >>= _) = _
  rw [List.append_assoc, takeWide_of_member _ fits.offset]
  rfl

theorem wideOf_header (fits : e.Fits) : wideOf (e.header ++ rest) =
    zip64Extra e.wideSize e.wideCompressed e.wideOffset (e.extra.length + 1) e.extra := by
  have extra : ((e.header ++ rest).drop (46 + e.name.length)).take e.extra.length = e.extra := by
    rw [← List.drop_drop, header_behind, List.drop_left, List.take_left]
  simp only [wideOf, header_nameLen fits, header_extraLen fits, header_size fits,
    header_compressedSize fits, header_offset fits, extra]
  rw [narrow_eq_iff fits.size_narrow, narrow_eq_iff fits.compressed_narrow,
    narrow_eq_iff fits.offset_narrow]

/-- A field or its wider number gives the number that was written. -/
theorem widened_of_fits {wide : Bool} {read : Option ℕ} (small : wide = false → n < MAX32)
    (member : wide = true → read = some n) (exact : number n = n) :
    widened (narrow wide n) read = n := by
  cases wide with
  | true => simp [widened, narrow, member rfl, exact]
  | false => simp [widened, narrow, (small rfl).ne]

/-- An entry as the code reads it. -/
def entryOf (cd : List UInt8) (wide : Wide) : ZipEntry where
  name := Utf8.decode ((cd.drop 46).take (readLE 2 28 cd))
  size := widened (readLE 4 24 cd) wide.size
  compressedSize := widened (readLE 4 20 cd) wide.compressedSize
  method := readLE 2 10 cd
  offset := widened (readLE 4 42 cd) wide.offset

/-- One entry is read, and then the others. -/
theorem entriesFrom_succ {count : ℕ} {es : List ZipEntry}
    (read : entriesFrom i (count + 1) cd = .ok es) : es = [] ∨
      ∃ wide es', wideOf cd = .ok wide ∧ HeaderReads cd ∧
        entriesFrom (i + 1) count (directoryFrom 1 cd) = .ok es' ∧ es = entryOf cd wide :: es' := by
  rw [entriesFrom] at read
  split at read
  · exact .inl (Except.ok.inj read).symm
  rename_i long
  split at read
  · cases read
  rename_i signed
  simp only at read
  split at read
  · cases read
  · rename_i plain
    refine .inr ?_
    cases own : wideOf cd with
    | error fault =>
      rw [wideOf] at own
      rw [own] at read
      cases read
    | ok wide =>
      rw [wideOf] at own
      rw [own] at read
      cases others : entriesFrom (i + 1) count (directoryFrom 1 cd) with
      | error fault =>
        rw [directoryFrom, directoryFrom] at others
        have read' : (entriesFrom (i + 1) count _ >>= _) = Except.ok es := read
        rw [others] at read'
        cases read'
      | ok es' =>
        rw [directoryFrom, directoryFrom] at others
        have read' : (entriesFrom (i + 1) count _ >>= _) = Except.ok es := read
        rw [others] at read'
        exact ⟨wide, es', rfl, ⟨not_lt.mp long, not_not.mp signed, plain, wide, own⟩, rfl,
          (Except.ok.inj read').symm⟩

theorem isTrue_widened {stored : ℕ} {wide : Option ℕ} (fits : FieldFits stored wide) :
    IsTrue stored wide (widened stored wide) := by
  rw [IsTrue]
  split
  · rename_i full
    obtain ⟨n, rfl, exact'⟩ := fits full
    simp [widened, full, exact']
  · rename_i plain
    simp [widened, plain]

/-- What is read of each entry is the number of its field, or the one that stands for it. -/
theorem isTrue_entriesFrom {count : ℕ} {es : List ZipEntry}
    (read : entriesFrom j count cd = .ok es)
    (fields : ∀ i < count, ∀ wide, wideOf (directoryFrom i cd) = .ok wide →
      FieldFits (readLE 4 24 (directoryFrom i cd)) wide.size ∧
      FieldFits (readLE 4 20 (directoryFrom i cd)) wide.compressedSize ∧
      FieldFits (readLE 4 42 (directoryFrom i cd)) wide.offset)
    (i : ℕ) (e : ZipEntry) (wide : Wide) (there : es[i]? = some e)
    (own : wideOf (directoryFrom i cd) = .ok wide) :
    IsTrue (readLE 4 24 (directoryFrom i cd)) wide.size e.size ∧
    IsTrue (readLE 4 20 (directoryFrom i cd)) wide.compressedSize e.compressedSize ∧
    IsTrue (readLE 4 42 (directoryFrom i cd)) wide.offset e.offset := by
  induction count generalizing j cd es i with
  | zero =>
    obtain rfl := Except.ok.inj (show Except.ok [] = Except.ok es from read)
    cases there
  | succ count ih =>
    obtain rfl | ⟨wide', es', own', -, others, rfl⟩ := entriesFrom_succ read
    · cases there
    · cases i with
      | zero =>
        obtain rfl := Option.some.inj there
        obtain rfl : wide' = wide := Except.ok.inj (own'.symm.trans own)
        obtain ⟨size, compressed, offset⟩ := fields 0 (Nat.succ_pos _) wide' own
        exact ⟨isTrue_widened size, isTrue_widened compressed, isTrue_widened offset⟩
      | succ i =>
        exact ih others (fun i lt => fields (i + 1) (Nat.succ_lt_succ lt)) i there own

/-- A directory that was read to its end has headers that read. -/
theorem headers_entriesFrom {count : ℕ} {es : List ZipEntry}
    (read : entriesFrom j count cd = .ok es) (all : es.length = count) :
    ∀ i < count, HeaderReads (directoryFrom i cd) := by
  induction count generalizing j cd es with
  | zero => exact fun i lt => absurd lt (Nat.not_lt_zero i)
  | succ count ih =>
    obtain rfl | ⟨wide, es', -, first, others, rfl⟩ := entriesFrom_succ read
    · cases all
    · intro i lt
      cases i with
      | zero => exact first
      | succ i => exact ih others (Nat.succ.inj all) i (Nat.lt_of_succ_lt_succ lt)

theorem length_entriesFrom {count : ℕ} {es : List ZipEntry}
    (read : entriesFrom j count cd = .ok es) : es.length ≤ cd.length := by
  induction count generalizing j cd es with
  | zero =>
    obtain rfl := Except.ok.inj (show Except.ok [] = Except.ok es from read)
    exact Nat.zero_le _
  | succ count ih =>
    obtain rfl | ⟨wide, es', -, ⟨long, -, -, -⟩, others, rfl⟩ := entriesFrom_succ read
    · exact Nat.zero_le _
    · have le := ih others
      rw [directoryFrom, directoryFrom, List.length_drop] at le
      rw [List.length_cons]
      omega

theorem decode_ascii {name : List UInt8} (ascii : ∀ b ∈ name, b.toNat < 0x80) :
    Utf8.decode name = name.map fun b => Char.ofNat b.toNat := by
  have run : Utf8.run Utf8.whole name = (Utf8.whole, name.map fun b => Char.ofNat b.toNat) := by
    induction name with
    | nil => rfl
    | cons b name ih =>
      have first : Utf8.step Utf8.whole b = (Utf8.whole, [Char.ofNat b.toNat]) := by
        rw [Utf8.step, if_pos (show Utf8.whole.needed = 0 from rfl), Utf8.lead,
          if_pos (ascii b List.mem_cons_self)]
      rw [Utf8.run, first, ih fun b mem => ascii b (List.mem_cons_of_mem _ mem)]
      rfl
  rw [Utf8.decode, run, Utf8.flush_whole, List.append_nil]

/-- What an entry must be for its header to be read as it was written. -/
structure EntryFits (codePage : UInt8 → Char) (e : CentralEntry) : Prop where
  fits : e.Fits
  size : number e.size = e.size
  compressedSize : number e.compressedSize = e.compressedSize
  offset : number e.offset = e.offset
  name : Utf8.decode e.name = trueName codePage e

theorem entryOf_header (own : EntryFits codePage e) {wide : Wide}
    (read : wideOf (e.header ++ rest) = .ok wide) :
    entryOf (e.header ++ rest) wide = e.listed codePage := by
  have fits := own.fits
  have name : ((e.header ++ rest).drop 46).take e.name.length = e.name := by
    rw [header_behind, List.take_left]
  have members : e.isWide = true → wide = ⟨if e.wideSize then some e.size else none,
      if e.wideCompressed then some e.compressedSize else none,
      if e.wideOffset then some e.offset else none⟩ := by
    intro isWide
    rw [wideOf_header fits, zip64Extra_extra fits isWide] at read
    exact (Except.ok.inj read).symm
  simp only [entryOf, header_nameLen fits, header_size fits, header_compressedSize fits,
    header_offset fits, header_method fits, name, own.name]
  rw [widened_of_fits fits.size_narrow ?_ own.size,
    widened_of_fits fits.compressed_narrow ?_ own.compressedSize,
    widened_of_fits fits.offset_narrow ?_ own.offset]
  · rfl
  · intro stands
    rw [members (by simp [CentralEntry.isWide, stands])]
    simp [stands]
  · intro stands
    rw [members (by simp [CentralEntry.isWide, stands])]
    simp [stands]
  · intro stands
    rw [members (by simp [CentralEntry.isWide, stands])]
    simp [stands]

theorem directoryFrom_header (fits : e.Fits) : directoryFrom 1 (e.header ++ rest) = rest := by
  have length : 46 + e.name.length + e.extra.length + e.comment.length = e.header.length := by
    simp only [CentralEntry.header, List.length_append, length_le]
    omega
  rw [directoryFrom, directoryFrom, header_nameLen fits, header_extraLen fits,
    header_commentLen fits, length, List.drop_left]

/-- The headers of a directory stand one behind the other. -/
theorem directoryFrom_directory {entries : List CentralEntry} (each : ∀ e ∈ entries, e.Fits)
    (there : entries[i]? = some e) :
    ∃ rest, directoryFrom i (entries.flatMap CentralEntry.header) = e.header ++ rest := by
  induction entries generalizing i with
  | nil => cases there
  | cons e' entries ih =>
    rw [List.flatMap_cons]
    cases i with
    | zero =>
      obtain rfl := Option.some.inj there
      exact ⟨_, rfl⟩
    | succ i =>
      have step : directoryFrom (i + 1) (e'.header ++ entries.flatMap CentralEntry.header) =
          directoryFrom i (directoryFrom 1 (e'.header ++ entries.flatMap CentralEntry.header)) :=
        rfl
      rw [step, directoryFrom_header (each e' List.mem_cons_self)]
      exact ih (fun e mem => each e (List.mem_cons_of_mem _ mem)) there

/-- A size that is read from a fitting field is the one that was written. -/
theorem number_size (fits : e.Fits) (fields : ∀ wide, wideOf (e.header ++ rest) = .ok wide →
    FieldFits (readLE 4 24 (e.header ++ rest)) wide.size) : number e.size = e.size := by
  cases stands : e.wideSize with
  | false =>
    have small := fits.size_narrow stands
    rw [MAX32] at small
    exact number_of_lt (by omega)
  | true =>
    have own := fields _ ((wideOf_header fits).trans
      (zip64Extra_extra fits (by simp [CentralEntry.isWide, stands])))
    rw [header_size fits, stands] at own
    obtain ⟨n, is, exact'⟩ := own rfl
    obtain rfl := Option.some.inj is
    exact exact'

/-- The entries of a directory are read in order. -/
theorem entriesFrom_directory {entries : List CentralEntry} {es : List ZipEntry}
    (each : ∀ e ∈ entries, EntryFits codePage e)
    (read : entriesFrom j entries.length (entries.flatMap CentralEntry.header) = .ok es)
    (all : es.length = entries.length) : es = entries.map (CentralEntry.listed codePage) := by
  induction entries generalizing j es with
  | nil => exact List.length_eq_zero_iff.mp all
  | cons e entries ih =>
    have own := each e List.mem_cons_self
    rw [List.flatMap_cons, List.length_cons] at read
    obtain rfl | ⟨wide, es', read', -, others, rfl⟩ := entriesFrom_succ read
    · cases all
    · rw [directoryFrom_header own.fits] at others
      rw [List.map_cons, entryOf_header own read',
        ih (fun e mem => each e (List.mem_cons_of_mem _ mem)) others (Nat.succ.inj all)]

theorem endBytes_length : a.endBytes.length = 22 := by
  simp only [Archive.endBytes, List.length_append, length_le]

theorem bytes_length : a.bytes.length = a.beforeEnd.length + 22 + a.comment.length := by
  rw [Archive.bytes, List.length_append, List.length_append, endBytes_length, Nat.add_assoc]

theorem readLE_end :
    readLE k (a.beforeEnd.length + i) a.bytes = readLE k i (a.endBytes ++ a.comment) :=
  readLE_append a.beforeEnd

/-- The file from a place on, as far as the end may stand from its last byte. -/
theorem readLE_tail {tail : List UInt8} (start : ℕ)
    (is : tail = (file.drop start).take (file.length - start)) :
    readLE k i tail = readLE k (start + i) file := by
  rw [is, List.take_of_length_le (by rw [List.length_drop]), readLE_drop]

/-- The last record's place in the part of the file that is searched. -/
theorem scanBack_end {start : ℕ} {tail : List UInt8}
    (own : ∀ j, a.beforeEnd.length < j → j + 22 ≤ a.bytes.length → readLE 4 j a.bytes ≠ EOCD_SIG)
    (is : tail = (a.bytes.drop start).take (a.bytes.length - start))
    (before : start ≤ a.beforeEnd.length) :
    scanBack EOCD_SIG tail (tail.length - 22) = some (a.beforeEnd.length - start) := by
  have whole := bytes_length (a := a)
  have length : tail.length = a.bytes.length - start := by
    rw [is, List.length_take, List.length_drop, min_self]
  refine scanBack_eq ?_ (by omega) fun j after le => ?_
  · rw [readLE_tail start is, Nat.add_sub_cancel' before]
    have here := readLE_end (a := a) (k := 4) (i := 0)
    rw [Nat.add_zero] at here
    exact here.trans (readLE_of_drop rfl (by decide))
  · rw [readLE_tail start is]
    exact own _ (by omega) (by omega)

theorem readLE_take {l : List UInt8} (inside : i + k ≤ n) :
    readLE k i (l.take n) = readLE k i l := by
  rw [readLE, readLE, List.drop_take, List.take_take, min_eq_left (by omega)]

theorem count_le_directory : a.entries.length ≤ a.directory.length := by
  rw [Archive.directory]
  induction a.entries with
  | nil => exact Nat.zero_le _
  | cons e entries ih =>
    have long : 46 ≤ (e.header ++ []).length := header_length
    rw [List.append_nil] at long
    rw [List.flatMap_cons, List.length_append, List.length_cons]
    omega

/-- The wider record of an archive is found, and states what was laid out. -/
theorem wideStated_bytes (formed : a.WellFormed) {w : WideEnd} (has : a.wideEnd = some w)
    {start : ℕ} {tail : List UInt8} {stated stated' : Stated}
    (is : tail = (a.bytes.drop start).take (a.bytes.length - start))
    (before : start ≤ a.beforeEnd.length)
    (read : wideStated R a.bytes tail (a.beforeEnd.length - start) stated = .ok stated') :
    stated' = { stated with
      entryCount := number a.entries.length
      cdSize := number a.directory.length
      cdOffset := number a.front.length } := by
  have parts : a.beforeEnd = (a.front ++ (a.directory ++ a.gap)) ++
      (a.wideEndBytes w ++ a.locatorBytes) := by rw [Archive.beforeEnd, Archive.wideBytes, has]
  have short : a.locatorBytes.length = 20 := by
    simp only [Archive.locatorBytes, List.length_append, length_le]
  have length := congrArg List.length parts
  simp only [List.length_append, short] at length
  have whole := bytes_length (a := a)
  have bound := formed.length
  have inside : a.wideEndAt ≤ a.beforeEnd.length := by
    simp only [Archive.wideEndAt, List.length_append]
    omega
  have sizes : a.front.length + a.directory.length ≤ a.wideEndAt := by
    simp only [Archive.wideEndAt, List.length_append]
    omega
  have counted := count_le_directory (a := a)
  rw [wideStated] at read
  split at read
  · cases read
  rename_i room
  have behind (k i : ℕ) : readLE k (a.beforeEnd.length - start - 20 + i) tail =
      readLE k i (a.locatorBytes ++ (a.endBytes ++ a.comment)) := by
    have file : a.bytes = ((a.front ++ (a.directory ++ a.gap)) ++ a.wideEndBytes w) ++
        (a.locatorBytes ++ (a.endBytes ++ a.comment)) := by
      rw [Archive.bytes, parts]
      simp only [List.append_assoc]
    have place : start + (a.beforeEnd.length - start - 20 + i) =
        ((a.front ++ (a.directory ++ a.gap)) ++ a.wideEndBytes w).length + i := by
      simp only [List.length_append]
      omega
    rw [readLE_tail start is, place]
    conv_lhs => rw [file]
    exact readLE_append _
  have here : scanBack EOCD64_LOC_SIG tail (a.beforeEnd.length - start - 20) =
      some (a.beforeEnd.length - start - 20) := by
    refine scanBack_eq ?_ le_rfl fun j after le => absurd le (not_le.mpr after)
    have opens := behind 4 0
    rw [Nat.add_zero] at opens
    exact opens.trans (readLE_of_drop rfl (by decide))
  have at' : readLE 8 8 (a.locatorBytes ++ (a.endBytes ++ a.comment)) = a.wideEndAt :=
    readLE_of_drop rfl (by omega)
  rw [here] at read
  obtain ⟨rec64, slice, found⟩ := bind_eq_ok read
  rw [behind, at'] at slice
  obtain ⟨is64, -, safe⟩ := readSlice_eq slice
  rw [number_of_safe safe] at is64
  have record (k i : ℕ) (le : i + k ≤ 56) : readLE k i rec64 = readLE k i (a.wideEndBytes w ++
      (a.locatorBytes ++ (a.endBytes ++ a.comment))) := by
    have file : a.bytes = (a.front ++ (a.directory ++ a.gap)) ++ (a.wideEndBytes w ++
        (a.locatorBytes ++ (a.endBytes ++ a.comment))) := by
      rw [Archive.bytes, parts]
      simp only [List.append_assoc]
    rw [is64, readLE_take le, readLE_drop, file]
    exact readLE_append _
  split at found
  · cases found
  · rw [record 8 32 (by decide), record 8 40 (by decide), record 8 48 (by decide)] at found
    have count : readLE 8 32 (a.wideEndBytes w ++ (a.locatorBytes ++ (a.endBytes ++ a.comment))) =
        a.entries.length := readLE_of_drop rfl (by omega)
    have size : readLE 8 40 (a.wideEndBytes w ++ (a.locatorBytes ++ (a.endBytes ++ a.comment))) =
        a.directory.length := readLE_of_drop rfl (by omega)
    have offset : readLE 8 48 (a.wideEndBytes w ++ (a.locatorBytes ++ (a.endBytes ++ a.comment))) =
        a.front.length := readLE_of_drop rfl (by omega)
    rw [count, size, offset] at found
    exact (Except.ok.inj found).symm

section

variable (formed : a.WellFormed)

include formed

theorem readLE_endBytes_count : readLE 2 10 (a.endBytes ++ a.comment) =
    if a.wideCount then MAX16 else a.entries.length := by
  refine readLE_of_drop rfl ?_
  split
  · exact show MAX16 < 256 ^ 2 by decide
  · rename_i plain
    have own := formed.count_narrow (Bool.eq_false_iff.mpr plain)
    rw [MAX16] at own
    omega

theorem readLE_endBytes_size : readLE 4 12 (a.endBytes ++ a.comment) =
    narrow a.wideSize a.directory.length := readLE_of_drop rfl (narrow_lt formed.size_narrow)

theorem readLE_endBytes_offset : readLE 4 16 (a.endBytes ++ a.comment) =
    narrow a.wideOffset a.front.length := readLE_of_drop rfl (narrow_lt formed.offset_narrow)

/-- What the end of an archive states is what was laid out, each number as the runtime has it. -/
theorem statedEnd_bytes {stated : Stated}
    (own : ∀ j, a.beforeEnd.length < j → j + 22 ≤ a.bytes.length → readLE 4 j a.bytes ≠ EOCD_SIG)
    (read : statedEnd R a.bytes = .ok stated) :
    stated = a.stated := by
  have whole := bytes_length (a := a)
  have comment := formed.comment_length
  rw [statedEnd] at read
  obtain ⟨tail, slice, found⟩ := bind_eq_ok read
  generalize started : a.bytes.length - min a.bytes.length EOCD_SEARCH = start at slice
  obtain ⟨is, -, -⟩ := readSlice_eq slice
  rw [EOCD_SEARCH, MAX16] at started
  have before : start ≤ a.beforeEnd.length := by omega
  have all : min a.bytes.length EOCD_SEARCH = a.bytes.length - start := by
    rw [EOCD_SEARCH, MAX16]
    omega
  rw [all] at is
  have length : tail.length = a.bytes.length - start := by
    rw [is, List.length_take, List.length_drop, min_self]
  have behind (k i : ℕ) : readLE k (a.beforeEnd.length - start + i) tail =
      readLE k i (a.endBytes ++ a.comment) := by
    rw [readLE_tail start is, ← Nat.add_assoc, Nat.add_sub_cancel' before, readLE_end]
  have disk : readLE 2 4 (a.endBytes ++ a.comment) = 0 := readLE_of_drop rfl (by decide)
  have cdDisk : readLE 2 6 (a.endBytes ++ a.comment) = 0 := readLE_of_drop rfl (by decide)
  rw [if_neg (by omega), scanBack_end own is before] at found
  simp only [behind, readLE_endBytes_count formed, readLE_endBytes_size formed,
    readLE_endBytes_offset formed, disk, cdDisk] at found
  by_cases saturated : (if a.wideCount = true then MAX16 else a.entries.length) = MAX16 ∨
      narrow a.wideOffset a.front.length = MAX32 ∨ narrow a.wideSize a.directory.length = MAX32
  · rw [if_pos saturated] at found
    have flagged : (a.wideCount || a.wideSize || a.wideOffset) = true := by
      by_contra plain
      simp only [Bool.or_eq_true, not_or, Bool.not_eq_true] at plain
      obtain ⟨⟨count, size⟩, offset⟩ := plain
      have count' := formed.count_narrow count
      have size' := formed.size_narrow size
      have offset' := formed.offset_narrow offset
      simp only [count, size, offset, narrow, Bool.false_eq_true, if_false] at saturated
      omega
    obtain ⟨w, has⟩ := Option.isSome_iff_exists.mp (formed.wide flagged)
    exact wideStated_bytes formed has is before found
  · rw [if_neg saturated] at found
    rw [not_or, not_or] at saturated
    obtain ⟨count, offset, size⟩ := saturated
    have count' : a.wideCount = false := Bool.eq_false_iff.mpr fun wide => count (by simp [wide])
    have offset' : a.wideOffset = false :=
      Bool.eq_false_iff.mpr fun wide => offset (by simp [wide, narrow])
    have size' : a.wideSize = false :=
      Bool.eq_false_iff.mpr fun wide => size (by simp [wide, narrow])
    have few := formed.count_narrow count'
    have short := formed.size_narrow size'
    have low := formed.offset_narrow offset'
    rw [MAX16] at few
    rw [MAX32] at short low
    rw [Archive.stated, number_of_lt (by omega), number_of_lt (by omega), number_of_lt (by omega)]
    rw [count', offset', size'] at found
    exact (Except.ok.inj found).symm

end

end Clearotron.Zip
