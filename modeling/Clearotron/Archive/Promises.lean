import Clearotron.Archive.Read

/-!
# What the reader says of an archive

Where every number fits and no comment looks like an end, the entries are those that were laid out
and each stream is its entry's data.
-/

namespace Clearotron.Zip

open Bytes (le readLE readLE_here readLE_append readLE_drop length_le)

variable {R : Runtime} {file : List UInt8} {a : Archive} {e : CentralEntry}
  {codePage : UInt8 → Char} {es : List ZipEntry} {data : List UInt8}

/-- What is listed was read through. -/
theorem listEntries_eq (read : listEntries R file = .ok es) : ∃ stated cd,
    ReadThrough R file stated cd ∧ entriesFrom 0 stated.entryCount cd = .ok es ∧
      es.length = stated.entryCount := by
  rw [listEntries] at read
  obtain ⟨stated, states, rest⟩ := bind_eq_ok read
  split at rest
  · cases rest
  rename_i oneDisk
  rw [not_or, not_not, not_not] at oneDisk
  obtain ⟨cd, slice, rest⟩ := bind_eq_ok rest
  split at rest
  · cases rest
  rename_i whole
  obtain ⟨es', entries, rest⟩ := bind_eq_ok rest
  split at rest
  · cases rest
  rename_i all
  obtain rfl := Except.ok.inj rest
  exact ⟨stated, cd, ⟨states, oneDisk, slice, not_not.mp whole,
    headers_entriesFrom entries (not_not.mp all)⟩, entries, not_not.mp all⟩

theorem HoldsData.le (holds : HoldsData a.front e data) :
    e.offset ≤ a.front.length ∧ e.compressedSize ≤ a.front.length := by
  obtain ⟨before, h, behind, whole, offset, size⟩ := holds
  have length := congrArg List.length whole
  simp only [List.length_append] at length
  omega

theorem name_of_fits {rest : List UInt8} (fits : e.Fits)
    (named : NameFits codePage (e.header ++ rest)) : Utf8.decode e.name = trueName codePage e := by
  rw [NameFits, header_flags fits, header_nameLen fits, header_behind, List.take_left] at named
  rw [trueName]
  split
  · rfl
  · rename_i unflagged
    exact named.resolve_left unflagged

/-- The entries that are listed are the archive's. -/
theorem entries_of_fits (formed : a.WellFormed) (fits : ZipFits R codePage a.bytes)
    (read : listEntries R a.bytes = .ok es) :
    es = a.entries.map (CentralEntry.listed codePage) := by
  obtain ⟨stated, cd, through, entries, all⟩ := listEntries_eq read
  obtain rfl : stated = a.stated := by
    obtain only | own := fits.own_end a formed rfl
    · exact statedEnd_bytes formed only through.states
    · exact own stated cd through
  obtain ⟨is, most, safe⟩ := readSlice_eq through.slice
  have front := number_of_safe safe
  have length := number_of_safe (most.trans R.safe)
  simp only [Archive.stated, front, length] at is most
  have directory : cd = a.directory := by
    have whole : a.bytes = a.front ++ (a.directory ++
        (a.gap ++ (a.wideBytes ++ (a.endBytes ++ a.comment)))) := by
      simp only [Archive.bytes, Archive.beforeEnd, List.append_assoc]
    rw [is, whole, List.drop_left, List.take_left]
  subst directory
  have count : number a.entries.length = a.entries.length := by
    refine number_of_safe ?_
    rw [← show es.length = number a.entries.length from all]
    exact (length_entriesFrom entries).trans (most.trans R.safe)
  simp only [Archive.stated, count] at entries all
  refine entriesFrom_directory (fun e mem => ?_) entries all
  obtain ⟨own, data, holds⟩ := formed.entries e mem
  obtain ⟨offset, size⟩ := holds.le
  have small : a.front.length < 2 ^ 53 := by
    change number a.front.length ≤ maxSafeInteger at safe
    rw [front] at safe
    have le : a.front.length ≤ maxSafeInteger := safe
    rw [maxSafeInteger] at le
    omega
  obtain ⟨i, there⟩ := List.getElem?_of_mem mem
  obtain ⟨rest, here⟩ := directoryFrom_directory (fun e mem => (formed.entries e mem).1) there
  have inside : i < number a.entries.length := by
    rw [count]
    exact (List.getElem?_eq_some_iff.mp there).1
  have header := fits.headers _ a.directory through i inside
  have name := fits.names a formed rfl _ a.directory through i inside
  rw [show directoryFrom i a.directory = e.header ++ rest from here] at header name
  exact
    { fits := own
      size := number_size own fun wide read => (header wide read).1
      compressedSize := number_of_lt (size.trans_lt small)
      offset := number_of_lt (offset.trans_lt small)
      name := name_of_fits own name }

/-- The bytes of an entry's stream are its data. -/
theorem stream_of_data {entry : ZipEntry} (offset : entry.offset = e.offset)
    (size : entry.compressedSize = e.compressedSize) (holds : HoldsData a.front e data)
    {stream : Stream} (opened : openEntry R a.bytes entry = .ok stream) :
    (a.bytes.drop stream.start).take stream.length = data := by
  obtain ⟨before, h, behind, whole, placed, length⟩ := holds
  have drop : a.bytes.drop entry.offset = h.bytes ++ (data ++ (behind ++
      (a.directory ++ (a.gap ++ (a.wideBytes ++ (a.endBytes ++ a.comment)))))) := by
    have file : a.bytes = before ++ (h.bytes ++ (data ++ (behind ++
        (a.directory ++ (a.gap ++ (a.wideBytes ++ (a.endBytes ++ a.comment))))))) := by
      simp only [Archive.bytes, Archive.beforeEnd, whole, List.append_assoc]
    rw [offset, ← placed, file, List.drop_left]
  rw [openEntry] at opened
  obtain ⟨loc, slice, rest⟩ := bind_eq_ok opened
  obtain ⟨rfl, -, -⟩ := readSlice_eq slice
  rw [drop] at rest
  split at rest
  · cases rest
  have name : readLE 2 26 ((h.bytes ++ (data ++ (behind ++ (a.directory ++ (a.gap ++ (a.wideBytes ++
      (a.endBytes ++ a.comment))))))).take 30) = h.name.length :=
    (readLE_take (by decide)).trans (readLE_of_drop rfl h.name_length)
  have extra : readLE 2 28 ((h.bytes ++ (data ++ (behind ++ (a.directory ++ (a.gap ++
      (a.wideBytes ++ (a.endBytes ++ a.comment))))))).take 30) = h.extra.length :=
    (readLE_take (by decide)).trans (readLE_of_drop rfl h.extra_length)
  have header : h.bytes.length = 30 + h.name.length + h.extra.length := by
    simp only [LocalHeader.bytes, List.length_append, length_le]
    omega
  have streams : (a.bytes.drop (entry.offset + 30 + h.name.length + h.extra.length)).take
      entry.compressedSize = data := by
    have place : entry.offset + 30 + h.name.length + h.extra.length =
        entry.offset + h.bytes.length := by omega
    rw [place, ← List.drop_drop, drop, List.drop_left, size, ← length, List.take_left]
  simp only [name, extra] at rest
  split at rest
  · cases rest
  split at rest
  · rw [← Except.ok.inj rest]
    exact streams
  split at rest
  · rw [← Except.ok.inj rest]
    exact streams
  · cases rest

theorem sole_of_soleXmlEntry {entry : ZipEntry} (read : soleXmlEntry R file = .ok entry) :
    ∃ es, listEntries R file = .ok es ∧
      es.filter (fun e => e.name.getLast? ≠ some '/' && isXml e.name) = [entry] := by
  rw [soleXmlEntry] at read
  split at read
  · cases read
  rename_i es listed
  refine ⟨es, listed, ?_⟩
  simp only at read
  split at read
  · rename_i xml only
    obtain rfl := Except.ok.inj read
    rw [List.filter_filter] at only
    rw [← only]
    exact List.filter_congr fun e _ => Bool.and_comm _ _
  · cases read
  · cases read

def plainRuntime : Runtime := ⟨2 ^ 32, by decide⟩

/-- An entry of two bytes, stored. -/
def storedEntry : CentralEntry where
  madeBy := 20
  needed := 20
  flags := 0
  method := 0
  time := 0
  date := 33
  crc := 0
  compressedSize := 2
  size := 2
  internal := 0
  external := 0
  offset := 0
  name := [97, 46, 120, 109, 108]
  comment := []
  wideSize := false
  wideCompressed := false
  wideOffset := false
  fieldsBefore := []
  wideMore := []
  fieldsBehind := []

def storedHeader : LocalHeader where
  needed := 20
  flags := 0
  method := 0
  time := 0
  date := 33
  crc := 0
  compressedSize := 2
  size := 2
  name := [97, 46, 120, 109, 108]
  extra := []
  name_length := by decide
  extra_length := by decide

/-- An archive of that entry, with a comment. -/
def storedArchive (comment : List UInt8) : Archive where
  front := storedHeader.bytes ++ [60, 62]
  entries := [storedEntry]
  gap := []
  wideEnd := none
  wideCount := false
  wideSize := false
  wideOffset := false
  comment := comment

theorem storedArchive_wellFormed {comment : List UInt8} (short : comment.length < 2 ^ 16) :
    (storedArchive comment).WellFormed where
  entries e mem := by
    obtain rfl := List.mem_singleton.mp mem
    refine ⟨?_, [60, 62], [], storedHeader, [], by simp [storedArchive], rfl, rfl⟩
    constructor <;> decide
  count_narrow _ := show 1 < MAX16 by decide
  size_narrow _ := show 51 < MAX32 by decide
  offset_narrow _ := show 37 < MAX32 by decide
  wide saturated := by cases saturated
  length := by
    rw [bytes_length]
    have before : (storedArchive comment).beforeEnd.length = 88 := rfl
    have same : (storedArchive comment).comment = comment := rfl
    rw [before, same]
    omega
  comment_length := short

/-- A name of ASCII reads the same in both. -/
theorem nameFits_of_ascii {cd : List UInt8} (letters : ∀ b : UInt8, b.toNat < 128 →
      codePage b = Char.ofNat b.toNat)
    (ascii : ∀ b ∈ (cd.drop 46).take (readLE 2 28 cd), b.toNat < 128) : NameFits codePage cd :=
  .inr ((decode_ascii ascii).trans
    (List.map_congr_left fun b mem => (letters b (ascii b mem)).symm))

theorem storedArchive_fits :
    ZipFits plainRuntime (fun b => Char.ofNat b.toNat) (storedArchive []).bytes := by
  have first : statedEnd plainRuntime (storedArchive []).bytes = .ok ⟨1, 51, 37, 0, 0⟩ := by
    decide +kernel
  constructor
  · refine fun a formed is => .inl fun j after le here => ?_
    have length : (storedArchive []).bytes.length = 110 := rfl
    have whole := bytes_length (a := a)
    have only : ∀ j < 89, readLE 4 j (storedArchive []).bytes = EOCD_SIG → j = 88 := by
      decide +kernel
    have signed := readLE_end (a := a) (k := 4) (i := 0)
    rw [Nat.add_zero, is] at signed
    rw [is, length] at whole
    rw [length] at le
    have own := only a.beforeEnd.length (by omega) (signed.trans (readLE_of_drop rfl (by decide)))
    have other := only j (by omega) here
    omega
  · intro a formed is stated cd through i lt
    obtain rfl := Except.ok.inj (first.symm.trans through.states)
    obtain ⟨rfl, -⟩ := readSlice_eq through.slice
    obtain rfl : i = 0 := Nat.lt_one_iff.mp lt
    exact nameFits_of_ascii (fun _ _ => rfl) (by decide +kernel)
  · intro stated cd through i lt wide _
    obtain rfl := Except.ok.inj (first.symm.trans through.states)
    obtain ⟨rfl, -⟩ := readSlice_eq through.slice
    obtain rfl : i = 0 := Nat.lt_one_iff.mp lt
    refine ⟨fun full => absurd full ?_, fun full => absurd full ?_, fun full => absurd full ?_⟩
    · decide +kernel
    · decide +kernel
    · decide +kernel

end Clearotron.Zip
