import Clearotron.Archive.Zip

/-!
# The layout of an archive

An archive is what its writer laid out: the entries' data, each behind a header of its own, the
directory that lists the entries, and the record at the end, with a comment of any kind. A number
that its field has no room for stands in an extra field, or in a wider record before the last one.
-/

namespace Clearotron.Zip

open Bytes (le readLE)

/-- A field of 32 bits, saturated where its number stands elsewhere. -/
def narrow (wide : Bool) (n : ℕ) : ℕ := if wide then MAX32 else n

def wideMember (wide : Bool) (n : ℕ) : List UInt8 := if wide then le 8 n else []

/-- An extra field. -/
def extraField (x : ℕ × List UInt8) : List UInt8 := le 2 x.1 ++ (le 2 x.2.length ++ x.2)

/-- An entry, as the directory has it. -/
structure CentralEntry where
  madeBy : ℕ
  needed : ℕ
  flags : ℕ
  method : ℕ
  time : ℕ
  date : ℕ
  crc : ℕ
  compressedSize : ℕ
  size : ℕ
  internal : ℕ
  external : ℕ
  offset : ℕ
  name : List UInt8
  comment : List UInt8
  /-- the numbers that stand in the extra field -/
  wideSize : Bool
  wideCompressed : Bool
  wideOffset : Bool
  /-- what else the extra fields have, before and behind the numbers -/
  fieldsBefore : List (ℕ × List UInt8)
  wideMore : List UInt8
  fieldsBehind : List UInt8

namespace CentralEntry

variable (e : CentralEntry)

def wide : List UInt8 :=
  wideMember e.wideSize e.size ++ (wideMember e.wideCompressed e.compressedSize ++
    (wideMember e.wideOffset e.offset ++ e.wideMore))

def isWide : Bool := e.wideSize || e.wideCompressed || e.wideOffset

def extra : List UInt8 :=
  e.fieldsBefore.flatMap extraField ++
    ((if e.isWide then extraField (1, e.wide) else []) ++ e.fieldsBehind)

/-- The header of an entry in the directory. -/
def header : List UInt8 :=
  le 4 CEN_SIG ++ (le 2 e.madeBy ++ (le 2 e.needed ++ (le 2 e.flags ++ (le 2 e.method ++
    (le 2 e.time ++ (le 2 e.date ++ (le 4 e.crc ++
    (le 4 (narrow e.wideCompressed e.compressedSize) ++ (le 4 (narrow e.wideSize e.size) ++
    (le 2 e.name.length ++ (le 2 e.extra.length ++ (le 2 e.comment.length ++ (le 2 0 ++
    (le 2 e.internal ++ (le 4 e.external ++ (le 4 (narrow e.wideOffset e.offset) ++
    (e.name ++ (e.extra ++ e.comment))))))))))))))))))

/-- Every number has room in its field, or stands in the extra field. -/
structure Fits : Prop where
  flags : e.flags < 2 ^ 16
  method : e.method < 2 ^ 16
  compressedSize : e.compressedSize < 2 ^ 64
  size : e.size < 2 ^ 64
  offset : e.offset < 2 ^ 64
  size_narrow : e.wideSize = false → e.size < MAX32
  compressed_narrow : e.wideCompressed = false → e.compressedSize < MAX32
  offset_narrow : e.wideOffset = false → e.offset < MAX32
  name_length : e.name.length < 2 ^ 16
  extra_length : e.extra.length < 2 ^ 16
  comment_length : e.comment.length < 2 ^ 16
  fieldsBefore : ∀ x ∈ e.fieldsBefore, x.1 < 2 ^ 16 ∧ x.1 ≠ 1

end CentralEntry

/-- The header that stands before an entry's data; its lengths are its own. -/
structure LocalHeader where
  needed : ℕ
  flags : ℕ
  method : ℕ
  time : ℕ
  date : ℕ
  crc : ℕ
  compressedSize : ℕ
  size : ℕ
  name : List UInt8
  extra : List UInt8
  name_length : name.length < 2 ^ 16
  extra_length : extra.length < 2 ^ 16

def LocalHeader.bytes (h : LocalHeader) : List UInt8 :=
  le 4 LOC_SIG ++ (le 2 h.needed ++ (le 2 h.flags ++ (le 2 h.method ++ (le 2 h.time ++
    (le 2 h.date ++ (le 4 h.crc ++ (le 4 h.compressedSize ++ (le 4 h.size ++
    (le 2 h.name.length ++ (le 2 h.extra.length ++ (h.name ++ h.extra)))))))))))

/-- Some bytes hold an entry's data. -/
def HoldsData (front : List UInt8) (e : CentralEntry) (data : List UInt8) : Prop :=
  ∃ before h behind, front = before ++ (LocalHeader.bytes h ++ (data ++ behind)) ∧
    before.length = e.offset ∧ data.length = e.compressedSize

/-- The wider record at the end. -/
structure WideEnd where
  madeBy : ℕ
  needed : ℕ
  more : List UInt8

structure Archive where
  /-- the entries' headers and data, and whatever lies between -/
  front : List UInt8
  entries : List CentralEntry
  /-- what lies behind the directory -/
  gap : List UInt8
  wideEnd : Option WideEnd
  wideCount : Bool
  wideSize : Bool
  wideOffset : Bool
  comment : List UInt8

namespace Archive

variable (a : Archive)

def directory : List UInt8 := a.entries.flatMap CentralEntry.header

def wideEndBytes (w : WideEnd) : List UInt8 :=
  le 4 EOCD64_SIG ++ (le 8 (44 + w.more.length) ++ (le 2 w.madeBy ++ (le 2 w.needed ++ (le 4 0 ++
    (le 4 0 ++ (le 8 a.entries.length ++ (le 8 a.entries.length ++ (le 8 a.directory.length ++
    (le 8 a.front.length ++ w.more)))))))))

/-- Where the wider record stands. -/
def wideEndAt : ℕ := (a.front ++ (a.directory ++ a.gap)).length

def locatorBytes : List UInt8 :=
  le 4 EOCD64_LOC_SIG ++ (le 4 0 ++ (le 8 a.wideEndAt ++ le 4 1))

def endBytes : List UInt8 :=
  le 4 EOCD_SIG ++ (le 2 0 ++ (le 2 0 ++
    (le 2 (if a.wideCount then MAX16 else a.entries.length) ++
    (le 2 (if a.wideCount then MAX16 else a.entries.length) ++
    (le 4 (narrow a.wideSize a.directory.length) ++ (le 4 (narrow a.wideOffset a.front.length) ++
    le 2 a.comment.length))))))

def wideBytes : List UInt8 :=
  match a.wideEnd with
  | some w => a.wideEndBytes w ++ a.locatorBytes
  | none => []

/-- What stands before the record at the end. -/
def beforeEnd : List UInt8 := a.front ++ (a.directory ++ a.gap) ++ a.wideBytes

def bytes : List UInt8 := a.beforeEnd ++ (a.endBytes ++ a.comment)

structure WellFormed : Prop where
  entries : ∀ e ∈ a.entries, e.Fits ∧ ∃ data, HoldsData a.front e data
  count_narrow : a.wideCount = false → a.entries.length < MAX16
  size_narrow : a.wideSize = false → a.directory.length < MAX32
  offset_narrow : a.wideOffset = false → a.front.length < MAX32
  wide : (a.wideCount || a.wideSize || a.wideOffset) = true → a.wideEnd.isSome
  length : a.bytes.length < 2 ^ 64
  comment_length : a.comment.length < 2 ^ 16

end Archive

/-- The name of an entry: in UTF-8 where the entry says so, else of the format's own letters. -/
def trueName (codePage : UInt8 → Char) (e : CentralEntry) : List Char :=
  if e.flags / 2 ^ 11 % 2 = 1 then Utf8.decode e.name else e.name.map codePage

def CentralEntry.listed (codePage : UInt8 → Char) (e : CentralEntry) : ZipEntry :=
  ⟨trueName codePage e, e.size, e.compressedSize, e.method, e.offset⟩

/-- The directory from its entry `i` on. -/
def directoryFrom : ℕ → List UInt8 → List UInt8
  | 0, cd => cd
  | i + 1, cd => directoryFrom i (cd.drop (46 + readLE 2 28 cd + readLE 2 30 cd + readLE 2 32 cd))

/-- The extra field of the first entry of a directory, as it is read. -/
def wideOf (cd : List UInt8) : Except ZipFault Wide :=
  let extra := (cd.drop (46 + readLE 2 28 cd)).take (readLE 2 30 cd)
  zip64Extra (readLE 4 24 cd = MAX32) (readLE 4 20 cd = MAX32) (readLE 4 42 cd = MAX32)
    (extra.length + 1) extra

/-- A number is the one that its field has, or the one that stands for a saturated field. -/
def IsTrue (stored : ℕ) (wide : Option ℕ) (n : ℕ) : Prop :=
  if stored = MAX32 then wide = some n else n = stored

structure ZipPromises (R : Runtime) (codePage : UInt8 → Char) (file : List UInt8) : Prop where
  /-- the entries are the archive's, in order -/
  entries : ∀ a : Archive, a.WellFormed → a.bytes = file → ∀ es, listEntries R file = .ok es →
    es = a.entries.map (CentralEntry.listed codePage)
  /-- no fewer than are stated, and no saturated field stands for its number -/
  stated : ∀ es, listEntries R file = .ok es → ∃ stated cd, statedEnd R file = .ok stated ∧
    readSlice R file stated.cdOffset stated.cdSize = .ok cd ∧ es.length = stated.entryCount ∧
      ∀ (i : ℕ) e wide, es[i]? = some e → wideOf (directoryFrom i cd) = .ok wide →
        IsTrue (readLE 4 24 (directoryFrom i cd)) wide.size e.size ∧
        IsTrue (readLE 4 20 (directoryFrom i cd)) wide.compressedSize e.compressedSize ∧
        IsTrue (readLE 4 42 (directoryFrom i cd)) wide.offset e.offset
  /-- an entry's stream is its data -/
  data : ∀ a : Archive, a.WellFormed → a.bytes = file → ∀ es, listEntries R file = .ok es →
    ∀ (i : ℕ) e entry data, a.entries[i]? = some e → es[i]? = some entry →
      HoldsData a.front e data →
      ∀ stream, openEntry R file entry = .ok stream →
        (file.drop stream.start).take stream.length = data
  /-- the one entry to ingest is the only one -/
  sole : ∀ entry, soleXmlEntry R file = .ok entry → ∃ es, listEntries R file = .ok es ∧
    es.filter (fun e => e.name.getLast? ≠ some '/' && isXml e.name) = [entry]

/-- A saturated field has its number in the extra field, one that the runtime has. -/
def FieldFits (stored : ℕ) (wide : Option ℕ) : Prop :=
  stored = MAX32 → ∃ n, wide = some n ∧ number n = n

/-- An entry's name says that it is in UTF-8, or reads in it as in the format's own letters. -/
def NameFits (codePage : UInt8 → Char) (cd : List UInt8) : Prop :=
  readLE 2 8 cd / 2 ^ 11 % 2 = 1 ∨
    Utf8.decode ((cd.drop 46).take (readLE 2 28 cd)) =
      ((cd.drop 46).take (readLE 2 28 cd)).map codePage

/-- Nothing in the header of an entry makes the reader refuse the archive. -/
structure HeaderReads (cd : List UInt8) : Prop where
  long : 46 ≤ cd.length
  signed : readLE 4 0 cd = CEN_SIG
  plain : readLE 2 8 cd % 2 ≠ 1
  extra : ∃ wide, wideOf cd = .ok wide

/-- The directory that is stated stands there whole, and can be read to its end. -/
structure ReadThrough (R : Runtime) (file : List UInt8) (stated : Stated) (cd : List UInt8) :
    Prop where
  states : statedEnd R file = .ok stated
  oneDisk : stated.disk = 0 ∧ stated.cdDisk = 0
  slice : readSlice R file stated.cdOffset stated.cdSize = .ok cd
  whole : cd.length = stated.cdSize
  each : ∀ i < stated.entryCount, HeaderReads (directoryFrom i cd)

/-- What the end of an archive states, each number as the runtime has it. -/
def Archive.stated (a : Archive) : Stated :=
  ⟨number a.entries.length, number a.directory.length, number a.front.length, 0, 0⟩

structure ZipFits (R : Runtime) (codePage : UInt8 → Char) (file : List UInt8) : Prop where
  /-- where something behind the start of an archive's last record has that record's signature,
  the directory that is stated there cannot be read, or is the archive's own -/
  own_end : ∀ a : Archive, a.WellFormed → a.bytes = file →
    (∀ j, a.beforeEnd.length < j → j + 22 ≤ file.length → readLE 4 j file ≠ EOCD_SIG) ∨
      ∀ stated cd, ReadThrough R file stated cd → stated = a.stated
  names : ∀ a : Archive, a.WellFormed → a.bytes = file → ∀ stated cd, ReadThrough R file stated cd →
    ∀ i < stated.entryCount, NameFits codePage (directoryFrom i cd)
  headers : ∀ stated cd, ReadThrough R file stated cd → ∀ i < stated.entryCount,
    ∀ wide, wideOf (directoryFrom i cd) = .ok wide →
      FieldFits (readLE 4 24 (directoryFrom i cd)) wide.size ∧
      FieldFits (readLE 4 20 (directoryFrom i cd)) wide.compressedSize ∧
      FieldFits (readLE 4 42 (directoryFrom i cd)) wide.offset

end Clearotron.Zip
