import Clearotron.Library.Utf8

/-!
# The zip reader

The reader finds the record at the end of an archive by its signature, from the back, follows it to
the directory, and reads the entries there. Where a field of 32 bits is saturated the number stands
in a wider one. A file is its bytes.
-/

namespace Clearotron.Zip

open Bytes (readLE)

/-- `Number` of an integer: the nearest with 53 bits, the even one of two. -/
def number (n : ℕ) : ℕ :=
  if n < 2 ^ 53 then n
  else
    let unit := 2 ^ (Nat.log2 n - 52)
    let up := unit < 2 * (n % unit) ∨ (unit = 2 * (n % unit) ∧ n / unit % 2 = 1)
    (if up then n / unit + 1 else n / unit) * unit

def maxSafeInteger : ℕ := 2 ^ 53 - 1

inductive ZipFault where
  /-- an index or a length that the runtime refuses -/
  | range
  | noEnd
  | noLocator
  | badZip64End
  | multiDisk
  | truncated
  | badSignature (entry : ℕ)
  | encrypted (name : List Char)
  | fewer (stated readable : ℕ)
  | noLocalHeader
  | method (n : ℕ)
  deriving DecidableEq

def EOCD_SIG : ℕ := 0x06054b50
def EOCD64_LOC_SIG : ℕ := 0x07064b50
def EOCD64_SIG : ℕ := 0x06064b50
def CEN_SIG : ℕ := 0x02014b50
def LOC_SIG : ℕ := 0x04034b50
def MAX32 : ℕ := 0xffffffff
def MAX16 : ℕ := 0xffff

/-- The record at the end, and the longest comment behind it. -/
def EOCD_SEARCH : ℕ := 22 + MAX16

/-- The most bytes that the runtime keeps in one piece. -/
structure Runtime where
  maxLength : ℕ
  safe : maxLength ≤ maxSafeInteger

variable (R : Runtime) (file : List UInt8)

/-- What of some bytes the file has. -/
def readSlice (start length : ℕ) : Except ZipFault (List UInt8) :=
  if R.maxLength < length ∨ maxSafeInteger < start then .error .range
  else .ok ((file.drop start).take length)

/-- The last place up to `i` that opens with a signature. -/
def scanBack (sig : ℕ) (l : List UInt8) : ℕ → Option ℕ
  | 0 => if readLE 4 0 l = sig then some 0 else none
  | i + 1 => if readLE 4 (i + 1) l = sig then some (i + 1) else scanBack sig l i

/-- The numbers that an extra field has in 64 bits. -/
structure Wide where
  size : Option ℕ := none
  compressedSize : Option ℕ := none
  offset : Option ℕ := none

/-- A member of 64 bits where there is room for one, and what is behind it; `.error` where the
field ends before the room that it states does. -/
def takeWide (needed : Bool) (room : ℕ) (l : List UInt8) :
    Except ZipFault (Option ℕ × ℕ × List UInt8) :=
  if needed ∧ 8 ≤ room then
    if l.length < 8 then .error .range
    else .ok (some (readLE 8 0 l), room - 8, l.drop 8)
  else .ok (none, room, l)

/-- `zip64Extra`, with the fuel for its loop. -/
def zip64Extra (needSize needCompressed needOffset : Bool) :
    ℕ → List UInt8 → Except ZipFault Wide
  | 0, _ => .ok {}
  | fuel + 1, extra =>
    if extra.length < 4 then .ok {}
    else if readLE 2 0 extra = 1 then do
      let (size, room, rest) ← takeWide needSize (readLE 2 2 extra) (extra.drop 4)
      let (compressedSize, room, rest) ← takeWide needCompressed room rest
      let (offset, _, _) ← takeWide needOffset room rest
      .ok ⟨size, compressedSize, offset⟩
    else zip64Extra needSize needCompressed needOffset fuel (extra.drop (4 + readLE 2 2 extra))

structure ZipEntry where
  name : List Char
  size : ℕ
  compressedSize : ℕ
  method : ℕ
  offset : ℕ
  deriving DecidableEq

/-- A number of 32 bits, or its wider one. -/
def widened (stored : ℕ) (wide : Option ℕ) : ℕ :=
  if stored = MAX32 then (wide.map number).getD stored else stored

/-- The entries of a directory, `i` the number of the first. -/
def entriesFrom (i : ℕ) : ℕ → List UInt8 → Except ZipFault (List ZipEntry)
  | 0, _ => .ok []
  | count + 1, cd =>
    if cd.length < 46 then .ok []
    else if readLE 4 0 cd ≠ CEN_SIG then .error (.badSignature i)
    else
      let nameLen := readLE 2 28 cd
      let extraLen := readLE 2 30 cd
      let commentLen := readLE 2 32 cd
      let name := Utf8.decode ((cd.drop 46).take nameLen)
      let extra := (cd.drop (46 + nameLen)).take extraLen
      if readLE 2 8 cd % 2 = 1 then .error (.encrypted name)
      else do
        let z64 ← zip64Extra (readLE 4 24 cd = MAX32) (readLE 4 20 cd = MAX32)
          (readLE 4 42 cd = MAX32) (extra.length + 1) extra
        let rest ← entriesFrom (i + 1) count (cd.drop (46 + nameLen + extraLen + commentLen))
        .ok
          ({ name
             size := widened (readLE 4 24 cd) z64.size
             compressedSize := widened (readLE 4 20 cd) z64.compressedSize
             method := readLE 2 10 cd
             offset := widened (readLE 4 42 cd) z64.offset } :: rest)

/-- What the record at the end states of the directory. -/
structure Stated where
  entryCount : ℕ
  cdSize : ℕ
  cdOffset : ℕ
  disk : ℕ
  cdDisk : ℕ
  deriving DecidableEq

/-- The numbers of the wider record, which is found by its locator before the last record. -/
def wideStated (tail : List UInt8) (eocd : ℕ) (stated : Stated) : Except ZipFault Stated :=
  if eocd < 20 then .error .noLocator
  else
    match scanBack EOCD64_LOC_SIG tail (eocd - 20) with
    | none => .error .noLocator
    | some loc => do
      let rec64 ← readSlice R file (number (readLE 8 (loc + 8) tail)) 56
      if rec64.length < 56 ∨ readLE 4 0 rec64 ≠ EOCD64_SIG then .error .badZip64End
      else
        .ok
          { stated with
            entryCount := number (readLE 8 32 rec64)
            cdSize := number (readLE 8 40 rec64)
            cdOffset := number (readLE 8 48 rec64) }

/-- What the archive states of its directory, by the wider record where a field is saturated. -/
def statedEnd : Except ZipFault Stated := do
  let tailLen := min file.length EOCD_SEARCH
  let tail ← readSlice R file (file.length - tailLen) tailLen
  if tail.length < 22 then .error .noEnd
  else
    match scanBack EOCD_SIG tail (tail.length - 22) with
    | none => .error .noEnd
    | some eocd =>
      let stated : Stated :=
        { entryCount := readLE 2 (eocd + 10) tail
          cdSize := readLE 4 (eocd + 12) tail
          cdOffset := readLE 4 (eocd + 16) tail
          disk := readLE 2 (eocd + 4) tail
          cdDisk := readLE 2 (eocd + 6) tail }
      if stated.entryCount = MAX16 ∨ stated.cdOffset = MAX32 ∨ stated.cdSize = MAX32 then
        wideStated R file tail eocd stated
      else .ok stated

def listEntries : Except ZipFault (List ZipEntry) := do
  let stated ← statedEnd R file
  if stated.disk ≠ 0 ∨ stated.cdDisk ≠ 0 then .error .multiDisk
  else
    let cd ← readSlice R file stated.cdOffset stated.cdSize
    if cd.length ≠ stated.cdSize then .error .truncated
    else
      let entries ← entriesFrom 0 stated.entryCount cd
      if entries.length ≠ stated.entryCount then .error (.fewer stated.entryCount entries.length)
      else .ok entries

/-- A stream of the file's bytes from `start` on, `length` of them. -/
structure Stream where
  start : ℕ
  length : ℕ
  inflate : Bool
  deriving DecidableEq

def openEntry (entry : ZipEntry) : Except ZipFault Stream := do
  let loc ← readSlice R file entry.offset 30
  if loc.length < 30 ∨ readLE 4 0 loc ≠ LOC_SIG then .error .noLocalHeader
  else
    let dataAt := entry.offset + 30 + readLE 2 26 loc + readLE 2 28 loc
    -- the last byte may not stand before the first
    if entry.compressedSize = 0 ∨ maxSafeInteger < dataAt + entry.compressedSize - 1 then
      .error .range
    else if entry.method = 0 then .ok ⟨dataAt, entry.compressedSize, false⟩
    else if entry.method = 8 then .ok ⟨dataAt, entry.compressedSize, true⟩
    else .error (.method entry.method)

/-- `/\.xml$/i`. -/
def isXml (name : List Char) : Bool :=
  ".xml".toList.isSuffixOf (name.map Char.toLower)

inductive SoleFault where
  | fault (of : ZipFault)
  | noXml (found : List (List Char))
  | several (names : List (List Char))

/-- The one entry to ingest. -/
def soleXmlEntry : Except SoleFault ZipEntry :=
  match listEntries R file with
  | .error fault => .error (.fault fault)
  | .ok listed =>
    let entries := listed.filter fun e => e.name.getLast? ≠ some '/'
    match entries.filter fun e => isXml e.name with
    | [xml] => .ok xml
    | [] => .error (.noXml (entries.map ZipEntry.name))
    | several => .error (.several (several.map ZipEntry.name))

end Clearotron.Zip
