import Clearotron.Library.Scan
import Clearotron.Library.Utf8
import Clearotron.Index.Store

/-!
# Case files from a bulk stream

The office's XML comes in gigabytes. A scanner looks for the tags of a frozen document type in what
has been read so far, makes a row of each case file that is complete, and keeps the rest. The rows
are handed on in batches.
-/

namespace Clearotron.CaseFiles

open Scan

/-- `ENTITIES`. -/
def entities : List (String × Char) :=
  [("amp", '&'), ("lt", '<'), ("gt", '>'), ("quot", Char.ofNat 34), ("apos", Char.ofNat 39)]

def isHexDigit (c : Char) : Bool :=
  c.isDigit || (97 ≤ c.toNat && c.toNat ≤ 102) || (65 ≤ c.toNat && c.toNat ≤ 70)

def digitValue (c : Char) : ℕ :=
  if c.isDigit then c.toNat - 48 else if 97 ≤ c.toNat then c.toNat - 87 else c.toNat - 55

/-- `Number.parseInt`, of digits. -/
def parseDigits (base : ℕ) (digits : List Char) : Option ℕ :=
  if digits = [] then none
  else some (digits.foldl (fun n d => n * base + digitValue d) 0)

/-- `String.fromCodePoint` where the number is positive. No XML document refers to a number that is
no character: there the reference is left as it is. -/
def fromCodePoint (n : ℕ) : Option Char :=
  if 0 < n ∧ n.isValidChar then some (Char.ofNat n) else none

/-- What the text behind an ampersand refers to, and how much of it the reference takes. -/
def reference : List Char → Option (Char × ℕ)
  | '#' :: s =>
    let hex := s.head? = some 'x'
    let digits := (if hex then s.tail else s).takeWhile isHexDigit
    let behind := (if hex then s.tail else s).drop digits.length
    if digits = [] ∨ behind.head? ≠ some ';' then none
    else
      -- in base ten the digits end where a letter follows
      let number := if hex then parseDigits 16 digits
        else parseDigits 10 (digits.takeWhile Char.isDigit)
      (number.bind fromCodePoint).map fun c =>
        (c, 1 + (if hex then 1 else 0) + digits.length + 1)
  | s => entities.findSome? fun (name, c) =>
    if (name.toList ++ [';']).isPrefixOf s then some (c, name.toList.length + 1) else none

/-- The scan, with how many characters the last reference still takes. -/
def decodeFrom : ℕ → List Char → List Char
  | _, [] => []
  | skip + 1, _ :: s => decodeFrom skip s
  | 0, c :: s =>
    if c = '&' then
      match reference s with
      | some (d, taken) => d :: decodeFrom taken s
      | none => c :: decodeFrom 0 s
    else c :: decodeFrom 0 s

def decodeXml (s : List Char) : List Char := decodeFrom 0 s

/-- Eight digits, of which zeros are an absent date. -/
def usptoDate (raw : Option String) : Option String :=
  let s := (Text.trim (raw.getD "")).toList
  if ¬ (s.length = 8 ∧ s.all Char.isDigit) ∨ s = "00000000".toList then none
  else if s.take 4 = "0000".toList ∨ (s.drop 4).take 2 = "00".toList ∨ s.drop 6 = "00".toList then
    none
  else some (String.ofList (s.take 4 ++ '-' :: (s.drop 4).take 2 ++ '-' :: s.drop 6))

def markFeatureOf (code : Option String) : Option String :=
  match (Text.trim (code.getD "")).toList.head? with
  | none => none
  | some c =>
    if c = '1' ∨ c = '4' then some "word"
    else if c = '2' ∨ c = '5' then some "design"
    else if c = '3' ∨ c = '6' then some "combined"
    else none

/-- `type.slice(0, 2).toUpperCase() === "GS"`; the long s is an S in capitals. -/
def isGoods (type : String) : Bool :=
  match type.toList with
  | g :: s :: _ => (g == 'G' || g == 'g') && (s == 'S' || s == 's' || s == 'ſ')
  | _ => false

/-- A tag; the name of a closing one begins with a slash. -/
def mark (name : List Char) : List Char := '<' :: (name ++ ['>'])

def openTag (tag : String) : List Char := mark tag.toList

def closeTag (tag : String) : List Char := mark ('/' :: tag.toList)

/-- What a case file is read from: the elements of a name, and their text. -/
structure Markup (X : Type) where
  /-- the first element of a name, without its tags -/
  first : String → X → Option X
  /-- the elements of a name, one behind the other -/
  all : String → X → List X
  value : X → String
  nothing : X
  isNothing : X → Bool

namespace Markup

variable {X : Type} (M : Markup X)

def pick (tag : String) (xml : X) : Option String := (M.first tag xml).map M.value

def pickAll (tag : String) (xml : X) : List String := (M.all tag xml).map M.value

/-- `section`. -/
def sectionOf (tag : String) (xml : X) : X := (M.first tag xml).getD M.nothing

def splitElements (tag : String) (xml : X) : List X := M.all tag xml

/-- `xml ? section(xml, tag) : ""`. -/
def sectionIn (tag : String) (xml : X) : X :=
  if M.isNothing xml then M.nothing else M.sectionOf tag xml

/-- `xml ? (pick(xml, tag) ?? null) : null`. -/
def pickIn (tag : String) (xml : X) : Option String :=
  if M.isNothing xml then none else M.pick tag xml

end Markup

/-- The source's own reading, by `indexOf` and `slice`. A closing tag is looked for from the opening
one on, and so behind it. -/
def xmlText : Markup (List Char) where
  first tag xml := (cutAt (openTag tag) xml).bind fun opened =>
    (cutAt (closeTag tag) opened.2).map Prod.fst
  all tag xml := (pieces (openTag tag) (closeTag tag) xml).1
  value inner := String.ofList (decodeXml inner)
  nothing := []
  isNothing := List.isEmpty

/-- The row of a case file. -/
structure CaseFileRow where
  serial : String
  regno : Option String
  text : String
  owner : Option String
  ownerCountry : Option String
  status : Option String
  statusClass : String
  statusDate : Option String
  markFeature : Option String
  classes : List String
  filed : Option String
  regd : Option String
  expiry : Option String
  gs : Option String
deriving DecidableEq, Repr

/-- A text, where it is not empty. -/
def nonEmpty (s : Option String) : Option String := s.filter (· ≠ "")

section Parse

variable {X : Type} (M : Markup X)

/-- The statements of goods and services in a case file. -/
def goodsOf (xml : X) : List String :=
  (M.splitElements "case-file-statement" (M.sectionOf "case-file-statements" xml)).filterMap
    fun st =>
      if isGoods ((M.pick "type-code" st).getD "") then (nonEmpty (M.pick "text" st)).map Text.trim
      else none

/-- A case file without a serial number has no row. -/
def parseCaseFile (xml : X) : Option CaseFileRow := do
  let serial ← nonEmpty (M.pick "serial-number" xml)
  let header := M.sectionOf "case-file-header" xml
  let status := M.pick "status-code" header
  let classes := (M.pickAll "international-code" (M.sectionOf "classifications" xml)).eraseDups
  let firstOwner := M.sectionIn "case-file-owner" (M.sectionOf "case-file-owners" xml)
  let nationality := M.sectionIn "nationality" firstOwner
  let gs := goodsOf M xml
  return {
    serial := Text.trim serial
    regno := nonEmpty ((M.pick "registration-number" xml).map Text.trim)
    text := (M.pick "mark-identification" header).getD ""
    owner := M.pickIn "party-name" firstOwner
    ownerCountry := M.pickIn "country" nationality <|> M.pickIn "state" nationality
    status := status
    statusClass := statusClassOf status
    statusDate := usptoDate (M.pick "status-date" header)
    markFeature := markFeatureOf (M.pick "mark-drawing-code" header)
    classes := (classes.map Text.trim).filter (· ≠ "")
    filed := usptoDate (M.pick "filing-date" header)
    regd := usptoDate (M.pick "registration-date" header)
    expiry := usptoDate (M.pick "renewal-date" header)
    gs := if gs = [] then none else some (String.intercalate " " gs) }

end Parse

/-- The rows of the case files that are complete, and what has to be kept. -/
def drainCaseFiles (buffer : List Char) : List CaseFileRow × List Char :=
  let (bodies, tail) := pieces (openTag "case-file") (closeTag "case-file") buffer
  (bodies.filterMap (parseCaseFile xmlText), tail)

structure Ingest where
  decoder : Utf8.Partly := Utf8.whole
  buffer : List Char := []
  batch : List CaseFileRow := []
  /-- what `onBatch` was given -/
  handed : List (List CaseFileRow) := []
  total : ℕ := 0

namespace Ingest

def handOn (st : Ingest) : Ingest :=
  { st with handed := st.handed ++ [st.batch], total := st.total + st.batch.length, batch := [] }

def push (batchSize : ℕ) (st : Ingest) (r : CaseFileRow) : Ingest :=
  let st := { st with batch := st.batch ++ [r] }
  if batchSize ≤ st.batch.length then st.handOn else st

def receive (batchSize : ℕ) (st : Ingest) (chunk : List UInt8) : Ingest :=
  let (decoder, text) := Utf8.run st.decoder chunk
  let (records, tail) := drainCaseFiles (st.buffer ++ text)
  records.foldl (push batchSize) { st with decoder, buffer := tail }

/-- A last batch, however small. -/
def handOnRest (st : Ingest) : Ingest := if st.batch = [] then st else st.handOn

/-- The end of the stream. -/
def finish (st : Ingest) : Ingest :=
  let (records, _) := drainCaseFiles (st.buffer ++ Utf8.flush st.decoder)
  { st with batch := st.batch ++ records }.handOnRest

end Ingest

/-- The batches handed on, and their count of rows. -/
def ingestStream (batchSize : ℕ) (chunks : List (List UInt8)) : List (List CaseFileRow) × ℕ :=
  let st := (chunks.foldl (Ingest.receive batchSize) {}).finish
  (st.handed, st.total)

/-- A text as a stream gives it, cut into chunks anywhere. -/
structure Stream where
  text : List Char
  chunks : List (List UInt8)
  bytes : chunks.flatten = Utf8.encode text

/-- The rows of the case files of a whole text. -/
def caseFiles (text : List Char) : List CaseFileRow :=
  (pieces (openTag "case-file") (closeTag "case-file") text).1.filterMap (parseCaseFile xmlText)

/-- The rows handed on are those of `rows`, in order, each once. -/
structure HandsOn (rows : List CaseFileRow) (out : List (List CaseFileRow) × ℕ) : Prop where
  handed : out.1.flatten = rows
  total : out.2 = rows.length
  filled : ∀ batch ∈ out.1, batch ≠ []

namespace Ingest

theorem openTag_ne_nil (tag : String) : openTag tag ≠ [] := List.cons_ne_nil _ _

/-- What is handed on is counted. -/
structure Counted (st : Ingest) : Prop where
  total : st.total = st.handed.flatten.length
  filled : ∀ batch ∈ st.handed, batch ≠ []

variable {st : Ingest} {read : List UInt8} (batchSize : ℕ)

theorem Counted.handOn (counted : Counted st) (filled : st.batch ≠ []) : Counted st.handOn where
  total := by simp [Ingest.handOn, counted.total]
  filled := by
    intro batch mem
    obtain mem | mem := List.mem_append.mp mem
    · exact counted.filled batch mem
    · exact List.mem_singleton.mp mem ▸ filled

theorem Counted.push (counted : Counted st) (r : CaseFileRow) : Counted (st.push batchSize r) := by
  unfold Ingest.push
  dsimp only
  split
  · exact Counted.handOn ⟨counted.total, counted.filled⟩ (by simp)
  · exact ⟨counted.total, counted.filled⟩

theorem push_rows (r : CaseFileRow) : (st.push batchSize r).handed.flatten ++
    (st.push batchSize r).batch = st.handed.flatten ++ st.batch ++ [r] := by
  unfold push
  dsimp only
  split
  · simp [handOn]
  · simp

theorem push_frame (r : CaseFileRow) : (st.push batchSize r).buffer = st.buffer ∧
    (st.push batchSize r).decoder = st.decoder := by
  unfold push
  dsimp only
  split <;> exact ⟨rfl, rfl⟩

/-- Rows that are pushed are not lost, and nothing else changes. -/
theorem foldl_push (counted : Counted st) (rows : List CaseFileRow) :
    Counted (rows.foldl (push batchSize) st) ∧
    (rows.foldl (push batchSize) st).handed.flatten ++ (rows.foldl (push batchSize) st).batch =
      st.handed.flatten ++ st.batch ++ rows ∧
    (rows.foldl (push batchSize) st).buffer = st.buffer ∧
    (rows.foldl (push batchSize) st).decoder = st.decoder := by
  induction rows generalizing st with
  | nil => simp [counted]
  | cons r rows ih =>
    obtain ⟨counted', rows', buffer, decoder⟩ := ih (counted.push batchSize r)
    have frame := @push_frame st batchSize r
    refine ⟨counted', ?_, buffer.trans frame.1, decoder.trans frame.2⟩
    rw [List.foldl_cons, rows', push_rows, List.append_assoc, List.singleton_append]

/-- What a state has read of a stream. -/
structure Reads (read : List UInt8) (st : Ingest) : Prop where
  decoder : st.decoder = (Utf8.run Utf8.whole read).1
  rows : st.handed.flatten ++ st.batch = caseFiles (Utf8.run Utf8.whole read).2
  buffer : st.buffer =
    (pieces (openTag "case-file") (closeTag "case-file") (Utf8.run Utf8.whole read).2).2
  counted : Counted st

/-- What is kept of a text stands for all of it. -/
theorem caseFiles_append (text more : List Char) :
    caseFiles (text ++ more) = caseFiles text ++ (drainCaseFiles
      ((pieces (openTag "case-file") (closeTag "case-file") text).2 ++ more)).1 := by
  rw [caseFiles, pieces_append (openTag_ne_nil _), List.filterMap_append]
  rfl

/-- One chunk. -/
theorem Reads.receive (reads : Reads read st) (chunk : List UInt8) :
    Reads (read ++ chunk) (st.receive batchSize chunk) := by
  have text := Utf8.run_append Utf8.whole read chunk
  have more := caseFiles_append (Utf8.run Utf8.whole read).2 (Utf8.run st.decoder chunk).2
  have kept := pieces_append (openTag_ne_nil "case-file") (closeTag "case-file")
    (Utf8.run Utf8.whole read).2 (Utf8.run st.decoder chunk).2
  rw [← reads.decoder] at text
  rw [← reads.buffer] at more kept
  let drained := drainCaseFiles (st.buffer ++ (Utf8.run st.decoder chunk).2)
  let opened : Ingest :=
    { st with decoder := (Utf8.run st.decoder chunk).1, buffer := drained.2 }
  have start : Counted opened := ⟨reads.counted.total, reads.counted.filled⟩
  obtain ⟨counted, rows, buffer, decoder⟩ := foldl_push batchSize start drained.1
  refine ⟨?_, ?_, ?_, counted⟩
  · rw [text]
    exact decoder
  · rw [text, more, ← reads.rows]
    exact rows
  · rw [text, kept]
    exact buffer

/-- Any number of chunks. -/
theorem Reads.foldl (reads : Reads read st) (chunks : List (List UInt8)) :
    Reads (read ++ chunks.flatten) (chunks.foldl (Ingest.receive batchSize) st) := by
  induction chunks generalizing read st with
  | nil => simpa using reads
  | cons chunk chunks ih =>
    rw [List.flatten_cons, ← List.append_assoc]
    exact ih (reads.receive batchSize chunk)

theorem reads_start : Reads [] {} := ⟨rfl, rfl, rfl, rfl, nofun⟩

theorem Counted.handOnRest (counted : Counted st) :
    HandsOn (st.handed.flatten ++ st.batch) (st.handOnRest.handed, st.handOnRest.total) := by
  unfold Ingest.handOnRest
  split
  · rename_i nothing
    rw [nothing, List.append_nil]
    exact ⟨rfl, counted.total, counted.filled⟩
  · rename_i filled
    have counted' := counted.handOn filled
    have rows : st.handOn.handed.flatten = st.handed.flatten ++ st.batch := by
      simp [Ingest.handOn]
    exact ⟨rows, by rw [← rows]; exact counted'.total, counted'.filled⟩

theorem Reads.finish (reads : Reads read st) :
    HandsOn (caseFiles (Utf8.decode read)) (st.finish.handed, st.finish.total) := by
  have more := caseFiles_append (Utf8.run Utf8.whole read).2 (Utf8.flush st.decoder)
  rw [← reads.buffer, ← reads.rows, reads.decoder, ← Utf8.decode, ← reads.decoder,
    List.append_assoc] at more
  let filled : Ingest :=
    { st with batch := st.batch ++ (drainCaseFiles (st.buffer ++ Utf8.flush st.decoder)).1 }
  have counted : Counted filled := ⟨reads.counted.total, reads.counted.filled⟩
  rw [more]
  exact counted.handOnRest

end Ingest

/-- However a stream is cut, the rows handed on are those of the whole text. -/
theorem handsOn_ingestStream (stream : Stream) (batchSize : ℕ) :
    HandsOn (caseFiles stream.text) (ingestStream batchSize stream.chunks) := by
  have reads := (Ingest.reads_start.foldl batchSize stream.chunks).finish
  rwa [List.nil_append, stream.bytes, Utf8.decode_encode] at reads

end Clearotron.CaseFiles
