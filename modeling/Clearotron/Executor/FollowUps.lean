import Clearotron.Library.Tally
import Clearotron.Plan.Entry

/-!
# Follow-up searches

A net in code under the searches a run's model adds: one line per follow-up search in a
file of the run, which every worker reads before it sends one and appends to as it does.
-/

namespace Clearotron

/-- `FOLLOW_UP_SEARCH_LIMIT`. -/
def followUpSearchLimit : Nat := 120

/-- `[...new Set(texts)].sort()`. -/
def sortedSet (texts : List String) : List String :=
  texts.eraseDups.mergeSort fun a b => decide (Text.utf16 a ≤ Text.utf16 b)

/-- What a line of the searches file carries, of what is read back from it. -/
structure SearchRow where
  qid : String
  romanized : List String := []
  /-- of its own, where an earlier send of the question had failed -/
  retry : String := ""
  deriving DecidableEq, Repr

/-- A qid with the romanised spellings it is asked with. -/
def questionOf (qid : String) (romanized : List String) : Option String :=
  let qid := Text.trim qid
  if qid = "" then none
  else
    let spellings := sortedSet ((romanized.map Text.trim).filter (· ≠ ""))
    if spellings = [] then some qid else some (qid ++ "|" ++ "|".intercalate spellings)

def SearchRow.asked (row : SearchRow) : Option String := questionOf row.qid row.romanized

/-- The question a row counts as. -/
def SearchRow.followUpQuestion (row : SearchRow) : Option String :=
  row.asked.map fun asked =>
    let retry := Text.trim row.retry
    if retry = "" then asked else asked ++ "#" ++ retry

def Entry.question (e : Entry) : Option String := questionOf e.qid e.romanizedTerms

/-- A line of the file: one that parses, or any other. -/
inductive SearchLine
  | row (row : SearchRow)
  | torn
  deriving DecidableEq, Repr

namespace SearchLine

def asked : SearchLine → Option String
  | row r => r.asked
  | torn => none

def followUpQuestion : SearchLine → Option String
  | row r => r.followUpQuestion
  | torn => none

/-- A line counts as a question exactly where it asks one. -/
theorem followUpQuestion_eq_none {line : SearchLine} :
    line.followUpQuestion = none ↔ line.asked = none := by
  cases line with
  | row r => simp [followUpQuestion, asked, SearchRow.followUpQuestion]
  | torn => simp [followUpQuestion, asked]

end SearchLine

/-- What one reading of the file finds. -/
structure Sent where
  sent : Nat := 0
  counted : List String := []
  questions : List String := []
  deriving Repr

/-- A line with no question in it counts on its own. -/
def Sent.line (s : Sent) (line : SearchLine) : Sent :=
  match line.followUpQuestion with
  | none => { s with sent := s.sent + 1 }
  | some q =>
    let questions := line.asked.toList ++ s.questions
    if q ∈ s.counted then { s with questions := questions }
    else { sent := s.sent + 1, counted := q :: s.counted, questions := questions }

/-- The file as it is read; `none` is a file that is there and cannot be read. -/
def readSent (file : Option (List SearchLine)) : Option Sent :=
  file.map (·.foldl Sent.line {})

namespace Sent

theorem mem_counted (lines : List SearchLine) (q : String) :
    q ∈ (lines.foldl line {}).counted ↔ q ∈ keysOf SearchLine.followUpQuestion lines := by
  induction lines using List.reverseRecOn with
  | nil => simp [keysOf]
  | append_singleton lines l ih =>
      rw [List.foldl_append, List.foldl_cons, List.foldl_nil, line]
      cases h : l.followUpQuestion with
      | none => simpa [keysOf, h] using ih
      | some k =>
          by_cases mem : k ∈ (lines.foldl line {}).counted
          · simp only [mem, ↓reduceIte, keysOf_append, List.mem_append]
            rw [ih]
            constructor
            · exact .inl
            · rintro (seen | seen)
              · exact seen
              · obtain rfl : q = k := by simpa [keysOf, h] using seen
                exact ih.mp mem
          · simp [mem, keysOf, h, ih, or_comm]

/-- The count is the number of distinct questions and of lines without one. -/
theorem sent_eq (lines : List SearchLine) :
    (lines.foldl line {}).sent = tally SearchLine.followUpQuestion lines := by
  induction lines using List.reverseRecOn with
  | nil => rfl
  | append_singleton lines l ih =>
      rw [List.foldl_append, List.foldl_cons, List.foldl_nil, line, Tally.append_singleton]
      cases h : l.followUpQuestion with
      | none => rw [Tally.cons_of_none h, ← ih]
      | some q =>
          by_cases mem : q ∈ (lines.foldl line {}).counted
          · simp only [mem, ↓reduceIte]
            rw [Tally.cons_of_mem h ((mem_counted lines q).mp mem), ih]
          · simp only [mem, ↓reduceIte]
            rw [Tally.cons_of_not_mem h (fun seen => mem ((mem_counted lines q).mpr seen)), ih]

theorem mem_questions (lines : List SearchLine) (q : String) :
    q ∈ (lines.foldl line {}).questions ↔ q ∈ keysOf SearchLine.asked lines := by
  induction lines using List.reverseRecOn with
  | nil => simp [keysOf]
  | append_singleton lines l ih =>
      rw [List.foldl_append, List.foldl_cons, List.foldl_nil, line, keysOf_append, List.mem_append,
        ← ih]
      cases h : l.followUpQuestion with
      | none => simp [keysOf, SearchLine.followUpQuestion_eq_none.mp h]
      | some k =>
          cases asked : l.asked with
          | none =>
              rw [SearchLine.followUpQuestion_eq_none.mpr asked] at h
              contradiction
          | some a =>
              have last : keysOf SearchLine.asked [l] = [a] := by simp [keysOf, asked]
              simp only [last]
              split <;> simp [or_comm]

end Sent

structure FollowUpRoom where
  isOpen : Bool
  /-- the figure it was decided on; `none` stands for more than any limit -/
  sent : Option Nat
  unreadable : Bool
  /-- the run sent it before and holds its answer -/
  isRepeat : Bool
  /-- the run sent it before and holds no answer -/
  retry : Bool
  deriving DecidableEq, Repr

/-- Whether a follow-up may be sent now. -/
def followUpRoom (file : Option (List SearchLine)) (limit : Nat) (e : Entry)
    (answered : String → Bool) : FollowUpRoom :=
  match readSent file with
  | none => ⟨false, none, true, false, false⟩
  | some { sent, questions, .. } =>
    let before : Bool := e.question.any (· ∈ questions)
    let isRepeat := before && answered e.qid
    ⟨isRepeat || sent < limit, some sent, false, isRepeat, before && !isRepeat⟩

namespace FollowUpRoom

variable {lines : List SearchLine} {limit : Nat} {e : Entry} {answered : String → Bool}

/-- A question that is in the file and answered is a repeat, and has room. -/
theorem open_of_answered {q : String} (asks : e.question = some q)
    (sent : q ∈ keysOf SearchLine.asked lines) (holds : answered e.qid = true) :
    (followUpRoom (some lines) limit e answered).isOpen = true := by
  have before : q ∈ (lines.foldl Sent.line {}).questions := (Sent.mem_questions lines q).mpr sent
  simp [followUpRoom, readSent, asks, before, holds]

/-- Where there is room for a question that is no repeat, the count is under the limit. -/
theorem below_of_open {file : Option (List SearchLine)}
    (room : (followUpRoom file limit e answered).isOpen = true)
    (counts : (followUpRoom file limit e answered).isRepeat = false) :
    ∃ lines, file = some lines ∧ tally SearchLine.followUpQuestion lines < limit := by
  cases file with
  | none => simp [followUpRoom, readSent] at room
  | some lines =>
      refine ⟨lines, rfl, ?_⟩
      rw [← Sent.sent_eq]
      simp only [followUpRoom, readSent, Option.map_some] at room counts
      simpa [counts] using room

end FollowUpRoom

/-- The net's reading of a term: `normalize` and `toLowerCase` are the language's own. -/
structure TermForms where
  nfkc : String → String
  toLowerCase : String → String

def normTerm (F : TermForms) (term : Option String) : String :=
  Text.collapseSpaces (F.toLowerCase (Text.trim (F.nfkc (term.getD ""))))

/-- The identical mark's terms, from the plan's own questions on it. -/
def identicalMarkTerms (F : TermForms) (frozenPlan : Plan) : List String :=
  ((frozenPlan.entries.filter fun e =>
      e.provenance = some .mark ∧ e.predicate = .exact ∧ e.term.any (Text.trim · ≠ "")).map
    fun e => normTerm F e.term).eraseDups

def asksIdenticalMark (F : TermForms) (e : Entry) (identicalTerms : List String) : Bool :=
  e.predicate = .exact && decide (normTerm F e.term ∈ identicalTerms)

def Entry.hasGoods (e : Entry) : Bool := e.goodsText.any (Text.trim · ≠ "")

inductive FollowUpClass
  | required
  | plan
  | counted
  deriving DecidableEq, Repr

/-- How an entry stands against the net. -/
def followUpClass (F : TermForms) (e : Entry) (identicalTerms : List String) : FollowUpClass :=
  if asksIdenticalMark F e identicalTerms ∧ (!e.supplemental ∨ e.hasGoods) then .required
  else if e.supplemental then .counted
  else .plan

end Clearotron
