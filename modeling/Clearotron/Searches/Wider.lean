import Clearotron.Searches.HeldList

/-!
# Answers from a wider list

What a held list answers is what the request asks of that list, under the rules the code
assumes of the register. That the list itself missed nothing is tested on the words of the
phrase alone. For a held leg with a star at either end that reads them without an operator
word, that test is enough.
-/

namespace Clearotron

variable {T : MarkLetters}

section

variable (T)

/-- The leg is a chain of words that stands in the text. -/
def LegReads (leg : String) (words : List (List Char)) : Prop :=
  ∃ c, chainOf leg = some c ∧ Chain.Reads (wordMatches T) none c.head c.rest words

variable {O : Type*} (markField : String)

/-- The record is one that the request matches. -/
def SearchRequest.Asks (q : SearchRequest O) (r : HeldRecord) : Prop :=
  inOffices T q.registrationOfficeCodes r = true ∧ inClasses q.classes r = true ∧
    ∃ f ∈ q.mark markField, ∃ leg ∈ orLegs f.value, ∃ t ∈ markTexts T r,
      LegReads T leg (wordsOf T t)

/-- What the code asks of a wider request: the same other fields and options, the offices
and the classes, and a leg that reads the phrase with its operator words and without. -/
structure WiderRequest (want : SearchRequest O) (literal : String) (h : SearchRequest O)
    (leftOut : List String) : Prop where
  rest : h.rest markField = want.rest markField
  offices : ∀ o ∈ want.registrationOfficeCodes, o ∈ h.registrationOfficeCodes ∧ o ∉ leftOut
  classes : h.classes = [] ∨ want.classes ≠ [] ∧ ∀ c ∈ want.classes, c ∈ h.classes
  phrase : ∃ f ∈ h.mark markField, ∃ leg ∈ orLegs f.value, provable leg = true ∧
    LegReads T leg (wordsOf T literal) ∧
    LegReads T leg ((wordsOf T literal).filter fun w => !isOperatorWord w)

/-- The request asks for the term in the contains form. -/
def SearchRequest.AsksPhrase (want : SearchRequest O) (literal : String) : Prop :=
  ∃ f ∈ want.mark markField, ∃ leg c, orLegs f.value = [leg] ∧ chainOf leg = some c ∧
    containsChain (wordsOf T literal) = some c

/-- A leg of the request is open at both ends, and it reads the term at its own distances
without an operator word of it. -/
def SearchRequest.HoldsOpenly (h : SearchRequest O) (literal : String) : Prop :=
  ∃ f ∈ h.mark markField, ∃ leg ∈ orLegs f.value, ∃ c, chainOf leg = some c ∧
    c.head.head? = some .any ∧ c.last.getLast? = some .any ∧
    c.reads (Chain.keptHits isReservedToken (wordMatches T)) (wordsOf T literal) = true

end

theorem legMatches_iff {leg : String} {words : List (List Char)} :
    legMatches T leg words = some true ↔ LegReads T leg words := by
  unfold legMatches LegReads
  rw [Option.map_eq_some_iff]
  constructor
  · rintro ⟨c, isChain, found⟩
    exact ⟨c, isChain, Chain.reads_iff.mp found⟩
  · rintro ⟨c, isChain, found⟩
    exact ⟨c, isChain, Chain.reads_iff.mpr found⟩

/-- The word, its letters in any case, with more in front or behind where that is open. -/
def WidensWord (T : MarkLetters) (front back : Bool) (k w : List Char) : Prop :=
  ∃ before word after, w = before ++ word ++ after ∧ word.map T.fold = k.map T.fold ∧
    (front = false → before = []) ∧ (back = false → after = [])

theorem WidensWord.of_tail {k w : List Char} {front back closed : Bool}
    (closes : closed = true → back = true)
    (hit : wordMatches T (Wild.lits k ++ if closed then [Wild.any] else []) w = true) :
    WidensWord T front back k w := by
  obtain ⟨word, after, rfl, folds, tail⟩ := (Wild.runs_lits_append k _ w).mp hit
  refine ⟨[], word, after, rfl, folds, fun _ => rfl, fun shut => ?_⟩
  have notClosed : closed = false := by
    cases closed with
    | false => rfl
    | true => exact absurd (closes rfl) (by simp [shut])
  rw [notClosed] at tail
  simpa [Wild.runs] using tail

/-- What a word of a compiled phrase matches is that word, widened where it is an end. -/
theorem widensWord_of_wrap (front back : Bool) (k w : List Char)
    (hit : wordMatches T (containsWrap front back k) w = true) : WidensWord T front back k w := by
  unfold containsWrap at hit
  dsimp only at hit
  rw [List.append_assoc] at hit
  have closes (single : Bool) : (back && (front || !single)) = true → back = true := by
    intro both
    exact (Bool.and_eq_true _ _ ▸ both).1
  split at hit
  · rename_i opens
    have isFront : front = true := (Bool.and_eq_true _ _ ▸ opens).1
    obtain ⟨rest, ⟨before, rfl⟩, tail⟩ := (Wild.runs_any _ w).mp hit
    obtain ⟨lead, word, after, rfl, folds, -, shut⟩ := @WidensWord.of_tail _ _ _ false _ _ (closes _) tail
    refine ⟨before ++ lead, word, after, by simp, folds, ?_, shut⟩
    intro notFront
    exact absurd notFront (by simp [isFront])
  · exact WidensWord.of_tail (closes _) hit

/-- A pattern with a star where a word is widened matches the wider word. -/
theorem WidensWord.carries (front back : Bool) (p : List Wild) (k w : List Char)
    (opens : front = true → p.head? = some .any) (closes : back = true → p.getLast? = some .any)
    (widens : WidensWord T front back k w) (hit : wordMatches T p k = true) :
    wordMatches T p w = true := by
  obtain ⟨before, word, after, rfl, folds, atFront, atBack⟩ := widens
  have core : Wild.runs T.fold p word = true := Wild.runs_congr folds.symm hit
  have led : Wild.runs T.fold p (before ++ word) = true := by
    cases front with
    | false => rwa [atFront rfl]
    | true =>
        obtain ⟨ps, rfl⟩ := List.head?_eq_some_iff.mp (opens rfl)
        exact Wild.runs_any_append core before
  cases back with
  | false => rwa [atBack rfl, List.append_nil]
  | true =>
      obtain ⟨ps, rfl⟩ := List.getLast?_eq_some_iff.mp (closes rfl)
      exact Wild.runs_append_any led after

section

variable {O : Type*} {markField literal : String} {want held : SearchRequest O}
  {leftOut : List String}

theorem inClasses_wider {asked more : List String}
    (wider : more = [] ∨ asked ≠ [] ∧ ∀ c ∈ asked, c ∈ more) {r : HeldRecord}
    (inside : inClasses asked r = true) : inClasses more r = true := by
  obtain rfl | ⟨asks, wider⟩ := wider
  · rfl
  · unfold inClasses at inside ⊢
    simp only [asks, decide_false, Bool.false_or] at inside
    rw [Bool.or_eq_true]
    refine .inr ?_
    cases stated : r.classes with
    | none => rfl
    | some classes =>
        rw [stated] at inside
        simp only [Bool.or_eq_true, List.any_eq_true, decide_eq_true_eq] at inside ⊢
        exact inside.imp_right fun ⟨c, mem, among⟩ => ⟨c, mem, wider c among⟩

/-- A wider request with a leg that holds the phrase openly asks for all of it. -/
theorem WiderRequest.asks (wider : WiderRequest T markField want literal held leftOut)
    (phrase : want.AsksPhrase T markField literal) (holds : held.HoldsOpenly T markField literal)
    {r : HeldRecord} (asked : want.Asks T markField r) : held.Asks T markField r := by
  obtain ⟨inside, classes, f, isMark, leg, isLeg, t, isText, c, isChain, found⟩ := asked
  obtain ⟨f', isMark', leg', c', only, isChain', written⟩ := phrase
  obtain rfl := Option.some.inj (isMark.symm.trans isMark')
  obtain rfl : leg = leg' := by simpa [only] using isLeg
  obtain rfl := Option.some.inj (isChain.symm.trans isChain')
  obtain ⟨g, isHeld, heldLeg, isHeldLeg, d, isHeldChain, opens, closes, phraseRead⟩ := holds
  refine ⟨?_, inClasses_wider wider.classes classes, g, isHeld, heldLeg, isHeldLeg, t, isText,
    d, isHeldChain, ?_⟩
  · exact decide_eq_true (wider.offices _ (of_decide_eq_true inside)).1
  · exact Chain.reads_iff.mp <| Chain.reads_of_phrase widensWord_of_wrap
      WidensWord.carries written opens closes phraseRead (Chain.reads_iff.mpr found)

theorem holdsThePhrase_iff {value : String} :
    holdsThePhrase T value literal = true ↔ ∃ leg ∈ orLegs value, provable leg = true ∧
      LegReads T leg (wordsOf T literal) ∧
      LegReads T leg ((wordsOf T literal).filter fun w => !isOperatorWord w) := by
  unfold holdsThePhrase
  simp only [List.any_eq_true, Bool.and_eq_true, decide_eq_true_eq, legMatches_iff, and_assoc]

/-- What is taken from a list is what the request asks of it. -/
theorem takenFrom_iff {f : SearchField} {leg : String} (isMark : want.mark markField = some f)
    (only : orLegs f.value = [leg]) (r : HeldRecord) :
    takenFrom T want.registrationOfficeCodes want.classes leg r = true ↔
      want.Asks T markField r := by
  unfold takenFrom SearchRequest.Asks
  simp only [Bool.and_eq_true, List.any_eq_true, decide_eq_true_eq, legMatches_iff, isMark,
    Option.mem_def, Option.some.injEq, exists_eq_left', only, List.mem_singleton,
    exists_eq_left, and_assoc]

end

section

variable {O : Type*} [DecidableEq O] {markField : String} {want : SearchRequest O}
  {literal : String} {held : List (HeldAnswer O)}

theorem sameRequest_eq_some {h : HeldAnswer O} {b : HeldBlock}
    (same : sameRequest want h = some b) :
    h.block = some b ∧ b.error = false ∧ b.deferred = false ∧ h.body = want := by
  unfold sameRequest at same
  rw [Option.filter_eq_some_iff] at same
  simpa [and_assoc] using same

theorem widerList_eq_some {h : HeldAnswer O} {b : HeldBlock} {records : List HeldRecord}
    (found : widerList markField T want literal h = some (b, records)) :
    h.block = some b ∧ b.records = some records ∧ b.error = false ∧ b.deferred = false ∧
      b.state = .enumerated ∧
      WiderRequest T markField want literal h.body b.officesWithoutGoodsField := by
  unfold widerList at found
  split at found
  · cases found
  · rename_i b' isBlock
    split at found
    · rename_i records' mark listed isMark
      split at found
      · rename_i checks
        obtain ⟨rfl, rfl⟩ := Prod.mk.inj (Option.some.inj found)
        simp only [Bool.and_eq_true, Bool.or_eq_true, Bool.not_eq_true', decide_eq_true_eq,
          List.all_eq_true] at checks
        obtain ⟨⟨⟨⟨⟨⟨⟨clean, sent⟩, whole⟩, phrase⟩, rest⟩, offices⟩, classes⟩, -⟩ := checks
        obtain ⟨leg, isLeg, reads⟩ := holdsThePhrase_iff.mp phrase
        exact ⟨isBlock, listed, clean, sent, whole, rest, offices, classes,
          mark, isMark, leg, isLeg, reads⟩
      · cases found
    · cases found

/-- An answer is that of the same request, or what the request asks of the complete list of
a wider one. -/
theorem held_list_answers {b : HeldBlock} {source : ReusedFrom}
    (answered : answerFromHeldList markField T want literal held = some (b, source)) :
    (∃ h ∈ held, h.block = some b ∧ h.body = want ∧ b.error = false ∧ b.deferred = false ∧
      source = { qid := h.qid, query := b.query }) ∨
    ∃ h ∈ held, ∃ list records, ∃ taken : HeldRecord → Bool,
      h.block = some list ∧ list.records = some records ∧ list.error = false ∧
      list.deferred = false ∧ list.state = .enumerated ∧
      source = { qid := h.qid, query := list.query } ∧
      b = { state := .enumerated, totalHits := some (records.filter taken).length,
            count := some (records.filter taken).length, records := some (records.filter taken) } ∧
      (∀ r, taken r = true ↔ want.Asks T markField r) ∧
      WiderRequest T markField want literal h.body list.officesWithoutGoodsField ∧
      (want.AsksPhrase T markField literal → h.body.HoldsOpenly T markField literal →
        ∀ r, want.Asks T markField r → h.body.Asks T markField r) := by
  unfold answerFromHeldList at answered
  split at answered
  · cases answered
  · rename_i f isMark
    split at answered
    · rename_i leg only
      split at answered
      · cases answered
      · rcases Option.or_eq_some_iff.mp answered with same | ⟨-, wider⟩
        · left
          obtain ⟨h, mem, found⟩ := List.exists_of_findSome?_eq_some same
          obtain ⟨b', isSame, answer⟩ := Option.map_eq_some_iff.mp found
          obtain ⟨rfl, rfl⟩ := Prod.mk.inj answer
          obtain ⟨isBlock, clean, sent, body⟩ := sameRequest_eq_some isSame
          exact ⟨h, mem, isBlock, body, clean, sent, rfl⟩
        · right
          obtain ⟨h, mem, found⟩ := List.exists_of_findSome?_eq_some wider
          obtain ⟨⟨list, records⟩, isWider, answer⟩ := Option.map_eq_some_iff.mp found
          obtain ⟨rfl, rfl⟩ := Prod.mk.inj answer
          obtain ⟨isBlock, listed, clean, sent, whole, request⟩ := widerList_eq_some isWider
          exact ⟨h, mem, list, records, _, isBlock, listed, clean, sent, whole, rfl, rfl,
            takenFrom_iff isMark only, request,
            fun phrase holds r asked => request.asks phrase holds asked⟩
    · cases answered

end

def asciiLetters : MarkLetters where
  letterOrNumber := Char.isAlphanum
  fold := Char.toLower
  upper := String.toUpper

def wordMark : String := "WORD_MARK_SPECIFICATION"

def usMarks (value : String) : SearchRequest Unit where
  registrationOfficeCodes := ["US"]
  searchFields := [{ name := wordMark, value := value }]
  options := ()

def usMark (id text : String) : HeldRecord where
  recordId := id
  markText := some text
  office := some "us"

/-- The search of a term in a list of one block. -/
def askedBefore (value : String) (b : HeldBlock) : HeldAnswer Unit where
  qid := "q1"
  body := usMarks value
  block := some b

def saltMarks : HeldBlock where
  state := .enumerated
  records := some [usMark "1" "Seasalt & Pepper", usMark "2" "Salt Lake"]

theorem held_list_answers_salt :
    answerFromHeldList wordMark asciiLetters (usMarks "*SALT ADJ2 PEPPER*") "SALT AND PEPPER"
        [askedBefore "*SALT*" saltMarks] =
      some ({ state := .enumerated, totalHits := some 1, count := some 1,
              records := some [usMark "1" "Seasalt & Pepper"] }, { qid := "q1", query := none }) ∧
    ∃ h ∈ [askedBefore "*SALT*" saltMarks], ∃ list, h.block = some list ∧ list.error = false := by
  have answered : answerFromHeldList wordMark asciiLetters (usMarks "*SALT ADJ2 PEPPER*")
      "SALT AND PEPPER" [askedBefore "*SALT*" saltMarks] =
      some ({ state := .enumerated, totalHits := some 1, count := some 1,
              records := some [usMark "1" "Seasalt & Pepper"] },
        { qid := "q1", query := none }) := by
    decide +kernel
  refine ⟨answered, ?_⟩
  obtain ⟨h, mem, isBlock, -, clean, -⟩ | ⟨h, mem, list, _, _, isBlock, -, clean, -⟩ :=
    held_list_answers answered
  · exact ⟨h, mem, _, isBlock, clean⟩
  · exact ⟨h, mem, list, isBlock, clean⟩

theorem asks_iff_mark {value : String} {r : HeldRecord} :
    (usMarks value).Asks asciiLetters wordMark r ↔
      (inOffices asciiLetters ["US"] r && inClasses [] r && (orLegs value).any fun leg =>
        (markTexts asciiLetters r).any fun t =>
          legMatches asciiLetters leg (wordsOf asciiLetters t) = some true) = true := by
  have mark : (usMarks value).mark wordMark = some { name := wordMark, value := value } := rfl
  have classes : (usMarks value).classes = [] := rfl
  unfold SearchRequest.Asks
  rw [classes]
  simp only [Bool.and_eq_true, List.any_eq_true, decide_eq_true_eq, legMatches_iff, mark,
    Option.mem_def, Option.some.injEq, exists_eq_left', and_assoc]
  rfl

/-- A list that was cut off answers the same request, and one of marks that start with the
phrase answers a search of the marks that hold it. -/
theorem narrow_lists_answer :
    (answerFromHeldList wordMark asciiLetters (usMarks "*SALT ADJ2 PEPPER*") "SALT AND PEPPER"
        [askedBefore "*SALT ADJ2 PEPPER*" { state := .other "incomplete" }]).isSome = true ∧
    (answerFromHeldList wordMark asciiLetters (usMarks "*SALT ADJ2 PEPPER*") "SALT AND PEPPER"
        [askedBefore "SALT ADJ2 PEPPER*" { state := .enumerated, records := some [] }]).isSome
      = true ∧
    (usMarks "*SALT ADJ2 PEPPER*").Asks asciiLetters wordMark (usMark "1" "Seasalt & Pepper") ∧
    ¬ (usMarks "SALT ADJ2 PEPPER*").Asks asciiLetters wordMark (usMark "1" "Seasalt & Pepper") := by
  rw [asks_iff_mark, asks_iff_mark]
  decide +kernel

end Clearotron
