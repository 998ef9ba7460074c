import Clearotron.Library.Keyed
import Clearotron.Records.LedgerLines
import Clearotron.Research.Answers

/-!
# What is handed is held

A handed line is read back as it was written exactly where its question and its answer leave the
line plain. What is read offers an answer under the key of its question, and the first offer of a
key is held: the file's, then the record's, then the log's.
-/

namespace Clearotron.Research

variable {l run w : List Char} {c : Char}

theorem closeRun_of_notMem (none' : '\n' ∉ run) : closeRun run = run := if_neg none'

theorem newline_notMem_closeRun (run : List Char) : '\n' ∉ closeRun run := by
  unfold closeRun
  split
  · decide
  · assumption

theorem newline_notMem_joinLines (run l : List Char) : '\n' ∉ joinLines run l := by
  induction l generalizing run with
  | nil => exact newline_notMem_closeRun run
  | cons c l ih =>
    rw [joinLines]
    split
    · exact ih _
    · rename_i solid
      rw [List.mem_append, List.mem_cons]
      rintro (mem | rfl | mem)
      · exact newline_notMem_closeRun run mem
      · exact solid (by decide)
      · exact ih _ mem

/-- A text without line breaks stays as it is. -/
theorem joinLines_of_notMem (plain : '\n' ∉ run ++ l) : joinLines run l = run ++ l := by
  induction l generalizing run with
  | nil => rw [joinLines, closeRun_of_notMem (by simpa using plain), List.append_nil]
  | cons c l ih =>
    rw [joinLines]
    split
    · rw [ih (by simpa using plain), List.append_assoc]
      rfl
    · simp only [List.mem_append, List.mem_cons, not_or] at plain
      rw [closeRun_of_notMem plain.1, @ih [] (by simpa using plain.2.2)]
      rfl

theorem trim_subset {s : String} (mem : c ∈ (Text.trim s).toList) : c ∈ s.toList := by
  rw [Text.trim, String.toList_ofList, List.mem_reverse] at mem
  exact List.mem_reverse.1 ((List.dropWhile_sublist _).subset mem) |>
    fun mem => (List.dropWhile_sublist _).subset mem

theorem newline_notMem_oneLine (s : String) : '\n' ∉ (oneLine s).toList := fun mem =>
  newline_notMem_joinLines [] s.toList (by simpa using trim_subset mem)

theorem oneLine_oneLine (s : String) : oneLine (oneLine s) = oneLine s := by
  have plain := newline_notMem_oneLine s
  rw [oneLine, joinLines_of_notMem (by simpa using plain), List.nil_append, String.ofList_toList]
  exact Text.trim_trim _

theorem blank_closeRun (blanks : ∀ c ∈ run, Text.isSpace c = true) :
    ∀ c ∈ closeRun run, Text.isSpace c = true := by
  unfold closeRun
  split
  · intro c mem
    rw [List.mem_singleton.1 mem]
    rfl
  · exact blanks

theorem closeRun_ne_nil (some' : run ≠ []) : closeRun run ≠ [] := by
  unfold closeRun
  split
  · simp
  · exact some'

theorem joinLines_blanks (blanks : ∀ c ∈ w, Text.isSpace c = true) (run l : List Char) :
    joinLines run (w ++ l) = joinLines (run ++ w) l := by
  induction w generalizing run with
  | nil => rw [List.append_nil, List.nil_append]
  | cons c w ih =>
    rw [List.forall_mem_cons] at blanks
    rw [List.cons_append, joinLines, if_pos blanks.1, ih blanks.2, List.append_assoc]
    rfl

/-- Behind blanks a text goes on with a blank. -/
theorem joinLines_blank (blanks : ∀ c ∈ run, Text.isSpace c = true) (some' : run ≠ [])
    (l : List Char) : ∃ b t, joinLines run l = b :: t ∧ Text.isSpace b = true := by
  induction l generalizing run with
  | nil =>
    obtain ⟨b, t, is⟩ := List.exists_cons_of_ne_nil (closeRun_ne_nil some')
    exact ⟨b, t, is, blank_closeRun blanks b (by simp [is])⟩
  | cons c l ih =>
    rw [joinLines]
    split
    · rename_i blank
      refine ih (fun c' mem => ?_) (by simp)
      rcases List.mem_append.1 mem with mem | mem
      · exact blanks c' mem
      · rwa [List.mem_singleton.1 mem]
    · obtain ⟨b, t, is⟩ := List.exists_cons_of_ne_nil (closeRun_ne_nil some')
      exact ⟨b, _, by rw [is, List.cons_append], blank_closeRun blanks b (by simp [is])⟩

/-- A word at the front of a text on one line is at the front of the text. -/
theorem front_of_joinLines (solid : ∀ c ∈ w, Text.isSpace c = false) (l : List Char)
    (front : w <+: joinLines [] l) : w <+: l := by
  induction w generalizing l with
  | nil => exact List.nil_prefix
  | cons d w ih =>
    rw [List.forall_mem_cons] at solid
    cases l with
    | nil => exact absurd (List.prefix_nil.1 front) (by simp)
    | cons e l =>
      rw [joinLines] at front
      split at front
      · rename_i blank
        obtain ⟨b, t, is, own⟩ := @joinLines_blank [e] (by simpa using blank) (by simp) l
        rw [List.nil_append, is, List.cons_prefix_cons] at front
        rw [front.1] at solid
        exact absurd own (by simp [solid.1])
      · rw [closeRun_of_notMem (by simp), List.nil_append, List.cons_prefix_cons] at front
        exact List.cons_prefix_cons.2 ⟨front.1, ih solid.2 l front.2⟩

theorem dropWhile_joinLines (solid : Text.isSpace c = false)
    (rest : l.dropWhile Text.isSpace = c :: w) :
    (joinLines [] l).dropWhile Text.isSpace = joinLines [] (c :: w) := by
  have blanks : ∀ x ∈ l.takeWhile Text.isSpace, Text.isSpace x = true :=
    fun _ => List.mem_takeWhile_imp
  have whole := List.takeWhile_append_dropWhile (p := Text.isSpace) (l := l)
  rw [rest] at whole
  rw [← whole, joinLines_blanks blanks, List.nil_append, joinLines, joinLines,
    if_neg (by simp [solid]), if_neg (by simp [solid]), @closeRun_of_notMem [] (by simp),
    List.dropWhile_append_of_pos (blank_closeRun blanks), List.nil_append,
    List.dropWhile_cons_of_neg (by simp [solid])]

/-- An answer on one line is an answer still. -/
theorem isResearchAnswer_oneLine {text : String} (is : isResearchAnswer text = true) :
    isResearchAnswer (oneLine text) = true := by
  simp only [isResearchAnswer, Bool.and_eq_true, decide_eq_true_eq, Bool.not_eq_true',
    ← Bool.not_eq_true, List.isPrefixOf_iff_prefix] at is ⊢
  cases rest : text.toList.dropWhile Text.isSpace with
  | nil =>
    refine absurd ?_ is.1
    rw [Text.trim, rest]
    rfl
  | cons c w =>
    have solid : Text.isSpace c = false := by
      have := List.head_dropWhile_not Text.isSpace (by rw [rest]; simp : text.toList.dropWhile
        Text.isSpace ≠ [])
      simpa [rest] using this
    have front := dropWhile_joinLines solid rest
    have own : joinLines [] (c :: w) = c :: joinLines [] w := by
      rw [joinLines, if_neg (by simp [solid])]
      rfl
    have line : (oneLine text).toList =
        ((joinLines [] (c :: w)).reverse.dropWhile Text.isSpace).reverse := by
      rw [oneLine, Text.trim, String.toList_ofList, String.toList_ofList, front]
    have part : (oneLine text).toList <+: joinLines [] (c :: w) := by
      rw [line, ← List.reverse_suffix, List.reverse_reverse]
      exact List.dropWhile_suffix _
    have some' : (oneLine text).toList ≠ [] := by
      rw [line, Ne, List.reverse_eq_nil_iff, List.dropWhile_eq_nil_iff]
      intro blank
      have := blank c (by simp [own])
      simp [solid] at this
    obtain ⟨d, t, starts⟩ := List.exists_cons_of_ne_nil some'
    have same : d = c := by
      rw [starts, own, List.cons_prefix_cons] at part
      exact part.1
    constructor
    · rw [show Text.trim (oneLine text) = oneLine text from Text.trim_trim _]
      intro empty
      rw [empty] at some'
      exact some' rfl
    · have word : "ERROR".toList.all (fun d => !Text.isSpace d) = true := by decide
      rw [starts, List.dropWhile_cons_of_neg (by simp [same, solid]), ← starts]
      intro errs
      refine is.2 ?_
      rw [rest]
      exact front_of_joinLines (fun d mem => by simpa using List.all_eq_true.1 word d mem) _
        (errs.trans part)

section

variable {digits q a t : List Char}

/-- Two marks of a line overlap in one blank at most. -/
theorem notMem_mark (number : ∀ d ∈ digits, d.isDigit = true) :
    'A' ∉ (answerMark digits).drop 2 := by
  have tail : (answerMark digits).drop 2 =
      ['n', 's', 'w', 'e', 'r', ' '] ++ (digits ++ [':', ' ']) := rfl
  rw [tail, List.mem_append, List.mem_append]
  rintro (mem | mem | mem)
  · exact absurd mem (by decide)
  · exact absurd (number _ mem) (by decide)
  · exact absurd mem (by decide)

theorem cutAt_mark (number : ∀ d ∈ digits, d.isDigit = true)
    (apart : ¬ answerMark digits <:+: q ++ [' ']) :
    Scan.cutAt (answerMark digits) (q ++ (answerMark digits ++ t)) = some (q, t) := by
  induction q with
  | nil => exact Scan.cutAt_append_self _ t
  | cons c q ih =>
    have other : ¬ answerMark digits <+: c :: (q ++ (answerMark digits ++ t)) := by
      intro starts
      by_cases short : (answerMark digits).length ≤ (c :: q ++ [' ']).length
      · refine apart (List.IsPrefix.isInfix (List.prefix_of_prefix_length_le starts ?_ short))
        exact ⟨(answerMark digits).drop 1 ++ t, by simp [answerMark]⟩
      · obtain ⟨z, whole⟩ := starts
        have second := congrArg (·[(c :: q).length + 1]?) whole
        simp only [List.length_append, List.length_singleton, not_le] at short
        rw [← List.cons_append] at second
        rw [List.getElem?_append_left (by omega), List.getElem?_append_right (by omega)] at second
        have letter : (answerMark digits)[(c :: q).length + 1]? = some 'A' := by
          rw [second, Nat.add_sub_cancel_left]
          simp [answerMark]
        refine notMem_mark number (List.mem_iff_getElem?.2 ⟨(c :: q).length - 1, ?_⟩)
        rw [List.getElem?_drop, ← letter]
        congr 1
        simp only [List.length_cons]
        omega
    rw [List.cons_append, Scan.cutAt_cons_of_not_starts other,
      ih fun part => apart (part.trans (List.suffix_cons c _).isInfix)]
    rfl

/-- A cut is never behind a place of the mark. -/
theorem length_le_of_cutAt {pat x y b t : List Char}
    (cut : Scan.cutAt pat (x ++ (pat ++ y)) = some (b, t)) : b.length ≤ x.length := by
  induction x generalizing b with
  | nil =>
    rw [List.nil_append, Scan.cutAt_append_self] at cut
    rw [← (Prod.mk.inj (Option.some.inj cut)).1]
  | cons c x ih =>
    by_cases starts : pat <+: c :: (x ++ (pat ++ y))
    · rw [List.cons_append, Scan.cutAt_cons_of_starts starts] at cut
      rw [← (Prod.mk.inj (Option.some.inj cut)).1]
      exact Nat.zero_le _
    · rw [List.cons_append, Scan.cutAt_cons_of_not_starts starts, Option.map_eq_some_iff] at cut
      obtain ⟨⟨b', t'⟩, found, same⟩ := cut
      obtain ⟨rfl, rfl⟩ := Prod.mk.inj same
      exact Nat.succ_le_succ (ih found)

theorem apart_of_cutAt (cut : Scan.cutAt (answerMark digits) (q ++ (answerMark digits ++ t)) =
    some (q, t)) : ¬ answerMark digits <:+: q ++ [' '] := by
  rintro ⟨x, y, whole⟩
  have rest : q ++ (answerMark digits ++ t) =
      x ++ (answerMark digits ++ (y ++ ((answerMark digits).drop 1 ++ t))) := by
    have mark : answerMark digits = [' '] ++ (answerMark digits).drop 1 := rfl
    calc q ++ (answerMark digits ++ t) = q ++ [' '] ++ ((answerMark digits).drop 1 ++ t) := by
          nth_rewrite 1 [mark]
          simp only [List.append_assoc]
      _ = _ := by
          rw [← whole]
          simp only [List.append_assoc]
  rw [rest] at cut
  have short := length_le_of_cutAt cut
  have lengths := congrArg List.length whole
  simp only [answerMark, List.length_append, List.length_cons, List.length_nil] at lengths
  omega

/-- The line read behind its question mark. -/
theorem readLine_front (number : ∀ d ∈ digits, d.isDigit = true) (some' : digits ≠ [])
    (rest : List Char) : readLine (questionMark ++ (digits ++ ':' :: ' ' :: rest)) =
      if rest.any endsLine = false then
        (Scan.cutAt (answerMark digits) rest).map fun cut =>
          (String.ofList cut.1, String.ofList cut.2)
      else none := by
  have read : (digits ++ ':' :: ' ' :: rest).takeWhile Char.isDigit = digits := by
    rw [List.takeWhile_append_of_pos number, List.takeWhile_cons_of_neg (by decide),
      List.append_nil]
  have left : (digits ++ ':' :: ' ' :: rest).dropWhile Char.isDigit = ':' :: ' ' :: rest := by
    rw [List.dropWhile_append_of_pos number, List.dropWhile_cons_of_neg (by decide)]
  have colon : [':', ' '].isPrefixOf (':' :: ' ' :: rest) = true := by simp [List.isPrefixOf]
  have front : (':' :: ' ' :: rest).any endsLine = rest.any endsLine := by
    rw [List.any_cons, List.any_cons, show endsLine ':' = false by decide,
      show endsLine ' ' = false by decide, Bool.false_or, Bool.false_or]
  rw [readLine, if_pos (List.isPrefixOf_iff_prefix.2 (List.prefix_append _ _)), List.drop_left]
  simp only [read, left, front, some', colon, ne_eq, not_false_eq_true, true_and,
    List.drop_succ_cons, List.drop_zero]

theorem any_endsLine_line (number : ∀ d ∈ digits, d.isDigit = true) (q a : List Char) :
    (q ++ (answerMark digits ++ a)).any endsLine = (q.any endsLine || a.any endsLine) := by
  have plain : digits.any endsLine = false := by
    rw [List.any_eq_false]
    intro d mem
    have is := number d mem
    simp only [Char.isDigit, Bool.and_eq_true, decide_eq_true_eq] at is
    have low : 48 ≤ d.toNat := is.1
    have high : d.toNat ≤ 57 := is.2
    simp only [endsLine, List.mem_cons, List.not_mem_nil, or_false, decide_eq_true_eq]
    omega
  have word : [' ', 'A', 'n', 's', 'w', 'e', 'r', ' '].any endsLine = false := by decide
  have colon : [':', ' '].any endsLine = false := by decide
  simp only [answerMark, List.any_append, plain, word, colon, Bool.false_or, Bool.or_false]

/-- A line is read as its parts exactly where they are plain. -/
theorem readLine_eq_iff (number : ∀ d ∈ digits, d.isDigit = true) (some' : digits ≠ []) :
    readLine (questionMark ++ (digits ++ ':' :: ' ' :: (q ++ (answerMark digits ++ a)))) =
        some (String.ofList q, String.ofList a) ↔
      (q.any endsLine = false ∧ a.any endsLine = false) ∧
        ¬ answerMark digits <:+: q ++ [' '] := by
  rw [readLine_front number some', any_endsLine_line number]
  simp only [Bool.or_eq_false_iff]
  constructor
  · intro read
    split at read
    · rename_i clear
      obtain ⟨⟨q', a'⟩, cut, same⟩ := Option.map_eq_some_iff.1 read
      obtain ⟨sameQ, sameA⟩ := Prod.mk.inj same
      obtain rfl := String.ofList_injective sameQ
      obtain rfl := String.ofList_injective sameA
      exact ⟨clear, apart_of_cutAt cut⟩
    · cases read
  · rintro ⟨clear, apart⟩
    rw [if_pos clear, cutAt_mark number apart]
    rfl

end

/-- A question and its answer read as the two parts of their line: neither holds a line break of
another kind, and the question does not hold the mark before the answer. -/
structure Readable (n : Nat) (a : Answer) : Prop where
  question : (oneLine a.task).toList.any endsLine = false
  answer : (oneLine a.text).toList.any endsLine = false
  apart : ¬ answerMark (toString n).toList <:+: (oneLine a.task).toList ++ [' ']

theorem digits_toString (n : Nat) : ∀ d ∈ (toString n).toList, d.isDigit = true := by
  have is : (toString n).toList = Nat.toDigits 10 n := by simp [toString, Nat.repr]
  rw [is]
  exact fun d => Nat.isDigit_of_mem_toDigits (by decide) (by decide)

/-- The round trip of a line, exactly where its question and answer are readable. -/
theorem read_iff_readable (n : Nat) (a : Answer) :
    readLine (researchAnswerLine n a.task a.text) = some (oneLine a.task, oneLine a.text) ↔
      Readable n a := by
  have some' : (toString n).toList ≠ [] := by
    simp [toString, Nat.repr]
  have read := readLine_eq_iff (q := (oneLine a.task).toList) (a := (oneLine a.text).toList)
    (digits_toString n) some'
  have line : researchAnswerLine n a.task a.text = questionMark ++ ((toString n).toList ++
      ':' :: ' ' :: ((oneLine a.task).toList ++ (answerMark (toString n).toList ++
        (oneLine a.text).toList))) := by
    simp only [researchAnswerLine, List.append_assoc, List.cons_append, List.nil_append]
  rw [line]
  rw [String.ofList_toList, String.ofList_toList] at read
  exact read.trans ⟨fun ⟨⟨q, a⟩, apart⟩ => ⟨q, a, apart⟩, fun is =>
    ⟨⟨is.question, is.answer⟩, is.apart⟩⟩

theorem squeeze_blanks (blanks : ∀ c ∈ run, Text.isSpace c = true) (some' : run ≠ [])
    (solid : Text.isSpace c = false) (l : List Char) :
    Text.squeeze (run ++ c :: l) = ' ' :: Text.squeeze (c :: l) := by
  induction run with
  | nil => exact absurd rfl some'
  | cons b run ih =>
    rw [List.forall_mem_cons] at blanks
    rw [List.cons_append, Text.squeeze, if_pos blanks.1]
    cases run with
    | nil => rw [List.nil_append, if_neg (by simp [solid])]
    | cons b' run =>
      rw [if_pos (by simp [blanks.2 b' List.mem_cons_self])]
      exact ih blanks.2 (by simp)

theorem squeeze_all_blanks (blanks : ∀ c ∈ run, Text.isSpace c = true) (some' : run ≠ []) :
    Text.squeeze run = [' '] := by
  induction run with
  | nil => exact absurd rfl some'
  | cons b run ih =>
    rw [List.forall_mem_cons] at blanks
    rw [Text.squeeze, if_pos blanks.1]
    cases run with
    | nil => rfl
    | cons b' run =>
      rw [if_pos (by simp [blanks.2 b' List.mem_cons_self])]
      exact ih blanks.2 (by simp)

theorem squeeze_joinLines (blanks : ∀ c ∈ run, Text.isSpace c = true) (l : List Char) :
    Text.squeeze (joinLines run l) = Text.squeeze (run ++ l) := by
  induction l generalizing run with
  | nil =>
    rw [joinLines, List.append_nil]
    by_cases empty : run = []
    · rw [empty]
      rfl
    · rw [squeeze_all_blanks blanks empty,
        squeeze_all_blanks (blank_closeRun blanks) (closeRun_ne_nil empty)]
  | cons c l ih =>
    rw [joinLines]
    split
    · rename_i blank
      rw [ih fun c' mem => ?_, List.append_assoc, List.singleton_append]
      rcases List.mem_append.1 mem with mem | mem
      · exact blanks c' mem
      · rwa [List.mem_singleton.1 mem]
    · rename_i solid
      rw [Bool.not_eq_true] at solid
      have next := @ih [] (by simp)
      have same : Text.squeeze (c :: joinLines [] l) = Text.squeeze (c :: l) := by
        rw [Text.squeeze, Text.squeeze, if_neg (by simp [solid]), if_neg (by simp [solid]), next]
        rfl
      by_cases empty : run = []
      · rw [empty, closeRun_of_notMem (by simp), List.nil_append, List.nil_append, same]
      · rw [squeeze_blanks blanks empty solid,
          squeeze_blanks (blank_closeRun blanks) (closeRun_ne_nil empty) solid, same]

theorem tidy_oneLine (s : String) : Text.tidy (oneLine s) = Text.tidy s := by
  rw [oneLine, Text.tidy_trim, Text.tidy, Text.tidy, Text.collapseSpaces, Text.collapseSpaces,
    String.toList_ofList, squeeze_joinLines (by simp), List.nil_append]

@[simp] theorem questionKey_oneLine (lower : String → String) (q : String) :
    questionKey lower (oneLine q) = questionKey lower q := by
  rw [questionKey, questionKey, tidy_oneLine]

theorem newline_notMem_line (n : Nat) (task text : String) :
    '\n' ∉ researchAnswerLine n task text := by
  have digits : '\n' ∉ (toString n).toList := fun mem =>
    absurd (digits_toString n _ mem) (by decide)
  have front : '\n' ∉ questionMark := by decide
  simp only [researchAnswerLine, answerMark, List.mem_append, not_or]
  exact ⟨⟨⟨⟨⟨front, digits⟩, by decide⟩, newline_notMem_oneLine task⟩, ⟨by decide, digits⟩,
    by decide⟩, newline_notMem_oneLine text⟩

/-- The line of the answer at a place. -/
def lineAt (at' : Answer × Nat) : List Char :=
  researchAnswerLine (at'.2 + 1) at'.1.task at'.1.text

theorem splitOn_handedText (answers : List Answer) :
    (handedText answers).splitOn '\n' = answers.zipIdx.map lineAt ++ [[]] := by
  unfold handedText
  induction answers.zipIdx with
  | nil => rfl
  | cons at' rest ih =>
    have line := List.splitOn_append_cons_self_of_not_mem
      (newline_notMem_line (at'.2 + 1) at'.1.task at'.1.text)
      (rest.flatMap fun at' => researchAnswerLine (at'.2 + 1) at'.1.task at'.1.text ++ ['\n'])
    rw [List.flatMap_cons, List.append_assoc, List.singleton_append, line, ih]
    rfl

section

variable {lower : String → String}

/-- What a question is held with, under its key. -/
def heldUnder (lower : String → String) (question : String) (answer : Option String)
    (origin : From) : Option (String × HeldAnswer) :=
  if questionKey lower question = "" then none
  else some (questionKey lower question, ⟨oneLine question, answer, origin⟩)

theorem put_eq_offer (held : Keyed String HeldAnswer) (question : String)
    (answer : Option String) (origin : From) :
    put lower held question answer origin = held.offer (heldUnder lower question answer origin) := by
  rw [put, heldUnder]
  by_cases none' : questionKey lower question = ""
  · rw [if_pos none', if_pos (.inl none')]
    rfl
  · simp only [none', false_or, if_false, Keyed.offer]

/-- What a line of the file offers. -/
def lineOffer (lower : String → String) (l : List Char) : Option (String × HeldAnswer) :=
  match readLine l with
  | some (question, answer) =>
    if isResearchAnswer answer then heldUnder lower question (some answer) .handed else none
  | none => none

theorem putLine_eq_offer (held : Keyed String HeldAnswer) (l : List Char) :
    putLine lower held l = held.offer (lineOffer lower l) := by
  rw [putLine, lineOffer]
  cases readLine l with
  | none => rfl
  | some read =>
    dsimp only
    split
    · exact put_eq_offer held _ _ _
    · rfl

/-- What a row of the record offers. -/
def rowOffer (lower : String → String) (key : Option String) (r : Row) :
    Option (String × HeldAnswer) :=
  match r.task, r.text with
  | some task, some text =>
    if sameStageSession r.session key && isResearchAnswer text then
      heldUnder lower task (some (oneLine text)) .asked
    else none
  | _, _ => none

theorem putRow_eq_offer (key : Option String) (held : Keyed String HeldAnswer) (r : Row) :
    putRow lower key held r = held.offer (rowOffer lower key r) := by
  rw [putRow, rowOffer]
  rcases r.task with _ | task
  · rfl
  rcases r.text with _ | text
  · rfl
  dsimp only
  split
  · exact put_eq_offer held _ _ _
  · rfl

/-- What a line of the log offers. -/
def askedOffer (lower : String → String) (kept : List Row) (replayFrom : Option (List Row))
    (key : Option String) (a : Asked) : Option (String × HeldAnswer) :=
  match a.task with
  | some question =>
    if a.tool = some "perplexity_research" && a.ok && sameStageSession a.session key && !a.grid then
      heldUnder lower question ((textOfAsked kept replayFrom a.replay question).map oneLine) .asked
    else none
  | none => none

theorem putAsked_eq_offer (kept : List Row) (replayFrom : Option (List Row)) (key : Option String)
    (held : Keyed String HeldAnswer) (a : Asked) :
    putAsked lower kept replayFrom key held a =
      held.offer (askedOffer lower kept replayFrom key a) := by
  rw [putAsked, askedOffer]
  cases a.task with
  | none => rfl
  | some question =>
    dsimp only
    split
    · exact put_eq_offer held _ _ _
    · rfl

/-- What is held under a key is what the file, the record and the log offer it first. -/
theorem get_heldResearchAnswers (file : Option (List Char)) (record : List Line)
    (asked : List Asked) (replayFrom : Option (List Row)) (key : Option String) (k : String) :
    (heldResearchAnswers lower file record asked replayFrom key).get k =
      ((((file.map (·.splitOn '\n')).getD []).filterMap (lineOffer lower)).lookup k).or
        ((((rowsOf record).filterMap (rowOffer lower key)).lookup k).or
          ((asked.filterMap (askedOffer lower (rowsOf record) replayFrom key)).lookup k)) := by
  rw [heldResearchAnswers, Keyed.get_foldl_offer (putAsked_eq_offer _ _ _),
    Keyed.get_foldl_offer (putRow_eq_offer _), Keyed.get_foldl_offer putLine_eq_offer,
    Keyed.get_empty, Option.none_or, Option.or_assoc]

/-- What an answer that was handed is held as. -/
def handedAs (a : Answer) : HeldAnswer := ⟨oneLine a.task, some (oneLine a.text), .handed⟩

theorem lineOffer_of_readable {at' : Answer × Nat} (is : isResearchAnswer at'.1.text = true)
    (readable : Readable (at'.2 + 1) at'.1) :
    lineOffer lower (lineAt at') =
      if questionKey lower at'.1.task = "" then none
      else some (questionKey lower at'.1.task, handedAs at'.1) := by
  rw [lineOffer, lineAt, (read_iff_readable _ _).2 readable]
  dsimp only
  rw [if_pos (isResearchAnswer_oneLine is), heldUnder, questionKey_oneLine, oneLine_oneLine]
  rfl

theorem lookup_filterMap_find {α κ ν : Type} [DecidableEq κ] {f : α → Option (κ × ν)}
    {key : α → κ} {value : α → ν} {k : κ} {xs : List α}
    (offers : ∀ x ∈ xs, key x = k → f x = some (k, value x))
    (others : ∀ x ∈ xs, key x ≠ k → ∀ o, f x = some o → o.1 ≠ k) :
    (xs.filterMap f).lookup k = (xs.find? (key · = k)).map value := by
  induction xs with
  | nil => rfl
  | cons x xs ih =>
    rw [List.forall_mem_cons] at offers others
    by_cases own : key x = k
    · rw [List.filterMap_cons_some (offers.1 own), List.find?_cons_of_pos (by simpa using own)]
      simp
    · rw [List.find?_cons_of_neg (by simpa using own), ← ih offers.2 others.2]
      cases is : f x with
      | none => rw [List.filterMap_cons_none is]
      | some o =>
        have apart := others.1 own o is
        rw [List.filterMap_cons_some is, List.lookup_cons]
        simp [beq_eq_false_iff_ne.mpr apart.symm]

end

end Clearotron.Research
