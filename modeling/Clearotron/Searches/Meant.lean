import Clearotron.Library.Each
import Clearotron.Searches.Phrase
import Clearotron.Searches.Wider

/-!
# The phrase that was meant

A value is read as the held lists are: a word within a word, and a distance as a number of words.
Read so, the value of a term finds every mark its words stand in. Which operator words a register
indexes makes no difference where they are dropped.
-/

namespace Clearotron

section

variable (T : PhraseLetters)

/-- What letters are to the runtime: no star, and in any case the operator words they are. -/
structure PhraseLetters.Lawful : Prop where
  star : ∀ c, T.letterOrNumber c = true → T.fold c ≠ T.fold '*'
  operator : ∀ a b : List Char, a.map T.fold = b.map T.fold → isReservedToken a = isReservedToken b

/-- The words of a term stand in a row in a mark, letters in any case. -/
def HoldsPhrase (term : String) (words : List (List Char)) : Prop :=
  ∃ front phrase back, words = front ++ phrase ++ back ∧
    List.Forall₂ (fun t w => t.map T.fold = w.map T.fold) (termTokens T term) phrase

/-- The value finds the marks of a phrase on a register that keeps these words of a mark. -/
def FindsPhrase (term value : String) (indexed : List Char → Bool) : Prop :=
  ∀ mark, HoldsPhrase T term (wordsOf T.toMarkLetters mark) →
    legMatches T.toMarkLetters value ((wordsOf T.toMarkLetters mark).filter indexed) = some true

/-- A register that keeps every word of a mark but some operator words. -/
def KeepsNames (indexed : List Char → Bool) : Prop :=
  ∀ w, indexed w = false → isReservedToken w = true

/-- Every other one of a list, from the first. -/
def alternate {α : Type} : List α → List α
  | [] => []
  | [a] => [a]
  | a :: _ :: l => a :: alternate l

/-- The words a value asks for, between its distances. -/
def wordsAsked (value : String) : List (List Char) := alternate (blankParts value)

/-- The value asks what was meant: no operator word or bracket in it, and no mark missed. -/
structure AsMeant (term value : String) : Prop where
  finds : ∀ indexed, KeepsNames indexed → FindsPhrase T term value indexed
  operators : ∀ w ∈ wordsAsked value, isReservedToken w = false
  brackets : ∀ c ∈ value.toList, isParen c = false

/-- The same, where operator words may be passed through and brackets are screened before. -/
structure AsScreened (term value : String) (dropReserved : Bool) : Prop where
  finds : ∀ indexed, KeepsNames indexed → (dropReserved = false → ∀ w, indexed w = true) →
    FindsPhrase T term value indexed
  operators : ∀ w ∈ wordsAsked value, isReservedToken w = true →
    dropReserved = false ∧ w ∈ termTokens T term
  brackets : ∀ c ∈ value.toList, isParen c = true → c ∈ term.toList
  screened : ∀ allowWildcard allowReserved safe,
    assertSearchableTerm T term allowWildcard false allowReserved = .ok safe →
    ∀ c ∈ value.toList, isParen c = false

end

/-- A word without blanks in it. -/
def IsWord (t : List Char) : Prop := t ≠ [] ∧ ∀ c ∈ t, Text.isSpace c = false

theorem IsWord.plain {t : List Char} (word : IsWord t) :
    ∀ c ∈ t, (fun c => !Text.isSpace c) c = true := by
  intro c mem
  simp [word.2 c mem]

theorem isSpace_of_isDigit {c : Char} (digit : c.isDigit = true) : Text.isSpace c = false := by
  have low : 48 ≤ c.toNat ∧ c.toNat ≤ 57 := by
    simpa [Char.isDigit, UInt32.le_iff_toNat_le] using digit
  have apart : ∀ n ∈ List.range 58, 48 ≤ n → ¬ (n ∈ [9, 10, 11, 12, 13, 32, 160, 5760, 8232, 8233,
      8239, 8287, 12288, 65279] ∨ 8192 ≤ n) := by decide
  have here := apart c.toNat (List.mem_range.mpr (by omega)) low.1
  simp only [not_or] at here
  simp [Text.isSpace, here.1, here.2]

theorem adjacency_isWord (gap : Nat) : IsWord (adjacency gap) := by
  refine ⟨by simp [adjacency], fun c mem => ?_⟩
  have digits (n : Nat) : ∀ c ∈ (toString n).toList, Text.isSpace c = false := by
    intro c mem
    rw [Nat.toString_eq_repr, Nat.toList_repr] at mem
    exact isSpace_of_isDigit (Nat.isDigit_of_mem_toDigits (by decide) (by decide) mem)
  rw [adjacency, List.mem_append] at mem
  obtain mem | mem := mem
  · have letters : "ADJ".toList.all (!Text.isSpace ·) = true := by decide
    simpa using List.all_eq_true.mp letters c mem
  · split at mem
    · exact digits gap c mem
    · cases mem

/-- The parts of a chain are its words and, between them, its distances. -/
theorem blankParts_chainText {first : List Char} {rest : List (Nat × List Char)}
    (word : IsWord first) (words : ∀ x ∈ rest, IsWord x.2) :
    blankParts (String.ofList (chainText first rest)) =
      first :: rest.flatMap fun x => [adjacency x.1, x.2] := by
  rw [blankParts, String.toList_ofList]
  induction rest generalizing first with
  | nil =>
    rw [chainText, List.flatMap_nil, List.append_nil]
    exact tokens_word word.1 word.plain
  | cons x rest ih =>
    obtain ⟨next, words⟩ := List.forall_mem_cons.mp words
    have split : chainText first (x :: rest) =
        first ++ ' ' :: (adjacency x.1 ++ ' ' :: chainText x.2 rest) := by
      simp [chainText]
    rw [split, tokens_word_append word.1 word.plain rfl,
      tokens_word_append (adjacency_isWord _).1 (adjacency_isWord _).plain rfl, ih next words]
    rfl

theorem gapOf_adjacency {gap : Nat} (pos : 0 < gap) : gapOf (adjacency gap) = some gap := by
  unfold adjacency gapOf
  split
  · rename_i far
    have digits : ∀ c ∈ (toString gap).toList, c.isDigit = true := by
      intro c mem
      rw [Nat.toString_eq_repr, Nat.toList_repr] at mem
      exact Nat.isDigit_of_mem_toDigits (by decide) (by decide) mem
    have some' : (toString gap).toList ≠ [] := by
      rw [Nat.toString_eq_repr, Nat.toList_repr]
      exact Nat.toDigits_ne_nil
    have number : (toString gap).toList.foldl (fun n d => 10 * n + (d.toNat - 48)) 0 = gap := by
      rw [Nat.toString_eq_repr, Nat.toList_repr]
      exact Nat.ofDigitChars_ten_toDigits
    have front : ("ADJ".toList ++ (toString gap).toList).take 3 = "ADJ".toList := rfl
    have back : ("ADJ".toList ++ (toString gap).toList).drop 3 = (toString gap).toList := rfl
    dsimp only
    rw [front, back, if_pos ⟨rfl, List.all_eq_true.mpr digits⟩, if_neg some', number]
  · obtain rfl : gap = 1 := by omega
    rfl

theorem chainRest_flatMap {rest : List (Nat × List Char)} (pos : ∀ x ∈ rest, 0 < x.1) :
    chainRest (rest.flatMap fun x => [adjacency x.1, x.2]) =
      some (rest.map fun x => (x.1, wildcards x.2)) := by
  induction rest with
  | nil => rfl
  | cons x rest ih =>
    obtain ⟨here, pos⟩ := List.forall_mem_cons.mp pos
    rw [List.flatMap_cons, List.cons_append, List.cons_append, List.nil_append, chainRest,
      gapOf_adjacency here, ih pos]
    rfl

theorem alternate_flatMap (first : List Char) (rest : List (Nat × List Char)) :
    alternate (first :: rest.flatMap fun x => [adjacency x.1, x.2]) = first :: rest.map (·.2) := by
  induction rest generalizing first with
  | nil => rfl
  | cons x rest ih =>
    rw [List.flatMap_cons, List.cons_append, List.cons_append, List.nil_append, alternate, ih,
      List.map_cons]

/-- A word as it is asked: with a star in front or behind, and one of its own star and a single
character without that star. -/
inductive Asked (t : List Char) : List Char → Prop
  | wrapped {lead tail : List Char} (leads : lead = [] ∨ lead = ['*'])
      (tails : tail = [] ∨ tail = ['*']) : Asked t (lead ++ t ++ tail)
  | unstarred {c : Char} {lead tail : List Char} (leads : lead = [] ∨ lead = ['*'])
      (tails : tail = [] ∨ tail = ['*']) (is : t = [c, '*']) : Asked t (lead ++ [c] ++ tail)

namespace Asked

variable {t t' : List Char}

theorem refl (t : List Char) : Asked t t := by
  have bare := @wrapped t [] [] (.inl rfl) (.inl rfl)
  rwa [List.append_nil] at bare

theorem mem {c : Char} (asked : Asked t t') (mem : c ∈ t') : c ∈ t ∨ c = '*' := by
  cases asked with
  | wrapped leads tails =>
    obtain rfl | rfl := leads <;> obtain rfl | rfl := tails <;> simp at mem <;> tauto
  | unstarred leads tails is =>
    subst is
    obtain rfl | rfl := leads <;> obtain rfl | rfl := tails <;> simp at mem ⊢ <;> tauto

theorem isWord (asked : Asked t t') (word : IsWord t) : IsWord t' := by
  refine ⟨?_, fun c mem => ?_⟩
  · cases asked with
    | wrapped leads tails =>
      intro empty
      simp only [List.append_eq_nil_iff] at empty
      exact word.1 empty.1.2
    | unstarred leads tails is => simp
  · obtain own | rfl := asked.mem mem
    · exact word.2 c own
    · rfl

end Asked

/-- An operator word has more than one character, and no star. -/
theorem of_isReservedToken {w : List Char} (reserved : isReservedToken w = true) :
    2 ≤ w.length ∧ '*' ∉ w := by
  rw [isReservedToken] at reserved
  obtain ⟨r, isWord, both⟩ := List.any_eq_true.mp reserved
  rw [Bool.and_eq_true, List.isPrefixOf_iff_prefix] at both
  obtain ⟨⟨digits, split⟩, rest⟩ := both
  have words : ∀ r ∈ ["AND".toList, "OR".toList, "NOT".toList, "ADJ".toList, "NEAR".toList],
      2 ≤ r.length ∧ '*' ∉ r := by decide
  have long := words r isWord
  rw [← split, List.drop_left] at rest
  have lengths := congrArg List.length split
  rw [List.length_append, List.length_map] at lengths
  refine ⟨by omega, fun star => ?_⟩
  have upper : '*' ∈ r ++ digits := split ▸ List.mem_map.mpr ⟨'*', star, rfl⟩
  obtain own | own := List.mem_append.mp upper
  · exact long.2 own
  · exact absurd (List.all_eq_true.mp rest _ own) (by decide)

theorem Asked.reserved {t t' : List Char} (asked : Asked t t')
    (reserved : isReservedToken t' = true) : t' = t := by
  obtain ⟨long, noStar⟩ := of_isReservedToken reserved
  cases asked with
  | wrapped leads tails =>
    obtain rfl | rfl := leads <;> obtain rfl | rfl := tails <;> simp at noStar ⊢
  | unstarred leads tails is =>
    obtain rfl | rfl := leads <;> obtain rfl | rfl := tails <;> simp at noStar long

/-- Letters match themselves, a wildcard among them too. -/
theorem runs_wildcards {fold : Char → Char} {t w : List Char}
    (same : t.map fold = w.map fold) : Wild.runs fold (wildcards t) w = true := by
  induction t generalizing w with
  | nil =>
    obtain rfl : w = [] := by simpa using same.symm
    rfl
  | cons c t ih =>
    cases w with
    | nil => cases same
    | cons d w =>
      simp only [List.map_cons, List.cons.injEq] at same
      have tail := ih same.2
      rw [wildcards, List.map_cons, ← wildcards]
      split
      · exact (Wild.runs_any _ _).mpr ⟨w, List.suffix_cons d w, tail⟩
      · split
        · simpa [Wild.runs] using tail
        · simpa [Wild.runs, same.1] using tail

/-- What is asked for a word finds the word, where the mark is of letters and digits. -/
theorem Asked.finds {T : PhraseLetters} (lawful : T.Lawful) {t t' w : List Char}
    (asked : Asked t t') (same : t.map T.fold = w.map T.fold)
    (letters : ∀ c ∈ w, T.letterOrNumber c = true) :
    wordMatches T.toMarkLetters (wildcards t') w = true := by
  cases asked with
  | @wrapped lead tail leads tails =>
    have core := runs_wildcards same
    have behind : Wild.runs T.fold (wildcards (t ++ tail)) w = true := by
      obtain rfl | rfl := tails
      · rwa [List.append_nil]
      · rw [wildcards, List.map_append, ← wildcards]
        exact Wild.runs_concat_any core
    rw [wordMatches, List.append_assoc]
    obtain rfl | rfl := leads
    · exact behind
    · exact Wild.runs_cons_any behind
  | unstarred leads tails is =>
    subst is
    -- a star is no letter, so the word stands in no mark
    rcases w with _ | ⟨a, _ | ⟨b, w⟩⟩
    · cases same
    · exact absurd same (by simp)
    · simp only [List.map_cons, List.cons.injEq] at same
      exact absurd same.2.1.symm (lawful.star b (letters b (by simp)))

/-- A last word with a star behind, or without the one it has beside a single character. -/
def Tailed (t t' : List Char) : Prop :=
  ∃ tail, (tail = [] ∨ tail = ['*']) ∧ (t' = t ++ tail ∨ ∃ c, t = [c, '*'] ∧ t' = [c] ++ tail)

theorem Tailed.asked {t t' lead : List Char} (tailed : Tailed t t')
    (leads : lead = [] ∨ lead = ['*']) : Asked t (lead ++ t') := by
  obtain ⟨tail, tails, rfl | ⟨c, is, rfl⟩⟩ := tailed
  · rw [← List.append_assoc]
    exact .wrapped leads tails
  · rw [← List.append_assoc]
    exact .unstarred leads tails is

/-- What is done to the last word of a chain is done at the end of its text. -/
theorem chainText_last (first : List Char) (rest : List (Nat × List Char)) :
    ∃ front, chainText first rest = front ++ Chain.lastFrom first rest ∧
      ∀ last', Tailed (Chain.lastFrom first rest) last' → ∃ first' rest',
        front ++ last' = chainText first' rest' ∧ Tailed first first' ∧
          List.Forall₂ (fun x y => x.1 = y.1 ∧ Tailed x.2 y.2) rest rest' := by
  induction rest generalizing first with
  | nil =>
    refine ⟨[], by simp [chainText, Chain.lastFrom],
      fun last' tailed => ⟨last', [], ?_, tailed, .nil⟩⟩
    simp [chainText]
  | cons x rest ih =>
    obtain ⟨front, split, ends⟩ := ih x.2
    have opened (t : List Char) (l : List (Nat × List Char)) :
        chainText first ((x.1, t) :: l) =
          first ++ ' ' :: adjacency x.1 ++ ' ' :: chainText t l := by simp [chainText]
    refine ⟨first ++ ' ' :: adjacency x.1 ++ ' ' :: front, ?_, fun last' tailed => ?_⟩
    · rw [show x :: rest = (x.1, x.2) :: rest from rfl, opened, split]
      simp [Chain.lastFrom]
    · obtain ⟨second, rest', whole, there, others⟩ := ends last' tailed
      refine ⟨first, (x.1, second) :: rest', ?_, ⟨[], .inl rfl, .inl (by simp)⟩,
        .cons ⟨rfl, there⟩ others⟩
      rw [opened, ← whole]
      simp

section

variable {T : PhraseLetters} {term value pre post : String} {dropReserved : Bool}

theorem starWrap {b : Bool} {wrap : String} (is : wrap = "" ∨ wrap = "*") :
    (if b then "" else wrap).toList = [] ∨ (if b then "" else wrap).toList = ['*'] := by
  cases b with
  | true => exact .inl rfl
  | false =>
    obtain rfl | rfl := is
    · exact .inl rfl
    · exact .inr rfl

theorem isStarredUnit_iff {t : List Char} (starred : isStarredUnit t = true) :
    ∃ c, t = [c, '*'] := by
  unfold isStarredUnit at starred
  split at starred
  · rename_i c star
    simp only [Bool.and_eq_true, decide_eq_true_eq] at starred
    exact ⟨c, by rw [starred.1.1.1]⟩
  · cases starred

/-- What goes out is the chain of the kept words, each as it is asked. -/
theorem wrapPhrase_eq (pres : pre = "" ∨ pre = "*") (posts : post = "" ∨ post = "*")
    (first : List Char) (rest : List (Nat × List Char)) : ∃ first' rest',
      wrapPhrase pre post first rest = String.ofList (chainText first' rest') ∧
        Asked first first' ∧ List.Forall₂ (fun x y => x.1 = y.1 ∧ Asked x.2 y.2) rest rest' := by
  obtain ⟨front, split, ends⟩ := chainText_last first rest
  unfold wrapPhrase
  dsimp only
  generalize (decide (rest ≠ []) && isOneUnit first) = bareFirst
  generalize (decide (rest ≠ []) && isOneUnit (Chain.lastFrom first rest)) = bareLast
  have leads := @starWrap bareFirst _ pres
  have tails := @starWrap bareLast _ posts
  obtain ⟨last', whole, tailed⟩ : ∃ last',
      (if (decide (rest ≠ []) && isStarredUnit (Chain.lastFrom first rest)) = true then
        (chainText first rest).dropLast else chainText first rest) ++
          (if bareLast = true then "" else post).toList = front ++ last' ∧
      Tailed (Chain.lastFrom first rest) last' := by
    split
    · rename_i both
      obtain ⟨c, is⟩ := isStarredUnit_iff (Bool.and_eq_true _ _ ▸ both).2
      refine ⟨[c] ++ _, ?_, _, tails, .inr ⟨c, is, rfl⟩⟩
      rw [split, is, List.dropLast_append_of_ne_nil (by simp)]
      simp
    · refine ⟨Chain.lastFrom first rest ++ _, ?_, _, tails, .inl rfl⟩
      rw [split, List.append_assoc]
  obtain ⟨first', rest', there, firstTailed, others⟩ := ends last' tailed
  refine ⟨(if bareFirst = true then "" else pre).toList ++ first', rest', ?_,
    firstTailed.asked leads, others.imp fun x y both => ⟨both.1, ?_⟩⟩
  · apply String.toList_inj.mp
    rw [String.toList_append, String.toList_append, String.toList_ofList, String.toList_ofList,
      List.append_assoc, whole, there, chainText, chainText, List.append_assoc]
  · exact @Tailed.asked _ _ [] both.2 (.inl rfl)

theorem termTokens_trim : termTokens T (Text.trim term) = termTokens T term := by
  rw [termTokens, Text.trim_trim, termTokens]

theorem compilePhraseValue_ok
    (ok : compilePhraseValue T term pre post dropReserved = .ok value) : ∃ gap first rest,
      keptTokens dropReserved 1 (termTokens T term) = (gap, first) :: rest ∧
      value = wrapPhrase pre post first rest := by
  unfold compilePhraseValue assertSingleMarkShape at ok
  dsimp only at ok
  rw [termTokens_trim] at ok
  split_ifs at ok
  · cases ok
  · cases ok
  · cases ok
  · dsimp only [bind, Except.bind] at ok
    split at ok
    · cases ok
    · rename_i gap first rest kept
      exact ⟨gap, first, rest, kept, (Except.ok.inj ok).symm⟩

theorem mem_keptTokens {pending : Nat} {tokens : List (List Char)} (pos : 0 < pending)
    {x : Nat × List Char} (mem : x ∈ keptTokens dropReserved pending tokens) :
    0 < x.1 ∧ x.2 ∈ tokens ∧ (dropReserved && isReservedToken x.2) = false := by
  induction tokens generalizing pending with
  | nil => cases mem
  | cons t tokens ih =>
    rw [keptTokens] at mem
    split at mem
    · obtain ⟨far, there, kept⟩ := ih (Nat.succ_pos _) mem
      exact ⟨far, List.mem_cons_of_mem _ there, kept⟩
    · rename_i kept
      obtain rfl | mem := List.mem_cons.mp mem
      · exact ⟨pos, List.mem_cons_self, Bool.eq_false_iff.mpr kept⟩
      · obtain ⟨far, there, kept⟩ := ih Nat.one_pos mem
        exact ⟨far, List.mem_cons_of_mem _ there, kept⟩

/-- The chain of the kept words stands in the words of a phrase, whichever of the dropped ones
are left out of them: a word left out leaves room to spare. -/
theorem reads_kept {hits : List Wild → List Char → Bool} {Same : List Char → List Char → Prop}
    {IsMark : List Char → Prop} {indexed : List Char → Bool}
    (keeps : ∀ t w, Same t w → (dropReserved && isReservedToken t) = false → indexed w = true)
    {tokens phrase : List (List Char)} (same : List.Forall₂ Same tokens phrase)
    (marks : ∀ w ∈ phrase, IsMark w) (before back : List (List Char)) {pending gap : Nat}
    {p : List Wild} {rest : List (Nat × List Wild)}
    (near : before.length < pending)
    (asked : List.Forall₂ (fun x y => x.1 = y.1 ∧ ∀ w, Same x.2 w → IsMark w → hits y.2 w = true)
      (keptTokens dropReserved pending tokens) ((gap, p) :: rest)) :
    Chain.Reads hits (some gap) p rest (before ++ phrase.filter indexed ++ back) := by
  induction same generalizing pending gap before p rest with
  | nil => cases asked
  | @cons t w tokens phrase here same ih =>
    obtain ⟨mark, marks⟩ := List.forall_mem_cons.mp marks
    rw [keptTokens] at asked
    split at asked
    · by_cases own : indexed w = true
      · have further := ih marks (before ++ [w]) (by simpa using near) asked
        rw [List.filter_cons_of_pos own]
        simpa using further
      · rw [List.filter_cons_of_neg own]
        exact ih marks before (Nat.lt_succ_of_lt near) asked
    · rename_i kept
      obtain - | ⟨⟨rfl, hit⟩, others⟩ := asked
      have own := keeps t w here (Bool.eq_false_iff.mpr kept)
      rw [List.filter_cons_of_pos own, List.append_assoc, List.cons_append]
      have close : ∀ n ∈ some pending, before.length < n := by
        rintro n ⟨⟩
        exact near
      cases rest with
      | nil => exact .last before w _ close (hit w here mark)
      | cons y rest =>
        exact .next before w _ close (hit w here mark)
          (ih marks [] Nat.one_pos others)

theorem mem_trim {s : String} {c : Char} (mem : c ∈ (Text.trim s).toList) : c ∈ s.toList := by
  rw [Text.trim, String.toList_ofList, List.mem_reverse] at mem
  have front := (List.dropWhile_sublist _).subset mem
  exact (List.dropWhile_sublist _).subset (List.mem_reverse.mp front)

theorem mem_termTokens {t : List Char} (mem : t ∈ termTokens T term) :
    IsWord t ∧ ∀ c ∈ t, c ∈ (Text.trim term).toList := by
  obtain ⟨named, each⟩ := mem_tokens (List.mem_filter.mp mem).1
  exact ⟨⟨named, fun c there => by simpa using (each c there).1⟩, fun c there => (each c there).2⟩

theorem wraps (m : MatchMode) :
    (m.field.pre = "" ∨ m.field.pre = "*") ∧ (m.field.post = "" ∨ m.field.post = "*") := by
  cases m <;> decide

/-- A value is the chain of the kept words, each as it is asked. -/
theorem compilePhraseValue_asked {m : MatchMode}
    (ok : compilePhraseValue T term m.field.pre m.field.post dropReserved = .ok value) :
    ∃ gap first rest, value = String.ofList (chainText first rest) ∧
      List.Forall₂ (fun x y => x.1 = y.1 ∧ Asked x.2 y.2)
        (keptTokens dropReserved 1 (termTokens T term)) ((gap, first) :: rest) := by
  obtain ⟨gap, word, others, kept, rfl⟩ := compilePhraseValue_ok ok
  obtain ⟨first, rest, text, asked, each⟩ := wrapPhrase_eq (wraps m).1 (wraps m).2 word others
  exact ⟨gap, first, rest, text, kept ▸ .cons ⟨rfl, asked⟩ each⟩

section

variable {gap : Nat} {first : List Char} {rest : List (Nat × List Char)}
  (asked : List.Forall₂ (fun x y => x.1 = y.1 ∧ Asked x.2 y.2)
    (keptTokens dropReserved 1 (termTokens T term)) ((gap, first) :: rest))

include asked

/-- A word that is asked is one of the term, kept. -/
theorem exists_token {y : Nat × List Char} (mem : y ∈ (gap, first) :: rest) :
    0 < y.1 ∧ ∃ t ∈ termTokens T term, Asked t y.2 ∧
      (dropReserved && isReservedToken t) = false := by
  obtain ⟨x, there, same, how⟩ := exists_partner_of asked mem
  obtain ⟨pos, isToken, kept⟩ := mem_keptTokens Nat.one_pos there
  exact ⟨same ▸ pos, x.2, isToken, how, kept⟩

theorem asked_isWord {y : Nat × List Char} (mem : y ∈ (gap, first) :: rest) : IsWord y.2 := by
  obtain ⟨-, t, isToken, how, -⟩ := exists_token asked mem
  exact how.isWord (mem_termTokens isToken).1

theorem blankParts_asked : blankParts (String.ofList (chainText first rest)) =
    first :: rest.flatMap fun x => [adjacency x.1, x.2] :=
  blankParts_chainText (asked_isWord asked (y := (gap, first)) List.mem_cons_self)
    fun _ mem => asked_isWord asked (List.mem_cons_of_mem _ mem)

theorem chainOf_asked : chainOf (String.ofList (chainText first rest)) =
    some { head := wildcards first, rest := rest.map fun x => (x.1, wildcards x.2) } := by
  have pos : ∀ x ∈ rest, 0 < x.1 := fun x mem =>
    (exists_token asked (List.mem_cons_of_mem _ mem)).1
  rw [chainOf, blankParts_asked asked]
  dsimp only
  rw [chainRest_flatMap pos]
  rfl

/-- The value finds the marks of its phrase, whichever of the dropped words are indexed. -/
theorem findsPhrase_asked (lawful : T.Lawful) {indexed : List Char → Bool}
    (keeps : ∀ w, indexed w = false → dropReserved = true ∧ isReservedToken w = true) :
    FindsPhrase T term (String.ofList (chainText first rest)) indexed := by
  rintro mark ⟨front, phrase, back, words, same⟩
  have letters : ∀ w ∈ phrase, ∀ c ∈ w, T.letterOrNumber c = true := by
    intro w mem c there
    have isWord : w ∈ wordsOf T.toMarkLetters mark := by
      rw [words]
      exact List.mem_append_left _ (List.mem_append_right _ mem)
    exact ((mem_tokens isWord).2 c there).1
  have kept : ∀ t w : List Char, t.map T.fold = w.map T.fold →
      (dropReserved && isReservedToken t) = false → indexed w = true := by
    intro t w same kept
    by_contra out
    obtain ⟨drops, reserved⟩ := keeps w (Bool.eq_false_iff.mpr out)
    rw [drops, lawful.operator t w same, reserved] at kept
    cases kept
  have steps : List.Forall₂ (fun x y => x.1 = y.1 ∧ ∀ w, x.2.map T.fold = w.map T.fold →
      (∀ c ∈ w, T.letterOrNumber c = true) → wordMatches T.toMarkLetters y.2 w = true)
      (keptTokens dropReserved 1 (termTokens T term))
      ((gap, wildcards first) :: rest.map fun x => (x.1, wildcards x.2)) := by
    refine (List.forall₂_map_right_iff (f := fun x : Nat × List Char => (x.1, wildcards x.2))
      (u := (gap, first) :: rest)).mpr (asked.imp fun x y both => ?_)
    exact ⟨both.1, fun w same letters => both.2.finds lawful same letters⟩
  have inner := reads_kept kept same letters [] (back.filter indexed) Nat.one_pos steps
  rw [legMatches_iff]
  refine ⟨_, chainOf_asked asked, ?_⟩
  rw [words, List.filter_append, List.filter_append, List.append_assoc]
  have wide := @Chain.Reads.widen _ _ _ _ _ _ _ none (front.filter indexed) inner [] nofun
  simpa using wide

theorem operators_asked {w : List Char}
    (mem : w ∈ wordsAsked (String.ofList (chainText first rest)))
    (reserved : isReservedToken w = true) : dropReserved = false ∧ w ∈ termTokens T term := by
  rw [wordsAsked, blankParts_asked asked, alternate_flatMap] at mem
  obtain ⟨y, there, rfl⟩ : ∃ y ∈ (gap, first) :: rest, y.2 = w := by
    obtain rfl | mem := List.mem_cons.mp mem
    · exact ⟨(gap, w), List.mem_cons_self, rfl⟩
    · obtain ⟨y, there, is⟩ := List.mem_map.mp mem
      exact ⟨y, List.mem_cons_of_mem _ there, is⟩
  obtain ⟨-, t, isToken, how, kept⟩ := exists_token asked there
  obtain same := how.reserved reserved
  rw [same] at reserved ⊢
  rw [reserved, Bool.and_true] at kept
  exact ⟨kept, isToken⟩

theorem brackets_asked {c : Char} (mem : c ∈ chainText first rest) (paren : isParen c = true) :
    c ∈ (Text.trim term).toList := by
  have ofWord {y : Nat × List Char} (there : y ∈ (gap, first) :: rest) (inWord : c ∈ y.2) :
      c ∈ (Text.trim term).toList := by
    obtain ⟨-, t, isToken, how, -⟩ := exists_token asked there
    obtain own | rfl := how.mem inWord
    · exact (mem_termTokens isToken).2 c own
    · exact absurd paren (by decide)
  have inGap (gap : Nat) : c ∉ adjacency gap := by
    intro there
    rw [adjacency, List.mem_append] at there
    obtain there | there := there
    · revert there paren
      have plain : "ADJ".toList.all (!isParen ·) = true := by decide
      intro paren there
      have none' := List.all_eq_true.mp plain c there
      rw [paren] at none'
      cases none'
    · split at there
      · rw [Nat.toString_eq_repr, Nat.toList_repr] at there
        have digit := Nat.isDigit_of_mem_toDigits (by decide) (by decide) there
        simp only [isParen, Bool.or_eq_true, decide_eq_true_eq] at paren
        obtain rfl | rfl := paren <;> cases digit
      · cases there
  rw [chainText, List.mem_append] at mem
  obtain mem | mem := mem
  · exact ofWord (y := (gap, first)) List.mem_cons_self mem
  · obtain ⟨y, there, mem⟩ := List.mem_flatMap.mp mem
    simp only [List.cons_append, List.mem_cons, List.mem_append] at mem
    obtain rfl | mem | rfl | mem := mem
    · cases paren
    · exact absurd mem (inGap y.1)
    · cases paren
    · exact ofWord (List.mem_cons_of_mem _ there) mem

end

/-- What a screened term is, it has no bracket. -/
theorem screened_of_ok {allowWildcard allowReserved : Bool} {safe : String}
    (ok : assertSearchableTerm T term allowWildcard false allowReserved = .ok safe) :
    ∀ c ∈ (Text.trim term).toList, isParen c = false := by
  unfold assertSearchableTerm at ok
  dsimp only at ok
  split_ifs at ok with _ _ paren
  simpa [List.any_eq_true] using paren

/-- In every match mode a value finds every mark that holds its phrase, whatever operator words
the register indexes, where they are dropped; passed through, where it indexes them. -/
theorem phrase_asks_what_was_meant (lawful : T.Lawful) {m : MatchMode}
    (ok : compilePhraseValue T term m.field.pre m.field.post dropReserved = .ok value) :
    AsScreened T term value dropReserved := by
  obtain ⟨gap, first, rest, rfl, asked⟩ := compilePhraseValue_asked ok
  refine ⟨fun indexed keeps whole => ?_, fun w mem reserved => operators_asked asked mem reserved,
    fun c mem paren => ?_, fun allowWildcard allowReserved safe screened c mem => ?_⟩
  · refine findsPhrase_asked asked lawful fun w out => ⟨?_, keeps w out⟩
    by_contra passed
    rw [whole (Bool.eq_false_iff.mpr passed) w] at out
    cases out
  · rw [String.toList_ofList] at mem
    exact mem_trim (brackets_asked asked mem paren)
  · rw [String.toList_ofList] at mem
    by_contra paren
    have bracket : isParen c = true := by simpa using paren
    exact paren (screened_of_ok screened c (brackets_asked asked mem bracket))

/-- What holds of the signs of ASCII and of those that have no lower case holds of all. -/
theorem of_ascii {P : Char → Prop} (ascii : ∀ n < 128, P (Char.ofNat n))
    (other : ∀ c : Char, c.toLower = c → P c) (c : Char) : P c := by
  by_cases upper : c.val ≥ 'A'.val ∧ c.val ≤ 'Z'.val
  · have low : c.val.toNat ≤ 90 := UInt32.le_iff_toNat_le.mp upper.2
    have here := ascii c.toNat (Nat.lt_of_le_of_lt low (by decide))
    rwa [Char.ofNat_toNat] at here
  · refine other c ?_
    unfold Char.toLower
    rw [dif_neg upper]

def asciiPhrases : PhraseLetters where
  toMarkLetters := asciiLetters
  stringify s := s

theorem asciiPhrases_lawful : asciiPhrases.Lawful where
  star := of_ascii (P := fun c => c.isAlphanum = true → c.toLower ≠ '*') (by decide)
    fun c same letter star => by
      rw [same] at star
      subst star
      cases letter
  operator a b same := by
    have upper (c : Char) : c.toLower.toUpper = c.toUpper :=
      of_ascii (P := fun c => c.toLower.toUpper = c.toUpper) (by decide) (fun c is => by rw [is]) c
    have raised := congrArg (List.map Char.toUpper) same
    simp only [List.map_map] at raised
    have each (l : List Char) : l.map (Char.toUpper ∘ asciiPhrases.fold) = l.map Char.toUpper :=
      List.map_congr_left fun c _ => upper c
    rw [isReservedToken, isReservedToken, ← each a, ← each b, raised]

theorem phrase_asks_what_was_meant_salt :
    compilePhraseValue asciiPhrases "SALT AND PEPPER" MatchMode.default.field.pre
        MatchMode.default.field.post true = .ok "*SALT ADJ2 PEPPER*" ∧
      AsScreened asciiPhrases "SALT AND PEPPER" "*SALT ADJ2 PEPPER*" true := by
  have ok : compilePhraseValue asciiPhrases "SALT AND PEPPER" MatchMode.default.field.pre
      MatchMode.default.field.post true = .ok "*SALT ADJ2 PEPPER*" := by decide +kernel
  exact ⟨ok, phrase_asks_what_was_meant asciiPhrases_lawful ok⟩

/-- A pattern is passed through as it is written, and an operator word with it. -/
theorem pattern_carries_its_operator : ¬ ∀ (T : PhraseLetters) (term value : String) (m : MatchMode)
    (dropReserved : Bool), T.Lawful →
    compilePhraseValue T term m.field.pre m.field.post dropReserved = .ok value →
    AsMeant T term value := by
  intro all
  have meant := all asciiPhrases "SALT NEAR PEPPER" "SALT ADJ NEAR ADJ PEPPER" .wildcard false
    asciiPhrases_lawful (by decide +kernel)
  exact absurd (meant.operators "NEAR".toList (by decide +kernel)) (by decide)

end

end Clearotron
