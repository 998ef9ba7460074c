import Mathlib.Data.List.DropRight
import Clearotron.Library.Runs
import Clearotron.Register.Text
import Clearotron.Driver.Recovery

/-!
# What a failure is recognised by

A failure is signed with its stage and with its reason, which loses the directories of its paths
and the values of its run first. A run of eight hexadecimal digits or more is folded before a run of
decimal ones, so a number is folded one way while it is short and another way once it is long; and
what is written onto a path is lost with its directories. But for these two, failures are signed as
one exactly where they differ in the values of their runs only.
-/

namespace Clearotron.Signatures

open Runs

/-- The digits of a digest, and of an identifier in a text without capitals. -/
def isHex (c : Char) : Bool := c.isDigit || (97 ≤ c.toNat && c.toNat ≤ 102)

/-- What the runtime makes of a text. -/
structure ReasonTexts where
  /-- `toLowerCase` -/
  lower : String → String
  small : ∀ s, ∀ c ∈ (lower s).toList, c.isUpper = false
  /-- of the text's bytes, in hexadecimal digits -/
  sha256 : String → List Char
  digits : ∀ s, (sha256 s).length = 64 ∧ (sha256 s).all isHex = true

/-- Only a Windows path is written with backslashes. -/
def isSeparator (win : Bool) (c : Char) : Bool := c == '/' || (win && c == '\\')

/-- No blank and no quotation mark. -/
def isPathChar (c : Char) : Bool := !(Text.isSpace c || c.toNat ∈ [34, 39, 96])

/-- The last segment of a path that is not empty; a word without a separator is none. -/
def baseName (win : Bool) (word : List Char) : List Char :=
  if word.any (isSeparator win) then
    (word.rdropWhile (isSeparator win)).rtakeWhile fun c => !isSeparator win c
  else word

/-- A text with its identifiers, and then its numbers, replaced. -/
def folded (idMark numberMark : Char) (s : List Char) : List Char :=
  eachRun Char.isDigit (cut 1 numberMark) [] (eachRun isHex (cut 8 idMark) [] s)

section

variable (R : ReasonTexts) (win : Bool)

/-- A reason without capitals and directories. -/
def withoutPaths (reason : String) : List Char :=
  eachRun isPathChar (baseName win) [] (R.lower reason).toList

def fullReason (reason : String) : List Char :=
  (Text.tidy (String.ofList (folded 'H' 'N' (withoutPaths R win reason)))).toList

/-- What is too long ends in a digest of its rest. -/
def capped (full : List Char) : List Char :=
  if full.length ≤ 160 then full
  else full.take 151 ++ '~' :: (R.sha256 (String.ofList (full.drop 151))).take 8

def normalizeReason (reason : String) : String :=
  String.ofList (capped R (fullReason R win reason))

/-- `/\(.*$/`: from the first bracket with no line end behind it. -/
def dropDecoration : List Char → List Char
  | [] => []
  | c :: s =>
    if c = '(' ∧ s.all fun d => d.toNat ∉ [10, 13, 8232, 8233] then []
    else c :: dropDecoration s

def bareStage (stage : String) : String := Text.trim (String.ofList (dropDecoration stage.toList))

/-- The module's own reading of a text; what a signature does not look at is in `others`. -/
def failureTexts (others : FailureTexts) : FailureTexts where
  outage := others.outage
  bareStage := bareStage
  normalizeReason := normalizeReason R win
  digest s := String.ofList ((R.sha256 s).take 12)
  progressQuantity := others.progressQuantity
  trim := Text.trim

structure Failure where
  stage : String
  reason : String

/-- The signature of a failure that was thrown without codes. -/
def signatureOf (others : FailureTexts) (f : Failure) : String :=
  (failureSignature (failureTexts R win others) f.stage f.reason []).sig

/-- What may stand between a word and a path that is written onto it. -/
def isJoint (c : Char) : Bool := c ∈ [':', '=', '(', '[', ',', ';']

/-- The words in front of a path that is written onto them, as in `kind:/a/b`. A letter and a colon
are a drive. -/
def labelOf (word : List Char) : List Char :=
  let front := (word.rdropWhile (isSeparator win)).rdropWhile fun c => !isSeparator win c
  let label := front.rdropWhile fun c => !isJoint c
  if label.length ≤ 2 then [] else eachRun (fun c => !isJoint c) (baseName win) [] label

/-- What is written onto the paths of a reason. -/
def labels (reason : String) : List (List Char) :=
  ((tokens isPathChar (R.lower reason).toList).filter (·.any (isSeparator win))).map (labelOf win)

/-- The words of a reason, without directories. -/
def wordsOf (reason : String) : List (List Char) :=
  tokens (fun c => !Text.isSpace c) (withoutPaths R win reason)

end

/-- Two texts that differ in values of a run only: in digits, or in identifiers that are folded. -/
inductive Alike : List Char → List Char → Prop
  | nil : Alike [] []
  | same {s t : List Char} (c : Char) (rest : Alike s t) : Alike (c :: s) (c :: t)
  | numbers {d e s t : List Char} (digits : ∀ c ∈ d, c.isDigit = true)
      (digits' : ∀ c ∈ e, c.isDigit = true) (filled : 1 ≤ d.length) (filled' : 1 ≤ e.length)
      (rest : Alike s t) : Alike (d ++ s) (e ++ t)
  | identifiers {d e s t : List Char} (hex : ∀ c ∈ d, isHex c = true)
      (hex' : ∀ c ∈ e, isHex c = true) (long : 8 ≤ d.length) (long' : 8 ≤ e.length)
      (rest : Alike s t) : Alike (d ++ s) (e ++ t)

section

variable (R : ReasonTexts) (win : Bool)

/-- Two runs of hexadecimal digits that are folded in the same way: each an identifier, or each
shorter and with its numbers where the other has them. -/
def OneKind (a b : List Char) : Prop :=
  8 ≤ a.length ∧ 8 ≤ b.length ∨
    a.length < 8 ∧ b.length < 8 ∧ RunsAlike Char.isDigit (fun d e => d = [] ↔ e = []) a b

/-- Do two reasons say the same but for values, each of them of one kind in both? -/
def SameKinds (f g : Failure) : Prop :=
  List.Forall₂ (RunsAlike isHex OneKind) (wordsOf R win f.reason) (wordsOf R win g.reason)

/-- Are the same words written onto the paths of two reasons? -/
def SameLabels (f g : Failure) : Prop :=
  List.Forall₂ Alike (labels R win f.reason) (labels R win g.reason)

/-- Do two reasons differ in the values of their runs and in the directories of their paths only? -/
def DifferInValues (f g : Failure) : Prop :=
  List.Forall₂ Alike (wordsOf R win f.reason) (wordsOf R win g.reason) ∧ SameLabels R win f g

/-- Are two failures signed as one exactly where they are of one stage and differ in values only? -/
def ToldApart (others : FailureTexts) (f g : Failure) : Prop :=
  signatureOf R win others f = signatureOf R win others g ↔
    bareStage f.stage = bareStage g.stage ∧ DifferInValues R win f g

/-- The digests of two reasons are apart where the texts are. -/
structure DigestsApart (f g : Failure) : Prop where
  rest : (R.sha256 (String.ofList ((fullReason R win f.reason).drop 151))).take 8 =
    (R.sha256 (String.ofList ((fullReason R win g.reason).drop 151))).take 8 →
      (fullReason R win f.reason).drop 151 = (fullReason R win g.reason).drop 151
  reason : (R.sha256 (normalizeReason R win f.reason)).take 12 =
    (R.sha256 (normalizeReason R win g.reason)).take 12 →
      normalizeReason R win f.reason = normalizeReason R win g.reason

end

theorem toList_tidy (l : List Char) : (Text.tidy (String.ofList l)).toList =
    ((Text.squeeze l).dropWhile Text.isSpace).rdropWhile Text.isSpace := by
  simp [Text.tidy, Text.trim, Text.collapseSpaces, List.rdropWhile]

/-- A squeezed text that ends in no blank is its words, one blank between each two. -/
theorem intercalate_tokensFrom {word l : List Char} (named : word ≠ [])
    (squeezed : Text.Squeezed l) (closed : ∀ some : l ≠ [], Text.isSpace (l.getLast some) = false) :
    List.intercalate [' '] (tokensFrom (fun c => !Text.isSpace c) word l) = word ++ l := by
  induction n : l.length using Nat.strong_induction_on generalizing word l with
  | _ n ih =>
    cases l with
    | nil => simp [tokensFrom, named]
    | cons c l =>
      have tail := squeezed.of_part (List.suffix_cons c l).isInfix
      rw [List.length_cons] at n
      cases blank : Text.isSpace c with
      | false =>
        rw [tokensFrom_cons_token (by simp [blank]), ih l.length (by omega) (by simp) tail ?_ rfl,
          List.append_assoc]
        · rfl
        · intro some'
          rw [← List.getLast_cons some']
          exact closed _
      | true =>
        obtain rfl := squeezed.plain c List.mem_cons_self blank
        cases l with
        | nil =>
          have last := closed (by simp)
          rw [List.getLast_singleton, blank] at last
          cases last
        | cons d l =>
          -- the next letter starts the next word
          have letter : Text.isSpace d = false := by
            obtain apart | apart := (List.isChain_cons_cons.mp squeezed.apart).1
            · rw [blank] at apart
              cases apart
            · exact apart
          have rest := ih l.length (by rw [List.length_cons] at n; omega) (List.cons_ne_nil d [])
            (tail.of_part (List.suffix_cons d l).isInfix) (fun some' => by
              rw [← List.getLast_cons (a := d) some', ← List.getLast_cons (a := ' ') (by simp)]
              exact closed _) rfl
          have some' : tokensFrom (fun c => !Text.isSpace c) [d] l ≠ [] := by
            rw [Ne, tokensFrom_eq_nil]
            simp
          rw [tokensFrom_cons_blank (by simp [blank]), tokensFrom_cons_token (by simp [letter]),
            if_neg (by simpa using named), List.singleton_append, List.nil_append,
            List.intercalate_cons_of_ne_nil some', rest, List.append_assoc]
          rfl

/-- What a tidied text is. -/
theorem intercalate_tokens_tidy (s : String) : List.intercalate [' ']
    (tokens (fun c => !Text.isSpace c) (Text.tidy s).toList) = (Text.tidy s).toList := by
  have squeezed : Text.Squeezed (Text.tidy s).toList := by
    refine (Text.squeezed_squeeze s.toList).of_part ?_
    simpa [Text.tidy, Text.collapseSpaces] using Text.trim_part (Text.collapseSpaces s)
  have trimmed := congrArg String.toList (Text.trim_tidy s)
  rw [Text.trim, String.toList_ofList] at trimmed
  change ((Text.tidy s).toList.dropWhile Text.isSpace).rdropWhile Text.isSpace = _ at trimmed
  generalize (Text.tidy s).toList = l at squeezed trimmed
  -- neither end is cut
  have front : l.dropWhile Text.isSpace = l := by
    refine (List.dropWhile_suffix Text.isSpace).eq_of_length_le ?_
    have length := (List.rdropWhile_prefix Text.isSpace (l.dropWhile Text.isSpace)).length_le
    rwa [trimmed] at length
  have back : l.rdropWhile Text.isSpace = l := by rwa [front] at trimmed
  cases l with
  | nil => rfl
  | cons c l =>
    have letter : Text.isSpace c = false :=
      eq_false_of_ne_true (List.dropWhile_eq_self_iff.mp front (by simp))
    rw [tokens, tokensFrom_cons_token (by simp [letter]), List.nil_append,
      intercalate_tokensFrom (by simp) (squeezed.of_part (List.suffix_cons c l).isInfix)]
    · rfl
    · intro some'
      rw [← List.getLast_cons (a := c) some']
      simpa using List.rdropWhile_eq_self_iff.mp back (by simp)

theorem isDigit_of_isSpace {c : Char} (space : Text.isSpace c = true) : c.isDigit = false := by
  simp only [Text.isSpace, Bool.or_eq_true, decide_eq_true_eq, List.mem_cons, List.not_mem_nil,
    or_false, Bool.and_eq_true] at space
  rw [Bool.eq_false_iff]
  intro digit
  obtain ⟨low, high⟩ := Char.isDigit_iff_toNat.mp digit
  rw [show '0'.toNat = 48 from rfl] at low
  rw [show '9'.toNat = 57 from rfl] at high
  omega

theorem isHex_of_isSpace {c : Char} (space : Text.isSpace c = true) : isHex c = false := by
  have digit := isDigit_of_isSpace space
  simp only [Text.isSpace, Bool.or_eq_true, decide_eq_true_eq, List.mem_cons, List.not_mem_nil,
    or_false, Bool.and_eq_true] at space
  simp only [isHex, digit, Bool.false_or, Bool.and_eq_false_iff, decide_eq_false_iff_not]
  omega

theorem below_squeeze {l : List Char} {n : ℕ} (below : Below isHex 8 n l) :
    Below isHex 8 n (Text.squeeze l) := by
  induction l generalizing n with
  | nil => exact below_nil
  | cons c l ih =>
    unfold Text.squeeze
    cases space : Text.isSpace c with
    | true =>
      rw [below_cons_of_neg (isHex_of_isSpace space)] at below
      rw [if_pos rfl]
      split
      · rename_i next
        refine ih ?_
        cases l with
        | nil => exact below_nil
        | cons d l =>
          have outside := isHex_of_isSpace (c := d) (by simpa using next)
          rw [below_cons_of_neg outside] at below ⊢
          exact below
      · exact (below_cons_of_neg (by decide)).mpr (ih below)
    | false =>
      rw [if_neg (by simp)]
      cases hex : isHex c with
      | true =>
        rw [below_cons_of_pos hex] at below ⊢
        exact ⟨below.1, ih below.2⟩
      | false =>
        rw [below_cons_of_neg hex] at below ⊢
        exact ih below

section

variable {R : ReasonTexts} {win : Bool} {reason reason' : String}

/-- No run of eight hexadecimal digits is left of a reason. -/
theorem below_fullReason : Below isHex 8 0 (fullReason R win reason) := by
  have inner : Below isHex 8 0 (eachRun isHex (cut 8 'H') [] (withoutPaths R win reason)) :=
    below_eachRun (by decide) (by simp)
  have outer : Below isHex 8 0 (folded 'H' 'N' (withoutPaths R win reason)) :=
    Below.eachRun (by decide) inner
  have squeezed := below_squeeze outer
  rw [fullReason, toList_tidy]
  obtain ⟨front, parts⟩ := List.dropWhile_suffix (l := Text.squeeze _) Text.isSpace
  obtain ⟨back, parts'⟩ := List.rdropWhile_prefix Text.isSpace
    ((Text.squeeze (folded 'H' 'N' (withoutPaths R win reason))).dropWhile Text.isSpace)
  rw [← parts] at squeezed
  have trimmed := squeezed.back
  rw [← parts'] at trimmed
  exact trimmed.front

theorem withoutPaths_small : ∀ c ∈ withoutPaths R win reason, c.isUpper = false := by
  intro c mem
  have own : ∀ run, ∀ c ∈ baseName win run, c ∈ run ∨ (fun _ => False) c := by
    intro run c mem
    unfold baseName at mem
    split at mem
    · exact .inl ((List.rdropWhile_prefix _ _).subset ((List.rtakeWhile_suffix _ _).subset mem))
    · exact .inl mem
  obtain mem | mem | none' := mem_eachRun own mem
  · cases mem
  · exact R.small reason c mem
  · exact none'.elim

theorem tokens_squeeze (word l : List Char) :
    tokensFrom (fun c => !Text.isSpace c) word (Text.squeeze l) =
      tokensFrom (fun c => !Text.isSpace c) word l := by
  induction l generalizing word with
  | nil => rfl
  | cons c l ih =>
    unfold Text.squeeze
    cases space : Text.isSpace c with
    | true =>
      rw [if_pos rfl, tokensFrom_cons_blank (by simp [space])]
      split
      · rename_i next
        rw [ih]
        cases l with
        | nil => simp at next
        | cons d l =>
          have blank : Text.isSpace d = true := by simpa using next
          rw [tokensFrom_cons_blank (by simp [blank]), tokensFrom_cons_blank (by simp [blank])]
          rfl
      · rw [tokensFrom_cons_blank (by decide), ih]
    | false =>
      rw [if_neg (by simp), tokensFrom_cons_token (by simp [space]),
        tokensFrom_cons_token (by simp [space]), ih]

theorem tokens_dropWhile (l : List Char) :
    tokens (fun c => !Text.isSpace c) (l.dropWhile Text.isSpace) =
      tokens (fun c => !Text.isSpace c) l := by
  induction l with
  | nil => rfl
  | cons c l ih =>
    cases space : Text.isSpace c with
    | true =>
      rw [List.dropWhile_cons_of_pos space, ih]
      exact (tokensFrom_cons_blank (by simp [space]) []).symm
    | false => rw [List.dropWhile_cons_of_neg (by simp [space])]

theorem tokensFrom_append_blanks {back : List Char} (blank : ∀ c ∈ back, Text.isSpace c = true)
    (word l : List Char) : tokensFrom (fun c => !Text.isSpace c) word (l ++ back) =
      tokensFrom (fun c => !Text.isSpace c) word l := by
  have none' : tokens (fun c => !Text.isSpace c) back = [] :=
    tokens_eq_nil.mpr fun c mem => by simp [blank c mem]
  induction l generalizing word with
  | nil =>
    cases back with
    | nil => rfl
    | cons c back =>
      have first := blank c (by simp)
      have rest : tokensFrom (fun c => !Text.isSpace c) [] back = [] :=
        tokens_eq_nil.mpr fun c mem => by simp [blank c (by simp [mem])]
      rw [List.nil_append, tokensFrom_cons_blank (by simp [first]), rest, List.append_nil,
        tokensFrom]
  | cons c l ih =>
    rw [List.cons_append]
    cases space : Text.isSpace c with
    | true =>
      rw [tokensFrom_cons_blank (by simp [space]), tokensFrom_cons_blank (by simp [space]), ih]
    | false =>
      rw [tokensFrom_cons_token (by simp [space]), tokensFrom_cons_token (by simp [space]), ih]

/-- Tidying a text keeps its words. -/
theorem tokens_tidy (l : List Char) :
    tokens (fun c => !Text.isSpace c) (Text.tidy (String.ofList l)).toList =
      tokens (fun c => !Text.isSpace c) l := by
  let front := (Text.squeeze l).dropWhile Text.isSpace
  have blank : ∀ c ∈ front.rtakeWhile Text.isSpace, Text.isSpace c = true :=
    fun c mem => List.mem_rtakeWhile_imp mem
  have whole := tokensFrom_append_blanks blank [] (front.rdropWhile Text.isSpace)
  rw [List.rdropWhile_append_rtakeWhile] at whole
  rw [toList_tidy]
  exact whole.symm.trans ((tokens_dropWhile _).trans (tokens_squeeze [] l))

/-- The words of what is left of a reason are its words, each folded. -/
theorem tokens_fullReason : tokens (fun c => !Text.isSpace c) (fullReason R win reason) =
    (wordsOf R win reason).map (folded 'H' 'N') := by
  have space {p : Char → Bool} (other : ∀ c, Text.isSpace c = true → p c = false) :
      ∀ c, p c = true → Text.isSpace c = false := by
    intro c inside
    cases blank : Text.isSpace c with
    | false => rfl
    | true => rw [other c blank] at inside; cases inside
  have plain {least : ℕ} {mark : Char} (solid : Text.isSpace mark = false) :
      ∀ run : List Char, (∀ c ∈ run, Text.isSpace c = false) →
        ∀ c ∈ cut least mark run, Text.isSpace c = false := by
    intro run clear c mem
    obtain mem | rfl := mem_cut mem
    · exact clear c mem
    · exact solid
  have hex := tokens_eachRun (cut_eq_nil (by decide : 0 < 8) 'H')
    (space fun _ => isHex_of_isSpace) (plain (by decide)) (withoutPaths R win reason)
  have digits := tokens_eachRun (cut_eq_nil (by decide : 0 < 1) 'N')
    (space fun _ => isDigit_of_isSpace) (plain (by decide))
    (eachRun isHex (cut 8 'H') [] (withoutPaths R win reason))
  rw [fullReason, tokens_tidy, folded, digits, hex, List.map_map, wordsOf]
  rfl

/-- A text, and what it is folded to. -/
inductive Folds : List Char → List Char → Prop
  | nil : Folds [] []
  | char {s t : List Char} {c : Char} (plain : c ≠ 'H' ∧ c ≠ 'N') (rest : Folds s t) :
      Folds (c :: s) (c :: t)
  | number {d s t : List Char} (digits : ∀ c ∈ d, c.isDigit = true) (filled : 1 ≤ d.length)
      (rest : Folds s t) : Folds (d ++ s) ('N' :: t)
  | identifier {d s t : List Char} (hex : ∀ c ∈ d, isHex c = true) (long : 8 ≤ d.length)
      (rest : Folds s t) : Folds (d ++ s) ('H' :: t)

theorem folds_of_replaces {s m t : List Char} (numbers : Replaces Char.isDigit 1 'N' m t)
    (identifiers : Replaces isHex 8 'H' s m) (plain : 'H' ∉ s ∧ 'N' ∉ s) : Folds s t := by
  induction numbers generalizing s with
  | nil =>
    cases identifiers
    exact .nil
  | keep c rest ih =>
    cases identifiers with
    | keep _ below =>
      simp only [List.mem_cons, not_or] at plain
      exact .char ⟨Ne.symm plain.1.1, Ne.symm plain.2.1⟩ (ih below ⟨plain.1.2, plain.2.2⟩)
    | replace hex long below =>
      simp only [List.mem_append, not_or] at plain
      exact .identifier hex long (ih below ⟨plain.1.2, plain.2.2⟩)
  | @replace run m t digits filled rest ih =>
    have foreign : 'H' ∉ run := fun mem => by
      have := digits _ mem
      cases this
    obtain ⟨s, rfl, below⟩ := identifiers.split foreign
    simp only [List.mem_append, not_or] at plain
    exact .number digits filled (ih below ⟨plain.1.2, plain.2.2⟩)

theorem folds_folded {s : List Char} (plain : 'H' ∉ s ∧ 'N' ∉ s) :
    Folds s (folded 'H' 'N' s) :=
  folds_of_replaces (replaces_eachRun _ _ _ _) (replaces_eachRun _ _ _ _) plain

/-- Texts that are folded to one differ in values only. -/
theorem Folds.alike {u v t t' : List Char} (folds : Folds u t) (folds' : Folds v t')
    (same : t = t') : Alike u v := by
  induction folds generalizing v t' with
  | nil =>
    cases folds' with
    | nil => exact .nil
    | char => cases same
    | number => cases same
    | identifier => cases same
  | char plain rest ih =>
    cases folds' with
    | nil => cases same
    | char plain' rest' =>
      obtain ⟨rfl, tails⟩ := List.cons.inj same
      exact .same _ (ih rest' tails)
    | number => exact absurd (List.cons.inj same).1 plain.2
    | identifier => exact absurd (List.cons.inj same).1 plain.1
  | number digits filled rest ih =>
    cases folds' with
    | nil => cases same
    | char plain' => exact absurd (List.cons.inj same).1.symm plain'.2
    | number digits' filled' rest' =>
      exact .numbers digits digits' filled filled' (ih rest' (List.cons.inj same).2)
    | identifier => exact absurd (List.cons.inj same).1 (by decide)
  | identifier hex long rest ih =>
    cases folds' with
    | nil => cases same
    | char plain' => exact absurd (List.cons.inj same).1.symm plain'.1
    | number => exact absurd (List.cons.inj same).1 (by decide)
    | identifier hex' long' rest' =>
      exact .identifiers hex hex' long long' (ih rest' (List.cons.inj same).2)

theorem forall₂_alike {us vs : List (List Char)} (plain : ∀ u ∈ us, 'H' ∉ u ∧ 'N' ∉ u)
    (plain' : ∀ v ∈ vs, 'H' ∉ v ∧ 'N' ∉ v)
    (same : us.map (folded 'H' 'N') = vs.map (folded 'H' 'N')) : List.Forall₂ Alike us vs := by
  induction us generalizing vs with
  | nil =>
    obtain rfl : vs = [] := List.map_eq_nil_iff.mp same.symm
    exact .nil
  | cons u us ih =>
    cases vs with
    | nil => cases same
    | cons v vs =>
      obtain ⟨first, rest⟩ := List.cons.inj same
      rw [List.forall_mem_cons] at plain plain'
      exact .cons ((folds_folded plain.1).alike (folds_folded plain'.1) first)
        (ih plain.2 plain'.2 rest)

/-- What becomes of a run of hexadecimal digits. -/
theorem foldedRun_eq_iff {a b : List Char} (all : ∀ c ∈ a, isHex c = true)
    (all' : ∀ c ∈ b, isHex c = true) :
    eachRun Char.isDigit (cut 1 'N') [] (cut 8 'H' a) =
      eachRun Char.isDigit (cut 1 'N') [] (cut 8 'H' b) ↔ OneKind a b := by
  have mark : eachRun Char.isDigit (cut 1 'N') [] ['H'] = ['H'] := by decide
  have unmarked : ∀ {run : List Char}, (∀ c ∈ run, isHex c = true) →
      eachRun Char.isDigit (cut 1 'N') [] run ≠ ['H'] := by
    intro run all same
    have there : 'H' ∈ eachRun Char.isDigit (cut 1 'N') [] run := by rw [same]; simp
    obtain mem | mem | is := mem_eachRun (fun _ _ => mem_cut) there
    · cases mem
    · exact absurd (all _ mem) (by decide)
    · cases is
  unfold OneKind
  rw [cut, cut]
  by_cases short : a.length < 8
  · by_cases short' : b.length < 8
    · rw [if_pos short, if_pos short']
      have other : ∀ {run : List Char}, (∀ c ∈ run, isHex c = true) → ∀ c ∈ run,
          c.isDigit = false → ¬ (c.isDigit = true ∨ c = 'N') := by
        rintro run all c mem outside (inside | rfl)
        · rw [outside] at inside
          cases inside
        · exact absurd (all _ mem) (by decide)
      have read := eachRun_eq_iff (p := Char.isDigit) (f := cut 1 'N')
        (P := fun c => c.isDigit = true ∨ c = 'N')
        (fun run digits c mem => (mem_cut mem).imp (digits c) id) (other all) (other all')
      rw [read]
      have same : ∀ d e : List Char, cut 1 'N' d = cut 1 'N' e ↔ (d = [] ↔ e = []) := by
        intro d e
        cases d <;> cases e <;> simp [cut]
      rw [RunsAlike.congr fun d e _ _ => same d e]
      simp [short, short', Nat.not_le.mpr short]
    · rw [if_pos short, if_neg short', mark]
      simp [unmarked all, short, short', Nat.not_le.mpr short]
  · by_cases short' : b.length < 8
    · rw [if_neg short, if_pos short', mark]
      simp [(unmarked all').symm, short, short', Nat.not_le.mpr short']
    · simp [short, short', Nat.not_lt.mp short, Nat.not_lt.mp short']

/-- Two words are folded to one exactly where their values are of one kind each. -/
theorem folded_eq_iff {u v : List Char} (plain : 'H' ∉ u ∧ 'N' ∉ u) (plain' : 'H' ∉ v ∧ 'N' ∉ v) :
    folded 'H' 'N' u = folded 'H' 'N' v ↔ RunsAlike isHex OneKind u v := by
  have narrower : ∀ c, isHex c = false → c.isDigit = false := by
    intro c outside
    rw [isHex, Bool.or_eq_false_iff] at outside
    exact outside.1
  have other : ∀ {w : List Char}, 'H' ∉ w ∧ 'N' ∉ w → ∀ c ∈ w, isHex c = false →
      ¬ (isHex c = true ∨ c = 'H' ∨ c = 'N') := by
    rintro w plain c mem outside (inside | rfl | rfl)
    · rw [outside] at inside
      cases inside
    · exact plain.1 mem
    · exact plain.2 mem
  rw [folded, folded, eachRun_eachRun narrower, eachRun_eachRun narrower,
    eachRun_eq_iff (P := fun c => isHex c = true ∨ c = 'H' ∨ c = 'N') ?_ (other plain) (other plain'),
    RunsAlike.congr fun a b all all' => foldedRun_eq_iff all all']
  intro run all c mem
  obtain mem | mem | rfl := mem_eachRun (fun _ _ => mem_cut) mem
  · cases mem
  · exact (mem_cut mem).imp (all c) .inl
  · exact .inr (.inr rfl)

theorem map_folded_eq_iff {us vs : List (List Char)} (plain : ∀ u ∈ us, 'H' ∉ u ∧ 'N' ∉ u)
    (plain' : ∀ v ∈ vs, 'H' ∉ v ∧ 'N' ∉ v) :
    us.map (folded 'H' 'N') = vs.map (folded 'H' 'N') ↔
      List.Forall₂ (RunsAlike isHex OneKind) us vs := by
  induction us generalizing vs with
  | nil => cases vs <;> simp
  | cons u us ih =>
    cases vs with
    | nil => simp
    | cons v vs =>
      rw [List.forall_mem_cons] at plain plain'
      rw [List.map_cons, List.map_cons, List.cons.injEq, folded_eq_iff plain.1 plain'.1,
        ih plain.2 plain'.2, List.forall₂_cons]

theorem words_plain (r : String) : ∀ w ∈ wordsOf R win r, 'H' ∉ w ∧ 'N' ∉ w := by
  intro w mem
  have inside (c : Char) (there : c ∈ w) : c.isUpper = false :=
    withoutPaths_small c ((mem_tokens mem).2 c there).2
  refine ⟨fun there => ?_, fun there => ?_⟩
  · have := inside _ there
    cases this
  · have := inside _ there
    cases this

/-- Two reasons are folded to one text exactly where they say the same but for values, each of them
of one kind in both. -/
theorem fullReason_eq_iff {f g : Failure} : fullReason R win f.reason = fullReason R win g.reason ↔
    SameKinds R win f g := by
  rw [SameKinds, ← map_folded_eq_iff (words_plain _) (words_plain _), ← tokens_fullReason,
    ← tokens_fullReason]
  constructor
  · intro same
    rw [same]
  · intro same
    have texts := congrArg (List.intercalate [' ']) same
    rw [fullReason, fullReason, intercalate_tokens_tidy, intercalate_tokens_tidy] at texts
    exact texts

/-- Reasons that are folded to one text differ in the values of their words only. -/
theorem words_alike (same : fullReason R win reason = fullReason R win reason') :
    List.Forall₂ Alike (wordsOf R win reason) (wordsOf R win reason') := by
  refine forall₂_alike (words_plain _) (words_plain _) ?_
  rw [← tokens_fullReason, ← tokens_fullReason, same]

/-- A text that fits is not one that was cut. -/
theorem fits_ne_cut {x : List Char} (below : Below isHex 8 0 x) (head rest : List Char) :
    x ≠ head ++ '~' :: (R.sha256 (String.ofList rest)).take 8 := by
  rintro rfl
  obtain ⟨length, hex⟩ := R.digits (String.ofList rest)
  have eight : ((R.sha256 (String.ofList rest)).take 8).length = 8 := by
    rw [List.length_take, length]
    rfl
  rw [← List.singleton_append, ← List.append_assoc] at below
  have short := below.length_lt (fun c mem =>
    List.all_eq_true.mp hex c (List.mem_of_mem_take mem)) (by
    rw [← List.length_pos_iff, eight]
    decide)
  omega

theorem capped_injective {x y : List Char} (below : Below isHex 8 0 x)
    (below' : Below isHex 8 0 y)
    (rest : (R.sha256 (String.ofList (x.drop 151))).take 8 =
      (R.sha256 (String.ofList (y.drop 151))).take 8 → x.drop 151 = y.drop 151)
    (same : capped R x = capped R y) : x = y := by
  unfold capped at same
  split at same
  · split at same
    · exact same
    · exact absurd same (fits_ne_cut below _ _)
  · split at same
    · exact absurd same.symm (fits_ne_cut below' _ _)
    · have lengths : (x.take 151).length = (y.take 151).length := by
        simp only [List.length_take]
        omega
      obtain ⟨heads, tails⟩ := List.append_inj same lengths
      rw [← List.take_append_drop 151 x, ← List.take_append_drop 151 y, heads,
        rest (List.cons.inj tails).2]

end

theorem signatureOf_eq (R : ReasonTexts) (win : Bool) (others : FailureTexts) (f : Failure) :
    signatureOf R win others f = bareStage f.stage ++ "|" ++
      String.ofList ((R.sha256 (normalizeReason R win f.reason)).take 12) := by
  have none' : (([] : List String).dedup.mergeSort (· ≤ ·)) = [] := by
    show ([] : List String).mergeSort _ = []
    exact List.mergeSort_nil
  simp [signatureOf, failureSignature, failureTexts, none']

/-- A signature gives back the stage and the digest. -/
theorem signatureOf_eq_iff (R : ReasonTexts) (win : Bool) (others : FailureTexts) (f g : Failure) :
    signatureOf R win others f = signatureOf R win others g ↔
      bareStage f.stage = bareStage g.stage ∧
        (R.sha256 (normalizeReason R win f.reason)).take 12 =
          (R.sha256 (normalizeReason R win g.reason)).take 12 := by
  rw [signatureOf_eq, signatureOf_eq]
  constructor
  · intro same
    have letters := congrArg String.toList same
    simp only [String.toList_append, String.toList_ofList] at letters
    obtain ⟨stages, digests⟩ := List.append_inj' letters (by
      rw [List.length_take, List.length_take, (R.digits _).1, (R.digits _).1])
    exact ⟨String.toList_injective (List.append_cancel_right stages), digests⟩
  · rintro ⟨stages, digests⟩
    rw [stages, digests]

/-- The digest of a reason stands for what it is folded to. -/
theorem digest_eq_iff {R : ReasonTexts} {win : Bool} {f g : Failure}
    (apart : DigestsApart R win f g) :
    (R.sha256 (normalizeReason R win f.reason)).take 12 =
        (R.sha256 (normalizeReason R win g.reason)).take 12 ↔
      fullReason R win f.reason = fullReason R win g.reason := by
  constructor
  · intro same
    have texts := congrArg String.toList (apart.reason same)
    rw [normalizeReason, normalizeReason, String.toList_ofList, String.toList_ofList] at texts
    exact capped_injective below_fullReason below_fullReason apart.rest texts
  · intro same
    rw [normalizeReason, normalizeReason, same]

/-- Two failures of one stage are signed as one exactly where their reasons say the same but for
values, each of one kind in both. -/
theorem signed_as_one_iff {R : ReasonTexts} {win : Bool} {f g : Failure} (others : FailureTexts)
    (apart : DigestsApart R win f g) :
    signatureOf R win others f = signatureOf R win others g ↔
      bareStage f.stage = bareStage g.stage ∧ SameKinds R win f g := by
  rw [signatureOf_eq_iff, digest_eq_iff apart, fullReason_eq_iff]

theorem isUpper_toLower (c : Char) : c.toLower.isUpper = false := by
  rw [Bool.eq_false_iff]
  intro upper
  unfold Char.toLower at upper
  split at upper
  · rename_i range
    obtain ⟨low, high⟩ := range
    unfold Char.isUpper at upper
    simp only [UInt32.le_iff_toNat_le, decide_eq_true_eq, UInt32.toNat_add] at upper low high
    change 65 ≤ c.val.toNat at low
    change c.val.toNat ≤ 90 at high
    have raised : ('a'.val - 'A'.val).toNat = 32 := rfl
    have capital : (c.val.toNat + ('a'.val - 'A'.val).toNat) % 2 ^ 32 ≤ 90 := upper.2
    omega
  · rename_i range
    refine range ?_
    unfold Char.isUpper at upper
    simpa using upper

/-- ASCII texts, with the digests of those below. -/
def asciiTexts : ReasonTexts where
  lower s := String.ofList (s.toList.map Char.toLower)
  small s c mem := by
    rw [String.toList_ofList] at mem
    obtain ⟨d, -, rfl⟩ := List.mem_map.mp mem
    exact isUpper_toLower d
  sha256 s := Nat.toDigits 16 (
    if s = "timeout after N ms" then
      0xcb993dba6c00c035a69ec1418e450ca79f58670321a2bc5e33425eb8f5cbab2f
    else if s = "timeout after H ms" then
      0xfdfab12274f327cc1b3ab6d0d2ef313235919b49be22cbb81bb8429d12dc8c93
    else if s = "report.md" then
      0xa22350b28862150572f20bd8fc9de640d6fb5d9a0435c61423ad6d6ab8f96369
    else 0xe3b0c44298fc1c149afbf4c8996fb92427ae41e4649b934ca495991b7852b855)
  digits s := by
    repeat' split
    all_goals decide +kernel

/-- What a signature does not look at. -/
def noTexts : FailureTexts := ⟨fun _ => false, id, id, id, fun _ => none, id⟩

def timeoutAfter (ms : String) : Failure := ⟨"gather", "timeout after " ++ ms ++ " ms"⟩

def failedFile (kind : String) : Failure := ⟨"gather", kind ++ ":/tmp/run/report.md"⟩

/-- How a reason that is short enough is normalized, step by step. -/
theorem normalized {r : String} {l m : List Char} (words : withoutPaths asciiTexts false r = l)
    (tidied : ((Text.squeeze (folded 'H' 'N' l)).dropWhile Text.isSpace).rdropWhile
      Text.isSpace = m) (short : m.length ≤ 160) : fullReason asciiTexts false r = m ∧
      normalizeReason asciiTexts false r = String.ofList m := by
  have full : fullReason asciiTexts false r = m := by rw [fullReason, toList_tidy, words, tidied]
  refine ⟨full, ?_⟩
  rw [normalizeReason, full, capped, if_pos short]

theorem normalized_seven : fullReason asciiTexts false (timeoutAfter "1234567").reason =
      "timeout after N ms".toList ∧
    normalizeReason asciiTexts false (timeoutAfter "1234567").reason =
      String.ofList "timeout after N ms".toList :=
  normalized (by decide +kernel : _ = "timeout after 1234567 ms".toList) (by decide +kernel)
    (by decide +kernel)

theorem normalized_other_seven : fullReason asciiTexts false (timeoutAfter "7654321").reason =
      "timeout after N ms".toList ∧
    normalizeReason asciiTexts false (timeoutAfter "7654321").reason =
      String.ofList "timeout after N ms".toList :=
  normalized (by decide +kernel : _ = "timeout after 7654321 ms".toList) (by decide +kernel)
    (by decide +kernel)

theorem Alike.refl (s : List Char) : Alike s s := by
  induction s with
  | nil => exact .nil
  | cons c s ih => exact .same c ih

/-- A letter that belongs to no value stays where it is. -/
theorem Alike.head {s t : List Char} {c : Char} (alike : Alike s t) (first : s.head? = some c)
    (plain : isHex c = false) : t.head? = some c := by
  have inside {d s : List Char} (hex : ∀ c ∈ d, isHex c = true) (filled : 1 ≤ d.length)
      (first : (d ++ s).head? = some c) : False := by
    cases d with
    | nil => simp at filled
    | cons e d =>
      obtain rfl : e = c := by simpa using first
      rw [hex e (by simp)] at plain
      cases plain
  cases alike with
  | nil => exact first
  | same d rest => exact first
  | numbers digits _ filled =>
    exact (inside (fun c mem => by simp [isHex, digits c mem]) filled first).elim
  | identifiers hex _ long => exact (inside hex (by omega) first).elim

end Clearotron.Signatures
