import Clearotron.Recall.Cases
import Clearotron.Shared.EnvFile

/-!
# The engine's words

A sentence for a client holds no identifier of the engine, which is a word with an underscore
inside, and none of the engine's names for its own steps. Text is looked at piece by piece: a letter
that no such word is spelled with parts it, and what it carries one of the parts carries.
-/

namespace Clearotron.EngineWords

open Text (isWord isSpace standsAlone)
open EnvFile (isSpace_of_isWord)

/-- `ENGINE_TOKEN_RE`: an underscore between two letters of a word. -/
def hasEngineToken : List Char → Bool
  | a :: b :: c :: rest => (isWord a && b == '_' && isWord c) || hasEngineToken (b :: c :: rest)
  | _ => false

/-- `ENGINE_PHRASE_RE`, in small letters. -/
def enginePhrases : List (List Char) :=
  ["frame-diff".toList, "frame diff".toList, "blind frame".toList, "reopen pass".toList,
   "re-open pass".toList, "reopening pass".toList, "re-opening pass".toList,
   "frame-reopen".toList, "frame reopen".toList]

def carriesEngineWords (l : List Char) : Bool :=
  hasEngineToken l || enginePhrases.any fun p => standsAlone p none (l.map Char.toLower)

variable {a b l x y w u : List Char} {c d : Char} {before : Option Char}

/-- What is checked of each letter of a text holds of each. -/
theorem each_of_all {p : Char → Prop} [DecidablePred p]
    (all : l.all (fun c => decide (p c)) = true) : ∀ c ∈ l, p c := fun c mem =>
  of_decide_eq_true (List.all_eq_true.mp all c mem)

/-- No letter of a word stands at the end. -/
def OpenEnd (l : List Char) : Prop := ∀ c, l.getLast? = some c → isWord c = false

def OpenStart (l : List Char) : Prop := ∀ c, l.head? = some c → isWord c = false

theorem openEnd_concat : OpenEnd (l ++ [c]) ↔ isWord c = false := by simp [OpenEnd]

theorem openStart_cons : OpenStart (c :: l) ↔ isWord c = false := by simp [OpenStart]

theorem openEnd_nil : OpenEnd [] := by simp [OpenEnd]

theorem length_of_token (is : l = x ++ c :: '_' :: d :: y) : 3 ≤ l.length := by
  simp only [is, List.length_append, List.length_cons]
  omega

theorem hasEngineToken_iff : hasEngineToken l = true ↔
    ∃ x c d y, l = x ++ c :: '_' :: d :: y ∧ isWord c = true ∧ isWord d = true := by
  induction l with
  | nil => simp [hasEngineToken]
  | cons a l ih =>
    rcases l with _ | ⟨b, _ | ⟨c, rest⟩⟩
    · refine iff_of_false (by simp [hasEngineToken]) ?_
      rintro ⟨x, c, d, y, is, -⟩
      exact absurd (length_of_token is) (by simp)
    · refine iff_of_false (by simp [hasEngineToken]) ?_
      rintro ⟨x, c, d, y, is, -⟩
      exact absurd (length_of_token is) (by simp)
    · rw [hasEngineToken, Bool.or_eq_true, ih]
      constructor
      · rintro (here | ⟨x, d, e, y, is, left, right⟩)
        · simp only [Bool.and_eq_true, beq_iff_eq] at here
          obtain ⟨⟨left, rfl⟩, right⟩ := here
          exact ⟨[], a, c, rest, rfl, left, right⟩
        · exact ⟨a :: x, d, e, y, by rw [is]; rfl, left, right⟩
      · rintro ⟨_ | ⟨a', x⟩, d, e, y, is, left, right⟩
        · simp only [List.nil_append, List.cons.injEq] at is
          obtain ⟨rfl, rfl, rfl, rfl⟩ := is
          exact .inl (by simp [left, right])
        · rw [List.cons_append, List.cons.injEq] at is
          exact .inr ⟨x, d, e, y, is.2, left, right⟩

/-- Does the phrase start nowhere in the text? -/
def startsNowhere (p : List Char) : List Char → Bool
  | [] => true
  | c :: rest => !p.isPrefixOf (c :: rest) && startsNowhere p rest

theorem standsAlone_of_startsNowhere {p : List Char} (nowhere : startsNowhere p l = true)
    (before : Option Char) : standsAlone p before l = false := by
  induction l generalizing before with
  | nil => rfl
  | cons c rest ih =>
    rw [startsNowhere, Bool.and_eq_true, Bool.not_eq_true'] at nowhere
    rw [standsAlone, nowhere.1, ih nowhere.2]
    simp

theorem startsNowhere_of_start {s p : List Char} (start : s <+: p)
    (nowhere : startsNowhere s l = true) : startsNowhere p l = true := by
  induction l with
  | nil => rfl
  | cons c rest ih =>
    rw [startsNowhere, Bool.and_eq_true, Bool.not_eq_true'] at nowhere ⊢
    refine ⟨?_, ih nowhere.2⟩
    rw [← Bool.not_eq_true, List.isPrefixOf_iff_prefix] at nowhere ⊢
    exact fun longer => nowhere.1 (start.trans longer)

/-- How the phrases start. -/
def phraseStarts : List (List Char) :=
  [['f', 'r', 'a', 'm', 'e'], ['b', 'l', 'i', 'n', 'd'], ['r', 'e', 'o', 'p'], ['r', 'e', '-', 'o']]

/-- A look through a text that finds no mark of a token and no start of a phrase. -/
def isPlainText (l : List Char) : Bool :=
  l.all (· != '_') && phraseStarts.all (startsNowhere · (l.map Char.toLower))

theorem plain_of_isPlainText (plain : isPlainText l = true) : carriesEngineWords l = false := by
  rw [isPlainText, Bool.and_eq_true] at plain
  have token : hasEngineToken l = false := by
    rw [Bool.eq_false_iff]
    intro token
    obtain ⟨x, c, d, y, rfl, -, -⟩ := hasEngineToken_iff.mp token
    simpa using List.all_eq_true.1 plain.1 '_' (by simp)
  have each : ∀ p ∈ enginePhrases, ∃ s ∈ phraseStarts, s <+: p := by decide
  rw [carriesEngineWords, token, Bool.false_or, List.any_eq_false]
  intro p mem
  obtain ⟨s, own, start⟩ := each p mem
  rw [Bool.not_eq_true]
  exact standsAlone_of_startsNowhere
    (startsNowhere_of_start start (List.all_eq_true.1 plain.2 s own)) none

/-- A token is seen where it stands. -/
theorem carries_of_token (k : ℕ) (here : hasEngineToken ((l.drop k).take 3) = true) :
    carriesEngineWords l = true := by
  obtain ⟨x, c, d, y, is, letter, letter'⟩ := hasEngineToken_iff.mp here
  have whole : l = (l.take k ++ x) ++ c :: '_' :: d :: (y ++ (l.drop k).drop 3) := by
    have parts : l = l.take k ++ ((l.drop k).take 3 ++ (l.drop k).drop 3) := by simp
    rw [is] at parts
    simpa using parts
  rw [carriesEngineWords, hasEngineToken_iff.mpr ⟨_, c, d, _, whole, letter, letter'⟩,
    Bool.true_or]

theorem standsAlone_iff (filled : w ≠ []) : standsAlone w before l = true ↔
    ∃ x y, l = x ++ (w ++ y) ∧ (x = [] → ∀ c, before = some c → isWord c = false) ∧
      OpenEnd x ∧ OpenStart y := by
  induction l generalizing before with
  | nil => simp [standsAlone, filled]
  | cons c l ih =>
    rw [standsAlone, Bool.or_eq_true, ih]
    constructor
    · rintro (here | ⟨x, y, is, first, front, back⟩)
      · simp only [Bool.and_eq_true, Bool.not_eq_true', List.isPrefixOf_iff_prefix] at here
        obtain ⟨⟨outside, y, is⟩, back⟩ := here
        rw [← is, List.drop_left] at back
        refine ⟨[], y, is.symm, fun _ d same => ?_, openEnd_nil, fun d same => ?_⟩
        · simpa [same] using outside
        · simpa [same] using back
      · refine ⟨c :: x, y, by rw [is]; rfl, fun none' => absurd none' (List.cons_ne_nil _ _), ?_,
          back⟩
        intro d last
        rcases List.eq_nil_or_concat x with rfl | ⟨x', e, rfl⟩
        · rw [List.getLast?_singleton, Option.some_inj] at last
          exact last ▸ first rfl c rfl
        · exact front d (by simpa [List.getLast?_cons] using last)
    · rintro ⟨_ | ⟨c', x⟩, y, is, first, front, back⟩
      · refine .inl ?_
        simp only [Bool.and_eq_true, Bool.not_eq_true', List.isPrefixOf_iff_prefix]
        rw [List.nil_append] at is
        rw [is, List.drop_left]
        refine ⟨⟨?_, List.prefix_append _ _⟩, ?_⟩
        · cases before with
          | none => rfl
          | some d => exact first rfl d rfl
        · cases y with
          | nil => rfl
          | cons d y => exact back d rfl
      · rw [List.cons_append, List.cons.injEq] at is
        obtain ⟨rfl, is⟩ := is
        refine .inr ⟨x, y, is, fun none' d same => ?_, fun d last => ?_, back⟩
        · subst none'
          exact front d (by simpa using same)
        · refine front d ?_
          cases x with
          | nil => cases last
          | cons e x => simpa using last

/-- A word that stands in `x ++ c :: y` stands on one side, or holds this `c`. -/
theorem parts_of_append (is : a ++ (w ++ b) = x ++ c :: y) :
    (∃ b', x = a ++ (w ++ b') ∧ b = b' ++ c :: y) ∨ (∃ a', a = x ++ c :: a' ∧ y = a' ++ (w ++ b)) ∨
      ∃ w' w'', w = w' ++ c :: w'' ∧ x = a ++ w' ∧ y = w'' ++ b := by
  obtain ⟨front, rfl, behind⟩ | ⟨front, rfl, behind⟩ := List.append_eq_append_iff.mp is
  · obtain ⟨back, rfl, after⟩ | ⟨back, rfl, after⟩ := List.append_eq_append_iff.mp behind
    · exact .inl ⟨back, rfl, after⟩
    · cases back with
      | nil => exact .inl ⟨[], by simp, after.symm⟩
      | cons d back =>
        obtain ⟨rfl, rest⟩ := List.cons.inj after
        exact .inr (.inr ⟨front, back, rfl, rfl, rest⟩)
  · cases front with
    | nil =>
      cases w with
      | nil => exact .inl ⟨[], by simp, behind.symm⟩
      | cons d w =>
        obtain ⟨rfl, after⟩ := List.cons.inj behind
        exact .inr (.inr ⟨[], w, rfl, by simp, after⟩)
    | cons d front =>
      obtain ⟨rfl, after⟩ := List.cons.inj behind
      exact .inr (.inl ⟨front, rfl, after⟩)

/-- A letter that parts a text: no phrase is spelled with it, and it stands by no underscore where
it is one of a word. -/
structure Parts (x : List Char) (c : Char) (y : List Char) : Prop where
  phrases : c.toLower ∉ enginePhrases.flatten
  front : isWord c = true → x.getLast? ≠ some '_'
  back : isWord c = true → y.head? ≠ some '_'

theorem token_of_parts (parts : Parts x c y) (underscore : c ≠ '_')
    (carries : hasEngineToken (x ++ c :: y) = true) :
    hasEngineToken x = true ∨ hasEngineToken y = true := by
  obtain ⟨p, a, b, q, is, left, right⟩ := hasEngineToken_iff.mp carries
  have is' : p ++ ([a, '_', b] ++ q) = x ++ c :: y := is.symm
  obtain ⟨b', rfl, -⟩ | ⟨a', -, rfl⟩ | ⟨w', w'', split, rfl, rfl⟩ := parts_of_append is'
  · exact .inl (hasEngineToken_iff.mpr ⟨p, a, b, b', rfl, left, right⟩)
  · exact .inr (hasEngineToken_iff.mpr ⟨a', a, b, q, rfl, left, right⟩)
  · rcases w' with _ | ⟨a', _ | ⟨u, _ | ⟨b', w'⟩⟩⟩
    · obtain ⟨rfl, rfl⟩ := List.cons.inj split
      exact absurd rfl (parts.back left)
    · obtain ⟨-, split⟩ := List.cons.inj split
      exact absurd (List.cons.inj split).1.symm underscore
    · simp only [List.cons_append, List.nil_append, List.cons.injEq] at split
      obtain ⟨rfl, rfl, rfl, -⟩ := split
      exact absurd (by simp) (parts.front right)
    · have length := congrArg List.length split
      simp at length

theorem filled_of_mem (mem : w ∈ enginePhrases) : w ≠ [] := by
  rintro rfl
  revert mem
  decide

theorem phrase_of_parts (parts : Parts x c y) (mem : w ∈ enginePhrases)
    (carries : standsAlone w none ((x ++ c :: y).map Char.toLower) = true) :
    standsAlone w none (x.map Char.toLower) = true ∨
      standsAlone w none (y.map Char.toLower) = true := by
  have filled := filled_of_mem mem
  have absent : c.toLower ∉ w := fun inside =>
    parts.phrases (List.mem_flatten.mpr ⟨w, mem, inside⟩)
  rw [standsAlone_iff filled, standsAlone_iff filled]
  obtain ⟨a, b, is, -, front, back⟩ := (standsAlone_iff filled).mp carries
  rw [List.map_append, List.map_cons] at is
  obtain ⟨b', left, rfl⟩ | ⟨a', rfl, right⟩ | ⟨w', w'', rfl, -, -⟩ := parts_of_append is.symm
  · refine .inl ⟨a, b', left, by simp, front, fun d same => back d ?_⟩
    rw [List.head?_append, same, Option.some_or]
  · refine .inr ⟨a', b, right, by simp, fun d same => front d ?_, back⟩
    rw [List.getLast?_append, List.getLast?_cons, same]
    rfl
  · exact absurd (List.mem_append_right _ List.mem_cons_self) absent

/-- What a text carries, one of its parts carries. -/
theorem carries_of_parts (parts : Parts x c y) (underscore : c ≠ '_')
    (carries : carriesEngineWords (x ++ c :: y) = true) :
    carriesEngineWords x = true ∨ carriesEngineWords y = true := by
  simp only [carriesEngineWords, Bool.or_eq_true, List.any_eq_true] at carries ⊢
  obtain token | ⟨w, mem, phrase⟩ := carries
  · exact (token_of_parts parts underscore token).imp .inl .inl
  · exact (phrase_of_parts parts mem phrase).imp (fun h => .inr ⟨w, mem, h⟩)
      fun h => .inr ⟨w, mem, h⟩

theorem OpenStart.append (start : OpenStart y) (open' : OpenStart l) : OpenStart (y ++ l) := by
  cases y with
  | nil => exact open'
  | cons c y => exact start

theorem OpenEnd.append (last : OpenEnd x) (open' : OpenEnd l) : OpenEnd (l ++ x) := by
  rcases List.eq_nil_or_concat x with rfl | ⟨x', c, rfl⟩
  · rwa [List.append_nil]
  · rw [List.concat_eq_append, ← List.append_assoc]
    rw [List.concat_eq_append] at last
    exact openEnd_concat.mpr (openEnd_concat.mp last)

theorem isLower_iff {c : Char} : c.isLower = true ↔ 97 ≤ c.toNat ∧ c.toNat ≤ 122 := by
  unfold Char.isLower
  rw [Bool.and_eq_true, decide_eq_true_eq, decide_eq_true_eq, ge_iff_le, UInt32.le_iff_toNat_le,
    UInt32.le_iff_toNat_le]
  rfl

theorem isWord_toLower (c : Char) : isWord c.toLower = isWord c := by
  by_cases upper : c.isUpper = true
  · have small : c.toLower.isLower = true := by
      have range := isUpper_iff.mp upper
      rw [isLower_iff, toNat_toLower upper]
      omega
    simp [isWord, Char.isAlphanum, Char.isAlpha, upper, small]
  · rw [toLower_of_not_upper upper]

theorem openStart_map_toLower : OpenStart (l.map Char.toLower) ↔ OpenStart l := by
  cases l with
  | nil => simp [OpenStart]
  | cons c l => rw [List.map_cons, openStart_cons, openStart_cons, isWord_toLower]

theorem openEnd_map_toLower : OpenEnd (l.map Char.toLower) ↔ OpenEnd l := by
  rcases List.eq_nil_or_concat l with rfl | ⟨l', c, rfl⟩
  · simp [OpenEnd]
  · rw [List.concat_eq_append, List.map_append, List.map_singleton, openEnd_concat,
      openEnd_concat, isWord_toLower]

/-- What the front of a text carries, the text carries, where no word goes on behind it. -/
theorem carries_append_left (start : OpenStart y) (carries : carriesEngineWords x = true) :
    carriesEngineWords (x ++ y) = true := by
  simp only [carriesEngineWords, Bool.or_eq_true, List.any_eq_true] at carries ⊢
  obtain token | ⟨w, mem, phrase⟩ := carries
  · obtain ⟨p, a, b, q, rfl, left, right⟩ := hasEngineToken_iff.mp token
    exact .inl (hasEngineToken_iff.mpr ⟨p, a, b, q ++ y, by simp, left, right⟩)
  · have filled := filled_of_mem mem
    obtain ⟨a, b, is, -, front, back⟩ := (standsAlone_iff filled).mp phrase
    refine .inr ⟨w, mem, (standsAlone_iff filled).mpr
      ⟨a, b ++ y.map Char.toLower, by simp [is], by simp, front, ?_⟩⟩
    exact back.append (openStart_map_toLower.mpr start)

theorem carries_append_right (last : OpenEnd x) (carries : carriesEngineWords y = true) :
    carriesEngineWords (x ++ y) = true := by
  simp only [carriesEngineWords, Bool.or_eq_true, List.any_eq_true] at carries ⊢
  obtain token | ⟨w, mem, phrase⟩ := carries
  · obtain ⟨p, a, b, q, rfl, left, right⟩ := hasEngineToken_iff.mp token
    exact .inl (hasEngineToken_iff.mpr ⟨x ++ p, a, b, q, by simp, left, right⟩)
  · have filled := filled_of_mem mem
    obtain ⟨a, b, is, -, front, back⟩ := (standsAlone_iff filled).mp phrase
    refine .inr ⟨w, mem, (standsAlone_iff filled).mpr
      ⟨x.map Char.toLower ++ a, b, by simp [is], by simp, ?_, back⟩⟩
    exact front.append (openEnd_map_toLower.mpr last)

theorem phrase_ends (mem : w ∈ enginePhrases) :
    (∀ c, w.head? = some c → isSpace c = false) ∧
      ∀ c, w.getLast? = some c → isSpace c = false := by
  have ends : enginePhrases.all
      (fun w => !w.head?.any isSpace && !w.getLast?.any isSpace) = true := by decide
  have own := List.all_eq_true.mp ends w mem
  simp only [Bool.and_eq_true, Bool.not_eq_true'] at own
  exact ⟨fun c is => by simpa [is] using own.1, fun c is => by simpa [is] using own.2⟩

theorem isWord_of_isSpace (blank : isSpace c = true) : isWord c = false := by
  rw [Bool.eq_false_iff]
  intro word
  rw [isSpace_of_isWord word] at blank
  cases blank

theorem isSpace_of_toLower (c : Char) : isSpace c.toLower = isSpace c :=
  congrFun isSpace_toLower c

/-- A blank at the end carries nothing. -/
theorem carries_of_concat_blank (blank : isSpace c = true)
    (carries : carriesEngineWords (x ++ [c]) = true) : carriesEngineWords x = true := by
  simp only [carriesEngineWords, Bool.or_eq_true, List.any_eq_true] at carries ⊢
  obtain token | ⟨w, mem, phrase⟩ := carries
  · obtain ⟨p, a, b, q, is, left, right⟩ := hasEngineToken_iff.mp token
    have is' : p ++ ([a, '_', b] ++ q) = x ++ c :: [] := is.symm
    obtain ⟨b', rfl, -⟩ | ⟨a', -, none'⟩ | ⟨w', w'', split, rfl, none'⟩ := parts_of_append is'
    · exact .inl (hasEngineToken_iff.mpr ⟨p, a, b, b', rfl, left, right⟩)
    · simp at none'
    · obtain ⟨rfl, rfl⟩ := List.append_eq_nil_iff.mp none'.symm
      have last := congrArg List.getLast? split
      simp only [List.getLast?_concat] at last
      obtain rfl : b = c := by simpa using last
      rw [isWord_of_isSpace blank] at right
      cases right
  · have filled := filled_of_mem mem
    obtain ⟨a, b, is, -, front, back⟩ := (standsAlone_iff filled).mp phrase
    rw [List.map_append, List.map_singleton] at is
    refine .inr ⟨w, mem, (standsAlone_iff filled).mpr ?_⟩
    obtain ⟨b', left, rfl⟩ | ⟨a', -, none'⟩ | ⟨w', w'', rfl, -, none'⟩ := parts_of_append is.symm
    · refine ⟨a, b', left, by simp, front, fun d same => back d ?_⟩
      rw [List.head?_append, same, Option.some_or]
    · exact absurd (List.append_eq_nil_iff.mp (List.append_eq_nil_iff.mp none'.symm).2).1 filled
    · obtain ⟨rfl, rfl⟩ := List.append_eq_nil_iff.mp none'.symm
      have solid := (phrase_ends mem).2 c.toLower (by simp)
      rw [isSpace_of_toLower, blank] at solid
      cases solid

theorem carries_of_cons_blank (blank : isSpace c = true)
    (carries : carriesEngineWords (c :: y) = true) : carriesEngineWords y = true := by
  simp only [carriesEngineWords, Bool.or_eq_true, List.any_eq_true] at carries ⊢
  obtain token | ⟨w, mem, phrase⟩ := carries
  · obtain ⟨_ | ⟨e, p⟩, a, b, q, is, left, right⟩ := hasEngineToken_iff.mp token
    · obtain ⟨rfl, -⟩ := List.cons.inj is
      rw [isWord_of_isSpace blank] at left
      cases left
    · exact .inl (hasEngineToken_iff.mpr ⟨p, a, b, q, (List.cons.inj is).2, left, right⟩)
  · have filled := filled_of_mem mem
    obtain ⟨_ | ⟨e, a⟩, b, is, -, front, back⟩ := (standsAlone_iff filled).mp phrase
    · obtain ⟨d, w', rfl⟩ := List.exists_cons_of_ne_nil filled
      obtain ⟨rfl, -⟩ := List.cons.inj is
      have solid := (phrase_ends mem).1 c.toLower rfl
      rw [isSpace_of_toLower, blank] at solid
      cases solid
    · refine .inr ⟨w, mem, (standsAlone_iff filled).mpr
        ⟨a, b, (List.cons.inj is).2, by simp, fun d last => front d ?_, back⟩⟩
      rw [List.getLast?_cons, last, Option.getD_some]

theorem openStart_of_blanks (blanks : ∀ c ∈ y, isSpace c = true) : OpenStart y := fun c same =>
  isWord_of_isSpace (blanks c (List.mem_of_mem_head? same))

theorem openEnd_of_blanks (blanks : ∀ c ∈ x, isSpace c = true) : OpenEnd x := fun c same =>
  isWord_of_isSpace (blanks c (List.mem_of_getLast? same))

theorem carries_append_blanks (blanks : ∀ c ∈ y, isSpace c = true) :
    carriesEngineWords (x ++ y) = carriesEngineWords x := by
  refine Bool.eq_iff_iff.mpr ⟨fun carries => ?_, carries_append_left (openStart_of_blanks blanks)⟩
  induction y using List.reverseRecOn with
  | nil => rwa [List.append_nil] at carries
  | append_singleton y c ih =>
    rw [← List.append_assoc] at carries
    exact ih (fun d mem => blanks d (List.mem_append_left _ mem))
      (carries_of_concat_blank (blanks c (by simp)) carries)

theorem carries_blanks_append (blanks : ∀ c ∈ x, isSpace c = true) :
    carriesEngineWords (x ++ y) = carriesEngineWords y := by
  refine Bool.eq_iff_iff.mpr ⟨fun carries => ?_, carries_append_right (openEnd_of_blanks blanks)⟩
  induction x with
  | nil => exact carries
  | cons c x ih =>
    exact ih (fun d mem => blanks d (List.mem_cons_of_mem _ mem))
      (carries_of_cons_blank (blanks c List.mem_cons_self) carries)

/-- What is dropped at the end of a text. -/
theorem dropped_at_end (p : Char → Bool) (l : List Char) :
    ∃ back, (l.reverse.dropWhile p).reverse ++ back = l ∧ ∀ c ∈ back, p c = true :=
  ⟨(l.reverse.takeWhile p).reverse, by
    rw [← List.reverse_append, List.takeWhile_append_dropWhile, List.reverse_reverse],
    fun c mem => List.mem_takeWhile_imp (List.mem_reverse.mp mem)⟩

/-- The blanks at the ends carry nothing. -/
theorem carries_trim (s : String) :
    carriesEngineWords (Text.trim s).toList = carriesEngineWords s.toList := by
  obtain ⟨back, whole, blanks⟩ := dropped_at_end isSpace (s.toList.dropWhile isSpace)
  calc carriesEngineWords (Text.trim s).toList
      = carriesEngineWords ((Text.trim s).toList ++ back) := (carries_append_blanks blanks).symm
    _ = carriesEngineWords (s.toList.dropWhile isSpace) := by
      rw [Text.trim, String.toList_ofList, whole]
    _ = carriesEngineWords (s.toList.takeWhile isSpace ++ s.toList.dropWhile isSpace) :=
      (carries_blanks_append fun _ mem => List.mem_takeWhile_imp mem).symm
    _ = carriesEngineWords s.toList := by rw [List.takeWhile_append_dropWhile]

theorem phrase_letter (mem : w ∈ enginePhrases) : 'f' ∈ w ∨ 'p' ∈ w := by
  revert w
  decide

/-- A text without an underscore, and without the letters that every phrase has one of, carries
nothing. -/
theorem carries_eq_false_of_plain (plain : ∀ c ∈ l, c ≠ '_' ∧ c.toLower ≠ 'f' ∧ c.toLower ≠ 'p') :
    carriesEngineWords l = false := by
  rw [Bool.eq_false_iff]
  intro carries
  simp only [carriesEngineWords, Bool.or_eq_true, List.any_eq_true] at carries
  obtain token | ⟨w, mem, phrase⟩ := carries
  · obtain ⟨p, a, b, q, rfl, -⟩ := hasEngineToken_iff.mp token
    exact (plain '_' (by simp)).1 rfl
  · obtain ⟨a, b, is, -⟩ := (standsAlone_iff (filled_of_mem mem)).mp phrase
    have inside : ∀ d ∈ w, ∃ c ∈ l, c.toLower = d := fun d own => List.mem_map.mp (by
      rw [is]
      exact List.mem_append_right _ (List.mem_append_left _ own))
    obtain own | own := phrase_letter mem
    · obtain ⟨c, there, same⟩ := inside _ own
      exact (plain c there).2.1 same
    · obtain ⟨c, there, same⟩ := inside _ own
      exact (plain c there).2.2 same

/-- The case of letters does not matter. -/
theorem toLower_eq_underscore (c : Char) : (c.toLower == '_') = (c == '_') := by
  by_cases upper : c.isUpper = true
  · have range := isUpper_iff.mp upper
    have moved := toNat_toLower upper
    have apart : c.toLower ≠ '_' := fun same => by
      rw [same] at moved
      have code : ('_' : Char).toNat = 95 := rfl
      omega
    have apart' : c ≠ '_' := by
      rintro rfl
      cases upper
    rw [beq_false_of_ne apart, beq_false_of_ne apart']
  · rw [toLower_of_not_upper upper]

theorem hasEngineToken_map_toLower : hasEngineToken (l.map Char.toLower) = hasEngineToken l := by
  induction l with
  | nil => rfl
  | cons a l ih =>
    rcases l with _ | ⟨b, _ | ⟨c, rest⟩⟩
    · rfl
    · rfl
    · rw [List.map_cons, List.map_cons] at ih ⊢
      rw [List.map_cons, hasEngineToken, hasEngineToken, isWord_toLower, isWord_toLower,
        toLower_eq_underscore, ← ih]

theorem carries_congr {l' : List Char} (same : l.map Char.toLower = l'.map Char.toLower) :
    carriesEngineWords l = carriesEngineWords l' := by
  rw [carriesEngineWords, carriesEngineWords, same, ← hasEngineToken_map_toLower, same,
    hasEngineToken_map_toLower]

end Clearotron.EngineWords
