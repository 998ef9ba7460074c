import Mathlib
import Clearotron.Library.Keyed
import Clearotron.Records.LedgerLines

/-!
# Values added to an env file

A file of assignments holds what a person typed, and a launcher adds what is missing. The reader
and the writer each have a pattern of their own for a line that assigns: the reader takes `export`
in front of a name and the writer does not, and the reader takes no line that a carriage return
ends. A text is read as its characters.
-/

namespace Clearotron.EnvFile

open Text (isSpace isWord)

/-- The characters `.` does not match. -/
def isTerminator (c : Char) : Bool := c.toNat ∈ [10, 13, 8232, 8233]

def isNameStart (c : Char) : Bool := c.isAlpha || c == '_'

/-- `[A-Za-z_][A-Za-z0-9_]*` -/
def IsName (n : List Char) : Prop := n.all isWord = true ∧ n.head?.any isNameStart = true

instance (n : List Char) : Decidable (IsName n) := inferInstanceAs (Decidable (_ ∧ _))

/-- `NAME\s*=` at the start, with what stands behind it. -/
def assigns (l : List Char) : Option (List Char × List Char) :=
  let name := l.takeWhile isWord
  match (l.dropWhile isWord).dropWhile isSpace with
  | '=' :: rest => if IsName name then some (name, rest) else none
  | _ => none

/-- What stands behind `export\s+`. -/
def exported (l : List Char) : Option (List Char) :=
  if "export".toList.isPrefixOf l ∧ (l.drop 6).head?.any isSpace = true then
    some ((l.drop 6).dropWhile isSpace)
  else none

/-- The quotes an operator writes around a value. -/
def unquote (v : List Char) : List Char :=
  if [34, 39].any fun q =>
      v.head?.map Char.toNat = some q && v.getLast?.map Char.toNat = some q then
    (v.drop 1).dropLast
  else v

def trimEnd (l : List Char) : List Char := (l.reverse.dropWhile isSpace).reverse

/-- One line of `parseEnvFile`: the name it assigns and the value. -/
def readLine (line : List Char) : Option (List Char × List Char) :=
  let l := line.dropWhile isSpace
  match ((exported l).bind assigns).or (assigns l) with
  | none => none
  | some (name, rest) =>
    let v := rest.dropWhile isSpace
    if v.any isTerminator then none else some (name, unquote (trimEnd v))

/-- The writer's pattern: the name a line is seen to assign. -/
def writtenName (line : List Char) : Option (List Char) :=
  (assigns (line.dropWhile isSpace)).map Prod.fst

def linesOf (text : List Char) : List (List Char) := text.splitOn '\n'

def joinLines (lines : List (List Char)) : List Char := ['\n'].intercalate lines

/-- `parseEnvFile`: the last assignment of a name is its value. -/
def parseEnvFile (text : List Char) : Keyed (List Char) (List Char) :=
  ((linesOf text).filterMap readLine).foldl (fun out nv => out.set nv.1 nv.2) .empty

/-- The writer's words: its name and a note above some lines. -/
structure MergeWords where
  author : List Char := "`npm start` (bin/start.mjs)".toList
  notes : List Char → Option (List Char) := fun _ => none

structure Merged where
  text : List Char
  added : List (List Char)
  refreshed : List (List Char)

def assignment (n v : List Char) : List Char := n ++ '=' :: v

/-- `/^\s*NAME\s*=/` on a line, for a name that is given. -/
def startsWith (n line : List Char) : Bool :=
  let l := line.dropWhile isSpace
  n.isPrefixOf l && ((l.drop n.length).dropWhile isSpace).head? == some '='

section

variable (additions : Keyed (List Char) (Option (List Char))) (refresh : List (List Char))

/-- The names the writer sees in a text. -/
def present (text : List Char) : List (List Char) := (linesOf text).filterMap writtenName

/-- What is given a value: an empty one is none. -/
def usable : List (List Char × List Char) :=
  additions.entries.filterMap fun e => (e.2.filter (· ≠ [])).map fun v => (e.1, v)

def toAdd (text : List Char) : List (List Char × List Char) :=
  (usable additions).filter fun e => !(present text).contains e.1

def toRenew (text : List Char) : List (List Char × List Char) :=
  (usable additions).filter fun e => (present text).contains e.1 && refresh.contains e.1

/-- One name renewed in place. -/
def renew (text : List Char) (e : List Char × List Char) : List Char :=
  joinLines ((linesOf text).map fun line =>
    if startsWith e.1 line then assignment e.1 e.2 else line)

def writtenBy (W : MergeWords) : List Char :=
  '#' :: " Written by ".toList ++ W.author ++
    ". Environment variables always win over this file.".toList

def holdsSecrets : List Char :=
  '#' ::
    " It holds secrets: keep it at mode 600, and out of git (.gitignore already covers it).".toList

def header (W : MergeWords) : List Char := writtenBy W ++ '\n' :: (holdsSecrets ++ ['\n'])

def addedBy (W : MergeWords) : List Char :=
  '#' :: " Added by ".toList ++ W.author ++ ". Delete a line to have it generated afresh.".toList

def noteLine (W : MergeWords) (n : List Char) : List Char :=
  match (W.notes n).filter (· ≠ []) with
  | some note => "# ".toList ++ n ++ ": ".toList ++ note ++ ['\n']
  | none => []

def block (W : MergeWords) (add : List (List Char × List Char)) : List Char :=
  '\n' :: (addedBy W ++ '\n' :: add.flatMap fun e =>
    noteLine W e.1 ++ assignment e.1 e.2 ++ ['\n'])

def mergeEnvFile (W : MergeWords) (text : List Char) : Merged :=
  let add := toAdd additions text
  let renewing := toRenew additions refresh text
  let out := renewing.foldl renew text
  if add = [] then ⟨out, [], renewing.map Prod.fst⟩
  else
    let head := if out.all isSpace then header W else []
    let gap := if out ≠ [] ∧ out.getLast? ≠ some '\n' then ['\n'] else []
    ⟨head ++ out ++ gap ++ block W add, add.map Prod.fst, renewing.map Prod.fst⟩

end

variable {l line n v w rest : List Char} {k : List Char}

theorem code_of_isWord {c : Char} (word : isWord c = true) :
    (65 ≤ c.toNat ∧ c.toNat ≤ 90 ∨ 97 ≤ c.toNat ∧ c.toNat ≤ 122) ∨
      48 ≤ c.toNat ∧ c.toNat ≤ 57 ∨ c.toNat = 95 := by
  rw [isWord, Char.isAlphanum, Char.isAlpha, Char.isUpper, Char.isLower, Char.isDigit] at word
  simp only [Bool.or_eq_true, decide_eq_true_eq, beq_iff_eq, UInt32.le_iff_toNat_le,
    Bool.and_eq_true] at word
  have code : c.val.toNat = c.toNat := rfl
  rw [code] at word
  rcases word with ((upper | lower) | digit) | rfl
  · exact .inl (.inl upper)
  · exact .inl (.inr lower)
  · exact .inr (.inl digit)
  · exact .inr (.inr rfl)

theorem isSpace_of_isWord {c : Char} (word : isWord c = true) : isSpace c = false := by
  have bounds := code_of_isWord word
  simp only [isSpace, Bool.or_eq_false_iff, decide_eq_false_iff_not, List.mem_cons,
    List.not_mem_nil, or_false, Bool.and_eq_false_iff]
  omega

theorem IsName.exists_cons (name : IsName n) : ∃ c rest, n = c :: rest ∧ isWord c = true := by
  obtain ⟨words, start⟩ := name
  cases n with
  | nil => cases start
  | cons c rest => exact ⟨c, rest, rfl, (List.all_eq_true.mp words) c (by simp)⟩

theorem IsName.newline_not_mem (name : IsName n) : '\n' ∉ n := fun mem =>
  absurd (List.all_eq_true.mp name.1 _ mem) (by decide)

/-- Behind a name no character of a name follows. -/
theorem dropWhile_gap {gap : List Char} (spaces : ∀ c ∈ gap, isSpace c = true) :
    (gap ++ '=' :: rest).dropWhile isWord = gap ++ '=' :: rest ∧
      (gap ++ '=' :: rest).takeWhile isWord = [] := by
  cases gap with
  | nil => exact ⟨rfl, rfl⟩
  | cons c gap =>
    have wall : isWord c = false := by
      by_contra word
      rw [Bool.not_eq_false] at word
      have space := spaces c (by simp)
      rw [isSpace_of_isWord word] at space
      cases space
    exact ⟨by simp [wall], by simp [wall]⟩

theorem assigns_eq_some :
    assigns l = some (n, rest) ↔
      IsName n ∧ ∃ gap, (∀ c ∈ gap, isSpace c = true) ∧ l = n ++ (gap ++ '=' :: rest) := by
  constructor
  · intro found
    unfold assigns at found
    split at found
    · rename_i rest' behind
      dsimp only at found
      split at found
      · rename_i name
        obtain ⟨rfl, rfl⟩ := Prod.ext_iff.mp (Option.some.inj found)
        refine ⟨name, (l.dropWhile isWord).takeWhile isSpace,
          fun c mem => List.mem_takeWhile_imp mem, ?_⟩
        rw [← behind, List.takeWhile_append_dropWhile, List.takeWhile_append_dropWhile]
      · cases found
    · cases found
  · rintro ⟨name, gap, spaces, rfl⟩
    have words : ∀ c ∈ n, isWord c = true := List.all_eq_true.mp name.1
    have behind : (gap ++ '=' :: rest).dropWhile isSpace = '=' :: rest := by
      rw [List.dropWhile_append_of_pos spaces]
      rfl
    unfold assigns
    rw [List.dropWhile_append_of_pos words, (dropWhile_gap spaces).1, behind,
      List.takeWhile_append_of_pos words, (dropWhile_gap spaces).2, List.append_nil]
    exact if_pos name

theorem dropWhile_of_isName (name : IsName n) (rest : List Char) :
    (n ++ rest).dropWhile isSpace = n ++ rest := by
  obtain ⟨c, n', rfl, word⟩ := name.exists_cons
  rw [List.cons_append, List.dropWhile_cons, isSpace_of_isWord word]
  rfl

@[simp] theorem assigns_assignment (name : IsName n) (v : List Char) :
    assigns (assignment n v) = some (n, v) :=
  assigns_eq_some.mpr ⟨name, [], by simp, rfl⟩

@[simp] theorem writtenName_assignment (name : IsName n) (v : List Char) :
    writtenName (assignment n v) = some n := by
  rw [writtenName, assignment, dropWhile_of_isName name, ← assignment, assigns_assignment name]
  rfl

theorem writtenName_eq_some :
    writtenName line = some n ↔ IsName n ∧ startsWith n line = true := by
  simp only [writtenName, Option.map_eq_some_iff, startsWith, Bool.and_eq_true, beq_iff_eq,
    List.isPrefixOf_iff_prefix]
  constructor
  · rintro ⟨⟨m, rest⟩, found, rfl⟩
    obtain ⟨name, gap, spaces, split⟩ := assigns_eq_some.mp found
    refine ⟨name, ⟨_, split.symm⟩, ?_⟩
    rw [split, List.drop_left, List.dropWhile_append_of_pos spaces]
    rfl
  · rintro ⟨name, ⟨behind, split⟩, equals⟩
    rw [← split, List.drop_left] at equals
    obtain ⟨rest, is⟩ := List.head?_eq_some_iff.mp equals
    refine ⟨(n, rest), assigns_eq_some.mpr ⟨name, behind.takeWhile isSpace,
      fun c mem => List.mem_takeWhile_imp mem, ?_⟩, rfl⟩
    rw [← is, List.takeWhile_append_dropWhile, split]

theorem assigns_equals (rest : List Char) : assigns ('=' :: rest) = none := by
  cases found : assigns ('=' :: rest) with
  | none => rfl
  | some nr =>
    obtain ⟨name, gap, -, split⟩ := assigns_eq_some.mp found
    obtain ⟨c, n', is, word⟩ := name.exists_cons
    rw [is] at split
    obtain rfl := (List.cons.inj split).1
    cases word

/-- A line the writer's pattern takes as it stands is not read as an export. -/
theorem exported_bind_assigns (found : assigns l = some (n, rest)) :
    (exported l).bind assigns = none := by
  unfold exported
  split
  · rename_i front
    obtain ⟨⟨behind, is⟩, space⟩ := And.imp_left List.isPrefixOf_iff_prefix.mp front
    obtain ⟨name, gap, spaces, split⟩ := assigns_eq_some.mp found
    have drop : l.drop 6 = behind := by rw [← is]; rfl
    rw [drop] at space ⊢
    obtain ⟨c, behind', rfl⟩ : ∃ c b, behind = c :: b := by
      cases behind with
      | nil => cases space
      | cons c b => exact ⟨c, b, rfl⟩
    have wall : isWord c = false := by
      by_contra word
      rw [Bool.not_eq_false] at word
      simp [isSpace_of_isWord word] at space
    have words : ∀ c ∈ "export".toList, isWord c = true :=
      List.all_eq_true.mp (by decide +kernel)
    have whole : l.takeWhile isWord = "export".toList := by
      rw [← is, List.takeWhile_append_of_pos words, List.takeWhile_cons, wall]
      rfl
    have words : ∀ c ∈ n, isWord c = true := List.all_eq_true.mp name.1
    have name' : l.takeWhile isWord = n := by
      rw [split, List.takeWhile_append_of_pos words, (dropWhile_gap spaces).2, List.append_nil]
    rw [← is, ← name', whole] at split
    have same := List.append_cancel_left split
    rw [same, List.dropWhile_append_of_pos spaces]
    exact assigns_equals rest
  · rfl

/-- A line the writer's pattern takes is read under the same name, where it is read at all. -/
theorem readLine_of_writtenName (found : writtenName line = some n) :
    readLine line = none ∨ ∃ v, readLine line = some (n, v) := by
  obtain ⟨⟨m, rest⟩, is, rfl⟩ := Option.map_eq_some_iff.mp found
  unfold readLine
  dsimp only
  rw [exported_bind_assigns is, Option.none_or, is]
  dsimp only
  split
  · exact .inl rfl
  · exact .inr ⟨_, rfl⟩

/-- What a line read gives is a name and a value without an end of line in it. -/
theorem plain_of_readLine (found : readLine line = some (n, v)) :
    IsName n ∧ v.any isTerminator = false := by
  unfold readLine at found
  dsimp only at found
  split at found
  · cases found
  · rename_i m rest is
    split at found
    · cases found
    · rename_i plain
      obtain ⟨rfl, rfl⟩ := Prod.ext_iff.mp (Option.some.inj found)
      refine ⟨?_, ?_⟩
      · obtain exp | asIs := Option.or_eq_some_iff.mp is
        · obtain ⟨l', -, given⟩ := Option.bind_eq_some_iff.mp exp
          exact (assigns_eq_some.mp given).1
        · exact (assigns_eq_some.mp asIs.2).1
      · rw [Bool.not_eq_true] at plain
        refine List.any_eq_false.mpr fun c mem => List.any_eq_false.mp plain c ?_
        have inEnd : c ∈ trimEnd (rest.dropWhile isSpace) := by
          unfold unquote at mem
          split at mem
          · exact List.mem_of_mem_drop (List.mem_of_mem_dropLast mem)
          · exact mem
        exact List.mem_reverse.mp ((List.dropWhile_suffix _).subset (List.mem_reverse.mp inEnd))

theorem newline_not_mem_of_readLine (found : readLine line = some (n, v)) : '\n' ∉ v := fun mem =>
  absurd (List.any_eq_false.mp (plain_of_readLine found).2 _ mem) (by decide)

/-- A line that begins with a hash is seen by neither. -/
theorem silent_comment (l : List Char) :
    readLine ('#' :: l) = none ∧ writtenName ('#' :: l) = none := by
  have none' : assigns ('#' :: l) = none := by
    cases found : assigns ('#' :: l) with
    | none => rfl
    | some nr =>
      obtain ⟨name, gap, -, split⟩ := assigns_eq_some.mp found
      obtain ⟨c, n', is, word⟩ := name.exists_cons
      rw [is] at split
      obtain rfl := (List.cons.inj split).1
      cases word
  have stays : ('#' :: l).dropWhile isSpace = '#' :: l := rfl
  have still : exported ('#' :: l) = none := rfl
  exact ⟨by rw [readLine, stays, still, none']; rfl, by rw [writtenName, stays, none']; rfl⟩

end Clearotron.EnvFile
