import Mathlib.Data.List.Basic
import Mathlib.Tactic.IntervalCases

/-!
# Flat objects on one line

An object whose values are texts, natural numbers and null, written without blanks as a logger
writes it. Reading gives back what was written, and a line that is cut anywhere does not read: what
is read of a text is read of every longer one, with more left over.
-/

namespace Clearotron.JsonLine

inductive Scalar where
  | null
  | num (n : Nat)
  | str (s : String)
  deriving DecidableEq

abbrev Fields := List (String × Scalar)

/-- The value of a key; of a key that stands twice, the one that stands last. -/
def get? (fields : Fields) (key : String) : Option Scalar :=
  (fields.reverse.find? (·.1 = key)).map (·.2)

def quote : Char := '\x22'

def backslash : Char := '\x5c'

/-- The letter a control character is written with after a backslash. -/
def letterOf (n : Nat) : Option Char :=
  if n = 8 then some 'b'
  else if n = 9 then some 't'
  else if n = 10 then some 'n'
  else if n = 12 then some 'f'
  else if n = 13 then some 'r'
  else none

def escape (c : Char) : List Char :=
  if c = quote ∨ c = backslash then [backslash, c]
  else if c.toNat < 0x20 then
    match letterOf c.toNat with
    | some letter => [backslash, letter]
    | none =>
      [backslash, 'u', '0', '0', Nat.digitChar (c.toNat / 16), Nat.digitChar (c.toNat % 16)]
  else [c]

def writeString (s : String) : List Char := quote :: (s.toList.flatMap escape ++ [quote])

def writeScalar : Scalar → List Char
  | .null => ['n', 'u', 'l', 'l']
  | .num n => Nat.toDigits 10 n
  | .str s => writeString s

def writeField (f : String × Scalar) : List Char := writeString f.1 ++ ':' :: writeScalar f.2

/-- The fields behind the first one, and the end of the object. -/
def writeRest : Fields → List Char
  | [] => ['\x7d']
  | f :: fields => ',' :: (writeField f ++ writeRest fields)

def write : Fields → List Char
  | [] => ['\x7b', '\x7d']
  | f :: fields => '\x7b' :: (writeField f ++ writeRest fields)

def hexValue (c : Char) : Option Nat :=
  if '0' ≤ c ∧ c ≤ '9' then some (c.toNat - 48)
  else if 'a' ≤ c ∧ c ≤ 'f' then some (c.toNat - 87)
  else if 'A' ≤ c ∧ c ≤ 'F' then some (c.toNat - 55)
  else none

/-- The character a letter after a backslash stands for. -/
def ofLetter (c : Char) : Option Char :=
  if c = quote ∨ c = backslash ∨ c = '/' then some c
  else if c = 'b' then some '\x08'
  else if c = 't' then some '\x09'
  else if c = 'n' then some '\x0a'
  else if c = 'f' then some '\x0c'
  else if c = 'r' then some '\x0d'
  else none

/-- A text up to its closing quote, and what is left. -/
def readString : List Char → Option (List Char × List Char)
  | [] => none
  | c :: rest =>
    if c = quote then some ([], rest)
    else if c = backslash then
      match rest with
      | [] => none
      | 'u' :: h₁ :: h₂ :: h₃ :: h₄ :: rest =>
        match hexValue h₁, hexValue h₂, hexValue h₃, hexValue h₄ with
        | some a, some b, some c, some d =>
          (readString rest).map fun r => (Char.ofNat (((a * 16 + b) * 16 + c) * 16 + d) :: r.1, r.2)
        | _, _, _, _ => none
      | letter :: rest =>
        match ofLetter letter with
        | some c => (readString rest).map fun r => (c :: r.1, r.2)
        | none => none
    else if c.toNat < 0x20 then none
    else (readString rest).map fun r => (c :: r.1, r.2)

example : readString [] = none := by rw [readString]

/-- A number up to the character behind it, without which it could go on. -/
def readNumber (t : List Char) : Option (Nat × List Char) :=
  if t.takeWhile Char.isDigit = [] ∨ t.dropWhile Char.isDigit = [] then none
  else some (Nat.ofDigitChars 10 (t.takeWhile Char.isDigit) 0, t.dropWhile Char.isDigit)

/-- The letters of null behind the first. -/
def readNull : List Char → Option (Scalar × List Char)
  | 'u' :: 'l' :: 'l' :: rest => some (.null, rest)
  | _ => none

def readScalar : List Char → Option (Scalar × List Char)
  | [] => none
  | c :: rest =>
    if c = quote then (readString rest).map fun r => (.str (String.ofList r.1), r.2)
    else if c = 'n' then readNull rest
    else (readNumber (c :: rest)).map fun r => (.num r.1, r.2)

def readField : List Char → Option ((String × Scalar) × List Char)
  | [] => none
  | c :: rest =>
    if c = quote then
      match readString rest with
      | some (key, ':' :: rest) => (readScalar rest).map fun r => ((String.ofList key, r.1), r.2)
      | _ => none
    else none

def readRest : Nat → List Char → Option (Fields × List Char)
  | 0, _ => none
  | _, [] => none
  | n + 1, c :: rest =>
    if c = '\x7d' then some ([], rest)
    else if c = ',' then
      (readField rest).bind fun f => (readRest n f.2).map fun r => (f.1 :: r.1, r.2)
    else none

def readMembers (t : List Char) : Option (Fields × List Char) :=
  (readField t).bind fun f => (readRest t.length f.2).map fun r => (f.1 :: r.1, r.2)

def readObject : List Char → Option (Fields × List Char)
  | '\x7b' :: '\x7d' :: rest => some ([], rest)
  | '\x7b' :: rest => readMembers rest
  | _ => none

/-- The fields of a line that is one object. -/
def read (t : List Char) : Option Fields :=
  match readObject t with
  | some (fields, []) => some fields
  | _ => none

theorem ofLetter_of_letterOf {n : Nat} {letter : Char} (own : letterOf n = some letter) :
    ofLetter letter = some (Char.ofNat n) := by
  unfold letterOf at own
  split at own
  · cases own; subst_vars; decide
  split at own
  · cases own; subst_vars; decide
  split at own
  · cases own; subst_vars; decide
  split at own
  · cases own; subst_vars; decide
  split at own
  · cases own; subst_vars; decide
  · cases own

theorem hexValue_digitChar {n : Nat} (small : n < 16) : hexValue (Nat.digitChar n) = some n := by
  interval_cases n <;> decide

theorem readString_letter {letter c : Char} (own : ofLetter letter = some c) (rest : List Char) :
    readString (backslash :: letter :: rest) =
      (readString rest).map fun r => (c :: r.1, r.2) := by
  rw [readString, if_neg (by decide), if_pos rfl, own]
  rintro h₁ h₂ h₃ h₄ _ rfl
  cases own

theorem readString_hex {h₁ h₂ h₃ h₄ : Char} {a b c d : Nat} (first : hexValue h₁ = some a)
    (second : hexValue h₂ = some b) (third : hexValue h₃ = some c) (fourth : hexValue h₄ = some d)
    (rest : List Char) : readString (backslash :: 'u' :: h₁ :: h₂ :: h₃ :: h₄ :: rest) =
      (readString rest).map fun r =>
        (Char.ofNat (((a * 16 + b) * 16 + c) * 16 + d) :: r.1, r.2) := by
  rw [readString, if_neg (by decide), if_pos rfl, first, second, third, fourth]

theorem readString_plain {c : Char} (notQuote : c ≠ quote) (notBackslash : c ≠ backslash)
    (high : ¬ c.toNat < 0x20) (rest : List Char) :
    readString (c :: rest) = (readString rest).map fun r => (c :: r.1, r.2) := by
  rw [readString.eq_def]
  simp only [if_neg notQuote, if_neg notBackslash, if_neg high]

theorem readString_escape (c : Char) (rest : List Char) :
    readString (escape c ++ rest) = (readString rest).map fun r => (c :: r.1, r.2) := by
  unfold escape
  split
  · rename_i marked
    exact readString_letter (by rw [ofLetter, if_pos (marked.imp_right .inl)]) rest
  · rename_i plain
    obtain ⟨notQuote, notBackslash⟩ := not_or.1 plain
    split
    · rename_i control
      have char : Char.ofNat c.toNat = c := Char.ofNat_toNat c
      split
      · rename_i letter own
        have is := ofLetter_of_letterOf own
        rw [char] at is
        exact readString_letter is rest
      · rename_i own
        have value : ((0 * 16 + 0) * 16 + c.toNat / 16) * 16 + c.toNat % 16 = c.toNat := by omega
        have zero : hexValue '0' = some 0 := by decide
        have hex := readString_hex zero zero
          (hexValue_digitChar (show c.toNat / 16 < 16 by omega))
          (hexValue_digitChar (show c.toNat % 16 < 16 by omega)) rest
        rwa [value, char] at hex
    · rename_i high
      exact readString_plain notQuote notBackslash high rest

theorem readString_flatMap (s rest : List Char) :
    readString (s.flatMap escape ++ quote :: rest) = some (s, rest) := by
  induction s with
  | nil => rw [List.flatMap_nil, List.nil_append, readString.eq_def]; simp
  | cons c s ih =>
    rw [List.flatMap_cons, List.append_assoc, readString_escape, ih]
    rfl

theorem readString_write (s : String) (rest : List Char) :
    ∃ t, writeString s ++ rest = quote :: t ∧ readString t = some (s.toList, rest) :=
  ⟨s.toList.flatMap escape ++ quote :: rest, by simp [writeString], readString_flatMap _ _⟩

theorem readNumber_toDigits (n : Nat) {c : Char} (behind : c.isDigit = false) (rest : List Char) :
    readNumber (Nat.toDigits 10 n ++ c :: rest) = some (n, c :: rest) := by
  have digits : ∀ d ∈ Nat.toDigits 10 n, d.isDigit = true := fun d mem =>
    Nat.isDigit_of_mem_toDigits (by decide) (by decide) mem
  have front : (Nat.toDigits 10 n ++ c :: rest).takeWhile Char.isDigit = Nat.toDigits 10 n := by
    rw [List.takeWhile_append_of_pos digits]
    simp [behind]
  have back : (Nat.toDigits 10 n ++ c :: rest).dropWhile Char.isDigit = c :: rest := by
    rw [List.dropWhile_append_of_pos digits]
    simp [behind]
  rw [readNumber, front, back, if_neg (by simp [Nat.toDigits_ne_nil]),
    Nat.ofDigitChars_ten_toDigits]

/-- What stands behind a value ends a number. -/
theorem readScalar_write (v : Scalar) {c : Char} (behind : c.isDigit = false) (rest : List Char) :
    readScalar (writeScalar v ++ c :: rest) = some (v, c :: rest) := by
  cases v with
  | null => simp [writeScalar, readScalar, readNull, quote]
  | num n =>
    obtain ⟨d, ds, digits⟩ := List.exists_cons_of_ne_nil (Nat.toDigits_ne_nil (n := n) (b := 10))
    have digit : d.isDigit = true :=
      Nat.isDigit_of_mem_toDigits (b := 10) (n := n) (by decide) (by decide) (by simp [digits])
    have number := readNumber_toDigits n behind rest
    rw [digits, List.cons_append] at number
    rw [writeScalar, digits, List.cons_append, readScalar, if_neg, if_neg, number]
    · rfl
    · rintro rfl
      exact absurd digit (by decide)
    · rintro rfl
      exact absurd digit (by decide)
  | str s =>
    obtain ⟨t, is, reads⟩ := readString_write s (c :: rest)
    rw [writeScalar, is, readScalar, if_pos rfl, reads]
    simp

theorem readField_write (f : String × Scalar) {c : Char} (behind : c.isDigit = false)
    (rest : List Char) : readField (writeField f ++ c :: rest) = some (f, c :: rest) := by
  obtain ⟨t, is, reads⟩ := readString_write f.1 (':' :: (writeScalar f.2 ++ c :: rest))
  rw [writeField, List.append_assoc, List.cons_append, is, readField, if_pos rfl, reads]
  simp [readScalar_write f.2 behind]

theorem writeRest_head (fields : Fields) (rest : List Char) :
    ∃ c t, writeRest fields ++ rest = c :: t ∧ c.isDigit = false := by
  cases fields with
  | nil => exact ⟨'\x7d', rest, rfl, by decide⟩
  | cons f fields => exact ⟨',', writeField f ++ writeRest fields ++ rest, rfl, by decide⟩

theorem readRest_write {fields : Fields} {n : Nat} (enough : fields.length < n) (rest : List Char) :
    readRest n (writeRest fields ++ rest) = some (fields, rest) := by
  induction fields generalizing n with
  | nil =>
    obtain ⟨n, rfl⟩ := Nat.exists_eq_succ_of_ne_zero (Nat.ne_zero_of_lt enough)
    rfl
  | cons f fields ih =>
    obtain ⟨n, rfl⟩ := Nat.exists_eq_succ_of_ne_zero (Nat.ne_zero_of_lt enough)
    obtain ⟨c, t, is, behind⟩ := writeRest_head fields rest
    rw [writeRest, List.cons_append, List.append_assoc, is, readRest, if_neg (by decide),
      if_pos rfl, readField_write f behind, Option.bind_some, ← is, ih (by simpa using enough)]
    rfl

theorem length_writeRest (fields : Fields) : fields.length < (writeRest fields).length := by
  induction fields with
  | nil => simp [writeRest]
  | cons f fields ih =>
    simp only [writeRest, List.length_cons, List.length_append]
    omega

theorem readObject_write (fields : Fields) (rest : List Char) :
    readObject (write fields ++ rest) = some (fields, rest) := by
  cases fields with
  | nil => rfl
  | cons f fields =>
    obtain ⟨c, t, is, behind⟩ := writeRest_head fields rest
    have field := readField_write f behind t
    have long : fields.length < (writeField f ++ (writeRest fields ++ rest)).length := by
      have := length_writeRest fields
      simp only [List.length_append]
      omega
    rw [← is] at field
    rw [write, List.cons_append, List.append_assoc]
    show readMembers (writeField f ++ (writeRest fields ++ rest)) = _
    rw [readMembers, field, Option.bind_some, readRest_write long]
    rfl

/-- What was written is read back. -/
theorem read_write (fields : Fields) : read (write fields) = some fields := by
  have object := readObject_write fields []
  rw [List.append_nil] at object
  rw [read, object]

example : write [("pass", .num 10), ("trigger", .null), ("uri", .str "\x22a\n\x01")] =
      "\x7b\"pass\":10,\"trigger\":null,\"uri\":\"\\\"a\\n\\u0001\"\x7d".toList ∧
    read "\x7b\"pass\":10,\"uri\":\"\\\"a\\n\\u0001\"\x7d".toList =
      some [("pass", .num 10), ("uri", .str "\x22a\n\x01")] := by
  decide +kernel

/-- A reader leaves an end of its text, and reads the same of a longer one. -/
structure Steady {α : Type} (reader : List Char → Option (α × List Char)) : Prop where
  suffix : ∀ {t v r}, reader t = some (v, r) → r <:+ t
  longer : ∀ {t v r}, reader t = some (v, r) → ∀ q, reader (t ++ q) = some (v, r ++ q)

theorem suffix_of_map {α β : Type} {x : Option (α × List Char)} {f : α → β} {v : β}
    {r rest : List Char} (ih : ∀ {v r}, x = some (v, r) → r <:+ rest)
    (own : x.map (fun r => (f r.1, r.2)) = some (v, r)) : r <:+ rest := by
  obtain ⟨⟨v', r'⟩, reads, is⟩ := Option.map_eq_some_iff.1 own
  cases is
  exact ih reads

theorem longer_of_map {α β : Type} {x y : Option (α × List Char)} {f : α → β} {v : β}
    {r q : List Char} (ih : ∀ {v r}, x = some (v, r) → y = some (v, r ++ q))
    (own : x.map (fun r => (f r.1, r.2)) = some (v, r)) :
    y.map (fun r => (f r.1, r.2)) = some (v, r ++ q) := by
  obtain ⟨⟨v', r'⟩, reads, is⟩ := Option.map_eq_some_iff.1 own
  cases is
  rw [ih reads]
  rfl

theorem Steady.map {α β : Type} {reader : List Char → Option (α × List Char)}
    (steady : Steady reader) (f : α → β) :
    Steady fun t => (reader t).map fun r => (f r.1, r.2) where
  suffix own := suffix_of_map steady.suffix own
  longer own q := longer_of_map (fun reads => steady.longer reads q) own

theorem steady_readString : Steady readString where
  suffix := by
    intro t
    fun_induction readString t with
    | case1 => exact fun own => by cases own
    | case2 => exact fun own => by cases own; exact List.suffix_cons _ _
    | case3 => exact fun own => by cases own
    | case4 =>
      rename_i ih
      intro v r own
      exact (suffix_of_map ih own).trans (List.suffix_append ['\x5c', 'u', _, _, _, _] _)
    | case5 => exact fun own => by cases own
    | case6 =>
      rename_i ih
      exact fun own => (suffix_of_map ih own).trans (List.suffix_append ['\x5c', _] _)
    | case7 => exact fun own => by cases own
    | case8 => exact fun own => by cases own
    | case9 =>
      rename_i ih
      exact fun own => (suffix_of_map ih own).trans (List.suffix_cons _ _)
  longer := by
    intro t
    fun_induction readString t with
    | case1 => exact fun own => by cases own
    | case2 => exact fun own q => by cases own; rw [List.cons_append, readString.eq_def]; simp
    | case3 => exact fun own => by cases own
    | case4 =>
      rename_i fourth third second first _ ih
      intro v r own q
      simp only [List.cons_append, readString_hex first second third fourth]
      exact longer_of_map (fun reads => ih reads q) own
    | case5 => exact fun own => by cases own
    | case6 =>
      rename_i is _ ih
      intro v r own q
      simp only [List.cons_append, readString_letter is]
      exact longer_of_map (fun reads => ih reads q) own
    | case7 => exact fun own => by cases own
    | case8 => exact fun own => by cases own
    | case9 =>
      rename_i c rest notQuote notBackslash high ih
      intro v r own q
      rw [List.cons_append, readString_plain notQuote notBackslash high]
      exact longer_of_map (fun reads => ih reads q) own

theorem steady_readNumber : Steady readNumber where
  suffix := by
    intro t v r own
    unfold readNumber at own
    split at own
    · cases own
    · cases own
      exact List.dropWhile_suffix _
  longer := by
    intro t v r own q
    unfold readNumber at own
    split at own
    · cases own
    · rename_i some'
      obtain ⟨digits, behind⟩ := not_or.1 some'
      cases own
      have split' := List.takeWhile_append_dropWhile (p := Char.isDigit) (l := t)
      have front : (t ++ q).takeWhile Char.isDigit = t.takeWhile Char.isDigit := by
        rw [List.takeWhile_append, if_neg]
        intro whole
        rw [← split', List.length_append] at whole
        exact behind (List.length_eq_zero_iff.1 (by rw [split'] at whole; omega))
      have back : (t ++ q).dropWhile Char.isDigit = t.dropWhile Char.isDigit ++ q := by
        have whole := List.takeWhile_append_dropWhile (p := Char.isDigit) (l := t ++ q)
        rw [front] at whole
        nth_rewrite 3 [← split'] at whole
        rw [List.append_assoc] at whole
        exact List.append_cancel_left whole
      rw [readNumber, front, back, if_neg (by simp [digits, behind])]

theorem steady_readNull : Steady readNull where
  suffix := by
    intro t v r own
    unfold readNull at own
    split at own
    · cases own
      exact List.suffix_append ['u', 'l', 'l'] _
    · cases own
  longer := by
    intro t v r own q
    unfold readNull at own
    split at own
    · cases own
      rfl
    · cases own

theorem steady_readScalar : Steady readScalar where
  suffix := by
    intro t v r own
    cases t with
    | nil => cases own
    | cons c t =>
      rw [readScalar] at own
      split at own
      · exact (suffix_of_map (f := fun s => Scalar.str (String.ofList s)) steady_readString.suffix
          own).trans (List.suffix_cons c t)
      split at own
      · exact (steady_readNull.suffix own).trans (List.suffix_cons c t)
      · exact suffix_of_map steady_readNumber.suffix own
  longer := by
    intro t v r own q
    cases t with
    | nil => cases own
    | cons c t =>
      rw [readScalar] at own
      rw [List.cons_append, readScalar]
      split at own
      · rename_i is
        rw [if_pos is]
        exact longer_of_map (f := fun s => Scalar.str (String.ofList s))
          (fun reads => steady_readString.longer reads q) own
      rename_i notQuote
      rw [if_neg notQuote]
      split at own
      · rename_i is
        rw [if_pos is]
        exact steady_readNull.longer own q
      · rename_i other
        rw [if_neg other]
        exact longer_of_map (fun reads => steady_readNumber.longer reads q) own

theorem steady_readField : Steady readField where
  suffix := by
    intro t v r own
    cases t with
    | nil => cases own
    | cons c t =>
      rw [readField] at own
      split at own
      · split at own
        · rename_i key rest reads
          have inner := suffix_of_map steady_readScalar.suffix own
          have outer := steady_readString.suffix reads
          exact ((inner.trans (List.suffix_cons _ _)).trans outer).trans (List.suffix_cons c t)
        · cases own
      · cases own
  longer := by
    intro t v r own q
    cases t with
    | nil => cases own
    | cons c t =>
      rw [readField] at own
      rw [List.cons_append, readField]
      split at own
      · rename_i is
        rw [if_pos is]
        split at own
        · rename_i key rest reads
          rw [steady_readString.longer reads q]
          exact longer_of_map (fun reads => steady_readScalar.longer reads q) own
        · cases own
      · cases own

example : readField "\"pass\":10,\"uri\"".toList = some (("pass", .num 10), ",\"uri\"".toList) := by
  decide +kernel

theorem readRest_suffix {n : Nat} {t : List Char} {v : Fields} {r : List Char}
    (own : readRest n t = some (v, r)) : ∃ u, t = u ++ '\x7d' :: r := by
  induction n generalizing t v with
  | zero => simp [readRest] at own
  | succ n ih =>
    cases t with
    | nil => simp [readRest] at own
    | cons c t =>
      rw [readRest] at own
      split at own
      · rename_i is
        cases own
        exact ⟨[], by rw [is]; rfl⟩
      split at own
      · obtain ⟨⟨f, t'⟩, reads, own⟩ := Option.bind_eq_some_iff.1 own
        obtain ⟨⟨fs, r'⟩, rest, is⟩ := Option.map_eq_some_iff.1 own
        cases is
        obtain ⟨u, rfl⟩ := ih rest
        obtain ⟨front, rfl⟩ := steady_readField.suffix reads
        exact ⟨c :: (front ++ u), by simp⟩
      · cases own

theorem readRest_longer {n m : Nat} {t : List Char} {v : Fields} {r : List Char} (more : n ≤ m)
    (own : readRest n t = some (v, r)) (q : List Char) :
    readRest m (t ++ q) = some (v, r ++ q) := by
  induction n generalizing t v m r with
  | zero => simp [readRest] at own
  | succ n ih =>
    obtain ⟨m, rfl⟩ := Nat.exists_eq_succ_of_ne_zero (show m ≠ 0 by omega)
    cases t with
    | nil => simp [readRest] at own
    | cons c t =>
      rw [readRest] at own
      rw [List.cons_append, readRest]
      split at own
      · rename_i is
        cases own
        rw [if_pos is]
      rename_i notEnd
      rw [if_neg notEnd]
      split at own
      · rename_i is
        rw [if_pos is]
        obtain ⟨⟨f, t'⟩, reads, own⟩ := Option.bind_eq_some_iff.1 own
        rw [steady_readField.longer reads q, Option.bind_some]
        show (readRest m (t' ++ q)).map _ = _
        exact longer_of_map (fun rest => ih (Nat.succ_le_succ_iff.1 more) rest) own
      · cases own

theorem readMembers_suffix {t : List Char} {v : Fields} {r : List Char}
    (own : readMembers t = some (v, r)) : ∃ u, t = u ++ '\x7d' :: r := by
  obtain ⟨⟨f, t'⟩, reads, own⟩ := Option.bind_eq_some_iff.1 own
  obtain ⟨⟨fs, r'⟩, rest, is⟩ := Option.map_eq_some_iff.1 own
  cases is
  obtain ⟨u, rfl⟩ := readRest_suffix rest
  obtain ⟨front, rfl⟩ := steady_readField.suffix reads
  exact ⟨front ++ u, by simp⟩

theorem readMembers_longer {t : List Char} {v : Fields} {r : List Char}
    (own : readMembers t = some (v, r)) (q : List Char) :
    readMembers (t ++ q) = some (v, r ++ q) := by
  obtain ⟨⟨f, t'⟩, reads, own⟩ := Option.bind_eq_some_iff.1 own
  rw [readMembers, steady_readField.longer reads q, Option.bind_some]
  exact longer_of_map (fun rest => readRest_longer (by simp) rest q) own

theorem readObject_suffix {t : List Char} {v : Fields} {r : List Char}
    (own : readObject t = some (v, r)) : ∃ u, t = u ++ '\x7d' :: r := by
  unfold readObject at own
  split at own
  · cases own
    exact ⟨['\x7b'], rfl⟩
  · obtain ⟨u, rfl⟩ := readMembers_suffix own
    exact ⟨'\x7b' :: u, rfl⟩
  · cases own

theorem readObject_longer {t : List Char} {v : Fields} {r : List Char}
    (own : readObject t = some (v, r)) (q : List Char) :
    readObject (t ++ q) = some (v, r ++ q) := by
  unfold readObject at own
  split at own
  · cases own
    rfl
  · rename_i rest other
    have longer := readMembers_longer own q
    cases rest with
    | nil => cases own
    | cons c rest =>
      rw [List.cons_append, readObject.eq_def]
      split
      · rename_i is
        cases is
        exact absurd rfl (other _)
      · rename_i is
        cases is
        exact longer
      · rename_i none'
        exact absurd rfl (none' _)
  · cases own

theorem readObject_of_read {t : List Char} {fields : Fields} (own : read t = some fields) :
    readObject t = some (fields, []) := by
  unfold read at own
  split at own
  · rename_i reads
    cases own
    exact reads
  · cases own

/-- A line that ends before its object does is no object. -/
theorem read_cut {fields : Fields} {p q : List Char} (cut : p ++ q = write fields)
    (some' : q ≠ []) : read p = none := by
  by_contra reads
  obtain ⟨fields', own⟩ := Option.ne_none_iff_exists'.1 reads
  have longer := readObject_longer (readObject_of_read own) q
  have whole := readObject_write fields []
  rw [List.append_nil, ← cut, longer] at whole
  cases whole
  exact some' rfl

example : read "\x7b\"pass\":10,\"uri\"".toList = none := by decide +kernel

/-- What reads ends with the brace of its object. -/
theorem read_ends {p : List Char} {c : Char} (other : c ≠ '\x7d') : read (p ++ [c]) = none := by
  by_contra reads
  obtain ⟨fields', own⟩ := Option.ne_none_iff_exists'.1 reads
  obtain ⟨u, is⟩ := readObject_suffix (readObject_of_read own)
  have last := congrArg List.getLast? is
  rw [List.getLast?_concat, List.getLast?_concat] at last
  exact other (Option.some.inj last)

theorem newline_notMem_escape (c : Char) : '\n' ∉ escape c := by
  unfold escape
  split
  · rename_i marked
    rcases marked with rfl | rfl <;> decide
  split
  · split
    · rename_i letter own
      unfold letterOf at own
      grind [backslash]
    · rename_i control _
      interval_cases c.toNat <;> decide
  · rename_i high
    rw [List.mem_singleton]
    rintro rfl
    exact absurd high (by decide)

theorem newline_notMem_writeString (s : String) : '\n' ∉ writeString s := by
  simp only [writeString, List.mem_cons, List.mem_append, List.mem_flatMap, List.not_mem_nil,
    or_false, not_or, not_exists, not_and]
  exact ⟨by decide, fun c _ => newline_notMem_escape c, by decide⟩

theorem newline_notMem_writeField (f : String × Scalar) : '\n' ∉ writeField f := by
  rw [writeField, List.mem_append, List.mem_cons]
  rintro (key | is | value)
  · exact newline_notMem_writeString _ key
  · exact absurd is (by decide)
  · cases own : f.2 with
    | null =>
      rw [own] at value
      exact absurd value (by decide)
    | num n =>
      rw [own] at value
      exact absurd (Nat.isDigit_of_mem_toDigits (by decide) (by decide) value) (by decide)
    | str s =>
      rw [own] at value
      exact newline_notMem_writeString _ value

theorem newline_notMem_writeRest (fields : Fields) : '\n' ∉ writeRest fields := by
  induction fields with
  | nil => decide
  | cons f fields ih =>
    rw [writeRest, List.mem_cons, List.mem_append]
    rintro (is | field | rest)
    · exact absurd is (by decide)
    · exact newline_notMem_writeField f field
    · exact ih rest

/-- An object is written on one line. -/
theorem newline_notMem_write (fields : Fields) : '\n' ∉ write fields := by
  cases fields with
  | nil => decide
  | cons f fields =>
    rw [write, List.mem_cons, List.mem_append]
    rintro (is | field | rest)
    · exact absurd is (by decide)
    · exact newline_notMem_writeField f field
    · exact newline_notMem_writeRest fields rest

end Clearotron.JsonLine
