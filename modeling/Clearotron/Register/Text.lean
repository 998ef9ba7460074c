import Mathlib.Data.List.Chain
import Mathlib.Data.List.DropRight
import Mathlib.Data.List.Infix

/-!
# The strings a register answer is written in

Reasons are prose, and parts of the program read that prose back: the executor
recognises a provider failure by two words in it, and a gateway timeout by the
gateway's own. The operations below are the ones the source applies to such
strings. A string is read as its characters; the source's own indexing counts
UTF-16 units, which is the same count on every text without astral characters.
-/

namespace Clearotron.Text

/-- `s.slice(0, n)`. -/
def slice (n : Nat) (s : String) : String := String.ofList (s.toList.take n)

/-- `s.includes(needle)`. -/
def includes (s needle : String) : Bool := decide (needle.toList <:+: s.toList)

/-- A case-insensitive search for a pattern of plain ASCII words. -/
def includesFold (s needle : String) : Bool :=
  decide (needle.toList.map Char.toLower <:+: s.toList.map Char.toLower)

/-- The characters `String.prototype.trim` removes and `\s` matches. -/
def isSpace (c : Char) : Bool :=
  c.toNat ∈ [9, 10, 11, 12, 13, 32, 160, 5760, 8232, 8233, 8239, 8287, 12288, 65279] ||
    (8192 ≤ c.toNat && c.toNat ≤ 8202)

/-- `s.trim()`. -/
def trim (s : String) : String :=
  String.ofList ((s.toList.dropWhile isSpace).reverse.dropWhile isSpace).reverse

/-- Each run of blanks as one blank. -/
def squeeze : List Char → List Char
  | [] => []
  | c :: rest =>
    if isSpace c then
      if rest.head?.any isSpace then squeeze rest else ' ' :: squeeze rest
    else c :: squeeze rest

/-- `s.replace(/\s+/g, " ")`. -/
def collapseSpaces (s : String) : String := String.ofList (squeeze s.toList)

/-- `s.replace(/\s+/g, " ").trim()`. -/
def tidy (s : String) : String := trim (collapseSpaces s)

/-- The characters `\w` matches. -/
def isWord (c : Char) : Bool := c.isAlphanum || c == '_'

/-- Does `word` occur in the text with no word character on either side?
`before` is the character in front of the text. -/
def standsAlone (word : List Char) : Option Char → List Char → Bool
  | _, [] => false
  | before, c :: rest =>
      (!before.any isWord && word.isPrefixOf (c :: rest) &&
        !((c :: rest).drop word.length).head?.any isWord) ||
      standsAlone word (some c) rest

/-- Does `word` occur, at the start and at the end of a word where that is asked? -/
def occursAt (front back : Bool) (word : List Char) : Option Char → List Char → Bool
  | _, [] => false
  | before, c :: rest =>
      (!(front && before.any isWord) && word.isPrefixOf (c :: rest) &&
        !(back && ((c :: rest).drop word.length).head?.any isWord)) ||
      occursAt front back word (some c) rest

/-- The UTF-16 units of a text. -/
def utf16 (s : String) : List Nat :=
  s.toList.flatMap fun c =>
    if c.toNat < 0x10000 then [c.toNat]
    else [0xD800 + (c.toNat - 0x10000) / 0x400, 0xDC00 + (c.toNat - 0x10000) % 0x400]

/-- A gateway gave up waiting for the register: HTTP 504 or 524, or its own words. -/
def isGatewayTimeout (text : String) : Bool :=
  standsAlone "HTTP 504".toList none text.toList ||
    standsAlone "HTTP 524".toList none text.toList ||
    includesFold text "gateway timeout" || includesFold text "gateway time-out"

/-- Put a comma in front of every third digit, counting from the right. -/
def groupDigits : List Char → List Char
  | a :: b :: c :: d :: rest => a :: b :: c :: ',' :: groupDigits (d :: rest)
  | digits => digits

/-- A floor as every page prints it: the register's own figure. -/
def moreThan (floor : Nat) : String :=
  "more than " ++ String.ofList (groupDigits (toString floor).toList.reverse).reverse

/-- Shorten a provider's words to `limit` characters, cutting the middle: the
status stands at the front and the word that classifies stands at the end. -/
def clipProviderText (text : String) (limit : Nat) : String :=
  let s := text.toList
  if s.length ≤ limit then text
  else if limit ≤ 3 then String.ofList (s.take limit)
  else
    let tail := max 1 ((4 * (limit - 1) + 5) / 10)
    let head := limit - 1 - tail
    String.ofList (s.take head ++ ['…'] ++ s.drop (s.length - tail))

example : isGatewayTimeout "HTTP 504: upstream" = true := by decide
example : isGatewayTimeout "HTTP 5040" = false := by decide
example : moreThan 10000 = "more than 10,000" := by decide

/-- `/provider error/i`: the two words by which a provider failure is recognised. -/
def isProviderError (reason : String) : Bool := includesFold reason "provider error"

/-- What the front of a text carries, the text carries. -/
theorem includesFold_append_left {front needle : String} (back : String)
    (h : includesFold front needle = true) : includesFold (front ++ back) needle = true := by
  simp only [includesFold, decide_eq_true_eq, String.toList_append, List.map_append] at h ⊢
  exact h.trans (List.prefix_append _ _).isInfix

/-- What the back of a text carries, the text carries. -/
theorem includesFold_append_right {back needle : String} (front : String)
    (h : includesFold back needle = true) : includesFold (front ++ back) needle = true := by
  simp only [includesFold, decide_eq_true_eq, String.toList_append, List.map_append] at h ⊢
  exact h.trans (List.suffix_append _ _).isInfix

theorem dropWhile_isSpace {l : List Char} (h : ∀ c ∈ l, isSpace c = false) :
    l.dropWhile isSpace = l := by
  cases l with
  | nil => rfl
  | cons c rest => rw [List.dropWhile_cons_of_neg (by simp [h c (List.mem_cons_self ..)])]

/-- A text without blanks has none at its ends. -/
theorem trim_of_no_space {s : String} (h : ∀ c ∈ s.toList, isSpace c = false) : trim s = s := by
  rw [trim, dropWhile_isSpace h, dropWhile_isSpace (by simpa using h), List.reverse_reverse,
    String.ofList_toList]

/-- A trimmed text is left as it is. -/
theorem trim_trim (s : String) : trim (trim s) = trim s := by
  let front := s.toList.dropWhile isSpace
  have whole : (front.rdropWhile isSpace).dropWhile isSpace = front.rdropWhile isSpace := by
    cases eq : front.rdropWhile isSpace with
    | nil => rfl
    | cons c rest =>
        -- the first character left is the first that is no blank
        have first : front.head? = some c := by
          obtain ⟨back, joined⟩ := List.rdropWhile_prefix isSpace front
          rw [eq] at joined
          rw [← joined]
          rfl
        have plain := List.head?_dropWhile_not isSpace s.toList
        rw [show (s.toList.dropWhile isSpace).head? = some c from first] at plain
        rw [List.dropWhile_cons_of_neg (by simpa using plain)]
  show String.ofList (((String.ofList (front.rdropWhile isSpace)).toList.dropWhile
    isSpace).rdropWhile isSpace) = String.ofList (front.rdropWhile isSpace)
  rw [String.toList_ofList, whole, List.rdropWhile_idempotent]

/-- No two blanks stand side by side, and every blank is a plain one. -/
structure Squeezed (l : List Char) : Prop where
  apart : l.IsChain fun a b => isSpace a = false ∨ isSpace b = false
  plain : ∀ c ∈ l, isSpace c = true → c = ' '

theorem Squeezed.of_part {l l' : List Char} (h : Squeezed l) (part : l' <:+: l) : Squeezed l' :=
  ⟨ List.IsChain.infix h.apart part, fun c mem => h.plain c (part.subset mem)⟩

theorem squeeze_of_squeezed {l : List Char} (h : Squeezed l) : squeeze l = l := by
  induction l with
  | nil => rfl
  | cons c rest ih =>
      have tail : squeeze rest = rest := ih (h.of_part (List.suffix_cons c rest).isInfix)
      unfold squeeze
      by_cases blank : isSpace c = true
      · obtain rfl := h.plain c (List.mem_cons_self ..) blank
        have next : rest.head?.any isSpace = false := by
          cases rest with
          | nil => rfl
          | cons d rest =>
              obtain apart | apart := (List.isChain_cons_cons.mp h.apart).1
              · rw [blank] at apart
                cases apart
              · simpa using apart
        rw [if_pos blank, next, tail]
        rfl
      · rw [if_neg blank, tail]

theorem head?_squeeze (l : List Char) : (squeeze l).head?.any isSpace = l.head?.any isSpace := by
  induction l with
  | nil => rfl
  | cons c rest ih =>
      unfold squeeze
      by_cases blank : isSpace c = true
      · rw [if_pos blank]
        split
        · rename_i next
          rw [ih, next]
          simpa using blank.symm
        · simp only [List.head?_cons, Option.any_some, blank]
          decide
      · rw [if_neg blank]
        rfl

theorem squeezed_squeeze (l : List Char) : Squeezed (squeeze l) := by
  induction l with
  | nil => exact ⟨.nil, nofun⟩
  | cons c rest ih =>
      unfold squeeze
      by_cases blank : isSpace c = true
      · rw [if_pos blank]
        split
        · exact ih
        · rename_i next
          refine ⟨?_, ?_⟩
          · cases eq : squeeze rest with
            | nil => exact .singleton ' '
            | cons d tail =>
                have first := head?_squeeze rest
                rw [eq] at first
                refine List.isChain_cons_cons.mpr ⟨.inr ?_, eq ▸ ih.apart⟩
                simpa [next] using first
          · intro d mem space
            obtain rfl | mem := List.mem_cons.mp mem
            · rfl
            · exact ih.plain d mem space
      · rw [if_neg blank]
        refine ⟨?_, ?_⟩
        · cases eq : squeeze rest with
          | nil => exact .singleton c
          | cons d tail =>
              exact List.isChain_cons_cons.mpr ⟨.inl (by simpa using blank), eq ▸ ih.apart⟩
        · intro d mem space
          obtain rfl | mem := List.mem_cons.mp mem
          · exact absurd space blank
          · exact ih.plain d mem space

theorem trim_part (s : String) : (trim s).toList <:+: s.toList := by
  rw [trim, String.toList_ofList]
  exact (List.rdropWhile_prefix isSpace _).isInfix.trans (List.dropWhile_suffix isSpace).isInfix

/-- A cell that was squeezed and trimmed is left as it is. -/
theorem trim_collapseSpaces_idem (s : String) :
    trim (collapseSpaces (trim (collapseSpaces s))) = trim (collapseSpaces s) := by
  have squeezed : Squeezed (trim (collapseSpaces s)).toList := by
    apply (squeezed_squeeze s.toList).of_part
    simpa [collapseSpaces] using trim_part (collapseSpaces s)
  rw [show collapseSpaces (trim (collapseSpaces s)) = trim (collapseSpaces s) by
    rw [collapseSpaces, squeeze_of_squeezed squeezed, String.ofList_toList]]
  exact trim_trim _

theorem squeeze_of_no_space {l : List Char} (h : ∀ c ∈ l, isSpace c = false) : squeeze l = l := by
  apply squeeze_of_squeezed
  refine ⟨?_, fun c mem space => ?_⟩
  · apply List.Pairwise.isChain
    exact List.pairwise_of_forall_mem_list fun a mem _ _ => .inl (h a mem)
  · rw [h c mem] at space
    cases space

/-- A text without blanks is left as it is. -/
theorem collapseSpaces_of_no_space {s : String} (h : ∀ c ∈ s.toList, isSpace c = false) :
    collapseSpaces s = s := by
  rw [collapseSpaces, squeeze_of_no_space h, String.ofList_toList]

theorem dropWhile_squeeze (l : List Char) :
    (squeeze l).dropWhile isSpace = squeeze (l.dropWhile isSpace) := by
  induction l with
  | nil => rfl
  | cons c rest ih =>
      by_cases blank : isSpace c = true
      · rw [List.dropWhile_cons_of_pos blank, ← ih]
        conv_lhs => unfold squeeze
        rw [if_pos blank]
        split
        · rfl
        · exact List.dropWhile_cons_of_pos (by decide)
      · rw [List.dropWhile_cons_of_neg blank]
        conv_lhs => unfold squeeze
        rw [if_neg blank, List.dropWhile_cons_of_neg blank]
        conv_rhs => unfold squeeze
        rw [if_neg blank]

/-- A character that is no blank is a wall between the blanks on its two sides. -/
theorem squeeze_append_cons {c : Char} (wall : isSpace c = false) (front rest : List Char) :
    squeeze (front ++ c :: rest) = squeeze front ++ c :: squeeze rest := by
  induction front with
  | nil =>
      show squeeze (c :: rest) = c :: squeeze rest
      rw [squeeze, if_neg (by simp [wall])]
  | cons d front ih =>
      have next : (front ++ c :: rest).head?.any isSpace = front.head?.any isSpace := by
        cases front with
        | nil => simpa using wall
        | cons e front => rfl
      rw [List.cons_append, squeeze, squeeze, next, ih]
      split
      · split <;> rfl
      · rfl

theorem squeeze_concat (l : List Char) (c : Char) :
    squeeze (l ++ [c]) =
      if isSpace c then (if l.getLast?.any isSpace then squeeze l else squeeze l ++ [' '])
      else squeeze l ++ [c] := by
  by_cases blank : isSpace c = true
  · rw [if_pos blank]
    induction l with
    | nil => simp [squeeze, blank]
    | cons d l ih =>
        cases l with
        | nil => by_cases front : isSpace d = true <;> simp [squeeze, blank, front]
        | cons e l =>
            have last : (d :: e :: l).getLast? = (e :: l).getLast? := List.getLast?_cons_cons
            have whole (tail : List Char) : squeeze (d :: (e :: tail)) =
                if isSpace d then (if isSpace e then squeeze (e :: tail) else ' ' :: squeeze (e :: tail))
                else d :: squeeze (e :: tail) := by
              rw [squeeze]
              rfl
            rw [last, List.cons_append, List.cons_append, whole, whole, ← List.cons_append, ih]
            split
            · split
              · rfl
              · split <;> rfl
            · split <;> rfl
  · rw [if_neg blank, squeeze_append_cons (by simpa using blank)]
    rfl


theorem rdropWhile_squeeze (l : List Char) :
    (squeeze l).rdropWhile isSpace = squeeze (l.rdropWhile isSpace) := by
  induction l using List.reverseRecOn with
  | nil => rfl
  | append_singleton l c ih =>
      rw [squeeze_concat]
      by_cases blank : isSpace c = true
      · rw [if_pos blank, List.rdropWhile_concat_pos _ _ _ blank, ← ih]
        split
        · rfl
        · exact List.rdropWhile_concat_pos _ _ _ (by decide)
      · rw [if_neg blank, List.rdropWhile_concat_neg _ _ _ blank,
          List.rdropWhile_concat_neg _ _ _ blank, squeeze_append_cons (by simpa using blank)]
        rfl

/-- Blanks may be squeezed before or after the ends are cut. -/
theorem trim_collapseSpaces (s : String) : trim (collapseSpaces s) = collapseSpaces (trim s) := by
  have ends (l : List Char) : ((l.dropWhile isSpace).reverse.dropWhile isSpace).reverse =
      (l.dropWhile isSpace).rdropWhile isSpace := rfl
  unfold trim collapseSpaces
  rw [String.toList_ofList, String.toList_ofList, ends, ends, dropWhile_squeeze, rdropWhile_squeeze]

theorem tidy_trim (s : String) : tidy (trim s) = tidy s := by
  unfold tidy
  rw [trim_collapseSpaces (trim s), trim_trim, ← trim_collapseSpaces]

theorem trim_tidy (s : String) : trim (tidy s) = tidy s := trim_trim _

theorem trim_concat_space (l : List Char) {c : Char} (blank : isSpace c = true) :
    trim (String.ofList (l ++ [c])) = trim (String.ofList l) := by
  have ends (l : List Char) : trim (String.ofList l) =
      String.ofList ((l.dropWhile isSpace).rdropWhile isSpace) := by
    rw [trim, String.toList_ofList]
    rfl
  rw [ends, ends, List.dropWhile_append]
  split
  · rename_i allBlank
    rw [List.dropWhile_cons_of_pos blank, List.isEmpty_iff.mp allBlank]
    rfl
  · rw [List.rdropWhile_concat_pos _ _ _ blank]

theorem trim_append_spaces (l : List Char) {back : List Char}
    (blank : ∀ c ∈ back, isSpace c = true) :
    trim (String.ofList (l ++ back)) = trim (String.ofList l) := by
  induction back using List.reverseRecOn with
  | nil => rw [List.append_nil]
  | append_singleton back c ih =>
      rw [← List.append_assoc, trim_concat_space _ (blank c (by simp))]
      exact ih fun d mem => blank d (List.mem_append_left _ mem)

theorem trim_spaces_append {front : List Char} (blank : ∀ c ∈ front, isSpace c = true)
    (l : List Char) : trim (String.ofList (front ++ l)) = trim (String.ofList l) := by
  rw [trim, trim, String.toList_ofList, String.toList_ofList, List.dropWhile_append_of_pos blank]

/-- A text is what trimming leaves of it between two runs of blanks. -/
theorem exists_trim (s : String) : ∃ front back : List Char,
    (∀ c ∈ front, isSpace c = true) ∧ (∀ c ∈ back, isSpace c = true) ∧
      s.toList = front ++ (trim s).toList ++ back := by
  let rest := s.toList.dropWhile isSpace
  have inner : (trim s).toList = rest.rdropWhile isSpace := by
    rw [trim, String.toList_ofList]
    rfl
  refine ⟨s.toList.takeWhile isSpace, rest.rtakeWhile isSpace,
    fun c mem => List.mem_takeWhile_imp mem, fun c mem => List.mem_rtakeWhile_imp mem, ?_⟩
  rw [inner, List.append_assoc, List.rdropWhile_append_rtakeWhile, List.takeWhile_append_dropWhile]

/-- A rewriting that keeps blanks blank reads a text and its trimmed form as one. -/
theorem trim_map_trim {f : Char → Char} (kept : ∀ c, isSpace c = true → isSpace (f c) = true)
    (s : String) : trim (String.ofList ((trim s).toList.map f)) =
      trim (String.ofList (s.toList.map f)) := by
  obtain ⟨front, back, blankFront, blankBack, whole⟩ := exists_trim s
  have blanks {l : List Char} (blank : ∀ c ∈ l, isSpace c = true) :
      ∀ c ∈ l.map f, isSpace c = true := by
    intro c mem
    obtain ⟨d, listed, rfl⟩ := List.mem_map.mp mem
    exact kept d (blank d listed)
  rw [whole, List.map_append, List.map_append, trim_append_spaces _ (blanks blankBack),
    trim_spaces_append (blanks blankFront)]

end Clearotron.Text
