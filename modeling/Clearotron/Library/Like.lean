import Mathlib.Data.List.Infix

/-!
# Wildcard patterns

A pattern of literals and wildcards over a text, as the `LIKE` of a database reads it: a
sign for any run of characters, one for any single character, and an escape before a
character that stands for itself. Letters are compared by a fold.
-/

namespace Clearotron

inductive Wild
  | lit (c : Char)
  | one
  | any
  deriving DecidableEq, Repr

namespace Wild

variable {fold : Char → Char}

/-- A pattern as written, after an escape sign or not; none where it ends on the sign. -/
def parseFrom (esc : Option Char) : Bool → List Char → Option (List Wild)
  | escaped, [] => if escaped then none else some []
  | true, c :: rest => (parseFrom esc false rest).map (lit c :: ·)
  | false, c :: rest =>
    if esc = some c then parseFrom esc true rest
    else (parseFrom esc false rest).map
      ((if c = '%' then any else if c = '_' then one else lit c) :: ·)

/-- A pattern as written, with an escape sign or without. -/
def parse (esc : Option Char) (pattern : List Char) : Option (List Wild) :=
  parseFrom esc false pattern

example : parse (some '!') ['a', '!', '%', '%'] = some [lit 'a', lit '%', any] := by
  simp [parse, parseFrom]

/-- Does the text match the pattern? -/
def runs (fold : Char → Char) : List Wild → List Char → Bool
  | [], text => text.isEmpty
  | lit a :: ps, text =>
    match text with
    | [] => false
    | c :: text => fold a = fold c && runs fold ps text
  | one :: ps, text =>
    match text with
    | [] => false
    | _ :: text => runs fold ps text
  | any :: ps, text => text.tails.any (runs fold ps)

example : runs id [any, lit 'b'] ['a', 'b'] = true := by simp [runs]

/-- The text, each sign of it escaped. -/
def escape (esc : Char) (text : List Char) : List Char :=
  text.flatMap fun c => if c = esc ∨ c = '%' ∨ c = '_' then [esc, c] else [c]

def lits (text : List Char) : List Wild := text.map lit

theorem parse_escaped (esc d : Char) (rest : List Char) :
    parse (some esc) (esc :: d :: rest) = (parse (some esc) rest).map (lit d :: ·) := by
  rw [parse, parseFrom, if_pos rfl]
  rfl

theorem parse_cons_of_ne {esc : Option Char} {c : Char} (plain : esc ≠ some c) (rest : List Char) :
    parse esc (c :: rest) =
      (parse esc rest).map ((if c = '%' then any else if c = '_' then one else lit c) :: ·) := by
  rw [parse, parseFrom, if_neg plain]
  rfl

/-- An escaped text is its own letters, whatever follows it. -/
theorem parse_escape_append {esc : Char} (text rest : List Char) :
    parse (some esc) (escape esc text ++ rest) = (parse (some esc) rest).map (lits text ++ ·) := by
  induction text with
  | nil => simp [escape, lits]
  | cons c text ih =>
      have tail : escape esc (c :: text) ++ rest =
          (if c = esc ∨ c = '%' ∨ c = '_' then [esc, c] else [c]) ++ (escape esc text ++ rest) := by
        simp [escape]
      rw [tail]
      split
      · rw [List.cons_append, List.cons_append, List.nil_append, parse_escaped, ih,
          Option.map_map]
        rfl
      · rename_i plain
        simp only [not_or] at plain
        rw [List.cons_append, List.nil_append, parse_cons_of_ne (by simpa using Ne.symm plain.1), if_neg plain.2.1,
          if_neg plain.2.2, ih, Option.map_map]
        rfl

theorem parse_escape (esc : Char) (text : List Char) :
    parse (some esc) (escape esc text) = some (lits text) := by
  have whole := @parse_escape_append esc text []
  simpa [parse, parseFrom] using whole

theorem parse_percent {esc : Option Char} (plain : esc ≠ some '%') (rest : List Char) :
    parse esc ('%' :: rest) = (parse esc rest).map (any :: ·) := by
  rw [parse_cons_of_ne plain, if_pos rfl]

/-- Without an escape sign, letters that are no wildcard are read as they are. -/
theorem parse_plain_append {text : List Char} (plain : ∀ c ∈ text, c ≠ '%' ∧ c ≠ '_')
    (rest : List Char) : parse none (text ++ rest) = (parse none rest).map (lits text ++ ·) := by
  induction text with
  | nil => simp [lits]
  | cons c text ih =>
      have head := plain c (List.mem_cons_self ..)
      have unescaped : (none : Option Char) ≠ some c := nofun
      rw [List.cons_append, parse_cons_of_ne unescaped, if_neg head.1, if_neg head.2,
        ih fun d mem => plain d (List.mem_cons_of_mem c mem), Option.map_map]
      rfl

/-- Literals match what they fold to. -/
theorem runs_lits_append (front : List Char) (ps : List Wild) (text : List Char) :
    runs fold (lits front ++ ps) text = true ↔
      ∃ head rest, text = head ++ rest ∧ head.map fold = front.map fold ∧
        runs fold ps rest = true := by
  induction front generalizing text with
  | nil => simp [lits]
  | cons a front ih =>
      cases text with
      | nil => simp [lits, runs]
      | cons c text =>
          have step : runs fold (lits (a :: front) ++ ps) (c :: text) = true ↔
              fold a = fold c ∧ runs fold (lits front ++ ps) text = true := by
            simp [lits, runs]
          rw [step, ih]
          constructor
          · rintro ⟨same, head, rest, rfl, folds, runs⟩
            exact ⟨c :: head, rest, rfl, by simp [same, folds], runs⟩
          · rintro ⟨head, rest, split, folds, runs⟩
            cases head with
            | nil => cases folds
            | cons d head =>
                obtain ⟨rfl, rfl⟩ := List.cons.inj split
                simp only [List.map_cons, List.cons.injEq] at folds
                exact ⟨folds.1.symm, head, rest, rfl, folds.2, runs⟩

theorem runs_any (ps : List Wild) (text : List Char) :
    runs fold (any :: ps) text = true ↔ ∃ rest, rest <:+ text ∧ runs fold ps rest = true := by
  simp [runs]

theorem runs_last_any (text : List Char) : runs fold [any] text = true := by
  rw [runs_any]
  exact ⟨[], List.nil_suffix, rfl⟩

/-- More in front of what starts with any run. -/
theorem runs_any_append {ps : List Wild} {text : List Char} (matched : runs fold (any :: ps) text = true)
    (front : List Char) : runs fold (any :: ps) (front ++ text) = true := by
  obtain ⟨rest, ends, matched⟩ := (runs_any ps text).mp matched
  exact (runs_any ps (front ++ text)).mpr
    ⟨rest, ends.trans (List.suffix_append front text), matched⟩

/-- More behind what ends with any run. -/
theorem runs_append_any {ps : List Wild} {text : List Char}
    (matched : runs fold (ps ++ [any]) text = true) (back : List Char) :
    runs fold (ps ++ [any]) (text ++ back) = true := by
  induction ps generalizing text with
  | nil => exact runs_last_any (text ++ back)
  | cons w ps ih =>
      cases w with
      | lit a =>
          cases text with
          | nil => cases matched
          | cons c text =>
              simp only [List.cons_append, runs, Bool.and_eq_true] at matched ⊢
              exact ⟨matched.1, ih matched.2⟩
      | one =>
          cases text with
          | nil => cases matched
          | cons c text => exact ih matched
      | any =>
          obtain ⟨rest, ⟨front, rfl⟩, found⟩ := (runs_any _ text).mp matched
          refine (runs_any _ _).mpr ⟨rest ++ back, ⟨front, ?_⟩, ih found⟩
          rw [List.append_assoc]

/-- A star more at either end matches no less. -/
theorem runs_cons_any {ps : List Wild} {text : List Char} (matched : runs fold ps text = true) :
    runs fold (any :: ps) text = true :=
  (runs_any ps text).mpr ⟨text, List.suffix_rfl, matched⟩

theorem runs_concat_any {ps : List Wild} {text : List Char} (matched : runs fold ps text = true) :
    runs fold (ps ++ [any]) text = true := by
  induction ps generalizing text with
  | nil => exact runs_last_any text
  | cons p ps ih =>
      cases p with
      | lit a =>
          cases text with
          | nil => cases matched
          | cons c text =>
              simp only [List.cons_append, runs, Bool.and_eq_true] at matched ⊢
              exact ⟨matched.1, ih matched.2⟩
      | one =>
          cases text with
          | nil => cases matched
          | cons c text =>
              simp only [List.cons_append, runs] at matched ⊢
              exact ih matched
      | any =>
          obtain ⟨rest, ends, found⟩ := (runs_any ps text).mp matched
          exact (runs_any _ text).mpr ⟨rest, ends, ih found⟩

/-- A pattern reads letters by their fold. -/
theorem runs_congr {ps : List Wild} {s t : List Char} (same : s.map fold = t.map fold)
    (matched : runs fold ps s = true) : runs fold ps t = true := by
  induction ps generalizing s t with
  | nil =>
      have nil : s = [] := by simpa [runs] using matched
      rw [nil, List.map_nil, eq_comm, List.map_eq_nil_iff] at same
      rw [same]
      rfl
  | cons w ps ih =>
      cases w with
      | lit a =>
          cases s with
          | nil => cases matched
          | cons c s =>
              obtain ⟨d, t, rfl, folds, tail⟩ := List.map_eq_cons_iff.mp same.symm
              simp only [runs, Bool.and_eq_true, decide_eq_true_eq] at matched ⊢
              exact ⟨matched.1.trans folds.symm, ih tail.symm matched.2⟩
      | one =>
          cases s with
          | nil => cases matched
          | cons c s =>
              obtain ⟨d, t, rfl, folds, tail⟩ := List.map_eq_cons_iff.mp same.symm
              exact ih tail.symm matched
      | any =>
          obtain ⟨rest, ⟨front, rfl⟩, found⟩ := (runs_any _ s).mp matched
          rw [List.map_append] at same
          obtain ⟨front', rest', rfl, -, tail⟩ := List.map_eq_append_iff.mp same.symm
          exact (runs_any _ _).mpr ⟨rest', List.suffix_append front' rest', ih tail.symm found⟩

theorem map_fixed {text : List Char} (plain : ∀ c ∈ text, fold c = c) : text.map fold = text :=
  (List.map_congr_left plain).trans (List.map_id text)

section

variable {front text : List Char} (plainFront : ∀ c ∈ front, fold c = c)
  (plainText : ∀ c ∈ text, fold c = c)

include plainFront plainText

theorem head_eq_of_folds {head rest : List Char} (split : text = head ++ rest)
    (folds : head.map fold = front.map fold) : head = front := by
  have plainHead : ∀ c ∈ head, fold c = c :=
    fun c mem => plainText c (split ▸ List.mem_append_left rest mem)
  rwa [map_fixed plainHead, map_fixed plainFront] at folds

/-- `text%`: the texts that start so. -/
theorem runs_starts : runs fold (lits front ++ [any]) text = true ↔ front <+: text := by
  rw [runs_lits_append]
  constructor
  · rintro ⟨head, rest, split, folds, -⟩
    obtain rfl := head_eq_of_folds plainFront plainText split folds
    exact ⟨rest, split.symm⟩
  · rintro ⟨rest, rfl⟩
    exact ⟨front, rest, rfl, rfl, runs_last_any rest⟩

/-- `%text`: the texts that end so. -/
theorem runs_ends : runs fold (any :: lits front) text = true ↔ front <:+ text := by
  rw [runs_any]
  constructor
  · rintro ⟨rest, ends, runs⟩
    rw [← List.append_nil (lits front), runs_lits_append] at runs
    obtain ⟨head, last, split, folds, empty⟩ := runs
    have nil : last = [] := by simpa [Wild.runs] using empty
    have plainRest : ∀ c ∈ rest, fold c = c := fun c mem => plainText c (ends.subset mem)
    obtain rfl := head_eq_of_folds plainFront plainRest split folds
    rw [split, nil, List.append_nil] at ends
    exact ends
  · rintro ends
    refine ⟨front, ends, ?_⟩
    rw [← List.append_nil (lits front), runs_lits_append]
    exact ⟨front, [], (List.append_nil front).symm, rfl, rfl⟩

/-- `%text%`: the texts that hold it. -/
theorem runs_holds : runs fold (any :: (lits front ++ [any])) text = true ↔ front <:+: text := by
  rw [runs_any]
  constructor
  · rintro ⟨rest, ends, runs⟩
    have plainRest : ∀ c ∈ rest, fold c = c := fun c mem => plainText c (ends.subset mem)
    rw [runs_starts plainFront plainRest] at runs
    exact runs.isInfix.trans ends.isInfix
  · rintro ⟨before, after, rfl⟩
    refine ⟨front ++ after, ⟨before, by simp⟩, ?_⟩
    have plainRest : ∀ c ∈ front ++ after, fold c = c := by
      intro c mem
      apply plainText c
      simp only [List.mem_append] at mem ⊢
      exact mem.elim (fun h => .inl (.inr h)) .inr
    exact (runs_starts plainFront plainRest).mpr ⟨after, rfl⟩

end

end Wild

end Clearotron
