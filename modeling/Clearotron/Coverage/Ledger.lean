import Clearotron.Plan.Entry
import Clearotron.Plan.Territories

/-!
# The coverage ledger's vocabulary

The axes and the statuses of the ledger are closed sets. An axis is repaired where it was
typed with noise around it, and never invented; a status is taken as it stands.
-/

namespace Clearotron

/-- `REGISTER_AXES`, as the ledger spells them. -/
def registerAxisNames : List String := registerAxes.map Axis.text

/-- `COVERAGE_STATUSES`. -/
def coverageStatuses : List String :=
  ["confirmed-clean", "coverage-limited", "deferred", "withheld-by-judgment"]

/-- `/\([^)]*\)/g` as a blank each; `inside` a bracket that is closed further on. -/
def dropBrackets : Bool → List Char → List Char
  | _, [] => []
  | false, c :: rest =>
    if c = '(' ∧ ')' ∈ rest then dropBrackets true rest else c :: dropBrackets false rest
  | true, c :: rest =>
    if c = ')' then ' ' :: dropBrackets false rest else dropBrackets true rest

section

variable (R : Locale)

/-- An axis cell without emphasis, code marks and bracketed remarks. -/
def cleanAxisToken (s : String) : String :=
  let plain := s.toList.filter fun c => c ≠ '*' ∧ c ≠ '_' ∧ c.toNat ≠ 96
  R.lower (Text.trim (Text.collapseSpaces (String.ofList (dropBrackets false plain))))

/-- One of the spellings `left right`, `left-right` and `leftright` occurs. -/
def occursPair (front back : Bool) (left right : String) (hay : String) : Bool :=
  [" ", "-", ""].any fun between =>
    Text.occursAt front back (left ++ between ++ right).toList none hay.toList

/-- The words of a sweep that belongs to the incumbent class. -/
def ownerSweep (hay : String) : Bool :=
  occursPair true false "owner" "sweep" hay || occursPair false false "watchlist" "owner" hay ||
    Text.occursAt true true "incumbent".toList none hay.toList ||
    occursPair false false "stealth" "filer" hay

/-- The words of a check that belongs to the primary sweep. -/
def crossCheck (hay : String) : Bool :=
  occursPair true false "cross" "check" hay || occursPair false false "cross" "class" hay ||
    Text.occursAt true true "merch".toList none hay.toList ||
    Text.occursAt true false "merchandis".toList none hay.toList ||
    occursPair false true "option" "d" hay

def isBareCode (s : String) : Bool :=
  match s.toList with
  | [a, b] => a.isLower && b.isLower
  | _ => false

/-- The axis a cell names, else the cell, cleaned. `whole` is the cell it stood in. -/
def normalizeAxis (raw whole : String) : String :=
  let cleaned := cleanAxisToken R raw
  if cleaned ∈ registerAxisNames then cleaned
  else
    let hay := cleaned ++ " " ++ cleanAxisToken R whole
    match registerAxisNames.find? fun a => Text.includes hay a with
    | some axis => axis
    | none =>
      if ownerSweep hay then "incumbent-class"
      else if crossCheck hay then "primary-sweep"
      else if isBareCode cleaned then "primary-sweep"
      else cleaned

end

/-- The letters of an axis or a status. -/
def isToken (s : String) : Prop := ∀ c ∈ s.toList, c.isLower = true ∨ c = '-'

instance (s : String) : Decidable (isToken s) := List.decidableBAll _ s.toList

theorem isToken_axis {axis : String} (known : axis ∈ registerAxisNames) : isToken axis := by
  revert axis
  decide

theorem isToken_status {status : String} (known : status ∈ coverageStatuses) : isToken status := by
  revert status
  decide

namespace isToken

variable {s : String}

theorem lower_range (c : Char) (h : c.isLower = true ∨ c = '-') :
    c.toNat = 45 ∨ 97 ≤ c.toNat ∧ c.toNat ≤ 122 := by
  obtain h | rfl := h
  · right
    have range := Bool.and_eq_true_iff.mp h
    exact ⟨of_decide_eq_true range.1, of_decide_eq_true range.2⟩
  · left
    rfl

theorem not_space (token : isToken s) : ∀ c ∈ s.toList, Text.isSpace c = false := by
  intro c mem
  have range := lower_range c (token c mem)
  simp only [Text.isSpace, List.mem_cons, List.not_mem_nil, or_false, Bool.or_eq_false_iff,
    decide_eq_false_iff_not, Bool.and_eq_false_iff]
  constructor
  · omega
  · left
    omega

theorem trim (token : isToken s) : Text.trim s = s := Text.trim_of_no_space token.not_space

theorem lower (R : Locale) (token : isToken s) : R.lower s = s := by
  apply R.lower_fixed
  intro c mem
  have range := lower_range c (token c mem)
  refine ⟨by omega, ?_⟩
  rw [Bool.eq_false_iff]
  intro isUpper
  have range' := of_decide_eq_true isUpper
  have low : 65 ≤ c.toNat := UInt32.le_iff_toNat_le.mp range'.1
  have high : c.toNat ≤ 90 := UInt32.le_iff_toNat_le.mp range'.2
  omega

end isToken

theorem axis_ne_empty {axis : String} (known : axis ∈ registerAxisNames) : axis ≠ "" := by
  revert axis
  decide

theorem cleanAxisToken_axis (R : Locale) {axis : String} (known : axis ∈ registerAxisNames) :
    cleanAxisToken R axis = axis := by
  have token := isToken_axis known
  have plain : ∀ axis ∈ registerAxisNames,
      dropBrackets false (axis.toList.filter fun c => c ≠ '*' ∧ c ≠ '_' ∧ c.toNat ≠ 96) =
        axis.toList := by decide
  unfold cleanAxisToken
  dsimp only
  rw [plain axis known, String.ofList_toList, Text.collapseSpaces_of_no_space token.not_space,
    token.trim, token.lower]

/-- An axis of the register is its own, whatever cell it stands in. -/
theorem normalizeAxis_axis (R : Locale) {axis : String} (known : axis ∈ registerAxisNames)
    (whole : String) : normalizeAxis R axis whole = axis := by
  unfold normalizeAxis
  dsimp only
  rw [cleanAxisToken_axis R known, if_pos known]

end Clearotron
