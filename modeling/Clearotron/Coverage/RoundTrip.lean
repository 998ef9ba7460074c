import Clearotron.Coverage.Renders
import Clearotron.Library.Each

/-!
# The renders, read back

A row comes back from the machine ledger with its axis and its status, and with its unit
where that is written behind its axis. From the table it comes back by itself, on one line,
as long as nothing in its cells had to be escaped.
-/

namespace Clearotron

variable {R : Locale}

/-- A unit is the axis, or the axis and a scope behind a slash. -/
inductive UnitOfAxis (axis : String) : String → Prop
  | bare : UnitOfAxis axis axis
  | withScope (scope : String) (named : scope ≠ "") (trimmed : Text.trim scope = scope) :
      UnitOfAxis axis (axis ++ " / " ++ scope)

namespace Text

theorem afterSlash_dropWhile (l : List Char) :
    (l.dropWhile isSpace).dropWhile (· ≠ '/') = l.dropWhile (· ≠ '/') := by
  induction l with
  | nil => rfl
  | cons c rest ih =>
      by_cases blank : isSpace c = true
      · have notSlash : decide (c ≠ '/') = true := by
          apply decide_eq_true
          rintro rfl
          exact absurd blank (by decide)
        rw [List.dropWhile_cons_of_pos blank, ih, List.dropWhile_cons, if_pos notSlash]
      · rw [List.dropWhile_cons_of_neg blank]

end Text

/-- The scope of a unit does not depend on the blanks at the unit's ends. -/
theorem scopeOf_trim (unit : String) : scopeOf (Text.trim unit) = scopeOf unit := by
  have back (l : List Char) :
      Text.trim (String.ofList (((l.rdropWhile Text.isSpace).dropWhile (· ≠ '/')).drop 1)) =
        Text.trim (String.ofList ((l.dropWhile (· ≠ '/')).drop 1)) := by
    induction l using List.reverseRecOn with
    | nil => rfl
    | append_singleton l c ih =>
        by_cases blank : Text.isSpace c = true
        · have notSlash : decide (c ≠ '/') = true := by
            apply decide_eq_true
            rintro rfl
            exact absurd blank (by decide)
          rw [List.rdropWhile_concat_pos _ _ _ blank, ih, List.dropWhile_append]
          split
          · rename_i none
            rw [List.isEmpty_iff.mp none, List.dropWhile_cons, if_pos notSlash]
            rfl
          · rename_i some
            have cons : (l.dropWhile (· ≠ '/')) ≠ [] := by simpa using some
            rw [List.drop_append_of_le_length (List.length_pos_iff.mpr cons),
              Text.trim_concat_space _ blank]
        · rw [List.rdropWhile_concat_neg _ _ _ blank]
  have ends : (Text.trim unit).toList =
      (unit.toList.dropWhile Text.isSpace).rdropWhile Text.isSpace := by
    rw [Text.trim, String.toList_ofList]
    rfl
  unfold scopeOf
  rw [ends, back, Text.afterSlash_dropWhile]

theorem no_slash_axis {axis : String} (known : axis ∈ registerAxisNames) :
    ∀ c ∈ axis.toList, decide (c ≠ '/') = true := by
  intro c mem
  apply decide_eq_true
  rintro rfl
  obtain lower | dash := isToken_axis known '/' mem
  · exact absurd lower (by decide)
  · exact absurd dash (by decide)

theorem scopeOf_bare {axis : String} (known : axis ∈ registerAxisNames) : scopeOf axis = "" := by
  unfold scopeOf
  rw [List.dropWhile_eq_nil_iff.mpr (no_slash_axis known)]
  rfl

theorem scopeOf_scoped {axis : String} (known : axis ∈ registerAxisNames) (scope : String) :
    scopeOf (axis ++ " / " ++ scope) = Text.trim scope := by
  have front : ∀ c ∈ axis.toList ++ [' '], decide (c ≠ '/') = true := by
    intro c mem
    obtain mem | mem := List.mem_append.mp mem
    · exact no_slash_axis known c mem
    · rw [List.mem_singleton.mp mem]
      decide
  have whole : (axis ++ " / " ++ scope).toList =
      (axis.toList ++ [' ']) ++ '/' :: ' ' :: scope.toList := by simp
  unfold scopeOf
  rw [whole, List.dropWhile_append_of_pos front, List.dropWhile_cons_of_neg (by decide)]
  show Text.trim (String.ofList (' ' :: scope.toList)) = _
  rw [Text.trim, String.toList_ofList, List.dropWhile_cons_of_pos (by decide)]
  rfl

theorem mem_of_mem_pushNew {l known : List String} {x : String}
    (mem : x ∈ l.foldl pushNew known) : x ∈ known ∨ x ∈ l := by
  induction l generalizing known with
  | nil => exact .inl mem
  | cons y l ih =>
      obtain old | new := ih mem
      · obtain old | rfl := mem_pushNew.mp old
        · exact .inl old
        · exact .inr (List.mem_cons_self ..)
      · exact .inr (List.mem_cons_of_mem _ new)

/-- What the driver writes as a class, the parser takes as one. -/
theorem isClassToken_of_mem {runs : List String} {c : String}
    (mem : c ∈ classTokensFromScopeText runs) : isClassToken (Text.trim c) = true := by
  have small : ∀ n < 46, 1 ≤ n → isClassToken (Text.trim (toString n)) = true := by decide
  obtain none | mem := mem_of_mem_pushNew mem
  · cases none
  · obtain ⟨n, isClass, rfl⟩ := List.mem_map.mp mem
    have range := of_decide_eq_true (List.mem_filter.mp isClass).2
    apply small n <;> omega

/-- What a row's own columns come back as. -/
def readBack (R : Locale) (classRuns : String → List String) (r : FormRow) : ParsedJsonRow :=
  let axis := R.lower (Text.trim r.axis)
  let row := ledgerJsonRow R classRuns r
  { axis, scope := row.scope, status := R.lower (Text.trim r.status), reason := r.reason
    classes := row.classes.map (·.map Text.trim)
    qid := (row.qid.map Text.trim).filter (· ≠ "")
    unit := if row.scope = "" then axis else axis ++ " / " ++ row.scope }

theorem readJsonRow_ledgerJsonRow {classRuns : String → List String} {r : FormRow}
    (onAxis : R.lower (Text.trim r.axis) ∈ registerAxisNames)
    (settled : R.lower (Text.trim r.status) ∈ coverageStatuses) :
    readJsonRow R (ledgerJsonRow R classRuns r) = .ok (readBack R classRuns r) := by
  have axis : normalizeAxis R (ledgerJsonRow R classRuns r).axis "" = R.lower (Text.trim r.axis) :=
    normalizeAxis_axis R onAxis ""
  have token := isToken_status settled
  have status : R.lower (Text.trim (ledgerJsonRow R classRuns r).status) =
      R.lower (Text.trim r.status) := by
    show R.lower (Text.trim (R.lower (Text.trim r.status))) = _
    rw [token.trim, token.lower]
  have scope : Text.trim (ledgerJsonRow R classRuns r).scope = (ledgerJsonRow R classRuns r).scope :=
    Text.trim_trim _
  have classes : ((((ledgerJsonRow R classRuns r).classes.map (·.map Text.trim)).getD []).any
      (!isClassToken ·)) = false := by
    apply List.any_eq_false.mpr
    intro c mem
    unfold ledgerJsonRow at mem
    dsimp only at mem
    split at mem
    · cases mem
    · obtain ⟨token, isClass, rfl⟩ := List.mem_map.mp mem
      rw [isClassToken_of_mem isClass]
      decide
  unfold readJsonRow
  simp only [axis, status, scope, classes]
  rw [if_neg (not_not_intro onAxis), if_neg (not_not_intro settled)]
  rfl

theorem mem_usableRows {rows : List FormRow} {r : FormRow} (mem : r ∈ usableRows R rows) :
    R.lower (Text.trim r.status) ∈ coverageStatuses :=
  (of_decide_eq_true (List.mem_filter.mp mem).2).2

/-- The machine ledger is read row by row. -/
theorem parse_renderJson {classRuns : String → List String} {rows : List FormRow}
    (some : usableRows R rows ≠ [])
    (onAxis : ∀ r ∈ usableRows R rows, R.lower (Text.trim r.axis) ∈ registerAxisNames) :
    parseCoverageLedgerJson R [] (renderCoverageLedgerJsonFromForm R classRuns rows) =
      .ok ((usableRows R rows).map (readBack R classRuns)) := by
  have each : ∀ row ∈ usableRows R rows,
      (readJsonRow R ∘ ledgerJsonRow R classRuns) row = .ok (readBack R classRuns row) :=
    fun r mem => readJsonRow_ledgerJsonRow (onAxis r mem) (mem_usableRows mem)
  unfold parseCoverageLedgerJson renderCoverageLedgerJsonFromForm
  rw [if_neg (by simpa using some), List.mapM_map, mapM_ok each]
  rfl

theorem readBack_unit {classRuns : String → List String} {r : FormRow} {unit : String}
    (onAxis : R.lower (Text.trim r.axis) ∈ registerAxisNames) (given : r.unit = some unit)
    (ofAxis : UnitOfAxis (R.lower (Text.trim r.axis)) (Text.trim unit)) :
    (readBack R classRuns r).unit = (ledgerRow R r).unit := by
  have scope : (ledgerJsonRow R classRuns r).scope = scopeOf (Text.trim unit) := by
    rw [scopeOf_trim]
    show scopeOf (r.unit.getD r.axis) = _
    rw [given]
    rfl
  have whole : (ledgerRow R r).unit = Text.trim unit := by
    show Text.trim (r.unit.getD r.axis) = _
    rw [given]
    rfl
  rw [whole]
  unfold readBack
  dsimp only
  rw [scope]
  generalize Text.trim unit = cut at ofAxis
  cases ofAxis with
  | bare => rw [scopeOf_bare onAxis, if_pos rfl]
  | withScope scope named trimmed => rw [scopeOf_scoped onAxis, trimmed, if_neg named]

/-- A text in which nothing is escaped. -/
def Unescaped (s : String) : Prop := ∀ c ∈ s.toList, c ≠ '\\' ∧ c ≠ '|'

instance (s : String) : Decidable (Unescaped s) := List.decidableBAll _ s.toList

theorem cell_unescaped {s : String} (plain : Unescaped s) : cell s = Text.tidy s := by
  have same (l : List Char) (plain : ∀ c ∈ l, c ≠ '\\' ∧ c ≠ '|') : l.flatMap cellEscape = l := by
    induction l with
    | nil => rfl
    | cons c rest ih =>
        have one : cellEscape c = [c] := by
          obtain ⟨noSlash, noBar⟩ := plain c (List.mem_cons_self ..)
          exact if_neg (by simp [noSlash, noBar])
        rw [List.flatMap_cons, one, ih fun d mem => plain d (List.mem_cons_of_mem _ mem)]
        rfl
  unfold cell
  rw [same _ plain, String.ofList_toList]

namespace Text

theorem squeezed_tidy (s : String) : Squeezed (tidy s).toList := by
  apply (squeezed_squeeze s.toList).of_part
  simpa [tidy, collapseSpaces] using trim_part (collapseSpaces s)

/-- A tidied text is one line. -/
theorem no_newline_tidy (s : String) : '\n' ∉ (tidy s).toList := by
  intro mem
  exact absurd ((squeezed_tidy s).plain _ mem (by decide)) (by decide)

theorem mem_squeeze {l : List Char} {c : Char} (mem : c ∈ squeeze l) : c ∈ l ∨ c = ' ' := by
  induction l with
  | nil => cases mem
  | cons d rest ih =>
      unfold squeeze at mem
      have later : c ∈ squeeze rest → c ∈ d :: rest ∨ c = ' ' := by
        intro mem
        obtain mem | blank := ih mem
        · exact .inl (List.mem_cons_of_mem _ mem)
        · exact .inr blank
      split at mem
      · split at mem
        · exact later mem
        · obtain rfl | mem := List.mem_cons.mp mem
          · exact .inr rfl
          · exact later mem
      · obtain rfl | mem := List.mem_cons.mp mem
        · exact .inl (List.mem_cons_self ..)
        · exact later mem

theorem mem_tidy {s : String} {c : Char} (mem : c ∈ (tidy s).toList) : c ∈ s.toList ∨ c = ' ' := by
  apply mem_squeeze
  have := (trim_part (collapseSpaces s)).subset mem
  simpa [collapseSpaces] using this

end Text

theorem no_bar_tidy {s : String} (plain : Unescaped s) : '|' ∉ (Text.tidy s).toList := by
  intro mem
  obtain mem | blank := Text.mem_tidy mem
  · exact (plain _ mem).2 rfl
  · cases blank

theorem reasonCell_bare (reason : String) : reasonCell reason "" = cell reason := by
  unfold reasonCell
  by_cases blank : cell reason = ""
  · rw [if_pos rfl, blank]
    rfl
  · rw [if_pos rfl, List.filter_cons_of_pos (by simpa using blank)]
    rfl

theorem reasonCell_detail {reason detail : String} (given : detail ≠ "") :
    reasonCell reason detail =
      (if cell reason = "" then "" else cell reason ++ " ") ++ ("(" ++ cell detail ++ ")") := by
  have bracket : ("(" ++ cell detail ++ ")" ≠ "") := by
    intro blank
    have := congrArg String.toList blank
    simp at this
  unfold reasonCell
  rw [if_neg given]
  by_cases blank : cell reason = ""
  · rw [if_pos blank, blank]
    simp [bracket]
  · rw [if_neg blank, List.filter_cons_of_pos (by simpa using blank),
      List.filter_cons_of_pos (by simp [bracket])]
    rfl

theorem mem_reasonCell {reason detail : String} {c : Char}
    (mem : c ∈ (reasonCell reason detail).toList) :
    c ∈ (cell reason).toList ∨ c ∈ (cell detail).toList ∨ c ∈ [' ', '(', ')'] := by
  by_cases none : detail = ""
  · rw [none, reasonCell_bare] at mem
    exact .inl mem
  · rw [reasonCell_detail none] at mem
    simp only [String.toList_append, List.mem_append] at mem
    obtain mem | (mem | mem) | mem := mem
    · split at mem
      · cases mem
      · rw [String.toList_append, List.mem_append] at mem
        obtain mem | mem := mem
        · exact .inl mem
        · rw [show " ".toList = [' '] from rfl, List.mem_singleton] at mem
          simp [mem]
    · rw [show "(".toList = ['('] from rfl, List.mem_singleton] at mem
      simp [mem]
    · exact .inr (.inl mem)
    · rw [show ")".toList = [')'] from rfl, List.mem_singleton] at mem
      simp [mem]

namespace Text

theorem trim_of_ends {front last : Char} {l : List Char} (solid : isSpace front = false)
    (closed : isSpace last = false) :
    trim (String.ofList (front :: (l ++ [last]))) = String.ofList (front :: (l ++ [last])) := by
  rw [trim, String.toList_ofList, List.dropWhile_cons_of_neg (by simp [solid])]
  have keep : (front :: (l ++ [last])).rdropWhile isSpace = front :: (l ++ [last]) :=
    List.rdropWhile_concat_neg isSpace (front :: l) last (by simp [closed])
  exact congrArg String.ofList keep

theorem head_trim {s : String} {c : Char} {l : List Char} (cons : (trim s).toList = c :: l) :
    isSpace c = false := by
  have front : (trim s).toList <+: s.toList.dropWhile isSpace := by
    rw [trim, String.toList_ofList]
    exact List.rdropWhile_prefix isSpace _
  rw [cons] at front
  obtain ⟨tail, whole⟩ := front
  have plain := List.head?_dropWhile_not isSpace s.toList
  rw [← whole] at plain
  simpa using plain

/-- The blanks a cell is padded with. -/
theorem trim_padded (s : String) : trim (String.ofList (' ' :: (s.toList ++ [' ']))) = trim s := by
  have front : trim (String.ofList (' ' :: (s.toList ++ [' ']))) =
      trim (String.ofList (s.toList ++ [' '])) := by
    rw [trim, String.toList_ofList, List.dropWhile_cons_of_pos (by decide), trim,
      String.toList_ofList]
  rw [front, trim_concat_space _ (by decide), String.ofList_toList]

end Text

theorem trim_cell (s : String) : Text.trim (cell s) = cell s := Text.trim_tidy _

theorem trim_reasonCell (reason detail : String) :
    Text.trim (reasonCell reason detail) = reasonCell reason detail := by
  by_cases none : detail = ""
  · rw [none, reasonCell_bare, trim_cell]
  · rw [reasonCell_detail none]
    cases chars : (cell reason).toList with
    | nil =>
        rw [if_pos (String.toList_inj.mp chars)]
        have whole : "" ++ ("(" ++ cell detail ++ ")") =
            String.ofList ('(' :: ((cell detail).toList ++ [')'])) := by
          apply String.toList_inj.mp
          simp
        rw [whole]
        exact Text.trim_of_ends (by decide) (by decide)
    | cons c l =>
        have given : cell reason ≠ "" := by
          intro blank
          rw [blank] at chars
          cases chars
        have whole : (cell reason ++ " ") ++ ("(" ++ cell detail ++ ")") =
            String.ofList (c :: ((l ++ ' ' :: '(' :: (cell detail).toList) ++ [')'])) := by
          apply String.toList_inj.mp
          simp [chars]
        have solid : Text.isSpace c = false := by
          rw [← trim_cell] at chars
          exact Text.head_trim chars
        rw [if_neg given, whole]
        exact Text.trim_of_ends solid (by decide)

/-- Two cells without a bar are the first two cells of their line, and a third one the third. -/
theorem lineCells_row {unit status reason qid : String} (unitPlain : '|' ∉ unit.toList)
    (statusPlain : '|' ∉ status.toList) :
    ∃ rest, lineCells ("| " ++ unit ++ " | " ++ status ++ " | " ++ reason ++ " | " ++ qid ++ " |") =
        Text.trim unit :: Text.trim status :: rest ∧
      ('|' ∉ reason.toList → rest.head? = some (Text.trim reason)) := by
  let tail : List Char := ' ' :: (qid.toList ++ [' '])
  let behind : List Char := ' ' :: (reason.toList ++ [' ']) ++ '|' :: tail
  let body : List Char :=
    ' ' :: (unit.toList ++ [' ']) ++ '|' :: (' ' :: (status.toList ++ [' ']) ++ '|' :: behind)
  have whole : ("| " ++ unit ++ " | " ++ status ++ " | " ++ reason ++ " | " ++ qid ++ " |").toList =
      '|' :: (body ++ ['|']) := by simp [body, behind, tail]
  have padded {cell : String} (plain : '|' ∉ cell.toList) : '|' ∉ ' ' :: (cell.toList ++ [' ']) := by
    simpa using plain
  refine ⟨(behind.splitOn '|').map fun part => Text.trim (String.ofList part), ?_, fun plain => ?_⟩
  · unfold lineCells
    rw [whole, List.dropWhile_cons_of_neg (by decide)]
    show List.map _ (List.splitOn '|' (if ((body ++ ['|']).rdropWhile Text.isSpace).getLast? =
      some '|' then ((body ++ ['|']).rdropWhile Text.isSpace).dropLast else body ++ ['|'])) = _
    rw [List.rdropWhile_concat_neg _ _ _ (by decide), List.getLast?_concat, if_pos rfl,
      List.dropLast_concat]
    show List.map _ (List.splitOn '|' (' ' :: (unit.toList ++ [' ']) ++ '|' :: _)) = _
    rw [List.splitOn_append_cons_self_of_not_mem (padded unitPlain),
      List.splitOn_append_cons_self_of_not_mem (padded statusPlain)]
    simp only [List.map_cons, Text.trim_padded]
  · show ((List.splitOn '|' (' ' :: (reason.toList ++ [' ']) ++ '|' :: tail)).map _).head? = _
    rw [List.splitOn_append_cons_self_of_not_mem (padded plain)]
    simp only [List.map_cons, List.head?_cons, Text.trim_padded]

/-- A text with its bars and backslashes escaped. -/
def escaped (s : String) : String := String.ofList (s.toList.flatMap cellEscape)

theorem dropWhile_escape (l : List Char) :
    (l.flatMap cellEscape).dropWhile Text.isSpace = (l.dropWhile Text.isSpace).flatMap cellEscape := by
  induction l with
  | nil => rfl
  | cons c rest ih =>
      rw [List.flatMap_cons]
      by_cases blank : Text.isSpace c = true
      · have same : cellEscape c = [c] := by
          refine if_neg ?_
          rintro (rfl | rfl) <;> exact absurd blank (by decide)
        rw [same, List.singleton_append, List.dropWhile_cons_of_pos blank,
          List.dropWhile_cons_of_pos blank, ih]
      · rw [List.dropWhile_cons_of_neg blank, List.flatMap_cons, cellEscape]
        split
        · exact List.dropWhile_cons_of_neg (by decide)
        · exact List.dropWhile_cons_of_neg blank

theorem rdropWhile_escape (l : List Char) :
    (l.flatMap cellEscape).rdropWhile Text.isSpace =
      (l.rdropWhile Text.isSpace).flatMap cellEscape := by
  induction l using List.reverseRecOn with
  | nil => rfl
  | append_singleton l c ih =>
      rw [List.flatMap_append, List.flatMap_singleton]
      by_cases blank : Text.isSpace c = true
      · have same : cellEscape c = [c] := by
          refine if_neg ?_
          rintro (rfl | rfl) <;> exact absurd blank (by decide)
        rw [same, List.rdropWhile_concat_pos _ _ _ blank, List.rdropWhile_concat_pos _ _ _ blank, ih]
      · rw [List.rdropWhile_concat_neg _ _ _ blank, List.flatMap_append, List.flatMap_singleton]
        unfold cellEscape
        split
        · rw [List.append_cons, List.rdropWhile_concat_neg _ _ _ blank]
        · exact List.rdropWhile_concat_neg _ _ _ blank

/-- No blank is escaped. -/
theorem trim_escaped (s : String) : Text.trim (escaped s) = escaped (Text.trim s) := by
  have ends (s : String) : (Text.trim s).toList =
      (s.toList.dropWhile Text.isSpace).rdropWhile Text.isSpace := by
    rw [Text.trim, String.toList_ofList]
    rfl
  apply String.toList_inj.mp
  rw [ends, escaped, escaped, String.toList_ofList, String.toList_ofList, ends, dropWhile_escape,
    rdropWhile_escape]

theorem no_bar_cell {s : String} (plain : '|' ∉ s.toList) : '|' ∉ (cell s).toList := by
  intro mem
  obtain mem | blank := Text.mem_tidy mem
  · rw [String.toList_ofList, List.mem_flatMap] at mem
    obtain ⟨c, own, bar⟩ := mem
    unfold cellEscape at bar
    split at bar
    · obtain bar | bar := List.mem_cons.mp bar
      · exact absurd bar (by decide)
      · exact plain (List.mem_singleton.mp bar ▸ own)
    · exact plain (List.mem_singleton.mp bar ▸ own)
  · cases blank

/-- A unit written behind its axis is still that with its scope escaped. -/
theorem UnitOfAxis.escaped {axis unit : String} (known : axis ∈ registerAxisNames)
    (ofAxis : UnitOfAxis axis (Text.trim unit)) : UnitOfAxis axis (Text.trim (escaped unit)) := by
  have plain (l : List Char) (none : ∀ c ∈ l, c ≠ '\\' ∧ c ≠ '|') : l.flatMap cellEscape = l := by
    induction l with
    | nil => rfl
    | cons c l ih =>
        have one : cellEscape c = [c] := by
          obtain ⟨noSlash, noBar⟩ := none c (List.mem_cons_self ..)
          exact if_neg (by simp [noSlash, noBar])
        rw [List.flatMap_cons, one, ih fun d mem => none d (List.mem_cons_of_mem _ mem)]
        rfl
  have token : ∀ axis ∈ registerAxisNames, ∀ c ∈ axis.toList, c ≠ '\\' ∧ c ≠ '|' := by
    have all : (registerAxisNames.all fun axis =>
        axis.toList.all fun c => c != '\\' && c != '|') = true := rfl
    intro axis isAxis c mem
    have apart := List.all_eq_true.mp (List.all_eq_true.mp all axis isAxis) c mem
    exact ⟨by simpa using (Bool.and_eq_true_iff.mp apart).1,
      by simpa using (Bool.and_eq_true_iff.mp apart).2⟩
  rw [trim_escaped]
  generalize Text.trim unit = cut at ofAxis
  cases ofAxis with
  | bare =>
      rw [Clearotron.escaped, plain _ (token axis known), String.ofList_toList]
      exact .bare
  | withScope scope named trimmed =>
      have whole : Clearotron.escaped (axis ++ " / " ++ scope) =
          axis ++ " / " ++ Clearotron.escaped scope := by
        apply String.toList_inj.mp
        rw [Clearotron.escaped, String.toList_ofList, String.toList_append, String.toList_append,
          List.flatMap_append, List.flatMap_append, plain _ (token axis known)]
        simp [Clearotron.escaped, cellEscape]
      rw [whole]
      refine .withScope _ ?_ (by rw [trim_escaped, trimmed])
      intro empty
      have none : scope.toList.flatMap cellEscape = [] := by
        simpa [Clearotron.escaped] using congrArg String.toList empty
      refine named (String.toList_inj.mp ?_)
      rw [String.toList_empty]
      refine List.eq_nil_iff_forall_not_mem.mpr fun c mem => ?_
      have nothing := List.flatMap_eq_nil_iff.mp none c mem
      unfold cellEscape at nothing
      split at nothing <;> cases nothing

variable {sentence : String → Option String} {r : FormRow}

/-- What the line of a row is read as. -/
def tableRow (R : Locale) (sentence : String → Option String) (r : FormRow) : Option LedgerRow :=
  (readLine R (tableLine R sentence r)).row?

/-- Nothing of what the row says last is escaped. -/
structure PlainReason (sentence : String → Option String) (r : FormRow) : Prop where
  reason : Unescaped r.reason
  detail : Unescaped (ledgerDetail sentence r)

theorem no_bar_reasonCell (plain : PlainReason sentence r) :
    '|' ∉ (reasonCell r.reason (ledgerDetail sentence r)).toList := by
  intro mem
  obtain mem | mem | mem := mem_reasonCell mem
  · rw [cell_unescaped plain.reason] at mem
    exact no_bar_tidy plain.reason mem
  · rw [cell_unescaped plain.detail] at mem
    exact no_bar_tidy plain.detail mem
  · revert mem
    decide

/-- A status is found in its own cell. -/
theorem status_cell {status : String} (known : status ∈ coverageStatuses) :
    cell status = status ∧ '|' ∉ status.toList ∧ statusIn status.toList = some status := by
  revert status
  decide

theorem readLine_of_cells {line unit status word : String} {rest : List String}
    (cells : lineCells line = unit :: status :: rest)
    (found : statusIn status.toList = some word) :
    readLine R line =
      if isRuleCell unit then .skip
      else if normalizeAxis R (unitHead unit) unit = "" then
        .dropped (String.ofList ((Text.tidy line).toList.take 120)) none
      else .row ⟨normalizeAxis R (unitHead unit) unit, word, unit, rest.head?.getD ""⟩ := by
  unfold readLine
  simp only [cells, found]

/-- What the line of a row whose unit holds no bar is read as. -/
theorem readLine_tableLine (settled : R.lower (Text.trim r.status) ∈ coverageStatuses)
    (noBar : '|' ∉ (r.unit.getD "").toList) :
    ∃ reason, (readLine R (tableLine R sentence r) =
      if isRuleCell (cell (r.unit.getD "")) then .skip
      else if normalizeAxis R (unitHead (cell (r.unit.getD ""))) (cell (r.unit.getD "")) = ""
      then .dropped (String.ofList ((Text.tidy (tableLine R sentence r)).toList.take 120)) none
      else
        .row ⟨normalizeAxis R (unitHead (cell (r.unit.getD ""))) (cell (r.unit.getD "")),
          R.lower (Text.trim r.status), cell (r.unit.getD ""), reason⟩) ∧
      (PlainReason sentence r → reason = reasonCell r.reason (ledgerDetail sentence r)) := by
  obtain ⟨statusCell, statusPlain, found⟩ := status_cell settled
  have token := isToken_status settled
  obtain ⟨rest, cells, third⟩ := @lineCells_row _ _ (reasonCell r.reason (ledgerDetail sentence r))
    (cell (r.qid.getD "—")) (no_bar_cell noBar) statusPlain
  have line : tableLine R sentence r =
      "| " ++ cell (r.unit.getD "") ++ " | " ++ R.lower (Text.trim r.status) ++ " | " ++
        reasonCell r.reason (ledgerDetail sentence r) ++ " | " ++ cell (r.qid.getD "—") ++ " |" := by
    rw [tableLine, statusCell]
  rw [← line, token.trim, trim_cell] at cells
  refine ⟨rest.head?.getD "", readLine_of_cells cells found, fun plain => ?_⟩
  rw [third (no_bar_reasonCell plain), Option.getD_some, trim_reasonCell]

/-- A cell with a slash in it is neither the table's heading nor the line under it. -/
theorem no_rule_of_slash {unit : String} (slash : '/' ∈ unit.toList) : isRuleCell unit = false := by
  have heading : unit.toList.map Char.toLower ≠ "coverage unit".toList := by
    intro same
    have mem := List.mem_map_of_mem (f := Char.toLower) slash
    rw [same] at mem
    revert mem
    decide
  have rule : (unit.toList.all fun c => c = '-' || c = ':' || Text.isSpace c) = false := by
    apply List.all_eq_false.mpr
    exact ⟨'/', slash, by decide⟩
  unfold isRuleCell
  rw [rule, Bool.and_false, Bool.or_false, decide_eq_false heading]

theorem cleanAxisToken_padded (R : Locale) {axis : String} (known : axis ∈ registerAxisNames) :
    cleanAxisToken R (axis ++ " ") = axis := by
  have plain : ∀ axis ∈ registerAxisNames,
      dropBrackets false ((axis ++ " ").toList.filter fun c => c ≠ '*' ∧ c ≠ '_' ∧ c.toNat ≠ 96) =
        (axis ++ " ").toList := by decide
  have cut : ∀ axis ∈ registerAxisNames, Text.trim (Text.collapseSpaces (axis ++ " ")) = axis := by
    decide
  unfold cleanAxisToken
  dsimp only
  rw [plain axis known, String.ofList_toList, cut axis known, (isToken_axis known).lower]

/-- The unit's cell of a row whose unit is written behind its axis. -/
theorem unit_cell {axis unit : String} (known : axis ∈ registerAxisNames)
    (ofAxis : UnitOfAxis axis (Text.trim unit)) :
    isRuleCell (Text.tidy unit) = false ∧
      ∀ whole, normalizeAxis R (unitHead (Text.tidy unit)) whole = axis := by
  have token := isToken_axis known
  have noSlash := no_slash_axis known
  have comm : Text.tidy unit = Text.collapseSpaces (Text.trim unit) := Text.trim_collapseSpaces unit
  rw [comm]
  generalize Text.trim unit = cut at ofAxis
  cases ofAxis with
  | bare =>
      rw [Text.collapseSpaces_of_no_space token.not_space]
      have all : unitHead axis = axis := by
        rw [unitHead, List.takeWhile_eq_self_iff.mpr noSlash, String.ofList_toList]
      refine ⟨?_, fun whole => ?_⟩
      · revert known
        generalize axis = axis
        revert axis
        decide
      · rw [all, normalizeAxis_axis R known]
  | withScope scope named trimmed =>
      have front : Text.squeeze (axis.toList ++ [' ']) = axis.toList ++ [' '] := by
        have last : axis.toList.getLast?.any Text.isSpace = false := by
          rw [Option.any_eq_false]
          intro c isLast
          simpa using token.not_space c (List.mem_of_getLast? isLast)
        rw [Text.squeeze_concat, if_pos (by decide), if_neg (by simp [last]),
          Text.squeeze_of_no_space token.not_space]
      have chars : (Text.collapseSpaces (axis ++ " / " ++ scope)).toList =
          (axis.toList ++ [' ']) ++ '/' :: Text.squeeze (' ' :: scope.toList) := by
        have whole : (axis ++ " / " ++ scope).toList =
            (axis.toList ++ [' ']) ++ '/' :: ' ' :: scope.toList := by simp
        rw [Text.collapseSpaces, String.toList_ofList, whole, Text.squeeze_append_cons (by decide),
          front]
      have head : unitHead (Text.collapseSpaces (axis ++ " / " ++ scope)) = axis ++ " " := by
        have plain : ∀ c ∈ axis.toList ++ [' '], decide (c ≠ '/') = true := by
          intro c mem
          obtain mem | mem := List.mem_append.mp mem
          · exact no_slash_axis known c mem
          · obtain rfl := List.mem_singleton.mp mem
            rfl
        apply String.toList_inj.mp
        rw [unitHead, String.toList_ofList, chars, List.takeWhile_append_of_pos plain,
          List.takeWhile_cons_of_neg (by decide)]
        simp
      have slash : '/' ∈ (Text.collapseSpaces (axis ++ " / " ++ scope)).toList := by
        rw [chars]
        simp
      refine ⟨no_rule_of_slash slash, fun whole => ?_⟩
      rw [head, normalizeAxis, cleanAxisToken_padded R known]
      exact if_pos known

theorem no_newline_tableLine (sentence : String → Option String) (r : FormRow) :
    '\n' ∉ (tableLine R sentence r).toList := by
  have line (s : String) : '\n' ∉ (cell s).toList := Text.no_newline_tidy _
  have reason : '\n' ∉ (reasonCell r.reason (ledgerDetail sentence r)).toList := by
    intro mem
    obtain mem | mem | mem := mem_reasonCell mem
    · exact line _ mem
    · exact line _ mem
    · revert mem
      decide
  simp [tableLine, line, reason]

/-- A row's line is a line of a table, and no heading. -/
theorem isTableLine_tableLine (sentence : String → Option String) (r : FormRow) :
    headingText (tableLine R sentence r) = none ∧ isTableLine (tableLine R sentence r) = true := by
  have first : (tableLine R sentence r).toList.head? = some '|' := by simp [tableLine]
  cases chars : (tableLine R sentence r).toList with
  | nil =>
      rw [chars] at first
      cases first
  | cons c l =>
      rw [chars] at first
      obtain rfl : c = '|' := by simpa using first
      constructor
      · unfold headingText
        simp [chars]
      · unfold isTableLine
        rw [chars, List.dropWhile_cons_of_neg (by decide)]
        rfl

theorem readLines_append_table {front : List String} (lines : List String)
    (each : ∀ line ∈ front, headingText line = none ∧ isTableLine line = true) :
    readLines R true (front ++ lines) = front.map (readLine R) ++ readLines R true lines := by
  induction front with
  | nil => rfl
  | cons line rest ih =>
      obtain ⟨plain, isTable⟩ := each line (List.mem_cons_self ..)
      rw [List.cons_append, readLines, plain]
      dsimp only
      rw [if_pos ⟨rfl, isTable⟩, ih fun line mem => each line (List.mem_cons_of_mem _ mem)]
      rfl

theorem readLines_append_prose {front : List String} (inLedger : Bool) (lines : List String)
    (each : ∀ line ∈ front, headingText line = none ∧ isTableLine line = false) :
    readLines R inLedger (front ++ lines) = readLines R inLedger lines := by
  induction front with
  | nil => rfl
  | cons line rest ih =>
      obtain ⟨plain, isTable⟩ := each line (List.mem_cons_self ..)
      rw [List.cons_append, readLines, plain]
      dsimp only
      rw [if_neg (by simp [isTable]), ih fun line mem => each line (List.mem_cons_of_mem _ mem)]

/-- A line that starts with no sign of a heading or of a table is prose. -/
theorem prose_of_start {c : Char} {text : List Char} (heading : c ≠ '#') (table : c ≠ '|')
    (letter : Text.isSpace c = false) :
    headingText (String.ofList (c :: text)) = none ∧
      isTableLine (String.ofList (c :: text)) = false := by
  unfold headingText isTableLine
  rw [String.toList_ofList]
  constructor
  · simp [heading]
  · simp [letter, table]

theorem table_of_start {text : List Char} :
    headingText (String.ofList ('|' :: text)) = none ∧
      isTableLine (String.ofList ('|' :: text)) = true := by
  unfold headingText isTableLine
  rw [String.toList_ofList]
  constructor
  · simp
  · rfl

theorem not_mem_ofList {c : Char} {text : List Char} (absent : c ∉ text) :
    c ∉ (String.ofList text).toList := by
  rwa [String.toList_ofList]

/-- The head of the section opens the ledger, and no line of it is a row. -/
theorem readLines_head (lines : List String) :
    (readLines R false (ledgerHead ++ lines)).filterMap LineRead.row? =
      (readLines R true lines).filterMap LineRead.row? := by
  have opens : headingText "## Coverage ledger" = some "Coverage ledger" := by
    unfold headingText
    rw [String.toList_ofList]
    rfl
  have ledger : Text.includesFold "Coverage ledger" "coverage ledger" = true := by decide
  have prose : ∀ line ∈ (ledgerHead.drop 1).take 5,
      headingText line = none ∧ isTableLine line = false := by
    have blank : headingText "" = none ∧ isTableLine "" = false := by decide
    simp only [ledgerHead, List.drop_succ_cons, List.drop_zero, List.take_succ_cons,
      List.take_zero, List.forall_mem_cons]
    exact ⟨blank, prose_of_start (by decide) (by decide) (by decide),
      prose_of_start (by decide) (by decide) (by decide),
      prose_of_start (by decide) (by decide) (by decide), blank, fun line mem => absurd mem List.not_mem_nil⟩
  have table : ∀ line ∈ ledgerHead.drop 6, headingText line = none ∧ isTableLine line = true := by
    simp only [ledgerHead, List.drop_succ_cons, List.drop_zero, List.forall_mem_cons]
    exact ⟨table_of_start, table_of_start, fun line mem => absurd mem List.not_mem_nil⟩
  have rules : ∀ line ∈ ledgerHead.drop 6, readLine R line = .skip := by
    have heading : lineCells "| Coverage unit | Status | Reason | Query id |" =
        ["Coverage unit", "Status", "Reason", "Query id"] := by decide
    have rule : lineCells "|---|---|---|---|" = ["---", "---", "---", "---"] := by decide
    intro line mem
    obtain rfl | rfl : line = "| Coverage unit | Status | Reason | Query id |" ∨
        line = "|---|---|---|---|" := by simpa [ledgerHead] using mem
    · unfold readLine
      rw [heading]
      exact if_pos (by decide)
    · unfold readLine
      rw [rule]
      exact if_pos (by decide)
  have skipped : ((ledgerHead.drop 6).map (readLine R)).filterMap LineRead.row? = [] := by
    rw [List.filterMap_map, List.filterMap_eq_nil_iff]
    intro line mem
    show (readLine R line).row? = none
    rw [rules line mem]
    rfl
  show (readLines R false ("## Coverage ledger" ::
    ((ledgerHead.drop 1).take 5 ++ (ledgerHead.drop 6 ++ lines)))).filterMap _ = _
  rw [readLines, opens]
  dsimp only
  rw [ledger, readLines_append_prose true _ prose, readLines_append_table lines table,
    List.filterMap_append, skipped]
  rfl

/-- Each printed row is read from its own line. -/
theorem parse_renderSection (sentence : String → Option String) (rows : List FormRow) :
    (parseCoverageLedgerFull R (renderCoverageLedgerSection R sentence rows)).rows =
      (usableRows R rows).filterMap (tableRow R sentence) := by
  unfold renderCoverageLedgerSection
  split
  · rename_i none
    rw [none]
    rfl
  · have lines : ∀ l ∈ (ledgerHead ++ (usableRows R rows).map (tableLine R sentence)).map
        String.toList, '\n' ∉ l := by
      intro l mem
      obtain ⟨line, isLine, rfl⟩ := List.mem_map.mp mem
      obtain isHead | isRow := List.mem_append.mp isLine
      · have head : ∀ line ∈ ledgerHead, '\n' ∉ line.toList := by
          simp only [ledgerHead, List.forall_mem_cons]
          refine ⟨?_, ?_, ?_, ?_, ?_, ?_, ?_, ?_, fun line mem => absurd mem List.not_mem_nil⟩ <;>
            exact not_mem_ofList (by simp)
        exact head line isHead
      · obtain ⟨r, -, rfl⟩ := List.mem_map.mp isRow
        exact no_newline_tableLine sentence r
    have split : (("\n".intercalate (ledgerHead ++ (usableRows R rows).map (tableLine R
        sentence))).toList.splitOn '\n').map String.ofList =
        ledgerHead ++ (usableRows R rows).map (tableLine R sentence) := by
      have newline : "\n".toList = ['\n'] := rfl
      have some_line : (ledgerHead ++ (usableRows R rows).map (tableLine R sentence)).map
          String.toList ≠ [] := by
        simp only [ne_eq, List.map_eq_nil_iff, List.append_eq_nil_iff, not_and]
        intro noHead
        cases noHead
      have back : String.ofList ∘ String.toList = id := funext fun _ => String.ofList_toList
      rw [String.toList_intercalate, newline, List.splitOn_intercalate '\n' lines some_line,
        List.map_map, back, List.map_id]
    have table : ∀ line ∈ (usableRows R rows).map (tableLine R sentence),
        headingText line = none ∧ isTableLine line = true := by
      intro line mem
      obtain ⟨r, -, rfl⟩ := List.mem_map.mp mem
      exact isTableLine_tableLine sentence r
    have whole := readLines_append_table (R := R) [] table
    have none : readLines R true [] = [] := rfl
    rw [List.append_nil, none, List.append_nil] at whole
    unfold parseCoverageLedgerFull
    dsimp only
    have each : tableRow R sentence = fun r => (readLine R (tableLine R sentence r)).row? := rfl
    rw [split, readLines_head, whole, List.map_map, List.filterMap_map, each]
    simp only [Function.comp_def]

/-- What the driver knows of a row stands in brackets behind the row's reason. -/
theorem reasonCell_plain (plain : PlainReason sentence r) :
    reasonCell r.reason (ledgerDetail sentence r) =
      if ledgerDetail sentence r = "" then Text.tidy (ledgerRow R r).reason
      else (if Text.tidy (ledgerRow R r).reason = "" then "" else
          Text.tidy (ledgerRow R r).reason ++ " ") ++
        ("(" ++ Text.tidy (ledgerDetail sentence r) ++ ")") := by
  have tidied : cell r.reason = Text.tidy (ledgerRow R r).reason := by
    show _ = Text.tidy (Text.trim r.reason)
    rw [Text.tidy_trim, cell_unescaped plain.reason]
  split
  · rename_i none
    rw [none, reasonCell_bare, tidied]
  · rename_i given
    rw [reasonCell_detail given, tidied, cell_unescaped plain.detail]

theorem forall₂_map {α β : Type} {f : α → β} {P : α → β → Prop} {l : List α}
    (each : ∀ x ∈ l, P x (f x)) : List.Forall₂ P l (l.map f) := by
  induction l with
  | nil => exact .nil
  | cons x l ih =>
      exact .cons (each x (List.mem_cons_self ..)) (ih fun y mem => each y (List.mem_cons_of_mem _ mem))

theorem row?_ite {rule : Bool} {P : Prop} [Decidable P] {line : String}
    {offEnum : Option (String × String × String)} {x t : LedgerRow}
    (read : (if rule then LineRead.skip else if P then .dropped line offEnum else .row x).row? =
      some t) : t = x := by
  split at read
  · cases read
  · split at read
    · cases read
    · exact (Option.some.inj read).symm

/-- What a row whose unit holds no bar is read as, where it is read as a row. -/
theorem tableRow_read (settled : R.lower (Text.trim r.status) ∈ coverageStatuses)
    (noBar : '|' ∉ (r.unit.getD "").toList) {t : LedgerRow}
    (read : tableRow R sentence r = some t) :
    t.status = R.lower (Text.trim r.status) ∧ t.unit = cell (r.unit.getD "") ∧
      (PlainReason sentence r → t.reason = reasonCell r.reason (ledgerDetail sentence r)) := by
  obtain ⟨reason, is, plain⟩ := @readLine_tableLine R sentence r settled noBar
  unfold tableRow at read
  rw [is] at read
  rw [row?_ite read]
  exact ⟨rfl, rfl, plain⟩

/-- It is read as a row of its own axis where its unit is written behind that. -/
theorem tableRow_axis (settled : R.lower (Text.trim r.status) ∈ coverageStatuses) {axis unit : String}
    (given : r.unit = some unit) (noBar : '|' ∉ unit.toList)
    (known : axis ∈ registerAxisNames) (ofAxis : UnitOfAxis axis (Text.trim unit)) :
    ∃ t, tableRow R sentence r = some t ∧ t.axis = axis := by
  have own : r.unit.getD "" = unit := by
    rw [given]
    rfl
  obtain ⟨noRule, head⟩ := unit_cell (R := R) known (ofAxis.escaped known)
  obtain ⟨reason, is, -⟩ := @readLine_tableLine R sentence r settled (own ▸ noBar)
  have cellIs : cell unit = Text.tidy (escaped unit) := rfl
  unfold tableRow
  rw [is, own, cellIs, noRule, head, if_neg (by decide), if_neg (axis_ne_empty known)]
  exact ⟨_, rfl, rfl⟩

/-- The row of an open crowd, set aside. -/
def crowdRow : FormRow :=
  { axis := "primary-sweep", kind := "block", unit := some "primary-sweep / NOVA"
    qid := some "q-1", isOpen := true, status := "coverage-limited", reason := "read in part"
    totalHits := some 12 }

/-- An office the run did not reach, disclosed. -/
def officeLeft : FormRow :=
  { CoverageInput.officeRow "primary-sweep" 0 (some "US", "no provider") with
    status := "deferred", reason := "not searched" }

end Clearotron
