import Clearotron.Plan.Compiled

/-!
# The identical question

The client's own mark is asked as it is, in the classes of the order, in merchandise and in each
class the frame added, and nothing of it waits for the reading turn. A register that reads a
word of the mark as a command is asked its words in order instead.
-/

namespace Clearotron

section

variable {T : PlanText} {i : CompileInput} {plan : CompiledPlan} {source part : Ask} {e : Entry}

/-- The pushes of the identical question. -/
def identicalAsks (i : CompileInput) : List Ask := identicalAsk i :: merchAsk i :: addedAsks i

/-- An entry on the whole mark, as it is written or as its words in order. -/
def OnMark (mark : String) (e : Entry) : Prop :=
  e.term = some mark ∨ e.term = some (movedTerm mark)

/-- The whole mark is asked, and no entry of its question waits. -/
structure AskedFirst (T : PlanText) (i : CompileInput) (plan : CompiledPlan) : Prop where
  asked : ∃ e ∈ plan.entries, OnMark i.manifest.mark e ∧ e.niceClasses = plan.niceClasses ∧
    (e.guard = none ∨ e.unsupported = true)
  never_waits : ∀ p ∈ compiled T i, p.1 ∈ identicalAsks i → p.2.guard = none

/-- The mark is asked in another form than its own. -/
def markMoves (T : PlanText) (i : CompileInput) : Prop :=
  hasAnchoredWildcard i.manifest.mark = false ∧ isMoved T i.capabilities i.manifest.mark = true

instance : Decidable (markMoves T i) := inferInstanceAs (Decidable (_ ∧ _))

/-- What the pushes of the identical question share. -/
structure IsIdentical (i : CompileInput) (a : Ask) : Prop where
  axis : a.axis = .primarySweep
  predicate : a.predicate = markPredicate i.manifest.mark
  term : a.term = some i.manifest.mark
  terms : a.terms = none
  provenance : a.provenance = .mark
  goodsText : a.goodsText = []
  dropIssue : a.dropIssue = none

theorem isIdentical_identicalAsk (i : CompileInput) : IsIdentical i (identicalAsk i) := by
  constructor <;> simp only [identicalAsk]

theorem IsIdentical.of_rest {a b : Ask} (is : IsIdentical i a) (classes : Option (List String))
    (suffix : String) (same : b = { a with niceClasses := classes, qidSuffix := suffix }) :
    IsIdentical i b := by
  subst same
  exact ⟨is.axis, is.predicate, is.term, is.terms, is.provenance, is.goodsText, is.dropIssue⟩

theorem isIdentical_of_mem (mem : source ∈ identicalAsks i) : IsIdentical i source := by
  have own := isIdentical_identicalAsk i
  obtain rfl | rest := List.mem_cons.mp mem
  · exact own
  · obtain rfl | added := List.mem_cons.mp rest
    · exact own.of_rest (some ["25"]) "+merch" rfl
    · obtain ⟨row, -, is⟩ := List.mem_map.mp added
      exact own.of_rest (some [row.cls]) ("+class" ++ row.cls) is.symm

theorem identical_asked (mem : source ∈ identicalAsks i) : source ∈ i.asks T := by
  refine List.mem_append_left _ ?_
  obtain rfl | rest := List.mem_cons.mp mem
  · refine List.mem_append_left _ (List.mem_append_left _ (List.mem_append_left _
      (List.mem_append_left _ (List.mem_append_right _ List.mem_cons_self))))
  · exact List.mem_append_right _ rest

theorem identical_suffix (mem : source ∈ identicalAsks i) : source.qidSuffix ≠ "+form" := by
  obtain rfl | rest := List.mem_cons.mp mem
  · simp [identicalAsk]
  · obtain rfl | added := List.mem_cons.mp rest
    · simp [merchAsk]
    · obtain ⟨row, -, rfl⟩ := List.mem_map.mp added
      intro same
      have chars := congrArg String.toList same
      simp at chars

theorem markPredicate_eq_exact {t : String} :
    markPredicate t = .exact ↔ hasAnchoredWildcard t = false := by
  unfold markPredicate
  cases hasAnchoredWildcard t <;> simp

theorem markPredicate_ne_default (t : String) : markPredicate t ≠ .default := by
  unfold markPredicate
  cases hasAnchoredWildcard t <;> simp

/-- The identical question is asked as it is, or in order. -/
theorem identical_split (is : IsIdentical i source) : source.split T i.capabilities =
    if markMoves T i then [source.moved i.manifest.mark] else [source] := by
  have names : source.names = [i.manifest.mark] := by simp [Ask.names, is.terms, is.term]
  rw [Ask.split, exactOperatorEntries, names, is.predicate]
  by_cases moves : markMoves T i
  · obtain ⟨literal, moved⟩ := moves
    simp [markMoves, literal, moved, markPredicate_eq_exact.mpr literal, Ask.kept]
  · rw [if_neg moves, if_pos, Option.getD_none]
    rw [markMoves, not_and_or, Bool.not_eq_false, Bool.not_eq_true] at moves
    obtain pattern | stays := moves
    · exact .inl (by simp [markPredicate_eq_exact, pattern])
    · exact .inr (by simp [stays])

/-- What stands against the moved question stands against it in any class. -/
theorem pushGap_moved (is : IsIdentical i source) : pushGap T i (source.moved i.manifest.mark) =
    pushGap T i ((identicalAsk i).moved i.manifest.mark) := by
  have own := isIdentical_identicalAsk i
  simp only [pushGap, Ask.moved, Ask.names, Ask.firstTerm, is.goodsText, is.dropIssue,
    own.goodsText, own.dropIssue]

/-- Whether a part of the identical question waits: only one that was moved, and can be asked. -/
theorem waits_identical (mem : source ∈ identicalAsks i)
    (isPart : part ∈ source.split T i.capabilities) (is : IsEntryOf T i part e) :
    waits T i.manifest.mark e = true ↔ markMoves T i ∧
      pushGap T i ((identicalAsk i).moved i.manifest.mark) = none := by
  have source' := isIdentical_of_mem mem
  have band : isSpellingBandEntry e = false := by
    have named := (asks_named (identical_asked (T := T) mem)).of_split isPart
    rw [Bool.eq_false_iff, ne_eq, isSpellingBandEntry_iff named is]
    have own : part.rest.qidSuffix = source.rest.qidSuffix :=
      congrArg Ask.qidSuffix (split_of_mem isPart).1
    exact fun form => identical_suffix mem (own.symm.trans form)
  obtain ⟨n, rfl⟩ := is
  rw [identical_split source'] at isPart
  by_cases moves : markMoves T i
  · rw [if_pos moves] at isPart
    obtain rfl := List.mem_singleton.mp isPart
    rw [← pushGap_moved source', waits, band]
    simp only [entryOf, isIdenticalQuestion, Entry.goodsTermsList, moves, true_and]
    generalize pushGap T i (source.moved i.manifest.mark) = gap
    simp only [Ask.moved, source'.axis, source'.goodsText]
    cases gap <;> simp
  · rw [if_neg moves] at isPart
    obtain rfl := List.mem_singleton.mp isPart
    have identical : isIdenticalQuestion T i.manifest.mark
        (entryOf T i (ordinalQid (qidStem T part) n) part) = true := by
      simp only [isIdenticalQuestion, entryOf, source'.provenance, Entry.goodsTermsList,
        source'.goodsText, source'.predicate, source'.term]
      simp [markPredicate_ne_default]
    simp [waits, identical, moves]

theorem guard_withWait (guard : e.guard = none) :
    (withWait T i.manifest.mark e).guard = none ↔ ¬ waits T i.manifest.mark e = true := by
  unfold withWait
  split <;> simp_all

theorem IsEntryOf.guard (is : IsEntryOf T i part e) : e.guard = none := by
  obtain ⟨n, rfl⟩ := is
  rfl

/-- A question that was moved, and can be asked, waits. -/
theorem moved_waits (moves : markMoves T i)
    (open' : pushGap T i ((identicalAsk i).moved i.manifest.mark) = none) :
    ¬ AskedFirst T i plan := by
  intro first
  have own : identicalAsk i ∈ identicalAsks i := List.mem_cons_self
  have isPart : (identicalAsk i).moved i.manifest.mark ∈
      (identicalAsk i).split T i.capabilities := by
    rw [identical_split (isIdentical_identicalAsk i), if_pos moves]
    exact List.mem_singleton_self _
  obtain ⟨e, is, mem⟩ := exists_compiled_of_mem (identical_asked own) isPart
  have free := first.never_waits _ mem own
  rw [guard_withWait is.guard, waits_identical own isPart is] at free
  exact free ⟨moves, open'⟩

theorem compile_entries (ok : compileRegisterPlan T i = .ok plan) :
    plan.entries = (compiled T i).map Prod.snd ∧ plan.niceClasses = i.niceClasses := by
  unfold compileRegisterPlan at ok
  split at ok
  · cases ok
  · obtain rfl := Except.ok.inj ok
    exact ⟨rfl, rfl⟩

/-- The identical question is asked first exactly where the register's operator words leave the
mark as it is, or leave it in a form that cannot be asked there at all. -/
theorem identical_asked_first (ok : compileRegisterPlan T i = .ok plan) : AskedFirst T i plan ↔
    (markMoves T i → (pushGap T i ((identicalAsk i).moved i.manifest.mark)).isSome) := by
  obtain ⟨entries, classes⟩ := compile_entries ok
  constructor
  · intro first moves
    rw [Option.isSome_iff_ne_none]
    exact fun open' => moved_waits moves open' first
  · intro closed
    have never : ∀ p ∈ compiled T i, p.1 ∈ identicalAsks i → p.2.guard = none := by
      intro p mem own
      obtain ⟨part, e, -, isPart, is, same⟩ := exists_of_mem_compiled mem
      rw [same, guard_withWait is.guard, waits_identical own isPart is]
      rintro ⟨moves, open'⟩
      simp [open'] at closed
      exact closed moves
    have own : identicalAsk i ∈ identicalAsks i := List.mem_cons_self
    have identical := isIdentical_identicalAsk i
    obtain ⟨part, isPart, onMark, partClasses⟩ : ∃ part ∈ (identicalAsk i).split T i.capabilities,
        (part.term = some i.manifest.mark ∨ part.term = some (movedTerm i.manifest.mark)) ∧
          part.niceClasses = none := by
      rw [identical_split identical]
      split
      · exact ⟨_, List.mem_singleton_self _, .inr rfl, rfl⟩
      · exact ⟨_, List.mem_singleton_self _, .inl identical.term, rfl⟩
    obtain ⟨e, is, mem⟩ := exists_compiled_of_mem (identical_asked own) isPart
    refine ⟨⟨_, entries ▸ List.mem_map_of_mem mem, ?_, ?_, .inl (never _ mem own)⟩, never⟩
    · obtain ⟨n, rfl⟩ := is
      rw [OnMark, withWait_term]
      exact onMark
    · obtain ⟨n, rfl⟩ := is
      rw [withWait_niceClasses, classes, entryOf, partClasses]
      rfl

/-- A matter of one class, on a register that reads operator words. -/
def operatorMatter (predicates : Option (String → Option String)) : CompileInput where
  manifest := { mark := "SALT AND PEPPER", dominantElement := "SALT" }
  classes := ["9"]
  capabilities := some { exactOperatorWords := ["AND", "OR", "NOT"], predicates }

theorem identical_asked_first_exactOnly :
    ∃ plan, compileRegisterPlan plainPlanText
        (operatorMatter (some fun p => if p = "exact" then some "identical" else none)) = .ok plan ∧
      AskedFirst plainPlanText
        (operatorMatter (some fun p => if p = "exact" then some "identical" else none)) plan :=
  ⟨_, rfl, (identical_asked_first rfl).mpr fun _ => by decide +kernel⟩

/-- A mark with an operator word in it is made to wait for the reading turn. -/
theorem operator_word_makes_the_mark_wait : ¬ ∀ (T : PlanText) (i : CompileInput)
    (plan : CompiledPlan), compileRegisterPlan T i = .ok plan → AskedFirst T i plan :=
  fun all => moved_waits (by decide +kernel) (by decide +kernel)
    (all plainPlanText (operatorMatter none) _ rfl)

end

end Clearotron
