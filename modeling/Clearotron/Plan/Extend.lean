import Clearotron.Library.Each
import Clearotron.Plan.Identical

/-!
# A stored plan, extended

A plan that is stored meets a fresh compile. What is stored stays as it is and in its order, but
for a romanisation it gains; what is new is appended, and a name that is taken is changed. What
is new is told by the question, and the classes and regions of a question are no part of it.
-/

namespace Clearotron

section

variable (T : PlanText)

/-- The question of an entry, as it is told apart from others. -/
def questionKey (e : Entry) : String :=
  "\u0001".intercalate [e.axis.text, e.predicate.text,
    match e.terms with
    | some terms => "terms:" ++ "\u0000".intercalate terms
    | none => "term:" ++ e.term.getD "",
    e.owner.getD "", "\u0000".intercalate e.goodsTermsList]

structure Extension where
  plan : CompiledPlan
  added : List String
  enriched : List String

/-- The fresh entry of a stored one: of its name, else of its question. The last one counts. -/
def freshFor (next : CompiledPlan) (e : Entry) : Option Entry :=
  next.entries.reverse.find? (·.qid = e.qid) <|>
    next.entries.reverse.find? (questionKey · = questionKey e)

/-- A stored entry with the romanisation it gains, where it gains one. -/
def enrich (next : CompiledPlan) (e : Entry) : Option Entry :=
  if e.romanizedTerms ≠ [] then none
  else match freshFor next e with
    | none => none
    | some n =>
      if n.romanizedTerms = [] ∨ e.term ≠ n.term ∨ e.terms.isSome ∨ e.predicate = .owner then none
      else some { e with romanizedTerms := n.romanizedTerms }

/-- The names an entry is tried under where its own is taken. -/
def appendedQid (e : Entry) : Nat → String
  | 0 => e.qid
  | 1 => e.qid ++ "~" ++ fingerprint8 T (questionKey e)
  | n + 2 => e.qid ++ "~" ++ fingerprint8 T (questionKey e) ++ "-" ++ toString (n + 2)

/-- New entries, each under a name that is free. -/
def appendAll (taken : List String) : List Entry → List Entry
  | [] => []
  | e :: rest =>
    let qid := firstFree taken (appendedQid T e)
    { e with qid } :: appendAll (qid :: taken) rest

/-- The fresh entries whose question is not stored. -/
def newEntries (prev next : CompiledPlan) : List Entry :=
  next.entries.filter fun e => questionKey e ∉ prev.entries.map questionKey

def extendRegisterPlan (prev next : CompiledPlan) : Extension :=
  let added := newEntries prev next
  let enriched := prev.entries.filterMap fun e => (enrich next e).map Entry.qid
  let entries := prev.entries.map fun e => (enrich next e).getD e
  if added = [] ∧ enriched = [] then ⟨prev, [], []⟩
  else
    let appended := appendAll T (entries.map Entry.qid) added
    { plan :=
        { prev with
          planVersion := some (prev.planVersion.getD 1 + 1)
          entries := entries ++ appended }
      added := appended.map Entry.qid
      enriched }

end

/-- A stored entry as it stands, or with the romanisation a fresh entry of its one term has. -/
def CarriedOn (next : CompiledPlan) (e e' : Entry) : Prop :=
  e' = e ∨ ∃ n ∈ next.entries, (n.qid = e.qid ∨ questionKey n = questionKey e) ∧
    e.term = n.term ∧ e.terms = none ∧ e.predicate ≠ .owner ∧ e.romanizedTerms = [] ∧
    n.romanizedTerms ≠ [] ∧ e' = { e with romanizedTerms := n.romanizedTerms }

/-- A fresh question is asked by an entry: with its own classes and regions, where these are not
what the fresh plan is scoped to. -/
structure AskedBy (next : CompiledPlan) (e e' : Entry) : Prop where
  axis : e'.axis = e.axis
  predicate : e'.predicate = e.predicate
  term : e'.term = e.term
  terms : e'.terms = e.terms
  owner : e'.owner = e.owner
  goods : e'.goodsTermsList = e.goodsTermsList
  classes : e.niceClasses = next.niceClasses ∨ e'.niceClasses = e.niceClasses
  regions : e.regions = next.regions ∨ e'.regions = e.regions

/-- A plan as it comes to be stored: compiled, and extended by what was compiled since. -/
inductive Stored (T : PlanText) : CompiledPlan → Prop where
  | compiled {i : CompileInput} {plan : CompiledPlan} :
    compileRegisterPlan T i = .ok plan → Stored T plan
  | extended {i : CompileInput} {plan fresh : CompiledPlan} : Stored T plan →
    compileRegisterPlan T i = .ok fresh → Stored T (extendRegisterPlan T plan fresh).plan

structure Extends (T : PlanText) (prev next : CompiledPlan) : Prop where
  /-- the stored entries stand first, in their order -/
  kept : ∃ front back, (extendRegisterPlan T prev next).plan.entries = front ++ back ∧
    List.Forall₂ (CarriedOn next) prev.entries front
  unique : ((extendRegisterPlan T prev next).plan.entries.map Entry.qid).Nodup
  complete : ∀ e ∈ next.entries, ∃ e' ∈ (extendRegisterPlan T prev next).plan.entries,
    AskedBy next e e'
  again : (extendRegisterPlan T (extendRegisterPlan T prev next).plan next).added = []

section

variable {T : PlanText} {prev next : CompiledPlan} {e e' n : Entry}

theorem freshFor_some (is : freshFor next e = some n) :
    n ∈ next.entries ∧ (n.qid = e.qid ∨ questionKey n = questionKey e) := by
  rw [freshFor] at is
  cases found : next.entries.reverse.find? (·.qid = e.qid) with
  | some n' =>
    rw [found] at is
    obtain rfl := Option.some.inj is
    exact ⟨List.mem_reverse.mp (List.mem_of_find?_eq_some found),
      .inl (by simpa using List.find?_some found)⟩
  | none =>
    rw [found] at is
    change next.entries.reverse.find? (questionKey · = questionKey e) = some n at is
    exact ⟨List.mem_reverse.mp (List.mem_of_find?_eq_some is),
      .inr (by simpa using List.find?_some is)⟩

theorem carriedOn_enrich (next : CompiledPlan) (e : Entry) :
    CarriedOn next e ((enrich next e).getD e) := by
  unfold enrich
  split
  · exact .inl rfl
  · rename_i bare
    cases found : freshFor next e with
    | none => exact .inl rfl
    | some n =>
      dsimp only
      split
      · exact .inl rfl
      · rename_i gains
        simp only [not_or, not_not] at gains
        obtain ⟨romanized, term, single, other⟩ := gains
        obtain ⟨mem, same⟩ := freshFor_some found
        exact .inr ⟨n, mem, same, term, by simpa using single, other, by simpa using bare,
          romanized, rfl⟩

/-- Of a stored entry only the romanisation changes. -/
theorem CarriedOn.same (carried : CarriedOn next e e') :
    ∃ romanizedTerms, e' = { e with romanizedTerms } := by
  obtain rfl | ⟨n, -, -, -, -, -, -, -, rfl⟩ := carried
  · exact ⟨e'.romanizedTerms, rfl⟩
  · exact ⟨_, rfl⟩

theorem CarriedOn.qid (carried : CarriedOn next e e') : e'.qid = e.qid := by
  obtain ⟨romanized, rfl⟩ := carried.same
  rfl

theorem CarriedOn.questionKey (carried : CarriedOn next e e') :
    questionKey e' = questionKey e := by
  obtain ⟨romanized, rfl⟩ := carried.same
  rfl

theorem appendedQid_injective (T : PlanText) (e : Entry) :
    Function.Injective (appendedQid T e) := by
  -- the tries get longer, and past the second they differ in a number
  have short (n : Nat) : (appendedQid T e (n + 2)).toList.length >
      (appendedQid T e 1).toList.length := by
    simp only [appendedQid, String.toList_append, List.length_append]
    have dash : "-".toList.length = 1 := rfl
    omega
  have shortest : (appendedQid T e 1).toList.length > (appendedQid T e 0).toList.length := by
    simp only [appendedQid, String.toList_append, List.length_append]
    have tilde : "~".toList.length = 1 := rfl
    omega
  intro m n same
  match m, n, same with
  | 0, 0, _ | 1, 1, _ => rfl
  | 0, 1, same | 1, 0, same =>
    rw [same] at shortest
    exact absurd shortest (lt_irrefl _)
  | 0, n + 2, same | n + 2, 0, same =>
    have longer := shortest.trans (short n)
    rw [same] at longer
    exact absurd longer (lt_irrefl _)
  | 1, n + 2, same | n + 2, 1, same =>
    have longer := short n
    rw [same] at longer
    exact absurd longer (lt_irrefl _)
  | m + 2, n + 2, same =>
    have tails := congrArg String.toList same
    simp only [appendedQid, String.toList_append, List.append_assoc,
      List.append_cancel_left_eq, Nat.toString_eq_repr, Nat.toList_repr] at tails
    have numbers := congrArg (fun l => Nat.ofDigitChars 10 l 0) tails
    simp only [Nat.ofDigitChars_ten_toDigits] at numbers
    exact numbers

/-- New entries are appended as they are, but for a name that is taken. -/
theorem appendAll_forall₂ (taken : List String) (entries : List Entry) :
    List.Forall₂ (fun e e' => ∃ qid, e' = { e with qid }) entries (appendAll T taken entries) := by
  induction entries generalizing taken with
  | nil => exact .nil
  | cons e entries ih => exact .cons ⟨_, rfl⟩ (ih _)

theorem appendAll_nodup (taken : List String) (entries : List Entry) :
    ((appendAll T taken entries).map Entry.qid).Nodup ∧
      ∀ e ∈ appendAll T taken entries, e.qid ∉ taken := by
  induction entries generalizing taken with
  | nil => simp [appendAll]
  | cons e entries ih =>
    obtain ⟨nodup, apart⟩ := ih (firstFree taken (appendedQid T e) :: taken)
    rw [appendAll, List.map_cons, List.nodup_cons]
    refine ⟨⟨?_, nodup⟩, List.forall_mem_cons.mpr ⟨?_, fun e' mem own => ?_⟩⟩
    · intro mem
      obtain ⟨e', there, is⟩ := List.mem_map.mp mem
      exact apart e' there (is ▸ List.mem_cons_self)
    · exact firstFree_not_mem taken (appendedQid_injective T e)
    · exact apart e' mem (List.mem_cons_of_mem _ own)

/-- What an extension is made of: the stored entries, carried, and the new ones. -/
structure MadeOf (prev next : CompiledPlan) (entries front back : List Entry) : Prop where
  whole : entries = front ++ back
  carried : List.Forall₂ (CarriedOn next) prev.entries front
  added : List.Forall₂ (fun e e' => ∃ qid, e' = { e with qid }) (newEntries prev next) back
  unique : (prev.entries.map Entry.qid).Nodup → (entries.map Entry.qid).Nodup

theorem extend_madeOf (T : PlanText) (prev next : CompiledPlan) :
    ∃ front back, MadeOf prev next (extendRegisterPlan T prev next).plan.entries front back := by
  rw [extendRegisterPlan]
  dsimp only
  split
  · rename_i nothing
    refine ⟨prev.entries, [], (List.append_nil _).symm, ?_, ?_, id⟩
    · exact List.forall₂_same.mpr fun e _ => .inl rfl
    · rw [nothing.1]
      exact .nil
  · have carried : List.Forall₂ (CarriedOn next) prev.entries
        (prev.entries.map fun e => (enrich next e).getD e) :=
      List.forall₂_map_right_iff.mpr (List.forall₂_same.mpr fun e _ => carriedOn_enrich next e)
    refine ⟨_, _, rfl, carried, appendAll_forall₂ _ _, fun unique => ?_⟩
    have names : (prev.entries.map fun e => (enrich next e).getD e).map Entry.qid =
        prev.entries.map Entry.qid := by
      rw [List.map_map]
      exact List.map_congr_left fun e _ => (carriedOn_enrich next e).qid
    obtain ⟨nodup, apart⟩ := appendAll_nodup (T := T)
      ((prev.entries.map fun e => (enrich next e).getD e).map Entry.qid) (newEntries prev next)
    dsimp only
    rw [List.map_append, List.nodup_append]
    refine ⟨names ▸ unique, nodup, fun a mem b mem' same => ?_⟩
    obtain ⟨e, there, rfl⟩ := List.mem_map.mp mem'
    exact apart e there (same ▸ mem)

namespace MadeOf

variable {entries front back : List Entry}

theorem exists_front (made : MadeOf prev next entries front back) (mem : e ∈ prev.entries) :
    ∃ e' ∈ front, CarriedOn next e e' := exists_partner made.carried mem

theorem exists_prev (made : MadeOf prev next entries front back) (mem : e' ∈ front) :
    ∃ e ∈ prev.entries, CarriedOn next e e' := exists_partner_of made.carried mem

theorem exists_back (made : MadeOf prev next entries front back)
    (mem : e ∈ newEntries prev next) : ∃ e' ∈ back, ∃ qid, e' = { e with qid } :=
  exists_partner made.added mem

theorem exists_new (made : MadeOf prev next entries front back) (mem : e' ∈ back) :
    ∃ e ∈ newEntries prev next, ∃ qid, e' = { e with qid } := exists_partner_of made.added mem

/-- Every question of the fresh plan is a question of the extension. -/
theorem keys (made : MadeOf prev next entries front back) (mem : e ∈ next.entries) :
    questionKey e ∈ entries.map questionKey := by
  rw [made.whole, List.map_append, List.mem_append]
  by_cases stored : questionKey e ∈ prev.entries.map questionKey
  · obtain ⟨p, there, same⟩ := List.mem_map.mp stored
    obtain ⟨e', inFront, carried⟩ := made.exists_front there
    exact .inl (List.mem_map.mpr ⟨e', inFront, carried.questionKey.trans same⟩)
  · obtain ⟨e', inBack, qid, rfl⟩ := made.exists_back
      (List.mem_filter.mpr ⟨mem, decide_eq_true stored⟩)
    exact .inr (List.mem_map.mpr ⟨_, inBack, rfl⟩)

end MadeOf

theorem AskedBy.questionKey (asked : AskedBy next e e') : questionKey e' = questionKey e := by
  rw [Clearotron.questionKey, Clearotron.questionKey, asked.axis, asked.predicate, asked.term,
    asked.terms, asked.owner, asked.goods]

theorem AskedBy.of_same (asked : AskedBy next e e') {e'' : Entry} {romanizedTerms : List String}
    (same : e'' = { e' with romanizedTerms } ∨ e' = { e'' with romanizedTerms }) :
    AskedBy next e e'' := by
  obtain rfl | rfl := same
  · exact ⟨asked.axis, asked.predicate, asked.term, asked.terms, asked.owner, asked.goods,
      asked.classes, asked.regions⟩
  · exact ⟨asked.axis, asked.predicate, asked.term, asked.terms, asked.owner, asked.goods,
      asked.classes, asked.regions⟩

/-- No two entries of a compile have one name. -/
theorem compile_unique {i : CompileInput} (ok : compileRegisterPlan T i = .ok next) :
    (next.entries.map Entry.qid).Nodup := by
  obtain ⟨entries, -⟩ := compile_entries ok
  rw [entries, List.map_map, compiled, (List.Perm.map _ (List.perm_insertionSort _ _)).nodup_iff,
    List.map_map]
  have nodup := (pushAll_nodup (T := T) (i := i) [] (i.parts T)).1
  refine (List.map_congr_left fun p _ => ?_) ▸ nodup
  exact (withWait_qid _ _).symm

/-- No two entries of a stored plan have one name. -/
theorem Stored.unique (stored : Stored T prev) : (prev.entries.map Entry.qid).Nodup := by
  induction stored with
  | compiled ok => exact compile_unique ok
  | extended _ _ ih =>
    obtain ⟨front, back, made⟩ := extend_madeOf T _ _
    exact made.unique ih

/-- A question that is stored is stored with its own classes and regions. -/
def StoredWhole (prev next : CompiledPlan) : Prop :=
  ∀ e ∈ next.entries, questionKey e ∈ prev.entries.map questionKey →
    ∃ e' ∈ prev.entries, AskedBy next e e'

instance : DecidableRel (AskedBy next) := fun e e' =>
  decidable_of_iff (e'.axis = e.axis ∧ e'.predicate = e.predicate ∧ e'.term = e.term ∧
      e'.terms = e.terms ∧ e'.owner = e.owner ∧ e'.goodsTermsList = e.goodsTermsList ∧
      (e.niceClasses = next.niceClasses ∨ e'.niceClasses = e.niceClasses) ∧
      (e.regions = next.regions ∨ e'.regions = e.regions))
    ⟨fun ⟨axis, predicate, term, terms, owner, goods, classes, regions⟩ =>
      ⟨axis, predicate, term, terms, owner, goods, classes, regions⟩,
    fun ⟨axis, predicate, term, terms, owner, goods, classes, regions⟩ =>
      ⟨axis, predicate, term, terms, owner, goods, classes, regions⟩⟩

instance : Decidable (StoredWhole prev next) :=
  inferInstanceAs (Decidable (∀ e ∈ next.entries,
    questionKey e ∈ prev.entries.map questionKey → ∃ e' ∈ prev.entries, AskedBy next e e'))

theorem storedWhole_of_complete (complete : ∀ e ∈ next.entries,
    ∃ e' ∈ (extendRegisterPlan T prev next).plan.entries, AskedBy next e e') :
    StoredWhole prev next := by
  obtain ⟨front, back, made⟩ := extend_madeOf T prev next
  intro e mem stored
  obtain ⟨e', there, asked⟩ := complete e mem
  rw [made.whole] at there
  obtain there | there := List.mem_append.mp there
  · obtain ⟨p, inPrev, carried⟩ := made.exists_prev there
    obtain ⟨romanized, same⟩ := carried.same
    exact ⟨p, inPrev, asked.of_same (.inr same)⟩
  · -- an entry that was appended is of no stored question
    obtain ⟨n, isNew, qid, rfl⟩ := made.exists_new there
    have same : questionKey n = questionKey e := asked.questionKey
    have fresh := of_decide_eq_true (List.mem_filter.mp isNew).2
    exact absurd (same ▸ stored) fresh

/-- Extending a plan whose entries have names of their own, as a stored plan's do, appends to it
alone, whatever is fresh; and every fresh question is asked exactly where a question that is stored
is stored with the classes and regions it has. -/
theorem extends_stored_plan (distinct : (prev.entries.map Entry.qid).Nodup) :
    Extends T prev next ↔ StoredWhole prev next := by
  refine ⟨fun extends' => storedWhole_of_complete extends'.complete, fun whole => ?_⟩
  obtain ⟨front, back, made⟩ := extend_madeOf T prev next
  refine ⟨⟨front, back, made.whole, made.carried⟩, made.unique distinct, fun e mem => ?_, ?_⟩
  · by_cases known : questionKey e ∈ prev.entries.map questionKey
    · obtain ⟨p, inPrev, asked⟩ := whole e mem known
      obtain ⟨e', inFront, carried⟩ := made.exists_front inPrev
      obtain ⟨romanized, same⟩ := carried.same
      exact ⟨e', made.whole ▸ List.mem_append_left _ inFront, asked.of_same (.inl same)⟩
    · obtain ⟨e', inBack, qid, rfl⟩ := made.exists_back
        (List.mem_filter.mpr ⟨mem, decide_eq_true known⟩)
      refine ⟨{ e with qid }, ?_, rfl, rfl, rfl, rfl, rfl, rfl, .inr rfl, .inr rfl⟩
      rw [made.whole]
      exact List.mem_append_right _ inBack
  · have nothing : newEntries (extendRegisterPlan T prev next).plan next = [] :=
      List.filter_eq_nil_iff.mpr fun e mem => by simpa using made.keys mem
    rw [extendRegisterPlan]
    dsimp only
    rw [nothing]
    split <;> rfl

/-- A matter of one mark, in class nine and in what the frame added. -/
def addedMatter (form : List FormElement) (addedClasses : List AddedClass) : CompileInput where
  manifest := { mark := "wavo", dominantElement := "wavo" }
  classes := ["9"]
  form
  addedClasses

theorem extends_stored_plan_newBand : ∃ prev next,
    Stored plainPlanText prev ∧
    compileRegisterPlan plainPlanText
      (addedMatter [⟨"wavo", some { exactQueries := ["wav"] }⟩] []) = .ok next ∧
    Extends plainPlanText prev next := by
  refine ⟨_, _, .compiled (i := addedMatter [] []) rfl, rfl,
    (extends_stored_plan (Stored.compiled (i := addedMatter [] []) rfl).unique).mpr ?_⟩
  decide +kernel

/-- The class a frame adds later is never asked in. -/
theorem added_class_is_not_asked : ¬ ∀ (T : PlanText) (i : CompileInput) (prev next : CompiledPlan),
    Stored T prev → compileRegisterPlan T i = .ok next → Extends T prev next := by
  intro all
  have whole := storedWhole_of_complete
    (all plainPlanText (addedMatter [] [⟨"28", "toys"⟩]) _ _
      (.compiled (i := addedMatter [] []) rfl) rfl).complete
  revert whole
  decide +kernel

end

end Clearotron
