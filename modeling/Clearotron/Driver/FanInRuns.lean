import Mathlib.Data.List.Nodup
import Clearotron.Driver.FanIn

/-!
# Runs of fan-ins

Every entry of a plan joins one bucket, and a provider error is deferred only where the
provider's words stand in a band. What was deferred so stays deferred while it is asked and
fails; but an entry that is held back by its guard, or whose words are gone, leaves the
deferrals unanswered, and the next receipt does not know that it was there.
-/

namespace Clearotron

namespace FanIn

variable {T : Texts} {x : FanIn} {e : Entry} {q : String} {j : PlanJoin} {spent : List String}

/-- Nothing holds the entry back at this fan-in. -/
def Asks (T : Texts) (x : FanIn) (e : Entry) : Prop :=
  match e.guard with
  | none => True
  | some .awaitsReadingTurn => e.qid ∈ x.released
  | some (.runsIfEnumerated parent) => x.parentState T parent = "enumerated"

/-- The block of the entry is an answer. -/
def Answered (x : FanIn) (e : Entry) : Prop := ∃ b, x.byQid e.qid = some b ∧ b.error = false

/-- The register cannot express the entry. -/
def Gap (x : FanIn) (e : Entry) : Prop :=
  ∃ b, x.byQid e.qid = some b ∧ b.error = true ∧ b.deferred = true

/-- The block of the entry is a provider error. -/
def Errs (x : FanIn) (e : Entry) : Prop :=
  ∃ b, x.byQid e.qid = some b ∧ b.error = true ∧ b.deferred = false

/-- The provider's words on a qid stand in a band. -/
def Spoke (x : FanIn) (q : String) : Prop :=
  ∃ b ∈ x.blocks, b.qid = some q ∧ b.error = true ∧ b.reason.any (· ≠ "") = true

/-- The qid is asked, and the provider fails it in words. -/
def StillErrs (T : Texts) (x : FanIn) (q : String) : Prop :=
  ∃ e ∈ x.plan.plan.entries, e.qid = q ∧ x.Asks T e ∧ x.refusedFollowUp e = false ∧ x.Errs e ∧
    x.Spoke q

/-- The receipt defers the qid as a provider error. -/
def HardDeferred (j : PlanJoin) (q : String) : Prop :=
  ∃ d ∈ j.deferred, d.qid = q ∧ isProviderHardErrorReason d.reason = true

/-- The row in the bucket is the entry's. -/
def Names (q : String) : PlanJoin.Bucket → Prop
  | .executed row => row.qid = q
  | .skipped row => row.qid = q
  | _ => True

theorem names_joinBlock : Names e.qid (x.joinBlock T e) := by
  unfold joinBlock
  split
  · split <;> trivial
  · split
    · trivial
    · split
      · split <;> trivial
      · rfl

theorem names_bucketOf : Names e.qid (x.bucketOf T e) := by
  unfold bucketOf
  split
  · split
    · exact names_joinBlock
    · split <;> trivial
  · split
    · rfl
    · exact names_joinBlock
  · exact names_joinBlock

theorem count_add {b : PlanJoin.Bucket} (names : Names e.qid b) :
    (j.add e b).outcomes.count q = j.outcomes.count q + [e.qid].count q := by
  cases b with
  | executed row | skipped row =>
    have names : row.qid = e.qid := names
    simp only [PlanJoin.add, PlanJoin.outcomes, List.map_append, List.map_cons, List.map_nil,
      List.count_append, names]
    omega
  | missing | deferred _ | awaiting | asked _ | notAsked =>
    simp only [PlanJoin.add, PlanJoin.outcomes, List.map_append, List.map_cons, List.map_nil,
      List.count_append]
    omega

/-- Each entry is counted once. -/
theorem count_foldl_add (es : List Entry) (j : PlanJoin) :
    (es.foldl (fun j e => j.add e (x.bucketOf T e)) j).outcomes.count q =
      j.outcomes.count q + (es.map Entry.qid).count q := by
  induction es generalizing j with
  | nil => simp
  | cons e rest ih =>
    rw [List.foldl_cons, ih, count_add names_bucketOf, List.map_cons, List.count_cons,
      List.count_cons, List.count_nil]
    omega

theorem count_joinPlanToBands :
    (x.joinPlanToBands T).outcomes.count q = (x.plan.plan.entries.map Entry.qid).count q := by
  rw [joinPlanToBands, count_foldl_add]
  simp [PlanJoin.outcomes]

theorem count_qid (mem : e ∈ x.plan.plan.entries) :
    (x.plan.plan.entries.map Entry.qid).count e.qid = 1 :=
  List.count_eq_one_of_mem x.plan.qids (List.mem_map_of_mem mem)

/-- What is moved is counted where it was. -/
theorem count_convert (spent qids : List String) :
    (qids.filter fun a => (x.convert T spent a).isNone).count q +
        ((qids.filterMap (x.convert T spent)).map Converted.qid).count q = qids.count q := by
  induction qids with
  | nil => rfl
  | cons a rest ih =>
    cases moved : x.convert T spent a with
    | none =>
      rw [List.filter_cons_of_pos (by simp [moved]), List.filterMap_cons_none moved,
        List.count_cons, List.count_cons]
      omega
    | some c =>
      have same : c.qid = a := by
        unfold convert at moved
        split at moved
        · cases moved
        · dsimp only at moved
          split at moved
          · cases moved
          · rw [← Option.some.inj moved]
      rw [List.filter_cons_of_neg (by simp [moved]), List.filterMap_cons_some moved,
        List.map_cons, same, List.count_cons, List.count_cons]
      omega

theorem settle_eq (receipt : Option PlanJoin) :
    (x.settle T receipt).1.missing =
        (x.joinPlanToBands T).missing.filter
          (fun a => (x.convert T (ladderExhaustedQids receipt) a).isNone) ∧
      (x.settle T receipt).1.deferred =
        (x.joinPlanToBands T).deferred ++
          (x.settle T receipt).2.map (fun c => { qid := c.qid, reason := c.reason }) ∧
      (x.settle T receipt).2 =
        (x.joinPlanToBands T).missing.filterMap
          (x.convert T (ladderExhaustedQids receipt)) ∧
      (x.settle T receipt).1 =
        { x.joinPlanToBands T with
          missing := (x.settle T receipt).1.missing
          deferred := (x.settle T receipt).1.deferred } := by
  unfold settle deferExhaustedProviderErrors
  dsimp only
  split
  · rename_i nothing
    have stays : (x.joinPlanToBands T).missing.filter
        (fun a => (x.convert T (ladderExhaustedQids receipt) a).isNone) =
          (x.joinPlanToBands T).missing := by
      refine List.filter_eq_self.mpr fun a mem => ?_
      rw [Option.isNone_iff_eq_none]
      exact List.filterMap_eq_nil_iff.mp nothing a mem
    exact ⟨stays.symm, by simp, nothing.symm, rfl⟩
  · exact ⟨rfl, rfl, rfl, rfl⟩

theorem count_settle (receipt : Option PlanJoin) :
    (x.settle T receipt).1.outcomes.count q = (x.joinPlanToBands T).outcomes.count q := by
  obtain ⟨missing, deferred, converted, rest⟩ := settle_eq (T := T) (x := x) receipt
  have moved := count_convert (T := T) (x := x) (q := q) (ladderExhaustedQids receipt)
    (x.joinPlanToBands T).missing
  rw [rest, missing, deferred, converted]
  simp only [PlanJoin.outcomes, List.count_append, List.map_append, List.map_map] at moved ⊢
  have same : ((x.joinPlanToBands T).missing.filterMap
      (x.convert T (ladderExhaustedQids receipt))).map
        (PlanJoin.DeferredRow.qid ∘ fun c => { qid := c.qid, reason := c.reason }) =
      ((x.joinPlanToBands T).missing.filterMap
        (x.convert T (ladderExhaustedQids receipt))).map Converted.qid := rfl
  rw [same]
  omega

theorem mem_missing_foldl (es : List Entry) (j : PlanJoin) :
    q ∈ (es.foldl (fun j e => j.add e (x.bucketOf T e)) j).missing ↔
      q ∈ j.missing ∨ ∃ e ∈ es, e.qid = q ∧ x.bucketOf T e = .missing := by
  induction es generalizing j with
  | nil => simp
  | cons e rest ih =>
    rw [List.foldl_cons, ih]
    cases put : x.bucketOf T e with
    | missing =>
      simp only [PlanJoin.add, List.mem_append, List.mem_singleton, List.exists_mem_cons_iff, put,
        and_true, or_assoc, eq_comm]
    | _ => simp [PlanJoin.add, put]

theorem mem_deferred_foldl (es : List Entry) (j : PlanJoin) :
    q ∈ (es.foldl (fun j e => j.add e (x.bucketOf T e)) j).deferred.map
        PlanJoin.DeferredRow.qid ↔
      q ∈ j.deferred.map PlanJoin.DeferredRow.qid ∨
        ∃ e ∈ es, e.qid = q ∧ ∃ reason, x.bucketOf T e = .deferred reason := by
  induction es generalizing j with
  | nil => simp
  | cons e rest ih =>
    rw [List.foldl_cons, ih]
    cases put : x.bucketOf T e with
    | deferred reason =>
      simp only [PlanJoin.add, List.map_append, List.map_cons, List.map_nil, List.mem_append,
        List.mem_singleton, List.exists_mem_cons_iff, put, or_assoc,
        PlanJoin.Bucket.deferred.injEq, exists_eq', and_true, eq_comm (a := q)]
    | _ => simp [PlanJoin.add, put]

theorem entry_unique {e' : Entry} (mem : e ∈ x.plan.plan.entries)
    (mem' : e' ∈ x.plan.plan.entries) (same : e'.qid = e.qid) : e' = e :=
  List.inj_on_of_nodup_map x.plan.qids mem' mem same

theorem mem_missing (mem : e ∈ x.plan.plan.entries) :
    e.qid ∈ (x.joinPlanToBands T).missing ↔ x.bucketOf T e = .missing := by
  rw [joinPlanToBands, mem_missing_foldl]
  constructor
  · rintro (none' | ⟨e', mem', same, put⟩)
    · cases none'
    · rwa [entry_unique mem mem' same] at put
  · exact fun put => .inr ⟨e, mem, rfl, put⟩

theorem mem_deferred (mem : e ∈ x.plan.plan.entries) :
    e.qid ∈ (x.joinPlanToBands T).deferred.map PlanJoin.DeferredRow.qid ↔
      ∃ reason, x.bucketOf T e = .deferred reason := by
  rw [joinPlanToBands, mem_deferred_foldl]
  constructor
  · rintro (none' | ⟨e', mem', same, put⟩)
    · cases none'
    · rwa [entry_unique mem mem' same] at put
  · exact fun put => .inr ⟨e, mem, rfl, put⟩

theorem joinBlock_missing : x.joinBlock T e = .missing ↔
    x.refusedFollowUp e = false ∧ (x.byQid e.qid = none ∨ x.Errs e) := by
  unfold joinBlock Errs
  cases found : x.byQid e.qid with
  | none => cases x.refusedFollowUp e <;> simp
  | some b =>
    cases error : b.error <;> cases deferred : b.deferred <;>
      cases x.refusedFollowUp e <;> simp [error, deferred]

theorem joinBlock_deferred : (∃ reason, x.joinBlock T e = .deferred reason) ↔ x.Gap e := by
  unfold joinBlock Gap
  cases found : x.byQid e.qid with
  | none => cases x.refusedFollowUp e <;> simp
  | some b =>
    cases error : b.error <;> cases deferred : b.deferred <;>
      cases x.refusedFollowUp e <;> simp [error, deferred]

/-- An entry is held back, or it joins its block. -/
theorem bucketOf_cases (T : Texts) (x : FanIn) (e : Entry) :
    x.Asks T e ∧ x.bucketOf T e = x.joinBlock T e ∨
      ¬ x.Asks T e ∧ x.bucketOf T e ≠ .missing ∧
        ∀ reason, x.bucketOf T e ≠ .deferred reason := by
  unfold Asks bucketOf
  rcases guard : e.guard with _ | _ | parent
  · simp
  · by_cases released : e.qid ∈ x.released
    · simp [released]
    · simp only [released, List.contains_eq_mem, decide_false, Bool.false_eq_true, if_false,
        not_false_eq_true, true_and, false_and, false_or]
      split <;> simp
  · by_cases answered : x.parentState T parent = "enumerated" <;> simp [answered]

theorem missing_iff (mem : e ∈ x.plan.plan.entries) :
    e.qid ∈ (x.joinPlanToBands T).missing ↔
      x.Asks T e ∧ x.refusedFollowUp e = false ∧ (x.byQid e.qid = none ∨ x.Errs e) := by
  rw [mem_missing mem, ← joinBlock_missing (T := T)]
  obtain ⟨asks, joins⟩ | ⟨held, other, -⟩ := bucketOf_cases T x e
  · simp [asks, joins]
  · simp [held, other]

theorem deferred_iff (mem : e ∈ x.plan.plan.entries) :
    e.qid ∈ (x.joinPlanToBands T).deferred.map PlanJoin.DeferredRow.qid ↔
      x.Asks T e ∧ x.Gap e := by
  rw [mem_deferred mem, ← joinBlock_deferred (T := T)]
  obtain ⟨asks, joins⟩ | ⟨held, -, other⟩ := bucketOf_cases T x e
  · simp [asks, joins]
  · simp [held, other]

theorem errByQid_isSome (named : q ≠ "") : (x.errByQid q).isSome = true ↔ x.Spoke q := by
  unfold errByQid Spoke
  rw [if_neg named]
  constructor
  · intro found
    obtain ⟨b, at', -⟩ := Option.bind_eq_some_iff.mp (Option.isSome_iff_exists.mp found).choose_spec
    have holds := List.find?_some at'
    have mem := List.mem_reverse.mp (List.mem_of_find?_eq_some at')
    simp only [Bool.and_eq_true, decide_eq_true_eq] at holds
    exact ⟨b, mem, holds.1.1, holds.1.2, holds.2⟩
  · rintro ⟨b, mem, qid, error, words⟩
    have some' : (x.blocks.reverse.find? fun b =>
        b.qid = some q && b.error && b.reason.any (· ≠ "")).isSome = true :=
      List.find?_isSome.mpr ⟨b, List.mem_reverse.mpr mem, by simp only [qid, error, words]; rfl⟩
    obtain ⟨c, found⟩ := Option.isSome_iff_exists.mp some'
    have holds := List.find?_some found
    simp only [Bool.and_eq_true] at holds
    cases reason : c.reason with
    | none =>
      rw [reason] at holds
      simp at holds
    | some words => rw [found, Option.bind_some, reason, Option.isSome_some]

theorem isProviderHardErrorReason_of_prefix {front : String} (words : String)
    (ours : front = providerHardErrorPrefix ∨ front = providerPermanentErrorPrefix) :
    isProviderHardErrorReason (front ++ words) = true := by
  unfold isProviderHardErrorReason
  rw [Bool.or_eq_true, List.isPrefixOf_iff_prefix, List.isPrefixOf_iff_prefix, String.toList_append]
  obtain rfl | rfl := ours
  · exact .inl (List.prefix_append _ _)
  · exact .inr (List.prefix_append _ _)

/-- A missing qid is converted where the provider spoke, and its row tells. -/
theorem convert_eq_some {c : Converted} (moved : x.convert T spent q = some c) :
    c.qid = q ∧ (x.errByQid q).isSome = true ∧ isProviderHardErrorReason c.reason = true := by
  unfold convert at moved
  split at moved
  · cases moved
  · rename_i cause found
    dsimp only at moved
    split at moved
    · cases moved
    · obtain rfl := Option.some.inj moved
      refine ⟨rfl, by rw [found]; rfl, isProviderHardErrorReason_of_prefix _ ?_⟩
      split
      · exact .inr rfl
      · exact .inl rfl

/-- A qid that is spent is converted exactly where the provider spoke. -/
theorem convert_isNone (mem : q ∈ spent) :
    (x.convert T spent q).isNone = (x.errByQid q).isNone := by
  unfold convert
  cases x.errByQid q with
  | none => rfl
  | some cause => simp [mem]

theorem mem_ladderExhaustedQids (named : q ≠ "") (deferred : HardDeferred j q) :
    q ∈ ladderExhaustedQids (some j) := by
  obtain ⟨d, mem, rfl, ours⟩ := deferred
  refine List.mem_append_right _ (List.mem_map.mpr ⟨d, List.mem_filter.mpr ⟨mem, ?_⟩, rfl⟩)
  rw [Bool.and_eq_true, decide_eq_true_eq]
  exact ⟨named, ours⟩

theorem hardDeferred_of_converted {receipt : Option PlanJoin} {c : Converted}
    (mem : c ∈ (x.settle T receipt).2) :
    HardDeferred (x.settle T receipt).1 c.qid ∧ c.qid ∉ (x.settle T receipt).1.missing := by
  obtain ⟨missing, deferred, converted, -⟩ := settle_eq (T := T) (x := x) receipt
  obtain ⟨q, there, moved⟩ := List.mem_filterMap.mp (converted ▸ mem)
  obtain ⟨rfl, -, ours⟩ := convert_eq_some moved
  refine ⟨⟨{ qid := c.qid, reason := c.reason }, ?_, rfl, ours⟩, ?_⟩
  · rw [deferred]
    exact List.mem_append_right _ (List.mem_map_of_mem mem)
  · rw [missing, List.mem_filter, moved]
    simp

theorem converted_spoke {receipt : Option PlanJoin} {c : Converted}
    (mem : c ∈ (x.settle T receipt).2) :
    (∃ e ∈ x.plan.plan.entries, e.qid = c.qid) ∧ x.Spoke c.qid := by
  obtain ⟨q, there, moved⟩ :=
    List.mem_filterMap.mp ((settle_eq (T := T) (x := x) receipt).2.2.1 ▸ mem)
  obtain ⟨rfl, spoke, -⟩ := convert_eq_some moved
  have entry : ∃ e ∈ x.plan.plan.entries, e.qid = c.qid := by
    rw [joinPlanToBands, mem_missing_foldl] at there
    obtain none' | ⟨e, mem, same, -⟩ := there
    · cases none'
    · exact ⟨e, mem, same⟩
  obtain ⟨e, mem, same⟩ := entry
  exact ⟨⟨e, mem, same⟩, (errByQid_isSome (same ▸ x.plan.named e mem)).mp spoke⟩

/-- A qid that was deferred as a provider error and still errs is converted again. -/
theorem converted_again (prior : HardDeferred j q) (errs : x.StillErrs T q) :
    ∃ c ∈ (x.settle T (some j)).2, c.qid = q := by
  obtain ⟨e, mem, rfl, asks, sent, errs, words⟩ := errs
  have named := x.plan.named e mem
  have gone : e.qid ∈ (x.joinPlanToBands T).missing :=
    (missing_iff mem).mpr ⟨asks, sent, .inr errs⟩
  obtain ⟨c, turned⟩ : ∃ c, x.convert T (ladderExhaustedQids (some j)) e.qid = some c := by
    rw [← Option.isSome_iff_exists, ← Option.not_isNone,
      convert_isNone (mem_ladderExhaustedQids named prior), Option.not_isNone]
    exact (errByQid_isSome named).mpr words
  refine ⟨c, ?_, (convert_eq_some turned).1⟩
  rw [(settle_eq (some j)).2.2.1]
  exact List.mem_filterMap.mpr ⟨_, gone, turned⟩

theorem stays_deferred (prior : HardDeferred j q) (errs : x.StillErrs T q) :
    HardDeferred (x.settle T (some j)).1 q ∧ q ∉ (x.settle T (some j)).1.missing := by
  obtain ⟨c, mem, rfl⟩ := converted_again prior errs
  exact hardDeferred_of_converted mem

/-- A qid that was deferred as a provider error is in the deferrals of the next receipt exactly
while it is asked and the register cannot express it, or fails it in words. -/
theorem mem_deferred_settle (prior : HardDeferred j e.qid) (mem : e ∈ x.plan.plan.entries) :
    e.qid ∈ (x.settle T (some j)).1.deferred.map PlanJoin.DeferredRow.qid ↔
      x.Asks T e ∧ (x.Gap e ∨ x.refusedFollowUp e = false ∧ x.Errs e ∧ x.Spoke e.qid) := by
  have named := x.plan.named e mem
  obtain ⟨-, deferred, converted, -⟩ := settle_eq (T := T) (x := x) (some j)
  rw [deferred, List.map_append, List.mem_append, deferred_iff mem, and_or_left]
  refine or_congr_right ?_
  constructor
  · intro there
    obtain ⟨d, moved, same⟩ := List.mem_map.mp there
    obtain ⟨c, mem', rfl⟩ := List.mem_map.mp moved
    have same : c.qid = e.qid := same
    have words := (converted_spoke mem').2
    obtain ⟨q, gone, turned⟩ := List.mem_filterMap.mp (converted ▸ mem')
    rw [← (convert_eq_some turned).1, same, missing_iff mem] at gone
    refine ⟨gone.1, gone.2.1, gone.2.2.resolve_left fun none' => ?_, same ▸ words⟩
    obtain ⟨b, block, qid, -⟩ := words
    rw [byQid, if_neg named, List.find?_eq_none] at none'
    simpa [← same, qid] using none' b (List.mem_reverse.mpr block)
  · rintro ⟨asks, sent, errs, words⟩
    obtain ⟨c, mem', same⟩ := converted_again prior ⟨e, mem, rfl, asks, sent, errs, words⟩
    exact List.mem_map.mpr ⟨_, List.mem_map_of_mem mem', same⟩

/-- What is deferred so stays deferred over the fan-ins at which it still errs. -/
theorem stays_deferred_run (ys : List FanIn) (errs : ∀ y ∈ ys, y.StillErrs T q)
    (prior : HardDeferred j q ∧ q ∉ j.missing) :
    ∃ j', ys.foldl (fun receipt y => some (y.settle T receipt).1) (some j) = some j' ∧
      HardDeferred j' q ∧ q ∉ j'.missing := by
  induction ys generalizing j with
  | nil => exact ⟨j, rfl, prior⟩
  | cons y rest ih =>
    exact ih (fun z mem => errs z (by simp [mem])) (stays_deferred prior.1 (errs y (by simp)))

theorem not_mem_unplanned (mem : e ∈ x.plan.plan.entries) :
    e.qid ∉ (x.unplanned).map PlanJoin.UnplannedRow.qid := by
  intro there
  obtain ⟨row, mem', same⟩ := List.mem_map.mp there
  obtain ⟨b, -, kept⟩ := List.mem_filterMap.mp mem'
  split at kept
  · cases kept
  · split at kept
    · cases kept
    · rename_i qid _ apart
      obtain rfl := Option.some.inj kept
      have same : qid = e.qid := same
      exact apart (.inr (same ▸ List.mem_map_of_mem mem))

/-- At every fan-in each entry of the plan stands in one bucket, once, and no qid is converted
without the provider's words. What is converted is deferred, and not missing, over all fan-ins
at which it is asked and errs in words; and it is in the deferrals of the next receipt exactly
while it is asked and errs so, or cannot be expressed. -/
theorem one_fate_and_disclosed (T : Texts) (xs : List FanIn) (x : FanIn) :
    (∀ e ∈ x.plan.plan.entries,
        (x.joinPlanToBands T).outcomes.count e.qid = 1 ∧
          (x.settle T (receiptAfter T xs)).1.outcomes.count e.qid = 1 ∧
            e.qid ∉ x.unplanned.map PlanJoin.UnplannedRow.qid) ∧
      (∀ c ∈ (x.settle T (receiptAfter T xs)).2, x.Spoke c.qid) ∧
      (∀ c ∈ (x.settle T (receiptAfter T xs)).2, ∀ ys : List FanIn,
        (∀ y ∈ ys, y.StillErrs T c.qid) →
          ∃ j, receiptAfter T (xs ++ x :: ys) = some j ∧ HardDeferred j c.qid ∧
            c.qid ∉ j.missing) ∧
      ∀ j, receiptAfter T xs = some j → ∀ e ∈ x.plan.plan.entries, HardDeferred j e.qid →
        (e.qid ∈ (x.settle T (receiptAfter T xs)).1.deferred.map PlanJoin.DeferredRow.qid ↔
          x.Asks T e ∧
            (x.Gap e ∨ x.refusedFollowUp e = false ∧ x.Errs e ∧ x.Spoke e.qid)) := by
  refine ⟨fun e mem => ⟨?_, ?_, not_mem_unplanned mem⟩, fun c mem => (converted_spoke mem).2,
    fun c mem ys errs => ?_, fun j is e mem prior => ?_⟩
  · rw [count_joinPlanToBands, count_qid mem]
  · rw [count_settle, count_joinPlanToBands, count_qid mem]
  · obtain ⟨j, run, kept⟩ := stays_deferred_run ys errs (hardDeferred_of_converted mem)
    refine ⟨j, ?_, kept⟩
    rw [receiptAfter, List.foldl_append]
    exact run
  · rw [is]
    exact mem_deferred_settle prior mem

/-- A broad search, and a narrower one that runs if the broad one was listed. -/
def guarded : ParsedPlan where
  plan :=
    { entries :=
        [{ qid := "broad", axis := .primarySweep, predicate := .default, term := some "AURORA"
           expectedKind := .enumerate },
         { qid := "narrow", axis := .primarySweep, predicate := .exact, term := some "AURORA"
           expectedKind := .enumerate, guard := some (.runsIfEnumerated (some "broad")) }] }
  qids := by decide
  named := by decide

/-- The broad search came back as it is said, and the narrow one failed. -/
def failing (broad : String) : FanIn where
  plan := guarded
  bands :=
    [(.primarySweep,
      [{ qid := some "broad", state := broad },
       { qid := some "narrow", state := "incomplete", error := true
         reason := some "HTTP 500: Count Failed" }])]

/-- No text is changed, and no error is known for one that stays. -/
def plainTexts : Texts where
  lower := id
  fingerprint _ := ""
  retryCannotHelp _ := false

/-- The narrow search fails at every fan-in. It is missing, then it is deferred; while the broad
search is a crowd it is neither, and once the broad search is listed again it is missing. -/
theorem crowd_hides_the_failure :
    ((receiptAfter plainTexts [failing "enumerated"]).map fun j =>
        (j.missing, j.deferred.map PlanJoin.DeferredRow.qid)) = some (["narrow"], []) ∧
      ((receiptAfter plainTexts [failing "enumerated", failing "enumerated"]).map fun j =>
        (j.missing, j.deferred.map PlanJoin.DeferredRow.qid)) = some ([], ["narrow"]) ∧
      ((receiptAfter plainTexts
          [failing "enumerated", failing "enumerated", failing "incomplete"]).map fun j =>
        (j.missing, j.deferred.map PlanJoin.DeferredRow.qid,
          j.skipped.map PlanJoin.SkippedRow.qid)) = some ([], [], ["narrow"]) ∧
      ((receiptAfter plainTexts
          [failing "enumerated", failing "enumerated", failing "incomplete",
            failing "enumerated"]).map fun j =>
        (j.missing, j.deferred.map PlanJoin.DeferredRow.qid)) = some (["narrow"], []) := by
  decide +kernel

end FanIn

end Clearotron
