import Mathlib.Data.List.Dedup
import Clearotron.Register.Kernel
import Clearotron.Register.LeafRuns

/-!
# What a run of the kernel can do

The recursion of the kernel stands here as a relation `part` between a question and
an account it may come back with. `QuestionRun` says, for any such relation, every
way one question can be settled; `enumerate_runs` ties the knot: what one question
keeps, given that every smaller question keeps it, every run of `enumerate` keeps.
-/

namespace Clearotron

open Session

variable (P : Provider) (D : Deps)

/-- How the count of one spelling or class runs. -/
inductive HitRun (q : Params) : List Event → Probe → Prop where
  | untotalled {reason : String} (without : D.countProbe = .none) :
      HitRun q [] (.uncounted none reason)
  | endpoint {reply : CountReply} (endpoint : D.countProbe = .endpoint)
      (said : P.Says (.count q reply)) : HitRun q [.count q reply] (readCount reply)
  | cheap {reply : Reply Page} (cheap : D.countProbe = .cheap)
      (said : P.Says (.probe q reply)) : HitRun q [.probe q reply] (readProbe reply)

theorem countHits_runs (q : Params) : Runs (countHits P D q) (HitRun P D q) := by
  unfold countHits
  split
  · next untotalled => exact Runs.pure (.untotalled untotalled)
  · next endpoint =>
      refine (askCount_runs q).map ?_
      rintro added reply ⟨rfl, said⟩
      exact .endpoint endpoint said
  · next cheap =>
      refine (askProbe_runs q).map ?_
      rintro added reply ⟨rfl, said⟩
      exact .cheap cheap said

/-- How the legs are counted, each by itself and in order. -/
inductive ProbesRun {κ : Type} (narrow : κ → Params) :
    List κ → List Event → List (κ × Probe) → Prop where
  | nil : ProbesRun narrow [] [] []
  | cons {leg : κ} {legs : List κ} {calls more : List Event} {probe : Probe}
      {probes : List (κ × Probe)} (hit : HitRun P D (narrow leg) calls probe)
      (rest : ProbesRun narrow legs more probes) :
      ProbesRun narrow (leg :: legs) (calls ++ more) ((leg, probe) :: probes)

theorem probeLegs_runs {κ : Type} (narrow : κ → Params) (legs : List κ) :
    Runs (probeLegs P D narrow legs) (ProbesRun P D narrow legs) := by
  induction legs with
  | nil => exact Runs.pure .nil
  | cons leg legs ih =>
      refine (countHits_runs P D (narrow leg)).bind fun calls probe hit => ?_
      refine ih.bind fun more probes rest => ?_
      exact Runs.pure (by simpa using ProbesRun.cons hit rest)

/-- The probes are of exactly the legs asked for, in order. -/
theorem ProbesRun.legs_eq {P : Provider} {D : Deps} {κ : Type} {narrow : κ → Params}
    {legs : List κ} {calls : List Event} {probes : List (κ × Probe)}
    (run : ProbesRun P D narrow legs calls probes) : probes.map Prod.fst = legs := by
  induction run with
  | nil => rfl
  | cons hit rest ih => simp [ih]

/-- How the tractable class legs are read under the budget. -/
inductive LegsRun (part : Params → Bool → Account → Prop) (q : Params) (ceiling : Nat) :
    List TractableLeg → ClassState → ClassState → Prop where
  | done {st : ClassState} : LegsRun part q ceiling [] st st
  | skip {leg : TractableLeg} {legs : List TractableLeg} {st st' : ClassState}
      (exceeds : ceiling < st.merged.length + leg.n)
      (rest : LegsRun part q ceiling legs (st.settle leg
        { totalHits := some leg.n, disposition := .unenumerated, totalCounts := leg.said }) st') :
      LegsRun part q ceiling (leg :: legs) st st'
  | read {leg : TractableLeg} {legs : List TractableLeg} {st st' : ClassState}
      {acct : Account} (under : st.merged.length + leg.n ≤ ceiling)
      (asked : part (q.ofClass leg.class_) true acct)
      (rest : LegsRun part q ceiling legs (foldLeg D ceiling leg acct st) st') :
      LegsRun part q ceiling (leg :: legs) st st'

/-- What folding one window in can do. -/
inductive WindowFold (ceiling chunks index : Nat) (names : List String) (acct : Account)
    (st : WindowState) : (Answer × WindowState) ⊕ WindowState → Prop where
  | failed {text : String} (answer : acct.answer = .missingElement text) :
      WindowFold ceiling chunks index names acct st
        (.inl (.incomplete (windowFailed index chunks names.length text
          { st with parts := st.parts ++ [acct] }), { st with parts := st.parts ++ [acct] }))
  | ended {i : Incomplete} (answer : acct.answer = .incomplete i)
      (unmapped : D.countFirst = false ∨ i.termCounts = none) :
      WindowFold ceiling chunks index names acct st
        (.inl (.incomplete (windowIncomplete index chunks names.length i
          { st with parts := st.parts ++ [acct]
                    floorMax := raiseFloor st.floorMax i.totalFloor }),
          { st with parts := st.parts ++ [acct]
                    floorMax := raiseFloor st.floorMax i.totalFloor }))
  | rescued {i : Incomplete} {counts : Counts String} (answer : acct.answer = .incomplete i)
      (countFirst : D.countFirst = true) (mapped : i.termCounts = some counts) :
      WindowFold ceiling chunks index names acct st
        (.inr ({ st with parts := st.parts ++ [acct]
                         floorMax := raiseFloor st.floorMax i.totalFloor }.rescue
          D chunks index i counts))
  | exceeds {e : Enumerated} (answer : acct.answer = .enumerated e)
      (unrescued : st.rescueNotes = [])
      (exceeds : ceiling < st.totalSum + e.totalHits.getD 0) :
      WindowFold ceiling chunks index names acct st
        (.inl (.incomplete (windowsOver ceiling chunks index
          ({ st with parts := st.parts ++ [acct] }.keep D names e)),
          { st with parts := st.parts ++ [acct] }.keep D names e))
  | kept {e : Enumerated} (answer : acct.answer = .enumerated e)
      (under : st.totalSum + e.totalHits.getD 0 ≤ ceiling ∨ st.rescueNotes ≠ []) :
      WindowFold ceiling chunks index names acct st
        (.inr ({ st with parts := st.parts ++ [acct] }.keep D names e))

theorem foldWindow_runs (ceiling chunks index : Nat) (names : List String) (acct : Account)
    (st : WindowState) :
    WindowFold D ceiling chunks index names acct st
      (foldWindow D ceiling chunks index names acct st) := by
  unfold foldWindow
  cases answer : acct.answer with
  | missingElement text => exact .failed answer
  | incomplete i =>
      simp only
      cases counts : D.countFirst with
      | false => exact .ended answer (.inl counts)
      | true =>
          simp only [if_true]
          cases mapped : i.termCounts with
          | none => exact .ended answer (.inr mapped)
          | some map => exact .rescued answer counts mapped
  | enumerated e =>
      simp only
      split
      · next h => exact .exceeds answer h.2 h.1
      · next h =>
          refine .kept answer ?_
          by_cases unrescued : st.rescueNotes = []
          · exact .inl (by by_contra exceeds; exact h ⟨Nat.lt_of_not_le exceeds, unrescued⟩)
          · exact .inr unrescued

/-- What folding one half in can do. -/
inductive HalfFold (cause : String) (half : List String) (part : Account)
    (st : HalvesState) : (Answer × HalvesState) ⊕ HalvesState → Prop where
  | kept {e : Enumerated} (answer : part.answer = .enumerated e) :
      HalfFold cause half part st
        (.inr ({ st with parts := st.parts ++ [part] }.keep D half e))
  | ended (unfinished : ∀ e, part.answer ≠ .enumerated e) :
      HalfFold cause half part st
        (.inl (.incomplete (partIncomplete cause half part.answer
          { st with parts := st.parts ++ [part] }), { st with parts := st.parts ++ [part] }))

theorem foldHalf_runs (cause : String) (half : List String) (part : Account)
    (st : HalvesState) :
    HalfFold D cause half part st (foldHalf D cause half part st) := by
  have ended : (∀ e, part.answer ≠ .enumerated e) →
      HalfFold D cause half part st (.inl (.incomplete (partIncomplete cause half part.answer
        { st with parts := st.parts ++ [part] }), { st with parts := st.parts ++ [part] })) :=
    .ended
  unfold foldHalf
  cases answer : part.answer with
  | enumerated e => exact .kept answer
  | incomplete i => simpa [answer] using ended
  | missingElement text => simpa [answer] using ended

/-- How the names are asked in windows. -/
inductive WindowsRun (part : Params → Bool → Account → Prop) (q : Params)
    (calls : List Event) (ceiling chunks : Nat) :
    List (Nat × List String) → WindowState → Account → Prop where
  | done {st : WindowState} :
      WindowsRun part q calls ceiling chunks [] st
        (.windows q calls st.parts (windowsAnswer chunks st))
  | stop {index : Nat} {names : List String} {rest : List (Nat × List String)}
      {st st' : WindowState} {acct : Account} {a : Answer}
      (asked : part { q with names := some names } true acct)
      (fold : WindowFold D ceiling chunks index names acct st (.inl (a, st'))) :
      WindowsRun part q calls ceiling chunks ((index, names) :: rest) st
        (.windows q calls st'.parts a)
  | next {index : Nat} {names : List String} {rest : List (Nat × List String)}
      {st st' : WindowState} {acct whole : Account}
      (asked : part { q with names := some names } true acct)
      (fold : WindowFold D ceiling chunks index names acct st (.inr st'))
      (later : WindowsRun part q calls ceiling chunks rest st' whole) :
      WindowsRun part q calls ceiling chunks ((index, names) :: rest) st whole

/-- How one half is settled, `deeper` being how a half is halved in turn. -/
inductive SettleRun (deeper : Params → String → Account → Prop) (q : Params)
    (cause : String) (half : List String) (acct : Account) (st : HalvesState) :
    (Answer × HalvesState) ⊕ HalvesState → Prop where
  | oneRegion (timedOut : acct.timedOut = true) (one : half.length = 1) :
      SettleRun deeper q cause half acct st (.inl (.incomplete
        { incomplete (some st.total) st.merged.length st.merged
          (oneRegionStallReason (half.headD "undefined") (acct.answer.reasonOr cause)) with
          regionSplit := some { cause := cause, parts := st.sizes } }, st))
  | again {part : Account} {r : (Answer × HalvesState) ⊕ HalvesState}
      (timedOut : acct.timedOut = true) (several : half.length ≠ 1) (onTime : P.Reads false)
      (asked : deeper { q with regions := some half } (acct.answer.reasonOr cause) part)
      (fold : HalfFold D cause half part { st with again := st.again ++ [part] } r) :
      SettleRun deeper q cause half acct st r
  | stands {r : (Answer × HalvesState) ⊕ HalvesState}
      (final : acct.timedOut = false ∨ half.length ≠ 1 ∧ P.Reads true)
      (fold : HalfFold D cause half acct st r) : SettleRun deeper q cause half acct st r

/-- How the two halves are settled in turn, and what comes out. -/
inductive BothRun (deeper : Params → String → Account → Prop) (ceiling : Nat) (q : Params)
    (cause : String) (first second : Account) : Answer × HalvesState → Prop where
  | first {r : Answer × HalvesState}
      (settle : SettleRun P D deeper q cause (halfOf (q.regions.getD [])) first {} (.inl r)) :
      BothRun deeper ceiling q cause first second r
  | second {r : Answer × HalvesState} {st : HalvesState}
      (settle : SettleRun P D deeper q cause (halfOf (q.regions.getD [])) first {} (.inr st))
      (settle' : SettleRun P D deeper q cause (otherHalf (q.regions.getD [])) second st
        (.inl r)) :
      BothRun deeper ceiling q cause first second r
  | whole {st st' : HalvesState}
      (settle : SettleRun P D deeper q cause (halfOf (q.regions.getD [])) first {} (.inr st))
      (settle' : SettleRun P D deeper q cause (otherHalf (q.regions.getD [])) second st
        (.inr st')) :
      BothRun deeper ceiling q cause first second (halvesAnswer ceiling cause st', st')

/-- How a question is asked in halves of its regions. -/
inductive HalvesStep (part : Params → Bool → Account → Prop)
    (deeper : Params → String → Account → Prop) (ceiling : Nat) (q : Params)
    (calls : List Event) (cause : String) : Account → Prop where
  | stalled {first second : Account} (several : 1 < (q.regions.getD []).length)
      (left : part { q with regions := some (halfOf (q.regions.getD [])) } false first)
      (right : part { q with regions := some (otherHalf (q.regions.getD [])) } false second)
      (timedOut : first.timedOut = true ∧ second.timedOut = true) :
      HalvesStep part deeper ceiling q calls cause
        (.halves q calls [first, second] [] []
          (.incomplete { incomplete (some 0) 0 [] (stallReason cause) with
            regionSplit := some { cause := cause, parts := [] } }))
  | heard {first second : Account} {a : Answer} {st : HalvesState}
      (several : 1 < (q.regions.getD []).length)
      (left : part { q with regions := some (halfOf (q.regions.getD [])) } false first)
      (right : part { q with regions := some (otherHalf (q.regions.getD [])) } false second)
      (timedOut : ¬ (first.timedOut = true ∧ second.timedOut = true))
      (both : BothRun P D deeper ceiling q cause first second (a, st)) :
      HalvesStep part deeper ceiling q calls cause
        (.halves q calls [first, second] st.again st.parts a)

/-- Halves of halves, to a bounded depth. -/
def HalvesRun (part : Params → Bool → Account → Prop) (ceiling : Nat) :
    Nat → Params → List Event → String → Account → Prop
  | 0, _, _, _, _ => False
  | depth + 1, q, calls, cause, acct =>
      HalvesStep P D part (fun q cause acct => HalvesRun part ceiling depth q [] cause acct)
        ceiling q calls cause acct

section Deeper

variable {P : Provider} {D : Deps} {part : Params → Bool → Account → Prop}
  {deeper deeper' : Params → String → Account → Prop} {ceiling : Nat} {q : Params}
  {cause : String}

theorem SettleRun.mono (imp : ∀ q cause acct, deeper q cause acct → deeper' q cause acct)
    {half : List String} {acct : Account} {st : HalvesState}
    {r : (Answer × HalvesState) ⊕ HalvesState}
    (run : SettleRun P D deeper q cause half acct st r) :
    SettleRun P D deeper' q cause half acct st r := by
  cases run with
  | oneRegion timedOut one => exact .oneRegion timedOut one
  | again timedOut several onTime asked fold =>
      exact .again timedOut several onTime (imp _ _ _ asked) fold
  | stands final fold => exact .stands final fold

theorem BothRun.mono (imp : ∀ q cause acct, deeper q cause acct → deeper' q cause acct)
    {first second : Account} {r : Answer × HalvesState}
    (run : BothRun P D deeper ceiling q cause first second r) :
    BothRun P D deeper' ceiling q cause first second r := by
  cases run with
  | first settle => exact .first (settle.mono imp)
  | second settle settle' => exact .second (settle.mono imp) (settle'.mono imp)
  | whole settle settle' => exact .whole (settle.mono imp) (settle'.mono imp)

theorem HalvesStep.mono (imp : ∀ q cause acct, deeper q cause acct → deeper' q cause acct)
    {calls : List Event} {acct : Account}
    (run : HalvesStep P D part deeper ceiling q calls cause acct) :
    HalvesStep P D part deeper' ceiling q calls cause acct := by
  cases run with
  | stalled several left right timedOut => exact .stalled several left right timedOut
  | heard several left right timedOut both =>
      exact .heard several left right timedOut (both.mono imp)

/-- What one split keeps, given that the splits of its halves keep it, every split
keeps. -/
theorem HalvesRun.of_step {motive : Params → List Event → String → Account → Prop}
    (step : ∀ q calls cause acct,
      HalvesStep P D part (fun q cause acct => motive q [] cause acct) ceiling q calls cause acct →
        motive q calls cause acct)
    {depth : Nat} {calls : List Event} {acct : Account}
    (run : HalvesRun P D part ceiling depth q calls cause acct) : motive q calls cause acct := by
  induction depth generalizing q calls cause acct with
  | zero => exact run.elim
  | succ depth ih => exact step q calls cause acct (run.mono fun q cause acct deep => ih deep)

end Deeper

/-- How one question is settled. -/
inductive QuestionRun (part : Params → Bool → Account → Prop) (q : Params) (split : Bool) :
    Account → Prop where
  | refused (element : D.hasAnyElement q = false) :
      QuestionRun part q split (.refused q (.missingElement D.missingElementError))
  | wide {acct : Account} (element : D.hasAnyElement q = true)
      (wide : D.namesChunk q none < q.listed.length)
      (run : WindowsRun D part q [] (D.ceiling q)
        (windowsOf (D.namesChunk q none) q.listed).length
        (windowsOf (D.namesChunk q none) q.listed) {} acct) :
      QuestionRun part q split acct
  | leaf {calls : List Event} {a : Answer} (element : D.hasAnyElement q = true)
      (narrow : q.listed.length ≤ D.namesChunk q none)
      (leaf : LeafRun P D q split calls (.answered a)) :
      QuestionRun part q split (.leaf q calls a)
  | refusedList {calls : List Event} {acct : Account} (element : D.hasAnyElement q = true)
      (narrow : q.listed.length ≤ D.namesChunk q none)
      (leaf : LeafRun P D q split calls .listRefused)
      (run : WindowsRun D part q calls (D.ceiling q)
        (windowsOf (D.namesChunk q (some ((q.listed.length + 1) / 2))) q.listed).length
        (windowsOf (D.namesChunk q (some ((q.listed.length + 1) / 2))) q.listed) {} acct) :
      QuestionRun part q split acct
  | timedOut {calls : List Event} {cause : String} {acct : Account}
      (element : D.hasAnyElement q = true)
      (narrow : q.listed.length ≤ D.namesChunk q none)
      (leaf : LeafRun P D q split calls (.timedOut cause))
      (run : HalvesRun P D part (D.ceiling q) (q.regions.getD []).length q calls cause acct) :
      QuestionRun part q split acct
  | terms {calls more : List Event} {total floor : Option Nat} {blind : Incomplete}
      {probes : List (String × Probe)} (element : D.hasAnyElement q = true)
      (narrow : q.listed.length ≤ D.namesChunk q none)
      (leaf : LeafRun P D q split calls (.crowd total floor blind))
      (counts : D.countFirst = true) (several : 1 < q.listed.length)
      (probed : ProbesRun P D q.ofTerm q.listed more probes) :
      QuestionRun part q split (.terms q calls more probes
        (termsAnswer (D.ceiling q) total floor q.listed.length
          (countsOfProbes (D.ceiling q) probes)))
  | classes {calls more : List Event} {total floor : Option Nat} {blind : Incomplete}
      {probes : List (Nat × Probe)} {st : ClassState} (element : D.hasAnyElement q = true)
      (narrow : q.listed.length ≤ D.namesChunk q none)
      (leaf : LeafRun P D q split calls (.crowd total floor blind))
      (counts : D.countFirst = true) (oneName : q.listed.length ≤ 1)
      (several : 1 < q.splitClasses.length)
      (probed : ProbesRun P D q.ofClass q.splitClasses more probes)
      (run : LegsRun D part q (D.ceiling q) (tractableLegs (D.ceiling q) probes)
        { counts := settledClasses (D.ceiling q) probes } st) :
      QuestionRun part q split (.classes q calls more probes st.legs
        (classesAnswer (D.ceiling q) total floor q.splitClasses.length st))
  | blind {calls : List Event} {total floor : Option Nat} {blind : Incomplete}
      (element : D.hasAnyElement q = true)
      (narrow : q.listed.length ≤ D.namesChunk q none)
      (leaf : LeafRun P D q split calls (.crowd total floor blind))
      (unrescued : D.countFirst = false ∨ q.listed.length ≤ 1 ∧ q.splitClasses.length ≤ 1) :
      QuestionRun part q split (.leaf q calls (.incomplete blind))

namespace Account

theorem allCallsOf_append (xs ys : List Account) :
    allCallsOf (xs ++ ys) = allCallsOf xs ++ allCallsOf ys := by
  induction xs with
  | nil => simp [allCallsOf]
  | cons x xs ih => simp [allCallsOf, ih]

@[simp] theorem allCallsOf_singleton (x : Account) : allCallsOf [x] = x.allCalls := by
  simp [allCallsOf]

@[simp] theorem setAnswer_allCalls (acct : Account) (a : Answer) :
    (acct.setAnswer a).allCalls = acct.allCalls := by
  cases acct <;> simp [setAnswer, allCalls]

end Account

@[simp] theorem ClassState.settle_legs (st : ClassState) (leg : TractableLeg)
    (v : PartCount) : (st.settle leg v).legs = st.legs := rfl

@[simp] theorem ClassState.settle_merged (st : ClassState) (leg : TractableLeg)
    (v : PartCount) : (st.settle leg v).merged = st.merged := rfl

theorem foldLeg_legs (ceiling : Nat) (leg : TractableLeg) (acct : Account)
    (st : ClassState) : (foldLeg D ceiling leg acct st).legs = st.legs ++ [acct] := by
  unfold foldLeg
  split <;> rfl

/-- However a window is folded in, it is the next part of the account. -/
theorem WindowFold.parts_eq {D : Deps} {ceiling chunks index : Nat} {names : List String}
    {acct : Account} {st : WindowState} {r : (Answer × WindowState) ⊕ WindowState}
    (fold : WindowFold D ceiling chunks index names acct st r) :
    (r.elim Prod.snd id).parts = st.parts ++ [acct] := by
  cases fold <;> rfl

/-- Folding a half in asks nothing again. -/
theorem HalfFold.again_eq {D : Deps} {cause : String} {half : List String} {part : Account}
    {st : HalvesState} {r : (Answer × HalvesState) ⊕ HalvesState}
    (fold : HalfFold D cause half part st r) :
    (r.elim Prod.snd id).again = st.again := by
  cases fold <;> rfl

/-- What a recursive call is known to do: it adds its account's calls. -/
def AsksSo (ask : Params → Bool → Session Event Account)
    (part : Params → Bool → Account → Prop) (q : Params) (split : Bool) : Prop :=
  Runs (ask q split) (fun calls acct => calls = acct.allCalls ∧ part q split acct)

section Code

variable {ask : Params → Bool → Session Event Account}
  {part : Params → Bool → Account → Prop} {q : Params}

theorem readLegs_runs {ceiling : Nat} (legs : List TractableLeg) (st : ClassState)
    (asks : ∀ c, AsksSo ask part (q.ofClass c) true) :
    Runs (readLegs D ask q ceiling legs st) (fun calls st' =>
      Account.allCallsOf st'.legs = Account.allCallsOf st.legs ++ calls ∧
        LegsRun D part q ceiling legs st st') := by
  induction legs generalizing st with
  | nil => exact Runs.pure ⟨by simp, .done⟩
  | cons leg legs ih =>
      unfold readLegs
      split
      · next exceeds =>
          refine (ih _).mono ?_
          rintro calls st' ⟨happ, rest⟩
          exact ⟨happ, .skip exceeds rest⟩
      · next under =>
          refine (asks leg.class_).bind ?_
          rintro calls acct ⟨rfl, asked⟩
          refine (ih _).mono ?_
          rintro more st' ⟨happ, rest⟩
          refine ⟨?_, .read (by omega) asked rest⟩
          rw [happ, foldLeg_legs, Account.allCallsOf_append, Account.allCallsOf_singleton,
            List.append_assoc]

theorem askWindows_runs {ceiling chunks : Nat} {calls : List Event}
    (windows : List (Nat × List String)) (st : WindowState)
    (asks : ∀ w ∈ windows, AsksSo ask part { q with names := some w.2 } true) :
    Runs (askWindows D ask q calls ceiling chunks windows st) (fun added acct =>
      acct.allCalls = calls ++ Account.allCallsOf st.parts ++ added ∧
        WindowsRun D part q calls ceiling chunks windows st acct) := by
  induction windows generalizing st with
  | nil => exact Runs.pure ⟨by simp [Account.allCalls], .done⟩
  | cons window windows ih =>
      obtain ⟨index, names⟩ := window
      unfold askWindows
      refine (asks (index, names) (by simp)).bind ?_
      rintro added acct ⟨rfl, asked⟩
      have fold := foldWindow_runs D ceiling chunks index names acct st
      cases folded : foldWindow D ceiling chunks index names acct st with
      | inl ended =>
          obtain ⟨a, st'⟩ := ended
          rw [folded] at fold
          refine Runs.pure ⟨?_, .stop asked fold⟩
          have hparts : st'.parts = st.parts ++ [acct] := fold.parts_eq
          simp [Account.allCalls, hparts, Account.allCallsOf_append]
      | inr st' =>
          rw [folded] at fold
          refine (ih st' fun w hw => asks w (by simp [hw])).mono ?_
          rintro more whole ⟨happ, later⟩
          refine ⟨?_, .next asked fold later⟩
          have hparts : st'.parts = st.parts ++ [acct] := fold.parts_eq
          simp [happ, hparts, Account.allCallsOf_append]

theorem settleHalf_runs {cause : String} {deeper : Params → String → Session Event Account}
    (deep : Params → String → Account → Prop) {half : List String} (acct : Account)
    (st : HalvesState) (nonempty : half ≠ [])
    (deepens : 1 < half.length → ∀ cause,
      Runs (deeper { q with regions := some half } cause) (fun calls part =>
        calls = part.allCalls ∧ deep { q with regions := some half } cause part)) :
    Runs (settleHalf P D cause deeper q half acct st) (fun added r =>
      Account.allCallsOf (r.elim Prod.snd id).again =
          Account.allCallsOf st.again ++ added ∧
        SettleRun P D deep q cause half acct st r) := by
  have positive : 0 < half.length := List.length_pos_iff.mpr nonempty
  unfold settleHalf
  by_cases one : acct.timedOut = true ∧ half.length = 1
  · simp only [one, and_self, if_true]
    exact Runs.pure ⟨by simp, .oneRegion one.1 one.2⟩
  · simp only [one, if_false]
    refine isLate_runs.bind ?_
    rintro added late ⟨rfl, reads⟩
    by_cases again : (acct.timedOut && !late) = true
    · simp only [again, if_true]
      simp only [Bool.and_eq_true, Bool.not_eq_true'] at again
      obtain ⟨timedOut, rfl⟩ := again
      have several : half.length ≠ 1 := fun h => one ⟨timedOut, h⟩
      refine (deepens (by omega) _).bind ?_
      rintro calls part ⟨rfl, asked⟩
      have fold := foldHalf_runs D cause half part { st with again := st.again ++ [part] }
      refine Runs.pure ⟨?_, .again timedOut several reads asked fold⟩
      rw [fold.again_eq]
      simp [Account.allCallsOf_append]
    · simp only [again]
      have fold := foldHalf_runs D cause half acct st
      refine Runs.pure ⟨?_, .stands ?_ fold⟩
      · simp [fold.again_eq]
      · cases timedOut : acct.timedOut with
        | false => exact .inl rfl
        | true =>
            cases late with
            | false => simp [timedOut] at again
            | true => exact .inr ⟨fun h => one ⟨timedOut, h⟩, reads⟩

theorem halfOf_length (regions : List String) :
    (halfOf regions).length = (regions.length + 1) / 2 := by
  rw [halfOf, List.length_take]
  omega

theorem otherHalf_length (regions : List String) :
    (otherHalf regions).length = regions.length / 2 := by
  rw [otherHalf, List.length_drop]
  omega

/-- The halves put together again are the list. -/
theorem halfOf_append_otherHalf (regions : List String) :
    halfOf regions ++ otherHalf regions = regions := List.take_append_drop _ _

theorem regionHalves_runs {ceiling : Nat} (depth : Nat) (calls : List Event)
    (cause : String) (several : 1 < (q.regions.getD []).length)
    (enough : (q.regions.getD []).length ≤ depth)
    (asks : ∀ half : List String, half.length < (q.regions.getD []).length →
      AsksSo ask part { q with regions := some half } false) :
    Runs (regionHalves P D ask ceiling depth q calls cause) (fun added acct =>
      acct.allCalls = calls ++ added ∧
        HalvesRun P D part ceiling depth q calls cause acct) := by
  induction depth generalizing q calls cause with
  | zero => omega
  | succ depth ih =>
      unfold regionHalves
      have short : (halfOf (q.regions.getD [])).length < (q.regions.getD []).length := by
        rw [halfOf_length]; omega
      have short' : (otherHalf (q.regions.getD [])).length < (q.regions.getD []).length := by
        rw [otherHalf_length]; omega
      have nonempty : halfOf (q.regions.getD []) ≠ [] := by
        rw [← List.length_pos_iff, halfOf_length]; omega
      have nonempty' : otherHalf (q.regions.getD []) ≠ [] := by
        rw [← List.length_pos_iff, otherHalf_length]; omega
      -- a half that is halved in turn is shorter, so the rest of the depth is enough for it
      have deepens : ∀ half : List String, half.length < (q.regions.getD []).length →
          1 < half.length → ∀ cause,
          Runs (regionHalves P D ask ceiling depth { q with regions := some half } [] cause)
            (fun calls acct => calls = acct.allCalls ∧
              HalvesRun P D part ceiling depth { q with regions := some half } [] cause
                acct) := by
        intro half shorter two cause
        have lengths : ((some half).getD []).length = half.length := rfl
        refine (ih (q := { q with regions := some half }) [] cause (by simpa using two)
          (by simp only [lengths]; omega) fun half' shorter' => ?_).mono ?_
        · exact asks half' (by simp only [lengths] at shorter'; omega)
        · rintro added acct ⟨happ, run⟩
          exact ⟨by simpa using happ.symm, run⟩
      refine (asks _ short).bind ?_
      rintro added first ⟨rfl, left⟩
      refine (asks _ short').bind ?_
      rintro added second ⟨rfl, right⟩
      by_cases timedOut : first.timedOut = true ∧ second.timedOut = true
      · simp only [timedOut, and_self, if_true]
        refine Runs.pure ⟨?_, .stalled several left right timedOut⟩
        simp [Account.allCalls, Account.allCallsOf]
      · simp only [timedOut, if_false]
        refine (settleHalf_runs P D (fun q cause acct =>
          HalvesRun P D part ceiling depth q [] cause acct) first {} nonempty
          (deepens _ short)).bind ?_
        rintro more r ⟨happ, settle⟩
        cases r with
        | inl ended =>
            obtain ⟨a, st⟩ := ended
            refine Runs.pure ⟨?_, .heard several left right timedOut (.first settle)⟩
            simp only [Sum.elim_inl] at happ
            simp [Account.allCalls, Account.allCallsOf, happ]
        | inr st =>
            refine (settleHalf_runs P D (fun q cause acct =>
              HalvesRun P D part ceiling depth q [] cause acct) second st nonempty'
              (deepens _ short')).bind ?_
            rintro more' r ⟨happ', settle'⟩
            simp only [Sum.elim_inr, id_eq] at happ
            cases r with
            | inl ended =>
                obtain ⟨a, st'⟩ := ended
                refine Runs.pure
                  ⟨?_, .heard several left right timedOut (.second settle settle')⟩
                simp only [Sum.elim_inl] at happ'
                simp [Account.allCalls, Account.allCallsOf, happ, happ']
            | inr st' =>
                refine Runs.pure
                  ⟨?_, .heard several left right timedOut (.whole settle settle')⟩
                simp only [Sum.elim_inr, id_eq] at happ'
                simp [Account.allCalls, Account.allCallsOf, happ, happ']

/-- The windows of a list cut narrower than it is are each shorter than the list. -/
theorem windowsOf_shorter {width : Nat} {names : List String}
    (narrow : width < names.length) {w : Nat × List String}
    (mem : w ∈ windowsOf width names) : w.2.length < names.length ∧ ∀ n ∈ w.2, n ∈ names := by
  simp only [windowsOf, List.mem_map] at mem
  obtain ⟨i, -, rfl⟩ := mem
  refine ⟨?_, fun n hn => List.mem_of_mem_drop (List.mem_of_mem_take hn)⟩
  rw [List.length_take]
  omega

@[simp] theorem Params.listed_withNames (q : Params) (names : List String) :
    ({ q with names := some names } : Params).listed = names.filter (· ≠ "") := rfl

@[simp] theorem Params.splitClasses_withNames (q : Params) (names : Option (List String)) :
    ({ q with names := names } : Params).splitClasses = q.splitClasses := rfl

@[simp] theorem Params.listed_withRegions (q : Params) (regions : Option (List String)) :
    ({ q with regions := regions } : Params).listed = q.listed := rfl

@[simp] theorem Params.splitClasses_withRegions (q : Params)
    (regions : Option (List String)) :
    ({ q with regions := regions } : Params).splitClasses = q.splitClasses := rfl

@[simp] theorem Params.listed_ofClass (q : Params) (c : Nat) :
    (q.ofClass c).listed = q.listed := rfl

theorem Params.mem_listed {q : Params} {n : String} (h : n ∈ q.listed) : n ≠ "" := by
  unfold Params.listed Params.allNames at h
  cases names : q.names with
  | none => simp [names] at h
  | some ns => simpa [names] using And.right (by simpa [names] using h)

/-- A window asks about its names and no others. -/
theorem Params.listed_window {q : Params} {width : Nat} {w : Nat × List String}
    (mem : w ∈ windowsOf width q.listed) (narrow : width < q.listed.length) :
    ({ q with names := some w.2 } : Params).listed = w.2 := by
  rw [Params.listed_withNames, List.filter_eq_self]
  intro n hn
  simpa using Params.mem_listed ((windowsOf_shorter narrow mem).2 n hn)

theorem Params.depth_window {q : Params} {width : Nat} {w : Nat × List String}
    (mem : w ∈ windowsOf width q.listed) (narrow : width < q.listed.length) :
    ({ q with names := some w.2 } : Params).depth < q.depth := by
  have listed := Params.listed_window mem narrow
  have shorter := (windowsOf_shorter narrow mem).1
  simp only [Params.depth, listed, Params.splitClasses_withNames]
  omega

theorem Params.depth_half {q : Params} {half : List String}
    (shorter : half.length < (q.regions.getD []).length) :
    ({ q with regions := some half } : Params).depth < q.depth := by
  simp only [Params.depth, Params.listed_withRegions, Params.splitClasses_withRegions,
    Option.getD_some]
  omega

theorem Params.depth_ofClass {q : Params} (c : Nat) (several : 1 < q.splitClasses.length) :
    (q.ofClass c).depth < q.depth := by
  have one : (q.ofClass c).splitClasses.length ≤ 1 := by
    unfold Params.splitClasses
    split
    · simp [Params.ofClass]
    · simp
  have regions : (q.ofClass c).regions = q.regions := rfl
  simp only [Params.depth, Params.listed_ofClass, regions]
  omega

/-- A refused list is cut in two: its window is narrower than the list. -/
theorem Deps.namesChunk_half {q : Params} (several : 1 < q.listed.length) :
    D.namesChunk q (some ((q.listed.length + 1) / 2)) < q.listed.length := by
  have half : (some ((q.listed.length + 1) / 2) <|> D.namesChunkFor q) =
      some ((q.listed.length + 1) / 2) := rfl
  simp only [Deps.namesChunk, half]
  split <;> omega

theorem nameWindows_runs {calls : List Event} {width : Nat} (narrow : width < q.listed.length)
    (asks : ∀ q' split', q'.depth < q.depth → AsksSo ask part q' split') :
    Runs (nameWindows D ask q calls width) (fun added acct =>
      acct.allCalls = calls ++ added ∧ WindowsRun D part q calls (D.ceiling q)
        (windowsOf width q.listed).length (windowsOf width q.listed) {} acct) := by
  refine (askWindows_runs D _ {} fun w mem =>
    asks _ true (Params.depth_window mem narrow)).mono ?_
  rintro added acct ⟨happ, run⟩
  exact ⟨by simpa [Account.allCallsOf] using happ, run⟩

end Code

/-- Only a list of several names is refused as a list. -/
theorem PageRun.several_of_listRefused {P : Provider} {D : Deps} {q : Params} {split : Bool}
    {probeTotal : Option Nat} {left index : Nat} {st : PageState} {calls : List Event}
    {outcome : LeafOutcome} (run : PageRun P D q split probeTotal left index st calls outcome)
    (refused : outcome = .listRefused) : 1 < q.listed.length := by
  induction run with
  | refusedList said several refusal => exact several
  | exit said read => cases read <;> cases refused
  | more said read rest ih => exact ih refused
  | _ => cases refused

theorem LeafRun.several_of_listRefused {P : Provider} {D : Deps} {q : Params} {split : Bool}
    {calls : List Event} (run : LeafRun P D q split calls .listRefused) :
    1 < q.listed.length := by
  cases run with
  | counted endpoint said under pages => exact pages.several_of_listRefused rfl
  | paged searches pages => exact pages.several_of_listRefused rfl

/-- Only a question over several regions is put again in region halves. -/
theorem PageRun.splittable_of_timedOut {P : Provider} {D : Deps} {q : Params} {split : Bool}
    {probeTotal : Option Nat} {left index : Nat} {st : PageState} {calls : List Event}
    {outcome : LeafOutcome} {cause : String}
    (run : PageRun P D q split probeTotal left index st calls outcome)
    (timedOut : outcome = .timedOut cause) : q.splittable split = true := by
  induction run with
  | timedOut said splittable timeout onTime => exact splittable
  | exit said read => cases read <;> cases timedOut
  | more said read rest ih => exact ih timedOut
  | _ => cases timedOut

theorem LeafRun.splittable_of_timedOut {P : Provider} {D : Deps} {q : Params} {split : Bool}
    {calls : List Event} {cause : String} (run : LeafRun P D q split calls (.timedOut cause)) :
    q.splittable split = true := by
  cases run with
  | countTimedOut endpoint said splittable timeout onTime => exact splittable
  | counted endpoint said under pages => exact pages.splittable_of_timedOut rfl
  | paged searches pages => exact pages.splittable_of_timedOut rfl

theorem Params.several_regions {q : Params} {split : Bool}
    (splittable : q.splittable split = true) : 1 < (q.regions.getD []).length := by
  simp only [Params.splittable, Bool.and_eq_true] at splittable
  cases regions : q.regions with
  | none => simp [regions] at splittable
  | some rs => simpa [regions] using splittable.2

/-- One question, given what every smaller question does. -/
theorem enumerateQuestion_runs {ask : Params → Bool → Session Event Account}
    {part : Params → Bool → Account → Prop} (q : Params) (split : Bool)
    (asks : ∀ q' split', q'.depth < q.depth → AsksSo ask part q' split') :
    Runs (enumerateQuestion P D ask q split) (fun calls acct =>
      calls = acct.allCalls ∧ QuestionRun P D part q split acct) := by
  unfold enumerateQuestion
  cases element : D.hasAnyElement q with
  | false =>
      simp only [Bool.not_false, if_true]
      exact Runs.pure ⟨by simp [Account.allCalls], .refused element⟩
  | true =>
      simp only [Bool.not_true, Bool.false_eq_true, if_false]
      by_cases wide : D.namesChunk q none < q.listed.length
      · simp only [wide, if_true]
        refine (nameWindows_runs D wide asks).mono ?_
        rintro calls acct ⟨happ, run⟩
        exact ⟨by simpa using happ.symm, .wide element wide run⟩
      · simp only [wide, if_false]
        have narrow : q.listed.length ≤ D.namesChunk q none := by omega
        refine (askLeaf_runs P D q split).listen.bind ?_
        rintro calls ⟨outcome, heard⟩ ⟨rfl, leaf⟩
        cases outcome with
        | answered a => exact Runs.pure ⟨by simp [Account.allCalls], .leaf element narrow leaf⟩
        | listRefused =>
            refine (nameWindows_runs D (D.namesChunk_half leaf.several_of_listRefused)
              asks).mono ?_
            rintro more acct ⟨happ, run⟩
            exact ⟨happ.symm, .refusedList element narrow leaf run⟩
        | timedOut cause =>
            have several := Params.several_regions leaf.splittable_of_timedOut
            refine (regionHalves_runs P D _ heard cause several le_rfl fun half shorter =>
              asks _ false (Params.depth_half shorter)).mono ?_
            rintro more acct ⟨happ, run⟩
            exact ⟨happ.symm, .timedOut element narrow leaf run⟩
        | crowd total floor blind =>
            simp only
            by_cases terms : D.countFirst = true ∧ 1 < q.listed.length
            · rw [if_pos terms]
              refine (probeLegs_runs P D q.ofTerm q.listed).listen.bind ?_
              rintro more ⟨probes, heard'⟩ ⟨rfl, probed⟩
              exact Runs.pure ⟨by simp [Account.allCalls],
                .terms element narrow leaf terms.1 terms.2 probed⟩
            · rw [if_neg terms]
              by_cases classes : D.countFirst = true ∧ 1 < q.splitClasses.length
              · rw [if_pos classes]
                have oneName : q.listed.length ≤ 1 := by
                  by_contra exceeds
                  exact terms ⟨classes.1, by omega⟩
                refine (probeLegs_runs P D q.ofClass q.splitClasses).listen.bind ?_
                rintro more ⟨probes, heard'⟩ ⟨rfl, probed⟩
                refine (readLegs_runs D _ _ fun c =>
                  asks _ true (Params.depth_ofClass c classes.2)).bind ?_
                rintro last st ⟨happ, run⟩
                refine Runs.pure ⟨?_,
                  .classes element narrow leaf classes.1 oneName classes.2 probed run⟩
                have legs : Account.allCallsOf st.legs = last := by
                  simpa [Account.allCallsOf] using happ
                simp [Account.allCalls, legs]
              · rw [if_neg classes]
                refine Runs.pure ⟨by simp [Account.allCalls],
                  .blind element narrow leaf ?_⟩
                cases counts : D.countFirst with
                | false => exact .inl rfl
                | true => exact .inr ⟨by by_contra h; exact terms ⟨counts, by omega⟩,
                    by by_contra h; exact classes ⟨counts, by omega⟩⟩

theorem enumerateWithin_runs {motive : Params → Bool → Account → Prop}
    (step : ∀ q split acct, QuestionRun P D motive q split acct → motive q split acct.stamped)
    (depth : Nat) (q : Params) (split : Bool) (enough : q.depth < depth) :
    AsksSo (enumerateWithin P D depth) motive q split := by
  induction depth generalizing q split with
  | zero => omega
  | succ depth ih =>
      refine (enumerateQuestion_runs P D q split fun q' split' smaller =>
        ih q' split' (by omega)).map ?_
      rintro calls acct ⟨rfl, run⟩
      exact ⟨by simp [Account.stamped], step q split acct run⟩

/-- What one question keeps, given that every smaller question keeps it, every run
of the kernel keeps; and the run adds to the history exactly its account's calls. -/
theorem enumerate_runs {motive : Params → Bool → Account → Prop}
    (step : ∀ q split acct, QuestionRun P D motive q split acct → motive q split acct.stamped)
    (q : Params) (split : Bool) :
    Runs (enumerate P D q split) (fun calls acct => calls = acct.allCalls ∧ motive q split acct) :=
  enumerateWithin_runs P D step _ q split (by omega)

section Depth

variable {ask ask' : Params → Bool → Session Event Account} {q : Params}

theorem readLegs_congr {ceiling : Nat} (legs : List TractableLeg) (st : ClassState)
    (same : ∀ c, ask (q.ofClass c) true = ask' (q.ofClass c) true) :
    readLegs D ask q ceiling legs st = readLegs D ask' q ceiling legs st := by
  induction legs generalizing st with
  | nil => rfl
  | cons leg legs ih => simp only [readLegs, ih, same]

theorem askWindows_congr {ceiling chunks : Nat} {calls : List Event}
    (windows : List (Nat × List String)) (st : WindowState)
    (same : ∀ w ∈ windows,
      ask { q with names := some w.2 } true = ask' { q with names := some w.2 } true) :
    askWindows D ask q calls ceiling chunks windows st =
      askWindows D ask' q calls ceiling chunks windows st := by
  induction windows generalizing st with
  | nil => rfl
  | cons window windows ih =>
      obtain ⟨index, names⟩ := window
      have here := same (index, names) (by simp)
      have later : ∀ st, askWindows D ask q calls ceiling chunks windows st =
          askWindows D ask' q calls ceiling chunks windows st :=
        fun st => ih st fun w mem => same w (by simp [mem])
      simp only [askWindows, here, later]

theorem settleHalf_congr {cause : String}
    {deeper deeper' : Params → String → Session Event Account} {half : List String}
    (acct : Account) (st : HalvesState) (nonempty : half ≠ [])
    (same : 1 < half.length → ∀ cause,
      deeper { q with regions := some half } cause =
        deeper' { q with regions := some half } cause) :
    settleHalf P D cause deeper q half acct st =
      settleHalf P D cause deeper' q half acct st := by
  have positive : 0 < half.length := List.length_pos_iff.mpr nonempty
  unfold settleHalf
  split
  · rfl
  · next one =>
      cases timedOut : acct.timedOut with
      | false => rfl
      | true =>
          have several : 1 < half.length := by
            by_contra h
            exact one ⟨timedOut, by omega⟩
          simp only [same several]

theorem regionHalves_congr {ceiling : Nat} (depth : Nat) (calls : List Event)
    (cause : String) (several : 1 < (q.regions.getD []).length)
    (same : ∀ half : List String, half.length < (q.regions.getD []).length →
      ask { q with regions := some half } false = ask' { q with regions := some half } false) :
    regionHalves P D ask ceiling depth q calls cause =
      regionHalves P D ask' ceiling depth q calls cause := by
  induction depth generalizing q calls cause with
  | zero => rfl
  | succ depth ih =>
      have short : (halfOf (q.regions.getD [])).length < (q.regions.getD []).length := by
        rw [halfOf_length]; omega
      have short' : (otherHalf (q.regions.getD [])).length < (q.regions.getD []).length := by
        rw [otherHalf_length]; omega
      have settle : ∀ half : List String, half ≠ [] →
          half.length < (q.regions.getD []).length → ∀ acct st,
          settleHalf P D cause (fun q cause => regionHalves P D ask ceiling depth q [] cause)
            q half acct st =
          settleHalf P D cause (fun q cause => regionHalves P D ask' ceiling depth q [] cause)
            q half acct st := by
        intro half nonempty shorter acct st
        refine settleHalf_congr P D acct st nonempty fun two cause => ?_
        refine ih (q := { q with regions := some half }) [] cause two fun half' shorter' => ?_
        have lengths : ((some half).getD []).length = half.length := rfl
        exact same half' (by simp only [lengths] at shorter'; omega)
      have nonempty : halfOf (q.regions.getD []) ≠ [] := by
        rw [← List.length_pos_iff, halfOf_length]; omega
      have nonempty' : otherHalf (q.regions.getD []) ≠ [] := by
        rw [← List.length_pos_iff, otherHalf_length]; omega
      simp only [regionHalves, same _ short, same _ short', settle _ nonempty short,
        settle _ nonempty' short']

theorem enumerateQuestion_congr (split : Bool)
    (same : ∀ q' split', q'.depth < q.depth → ask q' split' = ask' q' split') :
    enumerateQuestion P D ask q split = enumerateQuestion P D ask' q split := by
  have windows : ∀ calls width, width < q.listed.length →
      nameWindows D ask q calls width = nameWindows D ask' q calls width :=
    fun calls width narrow => askWindows_congr D _ _ fun w mem =>
      same _ true (Params.depth_window mem narrow)
  unfold enumerateQuestion
  split
  · rfl
  · split
    · next wide => exact windows _ _ wide
    · refine (askLeaf_runs P D q split).listen.bind_congr ?_
      rintro calls ⟨outcome, heard⟩ ⟨rfl, leaf⟩
      cases outcome with
      | answered a => rfl
      | listRefused =>
          exact windows _ _ (D.namesChunk_half leaf.several_of_listRefused)
      | timedOut cause =>
          exact regionHalves_congr P D _ _ _
            (Params.several_regions leaf.splittable_of_timedOut)
            fun half shorter => same _ false (Params.depth_half shorter)
      | crowd total floor blind =>
          simp only
          split
          · rfl
          · split
            · next classes =>
                have legs : ∀ legs st, readLegs D ask q (D.ceiling q) legs st =
                    readLegs D ask' q (D.ceiling q) legs st :=
                  fun legs st => readLegs_congr D legs st fun c =>
                    same _ true (Params.depth_ofClass c classes.2)
                simp only [classSplitRescue, legs]
            · rfl

/-- Any depth the question cannot use up gives the same computation. -/
theorem enumerateWithin_eq (depth : Nat) (q : Params) (split : Bool)
    (enough : q.depth < depth) : enumerateWithin P D depth q split = enumerate P D q split := by
  have within : ∀ depth depth' q split, q.depth < depth → q.depth < depth' →
      enumerateWithin P D depth q split = enumerateWithin P D depth' q split := by
    intro depth
    induction depth with
    | zero => intro depth' q split enough; omega
    | succ depth ih =>
        intro depth' q split enough enough'
        obtain ⟨depth', rfl⟩ : ∃ k, depth' = k + 1 := ⟨depth' - 1, by omega⟩
        simp only [enumerateWithin]
        rw [enumerateQuestion_congr P D split fun q' split' smaller =>
          ih depth' q' split' (by omega) (by omega)]
  exact within depth (q.depth + 1) q split enough (by omega)

end Depth

end Clearotron
