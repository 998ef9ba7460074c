import Clearotron.Register.Leaf

/-!
# What one question, asked as it stands, can do

Each definition below says, without the monad, everything one part of the kernel
can do: which calls it makes, what the provider said to each, and what comes out.
A fact about the kernel is then proved by cases on these, one case for each exit
the source has, and the monadic code is opened here only, once.
-/

namespace Clearotron

open Session

/-- The provider gives this reply to this call, after some history. -/
def Provider.Says (P : Provider) : Event → Prop
  | .page q index prev reply => ∃ h, reply = guardToolCall "search" (P.search h q index prev)
  | .probe q reply => ∃ h, reply = guardToolCall "search" (P.cheapSearch h q)
  | .count q reply => ∃ h, reply = guardCountCall "count" (P.count h q)
  | .screen uris classes reply =>
      ∃ h, reply = guardToolCall "record-screen" (P.screen h uris classes)

/-- The clock may have read so. -/
def Provider.Reads (P : Provider) (late : Bool) : Prop := ∃ h, late = P.pastSendUntil h

/-- A call that was not put again in pieces could not be, was no timeout, or was late. -/
theorem Provider.Reads.final {P : Provider} {splittable timeout late : Bool}
    (reads : P.Reads late) (again : ¬ (splittable && timeout && !late) = true) :
    splittable = false ∨ timeout = false ∨ P.Reads true := by
  cases splittable with
  | false => exact .inl rfl
  | true =>
      cases timeout with
      | false => exact .inr (.inl rfl)
      | true =>
          cases late with
          | false => exact absurd rfl again
          | true => exact .inr (.inr reads)

section Calls

variable {P : Provider}

theorem askPage_runs (q : Params) (index : Nat) (prev : Option Page) :
    Runs (P.askPage q index prev) (fun added reply =>
      added = [.page q index prev reply] ∧ P.Says (.page q index prev reply)) :=
  Runs.call fun h => ⟨rfl, h, rfl⟩

theorem askProbe_runs (q : Params) :
    Runs (P.askProbe q) (fun added reply =>
      added = [.probe q reply] ∧ P.Says (.probe q reply)) :=
  Runs.call fun h => ⟨rfl, h, rfl⟩

theorem askCount_runs (q : Params) :
    Runs (P.askCount q) (fun added reply =>
      added = [.count q reply] ∧ P.Says (.count q reply)) :=
  Runs.call fun h => ⟨rfl, h, rfl⟩

theorem askScreen_runs (uris : List String) (classes : List Nat) :
    Runs (P.askScreen uris classes) (fun added reply =>
      added = [.screen uris classes reply] ∧ P.Says (.screen uris classes reply)) :=
  Runs.call fun h => ⟨rfl, h, rfl⟩

theorem isLate_runs : Runs P.isLate (fun added late => added = [] ∧ P.Reads late) :=
  Runs.observe fun h => ⟨rfl, h, rfl⟩

end Calls

variable (P : Provider) (D : Deps)

/-- How an exhausted band is settled. -/
inductive FinishRun (q : Params) (probeTotal : Option Nat) (st : PageState) :
    List Event → Answer → Prop where
  | shortfall {i : Incomplete} (short : bandShortfall D probeTotal st = some i) :
      FinishRun q probeTotal st [] (.incomplete i)
  | inline (full : bandShortfall D probeTotal st = none) (free : ¬ needsScreen D st) :
      FinishRun q probeTotal st [] (.enumerated (inlineBand D q st))
  | screened {reply : Reply ScreenAnswer} (full : bandShortfall D probeTotal st = none)
      (needed : needsScreen D st)
      (said : P.Says (.screen (screenUris D st) q.inScopeClasses reply)) :
      FinishRun q probeTotal st [.screen (screenUris D st) q.inScopeClasses reply]
        (screenedBand D st reply)

theorem finishBand_runs (q : Params) (probeTotal : Option Nat) (st : PageState) :
    Runs (finishBand P D q probeTotal st) (FinishRun P D q probeTotal st) := by
  unfold finishBand
  split
  · next i short => exact Runs.pure (.shortfall short)
  · next full =>
      split
      · next needed =>
          refine (askScreen_runs _ _).map ?_
          rintro added reply ⟨rfl, said⟩
          exact .screened full needed said
      · next free => exact Runs.pure (.inline full free)

/-- Content that did not land is a provider error with the band's own figures. -/
theorem contentLoss_some {total : Option Nat} {fetched asked : Nat} {records : List Record}
    {sj : Option ScreenAnswer} {lift : Option ScreenLift} {i : Incomplete}
    (lost : contentLoss total fetched asked records sj lift = some i) :
    ∃ reason, i = incomplete total fetched records reason ∧
      Text.isProviderError reason = true := by
  unfold contentLoss at lost
  simp only at lost
  generalize (lift.any fun l => !l.applied) = unjoined at lost
  generalize (sj.all fun s => s.rows.isNone || decide (s.errors ≠ [])) = failed at lost
  split at lost
  · obtain rfl := Option.some.inj lost
    exact ⟨_, rfl, isProviderError_unjoinedReason _ _⟩
  · split at lost
    · obtain rfl := Option.some.inj lost
      exact ⟨_, rfl, isProviderError_contentLossReason _ _⟩
    · cases lost

/-- A band whose count and rows disagree is a provider error; its figure is the loop's
total or the count's. -/
theorem bandShortfall_some {probeTotal : Option Nat} {st : PageState} {i : Incomplete}
    (short : bandShortfall D probeTotal st = some i) :
    ∃ total reason, i = incomplete total st.results.length st.results reason ∧
      Text.isProviderError reason = true ∧
      (total = st.total ∨ D.countProbe = .endpoint ∧ total = probeTotal ∧ total ≠ none) := by
  unfold bandShortfall at short
  split at short
  · next endpoint =>
      obtain rfl := Option.some.inj short
      refine ⟨probeTotal, _, rfl, isProviderError_endpointDivergenceReason _ _,
        .inr ⟨endpoint.1, rfl, ?_⟩⟩
      rintro rfl
      simp at endpoint
  · split at short
    · obtain rfl := Option.some.inj short
      exact ⟨st.total, _, rfl, isProviderError_cheapDivergenceReason _ _, .inl rfl⟩
    · cases short

/-- How an exhausted band comes out: enumerated under the loop's total, with no map of
its own, or a provider error. -/
theorem FinishRun.outcome {P : Provider} {D : Deps} {q : Params} {probeTotal : Option Nat}
    {st : PageState} {calls : List Event} {a : Answer}
    (run : FinishRun P D q probeTotal st calls a) :
    (∃ e, a = .enumerated e ∧ e.totalHits = st.total ∧ e.termCounts = none ∧
      e.classCounts = none ∧ e.regionSplit = none) ∨
    ∃ total fetched sample reason,
      a = .incomplete (incomplete total fetched sample reason) ∧
      Text.isProviderError reason = true ∧
      (total = st.total ∨ D.countProbe = .endpoint ∧ total = probeTotal ∧ total ≠ none) := by
  cases run with
  | shortfall short =>
      obtain ⟨total, reason, rfl, failed, figure⟩ := bandShortfall_some D short
      exact .inr ⟨total, _, _, reason, rfl, failed, figure⟩
  | inline full free => exact .inl ⟨_, rfl, rfl, rfl, rfl, rfl⟩
  | @screened reply full needed said =>
      unfold screenedBand
      simp only
      split
      · next i lost =>
          split at lost
          · obtain ⟨reason, rfl, failed⟩ := contentLoss_some lost
            exact .inr ⟨st.total, _, _, reason, rfl, failed, .inl rfl⟩
          · cases lost
      · exact .inl ⟨_, rfl, rfl, rfl, rfl, rfl⟩

/-- A band makes no call but the screening of what it holds. -/
theorem FinishRun.screens {P : Provider} {D : Deps} {q : Params} {probeTotal : Option Nat}
    {st : PageState} {calls : List Event} {a : Answer}
    (run : FinishRun P D q probeTotal st calls a) :
    ∀ c ∈ calls, ∃ uris classes reply, c = .screen uris classes reply := by
  cases run <;> simp

/-- What is known of a page whose rows were kept. -/
structure PageKept (ceiling index : Nat) (st : PageState) (p : Page) : Prop where
  totalled : D.countProbe = .cheap → ∃ t, p.totalHits = some t
  firstUnder : D.countProbe = .cheap → index = 0 → ∀ t, p.totalHits = some t → t ≤ ceiling
  rowsUnder : D.countProbe = .none → st.results.length + p.results.length ≤ ceiling

/-- What reading one parsed page can do. -/
inductive ReadRun (ceiling : Nat) (probeTotal : Option Nat) (index : Nat) (st : PageState)
    (p : Page) : PageRead → Prop where
  | floorCrowd {floor : Nat} (cheap : D.countProbe = .cheap) (untotalled : p.totalHits = none)
      (floored : p.floorOf = some floor) (first : index = 0) :
      ReadRun ceiling probeTotal index st p
        (.exit (.crowd none (some floor) (floorBlind st p floor)))
  | floorLater {floor : Nat} (cheap : D.countProbe = .cheap) (untotalled : p.totalHits = none)
      (floored : p.floorOf = some floor) (later : index ≠ 0) :
      ReadRun ceiling probeTotal index st p
        (.exit (.answered (.incomplete (floorBlind st p floor))))
  | untotalled (cheap : D.countProbe = .cheap) (untotalled : p.totalHits = none)
      (unfloored : p.floorOf = none) :
      ReadRun ceiling probeTotal index st p
        (.exit (.answered (.incomplete
          (incomplete none st.results.length st.results (untotalledReason index)))))
  | crowd {total : Nat} (cheap : D.countProbe = .cheap) (first : index = 0)
      (totalled : p.totalHits = some total) (exceeds : ceiling < total) :
      ReadRun ceiling probeTotal index st p
        (.exit (.crowd (some total) none (incomplete (some total) p.results.length p.results
          (crowdReason total ceiling))))
  | unbounded (without : D.countProbe = .none)
      (exceeds : ceiling < st.results.length + p.results.length) :
      ReadRun ceiling probeTotal index st p
        (.exit (.answered (.incomplete (incomplete none
          (st.results ++ p.results).length (st.results ++ p.results)
          (unboundedReason (st.results ++ p.results).length ceiling)))))
  | more (kept : PageKept D ceiling index st p) (hasMore : p.hasMore = true) :
      ReadRun ceiling probeTotal index st p
        (.more (st.take (readTotal D probeTotal st p) p))
  | last (kept : PageKept D ceiling index st p) (hasMore : p.hasMore = false) :
      ReadRun ceiling probeTotal index st p
        (.last (st.take (readTotal D probeTotal st p) p))

theorem readPage_runs (ceiling : Nat) (probeTotal : Option Nat) (index : Nat)
    (st : PageState) (p : Page) :
    ReadRun D ceiling probeTotal index st p
      (readPage D ceiling probeTotal index st p) := by
  unfold readPage
  by_cases uncounted : D.countProbe = .cheap ∧ p.totalHits = none
  · obtain ⟨cheap, untotalled⟩ := uncounted
    simp only [cheap, untotalled, and_self, if_true]
    cases floored : p.floorOf with
    | none => exact .untotalled cheap untotalled floored
    | some floor =>
        dsimp only
        by_cases first : index = 0
        · rw [if_pos first]
          exact .floorCrowd cheap untotalled floored first
        · rw [if_neg first]
          exact .floorLater cheap untotalled floored first
  · simp only [uncounted, if_false]
    -- past the first test a cheap provider's page carries its total
    have totalled : D.countProbe = .cheap → ∃ t, p.totalHits = some t := fun cheap =>
      Option.ne_none_iff_exists'.mp fun none => uncounted ⟨cheap, none⟩
    have read : ∀ t, D.countProbe = .cheap → p.totalHits = some t →
        readTotal D probeTotal st p = some t := by
      intro t cheap total
      simp [readTotal, cheap, total]
    by_cases crowd : D.countProbe = .cheap ∧ index = 0 ∧
        (readTotal D probeTotal st p).any (ceiling < ·) = true
    · obtain ⟨cheap, first, exceeds⟩ := crowd
      obtain ⟨t, total⟩ := totalled cheap
      simp only [read t cheap total, Option.any_some, decide_eq_true_eq] at exceeds ⊢
      obtain rfl := first
      simp only [cheap, exceeds, and_self, if_true, Option.getD_some]
      exact .crowd cheap rfl total exceeds
    · simp only [crowd, if_false]
      have kept : ¬ (D.countProbe = .none ∧
          ceiling < (st.take (readTotal D probeTotal st p) p).results.length) →
          PageKept D ceiling index st p := by
        intro under
        refine ⟨totalled, fun cheap first t total => ?_, fun without => ?_⟩
        · by_contra exceeds
          exact crowd ⟨cheap, first, by simpa [read t cheap total] using exceeds⟩
        · by_contra exceeds
          exact under ⟨without, by simpa [PageState.take] using exceeds⟩
      by_cases unbounded : D.countProbe = .none ∧
          ceiling < (st.take (readTotal D probeTotal st p) p).results.length
      · simp only [unbounded, and_self, if_true]
        exact .unbounded unbounded.1 (by simpa [PageState.take] using unbounded.2)
      · simp only [unbounded, if_false]
        cases hasMore : p.hasMore with
        | true => exact .more (kept unbounded) hasMore
        | false => exact .last (kept unbounded) hasMore

/-- How the page loop runs. `left` pages may still follow this one. -/
inductive PageRun (q : Params) (split : Bool) (probeTotal : Option Nat) :
    (left index : Nat) → PageState → List Event → LeafOutcome → Prop where
  | refusedList {left : Nat} {st : PageState} {text : String}
      (said : P.Says (.page q 0 st.prev (.error text)))
      (several : 1 < q.listed.length) (refusal : D.listRefusal.any (· text) = true) :
      PageRun q split probeTotal left 0 st [.page q 0 st.prev (.error text)] .listRefused
  | timedOut {left index : Nat} {st : PageState} {text : String}
      (said : P.Says (.page q index st.prev (.error text)))
      (splittable : q.splittable split = true)
      (timeout : Text.isGatewayTimeout text = true) (onTime : P.Reads false) :
      PageRun q split probeTotal left index st [.page q index st.prev (.error text)]
        (.timedOut text)
  | failed {left index : Nat} {st : PageState} {text : String}
      (said : P.Says (.page q index st.prev (.error text)))
      (unrefused : ¬ (index = 0 ∧ 1 < q.listed.length ∧ D.listRefusal.any (· text) = true))
      (final : q.splittable split = false ∨ Text.isGatewayTimeout text = false ∨
        P.Reads true) :
      PageRun q split probeTotal left index st [.page q index st.prev (.error text)]
        (.answered (.incomplete ((incomplete st.total st.results.length st.results
          (pageErrorReason index text)).timeoutMark split text)))
  | unparsed {left index : Nat} {st : PageState} {text : String}
      (said : P.Says (.page q index st.prev (.unparsed text))) :
      PageRun q split probeTotal left index st [.page q index st.prev (.unparsed text)]
        (.answered (.incomplete (incomplete st.total st.results.length st.results
          (unparsedReason index))))
  | exit {left index : Nat} {st : PageState} {p : Page} {outcome : LeafOutcome}
      (said : P.Says (.page q index st.prev (.answered p)))
      (read : ReadRun D (D.ceiling q) probeTotal index st p (.exit outcome)) :
      PageRun q split probeTotal left index st [.page q index st.prev (.answered p)] outcome
  | last {left index : Nat} {st next : PageState} {p : Page} {calls : List Event}
      {a : Answer} (said : P.Says (.page q index st.prev (.answered p)))
      (read : ReadRun D (D.ceiling q) probeTotal index st p (.last next))
      (finish : FinishRun P D q probeTotal next calls a) :
      PageRun q split probeTotal left index st
        (.page q index st.prev (.answered p) :: calls) (.answered a)
  | guarded {index : Nat} {st next : PageState} {p : Page}
      (said : P.Says (.page q index st.prev (.answered p)))
      (read : ReadRun D (D.ceiling q) probeTotal index st p (.more next)) :
      PageRun q split probeTotal 0 index st [.page q index st.prev (.answered p)]
        (.answered (.incomplete (incomplete next.total next.results.length next.results
          (guardReason D.pageGuard (next.capWarning.getD D.providerWindow)))))
  | more {left index : Nat} {st next : PageState} {p : Page} {calls : List Event}
      {outcome : LeafOutcome} (said : P.Says (.page q index st.prev (.answered p)))
      (read : ReadRun D (D.ceiling q) probeTotal index st p (.more next))
      (rest : PageRun q split probeTotal left (index + 1) next calls outcome) :
      PageRun q split probeTotal (left + 1) index st
        (.page q index st.prev (.answered p) :: calls) outcome

/-- One page of the loop, given the pages after it. -/
theorem pageLoop_step {q : Params} {split : Bool} {probeTotal : Option Nat}
    {left index : Nat} {st : PageState}
    (rest : ∀ n next, left = n + 1 →
      Runs (pageLoop P D q split probeTotal n (index + 1) next)
        (PageRun P D q split probeTotal n (index + 1) next)) :
    Runs (pageLoop P D q split probeTotal left index st)
      (PageRun P D q split probeTotal left index st) := by
  unfold pageLoop
  refine (askPage_runs q index st.prev).bind ?_
  rintro added reply ⟨rfl, said⟩
  cases reply with
  | error text =>
      by_cases refusal : index = 0 ∧ 1 < q.listed.length ∧ D.listRefusal.any (· text) = true
      · obtain ⟨rfl, several, refusal⟩ := refusal
        simp only [several, refusal, and_self, if_true]
        exact Runs.pure (.refusedList said several refusal)
      · simp only [refusal, if_false]
        refine isLate_runs.bind ?_
        rintro added late ⟨rfl, reads⟩
        by_cases again : (q.splittable split && Text.isGatewayTimeout text && !late) = true
        · simp only [again, if_true]
          simp only [Bool.and_eq_true, Bool.not_eq_true'] at again
          obtain ⟨⟨splittable, timeout⟩, rfl⟩ := again
          exact Runs.pure (.timedOut said splittable timeout reads)
        · simp only [again]
          exact Runs.pure (.failed said refusal (reads.final again))
  | unparsed text => exact Runs.pure (.unparsed said)
  | answered p =>
      have read := readPage_runs D (D.ceiling q) probeTotal index st p
      cases reading : readPage D (D.ceiling q) probeTotal index st p with
      | exit outcome =>
          simp only [reading] at read ⊢
          exact Runs.pure (.exit said read)
      | last next =>
          simp only [reading] at read ⊢
          exact (finishBand_runs P D q probeTotal next).map
            fun calls a finish => .last said read finish
      | more next =>
          simp only [reading] at read ⊢
          cases left with
          | zero => exact Runs.pure (.guarded said read)
          | succ n =>
              exact (rest n next rfl).mono fun calls outcome later => .more said read later

theorem pageLoop_runs (q : Params) (split : Bool) (probeTotal : Option Nat)
    (left index : Nat) (st : PageState) :
    Runs (pageLoop P D q split probeTotal left index st)
      (PageRun P D q split probeTotal left index st) := by
  induction left generalizing index st with
  | zero => exact pageLoop_step P D (by intro n next h; cases h)
  | succ left ih =>
      refine pageLoop_step P D fun n next h => ?_
      obtain rfl : left = n := by omega
      exact ih (index + 1) next

/-- How a question asked as it stands runs. -/
inductive LeafRun (q : Params) (split : Bool) : List Event → LeafOutcome → Prop where
  | refusedCount {reason : Option String} (endpoint : D.countProbe = .endpoint)
      (said : P.Says (.count q (.failed reason)))
      (refusal : D.cardinalityRefusal.any (· (reason.getD "")) = true) :
      LeafRun q split [.count q (.failed reason)]
        (.answered (.incomplete { incomplete none 0 [] (refusedCountReason reason)
          with crowdBasis := some .providerRefusedCount, countUnavailable := true }))
  | countTimedOut {reason : Option String} (endpoint : D.countProbe = .endpoint)
      (said : P.Says (.count q (.failed reason)))
      (splittable : q.splittable split = true)
      (timeout : Text.isGatewayTimeout (reason.getD "") = true) (onTime : P.Reads false) :
      LeafRun q split [.count q (.failed reason)] (.timedOut (reason.getD ""))
  | countFailed {reason : Option String} (endpoint : D.countProbe = .endpoint)
      (said : P.Says (.count q (.failed reason)))
      (unrefused : D.cardinalityRefusal.any (· (reason.getD "")) = false)
      (final : q.splittable split = false ∨ Text.isGatewayTimeout (reason.getD "") = false ∨
        P.Reads true) :
      LeafRun q split [.count q (.failed reason)]
        (.answered (.incomplete ((incomplete (some 0) 0 []
          (countErrorReason reason)).timeoutMark split (reason.getD ""))))
  | countCrowd {total : Option Nat} {counts : Option String}
      (endpoint : D.countProbe = .endpoint)
      (said : P.Says (.count q (.counted total counts)))
      (exceeds : D.ceiling q < total.getD 0) :
      LeafRun q split [.count q (.counted total counts)]
        (.crowd (some (total.getD 0)) none
          (incomplete (some (total.getD 0)) 0 [] (crowdReason (total.getD 0) (D.ceiling q))))
  | counted {total : Option Nat} {counts : Option String} {calls : List Event}
      {outcome : LeafOutcome} (endpoint : D.countProbe = .endpoint)
      (said : P.Says (.count q (.counted total counts)))
      (under : total.getD 0 ≤ D.ceiling q)
      (pages : PageRun P D q split (some (total.getD 0)) (D.pageGuard - 1) 0
        { total := some (total.getD 0) } calls outcome) :
      LeafRun q split (.count q (.counted total counts) :: calls) outcome
  | paged {calls : List Event} {outcome : LeafOutcome} (searches : D.countProbe ≠ .endpoint)
      (pages : PageRun P D q split none (D.pageGuard - 1) 0
        { total := if D.countProbe = .cheap then some 0 else none } calls outcome) :
      LeafRun q split calls outcome

theorem askLeaf_runs (q : Params) (split : Bool) :
    Runs (askLeaf P D q split) (LeafRun P D q split) := by
  unfold askLeaf
  split
  · next endpoint =>
      refine (askCount_runs q).bind ?_
      rintro added reply ⟨rfl, said⟩
      cases reply with
      | failed reason =>
          by_cases refusal : D.cardinalityRefusal.any (· (reason.getD "")) = true
          · simp only [refusal, if_true]
            exact Runs.pure (.refusedCount endpoint said refusal)
          · simp only [refusal]
            refine isLate_runs.bind ?_
            rintro added late ⟨rfl, reads⟩
            by_cases again : (q.splittable split &&
                Text.isGatewayTimeout (reason.getD "") && !late) = true
            · simp only [again, if_true]
              simp only [Bool.and_eq_true, Bool.not_eq_true'] at again
              obtain ⟨⟨splittable, timeout⟩, rfl⟩ := again
              exact Runs.pure (.countTimedOut endpoint said splittable timeout reads)
            · simp only [again]
              exact Runs.pure
                (.countFailed endpoint said (by simpa using refusal) (reads.final again))
      | counted total counts =>
          by_cases exceeds : D.ceiling q < total.getD 0
          · simp only [exceeds, if_true]
            exact Runs.pure (.countCrowd endpoint said exceeds)
          · simp only [exceeds, if_false]
            exact (pageLoop_runs P D q split _ _ _ _).mono
              fun calls outcome pages => .counted endpoint said (by omega) pages
  · next cheap =>
      refine (pageLoop_runs P D q split _ _ _ _).mono fun calls outcome pages => ?_
      exact .paged (by simp [cheap]) (by simpa [cheap] using pages)
  · next untotalled =>
      refine (pageLoop_runs P D q split _ _ _ _).mono fun calls outcome pages => ?_
      exact .paged (by simp [untotalled]) (by simpa [untotalled] using pages)

/-- A question asked as it stands settles no spelling and no class by itself. -/
def LeafOutcome.Unmapped : LeafOutcome → Prop
  | .answered a => a.termCounts = none ∧ a.classCounts = none
  | .crowd _ _ blind => blind.termCounts = none ∧ blind.classCounts = none
  | _ => True

section Unmapped

variable {P : Provider} {D : Deps} {q : Params}

theorem ReadRun.unmapped {ceiling : Nat} {probeTotal : Option Nat} {index : Nat}
    {st : PageState} {p : Page} {outcome : LeafOutcome}
    (read : ReadRun D ceiling probeTotal index st p (.exit outcome)) : outcome.Unmapped := by
  cases read <;> exact ⟨rfl, rfl⟩

theorem FinishRun.unmapped {probeTotal : Option Nat} {st : PageState} {calls : List Event}
    {a : Answer} (run : FinishRun P D q probeTotal st calls a) :
    (LeafOutcome.answered a).Unmapped := by
  obtain ⟨e, rfl, -, terms, classes, -⟩ | ⟨total, fetched, sample, reason, rfl, -⟩ :=
    run.outcome
  · exact ⟨terms, classes⟩
  · exact ⟨rfl, rfl⟩

theorem PageRun.unmapped {split : Bool} {probeTotal : Option Nat} {left index : Nat}
    {st : PageState} {calls : List Event} {outcome : LeafOutcome}
    (run : PageRun P D q split probeTotal left index st calls outcome) : outcome.Unmapped := by
  induction run with
  | refusedList => trivial
  | timedOut => trivial
  | failed => exact ⟨rfl, rfl⟩
  | unparsed => exact ⟨rfl, rfl⟩
  | exit said read => exact read.unmapped
  | last said read finish => exact finish.unmapped
  | guarded => exact ⟨rfl, rfl⟩
  | more said read rest ih => exact ih

theorem LeafRun.unmapped {split : Bool} {calls : List Event} {outcome : LeafOutcome}
    (run : LeafRun P D q split calls outcome) : outcome.Unmapped := by
  cases run with
  | refusedCount => exact ⟨rfl, rfl⟩
  | countTimedOut => trivial
  | countFailed => exact ⟨rfl, rfl⟩
  | countCrowd => exact ⟨rfl, rfl⟩
  | counted endpoint said under pages => exact pages.unmapped
  | paged searches pages => exact pages.unmapped

end Unmapped

end Clearotron
