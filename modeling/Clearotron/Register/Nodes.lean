import Clearotron.Register.Completeness

/-!
# Every run behind a run

An account holds the accounts of the runs it went through. A rule that each question
keeps, however its own pieces came back, holds at every node of every account.
-/

namespace Clearotron

namespace Account

mutual

/-- The account of a run and of every run it went through. -/
def nodes : Account → List Account
  | refused q a => [refused q a]
  | leaf q calls a => [leaf q calls a]
  | terms q calls more probes a => [terms q calls more probes a]
  | classes q calls more probes legs a => classes q calls more probes legs a :: nodesOf legs
  | windows q calls parts a => windows q calls parts a :: nodesOf parts
  | halves q calls asked again parts a =>
      halves q calls asked again parts a :: (nodesOf asked ++ nodesOf again ++ nodesOf parts)

def nodesOf : List Account → List Account
  | [] => []
  | acct :: rest => nodes acct ++ nodesOf rest

end

theorem mem_nodes_self (acct : Account) : acct ∈ acct.nodes := by
  cases acct <;> simp [nodes]

theorem mem_nodesOf {node : Account} {parts : List Account} :
    node ∈ nodesOf parts ↔ ∃ p ∈ parts, node ∈ p.nodes := by
  induction parts with
  | nil => simp [nodesOf]
  | cons p parts ih => simp [nodesOf, ih]

end Account

namespace Account

/-- The accounts an account is put together from. -/
def subs : Account → List Account
  | classes _ _ _ _ legs _ => legs
  | windows _ _ parts _ => parts
  | halves _ _ asked again parts _ => asked ++ again ++ parts
  | _ => []

theorem sizeOf_subs {acct p : Account} (mem : p ∈ acct.subs) : sizeOf p < sizeOf acct := by
  cases acct with
  | classes q calls more probes legs a =>
      have := List.sizeOf_lt_of_mem (show p ∈ legs from mem)
      simp only [classes.sizeOf_spec]
      omega
  | windows q calls parts a =>
      have := List.sizeOf_lt_of_mem (show p ∈ parts from mem)
      simp only [windows.sizeOf_spec]
      omega
  | halves q calls asked again parts a =>
      simp only [halves.sizeOf_spec]
      obtain mem | mem := List.mem_append.mp mem
      · obtain mem | mem := List.mem_append.mp mem
        · have := List.sizeOf_lt_of_mem mem
          omega
        · have := List.sizeOf_lt_of_mem mem
          omega
      · have := List.sizeOf_lt_of_mem mem
        omega
  | _ => cases mem

/-- What an account has whenever its pieces have it, every account has. -/
theorem of_subs {motive : Account → Prop}
    (step : ∀ acct, (∀ p ∈ acct.subs, motive p) → motive acct) (acct : Account) :
    motive acct := by
  induction sized : sizeOf acct using Nat.strong_induction_on generalizing acct with
  | _ n ih =>
      subst sized
      exact step acct fun p mem => ih _ (sizeOf_subs mem) p rfl

/-- The account with another answer differs in its own node alone. -/
theorem mem_nodes_setAnswer {acct node : Account} {a : Answer}
    (mem : node ∈ (acct.setAnswer a).nodes) : node = acct.setAnswer a ∨ node ∈ acct.nodes := by
  cases acct with
  | refused q b => exact .inl (List.mem_singleton.mp mem)
  | leaf q calls b => exact .inl (List.mem_singleton.mp mem)
  | terms q calls more probes b => exact .inl (List.mem_singleton.mp mem)
  | classes q calls more probes legs b =>
      exact (List.mem_cons.mp mem).imp_right (List.mem_cons_of_mem _)
  | windows q calls parts b =>
      exact (List.mem_cons.mp mem).imp_right (List.mem_cons_of_mem _)
  | halves q calls asked again parts b =>
      exact (List.mem_cons.mp mem).imp_right (List.mem_cons_of_mem _)

end Account

section Parts

variable {P : Provider} {D : Deps} {part : Params → Bool → Account → Prop}
  {deeper : Params → String → Account → Prop} {q : Params}

/-- A class rescue's legs were each asked. -/
theorem LegsRun.asked {ceiling : Nat} {legs : List TractableLeg} {st st' : ClassState}
    (run : LegsRun D part q ceiling legs st st') {acct : Account} (mem : acct ∈ st'.legs) :
    acct ∈ st.legs ∨ ∃ c, part (q.ofClass c) true acct := by
  induction run with
  | done => exact .inl mem
  | skip exceeds rest ih => exact ih mem
  | @read leg legs st st' leg_ under asked rest ih =>
      obtain known | later := ih mem
      · rw [foldLeg_legs] at known
        obtain known | here := List.mem_append.mp known
        · exact .inl known
        · exact .inr ⟨leg.class_, List.mem_singleton.mp here ▸ asked⟩
      · exact .inr later

/-- What a leg's own answer settled for its class stands at the end. -/
theorem LegsRun.settled {ceiling : Nat} {legs : List TractableLeg} {st st' : ClassState}
    (run : LegsRun D part q ceiling legs st st')
    (distinct : (legs.map TractableLeg.class_).Nodup) {acct : Account}
    (mem : acct ∈ st'.legs) :
    acct ∈ st.legs ∨ ∃ leg ∈ legs, part (q.ofClass leg.class_) true acct ∧
      ∃ before : ClassState, ∀ v,
        (leg.class_, v) ∈ (foldLeg D ceiling leg acct before).counts.entries →
          (leg.class_, v) ∈ st'.counts.entries := by
  induction run with
  | done => exact .inl mem
  | skip exceeds rest ih =>
      simp only [List.map_cons, List.nodup_cons] at distinct
      obtain known | ⟨leg, legMem, h⟩ := ih distinct.2 mem
      · exact .inl known
      · exact .inr ⟨leg, List.mem_cons_of_mem _ legMem, h⟩
  | @read leg legs st st' acct' under asked rest ih =>
      simp only [List.map_cons, List.nodup_cons] at distinct
      obtain known | ⟨leg, legMem, h⟩ := ih distinct.2 mem
      · rw [foldLeg_legs] at known
        obtain known | here := List.mem_append.mp known
        · exact .inl known
        · obtain rfl := List.mem_singleton.mp here
          exact .inr ⟨leg, List.mem_cons_self, asked, st, fun v => rest.keeps distinct.1⟩
      · exact .inr ⟨leg, List.mem_cons_of_mem _ legMem, h⟩

/-- A slice's windows were each asked. -/
theorem WindowsRun.asked {calls : List Event} {ceiling chunks : Nat}
    {windows : List (Nat × List String)} {st : WindowState} {acct : Account}
    (run : WindowsRun D part q calls ceiling chunks windows st acct) :
    ∃ parts a, acct = .windows q calls parts a ∧
      ∀ p ∈ parts, p ∈ st.parts ∨ ∃ names, part { q with names := some names } true p := by
  induction run with
  | done => exact ⟨_, _, rfl, fun p mem => .inl mem⟩
  | @stop index names rest st st' acct a asked fold =>
      have parts : st'.parts = st.parts ++ [acct] := fold.parts_eq
      refine ⟨_, _, rfl, fun p mem => ?_⟩
      rw [parts] at mem
      obtain known | here := List.mem_append.mp mem
      · exact .inl known
      · exact .inr ⟨names, List.mem_singleton.mp here ▸ asked⟩
  | @next index names rest st st' acct whole asked fold later ih =>
      have parts : st'.parts = st.parts ++ [acct] := fold.parts_eq
      obtain ⟨all, a, rfl, each⟩ := ih
      refine ⟨all, a, rfl, fun p mem => ?_⟩
      obtain known | later := each p mem
      · rw [parts] at known
        obtain known | here := List.mem_append.mp known
        · exact .inl known
        · exact .inr ⟨names, List.mem_singleton.mp here ▸ asked⟩
      · exact .inr later

/-- A part that is folded into a split is the half as it stands or the half halved in
turn; what was asked before stands. -/
theorem SettleRun.asked {cause : String} {half : List String} {acct : Account}
    {st : HalvesState} {r : (Answer × HalvesState) ⊕ HalvesState}
    (run : SettleRun P D deeper q cause half acct st r) :
    (∃ more, (r.elim Prod.snd id).again = st.again ++ more ∧
      ∀ p ∈ more, ∃ cause, deeper { q with regions := some half } cause p) ∧
    ∀ p ∈ (r.elim Prod.snd id).parts,
      p ∈ st.parts ∨ p = acct ∨ p ∈ (r.elim Prod.snd id).again := by
  cases run with
  | oneRegion timedOut one => exact ⟨⟨[], by simp, by simp⟩, fun p mem => .inl mem⟩
  | @again part _ timedOut several onTime asked fold =>
      have parts : (r.elim Prod.snd id).parts = st.parts ++ [part] := by
        cases fold <;> rfl
      refine ⟨⟨[part], fold.again_eq, by simpa using ⟨_, asked⟩⟩, fun p mem => ?_⟩
      rw [parts] at mem
      rw [fold.again_eq]
      obtain known | here := List.mem_append.mp mem
      · exact .inl known
      · exact .inr (.inr (by simp [List.mem_singleton.mp here]))
  | stands final fold =>
      have parts : (r.elim Prod.snd id).parts = st.parts ++ [acct] := by
        cases fold <;> rfl
      refine ⟨⟨[], by simp [fold.again_eq], by simp⟩, fun p mem => ?_⟩
      rw [parts] at mem
      obtain known | here := List.mem_append.mp mem
      · exact .inl known
      · exact .inr (.inl (List.mem_singleton.mp here))

/-- A half that ends a split leaves a total stated. -/
theorem SettleRun.stated {cause : String} {half : List String} {acct : Account}
    {st st' : HalvesState} {a : Answer}
    (run : SettleRun P D deeper q cause half acct st (.inl (a, st'))) : a.totalHits ≠ none := by
  cases run with
  | oneRegion timedOut one => exact Option.some_ne_none _
  | again timedOut several onTime asked fold =>
      cases fold
      exact Option.some_ne_none _
  | stands final fold =>
      cases fold
      exact Option.some_ne_none _

theorem halvesAnswer_stated (ceiling : Nat) (cause : String) (st : HalvesState) :
    (halvesAnswer ceiling cause st).totalHits ≠ none := by
  unfold halvesAnswer
  split <;> exact Option.some_ne_none _

/-- The two halves settled, and what the split says of them. -/
theorem BothRun.asked {ceiling : Nat} {cause : String} {first second : Account} {a : Answer}
    {st : HalvesState} (run : BothRun P D deeper ceiling q cause first second (a, st)) :
    a.totalHits ≠ none ∧
      (∀ p ∈ st.again, ∃ half cause, deeper { q with regions := some half } cause p) ∧
      ∀ p ∈ st.parts, p = first ∨ p = second ∨ p ∈ st.again := by
  generalize outcome : (a, st) = r at run
  cases run with
  | first settle =>
      subst outcome
      obtain ⟨⟨more, again, deep⟩, parts⟩ := settle.asked
      simp only [Sum.elim_inl, List.nil_append] at again parts
      refine ⟨settle.stated, fun p mem => ?_, fun p mem => ?_⟩
      · rw [again] at mem
        exact ⟨_, deep p mem⟩
      · obtain known | rfl | again := parts p mem
        · cases known
        · exact .inl rfl
        · exact .inr (.inr again)
  | @second _ st₁ settle settle' =>
      subst outcome
      obtain ⟨⟨more, again, deep⟩, parts⟩ := settle.asked
      obtain ⟨⟨more', again', deep'⟩, parts'⟩ := settle'.asked
      simp only [Sum.elim_inr, Sum.elim_inl, id_eq, List.nil_append] at again parts again' parts'
      refine ⟨settle'.stated, fun p mem => ?_, fun p mem => ?_⟩
      · rw [again', again] at mem
        obtain mem | mem := List.mem_append.mp mem
        · exact ⟨_, deep p mem⟩
        · exact ⟨_, deep' p mem⟩
      · obtain known | rfl | again := parts' p mem
        · obtain known | rfl | again := parts p known
          · cases known
          · exact .inl rfl
          · exact .inr (.inr (by rw [again']; exact List.mem_append_left _ again))
        · exact .inr (.inl rfl)
        · exact .inr (.inr again)
  | @whole st₁ st₂ settle settle' =>
      obtain ⟨rfl, rfl⟩ := Prod.mk.inj outcome
      obtain ⟨⟨more, again, deep⟩, parts⟩ := settle.asked
      obtain ⟨⟨more', again', deep'⟩, parts'⟩ := settle'.asked
      simp only [Sum.elim_inr, id_eq, List.nil_append] at again parts again' parts'
      refine ⟨halvesAnswer_stated _ _ _, fun p mem => ?_, fun p mem => ?_⟩
      · rw [again', again] at mem
        obtain mem | mem := List.mem_append.mp mem
        · exact ⟨_, deep p mem⟩
        · exact ⟨_, deep' p mem⟩
      · obtain known | rfl | again := parts' p mem
        · obtain known | rfl | again := parts p known
          · cases known
          · exact .inl rfl
          · exact .inr (.inr (by rw [again']; exact List.mem_append_left _ again))
        · exact .inr (.inl rfl)
        · exact .inr (.inr again)

/-- The three ways two settled halves come out. -/
inductive BothExit (ceiling : Nat) (cause : String) : Answer → HalvesState → Prop where
  | stalled {st : HalvesState} {region cause' : String}
      (kept : ∀ p ∈ st.parts, ∃ e, p.answer = .enumerated e) :
      BothExit ceiling cause (.incomplete
        { incomplete (some st.total) st.merged.length st.merged
          (oneRegionStallReason region cause') with
          regionSplit := some { cause := cause, parts := st.sizes } }) st
  | ended {st : HalvesState} {kept : List Account} {p : Account} {half : List String}
      (parts : st.parts = kept ++ [p]) (others : kept.length ≤ 1)
      (enumerated : ∀ k ∈ kept, ∃ e, k.answer = .enumerated e)
      (unfinished : ∀ e, p.answer ≠ .enumerated e) :
      BothExit ceiling cause (.incomplete (partIncomplete cause half p.answer st)) st
  | whole {st : HalvesState} {p p' : Account} (parts : st.parts = [p, p'])
      (first : ∃ e, p.answer = .enumerated e) (second : ∃ e, p'.answer = .enumerated e) :
      BothExit ceiling cause (halvesAnswer ceiling cause st) st

/-- A half either ends the split or is kept. -/
theorem SettleRun.exit (ceiling : Nat) {cause : String} {half : List String}
    {acct : Account} {st : HalvesState} {r : (Answer × HalvesState) ⊕ HalvesState}
    (run : SettleRun P D deeper q cause half acct st r) (others : st.parts.length ≤ 1)
    (enumerated : ∀ p ∈ st.parts, ∃ e, p.answer = .enumerated e) :
    (∃ a st', r = .inl (a, st') ∧ BothExit ceiling cause a st') ∨
      ∃ st' p, r = .inr st' ∧ st'.parts = st.parts ++ [p] ∧ ∃ e, p.answer = .enumerated e := by
  cases run with
  | oneRegion timedOut one => exact .inl ⟨_, _, rfl, .stalled enumerated⟩
  | again timedOut several onTime asked fold =>
      cases fold with
      | kept answer => exact .inr ⟨_, _, rfl, rfl, _, answer⟩
      | ended unfinished => exact .inl ⟨_, _, rfl, .ended rfl others enumerated unfinished⟩
  | stands final fold =>
      cases fold with
      | kept answer => exact .inr ⟨_, _, rfl, rfl, _, answer⟩
      | ended unfinished => exact .inl ⟨_, _, rfl, .ended rfl others enumerated unfinished⟩

theorem BothRun.exit {ceiling : Nat} {cause : String} {first second : Account} {a : Answer}
    {st : HalvesState} (run : BothRun P D deeper ceiling q cause first second (a, st)) :
    BothExit ceiling cause a st := by
  generalize outcome : (a, st) = r at run
  cases run with
  | first settle =>
      subst outcome
      obtain ⟨a', st', same, exit⟩ | ⟨st', p, same, -⟩ :=
        settle.exit ceiling (by simp) (by simp)
      · cases same
        exact exit
      · cases same
  | @second _ st₁ settle settle' =>
      subst outcome
      obtain ⟨a', st', same, exit⟩ | ⟨st', p, same, parts, answer⟩ :=
        settle.exit ceiling (by simp) (by simp)
      · cases same
      · cases same
        obtain ⟨a', st', same, exit⟩ | ⟨st', p, same, -⟩ :=
          settle'.exit ceiling (by simp [parts]) (by simpa [parts] using answer)
        · cases same
          exact exit
        · cases same
  | @whole st₁ st₂ settle settle' =>
      obtain ⟨rfl, rfl⟩ := Prod.mk.inj outcome
      obtain ⟨a', st', same, exit⟩ | ⟨st', p, same, parts, answer⟩ :=
        settle.exit ceiling (by simp) (by simp)
      · cases same
      · cases same
        obtain ⟨a', st', same, exit⟩ | ⟨st', p', same, parts', answer'⟩ :=
          settle'.exit ceiling (by simp [parts]) (by simpa [parts] using answer)
        · cases same
        · cases same
          exact .whole (by simp [parts', parts]) answer answer'

/-- The parts of a split were asked as halves, as they stand or halved in turn, and the
split always states a total. -/
theorem HalvesStep.asked {ceiling : Nat} {calls : List Event} {cause : String}
    {acct : Account} (run : HalvesStep P D part deeper ceiling q calls cause acct) :
    ∃ asked again parts a, acct = .halves q calls asked again parts a ∧
      a.totalHits ≠ none ∧
      (∀ p ∈ asked, ∃ half, part { q with regions := some half } false p) ∧
      (∀ p ∈ again, ∃ half cause, deeper { q with regions := some half } cause p) ∧
      ∀ p ∈ parts, p ∈ asked ∨ p ∈ again := by
  have both : ∀ first second : Account,
      part { q with regions := some (halfOf (q.regions.getD [])) } false first →
      part { q with regions := some (otherHalf (q.regions.getD [])) } false second →
      ∀ p ∈ [first, second], ∃ half, part { q with regions := some half } false p := by
    intro first second left right p mem
    simp only [List.mem_cons, List.not_mem_nil, or_false] at mem
    rcases mem with rfl | rfl
    · exact ⟨_, left⟩
    · exact ⟨_, right⟩
  cases run with
  | stalled several left right timedOut =>
      exact ⟨_, _, _, _, rfl, Option.some_ne_none _, both _ _ left right, by simp, by simp⟩
  | heard several left right timedOut run =>
      obtain ⟨stated, again, parts⟩ := run.asked
      refine ⟨_, _, _, _, rfl, stated, both _ _ left right, again, fun p mem => ?_⟩
      obtain rfl | rfl | mem := parts p mem
      · exact .inl (by simp)
      · exact .inl (by simp)
      · exact .inr mem

/-- An account is of the question it was asked. -/
theorem QuestionRun.question {split : Bool} {acct : Account}
    (run : QuestionRun P D part q split acct) : acct.question = q := by
  cases run with
  | wide element wide run =>
      obtain ⟨parts, a, rfl, -⟩ := run.asked
      rfl
  | refusedList element narrow leaf run =>
      obtain ⟨parts, a, rfl, -⟩ := run.asked
      rfl
  | timedOut element narrow leaf run =>
      refine HalvesRun.of_step (motive := fun q _ _ acct => acct.question = q)
        (fun q calls cause acct step => ?_) run
      obtain ⟨asked, again, parts, a, rfl, -⟩ := step.asked
      rfl
  | _ => rfl

end Parts

section Rule

variable {P : Provider} {D : Deps}

/-- A rule that each question and each split keeps, whatever its pieces, and that does
not depend on the stamp, holds at every node of every run. -/
theorem enumerate_nodes {motive : Account → Prop}
    (question : ∀ part q split acct, QuestionRun P D part q split acct → motive acct)
    (halves : ∀ part deeper ceiling q calls cause acct,
      HalvesStep P D part deeper ceiling q calls cause acct → motive acct)
    (stamp : ∀ acct, motive acct → motive acct.stamped)
    (q : Params) (split : Bool) (history : List Event) :
    ∀ node ∈ (enumerate P D q split history).1.nodes, motive node := by
  have runs := enumerate_runs P D (motive := fun _ _ acct => ∀ node ∈ acct.nodes, motive node)
    (fun q split acct run => ?_) q split
  · obtain ⟨calls, -, -, all⟩ := runs history
    exact all
  · have self := question _ _ _ _ run
    suffices unstamped : ∀ node ∈ acct.nodes, motive node by
      intro node mem
      obtain rfl | mem := Account.mem_nodes_setAnswer mem
      · exact stamp acct self
      · exact unstamped node mem
    have windows : ∀ {calls ceiling chunks windows},
        WindowsRun D (fun _ _ acct => ∀ node ∈ acct.nodes, motive node) q calls ceiling chunks
          windows {} acct → ∀ node ∈ acct.nodes, motive node := by
      intro calls ceiling chunks windows run
      obtain ⟨parts, a, rfl, each⟩ := run.asked
      intro node mem
      obtain rfl | mem := List.mem_cons.mp mem
      · exact self
      · obtain ⟨p, partMem, mem⟩ := Account.mem_nodesOf.mp mem
        obtain known | ⟨names, all⟩ := each p partMem
        · cases known
        · exact all node mem
    cases run with
    | wide element wide run => exact windows run
    | refusedList element narrow leaf run => exact windows run
    | timedOut element narrow leaf run =>
        refine HalvesRun.of_step (motive := fun _ _ _ acct => ∀ node ∈ acct.nodes, motive node)
          (fun q calls cause acct step => ?_) run
        have here := halves _ _ _ _ _ _ _ step
        obtain ⟨asked, again, parts, a, rfl, -, left, right, from_⟩ := step.asked
        intro node mem
        have inAsked : ∀ p ∈ asked, ∀ node ∈ p.nodes, motive node := by
          intro p mem
          obtain ⟨half, all⟩ := left p mem
          exact all
        have inAgain : ∀ p ∈ again, ∀ node ∈ p.nodes, motive node := by
          intro p mem
          obtain ⟨half, cause, all⟩ := right p mem
          exact all
        simp only [Account.nodes, List.mem_cons, List.mem_append, Account.mem_nodesOf] at mem
        rcases mem with rfl | (⟨p, partMem, mem⟩ | ⟨p, partMem, mem⟩) | ⟨p, partMem, mem⟩
        · exact here
        · exact inAsked p partMem node mem
        · exact inAgain p partMem node mem
        · obtain mem' | mem' := from_ p partMem
          · exact inAsked p mem' node mem
          · exact inAgain p mem' node mem
    | classes element narrow leaf counts oneName several probed run =>
        intro node mem
        obtain rfl | mem := List.mem_cons.mp mem
        · exact self
        · obtain ⟨p, legMem, mem⟩ := Account.mem_nodesOf.mp mem
          obtain known | ⟨c, all⟩ := run.asked legMem
          · cases known
          · exact all node mem
    | _ =>
        intro node mem
        obtain rfl := List.mem_singleton.mp mem
        exact self

end Rule

end Clearotron
