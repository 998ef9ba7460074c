import Clearotron.Executor.Turns

/-!
# No answer is lost that was not replaced

A call owns the questions it targeted, less those it did not send. What it does not own
stays in the band as it was; what it answered stands there once, fresh. A child it
skipped is owned too, and its block goes: rightly where its parent is known not to have
enumerated or its family is not released, and wrongly where nothing is known of the
parent at all.
-/

namespace Clearotron

open Session

variable {X : Connector} {C : Call}

theorem refusal_qid {e : Entry} {query : String} {b : Block}
    (refused : refusal X e query = some b) : b.qid = some e.qid := by
  unfold refusal at refused
  split at refused
  · cases refused
    rfl
  · split at refused
    · cases refused
      rfl
    · split at refused
      · cases refused
        rfl
      · cases refused

theorem answeredBlock_qid (e : Entry) (query : String) (a : Answer)
    (note : Option OwnerResolution) : (answeredBlock X e query a note).qid = some e.qid := by
  have written : (writtenBlock e query a note).qid = some e.qid := by cases a <;> rfl
  unfold answeredBlock
  split
  · exact written
  · exact written

theorem dispatchEntry_qid {timedOut : Option Block} {e : Entry}
    (own : ∀ b, timedOut = some b → b.qid = some e.qid) :
    Ensures (dispatchEntry X timedOut e) (fun d => d.block.qid = some e.qid) := by
  unfold dispatchEntry
  split
  · exact Ensures.pure rfl
  · split
    · exact Ensures.pure (own _ rfl)
    · next refused => exact Ensures.pure (refusal_qid refused)
    · split
      · exact Ensures.pure rfl
      · split
        · exact Ensures.pure rfl
        · split
          · unfold dispatchCount
            exact Ensures.bind_any fun r => Ensures.bind_any fun note => Ensures.pure rfl
          · unfold dispatchEnumerate
            refine Ensures.bind_any fun last => ?_
            split
            · exact Ensures.pure rfl
            · exact Ensures.bind_any fun note => Ensures.pure (answeredBlock_qid _ _ _ _)

theorem Call.timedOutBefore_qid {e : Entry} {b : Block}
    (latest : C.timedOutBefore e = some b) : b.qid = some e.qid := by
  unfold Call.timedOutBefore at latest
  split at latest
  · cases latest
  · have found := (Option.filter_eq_some_iff.mp latest).1
    simpa using List.find?_some found

theorem Dispatched.qid {e : Entry} {d : Dispatch} (dispatched : Dispatched X C e d) :
    d.block.qid = some e.qid := by
  obtain ⟨history, rfl⟩ := dispatched
  exact dispatchEntry_qid (fun b latest => Call.timedOutBefore_qid latest) history

/-- After the turns of some entries: each of them was answered, refused, not reached or
skipped, and the band file is the one before except for the questions answered. -/
structure Kept (C : Call) (es : List Entry) (st : CallState) : Prop where
  blocks : st.blocks = st.answered.map fun ed => ed.2.block
  qids : ∀ ed ∈ st.answered, ed.2.block.qid = some ed.1.qid
  entries : ∀ ed ∈ st.answered, ed.1 ∈ es
  skips : ∀ s ∈ st.skipped, s.entry ∈ es
  each : (es.map Entry.qid).Perm (st.answered.map (fun ed => ed.1.qid) ++
    (st.refused ++ (st.notReached ++ st.skipped.map fun s => s.entry.qid)))
  band : ∀ p : Block → Bool,
    (∀ b, p b = true → ∀ ed ∈ st.answered, b.qid ≠ some ed.1.qid) →
      (st.band.getD []).filter p = (C.prior.getD []).filter p

theorem Kept.start : Kept C [] { stateByQid := C.seeded, band := C.prior } :=
  ⟨rfl, by simp, by simp, by simp, List.Perm.refl _, fun _ _ => rfl⟩

/-- Writing the band early keeps what the answers do not replace. -/
theorem Kept.keepAnswers {es : List Entry} {st : CallState} (kept : Kept C es st) :
    Kept C es st.keepAnswers := by
  unfold CallState.keepAnswers
  split
  · exact kept
  · refine ⟨kept.blocks, kept.qids, kept.entries, kept.skips, kept.each, fun p away => ?_⟩
    rw [← kept.band p away]
    refine filter_overlay_of_untouched (fun b mem => ?_) (fun b holds q mem same => ?_)
    · rw [kept.blocks] at mem
      obtain ⟨ed, edMem, rfl⟩ := List.mem_map.mp mem
      by_contra holds
      exact away _ (by simpa using holds) ed edMem (kept.qids ed edMem)
    · obtain ⟨mem, -⟩ := List.mem_filter.mp mem
      obtain ⟨b', mem, own⟩ := List.mem_filterMap.mp mem
      rw [kept.blocks] at mem
      obtain ⟨ed, edMem, rfl⟩ := List.mem_map.mp mem
      exact away b holds ed edMem (same.trans (own.symm.trans (kept.qids ed edMem)))

theorem Kept.settled {es : List Entry} {before st : CallState} (kept : Kept C es before)
    (settled : st = before ∨ st = before.keepAnswers) : Kept C es st := by
  rcases settled with rfl | rfl
  · exact kept
  · exact kept.keepAnswers

/-- One more turn. -/
theorem Kept.turn {es : List Entry} {e : Entry} {before st : CallState}
    (kept : Kept C es before) (turn : Turn X C e before st) : Kept C (es ++ [e]) st := by
  have answer : ∀ {st : CallState} {d : Dispatch}, Kept C es st → d.block.qid = some e.qid →
      Kept C (es ++ [e]) (st.answer e d) := by
    intro st d kept own
    refine ⟨?_, fun ed mem => ?_, fun ed mem => ?_, fun s mem => ?_, ?_, fun p away => ?_⟩
    · simp [CallState.answer, kept.blocks]
    · obtain known | rfl := (List.mem_append.mp mem).imp_right List.mem_singleton.mp
      · exact kept.qids ed known
      · exact own
    · obtain known | rfl := (List.mem_append.mp mem).imp_right List.mem_singleton.mp
      · exact List.mem_append_left _ (kept.entries ed known)
      · simp
    · exact List.mem_append_left _ (kept.skips s mem)
    · simp only [List.map_append, CallState.answer, List.append_assoc, List.map_cons,
        List.map_nil]
      refine List.Perm.trans (kept.each.append_right [e.qid]) ?_
      have comm : ((st.refused ++ (st.notReached ++ st.skipped.map fun s => s.entry.qid)) ++
          [e.qid]).Perm ([e.qid] ++
            (st.refused ++ (st.notReached ++ st.skipped.map fun s => s.entry.qid))) :=
        List.perm_append_comm
      simp only [List.append_assoc] at comm ⊢
      exact List.Perm.append_left _ comm
    · exact kept.band p fun b holds ed mem => away b holds ed (List.mem_append_left _ mem)
  have unanswered : ∀ {st st' : CallState}, Kept C es st → st'.blocks = st.blocks →
      st'.answered = st.answered → st'.band = st.band →
      (∀ s ∈ st'.skipped, s.entry ∈ es ++ [e]) →
      ((es ++ [e]).map Entry.qid).Perm (st'.answered.map (fun ed => ed.1.qid) ++
        (st'.refused ++ (st'.notReached ++ st'.skipped.map fun s => s.entry.qid))) →
      Kept C (es ++ [e]) st' := by
    intro st st' kept blocks answered band skips each
    refine ⟨?_, ?_, ?_, skips, each, ?_⟩
    · rw [blocks, answered, kept.blocks]
    · rw [answered]
      exact kept.qids
    · rw [answered]
      exact fun ed mem => List.mem_append_left _ (kept.entries ed mem)
    · rw [answered, band]
      exact kept.band
  have known : ∀ {st : CallState}, Kept C es st → ∀ s ∈ st.skipped, s.entry ∈ es ++ [e] :=
    fun kept s mem => List.mem_append_left _ (kept.skips s mem)
  cases turn with
  | held settled released own => exact answer (kept.settled settled) own
  | asked settled released dispatched => exact answer (kept.settled settled) dispatched.qid
  | @late st settled released =>
      have kept := kept.settled settled
      refine unanswered kept rfl rfl rfl (fun s mem => known kept s mem) ?_
      simp only [List.map_append, CallState.reachNot, List.map_cons, List.map_nil]
      refine List.Perm.trans (kept.each.append_right [e.qid]) ?_
      simp only [List.append_assoc]
      exact List.Perm.append_left _ (List.Perm.append_left _
        (List.Perm.append_left _ List.perm_append_comm))
  | @netted st settled released =>
      have kept := kept.settled settled
      refine unanswered kept rfl rfl rfl (fun s mem => known kept s mem) ?_
      simp only [List.map_append, CallState.refuse, List.map_cons, List.map_nil]
      refine List.Perm.trans (kept.each.append_right [e.qid]) ?_
      simp only [List.append_assoc]
      refine List.Perm.append_left _ (List.Perm.append_left _ ?_)
      rw [← List.append_assoc]
      exact List.perm_append_comm
  | skipped held =>
      refine unanswered kept rfl rfl rfl (fun s mem => ?_) ?_
      · obtain known | rfl := (List.mem_append.mp mem).imp_right List.mem_singleton.mp
        · exact List.mem_append_left _ (kept.skips s known)
        · simp
      · simp only [List.map_append, CallState.skip, List.map_cons, List.map_nil]
        refine List.Perm.trans (kept.each.append_right [e.qid]) ?_
        simp only [List.append_assoc]
        exact List.Perm.refl _

theorem Kept.turns {done es : List Entry} {before st : CallState} (kept : Kept C done before)
    (turns : Turns X C es before st) : Kept C (done ++ es) st := by
  induction turns generalizing done with
  | nil => simpa using kept
  | cons turn later ih => simpa using ih (kept.turn turn)

/-- A skipped entry whose wait is settled: its family is not released, its parent is known
not to have enumerated, or its parent was skipped for such a reason. -/
inductive Settled (skipped : List Skip) : Skip → Prop where
  | unreleased {s : Skip} (awaits : s.entry.awaits = true) : Settled skipped s
  | crowded {s : Skip} {state : String} (known : s.parentState = some state) :
      Settled skipped s
  | behind {s parent : Skip} (mem : parent ∈ skipped)
      (guard : s.entry.guard.bind Guard.guardParentQid = some parent.entry.qid)
      (settled : Settled skipped parent) : Settled skipped s

/-- No answer lost that was not replaced. -/
structure KeepsAnswers (C : Call) (st : CallState) (band : List Block) : Prop where
  /-- blocks without a qid, or of a question outside the call, stay as they were -/
  untouched : band.filter (fun b => !b.qid.any (· ∈ C.targeted.map Entry.qid)) =
    (C.prior.getD []).filter fun b => !b.qid.any (· ∈ C.targeted.map Entry.qid)
  /-- a question answered has its fresh block and no other -/
  fresh : ∀ ed ∈ st.answered,
    band.filter (fun b => decide (b.qid = some ed.1.qid)) = [ed.2.block]
  /-- a question not asked keeps its blocks, unless its wait is settled -/
  unasked : ∀ e ∈ C.targeted, (∀ ed ∈ st.answered, ed.1 ≠ e) →
    band.filter (fun b => decide (b.qid = some e.qid)) =
        (C.prior.getD []).filter (fun b => decide (b.qid = some e.qid)) ∨
      ∃ s ∈ st.skipped, s.entry = e ∧ Settled st.skipped s

/-- The entries of a call, in the order of their turns. -/
theorem Call.turns_perm (C : Call) : (C.unguarded ++ C.guarded).Perm C.targeted := by
  have plain : C.unguarded.Perm (C.targeted.filter fun e => e.guard.isNone) := by
    have split := List.filter_append_perm (fun e => !e.exactSubstituted)
      (C.targeted.filter fun e => e.guard.isNone)
    simp only [List.filter_filter, Bool.not_not] at split
    simpa only [Call.unguarded, Bool.and_comm] using split
  have whole := List.filter_append_perm (fun e : Entry => e.guard.isNone) C.targeted
  have guards : (C.targeted.filter fun e => !e.guard.isNone) = C.guarded :=
    List.filter_congr fun e _ => by cases e.guard <;> rfl
  rw [guards] at whole
  exact (plain.append_right _).trans whole

theorem Call.targeted_sublist (C : Call) : C.targeted.Sublist C.plan.entries := by
  unfold Call.targeted Call.entries
  split
  · exact List.filter_sublist.trans List.filter_sublist
  · exact List.filter_sublist

section Written

variable {st : CallState}

/-- The four ways a turn can end never name one question twice. -/
theorem Kept.ways_nodup (kept : Kept C (C.unguarded ++ C.guarded) st)
    (unique : (C.targeted.map Entry.qid).Nodup) :
    (st.answered.map (fun ed => ed.1.qid) ++
      (st.refused ++ (st.notReached ++ st.skipped.map fun s => s.entry.qid))).Nodup :=
  kept.each.nodup_iff.mp ((C.turns_perm.map Entry.qid).nodup_iff.mpr unique)

theorem Kept.targeted {e : Entry} (kept : Kept C (C.unguarded ++ C.guarded) st) :
    e.qid ∈ C.targeted.map Entry.qid ↔ e.qid ∈ st.answered.map (fun ed => ed.1.qid) ++
      (st.refused ++ (st.notReached ++ st.skipped.map fun s => s.entry.qid)) :=
  (C.turns_perm.map Entry.qid).mem_iff.symm.trans kept.each.mem_iff

/-- The band a call writes. -/
def Call.bandOf (C : Call) (st : CallState) : List Block :=
  CallState.mergeOver st.blocks (C.owned st) st.band

theorem Kept.untouched (kept : Kept C (C.unguarded ++ C.guarded) st) :
    (C.bandOf st).filter (fun b => !b.qid.any (· ∈ C.targeted.map Entry.qid)) =
      (C.prior.getD []).filter fun b => !b.qid.any (· ∈ C.targeted.map Entry.qid) := by
  have answered : ∀ ed ∈ st.answered, ed.1.qid ∈ C.targeted.map Entry.qid := fun ed mem =>
    kept.targeted.mpr (List.mem_append_left _
      (List.mem_map_of_mem (f := fun ed : Entry × Dispatch => ed.1.qid) mem))
  rw [Call.bandOf, CallState.mergeOver, filter_overlay_of_untouched]
  · refine kept.band _ fun b away ed mem same => ?_
    simp only [same, Option.any_some, Bool.not_eq_true', decide_eq_false_iff_not] at away
    exact away (answered ed mem)
  · intro b mem
    rw [kept.blocks] at mem
    obtain ⟨ed, edMem, rfl⟩ := List.mem_map.mp mem
    simp only [kept.qids ed edMem, Option.any_some, Bool.not_eq_false', decide_eq_true_eq]
    exact answered ed edMem
  · intro b away q mem same
    have target : q ∈ C.targeted.map Entry.qid := (List.mem_filter.mp mem).1
    simp only [same, Option.any_some, Bool.not_eq_true', decide_eq_false_iff_not] at away
    exact away target

/-- The fresh block of a question is the only one answered under its qid. -/
theorem Kept.answered_filter (kept : Kept C (C.unguarded ++ C.guarded) st)
    (unique : (C.targeted.map Entry.qid).Nodup) {ed : Entry × Dispatch}
    (mem : ed ∈ st.answered) :
    st.blocks.filter (fun b => decide (b.qid = some ed.1.qid)) = [ed.2.block] := by
  have nodup := (kept.ways_nodup unique).of_append_left
  obtain ⟨before, later, split⟩ := List.append_of_mem mem
  have others : ∀ ed' ∈ before ++ later, ed'.1.qid ≠ ed.1.qid := by
    intro ed' mem' same
    rw [split, List.map_append, List.map_cons] at nodup
    have away := (List.nodup_middle.mp nodup)
    rw [← List.map_append, List.nodup_cons] at away
    exact away.1 (same ▸ List.mem_map_of_mem (f := fun ed : Entry × Dispatch => ed.1.qid) mem')
  have silent : ∀ part : List (Entry × Dispatch), (∀ ed' ∈ part, ed' ∈ before ++ later) →
      (part.map fun ed => ed.2.block).filter
        (fun b => decide (b.qid = some ed.1.qid)) = [] := by
    intro part inside
    refine List.filter_eq_nil_iff.mpr fun b mem' => ?_
    obtain ⟨ed', edMem, rfl⟩ := List.mem_map.mp mem'
    have own := kept.qids ed' (by
      rw [split]
      obtain h | h := List.mem_append.mp (inside ed' edMem)
      · exact List.mem_append_left _ h
      · exact List.mem_append_right _ (List.mem_cons_of_mem _ h))
    simpa [own] using others ed' (inside ed' edMem)
  rw [kept.blocks, split, List.map_append, List.map_cons, List.filter_append,
    silent before (fun _ h => List.mem_append_left _ h), List.nil_append, List.filter_cons,
    silent later (fun _ h => List.mem_append_right _ h)]
  simp [kept.qids ed mem]

theorem Kept.fresh (kept : Kept C (C.unguarded ++ C.guarded) st)
    (unique : (C.targeted.map Entry.qid).Nodup) {ed : Entry × Dispatch}
    (mem : ed ∈ st.answered) :
    (C.bandOf st).filter (fun b => decide (b.qid = some ed.1.qid)) = [ed.2.block] := by
  have here : ed.1.qid ∈ st.answered.map fun ed => ed.1.qid :=
    List.mem_map_of_mem (f := fun ed : Entry × Dispatch => ed.1.qid) mem
  have away := List.disjoint_of_nodup_append (kept.ways_nodup unique) here
  have refused : ed.1.qid ∉ st.refused := fun h => away (List.mem_append_left _ h)
  have reached : ed.1.qid ∉ st.notReached := fun h =>
    away (List.mem_append_right _ (List.mem_append_left _ h))
  have owned : ed.1.qid ∈ C.owned st := by
    refine List.mem_filter.mpr ⟨kept.targeted.mpr (List.mem_append_left _ here), ?_⟩
    simp [refused, reached]
  rw [Call.bandOf, CallState.mergeOver, filter_overlay_of_owned owned,
    kept.answered_filter unique mem]

/-- A question that was not sent keeps its blocks; one that was skipped loses them. -/
theorem Kept.unasked (kept : Kept C (C.unguarded ++ C.guarded) st) {e : Entry}
    (unanswered : e.qid ∉ st.answered.map fun ed => ed.1.qid) :
    (C.bandOf st).filter (fun b => decide (b.qid = some e.qid)) =
      if e.qid ∈ C.owned st then []
      else (C.prior.getD []).filter fun b => decide (b.qid = some e.qid) := by
  have silent : st.blocks.filter (fun b => decide (b.qid = some e.qid)) = [] := by
    refine List.filter_eq_nil_iff.mpr fun b mem => ?_
    rw [kept.blocks] at mem
    obtain ⟨ed, edMem, rfl⟩ := List.mem_map.mp mem
    rw [kept.qids ed edMem, decide_eq_true_eq]
    rintro same
    exact unanswered (Option.some.inj same ▸
      List.mem_map_of_mem (f := fun ed : Entry × Dispatch => ed.1.qid) edMem)
  split
  · next owned => rw [Call.bandOf, CallState.mergeOver, filter_overlay_of_owned owned, silent]
  · next unowned =>
      rw [Call.bandOf, CallState.mergeOver, filter_overlay_of_untouched]
      · refine kept.band _ fun b own ed mem same => ?_
        rw [decide_eq_true_eq] at own
        exact unanswered (Option.some.inj (own.symm.trans same) ▸
          List.mem_map_of_mem (f := fun ed : Entry × Dispatch => ed.1.qid) mem)
      · intro b mem
        simpa using List.filter_eq_nil_iff.mp silent b mem
      · intro b own q mem same
        rw [decide_eq_true_eq] at own
        exact unowned (Option.some.inj (own.symm.trans same) ▸ mem)

/-- A call keeps every answer exactly where each skipped question that holds one has its
wait settled. -/
theorem Kept.keeps_iff (kept : Kept C (C.unguarded ++ C.guarded) st)
    (unique : (C.targeted.map Entry.qid).Nodup) :
    KeepsAnswers C st (C.bandOf st) ↔
      ∀ s ∈ st.skipped, (∃ b ∈ C.prior.getD [], b.qid = some s.entry.qid) →
        Settled st.skipped s := by
  have nodup := kept.ways_nodup unique
  have entry_eq : ∀ {e e' : Entry}, e ∈ C.targeted → e' ∈ C.targeted → e.qid = e'.qid → e = e' :=
    fun mem mem' same => List.inj_on_of_nodup_map unique mem mem' same
  have skip_mem : ∀ s ∈ st.skipped, s.entry ∈ C.targeted := fun s mem =>
    C.turns_perm.mem_iff.mp (kept.skips s mem)
  -- a skipped question was not answered, and is owned
  have skip_away : ∀ s ∈ st.skipped, s.entry.qid ∉ (st.answered.map fun ed => ed.1.qid) ∧
      s.entry.qid ∈ C.owned st := by
    intro s mem
    have here := List.mem_map_of_mem (f := fun s : Skip => s.entry.qid) mem
    have away := List.disjoint_of_nodup_append nodup
    have rest := nodup.of_append_right
    have away' := List.disjoint_of_nodup_append rest
    have away'' := List.disjoint_of_nodup_append rest.of_append_right
    refine ⟨fun answered => away answered (by simp [here]), List.mem_filter.mpr
      ⟨List.mem_map_of_mem (f := Entry.qid) (skip_mem s mem), ?_⟩⟩
    have refused : s.entry.qid ∉ st.refused := fun h => away' h (List.mem_append_right _ here)
    have reached : s.entry.qid ∉ st.notReached := fun h => away'' h here
    simp [refused, reached]
  constructor
  · rintro ⟨-, -, unasked⟩ s mem ⟨b, prior, own⟩
    obtain ⟨away, owned⟩ := skip_away s mem
    obtain same | ⟨s', mem', entry, settled⟩ := unasked s.entry (skip_mem s mem)
      fun ed edMem same => away (same ▸
        List.mem_map_of_mem (f := fun ed : Entry × Dispatch => ed.1.qid) edMem)
    · exfalso
      rw [kept.unasked away, if_pos owned] at same
      have held : b ∈ (C.prior.getD []).filter fun b => decide (b.qid = some s.entry.qid) :=
        List.mem_filter.mpr ⟨prior, by simp [own]⟩
      rw [← same] at held
      cases held
    · have distinct := (nodup.of_append_right.of_append_right).of_append_right
      have : s' = s := List.inj_on_of_nodup_map distinct mem' mem (by rw [entry])
      exact this ▸ settled
  · intro settled
    refine ⟨kept.untouched, fun ed mem => kept.fresh unique mem, fun e mem unanswered => ?_⟩
    have away : e.qid ∉ st.answered.map fun ed => ed.1.qid := by
      intro answered
      obtain ⟨ed, edMem, same⟩ := List.mem_map.mp answered
      exact unanswered ed edMem
        (entry_eq (C.turns_perm.mem_iff.mp (kept.entries ed edMem)) mem same)
    by_cases owned : e.qid ∈ C.owned st
    · -- owned and not answered, so it was skipped
      obtain ⟨target, sent⟩ := List.mem_filter.mp owned
      have ways := kept.targeted.mp target
      simp only [Bool.and_eq_true, decide_eq_true_eq, List.mem_append] at sent ways
      obtain ⟨s, sMem, same⟩ : ∃ s ∈ st.skipped, s.entry.qid = e.qid := by
        obtain answered | refused | reached | skipped := ways
        · exact absurd answered away
        · exact absurd refused sent.1
        · exact absurd reached sent.2
        · exact List.mem_map.mp skipped
      have entry := entry_eq (skip_mem s sMem) mem same
      by_cases held : ∃ b ∈ C.prior.getD [], b.qid = some e.qid
      · exact .inr ⟨s, sMem, entry, settled s sMem (by rw [entry]; exact held)⟩
      · left
        rw [kept.unasked away, if_pos owned]
        symm
        refine List.filter_eq_nil_iff.mpr fun b prior => ?_
        rw [decide_eq_true_eq]
        exact fun own => held ⟨b, prior, own⟩
    · left
      rw [kept.unasked away, if_neg owned]

end Written

/-- Whatever the clock, the net and the provider do, a call loses no answer it did not
replace exactly where every question it skips over an answer has its wait settled: its
family not released, or its parent, or the parent it was itself skipped behind, known not
to have enumerated. -/
theorem answers_kept_iff_settled (X : Connector) (C : Call)
    (unique : (C.plan.entries.map Entry.qid).Nodup) (history : List Event) :
    (executePlan X C history).1.Writes fun st band =>
      (KeepsAnswers C st band ↔
        ∀ s ∈ st.skipped, (∃ b ∈ C.prior.getD [], b.qid = some s.entry.qid) →
          Settled st.skipped s) := by
  refine (executePlan_writes history).mono ?_
  rintro st _ ⟨last, turns, settled, rfl⟩
  have kept : Kept C (C.unguarded ++ C.guarded) st := by
    simpa using (Kept.start.turns turns).settled settled
  exact kept.keeps_iff (unique.sublist (C.targeted_sublist.map Entry.qid))

/-- A register that holds nothing. -/
def emptyRegister : Provider where
  search _ _ _ _ := .ok (.answered { totalHits := some 0 })
  cheapSearch _ _ := .ok (.answered { totalHits := some 0 })
  count _ _ := .ok (.counted (some 0) none)
  screen _ _ _ := .ok (.answered {})

/-- A connector that adds nothing to its kernel. -/
def plainConnector (P : Provider) (D : Deps) : Connector where
  provider := P
  deps := D
  unicode := { letterOrNumber := Char.isAlphanum, searchable := fun _ => true }
  lower := id
  capabilities := none
  describeEntry e := .ok e.qid
  buildQuery e := .ok { names := some e.names }
  countSearch _ _ := .answered { totalHits := some 0 }
  refuses _ _ := none
  ownerResolution _ _ := none

def sweepEntry (qid : String) (guard : Option Guard) : Entry :=
  { qid := qid, axis := .primarySweep, predicate := .default, term := some "WAVO"
    expectedKind := .enumerate, niceClasses := ["9"], guard := guard }

def fringeEntry : Entry := sweepEntry "fringe" (some (.runsIfEnumerated (some "sweep")))

/-- A second call on an axis whose band is complete, past its time to stop sending. -/
def lateCall : Call where
  plan := { entries := [sweepEntry "sweep" none, fringeEntry] }
  axis := .primarySweep
  prior := some [{ qid := some "sweep", state := "enumerated" },
    { qid := some "fringe", state := "enumerated" }]
  late _ _ := true

/-- What a call skipped, what it answered, and the band it wrote. -/
def CallEnd.summary : CallEnd → Option (List Skip × List Entry × List Block)
  | .written st band => some (st.skipped, st.answered.map Prod.fst, band)
  | _ => none

theorem answers_kept_iff_settled_emptyRegister :
    (executePlan (plainConnector emptyRegister {}) lateCall []).1.Writes fun st band =>
      (KeepsAnswers lateCall st band ↔
        ∀ s ∈ st.skipped, (∃ b ∈ lateCall.prior.getD [], b.qid = some s.entry.qid) →
          Settled st.skipped s) :=
  answers_kept_iff_settled (plainConnector emptyRegister {}) lateCall (by decide) []

/-- The parent was not reached and kept its block; its child, of whose parent the call
knew nothing, was skipped and lost the block it had. -/
theorem late_call_drops_fringe :
    (lateCall.plan.entries.map Entry.qid).Nodup ∧
      ¬ (executePlan (plainConnector emptyRegister {}) lateCall []).1.Writes
        (KeepsAnswers lateCall) := by
  have run : (executePlan (plainConnector emptyRegister {}) lateCall []).1.summary =
      some ([⟨fringeEntry, none⟩], [], [{ qid := some "sweep", state := "enumerated" }]) := by
    decide +kernel
  refine ⟨by decide, fun keeps => ?_⟩
  cases ended : (executePlan (plainConnector emptyRegister {}) lateCall []).1 with
  | refused text =>
      rw [ended] at run
      cases run
  | crashed fault st =>
      rw [ended] at run
      cases run
  | written st band =>
      rw [ended] at run keeps
      simp only [CallEnd.summary, Option.some.injEq, Prod.mk.injEq, List.map_eq_nil_iff] at run
      obtain ⟨skipped, answered, rfl⟩ := run
      obtain lost | ⟨s, mem, -, settled⟩ :=
        keeps.unasked fringeEntry (by decide) (by simp [answered])
      · revert lost
        decide
      · rw [skipped] at mem settled
        obtain rfl := List.mem_singleton.mp mem
        cases settled with
        | unreleased awaits => cases awaits
        | crowded known => cases known
        | behind mem guard settled =>
            obtain rfl := List.mem_singleton.mp mem
            exact absurd guard (by decide)

end Clearotron
