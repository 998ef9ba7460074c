import Clearotron.Executor.Execute

/-!
# What a call's turns can do

`Turn` says everything one entry's turn can do to the state, whatever the clock, the net
and the provider do. From it: which entries were answered, which were not, and that the
band file keeps every block no answer replaced.
-/

namespace Clearotron

open Session

variable {X : Connector} {C : Call}

/-- How a dispatch came about. -/
def Dispatched (X : Connector) (C : Call) (e : Entry) (d : Dispatch) : Prop :=
  ∃ history, (dispatchEntry X (C.timedOutBefore e) e history).1 = d

/-- One entry's turn. -/
inductive Turn (X : Connector) (C : Call) (e : Entry) (before : CallState) :
    CallState → Prop where
  | held {st : CallState} {b : Block} (settled : st = before ∨ st = before.keepAnswers)
      (released : C.runs before e = true) (qid : b.qid = some e.qid) :
      Turn X C e before (st.answer e { block := b, held := true })
  | late {st : CallState} (settled : st = before ∨ st = before.keepAnswers)
      (released : C.runs before e = true) : Turn X C e before (st.reachNot e)
  | netted {st : CallState} (settled : st = before ∨ st = before.keepAnswers)
      (released : C.runs before e = true) : Turn X C e before (st.refuse e)
  | asked {st : CallState} {d : Dispatch} (settled : st = before ∨ st = before.keepAnswers)
      (released : C.runs before e = true) (dispatched : Dispatched X C e d) :
      Turn X C e before (st.answer e d)
  | skipped (held : C.runs before e = false) :
      Turn X C e before (before.skip e (before.parentState e))

/-- The turns of a list of entries. -/
inductive Turns (X : Connector) (C : Call) : List Entry → CallState → CallState → Prop where
  | nil {st : CallState} : Turns X C [] st st
  | cons {e : Entry} {rest : List Entry} {st st' st'' : CallState}
      (turn : Turn X C e st st') (later : Turns X C rest st' st'') :
      Turns X C (e :: rest) st st''

theorem settle_eq (history : List Event) (st : CallState) :
    CallState.settle C history st = st ∨ CallState.settle C history st = st.keepAnswers := by
  unfold CallState.settle
  split
  · exact .inr rfl
  · exact .inl rfl

theorem takeTurn_turn (e : Entry) (before : CallState) :
    Ensures (takeTurn X C e before)
      (fun r => ∀ st, r = .ok st → Turn X C e before st) := by
  unfold takeTurn
  cases released : C.runs before e with
  | false =>
      refine Ensures.pure ?_
      rintro st ⟨⟩
      exact .skipped released
  | true =>
      simp only [if_true]
      unfold runEntry
      have settles : Ensures (Session.observe fun history => CallState.settle C history before)
          fun st => st = before ∨ st = before.keepAnswers :=
        Ensures.observe fun history => settle_eq history before
      refine settles.bind fun st settled => ?_
      refine Ensures.bind_any fun held => ?_
      cases held with
      | some b =>
          simp only
          cases X.describeEntry e with
          | error fault => exact Ensures.pure (by rintro st ⟨⟩)
          | ok query =>
              refine Ensures.pure ?_
              rintro st' ⟨⟩
              exact .held settled released rfl
      | none =>
          refine Ensures.bind_any fun late => ?_
          cases late with
          | true =>
              refine Ensures.pure ?_
              rintro st' ⟨⟩
              exact .late settled released
          | false =>
              refine Ensures.bind_any fun net => ?_
              cases net with
              | true =>
                  refine Ensures.pure ?_
                  rintro st' ⟨⟩
                  exact .netted settled released
              | false =>
                  have dispatched : Ensures (dispatchEntry X (C.timedOutBefore e) e)
                      (Dispatched X C e) := fun history => ⟨history, rfl⟩
                  refine dispatched.bind fun d dispatched => Ensures.pure ?_
                  rintro st' ⟨⟩
                  exact .asked settled released dispatched

theorem takeTurns_turns (es : List Entry) (before : CallState) :
    Ensures (takeTurns X C es before)
      (fun r => ∀ st, r = .ok st → Turns X C es before st) := by
  induction es generalizing before with
  | nil =>
      refine Ensures.pure ?_
      rintro st ⟨⟩
      exact .nil
  | cons e rest ih =>
      unfold takeTurns
      refine (takeTurn_turn e before).bind fun r turn => ?_
      cases r with
      | error ended => exact Ensures.pure (by rintro st ⟨⟩)
      | ok st =>
          exact (ih st).mono fun r later st' final => .cons (turn st rfl) (later st' final)

/-- A call that writes its band took its turns, guarded entries last, and merged. -/
theorem executePlan_writes (history : List Event) :
    (executePlan X C history).1.Writes fun st band =>
      ∃ last, Turns X C (C.unguarded ++ C.guarded)
          { stateByQid := C.seeded, band := C.prior } last ∧
        (st = last ∨ st = last.keepAnswers) ∧
        band = CallState.mergeOver st.blocks (C.owned st) st.band := by
  have ends : Ensures (executePlan X C) (CallEnd.Writes fun st band =>
      ∃ last, Turns X C (C.unguarded ++ C.guarded)
          { stateByQid := C.seeded, band := C.prior } last ∧
        (st = last ∨ st = last.keepAnswers) ∧
        band = CallState.mergeOver st.blocks (C.owned st) st.band) := by
    unfold executePlan
    split
    · exact Ensures.pure trivial
    · split
      · exact Ensures.pure trivial
      · refine (takeTurns_turns _ _).bind fun r turns => ?_
        cases r with
        | error ended => exact Ensures.pure trivial
        | ok last =>
            have settles : Ensures (Session.observe fun history => CallState.settle C history last)
                fun st => st = last ∨ st = last.keepAnswers :=
              Ensures.observe fun history => settle_eq history last
            refine settles.bind fun st settled => ?_
            exact Ensures.pure ⟨last, turns last rfl, settled, rfl⟩
  exact ends history

/-- What follows of every state and band a call may write. -/
theorem CallEnd.Writes.mono {r : CallEnd} {post post' : CallState → List Block → Prop}
    (writes : r.Writes post) (imp : ∀ st band, post st band → post' st band) :
    r.Writes post' := by
  cases r with
  | written st band => exact imp st band writes
  | _ => trivial

end Clearotron
