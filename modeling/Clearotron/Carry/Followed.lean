import Clearotron.Carry.Doubts

/-!
# Following a trace record by record

The doubts follow a trace exactly where its records can be told apart: each has a URI, no two share
one, and no two doubts are about one record. A second pass over the same trace then changes
nothing.
-/

namespace Clearotron.Carry

section Apart

variable {R : LetterCase} {S : Stitch} {prior : CarryDoubt → Option CarryDoubt}
  {ds old : List CarryDoubt} {room next : Nat}

/-- What a record ends as is about that record. -/
theorem settle_records (same : ∀ d ∈ ds, ∀ p, prior d = some p → p.record R = d.record R) :
    List.Forall₂ (fun d o => ∀ m, Outcome.after S o = some m → m.record R = d.record R) ds
      (settle prior ds room next) := by
  induction ds generalizing room next with
  | nil => exact .nil
  | cons d ds ih =>
    have rest : ∀ e ∈ ds, ∀ p, prior e = some p → p.record R = e.record R :=
      fun e mem => same e (List.mem_cons_of_mem _ mem)
    cases has : prior d with
    | some p =>
      rw [settle_cons_some has]
      refine .cons (fun m is => ?_) (ih rest)
      obtain rfl := Option.some.inj is
      exact same d List.mem_cons_self p has
    | none =>
      cases room with
      | zero =>
        rw [settle_cons_zero has]
        exact .cons (fun m is => nomatch is) (ih rest)
      | succ room =>
        rw [settle_cons_succ has]
        refine .cons (fun m is => ?_) (ih rest)
        obtain rfl := Option.some.inj is
        rw [record_stitch, record_renamed]

theorem after_records_sublist {os : List Outcome} (about : List.Forall₂
    (fun d o => ∀ m, Outcome.after S o = some m → m.record R = d.record R) ds os) :
    ((os.filterMap (Outcome.after S)).map (CarryDoubt.record R)).Sublist
      (ds.map (CarryDoubt.record R)) := by
  induction about with
  | nil => exact .slnil
  | @cons d o ds os own rest ih =>
    cases is : Outcome.after S o with
    | none =>
      rw [List.filterMap_cons_none is]
      exact ih.cons _
    | some m =>
      rw [List.filterMap_cons_some is, List.map_cons, List.map_cons, own m is]
      exact ih.cons_cons _

/-- Where records stand apart, a doubt found by its record is the one the pass left it. -/
theorem filterMap_lookup {os : List Outcome} {f : CarryDoubt → Option CarryDoubt}
    (about : List.Forall₂
      (fun d o => ∀ m, Outcome.after S o = some m → m.record R = d.record R) ds os)
    (apart : (ds.map (CarryDoubt.record R)).Nodup)
    (finds : ∀ d ∈ ds, ∀ m, f d = some m ↔
      m ∈ os.filterMap (Outcome.after S) ∧ m.record R = d.record R) :
    ds.filterMap f = os.filterMap (Outcome.after S) := by
  induction about with
  | nil => rfl
  | @cons d o ds os own rest ih =>
    obtain ⟨alone, apart⟩ := List.nodup_cons.mp apart
    have later (m : CarryDoubt) (mem : m ∈ os.filterMap (Outcome.after S)) :
        m.record R ∈ ds.map (CarryDoubt.record R) :=
      (after_records_sublist rest).subset (List.mem_map_of_mem mem)
    cases is : Outcome.after S o with
    | none =>
      have lost : f d = none := by
        refine Option.eq_none_iff_forall_not_mem.mpr fun m has => ?_
        obtain ⟨mem, same⟩ := (finds d List.mem_cons_self m).mp has
        rw [List.filterMap_cons_none is] at mem
        exact alone (same ▸ later m mem)
      rw [List.filterMap_cons_none is, List.filterMap_cons_none lost]
      refine ih apart fun e mem m => ?_
      rw [finds e (List.mem_cons_of_mem _ mem), List.filterMap_cons_none is]
    | some m =>
      have found : f d = some m :=
        (finds d List.mem_cons_self m).mpr ⟨by simp [is], own m is⟩
      rw [List.filterMap_cons_some is, List.filterMap_cons_some found]
      congr 1
      refine ih apart fun e mem k => ?_
      rw [finds e (List.mem_cons_of_mem _ mem), List.filterMap_cons_some is, List.mem_cons]
      refine and_congr_left fun same => or_iff_right fun head => ?_
      subst head
      exact alone (own k is ▸ same ▸ List.mem_map_of_mem mem)

/-- A doubt that is kept after settling is a prior one, or numbered above all numbers so far. -/
theorem mem_after {k : CarryDoubt}
    (mem : k ∈ (settle prior ds room next).filterMap (Outcome.after S)) :
    (∃ e ∈ ds, prior e = some k) ∨ ∃ n, next < n ∧ k.id = familyId n := by
  obtain ⟨o, isOut, is⟩ := List.mem_filterMap.mp mem
  obtain ⟨e, isIn, p, has, rfl⟩ | ⟨e, isIn, n, -, above, rfl⟩ | rfl := mem_settle isOut
  · cases is
    exact .inl ⟨e, isIn, has⟩
  · cases is
    exact .inr ⟨n, above, S.id_kept _⟩
  · cases is

/-- Doubts kept and doubts newly numbered never share an id. -/
theorem after_ids_nodup
    (priorOld : ∀ d ∈ ds, ∀ p, prior d = some p → p ∈ old ∧ p.record R = d.record R)
    (distinct : (old.map CarryDoubt.id).Nodup)
    (small : ∀ p ∈ old, ∀ n, familyNumber p.id = some n → n ≤ next)
    (apart : (ds.map (CarryDoubt.record R)).Nodup) :
    (((settle prior ds room next).filterMap (Outcome.after S)).map CarryDoubt.id).Nodup := by
  induction ds generalizing room next with
  | nil => exact List.nodup_nil
  | cons d ds ih =>
    obtain ⟨alone, apart⟩ := List.nodup_cons.mp apart
    have rest : ∀ e ∈ ds, ∀ p, prior e = some p → p ∈ old ∧ p.record R = e.record R :=
      fun e mem => priorOld e (List.mem_cons_of_mem _ mem)
    cases has : prior d with
    | some p =>
      obtain ⟨isOld, same⟩ := priorOld d List.mem_cons_self p has
      rw [settle_cons_some has, filterMap_after_kept, List.map_cons]
      refine List.nodup_cons.mpr ⟨fun mem => ?_, ih rest small apart⟩
      obtain ⟨k, isIn, sameId⟩ := List.mem_map.mp mem
      obtain ⟨e, isE, hasK⟩ | ⟨n, above, isId⟩ := mem_after isIn
      · obtain ⟨kOld, kSame⟩ := rest e isE k hasK
        obtain rfl := List.inj_on_of_nodup_map distinct kOld isOld sameId
        exact alone (same ▸ kSame ▸ List.mem_map_of_mem isE)
      · have number : familyNumber p.id = some n := by
          rw [← sameId, isId]
          exact familyNumber_familyId n
        have := small p isOld n number
        omega
    | none =>
      cases room with
      | zero =>
        rw [settle_cons_zero has, filterMap_after_leftOut]
        exact ih rest small apart
      | succ room =>
        have small' : ∀ p ∈ old, ∀ n, familyNumber p.id = some n → n ≤ next + 1 :=
          fun p mem n is => (small p mem n is).trans (Nat.le_succ _)
        rw [settle_cons_succ has, filterMap_after_fresh, List.map_cons]
        refine List.nodup_cons.mpr ⟨fun mem => ?_, ih rest small' apart⟩
        obtain ⟨k, isIn, sameId⟩ := List.mem_map.mp mem
        rw [S.id_kept] at sameId
        obtain ⟨e, isE, hasK⟩ | ⟨n, above, isId⟩ := mem_after isIn
        · have number : familyNumber k.id = some (next + 1) := by
            rw [sameId]
            exact familyNumber_familyId _
          have := small k (rest e isE k hasK).1 _ number
          omega
        · rw [isId] at sameId
          have number := congrArg familyNumber sameId
          rw [CarryDoubt.id_renamed, familyNumber_familyId, familyNumber_familyId] at number
          have := Option.some.inj number
          omega

end Apart

section Follow

variable (R : LetterCase) (S : Stitch) (L : CarryLedger) (t : CarryTrace)

/-- The records the trace leaves without a ground. -/
def CarryTrace.missing : List String := t.unreasoned.map (CarryRow.record R)

/-- The records the trace lists. -/
def CarryTrace.listed : List String := (t.rows.map (CarryRow.record R)).filter (· ≠ "")

/-- The doubts after the trace was written again. -/
def doubtsAfter (max : Nat) (all : List CarryDoubt) : List CarryDoubt :=
  (recordCarryDoubtsAgain R S max all (some t)).doubts

/-- What a ledger is held to when a trace is written again, whatever the cap. -/
structure DoubtsFollow : Prop where
  /-- a record still without a ground, or not listed, keeps its doubt as it stands -/
  kept : ∀ max, ∀ d ∈ L.doubts.filter CarryDoubt.inFamily,
    d.record R ∈ t.missing R ∨ d.record R ∉ t.listed R → d ∈ doubtsAfter R S t max L.doubts
  /-- every other doubt is a new one of a record of the trace, under an id no doubt had -/
  own : ∀ max, ∀ d ∈ doubtsAfter R S t max L.doubts, d ∈ L.doubts ∨
    ∃ r ∈ t.unreasoned, ∃ n, d = S.stitch (r.doubt (familyId n)) ∧ ∀ e ∈ L.doubts, e.id ≠ d.id
  unique : ∀ max, (((doubtsAfter R S t max L.doubts).filter CarryDoubt.inFamily).map
    CarryDoubt.id).Nodup
  again : ∀ max, doubtsAfter R S t max (doubtsAfter R S t max L.doubts) =
    doubtsAfter R S t max L.doubts

/-- Every record without a ground has a URI, no two of them the same one, and no two doubts are
about one of them. -/
structure RecordsApart : Prop where
  named : ∀ r ∈ t.unreasoned, r.uri ≠ ""
  apart : (t.missing R).Nodup
  single : ((L.doubts.filter fun d => d.inFamily && decide (d.record R ∈ t.missing R)).map
    (CarryDoubt.record R)).Nodup

variable {R S L t} {max : Nat} {all : List CarryDoubt} {d m : CarryDoubt}

theorem doubtsAfter_eq (readable : t.computable = true) :
    doubtsAfter R S t max all = place all (members R S max all t) := by
  have trace : (some t).filter (·.computable) = some t := by simp [Option.filter, readable]
  unfold doubtsAfter recordCarryDoubtsAgain
  simp only [trace]

theorem mem_doubtsAfter (readable : t.computable = true) (family : d.inFamily = true) :
    d ∈ doubtsAfter R S t max all ↔ d ∈ members R S max all t := by
  have only : (place all (members R S max all t)).filter CarryDoubt.inFamily =
      members R S max all t := filter_place all fun _ => inFamily_of_mem_members
  rw [doubtsAfter_eq readable, ← only, List.mem_filter, only]
  exact (and_iff_left family).symm

theorem family_doubtsAfter (readable : t.computable = true) :
    (doubtsAfter R S t max all).filter CarryDoubt.inFamily = members R S max all t := by
  rw [doubtsAfter_eq readable]
  exact filter_place all fun _ => inFamily_of_mem_members

theorem records_minted_eq :
    (mintRecordCarryDoubts t none).map (CarryDoubt.record R) = t.missing R := records_minted

theorem carried_eq : (followPass R max all t).carried = (all.filter CarryDoubt.inFamily).filter
    fun d => d.record R ∉ t.missing R ∧ d.record R ∉ t.listed R := by
  rw [← records_minted_eq]
  rfl

theorem mem_carried : d ∈ (followPass R max all t).carried ↔
    d ∈ all.filter CarryDoubt.inFamily ∧ d.record R ∉ t.missing R ∧ d.record R ∉ t.listed R := by
  rw [carried_eq, List.mem_filter, decide_eq_true_eq]

theorem record_ne_empty {r : CarryRow} (named : r.uri ≠ "") : r.record R ≠ "" := by
  rw [CarryRow.record, if_neg named]
  exact R.lower_ne_empty _ named

/-- What the pass leaves to the records of the trace is about those records. -/
theorem outcome_records : List.Forall₂
    (fun d o => ∀ m, Outcome.after S o = some m → m.record R = d.record R)
    (mintRecordCarryDoubts t none) (outcomes R max all t) :=
  settle_records fun _ _ _ has => (priorOf_spec has).2.1

theorem record_of_after (mem : m ∈ (outcomes R max all t).filterMap (Outcome.after S)) :
    m.record R ∈ t.missing R := by
  rw [← records_minted_eq]
  exact (after_records_sublist outcome_records).subset (List.mem_map_of_mem mem)

/-- A record of the trace is one of its doubts'. -/
theorem exists_minted {k : String} (missing : k ∈ t.missing R) :
    ∃ d ∈ mintRecordCarryDoubts t none, d.record R = k := by
  rw [← records_minted_eq] at missing
  exact List.mem_map.mp missing

theorem minted_named (named : ∀ r ∈ t.unreasoned, r.uri ≠ "")
    (mem : d ∈ mintRecordCarryDoubts t none) : d.record R ≠ "" := by
  obtain ⟨r, isRow, same⟩ := @record_of_minted R _ _ mem
  rw [same]
  exact record_ne_empty (named r isRow)

theorem mem_members_of_kept (mem : .kept d ∈ outcomes R max all t) : d ∈ members R S max all t := by
  rw [members_eq, List.mem_append]
  exact .inl (List.mem_filterMap.mpr ⟨_, mem, rfl⟩)

theorem mem_members_of_fresh (mem : .fresh d ∈ outcomes R max all t) :
    S.stitch d ∈ members R S max all t := by
  rw [members_eq, List.mem_append]
  exact .inl (List.mem_filterMap.mpr ⟨_, mem, rfl⟩)

theorem kept_of_apart (apart : RecordsApart R L t)
    (family : d ∈ L.doubts.filter CarryDoubt.inFamily)
    (missing : d.record R ∈ t.missing R ∨ d.record R ∉ t.listed R) :
    d ∈ members R S max L.doubts t := by
  by_cases isMissing : d.record R ∈ t.missing R
  · obtain ⟨e, minted, same⟩ := exists_minted isMissing
    have hasPrior : priorOf R (L.doubts.filter CarryDoubt.inFamily) e = some d := by
      refine priorOf_of_unique family same.symm (minted_named apart.named minted) ?_
      intro p isOld sameRecord
      have inBoth (q : CarryDoubt) (isOld : q ∈ L.doubts.filter CarryDoubt.inFamily)
          (own : q.record R = d.record R) : q ∈ L.doubts.filter
            (fun d => d.inFamily && decide (d.record R ∈ t.missing R)) := by
        obtain ⟨isIn, inFamily⟩ := List.mem_filter.mp isOld
        exact List.mem_filter.mpr ⟨isIn, by simp [inFamily, own, isMissing]⟩
      have sameP : p.record R = d.record R := sameRecord.trans same
      exact List.inj_on_of_nodup_map apart.single (inBoth p isOld sameP) (inBoth d family rfl) sameP
    exact mem_members_of_kept (kept_mem_settle minted hasPrior)
  · rw [members_eq, List.mem_append]
    exact .inr (mem_carried.mpr ⟨family, isMissing, missing.resolve_left isMissing⟩)

theorem own_of_mem (mem : d ∈ members R S max all t) : d ∈ all ∨
    ∃ r ∈ t.unreasoned, ∃ n, d = S.stitch (r.doubt (familyId n)) ∧
      ∀ e ∈ all.filter CarryDoubt.inFamily, e.id ≠ d.id := by
  obtain ⟨isOld, -⟩ | ⟨f, isFresh, rfl⟩ := mem_members mem
  · exact .inl (List.mem_filter.mp isOld).1
  · obtain ⟨e, minted, n, -, -, rfl⟩ := fresh_number isFresh
    obtain ⟨⟨r, k⟩, isIn, rfl⟩ := List.mem_map.mp minted
    refine .inr ⟨r, (List.mem_zipIdx isIn).2.2 ▸ List.getElem_mem _, n,
      congrArg S.stitch (r.subject.renamed_renamed _ _), fun e isOld => ?_⟩
    rw [S.id_kept]
    exact (fresh_id_ne isFresh isOld).symm

theorem unique_of_apart (apart : (t.missing R).Nodup) :
    ((members R S max L.doubts t).map CarryDoubt.id).Nodup := by
  have priorOld (d : CarryDoubt) (_ : d ∈ mintRecordCarryDoubts t none) (p : CarryDoubt)
      (has : priorOf R (L.doubts.filter CarryDoubt.inFamily) d = some p) :
      p ∈ L.doubts.filter CarryDoubt.inFamily ∧ p.record R = d.record R :=
    ⟨(priorOf_spec has).1, (priorOf_spec has).2.1⟩
  rw [members_eq, List.map_append, List.nodup_append]
  refine ⟨?_, (carried_sublist.map _).nodup L.distinct, ?_⟩
  · apply after_ids_nodup priorOld L.distinct
    · exact fun p isOld n number => next_of_mem isOld number
    · rwa [records_minted_eq]
  · intro a inAfter b inCarried same
    subst same
    obtain ⟨m, isAfter, rfl⟩ := List.mem_map.mp inAfter
    obtain ⟨c, isCarried, same⟩ := List.mem_map.mp inCarried
    obtain ⟨isOld, notMissing, -⟩ := mem_carried.mp isCarried
    have missing := record_of_after isAfter
    obtain ⟨o, isOut, is⟩ := List.mem_filterMap.mp isAfter
    cases o with
    | kept p =>
      cases is
      obtain ⟨e, -, has⟩ := kept_prior isOut
      obtain rfl := List.inj_on_of_nodup_map L.distinct isOld (priorOf_spec has).1 same
      exact notMissing missing
    | fresh f =>
      cases is
      rw [S.id_kept] at same
      exact fresh_id_ne isOut isOld same.symm
    | leftOut => cases is

/-- A second pass over the same trace finds for each record what the first left it. -/
theorem lookup_of_apart (named : ∀ r ∈ t.unreasoned, r.uri ≠ "") (apart : (t.missing R).Nodup) :
    (mintRecordCarryDoubts t none).filterMap (priorOf R (members R S max all t)) =
      (outcomes R max all t).filterMap (Outcome.after S) := by
  have apart' : ((mintRecordCarryDoubts t none).map (CarryDoubt.record R)).Nodup := by
    rwa [records_minted_eq]
  have isAfter (k : CarryDoubt) (mem : k ∈ members R S max all t)
      (missing : k.record R ∈ t.missing R) :
      k ∈ (outcomes R max all t).filterMap (Outcome.after S) := by
    rw [members_eq, List.mem_append] at mem
    exact mem.resolve_right fun isCarried => (mem_carried.mp isCarried).2.1 missing
  have alone := (after_records_sublist (@outcome_records R S t max all)).nodup apart'
  refine filterMap_lookup outcome_records apart' fun d minted m => ?_
  have missing : d.record R ∈ t.missing R := by
    rw [← records_minted_eq]
    exact List.mem_map_of_mem minted
  constructor
  · intro has
    obtain ⟨mem, same, -⟩ := priorOf_spec has
    exact ⟨isAfter m mem (same ▸ missing), same⟩
  · rintro ⟨mem, same⟩
    refine priorOf_of_unique ?_ same (minted_named named minted) fun e isIn sameE => ?_
    · rw [members_eq, List.mem_append]
      exact .inl mem
    · exact List.inj_on_of_nodup_map alone (isAfter e isIn (sameE ▸ missing)) mem
        (sameE.trans same.symm)

theorem carried_again (readable : t.computable = true) :
    (followPass R max (doubtsAfter R S t max all) t).carried =
      (followPass R max all t).carried := by
  have after : ((outcomes R max all t).filterMap (Outcome.after S)).filter
      (fun d => d.record R ∉ t.missing R ∧ d.record R ∉ t.listed R) = [] :=
    List.filter_eq_nil_iff.mpr fun m mem => by simp [record_of_after mem]
  have stays : (followPass R max all t).carried.filter
      (fun d => d.record R ∉ t.missing R ∧ d.record R ∉ t.listed R) =
        (followPass R max all t).carried :=
    List.filter_eq_self.mpr fun m mem => by simpa using (mem_carried.mp mem).2
  rw [carried_eq, family_doubtsAfter readable, members_eq, List.filter_append, after, stays,
    List.nil_append]

/-- The outcomes of a second pass, read off what the first left. -/
theorem outcomes_again (readable : t.computable = true) :
    outcomes R max (doubtsAfter R S t max all) t =
      settle (priorOf R (members R S max all t)) (mintRecordCarryDoubts t none)
        (followPass R max (doubtsAfter R S t max all) t).room
        (followPass R max (doubtsAfter R S t max all) t).next := by
  rw [← family_doubtsAfter readable]
  rfl

theorem room_eq : (followPass R max all t).room =
    max - ((mintRecordCarryDoubts t none).countP (fun d =>
      (priorOf R (all.filter CarryDoubt.inFamily) d).isSome) +
        (followPass R max all t).carried.length) := rfl

/-- Where records stand apart, a second pass over the same trace changes nothing: what the first
left out found no room, and there is none now. -/
theorem again_of_apart (readable : t.computable = true) (named : ∀ r ∈ t.unreasoned, r.uri ≠ "")
    (apart : (t.missing R).Nodup) :
    doubtsAfter R S t max (doubtsAfter R S t max all) = doubtsAfter R S t max all := by
  have lookup := @lookup_of_apart R S t max all named apart
  have found : (mintRecordCarryDoubts t none).countP
      (fun d => (priorOf R (members R S max all t) d).isSome) =
        ((outcomes R max all t).filterMap (Outcome.after S)).length := by
    rw [← lookup, List.length_filterMap_eq_countP]
  have first : ((outcomes R max all t).filterMap (Outcome.after S)).length =
      (mintRecordCarryDoubts t none).countP (fun d =>
        (priorOf R (all.filter CarryDoubt.inFamily) d).isSome) +
      min (followPass R max all t).room ((mintRecordCarryDoubts t none).countP fun d =>
        (priorOf R (all.filter CarryDoubt.inFamily) d).isNone) := length_after_settle
  have room := @room_eq R t max all
  have room' := @room_eq R t max (doubtsAfter R S t max all)
  rw [family_doubtsAfter readable, carried_again readable, found] at room'
  have every : (mintRecordCarryDoubts t none).length =
      (mintRecordCarryDoubts t none).countP (fun d =>
        (priorOf R (all.filter CarryDoubt.inFamily) d).isSome) +
      (mintRecordCarryDoubts t none).countP (fun d =>
        (priorOf R (all.filter CarryDoubt.inFamily) d).isNone) := by
    rw [List.length_eq_countP_add_countP
      (fun d => (priorOf R (all.filter CarryDoubt.inFamily) d).isSome)]
    exact congrArg _ (List.countP_congr fun d _ => by simp)
  have full : (followPass R max (doubtsAfter R S t max all) t).room = 0 ∨
      ∀ d ∈ mintRecordCarryDoubts t none, (priorOf R (members R S max all t) d).isSome := by
    by_cases none' : (followPass R max (doubtsAfter R S t max all) t).room = 0
    · exact .inl none'
    · refine .inr (List.countP_eq_length.mp ?_)
      rw [found, first]
      omega
  have same : members R S max (doubtsAfter R S t max all) t = members R S max all t := by
    rw [members_eq, members_eq, carried_again readable, outcomes_again readable,
      after_settle_of_full full, lookup]
  rw [doubtsAfter_eq readable, same, doubtsAfter_eq readable]
  exact place_place all fun _ => inFamily_of_mem_members

theorem mem_of_mem_place {ms : List CarryDoubt} (mem : d ∈ place all ms) : d ∈ ms ∨ d ∈ all := by
  rw [place, List.mem_append, List.mem_append] at mem
  obtain (mem | mem) | mem := mem
  · exact .inr ((List.takeWhile_sublist _).subset mem)
  · exact .inl mem
  · exact .inr ((List.dropWhile_suffix _).subset (List.mem_filter.mp mem).1)

theorem follow_of_apart (readable : t.computable = true) (apart : RecordsApart R L t) :
    DoubtsFollow R S L t where
  kept max d family missing :=
    (mem_doubtsAfter readable (List.mem_filter.mp family).2).mpr
      (kept_of_apart apart family missing)
  own max d mem := by
    rw [doubtsAfter_eq readable] at mem
    obtain mem | mem := mem_of_mem_place mem
    · obtain old | ⟨r, isRow, n, is, ids⟩ := own_of_mem mem
      · exact .inl old
      · refine .inr ⟨r, isRow, n, is, fun e isOld same => ?_⟩
        have family : e.inFamily = true := by
          rw [CarryDoubt.inFamily, same]
          exact inFamily_of_mem_members mem
        exact ids e (List.mem_filter.mpr ⟨isOld, family⟩) same
    · exact .inl mem
  unique max := by
    rw [family_doubtsAfter readable]
    exact unique_of_apart apart.apart
  again _ := again_of_apart readable apart.named apart.apart

theorem length_minted : (mintRecordCarryDoubts t none).length = t.unreasoned.length := by
  simp [mintRecordCarryDoubts]

/-- Under a large cap there is room for every record, in the first pass and in the second. -/
theorem room_of_large (readable : t.computable = true)
    (large : 3 * t.unreasoned.length + all.length ≤ max) :
    t.unreasoned.length ≤ (followPass R max all t).room ∧
      t.unreasoned.length ≤ (followPass R max (doubtsAfter R S t max all) t).room := by
  have before := @room_eq R t max all
  have after := @room_eq R t max (doubtsAfter R S t max all)
  have few (p : CarryDoubt → Bool) : (mintRecordCarryDoubts t none).countP p ≤
      t.unreasoned.length := length_minted (t := t) ▸ List.countP_le_length
  have carried : (followPass R max all t).carried.length ≤ all.length :=
    (carried_sublist.trans List.filter_sublist).length_le
  rw [carried_again readable] at after
  have one := few fun d => (priorOf R (all.filter CarryDoubt.inFamily) d).isSome
  have two := few fun d =>
    (priorOf R ((doubtsAfter R S t max all).filter CarryDoubt.inFamily) d).isSome
  omega

theorem named_of_follow (readable : t.computable = true) (follow : DoubtsFollow R S L t) :
    ∀ r ∈ t.unreasoned, r.uri ≠ "" := by
  intro r isRow blank
  have missing : "" ∈ t.missing R := List.mem_map.mpr ⟨r, isRow, by simp [CarryRow.record, blank]⟩
  obtain ⟨d, minted, unnamed⟩ := exists_minted missing
  have again := follow.again (3 * t.unreasoned.length + L.doubts.length)
  have fits := (@room_of_large R S t _ L.doubts readable le_rfl).2
  generalize 3 * t.unreasoned.length + L.doubts.length = max at again fits
  have none' : priorOf R (members R S max L.doubts t) d = none := by
    refine Option.eq_none_iff_forall_not_mem.mpr fun p has => ?_
    exact (priorOf_spec has).2.2 unnamed
  rw [← length_minted] at fits
  obtain ⟨n, above, isFresh⟩ := @fresh_mem_settle _ _ _
    (followPass R max (doubtsAfter R S t max L.doubts) t).next _ minted none' fits
  rw [← outcomes_again readable] at isFresh
  have there := @mem_members_of_fresh _ S _ _ _ _ isFresh
  rw [← family_doubtsAfter readable, again] at there
  have number : familyNumber (S.stitch (d.renamed (familyId n))).id = some n := by
    rw [S.id_kept, CarryDoubt.id_renamed, familyNumber_familyId]
  have := @next_of_mem R max _ t _ _ there number
  omega

theorem apart_of_follow (readable : t.computable = true) (follow : DoubtsFollow R S L t) :
    (t.missing R).Nodup := by
  have named := named_of_follow readable follow
  have again := follow.again (3 * t.unreasoned.length + L.doubts.length)
  have unique := follow.unique (3 * t.unreasoned.length + L.doubts.length)
  have fits := (@room_of_large R S t _ L.doubts readable le_rfl).1
  generalize 3 * t.unreasoned.length + L.doubts.length = max at again unique fits
  rw [family_doubtsAfter readable] at unique
  -- with room for all, each record has a doubt after the first pass
  have found : ∀ d ∈ mintRecordCarryDoubts t none,
      (priorOf R (members R S max L.doubts t) d).isSome := by
    intro d minted
    refine priorOf_isSome_iff.mpr ⟨minted_named named minted, ?_⟩
    cases has : priorOf R (L.doubts.filter CarryDoubt.inFamily) d with
    | some p =>
      exact ⟨p, mem_members_of_kept (kept_mem_settle minted has), (priorOf_spec has).2.1⟩
    | none =>
      rw [← length_minted] at fits
      obtain ⟨n, -, isFresh⟩ := @fresh_mem_settle _ _ _ (followPass R max L.doubts t).next _
        minted has fits
      exact ⟨_, mem_members_of_fresh isFresh, by rw [record_stitch, record_renamed]⟩
  -- the second pass keeps one doubt for each, and no doubt twice
  have second : (members R S max (doubtsAfter R S t max L.doubts) t).Nodup := by
    rw [← family_doubtsAfter readable, again, family_doubtsAfter readable]
    exact unique.of_map _
  rw [members_eq, outcomes_again readable, after_settle_of_full (.inr found)] at second
  have each := List.pairwise_filterMap.mp (List.nodup_append.mp second).1
  rw [← records_minted_eq, List.Nodup, List.pairwise_map]
  refine each.imp_of_mem fun {a b} isA isB differ same => ?_
  obtain ⟨p, has⟩ := Option.isSome_iff_exists.mp (found a isA)
  have has' : priorOf R (members R S max L.doubts t) b = some p := by
    rw [← has]
    unfold priorOf
    rw [same]
  exact differ p has p has' rfl

theorem single_of_follow (readable : t.computable = true) (follow : DoubtsFollow R S L t) :
    ((L.doubts.filter fun d => d.inFamily && decide (d.record R ∈ t.missing R)).map
      (CarryDoubt.record R)).Nodup := by
  have part : (L.doubts.filter fun d => d.inFamily && decide (d.record R ∈ t.missing R)).Sublist
      (L.doubts.filter CarryDoubt.inFamily) :=
    List.monotone_filter_right _ fun d both => (Bool.and_eq_true_iff.mp both).1
  have ids := (part.map CarryDoubt.id).nodup L.distinct
  rw [List.Nodup, List.pairwise_map] at ids ⊢
  refine ids.imp_of_mem fun {a b} isA isB differ same => differ ?_
  -- both are kept, so both were found by their record
  have byRecord (d : CarryDoubt) (mem : d ∈ L.doubts.filter
      fun d => d.inFamily && decide (d.record R ∈ t.missing R)) :
      ∃ e, e.record R = d.record R ∧
        priorOf R (L.doubts.filter CarryDoubt.inFamily) e = some d := by
    have family := part.subset mem
    have missing : d.record R ∈ t.missing R := by
      simpa using (Bool.and_eq_true_iff.mp (List.mem_filter.mp mem).2).2
    have kept := follow.kept 0 d family (.inl missing)
    rw [mem_doubtsAfter readable (List.mem_filter.mp family).2] at kept
    obtain ⟨-, isKept | isCarried⟩ | ⟨f, isFresh, rfl⟩ := mem_members kept
    · obtain ⟨e, -, has⟩ := kept_prior isKept
      exact ⟨e, (priorOf_spec has).2.1.symm, has⟩
    · exact absurd missing (mem_carried.mp isCarried).2.1
    · exact absurd (S.id_kept f).symm (fresh_id_ne isFresh family)
  obtain ⟨e, sameA, hasA⟩ := byRecord a isA
  obtain ⟨f, sameB, hasB⟩ := byRecord b isB
  have alike : priorOf R (L.doubts.filter CarryDoubt.inFamily) e =
      priorOf R (L.doubts.filter CarryDoubt.inFamily) f := by
    unfold priorOf
    rw [sameA, sameB, same]
  rw [hasA, hasB] at alike
  exact congrArg CarryDoubt.id (Option.some.inj alike)

end Follow

section Claim

variable (R : LetterCase) (S : Stitch)

/-- The doubts follow a trace that can be read exactly where its records, and the doubts about
them, can be told apart by their URIs. -/
theorem doubts_follow_iff (L : CarryLedger) (t : CarryTrace) (readable : t.computable = true) :
    DoubtsFollow R S L t ↔ RecordsApart R L t :=
  ⟨fun follow => ⟨named_of_follow readable follow, apart_of_follow readable follow,
    single_of_follow readable follow⟩, follow_of_apart readable⟩

end Claim

/-- A step that finds no ending for a new doubt. -/
def noStitch : Stitch where
  stitch := id
  id_kept _ := rfl
  uris_kept _ := rfl

/-- The doubt of a record without a URI, closed. -/
def closedDoubt : CarryDoubt where
  id := "doubt:record-carry:unreasoned:1"
  mark := "ACME"
  status := "checked-and-settled"
  ending := some "doubt-closure"

def closedLedger : CarryLedger where
  doubts := [closedDoubt]
  distinct := List.nodup_singleton _

/-- The same trace again: the record still has neither a ground nor a URI. -/
def unnamedTrace : CarryTrace where
  computable := true
  unreasoned := [{ uri := "", mark := "ACME" }]
  rows := [{ uri := "", mark := "ACME" }]

/-- The closed doubt of a record without a URI is lost to a new one, although its record is
still without a ground. -/
theorem closed_doubt_is_lost :
    ¬ DoubtsFollow lowerCase noStitch closedLedger unnamedTrace ∧
      (doubtsAfter lowerCase noStitch unnamedTrace 25 closedLedger.doubts).map
        (fun d => (d.id, d.status)) = [("doubt:record-carry:unreasoned:2", "open")] := by
  have after : (doubtsAfter lowerCase noStitch unnamedTrace 25 closedLedger.doubts).map
      (fun d => (d.id, d.status)) = [("doubt:record-carry:unreasoned:2", "open")] := by
    decide +kernel
  refine ⟨fun follow => ?_, after⟩
  have kept := follow.kept 25 closedDoubt (by decide +kernel) (.inl (by decide +kernel))
  have still := List.mem_map_of_mem (f := fun d : CarryDoubt => (d.id, d.status)) kept
  rw [after] at still
  exact absurd still (by decide)

/-- A ledger and a trace of one record with a URI. -/
def namedLedger : CarryLedger where
  doubts := [{ closedDoubt with uris := ["/mark/eu/a1"] }]
  distinct := List.nodup_singleton _

def namedTrace : CarryTrace where
  computable := true
  unreasoned := [{ uri := "/mark/eu/a1", mark := "ACME" }]
  rows := [{ uri := "/mark/eu/a1", mark := "ACME" }]

theorem doubts_follow_named : DoubtsFollow lowerCase noStitch namedLedger namedTrace :=
  (doubts_follow_iff lowerCase noStitch namedLedger namedTrace rfl).mpr
    ⟨by decide, by decide, by decide +kernel⟩

end Clearotron.Carry
