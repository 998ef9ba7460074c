import Clearotron.Records.Passes

/-!
# The doubts of a trace written again

A record that was retrieved and then dropped without a ground is a doubt, under an id that says
where in the trace it stood. When a repair has the trace written again, the doubts follow it
record by record: a record still without a ground keeps its doubt and what closed it, a record
newly without one gets a doubt under a new id, and a record with a ground loses its doubt.
-/

namespace Clearotron.Carry

/-- What the ids of the family begin with. -/
def familyStem : String := "doubt:record-carry:unreasoned:"

def familyId (n : Nat) : String := familyStem ++ toString n

/-- The number of an id of the family: `/^doubt:record-carry:unreasoned:(\d+)$/`. -/
def familyNumber (id : String) : Option Nat :=
  let digits := id.toList.drop familyStem.length
  if familyStem.toList.isPrefixOf id.toList ∧ digits ≠ [] ∧ digits.all Char.isDigit then
    some (Nat.ofDigitChars 10 digits 0)
  else none

@[simp] theorem familyNumber_familyId (n : Nat) : familyNumber (familyId n) = some n := by
  have id' : (familyId n).toList = familyStem.toList ++ Nat.toDigits 10 n := by
    rw [familyId, String.toList_append, Nat.toString_eq_repr, Nat.toList_repr]
  have rest : (familyId n).toList.drop familyStem.length = Nat.toDigits 10 n := by
    rw [id', ← String.length_toList, List.drop_left]
  have stem : familyStem.toList.isPrefixOf (familyId n).toList = true := by
    rw [id', List.isPrefixOf_iff_prefix]
    exact List.prefix_append _ _
  have digits : (Nat.toDigits 10 n).all Char.isDigit = true :=
    List.all_eq_true.mpr fun c mem => Nat.isDigit_of_mem_toDigits (by decide) (by decide) mem
  unfold familyNumber
  dsimp only
  rw [rest, if_pos ⟨stem, Nat.toDigits_ne_nil, digits⟩, Nat.ofDigitChars_ten_toDigits]

/-- A doubt; `stands` is its status and the ending that closed it. -/
structure CarryDoubt where
  id : String
  quote : String := ""
  mark : String := ""
  owner : String := ""
  uris : List String := []
  placementTier : Option String := none
  text : String := ""
  status : String := "open"
  ending : Option String := none
  deriving DecidableEq, Repr

/-- The doubt under another id. -/
def CarryDoubt.renamed (d : CarryDoubt) (id : String) : CarryDoubt := { d with id }

@[simp] theorem CarryDoubt.id_renamed (d : CarryDoubt) (id : String) : (d.renamed id).id = id := rfl

@[simp] theorem CarryDoubt.renamed_renamed (d : CarryDoubt) (id id' : String) :
    (d.renamed id).renamed id' = d.renamed id' := rfl

/-- A record a trace lists. -/
structure CarryRow where
  uri : String
  mark : String := ""
  owner : String := ""
  reach : String := ""
  stoppedAt : Option String := none
  detail : String := ""
  placementTier : Option String := none
  deriving DecidableEq, Repr

structure CarryTrace where
  computable : Bool
  /-- the records dropped without a ground -/
  unreasoned : List CarryRow
  rows : List CarryRow
  deriving DecidableEq, Repr

/-- `clip`. -/
def clip (s : String) : String :=
  let t := Text.tidy s
  if 300 < t.length then Text.slice 299 t ++ "…" else t

/-- What the doubt of a record says, before it has an id. -/
def CarryRow.subject (r : CarryRow) : CarryDoubt where
  id := ""
  quote := clip (r.uri ++ " — " ++ r.mark ++ if r.owner = "" then "" else " (" ++ r.owner ++ ")")
  mark := r.mark
  owner := r.owner
  uris := if r.uri = "" then [] else [r.uri]
  placementTier := r.placementTier
  text := "this record was retrieved and reached \"" ++ r.reach ++ "\", then stopped at the " ++
    r.stoppedAt.getD "null" ++ " seam with no step recording a ground: " ++ r.detail

/-- The doubt of a record, under an id. -/
def CarryRow.doubt (r : CarryRow) (id : String) : CarryDoubt := r.subject.renamed id

/-- The doubts of a trace, `max` at most. -/
def mintRecordCarryDoubts (t : CarryTrace) (max : Option Nat) : List CarryDoubt :=
  ((max.elim t.unreasoned t.unreasoned.take).zipIdx 1).map fun (r, n) => r.doubt (familyId n)

/-- What gives a new doubt the ending the run's files hold: it looks at one doubt at a time and
leaves its id and its record. -/
structure Stitch where
  stitch : CarryDoubt → CarryDoubt
  id_kept : ∀ d, (stitch d).id = d.id
  uris_kept : ∀ d, (stitch d).uris = d.uris

section

variable (R : LetterCase) (S : Stitch)

/-- `uriOf`: the record a doubt is about, and nothing where it names none. -/
def CarryDoubt.record (d : CarryDoubt) : String :=
  match d.uris with
  | u :: _ => if u = "" then "" else R.lower u
  | [] => ""

def CarryRow.record (r : CarryRow) : String := if r.uri = "" then "" else R.lower r.uri

def CarryDoubt.inFamily (d : CarryDoubt) : Bool := (familyNumber d.id).isSome

/-- What becomes of a record without a ground: it keeps its doubt, gets a new one, or is left out
for want of room. -/
inductive Outcome
  | kept (d : CarryDoubt)
  | fresh (d : CarryDoubt)
  | leftOut
  deriving DecidableEq, Repr

def Outcome.doubt : Outcome → Option CarryDoubt
  | kept d | fresh d => some d
  | leftOut => none

def Outcome.fresh? : Outcome → Option CarryDoubt
  | fresh d => some d
  | _ => none

/-- The last doubt of each record, where it names one. -/
def priorOf (old : List CarryDoubt) (d : CarryDoubt) : Option CarryDoubt :=
  old.reverse.find? fun p => p.record R ≠ "" ∧ p.record R = d.record R

/-- The loop over the records without a ground: the room left, and the last number given. -/
def settle (prior : CarryDoubt → Option CarryDoubt) :
    List CarryDoubt → Nat → Nat → List Outcome
  | [], _, _ => []
  | d :: ds, room, next =>
    match prior d with
    | some p => .kept p :: settle prior ds room next
    | none =>
      match room with
      | 0 => .leftOut :: settle prior ds 0 next
      | room + 1 => .fresh (d.renamed (familyId (next + 1))) :: settle prior ds room (next + 1)

/-- The doubts of the family stand where the first of them stood, or at the end. -/
def place (all members : List CarryDoubt) : List CarryDoubt :=
  all.takeWhile (!·.inFamily) ++ members ++
    (all.dropWhile (!·.inFamily)).filter (!·.inFamily)

structure DoubtsAgain where
  doubts : List CarryDoubt
  fresh : List String
  dropped : List String
  minted : Nat
  omitted : Nat
  unavailable : Bool
  deriving DecidableEq, Repr

/-- The parts of a pass. -/
structure FollowPass where
  old : List CarryDoubt
  minted : List CarryDoubt
  carried : List CarryDoubt
  room : Nat
  next : Nat

/-- The doubts of the family, those of the trace, the doubts of records the trace does not list,
the room the cap leaves, and the last number given. -/
def followPass (max : Nat) (all : List CarryDoubt) (t : CarryTrace) : FollowPass :=
  let old := all.filter CarryDoubt.inFamily
  let minted := mintRecordCarryDoubts t none
  let missing := minted.map (CarryDoubt.record R)
  let listed := (t.rows.map (CarryRow.record R)).filter (· ≠ "")
  let carried := old.filter fun d => d.record R ∉ missing ∧ d.record R ∉ listed
  { old, minted, carried
    room := max - ((minted.countP fun d => (priorOf R old d).isSome) + carried.length)
    next := (old.filterMap fun d => familyNumber d.id).foldl Nat.max 0 }

/-- What becomes of each record of the trace without a ground. -/
def outcomes (max : Nat) (all : List CarryDoubt) (t : CarryTrace) : List Outcome :=
  let p := followPass R max all t
  settle (priorOf R p.old) p.minted p.room p.next

/-- The doubts of the family after the pass; what was stitched is found again by its id. -/
def members (max : Nat) (all : List CarryDoubt) (t : CarryTrace) : List CarryDoubt :=
  let out := outcomes R max all t
  let stitched := (out.filterMap Outcome.fresh?).map S.stitch
  (out.filterMap Outcome.doubt ++ (followPass R max all t).carried).map fun d =>
    (stitched.reverse.find? (·.id = d.id)).getD d

def recordCarryDoubtsAgain (max : Nat) (all : List CarryDoubt) (trace : Option CarryTrace) :
    DoubtsAgain :=
  let old := all.filter CarryDoubt.inFamily
  match trace.filter (·.computable) with
  | none => ⟨all, [], [], old.length, 0, true⟩
  | some t =>
    let after := members R S max all t
    { doubts := place all after
      fresh := ((outcomes R max all t).filterMap Outcome.fresh?).map CarryDoubt.id
      dropped := (old.map CarryDoubt.id).filter (· ∉ after.map CarryDoubt.id)
      minted := after.length
      omitted := t.unreasoned.length - (after.length - (followPass R max all t).carried.length)
      unavailable := false }

end

/-- What a record ends as, once stitched. -/
def Outcome.after (S : Stitch) : Outcome → Option CarryDoubt
  | kept d => some d
  | fresh d => some (S.stitch d)
  | leftOut => none

@[simp] theorem filterMap_after_kept {S : Stitch} (d : CarryDoubt) (os : List Outcome) :
    (.kept d :: os).filterMap (Outcome.after S) = d :: os.filterMap (Outcome.after S) := rfl

@[simp] theorem filterMap_after_fresh {S : Stitch} (d : CarryDoubt) (os : List Outcome) :
    (.fresh d :: os).filterMap (Outcome.after S) =
      S.stitch d :: os.filterMap (Outcome.after S) := rfl

@[simp] theorem filterMap_after_leftOut {S : Stitch} (os : List Outcome) :
    (.leftOut :: os).filterMap (Outcome.after S) = os.filterMap (Outcome.after S) := rfl

section Settle

variable {S : Stitch} {prior : CarryDoubt → Option CarryDoubt} {ds : List CarryDoubt}
  {room next : Nat} {d : CarryDoubt} {o : Outcome}

theorem settle_cons_some {p : CarryDoubt} (has : prior d = some p) :
    settle prior (d :: ds) room next = .kept p :: settle prior ds room next := by
  cases room <;> simp only [settle, has]

theorem settle_cons_zero (none' : prior d = none) :
    settle prior (d :: ds) 0 next = .leftOut :: settle prior ds 0 next := by
  simp only [settle, none']

theorem settle_cons_succ (none' : prior d = none) :
    settle prior (d :: ds) (room + 1) next =
      .fresh (d.renamed (familyId (next + 1))) :: settle prior ds room (next + 1) := by
  rw [settle, none']

/-- What a record may end as. -/
theorem mem_settle (mem : o ∈ settle prior ds room next) :
    (∃ d ∈ ds, ∃ p, prior d = some p ∧ o = .kept p) ∨
    (∃ d ∈ ds, ∃ n, prior d = none ∧ next < n ∧ o = .fresh (d.renamed (familyId n))) ∨
    o = .leftOut := by
  induction ds generalizing room next with
  | nil => cases mem
  | cons d ds ih =>
    have later {room' next' : Nat} (mem : o ∈ settle prior ds room' next') (le : next ≤ next') :
        (∃ e ∈ d :: ds, ∃ p, prior e = some p ∧ o = .kept p) ∨
        (∃ e ∈ d :: ds, ∃ n, prior e = none ∧ next < n ∧
          o = .fresh (e.renamed (familyId n))) ∨ o = .leftOut := by
      obtain ⟨e, isIn, rest⟩ | ⟨e, isIn, n, none', above, is⟩ | left := ih mem
      · exact .inl ⟨e, List.mem_cons_of_mem _ isIn, rest⟩
      · exact .inr (.inl ⟨e, List.mem_cons_of_mem _ isIn, n, none', by omega, is⟩)
      · exact .inr (.inr left)
    cases has : prior d with
    | some p =>
      rw [settle_cons_some has] at mem
      obtain rfl | mem := List.mem_cons.mp mem
      · exact .inl ⟨d, List.mem_cons_self, p, has, rfl⟩
      · exact later mem le_rfl
    | none =>
      cases room with
      | zero =>
        rw [settle_cons_zero has] at mem
        obtain rfl | mem := List.mem_cons.mp mem
        · exact .inr (.inr rfl)
        · exact later mem le_rfl
      | succ room =>
        rw [settle_cons_succ has] at mem
        obtain rfl | mem := List.mem_cons.mp mem
        · exact .inr (.inl ⟨d, List.mem_cons_self, next + 1, has, by omega, rfl⟩)
        · exact later mem (by omega)

/-- A record with a doubt keeps it. -/
theorem kept_mem_settle {p : CarryDoubt} (mem : d ∈ ds) (has : prior d = some p) :
    .kept p ∈ settle prior ds room next := by
  induction ds generalizing room next with
  | nil => cases mem
  | cons e ds ih =>
    obtain rfl | mem := List.mem_cons.mp mem
    · rw [settle_cons_some has]
      exact List.mem_cons_self
    · cases own : prior e with
      | some q =>
        rw [settle_cons_some own]
        exact List.mem_cons_of_mem _ (ih mem)
      | none =>
        cases room with
        | zero =>
          rw [settle_cons_zero own]
          exact List.mem_cons_of_mem _ (ih mem)
        | succ room =>
          rw [settle_cons_succ own]
          exact List.mem_cons_of_mem _ (ih mem)

/-- A record without a doubt gets one while there is room for all. -/
theorem fresh_mem_settle (mem : d ∈ ds) (none' : prior d = none) (fits : ds.length ≤ room) :
    ∃ n, next < n ∧ .fresh (d.renamed (familyId n)) ∈ settle prior ds room next := by
  induction ds generalizing room next with
  | nil => cases mem
  | cons e ds ih =>
    cases room with
    | zero => simp at fits
    | succ room =>
      have fits' : ds.length ≤ room := by simpa using fits
      cases own : prior e with
      | some q =>
        rw [settle_cons_some own]
        obtain rfl | mem := List.mem_cons.mp mem
        · rw [none'] at own
          cases own
        · obtain ⟨n, later, isIn⟩ := @ih (room + 1) next mem (Nat.le_succ_of_le fits')
          exact ⟨n, later, List.mem_cons_of_mem _ isIn⟩
      | none =>
        rw [settle_cons_succ own]
        obtain rfl | mem := List.mem_cons.mp mem
        · exact ⟨next + 1, by omega, List.mem_cons_self⟩
        · obtain ⟨n, later, isIn⟩ := @ih room (next + 1) mem fits'
          exact ⟨n, by omega, List.mem_cons_of_mem _ isIn⟩

/-- The doubts there are after the pass: those kept, and new ones as far as there is room. -/
theorem length_after_settle : ((settle prior ds room next).filterMap (Outcome.after S)).length =
    (ds.countP fun d => (prior d).isSome) + min room (ds.countP fun d => (prior d).isNone) := by
  induction ds generalizing room next with
  | nil => simp [settle]
  | cons d ds ih =>
    cases has : prior d with
    | some p =>
      rw [settle_cons_some has]
      simp only [filterMap_after_kept, List.length_cons, ih, List.countP_cons, has,
        Option.isSome_some, Option.isNone_some, if_true, Bool.false_eq_true, if_false]
      omega
    | none =>
      cases room with
      | zero =>
        rw [settle_cons_zero has]
        simp [ih, has]
      | succ room =>
        rw [settle_cons_succ has]
        simp only [filterMap_after_fresh, List.length_cons, ih, List.countP_cons, has,
          Option.isSome_none, Option.isNone_none, if_true, Bool.false_eq_true, if_false]
        omega

/-- Where nothing is left to give, or nothing is asked for, the pass keeps what there is. -/
theorem after_settle_of_full (full : room = 0 ∨ ∀ d ∈ ds, (prior d).isSome) :
    (settle prior ds room next).filterMap (Outcome.after S) = ds.filterMap prior := by
  induction ds with
  | nil => rfl
  | cons d ds ih =>
    have rest := ih (full.imp_right fun all d mem => all d (List.mem_cons_of_mem _ mem))
    cases has : prior d with
    | some p =>
      rw [settle_cons_some has]
      simp [has, rest]
    | none =>
      obtain rfl | all := full
      · rw [settle_cons_zero has]
        simp [has, rest]
      · have some' := all d List.mem_cons_self
        rw [has] at some'
        cases some'

end Settle

/-- The ids of the family, each once: a list of doubts as the mint and the closures leave it. -/
structure CarryLedger where
  doubts : List CarryDoubt
  distinct : ((doubts.filter CarryDoubt.inFamily).map CarryDoubt.id).Nodup

section Family

variable {R : LetterCase} {S : Stitch} {max : Nat} {all : List CarryDoubt} {t : CarryTrace}
  {d m : CarryDoubt} {n : Nat}

theorem next_of_mem (mem : d ∈ all.filter CarryDoubt.inFamily)
    (number : familyNumber d.id = some n) : n ≤ (followPass R max all t).next := by
  have grows (l : List Nat) (init : Nat) : init ≤ l.foldl Nat.max init ∧
      ∀ k ∈ l, k ≤ l.foldl Nat.max init := by
    induction l generalizing init with
    | nil => simp
    | cons a l ih =>
      obtain ⟨start, each⟩ := ih (Nat.max init a)
      refine ⟨(Nat.le_max_left _ _).trans start, fun k isIn => ?_⟩
      obtain rfl | isIn := List.mem_cons.mp isIn
      · exact (Nat.le_max_right _ _).trans start
      · exact each k isIn
  exact (grows _ 0).2 n (List.mem_filterMap.mpr ⟨d, mem, number⟩)

theorem priorOf_spec {old : List CarryDoubt} (has : priorOf R old d = some m) :
    m ∈ old ∧ m.record R = d.record R ∧ d.record R ≠ "" := by
  have holds := List.find?_some has
  simp only [Bool.decide_and, Bool.and_eq_true, decide_eq_true_eq] at holds
  exact ⟨List.mem_reverse.mp (List.mem_of_find?_eq_some has), holds.2, holds.2 ▸ holds.1⟩

theorem priorOf_isSome_iff {old : List CarryDoubt} : (priorOf R old d).isSome = true ↔
    d.record R ≠ "" ∧ ∃ m ∈ old, m.record R = d.record R := by
  constructor
  · intro some'
    obtain ⟨m, has⟩ := Option.isSome_iff_exists.mp some'
    obtain ⟨mem, same, named⟩ := priorOf_spec has
    exact ⟨named, m, mem, same⟩
  · rintro ⟨named, m, mem, same⟩
    apply List.find?_isSome.mpr
    exact ⟨m, List.mem_reverse.mpr mem, by simp [same, named]⟩

/-- A doubt that is the only one of its record is the one found. -/
theorem priorOf_of_unique {old : List CarryDoubt} (mem : m ∈ old) (same : m.record R = d.record R)
    (named : d.record R ≠ "") (unique : ∀ e ∈ old, e.record R = d.record R → e = m) :
    priorOf R old d = some m := by
  obtain ⟨p, has⟩ := Option.isSome_iff_exists.mp (priorOf_isSome_iff.mpr ⟨named, m, mem, same⟩)
  obtain ⟨isIn, own, -⟩ := priorOf_spec has
  rw [has, unique p isIn own]

theorem record_of_minted (mem : d ∈ mintRecordCarryDoubts t none) :
    ∃ r ∈ t.unreasoned, d.record R = r.record R := by
  obtain ⟨⟨r, k⟩, isIn, rfl⟩ := List.mem_map.mp mem
  refine ⟨r, (List.mem_zipIdx isIn).2.2 ▸ List.getElem_mem _, ?_⟩
  by_cases blank : r.uri = "" <;> simp [CarryRow.doubt, CarryRow.subject, CarryDoubt.renamed,
    CarryDoubt.record, CarryRow.record, blank]

theorem records_minted :
    (mintRecordCarryDoubts t none).map (CarryDoubt.record R) =
      t.unreasoned.map (CarryRow.record R) := by
  have each (r : CarryRow) (id : String) : (r.doubt id).record R = r.record R := by
    by_cases blank : r.uri = "" <;> simp [CarryRow.doubt, CarryRow.subject, CarryDoubt.renamed,
    CarryDoubt.record, CarryRow.record, blank]
  rw [mintRecordCarryDoubts, List.map_map]
  have first : t.unreasoned.map (CarryRow.record R) =
      ((t.unreasoned.zipIdx 1).map Prod.fst).map (CarryRow.record R) := by
    rw [List.zipIdx_map_fst]
  rw [Option.elim_none, first, List.map_map]
  exact List.map_congr_left fun x _ => each x.1 _

@[simp] theorem record_stitch (d : CarryDoubt) : (S.stitch d).record R = d.record R := by
  unfold CarryDoubt.record
  rw [S.uris_kept]

@[simp] theorem record_renamed (d : CarryDoubt) (id : String) :
    (d.renamed id).record R = d.record R := rfl

theorem fresh_ids_nodup {prior : CarryDoubt → Option CarryDoubt} {ds : List CarryDoubt}
    {room next : Nat} :
    (((settle prior ds room next).filterMap Outcome.fresh?).map CarryDoubt.id).Nodup := by
  induction ds generalizing room next with
  | nil => exact List.nodup_nil
  | cons d ds ih =>
    cases has : prior d with
    | some p =>
      rw [settle_cons_some has]
      exact ih
    | none =>
      cases room with
      | zero =>
        rw [settle_cons_zero has]
        exact ih
      | succ room =>
        rw [settle_cons_succ has]
        refine List.nodup_cons.mpr ⟨fun mem => ?_, ih⟩
        obtain ⟨f, isFresh, same⟩ := List.mem_map.mp mem
        obtain ⟨o, isOut, is⟩ := List.mem_filterMap.mp isFresh
        obtain ⟨e, -, p, -, rfl⟩ | ⟨e, -, n, -, above, rfl⟩ | rfl := mem_settle isOut
        · cases is
        · cases is
          have number := congrArg familyNumber same
          rw [CarryDoubt.id_renamed, CarryDoubt.id_renamed, familyNumber_familyId,
            familyNumber_familyId] at number
          have := Option.some.inj number
          omega
        · cases is

/-- A new doubt is numbered past every one of the family. -/
theorem fresh_number {f : CarryDoubt} (mem : .fresh f ∈ outcomes R max all t) :
    ∃ d ∈ mintRecordCarryDoubts t none, ∃ n, priorOf R (all.filter CarryDoubt.inFamily) d = none ∧
      (followPass R max all t).next < n ∧ f = d.renamed (familyId n) := by
  obtain ⟨e, -, p, -, is⟩ | ⟨e, isIn, n, none', above, is⟩ | is := mem_settle mem
  · cases is
  · cases is
    exact ⟨e, isIn, n, none', above, rfl⟩
  · cases is

theorem kept_prior {p : CarryDoubt} (mem : .kept p ∈ outcomes R max all t) :
    ∃ d ∈ mintRecordCarryDoubts t none, priorOf R (all.filter CarryDoubt.inFamily) d = some p := by
  obtain ⟨d, isIn, q, has, is⟩ | ⟨e, -, n, -, -, is⟩ | is := mem_settle mem
  · cases is
    exact ⟨d, isIn, has⟩
  · cases is
  · cases is

/-- A new id is none of the family's. -/
theorem fresh_id_ne {f : CarryDoubt} (fresh : .fresh f ∈ outcomes R max all t)
    (mem : d ∈ all.filter CarryDoubt.inFamily) : f.id ≠ d.id := by
  obtain ⟨e, -, n, -, above, rfl⟩ := fresh_number fresh
  intro same
  have number : familyNumber d.id = some n := by rw [← same]; exact familyNumber_familyId n
  have := @next_of_mem R max _ t _ _ mem number
  omega

theorem carried_sublist : (followPass R max all t).carried.Sublist
    (all.filter CarryDoubt.inFamily) := List.filter_sublist

/-- The pass read off its outcomes: what was stitched is found by its id, and only that. -/
theorem members_eq : members R S max all t =
    (outcomes R max all t).filterMap (Outcome.after S) ++ (followPass R max all t).carried := by
  unfold members
  dsimp only
  generalize isStitched : ((outcomes R max all t).filterMap Outcome.fresh?).map S.stitch = stitched
  have ofStitched (s : CarryDoubt) (mem : s ∈ stitched) :
      ∃ f, .fresh f ∈ outcomes R max all t ∧ s = S.stitch f := by
    rw [← isStitched] at mem
    obtain ⟨f, isFresh, rfl⟩ := List.mem_map.mp mem
    obtain ⟨o, isOut, is⟩ := List.mem_filterMap.mp isFresh
    cases o <;> cases is
    exact ⟨f, isOut, rfl⟩
  have old (d : CarryDoubt) (mem : d ∈ all.filter CarryDoubt.inFamily) :
      (stitched.reverse.find? (·.id = d.id)).getD d = d := by
    have none' : stitched.reverse.find? (·.id = d.id) = none := by
      refine List.find?_eq_none.mpr fun s isIn => ?_
      obtain ⟨f, isFresh, rfl⟩ := ofStitched s (List.mem_reverse.mp isIn)
      simpa [S.id_kept] using fresh_id_ne isFresh mem
    rw [none', Option.getD_none]
  have new (f : CarryDoubt) (isFresh : .fresh f ∈ outcomes R max all t) :
      (stitched.reverse.find? (·.id = f.id)).getD f = S.stitch f := by
    have there : f ∈ (outcomes R max all t).filterMap Outcome.fresh? :=
      List.mem_filterMap.mpr ⟨_, isFresh, rfl⟩
    have some' : (stitched.reverse.find? (·.id = f.id)).isSome = true := by
      refine List.find?_isSome.mpr ⟨S.stitch f, ?_, by simp [S.id_kept]⟩
      rw [List.mem_reverse, ← isStitched]
      exact List.mem_map_of_mem there
    obtain ⟨s, found⟩ := Option.isSome_iff_exists.mp some'
    obtain ⟨g, isFresh', rfl⟩ := ofStitched s
      (List.mem_reverse.mp (List.mem_of_find?_eq_some found))
    have same : g.id = f.id := by simpa [S.id_kept] using List.find?_some found
    have there' : g ∈ (outcomes R max all t).filterMap Outcome.fresh? :=
      List.mem_filterMap.mpr ⟨_, isFresh', rfl⟩
    rw [found, Option.getD_some, List.inj_on_of_nodup_map fresh_ids_nodup there' there same]
  rw [List.map_append, List.map_filterMap]
  congr 1
  · refine List.filterMap_congr fun o mem => ?_
    cases o with
    | kept p =>
      obtain ⟨d, -, has⟩ := kept_prior mem
      exact congrArg some (old p (priorOf_spec has).1)
    | fresh f => exact congrArg some (new f mem)
    | leftOut => rfl
  · exact (List.map_congr_left fun d mem => old d (carried_sublist.subset mem)).trans
      (List.map_id' _)

/-- A doubt after the pass stood before it, or is new. -/
theorem mem_members (mem : d ∈ members R S max all t) :
    (d ∈ all.filter CarryDoubt.inFamily ∧ (.kept d ∈ outcomes R max all t ∨
      d ∈ (followPass R max all t).carried)) ∨
    ∃ f, .fresh f ∈ outcomes R max all t ∧ d = S.stitch f := by
  rw [members_eq, List.mem_append] at mem
  obtain mem | mem := mem
  · obtain ⟨o, isOut, is⟩ := List.mem_filterMap.mp mem
    cases o with
    | kept p =>
      cases is
      obtain ⟨e, -, has⟩ := kept_prior isOut
      exact .inl ⟨(priorOf_spec has).1, .inl isOut⟩
    | fresh f =>
      cases is
      exact .inr ⟨f, isOut, rfl⟩
    | leftOut => cases is
  · exact .inl ⟨carried_sublist.subset mem, .inr mem⟩

theorem inFamily_of_mem_members (mem : d ∈ members R S max all t) : d.inFamily = true := by
  obtain ⟨isOld, -⟩ | ⟨f, isFresh, rfl⟩ := mem_members mem
  · exact (List.mem_filter.mp isOld).2
  · obtain ⟨e, -, n, -, -, rfl⟩ := fresh_number isFresh
    rw [CarryDoubt.inFamily, S.id_kept, CarryDoubt.id_renamed, familyNumber_familyId]
    rfl

theorem filter_place (all : List CarryDoubt) {ms : List CarryDoubt}
    (family : ∀ d ∈ ms, d.inFamily = true) :
    (place all ms).filter CarryDoubt.inFamily = ms := by
  have front : (all.takeWhile (!·.inFamily)).filter CarryDoubt.inFamily = [] :=
    List.filter_eq_nil_iff.mpr fun d mem => by simpa using List.mem_takeWhile_imp mem
  have back : ((all.dropWhile (!·.inFamily)).filter (!·.inFamily)).filter CarryDoubt.inFamily =
      [] := List.filter_eq_nil_iff.mpr fun d mem => by simpa using (List.mem_filter.mp mem).2
  rw [place, List.filter_append, List.filter_append, front, back,
    List.filter_eq_self.mpr family, List.nil_append, List.append_nil]

theorem place_place (all : List CarryDoubt) {ms : List CarryDoubt}
    (family : ∀ d ∈ ms, d.inFamily = true) : place (place all ms) ms = place all ms := by
  have front : ∀ d ∈ all.takeWhile (!·.inFamily), (!d.inFamily) = true := by
    intro d mem
    simpa using List.mem_takeWhile_imp mem
  have back : ∀ d ∈ (all.dropWhile (!·.inFamily)).filter (!·.inFamily),
      (!d.inFamily) = true := fun d mem => (List.mem_filter.mp mem).2
  have again : place all ms = all.takeWhile (!·.inFamily) ++
      (ms ++ (all.dropWhile (!·.inFamily)).filter (!·.inFamily)) := List.append_assoc ..
  rw [again]
  generalize all.takeWhile (!·.inFamily) = pre at front
  generalize (all.dropWhile (!·.inFamily)).filter (!·.inFamily) = post at back
  rw [place, List.takeWhile_append_of_pos front, List.dropWhile_append_of_pos front]
  cases ms with
  | nil =>
    rw [List.nil_append, List.takeWhile_eq_self_iff.mpr back, List.dropWhile_eq_nil_iff.mpr back]
    simp
  | cons m ms =>
    have own := family m List.mem_cons_self
    have none' : (m :: ms).filter (!·.inFamily) = [] :=
      List.filter_eq_nil_iff.mpr fun d mem => by simpa using family d mem
    have first : (m :: ms ++ post).takeWhile (!·.inFamily) = [] := by simp [own]
    have rest : (m :: ms ++ post).dropWhile (!·.inFamily) = m :: ms ++ post := by simp [own]
    rw [first, rest, List.filter_append, none', List.filter_eq_self.mpr back]
    simp

end Family

end Clearotron.Carry
