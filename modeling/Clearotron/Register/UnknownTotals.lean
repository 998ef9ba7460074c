import Clearotron.Register.Nodes

/-!
# Unknown totals

A total is unknown where the response that carries it came back without one or not at
all, where the register gave a floor or refused to count, and everywhere on a provider
that has no total at all. Each way of asking in pieces is held to the same rule, node by node
of the account: an answer built from an unknown total states none, and keeps the
floor. What follows says exactly at which nodes the kernel keeps it.
-/

namespace Clearotron

/-- Did the call that carries the total come back without one, or not at all? -/
def Event.unknownTotal (D : Deps) : Event → Prop
  | .page _ _ _ (.answered p) => D.countProbe = .cheap ∧ p.totalHits = none
  | .page _ index _ _ => D.countProbe = .cheap ∧ index = 0
  | .count _ (.counted none _) => True
  | .count _ (.failed _) => True
  | _ => False

/-- The calls without a total that are taken for a total of zero: a first page that failed, a
count that came back well and named no number, and one that failed and was no refusal. -/
def Event.readAsZero (D : Deps) : Event → Prop
  | .page _ _ _ (.answered _) => False
  | .page _ index _ _ => D.countProbe = .cheap ∧ index = 0
  | .count _ (.counted none _) => True
  | .count _ (.failed reason) => D.cardinalityRefusal.any (· (reason.getD "")) = false
  | _ => False

theorem Event.readAsZero.unknownTotal {D : Deps} {c : Event} (h : c.readAsZero D) :
    c.unknownTotal D := by
  match c, h with
  | .page _ _ _ (.error _), h => exact h
  | .page _ _ _ (.unparsed _), h => exact h
  | .count _ (.counted none _), _ => trivial
  | .count _ (.failed _), _ => trivial

/-- The floor a call answered with in place of a total. -/
def Event.floor (D : Deps) : Event → Option Nat
  | .page _ _ _ (.answered p) =>
      if D.countProbe = .cheap ∧ p.totalHits = none then p.floorOf else none
  | _ => none

def Answer.isMissingElement : Answer → Bool
  | .missingElement _ => true
  | _ => false

namespace Account

variable (D : Deps)

/-- Was the question not asked, for want of an element? -/
def isRefused : Account → Bool
  | refused _ _ => true
  | _ => false

/-- A half that was asked and neither folded in nor halved in turn. -/
def LeftOut (again parts : List Account) (acct : Account) : Prop :=
  acct ∉ parts ∧ ∀ p ∈ again, p.question ≠ acct.question

mutual

/-- Is a total unknown, however deep, that this account's answer is built from? -/
def Unknown : Account → Prop
  | refused _ _ => D.countProbe = .none
  | leaf _ calls _ => D.countProbe = .none ∨ ∃ c ∈ calls, c.unknownTotal D
  | terms _ calls _ _ _ => D.countProbe = .none ∨ ∃ c ∈ calls, c.unknownTotal D
  | classes _ calls _ _ _ _ => D.countProbe = .none ∨ ∃ c ∈ calls, c.unknownTotal D
  | windows _ _ parts _ => D.countProbe = .none ∨ UnknownAmong (fun _ => True) parts
  | halves _ _ asked again parts _ =>
      D.countProbe = .none ∨ UnknownAmong (fun _ => True) parts ∨
        UnknownAmong (LeftOut again parts) asked

/-- Is one unknown among those that count? -/
def UnknownAmong (counts : Account → Prop) : List Account → Prop
  | [] => False
  | acct :: rest => counts acct ∧ Unknown acct ∨ UnknownAmong counts rest

end

mutual

/-- The floors, however deep, that this account's answer is built from. -/
def floors : Account → List Nat
  | refused _ _ => []
  | leaf _ calls _ => calls.filterMap (Event.floor D)
  | terms _ calls _ _ _ => calls.filterMap (Event.floor D)
  | classes _ calls _ _ _ _ => calls.filterMap (Event.floor D)
  | windows _ _ parts _ => floorsAmong parts
  | halves _ _ _ _ parts _ => floorsAmong parts

def floorsAmong : List Account → List Nat
  | [] => []
  | acct :: rest => floors acct ++ floorsAmong rest

end

theorem unknownAmong_iff {counts : Account → Prop} {parts : List Account} :
    UnknownAmong D counts parts ↔ ∃ p ∈ parts, counts p ∧ Unknown D p := by
  induction parts with
  | nil => simp [UnknownAmong]
  | cons p parts ih => simp [UnknownAmong, ih]

theorem mem_floorsAmong {parts : List Account} {f : Nat} :
    f ∈ floorsAmong D parts ↔ ∃ p ∈ parts, f ∈ floors D p := by
  induction parts with
  | nil => simp [floorsAmong]
  | cons p parts ih => simp [floorsAmong, ih]

/-- A floor stands only where a total does not. -/
theorem unknown_of_floor {calls : List Event} {f : Nat}
    (mem : f ∈ calls.filterMap (Event.floor D)) : ∃ c ∈ calls, c.unknownTotal D := by
  obtain ⟨c, callMem, floor⟩ := List.mem_filterMap.mp mem
  refine ⟨c, callMem, ?_⟩
  unfold Event.floor at floor
  split at floor
  · split at floor
    · next untotalled => exact untotalled
    · cases floor
  · cases floor

theorem unknown_of_mem_floors {f : Nat} (acct : Account) (mem : f ∈ floors D acct) :
    Unknown D acct := by
  induction acct using of_subs with
  | step acct ih =>
      cases acct with
      | refused q a => cases mem
      | leaf q calls a => exact .inr (unknown_of_floor D mem)
      | terms q calls more probes a => exact .inr (unknown_of_floor D mem)
      | classes q calls more probes legs a => exact .inr (unknown_of_floor D mem)
      | windows q calls parts a =>
          obtain ⟨p, partMem, mem⟩ := (mem_floorsAmong D).mp mem
          exact .inr ((unknownAmong_iff D).mpr ⟨p, partMem, trivial, ih p partMem mem⟩)
      | halves q calls asked again parts a =>
          obtain ⟨p, partMem, mem⟩ := (mem_floorsAmong D).mp mem
          have sub : p ∈ (halves q calls asked again parts a).subs :=
            List.mem_append_right _ partMem
          exact .inr (.inl ((unknownAmong_iff D).mpr ⟨p, partMem, trivial, ih p sub mem⟩))

/-- The answer states no total and keeps the largest floor. -/
def Withholds (acct : Account) : Prop :=
  acct.answer.totalHits = none ∧
    ∀ f ∈ floors D acct, ∃ g ∈ floors D acct, acct.answer.totalFloor = some g ∧ f ≤ g

/-- The rule: an answer built from an unknown total, however deep, states none. -/
def StaysUnknown (acct : Account) : Prop := acct.Unknown D → acct.Withholds D

/-- Where the kernel keeps the rule, by what the register answered and how the question
was asked. -/
def Keepable : Account → Prop
  | refused _ _ => True
  | leaf _ calls _ => ∀ c ∈ calls, ¬ c.readAsZero D
  | terms _ _ _ _ _ => True
  | classes _ _ _ _ _ _ => True
  | windows q calls parts a =>
      ¬ (windows q calls parts a).Unknown D ∨
        (floorsAmong D parts ≠ [] ∧ ∀ p ∈ parts, p.isRefused = false)
  | halves q calls asked again parts a => ¬ (halves q calls asked again parts a).Unknown D

end Account

/-- The total an outcome states, and the floor it gives. -/
def LeafOutcome.total : LeafOutcome → Option Nat
  | answered a => a.totalHits
  | crowd total _ _ => total
  | _ => none

def LeafOutcome.floor : LeafOutcome → Option Nat
  | answered a => a.totalFloor
  | crowd _ floor _ => floor
  | _ => none

/-- Did the outcome settle the question, or start its rescue? -/
def LeafOutcome.isSettled : LeafOutcome → Prop
  | answered _ => True
  | crowd _ _ _ => True
  | _ => False

section Leaf

variable {P : Provider} {D : Deps} {q : Params}

@[simp] theorem timeoutMark_totalHits (i : Incomplete) (split : Bool) (text : String) :
    (i.timeoutMark split text).totalHits = i.totalHits := rfl

@[simp] theorem timeoutMark_totalFloor (i : Incomplete) (split : Bool) (text : String) :
    (i.timeoutMark split text).totalFloor = i.totalFloor := rfl

@[simp] theorem incomplete_totalHits (total : Option Nat) (fetched : Nat)
    (sample : List Record) (reason : String) :
    (incomplete total fetched sample reason).totalHits = total := rfl

@[simp] theorem incomplete_totalFloor (total : Option Nat) (fetched : Nat)
    (sample : List Record) (reason : String) :
    (incomplete total fetched sample reason).totalFloor = none := rfl

/-- What the band of an exhausted question states is the loop's total, or the count's. -/
theorem FinishRun.total {probeTotal : Option Nat} {st : PageState} {calls : List Event}
    {a : Answer} (run : FinishRun P D q probeTotal st calls a) :
    a.totalHits = st.total ∨ D.countProbe = .endpoint ∧ a.totalHits ≠ none := by
  obtain ⟨e, rfl, total, -⟩ | ⟨total, fetched, sample, reason, rfl, -, figure⟩ := run.outcome
  · exact .inl total
  · obtain rfl | ⟨endpoint, -, known⟩ := figure
    · exact .inl rfl
    · exact .inr ⟨endpoint, known⟩

/-- A page whose rows were kept left no total unknown. -/
theorem PageKept.known {ceiling index : Nat} {st : PageState} {p : Page} {i : Nat}
    {prev : Option Page} (kept : PageKept D ceiling index st p) :
    ¬ (Event.page q i prev (.answered p)).unknownTotal D ∧
      (Event.page q i prev (.answered p)).floor D = none := by
  have total : ¬ (D.countProbe = .cheap ∧ p.totalHits = none) := by
    rintro ⟨cheap, untotalled⟩
    obtain ⟨t, stated⟩ := kept.totalled cheap
    rw [untotalled] at stated
    cases stated
  exact ⟨total, if_neg total⟩

theorem screens_known {calls : List Event}
    (screens : ∀ c ∈ calls, ∃ uris classes reply, c = .screen uris classes reply) :
    (∀ c ∈ calls, ¬ c.unknownTotal D ∧ ¬ c.readAsZero D) ∧
      calls.filterMap (Event.floor D) = [] := by
  constructor
  · intro c mem
    obtain ⟨_, _, _, rfl⟩ := screens c mem
    exact ⟨id, id⟩
  · rw [List.filterMap_eq_nil_iff]
    intro c mem
    obtain ⟨_, _, _, rfl⟩ := screens c mem
    rfl

theorem readTotal_none {probeTotal : Option Nat} {st : PageState} {p : Page}
    (without : D.countProbe = .none) : readTotal D probeTotal st p = st.total := by
  simp [readTotal, without]

theorem readTotal_endpoint {probeTotal : Option Nat} {st : PageState} {p : Page}
    (endpoint : D.countProbe = .endpoint) : readTotal D probeTotal st p ≠ none := by
  simp [readTotal, endpoint]

/-- What the page loop makes of an unknown total. -/
structure PagesKeep (D : Deps) (index : Nat) (st : PageState) (calls : List Event)
    (outcome : LeafOutcome) : Prop where
  untotalled : D.countProbe = .none → st.total = none → outcome.total = none
  unknown : D.countProbe ≠ .endpoint → (∀ c ∈ calls, ¬ c.readAsZero D) →
    (∃ c ∈ calls, c.unknownTotal D) → outcome.total = none
  floor : ∀ f ∈ calls.filterMap (Event.floor D), outcome.floor = some f
  source : ∀ f, outcome.floor = some f → f ∈ calls.filterMap (Event.floor D)
  endpoint : D.countProbe = .endpoint → st.total ≠ none → outcome.total ≠ none
  zero : (index = 0 → D.countProbe = .cheap → st.total ≠ none) →
    (∃ c ∈ calls, c.readAsZero D) → outcome.total ≠ none
  known : D.countProbe = .endpoint → ∀ c ∈ calls, ¬ c.unknownTotal D
  present : ∀ text, outcome ≠ .answered (.missingElement text)

/-- A page that failed says nothing, and the loop's own total stands. -/
theorem PagesKeep.of_failed {index : Nat} {st : PageState} {c : Event} {i : Incomplete}
    (unknown : c.unknownTotal D ↔ D.countProbe = .cheap ∧ index = 0)
    (asZero : c.readAsZero D ↔ D.countProbe = .cheap ∧ index = 0) (unfloored : c.floor D = none)
    (total : i.totalHits = st.total) (floor : i.totalFloor = none) :
    PagesKeep D index st [c] (.answered (.incomplete i)) where
  untotalled _ none := total.trans none
  unknown _ asked heard := by
    obtain ⟨c', mem, isUnknown⟩ := heard
    obtain rfl := List.mem_singleton.mp mem
    exact absurd (asZero.mpr (unknown.mp isUnknown)) (asked _ mem)
  floor f mem := by
    rw [List.filterMap_cons_none unfloored] at mem
    cases mem
  source f heard := by
    change i.totalFloor = some f at heard
    rw [floor] at heard
    cases heard
  endpoint _ some_ none := some_ (total.symm.trans none)
  zero stated heard none := by
    obtain ⟨c', mem, isZero⟩ := heard
    obtain rfl := List.mem_singleton.mp mem
    obtain ⟨cheap, first⟩ := asZero.mp isZero
    exact stated first cheap (total.symm.trans none)
  known endpoint c' mem isUnknown := by
    obtain rfl := List.mem_singleton.mp mem
    rw [endpoint] at unknown
    cases (unknown.mp isUnknown).1
  present text := nofun

theorem FinishRun.unfloored {probeTotal : Option Nat} {st : PageState} {calls : List Event}
    {a : Answer} (run : FinishRun P D q probeTotal st calls a) :
    a.totalFloor = none ∧ ∀ text, a ≠ .missingElement text := by
  obtain ⟨e, rfl, -⟩ | ⟨total, fetched, sample, reason, rfl, -⟩ := run.outcome
  · exact ⟨rfl, nofun⟩
  · exact ⟨rfl, nofun⟩

theorem PageRun.keeps {split : Bool} {probeTotal : Option Nat} {left index : Nat}
    {st : PageState} {calls : List Event} {outcome : LeafOutcome}
    (run : PageRun P D q split probeTotal left index st calls outcome)
    (settled : outcome.isSettled) : PagesKeep D index st calls outcome := by
  induction run with
  | refusedList => exact settled.elim
  | timedOut => exact settled.elim
  | failed said unrefused final => exact .of_failed Iff.rfl Iff.rfl rfl rfl rfl
  | unparsed said => exact .of_failed Iff.rfl Iff.rfl rfl rfl rfl
  | exit said read =>
      cases read with
      | floorCrowd cheap untotalled floored first =>
          constructor <;> simp_all [LeafOutcome.total, LeafOutcome.floor, Event.unknownTotal,
            Event.floor, Event.readAsZero]
      | floorLater cheap untotalled floored later =>
          constructor <;> simp_all [LeafOutcome.total, LeafOutcome.floor, Event.unknownTotal,
            Event.floor, Event.readAsZero, Answer.totalHits, Answer.totalFloor, floorBlind,
            Incomplete.floorStamp]
      | untotalled cheap untotalled unfloored =>
          constructor <;> simp_all [LeafOutcome.total, LeafOutcome.floor, Event.unknownTotal,
            Event.floor, Event.readAsZero, Answer.totalHits, Answer.totalFloor]
      | crowd cheap first totalled exceeds =>
          constructor <;> simp_all [LeafOutcome.total, LeafOutcome.floor, Event.unknownTotal,
            Event.floor, Event.readAsZero]
      | unbounded without exceeds =>
          constructor <;> simp_all [LeafOutcome.total, LeafOutcome.floor, Event.unknownTotal,
            Event.floor, Event.readAsZero, Answer.totalHits, Answer.totalFloor]
  | @last left index st next p calls a said read finish =>
      cases read with
      | last kept hasMore =>
          obtain ⟨known, unfloored⟩ := kept.known (q := q) (i := index)
          obtain ⟨others, noFloor⟩ := screens_known (D := D) finish.screens
          have total := finish.total
          constructor
          · intro without untotalled
            obtain same | ⟨endpoint, -⟩ := total
            · exact same.trans ((readTotal_none without).trans untotalled)
            · rw [without] at endpoint
              cases endpoint
          · rintro - - ⟨c, mem, unknown⟩
            obtain rfl | mem := List.mem_cons.mp mem
            · exact absurd unknown known
            · exact absurd unknown (others c mem).1
          · intro f mem
            rw [List.filterMap_cons_none unfloored, noFloor] at mem
            cases mem
          · intro f heard
            change a.totalFloor = some f at heard
            rw [finish.unfloored.1] at heard
            cases heard
          · intro endpoint _
            obtain same | ⟨-, some_⟩ := total
            · exact fun none => readTotal_endpoint endpoint (same.symm.trans none)
            · exact some_
          · rintro - ⟨c, mem, isZero⟩
            obtain rfl | mem := List.mem_cons.mp mem
            · exact isZero.elim
            · exact absurd isZero (others c mem).2
          · intro _ c mem
            obtain rfl | mem := List.mem_cons.mp mem
            · exact known
            · exact (others c mem).1
          · rintro text ⟨⟩
            exact finish.unfloored.2 text rfl
  | @guarded index st next p said read =>
      cases read with
      | more kept hasMore =>
          obtain ⟨known, unfloored⟩ := kept.known (q := q) (i := index)
          constructor
          · intro without untotalled
            exact (readTotal_none without).trans untotalled
          · rintro - - ⟨c, mem, unknown⟩
            obtain rfl := List.mem_singleton.mp mem
            exact absurd unknown known
          · intro f mem
            rw [List.filterMap_cons_none unfloored] at mem
            cases mem
          · intro f heard
            cases heard
          · intro endpoint _
            exact readTotal_endpoint endpoint
          · rintro - ⟨c, mem, isZero⟩
            obtain rfl := List.mem_singleton.mp mem
            exact isZero.elim
          · intro _ c mem
            obtain rfl := List.mem_singleton.mp mem
            exact known
          · intro text same
            cases same
  | @more left index st next p calls outcome said read rest ih =>
      cases read with
      | more kept hasMore =>
          obtain ⟨known, unfloored⟩ := kept.known (q := q) (i := index)
          obtain ⟨untotalled', unknown', floor', source', endpoint', zero', known', present'⟩ :=
            ih settled
          constructor
          · intro without untotalled
            exact untotalled' without ((readTotal_none without).trans untotalled)
          · rintro searches asked ⟨c, mem, unknown⟩
            obtain rfl | mem := List.mem_cons.mp mem
            · exact absurd unknown known
            · exact unknown' searches (fun c mem => asked c (List.mem_cons_of_mem _ mem))
                ⟨c, mem, unknown⟩
          · intro f mem
            rw [List.filterMap_cons_none unfloored] at mem
            exact floor' f mem
          · intro f heard
            rw [List.filterMap_cons_none unfloored]
            exact source' f heard
          · intro endpoint _
            exact endpoint' endpoint (readTotal_endpoint endpoint)
          · rintro - ⟨c, mem, isZero⟩
            obtain rfl | mem := List.mem_cons.mp mem
            · exact isZero.elim
            · exact zero' (fun first => absurd first (Nat.succ_ne_zero index)) ⟨c, mem, isZero⟩
          · intro endpoint c mem
            obtain rfl | mem := List.mem_cons.mp mem
            · exact known
            · exact known' endpoint c mem
          · exact present'

/-- Only a response that carries the total can show a crowd before any count did, and
the descriptor of a crowd states the crowd's own figures. -/
theorem PageRun.blind {split : Bool} {probeTotal : Option Nat} {left index : Nat}
    {st : PageState} {calls : List Event} {outcome : LeafOutcome} {total floor : Option Nat}
    {blind : Incomplete} (run : PageRun P D q split probeTotal left index st calls outcome)
    (crowded : outcome = .crowd total floor blind) :
    D.countProbe = .cheap ∧ blind.totalHits = total ∧ blind.totalFloor = floor ∧
      ∀ c ∈ calls, ¬ c.readAsZero D := by
  induction run with
  | exit said read =>
      cases read with
      | floorCrowd cheap untotalled floored first =>
          cases crowded
          exact ⟨cheap, rfl, rfl, fun c mem => by obtain rfl := List.mem_singleton.mp mem; exact id⟩
      | crowd cheap first totalled exceeds =>
          cases crowded
          exact ⟨cheap, rfl, rfl, fun c mem => by obtain rfl := List.mem_singleton.mp mem; exact id⟩
      | _ => cases crowded
  | more said read rest ih =>
      obtain ⟨cheap, total, floor, asked⟩ := ih crowded
      exact ⟨cheap, total, floor, List.forall_mem_cons.mpr ⟨id, asked⟩⟩
  | _ => cases crowded

theorem LeafRun.blind {split : Bool} {calls : List Event} {total floor : Option Nat}
    {blind : Incomplete} (run : LeafRun P D q split calls (.crowd total floor blind)) :
    blind.totalHits = total ∧ blind.totalFloor = floor ∧
      ∀ c ∈ calls, ¬ c.readAsZero D := by
  cases run with
  | @countCrowd total counts endpoint said exceeds =>
      refine ⟨rfl, rfl, fun c mem => ?_⟩
      obtain rfl := List.mem_singleton.mp mem
      cases total with
      | none => simp at exceeds
      | some t => exact id
  | counted endpoint said under pages =>
      have cheap := (pages.blind rfl).1
      rw [endpoint] at cheap
      cases cheap
  | paged searches pages => exact (pages.blind rfl).2

/-- What a question asked as it stands makes of an unknown total. -/
structure LeafKeeps (D : Deps) (calls : List Event) (outcome : LeafOutcome) : Prop where
  untotalled : D.countProbe = .none → outcome.total = none
  unknown : (∀ c ∈ calls, ¬ c.readAsZero D) → (∃ c ∈ calls, c.unknownTotal D) →
    outcome.total = none
  floor : ∀ f ∈ calls.filterMap (Event.floor D), outcome.floor = some f
  source : ∀ f, outcome.floor = some f → f ∈ calls.filterMap (Event.floor D)
  zero : (∃ c ∈ calls, c.readAsZero D) → outcome.total ≠ none
  present : ∀ text, outcome ≠ .answered (.missingElement text)

theorem LeafRun.keeps {split : Bool} {calls : List Event} {outcome : LeafOutcome}
    (run : LeafRun P D q split calls outcome) (settled : outcome.isSettled) :
    LeafKeeps D calls outcome := by
  cases run with
  | refusedCount endpoint said refusal =>
      constructor <;> simp [LeafOutcome.total, LeafOutcome.floor, Answer.totalHits,
        Answer.totalFloor, Event.floor, Event.readAsZero, refusal, incomplete]
  | countTimedOut => exact settled.elim
  | countFailed endpoint said unrefused final =>
      constructor <;> simp [LeafOutcome.total, LeafOutcome.floor, Answer.totalHits,
        Answer.totalFloor, Event.floor, Event.readAsZero, unrefused, endpoint]
  | @countCrowd total counts endpoint said exceeds =>
      cases total with
      | none => simp at exceeds
      | some t =>
          constructor <;> simp [LeafOutcome.total, LeafOutcome.floor, Event.floor,
            Event.readAsZero, Event.unknownTotal, endpoint]
  | @counted total counts calls outcome endpoint said under pages =>
      obtain ⟨-, -, floor, source, known, -, stated, present⟩ := pages.keeps settled
      have some_ : outcome.total ≠ none := known endpoint (by simp)
      constructor
      · intro without
        rw [endpoint] at without
        cases without
      · rintro numbered ⟨c, mem, unknown⟩
        obtain rfl | mem := List.mem_cons.mp mem
        · cases total with
          | none => exact absurd trivial (numbered _ List.mem_cons_self)
          | some t => exact unknown.elim
        · exact absurd unknown (stated endpoint c mem)
      · intro f mem
        rw [List.filterMap_cons_none rfl] at mem
        exact floor f mem
      · intro f heard
        rw [List.filterMap_cons_none rfl]
        exact source f heard
      · exact fun _ => some_
      · exact present
  | paged searches pages =>
      obtain ⟨untotalled, unknown, floor, source, -, zero, -, present⟩ := pages.keeps settled
      constructor
      · intro without
        exact untotalled without (by simp [without])
      · exact unknown searches
      · exact floor
      · exact source
      · exact zero fun _ cheap => by simp [cheap]
      · exact present

end Leaf

@[simp] theorem termsAnswer_totalHits (ceiling terms : Nat) (total floor : Option Nat)
    (counts : Counts String) :
    (termsAnswer ceiling total floor terms counts).totalHits =
      if floor = none then total else none := by
  unfold termsAnswer
  split
  · next done => simp [Answer.totalHits, done.2]
  · cases floor <;> rfl

@[simp] theorem termsAnswer_totalFloor (ceiling terms : Nat) (total floor : Option Nat)
    (counts : Counts String) :
    (termsAnswer ceiling total floor terms counts).totalFloor = floor := by
  unfold termsAnswer
  split
  · next done => simp [Answer.totalFloor, done.2]
  · cases floor <;> rfl

@[simp] theorem classesAnswer_totalHits (ceiling classes : Nat) (total floor : Option Nat)
    (st : ClassState) :
    (classesAnswer ceiling total floor classes st).totalHits =
      if floor = none then total else none := by
  unfold classesAnswer
  split
  · next done => simp [Answer.totalHits, done.2]
  · cases floor <;> rfl

@[simp] theorem classesAnswer_totalFloor (ceiling classes : Nat) (total floor : Option Nat)
    (st : ClassState) :
    (classesAnswer ceiling total floor classes st).totalFloor = floor := by
  unfold classesAnswer
  split
  · next done => simp [Answer.totalFloor, done.2]
  · cases floor <;> rfl

section Windows

variable {D : Deps} {part : Params → Bool → Account → Prop} {q : Params}

@[simp] theorem withTermCounts_totalHits (i : Incomplete) (st : WindowState) :
    (i.withTermCounts st).totalHits = i.totalHits := by
  unfold Incomplete.withTermCounts
  split <;> rfl

@[simp] theorem withTermCounts_totalFloor (i : Incomplete) (st : WindowState) :
    (i.withTermCounts st).totalFloor = i.totalFloor := by
  unfold Incomplete.withTermCounts
  split <;> rfl

theorem floorStamp_totalFloor {i : Incomplete} (unfloored : i.totalFloor = none)
    (floor : Option Nat) : (i.floorStamp floor).totalFloor = floor := by
  cases floor with
  | none => exact unfloored
  | some f => rfl

/-- The floors some parts answered with. -/
def floorsOf (parts : List Account) : List Nat := parts.filterMap fun p => p.answer.totalFloor

/-- The larger of the floors heard so far, over the parts folded in so far. -/
def FloorHeard (parts : List Account) (floorMax : Option Nat) : Prop :=
  (floorMax = none ∧ floorsOf parts = []) ∨
    ∃ g, floorMax = some g ∧ g ∈ floorsOf parts ∧ ∀ f ∈ floorsOf parts, f ≤ g

theorem FloorHeard.snoc {parts : List Account} {floorMax : Option Nat}
    (heard : FloorHeard parts floorMax) (acct : Account) :
    FloorHeard (parts ++ [acct]) (raiseFloor floorMax acct.answer.totalFloor) := by
  have floors : floorsOf (parts ++ [acct]) =
      floorsOf parts ++ acct.answer.totalFloor.toList := by
    simp only [floorsOf, List.filterMap_append]
    cases floor : acct.answer.totalFloor <;> simp [floor]
  cases floor : acct.answer.totalFloor with
  | none => simpa [FloorHeard, floors, floor, raiseFloor] using heard
  | some f =>
      refine .inr ⟨max (floorMax.getD 0) f, rfl, ?_, ?_⟩
      · rw [floors, floor]
        obtain ⟨rfl, -⟩ | ⟨g, rfl, mem, -⟩ := heard
        · simp
        · obtain le | le := Nat.le_total g f
          · simp [Nat.max_eq_right le]
          · simp [Nat.max_eq_left le, mem]
      · intro f' mem
        rw [floors, floor] at mem
        obtain ⟨rfl, none⟩ | ⟨g, rfl, -, bound⟩ := heard
        · simp only [none, List.nil_append, Option.toList_some, List.mem_singleton] at mem
          omega
        · obtain mem | mem := List.mem_append.mp mem
          · have := bound f' mem
            simp only [Option.getD_some]
            omega
          · simp only [Option.toList_some, List.mem_singleton] at mem
            omega

/-- What a slice in windows makes of its parts' totals and floors. -/
structure WindowsKeep (parts : List Account) (a : Answer) : Prop where
  total : a.totalHits = none ↔
    floorsOf parts ≠ [] ∧ ∀ p ∈ parts, p.answer.isMissingElement = false
  floor : a.totalHits = none →
    ∀ f ∈ floorsOf parts, ∃ g ∈ floorsOf parts, a.totalFloor = some g ∧ f ≤ g
  source : ∀ g, a.totalFloor = some g → g ∈ floorsOf parts
  present : a.isMissingElement = false

/-- An answer that withholds its sum exactly where a floor was heard. -/
theorem FloorHeard.keeps {parts : List Account} {floorMax : Option Nat} {a : Answer} {n : Nat}
    (heard : FloorHeard parts floorMax)
    (answered : ∀ p ∈ parts, p.answer.isMissingElement = false)
    (total : a.totalHits = if floorMax = none then some n else none)
    (floor : a.totalFloor = floorMax) (present : a.isMissingElement = false) :
    WindowsKeep parts a := by
  obtain ⟨rfl, none⟩ | ⟨g, rfl, mem, bound⟩ := heard
  · refine ⟨by simp [total, none], fun _ f mem => ?_, fun f heard => ?_, present⟩
    · rw [none] at mem
      cases mem
    · rw [floor] at heard
      cases heard
  · refine ⟨?_, ?_, fun f heard => ?_, present⟩
    rotate_right
    · rw [floor] at heard
      cases heard
      exact mem
    · have some_ : floorsOf parts ≠ [] := List.ne_nil_of_mem mem
      simp only [total, reduceCtorEq, if_false, true_iff]
      exact ⟨some_, answered⟩
    · intro _ f mem'
      exact ⟨g, mem, floor, bound f mem'⟩

/-- An answer that states its sum over parts that gave no floor. -/
theorem WindowsKeep.of_stated {parts : List Account} {a : Answer} {n : Nat}
    (total : a.totalHits = some n)
    (unfloored : a.totalFloor = none) (present : a.isMissingElement = false)
    (unheard : floorsOf parts = [] ∨ ∃ p ∈ parts, p.answer.isMissingElement = true) :
    WindowsKeep parts a := by
  refine ⟨?_, ?_, fun f heard => absurd (unfloored.symm.trans heard) nofun, present⟩
  · simp only [total, reduceCtorEq, false_iff]
    rintro ⟨some_, answered⟩
    obtain none | ⟨p, mem, missing⟩ := unheard
    · exact some_ none
    · rw [answered p mem] at missing
      cases missing
  · intro none
    rw [total] at none
    cases none

theorem WindowsRun.keeps {calls : List Event} {ceiling chunks : Nat}
    {windows : List (Nat × List String)} {st : WindowState} {acct : Account}
    (run : WindowsRun D part q calls ceiling chunks windows st acct)
    (heard : FloorHeard st.parts st.floorMax)
    (answered : ∀ p ∈ st.parts, p.answer.isMissingElement = false)
    (unrescued : st.rescueNotes = [] → floorsOf st.parts = []) :
    ∃ parts a, acct = .windows q calls parts a ∧ WindowsKeep parts a := by
  have answered' : ∀ {st : WindowState} {acct : Account},
      (∀ p ∈ st.parts, p.answer.isMissingElement = false) →
      acct.answer.isMissingElement = false →
      ∀ p ∈ st.parts ++ [acct], p.answer.isMissingElement = false := by
    intro st acct answered here p mem
    obtain mem | mem := List.mem_append.mp mem
    · exact answered p mem
    · rwa [List.mem_singleton.mp mem]
  induction run with
  | @done st =>
      refine ⟨_, _, rfl, ?_⟩
      by_cases none : st.rescueNotes = []
      · refine .of_stated (n := st.totalSum) ?_ ?_ ?_ (.inl (unrescued none))
        · simp [windowsAnswer, none, Answer.totalHits]
        · simp [windowsAnswer, none, Answer.totalFloor]
        · simp [windowsAnswer, none, Answer.isMissingElement]
      · refine heard.keeps (n := st.totalSum) answered ?_ ?_ ?_
        · simp [windowsAnswer, none, Answer.totalHits]
        · simp only [windowsAnswer, none, if_false, Answer.totalFloor]
          exact floorStamp_totalFloor rfl st.floorMax
        · simp [windowsAnswer, none, Answer.isMissingElement]
  | @stop index names rest st st' acct a asked fold =>
      refine ⟨_, _, rfl, ?_⟩
      cases fold with
      | failed answer =>
          refine .of_stated (n := st.totalSum) ?_ ?_ rfl
            (.inr ⟨acct, by simp, by rw [answer]; rfl⟩)
          · simp [windowFailed, Answer.totalHits]
          · simp [windowFailed, Answer.totalFloor]
      | @ended i answer unmapped =>
          have floor : acct.answer.totalFloor = i.totalFloor := by rw [answer]; rfl
          have heard' := heard.snoc acct
          rw [floor] at heard'
          refine heard'.keeps (n := st.totalSum + i.totalHits.getD 0)
            (answered' answered (by rw [answer]; rfl)) ?_ ?_ rfl
          · simp [windowIncomplete, Answer.totalHits]
          · exact floorStamp_totalFloor rfl _
      | @exceeds e answer none exceeds =>
          refine .of_stated (n := st.totalSum + e.totalHits.getD 0) ?_ ?_ rfl (.inl ?_)
          · simp [windowsOver, Answer.totalHits, WindowState.keep]
          · simp [windowsOver, Answer.totalFloor]
          · simpa [floorsOf, WindowState.keep, answer, Answer.totalFloor] using unrescued none
  | @next index names rest st st' acct whole asked fold later ih =>
      cases fold with
      | @rescued i counts answer countFirst mapped =>
          have floor : acct.answer.totalFloor = i.totalFloor := by rw [answer]; rfl
          have heard' := heard.snoc acct
          rw [floor] at heard'
          refine ih heard' (answered' answered (by rw [answer]; rfl)) fun none => ?_
          simp [WindowState.rescue] at none
      | @kept e answer under =>
          have floor : acct.answer.totalFloor = none := by rw [answer]; rfl
          have heard' := heard.snoc acct
          rw [floor] at heard'
          refine ih heard' (answered' answered (by rw [answer]; rfl)) fun none => ?_
          simpa [floorsOf, WindowState.keep, floor] using unrescued none

end Windows

section Kernel

variable {P : Provider} {D : Deps} {q : Params}

theorem Account.mem_nodes_iff {node acct : Account} :
    node ∈ acct.nodes ↔ node = acct ∨ ∃ p ∈ acct.subs, node ∈ p.nodes := by
  cases acct with
  | halves q calls asked again parts a =>
      simp only [nodes, subs, List.mem_cons, List.mem_append, mem_nodesOf, or_and_right, exists_or]
  | _ => simp [nodes, subs, mem_nodesOf]

theorem Account.nodes_trans {acct node below : Account} (mem : node ∈ acct.nodes)
    (deep : below ∈ node.nodes) : below ∈ acct.nodes := by
  induction acct using of_subs with
  | step acct ih =>
      obtain rfl | ⟨p, sub, mem⟩ := mem_nodes_iff.mp mem
      · exact deep
      · exact mem_nodes_iff.mpr (.inr ⟨p, sub, ih p sub mem⟩)

/-- What a node answers, by the calls and the parts it is built from. -/
def NodeKeeps (D : Deps) : Account → Prop
  | .refused _ a => a.isMissingElement = true
  | .leaf _ calls a => LeafKeeps D calls (.answered a)
  | .terms _ calls _ _ a => LeafKeeps D calls (.answered a) ∧ ∀ c ∈ calls, ¬ c.readAsZero D
  | .classes _ calls _ _ _ a => LeafKeeps D calls (.answered a) ∧ ∀ c ∈ calls, ¬ c.readAsZero D
  | .windows _ _ parts a => WindowsKeep parts a
  | .halves _ _ _ _ _ a => a.totalHits ≠ none ∧ a.totalFloor = none

theorem isMissingElement_eq_false {a : Answer} :
    a.isMissingElement = false ↔ ∀ text, a ≠ .missingElement text := by
  cases a <;> simp [Answer.isMissingElement]

theorem LeafKeeps.answers {calls : List Event} {a : Answer}
    (keeps : LeafKeeps D calls (.answered a)) : a.isMissingElement = false :=
  isMissingElement_eq_false.mpr fun text is => keeps.present text (by rw [is])

/-- A rescued stack states the stack's own total or its floor. -/
theorem LeafRun.stack_keeps {split : Bool} {calls : List Event} {total floor : Option Nat}
    {blind : Incomplete} (leaf : LeafRun P D q split calls (.crowd total floor blind))
    {a : Answer} (stated : a.totalHits = if floor = none then total else none)
    (floored : a.totalFloor = floor) (present : ∀ text, a ≠ .missingElement text) :
    LeafKeeps D calls (.answered a) ∧ ∀ c ∈ calls, ¬ c.readAsZero D := by
  have keeps := leaf.keeps trivial
  have asked := leaf.blind.2.2
  have total_none : total = none → a.totalHits = none := fun none => by rw [stated, none, ite_self]
  refine ⟨⟨?_, ?_, ?_, ?_, ?_, ?_⟩, asked⟩
  · exact fun without => total_none (keeps.untotalled without)
  · exact fun numbered unknown => total_none (keeps.unknown numbered unknown)
  · exact fun f mem => floored.trans (keeps.floor f mem)
  · exact fun f heard => keeps.source f (floored.symm.trans heard)
  · rintro ⟨c, mem, isZero⟩
    exact absurd isZero (asked c mem)
  · rintro text same
    exact present text (LeafOutcome.answered.inj same)

/-- A split always states a total and keeps no floor. -/
theorem HalvesStep.keeps {part : Params → Bool → Account → Prop}
    {deeper : Params → String → Account → Prop} {ceiling : Nat} {calls : List Event}
    {cause : String} {acct : Account}
    (run : HalvesStep P D part deeper ceiling q calls cause acct) : NodeKeeps D acct := by
  cases run with
  | stalled several left right timedOut => exact ⟨Option.some_ne_none _, rfl⟩
  | heard several left right timedOut both =>
      cases both.exit with
      | stalled kept => exact ⟨Option.some_ne_none _, rfl⟩
      | ended parts others enumerated unfinished => exact ⟨Option.some_ne_none _, rfl⟩
      | whole parts first second =>
          refine ⟨halvesAnswer_stated _ _ _, ?_⟩
          unfold halvesAnswer
          split <;> rfl

theorem QuestionRun.keeps {part : Params → Bool → Account → Prop} {split : Bool}
    {acct : Account} (run : QuestionRun P D part q split acct) : NodeKeeps D acct := by
  cases run with
  | refused element => rfl
  | wide element wide run =>
      obtain ⟨parts, a, rfl, keeps⟩ := run.keeps (.inl ⟨rfl, rfl⟩) (by simp) fun _ => rfl
      exact keeps
  | leaf element narrow leaf => exact leaf.keeps trivial
  | refusedList element narrow leaf run =>
      obtain ⟨parts, a, rfl, keeps⟩ := run.keeps (.inl ⟨rfl, rfl⟩) (by simp) fun _ => rfl
      exact keeps
  | timedOut element narrow leaf run =>
      exact HalvesRun.of_step (motive := fun _ _ _ acct => NodeKeeps D acct)
        (fun q calls cause acct step => step.keeps) run
  | terms element narrow leaf counts several probed =>
      refine leaf.stack_keeps (termsAnswer_totalHits _ _ _ _ _) (termsAnswer_totalFloor _ _ _ _ _)
        fun text => ?_
      unfold termsAnswer
      split <;> nofun
  | classes element narrow leaf counts oneName several probed run =>
      refine leaf.stack_keeps (classesAnswer_totalHits _ _ _ _ _)
        (classesAnswer_totalFloor _ _ _ _ _) fun text => ?_
      unfold classesAnswer
      split <;> nofun
  | blind element narrow leaf unrescued =>
      have keeps := leaf.keeps trivial
      obtain ⟨total, floor, asked⟩ := leaf.blind
      refine ⟨?_, ?_, ?_, ?_, ?_, fun text => nofun⟩
      · exact fun without => total.trans (keeps.untotalled without)
      · exact fun numbered unknown => total.trans (keeps.unknown numbered unknown)
      · exact fun f mem => floor.trans (keeps.floor f mem)
      · exact fun f heard => keeps.source f (floor.symm.trans heard)
      · rintro ⟨c, mem, isZero⟩
        exact absurd isZero (asked c mem)

@[simp] theorem stampTotalCounts_totalHits (a : Answer) (said : Option String) :
    (a.stampTotalCounts said).totalHits = a.totalHits := by
  cases said <;> cases a <;> rfl

@[simp] theorem stampTotalCounts_totalFloor (a : Answer) (said : Option String) :
    (a.stampTotalCounts said).totalFloor = a.totalFloor := by
  cases said <;> cases a <;> rfl

@[simp] theorem stampTotalCounts_isMissingElement (a : Answer) (said : Option String) :
    (a.stampTotalCounts said).isMissingElement = a.isMissingElement := by
  cases said <;> cases a <;> rfl

theorem LeafKeeps.congr {calls : List Event} {a b : Answer} (keeps : LeafKeeps D calls (.answered a))
    (total : b.totalHits = a.totalHits) (floor : b.totalFloor = a.totalFloor)
    (missing : b.isMissingElement = a.isMissingElement) : LeafKeeps D calls (.answered b) where
  untotalled without := total.trans (keeps.untotalled without)
  unknown numbered heard := total.trans (keeps.unknown numbered heard)
  floor f mem := floor.trans (keeps.floor f mem)
  source f heard := keeps.source f (floor.symm.trans heard)
  zero heard none := keeps.zero heard (total.symm.trans none)
  present text same := by
    rw [LeafOutcome.answered.inj same, keeps.answers] at missing
    cases missing

theorem NodeKeeps.stamped {acct : Account} (keeps : NodeKeeps D acct) :
    NodeKeeps D acct.stamped := by
  have total := stampTotalCounts_totalHits acct.answer acct.heard
  have floor := stampTotalCounts_totalFloor acct.answer acct.heard
  have missing := stampTotalCounts_isMissingElement acct.answer acct.heard
  cases acct with
  | refused q a => exact missing.trans keeps
  | leaf q calls a => exact keeps.congr total floor missing
  | terms q calls more probes a => exact ⟨keeps.1.congr total floor missing, keeps.2⟩
  | classes q calls more probes legs a => exact ⟨keeps.1.congr total floor missing, keeps.2⟩
  | windows q calls parts a =>
      exact ⟨(Eq.congr_left total).trans keeps.total,
        fun none => by rw [floor]; exact keeps.floor (total.symm.trans none),
        fun g heard => keeps.source g (floor.symm.trans heard), missing.trans keeps.present⟩
  | halves q calls asked again parts a =>
      exact ⟨fun none => keeps.1 (total.symm.trans none), floor.trans keeps.2⟩

section Nodes

variable {acct : Account} (keeps : ∀ node ∈ acct.nodes, NodeKeeps D node)

include keeps

/-- A floor an answer gives was heard. -/
theorem mem_floors_of_totalFloor {g : Nat} (heard : acct.answer.totalFloor = some g) :
    g ∈ acct.floors D := by
  induction acct using Account.of_subs generalizing g with
  | step acct ih =>
      have here := keeps acct acct.mem_nodes_self
      cases acct with
      | refused q a =>
          cases a <;> cases here
          cases heard
      | leaf q calls a => exact here.source g heard
      | terms q calls more probes a => exact here.1.source g heard
      | classes q calls more probes legs a => exact here.1.source g heard
      | windows q calls parts a =>
          obtain ⟨p, mem, floor⟩ := List.mem_filterMap.mp (here.source g heard)
          exact (Account.mem_floorsAmong D).mpr ⟨p, mem, ih p mem (fun node nodeMem => keeps node
            (List.mem_cons_of_mem _ (Account.mem_nodesOf.mpr ⟨p, mem, nodeMem⟩))) floor⟩
      | halves q calls asked again parts a => cases here.2.symm.trans heard

theorem isMissingElement_eq : acct.answer.isMissingElement = acct.isRefused := by
  have here := keeps acct acct.mem_nodes_self
  cases acct with
  | refused q a => exact here
  | leaf q calls a => exact LeafKeeps.answers here
  | terms q calls more probes a => exact here.1.answers
  | classes q calls more probes legs a => exact here.1.answers
  | windows q calls parts a => exact here.present
  | halves q calls asked again parts a =>
      exact isMissingElement_eq_false.mpr fun text is => here.1 (by
        change a = _ at is
        rw [is]
        rfl)

omit keeps in
theorem nodes_of_part {q : Params} {calls : List Event} {parts : List Account} {a : Answer}
    {p node : Account} (mem : p ∈ parts) (nodeMem : node ∈ p.nodes) :
    node ∈ (Account.windows q calls parts a).nodes :=
  List.mem_cons_of_mem _ (Account.mem_nodesOf.mpr ⟨p, mem, nodeMem⟩)

/-- A node that keeps the rule is one that can. -/
theorem keepable_of_stays (stays : acct.StaysUnknown D) : acct.Keepable D := by
  have here := keeps acct acct.mem_nodes_self
  cases acct with
  | refused q a => trivial
  | leaf q calls a =>
      exact fun c mem isZero =>
        here.zero ⟨c, mem, isZero⟩ (stays (.inr ⟨c, mem, isZero.unknownTotal⟩)).1
  | terms q calls more probes a => trivial
  | classes q calls more probes legs a => trivial
  | windows q calls parts a =>
      by_cases unknown : (Account.windows q calls parts a).Unknown D
      · obtain ⟨some_, answered⟩ := here.total.mp (stays unknown).1
        refine .inr ⟨?_, fun p mem => ?_⟩
        · obtain ⟨g, heard⟩ := List.exists_mem_of_ne_nil _ some_
          obtain ⟨p, mem, floor⟩ := List.mem_filterMap.mp heard
          have below := mem_floors_of_totalFloor
            (fun node nodeMem => keeps node (nodes_of_part mem nodeMem)) floor
          exact List.ne_nil_of_mem ((Account.mem_floorsAmong D).mpr ⟨p, mem, below⟩)
        · rw [← isMissingElement_eq fun node nodeMem => keeps node (nodes_of_part mem nodeMem)]
          exact answered p mem
      · exact .inl unknown
  | halves q calls asked again parts a => exact fun unknown => here.1 (stays unknown).1

/-- Where every node can keep the rule, every node does. -/
theorem stays_of_keepable (keepable : ∀ node ∈ acct.nodes, node.Keepable D) :
    acct.StaysUnknown D := by
  induction acct using Account.of_subs with
  | step acct ih =>
      have here := keeps acct acct.mem_nodes_self
      have can := keepable acct acct.mem_nodes_self
      intro unknown
      have leaf : ∀ {calls : List Event} {a : Answer}, LeafKeeps D calls (.answered a) →
          (∀ c ∈ calls, ¬ c.readAsZero D) →
          (D.countProbe = .none ∨ ∃ c ∈ calls, c.unknownTotal D) → a.totalHits = none ∧
            ∀ f ∈ calls.filterMap (Event.floor D), ∃ g ∈ calls.filterMap (Event.floor D),
              a.totalFloor = some g ∧ f ≤ g := by
        intro calls a keeps asked unknown
        refine ⟨?_, fun f mem => ⟨f, mem, keeps.floor f mem, Nat.le_refl f⟩⟩
        obtain without | heard := unknown
        · exact keeps.untotalled without
        · exact keeps.unknown asked heard
      cases acct with
      | refused q a =>
          cases a <;> cases here
          exact ⟨rfl, nofun⟩
      | leaf q calls a => exact leaf here can unknown
      | terms q calls more probes a => exact leaf here.1 here.2 unknown
      | classes q calls more probes legs a => exact leaf here.1 here.2 unknown
      | windows q calls parts a =>
          obtain known | ⟨some_, asked⟩ := can
          · exact absurd unknown known
          -- a floor below is given by the part it is below
          have heard : ∀ f ∈ Account.floorsAmong D parts, ∃ g ∈ floorsOf parts, f ≤ g := by
            intro f mem
            obtain ⟨p, partMem, mem⟩ := (Account.mem_floorsAmong D).mp mem
            obtain ⟨-, floors⟩ := ih p partMem
              (fun node nodeMem => keeps node (nodes_of_part partMem nodeMem))
              (fun node nodeMem => keepable node (nodes_of_part partMem nodeMem))
              (Account.unknown_of_mem_floors D p mem)
            obtain ⟨g, -, floor, le⟩ := floors f mem
            exact ⟨g, List.mem_filterMap.mpr ⟨p, partMem, floor⟩, le⟩
          have none : a.totalHits = none := by
            refine here.total.mpr ⟨?_, fun p mem => ?_⟩
            · obtain ⟨f, mem⟩ := List.exists_mem_of_ne_nil _ some_
              obtain ⟨g, mem, -⟩ := heard f mem
              exact List.ne_nil_of_mem mem
            · rw [isMissingElement_eq fun node nodeMem => keeps node (nodes_of_part mem nodeMem)]
              exact asked p mem
          refine ⟨none, fun f mem => ?_⟩
          obtain ⟨g, mem, le⟩ := heard f mem
          obtain ⟨g', -, floor, le'⟩ := here.floor none g mem
          exact ⟨g', mem_floors_of_totalFloor keeps floor, floor, le.trans le'⟩
      | halves q calls asked again parts a => exact absurd unknown can

end Nodes

/-- A provider that counts one spelling and leaves the total out for another. -/
def halfCounted : Provider where
  search _ q _ _ :=
    if q.names = some ["A"] then
      .ok (.answered { totalHits := some 3, results := [{}, {}, {}] })
    else .ok (.answered {})
  cheapSearch _ _ := .ok (.answered {})
  count _ _ := .ok (.counted none none)
  screen _ _ _ := .ok (.answered {})

end Kernel

end Clearotron
