import Mathlib.Data.List.Forall2
import Mathlib.Logic.Function.Basic
import Clearotron.Library.Reaches
import Clearotron.Executor.FollowUps

/-!
# The follow-up net over a run

Any number of worker processes share the searches file of one run. Each takes its
questions one after the other: it reads the count, appends a line and sends, each as a
step of its own. A process may die at any point, also inside its line, which then has no
newline and runs into the next one. `writes`, `landed`, `sends` and `held` are not in the
code; they are what a run is judged by.
-/

namespace Clearotron

/-- What every worker of the run holds: the identical mark's terms come from the plan. -/
structure FollowUpNet where
  forms : TermForms
  frozenPlan : Plan

def FollowUpNet.classOf (N : FollowUpNet) (e : Entry) : FollowUpClass :=
  followUpClass N.forms e (identicalMarkTerms N.forms N.frozenPlan)

/-- A line as it was appended, with the number of writes before it. -/
abbrev Landed := Nat × SearchRow

inductive FollowUpAt
  | idle
  | asked (e : Entry)
  /-- there was room: the count it read, and the number of writes it was read after -/
  | recording (e : Entry) (retry : Bool) (sent writes : Nat)
  /-- about to send, with the line it appended for it -/
  | sending (e : Entry) (line : Option Landed)
  deriving DecidableEq

namespace FollowUpAt

/-- The line the worker appended and has not sent for. -/
def recorded? : FollowUpAt → Option Landed
  | sending _ line => line
  | _ => none

/-- The count the worker goes by. -/
def reading? : FollowUpAt → Option (Nat × Nat)
  | recording _ _ sent writes => some (sent, writes)
  | _ => none

end FollowUpAt

structure SearchWorker where
  pc : FollowUpAt := .idle
  /-- the answers on record, read once in a call, when the net first meets a question it knows -/
  answered : Option (List String) := none

/-- A follow-up the net did not send. -/
structure HeldBack where
  entry : Entry
  /-- the answers on record by then -/
  onRecord : List String
  /-- the searches sent by then -/
  sent : List Landed

/-- The question was sent, and the run had its answer. -/
def HeldBack.wasAnswered (h : HeldBack) : Prop :=
  ∃ q, h.entry.question = some q ∧ q ∈ keysOf (fun p => p.2.asked) h.sent ∧
    h.entry.qid ∈ h.onRecord

structure FollowUpRun (W : Type*) where
  ended : List SearchLine := []
  /-- what stands after the last newline -/
  tail : Option SearchLine := none
  writes : Nat := 0
  workers : W → SearchWorker := fun _ => {}
  /-- the qids the bands of the run hold an answer to -/
  onRecord : List String := []
  landed : List Landed := []
  sends : List Landed := []
  held : List HeldBack := []

inductive FollowUpAct
  /-- a new call of the executor -/
  | begin
  | ask (e : Entry)
  /-- the question is answered from what the run holds, or the call is past its time -/
  | leave
  | check (readable : Bool)
  /-- `appendFileSync`, which may fail; the token is a retry's own -/
  | record (token : String) (written : Bool)
  | send (answers : Bool)
  /-- a slice of a band is taken out -/
  | takeOut (qid : String)
  /-- the process dies, perhaps with a part of its line in the file -/
  | die (cut : Option SearchLine)

namespace FollowUpRun

variable {W : Type*} [DecidableEq W] (N : FollowUpNet)

def lines (s : FollowUpRun W) : List SearchLine := s.ended ++ s.tail.toList

def go (s : FollowUpRun W) (w : W) (worker : SearchWorker) : FollowUpRun W :=
  { s with workers := Function.update s.workers w worker }

/-- The line joins what stands unended before it. -/
def append (s : FollowUpRun W) (row : SearchRow) : FollowUpRun W :=
  { s with
    ended := s.ended ++ [if s.tail = none then .row row else .torn]
    tail := none
    writes := s.writes + 1
    landed := s.landed ++ [(s.writes, row)] }

def cutOff (s : FollowUpRun W) (part : SearchLine) : FollowUpRun W :=
  { s with
    tail := some (if s.tail = none then part else .torn)
    writes := s.writes + 1 }

/-- The line of a follow-up that is sent. -/
def rowOf (e : Entry) (retry : Bool) (token : String) : SearchRow :=
  ⟨e.qid, e.romanizedTerms, if retry then token else ""⟩

/-- The answers a worker goes by: those it has read in this call, else those on record. -/
def answers (s : FollowUpRun W) (w : W) : List String := (s.workers w).answered.getD s.onRecord

/-- A counted follow-up meets the net. The answers are read where the file holds its question. -/
def meet (s : FollowUpRun W) (w : W) (e : Entry) (readable : Bool) : FollowUpRun W :=
  let room := followUpRoom (if readable then some s.lines else none) followUpSearchLimit e
    (· ∈ s.answers w)
  let answered := if room.isRepeat || room.retry then some (s.answers w) else (s.workers w).answered
  if !room.isOpen then
    { s.go w ⟨.idle, answered⟩ with held := s.held ++ [⟨e, s.onRecord, s.sends⟩] }
  else if room.isRepeat then s.go w ⟨.sending e none, answered⟩
  else s.go w ⟨.recording e room.retry (room.sent.getD 0) s.writes, answered⟩

/-- One step of one worker. -/
def step (s : FollowUpRun W) (w : W) (act : FollowUpAct) : Option (FollowUpRun W) :=
  match act, (s.workers w).pc with
  | .begin, .idle => some (s.go w {})
  | .ask e, .idle => some (s.go w { s.workers w with pc := .asked e })
  | .leave, .asked _ => some (s.go w { s.workers w with pc := .idle })
  | .check readable, .asked e =>
    some <|
      if N.classOf e = .counted then s.meet w e readable
      else s.go w { s.workers w with pc := .sending e none }
  | .record token written, .recording e retry _ _ =>
    some <| (if written then s.append (rowOf e retry token) else s).go w
      { s.workers w with pc := .sending e (some (s.writes, rowOf e retry token)) }
  | .send answers, .sending e line =>
    some { s.go w { s.workers w with pc := .idle } with
      sends := s.sends ++ line.toList
      onRecord := if answers then e.qid :: s.onRecord else s.onRecord }
  | .takeOut qid, _ => some { s with onRecord := s.onRecord.filter (· ≠ qid) }
  | .die none, _ => some (s.go w {})
  | .die (some part), .recording .. => some ((s.cutOff part).go w {})
  | _, _ => none

/-- The lines that came in between a worker's reading and its own line left it room. -/
def RoomLeft (s : FollowUpRun W) (w : W) : FollowUpAct → Prop
  | .record _ written =>
    written = true ∧ ∀ e retry sent writes,
      (s.workers w).pc = .recording e retry sent writes →
        sent + (s.writes - writes) < followUpSearchLimit
  | _ => True

/-- The file can be read, answers that were read earlier in the call have the question's where it
is on record, and a line lands in the file whole. -/
def Lands (s : FollowUpRun W) (w : W) : FollowUpAct → Prop
  | .check readable =>
    readable = true ∧ ∀ e read, (s.workers w).pc = .asked e → (s.workers w).answered = some read →
      e.qid ∈ s.onRecord → e.qid ∈ read
  | .record _ written => written = true ∧ s.tail = none
  | _ => True

/-- A step whose act meets a condition. -/
def StepUnder (condition : FollowUpRun W → W → FollowUpAct → Prop) (s s' : FollowUpRun W) : Prop :=
  ∃ w act, condition s w act ∧ s.step N w act = some s'

/-- The distinct follow-up searches a run has sent. -/
def distinctSends (s : FollowUpRun W) : Nat :=
  tally (fun p => p.2.followUpQuestion) s.sends

end FollowUpRun

/-- What a worker that appended no line and goes by no count adds to a run: nothing. -/
def FollowUpAt.Quiet (pc : FollowUpAt) : Prop := pc.recorded? = none ∧ pc.reading? = none

namespace FollowUpRun

variable {W : Type*} {N : FollowUpNet} {s s' : FollowUpRun W} {w : W} {e : Entry}

/-- Every counted search that is sent has a line of its own in the file, or in a line that
was torn, and a worker's count is behind by the writes since it was read. -/
structure Within (s : FollowUpRun W) : Prop where
  whole : List.Forall₂ (fun p line => SearchLine.followUpQuestion line = p.2.followUpQuestion ∨
    SearchLine.followUpQuestion line = none) s.landed s.ended
  numbered : ∀ p ∈ s.landed, p.1 < s.writes
  sent : s.sends ⊆ s.landed
  once : s.sends.Nodup
  pending : ∀ w p, (s.workers w).pc.recorded? = some p → p ∈ s.landed ∧ p ∉ s.sends
  apart : ∀ w w' p, (s.workers w).pc.recorded? = some p →
    (s.workers w').pc.recorded? = some p → w = w'
  checked : ∀ w sent writes, (s.workers w).pc.reading? = some (sent, writes) →
    writes ≤ s.writes ∧
      tally SearchLine.followUpQuestion s.lines ≤ sent + (s.writes - writes)
  bound : tally (fun p => p.2.followUpQuestion) s.landed ≤ followUpSearchLimit

theorem tally_landed_le (within : s.Within) :
    tally (fun p => p.2.followUpQuestion) s.landed ≤
      tally SearchLine.followUpQuestion s.ended :=
  Tally.le_of_lost within.whole

theorem tally_ended_le :
    tally SearchLine.followUpQuestion s.ended ≤ tally SearchLine.followUpQuestion s.lines := by
  unfold lines
  cases s.tail with
  | none => simp
  | some line => exact Tally.le_append_singleton

/-- A line that lands, and a line that is cut off, count one at most. -/
theorem tally_append_le (row : SearchRow) :
    tally SearchLine.followUpQuestion (s.append row).lines ≤
      tally SearchLine.followUpQuestion s.lines + 1 := by
  have ended := tally_ended_le (s := s)
  have last : tally SearchLine.followUpQuestion (s.append row).lines ≤
      tally SearchLine.followUpQuestion s.ended + 1 := by
    simp only [append, lines, Option.toList_none, List.append_nil]
    exact Tally.append_singleton_le
  omega

theorem tally_cutOff_le (part : SearchLine) :
    tally SearchLine.followUpQuestion (s.cutOff part).lines ≤
      tally SearchLine.followUpQuestion s.lines + 1 := by
  have ended := tally_ended_le (s := s)
  have last : tally SearchLine.followUpQuestion (s.cutOff part).lines ≤
      tally SearchLine.followUpQuestion s.ended + 1 := Tally.append_singleton_le
  omega

/-- A line is cut off: it counts against the others and not for anyone. -/
theorem Within.cuts (within : s.Within) (part : SearchLine) : (s.cutOff part).Within := by
  constructor
  case whole => exact within.whole
  case numbered => exact fun p mem => Nat.lt_succ_of_lt (within.numbered p mem)
  case sent => exact within.sent
  case once => exact within.once
  case pending => exact within.pending
  case apart => exact within.apart
  case checked =>
    intro w' sent writes reads
    obtain ⟨le, count⟩ := within.checked w' sent writes reads
    have grows := tally_cutOff_le (s := s) part
    show writes ≤ s.writes + 1 ∧ tally _ (s.cutOff part).lines ≤ sent + (s.writes + 1 - writes)
    omega
  case bound => exact within.bound

variable [DecidableEq W]

/-- A worker goes on without a line of its own: nothing that is counted changes. -/
theorem Within.goes (within : s.Within) (w : W) {worker : SearchWorker} {held : List HeldBack}
    {onRecord : List String} (own : worker.pc.recorded? = none)
    (reads : ∀ sent writes, worker.pc.reading? = some (sent, writes) →
      writes ≤ s.writes ∧
        tally SearchLine.followUpQuestion s.lines ≤ sent + (s.writes - writes)) :
    Within { s.go w worker with held := held, onRecord := onRecord } := by
  have other : ∀ w' p, (Function.update s.workers w worker w').pc.recorded? = some p →
      (s.workers w').pc.recorded? = some p := by
    intro w' p has
    by_cases mine : w' = w
    · subst mine
      simp [own] at has
    · simpa [mine] using has
  constructor
  case whole => exact within.whole
  case numbered => exact within.numbered
  case sent => exact within.sent
  case once => exact within.once
  case pending => exact fun w' p has => within.pending w' p (other w' p has)
  case apart => exact fun w' w'' p has has' => within.apart w' w'' p (other w' p has) (other w'' p has')
  case checked =>
    intro w' sent writes has
    by_cases mine : w' = w
    · subst mine
      exact reads sent writes (by simpa [go] using has)
    · exact within.checked w' sent writes (by simpa [go, mine] using has)
  case bound => exact within.bound

theorem Within.quiet (within : s.Within) (w : W) {worker : SearchWorker} {held : List HeldBack}
    {onRecord : List String} (quiet : worker.pc.Quiet) :
    Within { s.go w worker with held := held, onRecord := onRecord } := by
  apply within.goes w quiet.1
  intro sent writes has
  rw [quiet.2] at has
  cases has

theorem Within.meets (within : s.Within) (w : W) (e : Entry) (readable : Bool) :
    (s.meet w e readable).Within := by
  simp only [meet]
  generalize room_eq : followUpRoom (if readable then some s.lines else none) followUpSearchLimit e
    (fun x => decide (x ∈ s.answers w)) = room
  by_cases isOpen : room.isOpen = true
  · rw [if_neg (by simp [isOpen])]
    by_cases counts : room.isRepeat = true
    · rw [if_pos counts]
      exact within.quiet w ⟨rfl, rfl⟩
    · rw [if_neg counts]
      apply within.goes w rfl
      -- what the worker goes by is the count of the file as it stands
      intro sent writes has
      obtain ⟨lines, file, -⟩ := FollowUpRoom.below_of_open (by rw [room_eq]; exact isOpen)
        (by rw [room_eq]; simpa using counts)
      cases readable with
      | false => cases file
      | true =>
          obtain rfl : s.lines = lines := by simpa using file
          simp only [FollowUpAt.reading?, Option.some.injEq, Prod.mk.injEq] at has
          obtain ⟨rfl, rfl⟩ := has
          refine ⟨Nat.le_refl _, ?_⟩
          rw [← room_eq]
          simp [followUpRoom, readSent, Sent.sent_eq]
  · rw [if_pos (by simpa using isOpen)]
    exact within.quiet w ⟨rfl, rfl⟩

/-- A line lands while there is room for it. -/
theorem Within.records (within : s.Within) {row : SearchRow} {worker : SearchWorker}
    (own : worker.pc = .sending e (some (s.writes, row)))
    (room : tally SearchLine.followUpQuestion s.lines < followUpSearchLimit) :
    ((s.append row).go w worker).Within := by
  have fresh : ∀ p ∈ s.landed, p ≠ (s.writes, row) := by
    rintro p mem rfl
    exact Nat.lt_irrefl _ (within.numbered _ mem)
  have has : ∀ w' p, (((s.append row).go w worker).workers w').pc.recorded? = some p →
      (w' = w ∧ p = (s.writes, row)) ∨ (w' ≠ w ∧ (s.workers w').pc.recorded? = some p) := by
    intro w' p has
    by_cases mine : w' = w
    · subst mine
      refine .inl ⟨rfl, ?_⟩
      simpa [go, own, FollowUpAt.recorded?, eq_comm] using has
    · exact .inr ⟨mine, by simpa [go, append, mine] using has⟩
  constructor
  case whole =>
    apply List.rel_append within.whole
    refine .cons ?_ .nil
    split
    · exact .inl rfl
    · exact .inr rfl
  case numbered =>
    intro p mem
    show p.1 < s.writes + 1
    obtain mem | mem := List.mem_append.mp mem
    · have := within.numbered p mem
      omega
    · obtain rfl := List.mem_singleton.mp mem
      exact Nat.lt_succ_self _
  case sent => exact fun p mem => List.mem_append_left _ (within.sent mem)
  case once => exact within.once
  case pending =>
    intro w' p pending
    obtain ⟨-, rfl⟩ | ⟨-, pending⟩ := has w' p pending
    · exact ⟨List.mem_append_right _ (List.mem_singleton_self _),
        fun mem => fresh _ (within.sent mem) rfl⟩
    · obtain ⟨mem, unsent⟩ := within.pending w' p pending
      exact ⟨List.mem_append_left _ mem, unsent⟩
  case apart =>
    intro w' w'' p pending pending'
    obtain ⟨rfl, rfl⟩ | ⟨-, pending⟩ := has w' p pending
    · obtain ⟨rfl, -⟩ | ⟨-, pending'⟩ := has w'' _ pending'
      · rfl
      · exact absurd rfl (fresh _ (within.pending w'' _ pending').1)
    · obtain ⟨-, rfl⟩ | ⟨-, pending'⟩ := has w'' p pending'
      · exact absurd rfl (fresh _ (within.pending w' _ pending).1)
      · exact within.apart w' w'' p pending pending'
  case checked =>
    intro w' sent writes reads
    have other : w' ≠ w := by
      rintro rfl
      simp [go, own, FollowUpAt.reading?] at reads
    obtain ⟨le, count⟩ := within.checked w' sent writes (by simpa [go, append, other] using reads)
    have grows := tally_append_le (s := s) row
    show writes ≤ s.writes + 1 ∧ tally _ (s.append row).lines ≤ sent + (s.writes + 1 - writes)
    omega
  case bound =>
    have landed := tally_landed_le within
    have ended := tally_ended_le (s := s)
    have last : tally (fun p => p.2.followUpQuestion) (s.landed ++ [(s.writes, row)]) ≤
        tally (fun p => p.2.followUpQuestion) s.landed + 1 := Tally.append_singleton_le
    show tally _ (s.landed ++ [(s.writes, row)]) ≤ followUpSearchLimit
    omega

/-- A search is sent, and its line is accounted for once. -/
theorem Within.sends_line (within : s.Within) {line : Option Landed} {worker : SearchWorker}
    {onRecord : List String} (at_pc : (s.workers w).pc = .sending e line)
    (quiet : worker.pc.Quiet) :
    Within { s.go w worker with sends := s.sends ++ line.toList, onRecord := onRecord } := by
  cases line with
  | none =>
      have after : Within { s.go w worker with held := s.held, onRecord := onRecord } :=
        within.quiet w quiet
      simpa [go] using after
  | some p =>
      have mine : (s.workers w).pc.recorded? = some p := by rw [at_pc]; rfl
      obtain ⟨mem, unsent⟩ := within.pending w p mine
      have after : Within { s.go w worker with held := s.held, onRecord := onRecord } :=
        within.quiet w quiet
      have other : ∀ w' q, (Function.update s.workers w worker w').pc.recorded? = some q →
          q ≠ p := by
        rintro w' q has rfl
        by_cases same : w' = w
        · subst same
          simp [quiet.1] at has
        · exact same (within.apart w' w q (by simpa [same] using has) mine)
      constructor
      case whole => exact after.whole
      case numbered => exact after.numbered
      case sent =>
        intro q has
        obtain has | has := List.mem_append.mp has
        · exact within.sent has
        · obtain rfl := List.mem_singleton.mp has
          exact mem
      case once =>
        apply List.nodup_append.mpr
        refine ⟨within.once, List.nodup_singleton p, ?_⟩
        rintro q has r single rfl
        obtain rfl := List.mem_singleton.mp single
        exact unsent has
      case pending =>
        intro w' q has
        obtain ⟨mem', unsent'⟩ := after.pending w' q has
        refine ⟨mem', fun sent => ?_⟩
        obtain sent | sent := List.mem_append.mp sent
        · exact unsent' sent
        · exact other w' q has (List.mem_singleton.mp sent)
      case apart => exact after.apart
      case checked => exact after.checked
      case bound => exact after.bound

/-- One step that leaves room keeps it all. -/
theorem Within.step {act : FollowUpAct} (within : s.Within) (left : s.RoomLeft w act)
    (stepped : s.step N w act = some s') : s'.Within := by
  unfold FollowUpRun.step at stepped
  split at stepped
  case h_1 | h_2 | h_3 =>
    cases stepped
    exact within.quiet w ⟨rfl, rfl⟩
  case h_4 e _ =>
    cases stepped
    split
    · exact within.meets w e _
    · exact within.quiet w ⟨rfl, rfl⟩
  case h_5 at_pc =>
    obtain ⟨rfl, room⟩ := left
    cases stepped
    apply within.records rfl
    obtain ⟨-, count⟩ := within.checked w _ _ (by rw [at_pc]; rfl)
    have := room _ _ _ _ at_pc
    omega
  case h_6 at_pc =>
    cases stepped
    exact within.sends_line at_pc ⟨rfl, rfl⟩
  case h_7 =>
    cases stepped
    exact ⟨within.whole, within.numbered, within.sent, within.once, within.pending, within.apart,
      within.checked, within.bound⟩
  case h_8 =>
    cases stepped
    exact within.quiet w ⟨rfl, rfl⟩
  case h_9 =>
    cases stepped
    exact (within.cuts _).quiet w ⟨rfl, rfl⟩
  case h_10 => cases stepped

/-- A search that was sent stands in the file under its question, so the net knows a repeat. -/
structure Known (N : FollowUpNet) (s : FollowUpRun W) : Prop where
  rows : s.ended = s.landed.map fun p => .row p.2
  sent : s.sends ⊆ s.landed
  pending : ∀ w p, (s.workers w).pc.recorded? = some p → p ∈ s.landed
  held : ∀ h ∈ s.held, N.classOf h.entry = .counted ∧ ¬ h.wasAnswered

omit [DecidableEq W] in
theorem Known.sent_in_file (known : s.Known N) {q : String}
    (sent : q ∈ keysOf (fun p => p.2.asked) s.sends) : q ∈ keysOf SearchLine.asked s.lines := by
  obtain ⟨p, mem, asks⟩ := mem_keysOf.mp sent
  refine mem_keysOf.mpr ⟨.row p.2, List.mem_append_left _ ?_, asks⟩
  rw [known.rows]
  exact List.mem_map_of_mem (known.sent mem)

omit [DecidableEq W] in
theorem Known.cuts (known : s.Known N) (part : SearchLine) : (s.cutOff part).Known N :=
  ⟨known.rows, known.sent, known.pending, known.held⟩

theorem Known.goes (known : s.Known N) (w : W) {worker : SearchWorker} {sends : List Landed}
    {held : List HeldBack} {onRecord : List String} (sent : sends ⊆ s.landed)
    (own : ∀ p, worker.pc.recorded? = some p → p ∈ s.landed)
    (holds : ∀ h ∈ held, N.classOf h.entry = .counted ∧ ¬ h.wasAnswered) :
    Known N { s.go w worker with sends := sends, held := held, onRecord := onRecord } := by
  refine ⟨known.rows, sent, ?_, holds⟩
  intro w' p has
  by_cases mine : w' = w
  · subst mine
    exact own p (by simpa [go] using has)
  · exact known.pending w' p (by simpa [go, mine] using has)

theorem Known.quiet (known : s.Known N) (w : W) {worker : SearchWorker}
    (own : worker.pc.recorded? = none) : Known N (s.go w worker) := by
  apply known.goes w known.sent _ known.held
  intro p has
  rw [own] at has
  cases has

/-- What meets a full net was not both sent and answered. -/
theorem Known.meets (known : s.Known N) (w : W) {e : Entry} (counted : N.classOf e = .counted)
    (current : e.qid ∈ s.onRecord → e.qid ∈ s.answers w) : (s.meet w e true).Known N := by
  simp only [meet, ↓reduceIte]
  split
  · rename_i full
    apply known.goes w known.sent (by rintro p ⟨⟩)
    intro h mem
    obtain mem | mem := List.mem_append.mp mem
    · exact known.held h mem
    · obtain rfl := List.mem_singleton.mp mem
      refine ⟨counted, ?_⟩
      rintro ⟨q, asks, sent, answered⟩
      have room : (followUpRoom (some _) followUpSearchLimit _
          fun x => decide (x ∈ s.answers w)).isOpen = true :=
        FollowUpRoom.open_of_answered asks (known.sent_in_file sent)
          (by simpa using current answered)
      simp [room] at full
  · split
    · exact known.quiet w rfl
    · exact known.quiet w rfl

theorem Known.step {act : FollowUpAct} (known : s.Known N) (lands : s.Lands w act)
    (stepped : s.step N w act = some s') : s'.Known N := by
  unfold FollowUpRun.step at stepped
  split at stepped
  case h_1 | h_2 | h_3 =>
    cases stepped
    exact known.quiet w rfl
  case h_4 e at_pc =>
    cases stepped
    obtain ⟨rfl, current⟩ := lands
    split
    · refine known.meets w ‹_› fun recorded => ?_
      unfold answers
      cases read : (s.workers w).answered with
      | none => exact recorded
      | some read' => exact current e read' at_pc read recorded
    · exact known.quiet w rfl
  case h_5 token _ e retry _ _ at_pc =>
    obtain ⟨rfl, ends⟩ := lands
    cases stepped
    constructor
    case rows => simp [go, append, ends, known.rows]
    case sent => exact fun p mem => List.mem_append_left _ (known.sent mem)
    case pending =>
      intro w' p has
      by_cases mine : w' = w
      · subst mine
        have : (s.writes, rowOf e retry token) = p := by simpa [go, FollowUpAt.recorded?] using has
        simp [go, append, this]
      · exact List.mem_append_left _ (known.pending w' p (by simpa [go, append, mine] using has))
    case held => exact known.held
  case h_6 line at_pc =>
    cases stepped
    apply known.goes w _ (by rintro p ⟨⟩) known.held
    apply List.append_subset.mpr ⟨known.sent, ?_⟩
    intro p mem
    exact known.pending w p (by rw [at_pc]; simpa [FollowUpAt.recorded?] using mem)
  case h_7 =>
    cases stepped
    exact ⟨known.rows, known.sent, known.pending, known.held⟩
  case h_8 =>
    cases stepped
    exact known.quiet w rfl
  case h_9 =>
    cases stepped
    exact (known.cuts _).quiet w rfl
  case h_10 => cases stepped

/-- The follow-up number `i` of a run. -/
def probe (i : Nat) : Entry where
  qid := String.ofList (List.replicate (i + 1) 'q')
  axis := .primarySweep
  predicate := .default
  expectedKind := .enumerate
  supplemental := true

/-- A net over a plan without questions on the mark. -/
def bareNet : FollowUpNet := ⟨⟨id, id⟩, ⟨none, [], []⟩⟩

def probeRow (i : Nat) : SearchRow := rowOf (probe i) false ""

theorem probe_counted (i : Nat) : bareNet.classOf (probe i) = .counted := by
  have terms : identicalMarkTerms bareNet.forms bareNet.frozenPlan = [] := rfl
  simp [FollowUpNet.classOf, followUpClass, asksIdenticalMark, terms, probe]

theorem probe_question (i : Nat) : (probe i).question = some (probe i).qid := by
  have letters : ∀ n, (List.replicate n 'q').dropWhile Text.isSpace = List.replicate n 'q' := by
    intro n
    cases n with
    | zero => rfl
    | succ n => rfl
  have trimmed : Text.trim (probe i).qid = (probe i).qid := by
    simp [Text.trim, probe, letters]
  have named : (probe i).qid ≠ "" := by
    intro blank
    have := congrArg (fun s => s.toList.length) blank
    simp [probe] at this
  have plain : sortedSet [] = [] := by simp [sortedSet]
  simp only [Entry.question, questionOf, trimmed, named, ↓reduceIte]
  simp [probe, plain]

theorem probeRow_question (i : Nat) : (probeRow i).followUpQuestion = some (probe i).qid := by
  have asked : (probeRow i).asked = some (probe i).qid := probe_question i
  have blank : Text.trim (probeRow i).retry = "" := rfl
  simp [SearchRow.followUpQuestion, asked, blank]

theorem probe_qid_inj {i j : Nat} (same : (probe i).qid = (probe j).qid) : i = j := by
  have := congrArg (fun s => s.toList.length) same
  simpa [probe] using this

/-- The lines of the first `k` follow-ups. -/
def probeLines (k : Nat) : List SearchLine := (List.range k).map fun i => .row (probeRow i)

theorem probe_fresh {i k : Nat} (le : k ≤ i) :
    (probe i).qid ∉ keysOf SearchLine.asked (probeLines k) := by
  intro mem
  obtain ⟨line, mem, asks⟩ := mem_keysOf.mp mem
  obtain ⟨j, low, rfl⟩ := List.mem_map.mp mem
  have low := List.mem_range.mp low
  have same := probe_qid_inj (Option.some.inj ((probe_question j).symm.trans asks))
  omega

theorem tally_probes (k : Nat) :
    tally (fun i => (probeRow i).followUpQuestion) (List.range k) = k := by
  induction k with
  | zero => rfl
  | succ k ih =>
      have fresh : (probe k).qid ∉
          keysOf (fun i => (probeRow i).followUpQuestion) (List.range k) := by
        intro mem
        obtain ⟨j, low, asks⟩ := mem_keysOf.mp mem
        have low := List.mem_range.mp low
        have same := probe_qid_inj (Option.some.inj ((probeRow_question j).symm.trans asks))
        omega
      rw [List.range_succ, Tally.append_singleton]
      calc tally (fun i => (probeRow i).followUpQuestion) (k :: List.range k)
          = tally (fun i => (probeRow i).followUpQuestion) (List.range k) + 1 :=
            Tally.cons_of_not_mem (probeRow_question k) fresh
        _ = k + 1 := by rw [ih]

theorem tally_probeLines (k : Nat) :
    tally SearchLine.followUpQuestion (probeLines k) = k :=
  (Tally.map ..).trans (tally_probes k)

/-- Every line lands, and if `strict` also while there is room for it. -/
def Orderly (strict : Bool) (s : FollowUpRun Bool) (w : Bool) (act : FollowUpAct) : Prop :=
  s.Lands w act ∧ (strict = true → s.RoomLeft w act)

/-- A run in which the first `k` follow-ups were sent, and no worker has read an answer. -/
structure Probed (strict : Bool) (k : Nat) (s : FollowUpRun Bool) : Prop where
  reached : Reaches (· = {}) (StepUnder bareNet (Orderly strict)) s
  ended : s.ended = probeLines k
  tail : s.tail = none
  writes : s.writes = k
  sends : s.sends = (List.range k).map fun i => (i, probeRow i)
  unread : ∀ w, (s.workers w).answered = none

theorem Probed.distinctSends {strict : Bool} {k : Nat} {s : FollowUpRun Bool}
    (probed : Probed strict k s) : s.distinctSends = k := by
  unfold FollowUpRun.distinctSends
  rw [probed.sends, Tally.map]
  exact tally_probes k

/-- A worker that asks the next question while there is room comes to its line. -/
theorem Probed.reads {strict : Bool} {k i : Nat} {s : FollowUpRun Bool} (probed : Probed strict k s)
    (room : k < followUpSearchLimit) (le : k ≤ i) {w : Bool} (idle : (s.workers w).pc = .idle) :
    Probed strict k (s.go w ⟨.recording (probe i) false k k, none⟩) := by
  have asked : s.step bareNet w (.ask (probe i)) =
      some (s.go w { s.workers w with pc := .asked (probe i) }) := by
    simp [step, idle]
  let s1 := s.go w { s.workers w with pc := .asked (probe i) }
  have file : s1.lines = probeLines k := by
    show s.ended ++ s.tail.toList = _
    simp [probed.ended, probed.tail]
  have read : followUpRoom (some s1.lines) followUpSearchLimit (probe i) (· ∈ s1.answers w) =
      ⟨true, some k, false, false, false⟩ := by
    have unasked : (probe i).qid ∉ ((probeLines k).foldl Sent.line {}).questions :=
      fun mem => probe_fresh le ((Sent.mem_questions _ _).mp mem)
    rw [file]
    simp [followUpRoom, readSent, probe_question, unasked, Sent.sent_eq, tally_probeLines, room]
  have unread : (s1.workers w).answered = none := by simp [s1, go, probed.unread w]
  have checked : s1.step bareNet w (.check true) =
      some (s.go w ⟨.recording (probe i) false k k, none⟩) := by
    have pc : (s1.workers w).pc = .asked (probe i) := by simp [s1, go]
    have writes : s1.writes = k := probed.writes
    have again : ∀ worker, s1.go w worker = s.go w worker := by simp [s1, go]
    simp only [step, pc, probe_counted, ↓reduceIte, meet]
    rw [read]
    simp [writes, again, unread]
  refine ⟨?_, probed.ended, probed.tail, probed.writes, probed.sends, fun w' => ?_⟩
  · have reached := probed.reached.step ⟨w, .ask (probe i), ⟨trivial, fun _ => trivial⟩, asked⟩
    refine reached.step ⟨w, .check true, ⟨⟨rfl, fun e read _ has => ?_⟩, fun _ => trivial⟩, checked⟩
    cases unread.symm.trans has
  · by_cases mine : w' = w
    · subst mine
      simp [go]
    · simpa [go, mine] using probed.unread w'

/-- And from its line it sends. -/
theorem Probed.sends_next {strict : Bool} {k sent writes : Nat} {s : FollowUpRun Bool}
    (probed : Probed strict k s) {w : Bool}
    (pc : (s.workers w).pc = .recording (probe k) false sent writes)
    (room : strict = true → sent + (k - writes) < followUpSearchLimit) :
    ∃ s', Probed strict (k + 1) s' ∧ (s'.workers w).pc = .idle ∧ s'.workers (!w) = s.workers (!w) := by
  have recorded : s.step bareNet w (.record "" true) = some ((s.append (probeRow k)).go w
      { s.workers w with pc := .sending (probe k) (some (k, probeRow k)) }) := by
    simp [step, pc, probed.writes, probeRow]
  let s1 := (s.append (probeRow k)).go w
    { s.workers w with pc := .sending (probe k) (some (k, probeRow k)) }
  have sent : s1.step bareNet w (.send true) = some { s1.go w { s1.workers w with pc := .idle } with
      sends := s1.sends ++ [(k, probeRow k)], onRecord := (probe k).qid :: s1.onRecord } := by
    simp [step, s1, go]
  have orderly : Orderly strict s w (.record "" true) := by
    refine ⟨⟨rfl, probed.tail⟩, fun isStrict => ⟨rfl, ?_⟩⟩
    intro e retry sent' writes' pc'
    rw [pc] at pc'
    cases pc'
    rw [probed.writes]
    exact room isStrict
  have reached := probed.reached.step ⟨w, .record "" true, orderly, recorded⟩
  refine ⟨_, ⟨reached.step ⟨w, .send true, ⟨trivial, fun _ => trivial⟩, sent⟩, ?_, rfl, ?_, ?_,
    fun w' => ?_⟩, ?_, ?_⟩
  · simp [s1, go, append, probed.ended, probed.tail, probeLines, List.range_succ]
  · simp [s1, go, append, probed.writes]
  · simp [s1, go, append, probed.sends, List.range_succ]
  · by_cases mine : w' = w
    · subst mine
      simp [s1, go, probed.unread]
    · simpa [s1, go, append, mine] using probed.unread w'
  · simp [s1, go]
  · cases w <;> simp [s1, go, append]

/-- One worker alone sends as many as there is room for. -/
theorem probed_up_to (strict : Bool) (k : Nat) (le : k ≤ followUpSearchLimit) :
    ∃ s, Probed strict k s ∧ ∀ w, (s.workers w).pc = .idle := by
  induction k with
  | zero => exact ⟨{}, ⟨.start rfl, rfl, rfl, rfl, rfl, fun _ => rfl⟩, fun _ => rfl⟩
  | succ k ih =>
      obtain ⟨s, probed, idle⟩ := ih (Nat.le_of_succ_le le)
      have reads := probed.reads le (Nat.le_refl k) (idle true)
      obtain ⟨s', next, mine, other⟩ := reads.sends_next (w := true) rfl (fun _ => by omega)
      refine ⟨s', next, fun w => ?_⟩
      cases w with
      | true => exact mine
      | false =>
          rw [show s'.workers false = _ from other]
          exact idle false

end FollowUpRun

end Clearotron
