import Clearotron.Register.Answer

/-!
# The provider seam: capabilities, adapters and the count probe

One kernel serves every provider. What differs between them is declared: where a
total comes from, whether screening costs a call, how wide a list of names one
request may carry, and how the provider words a refusal. The declarations are
data here, so a statement about the kernel is a statement about all of them.
-/

namespace Clearotron

/-- Where the enumerate ceiling is tested. -/
inductive CountProbe where
  /-- the first page of a search carries the total -/
  | cheap
  /-- a count call answers before the search -/
  | endpoint
  /-- no total exists anywhere in a response -/
  | none
  deriving DecidableEq

/-- Whether screening an enumerated band costs extra calls. -/
inductive ScreenSource where
  | bulkEndpoint
  | billedRecordFetch
  | searchRow
  deriving DecidableEq

/-- `envInt(name, fallback)`: an environment value counts only from one upwards. -/
def envInt (value : Option Nat) (fallback : Nat) : Nat :=
  match value with
  | some n => if 1 ≤ n then n else fallback
  | none => fallback

/-- The capabilities and shape adapters one provider hands to `makeEnumerate`.
A window of names is never empty, so the declared width carries its positivity. -/
structure Deps where
  countProbe : CountProbe := .cheap
  screenSource : ScreenSource := .bulkEndpoint
  hasScreen : Bool := true
  contentFromScreen : Bool := false
  pageSize : Nat := 100
  pageGuard : Nat := 60
  ceilingEnv : Option Nat := none
  ceilingDefault : Nat := 600
  ceilingFor : Params → Option Nat := fun _ => none
  namesChunkEnv : Option Nat := none
  namesChunkDefault : Nat := 80
  namesChunkDefault_pos : 0 < namesChunkDefault := by decide
  namesChunkFor : Params → Option Nat := fun _ => none
  cardinalityRefusal : Option (String → Bool) := none
  listRefusal : Option (String → Bool) := none
  hasAnyElement : Params → Bool := fun _ => true
  missingElementError : String := "ERROR: at least one search element is required."
  providerWindow : String := "5000-record cap"
  rowScreen : Record → List Nat → ScreenRow := fun _ _ => {}
  recordIdOf : Record → Option String := fun r => r.recordId
  recordKeyOf : Record → String := fun r => ((r.recordId <|> r.uri).getD "")
  screenJoinKey : ScreenRow → Option String := fun row => row.uri

namespace Deps

variable (D : Deps)

/-- The tuned ceiling, narrowed by any window the query's shape imposes. -/
def ceiling (q : Params) : Nat :=
  let tuned := envInt D.ceilingEnv D.ceilingDefault
  match D.ceilingFor q with
  | some shape => if 0 < shape then min tuned shape else tuned
  | none => tuned

/-- How many names one request carries. `width` is set only where a refused list
is asked again in halves. -/
def namesChunk (q : Params) (width : Option Nat) : Nat :=
  match width <|> D.namesChunkFor q with
  | some n => if 1 ≤ n then n else envInt D.namesChunkEnv D.namesChunkDefault
  | none => envInt D.namesChunkEnv D.namesChunkDefault

/-- A provider with no total anywhere has nothing to count. -/
def countFirst : Bool := D.countProbe ≠ .none

theorem envInt_pos {value : Option Nat} {fallback : Nat} (h : 0 < fallback) :
    0 < envInt value fallback := by
  unfold envInt
  split
  · split <;> omega
  · exact h

/-- A window always holds a name, whatever the environment or the shape says. -/
theorem namesChunk_pos (q : Params) (width : Option Nat) : 0 < D.namesChunk q width := by
  have base : 0 < envInt D.namesChunkEnv D.namesChunkDefault :=
    envInt_pos D.namesChunkDefault_pos
  unfold namesChunk
  split
  · split <;> omega
  · exact base

end Deps

/-- What the count probe says of one spelling or one class: a number, the
register's floor, or nothing that can be counted. -/
inductive Probe where
  | counted (total : Nat) (totalCounts : Option String)
  | uncounted (floor : Option Nat) (reason : String)
  deriving DecidableEq

/-- Read the cheap probe's reply. A missing number is never a zero. -/
def readProbe : Reply Page → Probe
  | .error text => .uncounted none (Text.clipProviderText text 240)
  | .unparsed _ => .uncounted none "unparseable search response on the count probe"
  | .answered p =>
      match p.totalHits with
      | some n => .counted n p.totalCounts
      | none => .uncounted p.floorOf
          ("the search response carried no usable total_hits, so nothing was counted — " ++
            "the number is UNKNOWN, which is not the same as none")

/-- Read the count endpoint's reply. -/
def readCount : CountReply → Probe
  | .failed reason => .uncounted none (reason.getD "count unavailable")
  | .counted (some n) _ => .counted n none
  | .counted none _ => .uncounted none "count unavailable"

/-- How many records match this question: one call, one number. -/
def countHits (P : Provider) (D : Deps) (q : Params) : Session Event Probe :=
  match D.countProbe with
  | .none => pure (.uncounted none
      ("this register provider exposes no total anywhere in its responses, so a count " ++
        "cannot be taken — the number is UNKNOWN, which is not the same as none"))
  | .endpoint => readCount <$> P.askCount q
  | .cheap => readProbe <$> P.askProbe q

/-- The disposition of one leg from its own count. A leg with a count between one
and the ceiling is `unenumerated` until something reads it. -/
def countedDisposition (n ceiling : Nat) : Disposition :=
  if n = 0 then .verifiedZero else if ceiling < n then .crowd else .unenumerated

/-- What one leg's probe settles. -/
def legCount (ceiling : Nat) : Probe → PartCount
  | .counted n said =>
      { totalHits := some n, disposition := countedDisposition n ceiling, totalCounts := said }
  | .uncounted (some floor) _ =>
      { totalHits := none, totalFloor := some floor, disposition := .crowd }
  | .uncounted none _ => { totalHits := none, disposition := .error }

end Clearotron
