import Clearotron.Register.Deps

/-!
# One question, asked as it stands

The part of `enumerateQuestion` below the name windows: the count that precedes
the search on a provider with a count endpoint, the page loop, the reconciliation
of the total with the rows, and the screening of a finished band. It ends in an
answer, or in one of the three ways of asking the question differently: a refused
list, a gateway timeout, a crowd that may be counted leg by leg.
-/

namespace Clearotron

/-- How asking a question as it stands comes out. `crowd` carries the total or
the floor the rescues start from, and the blind descriptor where neither runs. -/
inductive LeafOutcome where
  | answered (a : Answer)
  | listRefused
  | timedOut (cause : String)
  | crowd (stackTotal floor : Option Nat) (blind : Incomplete)
  deriving DecidableEq

def crowdIs : String :=
  "this is a CROWD, not a named exact/near band, and never a clean; " ++
    "what stays a crowd is recorded with its count."

/-- The same words at the start of a sentence. -/
def crowdIsSentence : String :=
  "This is a CROWD, not a named exact/near band, and never a clean; " ++
    "what stays a crowd is recorded with its count."

def crowdReason (total ceiling : Nat) : String :=
  "total_hits " ++ toString total ++ " exceeds the enumerate ceiling " ++
    toString ceiling ++ " — " ++ crowdIs

/-- What the page loop carries from page to page. -/
structure PageState where
  total : Option Nat
  results : List Record := []
  capWarning : Option String := none
  prev : Option Page := none

/-- What one parsed page does to the loop. -/
inductive PageRead where
  | exit (outcome : LeafOutcome)
  | more (st : PageState)
  | last (st : PageState)

def pageErrorReason (index : Nat) (text : String) : String :=
  "provider error during enumeration (page " ++ toString index ++ "): " ++ text

def unparsedReason (index : Nat) : String :=
  "unparseable search response during enumeration (page " ++ toString index ++ ")"

def untotalledReason (index : Nat) : String :=
  "provider error during enumeration (page " ++ toString index ++
    "): the search response carried no usable total_hits, and on this provider the " ++
    "response IS the count — so the enumerate ceiling could not be tested and this band " ++
    "cannot be read as either a completed enumeration or a sanctioned crowd. The total is " ++
    "UNKNOWN (null, never 0)."

def floorReason (floor : Nat) : String :=
  "the register answered \"" ++ Text.moreThan floor ++ "\" for this question: a floor, " ++
    "not a count, so the set is too large to read. " ++ crowdIsSentence

def unboundedReason (fetched ceiling : Nat) : String :=
  toString fetched ++ " records fetched, past the enumerate ceiling " ++ toString ceiling ++
    ", and this provider exposes NO total anywhere in its response — so the size of the " ++
    "remainder is UNKNOWN (total_hits null, never 0). Treat this as a CROWD descriptor for " ++
    "judgment: narrow the named band and re-enumerate, or record the dilution. It is not a " ++
    "clean negative and not a completed enumeration."

def guardReason (pageGuard : Nat) (window : String) : String :=
  "pagination guard hit (" ++ toString pageGuard ++ " pages) before has_more:false — the " ++
    "provider's reachable window (" ++ window ++ ") is exhausted; the remainder is " ++
    "unreachable by paging. This is an incomplete crowd descriptor, never a clean."

def countErrorReason (reason : Option String) : String :=
  "provider error on the count probe before enumeration: " ++
    reason.getD "count unavailable"

def refusedCountReason (reason : Option String) : String :=
  "the provider REFUSED to count this slice because it would match too much — a structural " ++
    "cardinality limit on the query shape, not an outage and not a transient. It will refuse " ++
    "the same shape identically on every future run, so retrying cannot change it. This is a " ++
    "CROWD: it is recorded as a count+sample descriptor, never accepted as clean. The total " ++
    "is UNKNOWN rather than zero — the count never returned. Provider's own words: " ++
    Text.clipProviderText (reason.getD "") 400

def endpointDivergenceReason (probeTotal fetched : Nat) : String :=
  "provider error — count/search divergence: the count probe reported " ++
    toString probeTotal ++ " record(s) but the search returned " ++ toString fetched ++
    ". The enumeration did NOT land completely and the shortfall is unaccounted, so this " ++
    "slice cannot be read as either a completed band or a sanctioned crowd."

def cheapDivergenceReason (total fetched : Nat) : String :=
  "provider error — count/search divergence: the response counted " ++ toString total ++
    " record(s) but carried " ++ toString fetched ++ " row(s) with no further pages. A " ++
    "counted-but-rowless (or short) enumeration did NOT land completely, so this slice " ++
    "cannot be read as either a completed band or a sanctioned crowd."

def contentCall : String :=
  "provider error" ++ " — the record-content call (this provider's ONLY source of mark text, " ++
    "classes, status and owner: the search returns bare ids) "

def contentNotLanded : String :=
  "The band enumerated but its CONTENT did not land, so it cannot be read as a completed, " ++
    "screened band."

def nothingJoinedReason (rows : Nat) : String :=
  "the batch-screen returned " ++ toString rows ++
    " row(s) and none joined to a record — the join key did not line up"

def noRowsReason : String :=
  "the batch-screen response carried no `rows` array — the provider answered under a name " ++
    "this kernel does not read"

def unjoinedReason (screened asked : Nat) : String :=
  contentCall ++ "returned " ++ toString screened ++ " row(s) for " ++ toString asked ++
    " record(s) and NOT ONE joined: " ++ nothingJoinedReason screened ++ ". " ++
    contentNotLanded

def contentLossReason (sj : Option ScreenAnswer) (asked : Nat) : String :=
  let errors := (sj.map ScreenAnswer.errors).getD []
  contentCall ++
    (match sj with
      | some s => "covered " ++ toString ((s.rows.getD []).length) ++ " of " ++
          toString asked ++ " record(s) and reported " ++ toString errors.length ++
          " failed chunk(s)"
      | none => "returned no usable response") ++
    (if errors.length = 0 then ""
      else ": " ++ Text.slice 200 (String.intercalate "; " errors)) ++
    ". " ++ contentNotLanded

section ProviderError

open Text (isProviderError)

theorem isProviderError_append {front : String} (back : String)
    (h : isProviderError front = true) : isProviderError (front ++ back) = true :=
  Text.includesFold_append_left back h

theorem isProviderError_of_prefix {reason : String}
    (h : "provider error".toList.isPrefixOf reason.toList = true) :
    isProviderError reason = true := by
  have front := (List.isPrefixOf_iff_prefix.mp h).map Char.toLower
  simpa [isProviderError, Text.includesFold] using front.isInfix

theorem isProviderError_contentCall : isProviderError contentCall = true := by
  unfold contentCall
  iterate 2 apply isProviderError_append
  exact isProviderError_of_prefix (by decide)

theorem isProviderError_unjoinedReason (screened asked : Nat) :
    isProviderError (unjoinedReason screened asked) = true := by
  unfold unjoinedReason
  iterate 8 apply isProviderError_append
  exact isProviderError_contentCall

theorem isProviderError_contentLossReason (sj : Option ScreenAnswer) (asked : Nat) :
    isProviderError (contentLossReason sj asked) = true := by
  unfold contentLossReason
  iterate 4 apply isProviderError_append
  exact isProviderError_contentCall

theorem isProviderError_endpointDivergenceReason (probeTotal fetched : Nat) :
    isProviderError (endpointDivergenceReason probeTotal fetched) = true := by
  unfold endpointDivergenceReason
  iterate 5 apply isProviderError_append
  exact isProviderError_of_prefix (by decide)

theorem isProviderError_cheapDivergenceReason (total fetched : Nat) :
    isProviderError (cheapDivergenceReason total fetched) = true := by
  unfold cheapDivergenceReason
  iterate 6 apply isProviderError_append
  exact isProviderError_of_prefix (by decide)

end ProviderError

/-- The total after a page. On a provider that counts first the larger figure
stands; where no total exists anywhere none is ever read. -/
def readTotal (D : Deps) (probeTotal : Option Nat) (st : PageState) (p : Page) : Option Nat :=
  match D.countProbe with
  | .endpoint => some (max (probeTotal.getD 0) (p.totalHits.getD 0))
  | .cheap => p.totalHits <|> st.total
  | .none => st.total

/-- The loop with a page's rows kept. -/
def PageState.take (st : PageState) (total : Option Nat) (p : Page) : PageState :=
  { total := total, results := st.results ++ p.results
    capWarning := p.capWarning <|> st.capWarning, prev := some p }

/-- The descriptor of a question the register answered with a floor. -/
def floorBlind (st : PageState) (p : Page) (floor : Nat) : Incomplete :=
  (incomplete none (st.results.length + p.results.length) (st.results ++ p.results)
    (floorReason floor)).floorStamp (some floor)

/-- Read one parsed page: test the total, the floor and the ceiling, then keep its
rows. The order of the tests is the source's. -/
def readPage (D : Deps) (ceiling : Nat) (probeTotal : Option Nat) (index : Nat)
    (st : PageState) (p : Page) : PageRead :=
  if D.countProbe = .cheap ∧ p.totalHits = none then
    match p.floorOf with
    | some floor =>
        if index = 0 then .exit (.crowd none (some floor) (floorBlind st p floor))
        else .exit (.answered (.incomplete (floorBlind st p floor)))
    | none => .exit (.answered (.incomplete
        (incomplete none st.results.length st.results (untotalledReason index))))
  else
    let total := readTotal D probeTotal st p
    if D.countProbe = .cheap ∧ index = 0 ∧ total.any (ceiling < ·) then
      .exit (.crowd total none (incomplete total p.results.length p.results
        (crowdReason (total.getD 0) ceiling)))
    else
      let next := st.take total p
      if D.countProbe = .none ∧ ceiling < next.results.length then
        .exit (.answered (.incomplete (incomplete none next.results.length next.results
          (unboundedReason next.results.length ceiling))))
      else if p.hasMore then .more next else .last next

/-- The screening call's answer joined to the rows: the records, and what the
lift did. The last row under a key is the one found. -/
def joinScreen (D : Deps) (results : List Record) (sj : Option ScreenAnswer) :
    List Record × Option ScreenLift :=
  match sj with
  | none => (results, none)
  | some s =>
      match s.rows with
      | none => (results, some
          { applied := false, matched := 0, rows := 0, reason := some noRowsReason })
      | some rows =>
          let find (x : Record) : Option ScreenRow :=
            rows.reverse.find? (fun row => D.screenJoinKey row = D.recordIdOf x)
          let matched := (results.filter (fun x => (find x).isSome)).length
          (results.map (fun x => { liftScreenFields x (find x) with screen := find x }),
            some { applied := 0 < matched, matched := matched, rows := rows.length
                   reason := if 0 < matched then none
                     else some (nothingJoinedReason rows.length) })

/-- Did the content of a band land, on a provider whose screen is its only source? -/
def contentLoss (total : Option Nat) (fetched asked : Nat) (records : List Record)
    (sj : Option ScreenAnswer) (lift : Option ScreenLift) : Option Incomplete :=
  let screened := ((sj.bind ScreenAnswer.rows).getD []).length
  if lift.any (fun l => !l.applied) && 0 < screened then
    some (incomplete total fetched records (unjoinedReason screened asked))
  else if sj.all (fun s => s.rows.isNone || s.errors ≠ []) then
    some (incomplete total fetched records (contentLossReason sj asked))
  else none

/-- The probe said N, or the response counted N, and fewer rows than N came back:
the provider contradicts itself on the number the completeness claim rests on. -/
def bandShortfall (D : Deps) (probeTotal : Option Nat) (st : PageState) :
    Option Incomplete :=
  if D.countProbe = .endpoint ∧ probeTotal.any (st.results.length < ·) then
    some (incomplete probeTotal st.results.length st.results
      (endpointDivergenceReason (probeTotal.getD 0) st.results.length))
  else if D.countProbe = .cheap ∧ st.total.any (st.results.length < ·) then
    some (incomplete st.total st.results.length st.results
      (cheapDivergenceReason (st.total.getD 0) st.results.length))
  else none

/-- The ids a record-content call would ask about. -/
def screenUris (D : Deps) (st : PageState) : List String :=
  st.results.filterMap (fun x => (D.recordIdOf x).filter (· ≠ ""))

/-- Does screening this band cost a call? -/
def needsScreen (D : Deps) (st : PageState) : Prop :=
  D.screenSource ≠ .searchRow ∧ D.hasScreen = true ∧ screenUris D st ≠ []

instance (D : Deps) (st : PageState) : Decidable (needsScreen D st) :=
  inferInstanceAs (Decidable (_ ∧ _ ∧ _))

/-- A band whose rows carry their own screening, or which nothing screens. -/
def inlineBand (D : Deps) (q : Params) (st : PageState) : Enumerated :=
  { totalHits := st.total
    records := if D.screenSource = .searchRow then
        st.results.map (fun x => { x with screen := some (D.rowScreen x q.inScopeClasses) })
      else st.results }

/-- A band joined to the record-content call's answer. Where that call is the only
source of content, a miss is content lost. -/
def screenedBand (D : Deps) (st : PageState) (reply : Reply ScreenAnswer) : Answer :=
  let sj := match reply with
    | .answered body => some body
    | _ => none
  let joined := joinScreen D st.results sj
  let lost := if D.contentFromScreen then
    contentLoss st.total st.results.length (screenUris D st).length joined.1 sj joined.2
  else none
  match lost with
  | some i => .incomplete i
  | none => .enumerated
      { totalHits := st.total, records := joined.1
        screenLift := joined.2.filter (fun l => !l.applied) }

/-- The band is exhausted: reconcile the count with the rows, then attach the
screening facts. -/
def finishBand (P : Provider) (D : Deps) (q : Params) (probeTotal : Option Nat)
    (st : PageState) : Session Event Answer :=
  match bandShortfall D probeTotal st with
  | some i => pure (.incomplete i)
  | none =>
      if needsScreen D st then
        screenedBand D st <$> P.askScreen (screenUris D st) q.inScopeClasses
      else pure (.enumerated (inlineBand D q st))

/-- The stamp a half asked as it stands puts on its own gateway timeout. -/
def Incomplete.timeoutMark (i : Incomplete) (split : Bool) (text : String) : Incomplete :=
  { i with gatewayTimeout := !split && Text.isGatewayTimeout text }

/-- The page loop. `left` pages may still follow this one before the guard. -/
def pageLoop (P : Provider) (D : Deps) (q : Params) (split : Bool)
    (probeTotal : Option Nat) :
    (left index : Nat) → PageState → Session Event LeafOutcome
  | left, index, st => do
      let reply ← P.askPage q index st.prev
      match reply with
      | .error text =>
          if index = 0 ∧ 1 < q.listed.length ∧ D.listRefusal.any (· text) then
            pure .listRefused
          else
            let late ← P.isLate
            if q.splittable split && Text.isGatewayTimeout text && !late then
              pure (.timedOut text)
            else
              pure (.answered (.incomplete ((incomplete st.total st.results.length
                st.results (pageErrorReason index text)).timeoutMark split text)))
      | .unparsed _ =>
          pure (.answered (.incomplete (incomplete st.total st.results.length st.results
            (unparsedReason index))))
      | .answered p =>
          match readPage D (D.ceiling q) probeTotal index st p with
          | .exit outcome => pure outcome
          | .last next => .answered <$> finishBand P D q probeTotal next
          | .more next =>
              match left with
              | 0 => pure (.answered (.incomplete (incomplete next.total
                  next.results.length next.results
                  (guardReason D.pageGuard (next.capWarning.getD D.providerWindow)))))
              | n + 1 => pageLoop P D q split probeTotal n (index + 1) next

/-- A question asked as it stands: the count first where the provider has one. -/
def askLeaf (P : Provider) (D : Deps) (q : Params) (split : Bool) :
    Session Event LeafOutcome :=
  match D.countProbe with
  | .endpoint => do
      let c ← P.askCount q
      match c with
      | .failed reason =>
          if D.cardinalityRefusal.any (· (reason.getD "")) then
            pure (.answered (.incomplete { incomplete none 0 [] (refusedCountReason reason)
              with crowdBasis := some .providerRefusedCount, countUnavailable := true }))
          else
            let late ← P.isLate
            if q.splittable split && Text.isGatewayTimeout (reason.getD "") && !late then
              pure (.timedOut (reason.getD ""))
            else
              pure (.answered (.incomplete ((incomplete (some 0) 0 []
                (countErrorReason reason)).timeoutMark split (reason.getD ""))))
      | .counted counted _ =>
          let total := counted.getD 0
          if D.ceiling q < total then
            pure (.crowd (some total) none
              (incomplete (some total) 0 [] (crowdReason total (D.ceiling q))))
          else
            pageLoop P D q split (some total) (D.pageGuard - 1) 0 { total := some total }
  | .cheap => pageLoop P D q split none (D.pageGuard - 1) 0 { total := some 0 }
  | .none => pageLoop P D q split none (D.pageGuard - 1) 0 { total := none }

/-- What the pages and the count of a question said its total counts: the last
thing heard. -/
def heardCounts (calls : List Event) : Option String :=
  calls.foldl (fun said call =>
    match call with
    | .page _ _ _ (.answered p) => p.totalCounts <|> said
    | .count _ (.counted _ counts) => counts <|> said
    | _ => said) none

end Clearotron
