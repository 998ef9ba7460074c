import Mathlib.Algebra.Order.Ring.Rat
import Mathlib.Data.List.Induction
import Mathlib.Tactic.NormNum
import Clearotron.Library.Keyed
import Clearotron.Library.TokenBucket

/-!
# The rate limiter of the remote face

Every identity draws on a bucket of its own. A bucket is filled again when its identity comes back,
and the buckets of those who stay away are looked over from time to time. Numbers are read as exact
rationals.
-/

namespace Clearotron

/-- What the limiter is set up with. -/
structure Limits where
  perMinute : ℚ := 120
  /-- bucket capacity (burst) -/
  max : ℚ := perMinute
  perMinute_nonneg : 0 ≤ perMinute
  max_nonneg : 0 ≤ max

namespace Limits

def refillPerMs (L : Limits) : ℚ := L.perMinute / 60000

theorem refillPerMs_nonneg (L : Limits) : 0 ≤ L.refillPerMs :=
  div_nonneg L.perMinute_nonneg (by norm_num)

/-- The law every bucket is under. -/
def law (L : Limits) : TokenLaw ℚ := ⟨L.max, L.refillPerMs, L.max_nonneg, L.refillPerMs_nonneg⟩

end Limits

structure TokenLevel where
  tokens : ℚ
  last : ℚ
  deriving DecidableEq

structure RateLimiter where
  buckets : Keyed String TokenLevel
  lastPrune : ℚ
  deriving DecidableEq

/-- The key a call is counted under: one without a key is anonymous. -/
def bucketKey (key : Option String) : String := (key.filter (· ≠ "")).getD "anon"

namespace RateLimiter

def initial : RateLimiter := ⟨.empty, 0⟩

variable (L : Limits) (now : ℚ)

/-- `_prune`: buckets that stand at full and were not touched for ten minutes. -/
def prune (r : RateLimiter) : RateLimiter :=
  { r with
    buckets := r.buckets.keepIf fun _ b =>
      !decide (L.max ≤ b.tokens ∧ 600000 < now - b.last) }

/-- Is the limiter looked over at this call? -/
def due (r : RateLimiter) : Bool := 300000 < now - r.lastPrune

/-- What a bucket holds by now; a key that has none starts with a full one. -/
def level (r : RateLimiter) (k : String) : ℚ :=
  let b := (r.buckets.get k).getD ⟨L.max, now⟩
  min L.max (b.tokens + (now - b.last) * L.refillPerMs)

/-- The bucket's part of `take`. -/
def draw (r : RateLimiter) (k : String) : Bool × RateLimiter :=
  let tokens := r.level L now k
  if tokens < 1 then (false, { r with buckets := r.buckets.set k ⟨tokens, now⟩ })
  else (true, { r with buckets := r.buckets.set k ⟨tokens - 1, now⟩ })

def take (r : RateLimiter) (key : Option String) : Bool × RateLimiter :=
  let r := if r.due now then { r.prune L now with lastPrune := now } else r
  r.draw L now (bucketKey key)

end RateLimiter

structure TakeCall where
  key : Option String
  now : ℚ
  deriving DecidableEq

/-- A call that was answered. -/
structure Served where
  key : String
  now : ℚ
  admitted : Bool
  deriving DecidableEq

/-- The limiter after some calls, and how they were answered. -/
structure LimiterRun where
  limiter : RateLimiter := .initial
  log : List Served := []
  deriving DecidableEq

namespace LimiterRun

variable (L : Limits)

def serve (s : LimiterRun) (c : TakeCall) : LimiterRun :=
  let (admitted, limiter) := s.limiter.take L c.now c.key
  { limiter, log := s.log ++ [⟨bucketKey c.key, c.now, admitted⟩] }

/-- The same call where nothing is ever pruned. -/
def serveUnpruned (s : LimiterRun) (c : TakeCall) : LimiterRun :=
  let (admitted, limiter) := s.limiter.draw L c.now (bucketKey c.key)
  { limiter, log := s.log ++ [⟨bucketKey c.key, c.now, admitted⟩] }

def of (calls : List TakeCall) : LimiterRun := calls.foldl (serve L) {}

def ofUnpruned (calls : List TakeCall) : LimiterRun := calls.foldl (serveUnpruned L) {}

end LimiterRun

/-- When a key's calls were admitted. -/
def admittedAt (k : String) (log : List Served) : List ℚ :=
  (log.filter fun x => x.key = k && x.admitted).map Served.now

/-- How many calls of a key were admitted from one moment to another. -/
def admittedBetween (k : String) (log : List Served) (s t : ℚ) : ℕ :=
  log.countP fun x => x.key = k && x.admitted && decide (s ≤ x.now) && decide (x.now ≤ t)

theorem admittedAt_concat (k : String) (log : List Served) (x : Served) :
    admittedAt k (log ++ [x]) =
      admittedAt k log ++ if x.key = k ∧ x.admitted = true then [x.now] else [] := by
  by_cases own : x.key = k ∧ x.admitted = true
  · simp [admittedAt, own]
  · have : (decide (x.key = k) && x.admitted) = false := by
      rw [Bool.and_eq_false_iff]
      by_cases key : x.key = k
      · exact .inr (by simpa [key] using own)
      · exact .inl (by simpa using key)
    simp [admittedAt, own, this]

theorem admittedBetween_le (k : String) (log : List Served) (s t : ℚ) :
    admittedBetween k log s t ≤ usedSince (admittedAt k log) s := by
  rw [usedSince, admittedAt, List.countP_map, List.countP_filter]
  refine List.countP_mono_left fun x _ holds => ?_
  simp only [Bool.and_eq_true, decide_eq_true_eq] at holds
  simp [holds]

namespace RateLimiter

variable {L : Limits} {r : RateLimiter} {log : List Served} {n n' : ℚ} {k : String}

theorem level_of_none (absent : r.buckets.get k = none) : r.level L n k = L.max := by
  simp [level, absent]

theorem level_of_some {b : TokenLevel} (found : r.buckets.get k = some b) :
    r.level L n k = min L.max (b.tokens + (n - b.last) * L.refillPerMs) := by
  simp [level, found]

/-- What a bucket holds later is what it holds now and what it gains. -/
theorem level_later (later : n ≤ n') (k : String) :
    r.level L n' k = min L.max (r.level L n k + L.refillPerMs * (n' - n)) := by
  have gain := mul_nonneg L.refillPerMs_nonneg (sub_nonneg.mpr later)
  cases found : r.buckets.get k with
  | none =>
    rw [level_of_none found, level_of_none found, min_eq_left (by linarith)]
  | some b =>
    have below : L.max ≤ L.max + L.refillPerMs * (n' - n) := by linarith
    have whole : b.tokens + (n - b.last) * L.refillPerMs + L.refillPerMs * (n' - n) =
        b.tokens + (n' - b.last) * L.refillPerMs := by ring
    rw [level_of_some found, level_of_some found, ← min_add_add_right, whole, ← min_assoc,
      min_eq_left below]

/-- What holds of a limiter that has answered the calls of a log. -/
structure Kept (L : Limits) (r : RateLimiter) (log : List Served) (n : ℚ) : Prop where
  exact' : ∀ k, L.law.Exact n (admittedAt k log) (r.level L n k)
  past : ∀ x ∈ log, x.now ≤ n
  last_le : ∀ k b, r.buckets.get k = some b → b.last ≤ n
  nonneg : ∀ k b, r.buckets.get k = some b → 0 ≤ b.tokens
  /-- a stored number is below a full bucket's, as it is written after a token was asked for -/
  spent : 1 ≤ L.max → ∀ k b, r.buckets.get k = some b → b.tokens < L.max
  /-- where a full bucket holds no token nothing is ever taken out -/
  whole : L.max < 1 → ∀ k b, r.buckets.get k = some b → b.tokens = L.max
  seen : ∀ k b, r.buckets.get k = some b → ∃ x ∈ log, x.key = k ∧ x.now = b.last

namespace Kept

theorem initial (L : Limits) (n : ℚ) : Kept L .initial [] n where
  exact' k := by
    rw [level_of_none (L := L) (n := n) (Keyed.get_empty k)]
    exact .full L.law n
  past _ mem := by cases mem
  last_le _ _ found := by cases found
  nonneg _ _ found := by cases found
  spent _ _ _ found := by cases found
  whole _ _ _ found := by cases found
  seen _ _ found := by cases found

variable (kept : Kept L r log n)
include kept

theorem level_of_low (low : L.max < 1) (k : String) : r.level L n k = L.max := by
  cases found : r.buckets.get k with
  | none => exact level_of_none found
  | some b =>
    have gain := mul_nonneg (sub_nonneg.mpr (kept.last_le k b found)) L.refillPerMs_nonneg
    rw [level_of_some found, kept.whole low k b found, min_eq_left (by linarith)]

theorem wait (later : n ≤ n') : Kept L r log n' where
  exact' k := by
    rw [level_later later]
    exact (kept.exact' k).wait later
  past x mem := (kept.past x mem).trans later
  last_le k b found := (kept.last_le k b found).trans later
  nonneg := kept.nonneg
  spent := kept.spent
  whole := kept.whole
  seen := kept.seen

/-- A bucket that stands at full holds what no bucket holds. -/
theorem level_prune (k : String) : (r.prune L n).level L n k = r.level L n k := by
  cases found : (r.prune L n).buckets.get k with
  | some b =>
    have there := (Keyed.mem_keepIf.mp (Keyed.get_eq_some.mp found)).1
    rw [level_of_some found, level_of_some (Keyed.get_eq_some.mpr there)]
  | none =>
    rw [level_of_none found]
    cases before : r.buckets.get k with
    | none => rw [level_of_none before]
    | some b =>
      have dropped : L.max ≤ b.tokens ∧ 600000 < n - b.last := by
        by_contra stays
        have there : (r.prune L n).buckets.get k = some b :=
          Keyed.get_eq_some.mpr (Keyed.mem_keepIf.mpr
            ⟨Keyed.get_eq_some.mp before, by rw [decide_eq_false stays]; rfl⟩)
        rw [found] at there
        cases there
      have gain := mul_nonneg (sub_nonneg.mpr (kept.last_le k b before)) L.refillPerMs_nonneg
      rw [level_of_some before, min_eq_left (by linarith [dropped.1])]

theorem prune (t : ℚ) : Kept L { r.prune L n with lastPrune := t } log n where
  exact' k := by
    have same : RateLimiter.level L n { r.prune L n with lastPrune := t } k = r.level L n k :=
      kept.level_prune k
    rw [same]
    exact kept.exact' k
  past := kept.past
  last_le k b found := kept.last_le k b
    (Keyed.get_eq_some.mpr (Keyed.mem_keepIf.mp (Keyed.get_eq_some.mp found)).1)
  nonneg k b found := kept.nonneg k b
    (Keyed.get_eq_some.mpr (Keyed.mem_keepIf.mp (Keyed.get_eq_some.mp found)).1)
  spent one k b found := kept.spent one k b
    (Keyed.get_eq_some.mpr (Keyed.mem_keepIf.mp (Keyed.get_eq_some.mp found)).1)
  whole low k b found := kept.whole low k b
    (Keyed.get_eq_some.mpr (Keyed.mem_keepIf.mp (Keyed.get_eq_some.mp found)).1)
  seen k b found := kept.seen k b
    (Keyed.get_eq_some.mpr (Keyed.mem_keepIf.mp (Keyed.get_eq_some.mp found)).1)

end Kept

theorem draw_fst (L : Limits) (r : RateLimiter) (n : ℚ) (k : String) :
    (r.draw L n k).1 = decide (1 ≤ r.level L n k) := by
  unfold draw
  by_cases empty : r.level L n k < 1
  · rw [if_pos empty, decide_eq_false (not_le.mpr empty)]
  · rw [if_neg empty, decide_eq_true (not_lt.mp empty)]

theorem get_draw (L : Limits) (r : RateLimiter) (n : ℚ) (k k' : String) :
    (r.draw L n k).2.buckets.get k' =
      if k' = k then some ⟨r.level L n k - if 1 ≤ r.level L n k then 1 else 0, n⟩
      else r.buckets.get k' := by
  unfold draw
  by_cases empty : r.level L n k < 1
  · rw [if_pos empty, if_neg (not_le.mpr empty), sub_zero]
    exact Keyed.get_set r.buckets k k' _
  · rw [if_neg empty, if_pos (not_lt.mp empty)]
    exact Keyed.get_set r.buckets k k' _

theorem level_le (L : Limits) (r : RateLimiter) (n : ℚ) (k : String) : r.level L n k ≤ L.max :=
  min_le_left _ _

/-- Who else draws leaves a bucket as it is. -/
theorem level_draw_of_ne {k' : String} (other : k' ≠ k) :
    (r.draw L n k).2.level L n' k' = r.level L n' k' := by
  unfold level
  rw [get_draw, if_neg other]

theorem level_draw_self (L : Limits) (r : RateLimiter) (n : ℚ) (k : String) :
    (r.draw L n k).2.level L n k = r.level L n k - if 1 ≤ r.level L n k then 1 else 0 := by
  have cap := level_le L r n k
  have found := get_draw L r n k k
  rw [if_pos rfl] at found
  rw [level_of_some found, sub_self, zero_mul, add_zero]
  refine min_eq_right ?_
  split <;> linarith

theorem Kept.draw (kept : Kept L r log n) (k : String) :
    Kept L (r.draw L n k).2 (log ++ [⟨k, n, (r.draw L n k).1⟩]) n where
  exact' k' := by
    rw [admittedAt_concat]
    have before := kept.exact' k'
    by_cases own : k' = k
    · subst own
      rw [level_draw_self, draw_fst]
      by_cases holds : 1 ≤ r.level L n k'
      · rw [if_pos holds, if_pos ⟨rfl, decide_eq_true holds⟩]
        exact before.give holds
      · rw [if_neg holds, if_neg (fun given => holds (of_decide_eq_true given.2)), sub_zero,
          List.append_nil]
        exact before
    · rw [level_draw_of_ne own, if_neg (fun given => own given.1.symm), List.append_nil]
      exact before
  past x mem := by
    rcases List.mem_append.mp mem with old | new
    · exact kept.past x old
    · rw [List.mem_singleton.mp new]
  last_le k' b found := by
    rw [get_draw] at found
    split at found
    · obtain rfl := Option.some.inj found
      exact le_rfl
    · exact kept.last_le k' b found
  nonneg k' b found := by
    rw [get_draw] at found
    split at found
    · obtain rfl := Option.some.inj found
      have left := (kept.exact' k).nonneg
      change 0 ≤ r.level L n k - _
      split <;> linarith
    · exact kept.nonneg k' b found
  spent one k' b found := by
    rw [get_draw] at found
    split at found
    · obtain rfl := Option.some.inj found
      change r.level L n k - _ < L.max
      have cap := level_le L r n k
      split <;> linarith
    · exact kept.spent one k' b found
  whole low k' b found := by
    rw [get_draw] at found
    split at found
    · obtain rfl := Option.some.inj found
      change r.level L n k - _ = L.max
      rw [kept.level_of_low low, if_neg (not_le.mpr low), sub_zero]
    · exact kept.whole low k' b found
  seen k' b found := by
    rw [get_draw] at found
    split at found
    · rename_i own
      obtain rfl := Option.some.inj found
      exact ⟨_, List.mem_append_right _ (List.mem_singleton.mpr rfl), own.symm, rfl⟩
    · obtain ⟨x, mem, is⟩ := kept.seen k' b found
      exact ⟨x, List.mem_append_left _ mem, is⟩

/-- A call is admitted exactly where its bucket holds a token, whether it is pruned first or not. -/
theorem Kept.take_fst (kept : Kept L r log n) (key : Option String) :
    (r.take L n key).1 = decide (1 ≤ r.level L n (bucketKey key)) := by
  unfold take
  split
  · rw [draw_fst]
    exact congrArg (fun e => decide ((1 : ℚ) ≤ e)) (kept.level_prune _)
  · exact draw_fst ..

/-- What the buckets hold after a call, by what they held before it. -/
theorem level_draw (L : Limits) (r : RateLimiter) (n : ℚ) (k k' : String) :
    (r.draw L n k).2.level L n k' =
      r.level L n k' - if k' = k ∧ 1 ≤ r.level L n k then 1 else 0 := by
  by_cases own : k' = k
  · rw [own, level_draw_self]
    simp only [true_and]
  · rw [level_draw_of_ne own, if_neg (fun given => own given.1), sub_zero]

theorem Kept.level_take (kept : Kept L r log n) (key : Option String) (k : String) :
    (r.take L n key).2.level L n k = (r.draw L n (bucketKey key)).2.level L n k := by
  unfold RateLimiter.take
  split
  · have same (k' : String) :
        RateLimiter.level L n { r.prune L n with lastPrune := n } k' = r.level L n k' :=
      kept.level_prune k'
    rw [level_draw, level_draw, same, same]
  · rfl

theorem Kept.take (kept : Kept L r log n) (key : Option String) :
    Kept L (r.take L n key).2 (log ++ [⟨bucketKey key, n, (r.take L n key).1⟩]) n := by
  unfold RateLimiter.take
  split
  · exact (kept.prune n).draw _
  · exact kept.draw _

end RateLimiter

namespace LimiterRun

variable {L : Limits} {calls : List TakeCall} {n : ℚ}

theorem of_concat (calls : List TakeCall) (c : TakeCall) :
    of L (calls ++ [c]) = serve L (of L calls) c :=
  List.foldl_concat ..

theorem ofUnpruned_concat (calls : List TakeCall) (c : TakeCall) :
    ofUnpruned L (calls ++ [c]) = serveUnpruned L (ofUnpruned L calls) c :=
  List.foldl_concat ..

theorem log_concat (calls : List TakeCall) (c : TakeCall) :
    (of L (calls ++ [c])).log = (of L calls).log ++
      [⟨bucketKey c.key, c.now, ((of L calls).limiter.take L c.now c.key).1⟩] := by
  rw [of_concat]
  rfl

/-- Calls that come one after the other in time. -/
def Ordered (calls : List TakeCall) : Prop := calls.Pairwise fun c c' => c.now ≤ c'.now

theorem Ordered.concat {c : TakeCall} (ordered : Ordered (calls ++ [c])) :
    Ordered calls ∧ ∀ x ∈ calls, x.now ≤ c.now := by
  obtain ⟨front, -, past⟩ := List.pairwise_append.mp ordered
  exact ⟨front, fun x mem => past x mem c (List.mem_singleton.mpr rfl)⟩

theorem kept_of (ordered : Ordered calls) (past : ∀ c ∈ calls, c.now ≤ n) :
    (of L calls).limiter.Kept L (of L calls).log n := by
  induction calls using List.reverseRecOn generalizing n with
  | nil => exact .initial L n
  | append_singleton calls c ih =>
    obtain ⟨front, before⟩ := ordered.concat
    rw [of_concat]
    exact ((ih front before).take c.key).wait (past c (by simp))

/-- Each call stands in the log under its key and its time. -/
theorem map_log (L : Limits) (calls : List TakeCall) :
    (of L calls).log.map (fun x => (x.key, x.now)) =
      calls.map fun c => (bucketKey c.key, c.now) := by
  induction calls using List.reverseRecOn with
  | nil => rfl
  | append_singleton calls c ih =>
    rw [log_concat, List.map_append, ih, List.map_append]
    rfl

theorem fair (ordered : Ordered calls) {i : ℕ} {x : Served}
    (is : (of L calls).log[i]? = some x) :
    x.admitted = true ↔ ∀ s ≤ x.now,
      (usedSince (admittedAt x.key ((of L calls).log.take i)) s : ℚ) + 1 ≤
        L.max + L.refillPerMs * (x.now - s) := by
  induction calls using List.reverseRecOn generalizing i with
  | nil => cases is
  | append_singleton calls c ih =>
    obtain ⟨front, before⟩ := ordered.concat
    rw [log_concat] at is ⊢
    obtain early | late := Nat.lt_or_ge i (of L calls).log.length
    · rw [List.getElem?_append_left early] at is
      rw [List.take_append_of_le_length early.le]
      exact ih front is
    · rw [List.getElem?_append_right late] at is
      obtain ⟨here, rfl⟩ := List.getElem?_eq_some_iff.mp is
      obtain rfl : i = (of L calls).log.length := by
        rw [List.length_singleton] at here
        omega
      have kept := kept_of (L := L) front before
      rw [List.take_left]
      simp only [Nat.sub_self, List.getElem_cons_zero]
      rw [kept.take_fst, decide_eq_true_iff]
      exact (kept.exact' _).holds_iff

theorem window (ordered : Ordered calls) (k : String) {s t : ℚ} (stretch : s ≤ t) :
    (admittedBetween k (of L calls).log s t : ℚ) ≤ L.max + L.refillPerMs * (t - s) := by
  have gain := mul_nonneg L.refillPerMs_nonneg (sub_nonneg.mpr stretch)
  have room : (0 : ℚ) ≤ L.max + L.refillPerMs * (t - s) := add_nonneg L.max_nonneg gain
  induction calls using List.reverseRecOn with
  | nil => simpa [admittedBetween, of] using room
  | append_singleton calls c ih =>
    obtain ⟨front, before⟩ := ordered.concat
    have kept := kept_of (L := L) ordered (n := c.now) fun x mem => by
      rcases List.mem_append.mp mem with old | new
      · exact before x old
      · rw [List.mem_singleton.mp new]
    obtain inside | outside := le_or_gt c.now t
    · have fewer := admittedBetween_le k (of L (calls ++ [c])).log s t
      obtain begun | later := le_or_gt s c.now
      · have used := (kept.exact' k).used_le begun
        have gain := mul_le_mul_of_nonneg_left (sub_le_sub_right inside s) L.refillPerMs_nonneg
        have fewer' : (admittedBetween k (of L (calls ++ [c])).log s t : ℚ) ≤
            usedSince (admittedAt k (of L (calls ++ [c])).log) s := Nat.cast_le.mpr fewer
        exact fewer'.trans (used.trans (by unfold TokenLaw.room Limits.law; linarith))
      · have none := usedSince_of_past fun t mem => ((kept.exact' k).past t mem).trans_lt later
        rw [none] at fewer
        rw [Nat.le_zero.mp fewer, Nat.cast_zero]
        exact room
    · rw [log_concat, admittedBetween, List.countP_append, List.countP_singleton,
        if_neg (by simp [not_le.mpr outside]), add_zero]
      exact ih front

/-- Without pruning every bucket holds what it holds with it. -/
theorem unpruned (ordered : Ordered calls) (past : ∀ c ∈ calls, c.now ≤ n) :
    (of L calls).log = (ofUnpruned L calls).log ∧
      ∀ k, (of L calls).limiter.level L n k = (ofUnpruned L calls).limiter.level L n k := by
  induction calls using List.reverseRecOn generalizing n with
  | nil => exact ⟨rfl, fun _ => rfl⟩
  | append_singleton calls c ih =>
    obtain ⟨front, before⟩ := ordered.concat
    obtain ⟨logs, levels⟩ := ih front before
    have kept := kept_of (L := L) front before
    have answer : ((of L calls).limiter.take L c.now c.key).1 =
        ((ofUnpruned L calls).limiter.draw L c.now (bucketKey c.key)).1 := by
      rw [kept.take_fst, RateLimiter.draw_fst, levels]
    refine ⟨?_, fun k => ?_⟩
    · rw [log_concat, logs, answer, ofUnpruned_concat]
      rfl
    · have later := past c (by simp)
      rw [of_concat, ofUnpruned_concat, RateLimiter.level_later later,
        RateLimiter.level_later (r := (serveUnpruned L _ c).limiter) later]
      have same := kept.level_take c.key k
      rw [RateLimiter.level_draw, levels, levels, ← RateLimiter.level_draw] at same
      exact congrArg (fun e => min L.max (e + L.refillPerMs * (n - c.now))) same

end LimiterRun

/-- What the limiter promises of a run. -/
structure LimiterPromises (L : Limits) (calls : List TakeCall) : Prop where
  /-- in a window of any length no more are admitted than the burst and its refill -/
  window : ∀ k s t, s ≤ t →
    (admittedBetween k (LimiterRun.of L calls).log s t : ℚ) ≤ L.max + L.refillPerMs * (t - s)
  /-- a call is refused only where the key has used that up in some window that ends with it -/
  fair : ∀ i x, (LimiterRun.of L calls).log[i]? = some x →
    (x.admitted = true ↔ ∀ s ≤ x.now,
      (usedSince (admittedAt x.key ((LimiterRun.of L calls).log.take i)) s : ℚ) + 1 ≤
        L.max + L.refillPerMs * (x.now - s))
  /-- pruning changes no answer -/
  unpruned : (LimiterRun.of L calls).log = (LimiterRun.ofUnpruned L calls).log
  /-- a bucket that is full again is dropped by the next prune -/
  dropped : ∀ i c, calls[i]? = some c → ∀ r, r = (LimiterRun.of L (calls.take i)).limiter →
    r.due c.now = true → ∀ k b, r.buckets.get k = some b →
      L.max ≤ b.tokens + (c.now - b.last) * L.refillPerMs →
        (r.prune L c.now).buckets.get k = none
  /-- what a prune leaves are buckets of keys seen recently -/
  recent : ∀ i c, calls[i]? = some c → ∀ r, r = (LimiterRun.of L (calls.take i)).limiter →
    r.due c.now = true → ∀ k ∈ (r.prune L c.now).buckets.keys,
      ∃ c' ∈ calls.take i, bucketKey c'.key = k ∧ (c.now - c'.now) * L.refillPerMs < L.max

/-- At each prune no bucket is full again, or the burst is below one token and every such bucket
was left alone for ten minutes. -/
def NoneFullAgain (L : Limits) (calls : List TakeCall) : Prop :=
  ∀ i c, calls[i]? = some c → ∀ r, r = (LimiterRun.of L (calls.take i)).limiter →
    r.due c.now = true → ∀ k b, r.buckets.get k = some b →
      L.max ≤ b.tokens + (c.now - b.last) * L.refillPerMs →
        L.max < 1 ∧ 600000 < c.now - b.last

section

variable {L : Limits} {calls : List TakeCall}

namespace RateLimiter.Kept

variable {r : RateLimiter} {log : List Served} {n : ℚ} {k : String} {b : TokenLevel}

/-- A bucket is dropped where its stored number is a full bucket's, which it is where no token can
be asked of it. -/
theorem get_prune_eq_none (kept : Kept L r log n) (found : r.buckets.get k = some b) :
    (r.prune L n).buckets.get k = none ↔ L.max < 1 ∧ 600000 < n - b.last := by
  have stays : (k, b) ∈ (r.prune L n).buckets.entries ↔
      ¬ (L.max ≤ b.tokens ∧ 600000 < n - b.last) := by
    rw [RateLimiter.prune, Keyed.mem_keepIf, Bool.not_eq_true', decide_eq_false_iff_not]
    exact and_iff_right (Keyed.get_eq_some.mp found)
  have stored : L.max ≤ b.tokens ↔ L.max < 1 := by
    obtain low | one := lt_or_ge L.max 1
    · exact iff_of_true (kept.whole low k b found).ge low
    · exact iff_of_false (not_le.mpr (kept.spent one k b found)) (not_lt.mpr one)
  rw [← stored, ← not_iff_not, ← stays, ← Keyed.get_eq_some]
  constructor
  · intro remains
    obtain ⟨b', there⟩ := Option.ne_none_iff_exists'.mp remains
    have old := Keyed.get_eq_some.mpr (Keyed.mem_keepIf.mp (Keyed.get_eq_some.mp there)).1
    rw [found] at old
    rw [Option.some.inj old, there]
  · intro there none
    rw [none] at there
    cases there

/-- What a prune leaves is not full again, so its key was seen not long ago. -/
theorem recent (kept : Kept L r log n)
    (dropped : ∀ k b, r.buckets.get k = some b →
      L.max ≤ b.tokens + (n - b.last) * L.refillPerMs → (r.prune L n).buckets.get k = none)
    (mem : k ∈ (r.prune L n).buckets.keys) :
    ∃ x ∈ log, x.key = k ∧ (n - x.now) * L.refillPerMs < L.max := by
  obtain ⟨b, there⟩ := Option.isSome_iff_exists.mp (Keyed.mem_keys_iff_isSome.mp mem)
  have found := Keyed.get_eq_some.mpr (Keyed.mem_keepIf.mp (Keyed.get_eq_some.mp there)).1
  obtain ⟨x, inLog, own, time⟩ := kept.seen k b found
  refine ⟨x, inLog, own, ?_⟩
  by_contra full
  have held := kept.nonneg k b found
  rw [time, not_lt] at full
  rw [dropped k b found (by linarith)] at there
  cases there

end RateLimiter.Kept

namespace LimiterRun

theorem Ordered.take (ordered : Ordered calls) {i : ℕ} {c : TakeCall} (is : calls[i]? = some c) :
    Ordered (calls.take i) ∧ ∀ c' ∈ calls.take i, c'.now ≤ c.now := by
  obtain ⟨inside, rfl⟩ := List.getElem?_eq_some_iff.mp is
  have front : Ordered (calls.take (i + 1)) := ordered.sublist (List.take_sublist _ _)
  rw [List.take_succ_eq_append_getElem inside] at front
  exact front.concat

theorem exists_call {i : ℕ} {x : Served} (mem : x ∈ (of L (calls.take i)).log) :
    ∃ c ∈ calls.take i, bucketKey c.key = x.key ∧ c.now = x.now := by
  have listed := List.mem_map_of_mem (f := fun x : Served => (x.key, x.now)) mem
  rw [map_log] at listed
  obtain ⟨c, there, same⟩ := List.mem_map.mp listed
  exact ⟨c, there, Prod.ext_iff.mp same⟩

end LimiterRun

/-- Every promise is kept in every run but the one about full buckets, which are dropped exactly
where no prune meets a bucket that is full again, or none holds a token at all. -/
theorem promises_iff (ordered : LimiterRun.Ordered calls) :
    LimiterPromises L calls ↔ NoneFullAgain L calls := by
  have kept {i : ℕ} {c : TakeCall} (is : calls[i]? = some c) :=
    LimiterRun.kept_of (L := L) (ordered.take is).1 (ordered.take is).2
  constructor
  · rintro promises i c is r rfl due k b found full
    exact ((kept is).get_prune_eq_none found).mp (promises.dropped i c is _ rfl due k b found full)
  · intro nothing
    have dropped (i : ℕ) (c : TakeCall) (is : calls[i]? = some c) (r : RateLimiter)
        (at' : r = (LimiterRun.of L (calls.take i)).limiter)
        (due : r.due c.now = true) (k : String) (b : TokenLevel) (found : r.buckets.get k = some b)
        (full : L.max ≤ b.tokens + (c.now - b.last) * L.refillPerMs) :
        (r.prune L c.now).buckets.get k = none := by
      subst at'
      exact ((kept is).get_prune_eq_none found).mpr (nothing i c is _ rfl due k b found full)
    refine
      { window := fun k s t => LimiterRun.window ordered k
        fair := fun i x => LimiterRun.fair ordered
        unpruned := ?_
        dropped
        recent := ?_ }
    · cases calls using List.reverseRecOn with
      | nil => rfl
      | append_singleton calls c =>
        refine (LimiterRun.unpruned (n := c.now) ordered fun x mem => ?_).1
        rcases List.mem_append.mp mem with old | new
        · exact ordered.concat.2 x old
        · rw [List.mem_singleton.mp new]
    · rintro i c is r rfl due k mem
      obtain ⟨x, inLog, own, near⟩ := (kept is).recent (dropped i c is _ rfl due) mem
      obtain ⟨c', there, key, time⟩ := LimiterRun.exists_call inLog
      exact ⟨c', there, key.trans own, time ▸ near⟩

/-- A hundred and twenty calls a minute, as the limiter is set up where nothing is said. -/
def usualLimits : Limits where
  perMinute_nonneg := by norm_num
  max_nonneg := by norm_num

theorem promises_two_calls :
    LimiterPromises usualLimits [⟨some "a@acme", 400000⟩, ⟨some "a@acme", 400001⟩] := by
  refine (promises_iff (by norm_num [LimiterRun.Ordered])).mpr ?_
  rintro i c is r rfl due k b found -
  rcases i with _ | _ | i
  · cases found
  · obtain rfl := Option.some.inj is
    have quiet : ((LimiterRun.of usualLimits [⟨some "a@acme", 400000⟩]).limiter.due 400001) =
        false := by decide +kernel
    exact absurd due (by rw [Bool.not_eq_true]; exact quiet)
  · cases is

/-- A key that left more than ten minutes ago, its bucket full again, is still there after a
prune. -/
theorem who_left_is_not_forgotten : ¬ ∀ (L : Limits) (calls : List TakeCall),
    LimiterRun.Ordered calls → LimiterPromises L calls := by
  intro all
  have promises := all usualLimits [⟨some "a@acme", 1⟩, ⟨some "b@acme", 700001⟩]
    (by norm_num [LimiterRun.Ordered])
  have gone := promises.dropped 1 ⟨some "b@acme", 700001⟩ rfl _ rfl (by decide +kernel) "a@acme"
    ⟨119, 1⟩ (by decide +kernel) (by decide +kernel)
  revert gone
  decide +kernel

end

end Clearotron
