import Mathlib.Data.List.Infix

/-!
# Chains of words

A chain is a word pattern and, behind it, further patterns, each within so many words of the
one before. It reads a text where its patterns stand in order and that near. A chain that
reads a phrase without some of its words also reads every text that holds the other words of
the phrase, in order and no farther apart: the words it passed over may be any, or missing.
-/

namespace Clearotron

structure Chain (P : Type*) where
  head : P
  /-- the patterns behind it, each with its distance -/
  rest : List (ℕ × P)
  deriving DecidableEq, Repr

namespace Chain

variable {P W : Type*} (hits : P → W → Bool)

/-- The patterns stand in the text, the first of them within `room` words where that is
asked. -/
inductive Reads : Option ℕ → P → List (ℕ × P) → List W → Prop
  | last {room p} (before : List W) (w : W) (after : List W) (near : ∀ n ∈ room, before.length < n)
      (hit : hits p w = true) : Reads room p [] (before ++ w :: after)
  | next {room p g q rest} (before : List W) (w : W) (after : List W)
      (near : ∀ n ∈ room, before.length < n) (hit : hits p w = true)
      (behind : Reads (some g) q rest after) : Reads room p ((g, q) :: rest) (before ++ w :: after)

/-- A loop over the words, as long as there is room, that goes on behind each hit. -/
def seek (hit : W → Bool) (behind : List W → Bool) : Option ℕ → List W → Bool
  | _, [] => false
  | room, w :: ws =>
    if room = some 0 then false
    else (hit w && behind ws) || seek hit behind (room.map (· - 1)) ws

def readsFrom : Option ℕ → P → List (ℕ × P) → List W → Bool
  | room, p, [] => seek (hits p) (fun _ => true) room
  | room, p, (g, q) :: rest => seek (hits p) (readsFrom (some g) q rest) room

/-- Does the chain read the text, anywhere in it? -/
def reads (c : Chain P) (ws : List W) : Bool := readsFrom hits none c.head c.rest ws

variable {hits}

theorem near_succ {room : Option ℕ} (some_room : room ≠ some 0) {k : ℕ} :
    (∀ n ∈ room, k + 1 < n) ↔ ∀ n ∈ room.map (· - 1), k < n := by
  cases room with
  | none => simp
  | some n =>
      have pos : n ≠ 0 := fun zero => some_room (congrArg some zero)
      simp only [Option.mem_def, Option.some.injEq, forall_eq', Option.map_some]
      omega

/-- The loop finds the hits within its room. -/
theorem seek_iff {hit : W → Bool} {behind : List W → Bool} {room : Option ℕ} {ws : List W} :
    seek hit behind room ws = true ↔
      ∃ before w after, ws = before ++ w :: after ∧ (∀ n ∈ room, before.length < n) ∧
        hit w = true ∧ behind after = true := by
  induction ws generalizing room with
  | nil => simp [seek]
  | cons v ws ih =>
      unfold seek
      split
      · rename_i full
        simp only [Bool.false_eq_true, false_iff]
        rintro ⟨before, w, after, -, near, -⟩
        exact absurd (near 0 full) (Nat.not_lt_zero _)
      · rename_i some_room
        rw [Bool.or_eq_true, Bool.and_eq_true, ih]
        constructor
        · rintro (⟨hit, behind⟩ | ⟨before, w, after, rfl, near, found⟩)
          · refine ⟨[], v, ws, rfl, ?_, hit, behind⟩
            intro n mem
            exact Nat.pos_of_ne_zero fun zero => some_room (zero ▸ mem)
          · exact ⟨v :: before, w, after, rfl, (near_succ some_room).mpr near, found⟩
        · rintro ⟨before, w, after, split, near, hit, behind⟩
          cases before with
          | nil =>
              obtain ⟨rfl, rfl⟩ := List.cons.inj split
              exact .inl ⟨hit, behind⟩
          | cons u before =>
              obtain ⟨rfl, rfl⟩ := List.cons.inj split
              exact .inr ⟨before, w, after, rfl, (near_succ some_room).mp near, hit, behind⟩

/-- The loops find a chain where it stands. -/
theorem readsFrom_iff {room : Option ℕ} {p : P} {rest : List (ℕ × P)} {ws : List W} :
    readsFrom hits room p rest ws = true ↔ Reads hits room p rest ws := by
  induction rest generalizing room p ws with
  | nil =>
      rw [readsFrom, seek_iff]
      constructor
      · rintro ⟨before, w, after, rfl, near, hit, -⟩
        exact .last before w after near hit
      · rintro ⟨before, w, after, near, hit⟩
        exact ⟨before, w, after, rfl, near, hit, rfl⟩
  | cons step rest ih =>
      obtain ⟨g, q⟩ := step
      rw [readsFrom, seek_iff]
      constructor
      · rintro ⟨before, w, after, rfl, near, hit, behind⟩
        exact .next before w after near hit (ih.mp behind)
      · rintro (_ | ⟨before, w, after, near, hit, behind⟩)
        exact ⟨before, w, after, rfl, near, hit, ih.mpr behind⟩

theorem reads_iff {c : Chain P} {ws : List W} :
    reads hits c ws = true ↔ Reads hits none c.head c.rest ws := readsFrom_iff

namespace Reads

variable {room : Option ℕ} {p : P} {rest : List (ℕ × P)} {ws : List W}

/-- More room, and more words in front and behind. -/
theorem widen {room' : Option ℕ} {front : List W} (found : Reads hits room p rest ws)
    (back : List W)
    (roomy : ∀ k, (∀ n ∈ room, k < n) → ∀ n ∈ room', front.length + k < n) :
    Reads hits room' p rest (front ++ ws ++ back) := by
  induction found generalizing room' front with
  | last before w after near hit =>
      have split : front ++ (before ++ w :: after) ++ back =
          (front ++ before) ++ w :: (after ++ back) := by simp
      rw [split]
      refine .last _ w _ ?_ hit
      rw [List.length_append]
      exact roomy before.length near
  | @next room p g q rest before w after near hit behind ih =>
      have split : front ++ (before ++ w :: after) ++ back =
          (front ++ before) ++ w :: ([] ++ after ++ back) := by simp
      rw [split]
      refine .next _ w _ ?_ hit (ih fun k near n mem => ?_)
      · rw [List.length_append]
        exact roomy before.length near
      · rw [List.length_nil, Nat.zero_add]
        exact near n mem

/-- A word more of room. -/
theorem roomier (found : Reads hits (room.map (· - 1)) p rest ws) (some_room : room ≠ some 0) :
    Reads hits room p rest ws := by
  have wide := @widen _ _ _ _ _ _ _ room [] found [] fun k near n mem => ?_
  · simpa using wide
  · have next := (near_succ some_room).mpr near n mem
    rw [List.length_nil, Nat.zero_add]
    exact Nat.lt_of_succ_lt next

theorem cons_iff {v : W} :
    Reads hits room p rest (v :: ws) ↔
      room ≠ some 0 ∧
        ((hits p v = true ∧ ∀ s ∈ rest.head?, Reads hits (some s.1) s.2 rest.tail ws) ∨
          Reads hits (room.map (· - 1)) p rest ws) := by
  rw [← readsFrom_iff]
  by_cases full : room = some 0
  · cases rest <;> simp [readsFrom, seek, full]
  · cases rest with
    | nil => simp [← readsFrom_iff, readsFrom, seek, full]
    | cons s rest => simp [← readsFrom_iff, readsFrom, seek, full]

theorem not_nil : ¬ Reads hits room p rest [] := by
  rw [← readsFrom_iff]
  cases rest <;> simp [readsFrom, seek]

/-- The head of a chain stands somewhere, and the rest of the chain behind it. -/
theorem split (found : Reads hits room p rest ws) :
    ∃ before w after, ws = before ++ w :: after ∧ (∀ n ∈ room, before.length < n) ∧
      hits p w = true ∧ ∀ s ∈ rest.head?, Reads hits (some s.1) s.2 rest.tail after := by
  cases found with
  | last before w after near hit => exact ⟨before, w, after, rfl, near, hit, by simp⟩
  | next before w after near hit behind =>
      exact ⟨before, w, after, rfl, near, hit, by simpa using behind⟩

end Reads

section

variable (passed : W → Bool) (wrap : Bool → Bool → W → P)

/-- The chain behind the words of a phrase so far: a word that is passed over widens the
distance to the next. A pattern knows whether it is the first and whether it is the last. -/
def phraseRest : ℕ → List W → List (ℕ × P)
  | _, [] => []
  | pending, w :: ws =>
    if passed w then phraseRest (pending + 1) ws
    else (pending, wrap false (ws.all passed) w) :: phraseRest 1 ws

/-- The chain of a phrase, where it has a word to ask for. -/
def ofPhrase : List W → Option (Chain P)
  | [] => none
  | w :: ws =>
    if passed w then ofPhrase ws
    else some { head := wrap true (ws.all passed) w, rest := phraseRest passed wrap 1 ws }

def lastFrom : P → List (ℕ × P) → P
  | p, [] => p
  | _, (_, q) :: rest => lastFrom q rest

/-- The last pattern of a chain. -/
def last (c : Chain P) : P := lastFrom c.head c.rest

/-- The hits on the words of a phrase that are not passed over. -/
def keptHits (hits : P → W → Bool) (p : P) (w : W) : Bool := !passed w && hits p w

variable (Widens : Bool → Bool → W → W → Prop)

/-- A text with the kept words of a phrase, widened, in their order and no farther apart.
The first flag says that no kept word stood before. -/
inductive Shrinks : Bool → List W → List W → Prop
  | nil {front} : Shrinks front [] []
  | keep {front k w phrase text} (kept : passed k = false)
      (widens : Widens front (phrase.all passed) k w) (tail : Shrinks false phrase text) :
      Shrinks front (k :: phrase) (w :: text)
  | swap {front r w phrase text} (pass : passed r = true) (tail : Shrinks front phrase text) :
      Shrinks front (r :: phrase) (w :: text)
  | drop {front r phrase text} (pass : passed r = true) (tail : Shrinks front phrase text) :
      Shrinks front (r :: phrase) text

end

section

variable {passed : W → Bool} {wrap : Bool → Bool → W → P} {Widens : Bool → Bool → W → W → Prop}
  {room : Option ℕ} {p : P} {rest : List (ℕ × P)} {phrase text : List W}

theorem not_reads_of_passed (all : phrase.all passed = true) :
    ¬ Reads (keptHits passed hits) room p rest phrase := by
  intro found
  obtain ⟨before, w, after, rfl, -, hit, -⟩ := found.split
  have pass : passed w = true := List.all_eq_true.mp all w (by simp)
  simp [keptHits, pass] at hit

/-- A chain that reads the kept words of a phrase reads what the phrase shrinks to, where
its first pattern bears a widening in front and its last one behind. -/
theorem Shrinks.reads {front : Bool} {opens closes : P → Prop}
    (carries : ∀ front back p k w, (front = true → opens p) → (back = true → closes p) →
      Widens front back k w → hits p k = true → hits p w = true)
    (shrinks : Shrinks passed Widens front phrase text)
    (opening : front = true → opens p) (closing : closes (lastFrom p rest))
    (found : Reads (keptHits passed hits) room p rest phrase) : Reads hits room p rest text := by
  induction shrinks generalizing room p rest with
  | nil => exact absurd found Reads.not_nil
  | @keep front k w phrase text kept widens tail ih =>
      rw [Reads.cons_iff] at found ⊢
      obtain ⟨some_room, ⟨hit, behind⟩ | skip⟩ := found
      · have closesHere : phrase.all passed = true → closes p := by
          intro all
          cases rest with
          | nil => exact closing
          | cons s rest => exact absurd (behind s rfl) (not_reads_of_passed all)
        have hitKept : hits p k = true := by simpa [keptHits, kept] using hit
        refine ⟨some_room, .inl ⟨carries _ _ p k w opening closesHere widens hitKept, ?_⟩⟩
        intro s mem
        cases rest with
        | nil => cases mem
        | cons s' rest =>
            obtain rfl := Option.some.inj mem
            exact ih nofun closing (behind s' rfl)
      · exact ⟨some_room, .inr (ih nofun closing skip)⟩
  | @swap front r w phrase text pass tail ih =>
      rw [Reads.cons_iff] at found ⊢
      obtain ⟨some_room, ⟨hit, -⟩ | skip⟩ := found
      · simp [keptHits, pass] at hit
      · exact ⟨some_room, .inr (ih opening closing skip)⟩
  | @drop front r phrase text pass tail ih =>
      rw [Reads.cons_iff] at found
      obtain ⟨some_room, ⟨hit, -⟩ | skip⟩ := found
      · simp [keptHits, pass] at hit
      · exact (ih opening closing skip).roomier some_room

variable (widens : ∀ front back k w, hits (wrap front back k) w = true → Widens front back k w)

include widens

theorem shrinks_of_rest {pending : ℕ}
    (found : ∀ s ∈ (phraseRest passed wrap (pending + 1) phrase).head?,
      Reads hits (some s.1) s.2 (phraseRest passed wrap (pending + 1) phrase).tail text) :
    ∃ before kept after, text = before ++ kept ++ after ∧ before.length ≤ pending ∧
      Shrinks passed Widens false phrase kept := by
  induction phrase generalizing pending text with
  | nil => exact ⟨[], [], text, rfl, Nat.zero_le _, .nil⟩
  | cons v phrase ih =>
      unfold phraseRest at found
      split at found
      · rename_i pass
        obtain ⟨before, kept, after, rfl, short, shrinks⟩ := ih found
        -- one word more in front than there is room for stands for the word passed over
        rcases Nat.lt_or_ge pending before.length with long | fits
        · obtain ⟨before, x, rfl⟩ := List.eq_nil_or_concat' before |>.resolve_left
            (by rintro rfl; exact absurd long (Nat.not_lt_zero _))
          refine ⟨before, x :: kept, after, by simp, ?_, .swap pass shrinks⟩
          rw [List.length_append, List.length_singleton] at short
          exact Nat.le_of_succ_le_succ short
        · exact ⟨before, kept, after, rfl, fits, .drop pass shrinks⟩
      · rename_i kept
        obtain ⟨before, w, after, rfl, near, hit, behind⟩ := (found _ rfl).split
        obtain ⟨lead, text, last, rfl, empty, shrinks⟩ := ih behind
        obtain rfl := List.eq_nil_of_length_eq_zero (Nat.le_zero.mp empty)
        refine ⟨before, w :: text, last, by simp, ?_, ?_⟩
        · exact Nat.le_of_lt_succ (near _ rfl)
        · exact .keep (Bool.eq_false_iff.mpr kept) (widens _ _ _ _ hit) shrinks

/-- What the chain of a phrase reads holds the kept words of the phrase. -/
theorem shrinks_of_phrase {c : Chain P} (isChain : ofPhrase passed wrap phrase = some c)
    (found : reads hits c text = true) :
    ∃ before kept after, text = before ++ kept ++ after ∧
      Shrinks passed Widens true phrase kept := by
  induction phrase with
  | nil => cases isChain
  | cons v phrase ih =>
      unfold ofPhrase at isChain
      split at isChain
      · rename_i pass
        obtain ⟨before, kept, after, split, shrinks⟩ := ih isChain
        exact ⟨before, kept, after, split, .drop pass shrinks⟩
      · rename_i kept
        obtain rfl := Option.some.inj isChain
        obtain ⟨before, w, after, rfl, -, hit, behind⟩ := (reads_iff.mp found).split
        obtain ⟨lead, text, last, rfl, empty, shrinks⟩ := shrinks_of_rest widens behind
        obtain rfl := List.eq_nil_of_length_eq_zero (Nat.le_zero.mp empty)
        exact ⟨before, w :: text, last, by simp,
          .keep (Bool.eq_false_iff.mpr kept) (widens _ _ _ _ hit) shrinks⟩

/-- A chain open at both ends that reads the kept words of a phrase reads whatever the
chain of the phrase reads. -/
theorem reads_of_phrase {c wider : Chain P} {opens closes : P → Prop}
    (carries : ∀ front back p k w, (front = true → opens p) → (back = true → closes p) →
      Widens front back k w → hits p k = true → hits p w = true)
    (isChain : ofPhrase passed wrap phrase = some c) (opening : opens wider.head)
    (closing : closes wider.last) (phraseRead : reads (keptHits passed hits) wider phrase = true)
    (found : reads hits c text = true) : reads hits wider text = true := by
  obtain ⟨before, kept, after, rfl, shrinks⟩ := shrinks_of_phrase widens isChain found
  have inner := shrinks.reads carries (fun _ => opening) closing (reads_iff.mp phraseRead)
  exact reads_iff.mpr (inner.widen after nofun)

end

end Chain

end Clearotron
