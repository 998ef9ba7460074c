import Mathlib.Data.List.Infix

/-!
# Cutting a text at marks

A text is cut at the first place where a mark stands in it, and a walk over it takes what stands
between an opening and the next closing mark, time after time. What the walk leaves, the text from
an open mark on or the text behind the last closing one, is all that has to be kept of a text that
grows: the walk goes on from there as if it had seen the whole.
-/

namespace Clearotron.Scan

variable {α : Type*}

/-- A cut with a text in front. -/
def behind (w : List α) (cut : List α × List α) : List α × List α := (w ++ cut.1, cut.2)

@[simp] theorem behind_behind (v w : List α) (cut : List α × List α) :
    behind v (behind w cut) = behind (v ++ w) cut := by
  simp [behind]

variable [DecidableEq α]

/-- What stands before and behind the first place of `pat` in a text. -/
def cutAt (pat : List α) : List α → Option (List α × List α)
  | [] => if pat = [] then some ([], []) else none
  | c :: s =>
    if pat.isPrefixOf (c :: s) then some ([], (c :: s).drop pat.length)
    else (cutAt pat s).map fun cut => (c :: cut.1, cut.2)

section Cut

variable {pat s t a b w : List α}

theorem cutAt_cons_of_starts {c : α} (starts : pat <+: c :: s) :
    cutAt pat (c :: s) = some ([], (c :: s).drop pat.length) := by
  rw [cutAt, if_pos (List.isPrefixOf_iff_prefix.mpr starts)]

theorem cutAt_cons_of_not_starts {c : α} (other : ¬ pat <+: c :: s) :
    cutAt pat (c :: s) = (cutAt pat s).map (behind [c]) := by
  rw [cutAt, if_neg fun starts => other (List.isPrefixOf_iff_prefix.mp starts)]
  rfl

/-- A mark at the start of a text. -/
theorem cutAt_append_self (pat s : List α) : cutAt pat (pat ++ s) = some ([], s) := by
  cases pat with
  | nil => cases s <;> simp [cutAt]
  | cons p pat =>
    rw [List.cons_append, cutAt_cons_of_starts ⟨s, rfl⟩, ← List.cons_append, List.drop_left]

theorem eq_of_cutAt (cut : cutAt pat s = some (b, a)) : s = b ++ (pat ++ a) := by
  induction s generalizing b with
  | nil =>
    rw [cutAt] at cut
    split at cut
    · rename_i empty
      obtain ⟨rfl, rfl⟩ := Prod.mk.inj (Option.some.inj cut)
      simp [empty]
    · cases cut
  | cons c s ih =>
    by_cases starts : pat <+: c :: s
    · rw [cutAt_cons_of_starts starts] at cut
      obtain ⟨rfl, rfl⟩ := Prod.mk.inj (Option.some.inj cut)
      obtain ⟨rest, own⟩ := starts
      rw [← own, List.drop_left, List.nil_append]
    · rw [cutAt_cons_of_not_starts starts, Option.map_eq_some_iff] at cut
      obtain ⟨⟨b', a'⟩, found, same⟩ := cut
      obtain ⟨rfl, rfl⟩ := Prod.mk.inj same
      rw [ih found]
      rfl

/-- A mark that is found stays where it is when the text grows. -/
theorem cutAt_append (cut : cutAt pat s = some (b, a)) (t : List α) :
    cutAt pat (s ++ t) = some (b, a ++ t) := by
  induction s generalizing b with
  | nil =>
    have parts := eq_of_cutAt cut
    simp only [List.nil_eq, List.append_eq_nil_iff] at parts
    obtain ⟨rfl, rfl, rfl⟩ := parts
    exact cutAt_append_self [] t
  | cons c s ih =>
    by_cases starts : pat <+: c :: s
    · rw [cutAt_cons_of_starts starts] at cut
      obtain ⟨rfl, rfl⟩ := Prod.mk.inj (Option.some.inj cut)
      obtain ⟨rest, own⟩ := starts
      rw [← own, List.append_assoc, cutAt_append_self, List.drop_left]
    · have later : ¬ pat <+: c :: (s ++ t) := by
        have parts := eq_of_cutAt cut
        intro grown
        refine starts (List.prefix_of_prefix_length_le grown (List.prefix_append (c :: s) t) ?_)
        rw [parts]
        simp only [List.length_append]
        omega
      rw [cutAt_cons_of_not_starts starts, Option.map_eq_some_iff] at cut
      obtain ⟨⟨b', a'⟩, found, same⟩ := cut
      obtain ⟨rfl, rfl⟩ := Prod.mk.inj same
      rw [List.cons_append, cutAt_cons_of_not_starts later, ih found]
      rfl

/-- No place of `pat` starts inside `w`, whatever stands behind it. -/
def Skips (pat w : List α) : Prop := ∀ s, cutAt pat (w ++ s) = (cutAt pat s).map (behind w)

theorem Skips.nil : Skips pat ([] : List α) := fun s => by
  rw [List.nil_append]
  exact Option.map_id'.symm

theorem Skips.append {v : List α} (skips : Skips pat v) (skips' : Skips pat w) :
    Skips pat (v ++ w) := fun s => by
  rw [List.append_assoc, skips, skips', Option.map_map]
  congr 1
  funext cut
  exact behind_behind v w cut

theorem Skips.cons {c : α} (other : ∀ s, ¬ pat <+: c :: (w ++ s)) (skips : Skips pat w) :
    Skips pat (c :: w) := fun s => by
  rw [List.cons_append, cutAt_cons_of_not_starts (other s), skips, Option.map_map]
  congr 1

/-- A text without the first letter of a mark. -/
theorem Skips.of_not_mem {p : α} (foreign : p ∉ w) : Skips (p :: pat) w := by
  induction w with
  | nil => exact .nil
  | cons c w ih =>
    rw [List.mem_cons, not_or] at foreign
    exact .cons (fun s starts => foreign.1 (List.cons_prefix_cons.mp starts).1) (ih foreign.2)

end Cut

/-- The texts between the marks, and what is left: from an open mark on, or behind the last closing
one. Each round uses up a mark. -/
def piecesFrom (opening closing : List α) : ℕ → List α → List (List α) × List α
  | 0, s => ([], s)
  | rounds + 1, s =>
    match cutAt opening s with
    | none => ([], s)
    | some (_, a) =>
      match cutAt closing a with
      | none => ([], opening ++ a)
      | some (body, rest) =>
        let (bodies, tail) := piecesFrom opening closing rounds rest
        (body :: bodies, tail)

def pieces (opening closing s : List α) : List (List α) × List α :=
  piecesFrom opening closing s.length s

/-- The walk, round by round. -/
inductive Walk (opening closing : List α) : List α → List (List α) → List α → Prop
  | done {s : List α} (clear : cutAt opening s = none) : Walk opening closing s [] s
  | pending {s b a : List α} (opens : cutAt opening s = some (b, a))
      (clear : cutAt closing a = none) : Walk opening closing s [] (opening ++ a)
  | next {s b a body rest tail : List α} {bodies : List (List α)}
      (opens : cutAt opening s = some (b, a)) (closes : cutAt closing a = some (body, rest))
      (walk : Walk opening closing rest bodies tail) :
      Walk opening closing s (body :: bodies) tail

section Walk

variable {opening closing s t tail tail' : List α} {bodies bodies' : List (List α)}

theorem walk_length {b a body rest : List α} (marked : opening ≠ [])
    (opens : cutAt opening s = some (b, a)) (closes : cutAt closing a = some (body, rest)) :
    rest.length < s.length := by
  have := List.length_pos_iff.mpr marked
  rw [eq_of_cutAt opens, eq_of_cutAt closes]
  simp only [List.length_append]
  omega

theorem Walk.piecesFrom_eq (marked : opening ≠ []) (walk : Walk opening closing s bodies tail)
    {rounds : ℕ} (enough : s.length ≤ rounds) :
    piecesFrom opening closing rounds s = (bodies, tail) := by
  induction walk generalizing rounds with
  | done clear =>
    cases rounds with
    | zero => rfl
    | succ rounds => rw [piecesFrom, clear]
  | @pending s b a opens clear =>
    cases rounds with
    | zero =>
      obtain rfl : s = [] := List.length_eq_zero_iff.mp (by omega)
      rw [cutAt, if_neg marked] at opens
      cases opens
    | succ rounds => simp only [piecesFrom, opens, clear]
  | next opens closes walk ih =>
    have shorter := walk_length marked opens closes
    cases rounds with
    | zero => omega
    | succ rounds =>
      have inner := ih (Nat.lt_succ_iff.mp (shorter.trans_le enough))
      simp only [piecesFrom, opens, closes, inner]

theorem Walk.pieces_eq (marked : opening ≠ []) (walk : Walk opening closing s bodies tail) :
    pieces opening closing s = (bodies, tail) :=
  walk.piecesFrom_eq marked le_rfl

theorem exists_walk (marked : opening ≠ []) (closing s : List α) :
    ∃ bodies tail, Walk opening closing s bodies tail := by
  induction n : s.length using Nat.strong_induction_on generalizing s with
  | _ n ih =>
    cases opens : cutAt opening s with
    | none => exact ⟨_, _, .done opens⟩
    | some cut =>
      obtain ⟨b, a⟩ := cut
      cases closes : cutAt closing a with
      | none => exact ⟨_, _, .pending opens closes⟩
      | some cut' =>
        obtain ⟨body, rest⟩ := cut'
        obtain ⟨bodies, tail, walk⟩ := ih _ (n ▸ walk_length marked opens closes) rest rfl
        exact ⟨_, _, .next opens closes walk⟩

theorem walk_pieces (marked : opening ≠ []) (closing s : List α) :
    Walk opening closing s (pieces opening closing s).1 (pieces opening closing s).2 := by
  obtain ⟨bodies, tail, walk⟩ := exists_walk marked closing s
  rw [walk.pieces_eq marked]
  exact walk

/-- A walk over a text that grows goes on from what it left. -/
theorem Walk.append (walk : Walk opening closing s bodies tail)
    (more : Walk opening closing (tail ++ t) bodies' tail') :
    Walk opening closing (s ++ t) (bodies ++ bodies') tail' := by
  induction walk with
  | done clear => exact more
  | @pending s b a opens clear =>
    rw [List.append_assoc] at more
    have grown := cutAt_append opens t
    -- what is left starts with the open mark
    have kept := cutAt_append_self opening (a ++ t)
    cases more with
    | done clear' => rw [kept] at clear'; cases clear'
    | pending opens' clear' =>
      rw [kept] at opens'
      obtain ⟨rfl, rfl⟩ := Prod.mk.inj (Option.some.inj opens')
      exact .pending grown clear'
    | next opens' closes walk =>
      rw [kept] at opens'
      obtain ⟨rfl, rfl⟩ := Prod.mk.inj (Option.some.inj opens')
      exact .next grown closes walk
  | next opens closes walk ih =>
    exact .next (cutAt_append opens t) (cutAt_append closes t) (ih more)

theorem pieces_append (marked : opening ≠ []) (closing s t : List α) :
    pieces opening closing (s ++ t) =
      ((pieces opening closing s).1 ++
        (pieces opening closing ((pieces opening closing s).2 ++ t)).1,
      (pieces opening closing ((pieces opening closing s).2 ++ t)).2) :=
  ((walk_pieces marked closing s).append (walk_pieces marked closing _)).pieces_eq marked

/-- The first text between marks. -/
theorem head?_pieces (marked : opening ≠ []) (closing s : List α) :
    (pieces opening closing s).1.head? = (cutAt opening s).bind fun cut =>
      (cutAt closing cut.2).map Prod.fst := by
  have walk := walk_pieces marked closing s
  generalize (pieces opening closing s).1 = bodies at walk ⊢
  generalize (pieces opening closing s).2 = tail at walk
  cases walk with
  | done clear => simp [clear]
  | pending opens clear => simp [opens, clear]
  | next opens closes walk => simp [opens, closes]

/-- A text in which the walk does not stop. -/
theorem pieces_of_skips {w : List α} (marked : opening ≠ []) (skips : Skips opening w)
    (closing s : List α) :
    (pieces opening closing (w ++ s)).1 = (pieces opening closing s).1 := by
  have step := skips s
  have walk := walk_pieces marked closing s
  generalize (pieces opening closing s).1 = bodies at walk ⊢
  generalize (pieces opening closing s).2 = tail at walk
  cases walk with
  | done clear =>
    rw [clear] at step
    rw [(@Walk.done _ _ opening closing _ step).pieces_eq marked]
  | pending opens clear =>
    rw [opens] at step
    rw [(Walk.pending step clear).pieces_eq marked]
  | next opens closes walk =>
    rw [opens] at step
    rw [(Walk.next step closes walk).pieces_eq marked]

/-- A text with a mark at its start and the closing one behind `body`. -/
theorem pieces_of_marks {body : List α} (marked : opening ≠ [])
    (skips : Skips closing body) (s : List α) :
    (pieces opening closing (opening ++ (body ++ (closing ++ s)))).1 =
      body :: (pieces opening closing s).1 := by
  have closes := skips (closing ++ s)
  rw [cutAt_append_self, Option.map_some, behind, List.append_nil] at closes
  rw [(Walk.next (cutAt_append_self opening _) closes (walk_pieces marked closing s)).pieces_eq
    marked]

end Walk

end Clearotron.Scan
