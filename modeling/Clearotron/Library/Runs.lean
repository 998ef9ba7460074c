import Clearotron.Library.Tokens

/-!
# Rewriting the runs of a text

A text is read as runs of letters of one kind, with other letters between them, and each run is
replaced by what a function makes of it. How long the runs of a text are is counted as it is read.
-/

namespace Clearotron.Runs

variable {α : Type*} {p q : α → Bool} {f : List α → List α} {run s t a b : List α} {c : α}
  {n m most : ℕ}

/-- Each run, rewritten; `run` is the one that is being read. -/
def eachRun (p : α → Bool) (f : List α → List α) : List α → List α → List α
  | run, [] => f run
  | run, c :: s =>
    if p c then eachRun p f (run ++ [c]) s else f run ++ c :: eachRun p f [] s

theorem eachRun_cons_of_pos (inside : p c = true) :
    eachRun p f run (c :: s) = eachRun p f (run ++ [c]) s := by
  rw [eachRun, if_pos inside]

theorem eachRun_cons_of_neg (outside : p c = false) :
    eachRun p f run (c :: s) = f run ++ c :: eachRun p f [] s := by
  rw [eachRun, if_neg (by simp [outside])]

/-- The letters are the text's own, or those that the rewriting adds. -/
theorem mem_eachRun {added : α → Prop} (own : ∀ run, ∀ c ∈ f run, c ∈ run ∨ added c)
    (mem : c ∈ eachRun p f run s) : c ∈ run ∨ c ∈ s ∨ added c := by
  induction s generalizing run with
  | nil => exact (own run c mem).imp id .inr
  | cons d s ih =>
    cases inside : p d with
    | true =>
      rw [eachRun_cons_of_pos inside] at mem
      obtain mem | mem | new := ih mem
      · rw [List.mem_append, List.mem_singleton] at mem
        exact mem.imp id fun is : c = d => .inl (is ▸ List.mem_cons_self)
      · exact .inr (.inl (List.mem_cons_of_mem _ mem))
      · exact .inr (.inr new)
    | false =>
      rw [eachRun_cons_of_neg inside, List.mem_append, List.mem_cons] at mem
      obtain mem | rfl | mem := mem
      · exact (own run c mem).imp id .inr
      · exact .inr (.inl List.mem_cons_self)
      · obtain mem | mem | new := ih mem
        · cases mem
        · exact .inr (.inl (List.mem_cons_of_mem _ mem))
        · exact .inr (.inr new)

/-- Two texts whose runs stand at the same places, each of the one like that of the other. -/
inductive RunsAlike (p : α → Bool) (R : List α → List α → Prop) : List α → List α → Prop
  | last {a b : List α} (all : ∀ c ∈ a, p c = true) (all' : ∀ c ∈ b, p c = true) (alike : R a b) :
      RunsAlike p R a b
  | next {a b s t : List α} {c : α} (all : ∀ c ∈ a, p c = true) (all' : ∀ c ∈ b, p c = true)
      (alike : R a b) (outside : p c = false) (rest : RunsAlike p R s t) :
      RunsAlike p R (a ++ c :: s) (b ++ c :: t)

theorem eachRun_run (all : ∀ c ∈ a, p c = true) (run s : List α) :
    eachRun p f run (a ++ s) = eachRun p f (run ++ a) s := by
  induction a generalizing run with
  | nil => rw [List.nil_append, List.append_nil]
  | cons c a ih =>
    obtain ⟨inside, all⟩ := List.forall_mem_cons.mp all
    rw [List.cons_append, eachRun_cons_of_pos inside, ih all, List.append_assoc]
    rfl

theorem eachRun_last (all : ∀ c ∈ a, p c = true) : eachRun p f [] a = f a := by
  have whole := eachRun_run (f := f) all [] []
  rw [List.append_nil] at whole
  exact whole

theorem eachRun_next (all : ∀ c ∈ a, p c = true) (outside : p c = false) (s : List α) :
    eachRun p f [] (a ++ c :: s) = f a ++ c :: eachRun p f [] s := by
  rw [eachRun_run all, List.nil_append, eachRun_cons_of_neg outside]

/-- A text is a run, or one and a letter of another kind and the rest. -/
theorem run_cases (p : α → Bool) (s : List α) : (∀ c ∈ s, p c = true) ∨
    ∃ a c s', s = a ++ c :: s' ∧ (∀ c ∈ a, p c = true) ∧ p c = false := by
  induction s with
  | nil => exact .inl nofun
  | cons c s ih =>
    cases inside : p c with
    | false => exact .inr ⟨[], c, s, rfl, nofun, inside⟩
    | true =>
      obtain all | ⟨a, d, s', rfl, all, outside⟩ := ih
      · exact .inl (List.forall_mem_cons.mpr ⟨inside, all⟩)
      · exact .inr ⟨c :: a, d, s', rfl, List.forall_mem_cons.mpr ⟨inside, all⟩, outside⟩

/-- Two lists that each go up to the first letter of a kind. -/
theorem append_cons_inj {P : α → Prop} {x y s t : List α} {c d : α} (kind : ∀ e ∈ x, P e)
    (kind' : ∀ e ∈ y, P e) (other : ¬ P c) (other' : ¬ P d) (same : x ++ c :: s = y ++ d :: t) :
    x = y ∧ c = d ∧ s = t := by
  induction x generalizing y with
  | nil =>
    cases y with
    | nil => exact ⟨rfl, List.cons.inj same⟩
    | cons e y =>
      obtain ⟨rfl, -⟩ := List.cons.inj same
      exact absurd (kind' _ List.mem_cons_self) other
  | cons e x ih =>
    cases y with
    | nil =>
      obtain ⟨rfl, -⟩ := List.cons.inj same
      exact absurd (kind _ List.mem_cons_self) other'
    | cons e' y =>
      obtain ⟨rfl, rest⟩ := List.cons.inj same
      obtain ⟨rfl, tails⟩ := ih (fun e mem => kind e (List.mem_cons_of_mem _ mem))
        (fun e mem => kind' e (List.mem_cons_of_mem _ mem)) rest
      exact ⟨rfl, tails⟩

/-- Where what becomes of a run is told from the letters between them, two texts are rewritten to
one exactly where their runs are. -/
theorem eachRun_eq_iff {P : α → Prop} (kind : ∀ run, (∀ c ∈ run, p c = true) → ∀ c ∈ f run, P c)
    (other : ∀ c ∈ s, p c = false → ¬ P c) (other' : ∀ c ∈ t, p c = false → ¬ P c) :
    eachRun p f [] s = eachRun p f [] t ↔ RunsAlike p (fun a b => f a = f b) s t := by
  constructor
  · intro same
    induction n : s.length using Nat.strong_induction_on generalizing s t with
    | _ n ih =>
      obtain all | ⟨a, c, s', rfl, all, outside⟩ := run_cases p s
      · obtain all' | ⟨b, d, t', rfl, all', outside'⟩ := run_cases p t
        · rw [eachRun_last all, eachRun_last all'] at same
          exact .last all all' same
        · rw [eachRun_last all, eachRun_next all' outside'] at same
          have there : d ∈ f s := same ▸ List.mem_append_right _ List.mem_cons_self
          exact absurd (kind s all d there) (other' d (by simp) outside')
      · obtain all' | ⟨b, d, t', rfl, all', outside'⟩ := run_cases p t
        · rw [eachRun_last all', eachRun_next all outside] at same
          have there : c ∈ f t := same ▸ List.mem_append_right _ List.mem_cons_self
          exact absurd (kind t all' c there) (other c (by simp) outside)
        · rw [eachRun_next all outside, eachRun_next all' outside'] at same
          obtain ⟨runs, rfl, rest⟩ := append_cons_inj (kind a all) (kind b all')
            (other c (by simp) outside) (other' d (by simp) outside') same
          refine .next all all' runs outside (ih s'.length ?_ ?_ ?_ rest rfl)
          · rw [← n, List.length_append, List.length_cons]
            omega
          · exact fun e mem => other e (by simp [mem])
          · exact fun e mem => other' e (by simp [mem])
  · intro alike
    clear other other'
    induction alike with
    | last all all' runs => rw [eachRun_last all, eachRun_last all', runs]
    | next all all' runs outside _ ih =>
      rw [eachRun_next all outside, eachRun_next all' outside, runs, ih]

theorem RunsAlike.congr {R R' : List α → List α → Prop}
    (same : ∀ a b, (∀ c ∈ a, p c = true) → (∀ c ∈ b, p c = true) → (R a b ↔ R' a b)) :
    RunsAlike p R s t ↔ RunsAlike p R' s t := by
  constructor
  · intro alike
    induction alike with
    | last all all' runs => exact .last all all' ((same _ _ all all').mp runs)
    | next all all' runs outside _ ih => exact .next all all' ((same _ _ all all').mp runs) outside ih
  · intro alike
    induction alike with
    | last all all' runs => exact .last all all' ((same _ _ all all').mpr runs)
    | next all all' runs outside _ ih => exact .next all all' ((same _ _ all all').mpr runs) outside ih

/-- Runs inside runs: a text may be rewritten at the letters outside the wider ones. -/
theorem eachRun_append_cons (outside : p c = false) (front s : List α) :
    eachRun p f run (front ++ c :: s) = eachRun p f run front ++ c :: eachRun p f [] s := by
  induction front generalizing run with
  | nil => rw [List.nil_append, eachRun_cons_of_neg outside, eachRun]
  | cons d front ih =>
    rw [List.cons_append]
    cases inside : p d with
    | true => rw [eachRun_cons_of_pos inside, eachRun_cons_of_pos inside, ih]
    | false => rw [eachRun_cons_of_neg inside, eachRun_cons_of_neg inside, ih, List.append_assoc]; rfl

/-- Rewriting the narrower runs of what the wider ones became is rewriting each wider one. -/
theorem eachRun_eachRun {g : List α → List α} (narrower : ∀ c, p c = false → q c = false)
    (s : List α) : eachRun q g [] (eachRun p f [] s) =
      eachRun p (fun run => eachRun q g [] (f run)) [] s := by
  induction n : s.length using Nat.strong_induction_on generalizing s with
  | _ n ih =>
    obtain all | ⟨a, c, s', rfl, all, outside⟩ := run_cases p s
    · rw [eachRun_last all, eachRun_last all]
    · rw [eachRun_next all outside, eachRun_next all outside,
        eachRun_append_cons (narrower c outside), ih s'.length ?_ s' rfl]
      rw [← n, List.length_append, List.length_cons]
      omega
/-- A word that has been read so far: `run` is its last run, and `front` is what became of the
letters before. -/
structure Underway (p : α → Bool) (f : List α → List α) (word front run : List α) : Prop where
  read : ∀ t, eachRun p f [] (word ++ t) = front ++ eachRun p f run t
  empty : front ++ f run = [] ↔ word = []

section Words

variable {word front : List α} (filled : ∀ run, f run = [] ↔ run = [])

include filled

theorem underway_start : Underway p f [] [] [] := ⟨fun _ => rfl, by simp [filled]⟩

theorem Underway.inside (underway : Underway p f word front run) (letter : p c = true) :
    Underway p f (word ++ [c]) front (run ++ [c]) where
  read t := by
    rw [List.append_assoc, List.singleton_append, underway.read, eachRun_cons_of_pos letter]
  empty := by simp [filled]

omit filled in
theorem Underway.outside (underway : Underway p f word front run) (letter : p c = false) :
    Underway p f (word ++ [c]) (front ++ f run ++ [c]) [] where
  read t := by
    rw [List.append_assoc, List.singleton_append, underway.read, eachRun_cons_of_neg letter,
      List.append_assoc, List.append_assoc]
    rfl
  empty := by simp

omit filled in
/-- A word that ends. -/
theorem Underway.close (underway : Underway p f word front run) :
    (if (front ++ f run).isEmpty then [] else [front ++ f run]) =
      (if word.isEmpty then [] else [word]).map (eachRun p f []) := by
  have whole := underway.read []
  rw [List.append_nil, eachRun] at whole
  have length : (front ++ f run).isEmpty = word.isEmpty := by
    rw [Bool.eq_iff_iff, List.isEmpty_iff, List.isEmpty_iff, underway.empty]
  rw [length, ← whole]
  split <;> rfl

variable {blank : α → Bool} (apart : ∀ c, p c = true → blank c = false)
  (plain : ∀ run, (∀ c ∈ run, blank c = false) → ∀ c ∈ f run, blank c = false)

include apart plain

theorem tokensFrom_eachRun (underway : Underway p f word front run)
    (inside : ∀ c ∈ run, blank c = false) (s : List α) :
    tokensFrom (fun c => !blank c) front (eachRun p f run s) =
      (tokensFrom (fun c => !blank c) word s).map (eachRun p f []) := by
  induction s generalizing front run word with
  | nil =>
    have kept : ∀ c ∈ f run, (!blank c) = true := fun c mem => by simp [plain run inside c mem]
    have read := tokensFrom_append kept front []
    rw [List.append_nil] at read
    rw [eachRun, read, tokensFrom, tokensFrom]
    exact underway.close
  | cons c s ih =>
    cases letter : p c with
    | true =>
      have kind := apart c letter
      rw [eachRun_cons_of_pos letter, tokensFrom_cons_token (by simp [kind])]
      refine ih (underway.inside filled letter) fun d mem => ?_
      obtain mem | mem := List.mem_append.mp mem
      · exact inside d mem
      · exact List.mem_singleton.mp mem ▸ kind
    | false =>
      have kept : ∀ d ∈ f run, (!blank d) = true := fun d mem => by
        simp [plain run inside d mem]
      rw [eachRun_cons_of_neg letter, tokensFrom_append kept front (c :: eachRun p f [] s)]
      cases kind : blank c with
      | true =>
        rw [tokensFrom_cons_blank (by simp [kind]), tokensFrom_cons_blank (by simp [kind]),
          List.map_append, underway.close, ih (underway_start filled) (by simp)]
      | false =>
        rw [tokensFrom_cons_token (by simp [kind]), tokensFrom_cons_token (by simp [kind])]
        exact ih (underway.outside letter) (by simp)

/-- The words of a text, each with its runs rewritten. -/
theorem tokens_eachRun (s : List α) : tokens (fun c => !blank c) (eachRun p f [] s) =
    (tokens (fun c => !blank c) s).map (eachRun p f []) :=
  tokensFrom_eachRun filled apart plain (underway_start filled) (by simp) s

end Words

/-- A run of `least` letters or more becomes a mark. -/
def cut (least : ℕ) (mark : α) (run : List α) : List α := if run.length < least then run else [mark]

variable {least : ℕ} {mark : α}

theorem cut_eq_nil (pos : 0 < least) (mark : α) (run : List α) :
    cut least mark run = [] ↔ run = [] := by
  unfold cut
  split
  · rfl
  · rename_i long
    constructor
    · intro is
      cases is
    · rintro rfl
      rw [List.length_nil] at long
      omega

theorem mem_cut (mem : c ∈ cut least mark run) : c ∈ run ∨ c = mark := by
  unfold cut at mem
  split at mem
  · exact .inl mem
  · exact .inr (List.mem_singleton.mp mem)

/-- A text, and the text with some of its runs replaced. -/
inductive Replaces (p : α → Bool) (least : ℕ) (mark : α) : List α → List α → Prop
  | nil : Replaces p least mark [] []
  | keep {s t : List α} (c : α) (rest : Replaces p least mark s t) :
      Replaces p least mark (c :: s) (c :: t)
  | replace {run s t : List α} (all : ∀ c ∈ run, p c = true) (long : least ≤ run.length)
      (rest : Replaces p least mark s t) : Replaces p least mark (run ++ s) (mark :: t)

theorem Replaces.cut_append {t : List α} (all : ∀ c ∈ run, p c = true)
    (rest : Replaces p least mark s t) :
    Replaces p least mark (run ++ s) (cut least mark run ++ t) := by
  unfold cut
  split
  · clear all
    induction run with
    | nil => exact rest
    | cons c run ih =>
      rename_i short
      rw [List.length_cons] at short
      exact .keep c (ih (by omega))
  · exact .replace all (by omega) rest

theorem replaces_from (all : ∀ c ∈ run, p c = true) (s : List α) :
    Replaces p least mark (run ++ s) (eachRun p (cut least mark) run s) := by
  induction s generalizing run with
  | nil =>
    have whole := Replaces.cut_append all (.nil : Replaces p least mark [] [])
    rw [List.append_nil (cut least mark run)] at whole
    exact whole
  | cons c s ih =>
    cases inside : p c with
    | true =>
      rw [eachRun_cons_of_pos inside, ← List.singleton_append, ← List.append_assoc]
      refine ih fun d mem => ?_
      obtain mem | mem := List.mem_append.mp mem
      · exact all d mem
      · exact List.mem_singleton.mp mem ▸ inside
    | false =>
      rw [eachRun_cons_of_neg inside]
      have rest := @ih [] (by simp)
      exact .cut_append all (.keep c rest)

theorem replaces_eachRun (p : α → Bool) (least : ℕ) (mark : α) (s : List α) :
    Replaces p least mark s (eachRun p (cut least mark) [] s) :=
  @replaces_from _ p [] least mark (by simp) s

/-- Letters that are no marks are kept from the text. -/
theorem Replaces.split {t : List α} (foreign : mark ∉ run)
    (replaces : Replaces p least mark s (run ++ t)) :
    ∃ rest, s = run ++ rest ∧ Replaces p least mark rest t := by
  induction run generalizing s with
  | nil => exact ⟨s, rfl, replaces⟩
  | cons c run ih =>
    rw [List.mem_cons, not_or] at foreign
    rw [List.cons_append] at replaces
    cases replaces with
    | keep _ rest =>
      obtain ⟨rest', rfl, replaces⟩ := ih foreign.2 rest
      exact ⟨rest', rfl, replaces⟩
    | replace => exact absurd rfl foreign.1

/-- Every run is shorter than `most`, where `n` letters of the first one have been read. -/
def Below (p : α → Bool) (most : ℕ) : ℕ → List α → Prop
  | _, [] => True
  | n, c :: s => if p c then n + 1 < most ∧ Below p most (n + 1) s else Below p most 0 s

theorem below_nil : Below p most n ([] : List α) := by
  rw [Below]
  trivial

theorem below_cons_of_pos (inside : p c = true) :
    Below p most n (c :: s) ↔ n + 1 < most ∧ Below p most (n + 1) s := by
  rw [Below, if_pos inside]

theorem below_cons_of_neg (outside : p c = false) :
    Below p most n (c :: s) ↔ Below p most 0 s := by
  rw [Below, if_neg (by simp [outside])]

-- a text that is computed is not looked into
attribute [irreducible] Below

theorem Below.mono (below : Below p most m s) (le : n ≤ m) : Below p most n s := by
  induction s generalizing n m with
  | nil => exact below_nil
  | cons c s ih =>
    cases inside : p c with
    | true =>
      rw [below_cons_of_pos inside] at below ⊢
      exact ⟨by omega, ih below.2 (by omega)⟩
    | false =>
      rw [below_cons_of_neg inside] at below ⊢
      exact below

theorem Below.front (below : Below p most n (a ++ b)) : Below p most n a := by
  induction a generalizing n with
  | nil => exact below_nil
  | cons c a ih =>
    rw [List.cons_append] at below
    cases inside : p c with
    | true =>
      rw [below_cons_of_pos inside] at below ⊢
      exact ⟨below.1, ih below.2⟩
    | false =>
      rw [below_cons_of_neg inside] at below ⊢
      exact ih below

theorem Below.back (below : Below p most n (a ++ b)) : Below p most 0 b := by
  induction a generalizing n with
  | nil => exact below.mono (Nat.zero_le n)
  | cons c a ih =>
    rw [List.cons_append] at below
    cases inside : p c with
    | true => exact ih ((below_cons_of_pos inside).mp below).2
    | false => exact ih ((below_cons_of_neg inside).mp below)

/-- A run at the end is short. -/
theorem Below.length_lt (below : Below p most n (a ++ b)) (all : ∀ c ∈ b, p c = true)
    (some' : b ≠ []) : b.length < most := by
  have count (n : ℕ) (b : List α) (all : ∀ c ∈ b, p c = true) (some' : b ≠ [])
      (below : Below p most n b) : n + b.length < most := by
    induction b generalizing n with
    | nil => exact absurd rfl some'
    | cons c b ih =>
      have own := (below_cons_of_pos (all c (by simp))).mp below
      cases b with
      | nil => simpa using own.1
      | cons d b =>
        have := ih (n + 1) (fun c mem => all c (List.mem_cons_of_mem _ mem)) (by simp) own.2
        rw [List.length_cons]
        omega
  simpa using count 0 b all some' below.back

theorem below_run (all : ∀ c ∈ run, p c = true) (short : n + run.length < most)
    (outside : p c = false) (rest : Below p most 0 s) : Below p most n (run ++ c :: s) := by
  induction run generalizing n with
  | nil => exact (below_cons_of_neg outside).mpr rest
  | cons d run ih =>
    rw [List.length_cons] at short
    refine (below_cons_of_pos (all d (by simp))).mpr ⟨by omega, ih ?_ (by omega)⟩
    exact fun c mem => all c (List.mem_cons_of_mem _ mem)

theorem below_of_run (all : ∀ c ∈ run, p c = true) (short : n + run.length < most) :
    Below p most n run := by
  induction run generalizing n with
  | nil => exact below_nil
  | cons d run ih =>
    rw [List.length_cons] at short
    refine (below_cons_of_pos (all d (by simp))).mpr ⟨by omega, ih ?_ (by omega)⟩
    exact fun c mem => all c (List.mem_cons_of_mem _ mem)

/-- Where runs that are too long become a letter of another kind, no long one is left. -/
theorem below_eachRun (other : p mark = false) (all : ∀ c ∈ run, p c = true) :
    Below p most 0 (eachRun p (cut most mark) run s) := by
  induction s generalizing run with
  | nil =>
    rw [eachRun, cut]
    split
    · exact below_of_run all (by omega)
    · exact (below_cons_of_neg other).mpr below_nil
  | cons c s ih =>
    cases inside : p c with
    | true =>
      rw [eachRun_cons_of_pos inside]
      refine ih fun d mem => ?_
      obtain mem | mem := List.mem_append.mp mem
      · exact all d mem
      · exact List.mem_singleton.mp mem ▸ inside
    | false =>
      rw [eachRun_cons_of_neg inside, cut]
      split
      · exact below_run all (by omega) inside (ih (by simp))
      · exact (below_cons_of_neg other).mpr ((below_cons_of_neg inside).mpr (ih (by simp)))

/-- Runs of another kind that become such a letter lengthen none. -/
theorem Below.eachRun (other : p mark = false) (below : Below p most n (run ++ s)) :
    Below p most n (eachRun q (cut 1 mark) run s) := by
  induction s generalizing run n with
  | nil =>
    rw [Runs.eachRun, cut]
    split
    · exact below.front
    · exact (below_cons_of_neg other).mpr below_nil
  | cons c s ih =>
    cases inside : q c with
    | true =>
      rw [eachRun_cons_of_pos inside]
      exact ih (by simpa using below)
    | false =>
      have rest {k : ℕ} (below : Below p most k (c :: s)) :
          Below p most k (c :: Runs.eachRun q (cut 1 mark) [] s) := by
        cases letter : p c with
        | true =>
          have own := (below_cons_of_pos letter).mp below
          exact (below_cons_of_pos letter).mpr ⟨own.1, ih own.2⟩
        | false => exact (below_cons_of_neg letter).mpr (ih ((below_cons_of_neg letter).mp below))
      rw [eachRun_cons_of_neg inside, cut]
      split
      · rename_i short
        obtain rfl : run = [] := List.length_eq_zero_iff.mp (by omega)
        exact rest below
      · exact (below_cons_of_neg other).mpr (rest below.back)

end Clearotron.Runs
