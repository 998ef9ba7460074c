import Mathlib.Data.Finset.Card
import Mathlib.Logic.Relation

/-!
# Walking a graph of links

A walk goes down from a node, along the links that it follows, and takes each node once: what has
been seen in one branch is passed over in the next. However the links run, in circles too, a walk
ends, and each link it takes continues a chain of links from the node it set out from.

A partition is kept as a function that gives each element the root of its component, and
two components are joined by giving those of the one the root of the other. Joins that are
all made along a relation give the components of that relation, in whatever order.
-/

namespace Clearotron.Walk

variable {α κ : Type*} [DecidableEq κ]

/-- The links a walk takes, in order, and what it has then seen. -/
abbrev Found (α κ : Type*) := List (α × α) × List κ

section

variable (key : α → κ) (follows : α → α → Bool)

/-- The branches of a node, `under` being the walk below one of them. -/
def branches (under : α → List κ → Option (Found α κ)) (parent : α) :
    List α → List κ → Option (Found α κ)
  | [], seen => some ([], seen)
  | c :: rest, seen =>
    if key c ∈ seen ∨ follows parent c = false then branches under parent rest seen
    else do
      let below ← under c (key c :: seen)
      let beside ← branches under parent rest below.2
      some ((parent, c) :: below.1 ++ beside.1, beside.2)

/-- The walk below a node, none where the fuel runs out. -/
def walk (children : α → List α) : ℕ → α → List κ → Option (Found α κ)
  | 0, _, _ => none
  | fuel + 1, e, seen => branches key follows (walk children fuel) e (children e) seen

end

/-- A link that a walk may take. -/
def Link (follows : α → α → Bool) (children : α → List α) (p c : α) : Prop :=
  c ∈ children p ∧ follows p c = true

variable {key : α → κ} {follows : α → α → Bool} {children : α → List α} {e p c parent : α}
  {under : α → List κ → Option (Found α κ)} {seen : List κ} {found : Found α κ} {fuel : ℕ}
  {rest : List α} {keys : Finset κ}

theorem branches_cons_of_passed (passed : key c ∈ seen ∨ follows parent c = false) :
    branches key follows under parent (c :: rest) seen =
      branches key follows under parent rest seen := by
  rw [branches, if_pos passed]

theorem branches_cons_of_taken (taken : ¬ (key c ∈ seen ∨ follows parent c = false)) :
    branches key follows under parent (c :: rest) seen = (under c (key c :: seen)).bind fun below =>
      (branches key follows under parent rest below.2).bind fun beside =>
        some ((parent, c) :: below.1 ++ beside.1, beside.2) := by
  rw [branches, if_neg taken]
  rfl

/-- Every link taken continues a chain from `e`. -/
def Chained (follows : α → α → Bool) (children : α → List α) (e : α)
    (taken : List (α × α)) : Prop :=
  ∀ x ∈ taken, Relation.ReflTransGen (Link follows children) e x.1 ∧
    Link follows children x.1 x.2

theorem Chained.below {taken : List (α × α)} (link : Link follows children e c)
    (chained : Chained follows children c taken) : Chained follows children e taken :=
  fun x mem => ⟨.head link (chained x mem).1, (chained x mem).2⟩

theorem chained_branches
    (deeper : ∀ c seen found, under c seen = some found → Chained follows children c found.1)
    (part : ∀ c ∈ rest, c ∈ children parent)
    (made : branches key follows under parent rest seen = some found) :
    Chained follows children parent found.1 := by
  induction rest generalizing seen found with
  | nil =>
    rw [branches, Option.some_inj] at made
    subst made
    exact fun x mem => nomatch mem
  | cons c rest ih =>
    have later := fun c mem => part c (List.mem_cons_of_mem _ mem)
    by_cases passed : key c ∈ seen ∨ follows parent c = false
    · rw [branches_cons_of_passed passed] at made
      exact ih later made
    · rw [branches_cons_of_taken passed] at made
      obtain ⟨below, down, made⟩ := Option.bind_eq_some_iff.mp made
      obtain ⟨beside, across, made⟩ := Option.bind_eq_some_iff.mp made
      rw [Option.some_inj] at made
      subst made
      have link : Link follows children parent c :=
        ⟨part c List.mem_cons_self, by simpa using (not_or.mp passed).2⟩
      intro x mem
      rw [List.cons_append, List.mem_cons, List.mem_append] at mem
      obtain rfl | mem | mem := mem
      · exact ⟨.refl, link⟩
      · exact (deeper c _ _ down).below link x mem
      · exact ih later across x mem

theorem chained_walk (made : walk key follows children fuel e seen = some found) :
    Chained follows children e found.1 := by
  induction fuel generalizing e seen found with
  | zero => cases made
  | succ fuel ih => exact chained_branches (fun _ _ _ made => ih made) (fun _ mem => mem) made

/-- The nodes that have not been seen. -/
def unseen (keys : Finset κ) (seen : List κ) : ℕ := (keys \ seen.toFinset).card

theorem unseen_le {seen' : List κ} (sub : ∀ k ∈ seen, k ∈ seen') :
    unseen keys seen' ≤ unseen keys seen := by
  refine Finset.card_le_card (Finset.sdiff_subset_sdiff le_rfl fun k mem => ?_)
  exact List.mem_toFinset.mpr (sub k (List.mem_toFinset.mp mem))

theorem unseen_cons_lt {k : κ} (mem : k ∈ keys) (fresh : k ∉ seen) :
    unseen keys (k :: seen) < unseen keys seen := by
  refine Finset.card_lt_card ((Finset.ssubset_iff_of_subset ?_).mpr ⟨k, ?_, ?_⟩)
  · exact Finset.sdiff_subset_sdiff le_rfl fun k mem =>
      List.mem_toFinset.mpr (List.mem_cons_of_mem _ (List.mem_toFinset.mp mem))
  · exact Finset.mem_sdiff.mpr ⟨mem, fun seen' => fresh (List.mem_toFinset.mp seen')⟩
  · simp

/-- A walk that ends keeps what it had seen. -/
structure Ends (seen : List κ) (out : Option (Found α κ)) : Prop where
  ends : out.isSome = true
  kept : ∀ found, out = some found → ∀ k ∈ seen, k ∈ found.2

theorem ends_branches
    (deeper : ∀ c seen, key c ∈ keys → unseen keys seen < fuel → Ends seen (under c seen))
    (known : ∀ c ∈ rest, key c ∈ keys) (enough : unseen keys seen < fuel + 1) :
    Ends seen (branches key follows under parent rest seen) := by
  induction rest generalizing seen with
  | nil =>
    refine ⟨rfl, fun found made k mem => ?_⟩
    rw [branches, Option.some_inj] at made
    exact made ▸ mem
  | cons c rest ih =>
    have later := fun c mem => known c (List.mem_cons_of_mem _ mem)
    by_cases passed : key c ∈ seen ∨ follows parent c = false
    · rw [branches_cons_of_passed passed]
      exact ih later enough
    · rw [branches_cons_of_taken passed]
      have mem := known c List.mem_cons_self
      have fewer := unseen_cons_lt mem (not_or.mp passed).1
      have down := deeper c (key c :: seen) mem (by omega)
      obtain ⟨below, is⟩ := Option.isSome_iff_exists.mp down.ends
      have grown : ∀ k ∈ seen, k ∈ below.2 := fun k mem =>
        down.kept below is k (List.mem_cons_of_mem _ mem)
      have across := ih later (lt_of_le_of_lt (unseen_le grown) enough)
      obtain ⟨beside, so⟩ := Option.isSome_iff_exists.mp across.ends
      rw [is, Option.bind_some, so, Option.bind_some]
      refine ⟨rfl, fun found made k mem => ?_⟩
      rw [Option.some_inj] at made
      subst made
      exact across.kept beside so k (grown k mem)

/-- More fuel than there are nodes unseen is enough. -/
theorem ends_walk (known : ∀ e, ∀ c ∈ children e, key c ∈ keys)
    (enough : unseen keys seen < fuel) : Ends seen (walk key follows children fuel e seen) := by
  induction fuel generalizing e seen with
  | zero => exact absurd enough (Nat.not_lt_zero _)
  | succ fuel ih => exact ends_branches (fun c seen _ enough => ih enough) (known e) enough

end Clearotron.Walk

namespace Clearotron

variable {ι : Type*} [DecidableEq ι] {root : ι → ι} {a b i j : ι}

/-- The component of `b` is given the root of `a`. -/
def joinRoots (root : ι → ι) (a b : ι) : ι → ι := fun i =>
  if root i = root b then root a else root i

/-- What is together after a join was together before, or came from the two that are joined. -/
theorem joinRoots_eq_iff : joinRoots root a b i = joinRoots root a b j ↔
    root i = root j ∨ root i = root a ∧ root j = root b ∨ root i = root b ∧ root j = root a := by
  unfold joinRoots
  by_cases left : root i = root b <;> by_cases right : root j = root b
  · simp [left, right]
  · rw [if_pos left, if_neg right]
    constructor
    · exact fun same => .inr (.inr ⟨left, same.symm⟩)
    · rintro (same | ⟨-, same⟩ | ⟨-, same⟩)
      · exact absurd (same.symm.trans left) right
      · exact absurd same right
      · exact same.symm
  · rw [if_neg left, if_pos right]
    constructor
    · exact fun same => .inr (.inl ⟨same, right⟩)
    · rintro (same | ⟨same, -⟩ | ⟨same, -⟩)
      · exact absurd (same.trans right) left
      · exact same
      · exact absurd same left
  · rw [if_neg left, if_neg right]
    constructor
    · exact .inl
    · rintro (same | ⟨-, same⟩ | ⟨same, -⟩)
      · exact same
      · exact absurd same right
      · exact absurd same left

theorem joinRoots_of_eq (same : root i = root j) : joinRoots root a b i = joinRoots root a b j :=
  joinRoots_eq_iff.mpr (.inl same)

theorem joinRoots_joins : joinRoots root a b a = joinRoots root a b b :=
  joinRoots_eq_iff.mpr (.inr (.inl ⟨rfl, rfl⟩))

/-- Components that lie within an equivalence still do after a join along it. -/
theorem joinRoots_within {r : ι → ι → Prop} (equiv : Equivalence r)
    (within : ∀ i j, root i = root j → r i j) (along : r a b) :
    ∀ i j, joinRoots root a b i = joinRoots root a b j → r i j := by
  intro i j same
  rcases joinRoots_eq_iff.mp same with old | ⟨left, right⟩ | ⟨left, right⟩
  · exact within i j old
  · exact equiv.trans (within i a left) (equiv.trans along (within b j right.symm))
  · exact equiv.trans (within i b left) (equiv.trans (equiv.symm along) (within a j right.symm))

end Clearotron
