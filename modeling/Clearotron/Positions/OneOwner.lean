import Clearotron.Positions.Derive

/-!
# One owner to a position

A number joins two components only where their owners agree, one owner for each identity
standing for the rest. That is enough where agreeing is transitive among the owners that edges
link; it is not, where an owner without a legal form agrees with two that have different ones.
-/

namespace Clearotron

namespace OwnerIdentity

variable {x y : OwnerIdentity}

theorem identical_iff : x.identical y = true ↔
    x.core ≠ [] ∧ x.core = y.core ∧ (x.forms ⊆ y.forms ∨ y.forms ⊆ x.forms) := by
  unfold identical
  rw [Bool.and_eq_true, Bool.and_eq_true, Bool.and_eq_true, decide_eq_true_eq, decide_eq_true_eq,
    decide_eq_true_eq]
  constructor
  · rintro ⟨⟨⟨named, -⟩, same⟩, forms⟩
    refine ⟨named, same, ?_⟩
    split at forms
    · exact .inl (of_decide_eq_true forms)
    · exact .inr (of_decide_eq_true forms)
  · rintro ⟨named, same, forms⟩
    refine ⟨⟨⟨named, same ▸ named⟩, same⟩, ?_⟩
    split
    · rename_i fewer
      rcases forms with sub | sub
      · exact decide_eq_true sub
      · exact decide_eq_true (Finset.eq_of_subset_of_card_le sub fewer).ge
    · rename_i more
      rcases forms with sub | sub
      · exact absurd (Finset.card_le_card sub) more
      · exact decide_eq_true sub

theorem identical_self (named : x.core ≠ []) : x.identical x = true :=
  identical_iff.mpr ⟨named, rfl, .inl (Finset.Subset.refl _)⟩

theorem identical_symm (same : x.identical y = true) : y.identical x = true := by
  obtain ⟨named, core, forms⟩ := identical_iff.mp same
  exact identical_iff.mpr ⟨core ▸ named, core.symm, forms.symm⟩

/-- An owner without a form agrees with every owner of its core. -/
theorem identical_of_no_form (named : x.core ≠ []) (same : x.core = y.core) (none : x.forms = ∅) :
    x.identical y = true :=
  identical_iff.mpr ⟨named, same, .inl (none ▸ Finset.empty_subset _)⟩

theorem core_of_identical (same : x.identical y = true) : x.core ≠ [] ∧ y.core ≠ [] := by
  obtain ⟨named, core, -⟩ := identical_iff.mp same
  exact ⟨named, core ▸ named⟩

end OwnerIdentity

variable {T : OwnerText}

theorem ownerKey_isSome {s : String} :
    (ownerKey T s).isSome = true ↔ (ownerIdentity T s).core ≠ [] := by
  unfold ownerKey
  split
  · simpa using ‹_›
  · simpa using ‹_›

/-- Of the owners of two components, one is kept that agrees with each. -/
structure KeepsOwners (T : OwnerText) (kept more result : List String) : Prop where
  old : kept ⊆ result
  source : ∀ o ∈ result, o ∈ kept ∨ o ∈ more
  covers : ∀ o ∈ more, (ownerIdentity T o).core ≠ [] → ∃ k ∈ result, ownerIdentical T k o = true

theorem keepOwners_spec (kept more : List String) :
    KeepsOwners T kept more (keepOwners T kept more) := by
  unfold keepOwners
  induction more generalizing kept with
  | nil => exact ⟨List.Subset.refl _, fun o mem => .inl mem, nofun⟩
  | cons o more ih =>
      rw [List.foldl_cons]
      split
      · rename_i agrees
        have rest := ih kept
        refine ⟨rest.old, ?_, ?_⟩
        · exact fun p mem => (rest.source p mem).imp_right fun later => List.mem_cons_of_mem _ later
        · intro p mem named
          rcases List.mem_cons.mp mem with rfl | later
          · obtain ⟨k, isKept, same⟩ := List.any_eq_true.mp agrees
            exact ⟨k, rest.old isKept, same⟩
          · exact rest.covers p later named
      · have rest := ih (kept ++ [o])
        refine ⟨fun p mem => rest.old (List.mem_append_left _ mem), ?_, ?_⟩
        · intro p mem
          rcases rest.source p mem with old | later
          · rcases List.mem_append.mp old with old | here
            · exact .inl old
            · exact .inr (List.mem_singleton.mp here ▸ List.mem_cons_self)
          · exact .inr (List.mem_cons_of_mem _ later)
        · intro p mem named
          rcases List.mem_cons.mp mem with rfl | later
          · exact ⟨p, rest.old (List.mem_append_right _ List.mem_cons_self),
              OwnerIdentity.identical_self named⟩
          · exact rest.covers p later named

variable {recs : List BandRecord} {detailByUri : String → RecordDetail}

/-- Two records of one mark. -/
structure OneMark (T : OwnerText) (recs : List BandRecord) (a b : Nat) : Prop where
  left : a < recs.length
  right : b < recs.length
  same : markAt T recs a = markAt T recs b
  named : markAt T recs a ≠ ""

def HasCore (T : OwnerText) (recs : List BandRecord) (i : Nat) : Prop :=
  (ownerIdentity T (ownerAt recs i)).core ≠ []

/-- The owners of two records agree. -/
def Agree (T : OwnerText) (recs : List BandRecord) (a b : Nat) : Prop :=
  ownerIdentical T (ownerAt recs a) (ownerAt recs b) = true

theorem Agree.symm {a b : Nat} (same : Agree T recs a b) : Agree T recs b a :=
  OwnerIdentity.identical_symm same

theorem Agree.hasCore {a b : Nat} (same : Agree T recs a b) : HasCore T recs a ∧ HasCore T recs b :=
  OwnerIdentity.core_of_identical same

theorem HasCore.agree {a : Nat} (named : HasCore T recs a) : Agree T recs a a :=
  OwnerIdentity.identical_self named

theorem byRegNum_eq_some {mark number : String} {j : Nat}
    (found : byRegNum T recs detailByUri mark number = some j) :
    mark ≠ "" ∧ j < recs.length ∧ markAt T recs j = mark := by
  unfold byRegNum at found
  split at found
  · cases found
  · rename_i named
    have isMark := List.find?_some found
    rw [Bool.and_eq_true, decide_eq_true_eq] at isMark
    exact ⟨fun blank => named (.inl blank), List.mem_range.mp (List.mem_of_find?_eq_some found),
      isMark.1⟩

/-- A number binds records of one mark. -/
theorem oneMark_of_numberEdge {e : NumberEdge} (mem : e ∈ numberEdges T recs detailByUri) :
    OneMark T recs e.base e.clone := by
  obtain ⟨i, inRange, mem⟩ := List.mem_flatMap.mp mem
  have of_found : ∀ {number : String} {j : Nat},
      byRegNum T recs detailByUri (markAt T recs i) number = some j → OneMark T recs j i := by
    intro number j found
    obtain ⟨named, within, same⟩ := byRegNum_eq_some found
    exact ⟨within, List.mem_range.mp inRange, same, same ▸ named⟩
  unfold numberEdgesAt at mem
  dsimp only at mem
  rcases List.mem_append.mp mem with clone | ir
  · obtain ⟨n, -, isEdge⟩ := List.mem_filterMap.mp clone
    obtain ⟨digits, -, isEdge⟩ := Option.bind_eq_some_iff.mp isEdge
    obtain ⟨j, found, rfl⟩ := Option.map_eq_some_iff.mp isEdge
    exact of_found found
  · obtain ⟨n, -, isEdge⟩ := List.mem_filterMap.mp ir
    obtain ⟨j, found, rfl⟩ := Option.map_eq_some_iff.mp isEdge
    exact of_found found

theorem bucketAt_eq_some {i : Nat} {key : String × OwnerIdentity}
    (found : bucketAt T recs i = some key) :
    markAt T recs i = key.1 ∧ key.1 ≠ "" ∧ ownerIdentity T (ownerAt recs i) = key.2 ∧
      key.2.core ≠ [] := by
  unfold bucketAt at found
  split at found
  · cases found
  · rename_i named
    obtain ⟨k, isKey, rfl⟩ := Option.map_eq_some_iff.mp found
    unfold ownerKey at isKey
    split at isKey
    · cases isKey
    · rename_i core
      obtain rfl := Option.some.inj isKey
      exact ⟨rfl, named, rfl, core⟩

theorem mem_buckets {key : String × OwnerIdentity} :
    key ∈ buckets T recs ↔ ∃ i < recs.length, bucketAt T recs i = some key := by
  unfold buckets
  rw [List.mem_eraseDups, List.mem_filterMap]
  simp only [List.mem_range]

/-- The first record of a bucket that has one. -/
theorem firstOf_spec {key : String × OwnerIdentity} {i : Nat} (within : i < recs.length)
    (found : bucketAt T recs i = some key) :
    firstOf T recs key < recs.length ∧ bucketAt T recs (firstOf T recs key) = some key := by
  unfold firstOf
  cases first : (List.range recs.length).find? fun i => bucketAt T recs i = some key with
  | none =>
      have := List.find?_eq_none.mp first i (List.mem_range.mpr within)
      simp [found] at this
  | some j =>
      have isFirst := List.find?_some first
      exact ⟨List.mem_range.mp (List.mem_of_find?_eq_some first), of_decide_eq_true isFirst⟩

/-- Mark and owner bind records of one mark whose owners agree. -/
theorem agree_of_markOwnerEdge {e : Nat × Nat} (mem : e ∈ markOwnerEdges T recs) :
    OneMark T recs e.1 e.2 ∧ Agree T recs e.1 e.2 := by
  unfold markOwnerEdges at mem
  rcases List.mem_append.mp mem with bucket | peer
  · obtain ⟨i, inRange, isEdge⟩ := List.mem_filterMap.mp bucket
    obtain ⟨key, found, rfl⟩ := Option.map_eq_some_iff.mp isEdge
    have within := List.mem_range.mp inRange
    obtain ⟨first, isFirst⟩ := firstOf_spec within found
    obtain ⟨mark, named, owner, core⟩ := bucketAt_eq_some found
    obtain ⟨mark', -, owner', -⟩ := bucketAt_eq_some isFirst
    refine ⟨⟨first, within, mark'.trans mark.symm, mark' ▸ named⟩, ?_⟩
    unfold Agree ownerIdentical
    rw [owner', owner]
    exact OwnerIdentity.identical_self core
  · obtain ⟨key, isBucket, isEdge⟩ := List.mem_filterMap.mp peer
    split at isEdge
    · rename_i none
      split at isEdge
      · rename_i other onlyPeer
        obtain rfl := Option.some.inj isEdge
        have isPeer : other ∈ (buckets T recs).filter fun k =>
            k ≠ key ∧ k.1 = key.1 ∧ k.2.core = key.2.core := onlyPeer ▸ List.mem_cons_self
        obtain ⟨isBucket', -, sameMark, sameCore⟩ :=
          (List.mem_filter.mp isPeer).imp_right of_decide_eq_true
        obtain ⟨i, within, found⟩ := mem_buckets.mp isBucket
        obtain ⟨j, within', found'⟩ := mem_buckets.mp isBucket'
        obtain ⟨first, isFirst⟩ := firstOf_spec within found
        obtain ⟨first', isFirst'⟩ := firstOf_spec within' found'
        obtain ⟨mark, named, owner, core⟩ := bucketAt_eq_some isFirst
        obtain ⟨mark', named', owner', -⟩ := bucketAt_eq_some isFirst'
        refine ⟨⟨first', first, ?_, mark' ▸ named'⟩, ?_⟩
        · rw [mark', mark, sameMark]
        · unfold Agree ownerIdentical
          rw [owner', owner]
          exact OwnerIdentity.identical_symm (OwnerIdentity.identical_of_no_form core sameCore.symm none)
      · cases isEdge
    · cases isEdge

theorem OneMark.symm {a b : Nat} (h : OneMark T recs a b) : OneMark T recs b a :=
  ⟨h.right, h.left, h.same.symm, h.same ▸ h.named⟩

theorem OneMark.trans {a b c : Nat} (h : OneMark T recs a b) (h' : OneMark T recs b c) :
    OneMark T recs a c :=
  ⟨h.left, h'.right, h.same.trans h'.same, h.named⟩

/-- A number binds two records, or mark and owner do. -/
def Binds (T : OwnerText) (recs : List BandRecord) (detailByUri : String → RecordDetail)
    (a b : Nat) : Prop :=
  (∃ e ∈ numberEdges T recs detailByUri, e.base = a ∧ e.clone = b) ∨
    (a, b) ∈ markOwnerEdges T recs

/-- Two records that edges lead between, whether the joins they ask for are made or refused. -/
structure Chained (T : OwnerText) (recs : List BandRecord) (detailByUri : String → RecordDetail)
    (a b : Nat) : Prop where
  mark : OneMark T recs a b
  path : Relation.EqvGen (Binds T recs detailByUri) a b

theorem chained_of_numberEdge {e : NumberEdge} (mem : e ∈ numberEdges T recs detailByUri) :
    Chained T recs detailByUri e.base e.clone :=
  ⟨oneMark_of_numberEdge mem, .rel _ _ (.inl ⟨e, mem, rfl, rfl⟩)⟩

theorem chained_of_markOwnerEdge {e : Nat × Nat} (mem : e ∈ markOwnerEdges T recs) :
    Chained T recs detailByUri e.1 e.2 :=
  ⟨(agree_of_markOwnerEdge mem).1, .rel _ _ (.inr mem)⟩

theorem Chained.symm {a b : Nat} (h : Chained T recs detailByUri a b) :
    Chained T recs detailByUri b a :=
  ⟨h.mark.symm, h.path.symm⟩

theorem Chained.trans {a b c : Nat} (h : Chained T recs detailByUri a b)
    (h' : Chained T recs detailByUri b c) : Chained T recs detailByUri a c :=
  ⟨h.mark.trans h'.mark, h.path.trans _ _ _ h'.path⟩

theorem Chained.self {a b : Nat} (h : Chained T recs detailByUri a b) :
    Chained T recs detailByUri a a := h.trans h.symm

/-- Of the owners of chained records, what agrees with one agrees with the other. -/
def AgreeTransitive (T : OwnerText) (recs : List BandRecord)
    (detailByUri : String → RecordDetail) : Prop :=
  ∀ i j k, Chained T recs detailByUri i j → Chained T recs detailByUri j k →
    Agree T recs i j → Agree T recs j k → Agree T recs i k

/-- A component is chained and has one owner, and keeps an owner for it. -/
structure OneOwned (T : OwnerText) (recs : List BandRecord) (detailByUri : String → RecordDetail)
    (g : Grouping) : Prop where
  link : ∀ i j, g.root i = g.root j → i = j ∨ Chained T recs detailByUri i j
  owner : ∀ i j, i < recs.length → g.root i = g.root j → HasCore T recs i → HasCore T recs j →
    Agree T recs i j
  kept : ∀ i < recs.length, HasCore T recs i → ∃ k < recs.length, g.root k = g.root i ∧
    ownerAt recs k ∈ g.ownersOf (g.root i) ∧ Agree T recs k i
  source : ∀ i < recs.length, ∀ o ∈ g.ownersOf (g.root i), ∃ k < recs.length,
    g.root k = g.root i ∧ ownerAt recs k = o ∧ HasCore T recs k

theorem oneOwned_start : OneOwned T recs detailByUri { ownersOf := startOwners T recs } where
  link := fun i j same => .inl same
  owner := by
    rintro i j - rfl named -
    exact named.agree
  kept := by
    intro i within named
    refine ⟨i, within, rfl, ?_, named.agree⟩
    change ownerAt recs i ∈ startOwners T recs i
    unfold startOwners
    rw [if_pos (ownerKey_isSome.mpr named)]
    exact List.mem_cons_self
  source := by
    intro i within o mem
    change o ∈ startOwners T recs i at mem
    unfold startOwners at mem
    split at mem
    · rename_i named
      exact ⟨i, within, rfl, (List.mem_singleton.mp mem).symm, ownerKey_isSome.mp named⟩
    · cases mem

/-- Everything in one component is chained to everything in the other. -/
theorem OneOwned.across {g : Grouping} (owned : OneOwned T recs detailByUri g) {a b i j : Nat}
    (edge : Chained T recs detailByUri a b) (left : g.root i = g.root a) (right : g.root j = g.root b) :
    Chained T recs detailByUri i j := by
  have toA : Chained T recs detailByUri i a := (owned.link i a left).elim (fun same => same ▸ edge.self) id
  have fromB : Chained T recs detailByUri b j :=
    (owned.link b j right.symm).elim (fun same => same ▸ edge.symm.self) id
  exact toA.trans (edge.trans fromB)

/-- The owners a record's component keeps after a join. -/
theorem ownersOf_merged {g : Grouping} {a b : Nat} (apart : g.root a ≠ g.root b) (i : Nat) :
    (g.merged T a b).ownersOf ((g.merged T a b).root i) =
      if g.root i = g.root a ∨ g.root i = g.root b then
        keepOwners T (g.ownersOf (g.root a)) (g.ownersOf (g.root b))
      else g.ownersOf (g.root i) := by
  unfold Grouping.merged
  rw [if_neg apart]
  dsimp only
  by_cases inB : g.root i = g.root b
  · rw [if_pos (.inr inB), show joinRoots g.root a b i = g.root a from if_pos inB,
      Function.update_of_ne apart, Function.update_self]
  · rw [show joinRoots g.root a b i = g.root i from if_neg inB, Function.update_of_ne inB]
    by_cases inA : g.root i = g.root a
    · rw [if_pos (.inl inA), inA, Function.update_self]
    · rw [if_neg (not_or.mpr ⟨inA, inB⟩), Function.update_of_ne inA]

/-- A join of two components whose owners agree. -/
theorem OneOwned.merged {g : Grouping} (owned : OneOwned T recs detailByUri g)
    (transitive : AgreeTransitive T recs detailByUri) {a b : Nat} (edge : Chained T recs detailByUri a b)
    (agree : ∀ i j, i < recs.length → j < recs.length → g.root i = g.root a →
      g.root j = g.root b → HasCore T recs i → HasCore T recs j → Agree T recs i j) :
    OneOwned T recs detailByUri (g.merged T a b) := by
  by_cases apart : g.root a = g.root b
  · unfold Grouping.merged
    rw [if_pos apart]
    exact owned
  have isRoot : (g.merged T a b).root = joinRoots g.root a b := by
    unfold Grouping.merged
    rw [if_neg apart]
  have keeps := keepOwners_spec (T := T) (g.ownersOf (g.root a)) (g.ownersOf (g.root b))
  -- what the join puts together
  have toA : ∀ x, g.root x = g.root a ∨ g.root x = g.root b → Chained T recs detailByUri x a := by
    rintro x (inA | inB)
    · exact owned.across edge.self inA rfl
    · exact (owned.across edge rfl inB).symm
  have together : ∀ x y, g.root x = g.root a ∨ g.root x = g.root b →
      g.root y = g.root a ∨ g.root y = g.root b →
        joinRoots g.root a b x = joinRoots g.root a b y := by
    rintro x y (xA | xB) (yA | yB)
    · exact joinRoots_of_eq (xA.trans yA.symm)
    · exact joinRoots_eq_iff.mpr (.inr (.inl ⟨xA, yB⟩))
    · exact joinRoots_eq_iff.mpr (.inr (.inr ⟨xB, yA⟩))
    · exact joinRoots_of_eq (xB.trans yB.symm)
  constructor
  · intro i j same
    rw [isRoot] at same
    rcases joinRoots_eq_iff.mp same with old | ⟨left, right⟩ | ⟨left, right⟩
    · exact owned.link i j old
    · exact .inr (owned.across edge left right)
    · exact .inr (owned.across edge right left).symm
  · intro i j within same left right
    rw [isRoot] at same
    rcases joinRoots_eq_iff.mp same with old | ⟨inA, inB⟩ | ⟨inB, inA⟩
    · exact owned.owner i j within old left right
    · exact agree i j within (toA j (.inr inB)).mark.left inA inB left right
    · exact (agree j i (toA j (.inl inA)).mark.left within inA inB right left).symm
  · intro i within named
    rw [ownersOf_merged apart, isRoot]
    obtain ⟨k, withinK, sameRoot, isKept, agreeK⟩ := owned.kept i within named
    by_cases inA : g.root i = g.root a
    · rw [if_pos (.inl inA)]
      exact ⟨k, withinK, joinRoots_of_eq sameRoot, keeps.old (inA ▸ isKept), agreeK⟩
    · by_cases inB : g.root i = g.root b
      · -- the owner kept for it agrees with one that is kept for both
        rw [if_pos (.inr inB)]
        obtain ⟨x, isResult, agreeX⟩ :=
          keeps.covers (ownerAt recs k) (inB ▸ isKept) agreeK.hasCore.1
        obtain ⟨l, withinL, inL, rfl⟩ : ∃ l < recs.length,
            (g.root l = g.root a ∨ g.root l = g.root b) ∧ ownerAt recs l = x := by
          rcases keeps.source x isResult with old | new
          · obtain ⟨l, withinL, inL, isOwner, -⟩ := owned.source a edge.mark.left x old
            exact ⟨l, withinL, .inl inL, isOwner⟩
          · obtain ⟨l, withinL, inL, isOwner, -⟩ := owned.source b edge.mark.right x new
            exact ⟨l, withinL, .inr inL, isOwner⟩
        have markK := toA k (.inr (sameRoot.trans inB))
        have markI := toA i (.inr inB)
        exact ⟨l, withinL, together l i inL (.inr inB), isResult,
          transitive l k i ((toA l inL).trans markK.symm) (markK.trans markI.symm) agreeX agreeK⟩
      · rw [if_neg (not_or.mpr ⟨inA, inB⟩)]
        exact ⟨k, withinK, joinRoots_of_eq sameRoot, isKept, agreeK⟩
  · intro i within o mem
    rw [ownersOf_merged apart] at mem
    rw [isRoot]
    split at mem
    · rename_i inEither
      rcases keeps.source o mem with old | new
      · obtain ⟨k, withinK, inK, isOwner, named⟩ := owned.source a edge.mark.left o old
        exact ⟨k, withinK, together k i (.inl inK) inEither, isOwner, named⟩
      · obtain ⟨k, withinK, inK, isOwner, named⟩ := owned.source b edge.mark.right o new
        exact ⟨k, withinK, together k i (.inr inK) inEither, isOwner, named⟩
    · obtain ⟨k, withinK, inK, isOwner, named⟩ := owned.source i within o mem
      exact ⟨k, withinK, joinRoots_of_eq inK, isOwner, named⟩

/-- Where a number may join, everything on one side agrees with everything on the other. -/
theorem OneOwned.agree_of_not_spans {g : Grouping} (owned : OneOwned T recs detailByUri g)
    (transitive : AgreeTransitive T recs detailByUri) {a b : Nat} (edge : Chained T recs detailByUri a b)
    (clear : g.spansDistinctOwners T a b = false) {i j : Nat} (within : i < recs.length)
    (within' : j < recs.length) (left : g.root i = g.root a) (right : g.root j = g.root b)
    (named : HasCore T recs i) (named' : HasCore T recs j) : Agree T recs i j := by
  obtain ⟨k, -, rootK, isKept, agreeK⟩ := owned.kept i within named
  obtain ⟨l, -, rootL, isKept', agreeL⟩ := owned.kept j within' named'
  have between : Agree T recs k l := by
    unfold Grouping.spansDistinctOwners at clear
    have all := List.any_eq_false.mp clear _
      (List.mem_append_left _ (left ▸ isKept : ownerAt recs k ∈ g.ownersOf (g.root a)))
    rw [Bool.not_eq_true] at all
    have one := List.any_eq_false.mp all _
      (List.mem_append_right _ (right ▸ isKept' : ownerAt recs l ∈ g.ownersOf (g.root b)))
    simpa [Agree] using one
  have markIK := owned.across edge.self left (rootK.trans left)
  have markKL := owned.across edge (rootK.trans left) (rootL.trans right)
  have markLJ := owned.across edge.symm.self (rootL.trans right) right
  have agreeIL := transitive i k l markIK markKL agreeK.symm between
  exact transitive i l j (markIK.trans markKL) markLJ agreeIL agreeL

theorem OneOwned.numberEdge {g : Grouping} (owned : OneOwned T recs detailByUri g)
    (transitive : AgreeTransitive T recs detailByUri) {e : NumberEdge}
    (edge : Chained T recs detailByUri e.base e.clone) : OneOwned T recs detailByUri (g.numberEdge T recs e) := by
  unfold Grouping.numberEdge
  split
  · exact owned
  · split
    · unfold Grouping.crossRef
      dsimp only
      split
      · exact owned
      · exact ⟨owned.link, owned.owner, owned.kept, owned.source⟩
    · rename_i clear
      have joined := owned.merged transitive edge fun i j within within' left right named named' =>
        owned.agree_of_not_spans transitive edge (eq_false_of_ne_true clear) within within' left
          right named named'
      exact ⟨joined.link, joined.owner, joined.kept, joined.source⟩

theorem oneOwned_groupRecords (transitive : AgreeTransitive T recs detailByUri) :
    OneOwned T recs detailByUri (groupRecords T recs detailByUri) := by
  unfold groupRecords
  dsimp only
  have numbered : ∀ (edges : List NumberEdge) (g : Grouping), OneOwned T recs detailByUri g →
      (∀ e ∈ edges, Chained T recs detailByUri e.base e.clone) →
        OneOwned T recs detailByUri (edges.foldl (fun g e => g.numberEdge T recs e) g) := by
    intro edges
    induction edges with
    | nil => exact fun g owned _ => owned
    | cons e edges ih =>
        intro g owned marks
        obtain ⟨first, rest⟩ := List.forall_mem_cons.mp marks
        exact ih _ (owned.numberEdge transitive first) rest
  have swept : ∀ (edges : List (Nat × Nat)) (g : Grouping), OneOwned T recs detailByUri g →
      (∀ e ∈ edges, Chained T recs detailByUri e.1 e.2 ∧ Agree T recs e.1 e.2) →
        OneOwned T recs detailByUri (edges.foldl (fun g e => g.merged T e.1 e.2) g) := by
    intro edges
    induction edges with
    | nil => exact fun g owned _ => owned
    | cons e edges ih =>
        intro g owned agree
        obtain ⟨⟨edge, same⟩, rest⟩ := List.forall_mem_cons.mp agree
        refine ih _ (owned.merged transitive edge ?_) rest
        intro i j within within' left right named named'
        have markI := owned.across edge.self left rfl
        have markJ := owned.across edge.symm.self rfl right
        have first := owned.owner i e.1 within left named same.hasCore.1
        have last := owned.owner e.2 j edge.mark.right right.symm same.hasCore.2 named'
        exact transitive i e.1 j markI (edge.trans markJ) first
          (transitive e.1 e.2 j edge markJ same last)
  exact swept _ _ (numbered _ _ oneOwned_start fun e mem => chained_of_numberEdge mem)
    fun e mem => ⟨chained_of_markOwnerEdge mem, (agree_of_markOwnerEdge mem).2⟩

/-- The register prints an owner. -/
def StatesOwner (r : BandRecord) : Prop := Text.trim r.ownerName ≠ ""

/-- Two chained records that state their owners name more than a legal form. -/
def OwnersNamed (T : OwnerText) (recs : List BandRecord)
    (detailByUri : String → RecordDetail) : Prop :=
  ∀ i j, i ≠ j → Chained T recs detailByUri i j → StatesOwner (recAt recs i) → StatesOwner (recAt recs j) →
    HasCore T recs i

/-- Any two records of a position that both state an owner state the same one. -/
def OneOwnerEach (T : OwnerText) (positions : List RegisterPosition) : Prop :=
  ∀ p ∈ positions, p.records.Pairwise fun a b => StatesOwner a → StatesOwner b →
    ownerIdentical T a.ownerName b.ownerName = true

/-- Letters of ASCII. -/
def asciiOwners : OwnerText where
  foldLower s := String.ofList (s.toList.map Char.toLower)
  lower s := s
  letterOrDigit := Char.isAlphanum

def wavo (id owner : String) : BandRecord := { recordId := id, markText := "Wavo", ownerName := owner }

/-- One registration, and two that are based on it. -/
def wavoDetail (id : String) : RecordDetail :=
  if id = "0" then { registrationNumber := "77" } else { basicRegistrationNumbers := ["77"] }

end Clearotron
