import Mathlib.Data.Finset.Card
import Mathlib.Data.List.Forall2
import Clearotron.Findings.FoldFacts

/-!
# Folding a record

A fold keeps every registration and the worst reading, renumbers the findings, and re-points
the actions and the four answers. It does not re-point the answers to the asks, it keeps the
base's deadline where another member's is earlier, and its key compares two texts by their
Latin letters alone where they have one. Where a document meets none of this the fold loses
nothing, and otherwise it does.
-/

namespace Clearotron

namespace Findings

variable {T : FindingTexts} {M : Option Manifest} {fs : List Finding} {f f' b : Finding}
  {g : Group Finding} {k : String} {n : ℕ} {p : ParsedDoc} {r : Folded}

/-- The texts agree up to case, punctuation and spacing. -/
def Same (T : FindingTexts) (a b : String) : Prop :=
  (T.lower a).toList.filter (fun c => !T.apart c) = (T.lower b).toList.filter fun c => !T.apart c

/-- The new ordinal of a finding; where nothing was folded it is the old one. -/
def Folded.target (r : Folded) (n : ℕ) : Option ℕ :=
  match r.map with
  | none => some n
  | some m => m.modelToFolded.get n

/-- The finding was folded into this one. -/
def Folded.Into (r : Folded) (f f' : Finding) : Prop :=
  f' ∈ r.doc.findings ∧ r.target f.ordinal = some f'.ordinal

/-- The citations are the old ones with every known ordinal re-pointed, up to repeats. -/
def Repointed (target : ℕ → Option ℕ) (old new : List ℕ) : Prop :=
  new.eraseDups = (old.map fun n => (target n).getD n).eraseDups

def citedBy (answer : Option FourAnswer) : List ℕ := (answer.bind FourAnswer.ordinals).getD []

/-- Nothing of a document is lost in its fold. -/
structure FoldsWell (T : FindingTexts) (M : Option Manifest) (doc : Doc) (r : Folded) :
    Prop where
  alike : ∀ f ∈ doc.findings, ∀ g ∈ doc.findings, f.ordinal ≠ g.ordinal →
    r.target f.ordinal = r.target g.ordinal →
      f.withdrawn = false ∧ g.withdrawn = false ∧
        Same T (f.owner.name.getD "") (g.owner.name.getD "") ∧ Same T f.mark g.mark
  into : ∀ f ∈ doc.findings, ∃ f', r.Into f f'
  registrations : ∀ f ∈ doc.findings, ∀ f', r.Into f f' → ∀ reg ∈ f.owner.registrations,
    ∃ reg' ∈ f'.owner.registrations, reg' = reg ∨ T.lower (reg.uri.getD "") ≠ "" ∧
      T.lower (reg'.uri.getD "") = T.lower (reg.uri.getD "")
  deadlines : ∀ f ∈ doc.findings, ∀ f', r.Into f f' → ∀ d, f.deadline = some d →
    ∃ e, f'.deadline = some e ∧ T.dateLe e.date d.date = true
  worst : ∀ f ∈ doc.findings, ∀ f', r.Into f f' →
    severity T (frameworkOf doc M) f' ≤ severity T (frameworkOf doc M) f
  ordinals : r.doc.findings.map Finding.ordinal = List.range' 1 r.doc.findings.length
  actions : List.Forall₂ (fun a a' => a' = { a with ordinals := a'.ordinals } ∧
    Repointed r.target a.ordinals a'.ordinals) (doc.actions.getD []) (r.doc.actions.getD [])
  fourAnswers : List.Forall₂ (fun a a' => a'.1 = a.1 ∧
      Repointed r.target (citedBy a.2) (citedBy a'.2))
    (doc.fourAnswers.getD []) (r.doc.fourAnswers.getD [])
  askAnswers : List.Forall₂ (fun a a' => a'.ask = a.ask ∧ a'.answer = a.answer ∧
      Repointed r.target (a.ordinals.getD []) (a'.ordinals.getD []))
    (doc.askAnswers.getD []) (r.doc.askAnswers.getD [])
  conditions : (deriveActionConditions r.doc.actions r.doc.findings).conditions =
      (deriveActionConditions doc.actions doc.findings).conditions ∧
    (deriveActionConditions r.doc.actions r.doc.findings).conditionClauses =
      (deriveActionConditions doc.actions doc.findings).conditionClauses ∧
    (deriveActionConditions r.doc.actions r.doc.findings).advisories =
      (deriveActionConditions doc.actions doc.findings).advisories
  again : (foldRecord T r.doc M).merges = []

/-- Some two findings of the document share a key. -/
def FiledTwice (T : FindingTexts) (doc : Doc) : Prop :=
  ¬ (doc.findings.map (consolidationKey T)).Nodup

/-- The finding is the worst of its conflict, and the first of those. -/
def IsBase (T : FindingTexts) (M : Option Manifest) (fs : List Finding) (b : Finding) :
    Prop :=
  ∀ m ∈ fs, consolidationKey T m = consolidationKey T b → worseLe T M b m = true

/-- What a document meets whose fold loses nothing. -/
structure FoldsSoundly (T : FindingTexts) (M : Option Manifest) (doc : Doc) : Prop where
  /-- findings that share a key are live, and differ in no letter of any script -/
  alike : ∀ f ∈ doc.findings, ∀ g ∈ doc.findings, f.ordinal ≠ g.ordinal →
    consolidationKey T f = consolidationKey T g →
      f.withdrawn = false ∧ g.withdrawn = false ∧
        Same T (f.owner.name.getD "") (g.owner.name.getD "") ∧ Same T f.mark g.mark
  /-- no member of a conflict has an earlier deadline than the worst, if that has one -/
  deadlines : ∀ b ∈ doc.findings, IsBase T (frameworkOf doc M) doc.findings b →
    ∀ m ∈ doc.findings, consolidationKey T m = consolidationKey T b → ∀ d e,
      m.deadline = some d → b.deadline = some e → T.dateLe e.date d.date = true
  /-- a document in which nothing is filed twice is numbered from one -/
  numbered : ¬ FiledTwice T doc →
    doc.findings.map Finding.ordinal = List.range' 1 doc.findings.length
  /-- else the asks cite only findings whose number is the place of their conflict -/
  asks : FiledTwice T doc → ∀ a ∈ doc.askAnswers.getD [], ∀ n ∈ a.ordinals.getD [],
    ∀ f ∈ doc.findings, f.ordinal = n → placeOf T doc.findings f = n
  /-- and no live finding has the key of a withdrawn one, renumbered -/
  apart : FiledTwice T doc → ∀ f ∈ doc.findings, ∀ g ∈ doc.findings, f.withdrawn = false →
    g.withdrawn = true →
      consolidationKey T f ≠ consolidationKey T { g with ordinal := placeOf T doc.findings g }

theorem eraseDups_map_of_injOn {l : List ℕ} {t : ℕ → ℕ}
    (inj : ∀ a ∈ l, ∀ b ∈ l, t a = t b → a = b) :
    (l.map t).eraseDups = l.eraseDups.map t := by
  induction h : l.length using Nat.strongRecOn generalizing l with
  | _ size ih =>
    match l with
    | [] => rfl
    | a :: rest =>
      have others : (rest.map t).filter (fun b => !b == t a) =
          (rest.filter fun b => !b == a).map t := by
        rw [List.filter_map]
        refine congrArg (List.map t) (List.filter_congr fun b mem => ?_)
        by_cases same : b = a
        · simp [same]
        · have moved : t b ≠ t a := fun e =>
            same (inj b (List.mem_cons_of_mem a mem) a List.mem_cons_self e)
          simp [same, moved]
      rw [List.map_cons, List.eraseDups_cons, List.eraseDups_cons, List.map_cons, others]
      have shorter := List.length_filter_le (fun b => !b == a) rest
      rw [List.length_cons] at h
      refine congrArg (t a :: ·) (ih _ (by omega) (fun b hb c hc => ?_) rfl)
      exact inj b (List.mem_cons_of_mem a (List.mem_filter.mp hb).1) c
        (List.mem_cons_of_mem a (List.mem_filter.mp hc).1)

theorem eraseDups_eraseDups (l : List ℕ) : l.eraseDups.eraseDups = l.eraseDups := by
  induction h : l.length using Nat.strongRecOn generalizing l with
  | _ size ih =>
    match l with
    | [] => rfl
    | a :: rest =>
      have shorter := List.length_filter_le (fun b => !b == a) rest
      rw [List.length_cons] at h
      have others : ((rest.filter fun b => !b == a).eraseDups).filter (fun b => !b == a) =
          (rest.filter fun b => !b == a).eraseDups :=
        List.filter_eq_self.mpr fun b mem =>
          (List.mem_filter.mp (List.mem_eraseDups.mp mem)).2
      rw [List.eraseDups_cons, List.eraseDups_cons, others, ih _ (by omega) _ rfl]

/-- Citations that are as they were have all kept their numbers. -/
theorem eq_of_repointed {l : List ℕ} {t : ℕ → ℕ} (same : l.eraseDups = (l.map t).eraseDups) :
    ∀ n ∈ l, t n = n := by
  have image : l.toFinset.image t = l.toFinset := by
    ext n
    rw [Finset.mem_image, List.mem_toFinset, ← List.mem_eraseDups, same, List.mem_eraseDups,
      List.mem_map]
    simp
  have inj : Set.InjOn t l.toFinset := Finset.card_image_iff.mp (by rw [image])
  rw [eraseDups_map_of_injOn fun a ha b hb e =>
    inj (by simpa using ha) (by simpa using hb) e] at same
  intro n mem
  have fixed : l.eraseDups.map t = l.eraseDups.map id := by rw [List.map_id, ← same]
  exact List.map_inj_left.mp fixed n (List.mem_eraseDups.mpr mem)

theorem takeWhile_digits (front : String) (n : ℕ) :
    ((front ++ "|~withdrawn~" ++ toString n).toList.reverse).takeWhile Char.isDigit =
      (toString n).toList.reverse := by
  have digits : ∀ c ∈ (toString n).toList.reverse, c.isDigit = true := by
    intro c mem
    rw [List.mem_reverse] at mem
    refine Nat.isDigit_of_mem_toDigits (b := 10) (n := n) (by decide) (by decide) ?_
    simpa [Nat.repr] using mem
  have front' : (front ++ "|~withdrawn~").toList.reverse =
      '~' :: (front ++ "|~withdrawn").toList.reverse := by
    simp [String.toList_append]
  rw [String.toList_append, List.reverse_append, List.takeWhile_append_of_pos digits, front',
    List.takeWhile_cons_of_neg (by decide), List.append_nil]

/-- The keys of withdrawn findings tell their ordinals. -/
theorem ordinal_of_key (hf : f.withdrawn = true) (hb : b.withdrawn = true)
    (same : consolidationKey T f = consolidationKey T b) : f.ordinal = b.ordinal := by
  unfold consolidationKey at same
  rw [if_pos hf, if_pos hb, ← String.append_assoc, ← String.append_assoc] at same
  have digits := takeWhile_digits (foldKey T (f.owner.name.getD "") ++ "|" ++ foldKey T f.mark)
    f.ordinal
  rw [same, takeWhile_digits, List.reverse_inj] at digits
  exact (Nat.repr_injective (String.toList_injective digits)).symm

theorem key_of_live (live : f.withdrawn = false) : consolidationKey T f =
    foldKey T (f.owner.name.getD "") ++ "|" ++ foldKey T f.mark ++ "" := by
  rw [consolidationKey, if_neg (by simp [live])]

theorem finding_unique (once : (fs.map Finding.ordinal).Nodup) (hf : f ∈ fs) (hb : b ∈ fs)
    (same : f.ordinal = b.ordinal) : f = b := List.inj_on_of_nodup_map once hf hb same

theorem repointed_self {target : ℕ → Option ℕ} (keeps : ∀ n, target n = some n) (old : List ℕ) :
    Repointed target old old := by
  unfold Repointed
  simp only [keeps, Option.getD_some, List.map_id']

theorem foldsWell_same (single : ¬ FiledTwice T p.doc) :
    FoldsWell T M p.doc { doc := p.doc } ↔ FoldsSoundly T M p.doc := by
  have nodup := Classical.not_not.mp single
  have keeps (n : ℕ) : Folded.target { doc := p.doc } n = some n := rfl
  have into {f f' : Finding} (mem : f ∈ p.doc.findings)
      (h : Folded.Into { doc := p.doc } f f') : f' = f :=
    finding_unique p.once h.1 mem (Option.some.inj h.2).symm
  have key {f b : Finding} (hf : f ∈ p.doc.findings) (hb : b ∈ p.doc.findings)
      (same : consolidationKey T f = consolidationKey T b) : f = b :=
    List.inj_on_of_nodup_map nodup hf hb same
  have refl (s : String) : T.dateLe s s = true := by simpa using T.dateLe_total s s
  constructor
  · intro well
    refine ⟨fun f hf b hb ne same => absurd (congrArg _ (key hf hb same)) ne,
      fun b hb _ m hm same d e has has' => ?_, fun _ => well.ordinals,
      fun twice => absurd twice single, fun twice => absurd twice single⟩
    obtain rfl := key hm hb same
    obtain rfl := Option.some.inj (has.symm.trans has')
    exact refl _
  · intro sound
    exact
      { alike := fun f _ b _ ne same => absurd (Option.some.inj same) ne
        into := fun f mem => ⟨f, mem, rfl⟩
        registrations := fun f mem f' h reg there => ⟨reg, (into mem h) ▸ there, .inl rfl⟩
        deadlines := fun f mem f' h d has => ⟨d, (into mem h) ▸ has, refl _⟩
        worst := fun f mem f' h => (into mem h) ▸ le_rfl
        ordinals := sound.numbered single
        actions := List.forall₂_same.mpr fun a _ => ⟨rfl, repointed_self keeps _⟩
        fourAnswers := List.forall₂_same.mpr fun a _ => ⟨rfl, repointed_self keeps _⟩
        askAnswers := List.forall₂_same.mpr fun a _ => ⟨rfl, rfl, repointed_self keeps _⟩
        conditions := ⟨rfl, rfl, rfl⟩
        again := by rw [foldRecord_same nodup] }

section Twice

variable (twice : FiledTwice T p.doc)

include twice

theorem target_folds (mem : f ∈ p.doc.findings) :
    (foldRecord T p.doc M).target f.ordinal = some (placeOf T p.doc.findings f) := by
  rw [foldRecord_folds twice]
  exact get_ordinalMap (frameworkOf p.doc M) p.once mem

theorem target_folds_none (other : n ∉ p.doc.findings.map Finding.ordinal) :
    (foldRecord T p.doc M).target n = none := by
  rw [foldRecord_folds twice]
  exact get_ordinalMap_none (frameworkOf p.doc M) other

theorem mem_folds : f' ∈ (foldRecord T p.doc M).doc.findings ↔
    ∃ k g, (k, g) ∈ (conflicts T p.doc.findings).entries ∧
      f' = foldedAt T (frameworkOf p.doc M) p.doc.findings k g := by
  rw [foldRecord_folds twice]
  exact mem_consolidated

/-- A finding is folded into what its conflict is folded into. -/
theorem into_folds (mem : f ∈ p.doc.findings)
    (group : (consolidationKey T f, g) ∈ (conflicts T p.doc.findings).entries) :
    (foldRecord T p.doc M).Into f f' ↔
      f' = foldedAt T (frameworkOf p.doc M) p.doc.findings (consolidationKey T f) g := by
  rw [Folded.Into, mem_folds twice, target_folds twice mem]
  constructor
  · rintro ⟨⟨k, g', group', rfl⟩, same⟩
    have place : (conflicts T p.doc.findings).keys.idxOf (consolidationKey T f) =
        (conflicts T p.doc.findings).keys.idxOf k := Nat.succ.inj (Option.some.inj same)
    obtain rfl : consolidationKey T f = k :=
      (List.idxOf_inj (Keyed.mem_keys_of_mem group)).mp place
    rw [Keyed.value_unique group' group]
  · rintro rfl
    exact ⟨⟨_, g, group, rfl⟩, rfl⟩

end Twice

section Citations

variable (twice : FiledTwice T p.doc)

include twice

/-- The actions cite only known findings, so all of them are kept and re-pointed. -/
theorem actions_folds : (foldRecord T p.doc M).doc.actions.getD [] =
    (p.doc.actions.getD []).map fun a =>
      { a with
        ordinals := (a.ordinals.filterMap (foldRecord T p.doc M).target).eraseDups } := by
  have known := p.known
  have target (n : ℕ) : (foldRecord T p.doc M).target n =
      (consolidateFindings T p.doc.findings (frameworkOf p.doc M)).ordinalMap.get n := by
    rw [foldRecord_folds twice]
    rfl
  have mapped (n : ℕ) (mem : n ∈ p.doc.findings.map Finding.ordinal) :
      (foldRecord T p.doc M).target n ≠ none := by
    obtain ⟨f, there, rfl⟩ := List.mem_map.mp mem
    rw [target_folds twice there]
    exact Option.some_ne_none _
  simp only [target] at mapped ⊢
  rw [foldRecord_folds twice]
  dsimp only
  cases actions : p.doc.actions with
  | none => rfl
  | some actions' =>
    rw [actions] at known
    rw [Option.map_some, Option.getD_some, Option.getD_some, remapActionOrdinals,
      ← List.filterMap_eq_map]
    refine List.filterMap_congr fun a mem => ?_
    dsimp only [Function.comp_apply]
    rw [if_neg]
    rintro ⟨cites, none'⟩
    obtain ⟨n, rest, split⟩ := List.exists_cons_of_ne_nil cites
    have there : n ∈ a.ordinals := by rw [split]; exact List.mem_cons_self
    obtain ⟨v, is⟩ := Option.ne_none_iff_exists'.mp (mapped n (known a mem n there))
    have cited : v ∈ (a.ordinals.filterMap
        (consolidateFindings T p.doc.findings (frameworkOf p.doc M)).ordinalMap.get).eraseDups :=
      List.mem_eraseDups.mpr (List.mem_filterMap.mpr ⟨n, there, is⟩)
    rw [none'] at cited
    cases cited

theorem repointed_actions : List.Forall₂ (fun a a' => a' = { a with ordinals := a'.ordinals } ∧
      Repointed (foldRecord T p.doc M).target a.ordinals a'.ordinals)
    (p.doc.actions.getD []) ((foldRecord T p.doc M).doc.actions.getD []) := by
  rw [actions_folds twice, List.forall₂_map_right_iff, List.forall₂_same]
  intro a mem
  refine ⟨rfl, ?_⟩
  rw [Repointed, eraseDups_eraseDups, ← List.filterMap_eq_map]
  congr 1
  refine List.filterMap_congr fun n cited => ?_
  obtain ⟨f, there, rfl⟩ := List.mem_map.mp (p.known a mem n cited)
  rw [Function.comp_apply, target_folds twice there, Option.getD_some]

theorem repointed_fourAnswers : List.Forall₂ (fun a a' => a'.1 = a.1 ∧
      Repointed (foldRecord T p.doc M).target (citedBy a.2) (citedBy a'.2))
    (p.doc.fourAnswers.getD []) ((foldRecord T p.doc M).doc.fourAnswers.getD []) := by
  have target (n : ℕ) : (foldRecord T p.doc M).target n =
      (consolidateFindings T p.doc.findings (frameworkOf p.doc M)).ordinalMap.get n := by
    rw [foldRecord_folds twice]
    rfl
  simp only [Repointed, target]
  rw [foldRecord_folds twice]
  dsimp only
  cases p.doc.fourAnswers with
  | none => exact .nil
  | some answers =>
    rw [Option.map_some, Option.getD_some, Option.getD_some, remapFourAnswersOrdinals,
      List.forall₂_map_right_iff, List.forall₂_same]
    rintro ⟨key, answer⟩ -
    refine ⟨rfl, ?_⟩
    cases answer with
    | none => rfl
    | some answer =>
      obtain ⟨_, _, _, ordinals⟩ := answer
      cases ordinals with
      | none => rfl
      | some ordinals => exact eraseDups_eraseDups _

/-- The answers to the asks are re-pointed where their findings have kept their numbers. -/
theorem repointed_askAnswers : List.Forall₂ (fun a a' => a'.ask = a.ask ∧ a'.answer = a.answer ∧
        Repointed (foldRecord T p.doc M).target (a.ordinals.getD [])
          (a'.ordinals.getD []))
      (p.doc.askAnswers.getD []) ((foldRecord T p.doc M).doc.askAnswers.getD []) ↔
    ∀ a ∈ p.doc.askAnswers.getD [], ∀ n ∈ a.ordinals.getD [],
      ∀ f ∈ p.doc.findings, f.ordinal = n → placeOf T p.doc.findings f = n := by
  have same : (foldRecord T p.doc M).doc.askAnswers = p.doc.askAnswers := by
    rw [foldRecord_folds twice]
  rw [same, List.forall₂_same]
  refine forall_congr' fun a => forall_congr' fun _ => ?_
  constructor
  · rintro ⟨-, -, repointed⟩ n cited f mem rfl
    have kept := eq_of_repointed repointed f.ordinal cited
    rw [target_folds twice mem] at kept
    exact kept
  · intro kept
    refine ⟨rfl, rfl, ?_⟩
    have fixed : ∀ n ∈ a.ordinals.getD [],
        ((foldRecord T p.doc M).target n).getD n = id n := by
      intro n cited
      by_cases known : n ∈ p.doc.findings.map Finding.ordinal
      · obtain ⟨f, mem, rfl⟩ := List.mem_map.mp known
        rw [target_folds twice mem, Option.getD_some, kept f.ordinal cited f mem rfl, id]
      · rw [target_folds_none twice known, Option.getD_none, id]
    rw [Repointed, List.map_congr_left fixed, List.map_id]

end Citations

/-- Findings that share a key are live. -/
def Uniform (T : FindingTexts) (fs : List Finding) : Prop :=
  ∀ f ∈ fs, ∀ b ∈ fs, f.ordinal ≠ b.ordinal → consolidationKey T f = consolidationKey T b →
    f.withdrawn = false ∧ b.withdrawn = false

section Uniform

variable (once : (fs.map Finding.ordinal).Nodup) (uniform : Uniform T fs)

include once uniform

/-- A conflict is withdrawn as its members are. -/
theorem withdrawn_foldedAt (group : (k, g) ∈ (conflicts T fs).entries) (mem : f ∈ g.members) :
    (foldedAt T M fs k g).withdrawn = f.withdrawn := by
  obtain ⟨there, key⟩ := (mem_members_iff group).mp mem
  obtain ⟨base, key'⟩ := (mem_members_iff group).mp (baseOf_mem (T := T) (M := M))
  have same : (foldedAt T M fs k g).withdrawn = (baseOf T M g).withdrawn := by
    rw [Finding.withdrawn, foldedAt, Finding.withdrawn, (foldGroup_base T M g).2.2.1]
  rw [same]
  by_cases one : f.ordinal = (baseOf T M g).ordinal
  · rw [finding_unique once there base one]
  · obtain ⟨live, live'⟩ := uniform f there _ base one (key.trans key'.symm)
    rw [live, live']

/-- The key of what a conflict is folded into: its own, or that of its one member, renumbered. -/
theorem key_foldedAt (group : (k, g) ∈ (conflicts T fs).entries) (mem : f ∈ g.members) :
    consolidationKey T (foldedAt T M fs k g) =
      if f.withdrawn then consolidationKey T { f with ordinal := placeOf T fs f } else k := by
  obtain ⟨there, key⟩ := (mem_members_iff group).mp mem
  obtain ⟨base, key'⟩ := (mem_members_iff group).mp (baseOf_mem (T := T) (M := M))
  have withdrawn := withdrawn_foldedAt (M := M) once uniform group mem
  obtain ⟨mark, owner, -⟩ := foldGroup_base T M g
  split
  · rename_i gone
    have one : f.ordinal = (baseOf T M g).ordinal := by
      by_contra apart
      have live := (uniform f there _ base apart (key.trans key'.symm)).1
      rw [live] at gone
      cases gone
    obtain rfl := finding_unique once there base one
    unfold consolidationKey
    rw [withdrawn]
    simp only [foldedAt, mark, owner, placeOf, key, Finding.withdrawn]
  · rename_i live
    have live : f.withdrawn = false := by simpa using live
    have base' : (baseOf T M g).withdrawn = false := by
      by_cases one : f.ordinal = (baseOf T M g).ordinal
      · rw [← finding_unique once there base one, live]
      · exact (uniform f there _ base one (key.trans key'.symm)).2
    rw [key_of_live (withdrawn.trans live), ← key', key_of_live base']
    simp only [foldedAt, mark, owner]

/-- Where no live finding has the key of a withdrawn one, renumbered, nothing is folded again. -/
theorem nodup_consolidated
    (apart : ∀ f ∈ fs, ∀ b ∈ fs, f.withdrawn = false → b.withdrawn = true →
      consolidationKey T f ≠ consolidationKey T { b with ordinal := placeOf T fs b }) :
    ((consolidateFindings T fs M).findings.map (consolidationKey T)).Nodup := by
  rw [consolidateFindings, List.map_map]
  refine List.Nodup.map_on ?_ ?_
  · rintro ⟨⟨k, g⟩, i⟩ hi ⟨⟨k', g'⟩, j⟩ hj same
    replace hi : (conflicts T fs).entries[i]? = some (k, g) := List.mem_zipIdx_iff_getElem?.mp hi
    replace hj : (conflicts T fs).entries[j]? = some (k', g') :=
      List.mem_zipIdx_iff_getElem?.mp hj
    have group := List.mem_of_getElem? hi
    have group' := List.mem_of_getElem? hj
    have same : consolidationKey T (foldedAt T M fs k g) =
        consolidationKey T (foldedAt T M fs k' g') := by
      rw [foldedAt, foldedAt, idxOf_conflict hi, idxOf_conflict hj]
      exact same
    obtain ⟨there, key⟩ := (mem_members_iff group).mp (List.mem_cons_self : g.first ∈ g.members)
    obtain ⟨there', key'⟩ :=
      (mem_members_iff group').mp (List.mem_cons_self : g'.first ∈ g'.members)
    rw [key_foldedAt once uniform group List.mem_cons_self,
      key_foldedAt once uniform group' List.mem_cons_self] at same
    have index : i = j := by
      by_cases gone : g.first.withdrawn = true
      · rw [if_pos gone] at same
        by_cases gone' : g'.first.withdrawn = true
        · rw [if_pos gone'] at same
          have place : placeOf T fs g.first = placeOf T fs g'.first :=
            ordinal_of_key (f := { g.first with ordinal := placeOf T fs g.first })
              (b := { g'.first with ordinal := placeOf T fs g'.first }) gone gone' same
          rw [placeOf, placeOf, key, key', idxOf_conflict hi, idxOf_conflict hj] at place
          exact Nat.succ.inj place
        · rw [if_neg gone', ← key'] at same
          exact absurd same.symm (apart _ there' _ there (by simpa using gone') gone)
      · rw [if_neg gone, ← key] at same
        by_cases gone' : g'.first.withdrawn = true
        · rw [if_pos gone'] at same
          exact absurd same (apart _ there _ there' (by simpa using gone) gone')
        · rw [if_neg gone', key] at same
          rw [← idxOf_conflict hi, same, idxOf_conflict hj]
    subst index
    rw [Option.some.inj (hi.symm.trans hj)]
  · refine List.Nodup.of_map Prod.snd ?_
    rw [List.zipIdx_map_snd]
    exact List.nodup_range'

end Uniform

section Clauses

variable (twice : FiledTwice T p.doc)

theorem placeOf_inj (hf : f ∈ fs) (hb : b ∈ fs) :
    placeOf T fs f = placeOf T fs b ↔ consolidationKey T f = consolidationKey T b := by
  obtain ⟨g, group, -⟩ := exists_group (consolidationKey T) hf
  rw [placeOf, placeOf, Nat.add_right_cancel_iff]
  exact List.idxOf_inj (Keyed.mem_keys_of_mem group)

/-- The bases are the findings that conflicts are folded into. -/
theorem isBase_iff (once : (fs.map Finding.ordinal).Nodup) (mem : b ∈ fs)
    (group : (consolidationKey T b, g) ∈ (conflicts T fs).entries) :
    IsBase T M fs b ↔ b = baseOf T M g := by
  have members {m : Finding} : m ∈ g.members ↔ m ∈ fs ∧ consolidationKey T m =
    consolidationKey T b := mem_members_iff group
  constructor
  · intro worst
    obtain ⟨there, key⟩ := members.mp (baseOf_mem (T := T) (M := M))
    have before := worst _ there key
    have after := worseLe_baseOf (T := T) (M := M) b (members.mpr ⟨mem, rfl⟩)
    simp only [worseLe, Bool.or_eq_true, Bool.and_eq_true, decide_eq_true_eq] at before after
    exact finding_unique once mem there (by omega)
  · intro is m hm key
    rw [is]
    exact worseLe_baseOf m (members.mpr ⟨hm, key⟩)

include twice

theorem alike_iff :
    (∀ f ∈ p.doc.findings, ∀ b ∈ p.doc.findings, f.ordinal ≠ b.ordinal →
        (foldRecord T p.doc M).target f.ordinal =
            (foldRecord T p.doc M).target b.ordinal →
          f.withdrawn = false ∧ b.withdrawn = false ∧
            Same T (f.owner.name.getD "") (b.owner.name.getD "") ∧ Same T f.mark b.mark) ↔
      ∀ f ∈ p.doc.findings, ∀ b ∈ p.doc.findings, f.ordinal ≠ b.ordinal →
        consolidationKey T f = consolidationKey T b →
          f.withdrawn = false ∧ b.withdrawn = false ∧
            Same T (f.owner.name.getD "") (b.owner.name.getD "") ∧ Same T f.mark b.mark := by
  refine forall₂_congr fun f hf => forall₂_congr fun b hb => forall_congr' fun _ => ?_
  rw [target_folds twice hf, target_folds twice hb, Option.some.injEq, placeOf_inj hf hb]

theorem deadlines_iff :
    (∀ f ∈ p.doc.findings, ∀ f', (foldRecord T p.doc M).Into f f' → ∀ d,
        f.deadline = some d → ∃ e, f'.deadline = some e ∧ T.dateLe e.date d.date = true) ↔
      ∀ b ∈ p.doc.findings, IsBase T (frameworkOf p.doc M) p.doc.findings b →
        ∀ m ∈ p.doc.findings, consolidationKey T m = consolidationKey T b → ∀ d e,
          m.deadline = some d → b.deadline = some e → T.dateLe e.date d.date = true := by
  have dated {k : String} {g : Group Finding}
      (group : (k, g) ∈ (conflicts T p.doc.findings).entries) :
      ∀ m ∈ g.members, ∀ d, m.deadline = some d → Text.trim d.date ≠ "" :=
    fun m mem => p.dated m ((mem_members_iff group).mp mem).1
  constructor
  · intro kept b hb base m hm key d e has has'
    obtain ⟨g, group, member⟩ := exists_group (consolidationKey T) hb
    have is := (isBase_iff p.once hb group).mp base
    refine (deadline_foldGroup (M := frameworkOf p.doc M) (dated group)).mp
      (fun x hx d' has'' => ?_) m ((mem_members_iff group).mpr ⟨hm, key⟩) d e has (is ▸ has')
    obtain ⟨hx, key'⟩ := (mem_members_iff group).mp hx
    have group' : (consolidationKey T x, g) ∈ (conflicts T p.doc.findings).entries := by
      rw [key']
      exact group
    exact kept x hx _ ((into_folds twice hx group').mpr rfl) d' has''
  · intro early f hf f' into d has
    obtain ⟨g, group, member⟩ := exists_group (consolidationKey T) hf
    obtain rfl := (into_folds twice hf group).mp into
    refine (deadline_foldGroup (M := frameworkOf p.doc M) (dated group)).mpr
      (fun x hx d' e has'' has' => ?_) f member d has
    obtain ⟨hb, key⟩ := (mem_members_iff group).mp
      (baseOf_mem (T := T) (M := frameworkOf p.doc M))
    obtain ⟨hx, key'⟩ := (mem_members_iff group).mp hx
    have group' : (consolidationKey T (baseOf T (frameworkOf p.doc M) g), g) ∈
        (conflicts T p.doc.findings).entries := by
      rw [key]
      exact group
    exact early _ hb ((isBase_iff p.once hb group').mpr rfl) x hx (key'.trans key.symm) d' e
      has'' has'

theorem registrations_folds (hf : f ∈ p.doc.findings)
    (into : (foldRecord T p.doc M).Into f f') :
    ∀ reg ∈ f.owner.registrations, ∃ reg' ∈ f'.owner.registrations, reg' = reg ∨
      T.lower (reg.uri.getD "") ≠ "" ∧
        T.lower (reg'.uri.getD "") = T.lower (reg.uri.getD "") := by
  obtain ⟨g, group, member⟩ := exists_group (consolidationKey T) hf
  obtain rfl := (into_folds twice hf group).mp into
  exact fun reg there => registrations_foldGroup member there

theorem worst_folds (hf : f ∈ p.doc.findings)
    (into : (foldRecord T p.doc M).Into f f') :
    severity T (frameworkOf p.doc M) f' ≤ severity T (frameworkOf p.doc M) f := by
  obtain ⟨g, group, member⟩ := exists_group (consolidationKey T) hf
  obtain rfl := (into_folds twice hf group).mp into
  exact severity_foldedAt member

variable (uniform : Uniform T p.doc.findings)

include uniform

/-- The new ordinal of a finding is that of a withdrawn one where its own is. -/
theorem withdrawn_folds (hf : f ∈ p.doc.findings) :
    placeOf T p.doc.findings f ∈
        ((foldRecord T p.doc M).doc.findings.filter Finding.withdrawn).map
          Finding.ordinal ↔
      f.ordinal ∈ (p.doc.findings.filter Finding.withdrawn).map Finding.ordinal := by
  obtain ⟨g, group, member⟩ := exists_group (consolidationKey T) hf
  have same := withdrawn_foldedAt (M := frameworkOf p.doc M) p.once uniform group
    member
  rw [List.mem_map, List.mem_map]
  constructor
  · rintro ⟨f', there, place⟩
    obtain ⟨there, gone⟩ := List.mem_filter.mp there
    have into : (foldRecord T p.doc M).Into f f' :=
      ⟨there, by rw [target_folds twice hf, place]⟩
    obtain rfl := (into_folds twice hf group).mp into
    exact ⟨f, List.mem_filter.mpr ⟨hf, same.symm.trans gone⟩, rfl⟩
  · rintro ⟨f', there, ordinal⟩
    obtain ⟨there, gone⟩ := List.mem_filter.mp there
    obtain rfl := finding_unique p.once there hf ordinal
    exact ⟨_, List.mem_filter.mpr ⟨(mem_folds twice).mpr ⟨_, g, group, rfl⟩, same.trans gone⟩,
      rfl⟩

/-- An action lives after the fold as before. -/
theorem live_folds {a : Action} (mem : a ∈ p.doc.actions.getD []) :
    Action.live (foldRecord T p.doc M).doc.findings
        { a with
          ordinals := (a.ordinals.filterMap (foldRecord T p.doc M).target).eraseDups } =
      Action.live p.doc.findings a := by
  have cites (v : ℕ) :
      v ∈ (a.ordinals.filterMap (foldRecord T p.doc M).target).eraseDups ↔
        ∃ f ∈ p.doc.findings, f.ordinal ∈ a.ordinals ∧ v = placeOf T p.doc.findings f := by
    rw [List.mem_eraseDups, List.mem_filterMap]
    constructor
    · rintro ⟨n, cited, is⟩
      obtain ⟨f, there, rfl⟩ := List.mem_map.mp (p.known a mem n cited)
      rw [target_folds twice there] at is
      exact ⟨f, there, cited, (Option.some.inj is).symm⟩
    · rintro ⟨f, there, cited, rfl⟩
      exact ⟨f.ordinal, cited, target_folds twice there⟩
  have empty : (a.ordinals.filterMap (foldRecord T p.doc M).target).eraseDups = [] ↔
      a.ordinals = [] := by
    rw [List.eq_nil_iff_forall_not_mem, List.eq_nil_iff_forall_not_mem]
    constructor
    · intro none' n cited
      obtain ⟨f, there, rfl⟩ := List.mem_map.mp (p.known a mem n cited)
      exact none' _ ((cites _).mpr ⟨f, there, cited, rfl⟩)
    · rintro none' v cited
      obtain ⟨f, -, cited, -⟩ := (cites v).mp cited
      exact none' _ cited
  rw [Bool.eq_iff_iff, Action.live, Action.live, Bool.or_eq_true, Bool.or_eq_true,
    decide_eq_true_eq, decide_eq_true_eq, List.any_eq_true, List.any_eq_true, empty]
  simp only [Bool.not_eq_true', List.contains_eq_mem, decide_eq_false_iff_not]
  refine or_congr_right ⟨?_, ?_⟩
  · rintro ⟨v, cited', live⟩
    obtain ⟨f, there, cited, rfl⟩ := (cites v).mp cited'
    exact ⟨f.ordinal, cited, fun gone => live ((withdrawn_folds twice uniform there).mpr gone)⟩
  · rintro ⟨n, cited, live⟩
    obtain ⟨f, there, rfl⟩ := List.mem_map.mp (p.known a mem n cited)
    exact ⟨_, (cites _).mpr ⟨f, there, cited, rfl⟩, fun gone =>
      live ((withdrawn_folds twice uniform there).mp gone)⟩

theorem conditions_folds :
    (deriveActionConditions (foldRecord T p.doc M).doc.actions
          (foldRecord T p.doc M).doc.findings).conditions =
        (deriveActionConditions p.doc.actions p.doc.findings).conditions ∧
      (deriveActionConditions (foldRecord T p.doc M).doc.actions
          (foldRecord T p.doc M).doc.findings).conditionClauses =
        (deriveActionConditions p.doc.actions p.doc.findings).conditionClauses ∧
      (deriveActionConditions (foldRecord T p.doc M).doc.actions
          (foldRecord T p.doc M).doc.findings).advisories =
        (deriveActionConditions p.doc.actions p.doc.findings).advisories := by
  have live : ((foldRecord T p.doc M).doc.actions.getD []).filter
        (Action.live (foldRecord T p.doc M).doc.findings) =
      ((p.doc.actions.getD []).filter (Action.live p.doc.findings)).map fun a =>
        { a with
          ordinals := (a.ordinals.filterMap (foldRecord T p.doc M).target).eraseDups } := by
    rw [actions_folds twice, List.filter_map]
    exact congrArg _ (List.filter_congr fun a mem => live_folds twice uniform mem)
  simp only [deriveActionConditions, live, List.filter_map, List.map_map]
  exact ⟨rfl, rfl, rfl⟩

end Clauses

/-- A second fold merges nothing exactly where no live finding has the key of a withdrawn one,
renumbered. -/
theorem again_iff (twice : FiledTwice T p.doc) (uniform : Uniform T p.doc.findings) :
    (foldRecord T (foldRecord T p.doc M).doc M).merges = [] ↔
      ∀ f ∈ p.doc.findings, ∀ b ∈ p.doc.findings, f.withdrawn = false → b.withdrawn = true →
        consolidationKey T f ≠
          consolidationKey T { b with ordinal := placeOf T p.doc.findings b } := by
  constructor
  · intro once' f hf b hb live gone same
    have nodup : ((foldRecord T p.doc M).doc.findings.map (consolidationKey T)).Nodup := by
      by_contra twice'
      rw [foldRecord_folds twice', merges_eq_nil_iff] at once'
      exact twice' once'
    obtain ⟨g, group, member⟩ := exists_group (consolidationKey T) hf
    obtain ⟨g', group', member'⟩ := exists_group (consolidationKey T) hb
    have key := key_foldedAt (M := frameworkOf p.doc M) p.once uniform group member
    have key' := key_foldedAt (M := frameworkOf p.doc M) p.once uniform group'
      member'
    rw [if_neg (by simp [live])] at key
    rw [if_pos gone, ← same] at key'
    have one := List.inj_on_of_nodup_map nodup ((mem_folds twice).mpr ⟨_, g, group, rfl⟩)
      ((mem_folds twice).mpr ⟨_, g', group', rfl⟩) (key.trans key'.symm)
    have place : placeOf T p.doc.findings f = placeOf T p.doc.findings b :=
      congrArg Finding.ordinal one
    by_cases ordinal : f.ordinal = b.ordinal
    · rw [finding_unique p.once hf hb ordinal, gone] at live
      cases live
    · have live' := (uniform f hf b hb ordinal ((placeOf_inj hf hb).mp place)).2
      rw [gone] at live'
      cases live'
  · intro apart
    have nodup := nodup_consolidated (M := frameworkOf p.doc M) p.once uniform apart
    have same : (foldRecord T p.doc M).doc.findings =
        (consolidateFindings T p.doc.findings (frameworkOf p.doc M)).findings := by
      rw [foldRecord_folds twice]
    rw [← same] at nodup
    rw [foldRecord_same nodup]

/-- Texts of which only the ASCII letters have two cases. -/
def plainTexts : FindingTexts where
  lower s := String.ofList (s.toList.map Char.toLower)
  nfkc := id
  apart c := c = ' '
  dateLe a b := decide (Text.utf16 a ≤ Text.utf16 b)
  dateLe_trans a b c ab bc := by
    rw [decide_eq_true_eq] at ab bc ⊢
    exact le_trans ab bc
  dateLe_total a b := by
    rw [Bool.or_eq_true, decide_eq_true_eq, decide_eq_true_eq]
    exact le_total _ _

def acme : Owner := { name := some "Acme" }

/-- The first of two marks that share a digit. -/
def thunder : Finding :=
  { ordinal := 1, mark := "雷神 7", owner := acme, composite := some 3
    deadline := some { date := "2027-03-01" } }

def fire : Finding :=
  { ordinal := 2, mark := "火神 7", owner := acme, composite := some 2
    deadline := some { date := "2027-01-15" } }

/-- Three findings, and an answer that cites the last of them. -/
def twoMarks : ParsedDoc where
  doc :=
    { findings :=
        [thunder, fire,
          { ordinal := 3, mark := "Orion", owner := { name := some "Beta" }, composite := some 4 }]
      askAnswers := some [{ ask := "Is Orion free?", answer := "No.", ordinals := some [3] }] }
  once := by decide
  dated := by decide +kernel
  known := by decide

instance (a b : String) : Decidable (Same plainTexts a b) :=
  inferInstanceAs (Decidable (_ = _))

end Findings

end Clearotron
