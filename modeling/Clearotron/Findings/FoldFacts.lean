import Std.Data.String.ToNat
import Clearotron.Findings.Fold

/-!
# What a fold leaves

A conflict is folded into its worst member, with every registration of its members; the new
ordinal of a finding is the place of its conflict. Where no two findings share a key nothing
is folded, and the document comes back as it is.
-/

namespace Clearotron

namespace Findings

variable {T : FindingTexts} {M : Option Manifest} {fs : List Finding} {f f' : Finding}
  {g : Group Finding} {k : String} {n : ℕ} {doc : Doc}

/-- The place of a finding's conflict, counted from one. -/
def placeOf (T : FindingTexts) (fs : List Finding) (f : Finding) : ℕ :=
  (conflicts T fs).keys.idxOf (consolidationKey T f) + 1

/-- The finding that a conflict is folded into, at its place. -/
def foldedAt (T : FindingTexts) (M : Option Manifest) (fs : List Finding) (k : String)
    (g : Group Finding) : Finding :=
  { foldGroup T M g with ordinal := (conflicts T fs).keys.idxOf k + 1 }

theorem idxOf_conflict {i : ℕ} (at' : (conflicts T fs).entries[i]? = some (k, g)) :
    (conflicts T fs).keys.idxOf k = i := by
  obtain ⟨inside, here⟩ := List.getElem?_eq_some_iff.mp at'
  have inside' : i < (conflicts T fs).keys.length := by simpa [Keyed.keys] using inside
  have key : (conflicts T fs).keys[i] = k := by
    simp [Keyed.keys, here]
  rw [← key]
  exact (conflicts T fs).keys_nodup.idxOf_getElem i inside'

theorem exists_place (mem : (k, g) ∈ (conflicts T fs).entries) :
    (conflicts T fs).entries[(conflicts T fs).keys.idxOf k]? = some (k, g) := by
  obtain ⟨i, at'⟩ := List.mem_iff_getElem?.mp mem
  rw [idxOf_conflict at']
  exact at'

theorem mem_renumbering {v : ℕ} :
    (n, v) ∈ renumbering T fs ↔ ∃ f ∈ fs, f.ordinal = n ∧ v = placeOf T fs f := by
  rw [renumbering, List.mem_flatMap]
  constructor
  · rintro ⟨⟨⟨k, g⟩, i⟩, at', mem⟩
    rw [List.mem_zipIdx_iff_getElem?] at at'
    obtain ⟨f, member, same⟩ := List.mem_map.mp mem
    obtain ⟨rfl, rfl⟩ := Prod.mk.inj same
    obtain ⟨there, rfl⟩ :=
      (mem_members_iff (List.mem_of_getElem? at')).mp member
    exact ⟨f, there, rfl, by rw [placeOf, idxOf_conflict at']⟩
  · rintro ⟨f, mem, rfl, rfl⟩
    obtain ⟨g, group, member⟩ := exists_group (consolidationKey T) mem
    refine ⟨((consolidationKey T f, g), _), ?_, List.mem_map.mpr ⟨f, member, rfl⟩⟩
    rw [List.mem_zipIdx_iff_getElem?]
    exact exists_place group

/-- A finding's ordinal is mapped to the place of its conflict. -/
theorem get_ordinalMap (M : Option Manifest) (once : (fs.map Finding.ordinal).Nodup)
    (mem : f ∈ fs) :
    (consolidateFindings T fs M).ordinalMap.get f.ordinal = some (placeOf T fs f) := by
  have key : f.ordinal ∈ (consolidateFindings T fs M).ordinalMap.keys :=
    Keyed.mem_keys_foldl_set.mpr
      (.inr (List.mem_map.mpr ⟨_, mem_renumbering.mpr ⟨f, mem, rfl, rfl⟩, rfl⟩))
  obtain ⟨v, entry⟩ := Keyed.exists_mem_of_mem_keys key
  obtain none' | ⟨⟨n, w⟩, there, rfl, rfl⟩ := Keyed.mem_foldl_set entry
  · cases none'
  · obtain ⟨f', mem', same, rfl⟩ := mem_renumbering.mp there
    rw [List.inj_on_of_nodup_map once mem' mem same] at entry
    exact Keyed.get_eq_some.mpr entry

/-- No other ordinal is mapped. -/
theorem get_ordinalMap_none (M : Option Manifest)
    (other : n ∉ fs.map Finding.ordinal) :
    (consolidateFindings T fs M).ordinalMap.get n = none := by
  rw [← Option.not_isSome_iff_eq_none]
  intro found
  obtain ⟨v, at'⟩ := Option.isSome_iff_exists.mp found
  obtain none' | ⟨⟨n, w⟩, there, rfl, rfl⟩ := Keyed.mem_foldl_set (Keyed.get_eq_some.mp at')
  · cases none'
  · obtain ⟨f, mem, rfl, -⟩ := mem_renumbering.mp there
    exact other (List.mem_map_of_mem mem)

theorem mem_consolidated : f' ∈ (consolidateFindings T fs M).findings ↔
    ∃ k g, (k, g) ∈ (conflicts T fs).entries ∧ f' = foldedAt T M fs k g := by
  rw [consolidateFindings, List.mem_map]
  constructor
  · rintro ⟨⟨⟨k, g⟩, i⟩, at', rfl⟩
    rw [List.mem_zipIdx_iff_getElem?] at at'
    exact ⟨k, g, List.mem_of_getElem? at', by rw [foldedAt, idxOf_conflict at']⟩
  · rintro ⟨k, g, mem, rfl⟩
    refine ⟨((k, g), _), ?_, rfl⟩
    rw [List.mem_zipIdx_iff_getElem?]
    exact exists_place mem

theorem ordinals_consolidated :
    (consolidateFindings T fs M).findings.map Finding.ordinal =
      List.range' 1 (consolidateFindings T fs M).findings.length := by
  rw [consolidateFindings, List.map_map, List.length_map, List.length_zipIdx]
  have ordinals : (Finding.ordinal ∘ fun p : (String × Group Finding) × ℕ =>
      { foldGroup T M p.1.2 with ordinal := p.2 + 1 }) = (· + 1) ∘ Prod.snd := rfl
  rw [ordinals, ← List.map_map, List.zipIdx_map_snd, List.range'_eq_map_range]
  simp [List.range'_eq_map_range, Nat.add_comm]

theorem merges_eq_nil_iff : (consolidateFindings T fs M).merges = [] ↔
    (fs.map (consolidationKey T)).Nodup := by
  rw [consolidateFindings, List.filterMap_eq_nil_iff, ← later_eq_nil_iff]
  refine forall_congr' fun kv => forall_congr' fun _ => ?_
  unfold mergeOf
  split
  · rename_i single
    simp [single]
  · rename_i more
    simp [more]

theorem foldRecord_same (nodup : (doc.findings.map (consolidationKey T)).Nodup) :
    foldRecord T doc M = { doc } := by
  unfold foldRecord
  split
  · rfl
  · dsimp only
    rw [if_pos (merges_eq_nil_iff.mpr nodup)]

/-- The frameworks of a document: of an older one there is none. -/
def frameworkOf (doc : Doc) (M : Option Manifest) : Option Manifest :=
  if 4 ≤ doc.schemaVersion then M else none

theorem foldRecord_folds (twice : ¬ (doc.findings.map (consolidationKey T)).Nodup) :
    foldRecord T doc M =
      { doc :=
          { doc with
            findings :=
              (consolidateFindings T doc.findings (frameworkOf doc M)).findings
            actions := doc.actions.map fun actions => remapActionOrdinals actions
              (consolidateFindings T doc.findings (frameworkOf doc M)).ordinalMap
            fourAnswers := doc.fourAnswers.map fun answers => remapFourAnswersOrdinals answers
              (consolidateFindings T doc.findings (frameworkOf doc M)).ordinalMap }
        merges := (consolidateFindings T doc.findings (frameworkOf doc M)).merges
        map := some (bothWays
          (consolidateFindings T doc.findings (frameworkOf doc M)).ordinalMap) } := by
  unfold foldRecord
  rw [if_neg]
  · dsimp only
    rw [if_neg fun none' => twice (merges_eq_nil_iff.mp none')]
    rfl
  · intro few
    refine twice ?_
    revert few
    rcases doc.findings with _ | ⟨f, _ | ⟨g, rest⟩⟩
    · exact fun _ => List.nodup_nil
    · exact fun _ => List.nodup_singleton _
    · simp

theorem worseLe_trans (a b c : Finding) (ab : worseLe T M a b = true)
    (bc : worseLe T M b c = true) : worseLe T M a c = true := by
  simp only [worseLe, Bool.or_eq_true, Bool.and_eq_true, decide_eq_true_eq] at ab bc ⊢
  omega

theorem worseLe_total (a b : Finding) :
    (worseLe T M a b || worseLe T M b a) = true := by
  simp only [worseLe, Bool.or_eq_true, Bool.and_eq_true, decide_eq_true_eq]
  omega

theorem baseOf_mem : baseOf T M g ∈ g.members := firstLeast_mem _ _

theorem worseLe_baseOf : ∀ m ∈ g.members, worseLe T M (baseOf T M g) m = true :=
  firstLeast_le worseLe_trans worseLe_total _ _

theorem severity_baseOf {m : Finding} (mem : m ∈ g.members) :
    severity T M (baseOf T M g) ≤ severity T M m := by
  have le := worseLe_baseOf (T := T) (M := M) m mem
  simp only [worseLe, Bool.or_eq_true, Bool.and_eq_true, decide_eq_true_eq] at le
  omega

/-- A folded finding is the base in all but its deadline and its registrations. -/
theorem foldGroup_base (T : FindingTexts) (M : Option Manifest) (g : Group Finding) :
    (foldGroup T M g).mark = (baseOf T M g).mark ∧
      (foldGroup T M g).owner.name = (baseOf T M g).owner.name ∧
      (foldGroup T M g).disposition = (baseOf T M g).disposition ∧
      (foldGroup T M g).composite = (baseOf T M g).composite ∧
      (foldGroup T M g).band = (baseOf T M g).band := by
  unfold foldGroup
  split
  · rename_i single
    rw [baseOf, single]
    exact ⟨rfl, rfl, rfl, rfl, rfl⟩
  · exact ⟨rfl, rfl, rfl, rfl, rfl⟩

theorem severity_foldedAt {m : Finding} (mem : m ∈ g.members) :
    severity T M (foldedAt T M fs k g) ≤ severity T M m := by
  obtain ⟨-, -, -, composite, band⟩ := foldGroup_base T M g
  have same : severity T M (foldedAt T M fs k g) =
      severity T M (baseOf T M g) := by
    simp only [severity, foldedAt, composite, band]
  rw [same]
  exact severity_baseOf mem

theorem takeRegistrations_mem {r : Registration} (rs : List Registration) (seen : List String)
    (mem : r ∈ rs) :
    (∃ r' ∈ takeRegistrations T seen rs, r' = r ∨ T.lower (r.uri.getD "") ≠ "" ∧
        T.lower (r'.uri.getD "") = T.lower (r.uri.getD "")) ∨
      T.lower (r.uri.getD "") ≠ "" ∧ T.lower (r.uri.getD "") ∈ seen := by
  induction rs generalizing seen with
  | nil => cases mem
  | cons x rest ih =>
    rw [takeRegistrations]
    obtain rfl | mem := List.mem_cons.mp mem
    · split
      · rename_i known
        exact .inr known
      · exact .inl ⟨r, List.mem_cons_self, .inl rfl⟩
    · split
      · exact ih _ mem
      · obtain ⟨r', there, same⟩ | ⟨some', there⟩ := ih _ mem
        · exact .inl ⟨r', List.mem_cons_of_mem _ there, same⟩
        · split at there
          · exact .inr ⟨some', there⟩
          · obtain same | there := List.mem_cons.mp there
            · exact .inl ⟨x, List.mem_cons_self, .inr ⟨some', same.symm⟩⟩
            · exact .inr ⟨some', there⟩

/-- Each registration of a member is on the folded finding, or it has a URI and one under that
URI is. -/
theorem registrations_foldGroup {m : Finding} {r : Registration} (mem : m ∈ g.members)
    (reg : r ∈ m.owner.registrations) :
    ∃ r' ∈ (foldGroup T M g).owner.registrations, r' = r ∨ T.lower (r.uri.getD "") ≠ "" ∧
      T.lower (r'.uri.getD "") = T.lower (r.uri.getD "") := by
  unfold foldGroup
  split
  · rename_i single
    rw [Group.members, single, List.mem_singleton] at mem
    exact ⟨r, mem ▸ reg, .inl rfl⟩
  · obtain there | none' :=
      takeRegistrations_mem (T := T) (g.members.flatMap fun m => m.owner.registrations) []
        (List.mem_flatMap.mpr ⟨m, mem, reg⟩)
    · exact there
    · cases none'.2

theorem memberDeadline_le {m : Finding} {d : Deadline} (mem : m ∈ g.members)
    (has : m.deadline = some d) (dated : Text.trim d.date ≠ "") :
    ∃ e, memberDeadline T g.members = some e ∧ T.dateLe e.date d.date = true := by
  have there : d ∈ (g.members.filterMap Finding.deadline).filter
      fun d => Text.trim d.date ≠ "" :=
    List.mem_filter.mpr ⟨List.mem_filterMap.mpr ⟨m, mem, has⟩, by simpa using dated⟩
  unfold memberDeadline
  split
  · rename_i none'
    rw [none'] at there
    cases there
  · rename_i first rest all
    rw [all] at there
    exact ⟨_, rfl, firstLeast_le (r := fun a b : Deadline => T.dateLe a.date b.date)
      (fun _ _ _ => T.dateLe_trans _ _ _) (fun _ _ => T.dateLe_total _ _) first rest d there⟩

/-- A date that is not blank is not empty. -/
theorem ne_empty_of_trim {s : String} (dated : Text.trim s ≠ "") : s ≠ "" := by
  rintro rfl
  exact dated rfl

/-- No member's deadline is lost to a later one exactly where the base's is not. -/
theorem deadline_foldGroup (dated : ∀ m ∈ g.members, ∀ d, m.deadline = some d →
      Text.trim d.date ≠ "") :
    (∀ m ∈ g.members, ∀ d, m.deadline = some d →
        ∃ e, (foldGroup T M g).deadline = some e ∧ T.dateLe e.date d.date = true) ↔
      ∀ m ∈ g.members, ∀ d e, m.deadline = some d →
        (baseOf T M g).deadline = some e → T.dateLe e.date d.date = true := by
  unfold foldGroup
  split
  · rename_i single
    have base : baseOf T M g = g.first := by rw [baseOf, single]; rfl
    rw [base]
    have refl (s : String) : T.dateLe s s = true := by simpa using T.dateLe_total s s
    constructor
    · rintro - m mem d e has has'
      rw [Group.members, single, List.mem_singleton] at mem
      subst mem
      rw [has] at has'
      rw [Option.some.inj has']
      exact refl _
    · rintro - m mem d has
      rw [Group.members, single, List.mem_singleton] at mem
      exact ⟨d, mem ▸ has, refl _⟩
  · dsimp only
    cases has' : (baseOf T M g).deadline with
    | some e =>
      have full := ne_empty_of_trim (dated _ baseOf_mem e has')
      rw [if_pos (by simpa using full)]
      constructor
      · intro kept m mem d e' has same
        obtain ⟨e'', is, le⟩ := kept m mem d has
        obtain rfl := Option.some.inj is
        obtain rfl := Option.some.inj same
        exact le
      · intro le m mem d has
        exact ⟨e, rfl, le m mem d e has rfl⟩
    | none =>
      rw [if_neg (by simp), Option.or_none]
      constructor
      · rintro - m mem d e - none'
        cases none'
      · intro _ m mem d has
        exact memberDeadline_le mem has (dated m mem d has)

end Findings

end Clearotron
