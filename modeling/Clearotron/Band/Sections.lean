import Mathlib.Algebra.BigOperators.Group.List.Basic
import Clearotron.Band.Groups

/-!
# Every record on one line, and no floor in the rest

A line takes the best group its records reach, and a floor by itself is in (a) or (b), so a line
with a floor is too. The sections of a band hold each of its lines once, and so each record once.
-/

namespace Clearotron.Shape

section

variable {T : MarkText} {W : Territories} {o : BandOptions} {records : List ShapeRecord}
  {r : ShapeRecord} {line : Group ShapeRecord} {l : LineRow}

theorem recordGroup_of_close {tier : Tier} {hits : Option ℕ} {dominant : Bool}
    (close : tier.isClose = true) :
    (recordGroup tier true true hits dominant).rank ≤ 1 := by
  unfold recordGroup
  by_cases goods : hits = some 0
  · simp [close, goods, BandGroup.rank]
  · simp [close, goods, BandGroup.rank]

/-- A floor by itself is in (a) or (b). -/
theorem rank_place_of_floor (floor : isFloor T o r = true) : (place T W o r).group.rank ≤ 1 := by
  have parts := floor
  unfold isFloor at parts
  simp only [Bool.and_eq_true] at parts
  obtain ⟨⟨close, live⟩, ordered⟩ := parts
  have group : (place T W o r).group = recordGroup (tierOf T o r) (isLiveRecord T r) (inScope o r)
      (place T W o r).hits (carriesDominant T o (r.markText.getD "")) := by
    show (if _ then _ else _) = _
    rw [if_neg (by simp [floor])]
    rfl
  rw [group, live, ordered]
  exact recordGroup_of_close close

theorem rank_foldl_best (g : BandGroup) (gs : List BandGroup) :
    (gs.foldl BandGroup.best g).rank ≤ g.rank ∧
      ∀ h ∈ gs, (gs.foldl BandGroup.best g).rank ≤ h.rank := by
  induction gs generalizing g with
  | nil => simp
  | cons h gs ih =>
    have rest := ih (g.best h)
    refine ⟨rest.1.trans (BandGroup.rank_best_le_left g h), fun h' mem => ?_⟩
    obtain rfl | mem := List.mem_cons.mp mem
    · exact rest.1.trans (BandGroup.rank_best_le_right g h')
    · exact rest.2 h' mem

/-- A line's group is as good as each of its records'. -/
theorem rank_lineGroup_le (mem : r ∈ line.members) :
    (lineGroup T W o line).rank ≤ (place T W o r).group.rank := by
  unfold lineGroup
  have best := rank_foldl_best (place T W o line.first).group
    (line.later.map fun r => (place T W o r).group)
  obtain rfl | mem := List.mem_cons.mp mem
  · exact best.1
  · exact best.2 _ (List.mem_map_of_mem mem)

/-- A line with a floor is in (a) or (b). -/
theorem rank_lineRow_of_floor {key : String} (mem : r ∈ line.members)
    (floor : isFloor T o r = true) : (lineRow T W o key line).group.rank ≤ 1 :=
  (rank_lineGroup_le mem).trans (rank_place_of_floor floor)

/-- A line counted with a floor holds one. -/
theorem exists_floor {key : String} (counted : 0 < (lineRow T W o key line).floors) :
    ∃ r ∈ line.members, isFloor T o r = true := by
  obtain ⟨x, mem, floor⟩ := List.countP_pos_iff.mp counted
  obtain ⟨r, member, rfl⟩ := List.mem_map.mp mem
  exact ⟨r, member, floor⟩

theorem mem_bandLines : l ∈ bandLines T W o records ↔
    ∃ key line, (key, line) ∈ (groupsBy (lineKey T o) records).entries ∧
      lineRow T W o key line = l := by
  unfold bandLines
  rw [List.mem_map]
  exact ⟨fun ⟨⟨key, line⟩, mem, is⟩ => ⟨key, line, mem, is⟩,
    fun ⟨key, line, mem, is⟩ => ⟨(key, line), mem, is⟩⟩

theorem keys_bandLines : (bandLines T W o records).map (·.key) =
    (groupsBy (lineKey T o) records).keys := by
  unfold bandLines
  rw [List.map_map]
  rfl

/-- A line counts the records with its key. -/
theorem records_of_mem (mem : l ∈ bandLines T W o records) :
    l.records = records.countP (lineKey T o · = l.key) := by
  obtain ⟨key, line, there, rfl⟩ := mem_bandLines.mp mem
  have members := (members_of_mem there).2
  show (line.members.map _).length = _
  rw [List.length_map, members, List.countP_eq_length_filter]
  rfl

theorem exists_line (mem : r ∈ records) : ∃ l ∈ bandLines T W o records, l.key = lineKey T o r := by
  obtain ⟨line, there, -⟩ := exists_group (lineKey T o) mem
  exact ⟨_, mem_bandLines.mpr ⟨_, line, there, rfl⟩, rfl⟩

/-- The line of a floor is in (a) or (b). -/
theorem rank_of_floor (mem : r ∈ records) (floor : isFloor T o r = true)
    (there : l ∈ bandLines T W o records) (own : l.key = lineKey T o r) : l.group.rank ≤ 1 := by
  obtain ⟨key, line, entry, rfl⟩ := mem_bandLines.mp there
  have key' : key = lineKey T o r := own
  exact rank_lineRow_of_floor ((mem_members_iff entry).mpr ⟨mem, key'.symm⟩) floor

theorem floors_rest (there : l ∈ bandLines T W o records) (rest : l.group = .rest) :
    l.floors = 0 := by
  obtain ⟨key, line, entry, rfl⟩ := mem_bandLines.mp there
  by_contra counted
  obtain ⟨r, mem, floor⟩ := exists_floor (Nat.pos_of_ne_zero counted)
  have best : (lineRow T W o key line).group.rank ≤ 1 := rank_lineRow_of_floor mem floor
  rw [rest] at best
  simp [BandGroup.rank] at best

theorem sum_indicator (key : String) (ks : List String) :
    (ks.map fun k => if key = k then 1 else 0).sum = ks.count key := by
  induction ks with
  | nil => rfl
  | cons k ks ih =>
    rw [List.map_cons, List.sum_cons, ih, List.count_cons]
    by_cases same : key = k
    · simp [same, Nat.add_comm]
    · simp [same, Ne.symm same]

/-- Each record counts on one line. -/
theorem sum_countP {ks : List String} (nodup : ks.Nodup) (all : ∀ r ∈ records, lineKey T o r ∈ ks) :
    (ks.map fun k => records.countP (lineKey T o · = k)).sum = records.length := by
  induction records with
  | nil => simp
  | cons r records ih =>
    have rest := ih fun r mem => all r (List.mem_cons_of_mem _ mem)
    have once : ks.count (lineKey T o r) = 1 :=
      List.count_eq_one_of_mem nodup (all r List.mem_cons_self)
    simp only [List.countP_cons, decide_eq_true_eq]
    rw [List.sum_map_add, rest, sum_indicator, once, List.length_cons]

theorem sum_records : ((bandLines T W o records).map (·.records)).sum = records.length := by
  have nodup : ((bandLines T W o records).map (·.key)).Nodup := by
    rw [keys_bandLines]
    exact Keyed.keys_nodup _
  have all : ∀ r ∈ records, lineKey T o r ∈ (bandLines T W o records).map (·.key) := by
    intro r mem
    obtain ⟨l, there, own⟩ := exists_line (W := W) mem
    exact own ▸ List.mem_map_of_mem there
  rw [← sum_countP nodup all, List.map_map]
  exact congrArg List.sum (List.map_congr_left fun l mem => records_of_mem mem)

/-- The sections of a band, one after the other. -/
def BandOut.allLines (out : BandOut) : List LineRow :=
  (out.byGroup .a).lines ++ (out.byGroup .b).lines ++ (out.byGroup .c).lines ++
    (out.byGroup .d).lines ++ (out.byGroup .rest).lines ++ out.noGoods

/-- The lines of a list by group, and those that stand apart. -/
theorem perm_listed (rows : List LineRow) :
    (listed rows .a ++ listed rows .b ++ listed rows .c ++ listed rows .d ++ listed rows .rest ++
      rows.filter (·.apart)).Perm rows := by
  induction rows with
  | nil => exact .nil
  | cons l rows ih =>
    have moved (xs ys : List LineRow) : (xs ++ l :: ys).Perm (l :: (xs ++ ys)) :=
      List.perm_middle
    cases apart : l.apart with
    | true =>
      have step : (listed (l :: rows) .a ++ listed (l :: rows) .b ++ listed (l :: rows) .c ++
          listed (l :: rows) .d ++ listed (l :: rows) .rest ++
          (l :: rows).filter (·.apart)) = listed rows .a ++ listed rows .b ++ listed rows .c ++
          listed rows .d ++ listed rows .rest ++ l :: rows.filter (·.apart) := by
        simp [listed, apart]
      rw [step]
      exact (moved _ _).trans (ih.cons l)
    | false =>
      -- the line stands where its group begins, behind the groups before it
      have behind (xs ys : List LineRow) (others : (xs ++ ys).Perm rows) :
          (xs ++ l :: ys).Perm (l :: rows) := (moved xs ys).trans (others.cons l)
      cases group : l.group with
      | a =>
        have step := behind [] (listed rows .a ++ listed rows .b ++ listed rows .c ++
          listed rows .d ++ listed rows .rest ++ rows.filter (·.apart)) ih
        simpa [listed, apart, group] using step
      | b =>
        have step := behind (listed rows .a) (listed rows .b ++ listed rows .c ++
          listed rows .d ++ listed rows .rest ++ rows.filter (·.apart)) (by simpa using ih)
        simpa [listed, apart, group] using step
      | c =>
        have step := behind (listed rows .a ++ listed rows .b) (listed rows .c ++
          listed rows .d ++ listed rows .rest ++ rows.filter (·.apart)) (by simpa using ih)
        simpa [listed, apart, group] using step
      | d =>
        have step := behind (listed rows .a ++ listed rows .b ++ listed rows .c)
          (listed rows .d ++ listed rows .rest ++ rows.filter (·.apart)) (by simpa using ih)
        simpa [listed, apart, group] using step
      | rest =>
        have step := behind (listed rows .a ++ listed rows .b ++ listed rows .c ++ listed rows .d)
          (listed rows .rest ++ rows.filter (·.apart)) (by simpa using ih)
        simpa [listed, apart, group] using step

theorem assertRestHoldsNoFloor_ok {ls : List LineRow} (none' : ∀ l ∈ ls, l.floors = 0) :
    assertRestHoldsNoFloor ls = .ok () := by
  have found : ls.find? (0 < ·.floors) = none :=
    List.find?_eq_none.mpr fun l mem => by simp [none' l mem]
  rw [assertRestHoldsNoFloor, found]

/-- The rest of a band holds no floor, so the groups are served. -/
theorem bandGroups_ok : ∃ out, bandGroups T W o records = .ok out ∧
    out.byGroup = groupLines T (bandLines T W o records) ∧
    out.noGoods = ((bandLines T W o records).filter (·.apart)).insertionSort
      fun x y => noGoodsOrder T x y := by
  have none' : ∀ l ∈ listed (bandLines T W o records) .rest, l.floors = 0 := by
    intro l mem
    obtain ⟨there, group⟩ := List.mem_filter.mp mem
    simp only [Bool.and_eq_true, decide_eq_true_eq] at group
    exact floors_rest there group.2
  unfold bandGroups
  simp only [assertRestHoldsNoFloor_ok none']
  exact ⟨_, rfl, rfl, rfl⟩

/-- What a band's sections are held to. -/
structure BandPlaced (T : MarkText) (o : BandOptions) (records : List ShapeRecord)
    (out : BandOut) : Prop where
  /-- a line stands in one section, once -/
  nodup : (out.allLines.map (·.key)).Nodup
  /-- and in the section of its group, those that could not be judged apart -/
  grouped : ∀ g, ∀ l ∈ (out.byGroup g).lines, l.group = g ∧ l.apart = false
  setApart : ∀ l ∈ out.noGoods, l.apart = true
  /-- a record stands on one line, and a line counts its records -/
  oneLine : ∀ r ∈ records, ∃! l, l ∈ out.allLines ∧ l.key = lineKey T o r
  counted : ∀ l ∈ out.allLines, l.records = records.countP (lineKey T o · = l.key)
  /-- the counts of the groups are those of their lines, and add up to the band -/
  sums : ∀ g, (out.byGroup g).setRecords = ((out.byGroup g).lines.map (·.records)).sum
  total : (out.byGroup .a).setRecords + (out.byGroup .b).setRecords +
    (out.byGroup .c).setRecords + (out.byGroup .d).setRecords + (out.byGroup .rest).setRecords +
    (out.noGoods.map (·.records)).sum = records.length
  /-- the line of a floor is in (a), in (b) or among those without goods -/
  floors : ∀ r ∈ records, isFloor T o r = true → ∃ l, l.key = lineKey T o r ∧
    (l ∈ (out.byGroup .a).lines ∨ l ∈ (out.byGroup .b).lines ∨ l ∈ out.noGoods)

theorem perm_allLines {out : BandOut}
    (groups : out.byGroup = groupLines T (bandLines T W o records))
    (noGoods : out.noGoods = ((bandLines T W o records).filter (·.apart)).insertionSort
      fun x y => noGoodsOrder T x y) :
    out.allLines.Perm (bandLines T W o records) := by
  refine List.Perm.trans ?_ (perm_listed _)
  rw [BandOut.allLines, groups, noGoods]
  have sorted (g : BandGroup) : (groupLines T (bandLines T W o records) g).lines.Perm
      (listed (bandLines T W o records) g) := List.perm_insertionSort _ _
  exact (((((sorted .a).append (sorted .b)).append (sorted .c)).append (sorted .d)).append
    (sorted .rest)).append (List.perm_insertionSort _ _)

theorem line_unique {l' : LineRow} (mem : l ∈ bandLines T W o records)
    (mem' : l' ∈ bandLines T W o records) (same : l.key = l'.key) : l = l' := by
  have nodup : ((bandLines T W o records).map (·.key)).Nodup := by
    rw [keys_bandLines]
    exact Keyed.keys_nodup _
  exact List.inj_on_of_nodup_map nodup mem mem' same

end

/-- For every band and every set of targets the groups are served, with every record on one line of
one section, counts that add up, and no floor outside (a), (b) and the lines without goods. -/
theorem band_is_placed (T : MarkText) (W : Territories) (o : BandOptions)
    (records : List ShapeRecord) :
    ∃ out, bandGroups T W o records = .ok out ∧ BandPlaced T o records out := by
  obtain ⟨out, served, groups, noGoods⟩ := @bandGroups_ok T W o records
  have perm := perm_allLines groups noGoods
  have inLines (g : BandGroup) (l : LineRow) : l ∈ (out.byGroup g).lines ↔
      l ∈ bandLines T W o records ∧ l.apart = false ∧ l.group = g := by
    rw [groups]
    show l ∈ (listed (bandLines T W o records) g).insertionSort _ ↔ _
    rw [List.mem_insertionSort, listed, List.mem_filter]
    simp
  have inNoGoods (l : LineRow) : l ∈ out.noGoods ↔
      l ∈ bandLines T W o records ∧ l.apart = true := by
    rw [noGoods, List.mem_insertionSort, List.mem_filter]
  have sums (g : BandGroup) : (out.byGroup g).setRecords =
      ((out.byGroup g).lines.map (·.records)).sum := by
    rw [groups]
    exact ((List.perm_insertionSort _ _).map _).sum_nat.symm
  refine ⟨out, served, ?_, fun g l mem => ?_, fun l mem => ((inNoGoods l).mp mem).2,
    fun r mem => ?_, fun l mem => records_of_mem (perm.mem_iff.mp mem), sums, ?_,
    fun r mem floor => ?_⟩
  · rw [(perm.map _).nodup_iff, keys_bandLines]
    exact Keyed.keys_nodup _
  · have own := (inLines g l).mp mem
    exact ⟨own.2.2, own.2.1⟩
  · obtain ⟨l, there, own⟩ := exists_line (W := W) mem
    refine ⟨l, ⟨perm.mem_iff.mpr there, own⟩, fun l' ⟨there', own'⟩ => ?_⟩
    exact line_unique (perm.mem_iff.mp there') there (own'.trans own.symm)
  · have total := (perm.map (·.records)).sum_nat
    rw [sum_records] at total
    simp only [BandOut.allLines, List.map_append, List.sum_append_nat] at total
    simpa only [sums] using total
  · obtain ⟨l, there, own⟩ := exists_line (W := W) mem
    have best := rank_of_floor mem floor there own
    refine ⟨l, own, ?_⟩
    cases apart : l.apart with
    | true => exact .inr (.inr ((inNoGoods l).mpr ⟨there, apart⟩))
    | false =>
      cases group : l.group with
      | a => exact .inl ((inLines .a l).mpr ⟨there, apart, group⟩)
      | b => exact .inr (.inl ((inLines .b l).mpr ⟨there, apart, group⟩))
      | c => simp [group, BandGroup.rank] at best
      | d => simp [group, BandGroup.rank] at best
      | rest => simp [group, BandGroup.rank] at best

end Clearotron.Shape
