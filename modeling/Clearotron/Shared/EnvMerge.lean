import Mathlib.Data.List.Induction
import Clearotron.Shared.EnvFile

/-!
# What a merge keeps

A merge is read back line by line: the lines of the old text with some renewed, and behind them
the lines that were added. What was assigned stays so, except where the reader and the writer do
not see the same assignments in the old text.
-/

namespace Clearotron.EnvFile

open Text (isSpace isWord)

variable {n v w k : List Char} {lines lines' : List (List Char)} {text : List Char}

/-- The value a line gives a name. -/
def valueIn (n line : List Char) : Option (List Char) :=
  ((readLine line).filter (·.1 = n)).map Prod.snd

theorem valueIn_eq_some {line : List Char} :
    valueIn n line = some v ↔ readLine line = some (n, v) := by
  rw [valueIn, Option.map_eq_some_iff]
  constructor
  · rintro ⟨⟨m, v⟩, given, rfl⟩
    obtain ⟨read, own⟩ := Option.filter_eq_some_iff.mp given
    obtain rfl : m = n := by simpa using own
    exact read
  · intro is
    exact ⟨(n, v), Option.filter_eq_some_iff.mpr ⟨is, by simp⟩, rfl⟩

/-- The last value lines give a name. -/
def lastValue (n : List Char) (lines : List (List Char)) : Option (List Char) :=
  (lines.filterMap (valueIn n)).getLast?

theorem lastValue_append (n : List Char) (lines lines' : List (List Char)) :
    lastValue n (lines ++ lines') = (lastValue n lines').or (lastValue n lines) := by
  rw [lastValue, List.filterMap_append, List.getLast?_append]
  rfl

theorem lastValue_concat (n : List Char) (lines : List (List Char)) (l : List Char) :
    lastValue n (lines ++ [l]) = (valueIn n l).or (lastValue n lines) := by
  rw [lastValue_append]
  cases is : valueIn n l with
  | none => simp [lastValue, is]
  | some v => simp [lastValue, is]

theorem get_parseEnvFile (n text : List Char) :
    (parseEnvFile text).get n = lastValue n (linesOf text) := by
  unfold parseEnvFile
  induction linesOf text using List.reverseRecOn with
  | nil => rfl
  | append_singleton lines l ih =>
    rw [List.filterMap_append, List.foldl_append, lastValue_concat]
    cases is : readLine l with
    | none => simp [is, valueIn, ih]
    | some mv =>
      rw [List.filterMap_cons_some is, List.filterMap_nil, List.foldl_cons, List.foldl_nil,
        Keyed.get_set, ih]
      by_cases own : n = mv.1
      · rw [if_pos own, valueIn_eq_some.mpr (show _ = some (n, mv.2) by rw [own]; exact is)]
        rfl
      · have other : valueIn n l = none := Option.eq_none_iff_forall_ne_some.mpr fun v given => by
          rw [valueIn_eq_some, is] at given
          exact own (congrArg Prod.fst (Option.some.inj given)).symm
        rw [if_neg own, other, Option.none_or]

theorem lastValue_eq_none :
    lastValue n lines = none ↔ ∀ l ∈ lines, ∀ v, readLine l ≠ some (n, v) := by
  rw [lastValue, List.getLast?_eq_none_iff, List.filterMap_eq_nil_iff]
  refine forall₂_congr fun l _ => ?_
  rw [Option.eq_none_iff_forall_ne_some]
  exact forall_congr' fun v => not_congr valueIn_eq_some

theorem readLine_of_lastValue (is : lastValue n lines = some v) :
    ∃ l ∈ lines, readLine l = some (n, v) := by
  obtain ⟨l, mem, given⟩ := List.mem_filterMap.mp (List.mem_of_getLast? is)
  exact ⟨l, mem, valueIn_eq_some.mp given⟩

theorem getLast?_filterMap {α β : Type*} {f : α → Option β} {l : List α}
    (each : ∀ x ∈ l, (f x).isSome = true) : (l.filterMap f).getLast? = l.getLast?.bind f := by
  induction l using List.reverseRecOn with
  | nil => rfl
  | append_singleton l x _ =>
    obtain ⟨y, is⟩ := Option.isSome_iff_exists.mp (each x (by simp))
    simp [is]

/-- A line as it stands after some names are renewed. -/
def renewedLine (R : List (List Char × List Char)) (line : List Char) : List Char :=
  match (writtenName line).bind fun n => (R.lookup n).map fun v => assignment n v with
  | some line' => line'
  | none => line

theorem renewedLine_of_lookup {R : List (List Char × List Char)} {line : List Char}
    (seen : writtenName line = some n) (given : R.lookup n = some v) :
    renewedLine R line = assignment n v := by
  simp [renewedLine, seen, given]

theorem renewedLine_of_none {R : List (List Char × List Char)} {line : List Char}
    (others : ∀ n, writtenName line = some n → R.lookup n = none) : renewedLine R line = line := by
  cases seen : writtenName line with
  | none => simp [renewedLine, seen]
  | some n => simp [renewedLine, seen, others n seen]

/-- Names with values that fit on a line, each name once. -/
structure Plain (R : List (List Char × List Char)) : Prop where
  name : ∀ e ∈ R, IsName e.1
  oneLine : ∀ e ∈ R, '\n' ∉ e.2
  once : (R.map Prod.fst).Nodup

namespace Plain

variable {R : List (List Char × List Char)} {e : List Char × List Char}

theorem tail (plain : Plain (e :: R)) : Plain R where
  name e' mem := plain.name e' (List.mem_cons_of_mem _ mem)
  oneLine e' mem := plain.oneLine e' (List.mem_cons_of_mem _ mem)
  once := (List.nodup_cons.mp plain.once).2

theorem lookup (plain : Plain R) (mem : (n, v) ∈ R) : R.lookup n = some v := by
  obtain ⟨front, back, rfl⟩ := List.append_of_mem mem
  refine List.lookup_eq_some_iff.mpr ⟨front, back, rfl, fun e before => ?_⟩
  have once := plain.once
  rw [List.map_append, List.map_cons] at once
  have apart := (List.nodup_append.mp once).2.2 e.1 (List.mem_map_of_mem before) n (by simp)
  simpa using Ne.symm apart

theorem newline_not_mem (plain : Plain R) (mem : e ∈ R) : '\n' ∉ assignment e.1 e.2 := by
  have name := (plain.name e mem).newline_not_mem
  have value := plain.oneLine e mem
  simp [assignment, name, value]

end Plain

theorem linesOf_joinLines (plain : ∀ l ∈ lines, '\n' ∉ l) (some' : lines ≠ []) :
    linesOf (joinLines lines) = lines :=
  List.splitOn_intercalate _ plain some'

theorem joinLines_linesOf (text : List Char) : joinLines (linesOf text) = text :=
  List.intercalate_splitOn _

theorem linesOf_renew {e : List Char × List Char} (name : IsName e.1)
    (plain : '\n' ∉ assignment e.1 e.2) :
    linesOf (renew text e) = (linesOf text).map fun l =>
      if writtenName l = some e.1 then assignment e.1 e.2 else l := by
  have same : (linesOf text).map (fun l => if startsWith e.1 l then assignment e.1 e.2 else l) =
      (linesOf text).map fun l => if writtenName l = some e.1 then assignment e.1 e.2 else l :=
    List.map_congr_left fun l _ => by
      simp only [writtenName_eq_some, name, true_and]
  rw [renew, same]
  refine linesOf_joinLines ?_ (by simp [linesOf])
  intro l mem
  obtain ⟨old, there, rfl⟩ := List.mem_map.mp mem
  split
  · exact plain
  · exact LedgerLines.newline_not_mem_of_mem_splitOn there

theorem linesOf_renewAll {R : List (List Char × List Char)} (plain : Plain R) (text : List Char) :
    linesOf (R.foldl renew text) = (linesOf text).map (renewedLine R) := by
  induction R generalizing text with
  | nil =>
    have same : renewedLine [] = id := funext fun l => renewedLine_of_none fun _ _ => rfl
    rw [same, List.map_id]
    rfl
  | cons e R ih =>
    have name := plain.name e (by simp)
    have fresh : R.lookup e.1 = none := by
      refine List.lookup_eq_none_iff.mpr fun e' mem => ?_
      have apart := fun same : e.1 = e'.1 =>
        (List.nodup_cons.mp plain.once).1 (same ▸ List.mem_map_of_mem mem)
      simpa using apart
    rw [List.foldl_cons, ih plain.tail, linesOf_renew name (plain.newline_not_mem (by simp)),
      List.map_map]
    refine List.map_congr_left fun l _ => ?_
    rw [Function.comp_apply]
    by_cases own : writtenName l = some e.1
    · rw [if_pos own, renewedLine_of_lookup (v := e.2) own List.lookup_cons_self,
        renewedLine_of_none fun n seen => ?_]
      rw [writtenName_assignment name] at seen
      rw [← Option.some.inj seen, fresh]
    · rw [if_neg own, renewedLine, renewedLine]
      cases seen : writtenName l with
      | none => rfl
      | some m =>
        have apart : (m == e.1) = false := by
          rw [seen] at own
          simpa using own
        rw [Option.bind_some, Option.bind_some, List.lookup_cons, apart]

/-- The writer's words stand on lines of their own. -/
structure MergeWords.OneLine (W : MergeWords) : Prop where
  author : '\n' ∉ W.author
  notes : ∀ n note, W.notes n = some note → '\n' ∉ note

/-- A line that neither pattern takes. -/
def Silent (line : List Char) : Prop := readLine line = none ∧ writtenName line = none

/-- Lines the writer adds around its assignments. -/
structure AddedLines (R : List (List Char × List Char)) (lines : List (List Char)) : Prop where
  each : ∀ l ∈ lines, Silent l ∨ ∃ e ∈ R, l = assignment e.1 e.2
  all : ∀ e ∈ R, assignment e.1 e.2 ∈ lines

theorem linesOf_cons {l : List Char} (plain : '\n' ∉ l) (rest : List Char) :
    linesOf (l ++ '\n' :: rest) = l :: linesOf rest :=
  List.splitOn_append_cons_self_of_not_mem plain rest

theorem linesOf_append (front rest : List Char) :
    linesOf (front ++ '\n' :: rest) = linesOf front ++ linesOf rest :=
  List.splitOn_append_cons_self front rest

theorem silent_nil : Silent [] := ⟨rfl, rfl⟩

section

variable {W : MergeWords} {R : List (List Char × List Char)}

theorem linesOf_noteLine (words : W.OneLine) (name : IsName n) (rest : List Char) :
    ∃ notes, (∀ l ∈ notes, Silent l) ∧ linesOf (noteLine W n ++ rest) = notes ++ linesOf rest := by
  unfold noteLine
  split
  · rename_i note is
    have plain := words.notes n note (Option.filter_eq_some_iff.mp is).1
    refine ⟨["# ".toList ++ n ++ ": ".toList ++ note], ?_, ?_⟩
    · intro l mem
      rw [List.mem_singleton.mp mem]
      exact silent_comment _
    · rw [List.append_assoc _ ['\n'], List.singleton_append, linesOf_cons]
      · rfl
      · simp [name.newline_not_mem, plain]
  · exact ⟨[], by simp, rfl⟩

theorem linesOf_assignments (words : W.OneLine) (plain : Plain R) :
    ∃ lines, AddedLines R lines ∧
      linesOf (R.flatMap fun e => noteLine W e.1 ++ assignment e.1 e.2 ++ ['\n']) = lines := by
  induction R with
  | nil => exact ⟨[[]], ⟨by simp [silent_nil], by simp⟩, rfl⟩
  | cons e R ih =>
    obtain ⟨lines, added, is⟩ := ih plain.tail
    obtain ⟨notes, silent, behind⟩ := linesOf_noteLine words (plain.name e (by simp))
      (assignment e.1 e.2 ++ '\n' :: R.flatMap fun e =>
        noteLine W e.1 ++ assignment e.1 e.2 ++ ['\n'])
    refine ⟨notes ++ assignment e.1 e.2 :: lines, ⟨?_, ?_⟩, ?_⟩
    · intro l mem
      obtain note | rfl | mem := by simpa only [List.mem_append, List.mem_cons] using mem
      · exact .inl (silent l note)
      · exact .inr ⟨e, by simp, rfl⟩
      · exact (added.each l mem).imp_right fun ⟨e', there, same⟩ =>
          ⟨e', List.mem_cons_of_mem _ there, same⟩
    · rintro e' mem
      obtain rfl | mem := List.mem_cons.mp mem
      · simp
      · exact List.mem_append_right _ (List.mem_cons_of_mem _ (added.all e' mem))
    · rw [List.flatMap_cons, List.append_assoc, List.append_assoc, List.singleton_append, behind,
        linesOf_cons (plain.newline_not_mem (by simp)), is]

theorem lastValue_added {lines : List (List Char)} (plain : Plain R) (added : AddedLines R lines)
    (mem : (n, v) ∈ R) : lastValue n lines = valueIn n (assignment n v) := by
  have only : ∀ l ∈ lines, ∀ w, valueIn n l = some w → valueIn n (assignment n v) = some w := by
    intro l there w given
    obtain silent | ⟨e, inR, rfl⟩ := added.each l there
    · rw [valueIn_eq_some, silent.1] at given
      cases given
    · have name := plain.name e inR
      obtain none' | ⟨u, is⟩ := readLine_of_writtenName (writtenName_assignment name e.2)
      · rw [valueIn_eq_some, none'] at given
        cases given
      · have read := valueIn_eq_some.mp given
        rw [is] at read
        obtain rfl : e.1 = n := congrArg Prod.fst (Option.some.inj read)
        have same : e.2 = v := Option.some.inj ((plain.lookup inR).symm.trans (plain.lookup mem))
        rw [same] at given
        exact given
  cases found : lastValue n lines with
  | some w =>
    obtain ⟨l, there, read⟩ := readLine_of_lastValue found
    exact (only l there w (valueIn_eq_some.mpr read)).symm
  | none =>
    rw [lastValue_eq_none] at found
    refine (Option.eq_none_iff_forall_ne_some.mpr fun w given => ?_).symm
    exact found _ (added.all _ mem) w (valueIn_eq_some.mp given)

theorem lastValue_added_of_not_mem {lines : List (List Char)} (plain : Plain R)
    (added : AddedLines R lines) (absent : n ∉ R.map Prod.fst) : lastValue n lines = none := by
  rw [lastValue_eq_none]
  intro l there v read
  obtain silent | ⟨e, inR, rfl⟩ := added.each l there
  · rw [silent.1] at read
    cases read
  · obtain none' | ⟨u, is⟩ :=
      readLine_of_writtenName (writtenName_assignment (plain.name e inR) e.2)
    · rw [none'] at read
      cases read
    · rw [is] at read
      have same : e.1 = n := congrArg Prod.fst (Option.some.inj read)
      exact absent (same ▸ List.mem_map_of_mem inR)

end

theorem mem_of_mem_line {c : Char} {l : List Char} (mem : c ∈ l) (line : l ∈ linesOf text) :
    c ∈ text := by
  have joined {lines : List (List Char)} (line : l ∈ lines) : c ∈ joinLines lines := by
    induction lines with
    | nil => cases line
    | cons x lines ih =>
      cases lines with
      | nil =>
        rw [List.mem_singleton.mp line] at mem
        simpa [joinLines] using mem
      | cons y lines =>
        rw [joinLines, List.intercalate_cons_cons]
        obtain rfl | later := List.mem_cons.mp line
        · simp [mem]
        · exact List.mem_append_right _ (ih later)
  have found := joined line
  rwa [joinLines_linesOf] at found

section

variable {additions : Keyed (List Char) (Option (List Char))} {refresh : List (List Char)}
  {W : MergeWords}

/-- The merged text, line by line. -/
structure MergedLines (additions : Keyed (List Char) (Option (List Char)))
    (refresh : List (List Char)) (text merged : List Char) (front back : List (List Char)) :
    Prop where
  lines : linesOf merged =
    front ++ (linesOf text).map (renewedLine (toRenew additions refresh text)) ++ back
  silent : ∀ l ∈ front, Silent l
  /-- a header is written only where nothing stands in the file -/
  blank : front = [] ∨ ∀ l ∈ linesOf text, l.all isSpace = true
  added : AddedLines (toAdd additions text) back

theorem blank_of_renewed {R : List (List Char × List Char)} (plain : Plain R)
    (blank : (R.foldl renew text).all isSpace = true) :
    ∀ l ∈ linesOf text, l.all isSpace = true := by
  intro l mem
  have there : renewedLine R l ∈ linesOf (R.foldl renew text) := by
    rw [linesOf_renewAll plain]
    exact List.mem_map_of_mem mem
  have spaces : ∀ c ∈ renewedLine R l, isSpace c = true := fun c inLine =>
    List.all_eq_true.mp blank c (mem_of_mem_line inLine there)
  rw [renewedLine_of_none] at spaces
  · exact List.all_eq_true.mpr spaces
  · intro n seen
    by_contra given
    obtain ⟨v, given⟩ := Option.ne_none_iff_exists'.mp given
    rw [renewedLine_of_lookup seen given] at spaces
    obtain ⟨c, n', rfl, word⟩ := (writtenName_eq_some.mp seen).1.exists_cons
    have space := spaces c (by simp [assignment])
    rw [isSpace_of_isWord word] at space
    cases space

theorem AddedLines.append {R : List (List Char × List Char)} {front lines : List (List Char)}
    (silent : ∀ l ∈ front, Silent l) (added : AddedLines R lines) :
    AddedLines R (front ++ lines) where
  each l mem := by
    obtain before | behind := List.mem_append.mp mem
    · exact .inl (silent l before)
    · exact added.each l behind
  all e mem := List.mem_append_right _ (added.all e mem)

theorem silent_writer (W : MergeWords) :
    Silent (writtenBy W) ∧ Silent holdsSecrets ∧ Silent (addedBy W) :=
  ⟨silent_comment _, silent_comment _, silent_comment _⟩

theorem newline_not_mem_holdsSecrets : '\n' ∉ holdsSecrets := by decide +kernel

theorem newline_not_mem_writtenBy (words : W.OneLine) : '\n' ∉ writtenBy W := by
  have before : '\n' ∉ " Written by ".toList := by decide +kernel
  have behind : '\n' ∉ ". Environment variables always win over this file.".toList := by
    decide +kernel
  rw [writtenBy, List.cons_append, List.cons_append, List.mem_cons, List.mem_append,
    List.mem_append]
  rintro (hash | (first | author) | last)
  · cases hash
  · exact before first
  · exact words.author author
  · exact behind last

theorem newline_not_mem_addedBy (words : W.OneLine) : '\n' ∉ addedBy W := by
  have before : '\n' ∉ " Added by ".toList := by decide +kernel
  have behind : '\n' ∉ ". Delete a line to have it generated afresh.".toList := by decide +kernel
  rw [addedBy, List.cons_append, List.cons_append, List.mem_cons, List.mem_append,
    List.mem_append]
  rintro (hash | (first | author) | last)
  · cases hash
  · exact before first
  · exact words.author author
  · exact behind last

theorem linesOf_header (words : W.OneLine) (rest : List Char) :
    ∃ front, (∀ l ∈ front, Silent l) ∧ linesOf (header W ++ rest) = front ++ linesOf rest := by
  obtain ⟨first, second, -⟩ := silent_writer W
  refine ⟨[writtenBy W, holdsSecrets], by simp [first, second], ?_⟩
  rw [header, List.append_assoc, List.cons_append, List.append_assoc, List.singleton_append,
    linesOf_cons (newline_not_mem_writtenBy words), linesOf_cons newline_not_mem_holdsSecrets]
  rfl

theorem linesOf_block (words : W.OneLine) {R : List (List Char × List Char)} (plain : Plain R)
    (text : List Char) :
    ∃ back, AddedLines R back ∧ linesOf (text ++ block W R) = linesOf text ++ back := by
  obtain ⟨lines, added, is⟩ := linesOf_assignments words plain
  have silent : ∀ l ∈ [addedBy W], Silent l := by simp [(silent_writer W).2.2]
  refine ⟨_, added.append silent, ?_⟩
  rw [block, linesOf_append, linesOf_cons (newline_not_mem_addedBy words), is]
  rfl

theorem exists_mergedLines (words : W.OneLine) (add : Plain (toAdd additions text))
    (renewing : Plain (toRenew additions refresh text)) :
    ∃ front back, MergedLines additions refresh text
      (mergeEnvFile additions refresh W text).text front back := by
  unfold mergeEnvFile
  dsimp only
  split
  · rename_i nothing
    refine ⟨[], [], ?_, by simp, .inl rfl, by rw [nothing]; exact ⟨by simp, by simp⟩⟩
    rw [linesOf_renewAll renewing, List.nil_append, List.append_nil]
  · generalize isOut : (toRenew additions refresh text).foldl renew text = out
    have old : linesOf out = (linesOf text).map (renewedLine (toRenew additions refresh text)) := by
      rw [← isOut, linesOf_renewAll renewing]
    generalize isGap : (if out ≠ [] ∧ out.getLast? ≠ some '\n' then ['\n'] else []) = gap
    obtain ⟨empty, silent, gapLines⟩ : ∃ empty, (∀ l ∈ empty, Silent l) ∧
        linesOf (out ++ gap) = linesOf out ++ empty := by
      rw [← isGap]
      split
      · exact ⟨[[]], by simp [silent_nil], linesOf_append out []⟩
      · exact ⟨[], by simp, by simp⟩
    obtain ⟨back, added, whole⟩ := linesOf_block words add (out ++ gap)
    have behind : linesOf (out ++ gap ++ block W (toAdd additions text)) =
        (linesOf text).map (renewedLine (toRenew additions refresh text)) ++ (empty ++ back) := by
      rw [whole, gapLines, old, List.append_assoc]
    split
    · rename_i blank
      obtain ⟨front, comments, headed⟩ := linesOf_header words
        (out ++ gap ++ block W (toAdd additions text))
      refine ⟨front, empty ++ back, ?_, comments, .inr ?_, added.append silent⟩
      · have assoc : header W ++ out ++ gap ++ block W (toAdd additions text) =
            header W ++ (out ++ gap ++ block W (toAdd additions text)) := by
          simp only [List.append_assoc]
        rw [assoc, headed, behind, List.append_assoc]
      · rw [← isOut] at blank
        exact blank_of_renewed renewing blank
    · exact ⟨[], empty ++ back, behind, by simp, .inl rfl, added.append silent⟩

theorem mem_usable : (n, v) ∈ usable additions ↔ (n, some v) ∈ additions.entries ∧ v ≠ [] := by
  rw [usable, List.mem_filterMap]
  constructor
  · rintro ⟨⟨m, u⟩, mem, is⟩
    obtain ⟨v', given, pair⟩ := Option.map_eq_some_iff.mp is
    obtain ⟨rfl, rfl⟩ := Prod.ext_iff.mp pair
    obtain ⟨rfl, some'⟩ := Option.filter_eq_some_iff.mp given
    exact ⟨mem, by simpa using some'⟩
  · rintro ⟨mem, some'⟩
    exact ⟨_, mem, by simp [some']⟩

theorem usable_unique (mem : (n, v) ∈ usable additions)
    (mem' : (n, w) ∈ usable additions) : v = w :=
  Option.some.inj (Keyed.value_unique (mem_usable.mp mem).1 (mem_usable.mp mem').1)

theorem usable_nodup (additions : Keyed (List Char) (Option (List Char))) :
    ((usable additions).map Prod.fst).Nodup := by
  have sub : ((usable additions).map Prod.fst).Sublist additions.keys := by
    unfold usable Keyed.keys
    induction additions.entries with
    | nil => exact .refl _
    | cons e entries ih =>
      cases given : e.2.filter (· ≠ []) with
      | none =>
        rw [List.filterMap_cons_none (by rw [given]; rfl)]
        exact ih.cons _
      | some v =>
        rw [List.filterMap_cons_some (b := (e.1, v)) (by rw [given]; rfl)]
        exact ih.cons_cons _
  exact additions.keys_nodup.sublist sub

theorem mem_toAdd :
    (n, v) ∈ toAdd additions text ↔ (n, v) ∈ usable additions ∧ n ∉ present text := by
  simp [toAdd]

theorem mem_toRenew : (n, v) ∈ toRenew additions refresh text ↔
    (n, v) ∈ usable additions ∧ n ∈ present text ∧ n ∈ refresh := by
  simp [toRenew]

theorem mem_present : n ∈ present text ↔ ∃ l ∈ linesOf text, writtenName l = some n :=
  List.mem_filterMap

theorem plain_toAdd (each : ∀ n v, (n, v) ∈ toAdd additions text → IsName n ∧ '\n' ∉ v) :
    Plain (toAdd additions text) where
  name e mem := (each e.1 e.2 mem).1
  oneLine e mem := (each e.1 e.2 mem).2
  once := (usable_nodup additions).sublist (List.filter_sublist.map _)

theorem plain_toRenew (each : ∀ n v, (n, v) ∈ toRenew additions refresh text → '\n' ∉ v) :
    Plain (toRenew additions refresh text) where
  name e mem := by
    obtain ⟨l, -, seen⟩ := mem_present.mp (mem_toRenew.mp mem).2.1
    exact (writtenName_eq_some.mp seen).1
  oneLine e mem := each e.1 e.2 mem
  once := (usable_nodup additions).sublist (List.filter_sublist.map _)

/-- A name written with a value on one line is read under that name. -/
theorem exists_readLine_assignment (name : IsName n) (plain : v.any isTerminator = false) :
    ∃ w, readLine (assignment n v) = some (n, w) := by
  have is : assigns ((assignment n v).dropWhile isSpace) = some (n, v) := by
    rw [assignment, dropWhile_of_isName name, ← assignment, assigns_assignment name]
  have inLine : (v.dropWhile isSpace).any isTerminator = false :=
    List.any_eq_false.mpr fun c mem =>
      List.any_eq_false.mp plain c ((List.dropWhile_suffix _).subset mem)
  refine ⟨unquote (trimEnd (v.dropWhile isSpace)), ?_⟩
  rw [readLine]
  dsimp only
  rw [exported_bind_assigns is, Option.none_or, is]
  dsimp only
  rw [if_neg (by rw [inLine]; exact Bool.false_ne_true)]

namespace MergedLines

variable {merged : List Char} {front back : List (List Char)}
  (ml : MergedLines additions refresh text merged front back)
include ml

theorem lastValue_eq (n : List Char) : (parseEnvFile merged).get n = (lastValue n back).or
    (lastValue n ((linesOf text).map (renewedLine (toRenew additions refresh text)))) := by
  have none' : lastValue n front = none := by
    rw [lastValue_eq_none]
    intro l mem v
    rw [(ml.silent l mem).1]
    exact nofun
  rw [get_parseEnvFile, ml.lines, lastValue_append, lastValue_append, none', Option.or_none]

theorem get_of_not_mem (add : Plain (toAdd additions text))
    (absent : n ∉ (toAdd additions text).map Prod.fst) :
    (parseEnvFile merged).get n =
      lastValue n ((linesOf text).map (renewedLine (toRenew additions refresh text))) := by
  rw [ml.lastValue_eq, lastValue_added_of_not_mem add ml.added absent, Option.none_or]

theorem get_of_mem (add : Plain (toAdd additions text)) (mem : (n, v) ∈ toAdd additions text) :
    (parseEnvFile merged).get n = (valueIn n (assignment n v)).or
      (lastValue n ((linesOf text).map (renewedLine (toRenew additions refresh text)))) := by
  rw [ml.lastValue_eq, lastValue_added add ml.added mem]

end MergedLines

/-- A line read under another name stays unread under this one. -/
theorem valueIn_of_writtenName {l : List Char} (seen : writtenName l = some k) (apart : k ≠ n) :
    valueIn n l = none := by
  refine Option.eq_none_iff_forall_ne_some.mpr fun v given => ?_
  rw [valueIn_eq_some] at given
  obtain none' | ⟨u, is⟩ := readLine_of_writtenName seen
  · rw [none'] at given
    cases given
  · rw [is] at given
    exact apart (congrArg Prod.fst (Option.some.inj given))

/-- A line that does not assign a name as the writer sees it says of it what it said. -/
theorem valueIn_renewedLine {l : List Char} (R : List (List Char × List Char))
    (other : writtenName l ≠ some n) : valueIn n (renewedLine R l) = valueIn n l := by
  cases seen : writtenName l with
  | none => rw [renewedLine_of_none (by simp [seen])]
  | some k =>
    have apart : k ≠ n := fun same => other (same ▸ seen)
    cases given : R.lookup k with
    | none =>
      rw [renewedLine_of_none fun m is => ?_]
      rw [seen] at is
      rw [← Option.some.inj is, given]
    | some v =>
      have name := (writtenName_eq_some.mp seen).1
      rw [renewedLine_of_lookup seen given,
        valueIn_of_writtenName (writtenName_assignment name v) apart,
        valueIn_of_writtenName seen apart]

theorem lastValue_renewed_of_not_mem {R : List (List Char × List Char)}
    (absent : R.lookup n = none) (lines : List (List Char)) :
    lastValue n (lines.map (renewedLine R)) = lastValue n lines := by
  unfold lastValue
  rw [List.filterMap_map]
  refine congrArg List.getLast? (List.filterMap_congr fun l _ => ?_)
  rw [Function.comp_apply]
  by_cases own : writtenName l = some n
  · rw [renewedLine_of_none fun m is => ?_]
    rw [own] at is
    rw [← Option.some.inj is, absent]
  · exact valueIn_renewedLine R own

/-- Does a line name a name, in either spelling? -/
def names (n line : List Char) : Bool :=
  decide (writtenName line = some n) || (valueIn n line).isSome

/-- A line as it stands once a name is renewed. -/
def renewedIn (n v line : List Char) : List Char :=
  if writtenName line = some n then assignment n v else line

theorem lastValue_renewed {R : List (List Char × List Char)} (plain : Plain R) (mem : (n, v) ∈ R)
    (read : (valueIn n (assignment n v)).isSome = true) (lines : List (List Char)) :
    lastValue n (lines.map (renewedLine R)) =
      (lines.filter (names n)).getLast?.bind fun l => valueIn n (renewedIn n v l) := by
  rw [← getLast?_filterMap]
  · unfold lastValue
    rw [List.filterMap_map, List.filterMap_filter]
    refine congrArg List.getLast? (List.filterMap_congr fun l _ => ?_)
    rw [Function.comp_apply, renewedIn]
    by_cases own : writtenName l = some n
    · rw [renewedLine_of_lookup own (plain.lookup mem), if_pos own, names, decide_eq_true own,
        Bool.true_or, if_pos rfl]
    · rw [valueIn_renewedLine R own, if_neg own, names, decide_eq_false own, Bool.false_or]
      cases valueIn n l <;> rfl
  · intro l there
    have named := (List.mem_filter.mp there).2
    rw [names, Bool.or_eq_true, decide_eq_true_iff] at named
    rw [renewedIn]
    split
    · exact read
    · rename_i other
      exact named.resolve_left other

end

/-- What is said of a merge: no value that was there changes, what is given is read back, the old
lines stay where they are, and a second merge changes nothing. -/
structure MergeKeeps (W : MergeWords) (additions : Keyed (List Char) (Option (List Char)))
    (refresh : List (List Char)) (text : List Char) : Prop where
  kept : ∀ n w, (parseEnvFile text).get n = some w → n ∉ refresh →
    (parseEnvFile (mergeEnvFile additions refresh W text).text).get n = some w
  given : ∀ n v, (n, v) ∈ usable additions → (parseEnvFile text).get n = none ∨ n ∈ refresh →
    (parseEnvFile (mergeEnvFile additions refresh W text).text).get n = some v
  lines : ∃ front middle back,
    linesOf (mergeEnvFile additions refresh W text).text = front ++ middle ++ back ∧
    (front = [] ∨ ∀ l ∈ linesOf text, l.all isSpace = true) ∧
    List.Forall₂ (fun old new => new = old ∨ ∃ n v, writtenName old = some n ∧ n ∈ refresh ∧
      (n, v) ∈ usable additions ∧ new = assignment n v) (linesOf text) middle
  again : (mergeEnvFile additions refresh W (mergeEnvFile additions refresh W text).text).text =
    (mergeEnvFile additions refresh W text).text

/-- The reader and the writer agree on the names that are added or renewed. -/
structure MergeFits (additions : Keyed (List Char) (Option (List Char)))
    (refresh : List (List Char)) (text : List Char) : Prop where
  /-- a name the text does not hold is one, and its value is read as it is written -/
  fresh : ∀ n v, (n, v) ∈ usable additions → n ∉ present text →
    (parseEnvFile text).get n = none ∨ n ∈ refresh → readLine (assignment n v) = some (n, v)
  /-- a name that is only exported is given no other value -/
  exported : ∀ n v w, (n, v) ∈ usable additions → n ∉ present text →
    (parseEnvFile text).get n = some w → n ∉ refresh →
      readLine (assignment n v) = none ∨ readLine (assignment n v) = some (n, w)
  /-- a name the writer sees is one the reader reads -/
  unread : ∀ n v, (n, v) ∈ usable additions → n ∈ present text → n ∉ refresh →
    (parseEnvFile text).get n ≠ none
  /-- the last line that names a renewed name is one that is renewed -/
  renewed : ∀ n v l, (n, v) ∈ usable additions → n ∈ present text → n ∈ refresh →
    ((linesOf text).filter (names n)).getLast? = some l →
      readLine (renewedIn n v l) = some (n, v)

section

variable {additions : Keyed (List Char) (Option (List Char))} {refresh : List (List Char)}
  {W : MergeWords}

theorem exists_last_naming (there : n ∈ present text) :
    ∃ l, ((linesOf text).filter (names n)).getLast? = some l := by
  obtain ⟨l, mem, seen⟩ := mem_present.mp there
  have some' : (linesOf text).filter (names n) ≠ [] :=
    List.ne_nil_of_mem (List.mem_filter.mpr ⟨mem, by simp [names, seen]⟩)
  exact ⟨_, List.getLast?_eq_some_getLast some'⟩

theorem lookup_eq_none_of {R : List (List Char × List Char)} (absent : ∀ v, (n, v) ∉ R) :
    R.lookup n = none := by
  refine List.lookup_eq_none_iff.mpr fun e mem => ?_
  have apart : n ≠ e.1 := by
    rintro rfl
    exact absent e.2 mem
  simpa using apart

theorem not_mem_map_toAdd (there : n ∈ present text) : n ∉ (toAdd additions text).map Prod.fst := by
  intro mem
  obtain ⟨⟨m, v⟩, inAdd, rfl⟩ := List.mem_map.mp mem
  exact (mem_toAdd.mp inAdd).2 there

/-- A value read once more is one that a line can hold. -/
theorem readable_of_get (is : (parseEnvFile text).get n = some v) :
    IsName n ∧ '\n' ∉ v ∧ (valueIn n (assignment n v)).isSome = true := by
  rw [get_parseEnvFile] at is
  obtain ⟨l, -, read⟩ := readLine_of_lastValue is
  obtain ⟨name, plain⟩ := plain_of_readLine read
  obtain ⟨w, again⟩ := exists_readLine_assignment name plain
  exact ⟨name, newline_not_mem_of_readLine read, by rw [valueIn_eq_some.mpr again]; rfl⟩

theorem fits_of_keeps (words : W.OneLine)
    (oneLine : ∀ n v, (n, v) ∈ toAdd additions text → (parseEnvFile text).get n ≠ none →
      n ∉ refresh → '\n' ∉ v)
    (keeps : MergeKeeps W additions refresh text) : MergeFits additions refresh text := by
  have due {n v : List Char} (mem : (n, v) ∈ usable additions)
      (asked : (parseEnvFile text).get n = none ∨ n ∈ refresh) :=
    readable_of_get (keeps.given n v mem asked)
  have add : Plain (toAdd additions text) := plain_toAdd fun n v mem => by
    have use := (mem_toAdd.mp mem).1
    by_cases asked : (parseEnvFile text).get n = none ∨ n ∈ refresh
    · exact ⟨(due use asked).1, (due use asked).2.1⟩
    · obtain ⟨held, stays⟩ := not_or.mp asked
      obtain ⟨w, is⟩ := Option.ne_none_iff_exists'.mp held
      exact ⟨(readable_of_get is).1, oneLine n v mem held stays⟩
  have renewing : Plain (toRenew additions refresh text) := plain_toRenew fun n v mem =>
    (due (mem_toRenew.mp mem).1 (.inr (mem_toRenew.mp mem).2.2)).2.1
  obtain ⟨front, back, ml⟩ := exists_mergedLines words add renewing
  have unseen {n : List Char} (absent : n ∉ present text) :
      lastValue n ((linesOf text).map (renewedLine (toRenew additions refresh text))) =
        (parseEnvFile text).get n := by
    rw [get_parseEnvFile]
    exact lastValue_renewed_of_not_mem
      (lookup_eq_none_of fun v mem => absent (mem_toRenew.mp mem).2.1) _
  refine ⟨fun n v use absent asked => ?_, fun n v w use absent is stays => ?_,
    fun n v use there stays none' => ?_, fun n v l use there inRefresh last => ?_⟩
  · have read := keeps.given n v use asked
    obtain ⟨w, is⟩ := Option.isSome_iff_exists.mp (due use asked).2.2
    rw [ml.get_of_mem add (mem_toAdd.mpr ⟨use, absent⟩), is, Option.some_or] at read
    rw [Option.some.inj read] at is
    exact valueIn_eq_some.mp is
  · have read := keeps.kept n w is stays
    rw [ml.get_of_mem add (mem_toAdd.mpr ⟨use, absent⟩)] at read
    have name := (add.name _ (mem_toAdd.mpr ⟨use, absent⟩))
    obtain unread | ⟨u, found⟩ := readLine_of_writtenName (writtenName_assignment name v)
    · exact .inl unread
    · rw [valueIn_eq_some.mpr found, Option.some_or] at read
      exact .inr (Option.some.inj read ▸ found)
  · have read := keeps.given n v use (.inl none')
    rw [ml.get_of_not_mem add (not_mem_map_toAdd there),
      lastValue_renewed_of_not_mem
        (lookup_eq_none_of fun v mem => stays (mem_toRenew.mp mem).2.2),
      ← get_parseEnvFile, none'] at read
    cases read
  · have read := keeps.given n v use (.inr inRefresh)
    rw [ml.get_of_not_mem add (not_mem_map_toAdd there),
      lastValue_renewed renewing (mem_toRenew.mpr ⟨use, there, inRefresh⟩)
        (due use (.inr inRefresh)).2.2, last] at read
    exact valueIn_eq_some.mp read

/-- A line that is renewed keeps its name. -/
theorem writtenName_renewedLine_ne (R : List (List Char × List Char)) {l : List Char}
    (other : writtenName l ≠ some n) : writtenName (renewedLine R l) ≠ some n := by
  cases seen : writtenName l with
  | none => rw [renewedLine_of_none (by simp [seen]), seen]; exact nofun
  | some k =>
    cases given : R.lookup k with
    | none =>
      rw [renewedLine_of_none fun m is => ?_]
      · exact other
      · rw [seen] at is
        rw [← Option.some.inj is, given]
    | some v =>
      rw [renewedLine_of_lookup seen given, writtenName_assignment (writtenName_eq_some.mp seen).1]
      rw [seen] at other
      exact other

theorem mergeEnvFile_again {front back : List (List Char)}
    (add : Plain (toAdd additions text)) (renewing : Plain (toRenew additions refresh text))
    {merged : List Char} (ml : MergedLines additions refresh text merged front back) :
    (mergeEnvFile additions refresh W merged).text = merged := by
  have seen {n v : List Char} (use : (n, v) ∈ usable additions) : n ∈ present merged := by
    rw [mem_present, ml.lines]
    by_cases there : n ∈ present text
    · obtain ⟨l, mem, is⟩ := mem_present.mp there
      refine ⟨renewedLine (toRenew additions refresh text) l, ?_, ?_⟩
      · exact List.mem_append_left _ (List.mem_append_right _ (List.mem_map_of_mem mem))
      · cases given : (toRenew additions refresh text).lookup n with
        | some u =>
          rw [renewedLine_of_lookup is given,
            writtenName_assignment (writtenName_eq_some.mp is).1]
        | none =>
          rw [renewedLine_of_none fun m same => ?_, is]
          rw [is] at same
          rw [← Option.some.inj same, given]
    · have inAdd := mem_toAdd.mpr ⟨use, there⟩
      exact ⟨_, List.mem_append_right _ (ml.added.all _ inAdd),
        writtenName_assignment (add.name _ inAdd) v⟩
  have nothing : toAdd additions merged = [] := by
    rw [List.eq_nil_iff_forall_not_mem]
    rintro ⟨n, v⟩ mem
    exact (mem_toAdd.mp mem).2 (seen (mem_toAdd.mp mem).1)
  have renewing' : Plain (toRenew additions refresh merged) := plain_toRenew fun n v mem => by
    obtain ⟨use, -, inRefresh⟩ := mem_toRenew.mp mem
    by_cases there : n ∈ present text
    · exact renewing.oneLine _ (mem_toRenew.mpr ⟨use, there, inRefresh⟩)
    · exact add.oneLine _ (mem_toAdd.mpr ⟨use, there⟩)
  have same : ∀ l ∈ linesOf merged, renewedLine (toRenew additions refresh merged) l = l := by
    intro l mem
    cases own : writtenName l with
    | none => exact renewedLine_of_none (by simp [own])
    | some n =>
      cases given : (toRenew additions refresh merged).lookup n with
      | none =>
        refine renewedLine_of_none fun m same => ?_
        rw [own] at same
        rw [← Option.some.inj same, given]
      | some v =>
        rw [renewedLine_of_lookup own given]
        obtain ⟨b, a, split, -⟩ := List.lookup_eq_some_iff.mp given
        have inRenew : (n, v) ∈ toRenew additions refresh merged := by rw [split]; simp
        obtain ⟨use, -, inRefresh⟩ := mem_toRenew.mp inRenew
        rw [ml.lines] at mem
        obtain (inFront | inMiddle) | inBack := by simpa only [List.mem_append] using mem
        · rw [(ml.silent l inFront).2] at own
          cases own
        · obtain ⟨old, there, rfl⟩ := List.mem_map.mp inMiddle
          by_cases here : writtenName old = some n
          · have inOld := renewing.lookup
              (mem_toRenew.mpr ⟨use, mem_present.mpr ⟨old, there, here⟩, inRefresh⟩)
            rw [renewedLine_of_lookup here inOld]
          · exact absurd own (writtenName_renewedLine_ne _ here)
        · obtain silent | ⟨e, inAdd, rfl⟩ := ml.added.each l inBack
          · rw [silent.2] at own
            cases own
          · rw [writtenName_assignment (add.name e inAdd)] at own
            obtain rfl := Option.some.inj own
            rw [usable_unique use (mem_toAdd.mp inAdd).1]
  have whole : (toRenew additions refresh merged).foldl renew merged = merged := by
    rw [← joinLines_linesOf ((toRenew additions refresh merged).foldl renew merged),
      linesOf_renewAll renewing', List.map_congr_left same, List.map_id', joinLines_linesOf]
  unfold mergeEnvFile
  dsimp only
  rw [if_pos nothing, whole]

theorem keeps_of_fits (words : W.OneLine)
    (oneLine : ∀ n v, (n, v) ∈ toAdd additions text → (parseEnvFile text).get n ≠ none →
      n ∉ refresh → '\n' ∉ v)
    (fits : MergeFits additions refresh text) : MergeKeeps W additions refresh text := by
  have add : Plain (toAdd additions text) := plain_toAdd fun n v mem => by
    obtain ⟨use, absent⟩ := mem_toAdd.mp mem
    by_cases asked : (parseEnvFile text).get n = none ∨ n ∈ refresh
    · have read := fits.fresh n v use absent asked
      exact ⟨(plain_of_readLine read).1, newline_not_mem_of_readLine read⟩
    · obtain ⟨held, stays⟩ := not_or.mp asked
      obtain ⟨w, is⟩ := Option.ne_none_iff_exists'.mp held
      exact ⟨(readable_of_get is).1, oneLine n v mem held stays⟩
  have renewing : Plain (toRenew additions refresh text) := plain_toRenew fun n v mem => by
    obtain ⟨use, there, inRefresh⟩ := mem_toRenew.mp mem
    obtain ⟨l, last⟩ := exists_last_naming there
    exact newline_not_mem_of_readLine (fits.renewed n v l use there inRefresh last)
  obtain ⟨front, back, ml⟩ := exists_mergedLines words add renewing
  have stays {n : List Char} (stays : n ∉ refresh) :
      lastValue n ((linesOf text).map (renewedLine (toRenew additions refresh text))) =
        (parseEnvFile text).get n := by
    rw [get_parseEnvFile]
    exact lastValue_renewed_of_not_mem
      (lookup_eq_none_of fun v mem => stays (mem_toRenew.mp mem).2.2) _
  refine ⟨fun n w is free => ?_, fun n v use asked => ?_, ⟨front, _, back, ml.lines, ml.blank, ?_⟩,
    mergeEnvFile_again add renewing ml⟩
  · by_cases inAdd : n ∈ (toAdd additions text).map Prod.fst
    · obtain ⟨⟨m, v⟩, mem, rfl⟩ := List.mem_map.mp inAdd
      rw [ml.get_of_mem add mem, stays free, is]
      obtain ⟨use, absent⟩ := mem_toAdd.mp mem
      obtain unread | same := fits.exported _ v w use absent is free
      · have none' : valueIn m (assignment m v) = none :=
          Option.eq_none_iff_forall_ne_some.mpr fun u given => by
            rw [valueIn_eq_some, unread] at given
            cases given
        rw [none', Option.none_or]
      · rw [valueIn_eq_some.mpr same, Option.some_or]
    · rw [ml.get_of_not_mem add inAdd, stays free, is]
  · by_cases there : n ∈ present text
    · rw [ml.get_of_not_mem add (not_mem_map_toAdd there)]
      by_cases inRefresh : n ∈ refresh
      · obtain ⟨l, last⟩ := exists_last_naming there
        have read := fits.renewed n v l use there inRefresh last
        obtain ⟨name, plain⟩ := plain_of_readLine read
        obtain ⟨u, again⟩ := exists_readLine_assignment name plain
        rw [lastValue_renewed renewing (mem_toRenew.mpr ⟨use, there, inRefresh⟩)
          (by rw [valueIn_eq_some.mpr again]; rfl), last]
        exact valueIn_eq_some.mpr read
      · exact absurd (asked.resolve_right inRefresh) (fits.unread n v use there inRefresh)
    · rw [ml.get_of_mem add (mem_toAdd.mpr ⟨use, there⟩),
        valueIn_eq_some.mpr (fits.fresh n v use there asked), Option.some_or]
  · refine List.forall₂_map_right_iff.mpr (List.forall₂_same.mpr fun l _ => ?_)
    cases seen : writtenName l with
    | none => exact .inl (renewedLine_of_none (by simp [seen]))
    | some n =>
      cases given : (toRenew additions refresh text).lookup n with
      | none =>
        refine .inl (renewedLine_of_none fun m is => ?_)
        rw [seen] at is
        rw [← Option.some.inj is, given]
      | some v =>
        obtain ⟨b, a, split, -⟩ := List.lookup_eq_some_iff.mp given
        have inRenew : (n, v) ∈ toRenew additions refresh text := by rw [split]; simp
        obtain ⟨use, -, inRefresh⟩ := mem_toRenew.mp inRenew
        exact .inr ⟨n, v, rfl, inRefresh, use, renewedLine_of_lookup seen given⟩

/-- A merge keeps what was there and gives what is new exactly where the two patterns agree. -/
theorem merge_keeps_iff (words : W.OneLine)
    (oneLine : ∀ n v, (n, v) ∈ toAdd additions text → (parseEnvFile text).get n ≠ none →
      n ∉ refresh → '\n' ∉ v) :
    MergeKeeps W additions refresh text ↔ MergeFits additions refresh text :=
  ⟨fits_of_keeps words oneLine, keeps_of_fits words oneLine⟩

/-- The launcher's own words. -/
theorem oneLine_default : MergeWords.OneLine {} where
  author := by decide +kernel
  notes _ _ is := by cases is

/-- One name with its value. -/
def onePair (n v : String) : Keyed (List Char) (Option (List Char)) :=
  Keyed.empty.set n.toList (some v.toList)

theorem merge_keeps_new_name :
    MergeKeeps {} (onePair "PORT" "80") [] "# mine\nHOST = 'a b'".toList := by
  have only : usable (onePair "PORT" "80") = [("PORT".toList, "80".toList)] := by decide +kernel
  have absent : "PORT".toList ∉ present "# mine\nHOST = 'a b'".toList := by decide +kernel
  have unread : (parseEnvFile "# mine\nHOST = 'a b'".toList).get "PORT".toList = none := by
    decide +kernel
  have is {n v : List Char} (use : (n, v) ∈ usable (onePair "PORT" "80")) :
      n = "PORT".toList ∧ v = "80".toList := by
    rw [only, List.mem_singleton] at use
    exact Prod.ext_iff.mp use
  refine (merge_keeps_iff oneLine_default fun n v mem held => ?_).mpr
    ⟨fun n v use _ _ => ?_, fun n v w use _ held => ?_, fun n v use there => ?_,
      fun n v l use there => ?_⟩
  · obtain ⟨rfl, rfl⟩ := is (mem_toAdd.mp mem).1
    exact absurd unread held
  · obtain ⟨rfl, rfl⟩ := is use
    decide +kernel
  · obtain ⟨rfl, rfl⟩ := is use
    rw [unread] at held
    cases held
  · exact absurd ((is use).1 ▸ there) absent
  · exact absurd ((is use).1 ▸ there) absent

/-- A name that is exported is given another value. -/
theorem merge_overrides_export :
    ¬ ∀ (additions : Keyed (List Char) (Option (List Char))) (refresh : List (List Char))
      (text : List Char), MergeKeeps {} additions refresh text := by
  intro all
  have keeps := all (onePair "KEY" "new") [] "export KEY=old\n".toList
  have kept := keeps.kept "KEY".toList "old".toList (by decide +kernel) (by simp)
  revert kept
  decide +kernel

end

end Clearotron.EnvFile
