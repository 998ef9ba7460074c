import Clearotron.Verdict.Counts
import Clearotron.Verdict.Stated

/-!
# The words of the statement

The statement is put together of the band's word, the text it opens with, the count and marks
between them. What it holds of the engine's words one of its parts holds, and the text it opens with
holds no more than the condition it was clipped from.
-/

namespace Clearotron.Verdict

open EngineWords
open Text (isWord isSpace)

variable {T : ConditionText} {x y l front : List Char} {c : Char} {s : String} {n : ℕ}

/-- The marks between the parts of a statement. -/
theorem parts_of_mark (mark : c ∈ ['—', ':', '.', '(', ')', '…']) : Parts x c y ∧ c ≠ '_' := by
  have own : ∀ c ∈ ['—', ':', '.', '(', ')', '…'],
      isWord c = false ∧ c.toLower ∉ enginePhrases.flatten ∧ c ≠ '_' :=
    each_of_all (by decide)
  obtain ⟨plain, outside, apart⟩ := own c mark
  exact ⟨⟨outside, fun word => absurd word (Bool.eq_false_iff.mp plain),
    fun word => absurd word (Bool.eq_false_iff.mp plain)⟩, apart⟩

theorem plain_of_mark (mark : c ∈ ['—', ':', '.', '(', ')', '…'])
    (left : carriesEngineWords x = false) (right : carriesEngineWords y = false) :
    carriesEngineWords (x ++ c :: y) = false := by
  rw [Bool.eq_false_iff]
  intro carries
  obtain ⟨parts, apart⟩ := parts_of_mark (x := x) (y := y) mark
  obtain carries | carries := carries_of_parts parts apart carries
  · exact Bool.eq_false_iff.mp left carries
  · exact Bool.eq_false_iff.mp right carries

example : carriesEngineWords "High — four records".toList = false := by decide +kernel

theorem plain_concat_blank (plain : carriesEngineWords x = false) :
    carriesEngineWords (x ++ [' ']) = false :=
  (carries_append_blanks (each_of_all (by decide))).trans plain

theorem plain_cons_blank (plain : carriesEngineWords x = false) :
    carriesEngineWords (' ' :: x) = false :=
  (carries_blanks_append (x := [' ']) (each_of_all (by decide))).trans plain

theorem parts_of_foreign (foreign : 128 ≤ c.toNat) : isWord c = false ∧ Parts x c y ∧ c ≠ '_' := by
  have outside : isWord c = false := by
    rw [Bool.eq_false_iff]
    intro word
    have ascii := EnvFile.code_of_isWord word
    omega
  have own : c.toLower = c := toLower_of_not_upper fun upper => by
    have := isUpper_iff.mp upper
    omega
  have ascii : ∀ d ∈ '_' :: enginePhrases.flatten, d.toNat < 128 := each_of_all (by decide)
  have apart : c ∉ '_' :: enginePhrases.flatten := fun inside => by
    have := ascii c inside
    omega
  rw [List.mem_cons, not_or] at apart
  refine ⟨outside, ⟨own.symm ▸ apart.2, fun word => ?_, fun word => ?_⟩, apart.1⟩
  · rw [outside] at word
    cases word
  · rw [outside] at word
    cases word

theorem carries_of_foreign {us : List Char} (foreign : ∀ u ∈ us, 128 ≤ u.toNat) (filled : us ≠ [])
    (carries : carriesEngineWords (x ++ (us ++ y)) = true) :
    carriesEngineWords x = true ∨ carriesEngineWords y = true := by
  induction us generalizing x with
  | nil => exact absurd rfl filled
  | cons u us ih =>
    obtain ⟨-, parts, apart⟩ :=
      parts_of_foreign (x := x) (y := us ++ y) (foreign u List.mem_cons_self)
    obtain left | right := carries_of_parts parts apart carries
    · exact .inl left
    · rcases us with _ | ⟨u', us⟩
      · exact .inr right
      · exact (ih (x := []) (fun u mem => foreign u (List.mem_cons_of_mem _ mem))
          (List.cons_ne_nil _ _) right).imp (fun none' => by cases none') id

theorem plain_sentenceCaseLead (fits : CapitalFits T l) (plain : carriesEngineWords l = false) :
    carriesEngineWords (sentenceCaseLead T l) = false := by
  obtain ⟨back, whole⟩ := List.takeWhile_prefix (p := isOpener) (l := l)
  have rest : l.drop (l.takeWhile isOpener).length = back := by
    have drop : (l.takeWhile isOpener ++ back).drop (l.takeWhile isOpener).length = back :=
      List.drop_left
    rwa [whole] at drop
  unfold CapitalFits at fits
  rw [rest] at fits
  simp only [sentenceCaseLead, rest]
  cases back with
  | nil => exact plain
  | cons d back =>
    show carriesEngineWords (if T.isSmall d then _ else l) = false
    split
    · rename_i small
      by_cases ascii : d.toNat < 128
      · obtain ⟨u, capital, same⟩ := T.capital_ascii d small ascii
        rw [capital]
        refine (carries_congr ?_).trans plain
        conv_rhs => rw [← whole]
        simp [same]
      · have foreign := (fits d back rfl small).resolve_left ascii
        rw [Bool.eq_false_iff]
        intro carries
        have filled : (T.capital d).toList ≠ [] := by simpa using T.capital_filled d
        rw [List.append_assoc] at carries
        obtain ⟨outside, -⟩ := parts_of_foreign (x := []) (y := []) (Nat.le_of_not_lt ascii)
        refine Bool.eq_false_iff.mp plain ?_
        rw [← whole]
        obtain left | right := carries_of_foreign foreign filled carries
        · exact carries_append_left (openStart_cons.mpr outside) left
        · rw [List.append_cons]
          exact carries_append_right (openEnd_concat.mpr outside) right
    · exact plain

theorem plain_of_front (start : OpenStart y) (plain : carriesEngineWords (x ++ y) = false) :
    carriesEngineWords x = false :=
  Bool.eq_false_iff.mpr fun carries =>
    Bool.eq_false_iff.mp plain (carries_append_left start carries)

theorem plain_withoutStop (plain : carriesEngineWords l = false) :
    carriesEngineWords (withoutStop l) = false := by
  obtain ⟨back, whole, stops⟩ := dropped_at_end (fun c => c = '.' || isSpace c) l
  refine plain_of_front (y := back) (fun c same => ?_) (by rwa [withoutStop, whole])
  have stop := stops c (List.mem_of_mem_head? same)
  rw [Bool.or_eq_true, decide_eq_true_eq] at stop
  obtain rfl | blank := stop
  · decide
  · exact isWord_of_isSpace blank

theorem beforeLastBlank_split (is : beforeLastBlank l = some front) :
    ∃ back, l = front ++ ' ' :: back := by
  rw [beforeLastBlank] at is
  split at is
  · rename_i mem
    obtain rfl := Option.some.inj is
    have mem' : ' ' ∈ l.reverse := List.mem_reverse.mpr mem
    have whole := List.takeWhile_append_dropWhile (p := (· ≠ ' ')) (l := l.reverse)
    have blank := List.head?_dropWhile_not (· ≠ ' ') l.reverse
    cases rest : l.reverse.dropWhile (· ≠ ' ') with
    | nil =>
      have none' := List.dropWhile_eq_nil_iff.mp rest ' ' mem'
      simp at none'
    | cons c rest' =>
      rw [rest] at blank whole
      obtain rfl : c = ' ' := by simpa using blank
      refine ⟨(l.reverse.takeWhile (· ≠ ' ')).reverse, ?_⟩
      have turned := congrArg List.reverse whole
      rw [List.reverse_reverse] at turned
      exact turned.symm.trans (by simp)
  · cases is

theorem within_prefix (n : ℕ) (l : List Char) : within n l <+: l := by
  induction l generalizing n with
  | nil => exact List.prefix_rfl
  | cons c l ih =>
    rw [within]
    split
    · exact List.cons_prefix_cons.mpr ⟨rfl, ih _⟩
    · exact List.nil_prefix

theorem plain_trimEnd (plain : carriesEngineWords l = false) :
    carriesEngineWords (trimEnd l) = false := by
  obtain ⟨back, whole, blanks⟩ := dropped_at_end isSpace l
  exact plain_of_front (openStart_of_blanks blanks) (by rwa [trimEnd, whole])

theorem plain_clipClause (fits : CutFits (withoutStop (Text.trim (String.ofList l)).toList))
    (plain : carriesEngineWords l = false) :
    carriesEngineWords (clipClause l statementClauseMax) = false := by
  have stopped : carriesEngineWords (withoutStop (Text.trim (String.ofList l)).toList) = false := by
    refine plain_withoutStop ((carries_trim _).trans ?_)
    rwa [String.toList_ofList]
  unfold clipClause
  generalize withoutStop (Text.trim (String.ofList l)).toList = t at fits stopped ⊢
  by_cases short : unitsOf t ≤ statementClauseMax
  · simpa [short] using stopped
  · obtain ⟨front, is, far⟩ := fits.resolve_left short
    have kept : (beforeLastBlank (within (statementClauseMax + 1) t)).filter
        (fun front => 40 < unitsOf front) = some front := by simp [is, far]
    obtain ⟨back, cut⟩ := beforeLastBlank_split is
    obtain ⟨behind, whole⟩ := within_prefix (statementClauseMax + 1) t
    have own : carriesEngineWords front = false := by
      refine plain_of_front (y := ' ' :: (back ++ behind)) (openStart_cons.mpr (by decide)) ?_
      rw [← whole, cut] at stopped
      simpa using stopped
    simp only [short, if_false, kept]
    exact plain_of_mark (y := []) (by decide) (plain_trimEnd own) rfl

theorem plain_lede (capital : CapitalFits T s.toList)
    (cut : CutFits (withoutStop (Text.trim (String.ofList (sentenceCaseLead T s.toList))).toList))
    (plain : carriesEngineWords s.toList = false) : carriesEngineWords (lede T s) = false :=
  plain_clipClause cut (plain_sentenceCaseLead capital plain)

/-- A stop, and the note of a register-only run. -/
theorem plain_tail (stop registerOnly : Bool) :
    carriesEngineWords ((if stop then [] else ['.']) ++ (basisNote registerOnly).toList) =
      false := by
  cases stop <;> cases registerOnly <;> exact plain_of_isPlainText (by decide +kernel)

theorem plain_count (n : ℕ) :
    carriesEngineWords ("and ".toList ++ ((toString n).toList ++ " more".toList)) = false := by
  refine carries_eq_false_of_plain fun c mem => ?_
  rw [List.mem_append, List.mem_append] at mem
  have fixed : ∀ c ∈ "and ".toList ++ " more".toList,
      c ≠ '_' ∧ c.toLower ≠ 'f' ∧ c.toLower ≠ 'p' := each_of_all (by decide)
  obtain mem | mem | mem := mem
  · exact fixed c (List.mem_append_left _ mem)
  · have digit := (isNumeral_toString n).2 c mem
    obtain ⟨parts, apart⟩ := parts_of_digit (x := []) (y := []) (.inl digit) (by simp) (by simp)
    refine ⟨apart, fun same => parts.phrases ?_, fun same => parts.phrases ?_⟩
    · rw [same]
      decide
    · rw [same]
      decide
  · exact fixed c (List.mem_append_right _ mem)

theorem plain_conditionalOn {t : String} {first : List Char}
    (band : carriesEngineWords t.toList = false) (lead : carriesEngineWords first = false) (n : ℕ) (registerOnly : Bool) :
    carriesEngineWords (conditionalOn t first (moreText n) registerOnly).toList = false := by
  have tail := plain_tail (decide (first.getLast? = some '…')) registerOnly
  simp only [decide_eq_true_eq] at tail
  have counted : carriesEngineWords (first ++ (moreText n ++
      ((if first.getLast? = some '…' then [] else ['.']) ++ (basisNote registerOnly).toList))) =
        false := by
    by_cases alone : n = 0
    · rw [moreText, if_pos alone, List.nil_append]
      by_cases cut : first.getLast? = some '…'
      · obtain ⟨front, rfl⟩ := List.getLast?_eq_some_iff.mp cut
        rw [if_pos cut] at tail ⊢
        rw [List.nil_append, List.append_assoc]
        exact plain_of_mark (by decide) (plain_of_front (openStart_cons.mpr (by decide)) lead) tail
      · rw [if_neg cut] at tail ⊢
        refine plain_of_mark (by decide) lead ?_
        cases registerOnly <;> exact plain_of_isPlainText (by decide +kernel)
    · rw [moreText, if_neg alone]
      generalize (if first.getLast? = some '…' then [] else ['.']) ++
        (basisNote registerOnly).toList = rest at tail ⊢
      have is : first ++ (" (and ".toList ++ (toString n).toList ++ " more)".toList ++ rest) =
          (first ++ [' ']) ++ '(' :: (("and ".toList ++ ((toString n).toList ++ " more".toList)) ++
            ')' :: rest) := by simp
      rw [is]
      exact plain_of_mark (by decide) (plain_concat_blank lead)
        (plain_of_mark (by decide) (plain_count n) tail)
  have is : (conditionalOn t first (moreText n) registerOnly).toList =
      (t.toList ++ [' ']) ++ '—' :: (" conditional on".toList ++ ':' :: ' ' :: (first ++
        (moreText n ++ ((if first.getLast? = some '…' then [] else ['.']) ++
          (basisNote registerOnly).toList)))) := by
    simp [conditionalOn]
  rw [is]
  exact plain_of_mark (by decide) (plain_concat_blank band)
    (plain_of_mark (by decide) (by decide) (plain_cons_blank counted))

theorem plain_bandAlone {t : String} (band : carriesEngineWords t.toList = false)
    (registerOnly : Bool) : carriesEngineWords (bandAlone t registerOnly).toList = false := by
  rw [bandAlone]
  split
  · rw [String.toList_append, String.toList_append, List.append_assoc]
    exact plain_of_mark (by decide) band (plain_of_isPlainText (by decide +kernel))
  · exact band

end Clearotron.Verdict
