import Clearotron.Discards.Folded

/-!
# Passes over the ledger of discards

In every run of passes, each of which may be cut off in the middle of its append, the ledger says
of a record at a seam what the last row that was written whole says. That asks two things of each
pass: the file is closed where rows are appended to it, and a skipped pass does not carry on a
record that the ledger says its seam discarded.
-/

namespace Clearotron.Discards

open JsonLine (Fields Scalar get?)
open Utf8 (encode decode)

/-- Nothing stands behind the last newline of the file. -/
def Closed (file : List UInt8) : Prop := file = [] ∨ file.getLast? = some 0x0A

/-- What a pass asks of the state it meets. -/
structure Meets (s : State) (p : Pass) : Prop where
  closed : s.rows p ≠ [] → Closed s.file
  kept : p.outcome = .skipped → ∀ uri ∈ p.carriedSet, ∀ e, s.folded.byUri uri p.seam = some e →
    get? e "verdict" ≠ some (.str "discarded")

/-- Every step of a run is met. -/
def MeetsAll : State → List Step → Prop
  | _, [] => True
  | s, step :: steps => Meets s step.pass ∧ MeetsAll (s.next step) steps

/-- The trace after a step says what the seams decided. -/
structure Told (s : State) (step : Step) : Prop where
  /-- each record has at each seam the last row that was written whole -/
  last : ∀ uri seam, (s.next step).folded.byUri uri seam =
    (standing (s.next step).written uri seam).map fun w => w.2.fields w.1
  /-- a skipped pass changes no verdict -/
  skipped : step.pass.outcome = .skipped → ∀ uri seam w, standing s.written uri seam = some w →
    ∃ w', standing (s.next step).written uri seam = some w' ∧
      w'.2.verdict.name = w.2.verdict.name
  /-- no row is lost but those of this pass whose line the append did not reach whole -/
  spared : ∃ whole, whole <+: s.lines step.pass ∧ (s.next step).written = s.written ++ whole ∧
    ∀ front w back, s.lines step.pass = front ++ w :: back →
      (encode (linesText front ++ Written.line w)).length ≤ step.reached → front ++ [w] <+: whole
  /-- each record the pass saw has one row of it, unless a skipped pass leaves one standing -/
  once : ∀ rec ∈ step.pass.saw, ∀ uri, normalizeRecordUri rec = some uri →
    (s.rows step.pass).countP (·.uri = uri) =
      if step.pass.outcome = .skipped ∧ uri ∉ step.pass.carriedSet ∧
        (standing s.written uri step.pass.seam).isSome = true then 0 else 1
  /-- a row is one of its pass, about a record it saw -/
  own : ∀ r ∈ s.rows step.pass, r.seam = step.pass.seam ∧
    ∃ rec ∈ step.pass.saw, normalizeRecordUri rec = some r.uri
  /-- the ending of a record is the first seam whose last row discards it -/
  ending : ∀ uri, ledgerEnding (s.next step).folded uri =
    (normalizeRecordUri uri).bind fun key =>
      discardSeams.findSome? fun seam =>
        ((standing (s.next step).written key seam).filter
          (·.2.verdict.name = "discarded")).map fun w => w.2.fields w.1

section

variable {p : Pass} {prior : ByUri}

theorem mem_rowsFrom {seen saw : List String} {r : Row} (mem : r ∈ p.rowsFrom prior seen saw) :
    ∃ rec ∈ saw, normalizeRecordUri rec = some r.uri ∧ r.seam = p.seam ∧
      p.verdictOn prior rec r.uri = some r.verdict := by
  induction saw generalizing seen with
  | nil => simp [Pass.rowsFrom] at mem
  | cons rec saw ih =>
    rw [Pass.rowsFrom] at mem
    split at mem
    · obtain ⟨rec', there, own⟩ := ih mem
      exact ⟨rec', List.mem_cons_of_mem _ there, own⟩
    · rename_i uri is
      split at mem
      · obtain ⟨rec', there, own⟩ := ih mem
        exact ⟨rec', List.mem_cons_of_mem _ there, own⟩
      · rcases List.mem_append.1 mem with mem | mem
        · obtain ⟨v, verdict, rfl⟩ := List.mem_map.1 mem
          exact ⟨rec, List.mem_cons_self, is, rfl, Option.mem_toList.1 verdict⟩
        · obtain ⟨rec', there, own⟩ := ih mem
          exact ⟨rec', List.mem_cons_of_mem _ there, own⟩

/-- Does a pass say anything of a record? -/
theorem verdictOn_isSome (p : Pass) (prior : ByUri) (rec uri : String) :
    (p.verdictOn prior rec uri).isSome = true ↔
      ¬ (p.outcome = .skipped ∧ uri ∉ p.carriedSet ∧ (prior uri p.seam).isSome = true) := by
  unfold Pass.verdictOn
  by_cases carried : uri ∈ p.carriedSet
  · simp [carried]
  · rw [if_neg carried]
    by_cases completed : p.outcome = .completed
    · simp [completed]
    · by_cases stands : p.outcome = .skipped ∧ (prior uri p.seam).isSome = true
      · rw [if_pos completed, if_pos stands]
        simp [carried, stands.1, stands.2]
      · rw [if_pos completed, if_neg stands]
        simp only [Option.isSome_some, true_iff]
        exact fun own => stands ⟨own.1, own.2.2⟩

theorem countP_rowsFrom_of_seen {seen saw : List String} {uri : String} (mem : uri ∈ seen) :
    (p.rowsFrom prior seen saw).countP (·.uri = uri) = 0 := by
  induction saw generalizing seen with
  | nil => rfl
  | cons rec saw ih =>
    rw [Pass.rowsFrom]
    split
    · exact ih mem
    · rename_i uri' is
      split
      · exact ih mem
      · rename_i fresh
        have other : uri' ≠ uri := fun same => fresh (by simp [same, mem])
        rw [List.countP_append, ih (List.mem_cons_of_mem _ mem)]
        cases p.verdictOn prior rec uri' <;> simp [Pass.row, other]

theorem countP_rowsFrom {seen saw : List String} {uri : String} (fresh : uri ∉ seen)
    {rec : String} (mem : rec ∈ saw) (is : normalizeRecordUri rec = some uri) :
    (p.rowsFrom prior seen saw).countP (·.uri = uri) =
      if p.outcome = .skipped ∧ uri ∉ p.carriedSet ∧ (prior uri p.seam).isSome = true then 0
      else 1 := by
  induction saw generalizing seen with
  | nil => simp at mem
  | cons rec' saw ih =>
    have behind : normalizeRecordUri rec' ≠ some uri → rec ∈ saw := by
      intro other
      rcases List.mem_cons.1 mem with rfl | there
      · exact absurd is other
      · exact there
    rw [Pass.rowsFrom]
    split
    · rename_i none'
      exact ih fresh (behind (by simp [none']))
    · rename_i uri' is'
      by_cases same : uri' = uri
      · subst same
        rw [if_neg (by simpa using fresh), List.countP_append,
          countP_rowsFrom_of_seen List.mem_cons_self, Nat.add_zero]
        have speaks := verdictOn_isSome p prior rec' uri'
        split
        · rename_i stands
          have silent : p.verdictOn prior rec' uri' = none := by
            rw [← Option.not_isSome_iff_eq_none, speaks]
            exact not_not.2 stands
          simp [silent]
        · rename_i free
          obtain ⟨v, own⟩ := Option.isSome_iff_exists.1 (speaks.2 free)
          simp [own, Pass.row]
      · have there := behind (by rw [is']; simpa using same)
        split
        · exact ih fresh there
        · rw [List.countP_append, ih (by simp [Ne.symm same, fresh]) there]
          cases p.verdictOn prior rec' uri' <;> simp [Pass.row, same]

end

/-- The file is the lines of the rows that were written whole, and at most the front of one more. -/
def Sealed (s : State) : Prop :=
  ∃ done p last, s.file = encode (linesText done) ++ p ∧ Tail p last ∧ s.written = done ++ last

theorem Sealed.folded {s : State} (sealed : Sealed s) (uri : String) (seam : Seam) :
    s.folded.byUri uri seam = (standing s.written uri seam).map fun w => w.2.fields w.1 := by
  obtain ⟨done, p, last, file, tail, written⟩ := sealed
  rw [State.folded, file, written]
  exact fold_cut done tail uri seam

/-- A closed file is the lines of the rows that were written. -/
theorem Sealed.file_of_closed {s : State} (sealed : Sealed s) (closed : Closed s.file) :
    s.file = encode (linesText s.written) := by
  obtain ⟨done, p, last, file, tail, written⟩ := sealed
  have nothing : p = [] := by
    by_contra some'
    rcases closed with empty | newline
    · rw [file, List.append_eq_nil_iff] at empty
      exact some' empty.2
    · rw [file, List.getLast?_append_of_ne_nil _ some'] at newline
      exact tail.getLast?_ne some' newline
  subst nothing
  cases tail with
  | closed => rw [file, written, List.append_nil, List.append_nil]
  | open' w p q bytes some' => exact absurd rfl some'

theorem Sealed.next {s : State} (sealed : Sealed s) {step : Step} (meets : Meets s step.pass) :
    Sealed (s.next step) := by
  by_cases nothing : s.rows step.pass = []
  · -- nothing is appended, to a file that may be open
    have lines : s.lines step.pass = [] := by simp [State.lines, nothing]
    have same : s.next step = s := by
      simp [State.next, lines, linesText, wholeOf]
    rwa [same]
  · obtain ⟨done, p, last, bytes, tail, whole⟩ := take_lines (s.lines step.pass) step.reached
    refine ⟨s.written ++ done, p, last, ?_, tail, ?_⟩
    · show s.file ++ _ = _
      rw [bytes, sealed.file_of_closed (meets.closed nothing), lines_append, Utf8.encode_append,
        List.append_assoc]
    · show s.written ++ _ = _
      rw [whole, List.append_assoc]

theorem sealed_run {steps : List Step} {s : State} (sealed : Sealed s)
    (meets : MeetsAll s steps) : Sealed (steps.foldl State.next s) := by
  induction steps generalizing s with
  | nil => exact sealed
  | cons step steps ih => exact ih (sealed.next meets.1) meets.2

theorem sealed_start : Sealed {} := ⟨[], [], [], rfl, .closed, rfl⟩

theorem MeetsAll.of_append {s : State} {steps steps' : List Step}
    (meets : MeetsAll s (steps ++ steps')) :
    MeetsAll s steps ∧ MeetsAll (steps.foldl State.next s) steps' := by
  induction steps generalizing s with
  | nil => exact ⟨trivial, meets⟩
  | cons step steps ih =>
    obtain ⟨own, rest⟩ := ih meets.2
    exact ⟨⟨meets.1, own⟩, rest⟩

/-- The rows of a pass whose line reached the file are whole. -/
theorem wholeOf_covers {front back : List Written} {w : Written} {k : Nat}
    (reached : (encode (linesText front ++ Written.line w)).length ≤ k) :
    front ++ [w] <+: wholeOf (front ++ w :: back) k := by
  induction front generalizing k with
  | nil =>
    rw [List.nil_append, List.nil_append, wholeOf, if_pos (by simpa [linesText] using reached)]
    exact List.cons_prefix_cons.2 ⟨rfl, List.nil_prefix⟩
  | cons x front ih =>
    rw [Utf8.encode_append, encode_linesText_cons, List.length_append, List.length_append,
      List.length_cons] at reached
    rw [List.cons_append, List.cons_append, wholeOf, if_pos (by omega)]
    refine List.cons_prefix_cons.2 ⟨rfl, ih ?_⟩
    rw [Utf8.encode_append, List.length_append]
    omega

/-- A skipped pass writes over a standing row only what that row says already. -/
theorem Sealed.skipped {s : State} (sealed : Sealed s) {step : Step} (meets : Meets s step.pass)
    (skip : step.pass.outcome = .skipped) {uri : String} {seam : Seam} {w : Written}
    (stands : standing s.written uri seam = some w) :
    ∃ w', standing (s.next step).written uri seam = some w' ∧
      w'.2.verdict.name = w.2.verdict.name := by
  have written : (s.next step).written =
      s.written ++ wholeOf (s.lines step.pass) step.reached := rfl
  rw [written, standing_append_list, stands]
  cases later : standing (wholeOf (s.lines step.pass) step.reached) uri seam with
  | none => exact ⟨w, rfl, rfl⟩
  | some w' =>
    refine ⟨w', rfl, ?_⟩
    obtain ⟨mem, uriIs, seamIs⟩ := mem_of_standing later
    obtain ⟨r, row, rfl⟩ := List.mem_map.1 ((wholeOf_front _ _).subset mem)
    simp only at uriIs seamIs ⊢
    have prior : s.rows step.pass = step.pass.seamRows s.folded.byUri := by
      rw [State.rows, if_pos skip]
    rw [prior] at row
    obtain ⟨rec, -, -, own, verdict⟩ := mem_rowsFrom row
    have held : s.folded.byUri r.uri step.pass.seam = some (w.2.fields w.1) := by
      rw [sealed.folded, uriIs, ← own, seamIs, stands]
      rfl
    have speaks := (verdictOn_isSome _ _ rec r.uri).1 (by rw [verdict]; rfl)
    have carried : r.uri ∈ step.pass.carriedSet := by
      by_contra dropped
      exact speaks ⟨skip, dropped, by rw [held]; rfl⟩
    have notDiscarded := meets.kept skip r.uri carried _ held
    rw [Pass.verdictOn, if_pos carried] at verdict
    rw [get?_verdict] at notDiscarded
    rw [← Option.some.inj verdict]
    cases is : w.2.verdict with
    | carried => rfl
    | discarded _ _ _ =>
      rw [is] at notDiscarded
      exact absurd rfl notDiscarded

/-- In every run whose passes meet a closed file, and whose skipped passes carry on no record the
ledger says their seam discarded, the trace says what the seams decided, after every step. -/
theorem told_of_meets (steps : List Step) (step : Step) (meets : MeetsAll {} (steps ++ [step])) :
    Told (run steps) step := by
  obtain ⟨before, now, -⟩ := meets.of_append
  have sealed : Sealed (run steps) := sealed_run sealed_start before
  have after := sealed.next now
  refine ⟨after.folded, fun skip uri seam w stands => sealed.skipped now skip stands,
    ⟨_, wholeOf_front _ _, rfl, ?_⟩, ?_, ?_, ?_⟩
  · intro front w back lines reached
    rw [lines]
    exact wholeOf_covers reached
  · intro rec mem uri is
    rw [State.rows, Pass.seamRows, countP_rowsFrom (List.not_mem_nil) mem is]
    by_cases skip : step.pass.outcome = .skipped
    · simp only [skip, if_true, true_and, sealed.folded, Option.isSome_map]
    · simp [skip]
  · intro r mem
    obtain ⟨rec, there, is, seam, -⟩ := mem_rowsFrom mem
    exact ⟨seam, rec, there, is⟩
  · intro uri
    unfold ledgerEnding
    congr 1
    funext key
    congr 1
    funext seam
    rw [after.folded]
    cases standing (State.next (run steps) step).written key seam with
    | none => rfl
    | some w =>
      simp only [Option.map_some, Option.filter_some, get?_verdict]
      by_cases is : w.2.verdict.name = "discarded" <;> simp [is]

/-- The step whose append reaches the file whole. -/
def State.full (s : State) (p : Pass) : Step := ⟨p, (encode (linesText (s.lines p))).length⟩

theorem State.next_file (s : State) (p : Pass) (k : Nat) :
    (s.next ⟨p, k⟩).file = s.file ++ (encode (linesText (s.lines p))).take k := rfl

theorem State.next_full_file (s : State) (p : Pass) :
    (s.next (s.full p)).file = s.file ++ encode (linesText (s.lines p)) :=
  congrArg (s.file ++ ·) (List.take_length (l := encode (linesText (s.lines p))))

theorem wholeOf_full (ws : List Written) : wholeOf ws (encode (linesText ws)).length = ws := by
  induction ws with
  | nil => rfl
  | cons w ws ih =>
    rw [encode_linesText_cons, List.length_append, List.length_cons, wholeOf, if_pos (by omega),
      Nat.add_sub_add_left, Nat.add_sub_cancel, ih]

theorem State.next_full_written (s : State) (p : Pass) :
    (s.next (s.full p)).written = s.written ++ s.lines p :=
  congrArg (s.written ++ ·) (wholeOf_full _)

/-- A file of whole lines is closed. -/
theorem closed_linesText (ws : List Written) : Closed (encode (linesText ws)) := by
  induction ws using List.reverseRecOn with
  | nil => exact .inl rfl
  | append_singleton ws w _ =>
    refine .inr ?_
    rw [lines_append, Utf8.encode_append, encode_linesText_cons, List.getLast?_append,
      List.getLast?_append]
    rfl

/-- A row appended behind the first byte of another line is no row. -/
theorem lost_behind_cut (w : Written) (uri : String) (seam : Seam) :
    (foldDiscardLedger (decode (0x7B :: encode (linesText [w])))).byUri uri seam = none := by
  have bytes : 0x7B :: encode (linesText [w]) = encode ('\x7b' :: linesText [w]) := by
    rw [Utf8.encode_cons]
    rfl
  have brace : '\n' ∉ '\x7b' :: Written.line w := by
    rw [List.mem_cons, not_or]
    exact ⟨by decide, newline_notMem_line w⟩
  have lines : ('\x7b' :: linesText [w]).splitOn '\n' = ['\x7b' :: Written.line w, []] := by
    have own := List.splitOn_append_cons_self_of_not_mem brace []
    simpa [linesText] using own
  have unread : JsonLine.read ('\x7b' :: Written.line w) = none := by
    obtain ⟨t, is⟩ := line_head w
    rw [is]
    rfl
  rw [bytes, Utf8.decode_encode, foldDiscardLedger, lines, List.foldl_cons, List.foldl_cons,
    List.foldl_nil, foldLine_byUri_of_unread _ rfl, foldLine_byUri_of_unread _ unread]

/-- A pass of the placement seam that saw one record. -/
def placing (outcome : Outcome) (record : String) (carried : List String) : Pass where
  seam := .placement
  stage := "placement-inquiry"
  trigger := none
  pass := 1
  outcome := outcome
  saw := [record]
  carried := carried
  reasonFor _ _ := none
  evidence := ""
  ts := "2026-11-19T10:00:00.000Z"

theorem take_one_lines (w : Written) (ws : List Written) :
    (encode (linesText (w :: ws))).take 1 = [0x7B] := by
  obtain ⟨t, is⟩ := line_head w
  rw [encode_linesText_cons, is, Utf8.encode_cons]
  rfl

theorem seamRows_single {p : Pass} {prior : ByUri} {rec uri : String} (saw : p.saw = [rec])
    (is : normalizeRecordUri rec = some uri) : p.seamRows prior =
      (p.verdictOn prior rec uri).toList.map (p.row uri (normalizeRecordUri_self is)) := by
  rw [Pass.seamRows, saw, Pass.rowsFrom]
  split
  · rename_i none'
    rw [is] at none'
    cases none'
  · rename_i uri' is'
    obtain rfl : uri' = uri := Option.some.inj (is'.symm.trans is)
    simp [Pass.rowsFrom]

section

variable {u : String} (normal : normalizeRecordUri u = some u) (s : State)

theorem lines_discarding : s.lines (placing .completed u []) = [("2026-11-19T10:00:00.000Z",
    (placing .completed u []).row u normal ((placing .completed u []).dropped none))] := by
  have verdict : (placing .completed u []).verdictOn (fun _ _ => none) u u =
      some ((placing .completed u []).dropped none) := by
    have none' : u ∉ (placing .completed u []).carriedSet := List.not_mem_nil
    rw [Pass.verdictOn, if_neg none', if_neg (fun other => other rfl)]
    rfl
  rw [State.lines, State.rows, if_neg (by rintro ⟨⟩), seamRows_single rfl normal, verdict]
  rfl

theorem lines_carrying : s.lines (placing .skipped u [u]) = [("2026-11-19T10:00:00.000Z",
    (placing .skipped u [u]).row u normal .carried)] := by
  have mem : u ∈ (placing .skipped u [u]).carriedSet :=
    List.mem_filterMap.2 ⟨u, List.mem_singleton_self u, normal⟩
  rw [State.lines, State.rows, seamRows_single rfl normal, Pass.verdictOn, if_pos mem]
  rfl

/-- The ledger after one pass that discarded the record. -/
def discarded (u : String) : Step := State.full {} (placing .completed u [])

theorem run_single (step : Step) : run [step] = State.next {} step := rfl

include normal in
theorem written_discarded : (run [discarded u]).written =
    [("2026-11-19T10:00:00.000Z",
      (placing .completed u []).row u normal ((placing .completed u []).dropped none))] := by
  rw [run_single, discarded, State.next_full_written, lines_discarding normal, List.nil_append]

include normal in
/-- The pass before was cut off behind its first byte: the row that is appended is lost. -/
theorem not_told_behind_cut : ¬ Told (run [⟨placing .completed u [], 1⟩])
    (State.full (run [⟨placing .completed u [], 1⟩]) (placing .completed u [])) := by
  intro told
  have cut : (run [⟨placing .completed u [], 1⟩]).file = [0x7B] := by
    rw [run_single, State.next_file, lines_discarding normal, take_one_lines]
    rfl
  obtain ⟨w, lines, uri, seam⟩ : ∃ w, State.lines (run [⟨placing .completed u [], 1⟩])
      (placing .completed u []) = [w] ∧ w.2.uri = u ∧ w.2.seam = .placement :=
    ⟨_, lines_discarding normal _, rfl, rfl⟩
  have file : (State.next (run [⟨placing .completed u [], 1⟩]) (State.full
      (run [⟨placing .completed u [], 1⟩]) (placing .completed u []))).file =
        0x7B :: encode (linesText [w]) := by
    rw [State.next_full_file, cut, lines, List.singleton_append]
  have last := told.last u .placement
  rw [State.folded, file, lost_behind_cut, State.next_full_written, lines, standing_append,
    if_pos ⟨uri, seam⟩] at last
  cases last

include normal in
/-- A skipped pass that carries the record cancels the discard. -/
theorem not_told_of_skipped : ¬ Told (run [discarded u])
    (State.full (run [discarded u]) (placing .skipped u [u])) := by
  intro told
  have stands : standing (run [discarded u]).written u .placement = some
      ("2026-11-19T10:00:00.000Z",
        (placing .completed u []).row u normal ((placing .completed u []).dropped none)) := by
    rw [written_discarded normal]
    simp [standing, Pass.row, placing]
  obtain ⟨w', after, same⟩ := told.skipped rfl u .placement _ stands
  rw [State.next_full_written, lines_carrying normal, standing_append,
    if_pos ⟨rfl, rfl⟩, Option.some.injEq] at after
  rw [← after] at same
  change "carried" = "discarded" at same
  exact absurd same (by decide)

end

theorem normal_record : normalizeRecordUri "/mark/us/a1" = some "/mark/us/a1" := by
  decide

/-- Two passes that are appended whole, each to a closed file. -/
theorem told_of_two_passes : Told (run [discarded "/mark/us/a1"])
    ⟨placing .completed "/mark/us/B2" ["/mark/us/b2"], 1000⟩ := by
  refine told_of_meets [_] _ ⟨⟨fun _ => .inl rfl, by rintro ⟨⟩⟩,
    ⟨fun _ => ?_, by rintro ⟨⟩⟩, trivial⟩
  rw [discarded, State.next_full_file, List.nil_append]
  exact closed_linesText _

/-- A row appended behind a line that was cut is lost, and a skipped pass that carries a record
cancels the discard an earlier pass recorded. -/
theorem trace_misstates :
    ¬ Told (run [⟨placing .completed "/mark/us/a1" [], 1⟩])
        (State.full (run [⟨placing .completed "/mark/us/a1" [], 1⟩])
          (placing .completed "/mark/us/a1" [])) ∧
      ¬ Told (run [discarded "/mark/us/a1"])
        (State.full (run [discarded "/mark/us/a1"])
          (placing .skipped "/mark/us/a1" ["/mark/us/a1"])) :=
  ⟨not_told_behind_cut normal_record, not_told_of_skipped normal_record⟩

end Clearotron.Discards
