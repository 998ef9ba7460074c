import Clearotron.Research.Held

/-!
# The answers of a record

Of the answers a record holds for a stage the last one to each question is handed on, in the order
they were got, and a later attempt that is handed them holds them before anything else it reads.
-/

namespace Clearotron.Research

variable {record : List Line} {sessionKey : String} {ofRun : Bool} {answers : List Answer}
  {a b : Answer}

/-- The answer a line counts with. -/
def counted (sessionKey : String) (ofRun : Bool) : Line → Option Answer
  | .row r => if ofRun || own sessionKey r.session then r.answer? else none
  | _ => none

theorem answersOf_eq (read : answersOf sessionKey ofRun record = some answers) :
    answers = record.filterMap (counted sessionKey ofRun) := by
  induction record generalizing answers with
  | nil =>
    cases read
    rfl
  | cons l record ih =>
    cases l with
    | torn => exact ih read
    | null =>
      rw [answersOf] at read
      split at read
      · cases read
      · exact ih read
    | row r =>
      rw [answersOf, Option.map_eq_some_iff] at read
      obtain ⟨rest, behind, is⟩ := read
      have rest' := ih behind
      subst is rest'
      have here : counted sessionKey ofRun (.row r) =
          if ofRun || own sessionKey r.session then r.answer? else none := rfl
      split
      · rename_i counts
        rw [if_pos counts] at here
        cases kept : r.answer? with
        | none => rw [List.filterMap_cons_none (here.trans kept)]; rfl
        | some a => rw [List.filterMap_cons_some (here.trans kept)]; rfl
      · rename_i other
        rw [if_neg other] at here
        rw [List.filterMap_cons_none here]

theorem isResearchAnswer_of_counted {l : Line} (counts : counted sessionKey ofRun l = some a) :
    isResearchAnswer a.text = true := by
  cases l with
  | torn => cases counts
  | null => cases counts
  | row r =>
    rw [counted] at counts
    split at counts
    · rw [Row.answer?] at counts
      split at counts
      · split at counts
        · rename_i kept
          cases counts
          exact kept.2
        · cases counts
      · cases counts
    · cases counts

theorem foldl_keepLatest_concat (xs : List Answer) (b : Answer) :
    (xs ++ [b]).foldl keepLatest [] =
      ((xs.foldl keepLatest []).filter fun c => c.task ≠ b.task) ++ [b] := by
  rw [List.foldl_append]
  rfl

theorem mem_foldl_keepLatest (xs : List Answer) :
    a ∈ xs.foldl keepLatest [] ↔ (xs.filter (·.task = a.task)).getLast? = some a := by
  induction xs using List.reverseRecOn with
  | nil => simp
  | append_singleton xs b ih =>
    rw [foldl_keepLatest_concat, List.mem_append, List.mem_filter, List.mem_singleton, ih,
      List.filter_append]
    by_cases own : b.task = a.task
    · simp [own, eq_comm]
    · have apart : a ≠ b := fun same => own (by rw [same])
      simp [own, apart, Ne.symm own]

theorem nodup_foldl_keepLatest (xs : List Answer) :
    ((xs.foldl keepLatest []).map Answer.task).Nodup := by
  induction xs using List.reverseRecOn with
  | nil => exact List.nodup_nil
  | append_singleton xs b ih =>
    rw [foldl_keepLatest_concat, List.map_append]
    refine List.Nodup.append (ih.sublist (List.filter_sublist.map _)) (List.nodup_singleton _) ?_
    intro t mem other
    obtain ⟨c, there, rfl⟩ := List.mem_map.1 mem
    have apart : c.task ≠ b.task := of_decide_eq_true (List.mem_filter.1 there).2
    exact apart (List.mem_singleton.1 other)

instance : Std.Total notLater := ⟨fun _ _ => le_total _ _⟩

instance : IsTrans Answer notLater := ⟨fun _ _ _ => le_trans⟩

/-- What is handed on: each question once, with the last answer of the record that counts, in the
order of the time stamps. -/
theorem researchAnswersFor_latest (named : sessionKey ≠ "")
    (read : researchAnswersFor record sessionKey ofRun = some answers) :
    (answers.map Answer.task).Nodup ∧ answers.Pairwise notLater ∧
      ∀ a, a ∈ answers ↔
        ((record.filterMap (counted sessionKey ofRun)).filter (·.task = a.task)).getLast? =
          some a := by
  rw [researchAnswersFor, if_neg named, Option.map_eq_some_iff] at read
  obtain ⟨kept, own, rfl⟩ := read
  rw [← answersOf_eq own]
  have perm := List.perm_insertionSort notLater (kept.foldl keepLatest [])
  refine ⟨(perm.map _).nodup_iff.2 (nodup_foldl_keepLatest kept),
    List.pairwise_insertionSort notLater _, fun a => ?_⟩
  rw [perm.mem_iff]
  exact mem_foldl_keepLatest kept

/-- One question answered twice in a stage, once in its retry, and a question of another stage. -/
def asRecorded : List Line :=
  [.row ⟨some "writer", some "Who owns NOVA?", some "Acme owns it.", "2026-10-28T10:00:00.000Z"⟩,
    .torn, .row ⟨some "reviewer", some "Is NOVA used?", some "It is.", "2026-10-28T10:10:00.000Z"⟩,
    .row ⟨some "writer-rerun1", some "Who owns NOVA?", some "Beta\nowns it.",
      "2026-10-28T11:00:00.000Z"⟩]

def asHanded : List Answer := [⟨"Who owns NOVA?", "Beta\nowns it.", "2026-10-28T11:00:00.000Z"⟩]

theorem asRecorded_handed : researchAnswersFor asRecorded "writer" false = some asHanded := by
  decide +kernel

theorem researchAnswersFor_latest_asRecorded :
    (asHanded.map Answer.task).Nodup ∧ asHanded.Pairwise notLater ∧
      ∀ a, a ∈ asHanded ↔
        ((asRecorded.filterMap (counted "writer" false)).filter (·.task = a.task)).getLast? =
          some a :=
  researchAnswersFor_latest (by decide) asRecorded_handed

theorem isResearchAnswer_of_mem (read : researchAnswersFor record sessionKey ofRun = some answers)
    (mem : a ∈ answers) : isResearchAnswer a.text = true := by
  by_cases named : sessionKey = ""
  · rw [researchAnswersFor, if_pos named] at read
    cases read
    cases mem
  · have last := ((researchAnswersFor_latest named read).2.2 a).1 mem
    have kept := (List.mem_filter.1 (List.mem_of_getLast? last)).1
    obtain ⟨l, -, counts⟩ := List.mem_filterMap.1 kept
    exact isResearchAnswer_of_counted counts

theorem find?_zipIdx {α β : Type} (p : α → Bool) (f : α → β) (xs : List α) :
    (xs.zipIdx.find? fun at' => p at'.1).map (fun at' => f at'.1) = (xs.find? p).map f := by
  conv_rhs => rw [← List.zipIdx_map_fst 0 xs, List.find?_map, Option.map_map]
  rfl

theorem lookup_handedText {lower : String → String} {k : String} (named : k ≠ "")
    (are : ∀ a ∈ answers, isResearchAnswer a.text = true)
    (readable : ∀ at' ∈ answers.zipIdx, Readable (at'.2 + 1) at'.1) :
    (((handedText answers).splitOn '\n').filterMap (lineOffer lower)).lookup k =
      (answers.find? (questionKey lower ·.task = k)).map handedAs := by
  have none' : ([[]] : List (List Char)).filterMap (lineOffer lower) = [] := rfl
  rw [splitOn_handedText, List.filterMap_append, none', List.append_nil, List.filterMap_map,
    ← find?_zipIdx]
  have offers : ∀ at' ∈ answers.zipIdx, (lineOffer lower ∘ lineAt) at' =
      if questionKey lower at'.1.task = "" then none
      else some (questionKey lower at'.1.task, handedAs at'.1) := fun at' mem =>
    lineOffer_of_readable (are _ (List.fst_mem_of_mem_zipIdx mem)) (readable at' mem)
  refine lookup_filterMap_find (fun at' mem own => ?_) fun at' mem other o is => ?_
  · rw [offers at' mem, own, if_neg named]
  · rw [offers at' mem] at is
    split at is
    · cases is
    · cases is
      exact other

/-- A later attempt that is handed the answers of its stage holds, under each question, the first
of them; where none of them has the question, it holds what it would without them. -/
theorem held_of_handed {lower : String → String}
    (read : researchAnswersFor record sessionKey ofRun = some answers) (some' : answers ≠ [])
    (readable : ∀ at' ∈ answers.zipIdx, Readable (at'.2 + 1) at'.1)
    (before : Option (List Char)) :
    ∃ file, handResearchAnswers before record sessionKey ofRun = some (some file) ∧
      ∀ record' asked replayFrom key k, k ≠ "" →
        (heldResearchAnswers lower (some file) record' asked replayFrom key).get k =
          ((answers.find? (questionKey lower ·.task = k)).map handedAs).or
            ((heldResearchAnswers lower none record' asked replayFrom key).get k) := by
  refine ⟨handedText answers, by rw [handResearchAnswers, read, Option.map_some, if_neg some'],
    fun record' asked replayFrom key k named => ?_⟩
  rw [get_heldResearchAnswers, get_heldResearchAnswers, Option.map_some, Option.getD_some,
    lookup_handedText named (fun a mem => isResearchAnswer_of_mem read mem) readable]
  rfl

def asciiLower (s : String) : String := String.ofList (s.toList.map Char.toLower)

theorem readable_asHanded : ∀ at' ∈ asHanded.zipIdx, Readable (at'.2 + 1) at'.1 := by
  intro at' mem
  obtain rfl := List.mem_singleton.1 mem
  exact ⟨by decide +kernel, by decide +kernel, by decide +kernel⟩

theorem held_of_handed_asHanded : ∃ file,
    handResearchAnswers none asRecorded "writer" false = some (some file) ∧
      ∀ record' asked replayFrom key k, k ≠ "" →
        (heldResearchAnswers asciiLower (some file) record' asked replayFrom key).get k =
          ((asHanded.find? (questionKey asciiLower ·.task = k)).map handedAs).or
            ((heldResearchAnswers asciiLower none record' asked replayFrom key).get k) :=
  held_of_handed asRecorded_handed (by decide) readable_asHanded none

end Clearotron.Research
