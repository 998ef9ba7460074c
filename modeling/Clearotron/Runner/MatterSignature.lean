import Mathlib.Data.Finset.Sort
import Clearotron.Records.Passes
import Clearotron.Runner.Matters

/-!
# What makes two jobs one matter

A job is held back when the ledger has a row of the same matter: one with the same signature, or
one of the same thread at the same level whose mark agrees. The signature is one string, and the
comparison reads the mark and the level back off it. Where they stand where they are looked for, what
is read back is what was written, and the ledger answers for the fields themselves.
-/

namespace Clearotron.Matters

/-- The finite numbers of the runtime, as `Number` reads them and as they are written: no two are
written alike, and what is written holds no separator. -/
structure NumberText (Num : Type) where
  text : Num → String
  text_injective : Function.Injective text
  plain : ∀ n, ',' ∉ (text n).toList ∧ '|' ∉ (text n).toList ∧ text n ≠ ""

/-- A mark of a job: a bare name, or a name with its classes. -/
structure JobMark (Num : Type) where
  name : Option String
  classes : List (Option Num)

/-- What the signature reads of a job; a class is what `Number` makes of it. -/
structure MatterJob (Num : Type) where
  forwarder : Option String
  customer : Option String
  ref : Option String
  tmp : Option String
  markName : Option String
  name : Option String
  marks : List (JobMark Num)
  classes : List (Option Num)
  product : Option String

/-- `policyFor(lvl)?.pipeline === "knockout"`. -/
def isKnockout (lvl : String) : Bool :=
  lvl ∈ ["knockout-search", "knockout", "knockout-register"]

section

variable {Num : Type} [LinearOrder Num] (N : NumberText Num) (R : LetterCase)

/-- `norm`: trimmed, in lower case, each run of blanks one. -/
def norm (s : Option String) : String := Text.collapseSpaces (R.lower (Text.trim (s.getD "")))

/-- A field that is trimmed and lower-cased only. -/
def lowered (s : Option String) : String := R.lower (Text.trim (s.getD ""))

/-- The sort of strings. -/
def sortNames (names : List String) : List String :=
  names.insertionSort fun a b => Text.utf16 a ≤ Text.utf16 b

namespace MatterJob

variable (job : MatterJob Num) (product : Option String)

/-- `lvl`: the product the caller resolved, else the job's own. -/
def level : String := norm R (product <|> job.product)

def names : List String := job.marks.filterMap fun m => m.name.filter (· ≠ "")

/-- The mark: a batch of the knockout is known by all its names. -/
def mark : String :=
  if 1 < job.names.length ∧ isKnockout (job.level R product) then
    " + ".intercalate (sortNames (job.names.map fun n => norm R (some n)).dedup)
  else norm R (job.markName <|> job.name <|> job.names.head?)

def classSet : Finset Num :=
  ((job.classes ++ job.marks.flatMap (·.classes)).filterMap id).toFinset

end MatterJob

/-- The classes in order, parted by commas. -/
def classesText (classes : Finset Num) : String :=
  ",".intercalate (classes.sort.map N.text)

def matterSignature (job : MatterJob Num) (product : Option String) : String :=
  let lvl := job.level R product
  let base := lowered R job.forwarder ++ "|" ++ job.mark R product ++ "|" ++
    classesText N job.classSet ++ "|" ++ lowered R job.customer ++ "|" ++
    lowered R (job.ref <|> job.tmp)
  if lvl ≠ "" ∧ lvl ≠ baselineProduct then base ++ "|level:" ++ lvl else base

/-- What a signature says, field by field. -/
structure MatterFields (Num : Type) where
  forwarder : String
  mark : String
  classes : Finset Num
  customer : String
  ref : String
  level : String
  deriving DecidableEq

def MatterJob.fields (job : MatterJob Num) (product : Option String) : MatterFields Num where
  forwarder := lowered R job.forwarder
  mark := job.mark R product
  classes := job.classSet
  customer := lowered R job.customer
  ref := lowered R (job.ref <|> job.tmp)
  level := if job.level R product = "" then baselineProduct else job.level R product

/-- No field holds the separator, and no reference reads as a level. -/
structure MatterFields.Plain (f : MatterFields Num) : Prop where
  forwarder : '|' ∉ f.forwarder.toList
  mark : '|' ∉ f.mark.toList
  customer : '|' ∉ f.customer.toList
  ref : '|' ∉ f.ref.toList
  level : '|' ∉ f.level.toList
  named : f.level ≠ ""
  noLevel : ¬ "level:".toList <+: f.ref.toList

/-- The parts of a signature. -/
def MatterFields.parts (f : MatterFields Num) : List String :=
  [f.forwarder, f.mark, classesText N f.classes, f.customer, f.ref] ++
    if f.level = baselineProduct then [] else ["level:" ++ f.level]

/-- What stands second in a signature: a forwarder that holds the separator pushes the mark back. -/
def MatterFields.second (f : MatterFields Num) : String :=
  ((sigParts f.forwarder ++ sigParts f.mark)[1]?).getD ""

/-- What stands last: the reference, or the level where one is written. -/
def MatterFields.last (f : MatterFields Num) : String :=
  ((sigParts (if f.level = baselineProduct then f.ref else "level:" ++ f.level)).getLast?).getD ""

/-- The level that a last part states. -/
def levelOf (part : String) : String :=
  let level := String.ofList (part.toList.drop 6)
  if part.toList.take 6 = "level:".toList ∧ level ≠ "" then level else baselineProduct

/-- The mark and the level stand where they are read. -/
structure MatterFields.Legible (f : MatterFields Num) : Prop where
  mark : f.second = f.mark
  level : levelOf f.last = f.level

/-- A row of the ledger and the job it was written for. -/
structure Recorded where
  row : MatterRow
  job : MatterJob Num
  product : Option String
  written : row.sig = matterSignature N R job product

namespace Recorded

variable {N R}

def fields (r : Recorded N R) : MatterFields Num := r.job.fields R r.product

/-- Is the row one of another message, not failed and not yet out of the window? -/
def Stands (r : Recorded N R) (msgId : String) (now : Nat) : Prop :=
  r.row.failed = false ∧ r.row.msgId ≠ msgId ∧ now < r.row.ts.getD 0 + dedupWindowMs

end Recorded

/-- One matter: the same fields, or one thread at one level in which the marks do not differ. -/
def SameMatter (f : MatterFields Num) (conversationId : String) (r : Recorded N R) : Prop :=
  (f.mark ≠ "" ∧ r.fields = f) ∨
    (Text.trim conversationId ≠ "" ∧ r.row.conversationId = Text.trim conversationId ∧
      (f.mark = "" ∨ r.fields.mark = "" ∨ f.mark = r.fields.mark) ∧ f.level = r.fields.level)

/-- The lines of a ledger. -/
def lines (ledger : List (Option (Recorded N R))) : Ledger := ledger.map (·.map Recorded.row)

/-- Is the row of this thread? -/
def InThread (conversationId : String) (r : Recorded N R) : Prop :=
  Text.trim conversationId ≠ "" ∧ r.row.conversationId = Text.trim conversationId

/-- The texts tell the job's matter from the row's: in one thread both marks and both levels stand
where they are read; elsewhere one signature states one matter, and a mark is seen. -/
structure Tells (job : MatterJob Num) (product : Option String) (conversationId : String)
    (r : Recorded N R) : Prop where
  inThread : InThread N R conversationId r → (job.fields R product).Legible ∧ r.fields.Legible
  elsewhere : ¬ InThread N R conversationId r →
    (r.row.sig = matterSignature N R job product → (job.fields R product).second ≠ "" →
      (job.fields R product).mark ≠ "" ∧ r.fields = job.fields R product) ∧
    (r.fields = job.fields R product → (job.fields R product).mark ≠ "" →
      (job.fields R product).second ≠ "")

/-- What the search of the ledger owes a job. -/
structure FindsSameMatter (ledger : List (Option (Recorded N R))) (job : MatterJob Num)
    (product : Option String) (conversationId msgId : String) (now : Nat) : Prop where
  found : (findDuplicateMatter (lines N R ledger) (matterSignature N R job product) conversationId msgId
      now).isSome = true ↔
    ∃ r, some r ∈ ledger ∧ r.Stands msgId now ∧
      SameMatter N R (job.fields R product) conversationId r
  /-- the row found is one of the same matter, and its mark does not differ -/
  same : ∀ e, findDuplicateMatter (lines N R ledger) (matterSignature N R job product) conversationId msgId
      now = some e →
    ∃ r, some r ∈ ledger ∧ r.row = e ∧ r.Stands msgId now ∧
      SameMatter N R (job.fields R product) conversationId r ∧
      (job.mark R product ≠ "" → r.job.mark R r.product ≠ "" →
        r.job.mark R r.product = job.mark R product)

variable {N R}

theorem not_mem_intercalate {c : Char} {sep : List Char} {ls : List (List Char)} (own : c ∉ sep)
    (none' : ∀ l ∈ ls, c ∉ l) : c ∉ sep.intercalate ls := by
  induction ls with
  | nil => simp
  | cons l ls ih =>
    have rest := ih fun l mem => none' l (List.mem_cons_of_mem _ mem)
    rcases eq_or_ne ls [] with rfl | more
    · simpa using none' l (by simp)
    · rw [List.intercalate_cons_of_ne_nil more]
      simpa [own, rest] using none' l (by simp)

theorem separator_not_mem_classesText (classes : Finset Num) :
    '|' ∉ (classesText N classes).toList := by
  rw [classesText, String.toList_intercalate]
  refine not_mem_intercalate (by decide) fun l mem => ?_
  obtain ⟨s, written, rfl⟩ := List.mem_map.mp mem
  obtain ⟨n, -, rfl⟩ := List.mem_map.mp written
  exact (N.plain n).2.1

/-- The classes are read back off their text. -/
theorem splitOn_classesText {classes : Finset Num} (some' : classes.sort ≠ []) :
    (classesText N classes).toList.splitOn ',' =
      (classes.sort.map N.text).map String.toList := by
  rw [classesText, String.toList_intercalate]
  refine List.splitOn_intercalate ',' (fun l mem => ?_) (by simpa using some')
  obtain ⟨s, written, rfl⟩ := List.mem_map.mp mem
  obtain ⟨n, -, rfl⟩ := List.mem_map.mp written
  exact (N.plain n).1

theorem classesText_ne_empty {classes : Finset Num} (some' : classes.sort ≠ []) :
    classesText N classes ≠ "" := by
  intro empty
  have parts := splitOn_classesText (N := N) some'
  obtain ⟨n, ns, sorted⟩ := List.exists_cons_of_ne_nil some'
  rw [empty, sorted] at parts
  have first : ([] : List Char) = (N.text n).toList := (List.cons.inj parts).1
  exact (N.plain n).2.2 (String.toList_injective first.symm)

theorem classesText_injective : Function.Injective (classesText N) := by
  intro a b same
  have sorted : a.sort = b.sort := by
    rcases eq_or_ne a.sort [] with none' | some'
    · rcases eq_or_ne b.sort [] with none'' | some''
      · rw [none', none'']
      · have empty : classesText N a = "" := by rw [classesText, none']; rfl
        exact absurd (same ▸ empty) (classesText_ne_empty some'')
    · rcases eq_or_ne b.sort [] with none'' | some''
      · have empty : classesText N b = "" := by rw [classesText, none'']; rfl
        exact absurd (same.trans empty) (classesText_ne_empty some')
      · have parts := splitOn_classesText (N := N) some'
        rw [same, splitOn_classesText some''] at parts
        have texts := List.map_injective_iff.mpr (fun _ _ => String.toList_injective) parts
        exact (List.map_injective_iff.mpr N.text_injective texts).symm
  rw [← Finset.sort_toFinset a (· ≤ ·), sorted, Finset.sort_toFinset]

/-- A signature is the parts of its fields, joined. -/
theorem matterSignature_toList (job : MatterJob Num) (product : Option String) :
    (matterSignature N R job product).toList =
      ['|'].intercalate (((job.fields R product).parts N).map String.toList) := by
  have silent : (job.fields R product).level = baselineProduct ↔
      ¬ (job.level R product ≠ "" ∧ job.level R product ≠ baselineProduct) := by
    show (if _ then _ else _) = _ ↔ _
    split <;> simp_all
  have own (loud : job.level R product ≠ "") :
      (job.fields R product).level = job.level R product := if_neg loud
  unfold matterSignature MatterFields.parts
  by_cases loud : job.level R product ≠ "" ∧ job.level R product ≠ baselineProduct
  · rw [if_pos loud, if_neg (fun same => silent.mp same loud), own loud.1]
    simp [MatterJob.fields, List.intercalate_cons_cons]
  · rw [if_neg loud, if_pos (silent.mpr loud)]
    simp [MatterJob.fields, List.intercalate_cons_cons]

section Read

variable {job : MatterJob Num} {product : Option String}

theorem splitOn_intercalate_flatMap {ls : List (List Char)} (some' : ls ≠ []) :
    (['|'].intercalate ls).splitOn '|' = ls.flatMap (·.splitOn '|') := by
  induction ls with
  | nil => exact absurd rfl some'
  | cons l ls ih =>
    rcases eq_or_ne ls [] with rfl | more
    · simp
    · rw [List.intercalate_cons_of_ne_nil more, List.append_assoc, List.singleton_append,
        List.splitOn_append_cons_self, ih more, List.flatMap_cons]

/-- The parts of a signature are the parts of its fields. -/
theorem sigParts_matterSignature (job : MatterJob Num) (product : Option String) :
    sigParts (matterSignature N R job product) =
      ((job.fields R product).parts N).flatMap sigParts := by
  rw [sigParts, matterSignature_toList, splitOn_intercalate_flatMap (by simp [MatterFields.parts]),
    List.map_flatMap, List.flatMap_map]
  rfl

theorem sigParts_ne_nil (s : String) : sigParts s ≠ [] := by simp [sigParts]

theorem sigMark_matterSignature :
    sigMark (matterSignature N R job product) = (job.fields R product).second := by
  have two : 1 < (sigParts (job.fields R product).forwarder ++
      sigParts (job.fields R product).mark).length := by
    have first := List.length_pos_of_ne_nil (sigParts_ne_nil (job.fields R product).forwarder)
    have next := List.length_pos_of_ne_nil (sigParts_ne_nil (job.fields R product).mark)
    rw [List.length_append]
    omega
  rw [sigMark, sigParts_matterSignature, MatterFields.parts, MatterFields.second]
  simp only [List.cons_append, List.flatMap_cons, ← List.append_assoc]
  rw [List.append_assoc, List.append_assoc, List.append_assoc, List.getElem?_append_left two]

/-- What stands last is the last part of the last field. -/
theorem getLast?_tail_flatMap {ps : List String} {p : String} (some' : ps ≠ []) :
    ((ps ++ [p]).flatMap sigParts).tail.getLast? = (sigParts p).getLast? := by
  have front : ps.flatMap sigParts ≠ [] := by
    obtain ⟨q, qs, rfl⟩ := List.exists_cons_of_ne_nil some'
    exact List.append_ne_nil_of_left_ne_nil (sigParts_ne_nil q) _
  obtain ⟨x, xs, is⟩ := List.exists_cons_of_ne_nil front
  rw [List.flatMap_append, is, List.cons_append, List.tail_cons, List.flatMap_singleton,
    List.getLast?_append_of_ne_nil _ (sigParts_ne_nil p)]

theorem sigLevel_matterSignature :
    sigLevel (matterSignature N R job product) = levelOf (job.fields R product).last := by
  have parted : ∃ ps, ps ≠ [] ∧ (job.fields R product).parts N = ps ++
      [if (job.fields R product).level = baselineProduct then (job.fields R product).ref
        else "level:" ++ (job.fields R product).level] := by
    unfold MatterFields.parts
    split
    · exact ⟨[(job.fields R product).forwarder, (job.fields R product).mark,
        classesText N (job.fields R product).classes, (job.fields R product).customer],
        by simp, by simp⟩
    · exact ⟨_, by simp, rfl⟩
  obtain ⟨ps, some', parts⟩ := parted
  rw [sigLevel, sigParts_matterSignature, parts, getLast?_tail_flatMap some', MatterFields.last]
  obtain ⟨part, last⟩ := Option.ne_none_iff_exists'.mp
    (mt List.getLast?_eq_none_iff.mp (sigParts_ne_nil (if (job.fields R product).level =
      baselineProduct then (job.fields R product).ref
      else "level:" ++ (job.fields R product).level)))
  rw [last]
  rfl

end Read

section Plain

variable {f : MatterFields Num}

theorem sigParts_plain {s : String} (plain : '|' ∉ s.toList) : sigParts s = [s] := by
  rw [sigParts, List.splitOn_eq_singleton plain]
  simp

omit [LinearOrder Num] in
/-- Without the separator in it, what is written is what is read. -/
theorem MatterFields.Plain.legible (plain : f.Plain) : f.Legible where
  mark := by
    rw [MatterFields.second, sigParts_plain plain.forwarder, sigParts_plain plain.mark]
    rfl
  level := by
    rw [MatterFields.last]
    split_ifs with silent
    · rw [sigParts_plain plain.ref, silent]
      refine if_neg fun ⟨level, _⟩ => plain.noLevel ?_
      exact level ▸ List.take_prefix _ _
    · have own : '|' ∉ ("level:" ++ f.level).toList := by simpa using plain.level
      have level : ("level:" ++ f.level).toList =
          ['l', 'e', 'v', 'e', 'l', ':'] ++ f.level.toList := by simp
      rw [sigParts_plain own]
      simp [levelOf, level, plain.named]

theorem MatterFields.Plain.flatMap_parts (plain : f.Plain) :
    (f.parts N).flatMap sigParts = f.parts N := by
  have own : ∀ part ∈ f.parts N, sigParts part = [part] := by
    intro part mem
    refine sigParts_plain ?_
    rw [MatterFields.parts, List.mem_append] at mem
    rcases mem with mem | mem
    · simp only [List.mem_cons, List.not_mem_nil, or_false] at mem
      obtain rfl | rfl | rfl | rfl | rfl := mem
      · exact plain.forwarder
      · exact plain.mark
      · exact separator_not_mem_classesText _
      · exact plain.customer
      · exact plain.ref
    · split at mem
      · cases mem
      · obtain rfl := List.mem_singleton.mp mem
        simpa using plain.level
  rw [List.flatMap_congr own, List.flatMap_singleton']

end Plain

/-- Two signatures are one exactly where the fields are. -/
theorem matterSignature_eq_iff {a b : MatterJob Num} {p q : Option String}
    (plainA : (a.fields R p).Plain) (plainB : (b.fields R q).Plain) :
    matterSignature N R a p = matterSignature N R b q ↔ a.fields R p = b.fields R q := by
  constructor
  · intro same
    have parts : (a.fields R p).parts N = (b.fields R q).parts N := by
      rw [← plainA.flatMap_parts, ← sigParts_matterSignature, same, sigParts_matterSignature,
        plainB.flatMap_parts]
    have levels : (a.fields R p).level = (b.fields R q).level := by
      rw [← plainA.legible.level, ← sigLevel_matterSignature (N := N), same,
        sigLevel_matterSignature, plainB.legible.level]
    rw [MatterFields.parts, MatterFields.parts, levels] at parts
    have front := List.append_cancel_right parts
    simp only [List.cons.injEq, and_true] at front
    obtain ⟨forwarder, mark, classes, customer, ref⟩ := front
    have classes := classesText_injective classes
    generalize a.fields R p = f at *
    generalize b.fields R q = g at *
    cases f
    cases g
    simp_all
  · intro same
    apply String.toList_injective
    rw [matterSignature_toList, matterSignature_toList, same]

section Duplicates

variable {f : MatterFields Num} {conversationId msgId : String} {now : Nat}
  {ledger : List (Option (Recorded N R))} {job : MatterJob Num} {product : Option String}

theorem readMatterLedger_lines (ledger : List (Option (Recorded N R))) :
    readMatterLedger (lines N R ledger) = (ledger.filterMap id).map Recorded.row := by
  induction ledger with
  | nil => rfl
  | cons line ledger ih =>
    cases line with
    | none => simpa [lines, readMatterLedger] using ih
    | some r => simpa [lines, readMatterLedger] using ih

/-- Where no field of either holds the separator, the texts tell the two matters apart. -/
theorem Tells.of_plain (plain : (job.fields R product).Plain) {r : Recorded N R}
    (plainR : r.fields.Plain) : Tells N R job product conversationId r where
  inThread _ := ⟨plain.legible, plainR.legible⟩
  elsewhere _ := by
    rw [plain.legible.mark]
    refine ⟨fun same marked => ⟨marked, ?_⟩, fun _ marked => marked⟩
    rw [r.written] at same
    exact (matterSignature_eq_iff plainR plain).mp same

/-- The comparison of strings is one of fields. -/
theorem isSameMatter_iff {r : Recorded N R} (tells : Tells N R job product conversationId r) :
    isSameMatter (matterSignature N R job product) conversationId r.row = true ↔
      SameMatter N R (job.fields R product) conversationId r := by
  have mark : sigMark r.row.sig = r.fields.second := by
    rw [r.written]
    exact sigMark_matterSignature
  have level : sigLevel r.row.sig = levelOf r.fields.last := by
    rw [r.written]
    exact sigLevel_matterSignature
  unfold isSameMatter SameMatter
  simp only [Bool.or_eq_true, Bool.and_eq_true, decide_eq_true_eq, or_assoc, and_assoc,
    sigMark_matterSignature, ne_eq]
  by_cases threaded : InThread N R conversationId r
  · -- in one thread a signature that is the same adds nothing to the mark and the level
    obtain ⟨legible, legibleR⟩ := tells.inThread threaded
    have both : r.row.sig = matterSignature N R job product →
        (job.fields R product).mark = r.fields.mark ∧
          (job.fields R product).level = r.fields.level := by
      intro same
      rw [same, sigMark_matterSignature, legible.mark, legibleR.mark] at mark
      rw [same, sigLevel_matterSignature, legible.level, legibleR.level] at level
      exact ⟨mark, level⟩
    simp only [mark, level, sigLevel_matterSignature, legible.mark, legibleR.mark, legible.level,
      legibleR.level]
    constructor
    · rintro (⟨-, same⟩ | thread)
      · exact .inr ⟨threaded.1, threaded.2, .inr (.inr (both same).1), (both same).2⟩
      · exact .inr thread
    · rintro (⟨-, same⟩ | thread)
      · exact .inr ⟨threaded.1, threaded.2, .inr (.inr (by rw [same])), by rw [same]⟩
      · exact .inr thread
  · obtain ⟨stated, seen⟩ := tells.elsewhere threaded
    constructor
    · rintro (⟨marked, same⟩ | ⟨some', own, -⟩)
      · exact .inl (stated same marked)
      · exact absurd ⟨some', own⟩ threaded
    · rintro (⟨marked, same⟩ | ⟨some', own, -⟩)
      · refine .inl ⟨seen same marked, ?_⟩
        rw [r.written]
        apply String.toList_injective
        have fields : r.job.fields R r.product = job.fields R product := same
        rw [matterSignature_toList, matterSignature_toList, fields]
      · exact absurd ⟨some', own⟩ threaded

/-- The condition a row is found by, field by field. -/
theorem blocks_iff {r : Recorded N R}
    (tells : r.Stands msgId now → Tells N R job product conversationId r) :
    (!(r.row.failed || r.row.msgId = msgId || r.row.ts.getD 0 + dedupWindowMs ≤ now) &&
      isSameMatter (matterSignature N R job product) conversationId r.row) = true ↔
      r.Stands msgId now ∧ SameMatter N R (job.fields R product) conversationId r := by
  have stands : (!(r.row.failed || r.row.msgId = msgId ||
      r.row.ts.getD 0 + dedupWindowMs ≤ now)) = true ↔ r.Stands msgId now := by
    simp [Recorded.Stands, and_assoc]
  rw [Bool.and_eq_true, stands]
  exact and_congr_right fun stands => isSameMatter_iff (tells stands)

end Duplicates

end

/-- Whole numbers, written in decimals. -/
def natText : NumberText Nat where
  text := Nat.repr
  text_injective a b same := by
    have digits : Nat.toDigits 10 a = Nat.toDigits 10 b := by
      simpa [Nat.repr] using congrArg String.toList same
    rw [← Nat.ofDigitChars_ten_toDigits (n := a), digits, Nat.ofDigitChars_ten_toDigits]
  plain n := by
    have digits : ∀ c ∈ (Nat.repr n).toList, c.isDigit = true := fun c mem =>
      Nat.isDigit_of_mem_toDigits (b := 10) (n := n) (by decide) (by decide)
        (by simpa [Nat.repr] using mem)
    refine ⟨fun mem => absurd (digits _ mem) (by decide),
      fun mem => absurd (digits _ mem) (by decide), Nat.repr_ne_empty⟩

/-- A job for a mark in a class. -/
def acmeJob (forwarder markName : String) (cls : Nat) : MatterJob Nat where
  forwarder := some forwarder
  customer := some "acme"
  ref := none
  tmp := none
  markName := some markName
  name := none
  marks := []
  classes := [some cls]
  product := none

/-- The row of a job sent earlier in a thread. -/
def earlier (job : MatterJob Nat) (conversationId : String) : Recorded natText lowerCase where
  row := { sig := matterSignature natText lowerCase job none, conversationId,
           msgId := "m1", ts := some 0, profileKey := none, organisation := none,
           clientPrincipal := false, failed := false }
  job
  product := none
  written := by dsimp only

theorem acmeJob_plain (cls : Nat) : ((acmeJob "relay" "nova" cls).fields lowerCase none).Plain where
  forwarder := (by decide : '|' ∉ (lowered lowerCase (some "relay")).toList)
  mark := (by decide : '|' ∉ ((acmeJob "relay" "nova" 5).mark lowerCase none).toList)
  customer := (by decide : '|' ∉ (lowered lowerCase (some "acme")).toList)
  ref := (by decide : '|' ∉ (lowered lowerCase none).toList)
  level := (by decide : '|' ∉ ((acmeJob "relay" "nova" 5).fields lowerCase none).level.toList)
  named := (by decide : ((acmeJob "relay" "nova" 5).fields lowerCase none).level ≠ "")
  noLevel := (by decide : ¬ "level:".toList <+: (lowered lowerCase none).toList)

end Clearotron.Matters
