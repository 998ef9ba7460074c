import Clearotron.Framework.Parsed
import Mathlib.Data.List.Dedup

/-!
# Ratings under a stated method

A rated finding names each input of the framework and one of its values, and its band is the one
the table gives for them. What the check returns is in the framework's own spelling, and is what
the page shows.
-/

namespace Clearotron.RatingMethod

/-- The bands next to a combination: one ordered input moves one value along its scale. -/
def neighbourBands (method : Method) (combo : List String) : List String :=
  ((method.inputs.zip combo).zipIdx.flatMap fun at' =>
    if at'.1.1.ordered then
      let steps :=
        match at'.1.1.values.idxOf? at'.1.2 with
        | none => [0]
        | some 0 => [1]
        | some (i + 1) => [i, i + 2]
      (steps.filterMap (at'.1.1.values[·]?)).filterMap fun v =>
        (tableBand method (combo.set at'.2 v)).filter (· ≠ "")
    else []).dedup

/-- What a defect is called, and what the caller says of it. -/
structure Issue where
  code : String
  detail : String
  deriving DecidableEq

/-- What the check answers: the inputs in the framework's spelling, and the first defect. -/
structure Checked where
  inputs : Option (Keyed String Json) := none
  issue : Option Issue := none

def listLabels (method : Method) : String :=
  match (method.inputs.map Input.label).reverse with
  | [] => ""
  | [label] => label
  | last :: rest => ", ".intercalate rest.reverse ++ " and " ++ last

def recordWord (method : Method) : String :=
  match method.inputs.length with
  | 1 => "it"
  | 2 => "both"
  | _ => "each"

def inputsAt (method : Method) (combo : List String) : String :=
  comboText " and " method.inputs combo

section

variable (R : Runtime) (method : Method)

def missing : Issue :=
  ⟨"inputs_missing", "this framework rates through " ++ listLabels method ++ "; record " ++
    recordWord method ++ " under \"inputs\""⟩

def invalid (inp : Input) : Issue :=
  ⟨"inputs_invalid", inp.label ++ " must be one of: " ++ " / ".intercalate inp.values⟩

/-- The first key that folds to an earlier one. -/
def twice : List String → List String → Option String
  | _, [] => none
  | seen, k :: keys => if seen.contains (norm R k) then some k else twice (norm R k :: seen) keys

/-- The value under the key that folds to a label. -/
def givenFor (given : Keyed String Json) (inp : Input) : Option Json :=
  (given.entries.find? fun kv => norm R kv.1 = norm R inp.label).map Prod.snd

/-- The values given, in the framework's spelling, or the first defect. -/
def comboOf (given : Keyed String Json) : List Input → Except Issue (List String)
  | [] => .ok []
  | inp :: inputs =>
    match givenFor R given inp with
    | none => .error (missing method)
    | some v =>
      match v with
      | .str s =>
        match inp.values.find? fun x => norm R x = norm R s with
        | some c => (comboOf given inputs).map (c :: ·)
        | none => .error (invalid inp)
      | _ => .error (invalid inp)

/-- The defects of the keys: one that is given twice, then one that is no input. -/
def keysIssue (given : Keyed String Json) : Option Issue :=
  match twice R [] given.keys with
  | some k =>
    let label := ((method.inputs.find? fun inp => norm R inp.label = norm R k).map Input.label).getD
      (front40 k)
    some ⟨"inputs_duplicate", label ++ " is given twice; record it once"⟩
  | none =>
    let isKnown := fun k => method.inputs.any fun inp => norm R inp.label = norm R k
    (given.keys.find? fun k => !isKnown k).map fun k =>
      ⟨"inputs_unknown", "\"" ++ front40 k ++ "\" is not one of this framework's inputs: " ++
        " / ".intercalate (method.inputs.map Input.label)⟩

/-- The inputs under the framework's labels. -/
def canonical (combo : List String) : Keyed String Json :=
  .ofList ((method.inputs.zip combo).map fun at' => (at'.1.label, .str at'.2))

/-- The other band of a declared pair, where it is no neighbour. -/
def borderlineIssue (band : String) (combo : List String) (borderline : Option (List String)) :
    Option Issue :=
  match borderline with
  | some [x, y] =>
    match [x, y].find? (· ≠ band) with
    | some other =>
      if other = "" ∨ (neighbourBands method combo).contains other = true then none
      else
        let ordered := (method.inputs.filter Input.ordered).map Input.label
        some ⟨"borderline_off_table",
          if ordered ≠ [] then
            other ++ " is not a band this framework's table gives for a neighbouring " ++
              " or ".intercalate ordered ++
              " with the other inputs unchanged; name that band, or omit borderline_between"
          else
            "this framework's table leaves no band between two others; omit borderline_between"⟩
    | none => none
  | _ => none

/-- The check of a rated finding under a method. -/
def checkRated (inputs : Option Json) (band : String) (borderline : Option (List String)) :
    Checked :=
  match inputs.bind Json.asObject with
  | none => { issue := some (missing method) }
  | some given =>
    match keysIssue R method given with
    | some issue => { issue := some issue }
    | none =>
      match comboOf R method given method.inputs with
      | .error issue => { issue := some issue }
      | .ok combo =>
        if tableBand method combo ≠ some band then
          { inputs := some (canonical method combo)
            issue := some ⟨"band_off_table", "the band " ++ band ++
              " is not what this framework's table gives for " ++ inputsAt method combo ++
              "; the table gives " ++ (tableBand method combo).getD "null" ++
              ". Change the band, or reconsider an input"⟩ }
        else
          { inputs := some (canonical method combo)
            issue := borderlineIssue method band combo borderline }

/-- The check every rating path shares. -/
def checkRatingInputs (method : Option Method) (inputs : Option Json) (band : String)
    (rated : Bool) (borderline : Option (List String)) : Checked :=
  match method with
  | none =>
    { issue := inputs.map fun _ =>
        ⟨"inputs_forbidden", "this framework states no inputs; drop \"inputs\""⟩ }
  | some method =>
    if rated = false then
      { issue := inputs.map fun _ => ⟨"inputs_forbidden",
          "only a rated conflict records the framework's inputs; drop \"inputs\""⟩ }
    else checkRated R method inputs band borderline

/-- The last value under a key that folds to a label. -/
def lastFor (given : Keyed String Json) (inp : Input) : Option Json :=
  (given.entries.reverse.find? fun kv => norm R kv.1 = norm R inp.label).map Prod.snd

/-- An input as the page shows it. -/
def shown (given : Keyed String Json) (inp : Input) : Option String :=
  match lastFor R given inp with
  | some (.str s) =>
    if Text.trim s = "" then none
    else
      let value := (inp.values.find? fun x => norm R x = norm R s).getD (Text.trim s)
      some (if inp.showLabel then inp.label ++ " " ++ value else value)
  | _ => none

def inputsLine (inputs : Option Json) : String :=
  match inputs.bind Json.asObject with
  | none => ""
  | some given =>
    " · ".intercalate ((method.inputs.filterMap (shown R given)).filter (· ≠ ""))

end

/-- The inputs given name each input of the method once, in any case and spacing, each with the
value of the combination. -/
structure Names (R : Runtime) (method : Method) (given : Keyed String Json) (combo : List String) :
    Prop where
  apart : (given.keys.map (norm R)).Nodup
  known : ∀ k ∈ given.keys, ∃ inp ∈ method.inputs, norm R inp.label = norm R k
  each : List.Forall₂ (fun inp c => c ∈ inp.values ∧ ∃ k s, (k, Json.str s) ∈ given.entries ∧
    norm R k = norm R inp.label ∧ norm R c = norm R s) method.inputs combo

/-- Two values that stand side by side. -/
def NextTo (values : List String) (v w : String) : Prop :=
  ∃ i, (values[i]? = some v ∧ values[i + 1]? = some w) ∨
    (values[i]? = some w ∧ values[i + 1]? = some v)

/-- The table gives the band for a combination one step away on one ordered input. -/
def OneStep (method : Method) (combo : List String) (band : String) : Prop :=
  ∃ i inp v w, method.inputs[i]? = some inp ∧ inp.ordered = true ∧ combo[i]? = some v ∧
    NextTo inp.values v w ∧ tableBand method (combo.set i w) = some band

/-- What the callers have checked of a declared pair of bands. -/
def Declared (band : String) (borderline : Option (List String)) : Prop :=
  ∀ pair, borderline = some pair → ∃ x y, pair = [x, y] ∧ (band = x ∨ band = y) ∧ x ≠ "" ∧ y ≠ ""

theorem mem_combinations {inputs : List Input} {combo : List String} :
    combo ∈ combinations inputs ↔ List.Forall₂ (fun inp v => v ∈ inp.values) inputs combo := by
  induction inputs generalizing combo with
  | nil => simp [combinations]
  | cons inp inputs ih =>
    simp only [combinations, List.mem_flatMap, List.mem_map, ih]
    constructor
    · rintro ⟨v, mem, rest, own, rfl⟩
      exact .cons mem own
    · intro own
      cases own with
      | cons mem rest => exact ⟨_, mem, _, rest, rfl⟩

section

variable {R : Runtime}

theorem twice_eq_none {seen keys : List String} : twice R seen keys = none ↔
    (keys.map (norm R)).Nodup ∧ ∀ k ∈ keys, norm R k ∉ seen := by
  induction keys generalizing seen with
  | nil => simp [twice]
  | cons k keys ih =>
    rw [twice]
    split
    · rename_i again
      refine iff_of_false (by simp) fun own => ?_
      exact own.2 k List.mem_cons_self (by simpa using again)
    · rename_i fresh
      rw [ih, List.map_cons, List.nodup_cons, List.forall_mem_cons]
      constructor
      · rintro ⟨apart, new⟩
        refine ⟨⟨fun mem => ?_, apart⟩, by simpa using fresh, fun w mem there => ?_⟩
        · obtain ⟨w, there, same⟩ := List.mem_map.1 mem
          exact new w there (List.mem_cons.2 (.inl same))
        · exact new w mem (List.mem_cons_of_mem _ there)
      · rintro ⟨⟨apart, rest⟩, -, new⟩
        refine ⟨rest, fun w mem there => ?_⟩
        rcases List.mem_cons.1 there with same | there
        · exact apart (List.mem_map.2 ⟨w, mem, same⟩)
        · exact new w mem there

theorem keysIssue_eq_none {method : Method} {given : Keyed String Json} :
    keysIssue R method given = none ↔ (given.keys.map (norm R)).Nodup ∧
      ∀ k ∈ given.keys, ∃ inp ∈ method.inputs, norm R inp.label = norm R k := by
  have apart := @twice_eq_none R [] given.keys
  unfold keysIssue
  split
  · rename_i k again
    rw [again] at apart
    refine iff_of_false (by simp) fun own => ?_
    exact absurd (apart.2 ⟨own.1, by simp⟩) (by simp)
  · rename_i none'
    rw [Option.map_eq_none_iff, List.find?_eq_none]
    have nodup := (apart.1 none').1
    simp only [nodup, true_and]
    refine forall₂_congr fun k mem => ?_
    simp

/-- Of keys apart, the entry found is the one whose key folds so. -/
theorem find?_entry {given : Keyed String Json} (apart : (given.keys.map (norm R)).Nodup)
    {entries : List (String × Json)} (own : ∀ kv ∈ entries, kv ∈ given.entries) {k : String}
    {v : Json} (mem : (k, v) ∈ entries) {inp : Input} (same : norm R k = norm R inp.label) :
    entries.find? (fun kv => norm R kv.1 = norm R inp.label) = some (k, v) := by
  cases found : entries.find? (fun kv => norm R kv.1 = norm R inp.label) with
  | none => exact absurd (by simpa using same) (List.find?_eq_none.1 found _ mem)
  | some kv =>
    have folds : norm R kv.1 = norm R inp.label := by simpa using List.find?_some found
    rw [Keyed.keys, List.map_map] at apart
    rw [List.inj_on_of_nodup_map apart (own _ (List.mem_of_find?_eq_some found)) (own _ mem)
      (folds.trans same.symm)]

/-- A key that folds to a label has the value that is looked up. -/
theorem givenFor_eq {given : Keyed String Json} (apart : (given.keys.map (norm R)).Nodup)
    {k : String} {v : Json} (mem : (k, v) ∈ given.entries) {inp : Input}
    (same : norm R k = norm R inp.label) : givenFor R given inp = some v := by
  rw [givenFor, find?_entry apart (fun _ => id) mem same]
  rfl

theorem lastFor_eq {given : Keyed String Json} (apart : (given.keys.map (norm R)).Nodup)
    {k : String} {v : Json} (mem : (k, v) ∈ given.entries) {inp : Input}
    (same : norm R k = norm R inp.label) : lastFor R given inp = some v := by
  rw [lastFor, find?_entry apart (fun _ => List.mem_reverse.1) (List.mem_reverse.2 mem) same]
  rfl

/-- The combination that is read off what was given. -/
theorem comboOf_ok {method : Method} {given : Keyed String Json}
    (apart : (given.keys.map (norm R)).Nodup) {inputs : List Input}
    (sound : ∀ inp ∈ inputs, InputSound R inp) {combo : List String} :
    comboOf R method given inputs = .ok combo ↔
      List.Forall₂ (fun inp c => c ∈ inp.values ∧ ∃ k s, (k, Json.str s) ∈ given.entries ∧
        norm R k = norm R inp.label ∧ norm R c = norm R s) inputs combo := by
  induction inputs generalizing combo with
  | nil =>
    constructor
    · rintro ⟨⟩
      exact .nil
    · rintro ⟨⟩
      rfl
  | cons inp inputs ih =>
    rw [List.forall_mem_cons] at sound
    constructor
    · intro is
      rw [comboOf] at is
      split at is
      · cases is
      rename_i v found
      split at is
      · rename_i s
        split at is
        · rename_i c own
          obtain ⟨rest, read, rfl⟩ := map_eq_ok is
          obtain ⟨⟨k, v⟩, there, rfl⟩ := Option.map_eq_some_iff.1 found
          have label : norm R k = norm R inp.label := by simpa using List.find?_some there
          have folds : norm R c = norm R s := by simpa using List.find?_some own
          exact .cons ⟨List.mem_of_find?_eq_some own, k, s, List.mem_of_find?_eq_some there,
            label, folds⟩ ((ih sound.2).1 read)
        · cases is
      · cases is
    · rintro (_ | ⟨⟨mem, k, s, there, label, folds⟩, rest⟩)
      rw [comboOf, givenFor_eq apart there label]
      simp only [find?_norm sound.1.apart mem folds, (ih sound.2).2 rest]
      rfl

theorem mem_steps {values : List String} (nodup : values.Nodup) {v : String} (mem : v ∈ values)
    {w : String} : w ∈ (match values.idxOf? v with
      | none => [0]
      | some 0 => [1]
      | some (i + 1) => [i, i + 2]).filterMap (values[·]?) ↔ NextTo values v w := by
  obtain ⟨i, here⟩ := Option.isSome_iff_exists.1 (List.isSome_idxOf?.2 mem)
  obtain ⟨bound, own, -⟩ := List.idxOf?_eq_some_iff.1 here
  have at' : values[i]? = some v := by rw [List.getElem?_eq_getElem bound, own]
  have only : ∀ j, values[j]? = some v → i = j := fun j there =>
    (List.getElem?_inj bound nodup).1 (at'.trans there.symm)
  rw [here]
  constructor
  · intro step
    cases i with
    | zero =>
      simp only [List.filterMap_cons, List.filterMap_nil] at step
      cases next : values[1]? with
      | none => simp [next] at step
      | some x =>
        obtain rfl : w = x := by simpa [next] using step
        exact ⟨0, .inl ⟨at', next⟩⟩
    | succ i =>
      obtain ⟨j, there, is⟩ := List.mem_filterMap.1 step
      simp only [List.mem_cons, List.not_mem_nil, or_false] at there
      rcases there with rfl | rfl
      · exact ⟨j, .inr ⟨is, at'⟩⟩
      · exact ⟨i + 1, .inl ⟨at', is⟩⟩
  · rintro ⟨j, ⟨here', next⟩ | ⟨back, here'⟩⟩
    · obtain rfl := only j here'
      refine List.mem_filterMap.2 ⟨i + 1, ?_, next⟩
      cases i <;> simp
    · obtain rfl := only (j + 1) here'
      exact List.mem_filterMap.2 ⟨j, by simp, back⟩

/-- The bands next to a combination are those one step away. -/
theorem mem_neighbourBands {method : Method} {combo : List String}
    (apart : ∀ inp ∈ method.inputs, inp.values.Nodup)
    (own : List.Forall₂ (fun inp v => v ∈ inp.values) method.inputs combo) {band : String} :
    band ∈ neighbourBands method combo ↔ band ≠ "" ∧ OneStep method combo band := by
  have length := own.length_eq
  unfold neighbourBands
  rw [List.mem_dedup, List.mem_flatMap]
  constructor
  · rintro ⟨⟨⟨inp, v⟩, i⟩, there, mem⟩
    rw [List.mem_zipIdx_iff_getElem?, List.getElem?_zip_eq_some] at there
    obtain ⟨input, value⟩ := there
    simp only at mem
    split at mem
    · rename_i ordered
      obtain ⟨w, step, gives⟩ := List.mem_filterMap.1 mem
      obtain ⟨gives, named⟩ := Option.filter_eq_some_iff.1 gives
      have inside : v ∈ inp.values := by
        have pairs := List.forall₂_iff_get.1 own
        obtain ⟨bound, is⟩ := List.getElem?_eq_some_iff.1 input
        obtain ⟨bound', is'⟩ := List.getElem?_eq_some_iff.1 value
        have pair := pairs.2 i bound bound'
        simp only [List.get_eq_getElem, is, is'] at pair
        exact pair
      refine ⟨by simpa using named, i, inp, v, w, input, ordered, value, ?_, gives⟩
      exact (mem_steps (apart inp (List.mem_of_getElem? input)) inside).1 step
    · cases mem
  · rintro ⟨named, i, inp, v, w, input, ordered, value, next, gives⟩
    have inside : v ∈ inp.values := by
      obtain ⟨j, ⟨here, -⟩ | ⟨-, here⟩⟩ := next
      · exact List.mem_of_getElem? here
      · exact List.mem_of_getElem? here
    refine ⟨((inp, v), i), ?_, ?_⟩
    · rw [List.mem_zipIdx_iff_getElem?, List.getElem?_zip_eq_some]
      exact ⟨input, value⟩
    · simp only [ordered, if_true]
      refine List.mem_filterMap.2 ⟨w, ?_, Option.filter_eq_some_iff.2 ⟨gives, by simpa using named⟩⟩
      exact (mem_steps (apart inp (List.mem_of_getElem? input)) inside).2 next

theorem InputSound.nodup {inp : Input} (sound : InputSound R inp) : inp.values.Nodup :=
  sound.apart.of_map _

theorem borderlineIssue_eq_none {method : Method} {combo : List String} {band : String}
    {borderline : Option (List String)} (apart : ∀ inp ∈ method.inputs, inp.values.Nodup)
    (own : List.Forall₂ (fun inp v => v ∈ inp.values) method.inputs combo)
    (declared : Declared band borderline) : borderlineIssue method band combo borderline = none ↔
      ∀ x y, borderline = some [x, y] → ∀ other ∈ [x, y], other ≠ band →
        OneStep method combo other := by
  cases borderline with
  | none => simp [borderlineIssue]
  | some pair =>
    obtain ⟨x, y, rfl, holds, x', y'⟩ := declared pair rfl
    have check : ∀ other, other ≠ "" → ((other = "" ∨
        (neighbourBands method combo).contains other = true) ↔ OneStep method combo other) := by
      intro other named
      constructor
      · rintro (empty | mem)
        · exact absurd empty named
        · exact ((mem_neighbourBands apart own).1 (by simpa using mem)).2
      · exact fun step => .inr (by simpa using (mem_neighbourBands apart own).2 ⟨named, step⟩)
    have found : [x, y].find? (· ≠ band) = if x ≠ band then some x else
        if y ≠ band then some y else none := by
      by_cases first : x = band <;> by_cases second : y = band <;> simp [first, second]
    unfold borderlineIssue
    simp only [found]
    by_cases first : x = band
    · rw [if_neg (not_not.2 first)]
      by_cases second : y = band
      · rw [if_neg (not_not.2 second)]
        refine iff_of_true rfl ?_
        rintro _ _ ⟨rfl, rfl⟩ other mem differs
        rcases List.mem_pair.1 mem with rfl | rfl
        · exact absurd first differs
        · exact absurd second differs
      · rw [if_pos second]
        constructor
        · intro passes
          rintro _ _ ⟨rfl, rfl⟩ other mem differs
          rcases List.mem_pair.1 mem with rfl | rfl
          · exact absurd first differs
          · by_contra off
            simp only [if_neg fun own => off ((check _ y').1 own)] at passes
            cases passes
        · intro step
          exact if_pos ((check y y').2 (step x y rfl y (by simp) second))
    · have second : y = band := (holds.resolve_left (Ne.symm first)).symm
      rw [if_pos first]
      constructor
      · intro passes
        rintro _ _ ⟨rfl, rfl⟩ other mem differs
        rcases List.mem_pair.1 mem with rfl | rfl
        · by_contra off
          simp only [if_neg fun own => off ((check _ x').1 own)] at passes
          cases passes
        · exact absurd second differs
      · intro step
        exact if_pos ((check x x').2 (step x y rfl x (by simp) first))

theorem Names.values {method : Method} {given : Keyed String Json} {combo : List String}
    (names : Names R method given combo) :
    List.Forall₂ (fun inp v => v ∈ inp.values) method.inputs combo :=
  names.each.imp fun _ _ => And.left

/-- What the check answers where each input is named. -/
theorem checkRated_of_names {method : Method} (sound : ∀ inp ∈ method.inputs, InputSound R inp)
    {inputs : Option Json} {given : Keyed String Json}
    (object : inputs.bind Json.asObject = some given) {combo : List String}
    (names : Names R method given combo) (band : String) (borderline : Option (List String)) :
    (checkRated R method inputs band borderline).inputs = some (canonical method combo) ∧
      ((checkRated R method inputs band borderline).issue = none ↔
        tableBand method combo = some band ∧
          borderlineIssue method band combo borderline = none) := by
  unfold checkRated
  rw [object]
  simp only [keysIssue_eq_none.2 ⟨names.apart, names.known⟩,
    (comboOf_ok names.apart sound).2 names.each]
  by_cases table : tableBand method combo = some band <;> simp [table]

/-- Where the check finds no defect, each input is named. -/
theorem names_of_checkRated {method : Method} (sound : ∀ inp ∈ method.inputs, InputSound R inp)
    {inputs : Option Json} {band : String} {borderline : Option (List String)}
    (passes : (checkRated R method inputs band borderline).issue = none) :
    ∃ given combo, inputs.bind Json.asObject = some given ∧ Names R method given combo := by
  unfold checkRated at passes
  split at passes
  · cases passes
  rename_i given object
  split at passes
  · cases passes
  rename_i keys
  obtain ⟨apart, known⟩ := keysIssue_eq_none.1 keys
  split at passes
  · cases passes
  rename_i combo read
  exact ⟨given, combo, object, apart, known, (comboOf_ok apart sound).1 read⟩

theorem canonical_entries {method : Method} (apart : (method.inputs.map fun inp =>
    norm R inp.label).Nodup) {combo : List String} (length : method.inputs.length = combo.length) :
    (canonical method combo).entries =
      (method.inputs.zip combo).map fun at' => (at'.1.label, .str at'.2) := by
  have labels : ((method.inputs.zip combo).map fun at' =>
      (at'.1.label, Json.str at'.2)).map Prod.fst = method.inputs.map Input.label := by
    rw [List.map_map, show (Prod.fst ∘ fun at' : Input × String => (at'.1.label, Json.str at'.2)) =
      Input.label ∘ Prod.fst from rfl, ← List.map_map, List.map_fst_zip length.le]
  have nodup : (method.inputs.map Input.label).Nodup := by
    have apart' : ((method.inputs.map Input.label).map (norm R)).Nodup := by
      rwa [List.map_map]
    exact apart'.of_map _
  have whole := Keyed.ofList_entries (⟨_, labels ▸ nodup⟩ : Keyed String Json)
  exact congrArg Keyed.entries whole

/-- The canonical inputs name the same values. -/
theorem names_canonical {method : Method} (apart : (method.inputs.map fun inp =>
    norm R inp.label).Nodup) {given : Keyed String Json} {combo : List String}
    (names : Names R method given combo) : Names R method (canonical method combo) combo := by
  have length := names.each.length_eq
  have entries := canonical_entries apart length
  have keys : (canonical method combo).keys = method.inputs.map Input.label := by
    rw [Keyed.keys, entries, List.map_map, show (Prod.fst ∘ fun at' : Input × String =>
      (at'.1.label, Json.str at'.2)) = Input.label ∘ Prod.fst from rfl, ← List.map_map,
      List.map_fst_zip length.le]
  refine ⟨?_, ?_, ?_⟩
  · rw [keys, List.map_map]
    exact apart
  · intro k mem
    rw [keys] at mem
    obtain ⟨inp, there, rfl⟩ := List.mem_map.1 mem
    exact ⟨inp, there, rfl⟩
  · rw [List.forall₂_iff_zip]
    refine ⟨length, fun {inp c} pair => ?_⟩
    have own := (List.forall₂_iff_zip.1 names.each).2 pair
    refine ⟨own.1, inp.label, c, ?_, rfl, rfl⟩
    rw [entries]
    exact List.mem_map.2 ⟨(inp, c), pair, rfl⟩

theorem squeeze_eq_nil {l : List Char} : Text.squeeze l = [] ↔ l = [] := by
  refine ⟨fun none' => ?_, fun none' => by rw [none']; rfl⟩
  induction l with
  | nil => rfl
  | cons c rest ih =>
    rw [Text.squeeze] at none'
    split at none'
    · split at none'
      · rename_i next
        rw [ih none'] at next
        cases next
      · cases none'
    · cases none'

theorem norm_eq_empty {s : String} : norm R s = "" ↔ Text.trim s = "" := by
  rw [norm, R.lower_eq_empty, Text.tidy, Text.trim_collapseSpaces, Text.collapseSpaces,
    String.ofList_eq_empty_iff, squeeze_eq_nil, String.toList_eq_nil_iff]

/-- An input as the page shows it where its value is named. -/
theorem shown_of_named {given : Keyed String Json} (apart : (given.keys.map (norm R)).Nodup)
    {inp : Input} (sound : InputSound R inp) {c : String} (mem : c ∈ inp.values) {k s : String}
    (there : (k, Json.str s) ∈ given.entries) (label : norm R k = norm R inp.label)
    (folds : norm R c = norm R s) :
    shown R given inp = some (if inp.showLabel then inp.label ++ " " ++ c else c) := by
  have solid : Text.trim s ≠ "" := by
    rw [Ne, ← norm_eq_empty (R := R), ← folds, norm, R.lower_eq_empty, (sound.values c mem).1]
    exact (sound.values c mem).2.1
  rw [shown, lastFor_eq apart there label]
  simp only [if_neg solid, find?_norm sound.apart mem folds, Option.getD_some]

/-- The line depends on the values named and not on how they are written. -/
theorem inputsLine_of_names {method : Method} (sound : ∀ inp ∈ method.inputs, InputSound R inp)
    {inputs inputs' : Option Json} {given given' : Keyed String Json}
    (object : inputs.bind Json.asObject = some given)
    (object' : inputs'.bind Json.asObject = some given') {combo : List String}
    (names : Names R method given combo) (names' : Names R method given' combo) :
    inputsLine R method inputs = inputsLine R method inputs' := by
  have same : ∀ inp ∈ method.inputs, shown R given inp = shown R given' inp := by
    intro inp mem
    obtain ⟨i, bound, is⟩ := List.mem_iff_getElem.1 mem
    have bound' : i < combo.length := names.each.length_eq ▸ bound
    obtain ⟨value, k, s, there, label, folds⟩ :=
      (List.forall₂_iff_get.1 names.each).2 i bound bound'
    obtain ⟨value', k', s', there', label', folds'⟩ :=
      (List.forall₂_iff_get.1 names'.each).2 i bound bound'
    simp only [List.get_eq_getElem, is] at value label folds value' label' folds'
    rw [shown_of_named names.apart (sound inp mem) value there label folds,
      shown_of_named names'.apart (sound inp mem) value' there' label' folds']
  unfold inputsLine
  rw [object, object']
  simp only [List.filterMap_congr same]

end

/-- A rating under a method that was parsed is exactly what its table gives: every combination
meets one row, a rating passes where it names each input once with the band the table gives, what
the check returns passes again and is what the page shows, and a method that is written out is read
back as it was. -/
theorem rating_of_parse (R : Runtime) {raw : Json} {manifest : Option Manifest} {m : Method}
    (parsed : parseFrameworkMethod R raw manifest = .ok m) :
    (∀ combo, List.Forall₂ (fun inp v => v ∈ inp.values) m.inputs combo →
      (m.table.filter (rowMatches · m.inputs combo)).length = 1) ∧
    (∀ inputs band borderline, Declared band borderline →
      ((checkRatingInputs R (some m) inputs band true borderline).issue = none ↔
        ∃ given combo, inputs.bind Json.asObject = some given ∧ Names R m given combo ∧
          tableBand m combo = some band ∧ ∀ x y, borderline = some [x, y] → ∀ other ∈ [x, y],
            other ≠ band → OneStep m combo other)) ∧
    (∀ inputs band borderline,
      (checkRatingInputs R (some m) inputs band true borderline).issue = none →
        ∃ given combo, inputs.bind Json.asObject = some given ∧ Names R m given combo ∧
          (checkRatingInputs R (some m) inputs band true borderline).inputs =
            some (canonical m combo) ∧
          checkRatingInputs R (some m) (some (Json.ofObject (canonical m combo))) band true
            borderline = checkRatingInputs R (some m) inputs band true borderline ∧
          inputsLine R m inputs = inputsLine R m (some (Json.ofObject (canonical m combo)))) ∧
    parseFrameworkMethod R m.toJson manifest = .ok m := by
  obtain ⟨mf, rfl, sound⟩ := sound_of_parse parsed
  have apart : ∀ inp ∈ m.inputs, inp.values.Nodup := fun inp mem => (sound.inputs inp mem).nodup
  have rated : ∀ inputs band borderline, checkRatingInputs R (some m) inputs band true borderline =
      checkRated R m inputs band borderline := fun _ _ _ => rfl
  refine ⟨fun combo own => sound.complete combo (mem_combinations.2 own), ?_, ?_, sound.parse⟩
  · intro inputs band borderline declared
    rw [rated]
    constructor
    · intro passes
      obtain ⟨given, combo, object, names⟩ := names_of_checkRated sound.inputs passes
      obtain ⟨table, pair⟩ :=
        (checkRated_of_names sound.inputs object names band borderline).2.1 passes
      exact ⟨given, combo, object, names, table,
        (borderlineIssue_eq_none apart names.values declared).1 pair⟩
    · rintro ⟨given, combo, object, names, table, steps⟩
      exact (checkRated_of_names sound.inputs object names band borderline).2.2
        ⟨table, (borderlineIssue_eq_none apart names.values declared).2 steps⟩
  · intro inputs band borderline passes
    rw [rated] at passes
    obtain ⟨given, combo, object, names⟩ := names_of_checkRated sound.inputs passes
    have again := names_canonical sound.apart names
    have object' : (some (Json.ofObject (canonical m combo))).bind Json.asObject =
        some (canonical m combo) := Json.asObject_ofObject _
    obtain ⟨returned, first⟩ := checkRated_of_names sound.inputs object names band borderline
    obtain ⟨returned', second⟩ := checkRated_of_names sound.inputs object' again band borderline
    refine ⟨given, combo, object, names, returned, ?_,
      inputsLine_of_names sound.inputs object object' names again⟩
    have passes' := second.2 (first.1 passes)
    rw [rated, rated]
    cases answer : checkRated R m inputs band borderline with
    | mk inputs₁ issue₁ =>
      cases answer' : checkRated R m (some (Json.ofObject (canonical m combo))) band borderline with
      | mk inputs₂ issue₂ =>
        rw [answer] at returned passes
        rw [answer'] at returned' passes'
        simp only at returned passes returned' passes'
        rw [returned, returned', passes, passes']

/-- A runtime that knows the ASCII letters. -/
def plainRuntime : Runtime where
  lower s := String.ofList (s.toList.map Char.toLower)
  lower_eq_empty s := by simp
  numberText _ := ""
  stringify _ := ""

/-- A method with one input and a row for each of its two values. -/
def gradeMethod : Method where
  frameworkKey := "f"
  inputs := [⟨"A", ["x", "y"], true, true⟩]
  table := [⟨"H", .ofList [("A", ["x"])]⟩, ⟨"L", .ofList [("A", ["y"])]⟩]

theorem gradeMethod_parsed :
    parseFrameworkMethod plainRuntime gradeMethod.toJson (some ⟨"f", ["H", "L"]⟩) =
      .ok gradeMethod := by
  rfl

/-- A finding that names the value in another case, borderline with the band next to its own. -/
theorem grade_rated :
    (gradeMethod.table.filter (rowMatches · gradeMethod.inputs ["x"])).length = 1 ∧
      ∃ given combo, (some (Json.obj [("a", .str " X")])).bind Json.asObject = some given ∧
        Names plainRuntime gradeMethod given combo ∧ tableBand gradeMethod combo = some "H" ∧
          ∀ x y, some ["H", "L"] = some [x, y] → ∀ other ∈ [x, y], other ≠ "H" →
            OneStep gradeMethod combo other := by
  have rated := rating_of_parse plainRuntime gradeMethod_parsed
  have declared : Declared "H" (some ["H", "L"]) := by
    rintro _ ⟨⟩
    exact ⟨"H", "L", rfl, .inl rfl, by decide, by decide⟩
  exact ⟨rated.1 ["x"] (.cons List.mem_cons_self .nil),
    (rated.2.1 (some (.obj [("a", .str " X")])) "H" (some ["H", "L"]) declared).1 rfl⟩

end Clearotron.RatingMethod
