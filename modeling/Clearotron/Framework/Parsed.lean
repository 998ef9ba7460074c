import Clearotron.Framework.Method
import Clearotron.Library.Each

/-!
# What a parsed method is

A method that was parsed is in the framework's own spelling throughout, and its table meets every
combination once; and a method that is so is what parsing gives back of it.
-/

namespace Clearotron.RatingMethod

variable (R : Runtime)

/-- An input in its own spelling, no two of whose values fold to one. -/
structure InputSound (inp : Input) : Prop where
  tidy : Text.tidy inp.label = inp.label
  named : inp.label ≠ ""
  short : (Text.utf16 inp.label).length ≤ 40
  letters : isLabel inp.label = true
  many : 2 ≤ inp.values.length
  few : inp.values.length ≤ maxValues
  values : ∀ v ∈ inp.values, Text.tidy v = v ∧ v ≠ "" ∧ (Text.utf16 v).length ≤ 40
  apart : (inp.values.map (norm R)).Nodup

structure RowSound (manifest : Manifest) (inputs : List Input) (row : TableRow) : Prop where
  band : (normalizeBand R manifest row.band).filter (· ≠ "") = some row.band
  when : ∀ k vs, (k, vs) ∈ row.when.entries → vs ≠ [] ∧
    ∃ inp ∈ inputs, inp.label = k ∧ ∀ v ∈ vs, v ∈ inp.values

/-- What holds of a method that was parsed. -/
structure Sound (manifest : Manifest) (m : Method) : Prop where
  key : m.frameworkKey = manifest.frameworkKey
  some' : m.inputs ≠ []
  few : m.inputs.length ≤ maxInputs
  inputs : ∀ inp ∈ m.inputs, InputSound R inp
  apart : (m.inputs.map fun inp => norm R inp.label).Nodup
  stated : m.table ≠ []
  rows : ∀ row ∈ m.table, RowSound R manifest m.inputs row
  shown : isShadowed m.inputs m.table = false
  complete : ∀ combo ∈ combinations m.inputs,
    (m.table.filter (rowMatches · m.inputs combo)).length = 1

theorem tidy_tidy (s : String) : Text.tidy (Text.tidy s) = Text.tidy s :=
  Text.trim_collapseSpaces_idem s

@[simp] theorem norm_tidy (s : String) : norm R (Text.tidy s) = norm R s := by
  rw [norm, tidy_tidy]
  rfl

theorem tidy_tidied (v : Option Json) : Text.tidy (tidied v) = tidied v := by
  unfold tidied
  split
  · exact tidy_tidy _
  · decide

variable {R}

theorem normalizeBand_self {manifest : Manifest} {label band : String}
    (is : (normalizeBand R manifest label).filter (· ≠ "") = some band) :
    (normalizeBand R manifest band).filter (· ≠ "") = some band := by
  have found := (Option.filter_eq_some_iff.1 is).1
  have same : normLabel R band = normLabel R label := by simpa using List.find?_some found
  unfold normalizeBand at is ⊢
  rw [same]
  exact is

/-- Of values apart, the one found is the one that folds so. -/
theorem find?_norm {values : List String} (apart : (values.map (norm R)).Nodup) {v : String}
    (mem : v ∈ values) {s : String} (same : norm R v = norm R s) :
    values.find? (fun x => norm R x = norm R s) = some v := by
  cases found : values.find? (fun x => norm R x = norm R s) with
  | none => exact absurd (by simpa using same) (List.find?_eq_none.1 found v mem)
  | some w =>
    have own : norm R w = norm R s := by simpa using List.find?_some found
    rw [List.inj_on_of_nodup_map apart (List.mem_of_find?_eq_some found) mem (own.trans same.symm)]

theorem find?_label {inputs : List Input} (apart : (inputs.map fun inp => norm R inp.label).Nodup)
    {inp : Input} (mem : inp ∈ inputs) {s : String} (same : norm R inp.label = norm R s) :
    inputs.find? (fun x => norm R x.label = norm R s) = some inp := by
  cases found : inputs.find? (fun x => norm R x.label = norm R s) with
  | none => exact absurd (by simpa using same) (List.find?_eq_none.1 found inp mem)
  | some w =>
    have own : norm R w.label = norm R s := by simpa using List.find?_some found
    rw [List.inj_on_of_nodup_map apart (List.mem_of_find?_eq_some found) mem (own.trans same.symm)]

theorem parseValues_sound {label : String} {seen : List String} {vs : List Json}
    {values : List String} (is : parseValues R label seen vs = .ok values) :
    values.length = vs.length ∧
      (∀ v ∈ values, Text.tidy v = v ∧ v ≠ "" ∧ (Text.utf16 v).length ≤ 40) ∧
      (values.map (norm R)).Nodup ∧ ∀ v ∈ values, norm R v ∉ seen := by
  induction vs generalizing seen values with
  | nil =>
    cases is
    simp
  | cons v vs ih =>
    simp only [parseValues] at is
    split at is
    · cases is
    rename_i fits
    split at is
    · cases is
    rename_i fresh
    obtain ⟨rest, parsed, rfl⟩ := map_eq_ok is
    obtain ⟨length, values, apart, new⟩ := ih parsed
    rw [not_or] at fits
    refine ⟨by simp [length], ?_, ?_, ?_⟩
    · exact List.forall_mem_cons.2 ⟨⟨tidy_tidied _, fits.1, by omega⟩, values⟩
    · rw [List.map_cons, List.nodup_cons]
      refine ⟨fun mem => ?_, apart⟩
      obtain ⟨w, there, same⟩ := List.mem_map.1 mem
      exact new w there (List.mem_cons.2 (.inl same))
    · refine List.forall_mem_cons.2 ⟨by simpa using fresh, fun w there mem => ?_⟩
      exact new w there (List.mem_cons_of_mem _ mem)

theorem parseFields_sound {seen : List String} {obj : Keyed String Json} {inp : Input}
    (is : parseFields R seen obj = .ok inp) : InputSound R inp ∧ norm R inp.label ∉ seen := by
  simp only [parseFields] at is
  split at is
  · cases is
  rename_i fits
  rw [not_or, not_or] at fits
  split at is
  · cases is
  rename_i fresh
  split at is
  · rename_i vs _
    split at is
    · cases is
    rename_i count
    obtain ⟨values, parsed, is⟩ := bind_eq_ok is
    obtain ⟨length, own, apart, -⟩ := parseValues_sound parsed
    split at is
    · cases is
    cases is
    have letters : isLabel (tidied (obj.get "label")) = true := by simpa using fits.2.2
    have short : (Text.utf16 (tidied (obj.get "label"))).length ≤ 40 := by omega
    exact ⟨⟨tidy_tidied _, fits.1, short, letters, by show 2 ≤ values.length; omega,
      by show values.length ≤ _; omega, own, apart⟩, by simpa using fresh⟩
  · cases is

theorem parseInputs_sound {seen : List String} {vs : List Json} {inputs : List Input}
    (is : parseInputs R seen vs = .ok inputs) : inputs.length = vs.length ∧
      (∀ inp ∈ inputs, InputSound R inp) ∧ (inputs.map fun inp => norm R inp.label).Nodup ∧
      ∀ inp ∈ inputs, norm R inp.label ∉ seen := by
  induction vs generalizing seen inputs with
  | nil =>
    cases is
    simp
  | cons v vs ih =>
    rw [parseInputs] at is
    obtain ⟨inp, first, is⟩ := bind_eq_ok is
    obtain ⟨rest, parsed, rfl⟩ := map_eq_ok is
    obtain ⟨length, own, apart, new⟩ := ih parsed
    unfold parseInput at first
    split at first
    · cases first
    obtain ⟨-, -, first⟩ := bind_eq_ok first
    obtain ⟨sound, fresh⟩ := parseFields_sound first
    refine ⟨by simp [length], List.forall_mem_cons.2 ⟨sound, own⟩, ?_, ?_⟩
    · rw [List.map_cons, List.nodup_cons]
      refine ⟨fun mem => ?_, apart⟩
      obtain ⟨w, there, same⟩ := List.mem_map.1 mem
      exact new w there (List.mem_cons.2 (.inl same))
    · exact List.forall_mem_cons.2 ⟨fresh, fun w there mem =>
        new w there (List.mem_cons_of_mem _ mem)⟩

theorem parseWhenValues_sound {inp : Input} {r : Nat} {vs : List Json} {values : List String}
    (is : parseWhenValues R inp r vs = .ok values) :
    values.length = vs.length ∧ ∀ v ∈ values, v ∈ inp.values := by
  induction vs generalizing values with
  | nil =>
    cases is
    simp
  | cons v vs ih =>
    rw [parseWhenValues] at is
    split at is
    · cases is
    rename_i c found
    obtain ⟨rest, parsed, rfl⟩ := map_eq_ok is
    obtain ⟨length, own⟩ := ih parsed
    exact ⟨by simp [length],
      List.forall_mem_cons.2 ⟨List.mem_of_find?_eq_some found, own⟩⟩

/-- What every entry of a row's conditions is. -/
def WhenSound (inputs : List Input) (when : Keyed String (List String)) : Prop :=
  ∀ k vs, (k, vs) ∈ when.entries → vs ≠ [] ∧
    ∃ inp ∈ inputs, inp.label = k ∧ ∀ v ∈ vs, v ∈ inp.values

theorem parseWhen_sound {inputs : List Input} {r : Nat} {when when' : Keyed String (List String)}
    {entry : String × Json} (sound : WhenSound inputs when)
    (is : parseWhen R inputs r when entry = .ok when') : WhenSound inputs when' := by
  unfold parseWhen at is
  split at is
  · cases is
  rename_i inp found
  split at is
  · rename_i v vs _
    obtain ⟨values, parsed, rfl⟩ := map_eq_ok is
    obtain ⟨length, own⟩ := parseWhenValues_sound parsed
    intro k ws mem
    rcases Keyed.mem_set.1 mem with ⟨rfl, rfl⟩ | ⟨-, mem⟩
    · exact ⟨List.ne_nil_of_length_pos (by simp [length]), inp, List.mem_of_find?_eq_some found,
        rfl, own⟩
    · exact sound k ws mem
  · cases is

theorem foldlM_parseWhen_sound {inputs : List Input} {r : Nat} {entries : List (String × Json)}
    {when when' : Keyed String (List String)} (sound : WhenSound inputs when)
    (is : entries.foldlM (parseWhen R inputs r) when = .ok when') : WhenSound inputs when' := by
  induction entries generalizing when with
  | nil =>
    cases is
    exact sound
  | cons entry entries ih =>
    rw [List.foldlM_cons] at is
    obtain ⟨next, first, is⟩ := bind_eq_ok is
    exact ih (parseWhen_sound sound first) is

theorem parseRow_sound {manifest : Manifest} {inputs : List Input} {r : Nat} {v : Json}
    {row : TableRow} (is : parseRow R manifest inputs r v = .ok row) :
    RowSound R manifest inputs row := by
  unfold parseRow at is
  split at is
  · cases is
  obtain ⟨-, -, is⟩ := bind_eq_ok is
  split at is
  · cases is
  rename_i band own
  split at is
  · cases is
  obtain ⟨when, folded, rfl⟩ := map_eq_ok is
  exact ⟨normalizeBand_self own, foldlM_parseWhen_sound (fun _ _ mem => by cases mem) folded⟩

theorem parseRows_sound {manifest : Manifest} {inputs : List Input} {r : Nat} {vs : List Json}
    {table : List TableRow} (is : parseRows R manifest inputs r vs = .ok table) :
    table.length = vs.length ∧ ∀ row ∈ table, RowSound R manifest inputs row := by
  induction vs generalizing r table with
  | nil =>
    cases is
    simp
  | cons v vs ih =>
    rw [parseRows] at is
    obtain ⟨row, first, is⟩ := bind_eq_ok is
    obtain ⟨rest, parsed, rfl⟩ := map_eq_ok is
    obtain ⟨length, own⟩ := ih parsed
    exact ⟨by simp [length], List.forall_mem_cons.2 ⟨parseRow_sound first, own⟩⟩

/-- The check of the table passes where every combination meets one row. -/
theorem checkTable_ok {inputs : List Input} {table : List TableRow} {combos : List (List String)} :
    checkTable inputs table combos = .ok () ↔
      ∀ combo ∈ combos, (table.filter (rowMatches · inputs combo)).length = 1 := by
  induction combos with
  | nil => simp [checkTable]
  | cons combo combos ih =>
    rw [checkTable, List.forall_mem_cons]
    split
    · rename_i none'
      simp [none']
    split
    · rename_i many
      refine iff_of_false (by simp) fun own => ?_
      omega
    · rename_i some' few
      rw [ih]
      exact ⟨fun rest => ⟨by omega, rest⟩, And.right⟩

/-- A method that was parsed is sound. -/
theorem sound_of_parse {raw : Json} {manifest : Option Manifest} {m : Method}
    (is : parseFrameworkMethod R raw manifest = .ok m) :
    ∃ mf, manifest = some mf ∧ Sound R mf m := by
  unfold parseFrameworkMethod at is
  split at is
  · cases is
  obtain ⟨_, -, is⟩ := bind_eq_ok is
  split at is
  · cases is
  cases manifest with
  | none => cases is
  | some mf =>
    refine ⟨mf, rfl, ?_⟩
    simp only at is
    split at is
    · cases is
    split at is
    · rename_i vs _
      split at is
      · cases is
      rename_i count
      obtain ⟨inputs, parsedInputs, is⟩ := bind_eq_ok is
      obtain ⟨table, parsedTable, rfl⟩ := map_eq_ok is
      obtain ⟨length, own, apart, -⟩ := parseInputs_sound parsedInputs
      unfold parseTable at parsedTable
      split at parsedTable
      · obtain ⟨rows, parsedRows, parsedTable⟩ := bind_eq_ok parsedTable
        split at parsedTable
        · cases parsedTable
        rename_i shown
        obtain ⟨_, checked, rfl⟩ := map_eq_ok parsedTable
        obtain ⟨many, rowsSound⟩ := parseRows_sound parsedRows
        exact ⟨rfl, List.ne_nil_of_length_pos (by show 0 < inputs.length; omega),
          by show inputs.length ≤ _; omega, own, apart,
          List.ne_nil_of_length_pos (by show 0 < rows.length; simp [many]), rowsSound,
          by simpa using shown, checkTable_ok.1 checked⟩
      · cases parsedTable
    · cases is

theorem asObject_obj {fields : List (String × Json)} (nodup : (fields.map Prod.fst).Nodup) :
    (Json.obj fields).asObject = some ⟨fields, nodup⟩ :=
  congrArg some (Keyed.ofList_entries ⟨fields, nodup⟩)

theorem onlyKeys_ok {obj : Keyed String Json} {allowed : List String} {token : String → String}
    (own : ∀ k ∈ obj.keys, k ∈ allowed) : onlyKeys obj allowed token = .ok () := by
  have none' : obj.keys.find? (fun k => !allowed.contains k) = none := by
    rw [List.find?_eq_none]
    intro k mem
    simpa using own k mem
  rw [onlyKeys, none']

theorem parseValues_map (label : String) (seen : List String) {values : List String}
    (own : ∀ v ∈ values, Text.tidy v = v ∧ v ≠ "" ∧ (Text.utf16 v).length ≤ 40)
    (apart : (values.map (norm R)).Nodup) (fresh : ∀ v ∈ values, norm R v ∉ seen) :
    parseValues R label seen (values.map .str) = .ok values := by
  induction values generalizing seen with
  | nil => rfl
  | cons v values ih =>
    rw [List.forall_mem_cons] at own fresh
    rw [List.map_cons, List.nodup_cons] at apart
    obtain ⟨tidy, named, short⟩ := own.1
    have rest := ih (norm R v :: seen) own.2 apart.2 fun w mem => by
      rw [List.mem_cons, not_or]
      exact ⟨fun same => apart.1 (same ▸ List.mem_map_of_mem mem), fresh.2 w mem⟩
    have is : tidied (some (.str v)) = v := tidy
    rw [List.map_cons, parseValues, is, if_neg (by rw [not_or]; exact ⟨named, by omega⟩),
      if_neg (by simpa using fresh.1), rest]
    rfl

theorem parseInput_toJson {inp : Input} (sound : InputSound R inp) {seen : List String}
    (fresh : norm R inp.label ∉ seen) : parseInput R seen inp.toJson = .ok inp := by
  have nodup : ([("label", Json.str inp.label), ("values", .arr (inp.values.map .str)),
      ("ordered", .bool inp.ordered), ("show_label", .bool inp.showLabel)].map Prod.fst).Nodup := by
    simp
  have keys : ∀ k ∈ (⟨_, nodup⟩ : Keyed String Json).keys, k ∈ inputKeys := by
    simp [Keyed.keys, inputKeys]
  have label : tidied (some (.str inp.label)) = inp.label := sound.tidy
  have values := parseValues_map inp.label [] sound.values sound.apart (by simp)
  have count : ¬ (inp.values.length < 2 ∨ maxValues < inp.values.length) := by
    have many := sound.many
    have few := sound.few
    omega
  have fits : ¬ (inp.label = "" ∨ 40 < (Text.utf16 inp.label).length ∨
      isLabel inp.label = false) := by
    rw [not_or, not_or]
    exact ⟨sound.named, by have := sound.short; omega, by simp [sound.letters]⟩
  have getLabel : (⟨_, nodup⟩ : Keyed String Json).get "label" = some (.str inp.label) := rfl
  have getValues : (⟨_, nodup⟩ : Keyed String Json).get "values" =
      some (.arr (inp.values.map .str)) := rfl
  have getOrdered : (⟨_, nodup⟩ : Keyed String Json).get "ordered" =
      some (.bool inp.ordered) := rfl
  have getShow : (⟨_, nodup⟩ : Keyed String Json).get "show_label" =
      some (.bool inp.showLabel) := rfl
  have flags : ["ordered", "show_label"].find?
      (fun k => !isFlag ((⟨_, nodup⟩ : Keyed String Json).get k)) = none := rfl
  have new : ¬ seen.contains (norm R inp.label) = true := by simpa using fresh
  have ordered : isBool true (some (.bool inp.ordered)) = inp.ordered := by
    cases inp.ordered <;> rfl
  have shown : (!isBool false (some (.bool inp.showLabel))) = inp.showLabel := by
    cases inp.showLabel <;> rfl
  rw [Input.toJson, parseInput, asObject_obj nodup]
  simp only [onlyKeys_ok keys, Except.bind, parseFields, flags, getLabel, getValues, getOrdered,
    getShow, label, if_neg fits, if_neg new, List.length_map, if_neg count, values, ordered, shown]

theorem parseInputs_map {inputs : List Input} (seen : List String)
    (own : ∀ inp ∈ inputs, InputSound R inp)
    (apart : (inputs.map fun inp => norm R inp.label).Nodup)
    (fresh : ∀ inp ∈ inputs, norm R inp.label ∉ seen) :
    parseInputs R seen (inputs.map Input.toJson) = .ok inputs := by
  induction inputs generalizing seen with
  | nil => rfl
  | cons inp inputs ih =>
    rw [List.forall_mem_cons] at own fresh
    rw [List.map_cons, List.nodup_cons] at apart
    have rest := ih (norm R inp.label :: seen) own.2 apart.2 fun w mem => by
      rw [List.mem_cons, not_or]
      exact ⟨fun same => apart.1 (List.mem_map.2 ⟨w, mem, same⟩), fresh.2 w mem⟩
    rw [List.map_cons, parseInputs, parseInput_toJson own.1 fresh.1]
    simp only [Except.bind, rest]
    rfl

section

variable {inputs : List Input} (own : ∀ inp ∈ inputs, InputSound R inp)
  (apart : (inputs.map fun inp => norm R inp.label).Nodup)

theorem textOf_str (s : String) : textOf R (some (.str s)) = s := by
  simp [textOf, Json.text]

theorem parseWhenValues_map {inp : Input} (sound : InputSound R inp) (r : Nat) {vs : List String}
    (mem : ∀ v ∈ vs, v ∈ inp.values) : parseWhenValues R inp r (vs.map .str) = .ok vs := by
  induction vs with
  | nil => rfl
  | cons v vs ih =>
    rw [List.forall_mem_cons] at mem
    rw [List.map_cons, parseWhenValues, textOf_str, find?_norm sound.apart mem.1 rfl]
    simp only [ih mem.2]
    rfl

include own apart in
theorem parseWhen_entry (r : Nat) (when : Keyed String (List String)) {k : String}
    {vs : List String} (some' : vs ≠ []) {inp : Input} (mem : inp ∈ inputs) (label : inp.label = k)
    (values : ∀ v ∈ vs, v ∈ inp.values) :
    parseWhen R inputs r when (k, .arr (vs.map .str)) = .ok (when.set k vs) := by
  obtain ⟨v, vs, rfl⟩ := List.exists_cons_of_ne_nil some'
  subst label
  have parsed := parseWhenValues_map (own inp mem) r values
  rw [parseWhen, find?_label apart mem rfl]
  simp only [List.map_cons] at parsed ⊢
  rw [parsed]
  rfl

include own apart in
theorem foldlM_parseWhen_map (r : Nat) (entries : List (String × List String))
    (when : Keyed String (List String)) (sound : ∀ k vs, (k, vs) ∈ entries → vs ≠ [] ∧
      ∃ inp ∈ inputs, inp.label = k ∧ ∀ v ∈ vs, v ∈ inp.values) :
    (entries.map fun kv => (kv.1, Json.arr (kv.2.map .str))).foldlM (parseWhen R inputs r) when =
      .ok (entries.foldl (fun when kv => when.set kv.1 kv.2) when) := by
  induction entries generalizing when with
  | nil => rfl
  | cons entry entries ih =>
    obtain ⟨k, vs⟩ := entry
    obtain ⟨some', inp, mem, label, values⟩ := sound k vs List.mem_cons_self
    rw [List.map_cons, List.foldlM_cons, parseWhen_entry own apart r when some' mem label values]
    exact ih _ fun k' vs' mem' => sound k' vs' (List.mem_cons_of_mem _ mem')

include own apart in
theorem parseRow_toJson {manifest : Manifest} {row : TableRow}
    (sound : RowSound R manifest inputs row) (r : Nat) :
    parseRow R manifest inputs r row.toJson = .ok row := by
  have whenNodup : ((row.when.entries.map fun kv =>
      (kv.1, Json.arr (kv.2.map .str))).map Prod.fst).Nodup := by
    rw [List.map_map]
    exact row.when.nodup
  have nodup : ([("band", Json.str row.band), ("when", .obj (row.when.entries.map fun kv =>
      (kv.1, Json.arr (kv.2.map .str))))].map Prod.fst).Nodup := by
    simp
  have keys : ∀ k ∈ (⟨_, nodup⟩ : Keyed String Json).keys, k ∈ rowKeys := by
    simp [Keyed.keys, rowKeys]
  have folded := foldlM_parseWhen_map own apart r row.when.entries .empty sound.when
  have whole : row.when.entries.foldl (fun when kv => when.set kv.1 kv.2) .empty = row.when :=
    Keyed.ofList_entries row.when
  rw [whole] at folded
  rw [TableRow.toJson, parseRow, asObject_obj nodup]
  simp only [onlyKeys_ok keys, Except.bind]
  simp only [Keyed.get, List.lookup_cons_self, textOf_str, sound.band]
  simp only [List.lookup_cons, show ("when" == "band") = false from by decide, beq_self_eq_true,
    Option.bind_some, asObject_obj whenNodup, folded]
  rfl

include own apart in
theorem parseRows_map {manifest : Manifest} {table : List TableRow}
    (sound : ∀ row ∈ table, RowSound R manifest inputs row) (r : Nat) :
    parseRows R manifest inputs r (table.map TableRow.toJson) = .ok table := by
  induction table generalizing r with
  | nil => rfl
  | cons row table ih =>
    rw [List.forall_mem_cons] at sound
    rw [List.map_cons, parseRows, parseRow_toJson own apart sound.1]
    simp only [Except.bind, ih sound.2]
    rfl

end

/-- A sound method is what parsing gives back of it. -/
theorem Sound.parse {manifest : Manifest} {m : Method} (sound : Sound R manifest m) :
    parseFrameworkMethod R m.toJson (some manifest) = .ok m := by
  have nodup : ([("schema_version", Json.num 1), ("framework_key", .str m.frameworkKey),
      ("inputs", .arr (m.inputs.map Input.toJson)),
      ("table", .arr (m.table.map TableRow.toJson))].map Prod.fst).Nodup := by
    simp
  have keys : ∀ k ∈ (⟨_, nodup⟩ : Keyed String Json).keys, k ∈ methodKeys := by
    simp [Keyed.keys, methodKeys]
  have inputs := parseInputs_map [] sound.inputs sound.apart (by simp)
  have count : ¬ (m.inputs.length < 1 ∨ maxInputs < m.inputs.length) := by
    have some' := List.length_pos_iff.2 sound.some'
    have few := sound.few
    omega
  have table : parseTable R manifest m.inputs (some (.arr (m.table.map TableRow.toJson))) =
      .ok m.table := by
    obtain ⟨row, rows, stated⟩ := List.exists_cons_of_ne_nil sound.stated
    have parsed := parseRows_map sound.inputs sound.apart sound.rows 0
    have checked := checkTable_ok.2 sound.complete
    have shown := sound.shown
    rw [stated, List.map_cons] at parsed ⊢
    rw [stated] at checked shown
    simp only [parseTable, parsed, Except.bind, shown, checked]
    rfl
  rw [Method.toJson, parseFrameworkMethod, asObject_obj nodup]
  simp only [onlyKeys_ok keys, Except.bind]
  simp only [Keyed.get, List.lookup_cons, beq_self_eq_true, isVersion,
    show ("framework_key" == "schema_version") = false from by decide,
    show ("inputs" == "schema_version") = false from by decide,
    show ("inputs" == "framework_key") = false from by decide,
    show ("table" == "schema_version") = false from by decide,
    show ("table" == "framework_key") = false from by decide,
    show ("table" == "inputs") = false from by decide, isText, sound.key, List.length_map,
    if_neg count, inputs, table]
  simp [Except.map, ← sound.key]

end Clearotron.RatingMethod
