import Clearotron.Library.Json
import Clearotron.Register.Text

/-!
# A framework's stated method

A framework may state the inputs it rates through and a table from them to a band. The method is
parsed against the framework's manifest, is frozen into the run by writing it out, and every rated
finding is checked against it. Labels and values are matched in any case and spacing.
-/

namespace Clearotron.RatingMethod

/-- What the runtime knows of letters, and how it writes values. -/
structure Runtime where
  lower : String → String
  lower_eq_empty : ∀ s, lower s = "" ↔ s = ""
  /-- `String(n)` -/
  numberText : Rat → String
  /-- `JSON.stringify(v)` -/
  stringify : Json → String

/-- The manifest as the method reads it: its key, and its bands. -/
structure Manifest where
  frameworkKey : String
  bands : List String

structure Input where
  label : String
  values : List String
  ordered : Bool
  showLabel : Bool
  deriving DecidableEq

/-- A row of the table; a label it does not name matches every value. -/
structure TableRow where
  band : String
  when : Keyed String (List String)
  deriving DecidableEq

structure Method where
  frameworkKey : String
  inputs : List Input
  table : List TableRow
  deriving DecidableEq

section

variable (R : Runtime)

/-- The first forty of more characters. -/
def front40 (s : String) : String := if 40 < s.length then Text.slice 40 s ++ "…" else s

def short : Option Json → String
  | none => "undefined"
  | some (.str s) => front40 s
  | some v => front40 (R.stringify v)

/-- `String(v ?? "")` -/
def textOf : Option Json → String
  | none | some .null => ""
  | some v => v.text R.numberText

def norm (s : String) : String := R.lower (Text.tidy s)

def normLabel (s : String) : String := R.lower (Text.trim s)

/-- The manifest's own spelling of a band. -/
def normalizeBand (manifest : Manifest) (label : String) : Option String :=
  manifest.bands.find? fun b => normLabel R b = normLabel R label

/-- A text with single blanks inside; any other value is none. -/
def tidied : Option Json → String
  | some (.str s) => Text.tidy s
  | _ => ""

def methodKeys : List String := ["schema_version", "framework_key", "inputs", "table"]

def inputKeys : List String := ["label", "values", "ordered", "show_label"]

def rowKeys : List String := ["band", "when"]

def maxInputs : Nat := 4

def maxValues : Nat := 12

/-- `LABEL_RE`. -/
def isLabel (s : String) : Bool :=
  match s.toList with
  | [] => false
  | c :: rest => c.isAlpha && rest.all fun d => d.isAlpha || " '’/-".toList.contains d

def onlyKeys (obj : Keyed String Json) (allowed : List String) (token : String → String) :
    Except String Unit :=
  match obj.keys.find? fun k => !allowed.contains k with
  | some k => .error (token k)
  | none => .ok ()

/-- The values of an input; `seen` holds the folded ones so far. -/
def parseValues (label : String) : List String → List Json → Except String (List String)
  | _, [] => .ok []
  | seen, v :: vs =>
    let s := tidied (some v)
    if s = "" ∨ 40 < (Text.utf16 s).length then
      .error ("framework_method_input_value_invalid:" ++ short R (some v) ++
        " (a non-empty word or phrase of at most 40 characters)")
    else if seen.contains (norm R s) then
      .error ("framework_method_input_value_duplicate:" ++ front40 s)
    else (parseValues label (norm R s :: seen) vs).map (s :: ·)

def isFlag : Option Json → Bool
  | none | some (.bool _) => true
  | _ => false

def isBool (b : Bool) : Option Json → Bool
  | some (.bool b') => b' == b
  | _ => false

def parseFields (seen : List String) (obj : Keyed String Json) : Except String Input :=
  let label := tidied (obj.get "label")
  if label = "" ∨ 40 < (Text.utf16 label).length ∨ isLabel label = false then
    .error ("framework_method_input_label_invalid:" ++ short R (obj.get "label") ++
      " (the framework's own name for the input — letters, spaces, apostrophes, slashes and " ++
      "hyphens)")
  else if seen.contains (norm R label) then
    .error ("framework_method_input_label_duplicate:" ++ front40 label)
  else
    let badValues := "framework_method_input_values_invalid:" ++ front40 label ++
      " (2-" ++ toString maxValues ++ " values, as the framework writes them)"
    match obj.get "values" with
    | some (.arr vs) =>
      if vs.length < 2 ∨ maxValues < vs.length then .error badValues
      else
        (parseValues R label [] vs).bind fun values =>
          match ["ordered", "show_label"].find? fun k => !isFlag (obj.get k) with
          | some k =>
            .error ("framework_method_input_" ++ k ++ "_invalid:" ++ front40 label ++ " (" ++ k ++
              " is true or false)")
          | none => .ok ⟨label, values, isBool true (obj.get "ordered"),
              !isBool false (obj.get "show_label")⟩
    | _ => .error badValues

def parseInput (seen : List String) (inp : Json) : Except String Input :=
  match inp.asObject with
  | none =>
    .error ("framework_method_input_invalid:" ++ short R (some inp) ++
      " (each input is \x7b label, values \x7d)")
  | some obj =>
    (onlyKeys obj inputKeys fun k => "framework_method_input_key_unknown:" ++ front40 k).bind
      fun _ => parseFields R seen obj

/-- The inputs; `seen` holds the folded labels so far. -/
def parseInputs : List String → List Json → Except String (List Input)
  | _, [] => .ok []
  | seen, v :: vs =>
    (parseInput R seen v).bind fun inp =>
      (parseInputs (norm R inp.label :: seen) vs).map (inp :: ·)

/-- The values a row names of an input, in the input's own spelling. -/
def parseWhenValues (inp : Input) (r : Nat) : List Json → Except String (List String)
  | [] => .ok []
  | v :: vs =>
    match inp.values.find? fun x => norm R x = norm R (textOf R (some v)) with
    | none =>
      .error ("framework_method_row_value_unknown:" ++ short R (some v) ++ " (row " ++ toString r ++
        ": \"" ++ inp.label ++ "\" is one of " ++ " / ".intercalate inp.values ++ ")")
    | some c => (parseWhenValues inp r vs).map (c :: ·)

def parseWhen (inputs : List Input) (r : Nat) (when : Keyed String (List String))
    (entry : String × Json) : Except String (Keyed String (List String)) :=
  match inputs.find? fun inp => norm R inp.label = norm R entry.1 with
  | none =>
    .error ("framework_method_row_input_unknown:" ++ front40 entry.1 ++ " (row " ++ toString r ++
      ": not one of the inputs " ++ " / ".intercalate (inputs.map Input.label) ++ ")")
  | some inp =>
    match entry.2 with
    | .arr (v :: vs) => (parseWhenValues R inp r (v :: vs)).map (when.set inp.label)
    | _ =>
      .error ("framework_method_row_values_invalid:" ++ toString r ++ " (row " ++ toString r ++
        ": \"" ++ inp.label ++ "\" lists at least one value)")

def parseRow (manifest : Manifest) (inputs : List Input) (r : Nat) (row : Json) :
    Except String TableRow :=
  match row.asObject with
  | none =>
    .error ("framework_method_row_invalid:" ++ toString r ++ " (each row is \x7b band, when \x7d)")
  | some obj =>
    (onlyKeys obj rowKeys fun k => "framework_method_row_key_unknown:" ++ front40 k).bind fun _ =>
      match (normalizeBand R manifest (textOf R (obj.get "band"))).filter (· ≠ "") with
      | none =>
        .error ("framework_method_row_band_invalid:" ++ short R (obj.get "band") ++ " (row " ++
          toString r ++ ": the band must be one of the manifest's words: " ++
          " / ".intercalate manifest.bands ++ ")")
      | some band =>
        match (obj.get "when").bind Json.asObject with
        | none =>
          .error ("framework_method_row_invalid:" ++ toString r ++
            " (when is \x7b \"<input label>\": [\"<value>\", …] \x7d)")
        | some when => (when.entries.foldlM (parseWhen R inputs r) .empty).map (⟨band, ·⟩)

/-- The rows, numbered from one. -/
def parseRows (manifest : Manifest) (inputs : List Input) :
    Nat → List Json → Except String (List TableRow)
  | _, [] => .ok []
  | r, row :: rows =>
    (parseRow R manifest inputs (r + 1) row).bind fun parsed =>
      (parseRows manifest inputs (r + 1) rows).map (parsed :: ·)

end

/-- Every choice of one value for each input. -/
def combinations : List Input → List (List String)
  | [] => [[]]
  | inp :: inputs => inp.values.flatMap fun v => (combinations inputs).map (v :: ·)

def rowMatches (row : TableRow) (inputs : List Input) (combo : List String) : Bool :=
  (inputs.zip combo).all fun at' => (row.when.get at'.1.label).all (·.contains at'.2)

/-- The band the table gives for a combination. -/
def tableBand (method : Method) (combo : List String) : Option String :=
  (method.table.find? (rowMatches · method.inputs combo)).map TableRow.band

/-- The members every object has: one stands where a row does not name a label that is so called,
and matching asks it for values it does not have. The values of a row being some, a combination
comes to it, and the table is refused. -/
def inherited : List String :=
  ["constructor", "hasOwnProperty", "isPrototypeOf", "propertyIsEnumerable", "toLocaleString",
    "toString", "valueOf"]

def isShadowed (inputs : List Input) (table : List TableRow) : Bool :=
  inputs.any fun inp => inherited.contains inp.label &&
    table.any fun row => (row.when.get inp.label).isNone

def comboText (glue : String) (inputs : List Input) (combo : List String) : String :=
  glue.intercalate ((inputs.zip combo).map fun at' => at'.1.label ++ " " ++ at'.2)

/-- Does every combination meet one row? -/
def checkTable (inputs : List Input) (table : List TableRow) :
    List (List String) → Except String Unit
  | [] => .ok ()
  | combo :: combos =>
    let hits := (table.filter (rowMatches · inputs combo)).length
    if hits = 0 then
      .error ("framework_method_table_incomplete: no row gives a band for " ++
        comboText ", " inputs combo)
    else if 1 < hits then
      .error ("framework_method_table_ambiguous: " ++ toString hits ++ " rows give a band for " ++
        comboText ", " inputs combo)
    else checkTable inputs table combos

def parseTable (R : Runtime) (manifest : Manifest) (inputs : List Input) (table : Option Json) :
    Except String (List TableRow) :=
  match table with
  | some (.arr (row :: rows)) =>
    (parseRows R manifest inputs 0 (row :: rows)).bind fun table =>
      if isShadowed inputs table then .error "row.when[inp.label].includes is not a function"
      else (checkTable inputs table (combinations inputs)).map fun _ => table
  | _ => .error "framework_method_table_missing (a method without a table rates nothing)"

def isVersion : Option Json → Bool
  | some (.num n) => n == 1
  | _ => false

def isText (s : String) : Option Json → Bool
  | some (.str s') => s' == s
  | _ => false

/-- A method against its framework's manifest. -/
def parseFrameworkMethod (R : Runtime) (raw : Json) (manifest : Option Manifest) :
    Except String Method :=
  match raw.asObject with
  | none => .error "framework_method_unparseable: top level must be a JSON OBJECT"
  | some m =>
    (onlyKeys m methodKeys fun k => "framework_method_key_unknown:" ++ front40 k).bind fun _ =>
      if isVersion (m.get "schema_version") = false then
        .error ("framework_method_version_invalid:" ++ short R (m.get "schema_version") ++
          " (schema_version must be 1)")
      else
        match manifest with
        | none =>
          .error ("framework_method_key_mismatch:" ++ short R (m.get "framework_key") ++
            " (a method belongs to the framework whose manifest names the same framework_key)")
        | some manifest =>
          if isText manifest.frameworkKey (m.get "framework_key") = false then
            .error ("framework_method_key_mismatch:" ++ short R (m.get "framework_key") ++
              " (a method belongs to the framework whose manifest names the same " ++
              "framework_key, \"" ++ manifest.frameworkKey ++ "\")")
          else
            let badInputs := "framework_method_inputs_invalid (1-" ++ toString maxInputs ++
              " inputs, in the order the framework reasons them)"
            match m.get "inputs" with
            | some (.arr vs) =>
              if vs.length < 1 ∨ maxInputs < vs.length then .error badInputs
              else
                (parseInputs R [] vs).bind fun inputs =>
                  (parseTable R manifest inputs (m.get "table")).map fun table =>
                    ⟨manifest.frameworkKey, inputs, table⟩
            | _ => .error badInputs

def Input.toJson (inp : Input) : Json :=
  .obj [("label", .str inp.label), ("values", .arr (inp.values.map .str)),
    ("ordered", .bool inp.ordered), ("show_label", .bool inp.showLabel)]

def TableRow.toJson (row : TableRow) : Json :=
  .obj [("band", .str row.band),
    ("when", .obj (row.when.entries.map fun kv => (kv.1, .arr (kv.2.map .str))))]

/-- The value `freezeFrameworkMethod` writes. -/
def Method.toJson (m : Method) : Json :=
  .obj [("schema_version", .num 1), ("framework_key", .str m.frameworkKey),
    ("inputs", .arr (m.inputs.map Input.toJson)), ("table", .arr (m.table.map TableRow.toJson))]

end Clearotron.RatingMethod
