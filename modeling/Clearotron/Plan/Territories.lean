import Clearotron.Register.Text

/-!
# Territories

What a client calls a territory, and the code the registers know it by. What the runtime
itself knows of texts and regions is a parameter.
-/

namespace Clearotron

/-- What the code takes from the runtime's Unicode and region data. -/
structure Locale where
  /-- compatibility decomposition, combining marks dropped -/
  foldMarks : String → String
  upper : String → String
  upper_upper : ∀ s, upper (upper s) = upper s
  upper_ne_empty : ∀ s, s ≠ "" → upper s ≠ ""
  /-- no letter, no change -/
  upper_fixed : ∀ s, (∀ c ∈ s.toList, c.toNat < 128 ∧ c.isLower = false) → upper s = s
  lower : String → String
  lower_lower : ∀ s, lower (lower s) = lower s
  lower_fixed : ∀ s, (∀ c ∈ s.toList, c.toNat < 128 ∧ c.isUpper = false) → lower s = s
  /-- the case of a text says nothing of the blanks at its ends -/
  trim_lower : ∀ s, Text.trim (lower (Text.trim s)) = lower (Text.trim s)
  /-- the English name of a region code, where there is one -/
  regionName : String → Option String
  /-- the current code of a withdrawn one -/
  canonicalRegion : String → String

/-- `TERRITORY_TO_CODE`: what a requester may type. The empty code is worldwide. -/
def territoryToCode : List (String × String) :=
  [("WORLDWIDE", ""), ("GLOBAL", ""), ("ALL", ""), ("EUROPEAN UNION", "EU"), ("EUIPO", "EU"),
   ("EUTM", "EU"), ("BENELUX", "BX"), ("AFRICAN REGIONAL ARIPO", "AP"), ("ARIPO", "AP"),
   ("AFRICAN REGIONAL", "AP"), ("INTERNATIONAL", "WO"), ("INTERNATIONAL MADRID", "WO"),
   ("MADRID", "WO"), ("WIPO", "WO"), ("UNITED STATES", "US"), ("UNITED STATES OF AMERICA", "US"),
   ("USA", "US"), ("U S", "US"), ("U S A", "US"), ("UNITED KINGDOM", "GB"),
   ("GREAT BRITAIN", "GB"), ("IRELAND", "IE"), ("FRANCE", "FR"), ("GERMANY", "DE"),
   ("SPAIN", "ES"), ("ITALY", "IT"), ("NETHERLANDS", "NL"), ("BELGIUM", "BE"),
   ("LUXEMBOURG", "LU"), ("SWITZERLAND", "CH"), ("AUSTRIA", "AT"), ("SWEDEN", "SE"),
   ("NORWAY", "NO"), ("POLAND", "PL"), ("BULGARIA", "BG"), ("GREECE", "GR"), ("TURKEY", "TR"),
   ("TURKIYE", "TR"), ("CANADA", "CA"), ("MEXICO", "MX"), ("BRAZIL", "BR"), ("ARGENTINA", "AR"),
   ("CHINA", "CN"), ("PEOPLES REPUBLIC OF CHINA", "CN"), ("HONG KONG", "HK"), ("TAIWAN", "TW"),
   ("MACAU", "MO"), ("MACAO", "MO"), ("JAPAN", "JP"), ("SOUTH KOREA", "KR"), ("KOREA", "KR"),
   ("REPUBLIC OF KOREA", "KR"), ("SINGAPORE", "SG"), ("INDIA", "IN"), ("THAILAND", "TH"),
   ("AUSTRALIA", "AU"), ("NEW ZEALAND", "NZ"), ("UNITED ARAB EMIRATES", "AE"), ("UAE", "AE"),
   ("SAUDI ARABIA", "SA"), ("SOUTH AFRICA", "ZA")]

/-- Aliases of one office: `JURISDICTION_CODE_FOLD`. -/
def jurisdictionCodeFold : List (String × String) :=
  [("UK", "GB"), ("EM", "EU"), ("EUTM", "EU"), ("EUIPO", "EU")]

/-- `KNOWN_JURISDICTION_CODES`. -/
def knownJurisdictionCodes : List String :=
  ["AD", "AE", "AF", "AG", "AI", "AL", "AM", "AO", "AQ", "AR", "AS", "AT", "AU", "AW", "AX", "AZ",
   "BA", "BB", "BD", "BE", "BF", "BG", "BH", "BI", "BJ", "BL", "BM", "BN", "BO", "BQ", "BR",
   "BS", "BT", "BV", "BW", "BY", "BZ", "CA", "CC", "CD", "CF", "CG", "CH", "CI", "CK", "CL",
   "CM", "CN", "CO", "CR", "CU", "CV", "CW", "CX", "CY", "CZ", "DE", "DJ", "DK", "DM", "DO",
   "DZ", "EC", "EE", "EG", "EH", "ER", "ES", "ET", "FI", "FJ", "FK", "FM", "FO", "FR", "GA",
   "GB", "GD", "GE", "GF", "GG", "GH", "GI", "GL", "GM", "GN", "GP", "GQ", "GR", "GS", "GT",
   "GU", "GW", "GY", "HK", "HM", "HN", "HR", "HT", "HU", "ID", "IE", "IL", "IM", "IN", "IO",
   "IQ", "IR", "IS", "IT", "JE", "JM", "JO", "JP", "KE", "KG", "KH", "KI", "KM", "KN", "KP",
   "KR", "KW", "KY", "KZ", "LA", "LB", "LC", "LI", "LK", "LR", "LS", "LT", "LU", "LV", "LY",
   "MA", "MC", "MD", "ME", "MF", "MG", "MH", "MK", "ML", "MM", "MN", "MO", "MP", "MQ", "MR",
   "MS", "MT", "MU", "MV", "MW", "MX", "MY", "MZ", "NA", "NC", "NE", "NF", "NG", "NI", "NL",
   "NO", "NP", "NR", "NU", "NZ", "OM", "PA", "PE", "PF", "PG", "PH", "PK", "PL", "PM", "PN",
   "PR", "PS", "PT", "PW", "PY", "QA", "RE", "RO", "RS", "RU", "RW", "SA", "SB", "SC", "SD",
   "SE", "SG", "SH", "SI", "SJ", "SK", "SL", "SM", "SN", "SO", "SR", "SS", "ST", "SV", "SX",
   "SY", "SZ", "TC", "TD", "TF", "TG", "TH", "TJ", "TK", "TL", "TM", "TN", "TO", "TR", "TT",
   "TV", "TW", "TZ", "UA", "UG", "UM", "US", "UY", "UZ", "VA", "VC", "VE", "VG", "VI", "VN",
   "VU", "WF", "WS", "YE", "YT", "ZA", "ZM", "ZW", "EU", "WO", "AP", "OA", "BX", "EA", "IB",
   "XA", "XG", "XK", "XS", "XW", "ZZ"]

namespace Locale

variable (R : Locale)

/-- The key a display name is looked up by. -/
def strip (s : String) : String :=
  let folded := R.upper (R.foldMarks s)
  let tokens := folded.toList.map fun c => if c = '(' ∨ c = ')' ∨ c = '.' then ' ' else c
  Text.trim (Text.collapseSpaces (String.ofList tokens))

def isLetterCode (s : String) : Bool :=
  match s.toList with
  | [a, b] => a.isUpper && b.isUpper
  | _ => false

/-- The two-letter codes, AA to ZZ. -/
def letterCodes : List String :=
  let letters := "ABCDEFGHIJKLMNOPQRSTUVWXYZ".toList
  letters.flatMap fun a => letters.map fun b => String.ofList [a, b]

/-- `DERIVED_NAME_TO_CODE`: the region names of the runtime, where the table has none. -/
def derivedNameToCode : List (String × String) :=
  letterCodes.foldl (fun out code =>
    match R.regionName code with
    | none => out
    | some name =>
      let key := R.strip name
      let unknown := "unknown".toList.isPrefixOf (name.toList.map Char.toLower)
      if name = "" ∨ name = code ∨ unknown ∨ key = "" ∨ (territoryToCode.lookup key).isSome ∨
          (out.lookup key).isSome then out
      else out ++ [(key, R.canonicalRegion code)]) []

/-- The code of a territory as it was typed: empty for worldwide, none where it is not known. -/
def normalizeTerritory (value : String) : Option String :=
  let s := R.strip value
  if s = "" then none
  else if isLetterCode s then some s
  else territoryToCode.lookup s <|> R.derivedNameToCode.lookup s

def canonicalJurisdictionCode (code : String) : String :=
  let c := R.upper (Text.trim code)
  if c = "" then "" else (jurisdictionCodeFold.lookup c).getD c

/-- Is the code, after the fold, inside the known universe? -/
def isKnownJurisdictionCode (code : String) : Bool :=
  R.canonicalJurisdictionCode code != "" &&
    knownJurisdictionCodes.contains (R.canonicalJurisdictionCode code)

end Locale

/-- A territory that has a name: what binds it can be asked. -/
structure Territory (R : Locale) where
  code : String
  named : R.upper (Text.trim code) ≠ ""
  deriving DecidableEq

theorem Locale.named_of_known {R : Locale} {code : String}
    (known : R.isKnownJurisdictionCode code = true) : R.upper (Text.trim code) ≠ "" := by
  intro blank
  simp [isKnownJurisdictionCode, canonicalJurisdictionCode, blank] at known

end Clearotron
