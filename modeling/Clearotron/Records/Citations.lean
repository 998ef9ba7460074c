import Mathlib.Data.List.Dedup
import Clearotron.Declinations.Keys

/-!
# Readers of a citation

A finding cites register records in several places, and four readers look the citations up among
the fetched records: the binding of registrations, the join of evidence, the caveat on failed
fetches, and the check of a document against the records. Each reads a citation its own way, and
they agree on it exactly where it is the key of its record, but for letter case.
-/

namespace Clearotron.Citations

/-- What the runtime knows of letter case. -/
structure Lowering where
  lower : String → String
  lower_ascii : ∀ s, (∀ c ∈ s.toList, c.toNat < 128) → lower s = asciiLower s

/-- A citation as the documents spell one, a path or an address: ASCII in any letter case. -/
structure Citation where
  text : String
  ascii : ∀ c ∈ text.toList, c.toNat < 128

/-- A fetched record, with what is read of it. -/
structure RegisterRecord where
  classList : Option (List String)
  niceClasses : Option (List String)
  statusText : Option String
  onomaticsStatus : Option String
  corsearchStatusCode : Option String
  statusClass : Option String
  applicationDate : Option String
  expiryDate : Option String
  jurisdiction : Option String
  owner : Option String
  ownerName : Option String
  proprietor : Option String
  ownerNative : Option String
  applicantNameNative : Option String
deriving DecidableEq

namespace RegisterRecord

variable (rec : RegisterRecord)

/-- `recClasses`. -/
def classes : Option (List String) := rec.classList <|> rec.niceClasses

/-- `REC.statusStr`. -/
def statusStr : String :=
  (rec.statusText <|> rec.onomaticsStatus <|> rec.corsearchStatusCode <|> rec.statusClass).getD ""

/-- `REC.owner`. -/
def ownerStr : String :=
  Text.trim ((rec.owner <|> rec.ownerName <|> rec.proprietor).getD "")

/-- `REC.ownerNative`. -/
def ownerNativeStr : String := Text.trim ((rec.ownerNative <|> rec.applicantNameNative).getD "")

end RegisterRecord

/-- The fetched records, each under the canonical path of its record. -/
structure RecordSet where
  entries : List (String × RegisterRecord)
  canonical : ∀ e ∈ entries, normalizeRecordUri e.1 = some e.1

namespace RecordSet

variable (records : RecordSet)

def get (uri : String) : Option RegisterRecord := records.entries.lookup uri

def has (uri : String) : Bool := (records.get uri).isSome

end RecordSet

structure Registration where
  uri : String
  classes : List String
  status : Option String
  filed : Option String
  expiry : Option String
  jurisdiction : Option String
  wasPending : Bool
deriving DecidableEq

inductive BindingSource
  | record
  | unverified
deriving DecidableEq

structure Binding where
  uri : String
  source : BindingSource
deriving DecidableEq

structure FindingOwner where
  name : Option String
  nameRaw : Option String
  nameNative : Option String
  registrations : List Registration
deriving DecidableEq

/-- `/pending|application|app\.?|non-final/i`. -/
def readsPending (status : String) : Bool :=
  ["pending", "application", "app", "non-final"].any (Text.includesFold status)

/-- `ownerDisplayName`. -/
def ownerDisplayName (raw native resolved : Option String) : String :=
  let r := Text.trim (raw.getD "")
  let n := Text.trim (native.getD "")
  let s := Text.trim (resolved.getD "")
  if r ≠ "" ∧ n ≠ "" ∧ s ≠ "" then s else if r ≠ "" then r else s

section

variable (L : Lowering) (records : RecordSet)

/-- The record a registration is bound to. -/
def Registration.found (r : Registration) : Option RegisterRecord :=
  if r.uri = "" then none else records.get (L.lower r.uri)

/-- The fields of a registration, from its record. -/
def Registration.fill (r : Registration) (rec : RegisterRecord) : Registration :=
  { r with
    classes := rec.classes.getD r.classes
    status := some rec.statusStr |>.filter (· ≠ "")
    filed := rec.applicationDate
    expiry := rec.expiryDate
    jurisdiction := (rec.jurisdiction.filter (· ≠ "")).or r.jurisdiction }

/-- The fields of a registration no record of the run says anything of. -/
def Registration.strip (r : Registration) : Registration :=
  { r with
    wasPending := r.wasPending || readsPending (r.status.getD "")
    classes := []
    status := none
    filed := none
    expiry := none }

/-- A registration bound to its record, or stripped of what no record says. -/
def bindRegistration (r : Registration) : Registration :=
  match r.found L records with
  | some rec => r.fill rec
  | none => if r.uri = "" then r else r.strip

/-- What is noted of a registration. -/
def bindingOf (r : Registration) : Option Binding :=
  match r.found L records with
  | some _ => some ⟨r.uri, .record⟩
  | none => if r.uri = "" then none else some ⟨r.uri, .unverified⟩

/-- The first text the records of the registrations carry. -/
def fromRecords (read : RegisterRecord → String) (regs : List Registration) : Option String :=
  regs.findSome? fun r => (r.found L records).bind fun rec => some (read rec) |>.filter (· ≠ "")

def bindOwner (o : FindingOwner) : FindingOwner :=
  let raw := fromRecords L records RegisterRecord.ownerStr o.registrations
  let native := fromRecords L records RegisterRecord.ownerNativeStr o.registrations
  let shown := ownerDisplayName raw native o.name
  { name := if shown ≠ "" then some shown else o.name
    nameRaw := raw <|> o.nameRaw
    nameNative := native <|> o.nameNative
    registrations := o.registrations.map (bindRegistration L records) }

/-- The owners of the findings once bound, and the bindings; without a record set nothing is. -/
def bindFindingsToRecords (owners : List (Option FindingOwner)) :
    List (Option FindingOwner) × List Binding :=
  if records.entries = [] then (owners, [])
  else (owners.map (·.map (bindOwner L records)),
    owners.flatMap fun o => (o.elim [] (·.registrations)).filterMap (bindingOf L records))

end

structure Meter where
  name : String
  token : Option String
  basis : Option String
  source : Option String

/-- What the join of evidence reads of a finding. -/
structure Evidence where
  mark : String
  registrations : List String
  meters : List Meter
  useSource : Option String
  /-- is the source of the use check a register's mirror, by its host or as attested? -/
  hostMirror : Bool
  attestedMirror : Bool
  /-- the source of the own-rights line, where there is one -/
  ownRights : Option String

inductive EvidenceStatus
  | notChecked
  | inferred
  | confirmed
  | assumed
deriving DecidableEq

/-- What the join adds to a finding. -/
structure Joined where
  recordFetchFailure : Option (List String × String)
  statuses : List (String × EvidenceStatus)
  ownRights : Option EvidenceStatus
  flags : List String

/-- `normalizeFetchFailures`: the failed fetches by their canonical path, the first cause first. -/
def normalizeFetchFailures (failures : List (String × Option String)) : List (String × String) :=
  failures.filterMap fun f => (normalizeRecordUri f.1).map (·, f.2.getD "fetch failed")

section

variable (records : RecordSet) (e : Evidence)

/-- Is the record a source names among those fetched? -/
def joined (src : String) : Bool := (normalizeRecordUri src).any records.has

def Meter.src (m : Meter) : String :=
  Text.trim ((m.source <|> if m.name = "use" then e.useSource else none).getD "")

/-- Is the meter one of use whose source is a register's mirror? -/
def Meter.mirrored (m : Meter) : Bool :=
  m.name = "use" && e.useSource.any (· ≠ "") && (e.hostMirror || e.attestedMirror)

def Meter.statusBeforeMirror (m : Meter) : EvidenceStatus :=
  if m.token.getD "unknown" = "unknown" then .notChecked
  else if m.basis = some "inferred-from-signal" then .inferred
  else if m.basis = some "verified-from-record" then
    if joined records (m.src e) then .confirmed else .assumed
  else .inferred

def Meter.status (m : Meter) : EvidenceStatus :=
  if m.mirrored e then .notChecked else m.statusBeforeMirror records e

/-- Why a meter that claims a record is presented as assumed, and a use not as checked. -/
def Meter.flags (m : Meter) : List String :=
  (if m.statusBeforeMirror records e = .assumed then
    ["meter \"" ++ m.name ++ "\" on \"" ++ e.mark ++
      "\" claims verified-from-record but its source " ++
      (if m.src e = "" then "(none)" else "(" ++ Text.slice 60 (m.src e) ++ ")") ++
      " joins no fetch receipt — presented as assumed"]
  else []) ++
  if m.mirrored e then
    ["use-check on \"" ++ e.mark ++ "\" cites a register listing (" ++
      Text.slice 60 (e.useSource.getD "") ++ (if e.hostMirror then "" else " — model-attested") ++
      ") — a register mirror is never evidence of use"]
  else []

/-- The cited records whose fetch failed, as far as none of them is at hand after all. -/
def failedRegs (failed : List (String × String)) : List String :=
  (e.registrations.filterMap normalizeRecordUri).filter fun u =>
    (failed.lookup u).isSome && !records.has u

def joinEvidenceStatus (failures : List (String × Option String)) : Joined :=
  let failed := normalizeFetchFailures failures
  let regs := failedRegs records e failed
  let cause := (regs.head?.bind fun u => failed.lookup u).getD ""
  { recordFetchFailure := if regs = [] then none else some (regs.dedup, cause)
    statuses := e.meters.map fun m => (m.name, m.status records e)
    ownRights := e.ownRights.map fun src => if joined records src then .confirmed else .assumed
    flags :=
      (if regs = [] then [] else
        ["official register record for \"" ++ e.mark ++ "\" could not be retrieved (" ++ cause ++
          ") — registry details in this card are presented unverified"]) ++
        e.meters.flatMap (Meter.flags records e) }

end

/-- The first character of a record's id. -/
def startsId (c : Char) : Bool := c.toLower ≠ '_' && c.toLower ≠ '-'

/-- The paths in a text; the count is how much of a match is still to be passed. -/
def grabUris : ℕ → List Char → List (List Char)
  | _, [] => []
  | n + 1, _ :: s => grabUris n s
  | 0, c :: s =>
    match uriAt startsId (c :: s) with
    | some n => (c :: s).take n :: grabUris (n - 1) s
    | none => grabUris 0 s

/-- A path without the hyphen it ends in. -/
def dropHyphen (u : List Char) : List Char := if u.getLast? = some '-' then u.dropLast else u

/-- `extractRegistryClaims(text).uris`. -/
def claimedUris (text : String) : List String :=
  (grabUris 0 text.toList).map fun u => String.ofList (dropHyphen (u.map Char.toLower))

/-- A block of a document, with the headings it stands under. -/
structure Block where
  parent : String
  heading : String
  text : String

namespace Block

variable (b : Block)

def uris : List String := claimedUris (b.parent ++ "\n" ++ b.heading ++ "\n" ++ b.text)

/-- The paths `findRegistryViolations` reports as unfetched. -/
def unfetched (records : RecordSet) : List String := b.uris.dedup.filter fun u => !records.has u

end Block

/-- A citation in its places: a registration of an owner, the source of a meter that claims a
record, a card, and a block of a document. -/
structure CitedBy (u : Citation) (owners : List (Option FindingOwner)) (r : Registration)
    (e : Evidence) (m : Meter) (b : Block) : Prop where
  registration : ∃ o, some o ∈ owners ∧ r ∈ o.registrations
  uri : r.uri = u.text
  card : u.text ∈ e.registrations
  meter : m ∈ e.meters
  source : m.source = some u.text
  known : m.token.getD "unknown" ≠ "unknown"
  verified : m.basis = some "verified-from-record"
  unmirrored : m.mirrored e = false
  block : ∀ c ∈ claimedUris u.text, c ∈ b.uris

/-- Is the caveat on failed fetches raised for the citation? -/
def Caveated (u : Citation) (j : Joined) : Prop :=
  ∃ k uris cause, normalizeRecordUri u.text = some k ∧
    j.recordFetchFailure = some (uris, cause) ∧ k ∈ uris

section

variable (L : Lowering)

/-- The readers agree on a citation, wherever it stands and whatever was fetched. -/
def ReadersAgree (u : Citation) : Prop :=
  ∀ records failures owners r e m b, CitedBy u owners r e m b →
    (⟨u.text, .record⟩ ∈ (bindFindingsToRecords L records owners).2 ↔
      m.status records e = .confirmed ∧
      (∀ c ∈ claimedUris u.text, c ∉ b.unfetched records) ∧
      ¬ Caveated u (joinEvidenceStatus records e failures))

end

section

variable {u : String} {k : String} {records : RecordSet}

theorem part_of_firstUri {first : Char → Bool} {s m : List Char}
    (found : firstUri first s = some m) :
    m <:+: s := by
  induction s with
  | nil => cases found
  | cons c s ih =>
    unfold firstUri at found
    split at found
    · obtain rfl := Option.some.inj found
      exact (List.take_prefix _ _).isInfix
    · exact (ih found).trans (List.suffix_cons c s).isInfix

theorem length_asciiLower (s : String) : (asciiLower s).toList.length = s.toList.length := by
  simp [asciiLower]

/-- A citation that is its own key but for letter case is a path and nothing else. -/
theorem uriAt_of_own (own : normalizeRecordUri u = some (asciiLower u)) :
    uriAt startsId u.toList = some u.toList.length := by
  obtain ⟨m, found, lowered⟩ := Option.map_eq_some_iff.mp own
  have lengths := congrArg (fun s : String => s.toList.length) lowered
  simp only [String.toList_ofList, List.length_map, length_asciiLower] at lengths
  have whole : m = u.toList :=
    ((part_of_firstUri found).trans (Text.trim_part u)).eq_of_length lengths
  obtain ⟨t, n, found', rfl⟩ := exists_of_firstUri found
  obtain ⟨again, length⟩ := uriAt_take found'
  rw [← whole, length]
  exact again

theorem grabUris_pass (s t : List Char) (n : ℕ) (passed : s.length = n) :
    grabUris n (s ++ t) = grabUris 0 t := by
  induction s generalizing n with
  | nil => rw [← passed]; rfl
  | cons c s ih => rw [← passed]; exact ih s.length rfl

theorem grabUris_of_uriAt {s : List Char} (whole : uriAt startsId s = some s.length) :
    grabUris 0 s = [s] := by
  cases s with
  | nil => cases whole
  | cons c s =>
    have rest := grabUris_pass s [] s.length rfl
    rw [List.append_nil] at rest
    simp [grabUris, whole, rest]

theorem claimedUris_of_own (own : normalizeRecordUri u = some (asciiLower u)) :
    claimedUris u = [String.ofList (dropHyphen (u.toList.map Char.toLower))] := by
  rw [claimedUris, grabUris_of_uriAt (uriAt_of_own own)]
  rfl

/-- What is grabbed is a path where it stands. -/
theorem mem_grabUris {m s : List Char} {n : ℕ} (mem : m ∈ grabUris n s) :
    uriAt startsId m = some m.length := by
  induction s generalizing n with
  | nil => cases n <;> cases mem
  | cons c s ih =>
    cases n with
    | succ n => exact ih mem
    | zero =>
      unfold grabUris at mem
      split at mem
      · rename_i n found
        obtain rfl | mem := List.mem_cons.mp mem
        · obtain ⟨again, length⟩ := uriAt_take found
          rw [length]
          exact again
        · exact ih mem
      · exact ih mem

/-- A path in lower case is its own key. -/
theorem normalizeRecordUri_of_uriAt {t : List Char} (whole : uriAt startsId t = some t.length)
    (lower : t.map Char.toLower = t) :
    normalizeRecordUri (String.ofList t) = some (String.ofList t) := by
  have solid : ∀ c ∈ (String.ofList t).toList, Text.isSpace c = false := by
    intro c mem
    rw [String.toList_ofList] at mem
    exact isSpace_of_uriAt whole c (by rwa [List.take_length])
  have some' : t ≠ [] := by
    rintro rfl
    exact absurd whole (by simp [uriAt])
  unfold normalizeRecordUri
  rw [Text.trim_of_no_space solid, String.toList_ofList]
  have found : firstUri startsId t = some (t.take t.length) := firstUri_of_uriAt whole some'
  rw [List.take_length] at found
  exact (congrArg (Option.map _) found).trans (by rw [Option.map_some, lower])

/-- A path stays one without the hyphen it ends in: its id does not begin with it. -/
theorem uriAt_dropHyphen {t : List Char} (whole : uriAt startsId t = some t.length) :
    uriAt startsId (dropHyphen t) = some (dropHyphen t).length := by
  unfold dropHyphen
  split
  · rename_i hyphen
    obtain ⟨mark, office, id, rest, rfl, length, six, isMark, letters, two, atMost, chars,
      begins⟩ := uriAt_eq_some whole
    obtain rfl : rest = [] := by
      rw [← List.length_eq_zero_iff]
      simp only [List.length_append, List.length_cons] at length
      omega
    rw [List.append_nil] at hyphen ⊢
    rcases List.eq_nil_or_concat' id with rfl | ⟨id', c, rfl⟩
    · cases begins
    have last : c = '-' := by
      have : (mark ++ (office ++ '/' :: (id' ++ [c]))).getLast? = some c := by
        rw [← List.cons_append, ← List.append_assoc, ← List.append_assoc]
        exact List.getLast?_concat
      exact Option.some.inj (this.symm.trans hyphen)
    have front : (mark ++ (office ++ '/' :: (id' ++ [c]))).dropLast =
        mark ++ (office ++ '/' :: id') := by
      rw [← List.cons_append, ← List.append_assoc, ← List.append_assoc, List.dropLast_concat,
        List.append_assoc]
    rw [front]
    refine uriAt_of_parts six isMark letters two atMost
      (fun d mem => chars d (List.mem_append_left _ mem)) ?_
    cases id' with
    | nil =>
      rw [last] at begins
      exact absurd begins (by decide)
    | cons d id' => exact begins
  · exact whole

theorem map_toLower_dropHyphen {t : List Char} (lower : t.map Char.toLower = t) :
    (dropHyphen t).map Char.toLower = dropHyphen t := by
  unfold dropHyphen
  split
  · rw [List.map_dropLast, lower]
  · exact lower

/-- The paths claimed in a text are keys. -/
theorem normalizeRecordUri_of_claimed {c : String} (mem : c ∈ claimedUris u) :
    normalizeRecordUri c = some c := by
  obtain ⟨m, grabbed, rfl⟩ := List.mem_map.mp mem
  have startsLower : startsId ∘ Char.toLower = startsId := by
    funext c
    simp [startsId]
  have lower : (m.map Char.toLower).map Char.toLower = m.map Char.toLower := by
    rw [List.map_map, toLower_comp]
  have whole : uriAt startsId (m.map Char.toLower) = some (m.map Char.toLower).length := by
    rw [uriAt_lower startsLower, mem_grabUris grabbed, List.length_map]
  exact normalizeRecordUri_of_uriAt (uriAt_dropHyphen whole) (map_toLower_dropHyphen lower)

theorem mem_of_lookup {α β : Type} [BEq α] [LawfulBEq α] {l : List (α × β)} {a : α} {b : β}
    (found : l.lookup a = some b) : (a, b) ∈ l := by
  induction l with
  | nil => cases found
  | cons e l ih =>
    rw [List.lookup_cons] at found
    split at found
    · rename_i same
      obtain rfl := Option.some.inj found
      rw [beq_iff_eq.mp same]
      exact List.mem_cons_self
    · exact List.mem_cons_of_mem _ (ih found)

theorem RecordSet.canonical_of_has (has : records.has k = true) :
    normalizeRecordUri k = some k := by
  obtain ⟨rec, found⟩ := Option.isSome_iff_exists.mp has
  have mem : (k, rec) ∈ records.entries := mem_of_lookup found
  exact records.canonical (k, rec) mem

/-- A fetched record is joined by a citation under its key only. -/
theorem joined_iff : joined records u = true ↔
    ∃ k, normalizeRecordUri u = some k ∧ records.has k = true := by
  unfold joined
  cases normalizeRecordUri u with
  | none => simp
  | some k => simp

end

section

variable {L : Lowering} {u : Citation} {records : RecordSet}
  {failures : List (String × Option String)} {owners : List (Option FindingOwner)}
  {r : Registration} {e : Evidence} {m : Meter} {b : Block}

/-- A registration is bound where the citation as it stands, in lower case, is a fetched key. -/
theorem bound_iff (cited : CitedBy u owners r e m b) :
    ⟨u.text, .record⟩ ∈ (bindFindingsToRecords L records owners).2 ↔
      u.text ≠ "" ∧ records.has (asciiLower u.text) = true := by
  have lowered : L.lower u.text = asciiLower u.text := L.lower_ascii _ u.ascii
  have noted (r' : Registration) (uri : r'.uri = u.text) :
      bindingOf L records r' = some ⟨u.text, .record⟩ ↔
        u.text ≠ "" ∧ records.has (asciiLower u.text) = true := by
    unfold bindingOf Registration.found RecordSet.has
    rw [uri, lowered]
    by_cases empty : u.text = ""
    · simp [empty]
    · cases records.get (asciiLower u.text) with
      | none => simp [empty]
      | some rec => simp [empty]
  unfold bindFindingsToRecords
  split
  · rename_i none'
    have never : records.has (asciiLower u.text) = false := by
      simp [RecordSet.has, RecordSet.get, none']
    simp [never]
  · simp only [List.mem_flatMap, List.mem_filterMap]
    constructor
    · rintro ⟨o, -, r', -, binding⟩
      have uri : r'.uri = u.text := by
        unfold bindingOf at binding
        split at binding
        · exact congrArg Binding.uri (Option.some.inj binding)
        · split at binding
          · cases binding
          · exact congrArg Binding.uri (Option.some.inj binding)
      exact (noted r' uri).mp binding
    · intro fetched
      obtain ⟨o, mem, registered⟩ := cited.registration
      exact ⟨some o, mem, r, registered, (noted r cited.uri).mpr fetched⟩

/-- A meter is confirmed where the key of the citation was fetched. -/
theorem confirmed_iff (cited : CitedBy u owners r e m b) :
    m.status records e = .confirmed ↔ joined records u.text = true := by
  have src : m.src e = Text.trim u.text := by simp [Meter.src, cited.source]
  have same : joined records (Text.trim u.text) = joined records u.text := by
    unfold joined normalizeRecordUri
    rw [Text.trim_trim]
  unfold Meter.status Meter.statusBeforeMirror
  rw [cited.unmirrored, if_neg (by simp), if_neg cited.known, cited.verified, if_neg (by decide),
    if_pos rfl, src, same]
  cases joined records u.text with
  | true => simp
  | false => simp

/-- A document's check is silent where every path of the citation was fetched. -/
theorem reported_iff (cited : CitedBy u owners r e m b) :
    (∀ c ∈ claimedUris u.text, c ∉ b.unfetched records) ↔
      ∀ c ∈ claimedUris u.text, records.has c = true := by
  refine forall₂_congr fun c claimed => ?_
  simp [Block.unfetched, cited.block c claimed]

/-- No caveat is raised for a record that was fetched. -/
theorem not_caveated (fetched : joined records u.text = true) :
    ¬ Caveated u (joinEvidenceStatus records e failures) := by
  obtain ⟨k, own, has⟩ := joined_iff.mp fetched
  rintro ⟨k', uris, cause, own', raised, mem⟩
  obtain rfl : k = k' := Option.some.inj (own.symm.trans own')
  unfold joinEvidenceStatus at raised
  dsimp only at raised
  split at raised
  · cases raised
  · obtain ⟨rfl, -⟩ := Prod.mk.inj (Option.some.inj raised)
    have absent := (List.mem_filter.mp (List.mem_dedup.mp mem)).2
    simp [has] at absent

/-- The readers of a citation, as they look it up. -/
theorem agree_iff (cited : CitedBy u owners r e m b) :
    (⟨u.text, .record⟩ ∈ (bindFindingsToRecords L records owners).2 ↔
      m.status records e = .confirmed ∧
      (∀ c ∈ claimedUris u.text, c ∉ b.unfetched records) ∧
      ¬ Caveated u (joinEvidenceStatus records e failures)) ↔
    (u.text ≠ "" ∧ records.has (asciiLower u.text) = true ↔
      joined records u.text = true ∧ ∀ c ∈ claimedUris u.text, records.has c = true) := by
  rw [bound_iff cited, confirmed_iff cited, reported_iff cited]
  refine iff_congr Iff.rfl (and_congr_right fun fetched => ?_)
  exact and_iff_left (not_caveated fetched)

end

section

variable (L : Lowering) (records : RecordSet)

theorem bindRegistration_uri (r : Registration) : (bindRegistration L records r).uri = r.uri := by
  unfold bindRegistration
  split
  · rfl
  · split <;> rfl

theorem found_bindRegistration (r : Registration) :
    (bindRegistration L records r).found L records = r.found L records := by
  unfold Registration.found
  rw [bindRegistration_uri]

theorem Registration.fill_fill (r : Registration) (rec : RegisterRecord) :
    (r.fill rec).fill rec = r.fill rec := by
  unfold Registration.fill
  rw [Registration.mk.injEq]
  refine ⟨rfl, ?_, rfl, rfl, rfl, ?_, rfl⟩
  · cases rec.classes <;> rfl
  · cases rec.jurisdiction.filter (· ≠ "") <;> rfl

theorem Registration.strip_strip (r : Registration) : r.strip.strip = r.strip := by
  have empty : readsPending "" = false := by decide
  simp [Registration.strip, empty]

/-- A registration bound twice is bound once. -/
theorem bindRegistration_twice (r : Registration) :
    bindRegistration L records (bindRegistration L records r) = bindRegistration L records r := by
  have same := found_bindRegistration L records r
  have uri := bindRegistration_uri L records r
  conv_lhs => rw [bindRegistration, same, uri]
  rw [bindRegistration]
  cases r.found L records with
  | some rec => exact r.fill_fill rec
  | none =>
    by_cases uncited : r.uri = ""
    · simp [uncited]
    · simp [uncited, r.strip_strip]

theorem bindingOf_bindRegistration (r : Registration) :
    bindingOf L records (bindRegistration L records r) = bindingOf L records r := by
  unfold bindingOf
  rw [found_bindRegistration, bindRegistration_uri]

theorem fromRecords_bound (read : RegisterRecord → String) (regs : List Registration) :
    fromRecords L records read (regs.map (bindRegistration L records)) =
      fromRecords L records read regs := by
  unfold fromRecords
  rw [List.findSome?_map]
  congr 1
  funext r
  rw [Function.comp_apply, found_bindRegistration]

/-- A name that was chosen is chosen again. -/
theorem ownerDisplayName_twice (raw native name : Option String) :
    ownerDisplayName raw native (if ownerDisplayName raw native name ≠ "" then
      some (ownerDisplayName raw native name) else name) = ownerDisplayName raw native name := by
  have trimmed (s : Option String) : Text.trim (Text.trim (s.getD "")) = Text.trim (s.getD "") :=
    Text.trim_trim _
  unfold ownerDisplayName
  by_cases hr : Text.trim (raw.getD "") = "" <;> by_cases hn : Text.trim (native.getD "") = "" <;>
    by_cases hs : Text.trim (name.getD "") = "" <;> simp [hr, hn, hs, trimmed]

theorem bindOwner_twice (o : FindingOwner) :
    bindOwner L records (bindOwner L records o) = bindOwner L records o := by
  unfold bindOwner
  simp only [fromRecords_bound, List.map_map, FindingOwner.mk.injEq]
  generalize fromRecords L records RegisterRecord.ownerStr o.registrations = raw
  generalize fromRecords L records RegisterRecord.ownerNativeStr o.registrations = native
  refine ⟨?_, ?_, ?_, ?_⟩
  · rw [ownerDisplayName_twice]
    split <;> simp_all
  · cases raw <;> rfl
  · cases native <;> rfl
  · exact List.map_congr_left fun r _ => bindRegistration_twice L records r

/-- Binding twice gives what binding once gives. -/
theorem bindFindingsToRecords_twice (owners : List (Option FindingOwner)) :
    bindFindingsToRecords L records (bindFindingsToRecords L records owners).1 =
      bindFindingsToRecords L records owners := by
  unfold bindFindingsToRecords
  split
  · rfl
  · simp only [List.map_map, List.flatMap_map, Prod.mk.injEq]
    constructor
    · refine List.map_congr_left fun o _ => ?_
      cases o with
      | none => rfl
      | some o => exact congrArg some (bindOwner_twice L records o)
    · congr 1
      funext o
      cases o with
      | none => rfl
      | some o =>
        simp only [Option.map_some, Option.elim_some, bindOwner, List.filterMap_map]
        congr 1
        funext r
        exact bindingOf_bindRegistration L records r

end

section

variable (L : Lowering)

/-- A record that says nothing. -/
def blankRecord : RegisterRecord where
  classList := none
  niceClasses := none
  statusText := none
  onomaticsStatus := none
  corsearchStatusCode := none
  statusClass := none
  applicationDate := none
  expiryDate := none
  jurisdiction := none
  owner := none
  ownerName := none
  proprietor := none
  ownerNative := none
  applicantNameNative := none

/-- The set of records under some keys. -/
def recordsOf (keys : List String) (canonical : ∀ k ∈ keys, normalizeRecordUri k = some k) :
    RecordSet where
  entries := keys.map (·, blankRecord)
  canonical e mem := by
    obtain ⟨k, listed, rfl⟩ := List.mem_map.mp mem
    exact canonical k listed

theorem has_recordsOf {keys : List String} {canonical : ∀ k ∈ keys, normalizeRecordUri k = some k}
    {k : String} : (recordsOf keys canonical).has k = true ↔ k ∈ keys := by
  unfold RecordSet.has RecordSet.get recordsOf
  dsimp only
  clear canonical
  induction keys with
  | nil => simp
  | cons k' keys ih =>
    rw [List.map_cons, List.lookup_cons, List.mem_cons, ← ih]
    by_cases same : k = k'
    · simp [same]
    · simp [same, beq_false_of_ne same]

/-- A citation in each of its places, and nothing else. -/
def citingRegistration (u : String) : Registration :=
  ⟨u, [], none, none, none, none, false⟩

def citingMeter (u : String) : Meter :=
  ⟨"enforcement", some "high", some "verified-from-record", some u⟩

def citingEvidence (u : String) : Evidence := ⟨"", [u], [citingMeter u], none, false, false, none⟩

def citingBlock (u : String) : Block := ⟨"", "", u⟩

theorem uris_citingBlock (u : String) : (citingBlock u).uris = claimedUris u := by
  unfold Block.uris claimedUris citingBlock
  simp [grabUris, uriAt]

theorem citedBy_citing (u : Citation) :
    CitedBy u [some ⟨none, none, none, [citingRegistration u.text]⟩] (citingRegistration u.text)
      (citingEvidence u.text) (citingMeter u.text) (citingBlock u.text) where
  registration := ⟨_, List.mem_singleton_self _, List.mem_singleton_self _⟩
  uri := rfl
  card := List.mem_singleton_self _
  meter := List.mem_singleton_self _
  source := rfl
  known := (by decide : (some "high").getD "unknown" ≠ "unknown")
  verified := rfl
  unmirrored := rfl
  block c claimed := by rwa [uris_citingBlock]

/-- A citation that is its own key but for letter case, and does not end in a hyphen. -/
def IsKey (u : Citation) : Prop :=
  normalizeRecordUri u.text = some (asciiLower u.text) ∧ u.text.toList.getLast? ≠ some '-'

variable {L} {u : Citation}

theorem claimedUris_of_isKey (key : IsKey u) : claimedUris u.text = [asciiLower u.text] := by
  rw [claimedUris_of_own key.1, dropHyphen, if_neg]
  · rfl
  · rw [List.getLast?_map]
    intro hyphen
    obtain ⟨c, last, lower⟩ := Option.map_eq_some_iff.mp hyphen
    have own : c = '-' := by
      by_cases upper : c.isUpper = true
      · have range := isUpper_iff.mp upper
        have moved := toNat_toLower upper
        rw [lower] at moved
        have : ('-' : Char).toNat = 45 := rfl
        omega
      · rwa [toLower_of_not_upper upper] at lower
    exact key.2 (own ▸ last)

/-- The readers agree on a citation that names no record, and on one that is its key. -/
theorem agree_of_isKey (key : normalizeRecordUri u.text = none ∨ IsKey u) : ReadersAgree L u := by
  intro records failures owners r e m b cited
  rw [agree_iff cited]
  obtain unnamed | key := key
  · have never : ¬ records.has (asciiLower u.text) = true := fun has => by
      have := records.canonical_of_has has
      rw [normalizeRecordUri_lower, unnamed] at this
      cases this
    simp [never, joined, unnamed]
  · have named : u.text ≠ "" := by
      intro empty
      have own := key.1
      rw [empty] at own
      exact absurd own (by decide)
    simp [claimedUris_of_isKey key, joined, key.1, named]

/-- Where the readers agree whatever was fetched, the citation is its own key: the record it names
may have been fetched, with every path a document's check reads in it. -/
theorem own_of_agree {k : String} (own : normalizeRecordUri u.text = some k)
    (agree : ReadersAgree L u) : k = asciiLower u.text := by
  have canonical : ∀ c ∈ k :: claimedUris u.text, normalizeRecordUri c = some c := by
    intro c mem
    obtain rfl | claimed := List.mem_cons.mp mem
    · exact normalizeRecordUri_self own
    · exact normalizeRecordUri_of_claimed claimed
  have law := (agree_iff (citedBy_citing u)).mp
    (agree (recordsOf _ canonical) [] _ _ _ _ _ (citedBy_citing u))
  have found := law.mpr ⟨joined_iff.mpr ⟨k, own, has_recordsOf.mpr List.mem_cons_self⟩,
    fun c claimed => has_recordsOf.mpr (List.mem_cons_of_mem _ claimed)⟩
  have key := canonical _ (has_recordsOf.mp found.2)
  rw [normalizeRecordUri_lower, own] at key
  exact Option.some.inj key

theorem isKey_of_agree {k : String} (own : normalizeRecordUri u.text = some k)
    (agree : ReadersAgree L u) : IsKey u := by
  obtain rfl := own_of_agree own agree
  refine ⟨own, fun hyphen => ?_⟩
  have canonical : ∀ c ∈ [asciiLower u.text], normalizeRecordUri c = some c := by
    simpa using normalizeRecordUri_self own
  have law := (agree_iff (citedBy_citing u)).mp
    (agree (recordsOf _ canonical) [] _ _ _ _ _ (citedBy_citing u))
  have named : u.text ≠ "" := by
    intro empty
    rw [empty] at hyphen
    cases hyphen
  -- the record under the citation was fetched, and the check asks for one without the hyphen
  have fetched := (law.mp ⟨named, has_recordsOf.mpr (List.mem_singleton_self _)⟩).2
  rw [claimedUris_of_own own] at fetched
  have asked := List.mem_singleton.mp (has_recordsOf.mp (fetched _ (List.mem_singleton_self _)))
  have lengths := congrArg (fun s : String => s.toList.length) asked
  have last : (u.text.toList.map Char.toLower).getLast? = some '-' := by
    rw [List.getLast?_map, hyphen]
    rfl
  have some' : 0 < u.text.toList.length := List.length_pos_iff.mpr (by
    rintro empty
    rw [empty] at hyphen
    cases hyphen)
  simp only [dropHyphen, last, if_true, String.toList_ofList, List.length_dropLast,
    List.length_map, length_asciiLower] at lengths
  omega

variable (L)

/-- The readers find the same record for a citation, whatever was fetched, exactly where it names
none or is its record's key but for letter case, without a hyphen at its end; and binding twice
gives what binding once gives. -/
theorem readers_agree_iff (u : Citation) :
    (ReadersAgree L u ↔ normalizeRecordUri u.text = none ∨ IsKey u) ∧
    ∀ records owners, bindFindingsToRecords L records (bindFindingsToRecords L records owners).1 =
      bindFindingsToRecords L records owners := by
  refine ⟨⟨fun agree => ?_, agree_of_isKey⟩, bindFindingsToRecords_twice L⟩
  cases own : normalizeRecordUri u.text with
  | none => exact .inl rfl
  | some k => exact .inr (isKey_of_agree own agree)

/-- A record cited by its address. -/
def addressed : Citation where
  text := "https://tm.example.com/mark/ae/229552"
  ascii c mem := by
    have plain : ("https://tm.example.com/mark/ae/229552".toList.all (·.toNat < 128)) = true := by
      decide
    simpa using List.all_eq_true.mp plain c mem

end

def asciiLowering : Lowering where
  lower := asciiLower
  lower_ascii _ _ := rfl

/-- The fetched record joins the address, is not reported and not caveated, and is not bound. -/
theorem address_is_joined_not_bound : ¬ ReadersAgree asciiLowering addressed := by
  intro agree
  have canonical : ∀ c ∈ ["/mark/ae/229552"], normalizeRecordUri c = some c := by decide
  have law := (agree_iff (citedBy_citing addressed)).mp
    (agree (recordsOf _ canonical) [] _ _ _ _ _ (citedBy_citing addressed))
  have claimed : claimedUris addressed.text = ["/mark/ae/229552"] := by decide
  have own : normalizeRecordUri addressed.text = some "/mark/ae/229552" := by decide
  have found := law.mpr ⟨joined_iff.mpr ⟨_, own, has_recordsOf.mpr (List.mem_singleton_self _)⟩,
    fun c mem => has_recordsOf.mpr (claimed ▸ mem)⟩
  exact absurd (has_recordsOf.mp found.2) (by decide)

end Clearotron.Citations
