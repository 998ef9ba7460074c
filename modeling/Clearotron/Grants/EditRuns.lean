import Clearotron.Grants.Removals

/-!
# Edits of the guest list, one after the other

Giving access, removing a person and narrowing one each change one person, under a condition
on how often the file spells the address. Whatever the edits, a company is reached through its
organisation.
-/

namespace Clearotron

namespace Grants

variable {low : LowerCase} {e f email other place key k t : String} {g g' : Grants} {x : AccessPlace}
  {pt : GrantPoint} {points : List GrantPoint}

/-- What `withoutPerson` of everything does when it does not refuse. -/
theorem withoutPersonAll_ok (took : withoutPersonAll low g email = .ok g') :
    g' = { tenants := g.tenants.mapValues
             fun t => { t with users := strike low (addressOf low email) t.users }
           people := strike low (addressOf low email) g.people } := by
  unfold withoutPersonAll at took
  dsimp only [bind, Except.bind, pure, Except.pure] at took
  split at took
  · cases took
  · split at took
    · cases took
    · exact (Except.ok.inj took).symm

theorem tree_withoutPersonAll (took : withoutPersonAll low g email = .ok g') :
    g'.tree = g.tree := by
  rw [withoutPersonAll_ok took, tree, tree, Keyed.mapValues, List.map_map]
  rfl

/-- The rows that are left: those not struck. -/
theorem mem_rowsOf_withoutPersonAll {entry : UserEntry}
    (took : withoutPersonAll low g email = .ok g') : (t, entry) ∈ rowsOf low f g' ↔
      ∃ T key, (t, T) ∈ g.tenants.entries ∧
        (key, entry) ∈ (strike low (addressOf low email) T.users).entries ∧
        covers low f key = true := by
  rw [withoutPersonAll_ok took, mem_rowsOf]
  constructor
  · rintro ⟨U, key, there, row, isCovered⟩
    obtain ⟨⟨t', T⟩, mem, same⟩ := List.mem_map.mp there
    obtain ⟨rfl, rfl⟩ := Prod.mk.inj same
    exact ⟨T, key, mem, row, isCovered⟩
  · rintro ⟨T, key, there, row, isCovered⟩
    exact ⟨_, key, List.mem_map.mpr ⟨_, there, rfl⟩, row, isCovered⟩

theorem covers_of_apart (plain : isPattern (addressOf low email) = false)
    (apart : addressOf low other ≠ addressOf low email) :
    covers low (addressOf low other) (addressOf low email) = false := by
  rw [Bool.eq_false_iff, ne_eq, covers_self_iff plain]
  exact fun same => apart same.symm

theorem resolvePerson_withoutPersonAll (plain : isPattern (addressOf low email) = false)
    (took : withoutPersonAll low g email = .ok g')
    (apart : addressOf low other ≠ addressOf low email) :
    resolvePerson low other g' = resolvePerson low other g := by
  have away : ∀ key, low.lower key = addressOf low email →
      covers low (addressOf low other) key = false := fun key same =>
    (covers_of_lower lower_addressOf same).trans (covers_of_apart plain apart)
  refine resolvePerson_congr (tree_withoutPersonAll took) ?_ ?_
  · rw [withoutPersonAll_ok took]
    show switchesOf low _ (strike low _ g.people) = _
    unfold strike
    split
    · rename_i key _ found
      exact switchesOf_congr (away key (lower_of_spelled found).1)
        fun p other => Keyed.filter_erase other
    · rfl
  · rw [withoutPersonAll_ok took, rowsOf, rowsOf, Keyed.mapValues, List.flatMap_map]
    refine congrArg (fun h => g.tenants.entries.flatMap h) (funext fun t => ?_)
    rw [filter_strike away]

/-- A domain's pattern gives the address a place. -/
def PatternCovers (low : LowerCase) (e : String) (g : Grants) : Prop :=
  ∃ t T, (t, T) ∈ g.tenants.entries ∧ ∃ row ∈ T.users.entries,
    low.lower row.1 = "*@" ++ domainOf e ∧ ∃ x, RowGives (holders g) (t, row.2) x

/-- Of the address's own entries, those that are left when one of each section is struck give
nothing: no place, and not everything. -/
def NothingLeft (low : LowerCase) (e : String) (g : Grants) : Prop :=
  (∀ t T, (t, T) ∈ g.tenants.entries → ∀ row ∈ (strike low e T.users).entries,
    low.lower row.1 = e → ∀ x, ¬ RowGives (holders g) (t, row.2) x) ∧
  ∀ again ∈ spelled low e (strike low e g.people), again.2.everything = false

theorem everything_switchesOf {people : Keyed String Switches} :
    (switchesOf low e people).everything = false ↔
      ∀ first ∈ spelled low e people, first.2.everything = false := by
  unfold switchesOf
  cases spelled low e people with
  | some first => simp
  | none =>
    simp only [Option.mem_def, reduceCtorEq, false_implies, implies_true, iff_true]
    split <;> rfl

/-- A removed person is gone, unless another spelling or a pattern still gives them something. -/
theorem gone_withoutPersonAll (took : withoutPersonAll low g email = .ok g') :
    resolvePerson low email g' = none ∨ PatternCovers low (addressOf low email) g ↔
      isOneAddress (addressOf low email) = false ∨ NothingLeft low (addressOf low email) g ∨
        PatternCovers low (addressOf low email) g := by
  by_cases pattern : PatternCovers low (addressOf low email) g
  · simp [pattern]
  rw [or_iff_left pattern, or_iff_left pattern]
  cases one : isOneAddress (addressOf low email) with
  | false =>
    rw [resolvePerson_eq, one]
    simp
  | true =>
  have holders' := holders_eq_of_tree (tree_withoutPersonAll took)
  have people : g'.people = strike low (addressOf low email) g.people := by
    rw [withoutPersonAll_ok took]
  rw [resolvePerson_eq_none one, people, everything_switchesOf, and_comm, NothingLeft]
  simp only [reduceCtorEq, false_or]
  refine and_congr_left fun _ => ?_
  constructor
  · intro nowhere t T there row left isE x gives
    have reached : reaches low email g' x = true := by
      rw [reaches_iff, holders']
      exact ⟨one, _, (mem_rowsOf_withoutPersonAll took).mpr
        ⟨T, row.1, there, left, covers_iff.mpr (.inl isE)⟩, gives⟩
    rw [nowhere x] at reached
    cases reached
  · intro nothing x
    rw [← Bool.not_eq_true, reaches_iff, holders']
    rintro ⟨-, ⟨t, entry⟩, mem, gives⟩
    obtain ⟨T, key, there, row, isCovered⟩ := (mem_rowsOf_withoutPersonAll took).mp mem
    obtain isE | isPattern := covers_iff.mp isCovered
    · exact nothing t T there _ row isE x gives
    · exact pattern ⟨t, T, there, _, (mem_strike.mp row).1, isPattern, x, gives⟩

theorem withoutPersonPoints_ok (took : withoutPersonPoints low g email points = .ok g') :
    points.foldlM (takePoint low (addressOf low email)) g = .ok g' := by
  unfold withoutPersonPoints at took
  dsimp only at took
  by_cases empty : addressOf low email = ""
  · rw [if_pos empty] at took
    cases took
  rw [if_neg empty] at took
  by_cases none : points = []
  · rw [if_pos none] at took
    cases took
  rw [if_neg none] at took
  by_cases all : (personPoints low g (addressOf low email)).switches.everything = true
  · rw [if_pos all] at took
    cases took
  rw [if_neg all] at took
  cases taken : points.foldlM (takePoint low (addressOf low email)) g with
  | error message =>
    rw [taken] at took
    cases took
  | ok g₁ =>
  rw [taken] at took
  dsimp only [bind, Except.bind, pure, Except.pure] at took
  split at took
  · cases took
  · exact took

theorem resolvePerson_withoutPersonPoints (plain : isPattern (addressOf low email) = false)
    (took : withoutPersonPoints low g email points = .ok g')
    (apart : addressOf low other ≠ addressOf low email) :
    resolvePerson low other g' = resolvePerson low other g := by
  obtain ⟨keeps, -⟩ := takePoints lower_addressOf (withoutPersonPoints_ok took)
  refine resolvePerson_congr keeps.tree (by rw [keeps.people]) ?_
  exact keeps.others _ (covers_of_apart plain apart)

/-- The address reaches what it reached, without what the points name. -/
def LosesExactly (low : LowerCase) (email : String) (g g' : Grants) (points : List GrantPoint) :
    Prop :=
  ∀ x, reaches low email g' x = true ↔
    reaches low email g x = true ∧ ∀ pt ∈ points, ¬ PointGives g pt x

theorem soleRow_iff (accepted : assertGrantsShape g place = .ok ()) :
    SoleRow low e (holders g) g pt ↔ Sole low e g pt := by
  unfold SoleRow Sole
  simp only [rowGives_pointRow accepted]

theorem losesExactly_of_sole (accepted : assertGrantsShape g place = .ok ())
    (took : withoutPersonPoints low g email points = .ok g')
    (sole : ∀ pt ∈ points, Sole low (addressOf low email) g pt) :
    LosesExactly low email g g' points := by
  obtain ⟨keeps, fewer, spares, gone⟩ := takePoints lower_addressOf (withoutPersonPoints_ok took)
  intro x
  rw [reaches_iff, reaches_iff, holders_eq_of_tree keeps.tree]
  simp only [← rowGives_pointRow accepted]
  constructor
  · rintro ⟨one, gives⟩
    refine ⟨⟨one, fewer _ x gives⟩, fun pt mem named => ?_⟩
    exact gone _ (fun q mem' => (soleRow_iff accepted).mpr (sole q mem')) pt mem x named gives
  · rintro ⟨⟨one, gives⟩, unnamed⟩
    exact ⟨one, spares _ x gives unnamed⟩

theorem sole_of_losesExactly (one : isOneAddress (addressOf low email) = true)
    (took : withoutPersonPoints low g email [pt] = .ok g')
    (loses : LosesExactly low email g g' [pt]) : Sole low (addressOf low email) g pt := by
  have taken := withoutPersonPoints_ok took
  rw [List.foldlM_cons] at taken
  cases first : takePoint low (addressOf low email) g pt with
  | error message =>
    rw [first] at taken
    cases taken
  | ok g₁ =>
  rw [first] at taken
  obtain rfl := Except.ok.inj taken
  have point := takesPoint lower_addressOf first
  intro T get row left isCovered x named gives
  have reached : reaches low email g₁ x = true := by
    rw [reaches_iff, holders_eq_of_tree point.keeps.tree]
    exact ⟨one, _, point.leaves T get row left isCovered, gives⟩
  exact ((loses x).mp reached).2 pt (by simp) named

inductive GrantsEdit
  | give (email : String) (points : List GrantPoint) (switches : Switches) (setSwitches : Bool)
  | remove (email : String)
  | narrow (email : String) (points : List GrantPoint)

def applyEdit (low : LowerCase) (g : Grants) : GrantsEdit → Except String Grants
  | .give email points switches setSwitches =>
    withPerson low g email points switches setSwitches
  | .remove email => withoutPersonAll low g email
  | .narrow email points => withoutPersonPoints low g email points

/-- The organisation that lists the company is held whole by a key of the address, or the
company itself is. -/
def HoldsCompany (low : LowerCase) (e : String) (g : Grants) (k : String) : Prop :=
  ∃ t T, (t, T) ∈ g.tenants.entries ∧ k ∈ T.accounts ∧ ∃ row ∈ T.users.entries,
    covers low e row.1 = true ∧
      (row.2 = .whole ∨ ∃ keys, row.2 = .companies keys ∧ k ∈ keys)

theorem holdsCompany_of_reaches (reached : reaches low email g (.company k) = true) :
    HoldsCompany low (addressOf low email) g k := by
  obtain ⟨-, ⟨t, entry⟩, mem, holder, gives⟩ := reaches_iff.mp reached
  obtain ⟨T, get, held⟩ := holds_of_holder holder
  obtain ⟨T', key, there, row, isCovered⟩ := mem_rowsOf.mp mem
  obtain rfl := Keyed.value_unique (Keyed.get_eq_some.mp get) there
  exact ⟨t, T, there, held, _, row, isCovered, gives⟩

/-- Edits of an accepted file, of an address that names one person. Giving adds what the points
name; the switches set are held when no earlier spelling holds others. Removing leaves nobody
when only one spelling gives anything, and a narrowing takes what it names when no other entry
gives it. Nobody else is changed, and no run of edits reaches a company past its organisation. -/
theorem edits_change_one_person (accepted : assertGrantsShape g place = .ok ())
    (plain : isPattern (addressOf low email) = false) :
    (∀ points switches set g', withPerson low g email points switches set = .ok g' →
      (∀ x, reaches low email g' x = true ↔
        reaches low email g x = true ∨ ∃ pt ∈ points, PointGives g pt x) ∧
      (∀ other, addressOf low other ≠ addressOf low email →
        resolvePerson low other g' = resolvePerson low other g) ∧
      (set = true → (heldBy (resolvePerson low email g') = switches ↔
        (∀ first ∈ spelled low (addressOf low email) g.people,
          first.1 = addressOf low email ∨ first.2 = switches ∨
            (switches = {} ∧ first.2.everything = false ∧
              ∀ x, reaches low email g x = false ∧ ∀ pt ∈ points, ¬ PointGives g pt x)) ∧
        (switches = {} ∨ switches.everything = true ∨
          ∃ x, reaches low email g x = true ∨ ∃ pt ∈ points, PointGives g pt x)))) ∧
    (∀ g', withoutPersonAll low g email = .ok g' →
      (∀ other, addressOf low other ≠ addressOf low email →
        resolvePerson low other g' = resolvePerson low other g) ∧
      (resolvePerson low email g' = none ∨ PatternCovers low (addressOf low email) g ↔
        isOneAddress (addressOf low email) = false ∨ NothingLeft low (addressOf low email) g ∨
          PatternCovers low (addressOf low email) g)) ∧
    (∀ points g', withoutPersonPoints low g email points = .ok g' →
      (∀ other, addressOf low other ≠ addressOf low email →
        resolvePerson low other g' = resolvePerson low other g) ∧
      ((∀ pt ∈ points, Sole low (addressOf low email) g pt) →
        LosesExactly low email g g' points) ∧
      ∀ pt, points = [pt] → isOneAddress (addressOf low email) = true →
        LosesExactly low email g g' points → Sole low (addressOf low email) g pt) ∧
    (∀ g'' p x, resolvePerson low email g'' = some p → p.everything = false →
      p.sees x = reaches low email g'' x) ∧
    ∀ (edits : List GrantsEdit) g', edits.foldlM (applyEdit low) g = .ok g' → ∀ who p k,
      resolvePerson low who g' = some p → p.everything = false → p.sees (.company k) = true →
        HoldsCompany low (addressOf low who) g' k := by
  refine ⟨?_, ?_, ?_, ?_, ?_⟩
  · intro points switches set g' gave
    refine ⟨fun x => reaches_withPerson accepted gave,
      fun other apart => resolvePerson_withPerson plain gave apart, ?_⟩
    rintro rfl
    exact heldBy_withPerson accepted gave
  · intro g' took
    exact ⟨fun other apart => resolvePerson_withoutPersonAll plain took apart,
      gone_withoutPersonAll took⟩
  · intro points g' took
    refine ⟨fun other apart => resolvePerson_withoutPersonPoints plain took apart,
      losesExactly_of_sole accepted took, ?_⟩
    rintro pt rfl one loses
    exact sole_of_losesExactly one took loses
  · intro g'' p x is bounded
    exact sees_resolvePerson is bounded
  · intro edits g' _ who p k is bounded sees
    rw [sees_resolvePerson is bounded] at sees
    exact holdsCompany_of_reaches sees

/-- Lower case of plain ASCII. -/
def plainLower : LowerCase where
  lower := asciiLower
  empty := rfl
  idem := asciiLower_asciiLower
  trims s := by
    apply String.toList_injective
    rw [trim_asciiLower, Text.trim_trim, asciiLower, String.toList_ofList]

def acme (users : List (String × UserEntry)) (nodup : (users.map Prod.fst).Nodup)
    (people : Keyed String Switches) : Grants where
  tenants := Keyed.empty.set "acme"
    { accounts := ["acme-eu", "acme-us"], users := ⟨users, nodup⟩ }
  people := people

/-- A file that spells everyone once. -/
def onceSpelled : Grants :=
  acme [("tom@x.example", .companies ["acme-eu"])] (by decide) (Keyed.empty.set "tom@x.example" {})

theorem edits_change_one_person_sample :
    ∃ g', withPerson plainLower onceSpelled "Tom@x.example" [⟨"acme", some "acme-us"⟩] {} false =
        .ok g' ∧ reaches plainLower "Tom@x.example" g' (.company "acme-us") = true := by
  have gave : (withPerson plainLower onceSpelled "Tom@x.example" [⟨"acme", some "acme-us"⟩] {}
      false).isOk = true := by decide +kernel
  cases made : withPerson plainLower onceSpelled "Tom@x.example" [⟨"acme", some "acme-us"⟩] {}
      false with
  | error message =>
    rw [made] at gave
    cases gave
  | ok g' =>
    have accepted : assertGrantsShape onceSpelled "file" = .ok () := by decide +kernel
    have plain : isPattern (addressOf plainLower "Tom@x.example") = false := by decide +kernel
    have edits := edits_change_one_person accepted plain
    refine ⟨g', rfl, ((edits.1 _ _ _ g' made).1 _).mpr (.inr ⟨_, List.mem_singleton_self _, ?_⟩)⟩
    exact ⟨by decide +kernel, ⟨_, List.mem_singleton_self _, by decide +kernel⟩, .inr rfl⟩

/-- A file that spells one address twice. -/
def twiceSpelled : Grants :=
  acme [("Dana@x.example", .whole), ("dana@x.example", .companies ["acme-eu"])] (by decide)
    (Keyed.empty.set "Dana@x.example" { run := true })

/-- She is removed, and still resolves; her company is taken, and she reaches it; her switches
are set, and she holds the old ones. -/
theorem second_spelling_stays :
    ((withoutPersonAll plainLower twiceSpelled "dana@x.example").toOption.map fun g =>
        (resolvePerson plainLower "dana@x.example" g).isSome) = some true ∧
      ((withoutPersonPoints plainLower twiceSpelled "dana@x.example" [⟨"acme", none⟩]).toOption.map
        fun g => reaches plainLower "dana@x.example" g (.company "acme-eu")) = some true ∧
      ((withPerson plainLower twiceSpelled "dana@x.example" [] { manage := true } true).toOption.map
        fun g => heldBy (resolvePerson plainLower "dana@x.example" g)) = some { run := true } := by
  decide +kernel

end Grants

end Clearotron
