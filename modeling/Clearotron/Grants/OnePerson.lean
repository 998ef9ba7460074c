import Clearotron.Recall.Cases
import Clearotron.Grants.Edits

/-!
# An edit changes one person

What an edit names and what the resolver reads are one thing while an address is spelled once.
With a second spelling in the file, switches may be written that the first spelling hides, and
a removal may leave a row that still gives what was taken away.
-/

namespace Clearotron

namespace Grants

variable {low : LowerCase} {e f email place key k t : String} {g g' : Grants} {x : AccessPlace}
  {T : Tenant} {entry : UserEntry} {pt : GrantPoint} {points : List GrantPoint}
  {switches : Switches}

/-- The places a point names: the organisation and every company it holds, or the company. -/
def PointGives (g : Grants) (pt : GrantPoint) : AccessPlace → Prop
  | .organisation t => pt = { tenant := t }
  | .company k => k ≠ "generic" ∧
      (∃ T, (pt.tenant, T) ∈ g.tenants.entries ∧ k ∈ T.accounts) ∧
      (pt.account = none ∨ pt.account = some k)

theorem nodup_of_heldTwice {holder rest : List (String × String)}
    (once : heldTwice holder rest = none) (nodup : (holder.map Prod.fst).Nodup) :
    ((holder ++ rest).map Prod.fst).Nodup := by
  induction rest generalizing holder with
  | nil => simpa using nodup
  | cons entry rest ih =>
    obtain ⟨a, t⟩ := entry
    unfold heldTwice at once
    cases found : holder.lookup a with
    | some first =>
      rw [found] at once
      cases once
    | none =>
      rw [found] at once
      have fresh : a ∉ holder.map Prod.fst := by
        intro mem
        obtain ⟨⟨a', t'⟩, there, rfl⟩ := List.mem_map.mp mem
        simpa using List.lookup_eq_none_iff.mp found _ there
      have step := ih once (by
        rw [List.map_append]
        exact List.Nodup.append nodup (List.nodup_singleton a) (by simpa using fresh))
      rwa [List.append_assoc, List.singleton_append] at step

/-- In a file that is accepted a company is held by the organisation that lists it. -/
theorem get_holders_iff (accepted : assertGrantsShape g place = .ok ()) :
    (holders g).get k = some t ↔
      k ≠ "generic" ∧ ∃ T, (t, T) ∈ g.tenants.entries ∧ k ∈ T.accounts := by
  have once : heldTwice [] (listed g) = none := by
    unfold assertGrantsShape at accepted
    split at accepted
    · cases accepted
    · rename_i none
      exact none
  have nodup := nodup_of_heldTwice once List.nodup_nil
  rw [List.nil_append] at nodup
  have isMember : (holders g).get k = some t ↔ (k, t) ∈ listed g := by
    rw [get_holders]
    exact Keyed.get_eq_some (m := ⟨listed g, nodup⟩)
  rw [isMember, mem_listed]
  constructor
  · rintro ⟨T, there, held, company⟩
    exact ⟨company, T, there, held⟩
  · rintro ⟨company, T, there, held⟩
    exact ⟨T, there, held, company⟩

theorem rowGives_pointRow (accepted : assertGrantsShape g place = .ok ()) :
    RowGives (holders g) (pointRow pt) x ↔ PointGives g pt x := by
  obtain ⟨tenant, account⟩ := pt
  cases account with
  | none =>
    cases x with
    | organisation t => simp [RowGives, pointRow, PointGives]
    | company k => simp [RowGives, pointRow, PointGives, get_holders_iff accepted]
  | some account =>
    cases x with
    | organisation t => simp [RowGives, pointRow, PointGives]
    | company k =>
      simp only [RowGives, pointRow, PointGives, get_holders_iff accepted]
      simp [and_assoc, eq_comm]

theorem lower_addressOf : low.lower (addressOf low email) = addressOf low email := low.idem _

theorem covers_self_iff (plain : isPattern (addressOf low email) = false) :
    covers low f (addressOf low email) = true ↔ addressOf low email = f :=
  covers_of_plain lower_addressOf plain

/-- What `withPerson` does when it does not refuse. -/
theorem withPerson_ok {set : Bool} (gave : withPerson low g email points switches set = .ok g') :
    isOneAddress (addressOf low email) = true ∧
      ∃ given, points.foldlM (givePoint (addressOf low email)) g = .ok given ∧
        g' = if set then
          { given with people := given.people.set (addressOf low email) switches } else given := by
  unfold withPerson at gave
  dsimp only at gave
  cases one : isOneAddress (addressOf low email) with
  | false =>
    rw [one, if_pos rfl] at gave
    cases gave
  | true =>
  rw [one, if_neg (by simp)] at gave
  cases given : points.foldlM (givePoint (addressOf low email)) g with
  | error message =>
    rw [given] at gave
    cases gave
  | ok g₁ =>
  rw [given] at gave
  refine ⟨rfl, g₁, rfl, ?_⟩
  dsimp only [bind, Except.bind, pure, Except.pure] at gave
  split at gave
  · cases gave
  · exact (Except.ok.inj gave).symm

theorem covers_self : covers low (addressOf low email) (addressOf low email) = true :=
  covers_iff.mpr (.inl lower_addressOf)

/-- The address reaches what it reached and what the points name. -/
theorem reaches_withPerson {set : Bool} (accepted : assertGrantsShape g place = .ok ())
    (gave : withPerson low g email points switches set = .ok g') :
    reaches low email g' x = true ↔
      reaches low email g x = true ∨ ∃ pt ∈ points, PointGives g pt x := by
  obtain ⟨one, given, points', rfl⟩ := withPerson_ok gave
  obtain ⟨kept, gives⟩ : KeepsOthers low (addressOf low email) g given ∧ _ := givePoints_give points'
  have holders' : holders given = holders g := holders_eq_of_tree kept.tree
  have guests' : reaches low email (if set then
      { given with people := given.people.set (addressOf low email) switches } else given) x =
        reaches low email given x := by
    cases set <;> rfl
  rw [guests', reaches_iff, reaches_iff, holders', gives (holders g) _ x covers_self]
  simp only [one, true_and, rowGives_pointRow accepted]

/-- Nobody else is changed. -/
theorem resolvePerson_withPerson {set : Bool} {other : String}
    (plain : isPattern (addressOf low email) = false)
    (gave : withPerson low g email points switches set = .ok g')
    (apart : addressOf low other ≠ addressOf low email) :
    resolvePerson low other g' = resolvePerson low other g := by
  obtain ⟨-, given, points', rfl⟩ := withPerson_ok gave
  have kept : KeepsOthers low (addressOf low email) g given := (givePoints_give points').1
  have away : covers low (addressOf low other) (addressOf low email) = false := by
    rw [Bool.eq_false_iff, ne_eq, covers_self_iff plain]
    exact fun same => apart same.symm
  have rows := kept.others _ away
  cases set with
  | false => exact resolvePerson_congr kept.tree (by rw [if_neg (by simp), kept.people]) rows
  | true =>
    refine resolvePerson_congr kept.tree ?_ rows
    have written : switchesOf low (addressOf low other)
        (given.people.set (addressOf low email) switches) =
          switchesOf low (addressOf low other) given.people :=
      switchesOf_congr away fun p other => Keyed.filter_write other
    exact written.trans (by rw [kept.people])

/-- Written switches are held where they are the ones read, and there is a person to hold them. -/
theorem held_iff (read written : Switches) {somewhere : Prop} :
    ((read.everything = true ∨ somewhere → read = written) ∧
        (¬ (read.everything = true ∨ somewhere) → {} = written)) ↔
      (read = written ∨ (written = {} ∧ read.everything = false ∧ ¬ somewhere)) ∧
        (written = {} ∨ written.everything = true ∨ somewhere) := by
  by_cases there : somewhere
  · simp [there]
  · cases all : read.everything with
    | true =>
      simp only [there, true_implies, not_true_eq_false, false_implies, and_true, or_false,
        reduceCtorEq, false_and, and_false]
      constructor
      · rintro rfl
        exact ⟨rfl, .inr all⟩
      · exact And.left
    | false =>
      simp only [there, or_false, reduceCtorEq, not_false_eq_true, and_true, true_and,
        false_implies, true_implies]
      constructor
      · rintro rfl
        exact ⟨.inr rfl, .inl rfl⟩
      · rintro ⟨rfl | none, none' | all'⟩
        · exact none'.symm
        · rw [all'] at all
          cases all
        · exact none'.symm
        · exact none.symm

/-- The switches that are set are held exactly when no other spelling hides them and there is
a person to hold them. -/
theorem heldBy_withPerson (accepted : assertGrantsShape g place = .ok ())
    (gave : withPerson low g email points switches true = .ok g') :
    heldBy (resolvePerson low email g') = switches ↔
      (∀ first ∈ spelled low (addressOf low email) g.people,
        first.1 = addressOf low email ∨ first.2 = switches ∨
          (switches = {} ∧ first.2.everything = false ∧
            ∀ x, reaches low email g x = false ∧ ∀ pt ∈ points, ¬ PointGives g pt x)) ∧
      (switches = {} ∨ switches.everything = true ∨
        ∃ x, reaches low email g x = true ∨ ∃ pt ∈ points, PointGives g pt x) := by
  have somewhere : (∃ x, reaches low email g' x = true) ↔
      ∃ x, reaches low email g x = true ∨ ∃ pt ∈ points, PointGives g pt x :=
    exists_congr fun x => reaches_withPerson accepted gave
  have nowhere : (∀ x, reaches low email g x = false ∧ ∀ pt ∈ points, ¬ PointGives g pt x) ↔
      ¬ ∃ x, reaches low email g x = true ∨ ∃ pt ∈ points, PointGives g pt x := by
    rw [not_exists]
    refine forall_congr' fun x => ?_
    simp only [not_or, not_exists, not_and, Bool.not_eq_true]
  obtain ⟨one, given, points', made⟩ := withPerson_ok gave
  have kept : KeepsOthers low (addressOf low email) g given := (givePoints_give points').1
  have people : g'.people = g.people.set (addressOf low email) switches := by
    rw [made, if_pos rfl, kept.people]
  have same : low.lower (addressOf low email) = addressOf low email := lower_addressOf
  have read : switchesOf low (addressOf low email)
      (g.people.set (addressOf low email) switches) = _ := switchesOf_set_self same
  rw [heldBy_resolvePerson one, nowhere, somewhere, people]
  generalize (∃ x, reaches low email g x = true ∨ ∃ pt ∈ points, PointGives g pt x) = there
  rw [read]
  cases spelled low (addressOf low email) g.people with
  | none => simpa using held_iff switches switches
  | some first =>
    obtain ⟨k, old⟩ := first
    simp only [Option.mem_def, Option.some.injEq, forall_eq']
    by_cases own : k = addressOf low email
    · simpa [own] using held_iff switches switches
    · simpa [own] using held_iff old switches

end Grants

end Clearotron
