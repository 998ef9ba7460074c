import Clearotron.Synthesis.Rows

/-!
# What a repair changes

A patch that carries no findings object, or one read as registers, changes what it names:
the findings of its rows, the sections and the registers it carries, and the findings a
correction may add. Read first or not, and sent once or twice, it comes to the same.
-/

namespace Clearotron

namespace Synthesis

section

variable {X : JsonRuntime} {list : List Json}

theorem holdsOrdinal_eq_false {n : Nat} : holdsOrdinal list n = false ↔ findingAt list n = none := by
  rw [findingAt_eq_none]
  simp [holdsOrdinal]

/-- The row is a finding of its own for the position, which nothing delivers. -/
structure Adds (X : JsonRuntime) (list : List Json) (positions : List (List String))
    (delivered : List String) (r : Json) (position : List String) : Prop where
  fresh : ∃ n, rowOrdinal r = some n ∧ holdsOrdinal list n = false
  live : isLive r = true
  allowed : position ∈ positions
  named : ∃ u ∈ position, u ∈ findingUris X r
  undelivered : ∀ u ∈ position, u ∉ delivered

variable (list) in
theorem Additions.row_cases (positions : List (List String)) (a : Additions) (ri : Json × Nat) :
    a.row X list positions ri = a ∨
      ∃ position, Adds X list positions a.delivered ri.1 position ∧
        a.row X list positions ri = ⟨a.rows ++ [ri.2], a.delivered ++ position⟩ := by
  unfold Additions.row
  cases own : rowOrdinal ri.1 with
  | none => exact .inl rfl
  | some n =>
      dsimp only
      split
      · exact .inl rfl
      · rename_i may
        simp only [Bool.or_eq_true, Bool.not_eq_true', not_or, Bool.not_eq_true,
          Bool.not_eq_false] at may
        cases found : positions.find? fun position =>
            position.any (· ∈ findingUris X ri.1) with
        | none => exact .inl rfl
        | some position =>
            dsimp only
            split
            · exact .inl rfl
            · rename_i undelivered
              have names := List.find?_some found
              refine .inr ⟨position, ⟨⟨n, own, may.1⟩, may.2, List.mem_of_find?_eq_some found, ?_, ?_⟩,
                rfl⟩
              · simpa using names
              · simpa using undelivered

variable (list) in
/-- Every row that adds a finding is for a position of its own. -/
theorem additions_run (positions : List (List String)) (items : List (Json × Nat))
    (a : Additions) :
    ∃ chosen : List ((Json × Nat) × List String),
      (items.foldl (Additions.row X list positions) a).rows =
          a.rows ++ chosen.map (fun c => c.1.2) ∧
        (∀ c ∈ chosen, c.1 ∈ items ∧ Adds X list positions a.delivered c.1.1 c.2) ∧
        chosen.Pairwise fun c d => ∀ u ∈ c.2, u ∉ d.2 := by
  induction items generalizing a with
  | nil => exact ⟨[], by simp, by simp, .nil⟩
  | cons ri rest ih =>
      rw [List.foldl_cons]
      obtain same | ⟨position, adds, next⟩ :=
        Additions.row_cases (X := X) list positions a ri
      · rw [same]
        obtain ⟨chosen, rows, each, apart⟩ := ih a
        exact ⟨chosen, rows, fun c mem => ⟨List.mem_cons_of_mem _ (each c mem).1, (each c mem).2⟩, apart⟩
      · rw [next]
        obtain ⟨chosen, rows, each, apart⟩ := ih ⟨a.rows ++ [ri.2], a.delivered ++ position⟩
        refine ⟨(ri, position) :: chosen, by rw [rows]; simp, fun c mem => ?_,
          List.pairwise_cons.mpr ⟨fun c mem u there there' => ?_, apart⟩⟩
        · obtain rfl | mem := List.mem_cons.mp mem
          · exact ⟨List.mem_cons_self, adds⟩
          · obtain ⟨among, later⟩ := each c mem
            refine ⟨List.mem_cons_of_mem _ among, { later with undelivered := fun u named held => ?_ }⟩
            exact later.undelivered u named (List.mem_append_left _ held)
        · exact (each c mem).2.undelivered u there' (List.mem_append_right _ there)

/-- The rows that add a finding, with their positions. -/
theorem additionsOf_spec (rows : List Json) (positions : Option (List (List String))) :
    ∃ chosen : List (Json × List String),
      (∀ c ∈ chosen, c.1 ∈ rows ∧ Adds X list (positions.getD [])
          (((replacedBy list rows).filter isLive).flatMap (findingUris X)) c.1 c.2) ∧
        (chosen.Pairwise fun c d => ∀ u ∈ c.2, u ∉ d.2) ∧
        ∀ ri ∈ rows.zipIdx, ri.2 ∈ additionsOf X list rows positions → ∃ c ∈ chosen, c.1 = ri.1 := by
  obtain ⟨chosen, places, each, apart⟩ := additions_run (X := X) list (positions.getD [])
    rows.zipIdx { delivered := ((replacedBy list rows).filter isLive).flatMap (findingUris X) }
  refine ⟨chosen.map fun c => (c.1.1, c.2), fun c mem => ?_, List.pairwise_map.mpr apart, ?_⟩
  · obtain ⟨c, picked, rfl⟩ := List.mem_map.mp mem
    obtain ⟨among, adds⟩ := each c picked
    exact ⟨List.mem_of_getElem? (List.mk_mem_zipIdx_iff_getElem?.mp among), adds⟩
  · rintro ⟨r, i⟩ mem added
    unfold additionsOf at added
    rw [places] at added
    rw [List.nil_append] at added
    obtain ⟨⟨⟨r', i'⟩, position⟩, among, rfl⟩ := List.mem_map.mp added
    refine ⟨_, List.mem_map_of_mem among, ?_⟩
    have here := List.mk_mem_zipIdx_iff_getElem?.mp (each _ among).1
    have there := List.mk_mem_zipIdx_iff_getElem?.mp mem
    exact Option.some.inj (here.symm.trans there)

/-- What a call that reads as registers carries. -/
structure RegisterShape (X : JsonRuntime) (stored : StoredCall) (doc call : Keyed String Json) :
    Prop where
  noList : doc.get "findings" = none
  sections : ∀ v, call.get "narrative" = some v → v.isPlainObject = true ∧
    (v.parts.entries.all fun kv => isSection kv.1 kv.2) = true
  docKeys : ∀ k ∈ doc.keys, registerKey stored k = true
  callKeys : ∀ k ∈ call.keys, k = "narrative" ∨ k = "findings" ∨ registerKey stored k = true
  envelope : ∀ k ∈ envelopeKeys, ∀ v, doc.get k = some v ∨ call.get k = some v →
    ∃ w, stored.findings.get k = some w ∧ v.sameValue w = true
  docMarker : isMarker X (doc.get "corrections") = true
  callMarker : isMarker X (call.get "corrections") = true
  alike : ∀ k v w, doc.get k = some v → k ≠ "findings_patch" → call.get k = some w →
    (asRead X k v).sameValue (asRead X k w) = true

theorem registerShape_iff {stored : StoredCall} {doc call : Keyed String Json} :
    registerShape X stored doc call = true ↔ RegisterShape X stored doc call := by
  have noList : (doc.get "findings").isNone = true ↔ doc.get "findings" = none :=
    Option.isNone_iff_eq_none
  have both (p : Keyed String Json → Bool) :
      [doc, call].all p = true ↔ p doc = true ∧ p call = true := by simp
  have held (o : Option Json) (p : Json → Bool) : o.all p = true ↔ ∀ v, o = some v → p v = true := by
    cases o <;> simp
  have given (o : Option Json) (p : Json → Bool) :
      o.any p = true ↔ ∃ v, o = some v ∧ p v = true := by
    cases o <;> simp
  unfold registerShape
  simp only [Bool.and_eq_true, noList, both, held, given, List.all_eq_true, Bool.or_eq_true,
    decide_eq_true_eq]
  constructor
  · rintro ⟨⟨⟨⟨⟨⟨none, sections⟩, docKeys⟩, callKeys⟩, envelope⟩, docMarker, callMarker⟩, alike⟩
    refine ⟨none, ?_, docKeys, fun k mem => or_assoc.mp (callKeys k mem), ?_, docMarker, callMarker, ?_⟩
    · intro v sent
      simpa using sections v sent
    · rintro k mem v (sent | sent)
      · exact (envelope k mem).1 v sent
      · exact (envelope k mem).2 v sent
    · intro k v w sent other beside
      obtain same | alike := alike (k, v) (Keyed.get_eq_some.mp sent)
      · exact absurd same other
      · exact alike w beside
  · intro shape
    refine ⟨⟨⟨⟨⟨⟨shape.noList, ?_⟩, shape.docKeys⟩,
      fun k mem => or_assoc.mpr (shape.callKeys k mem)⟩, ?_⟩, shape.docMarker, shape.callMarker⟩, ?_⟩
    · intro v sent
      simpa using shape.sections v sent
    · exact fun k mem => ⟨fun v sent => shape.envelope k mem v (.inl sent),
        fun v sent => shape.envelope k mem v (.inr sent)⟩
    · rintro ⟨k, v⟩ mem
      by_cases rows : k = "findings_patch"
      · exact .inl rows
      · exact .inr fun w beside => shape.alike k v w (Keyed.get_eq_some.mpr mem) rows beside

/-- A call reads as registers in all its parts. -/
structure ReadsAs (X : JsonRuntime) (stored : StoredCall) (call : Keyed String Json)
    (positions : Option (List (List String))) (p : RegisterPatch) (doc : Keyed String Json)
    (top : Option (List Json)) : Prop where
  isDoc : (call.get "findings").bind Json.asObject = some doc
  shape : RegisterShape X stored doc call
  isTop : topRows call = some top
  lift : liftNestedRows top (doc.get "findings_patch") = some (p.rows, p.lifted)
  aim : rowsAim (listOf stored.findings) (top.getD [])
    (additionsOf X (listOf stored.findings) (p.rows.getD []) positions) = true
  registers : p.registers = doc.erase "findings_patch"

theorem registerPatchOf_iff {stored : StoredCall} {call : Keyed String Json}
    {positions : Option (List (List String))} {p : RegisterPatch} :
    registerPatchOf X stored call positions = some p ↔
      ∃ doc top, ReadsAs X stored call positions p doc top := by
  constructor
  · intro is
    unfold registerPatchOf at is
    cases isDoc : (call.get "findings").bind Json.asObject with
    | none => simp [isDoc] at is
    | some doc =>
        simp only [isDoc] at is
        split at is
        · rename_i shape
          cases isTop : topRows call with
          | none => simp [isTop] at is
          | some top =>
              simp only [isTop] at is
              cases lift : liftNestedRows top (doc.get "findings_patch") with
              | none => simp [lift] at is
              | some lifted =>
                  simp only [lift] at is
                  split at is
                  · rename_i aim
                    obtain rfl := Option.some.inj is
                    exact ⟨doc, top, isDoc, registerShape_iff.mp shape, isTop, lift, aim, rfl⟩
                  · cases is
        · cases is
  · rintro ⟨doc, top, reads⟩
    obtain ⟨registers, rows, lifted⟩ := p
    have aim := reads.aim
    have registers := reads.registers
    dsimp only at aim registers
    unfold registerPatchOf
    simp [reads.isDoc, registerShape_iff.mpr reads.shape, reads.isTop, reads.lift, aim, registers]

theorem isPlainObject_of_decoded {s : String} {x : Json} (decoded : decodedMarker X s = some x) :
    x.isPlainObject = true := (Option.filter_eq_some_iff.mp decoded).2

theorem asRead_of_plain {k : String} {v : Json} (plain : v.isPlainObject = true) :
    asRead X k v = v := by
  cases v with
  | obj fields => rfl
  | _ => cases plain

/-- The same fields, with a marker perhaps as the transport reads it. -/
structure AsRead (X : JsonRuntime) (o o' : Keyed String Json) : Prop where
  keys : o'.keys = o.keys
  others : ∀ k, k ≠ "corrections" → o'.get k = o.get k
  marker : (o'.get "corrections").map (asRead X "corrections") =
    (o.get "corrections").map (asRead X "corrections")
  isMarker : isMarker X (o.get "corrections") = true → isMarker X (o'.get "corrections") = true

theorem AsRead.refl (o : Keyed String Json) : AsRead X o o := ⟨rfl, fun _ _ => rfl, rfl, id⟩

theorem AsRead.get {o o' : Keyed String Json} (read : AsRead X o o') (k : String) :
    (o'.get k).map (asRead X k) = (o.get k).map (asRead X k) := by
  by_cases marker : k = "corrections"
  · subst marker
    exact read.marker
  · rw [read.others k marker]

theorem asRead_decode (X : JsonRuntime) (o : Keyed String Json) :
    AsRead X o ((decodeMarker X o).getD o) := by
  unfold decodeMarker
  cases sent : o.get "corrections" with
  | none => exact .refl o
  | some v =>
      cases v with
      | str s =>
          cases decoded : decodedMarker X s with
          | none => simpa [decoded] using AsRead.refl o
          | some x =>
              have plain := isPlainObject_of_decoded decoded
              simp only [decoded, Option.map_some, Option.getD_some]
              refine ⟨?_, fun k other => ?_, ?_, fun _ => ?_⟩
              · rw [Keyed.keys_set, if_pos (Keyed.mem_keys_iff_isSome.mpr (by simp [sent]))]
              · rw [Keyed.get_set, if_neg other]
              · rw [Keyed.get_set, if_pos rfl, sent, Option.map_some, Option.map_some,
                  asRead_of_plain plain]
                simp [asRead, decoded]
              · rw [Keyed.get_set, if_pos rfl]
                cases x with
                | obj fields => rfl
                | _ => cases plain
      | _ => exact .refl o

section

variable {stored stored' : StoredCall} {call call' doc doc' : Keyed String Json}
  {positions : Option (List (List String))} {p : RegisterPatch} {top : Option (List Json)}

/-- Read with its markers decoded, or onto a record of the same envelope that holds its rows, a
call reads as the same registers. -/
theorem ReadsAs.transfer (reads : ReadsAs X stored call positions p doc top)
    (docRead : AsRead X doc doc')
    (isDoc : (call'.get "findings").bind Json.asObject = some doc')
    (keys : call'.keys ⊆ call.keys)
    (others : ∀ k, k ≠ "findings" → k ≠ "corrections" → call'.get k = call.get k)
    (marker : (call'.get "corrections").map (asRead X "corrections") =
      (call.get "corrections").map (asRead X "corrections"))
    (isMarker' : isMarker X (call'.get "corrections") = true)
    (version : (stored'.findings.get "schema_version").bind Json.number? =
      (stored.findings.get "schema_version").bind Json.number?)
    (envelope : ∀ k ∈ envelopeKeys, ∀ v, doc.get k = some v ∨ call.get k = some v →
      ∃ w, stored'.findings.get k = some w ∧ v.sameValue w = true)
    (aim : rowsAim (listOf stored'.findings) (top.getD [])
      (additionsOf X (listOf stored'.findings) (p.rows.getD []) positions) = true) :
    registerPatchOf X stored' call' positions =
      some ⟨doc'.erase "findings_patch", p.rows, p.lifted⟩ := by
  have ladder (k : String) : registerKey stored' k = registerKey stored k := by
    unfold registerKey topKeysForVersion
    rw [version]
  have notEnvelope {k : String} (mem : k ∈ envelopeKeys) : k ≠ "findings" ∧ k ≠ "corrections" := by
    constructor <;> rintro rfl <;> exact absurd mem (by decide)
  refine registerPatchOf_iff.mpr ⟨doc', top, isDoc, ?_, ?_, ?_, aim, rfl⟩
  · refine ⟨?_, ?_, ?_, ?_, ?_, docRead.isMarker reads.shape.docMarker, isMarker', ?_⟩
    · rw [docRead.others _ (by decide)]
      exact reads.shape.noList
    · rw [others _ (by decide) (by decide)]
      exact reads.shape.sections
    · intro k mem
      rw [ladder]
      exact reads.shape.docKeys k (docRead.keys ▸ mem)
    · intro k mem
      rw [ladder]
      exact reads.shape.callKeys k (keys mem)
    · intro k mem v sent
      obtain ⟨apart, plain⟩ := notEnvelope mem
      rw [docRead.others k plain, others k apart plain] at sent
      exact envelope k mem v sent
    · intro k v w sent rows beside
      have apart : k ≠ "findings" := by
        rintro rfl
        rw [docRead.others _ (by decide), reads.shape.noList] at sent
        cases sent
      have callGet : (call'.get k).map (asRead X k) = (call.get k).map (asRead X k) := by
        by_cases plain : k = "corrections"
        · subst plain
          exact marker
        · rw [others k apart plain]
      have docGet := docRead.get k
      rw [sent, Option.map_some] at docGet
      rw [beside, Option.map_some] at callGet
      obtain ⟨v', sent', same⟩ := Option.map_eq_some_iff.mp docGet.symm
      obtain ⟨w', beside', same'⟩ := Option.map_eq_some_iff.mp callGet.symm
      rw [← same, ← same']
      exact reads.shape.alike k v' w' sent' rows beside'
  · unfold topRows
    rw [others _ (by decide) (by decide)]
    exact reads.isTop
  · rw [docRead.others _ (by decide)]
    exact reads.lift

/-- A call that reads as registers does so once its markers are decoded. -/
theorem registerPatchOf_read (is : registerPatchOf X stored call positions = some p) :
    ∃ doc doc', (call.get "findings").bind Json.asObject = some doc ∧ AsRead X doc doc' ∧
      p.registers = doc.erase "findings_patch" ∧
      registerPatchOf X stored (readSynthesisCall X call stored positions) positions =
        some ⟨doc'.erase "findings_patch", p.rows, p.lifted⟩ ∧
      ∀ k, k ≠ "findings" → (readSynthesisCall X call stored positions).get k =
        ((decodeMarker X call).getD call).get k := by
  obtain ⟨doc, top, reads⟩ := registerPatchOf_iff.mp is
  have docRead := asRead_decode X doc
  have callRead := asRead_decode X call
  let decoded := (decodeMarker X call).getD call
  have there : "findings" ∈ decoded.keys := by
    rw [callRead.keys, Keyed.mem_keys_iff_isSome]
    cases found : call.get "findings" with
    | none =>
        have isDoc := reads.isDoc
        rw [found] at isDoc
        cases isDoc
    | some v => rfl
  have unchanged : decoded.get "findings" = call.get "findings" := callRead.others _ (by decide)
  have shape : readSynthesisCall X call stored positions =
      (decodeMarker X doc).elim decoded fun doc => decoded.set "findings" (.ofObject doc) := by
    unfold readSynthesisCall
    rw [if_neg (by simp [is]), reads.isDoc, Option.bind_some]
    cases decodeMarker X doc <;> rfl
  -- only the findings object is written, and it is the one the marker was decoded in
  have call' : readSynthesisCall X call stored positions = decoded ∧ decodeMarker X doc = none ∨
      ∃ doc', decodeMarker X doc = some doc' ∧
        readSynthesisCall X call stored positions = decoded.set "findings" (.ofObject doc') := by
    cases marked : decodeMarker X doc with
    | none => exact .inl ⟨by rw [shape, marked, Option.elim_none], rfl⟩
    | some doc' => exact .inr ⟨doc', rfl, by rw [shape, marked, Option.elim_some]⟩
  have others (k : String) (apart : k ≠ "findings") :
      (readSynthesisCall X call stored positions).get k = decoded.get k := by
    obtain ⟨same, -⟩ | ⟨doc', -, written⟩ := call'
    · rw [same]
    · rw [written, Keyed.get_set, if_neg apart]
  refine ⟨doc, (decodeMarker X doc).getD doc, reads.isDoc, docRead, reads.registers, ?_, others⟩
  refine reads.transfer docRead ?_ ?_ (fun k apart plain => ?_) ?_ ?_ rfl reads.shape.envelope reads.aim
  · obtain ⟨same, plain⟩ | ⟨doc', marked, written⟩ := call'
    · rw [same, unchanged, plain]
      exact reads.isDoc
    · rw [written, Keyed.get_set, if_pos rfl, marked]
      exact Json.asObject_ofObject doc'
  · obtain ⟨same, -⟩ | ⟨doc', -, written⟩ := call'
    · rw [same, callRead.keys]
      exact List.Subset.refl _
    · rw [written, Keyed.keys_set, if_pos there, callRead.keys]
      exact List.Subset.refl _
  · rw [others k apart, callRead.others k plain]
  · rw [others _ (by decide), callRead.marker]
  · rw [others _ (by decide)]
    exact callRead.isMarker reads.shape.callMarker

end

/-- No ordinal is sent two different rows. -/
def OneRowEach (rows : List Json) : Prop :=
  ∀ r ∈ rows, ∀ r' ∈ rows, rowOrdinal r' = rowOrdinal r → r'.sameValue r = true

theorem oneRowEach_of_checked {rows : List Json} (checked : twoRowsForOneOrdinal rows = false) :
    OneRowEach rows := by
  have first (r : Json) (mem : r ∈ rows) : ∃ one,
      rows.find? (rowOrdinal · = rowOrdinal r) = some one ∧ one.sameValue r = true := by
    cases found : rows.find? (rowOrdinal · = rowOrdinal r) with
    | none => simpa using List.find?_eq_none.mp found r mem
    | some one =>
        have alike := List.any_eq_false.mp checked r mem
        exact ⟨one, rfl, by simpa [found] using alike⟩
  intro r mem r' mem' same
  obtain ⟨one, found, alike⟩ := first r mem
  obtain ⟨one', found', alike'⟩ := first r' mem'
  rw [same, found] at found'
  obtain rfl := Option.some.inj found'
  exact Json.sameValue_trans (Json.sameValue_symm alike') alike

/-- What lifting has done with the nested rows. -/
structure Lifted (top added nested out : List Json) : Prop where
  grows : added ⊆ out
  among : ∀ r ∈ out, r ∈ added ∨ r ∈ nested
  each : ∀ r ∈ nested, ∃ r' ∈ top ++ out, rowOrdinal r' = rowOrdinal r ∧ r'.sameValue r = true
  oneRow : OneRowEach (top ++ added) → OneRowEach (top ++ out)

theorem lifted_of_fold {top nested added out : List Json}
    (folded : nested.foldlM (liftRow top) added = some out) : Lifted top added nested out := by
  induction nested generalizing added with
  | nil =>
      obtain rfl : added = out := Option.some.inj folded
      exact ⟨List.Subset.refl _, fun _ mem => .inl mem, by simp, id⟩
  | cons r rest ih =>
      rw [List.foldlM_cons] at folded
      obtain ⟨next, step, later⟩ := Option.bind_eq_some_iff.mp folded
      have tail := ih later
      unfold liftRow at step
      cases last : lastRow (top ++ added) (rowOrdinal r) with
      | some sent =>
          simp only [last] at step
          split at step
          · rename_i same
            obtain rfl := Option.some.inj step
            obtain ⟨mem, own⟩ := lastRow_mem last
            refine ⟨tail.grows, fun x mem => (tail.among x mem).imp_right (List.mem_cons_of_mem _),
              fun x mem' => ?_, tail.oneRow⟩
            obtain rfl | mem' := List.mem_cons.mp mem'
            · refine ⟨sent, ?_, own, same⟩
              obtain mem | mem := List.mem_append.mp mem
              · exact List.mem_append_left _ mem
              · exact List.mem_append_right _ (tail.grows mem)
            · exact tail.each x mem'
          · cases step
      | none =>
          simp only [last, Option.some.injEq] at step
          subst step
          have fresh := lastRow_eq_none.mp last
          refine ⟨fun x mem => tail.grows (List.mem_append_left _ mem), fun x mem => ?_,
            fun x mem' => ?_, fun oneRow => tail.oneRow ?_⟩
          · obtain mem | mem := tail.among x mem
            · obtain mem | mem := List.mem_append.mp mem
              · exact .inl mem
              · obtain rfl := List.mem_singleton.mp mem
                exact .inr List.mem_cons_self
            · exact .inr (List.mem_cons_of_mem _ mem)
          · obtain rfl | mem' := List.mem_cons.mp mem'
            · exact ⟨x, List.mem_append_right _ (tail.grows (by simp)), rfl, by simp⟩
            · exact tail.each x mem'
          · rw [← List.append_assoc]
            intro a mem b mem' same
            obtain here | last := List.mem_append.mp mem <;>
              obtain here' | last' := List.mem_append.mp mem'
            · exact oneRow a here b here' same
            · obtain rfl := List.mem_singleton.mp last'
              exact absurd same.symm (fresh a here)
            · obtain rfl := List.mem_singleton.mp last
              exact absurd same (fresh b here')
            · rw [List.mem_singleton.mp last, List.mem_singleton.mp last']
              exact Json.sameValue_refl _

/-- The rows a call or its findings object sends. -/
def rowsIn (o : Keyed String Json) : List Json :=
  match o.get "findings_patch" with
  | some (.arr rows) => rows
  | _ => []

/-- The rows a patch sends, its own and those inside its findings object. -/
def sentRows (patch : Keyed String Json) : List Json :=
  rowsIn patch ++ (((patch.get "findings").bind Json.asObject).map rowsIn).getD []

/-- The rows applied are rows sent, and stand for all of them. -/
structure RowsSent (patch : Keyed String Json) (rows : List Json) : Prop where
  among : rows ⊆ sentRows patch
  each : ∀ r ∈ sentRows patch, ∃ r' ∈ rows, rowOrdinal r' = rowOrdinal r ∧ r'.sameValue r = true

theorem RowsSent.oneRow {patch : Keyed String Json} {rows : List Json} (sent : RowsSent patch rows)
    (oneRow : OneRowEach rows) : OneRowEach (sentRows patch) := by
  intro r mem r' mem' same
  obtain ⟨q, there, own, alike⟩ := sent.each r mem
  obtain ⟨q', there', own', alike'⟩ := sent.each r' mem'
  have between := oneRow q there q' there' (own'.trans (same.trans own.symm))
  exact Json.sameValue_trans (Json.sameValue_symm alike') (Json.sameValue_trans between alike)

theorem topRows_spec {call : Keyed String Json} {top : Option (List Json)}
    (isTop : topRows call = some top) :
    rowsIn call = top.getD [] ∧ OneRowEach (top.getD []) := by
  unfold topRows at isTop
  unfold rowsIn
  split at isTop
  · rename_i none
    obtain rfl := Option.some.inj isTop
    simp [none, OneRowEach]
  · rename_i rows sent
    split at isTop
    · rename_i checked
      obtain rfl := Option.some.inj isTop
      simp only [Bool.and_eq_true, Bool.not_eq_true'] at checked
      exact ⟨by simp [sent], oneRowEach_of_checked checked.2⟩
    · cases isTop
  · cases isTop

theorem ReadsAs.rowsSent {stored : StoredCall} {call doc : Keyed String Json}
    {positions : Option (List (List String))} {p : RegisterPatch} {top : Option (List Json)}
    (reads : ReadsAs X stored call positions p doc top) :
    RowsSent call (p.rows.getD []) ∧ OneRowEach (p.rows.getD []) := by
  obtain ⟨isTop, oneTop⟩ := topRows_spec reads.isTop
  have whole : sentRows call = top.getD [] ++ rowsIn doc := by
    rw [sentRows, reads.isDoc, isTop]
    rfl
  have lift := reads.lift
  unfold liftNestedRows at lift
  split at lift
  · rename_i none
    obtain ⟨rows, -⟩ := Prod.mk.inj (Option.some.inj lift)
    have nested : rowsIn doc = [] := by simp [rowsIn, none]
    rw [← rows]
    refine ⟨⟨?_, ?_⟩, oneTop⟩
    · simp [whole]
    · rw [whole, nested, List.append_nil]
      exact fun r mem => ⟨r, mem, rfl, Json.sameValue_refl r⟩
  · rename_i nested sent
    split at lift
    · obtain ⟨out, folded, is⟩ := Option.map_eq_some_iff.mp lift
      obtain ⟨rows, -⟩ := Prod.mk.inj is
      have lifted := lifted_of_fold folded
      have isNested : rowsIn doc = nested := by simp [rowsIn, sent]
      have isRows : p.rows.getD [] = top.getD [] ++ out := by
        rw [← rows]
        cases out <;> simp
      rw [isRows]
      refine ⟨⟨fun r mem => ?_, fun r mem => ?_⟩, lifted.oneRow (by simpa using oneTop)⟩
      · rw [whole, isNested]
        obtain mem | mem := List.mem_append.mp mem
        · exact List.mem_append_left _ mem
        · obtain none | mem := lifted.among r mem
          · cases none
          · exact List.mem_append_right _ mem
      · rw [whole, isNested] at mem
        obtain mem | mem := List.mem_append.mp mem
        · exact ⟨r, List.mem_append_left _ mem, rfl, Json.sameValue_refl r⟩
        · exact lifted.each r mem
    · cases lift
  · cases lift

section

variable {stored merged : StoredCall} {patch : Keyed String Json}
  {positions : Option (List (List String))} {rows list : List Json} {lifted : Nat}

/-- The patch carries no findings object, or one read as registers. -/
def IsRepair (X : JsonRuntime) (stored : StoredCall) (patch : Keyed String Json)
    (positions : Option (List (List String))) : Prop :=
  patch.get "findings" = none ∨ (registerPatchOf X stored patch positions).isSome = true

/-- The registers the findings object of a repair carries. -/
def carriedRegisters (X : JsonRuntime) (stored : StoredCall) (patch : Keyed String Json)
    (positions : Option (List (List String))) : Keyed String Json :=
  ((registerPatchOf X stored patch positions).map (·.registers)).getD .empty

/-- The rows a repair is merged with. -/
def repairRows (X : JsonRuntime) (stored : StoredCall) (patch : Keyed String Json)
    (positions : Option (List (List String))) : Except String (List Json) :=
  match registerPatchOf X stored patch positions with
  | some p => .ok (p.rows.getD [])
  | none => patchRows patch

def liftedRows (X : JsonRuntime) (stored : StoredCall) (patch : Keyed String Json)
    (positions : Option (List (List String))) : Nat :=
  ((registerPatchOf X stored patch positions).map (·.lifted)).getD 0

theorem mergeSynthesisPatch_repair (repair : IsRepair X stored patch positions) :
    mergeSynthesisPatch X (some stored) patch positions =
      .of (liftedRows X stored patch positions)
        ((repairRows X stored patch positions).bind fun rows =>
          mergeOver X stored (stored.findings.assign (carriedRegisters X stored patch positions))
            (additionsOf X (listOf (stored.findings.assign
              (carriedRegisters X stored patch positions))) rows positions) rows patch) := by
  unfold mergeSynthesisPatch carriedRegisters repairRows liftedRows
  cases is : registerPatchOf X stored patch positions with
  | some p => simp only [is, Option.map_some, Option.getD_some, Except.bind]
  | none =>
      have plain : patch.get "findings" = none := by simpa [IsRepair, is] using repair
      have unblocked : markerAloneBlocks X stored patch positions = false := by
        simp [markerAloneBlocks, plain]
      simp only [is, unblocked, plain]
      rfl

theorem carriedRegisters_noList :
    (carriedRegisters X stored patch positions).get "findings" = none := by
  unfold carriedRegisters
  cases is : registerPatchOf X stored patch positions with
  | none => rfl
  | some p =>
      obtain ⟨doc, top, reads⟩ := registerPatchOf_iff.mp is
      rw [Option.map_some, Option.getD_some, reads.registers, Keyed.get_erase, if_neg (by decide)]
      exact reads.shape.noList

theorem listOf_assign :
    listOf (stored.findings.assign (carriedRegisters X stored patch positions)) =
      listOf stored.findings := by
  unfold listOf
  rw [Keyed.get_assign, carriedRegisters_noList, Option.none_or]

/-- The findings of the merged call, over the list its rows leave. -/
def findingsOver (findings registers : Keyed String Json) (rows list : List Json)
    (patch : Keyed String Json) : Keyed String Json :=
  let base := findings.assign registers
  (if rows.isEmpty then base else base.set "findings" (.arr list)).assign (ownRegisters patch)

/-- The repair is accepted with these rows, and leaves this list. -/
structure Comes (X : JsonRuntime) (stored : StoredCall) (patch : Keyed String Json)
    (positions : Option (List (List String))) (rows list : List Json) (merged : StoredCall) :
    Prop where
  rowsAre : repairRows X stored patch positions = .ok rows
  applied : applyRows X (additionsOf X (listOf stored.findings) rows positions)
    (listOf stored.findings) rows = .ok list
  narrative : merged.narrative = stored.narrative.assign (sectionsOf patch)
  findings : merged.findings =
    findingsOver stored.findings (carriedRegisters X stored patch positions) rows list patch

theorem accepted_iff (repair : IsRepair X stored patch positions) :
    mergeSynthesisPatch X (some stored) patch positions = .merged merged lifted ↔
      lifted = liftedRows X stored patch positions ∧
        ∃ rows list, Comes X stored patch positions rows list merged := by
  rw [mergeSynthesisPatch_repair repair, listOf_assign]
  constructor
  · intro accepted
    cases rowsAre : repairRows X stored patch positions with
    | error e => simp [rowsAre, Except.bind, PatchOutcome.of] at accepted
    | ok rows =>
        simp only [rowsAre, Except.bind, mergeOver, listOf_assign] at accepted
        cases applied : applyRows X (additionsOf X (listOf stored.findings) rows positions)
            (listOf stored.findings) rows with
        | error e => simp [applied, Except.map, PatchOutcome.of] at accepted
        | ok list =>
            simp only [applied, Except.map, PatchOutcome.of, PatchOutcome.merged.injEq] at accepted
            obtain ⟨rfl, rfl⟩ := accepted
            exact ⟨rfl, rows, list, rowsAre, applied, rfl, rfl⟩
  · rintro ⟨rfl, rows, list, comes⟩
    obtain ⟨narrative, findings⟩ := merged
    have isNarrative := comes.narrative
    have isFindings := comes.findings
    dsimp only at isNarrative isFindings
    simp only [comes.rowsAre, Except.bind, mergeOver, listOf_assign, comes.applied, Except.map,
      PatchOutcome.of, isNarrative, isFindings, findingsOver]

theorem get_findingsOver (findings registers : Keyed String Json) (k : String) :
    (findingsOver findings registers rows list patch).get k =
      ((ownRegisters patch).get k).or
        ((if rows.isEmpty then none else if k = "findings" then some (.arr list) else none).or
          ((registers.get k).or (findings.get k))) := by
  unfold findingsOver
  rw [Keyed.get_assign]
  congr 1
  split
  · rw [Option.none_or, Keyed.get_assign]
  · rw [Keyed.get_set, Keyed.get_assign]
    split <;> simp

theorem ownRegisters_noList (patch : Keyed String Json) : (ownRegisters patch).get "findings" = none := by
  unfold ownRegisters
  rw [Keyed.get_keepIf, if_neg (by decide)]

namespace Comes

variable (comes : Comes X stored patch positions rows list merged)
include comes

theorem listOf_merged : listOf merged.findings = list := by
  have noRows (none : rows = []) : listOf stored.findings = list := by
    have applied := comes.applied
    rw [none] at applied
    exact Except.ok.inj applied
  unfold listOf
  rw [comes.findings, get_findingsOver, ownRegisters_noList, carriedRegisters_noList, Option.none_or,
    Option.none_or]
  cases empty : rows.isEmpty with
  | false => rfl
  | true => exact noRows (List.isEmpty_iff.mp empty)

theorem rowsApplied (order : InOrder (listOf stored.findings)) :
    RowsApplied (additionsOf X (listOf stored.findings) rows positions) rows.zipIdx
      (listOf stored.findings) (listOf merged.findings) :=
  comes.listOf_merged ▸ applyRows_spec order comes.applied

theorem rowsSent (repair : IsRepair X stored patch positions) : RowsSent patch rows := by
  have rowsAre := comes.rowsAre
  unfold repairRows at rowsAre
  cases is : registerPatchOf X stored patch positions with
  | some p =>
      obtain ⟨doc, top, reads⟩ := registerPatchOf_iff.mp is
      rw [is] at rowsAre
      exact Except.ok.inj rowsAre ▸ reads.rowsSent.1
  | none =>
      have plain : patch.get "findings" = none := by simpa [IsRepair, is] using repair
      rw [is] at rowsAre
      have own : rowsIn patch = rows := by
        unfold rowsIn
        simp only [patchRows] at rowsAre
        split at rowsAre <;> simp_all
      have whole : sentRows patch = rows := by simp [sentRows, plain, own]
      exact ⟨whole ▸ List.Subset.refl _, whole ▸ fun r mem => ⟨r, mem, rfl, Json.sameValue_refl r⟩⟩

/-- What each row leaves in the list: the row sent for its ordinal last. -/
theorem finding_of_row (order : InOrder (listOf stored.findings)) {r : Json} (mem : r ∈ rows) :
    ∃ n f, rowOrdinal r = some n ∧ lastRow rows (some n) = some f ∧
      findingAt (listOf merged.findings) n = some f := by
  have applied := comes.rowsApplied order
  obtain ⟨i, at'⟩ := List.mem_iff_getElem?.mp mem
  obtain ⟨n, own⟩ := exists_ordinal (applied.rows (r, i) (List.mk_mem_zipIdx_iff_getElem?.mpr at'))
  obtain ⟨f, last⟩ : ∃ f, lastRow rows (some n) = some f :=
    Option.ne_none_iff_exists'.mp fun none => lastRow_eq_none.mp none r mem own
  refine ⟨n, f, own, last, ?_⟩
  rw [applied.at_ordinal, List.zipIdx_map_fst, last, Option.some_or]

end Comes

end

section

variable {stored merged : StoredCall} {patch : Keyed String Json}
  {positions : Option (List (List String))} {rows list : List Json} {lifted : Nat}

theorem get_ownRegisters {patch read : Keyed String Json} {k : String}
    (same : k ≠ "findings" → (read.get k).map (asRead X k) = (patch.get k).map (asRead X k)) :
    ((ownRegisters read).get k).map (asRead X k) =
      ((ownRegisters patch).get k).map (asRead X k) := by
  unfold ownRegisters
  rw [Keyed.get_keepIf, Keyed.get_keepIf]
  split
  · rename_i kept
    exact same fun e => by simp [e] at kept
  · rfl

/-- A call with the same rows, and the same sections and registers as read, comes to the same. -/
theorem Comes.read (comes : Comes X stored patch positions rows list merged)
    {read : Keyed String Json}
    (rowsAre : repairRows X stored read positions = repairRows X stored patch positions)
    (narrative : read.get "narrative" = patch.get "narrative")
    (carried : ∀ k, ((carriedRegisters X stored read positions).get k).map (asRead X k) =
      ((carriedRegisters X stored patch positions).get k).map (asRead X k))
    (others : ∀ k, k ≠ "findings" →
      (read.get k).map (asRead X k) = (patch.get k).map (asRead X k)) :
    ∃ merged', Comes X stored read positions rows list merged' ∧
      merged'.narrative = merged.narrative ∧
      ∀ k, (merged'.findings.get k).map (asRead X k) = (merged.findings.get k).map (asRead X k) := by
  refine ⟨⟨stored.narrative.assign (sectionsOf read),
    findingsOver stored.findings (carriedRegisters X stored read positions) rows list read⟩,
    ⟨rowsAre.trans comes.rowsAre, comes.applied, rfl, rfl⟩, ?_, fun k => ?_⟩
  · rw [comes.narrative, sectionsOf, sectionsOf, narrative]
  · rw [comes.findings, get_findingsOver, get_findingsOver]
    simp only [Option.map_or, carried k, get_ownRegisters (others k)]

theorem Comes.read_first (comes : Comes X stored patch positions rows list merged)
    (repair : IsRepair X stored patch positions) :
    (registerPatchOf X stored (readSynthesisCall X patch stored positions) positions).isSome =
        (registerPatchOf X stored patch positions).isSome ∧
      IsRepair X stored (readSynthesisCall X patch stored positions) positions ∧
      liftedRows X stored (readSynthesisCall X patch stored positions) positions =
        liftedRows X stored patch positions ∧
      ∃ merged', Comes X stored (readSynthesisCall X patch stored positions) positions rows list
          merged' ∧ merged'.narrative = merged.narrative ∧
        ∀ k, (merged'.findings.get k).map (asRead X k) =
          (merged.findings.get k).map (asRead X k) := by
  have decoded := asRead_decode X patch
  cases is : registerPatchOf X stored patch positions with
  | some p =>
      obtain ⟨doc, doc', -, docRead, registers, isRead, others⟩ := registerPatchOf_read is
      refine ⟨by rw [isRead]; rfl, .inr (by rw [isRead]; rfl), by simp [liftedRows, is, isRead], ?_⟩
      refine comes.read ?_ ?_ (fun k => ?_) fun k apart => ?_
      · simp [repairRows, is, isRead]
      · rw [others _ (by decide), decoded.others _ (by decide)]
      · simp only [carriedRegisters, is, isRead, Option.map_some, Option.getD_some, registers,
          Keyed.get_erase]
        split
        · rfl
        · exact docRead.get k
      · rw [others k apart]
        exact decoded.get k
  | none =>
      have plain : patch.get "findings" = none := by simpa [IsRepair, is] using repair
      have isRead : readSynthesisCall X patch stored positions = (decodeMarker X patch).getD patch := by
        simp [readSynthesisCall, plain]
      rw [isRead]
      have plain' : ((decodeMarker X patch).getD patch).get "findings" = none := by
        rw [decoded.others _ (by decide), plain]
      have is' : registerPatchOf X stored ((decodeMarker X patch).getD patch) positions = none := by
        simp [registerPatchOf, plain']
      refine ⟨by rw [is'], .inl plain', by simp [liftedRows, is, is'], ?_⟩
      refine comes.read ?_ (decoded.others _ (by decide)) (fun k => ?_) fun k _ => decoded.get k
      · simp only [repairRows, is, is', patchRows, decoded.others "findings_patch" (by decide)]
      · simp [carriedRegisters, is, is']

theorem findingsOver_again (findings registers : Keyed String Json) :
    findingsOver (findingsOver findings registers rows list patch) registers rows list patch =
      findingsOver findings registers rows list patch := by
  let over' := findingsOver findings registers rows list patch
  have get (k : String) : over'.get k = ((ownRegisters patch).get k).or
      ((if rows.isEmpty then none else if k = "findings" then some (.arr list) else none).or
        ((registers.get k).or (findings.get k))) := get_findingsOver findings registers k
  have ownKeys : (ownRegisters patch).keys ⊆ over'.keys := by
    intro k mem
    rw [Keyed.mem_keys_iff_isSome] at mem ⊢
    rw [get, Option.isSome_or, mem, Bool.true_or]
  have carriedKeys : registers.keys ⊆ over'.keys := by
    intro k mem
    rw [Keyed.mem_keys_iff_isSome] at mem ⊢
    simp only [get, Option.isSome_or, mem, Bool.true_or, Bool.or_true]
  refine Keyed.ext_get ?_ fun k => ?_
  · have carried : (over'.assign registers).keys = over'.keys := Keyed.keys_assign_of_subset carriedKeys
    have listed : (if rows.isEmpty then over'.assign registers
        else (over'.assign registers).set "findings" (.arr list)).keys = over'.keys := by
      cases empty : rows.isEmpty with
      | true => exact carried
      | false =>
          have there : "findings" ∈ (over'.assign registers).keys := by
            rw [carried, Keyed.mem_keys_iff_isSome, get, empty]
            simp
          simpa [Keyed.keys_set, there] using carried
    show ((if rows.isEmpty then over'.assign registers
        else (over'.assign registers).set "findings" (.arr list)).assign (ownRegisters patch)).keys = _
    rw [Keyed.keys_assign_of_subset (listed ▸ ownKeys), listed]
  · rw [get_findingsOver, get_findingsOver]
    cases (ownRegisters patch).get k with
    | some v => rfl
    | none =>
        simp only [Option.none_or]
        cases (if rows.isEmpty then none else if k = "findings" then some (Json.arr list) else none) with
        | some v => rfl
        | none =>
            cases registers.get k <;> rfl

theorem assign_again (m more : Keyed String Json) : (m.assign more).assign more = m.assign more := by
  refine Keyed.ext_get (Keyed.keys_assign_of_subset fun k mem => ?_) fun k => ?_
  · exact Keyed.mem_keys_assign.mpr (.inr mem)
  · rw [Keyed.get_assign, Keyed.get_assign]
    cases more.get k <;> rfl

/-- The envelope of the merged record is the stored one. -/
theorem Comes.envelope (comes : Comes X stored patch positions rows list merged)
    {p : RegisterPatch} {doc : Keyed String Json} {top : Option (List Json)}
    (is : registerPatchOf X stored patch positions = some p)
    (reads : ReadsAs X stored patch positions p doc top) {k : String} (mem : k ∈ envelopeKeys) :
    merged.findings.get k = stored.findings.get k ∨
      ∃ v w, merged.findings.get k = some v ∧ stored.findings.get k = some w ∧
        v.sameValue w = true := by
  have apart : k ≠ "findings" := by
    rintro rfl
    exact absurd mem (by decide)
  have carried : (carriedRegisters X stored patch positions).get k =
      if k = "findings_patch" then none else doc.get k := by
    rw [carriedRegisters, is, Option.map_some, Option.getD_some, reads.registers, Keyed.get_erase]
  have own (v : Json) (found : (ownRegisters patch).get k = some v) : patch.get k = some v := by
    unfold ownRegisters at found
    rw [Keyed.get_keepIf] at found
    split at found
    · exact found
    · cases found
  rw [comes.findings, get_findingsOver, carried]
  cases sent : (ownRegisters patch).get k with
  | some v =>
      obtain ⟨w, held, alike⟩ := reads.shape.envelope k mem v (.inr (own v sent))
      exact .inr ⟨v, w, rfl, held, alike⟩
  | none =>
      simp only [apart, ↓reduceIte, ite_self, Option.none_or]
      split
      · exact .inl rfl
      · cases inside : doc.get k with
        | none => exact .inl rfl
        | some v =>
            obtain ⟨w, held, alike⟩ := reads.shape.envelope k mem v (.inl inside)
            exact .inr ⟨v, w, rfl, held, alike⟩

theorem Comes.registers_again (comes : Comes X stored patch positions rows list merged)
    (order : InOrder (listOf stored.findings)) (repair : IsRepair X stored patch positions) :
    registerPatchOf X merged patch positions = registerPatchOf X stored patch positions := by
  cases is : registerPatchOf X stored patch positions with
  | none =>
      have plain : patch.get "findings" = none := by simpa [IsRepair, is] using repair
      simp [registerPatchOf, plain]
  | some p =>
      obtain ⟨doc, top, reads⟩ := registerPatchOf_iff.mp is
      have whole : p = ⟨doc.erase "findings_patch", p.rows, p.lifted⟩ := by
        rw [← reads.registers]
      rw [whole]
      refine reads.transfer (.refl doc) reads.isDoc (List.Subset.refl _) (fun _ _ _ => rfl) rfl
        reads.shape.callMarker ?_ (fun k mem v sent => ?_) ?_
      · obtain same | ⟨v, w, sent, held, alike⟩ := comes.envelope is reads (k := "schema_version") (by decide)
        · rw [same]
        · rw [sent, held]
          exact Json.number?_of_sameValue alike
      · obtain ⟨w, held, alike⟩ := reads.shape.envelope k mem v sent
        obtain same | ⟨v', w', sent', held', alike'⟩ := comes.envelope is reads mem
        · exact ⟨w, same.trans held, alike⟩
        · obtain rfl := Option.some.inj (held.symm.trans held')
          exact ⟨v', sent', Json.sameValue_trans alike (Json.sameValue_symm alike')⟩
      · -- every row of the call names a finding the merged record holds
        refine List.all_eq_true.mpr fun ri mem => ?_
        have there : ri.1 ∈ top.getD [] :=
          List.mem_of_getElem? (List.mk_mem_zipIdx_iff_getElem?.mp mem)
        have sent : ri.1 ∈ sentRows patch := by
          rw [sentRows, (topRows_spec reads.isTop).1]
          exact List.mem_append_left _ there
        obtain ⟨r', among, same, -⟩ := (comes.rowsSent repair).each ri.1 sent
        obtain ⟨n, f, own, -, found⟩ := comes.finding_of_row order among
        have holds : holdsOrdinal (listOf merged.findings) n = true := by
          rw [← Bool.not_eq_false, holdsOrdinal_eq_false, found]
          simp
        rw [← same, own]
        simp [holds]

theorem Comes.again (comes : Comes X stored patch positions rows list merged)
    (order : InOrder (listOf stored.findings)) (repair : IsRepair X stored patch positions) :
    Comes X merged patch positions rows list merged := by
  have applied := comes.rowsApplied order
  have registers := comes.registers_again order repair
  refine ⟨?_, ?_, ?_, ?_⟩
  · unfold repairRows
    rw [registers]
    exact comes.rowsAre
  · have held : ∀ ri ∈ rows.zipIdx, ∃ n, rowOrdinal ri.1 = some n ∧
        findingAt (listOf merged.findings) n ≠ none := by
      intro ri mem
      obtain ⟨n, f, own, -, found⟩ := comes.finding_of_row order
        (List.mem_of_getElem? (List.mk_mem_zipIdx_iff_getElem?.mp mem))
      exact ⟨n, own, by simp [found]⟩
    obtain ⟨list', ok⟩ : ∃ list', applyRows X (additionsOf X (listOf merged.findings) rows positions)
        (listOf merged.findings) rows = .ok list' := applyRows_of_held applied.order held
    have again := applyRows_spec applied.order ok
    have same : list' = listOf merged.findings := by
      refine again.order.eq_of_findingAt applied.order fun m => ?_
      rw [again.at_ordinal, applied.at_ordinal]
      cases lastRow (rows.zipIdx.map Prod.fst) (some m) <;> rfl
    rw [← comes.listOf_merged, ← same]
    exact same ▸ ok
  · rw [comes.narrative, assign_again]
  · unfold carriedRegisters
    rw [registers, comes.findings]
    exact (findingsOver_again _ _).symm

end

section

variable {stored merged : StoredCall} {patch : Keyed String Json}
  {positions : Option (List (List String))} {lifted : Nat}

/-- The records the stored findings deliver, each as the rows of the patch replace it. -/
def currentUris (X : JsonRuntime) (stored : StoredCall) (patch : Keyed String Json)
    (positions : Option (List (List String))) : List String :=
  match repairRows X stored patch positions with
  | .ok rows => ((replacedBy (listOf stored.findings) rows).filter isLive).flatMap (findingUris X)
  | .error _ => []

/-- No row the patch sends has the ordinal of the finding. -/
def unnamed (patch : Keyed String Json) (f : Json) : Bool :=
  (sentRows patch).all fun r => rowOrdinal r ≠ rowOrdinal f

/-- A repair changes what it names and nothing else. -/
structure RepairKeeps (X : JsonRuntime) (stored : StoredCall) (patch : Keyed String Json)
    (positions : Option (List (List String))) (merged : StoredCall) (lifted : Nat) : Prop where
  /-- the findings no row names stand as they were, in their order -/
  findings : (listOf merged.findings).filter (unnamed patch) =
    (listOf stored.findings).filter (unnamed patch)
  sections : ∀ k ∉ (sectionsOf patch).keys, merged.narrative.get k = stored.narrative.get k
  registers : ∀ k, k ≠ "findings" → patch.get k = none →
    (∀ doc, (patch.get "findings").bind Json.asObject = some doc → doc.get k = none) →
    merged.findings.get k = stored.findings.get k
  /-- a row stands at its ordinal, where no different one is sent for it -/
  rows : ∀ r ∈ sentRows patch,
    (∀ r' ∈ sentRows patch, rowOrdinal r' = rowOrdinal r → r'.sameValue r = true) →
    ∃ n f, rowOrdinal r = some n ∧ findingAt (listOf merged.findings) n = some f ∧
      f.sameValue r = true
  /-- among registers none is -/
  oneRow : patch.get "findings" ≠ none → OneRowEach (sentRows patch)
  order : InOrder (listOf merged.findings)
  /-- a finding joins the list for a position of its own, which no current finding delivers -/
  added : ∃ chosen : List (Json × List String),
    (∀ c ∈ chosen, c.1 ∈ sentRows patch ∧ Adds X (listOf stored.findings) (positions.getD [])
      (currentUris X stored patch positions) c.1 c.2) ∧
    (chosen.Pairwise fun c d => ∀ u ∈ c.2, u ∉ d.2) ∧
    ∀ n, findingAt (listOf stored.findings) n = none → findingAt (listOf merged.findings) n ≠ none →
      ∃ c ∈ chosen, rowOrdinal c.1 = some n
  /-- read first, the call is merged the same way, and to the same but for its markers as read -/
  readFirst : (registerPatchOf X stored (readSynthesisCall X patch stored positions)
      positions).isSome = (registerPatchOf X stored patch positions).isSome ∧
    ∃ merged', mergeSynthesisPatch X (some stored) (readSynthesisCall X patch stored positions)
        positions = .merged merged' lifted ∧ merged'.narrative = merged.narrative ∧
      ∀ k, (merged'.findings.get k).map (asRead X k) = (merged.findings.get k).map (asRead X k)
  again : mergeSynthesisPatch X (some merged) patch positions = .merged merged lifted

theorem registers_held {rows list : List Json} (comes : Comes X stored patch positions rows list merged)
    {k : String} (apart : k ≠ "findings") (absent : patch.get k = none)
    (notInside : ∀ doc, (patch.get "findings").bind Json.asObject = some doc → doc.get k = none) :
    merged.findings.get k = stored.findings.get k := by
  have own : (ownRegisters patch).get k = none := by
    unfold ownRegisters
    rw [Keyed.get_keepIf, absent, ite_self]
  have carried : (carriedRegisters X stored patch positions).get k = none := by
    unfold carriedRegisters
    cases is : registerPatchOf X stored patch positions with
    | none => rfl
    | some p =>
        obtain ⟨doc, top, reads⟩ := registerPatchOf_iff.mp is
        rw [Option.map_some, Option.getD_some, reads.registers, Keyed.get_erase,
          notInside doc reads.isDoc, ite_self]
  rw [comes.findings, get_findingsOver, own, carried]
  simp [apart]

/-- A repair that is accepted changes what it names and nothing else, adds findings for
positions of their own, and comes to the same when it is read first and when it is sent again. -/
theorem repair_keeps (X : JsonRuntime) (stored : StoredCall) (patch : Keyed String Json)
    (positions : Option (List (List String))) (merged : StoredCall) (lifted : Nat)
    (order : InOrder (listOf stored.findings)) (repair : IsRepair X stored patch positions)
    (accepted : mergeSynthesisPatch X (some stored) patch positions = .merged merged lifted) :
    RepairKeeps X stored patch positions merged lifted := by
  obtain ⟨rfl, rows, list, comes⟩ := (accepted_iff repair).mp accepted
  have applied := comes.rowsApplied order
  have sent := comes.rowsSent repair
  have isRow {ri : Json × Nat} (mem : ri ∈ rows.zipIdx) : ri.1 ∈ rows :=
    List.mem_of_getElem? (List.mk_mem_zipIdx_iff_getElem?.mp mem)
  refine ⟨?_, fun k absent => ?_, fun k => registers_held comes, fun r mem alone => ?_, ?_,
    applied.order, ?_, ?_, ?_⟩
  · refine applied.kept _ fun ri mem f same => ?_
    refine Bool.eq_false_iff.mpr fun other => ?_
    have apart := List.all_eq_true.mp other ri.1 (sent.among (isRow mem))
    simp [same] at apart
  · rw [comes.narrative, Keyed.get_assign, Keyed.get_eq_none.mpr absent, Option.none_or]
  · obtain ⟨r', among, same, -⟩ := sent.each r mem
    obtain ⟨n, f, own, last, found⟩ := comes.finding_of_row order among
    obtain ⟨there, ownLast⟩ := lastRow_mem last
    exact ⟨n, f, same ▸ own, found, alone f (sent.among there) (ownLast.trans (own.symm.trans same))⟩
  · intro carries
    cases is : registerPatchOf X stored patch positions with
    | none =>
        have plain : patch.get "findings" = none := by simpa [IsRepair, is] using repair
        exact absurd plain carries
    | some p =>
        obtain ⟨doc, top, reads⟩ := registerPatchOf_iff.mp is
        exact reads.rowsSent.1.oneRow reads.rowsSent.2
  · obtain ⟨chosen, each, apart, places⟩ :=
      additionsOf_spec rows positions
    refine ⟨chosen, fun c mem => ⟨sent.among (each c mem).1, ?_⟩, apart, fun n fresh there => ?_⟩
    · rw [currentUris, comes.rowsAre]
      exact (each c mem).2
    · obtain ⟨ri, mem, allowed, own⟩ := applied.added n fresh there
      obtain ⟨c, picked, same⟩ := places ri mem allowed
      exact ⟨c, picked, same ▸ own⟩
  · obtain ⟨same, repair', lifts, merged', comes', narrative, findings⟩ := comes.read_first repair
    exact ⟨same, merged', (accepted_iff repair').mpr ⟨lifts.symm, rows, list, comes'⟩, narrative,
      findings⟩
  · have repair' : IsRepair X merged patch positions := by
      unfold IsRepair
      rw [comes.registers_again order repair]
      exact repair
    refine (accepted_iff repair').mpr ⟨?_, rows, list, comes.again order repair⟩
    unfold liftedRows
    rw [comes.registers_again order repair]

end

/-- A runtime that reads one text, the empty object. -/
def emptyObjectRuntime : JsonRuntime where
  parse s := if s = "\x7b\x7d" then some (.obj []) else none
  numberText _ := ""

def findingRow (ordinal : Rat) (mark : String) : Json :=
  .obj [("ordinal", .num ordinal), ("mark", .str mark)]

/-- A record with two findings. -/
def twoFindings : StoredCall where
  narrative := .empty
  findings := .ofList [("schema_version", .num 7),
    ("findings", .arr [findingRow 1 "first", findingRow 2 "second"])]

theorem listOf_twoFindings :
    listOf twoFindings.findings = [findingRow 1 "first", findingRow 2 "second"] := rfl

theorem twoFindings_inOrder : InOrder (listOf twoFindings.findings) := by
  have first : rowOrdinal (findingRow 1 "first") = some 1 := rfl
  have second : rowOrdinal (findingRow 2 "second") = some 2 := rfl
  rw [listOf_twoFindings]
  refine ⟨?_, ?_⟩
  · simp [isRow, first, second]
  · simp [first, second]

def secondCorrected : Keyed String Json :=
  .ofList [("findings_patch", .arr [findingRow 2 "corrected"])]

theorem repair_keeps_corrected : ∃ merged,
    mergeSynthesisPatch emptyObjectRuntime (some twoFindings) secondCorrected none =
        .merged merged 0 ∧
      RepairKeeps emptyObjectRuntime twoFindings secondCorrected none merged 0 :=
  ⟨_, rfl, repair_keeps emptyObjectRuntime twoFindings secondCorrected none _ 0 twoFindings_inOrder
    (.inl rfl) rfl⟩

/-- A marker sent as a text. -/
def textMarker : Keyed String Json := .ofList [("corrections", .str "\x7b\x7d")]

/-- A record sent whole, with one finding. -/
def wholeRecord : Keyed String Json :=
  .ofList [("findings", .obj [("findings", .arr [findingRow 1 "first"])])]

/-- Reading first decodes a marker, and a record sent whole drops a finding no row names. -/
theorem whole_records_and_markers :
    (∃ merged merged',
      mergeSynthesisPatch emptyObjectRuntime (some twoFindings) textMarker none = .merged merged 0 ∧
      mergeSynthesisPatch emptyObjectRuntime (some twoFindings)
        (readSynthesisCall emptyObjectRuntime textMarker twoFindings none) none =
          .merged merged' 0 ∧
      merged ≠ merged') ∧
    ∃ merged,
      mergeSynthesisPatch emptyObjectRuntime (some twoFindings) wholeRecord none = .merged merged 0 ∧
      sentRows wholeRecord = [] ∧ listOf merged.findings = [findingRow 1 "first"] ∧
      findingRow 2 "second" ∈ listOf twoFindings.findings := by
  refine ⟨⟨_, _, rfl, rfl, fun same => ?_⟩, _, rfl, rfl, rfl, ?_⟩
  · have marker := congrArg (fun call => (call.findings.get "corrections").any Json.isPlainObject) same
    exact absurd marker (by decide)
  · rw [listOf_twoFindings]
    simp

end

end Synthesis

end Clearotron
