import Clearotron.Index.CaseFiles

/-!
# What a case file says

A document under the office's document type: elements with plain tags, text whose markup characters
are escaped, and declarations, instructions and comments between them. The row of a case file is
read from the elements themselves, and the scanner makes the same one of the text they are
written in.
-/

namespace Clearotron.CaseFiles

open Scan

/-- The ways XML lets a character be written. -/
inductive Spelling : Char → List Char → Prop
  | raw {c : Char} (plain : c ≠ '&' ∧ c ≠ '<') : Spelling c [c]
  | named {name : String} {c : Char} (entity : (name, c) ∈ entities) :
      Spelling c ('&' :: (name.toList ++ [';']))
  | decimal {c : Char} {ds : List Char} (digits : ∀ d ∈ ds, d.isDigit = true)
      (own : parseDigits 10 ds = some c.toNat) (legal : 0 < c.toNat) :
      Spelling c ('&' :: '#' :: (ds ++ [';']))
  | hex {c : Char} {ds : List Char} (digits : ∀ d ∈ ds, isHexDigit d = true)
      (own : parseDigits 16 ds = some c.toNat) (legal : 0 < c.toNat) :
      Spelling c ('&' :: '#' :: 'x' :: (ds ++ [';']))

/-- A character and the way it is written. -/
structure Spelled where
  char : Char
  spelling : List Char
  own : Spelling char spelling

theorem decodeFrom_skip (s rest : List Char) :
    decodeFrom s.length (s ++ rest) = decodeFrom 0 rest := by
  induction s with
  | nil => rfl
  | cons c s ih => exact ih

theorem takeWhile_run {p : Char → Bool} {ds : List Char} {c : Char} (all : ∀ d ∈ ds, p d = true)
    (stop : p c = false) (rest : List Char) : (ds ++ c :: rest).takeWhile p = ds := by
  rw [List.takeWhile_append_of_pos all, List.takeWhile_cons_of_neg (by simp [stop]),
    List.append_nil]

theorem isHexDigit_of_isDigit {c : Char} (digit : c.isDigit = true) : isHexDigit c = true := by
  simp [isHexDigit, digit]

theorem fromCodePoint_toNat {c : Char} (legal : 0 < c.toNat) :
    fromCodePoint c.toNat = some c := by
  rw [fromCodePoint, if_pos ⟨legal, c.valid⟩, Char.ofNat_toNat]

theorem ne_nil_of_parseDigits {base n : ℕ} {ds : List Char} (own : parseDigits base ds = some n) :
    ds ≠ [] := by
  rintro rfl
  cases own

theorem reference_named {name : String} {c : Char} (entity : (name, c) ∈ entities)
    (rest : List Char) :
    reference (name.toList ++ ';' :: rest) = some (c, name.toList.length + 1) := by
  simp only [entities, List.mem_cons, Prod.mk.injEq, List.not_mem_nil, or_false] at entity
  obtain ⟨rfl, rfl⟩ | ⟨rfl, rfl⟩ | ⟨rfl, rfl⟩ | ⟨rfl, rfl⟩ | ⟨rfl, rfl⟩ := entity <;> rfl

theorem reference_decimal {c : Char} {ds : List Char} (digits : ∀ d ∈ ds, d.isDigit = true)
    (own : parseDigits 10 ds = some c.toNat) (legal : 0 < c.toNat) (rest : List Char) :
    reference ('#' :: (ds ++ ';' :: rest)) = some (c, ds.length + 2) := by
  obtain ⟨d, ds, rfl⟩ := List.exists_cons_of_ne_nil (ne_nil_of_parseDigits own)
  have first : d ≠ 'x' := by
    rintro rfl
    exact absurd (digits 'x' (by simp)) (by decide)
  have run := takeWhile_run (c := ';') (fun d mem => isHexDigit_of_isDigit (digits d mem))
    (by decide) rest
  have whole : (d :: ds).takeWhile Char.isDigit = d :: ds := List.takeWhile_eq_self_iff.mpr digits
  have head : ((d :: ds) ++ ';' :: rest).head? ≠ some 'x' := by simpa using first
  simp only [reference, head, if_false, run, List.drop_left, List.head?_cons, ne_eq, reduceCtorEq,
    not_true_eq_false, or_false, whole, own, Option.bind_some, fromCodePoint_toNat legal,
    Option.map_some]
  congr 2
  omega

theorem reference_hex {c : Char} {ds : List Char} (digits : ∀ d ∈ ds, isHexDigit d = true)
    (own : parseDigits 16 ds = some c.toNat) (legal : 0 < c.toNat) (rest : List Char) :
    reference ('#' :: 'x' :: (ds ++ ';' :: rest)) = some (c, ds.length + 3) := by
  have run := takeWhile_run (c := ';') digits (by decide) rest
  simp only [reference, List.head?_cons, if_true, List.tail_cons, run, List.drop_left,
    ne_nil_of_parseDigits own, not_true_eq_false, or_false, if_false, own, Option.bind_some,
    fromCodePoint_toNat legal, Option.map_some, ne_eq]
  congr 2
  omega

/-- A reference is read where it stands. -/
theorem decodeFrom_reference {c : Char} {r rest : List Char}
    (refers : reference (r ++ rest) = some (c, r.length)) :
    decodeFrom 0 ('&' :: (r ++ rest)) = c :: decodeFrom 0 rest := by
  rw [decodeFrom, if_pos rfl, refers]
  exact congrArg _ (decodeFrom_skip r rest)

theorem Spelling.decodeFrom_eq {c : Char} {s : List Char} (spelling : Spelling c s)
    (rest : List Char) : decodeFrom 0 (s ++ rest) = c :: decodeFrom 0 rest := by
  cases spelling with
  | raw plain => rw [List.singleton_append, decodeFrom, if_neg plain.1]
  | named entity =>
    refine decodeFrom_reference ?_
    simpa using reference_named entity rest
  | decimal digits own legal =>
    refine decodeFrom_reference ?_
    simpa using reference_decimal digits own legal rest
  | hex digits own legal =>
    refine decodeFrom_reference ?_
    simpa using reference_hex digits own legal rest

theorem Spelling.open_not_mem {c : Char} {s : List Char} (spelling : Spelling c s) : '<' ∉ s := by
  have plain {p : Char → Bool} {ds : List Char} (all : ∀ d ∈ ds, p d = true)
      (foreign : p '<' = false) : '<' ∉ ds := fun mem => by
    rw [all _ mem] at foreign
    cases foreign
  cases spelling with
  | raw plain => simpa using plain.2.symm
  | named entity =>
    simp only [entities, List.mem_cons, Prod.mk.injEq, List.not_mem_nil, or_false] at entity
    obtain ⟨rfl, -⟩ | ⟨rfl, -⟩ | ⟨rfl, -⟩ | ⟨rfl, -⟩ | ⟨rfl, -⟩ := entity <;> decide
  | decimal digits own legal => simpa using plain digits (by decide)
  | hex digits own legal => simpa using plain digits (by decide)

theorem Spelling.ne_nil {c : Char} {s : List Char} (spelling : Spelling c s) : s ≠ [] := by
  cases spelling <;> exact List.cons_ne_nil _ _

/-- Escaped text. -/
def spell (s : List Spelled) : List Char := s.flatMap (·.spelling)

theorem decodeFrom_spell (s : List Spelled) (rest : List Char) :
    decodeFrom 0 (spell s ++ rest) = s.map (·.char) ++ decodeFrom 0 rest := by
  induction s with
  | nil => rfl
  | cons c s ih =>
    rw [spell, List.flatMap_cons, List.append_assoc, c.own.decodeFrom_eq, ← spell, ih]
    rfl

/-- However a text is escaped, it is read as it was. -/
theorem decodeXml_spell (s : List Spelled) : decodeXml (spell s) = s.map (·.char) := by
  have := decodeFrom_spell s []
  rwa [List.append_nil, decodeFrom, List.append_nil] at this

def isNameChar (c : Char) : Bool := c.isAlphanum || c ∈ ['-', '_', '.', ':'] || 0x80 ≤ c.toNat

def Named (tag : String) : Prop := tag.toList.all isNameChar = true

structure TagName where
  name : String
  named : Named name

/-- A declaration, an instruction or a comment, without its angles: no tag stands in it, and it is
no CDATA section. -/
structure Note where
  body : List Char
  kind : body.head? = some '!' ∨ body.head? = some '?'
  plain : '<' ∉ body
  noData : ¬ "![".toList <+: body

/-- What stands between two tags. -/
inductive Xml
  | nil
  | char (c : Spelled) (rest : Xml)
  | note (n : Note) (rest : Xml)
  | element (tag : TagName) (children rest : Xml)

namespace Xml

/-- The text of a document. -/
def render : Xml → List Char
  | nil => []
  | char c rest => c.spelling ++ rest.render
  | note n rest => mark n.body ++ rest.render
  | element tag children rest =>
    openTag tag.name ++ (children.render ++ (closeTag tag.name ++ rest.render))

/-- Its characters. -/
def content : Xml → List Char
  | nil => []
  | char c rest => c.char :: rest.content
  | note _ rest => rest.content
  | element _ children rest => children.content ++ rest.content

/-- The elements of a name, in the order of the document. -/
def elements (tag : String) : Xml → List Xml
  | nil => []
  | char _ rest => rest.elements tag
  | note _ rest => rest.elements tag
  | element tag' children rest =>
    if tag'.name = tag then children :: rest.elements tag
    else children.elements tag ++ rest.elements tag

def isNil : Xml → Bool
  | nil => true
  | _ => false

/-- Nothing but characters. -/
def TextOnly : Xml → Prop
  | nil => True
  | char _ rest => rest.TextOnly
  | _ => False

end Xml

/-- What the row reads the text of. -/
def leafTags : List String :=
  ["serial-number", "registration-number", "status-code", "status-date", "filing-date",
    "registration-date", "renewal-date", "mark-identification", "mark-drawing-code",
    "international-code", "type-code", "text", "party-name", "country", "state"]

/-- What the row looks inside. -/
def sectionTags : List String :=
  ["case-file", "case-file-header", "classifications", "case-file-owners", "case-file-owner",
    "nationality", "case-file-statements", "case-file-statement"]

/-- The document type: a leaf holds text only, and no section holds one of its own name. -/
def Xml.Declared : Xml → Prop
  | nil => True
  | char _ rest => rest.Declared
  | note _ rest => rest.Declared
  | element tag children rest =>
    (tag.name ∈ leafTags → children.TextOnly) ∧
    (tag.name ∈ sectionTags → children.elements tag.name = []) ∧
    children.Declared ∧ rest.Declared

structure Document where
  content : Xml
  declared : content.Declared

/-- A case file read from its elements. -/
def xmlTree : Markup Xml where
  first tag xml := (xml.elements tag).head?
  all tag xml := xml.elements tag
  value xml := String.ofList xml.content
  nothing := .nil
  isNothing := Xml.isNil

namespace Document

variable (doc : Document)

def text : List Char := doc.content.render

/-- The rows of its case files. -/
def caseFiles : List CaseFileRow :=
  (doc.content.elements "case-file").filterMap (parseCaseFile xmlTree)

end Document

section Marks

variable {q w : List Char} {tag : String}

theorem eq_of_mark_prefix (plain : '>' ∉ q) (plain' : '>' ∉ w) {s : List Char}
    (starts : q ++ ['>'] <+: w ++ '>' :: s) : q = w := by
  obtain ⟨t, same⟩ := starts
  have cut {v : List Char} (rest : List Char) (clear : '>' ∉ v) :
      (v ++ '>' :: rest).takeWhile (· ≠ '>') = v :=
    takeWhile_run (fun d mem => by simpa using fun is : d = '>' => clear (is ▸ mem))
      (by decide) rest
  have both := congrArg (List.takeWhile (· ≠ '>')) same
  rwa [List.append_assoc, List.singleton_append, cut _ plain, cut _ plain'] at both

theorem skips_mark (plain : '>' ∉ q) (plain' : '>' ∉ w) (flat : '<' ∉ w) (other : q ≠ w) :
    Skips (mark q) (mark w) := by
  refine .cons (fun s starts => other ?_) (.of_not_mem (by simp [flat]))
  rw [mark, List.cons_prefix_cons, List.append_assoc] at starts
  exact eq_of_mark_prefix plain plain' starts.2

theorem skips_note (n : Note) (plain : ∀ c ∈ q.head?, c ≠ '!' ∧ c ≠ '?') :
    Skips (mark q) (mark n.body) := by
  refine .cons (fun s starts => ?_) (.of_not_mem (by simpa using n.plain))
  rw [mark, List.cons_prefix_cons] at starts
  obtain ⟨c, body, is⟩ : ∃ c body, n.body = c :: body := by
    cases eq : n.body with
    | nil => have := n.kind; simp [eq] at this
    | cons c body => exact ⟨c, body, rfl⟩
  have kind := n.kind
  rw [is, List.head?_cons, Option.some.injEq, Option.some.injEq] at kind
  rw [is] at starts
  cases q with
  | nil =>
    have := (List.cons_prefix_cons.mp starts.2).1
    subst this
    revert kind
    decide
  | cons d q =>
    obtain rfl := (List.cons_prefix_cons.mp starts.2).1
    have := plain d rfl
    tauto

theorem Named.not_mem (named : Named tag) {c : Char} (foreign : isNameChar c = false) :
    c ∉ tag.toList := fun mem => by
  rw [List.all_eq_true.mp named c mem] at foreign
  cases foreign

theorem named_of_leaf (leaf : tag ∈ leafTags) : Named tag := by
  have all : (leafTags.all fun t => t.toList.all isNameChar) = true := by decide
  exact List.all_eq_true.mp all tag leaf

theorem named_of_section (inside : tag ∈ sectionTags) : Named tag := by
  have all : (sectionTags.all fun t => t.toList.all isNameChar) = true := by decide
  exact List.all_eq_true.mp all tag inside

/-- The insides of the tags of a name. -/
def tagMarks (tag : String) : List (List Char) := [tag.toList, '/' :: tag.toList]

theorem Named.mark_not_mem (named : Named tag) (own : q ∈ tagMarks tag) {c : Char}
    (foreign : isNameChar c = false) (inside : c ≠ '/') : c ∉ q := by
  obtain rfl | rfl : q = tag.toList ∨ q = '/' :: tag.toList := by simpa [tagMarks] using own
  · exact named.not_mem foreign
  · simpa [inside] using named.not_mem foreign

/-- Tags of another name. -/
theorem skips_tag (named : Named tag) (t : TagName) (other : t.name ≠ tag) (own : q ∈ tagMarks tag)
    (foreign : w ∈ tagMarks t.name) : Skips (mark q) (mark w) := by
  refine skips_mark (named.mark_not_mem own (by decide) (by decide))
    (t.named.mark_not_mem foreign (by decide) (by decide))
    (t.named.mark_not_mem foreign (by decide) (by decide)) fun same => ?_
  have slash := named.not_mem (c := '/') (by decide)
  have slash' := t.named.not_mem (c := '/') (by decide)
  simp only [tagMarks, List.mem_cons, List.not_mem_nil, or_false] at own foreign
  obtain rfl | rfl := own <;> obtain rfl | rfl := foreign
  · exact other (String.toList_injective same.symm)
  · exact slash (by simp [same])
  · exact slash' (by simp [← same])
  · exact other (String.toList_injective (List.cons.inj same).2.symm)

theorem Named.head (named : Named tag) (own : q ∈ tagMarks tag) :
    ∀ c ∈ q.head?, c ≠ '!' ∧ c ≠ '?' := by
  intro c first
  have mem := List.mem_of_mem_head? first
  constructor
  · rintro rfl
    exact named.mark_not_mem own (by decide) (by decide) mem
  · rintro rfl
    exact named.mark_not_mem own (by decide) (by decide) mem

/-- A text without elements of a name has none of its tags. -/
theorem skips_render (named : Named tag) (own : q ∈ tagMarks tag) {f : Xml}
    (absent : f.elements tag = []) : Skips (mark q) f.render := by
  induction f with
  | nil => exact .nil
  | char c rest ih => exact .append (.of_not_mem c.own.open_not_mem) (ih absent)
  | note n rest ih => exact .append (skips_note n (named.head own)) (ih absent)
  | element t children rest ihChildren ihRest =>
    rw [Xml.elements] at absent
    split at absent
    · cases absent
    · rename_i other
      obtain ⟨none', none''⟩ := List.append_eq_nil_iff.mp absent
      exact .append (skips_tag named t other own (by simp [tagMarks])) (.append (ihChildren none')
        (.append (skips_tag named t other own (by simp [tagMarks])) (ihRest none'')))

/-- The scan of a name finds its elements, where none holds another. -/
theorem pieces_render (named : Named tag) {f : Xml}
    (flat : ∀ e ∈ f.elements tag, e.elements tag = []) (s : List Char) :
    (pieces (openTag tag) (closeTag tag) (f.render ++ s)).1 =
      (f.elements tag).map Xml.render ++ (pieces (openTag tag) (closeTag tag) s).1 := by
  have marked := Ingest.openTag_ne_nil tag
  have opening : tag.toList ∈ tagMarks tag := by simp [tagMarks]
  induction f generalizing s with
  | nil => rfl
  | char c rest ih =>
    rw [Xml.render, List.append_assoc,
      pieces_of_skips marked (.of_not_mem c.own.open_not_mem), ih flat]
    rfl
  | note n rest ih =>
    rw [Xml.render, List.append_assoc,
      pieces_of_skips marked (skips_note n (named.head opening)), ih flat]
    rfl
  | element t children rest ihChildren ihRest =>
    rw [Xml.elements] at flat ⊢
    simp only [Xml.render, List.append_assoc]
    split at flat
    · rename_i same
      rw [if_pos same, same, pieces_of_marks marked, ihRest fun e mem => flat e (by simp [mem])]
      · rfl
      · exact skips_render named (by simp [tagMarks]) (flat children (by simp))
    · rename_i other
      rw [if_neg other, pieces_of_skips marked, ihChildren fun e mem => flat e (by simp [mem]),
        pieces_of_skips marked, ihRest fun e mem => flat e (by simp [mem]), List.map_append,
        List.append_assoc]
      · exact skips_tag named t other opening (by simp [tagMarks])
      · exact skips_tag named t other opening (by simp [tagMarks])

end Marks

namespace Xml

variable {f e : Xml} {tag : String}

theorem TextOnly.elements_eq (text : f.TextOnly) (tag : String) : f.elements tag = [] := by
  induction f with
  | nil => rfl
  | char c rest ih => exact ih text
  | note => exact text.elim
  | element => exact text.elim

theorem TextOnly.decode (text : f.TextOnly) : decodeXml f.render = f.content := by
  have all : ∃ s, f.render = spell s ∧ f.content = s.map (·.char) := by
    induction f with
    | nil => exact ⟨[], rfl, rfl⟩
    | char c rest ih =>
      obtain ⟨s, rendered, content⟩ := ih text
      exact ⟨c :: s, by rw [render, rendered]; rfl, by rw [Xml.content, content]; rfl⟩
    | note => exact text.elim
    | element => exact text.elim
  obtain ⟨s, rendered, content⟩ := all
  rw [rendered, content, decodeXml_spell]

theorem render_eq_nil : f.render = [] ↔ f = .nil := by
  cases f with
  | nil => simp [render]
  | char c rest => simp [render, c.own.ne_nil]
  | note n rest => simp [render, mark]
  | element t children rest => simp [render, openTag, mark]

/-- What is declared of an element that is found. -/
theorem Declared.of_mem (declared : f.Declared) (mem : e ∈ f.elements tag) :
    e.Declared ∧ (tag ∈ leafTags → e.TextOnly) ∧ (tag ∈ sectionTags → e.elements tag = []) := by
  induction f with
  | nil => cases mem
  | char c rest ih => exact ih declared mem
  | note n rest ih => exact ih declared mem
  | element t children rest ihChildren ihRest =>
    obtain ⟨leaf, inside, below, behind⟩ := declared
    rw [elements] at mem
    split at mem
    · rename_i same
      obtain rfl | mem := List.mem_cons.mp mem
      · exact ⟨below, same ▸ leaf, same ▸ inside⟩
      · exact ihRest behind mem
    · obtain mem | mem := List.mem_append.mp mem
      · exact ihChildren below mem
      · exact ihRest behind mem

end Xml

/-- The first element is the first of all. -/
theorem first_eq_head? (tag : String) (xml : List Char) :
    xmlText.first tag xml = (xmlText.all tag xml).head? :=
  (head?_pieces (Ingest.openTag_ne_nil tag) (closeTag tag) xml).symm

theorem all_render {f : Xml} {tag : String} (named : Named tag)
    (flat : ∀ e ∈ f.elements tag, e.elements tag = []) :
    xmlText.all tag f.render = (f.elements tag).map Xml.render := by
  have nothing : (pieces (openTag tag) (closeTag tag) []).1 = [] := rfl
  have := pieces_render named flat []
  rwa [nothing, List.append_nil, List.append_nil] at this

section Reading

variable {f : Xml} (declared : f.Declared) (tag : String)

include declared

theorem all_of_leaf (leaf : tag ∈ leafTags) :
    xmlText.all tag f.render = (f.elements tag).map Xml.render :=
  all_render (named_of_leaf leaf) fun _ mem => ((declared.of_mem mem).2.1 leaf).elements_eq tag

theorem all_of_section (inside : tag ∈ sectionTags) :
    xmlText.all tag f.render = (f.elements tag).map Xml.render :=
  all_render (named_of_section inside) fun _ mem => (declared.of_mem mem).2.2 inside

theorem pickAll_render (leaf : tag ∈ leafTags) :
    xmlText.pickAll tag f.render = xmlTree.pickAll tag f := by
  rw [Markup.pickAll, all_of_leaf declared tag leaf, List.map_map]
  refine List.map_congr_left fun e mem => ?_
  exact congrArg String.ofList ((declared.of_mem mem).2.1 leaf).decode

theorem pick_render (leaf : tag ∈ leafTags) :
    xmlText.pick tag f.render = xmlTree.pick tag f := by
  have all := congrArg List.head? (pickAll_render declared tag leaf)
  rwa [Markup.pickAll, Markup.pickAll, List.head?_map, List.head?_map, ← first_eq_head?] at all

theorem sectionOf_render (inside : tag ∈ sectionTags) :
    xmlText.sectionOf tag f.render = (xmlTree.sectionOf tag f).render := by
  rw [Markup.sectionOf, first_eq_head?, all_of_section declared tag inside, List.head?_map]
  show _ = ((f.elements tag).head?.getD .nil).render
  cases (f.elements tag).head? <;> rfl

theorem declared_sectionOf : (xmlTree.sectionOf tag f).Declared := by
  show ((f.elements tag).head?.getD .nil).Declared
  cases first : (f.elements tag).head? with
  | none => trivial
  | some e => exact (declared.of_mem (List.mem_of_mem_head? first)).1

omit declared in
theorem isNothing_render (f : Xml) : xmlText.isNothing f.render = xmlTree.isNothing f := by
  show f.render.isEmpty = f.isNil
  rw [Bool.eq_iff_iff, List.isEmpty_iff, Xml.render_eq_nil]
  cases f <;> simp [Xml.isNil]

theorem sectionIn_render (inside : tag ∈ sectionTags) :
    xmlText.sectionIn tag f.render = (xmlTree.sectionIn tag f).render := by
  rw [Markup.sectionIn, Markup.sectionIn, isNothing_render, sectionOf_render declared tag inside]
  split <;> rfl

theorem declared_sectionIn : (xmlTree.sectionIn tag f).Declared := by
  rw [Markup.sectionIn]
  split
  · trivial
  · exact declared_sectionOf declared tag

theorem pickIn_render (leaf : tag ∈ leafTags) :
    xmlText.pickIn tag f.render = xmlTree.pickIn tag f := by
  rw [Markup.pickIn, Markup.pickIn, isNothing_render, pick_render declared tag leaf]

theorem goodsOf_render : goodsOf xmlText f.render = goodsOf xmlTree f := by
  have inner := declared_sectionOf declared "case-file-statements"
  rw [goodsOf, sectionOf_render declared _ (by decide), Markup.splitElements,
    all_of_section inner _ (by decide), List.filterMap_map]
  refine List.filterMap_congr fun e mem => ?_
  have own := (inner.of_mem mem).1
  simp only [Function.comp_apply, pick_render own "type-code" (by decide),
    pick_render own "text" (by decide)]

/-- The row of a case file, read from its text and from its elements. -/
theorem parseCaseFile_render : parseCaseFile xmlText f.render = parseCaseFile xmlTree f := by
  have owners := declared_sectionOf declared "case-file-owners"
  have owner := declared_sectionIn owners "case-file-owner"
  have nationality := declared_sectionIn owner "nationality"
  have header := declared_sectionOf declared "case-file-header"
  have classes := declared_sectionOf declared "classifications"
  simp only [parseCaseFile, goodsOf_render declared,
    sectionOf_render declared "case-file-header" (by decide),
    sectionOf_render declared "classifications" (by decide),
    sectionOf_render declared "case-file-owners" (by decide),
    sectionIn_render owners "case-file-owner" (by decide),
    sectionIn_render owner "nationality" (by decide),
    pickAll_render classes "international-code" (by decide),
    pickIn_render owner "party-name" (by decide),
    pickIn_render nationality "country" (by decide),
    pickIn_render nationality "state" (by decide),
    pick_render declared "serial-number" (by decide),
    pick_render declared "registration-number" (by decide),
    pick_render header "mark-identification" (by decide),
    pick_render header "status-code" (by decide),
    pick_render header "status-date" (by decide),
    pick_render header "mark-drawing-code" (by decide),
    pick_render header "filing-date" (by decide),
    pick_render header "registration-date" (by decide),
    pick_render header "renewal-date" (by decide)]

end Reading

/-- The rows of a document are those of its case files. -/
theorem caseFiles_text (doc : Document) : caseFiles doc.text = doc.caseFiles := by
  have bodies := all_of_section doc.declared "case-file" (by decide)
  show (xmlText.all "case-file" doc.text).filterMap _ = _
  rw [Document.text, bodies, List.filterMap_map]
  refine List.filterMap_congr fun e mem => ?_
  exact parseCaseFile_render (doc.declared.of_mem mem).1

/-- However a stream is cut, each of its case files is handed on once, in order; in a document
under the office's type the row of a case file is read from its elements; and escaped text is read
as it was. -/
theorem every_case_file_once :
    (∀ (stream : Stream) (batchSize : ℕ),
      HandsOn (caseFiles stream.text) (ingestStream batchSize stream.chunks)) ∧
    (∀ doc : Document, caseFiles doc.text = doc.caseFiles) ∧
    (∀ s : List Spelled, decodeXml (spell s) = s.map (·.char)) :=
  ⟨handsOn_ingestStream, caseFiles_text, decodeXml_spell⟩

/-- The other way to write text: a CDATA section, which stands for what is inside. -/
def markedSection (s : List Char) : List Char := "<![CDATA[".toList ++ s ++ "]]>".toList

/-- A stream of one case file, in one chunk. -/
def caseFileOf (markIdentification : List Char) : Stream where
  text := "<case-file><serial-number>1</serial-number><case-file-header>".toList ++
    openTag "mark-identification" ++ markIdentification ++ closeTag "mark-identification" ++
    "</case-file-header></case-file>".toList
  chunks := [_]
  bytes := List.flatten_singleton

/-- A mark in a CDATA section is handed on with the section's own marks. -/
theorem marked_section_is_kept : ¬ ∀ s : List Char, ¬ "]]>".toList <:+: s →
    (ingestStream 20000 (caseFileOf (markedSection s)).chunks).1.flatten.map (·.text) =
      [String.ofList s] := by
  intro claimed
  have nova := claimed "NOVA".toList (by decide)
  revert nova
  decide +kernel

end Clearotron.CaseFiles
