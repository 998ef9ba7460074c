import Mathlib.Data.List.Nodup

/-!
# Insertion-ordered maps and merges by key

A keyed map is the list of its entries in the order their keys were first written,
and no key stands in it twice: that is a field, so every map built by these
operations has it. Writing a key again changes its value and not its place.

A merge by key goes the other way: of the values that share a key the first is kept.

A map filled from a list of offers keeps what a key was offered first: a later offer of the key
changes nothing, and neither does a value with no key.
-/

namespace Clearotron

/-- An insertion-ordered map. -/
structure Keyed (κ ν : Type) where
  entries : List (κ × ν)
  nodup : (entries.map Prod.fst).Nodup
  deriving DecidableEq

namespace Keyed

variable {κ ν : Type}

/-- The map with no entries. -/
def empty : Keyed κ ν := ⟨[], List.nodup_nil⟩

def keys (m : Keyed κ ν) : List κ := m.entries.map Prod.fst

theorem keys_nodup (m : Keyed κ ν) : m.keys.Nodup := m.nodup

theorem mem_keys_of_mem {m : Keyed κ ν} {k : κ} {v : ν} (h : (k, v) ∈ m.entries) :
    k ∈ m.keys := List.mem_map_of_mem (f := Prod.fst) h

theorem exists_mem_of_mem_keys {m : Keyed κ ν} {k : κ} (h : k ∈ m.keys) :
    ∃ v, (k, v) ∈ m.entries := by
  obtain ⟨⟨k, v⟩, mem, rfl⟩ := List.mem_map.mp h
  exact ⟨v, mem⟩

/-- A key has one value. -/
theorem value_unique {m : Keyed κ ν} {k : κ} {v w : ν} (hv : (k, v) ∈ m.entries)
    (hw : (k, w) ∈ m.entries) : v = w :=
  congrArg Prod.snd (List.inj_on_of_nodup_map m.nodup hv hw rfl)

@[simp] theorem entries_empty : (empty : Keyed κ ν).entries = [] := rfl

@[simp] theorem keys_empty : (empty : Keyed κ ν).keys = [] := rfl

variable [DecidableEq κ]

/-- Write a key into a list of entries: in place where it stands, else at the end. -/
def write : List (κ × ν) → κ → ν → List (κ × ν)
  | [], k, v => [(k, v)]
  | (k', w) :: rest, k, v =>
      if k' = k then (k', v) :: rest else (k', w) :: write rest k v

example : write [('a', 1), ('b', 2)] 'a' 3 = [('a', 3), ('b', 2)] := by simp [write]

theorem map_fst_write (entries : List (κ × ν)) (k : κ) (v : ν) :
    (write entries k v).map Prod.fst =
      if k ∈ entries.map Prod.fst then entries.map Prod.fst
      else entries.map Prod.fst ++ [k] := by
  induction entries with
  | nil => simp [write]
  | cons entry rest ih =>
      obtain ⟨k', w⟩ := entry
      by_cases h : k' = k
      · simp [write, h]
      · have h' : ¬ k = k' := fun e => h e.symm
        simp only [write, h, if_false, List.map_cons, ih, List.mem_cons, h', false_or]
        split <;> simp

/-- `m[k] = v`. -/
def set (m : Keyed κ ν) (k : κ) (v : ν) : Keyed κ ν where
  entries := write m.entries k v
  nodup := by
    rw [map_fst_write]
    split
    · exact m.nodup
    · next fresh =>
        exact List.Nodup.append m.nodup (List.nodup_singleton k) (by simpa using fresh)

/-- `Object.assign(m, more)`. -/
def assign (m more : Keyed κ ν) : Keyed κ ν :=
  more.entries.foldl (fun acc kv => acc.set kv.1 kv.2) m

/-- `m[k]`. -/
def get (m : Keyed κ ν) (k : κ) : Option ν := m.entries.lookup k

theorem keys_set (m : Keyed κ ν) (k : κ) (v : ν) :
    (m.set k v).keys = if k ∈ m.keys then m.keys else m.keys ++ [k] :=
  map_fst_write m.entries k v

@[simp] theorem mem_keys_set {m : Keyed κ ν} {k k' : κ} {v : ν} :
    k' ∈ (m.set k v).keys ↔ k' ∈ m.keys ∨ k' = k := by
  rw [keys_set]
  split
  · next present => exact ⟨.inl, fun h => h.elim id fun e => e ▸ present⟩
  · simp

theorem mem_write {entries : List (κ × ν)} {k k' : κ} {v v' : ν}
    (nodup : (entries.map Prod.fst).Nodup) :
    (k', v') ∈ write entries k v ↔ k' = k ∧ v' = v ∨ k' ≠ k ∧ (k', v') ∈ entries := by
  induction entries with
  | nil => simp [write]
  | cons entry rest ih =>
      obtain ⟨j, w⟩ := entry
      simp only [List.map_cons, List.nodup_cons] at nodup
      by_cases h : j = k
      · subst h
        have absent : (j, v') ∉ rest := fun mem =>
          nodup.1 (List.mem_map_of_mem (f := Prod.fst) mem)
        simp only [write, if_true, List.mem_cons, Prod.mk.injEq]
        constructor
        · rintro (⟨rfl, rfl⟩ | mem)
          · exact .inl ⟨rfl, rfl⟩
          · by_cases e : k' = j
            · subst e; exact absurd mem absent
            · exact .inr ⟨e, .inr mem⟩
        · rintro (⟨rfl, rfl⟩ | ⟨ne, ⟨rfl, -⟩ | mem⟩)
          · exact .inl ⟨rfl, rfl⟩
          · exact absurd rfl ne
          · exact .inr mem
      · simp only [write, h, if_false, List.mem_cons, Prod.mk.injEq, ih nodup.2]
        constructor
        · rintro (⟨rfl, rfl⟩ | ⟨rfl, rfl⟩ | ⟨ne, mem⟩)
          · exact .inr ⟨h, .inl ⟨rfl, rfl⟩⟩
          · exact .inl ⟨rfl, rfl⟩
          · exact .inr ⟨ne, .inr mem⟩
        · rintro (⟨rfl, rfl⟩ | ⟨ne, ⟨rfl, rfl⟩ | mem⟩)
          · exact .inr (.inl ⟨rfl, rfl⟩)
          · exact .inl ⟨rfl, rfl⟩
          · exact .inr (.inr ⟨ne, mem⟩)

/-- After a write, the key has the value written and every other key its own. -/
theorem mem_set {m : Keyed κ ν} {k k' : κ} {v v' : ν} :
    (k', v') ∈ (m.set k v).entries ↔
      k' = k ∧ v' = v ∨ k' ≠ k ∧ (k', v') ∈ m.entries :=
  mem_write m.nodup

theorem mem_set_self {m : Keyed κ ν} {k : κ} {v : ν} : (k, v) ∈ (m.set k v).entries :=
  mem_set.mpr (.inl ⟨rfl, rfl⟩)

theorem lookup_write (entries : List (κ × ν)) (k k' : κ) (v : ν) :
    (write entries k v).lookup k' = if k' = k then some v else entries.lookup k' := by
  induction entries with
  | nil =>
      by_cases same : k' = k
      · simp [write, same]
      · have apart : (k' == k) = false := by simpa using same
        simp [write, List.lookup_cons, same, apart]
  | cons entry rest ih =>
      obtain ⟨k₀, w⟩ := entry
      by_cases here : k₀ = k
      · subst here
        by_cases same : k' = k₀
        · simp [write, same]
        · have apart : (k' == k₀) = false := by simpa using same
          simp [write, List.lookup_cons, same, apart]
      · by_cases first : k' = k₀
        · have other : k' ≠ k := first ▸ here
          simp [write, here, first]
        · have apart : (k' == k₀) = false := by simpa using first
          simp only [write, here, if_false, List.lookup_cons, apart]
          exact ih

/-- What is computed from each entry, where the new value gives what the old one gave. -/
theorem flatMap_write {β : Type} {f : κ × ν → List β} {entries : List (κ × ν)} {k : κ} {v w : ν}
    (found : entries.lookup k = some w) (same : f (k, v) = f (k, w)) :
    (write entries k v).flatMap f = entries.flatMap f := by
  induction entries with
  | nil => cases found
  | cons entry rest ih =>
      obtain ⟨k', u⟩ := entry
      by_cases here : k' = k
      · subst here
        obtain rfl : u = w := by simpa using found
        simp [write, same]
      · have apart : (k == k') = false := by simpa using fun e => here e.symm
        rw [List.lookup_cons, apart] at found
        simp [write, here, ih found]

/-- The first entry with a key of a kind, after a write. -/
theorem find?_write (p : κ → Bool) (entries : List (κ × ν)) (k : κ) (v : ν) :
    (write entries k v).find? (fun kv => p kv.1) =
      match entries.find? fun kv => p kv.1 with
      | some (k', w) => if k' = k then some (k, v) else some (k', w)
      | none => if p k then some (k, v) else none := by
  induction entries with
  | nil =>
      cases holds : p k <;> simp [write, holds]
  | cons entry rest ih =>
      obtain ⟨k', u⟩ := entry
      by_cases here : k' = k
      · subst here
        cases holds : p k' with
        | true => simp [write, holds]
        | false =>
            have other : ∀ w, rest.find? (fun kv => p kv.1) ≠ some (k', w) := fun w found => by
              simpa [holds] using List.find?_some found
            simp only [write, if_true, List.find?_cons, holds]
            split
            · next k₀ w found =>
                have ne : k₀ ≠ k' := fun e => other w (e ▸ found)
                rw [if_neg ne, found]
            · next found => simp [found]
      · cases holds : p k' with
        | true => simp [write, here, holds]
        | false => simp [write, here, holds, ih]

/-- A write under a key that is not of the kind. -/
theorem filter_write {p : κ → Bool} {entries : List (κ × ν)} {k : κ} {v : ν} (other : p k = false) :
    (write entries k v).filter (fun kv => p kv.1) = entries.filter fun kv => p kv.1 := by
  induction entries with
  | nil => simp [write, other]
  | cons entry rest ih =>
      obtain ⟨k', u⟩ := entry
      by_cases here : k' = k
      · subst here
        simp [write, other]
      · simp [write, here, List.filter_cons, ih]

/-- A key read after a write: the value written, or what stood there. -/
theorem get_set (m : Keyed κ ν) (k k' : κ) (v : ν) :
    (m.set k v).get k' = if k' = k then some v else m.get k' :=
  lookup_write m.entries k k' v

@[simp] theorem get_empty (k : κ) : (empty : Keyed κ ν).get k = none := rfl

/-- `delete m[k]`. -/
def erase (m : Keyed κ ν) (k : κ) : Keyed κ ν where
  entries := m.entries.filter fun kv => kv.1 ≠ k
  nodup := m.nodup.sublist ((List.filter_sublist (p := fun kv => decide (kv.1 ≠ k))).map Prod.fst)

theorem mem_erase {m : Keyed κ ν} {k k' : κ} {v : ν} :
    (k', v) ∈ (m.erase k).entries ↔ (k', v) ∈ m.entries ∧ k' ≠ k := by
  simp [erase]

/-- A deletion does not touch the entries under other keys. -/
theorem filter_erase {m : Keyed κ ν} {k : κ} {p : κ → Bool} (other : p k = false) :
    (m.erase k).entries.filter (fun kv => p kv.1) = m.entries.filter fun kv => p kv.1 := by
  rw [erase, List.filter_filter]
  refine List.filter_congr fun kv _ => ?_
  by_cases same : kv.1 = k
  · simp [same, other]
  · simp [same]

theorem write_self {entries : List (κ × ν)} {k : κ} {v : ν} (there : entries.lookup k = some v) :
    write entries k v = entries := by
  induction entries with
  | nil => cases there
  | cons entry rest ih =>
      obtain ⟨k', w⟩ := entry
      by_cases here : k' = k
      · subst here
        obtain rfl : w = v := by simpa using there
        simp [write]
      · have apart : (k == k') = false := by simpa using fun e => here e.symm
        rw [List.lookup_cons, apart] at there
        simp [write, here, ih there]

/-- Writing what stands there. -/
theorem set_self {m : Keyed κ ν} {k : κ} {v : ν} (there : m.get k = some v) : m.set k v = m := by
  obtain ⟨entries, nodup⟩ := m
  unfold set
  congr
  exact write_self there

theorem get_eq_some {m : Keyed κ ν} {k : κ} {v : ν} :
    m.get k = some v ↔ (k, v) ∈ m.entries := by
  constructor
  · intro found
    obtain ⟨front, back, split, -⟩ := List.lookup_eq_some_iff.mp found
    rw [split]
    simp
  · intro mem
    cases found : m.get k with
    | some w =>
        obtain ⟨front, back, split, -⟩ := List.lookup_eq_some_iff.mp found
        have there : (k, w) ∈ m.entries := by rw [split]; simp
        rw [value_unique there mem]
    | none => simpa using List.lookup_eq_none_iff.mp found (k, v) mem

theorem get_erase (m : Keyed κ ν) (k k' : κ) :
    (m.erase k).get k' = if k' = k then none else m.get k' := by
  apply Option.ext
  intro v
  rw [get_eq_some, mem_erase, ← get_eq_some]
  by_cases same : k' = k
  · simp [same]
  · simp [same]

/-- The entries of a kind. -/
def keepIf (m : Keyed κ ν) (p : κ → ν → Bool) : Keyed κ ν where
  entries := m.entries.filter fun kv => p kv.1 kv.2
  nodup := m.nodup.sublist (List.filter_sublist.map _)

omit [DecidableEq κ] in
theorem mem_keepIf {m : Keyed κ ν} {p : κ → ν → Bool} {k : κ} {v : ν} :
    (k, v) ∈ (m.keepIf p).entries ↔ (k, v) ∈ m.entries ∧ p k v = true :=
  List.mem_filter

/-- Every value changed in its place. -/
def mapValues {μ : Type} (m : Keyed κ ν) (f : ν → μ) : Keyed κ μ where
  entries := m.entries.map fun kv => (kv.1, f kv.2)
  nodup := by
    rw [List.map_map]
    exact m.nodup

/-- Writing a list of entries: what stands at the end was there or was written. -/
theorem mem_foldl_set {ι : Type} {key : ι → κ} {value : ι → ν} {items : List ι}
    {m : Keyed κ ν} {k : κ} {v : ν}
    (h : (k, v) ∈ (items.foldl (fun acc i => acc.set (key i) (value i)) m).entries) :
    (k, v) ∈ m.entries ∨ ∃ i ∈ items, key i = k ∧ value i = v := by
  induction items generalizing m with
  | nil => exact .inl h
  | cons item rest ih =>
      obtain mem | ⟨i, hi, hk, hv⟩ := ih h
      · obtain ⟨rfl, rfl⟩ | ⟨-, mem⟩ := mem_set.mp mem
        · exact .inr ⟨item, by simp, rfl, rfl⟩
        · exact .inl mem
      · exact .inr ⟨i, by simp [hi], hk, hv⟩

@[simp] theorem mem_keys_foldl_set {ι : Type} {key : ι → κ} {value : ι → ν}
    {items : List ι} {m : Keyed κ ν} {k : κ} :
    k ∈ (items.foldl (fun acc i => acc.set (key i) (value i)) m).keys ↔
      k ∈ m.keys ∨ k ∈ items.map key := by
  induction items generalizing m with
  | nil => simp
  | cons item rest ih =>
      simp only [List.foldl_cons, ih, mem_keys_set, List.map_cons, List.mem_cons]
      tauto

/-- An entry whose key is not written again stays. -/
theorem mem_foldl_set_of_absent {ι : Type} {key : ι → κ} {value : ι → ν} {items : List ι}
    {m : Keyed κ ν} {k : κ} {v : ν} (absent : k ∉ items.map key) (mem : (k, v) ∈ m.entries) :
    (k, v) ∈ (items.foldl (fun acc i => acc.set (key i) (value i)) m).entries := by
  induction items generalizing m with
  | nil => exact mem
  | cons item rest ih =>
      simp only [List.map_cons, List.mem_cons, not_or] at absent
      exact ih absent.2 (mem_set.mpr (.inr ⟨absent.1, mem⟩))

/-- Where no two items share a key, each item's value is the one written. -/
theorem mem_foldl_set_of_nodup {ι : Type} {key : ι → κ} {value : ι → ν} {items : List ι}
    {m : Keyed κ ν} (nodup : (items.map key).Nodup) {i : ι} (mem : i ∈ items) :
    (key i, value i) ∈ (items.foldl (fun acc i => acc.set (key i) (value i)) m).entries := by
  induction items generalizing m with
  | nil => cases mem
  | cons item rest ih =>
      simp only [List.map_cons, List.nodup_cons] at nodup
      rw [List.foldl_cons]
      obtain rfl | later := List.mem_cons.mp mem
      · exact mem_foldl_set_of_absent nodup.1 mem_set_self
      · exact ih nodup.2 later

/-- An item whose key no other item has is the one written. -/
theorem mem_foldl_set_of_count {ι : Type} {key : ι → κ} {value : ι → ν} {items : List ι}
    {m : Keyed κ ν} {i : ι} (once : (items.map key).count (key i) = 1) (mem : i ∈ items) :
    (key i, value i) ∈ (items.foldl (fun acc i => acc.set (key i) (value i)) m).entries := by
  obtain ⟨before, later, rfl⟩ := List.append_of_mem mem
  have absent : key i ∉ later.map key := by
    intro again
    have := List.count_pos_iff.mpr again
    simp only [List.map_append, List.map_cons, List.count_append, List.count_cons_self] at once
    omega
  rw [List.foldl_append, List.foldl_cons]
  exact mem_foldl_set_of_absent absent mem_set_self

/-- What is assigned over is kept where the other side has no such key. -/
theorem mem_assign_of_absent {m more : Keyed κ ν} {k : κ} {v : ν} (absent : k ∉ more.keys)
    (mem : (k, v) ∈ m.entries) : (k, v) ∈ (m.assign more).entries :=
  mem_foldl_set_of_absent absent mem

/-- What is assigned stands. -/
theorem mem_assign_of_mem {m more : Keyed κ ν} {k : κ} {v : ν} (mem : (k, v) ∈ more.entries) :
    (k, v) ∈ (m.assign more).entries :=
  mem_foldl_set_of_nodup more.nodup mem

@[simp] theorem mem_keys_assign {m more : Keyed κ ν} {k : κ} :
    k ∈ (m.assign more).keys ↔ k ∈ m.keys ∨ k ∈ more.keys := by
  unfold assign
  rw [mem_keys_foldl_set]
  rfl

theorem mem_keys_iff_isSome {m : Keyed κ ν} {k : κ} : k ∈ m.keys ↔ (m.get k).isSome = true := by
  rw [Option.isSome_iff_exists]
  constructor
  · intro mem
    obtain ⟨v, mem⟩ := exists_mem_of_mem_keys mem
    exact ⟨v, get_eq_some.mpr mem⟩
  · rintro ⟨v, found⟩
    exact mem_keys_of_mem (get_eq_some.mp found)

theorem get_eq_none {m : Keyed κ ν} {k : κ} : m.get k = none ↔ k ∉ m.keys := by
  rw [mem_keys_iff_isSome]
  simp

/-- A key read after an assignment: the value assigned, or what stood there. -/
theorem get_assign (m more : Keyed κ ν) (k : κ) :
    (m.assign more).get k = (more.get k).or (m.get k) := by
  cases given : more.get k with
  | some v => exact get_eq_some.mpr (mem_assign_of_mem (get_eq_some.mp given))
  | none =>
      have absent := get_eq_none.mp given
      cases held : m.get k with
      | some v => exact get_eq_some.mpr (mem_assign_of_absent absent (get_eq_some.mp held))
      | none =>
          rw [Option.none_or, get_eq_none, mem_keys_assign, not_or]
          exact ⟨get_eq_none.mp held, absent⟩

/-- Keys that stand are assigned in their places. -/
theorem keys_assign_of_subset {m more : Keyed κ ν} (sub : more.keys ⊆ m.keys) :
    (m.assign more).keys = m.keys := by
  obtain ⟨items, nodup⟩ := more
  unfold assign
  dsimp only
  have within : ∀ kv ∈ items, kv.1 ∈ m.keys := fun kv mem => sub (List.mem_map_of_mem mem)
  clear sub nodup
  induction items generalizing m with
  | nil => rfl
  | cons item rest ih =>
      have first : (m.set item.1 item.2).keys = m.keys := by
        rw [keys_set, if_pos (within item List.mem_cons_self)]
      rw [List.foldl_cons, ih fun kv mem => first ▸ within kv (List.mem_cons_of_mem _ mem), first]

theorem get_keepIf (m : Keyed κ ν) (p : κ → Bool) (k : κ) :
    (m.keepIf fun k _ => p k).get k = if p k then m.get k else none := by
  apply Option.ext
  intro v
  rw [get_eq_some, mem_keepIf, ← get_eq_some]
  by_cases kept : p k = true
  · simp [kept]
  · simp [kept]

/-- Two maps with the same keys in the same order and the same values are one. -/
theorem ext_get {m m' : Keyed κ ν} (keys : m.keys = m'.keys) (get : ∀ k, m.get k = m'.get k) :
    m = m' := by
  obtain ⟨entries, nodup⟩ := m
  obtain ⟨entries', nodup'⟩ := m'
  unfold Keyed.keys at keys
  unfold Keyed.get at get
  dsimp only at keys get
  congr
  clear nodup'
  induction entries generalizing entries' with
  | nil => exact (List.map_eq_nil_iff.mp keys.symm).symm
  | cons entry rest ih =>
      obtain ⟨k, v⟩ := entry
      cases entries' with
      | nil => cases keys
      | cons entry' rest' =>
          obtain ⟨k', v'⟩ := entry'
          obtain ⟨rfl, keys'⟩ := List.cons.inj keys
          obtain rfl : v = v' := by simpa using get k
          obtain ⟨fresh, nodup'⟩ := List.nodup_cons.mp nodup
          refine congrArg _ (ih nodup' rest' keys' fun j => ?_)
          by_cases same : j = k
          · subst same
            have absent (l : List (κ × ν)) (apart : j ∉ l.map Prod.fst) : l.lookup j = none := by
              refine List.lookup_eq_none_iff.mpr fun kv mem => ?_
              simpa using fun e : j = kv.1 => apart (e ▸ List.mem_map_of_mem mem)
            rw [absent rest fresh, absent rest' (keys' ▸ fresh)]
          · have apart : (j == k) = false := by simpa using same
            simpa [List.lookup_cons, apart] using get j

/-- `Object.fromEntries`: of a key written twice, the value written last. -/
def ofList (items : List (κ × ν)) : Keyed κ ν :=
  items.foldl (fun m kv => m.set kv.1 kv.2) empty

theorem write_fresh {entries : List (κ × ν)} {k : κ} {v : ν}
    (fresh : k ∉ entries.map Prod.fst) : write entries k v = entries ++ [(k, v)] := by
  induction entries with
  | nil => rfl
  | cons entry rest ih =>
      simp only [List.map_cons, List.mem_cons, not_or] at fresh
      have apart : entry.1 ≠ k := fun e => fresh.1 e.symm
      simp [write, apart, ih fresh.2]

/-- Written from its own entries, a map is itself. -/
theorem ofList_entries (m : Keyed κ ν) : ofList m.entries = m := by
  have apart (items : List (κ × ν)) (acc : Keyed κ ν)
      (nodup : ((acc.entries ++ items).map Prod.fst).Nodup) :
      (items.foldl (fun m kv => m.set kv.1 kv.2) acc).entries = acc.entries ++ items := by
    induction items generalizing acc with
    | nil => simp
    | cons item rest ih =>
        have fresh : item.1 ∉ acc.entries.map Prod.fst := by
          intro mem
          rw [List.map_append, List.nodup_append] at nodup
          exact nodup.2.2 _ mem _ (by simp) rfl
        have step : (acc.set item.1 item.2).entries = acc.entries ++ [item] := write_fresh fresh
        rw [List.foldl_cons, ih _ (by rw [step]; simpa using nodup), step]
        simp
  obtain ⟨entries, nodup⟩ := m
  have whole := apart entries empty (by simpa using nodup)
  unfold ofList
  simp only [entries_empty, List.nil_append] at whole
  generalize List.foldl (fun m kv => Keyed.set m kv.1 kv.2) empty entries = built at whole ⊢
  obtain ⟨entries', _⟩ := built
  obtain rfl : entries' = entries := whole
  rfl

end Keyed

section Merge

variable {α κ : Type} [DecidableEq κ]

/-- Two values are one when their keys agree; the first to arrive is kept. -/
def mergeBy (keyOf : α → κ) : List α → List α → List α
  | merged, [] => merged
  | merged, x :: rest =>
      if keyOf x ∈ merged.map keyOf then mergeBy keyOf merged rest
      else mergeBy keyOf (merged ++ [x]) rest

/-- Every key of either side is carried, and no other. -/
theorem mem_map_mergeBy {keyOf : α → κ} {merged more : List α} {k : κ} :
    k ∈ (mergeBy keyOf merged more).map keyOf ↔ k ∈ merged.map keyOf ∨ k ∈ more.map keyOf := by
  induction more generalizing merged with
  | nil => simp [mergeBy]
  | cons x rest ih =>
      unfold mergeBy
      split
      · next known =>
          rw [ih, List.map_cons, List.mem_cons]
          constructor
          · rintro (h | h)
            · exact .inl h
            · exact .inr (.inr h)
          · rintro (h | rfl | h)
            · exact .inl h
            · exact .inl known
            · exact .inr h
      · rw [ih, List.map_append, List.mem_append, List.map_cons, List.mem_cons]
        simp only [List.map_cons, List.map_nil, List.mem_cons, List.not_mem_nil, or_false,
          or_assoc]

end Merge

end Clearotron

namespace Clearotron.Keyed

variable {κ ν α : Type} [DecidableEq κ]

/-- Put a value where its key is free. -/
def offer (m : Keyed κ ν) : Option (κ × ν) → Keyed κ ν
  | none => m
  | some (k, v) => if (m.get k).isSome then m else m.set k v

theorem get_offer (m : Keyed κ ν) (o : Option (κ × ν)) (k : κ) :
    (m.offer o).get k = (m.get k).or (o.toList.lookup k) := by
  rcases o with _ | ⟨k', v⟩
  · simp [offer]
  · rw [offer]
    by_cases own : k = k'
    · subst own
      cases there : m.get k with
      | none => simp [get_set]
      | some w => simp [there]
    · have apart : ([(k', v)] : List (κ × ν)).lookup k = none := by
        rw [List.lookup_cons, beq_eq_false_iff_ne.mpr own, List.lookup_nil]
      rw [Option.toList_some, apart, Option.or_none]
      split
      · rfl
      · rw [get_set, if_neg own]

/-- A fold that only makes offers leaves a key what it had, or what it was offered first. -/
theorem get_foldl_offer {step : Keyed κ ν → α → Keyed κ ν} {offered : α → Option (κ × ν)}
    (puts : ∀ m x, step m x = m.offer (offered x)) (xs : List α) (m : Keyed κ ν) (k : κ) :
    (xs.foldl step m).get k = (m.get k).or ((xs.filterMap offered).lookup k) := by
  induction xs generalizing m with
  | nil => simp
  | cons x xs ih =>
    have front : (x :: xs).filterMap offered = (offered x).toList ++ xs.filterMap offered := by
      cases is : offered x <;> simp [is]
    rw [List.foldl_cons, ih, puts, get_offer, front, List.lookup_append, Option.or_assoc]

end Clearotron.Keyed
