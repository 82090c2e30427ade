/-!
# Maps with string keys

A `KeyMap` lists its entries in strictly ascending key order, so two maps with the same entries
are equal as values and a listing never depends on the order of insertion.
-/

namespace PluginHost

/-- Entries under string keys, in strictly ascending key order. -/
structure KeyMap (α : Type) where
  entries : List (String × α)
  sorted : entries.Pairwise (fun a b => a.1 < b.1)
  deriving DecidableEq

namespace KeyMap

variable {α : Type}

/-! ### Sorted insertion -/

/-- The entries with `key` bound to `value`: an entry under the same key is replaced. -/
def insertEntry (key : String) (value : α) : List (String × α) → List (String × α)
  | [] => [(key, value)]
  | e :: rest =>
    if key < e.1 then (key, value) :: e :: rest
    else if e.1 < key then e :: insertEntry key value rest
    else (key, value) :: rest

theorem mem_of_mem_insertEntry {key : String} {value : α} {l : List (String × α)}
    {e : String × α} (h : e ∈ insertEntry key value l) : e = (key, value) ∨ e ∈ l := by
  induction l with
  | nil => simpa [insertEntry] using h
  | cons d rest ih =>
    unfold insertEntry at h
    split at h
    · exact List.mem_cons.1 h
    · split at h
      · rcases List.mem_cons.1 h with rfl | h
        · exact Or.inr List.mem_cons_self
        · exact (ih h).imp_right (List.mem_cons_of_mem _)
      · exact (List.mem_cons.1 h).imp_right (List.mem_cons_of_mem _)

theorem pairwise_insertEntry (key : String) (value : α) {l : List (String × α)}
    (h : l.Pairwise (fun a b => a.1 < b.1)) :
    (insertEntry key value l).Pairwise (fun a b => a.1 < b.1) := by
  induction l with
  | nil => simp [insertEntry]
  | cons d rest ih =>
    have hd := List.pairwise_cons.1 h
    unfold insertEntry
    split
    · rename_i hlt
      refine List.pairwise_cons.2 ⟨fun e he => ?_, h⟩
      rcases List.mem_cons.1 he with rfl | he
      · exact hlt
      · exact String.lt_trans hlt (hd.1 e he)
    · split
      · rename_i hgt
        refine List.pairwise_cons.2 ⟨fun e he => ?_, ih hd.2⟩
        rcases mem_of_mem_insertEntry he with rfl | he
        · exact hgt
        · exact hd.1 e he
      · rename_i hge hle
        have heq : d.1 = key := String.le_antisymm (String.not_lt.1 hge) (String.not_lt.1 hle)
        exact List.pairwise_cons.2 ⟨fun e he => heq ▸ hd.1 e he, hd.2⟩

/-! ### Operations -/

/-- The map without entries. -/
def empty : KeyMap α := ⟨[], List.Pairwise.nil⟩

instance : EmptyCollection (KeyMap α) := ⟨empty⟩

instance : Inhabited (KeyMap α) := ⟨empty⟩

/-- The value under a key. -/
def find? (m : KeyMap α) (key : String) : Option α := m.entries.lookup key

/-- Whether a key has a value. -/
def contains (m : KeyMap α) (key : String) : Bool := (m.find? key).isSome

/-- The map with `key` bound to `value`. -/
def insert (m : KeyMap α) (key : String) (value : α) : KeyMap α :=
  ⟨insertEntry key value m.entries, pairwise_insertEntry key value m.sorted⟩

/-- The map with `key` bound to `value` unless the key has a value already. -/
def insertNew (m : KeyMap α) (key : String) (value : α) : KeyMap α :=
  if m.contains key then m else m.insert key value

theorem mem_of_mem_insertNew {m : KeyMap α} {key : String} {value : α} {e : String × α}
    (h : e ∈ (m.insertNew key value).entries) : e = (key, value) ∨ e ∈ m.entries := by
  unfold insertNew at h
  split at h
  · exact Or.inr h
  · exact mem_of_mem_insertEntry h

/-- The keys, ascending. -/
def keys (m : KeyMap α) : List String := m.entries.map (·.1)

/-- The values, by ascending key. -/
def values (m : KeyMap α) : List α := m.entries.map (·.2)

/-- How many entries there are. -/
def size (m : KeyMap α) : Nat := m.entries.length

/-! ### What the operations do to lookups -/

theorem lookup_cons_eq (e : String × α) (rest : List (String × α)) (k : String) :
    (e :: rest).lookup k = if k = e.1 then some e.2 else rest.lookup k := by
  obtain ⟨key, value⟩ := e
  by_cases h : k = key
  · simp [h]
  · have hb : (k == key) = false := by simpa using h
    simp [List.lookup_cons, hb, h]

theorem lookup_insertEntry (key : String) (value : α) (l : List (String × α)) (k : String) :
    (insertEntry key value l).lookup k = if k = key then some value else l.lookup k := by
  induction l with
  | nil => simp [insertEntry, lookup_cons_eq]
  | cons e rest ih =>
    unfold insertEntry
    split
    · rw [lookup_cons_eq]
    · split
      · rename_i hgt
        rw [lookup_cons_eq, lookup_cons_eq, ih]
        by_cases h : k = key
        · have hne : key ≠ e.1 := fun he => String.lt_irrefl _ (he ▸ hgt)
          simp [h, hne]
        · simp [h]
      · rename_i hge hle
        have heq : e.1 = key := String.le_antisymm (String.not_lt.1 hge) (String.not_lt.1 hle)
        rw [lookup_cons_eq, lookup_cons_eq, heq]
        by_cases h : k = key <;> simp [h]

@[simp]
theorem find?_empty (k : String) : (empty : KeyMap α).find? k = none := rfl

theorem find?_insert (m : KeyMap α) (key : String) (value : α) (k : String) :
    (m.insert key value).find? k = if k = key then some value else m.find? k :=
  lookup_insertEntry key value m.entries k

theorem find?_insertNew (m : KeyMap α) (key : String) (value : α) (k : String) :
    (m.insertNew key value).find? k =
      if k = key then some ((m.find? key).getD value) else m.find? k := by
  unfold insertNew contains
  cases h : m.find? key with
  | none => simp [find?_insert]
  | some v =>
    by_cases hk : k = key
    · simp [hk, h]
    · simp [hk]

theorem find?_eq_some_iff {m : KeyMap α} {k : String} {v : α} :
    m.find? k = some v ↔ (k, v) ∈ m.entries := by
  obtain ⟨l, hl⟩ := m
  unfold find?
  induction l with
  | nil => simp
  | cons e rest ih =>
    have he := List.pairwise_cons.1 hl
    have ih := ih he.2
    rw [lookup_cons_eq, List.mem_cons]
    by_cases h : k = e.1
    · subst h
      rw [if_pos rfl, Option.some.injEq]
      refine ⟨fun hv => Or.inl (by rw [← hv]), ?_⟩
      rintro (hv | hv)
      · rw [← hv]
      · exact absurd (he.1 _ hv) (String.lt_irrefl _)
    · rw [if_neg h]
      refine ih.trans ⟨Or.inr, ?_⟩
      rintro (hv | hv)
      · exact absurd (congrArg Prod.fst hv) h
      · exact hv

/-- The map of a list of entries, in which the last value of a repeated key counts. -/
def ofList (l : List (String × α)) : KeyMap α :=
  l.foldl (fun m e => m.insert e.1 e.2) empty

end KeyMap

end PluginHost
