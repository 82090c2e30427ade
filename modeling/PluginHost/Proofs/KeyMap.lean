import PluginHost.KeyMap

/-!
# Maps as their lookups

A map is determined by what is found in it (`KeyMap.ext_find?`), because its entries are in
strictly ascending key order.  Binding a key that has no value yet makes a map larger by one
(`KeyMap.size_insertNew`), and leaves it as it is otherwise (`KeyMap.insertNew_of_find?`).  Entries
in ascending key order are those of the map made of them (`KeyMap.entries_ofList`), and a map is
made of its own entries (`KeyMap.ofList_entries`).
-/

namespace PluginHost

theorem find?_eq_none_of_notMem_keys {α : Type} {key : α → String} {l : List α} {k : String}
    (h : k ∉ l.map key) : l.find? (key · = k) = none := by
  refine List.find?_eq_none.2 fun x hx hk => h ?_
  rw [← of_decide_eq_true hk]
  exact List.mem_map_of_mem hx

theorem find?_key_of_mem {α : Type} {key : α → String} {l : List α} (hl : (l.map key).Nodup)
    {x : α} (hx : x ∈ l) : l.find? (key · = key x) = some x := by
  induction l with
  | nil => cases hx
  | cons y rest ih =>
    obtain ⟨hy, hrest⟩ := List.nodup_cons.1 (List.map_cons ▸ hl)
    rw [List.find?_cons]
    rcases List.mem_cons.1 hx with rfl | hx
    · simp
    · have hne : key y ≠ key x := fun h => hy (h ▸ List.mem_map_of_mem hx)
      simpa [hne] using ih hrest hx

namespace KeyMap

variable {α : Type}

theorem pairwise_keys (m : KeyMap α) : m.keys.Pairwise (· < ·) :=
  List.pairwise_map.2 m.sorted

theorem nodup_entries (m : KeyMap α) : m.entries.Nodup :=
  m.sorted.imp fun {a b} h => by
    rintro rfl
    exact String.lt_irrefl _ h

/-- Maps in which the same is found are the same. -/
theorem ext_find? {m n : KeyMap α} (h : ∀ k, m.find? k = n.find? k) : m = n := by
  have hmem : ∀ e, e ∈ m.entries ↔ e ∈ n.entries := fun e => by
    rw [← find?_eq_some_iff (k := e.1) (v := e.2), h, find?_eq_some_iff]
  have hperm : m.entries.Perm n.entries :=
    (List.perm_ext_iff_of_nodup m.nodup_entries n.nodup_entries).2 fun {e} => hmem e
  -- two ascending rows of the same entries are one row
  have he : m.entries = n.entries :=
    hperm.eq_of_pairwise (fun a b _ _ hab hba => absurd hba (String.lt_asymm hab)) m.sorted n.sorted
  obtain ⟨l, hl⟩ := m
  obtain ⟨l', hl'⟩ := n
  simpa using he

theorem contains_iff {m : KeyMap α} {k : String} : m.contains k = true ↔ ∃ v, m.find? k = some v :=
  Option.isSome_iff_exists

theorem mem_keys_iff {m : KeyMap α} {k : String} : k ∈ m.keys ↔ m.contains k = true := by
  simp only [contains_iff, find?_eq_some_iff, keys, List.mem_map]
  constructor
  · rintro ⟨⟨_, v⟩, he, rfl⟩
    exact ⟨v, he⟩
  · rintro ⟨v, he⟩
    exact ⟨(k, v), he, rfl⟩

theorem map_find?_keys (m : KeyMap α) : m.keys.map m.find? = m.values.map some := by
  unfold keys values
  rw [List.map_map, List.map_map]
  exact List.map_congr_left fun e he => find?_eq_some_iff.2 he

theorem insertNew_of_find? {m : KeyMap α} {key : String} {value old : α}
    (h : m.find? key = some old) : m.insertNew key value = m := by
  have hc : m.contains key = true := contains_iff.2 ⟨old, h⟩
  simp [insertNew, hc]

theorem insertNew_of_not_contains {m : KeyMap α} {key : String} {value : α}
    (h : m.contains key = false) : m.insertNew key value = m.insert key value := by
  simp [insertNew, h]

theorem length_insertEntry {key : String} {value : α} {l : List (String × α)}
    (h : l.lookup key = none) : (insertEntry key value l).length = l.length + 1 := by
  induction l with
  | nil => rfl
  | cons e rest ih =>
    rw [lookup_cons_eq] at h
    split at h
    · cases h
    · next hne =>
      unfold insertEntry
      split
      · rfl
      · split
        · simp [ih h]
        · next hge hle =>
          exact absurd (String.le_antisymm (String.not_lt.1 hle) (String.not_lt.1 hge)) hne

/-- A key that had no value makes the map larger by one. -/
theorem size_insertNew (m : KeyMap α) (key : String) (value : α) :
    (m.insertNew key value).size = if m.contains key then m.size else m.size + 1 := by
  cases hc : m.contains key with
  | true => simp [insertNew, hc]
  | false =>
    rw [insertNew_of_not_contains hc]
    exact length_insertEntry (by simpa [contains, find?] using hc)

/-- What is found in a list whose values were changed. -/
theorem lookup_map_value {β : Type} (f : α → β) (l : List (String × α)) (k : String) :
    (l.map fun e => (e.1, f e.2)).lookup k = (l.lookup k).map f := by
  induction l with
  | nil => rfl
  | cons e rest ih =>
    rw [List.map_cons, lookup_cons_eq, lookup_cons_eq, ih]
    split <;> rfl

/-! ### Maps of entries in ascending order -/

theorem insertEntry_of_lt {key : String} {value : α} {l : List (String × α)}
    (h : ∀ e ∈ l, e.1 < key) : insertEntry key value l = l ++ [(key, value)] := by
  induction l with
  | nil => rfl
  | cons e rest ih =>
    obtain ⟨he, hrest⟩ := List.forall_mem_cons.1 h
    rw [insertEntry, if_neg (String.lt_asymm he), if_pos he, ih hrest]
    rfl

theorem entries_foldl_insert {m : KeyMap α} {l : List (String × α)}
    (h : (m.entries ++ l).Pairwise (fun a b => a.1 < b.1)) :
    (l.foldl (fun m e => m.insert e.1 e.2) m).entries = m.entries ++ l := by
  induction l generalizing m with
  | nil => simp
  | cons e rest ih =>
    have hlast : ∀ d ∈ m.entries, d.1 < e.1 := fun d hd =>
      (List.pairwise_append.1 h).2.2 d hd e List.mem_cons_self
    have hm : (m.insert e.1 e.2).entries = m.entries ++ [e] := insertEntry_of_lt hlast
    rw [List.foldl_cons, ih (by simpa [hm] using h), hm, List.append_assoc]
    rfl

/-- Entries in ascending order are those of their map. -/
theorem entries_ofList {l : List (String × α)} (h : l.Pairwise (fun a b => a.1 < b.1)) :
    (ofList l).entries = l :=
  entries_foldl_insert h

theorem ofList_entries (m : KeyMap α) : ofList m.entries = m :=
  ext_find? fun k => congrArg (List.lookup k) (entries_ofList m.sorted)

theorem mem_of_mem_foldl_insert {m : KeyMap α} {l : List (String × α)} {e : String × α}
    (h : e ∈ (l.foldl (fun m e => m.insert e.1 e.2) m).entries) : e ∈ l ∨ e ∈ m.entries := by
  induction l generalizing m with
  | nil => exact .inr h
  | cons d rest ih =>
    obtain hrest | hd := ih h
    · exact .inl (List.mem_cons_of_mem _ hrest)
    · obtain rfl | hm := mem_of_mem_insertEntry hd
      · exact .inl List.mem_cons_self
      · exact .inr hm

theorem mem_of_mem_ofList {l : List (String × α)} {e : String × α}
    (h : e ∈ (ofList l).entries) : e ∈ l :=
  (mem_of_mem_foldl_insert h).resolve_right nofun

end KeyMap

end PluginHost
