import PluginHost.Extension.Set
import PluginHost.Proofs.KeyMap

/-!
# The order of extension sets

A set lies in another if everything found in the first is found in the second, too.  Inserting
an extension never loses or changes one that is there (`ExtensionSet.subset_insert`), and a set
is determined by what is found in it (`ExtensionSet.ext_find?`).
-/

namespace PluginHost

/-- In a list of distinct names an extension is what is found under its name. -/
theorem Extension.find?_name_of_mem {l : List Extension} (hl : (l.map (·.name)).Nodup)
    {e : Extension} (he : e ∈ l) : l.find? (·.name = e.name) = some e :=
  find?_key_of_mem hl he

namespace ExtensionSet

/-- Everything found in the one set is found in the other. -/
instance : HasSubset ExtensionSet :=
  ⟨fun s t => ∀ name e, s.find? name = some e → t.find? name = some e⟩

theorem ext_find? {s t : ExtensionSet} (h : ∀ name, s.find? name = t.find? name) : s = t := by
  have hm : s.byName = t.byName := KeyMap.ext_find? h
  obtain ⟨m, hs⟩ := s
  obtain ⟨n, ht⟩ := t
  simpa using hm

theorem contains_iff {s : ExtensionSet} {name : String} :
    s.contains name = true ↔ ∃ e, s.find? name = some e :=
  KeyMap.contains_iff

theorem insert_of_contains {s : ExtensionSet} {e : Extension} (h : s.contains e.name = true) :
    s.insert e = s := by
  obtain ⟨d, hd⟩ := contains_iff.1 h
  have hm : s.byName.insertNew e.name e = s.byName := KeyMap.insertNew_of_find? hd
  simp only [insert, hm]

theorem size_insert (s : ExtensionSet) (e : Extension) :
    (s.insert e).size = if s.contains e.name then s.size else s.size + 1 :=
  KeyMap.size_insertNew s.byName e.name e

theorem subset_insert (s : ExtensionSet) (e : Extension) : s ⊆ s.insert e := by
  intro name d h
  rw [find?_insert]
  split
  · next hn => rw [← hn, h]; rfl
  · exact h

theorem map_name_toList (s : ExtensionSet) : s.toList.map (·.name) = s.names := by
  -- every entry is bound to the name of its own extension
  show (s.byName.entries.map (·.2)).map (·.name) = s.byName.entries.map (·.1)
  rw [List.map_map]
  exact List.map_congr_left fun e he => (s.named e he).symm

/-- A set lists its extensions by strictly ascending name. -/
theorem pairwise_toList (s : ExtensionSet) : (s.toList.map (·.name)).Pairwise (· < ·) := by
  rw [map_name_toList]
  exact s.byName.pairwise_keys

theorem nodup_names_toList (s : ExtensionSet) : (s.toList.map (·.name)).Nodup :=
  s.pairwise_toList.imp fun {a b} h => by
    rintro rfl
    exact String.lt_irrefl _ h

theorem nodup_toList (s : ExtensionSet) : s.toList.Nodup :=
  List.Pairwise.of_map _ (fun _ _ h he => h (congrArg _ he)) s.nodup_names_toList

theorem find?_eq_find?_toList (s : ExtensionSet) (name : String) :
    s.find? name = s.toList.find? (·.name = name) := by
  cases hs : s.find? name with
  | some e =>
    have hn := name_of_find? hs
    rw [← hn, Extension.find?_name_of_mem s.nodup_names_toList (mem_toList.2 (hn ▸ hs))]
  | none =>
    refine (List.find?_eq_none.2 fun e he hn => ?_).symm
    obtain rfl : e.name = name := by simpa using hn
    exact Option.some_ne_none e ((mem_toList.1 he).symm.trans hs)

theorem ext_toList {s t : ExtensionSet} (h : ∀ e, e ∈ s.toList ↔ e ∈ t.toList) : s = t := by
  have hle : ∀ {s t : ExtensionSet}, (∀ e, e ∈ s.toList → e ∈ t.toList) → s ⊆ t := by
    intro s t hst name e he
    obtain rfl := name_of_find? he
    exact mem_toList.1 (hst e (mem_toList.2 he))
  refine ext_find? fun name => Option.ext fun e => ⟨fun he => ?_, fun he => ?_⟩
  · exact hle (fun e => (h e).1) name e he
  · exact hle (fun e => (h e).2) name e he

/-- An extension whose name is free comes on top of those that are there. -/
theorem mem_toList_insert {s : ExtensionSet} {e x : Extension}
    (h : ∀ x ∈ s.toList, x.name ≠ e.name) : x ∈ (s.insert e).toList ↔ x ∈ s.toList ∨ x = e := by
  have hfree : s.find? e.name = none := by
    rw [Option.eq_none_iff_forall_ne_some]
    intro y hy
    have hn := name_of_find? hy
    exact h y (mem_toList.2 (hn ▸ hy)) hn
  rw [mem_toList, mem_toList, find?_insert, hfree]
  by_cases hn : x.name = e.name
  · rw [if_pos hn, hn, hfree]
    simp [eq_comm]
  · rw [if_neg hn]
    refine ⟨.inl, fun hx => hx.resolve_right ?_⟩
    rintro rfl
    exact hn rfl

/-! ### Sets of the first extensions of a list -/

/-- Whether a set holds, under each name, the first extension of a list that has the name, and
nothing else. -/
def Collects (s : ExtensionSet) (l : List Extension) : Prop :=
  ∀ name, s.find? name = l.find? (·.name = name)

theorem collects_empty : Collects ∅ [] := fun _ => rfl

theorem Collects.insert {s : ExtensionSet} {l : List Extension} (h : s.Collects l)
    (e : Extension) : (s.insert e).Collects (l ++ [e]) := by
  intro name
  rw [find?_insert, List.find?_append, h name]
  by_cases hn : name = e.name
  · subst hn
    rw [if_pos rfl, h e.name]
    cases l.find? (·.name = e.name) <;> simp
  · rw [if_neg hn]
    simp [Ne.symm hn]

theorem Collects.mem {s : ExtensionSet} {l : List Extension} (h : s.Collects l) {e : Extension}
    (he : e ∈ s.toList) : e ∈ l :=
  List.mem_of_find?_eq_some ((h e.name).symm.trans (mem_toList.1 he))

theorem collects_foldl_insert {s : ExtensionSet} {l : List Extension} (h : s.Collects l)
    (l' : List Extension) : (l'.foldl ExtensionSet.insert s).Collects (l ++ l') := by
  induction l' generalizing s l with
  | nil => simpa using h
  | cons e rest ih =>
    have hall := ih (h.insert e)
    rwa [List.append_assoc, List.singleton_append] at hall

/-- The set of a list holds the first extension of each name. -/
theorem collects_ofList (l : List Extension) : (ofList l).Collects l :=
  collects_foldl_insert collects_empty l

theorem mem_toList_ofList {l : List Extension} (hl : (l.map (·.name)).Nodup) {e : Extension} :
    e ∈ (ofList l).toList ↔ e ∈ l := by
  refine ⟨(collects_ofList l).mem, fun he => mem_toList.2 ?_⟩
  rw [collects_ofList l e.name]
  exact Extension.find?_name_of_mem hl he

/-- Extensions of distinct names give the same set in any order. -/
theorem ofList_eq_of_perm {l l' : List Extension} (h : l.Perm l')
    (hl : (l'.map (·.name)).Nodup) : ofList l = ofList l' := by
  have hl' : (l.map (·.name)).Nodup := (h.map _).nodup_iff.2 hl
  exact ext_toList fun e => by rw [mem_toList_ofList hl', mem_toList_ofList hl, h.mem_iff]

theorem eq_iff_names_eq {s t : ExtensionSet} : s = t ↔ s.names = t.names ∧
    ∀ name e d, s.find? name = some e → t.find? name = some d → e = d := by
  constructor
  · rintro rfl
    exact ⟨rfl, fun name e d he hd => Option.some.inj (he.symm.trans hd)⟩
  · rintro ⟨hnames, heq⟩
    have hkeys : s.byName.keys = t.byName.keys := hnames
    have hcontains : ∀ name, s.contains name = true ↔ t.contains name = true := fun name => by
      simp only [contains, ← KeyMap.mem_keys_iff, hkeys]
    refine ext_find? fun name => ?_
    cases he : s.find? name with
    | none =>
      refine (Option.eq_none_iff_forall_ne_some.2 fun d hd => ?_).symm
      obtain ⟨e, he'⟩ := contains_iff.1 ((hcontains name).2 (contains_iff.2 ⟨d, hd⟩))
      exact Option.some_ne_none e (he'.symm.trans he)
    | some e =>
      obtain ⟨d, hd⟩ := contains_iff.1 ((hcontains name).1 (contains_iff.2 ⟨e, he⟩))
      rw [hd, heq name e d he hd]

end ExtensionSet

end PluginHost
