import Mathlib.Data.List.Basic
import PluginHost.Proofs.Extension.Resolution
import PluginHost.Proofs.Text.ByteOrder

/-!
# The least exporter owns a type

The index of a context is filled by a walk over the extensions in which the first owner stays.
Since the walk goes by ascending name, the owner of a type is the exporter of the least name
(`ResolutionContext.resolveType_eq_some_iff_owns`), and a further extension takes a type over
exactly if it exports it and no exporter comes before it (`ResolutionContext.resolveType_insert`).
Names are compared by their bytes.
-/

namespace PluginHost

theorem find?_eq_some_iff_least {α : Type} {key : α → String} {l : List α}
    (hl : (l.map key).Pairwise (· < ·)) {p : α → Bool} {a : α} :
    l.find? p = some a ↔ a ∈ l ∧ p a = true ∧ ∀ b ∈ l, p b = true → key a ≤ key b := by
  induction l with
  | nil => simp
  | cons first rest ih =>
    rw [List.map_cons, List.pairwise_cons] at hl
    have hfirst : ∀ b ∈ rest, key first < key b := fun b hb => hl.1 _ (List.mem_map_of_mem hb)
    cases hp : p first with
    | true =>
      rw [List.find?_cons_of_pos hp]
      constructor
      · intro h
        obtain rfl := Option.some.inj h
        refine ⟨List.mem_cons_self, hp, List.forall_mem_cons.2 ⟨fun _ => String.le_refl _, ?_⟩⟩
        exact fun b hb _ => le_of_lt (hfirst b hb)
      · rintro ⟨ha, -, hleast⟩
        rcases List.mem_cons.1 ha with rfl | ha
        · rfl
        · exact absurd (hfirst a ha) (String.not_lt.2 (hleast first List.mem_cons_self hp))
    | false =>
      rw [List.find?_cons_of_neg (by simp [hp]), ih hl.2]
      have hne : ∀ b, p b = true → b ≠ first := fun b hb he => by simp [he ▸ hb] at hp
      constructor
      · rintro ⟨ha, hpa, hleast⟩
        refine ⟨List.mem_cons_of_mem _ ha, hpa, List.forall_mem_cons.2 ⟨fun h => ?_, hleast⟩⟩
        exact absurd rfl (hne first h)
      · rintro ⟨ha, hpa, hleast⟩
        exact ⟨(List.mem_cons.1 ha).resolve_left (hne a hpa), hpa,
          fun b hb => hleast b (List.mem_cons_of_mem _ hb)⟩

/-- The owner of a type: it exports the type, and none of the extensions that do has a name of
lower bytes. -/
structure ExtensionSet.Owns (s : ExtensionSet) (type : String) (e : Extension) : Prop where
  mem : e ∈ s.toList
  exports : type ∈ e.exportedTypes
  least : ∀ x ∈ s.toList, type ∈ x.exportedTypes → Text.bytes e.name ≤ Text.bytes x.name

namespace ExtensionSet

variable {s : ExtensionSet} {type : String} {e m : Extension}

theorem owns_insert_self (hfree : ∀ x ∈ s.toList, x.name ≠ m.name)
    (hexports : type ∈ m.exportedTypes)
    (hleast : ∀ x ∈ s.toList, type ∈ x.exportedTypes → ¬ Text.bytes x.name < Text.bytes m.name) :
    (s.insert m).Owns type m := by
  refine ⟨(mem_toList_insert hfree).2 (.inr rfl), hexports, fun x hx htype => ?_⟩
  rcases (mem_toList_insert hfree).1 hx with hold | rfl
  · exact List.not_lt.1 (hleast x hold htype)
  · exact List.le_refl _

/-- An extension that does not export a type, or comes after one that does, leaves the type to
its owner. -/
theorem owns_insert_iff (hfree : ∀ x ∈ s.toList, x.name ≠ m.name)
    (hlater : type ∈ m.exportedTypes →
      ∃ x ∈ s.toList, type ∈ x.exportedTypes ∧ Text.bytes x.name < Text.bytes m.name) :
    (s.insert m).Owns type e ↔ s.Owns type e := by
  constructor
  · rintro ⟨hmem, hexports, hleast⟩
    have hstill : ∀ x ∈ s.toList, type ∈ x.exportedTypes →
        Text.bytes e.name ≤ Text.bytes x.name :=
      fun x hx => hleast x ((mem_toList_insert hfree).2 (.inl hx))
    rcases (mem_toList_insert hfree).1 hmem with hold | rfl
    · exact ⟨hold, hexports, hstill⟩
    · obtain ⟨x, hx, htype, hlt⟩ := hlater hexports
      exact absurd hlt (List.not_lt.2 (hstill x hx htype))
  · rintro ⟨hmem, hexports, hleast⟩
    refine ⟨(mem_toList_insert hfree).2 (.inl hmem), hexports, fun x hx htype => ?_⟩
    rcases (mem_toList_insert hfree).1 hx with hold | rfl
    · exact hleast x hold htype
    · obtain ⟨y, hy, hytype, hlt⟩ := hlater htype
      exact List.le_of_lt (List.lt_of_le_of_lt (hleast y hy hytype) hlt)

end ExtensionSet

namespace ResolutionContext

variable {s : ExtensionSet} {type : String} {e m : Extension}

/-- **A type is resolved to its owner.** -/
theorem resolveType_eq_some_iff_owns :
    (ofSet s).resolveType type = some e ↔ s.Owns type e := by
  rw [resolveType_ofSet, find?_eq_some_iff_least s.pairwise_toList]
  simp only [decide_eq_true_eq, ← Text.bytes_le_bytes_iff]
  exact ⟨fun ⟨hmem, hexports, hleast⟩ => ⟨hmem, hexports, hleast⟩,
    fun h => ⟨h.mem, h.exports, h.least⟩⟩

/-- **A further extension takes over the types that it exports and that no exporter before it
owns**, and leaves every other type as it is. -/
theorem resolveType_insert (hfree : ∀ x ∈ s.toList, x.name ≠ m.name) (type : String) :
    (ofSet (s.insert m)).resolveType type =
      if type ∈ m.exportedTypes ∧ ∀ x ∈ s.toList, type ∈ x.exportedTypes →
          ¬ Text.bytes x.name < Text.bytes m.name
      then some m else (ofSet s).resolveType type := by
  split
  · next h => exact resolveType_eq_some_iff_owns.2 (ExtensionSet.owns_insert_self hfree h.1 h.2)
  · next h =>
    have hlater : type ∈ m.exportedTypes →
        ∃ x ∈ s.toList, type ∈ x.exportedTypes ∧ Text.bytes x.name < Text.bytes m.name := by
      intro hexports
      simpa [hexports] using h
    refine Option.ext fun e => ?_
    rw [resolveType_eq_some_iff_owns, resolveType_eq_some_iff_owns,
      ExtensionSet.owns_insert_iff hfree hlater]

/-- **Types belong to the exporter of the least name, now and after every insertion.**  A type that
nothing exports has no owner; a new extension takes it or leaves it as it was, and never takes a
type away that was resolved. -/
theorem resolveType_least_owner (s : ExtensionSet) (type : String) :
    (∀ e, (ofSet s).resolveType type = some e ↔ s.Owns type e) ∧
    ((ofSet s).resolveType type = none ↔ ∀ e ∈ s.toList, type ∉ e.exportedTypes) ∧
    ∀ m : Extension, (∀ x ∈ s.toList, x.name ≠ m.name) →
      (ofSet (s.insert m)).resolveType type =
        (if type ∈ m.exportedTypes ∧ ∀ x ∈ s.toList, type ∈ x.exportedTypes →
            ¬ Text.bytes x.name < Text.bytes m.name
        then some m else (ofSet s).resolveType type) ∧
      ((ofSet s).resolveType type ≠ none → (ofSet (s.insert m)).resolveType type ≠ none) := by
  refine ⟨fun e => resolveType_eq_some_iff_owns, resolveType_ofSet_eq_none_iff, fun m hfree => ?_⟩
  refine ⟨resolveType_insert hfree type, fun hresolved => ?_⟩
  rw [resolveType_insert hfree type]
  split
  · exact Option.some_ne_none m
  · exact hresolved

/-- "a" comes before "b" and takes "x" over, "c" comes after it and gets "z" only. -/
theorem resolveType_least_owner_of_two :
    let b : Extension := { name := "b", exportedTypes := .ofList ["x"] }
    let a : Extension := { name := "a", exportedTypes := .ofList ["x", "y"] }
    let c : Extension := { name := "c", exportedTypes := .ofList ["x", "z"] }
    let s : ExtensionSet := .ofList [b]
    (ofSet s).resolveType "x" = some b ∧ (ofSet s).resolveType "z" = none ∧
    (ofSet (s.insert a)).resolveType "x" = some a ∧
    (ofSet (s.insert c)).resolveType "x" = some b ∧
    (ofSet (s.insert c)).resolveType "z" = some c := by
  intro b a c s
  have hb : s.toList = [b] := rfl
  have hx := resolveType_least_owner s "x"
  have hz := resolveType_least_owner s "z"
  have hxb : (ofSet s).resolveType "x" = some b :=
    (hx.1 b).2 ⟨by simp [hb], by decide, by simp [hb]⟩
  refine ⟨hxb, hz.2.1.2 (by simp only [hb]; decide), ?_, ?_, ?_⟩
  · rw [(hx.2.2 a (by simp only [hb]; decide)).1, if_pos (by simp only [hb]; decide)]
  · rw [(hx.2.2 c (by simp only [hb]; decide)).1, if_neg (by simp only [hb]; decide), hxb]
  · rw [(hz.2.2 c (by simp only [hb]; decide)).1, if_pos (by simp only [hb]; decide)]

end ResolutionContext

end PluginHost
