import Mathlib.Data.List.Basic
import PluginHost.Proofs.Extension.Breaches
import PluginHost.Proofs.Extension.Set

/-!
# Which extension owns a type

In the context of a set, a type belongs to the extension of the least name among those that
export it (`ResolutionContext.resolveType_ofSet`).  A larger set may give a type to another
extension, but it still resolves every type that a smaller one does, and besides them those that
its further extensions export.  So the breaches of an extension in the larger context are those
in the smaller one without some unresolved imports (`Extension.problems_antitone`).
-/

namespace PluginHost

/-! ### The index of types -/

namespace ExtensionSet

/-- What the types of one extension do to the index: those that have an owner keep it. -/
theorem find?_foldl_insertNew (owner : String) (types : List String) (owners : KeyMap String)
    (type : String) :
    (types.foldl (fun owners type => owners.insertNew type owner) owners).find? type =
      (owners.find? type).or (if type ∈ types then some owner else none) := by
  induction types generalizing owners with
  | nil => simp
  | cons first rest ih =>
    rw [List.foldl_cons, ih, KeyMap.find?_insertNew]
    by_cases h : type = first
    · subst h
      cases owners.find? type <;> simp
    · simp [h]

theorem find?_foldl_types (extensions : List Extension) (owners : KeyMap String)
    (type : String) :
    (extensions.foldl (fun owners e =>
        e.exportedTypes.names.foldl (fun owners type => owners.insertNew type e.name) owners)
      owners).find? type =
      (owners.find? type).or
        ((extensions.find? fun e => decide (type ∈ e.exportedTypes)).map (·.name)) := by
  induction extensions generalizing owners with
  | nil => simp
  | cons e rest ih =>
    rw [List.foldl_cons, ih, find?_foldl_insertNew, List.find?_cons]
    have hm : type ∈ e.exportedTypes.names ↔ type ∈ e.exportedTypes := Iff.rfl
    by_cases h : type ∈ e.exportedTypes
    · cases owners.find? type <;> simp [hm, h]
    · simp [hm, h]

/-- The first extension in the order of names that exports a type owns it. -/
theorem find?_typeOwners (s : ExtensionSet) (type : String) :
    s.typeOwners.find? type =
      (s.toList.find? fun e => decide (type ∈ e.exportedTypes)).map (·.name) := by
  unfold typeOwners
  rw [find?_foldl_types]
  rfl

end ExtensionSet

namespace ResolutionContext

/-- **A type belongs to the first extension, by ascending name, that exports it.** -/
theorem resolveType_ofSet (s : ExtensionSet) (type : String) :
    (ofSet s).resolveType type = s.toList.find? fun e => decide (type ∈ e.exportedTypes) := by
  show (s.typeOwners.find? type).bind s.find? = _
  rw [ExtensionSet.find?_typeOwners]
  cases h : s.toList.find? fun e => decide (type ∈ e.exportedTypes) with
  | none => rfl
  | some e => exact ExtensionSet.mem_toList.1 (List.mem_of_find?_eq_some h)

theorem isSome_resolveType_ofSet {s : ExtensionSet} {type : String} :
    ((ofSet s).resolveType type).isSome = true ↔ ∃ e ∈ s.toList, type ∈ e.exportedTypes := by
  simp [resolveType_ofSet]

theorem resolveType_ofSet_eq_none_iff {s : ExtensionSet} {type : String} :
    (ofSet s).resolveType type = none ↔ ∀ e ∈ s.toList, type ∉ e.exportedTypes := by
  simp [resolveType_ofSet]

end ResolutionContext

/-! ### Breaches in larger contexts -/

/-- The types that are exported by extensions of a set, without those of a smaller one. -/
def ExtensionSet.addedTypes (s t : ExtensionSet) : List String :=
  (t.toList.filter fun x => decide (x ∉ s.toList)).flatMap (·.exportedTypes.names)

theorem ExtensionSet.mem_addedTypes {s t : ExtensionSet} {type : String} :
    type ∈ s.addedTypes t ↔ ∃ x ∈ t.toList, x ∉ s.toList ∧ type ∈ x.exportedTypes := by
  have hnames : ∀ x : Extension, type ∈ x.exportedTypes.names ↔ type ∈ x.exportedTypes :=
    fun _ => Iff.rfl
  simp [addedTypes, hnames, and_assoc]

/-- A larger set leaves those types unresolved that the smaller one did and that no extension
besides exports. -/
theorem ResolutionContext.resolveType_eq_none_iff_of_subset {s t : ExtensionSet} (hst : s ⊆ t)
    (type : String) : (ofSet t).resolveType type = none ↔
      (ofSet s).resolveType type = none ∧ type ∉ s.addedTypes t := by
  rw [resolveType_ofSet_eq_none_iff, resolveType_ofSet_eq_none_iff, ExtensionSet.mem_addedTypes]
  constructor
  · intro h
    refine ⟨fun e he => h e ?_, fun ⟨x, hx, _, htype⟩ => h x hx htype⟩
    exact ExtensionSet.mem_toList.2 (hst e.name e (ExtensionSet.mem_toList.1 he))
  · rintro ⟨hs, hadded⟩ x hx htype
    by_cases hold : x ∈ s.toList
    · exact hs x hold htype
    · exact hadded ⟨x, hx, hold, htype⟩

/-- Whether a breach is that of importing one of the types. -/
def Problem.isImportOf (types : List String) : Problem → Bool
  | unresolvedImport type => decide (type ∈ types)
  | _ => false

theorem Problem.isImportOf_iff {types : List String} {p : Problem} :
    p.isImportOf types = true ↔ ∃ type ∈ types, p = .unresolvedImport type := by
  cases p <;> simp [isImportOf]

namespace Extension

theorem importProblems_eq_filter (e : Extension) {s t : ExtensionSet} (hst : s ⊆ t) :
    e.importProblems (.ofSet t) =
      (e.importProblems (.ofSet s)).filter (!Problem.isImportOf (s.addedTypes t) ·) := by
  rw [importProblems_eq, importProblems_eq, List.filter_map]
  unfold unresolvedImports
  rw [List.filter_filter]
  refine congrArg (List.map _) (List.filter_congr fun type _ => ?_)
  have hiff := ResolutionContext.resolveType_eq_none_iff_of_subset hst type
  by_cases hadded : type ∈ s.addedTypes t
  · simp [Problem.isImportOf, hiff, hadded]
  · simp [Problem.isImportOf, hiff, hadded]

/-- The breaches of the rule on imports come last, and the others are those without a context. -/
theorem problems_eq_append_importProblems (e : Extension) (context : ResolutionContext) :
    e.problems context = e.withoutImports.problems ∅ ++ e.importProblems context := by
  have hnone : e.withoutImports.importProblems ∅ = [] := rfl
  unfold problems
  rw [hnone, List.append_nil]
  rfl

/-- **A larger context takes breaches away and does nothing else**: those of the imported types
that its further extensions export. -/
theorem problems_eq_filter (e : Extension) {s t : ExtensionSet} (hst : s ⊆ t) :
    e.problems (.ofSet t) =
      (e.problems (.ofSet s)).filter (!Problem.isImportOf (s.addedTypes t) ·) := by
  have hown : (e.withoutImports.problems ∅).filter (!Problem.isImportOf (s.addedTypes t) ·) =
      e.withoutImports.problems ∅ := by
    refine List.filter_eq_self.2 fun p hp => ?_
    cases p with
    | unresolvedImport type => exact nomatch unresolvedImport_mem_problems_iff.1 hp
    | _ => rfl
  rw [problems_eq_append_importProblems, e.problems_eq_append_importProblems (.ofSet s),
    List.filter_append, hown, e.importProblems_eq_filter hst]

theorem problems_sublist (e : Extension) {s t : ExtensionSet} (hst : s ⊆ t) :
    (e.problems (.ofSet t)).Sublist (e.problems (.ofSet s)) := by
  rw [e.problems_eq_filter hst]
  exact List.filter_sublist

theorem problems_eq_nil_mono {e : Extension} {s t : ExtensionSet} (hst : s ⊆ t)
    (h : e.problems (.ofSet s) = []) : e.problems (.ofSet t) = [] :=
  List.sublist_nil.1 (h ▸ e.problems_sublist hst)

/-- **In a larger context validation reports less**: what it reported in the smaller one, without
the imported types that extensions export which are in the larger set only.  So an extension that
was accepted stays so. -/
theorem problems_antitone (e : Extension) {s t : ExtensionSet} (hst : s ⊆ t) :
    e.problems (.ofSet t) =
      (e.problems (.ofSet s)).filter (!Problem.isImportOf (s.addedTypes t) ·) ∧
    (e.problems (.ofSet t)).Sublist (e.problems (.ofSet s)) ∧
    (∀ p ∈ e.problems (.ofSet s), p ∉ e.problems (.ofSet t) →
      ∃ type, p = .unresolvedImport type ∧
        ∃ x ∈ t.toList, x ∉ s.toList ∧ type ∈ x.exportedTypes) ∧
    (e.validate (.ofSet s) = .ok () → e.validate (.ofSet t) = .ok ()) := by
  refine ⟨e.problems_eq_filter hst, e.problems_sublist hst, fun p hp hgone => ?_, fun hvalid => ?_⟩
  · have himport : p.isImportOf (s.addedTypes t) = true := by
      rw [e.problems_eq_filter hst, List.mem_filter] at hgone
      simpa [hp] using hgone
    obtain ⟨type, htype, rfl⟩ := Problem.isImportOf_iff.1 himport
    exact ⟨type, rfl, ExtensionSet.mem_addedTypes.1 htype⟩
  · rw [validate_eq_ok_iff] at hvalid ⊢
    exact problems_eq_nil_mono hst hvalid

/-- A new exporter that comes before the owner of "x" takes this type over and resolves "y", too. -/
theorem problems_antitone_takeover :
    let s : ExtensionSet := .ofList [{ name := "b", exportedTypes := .ofList ["x"] }]
    let t := s.insert { name := "a", exportedTypes := .ofList ["x", "y"] }
    let e : Extension :=
      { name := "e", version := "one", importedTypes := .ofList ["x", "y", "z"] }
    s ⊆ t ∧
    e.problems (.ofSet s) =
      [.invalidVersion "one", .unresolvedImport "y", .unresolvedImport "z"] ∧
    e.problems (.ofSet t) = [.invalidVersion "one", .unresolvedImport "z"] ∧
    { e with version := "1", importedTypes := .ofList ["x"] }.validate (.ofSet t) = .ok () := by
  intro s t e
  have hst : s ⊆ t := s.subset_insert _
  have hs : e.problems (.ofSet s) =
    [.invalidVersion "one", .unresolvedImport "y", .unresolvedImport "z"] := by decide +kernel
  refine ⟨hst, hs, ?_, ?_⟩
  · rw [(e.problems_antitone hst).1, hs]
    decide +kernel
  · refine (problems_antitone _ hst).2.2.2 (validate_eq_ok_iff.2 ?_)
    decide +kernel

end Extension

end PluginHost
