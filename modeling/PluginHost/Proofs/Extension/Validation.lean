import PluginHost.Validation

/-!
# What validation accepts

`Extension.WellFormed` states the rules for extensions without the list of their breaches.  An
extension has no breaches exactly if it keeps the rules (`Extension.problems_eq_nil_iff`).
-/

namespace PluginHost

/-- Whether names are distinct from each other and from those seen before. -/
def Unseen (seen names : List String) : Prop := names.Nodup ∧ ∀ name ∈ names, name ∉ seen

theorem unseen_nil (seen : List String) : Unseen seen [] := ⟨List.nodup_nil, by simp⟩

theorem unseen_cons {seen names : List String} {name : String} :
    Unseen seen (name :: names) ↔ name ∉ seen ∧ Unseen (name :: seen) names := by
  constructor
  · rintro ⟨hd, hs⟩
    have hn := List.nodup_cons.1 hd
    refine ⟨hs name List.mem_cons_self, hn.2, fun other ho => ?_⟩
    rw [List.mem_cons, not_or]
    exact ⟨fun he => hn.1 (he ▸ ho), hs other (List.mem_cons_of_mem _ ho)⟩
  · rintro ⟨hn, hd, hs⟩
    refine ⟨List.nodup_cons.2 ⟨fun h => hs name h List.mem_cons_self, hd⟩, fun other ho => ?_⟩
    rcases List.mem_cons.1 ho with rfl | ho
    · exact hn
    · exact fun h => hs other ho (List.mem_cons_of_mem _ h)

theorem unseen_nil_left {names : List String} : Unseen [] names ↔ names.Nodup := by
  simp [Unseen]

/-- Whether parameters have names, and no two of them the same. -/
structure Parameter.WellNamed (parameters : List Parameter) : Prop where
  named : ∀ p ∈ parameters, p.name ≠ ""
  distinct : (parameters.map (·.name)).Nodup

/-- Whether an extension keeps the rules in a context. -/
structure Extension.WellFormed (e : Extension) (context : ResolutionContext) : Prop where
  named : e.name ≠ ""
  version : ∃ v, Version.parse? e.version = some v
  operations : (e.operations.map (·.name)).Nodup
  operationParameters : ∀ o ∈ e.operations, Parameter.WellNamed o.parameters
  configurations : (e.configurations.map (·.name)).Nodup
  configurationParameters : ∀ c ∈ e.configurations, Parameter.WellNamed c.parameters
  imports : ∀ type ∈ e.importedTypes,
    type ∈ e.exportedTypes ∨ ∃ owner, context.resolveType type = some owner

theorem Parameter.problems_eq_nil_iff_unseen (owner : String) (seen : List String)
    (parameters : List Parameter) :
    problems owner seen parameters = [] ↔
      (∀ p ∈ parameters, p.name ≠ "") ∧ Unseen seen (parameters.map (·.name)) := by
  induction parameters generalizing seen with
  | nil => simp [problems, unseen_nil]
  | cons p rest ih =>
    rw [List.forall_mem_cons, List.map_cons, unseen_cons]
    unfold problems
    split
    · next h => simp [h]
    · next hne =>
      split
      · next h => simp [h]
      · next hns => simp [ih, hne, hns]

theorem Parameter.problems_eq_nil_iff {owner : String} {parameters : List Parameter} :
    problems owner [] parameters = [] ↔ WellNamed parameters := by
  rw [problems_eq_nil_iff_unseen, unseen_nil_left]
  exact ⟨fun h => ⟨h.1, h.2⟩, fun h => ⟨h.named, h.distinct⟩⟩

theorem Operation.listProblems_eq_nil_iff (seen : List String) (operations : List Operation) :
    listProblems seen operations = [] ↔
      Unseen seen (operations.map (·.name)) ∧
        ∀ o ∈ operations, Parameter.WellNamed o.parameters := by
  induction operations generalizing seen with
  | nil => simp [listProblems, unseen_nil]
  | cons o rest ih =>
    rw [List.forall_mem_cons, List.map_cons, unseen_cons]
    simp only [listProblems, List.append_eq_nil_iff, ih, problems, Parameter.problems_eq_nil_iff]
    by_cases h : o.name ∈ seen
    · simp [h]
    · simp [h, and_left_comm]

theorem Configuration.listProblems_eq_nil_iff (seen : List String)
    (configurations : List Configuration) :
    listProblems seen configurations = [] ↔
      Unseen seen (configurations.map (·.name)) ∧
        ∀ c ∈ configurations, Parameter.WellNamed c.parameters := by
  induction configurations generalizing seen with
  | nil => simp [listProblems, unseen_nil]
  | cons c rest ih =>
    rw [List.forall_mem_cons, List.map_cons, unseen_cons]
    simp only [listProblems, List.append_eq_nil_iff, ih, problems, Parameter.problems_eq_nil_iff]
    by_cases h : c.name ∈ seen
    · simp [h]
    · simp [h, and_left_comm]

namespace Extension

theorem importProblems_eq_nil_iff {e : Extension} {context : ResolutionContext} :
    e.importProblems context = [] ↔ ∀ type ∈ e.importedTypes,
      type ∈ e.exportedTypes ∨ ∃ owner, context.resolveType type = some owner := by
  unfold importProblems
  rw [List.map_eq_nil_iff, List.filter_eq_nil_iff]
  refine forall₂_congr fun type _ => ?_
  cases context.resolveType type with
  | none => simp
  | some owner => simp

/-- **An extension has no breaches exactly if it keeps the rules.** -/
theorem problems_eq_nil_iff {e : Extension} {context : ResolutionContext} :
    e.problems context = [] ↔ e.WellFormed context := by
  have hv : Version.isValid e.version = true ↔ ∃ v, Version.parse? e.version = some v :=
    Option.isSome_iff_exists
  simp only [problems, List.append_eq_nil_iff, Operation.listProblems_eq_nil_iff,
    Configuration.listProblems_eq_nil_iff, importProblems_eq_nil_iff, unseen_nil_left,
    ite_eq_right_iff, ite_eq_left_iff, List.cons_ne_nil, imp_false, Classical.not_not, hv]
  constructor
  · rintro ⟨⟨⟨⟨hn, hv⟩, ho, hop⟩, hc, hcp⟩, hi⟩
    exact ⟨hn, hv, ho, hop, hc, hcp, hi⟩
  · rintro ⟨hn, hv, ho, hop, hc, hcp, hi⟩
    exact ⟨⟨⟨⟨hn, hv⟩, ho, hop⟩, hc, hcp⟩, hi⟩

theorem validate_eq_ok_iff {e : Extension} {context : ResolutionContext} :
    e.validate context = .ok () ↔ e.problems context = [] := by
  unfold validate
  cases e.problems context <;> simp

/-! ### What the rules have to do with the context -/

/-- The extension as if it imported nothing. -/
def withoutImports (e : Extension) : Extension := { e with importedTypes := ∅ }

/-- Only the rule on imports looks at the context. -/
theorem wellFormed_iff_withoutImports {e : Extension} {context : ResolutionContext} :
    e.WellFormed context ↔ e.withoutImports.WellFormed ∅ ∧ ∀ type ∈ e.importedTypes,
      type ∈ e.exportedTypes ∨ ∃ owner, context.resolveType type = some owner := by
  constructor
  · intro h
    exact ⟨⟨h.named, h.version, h.operations, h.operationParameters, h.configurations,
      h.configurationParameters, fun _ ht => nomatch ht⟩, h.imports⟩
  · rintro ⟨h, hi⟩
    exact ⟨h.named, h.version, h.operations, h.operationParameters, h.configurations,
      h.configurationParameters, hi⟩

end Extension

end PluginHost
