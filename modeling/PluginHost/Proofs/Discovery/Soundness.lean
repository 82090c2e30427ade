import Mathlib.Data.List.Perm.Subperm
import PluginHost.Proofs.Discovery.History
import PluginHost.Proofs.Extension.Resolution
import PluginHost.Proofs.Extension.Validation

/-!
# What was found is well formed as a whole

An extension is validated once, in the context of what was found before it.  That it stays
valid in the context of everything found is because contexts only grow: what a loader could
refer to is found in the end, too (`Discovery.History.found_subset`).  An import is satisfied by
an extension that was kept earlier (`Discovery.History.mem_contributions`), even where the type
belongs to another extension in the end.
-/

namespace PluginHost

namespace ExtensionSet

theorem Collects.subset {s t : ExtensionSet} {l more : List Extension} (hs : s.Collects l)
    (ht : t.Collects (l ++ more)) : s ⊆ t := by
  intro name e h
  rw [ht name, List.find?_append, ← hs name, h]
  rfl

end ExtensionSet

namespace Discovery

/-- The extensions that are kept, in the order of their plugins. -/
def contributions (loads : List Load) : List Extension :=
  (loads.filter (·.kept)).map (·.extension)

variable {d : Discovery} {plugins : List Plugin} {loads : List Load} {f : Findings}

namespace History

theorem mem_contributions (h : d.History plugins loads f) {first rest : List Load}
    (hl : loads = first ++ rest) {s : ExtensionSet}
    (hs : s.Collects (first.map (·.extension))) {e : Extension} (he : e ∈ s.toList) :
    e ∈ contributions first := by
  have hfind : (first.map (·.extension)).find? (·.name = e.name) = some e :=
    (hs e.name).symm.trans (ExtensionSet.mem_toList.1 he)
  -- `e` stands behind extensions of other names only, so its load kept it
  obtain ⟨-, as, bs, hsplit, has⟩ := List.find?_eq_some_iff_append.1 hfind
  obtain ⟨before, tail, rfl, rfl, htail⟩ := List.map_eq_append_iff.1 hsplit
  obtain ⟨l, after, rfl, rfl, -⟩ := List.map_eq_cons_iff.1 htail
  have hloads : loads = before ++ l :: (after ++ rest) := by simp [hl]
  have hk : l.kept = true :=
    (h.kept_iff hloads).2 fun b hb => by simpa using has _ (List.mem_map_of_mem hb)
  exact List.mem_map_of_mem (List.mem_filter.2 ⟨by simp, hk⟩)

theorem found_subset (h : d.History plugins loads f) {before after : List Load} {l : Load}
    (hl : loads = before ++ l :: after) : l.found ⊆ f.extensions := by
  have hall :
      f.extensions.Collects (before.map (·.extension) ++ (l :: after).map (·.extension)) := by
    rw [← List.map_append, ← hl]
    exact h.extensions
  exact (h.context before l after hl).subset hall

theorem contributions_perm (h : d.History plugins loads f) :
    (contributions loads).Perm f.extensions.toList := by
  have hmem : f.extensions.toList ⊆ contributions loads := fun e he =>
    h.mem_contributions (List.append_nil loads).symm h.extensions he
  have hlen : (contributions loads).length = f.extensions.toList.length :=
    calc (contributions loads).length = (loads.filter (·.kept)).length := List.length_map _
      _ = f.extensions.size := h.size.symm
      _ = f.extensions.toList.length := (List.length_map _).symm
  exact ((List.subperm_of_subset f.extensions.nodup_toList hmem).perm_of_length_le
    (Nat.le_of_eq hlen)).symm

theorem problems_eq_nil (h : d.History plugins loads f) {e : Extension}
    (he : e ∈ f.extensions.toList) : e.problems (.ofSet f.extensions) = [] := by
  obtain ⟨l, hl, rfl⟩ := List.mem_map.1 (h.extensions.mem he)
  obtain ⟨before, after, hsplit⟩ := List.append_of_mem hl
  exact Extension.problems_eq_nil_mono (h.found_subset hsplit) (h.performed l hl).valid

/-- What an extension imports, it exports itself, or one that was kept earlier does. -/
theorem imports_of_contributions (h : d.History plugins loads f) {before after : List Extension}
    {e : Extension} (hsplit : contributions loads = before ++ e :: after) {type : String}
    (ht : type ∈ e.importedTypes) :
    type ∈ e.exportedTypes ∨ ∃ x ∈ before, type ∈ x.exportedTypes := by
  obtain ⟨first, tail, hfilter, rfl, htail⟩ := List.map_eq_append_iff.1 hsplit
  obtain ⟨l, others, rfl, rfl, -⟩ := List.map_eq_cons_iff.1 htail
  obtain ⟨init, rest, rfl, rfl, hrest⟩ := List.filter_eq_append_iff.1 hfilter
  obtain ⟨skipped, more, rfl, hskipped, -, -⟩ := List.filter_eq_cons_iff.1 hrest
  have hloads : init ++ (skipped ++ l :: more) = (init ++ skipped) ++ l :: more := by simp
  have hl := (h.performed l (by simp)).valid
  rcases (Extension.problems_eq_nil_iff.1 hl).imports type ht with hown | hother
  · exact .inl hown
  · obtain ⟨x, hx, hxt⟩ :=
      ResolutionContext.isSome_resolveType_ofSet.1 (Option.isSome_iff_exists.2 hother)
    have hmem := h.mem_contributions hloads (h.context _ _ _ hloads) hx
    -- the loads that were skipped in between were dropped
    have hnone : skipped.filter (·.kept) = [] := List.filter_eq_nil_iff.2 hskipped
    refine .inr ⟨x, ?_, hxt⟩
    rwa [contributions, List.filter_append, hnone, List.append_nil] at hmem

end History

/-- **Whatever discovery finds is well formed as a whole.**  Every extension is found under its
own name and keeps all rules in the context of everything found; and in the order in which the
plugins contributed them, extensions import only what they or earlier ones export. -/
theorem run_wellFormed (h : (d.run plugins).outcome = .ok f) :
    (∀ name e, f.extensions.find? name = some e →
      e.name = name ∧ e.problems (.ofSet f.extensions) = [] ∧
        e.WellFormed (.ofSet f.extensions)) ∧
    ∃ loads, d.History plugins loads f ∧ (contributions loads).Perm f.extensions.toList ∧
      ∀ before e after, contributions loads = before ++ e :: after → ∀ type ∈ e.importedTypes,
        type ∈ e.exportedTypes ∨ ∃ x ∈ before, type ∈ x.exportedTypes := by
  obtain ⟨loads, hl, -⟩ := history_of_run h
  refine ⟨fun name e he => ?_, loads, hl, hl.contributions_perm,
    fun before e after hs type ht => hl.imports_of_contributions hs ht⟩
  have hn := ExtensionSet.name_of_find? he
  have hp := hl.problems_eq_nil (ExtensionSet.mem_toList.2 (hn ▸ he))
  exact ⟨hn, hp, Extension.problems_eq_nil_iff.1 hp⟩

/-- A discovery with the loaders of two extensions, one of which imports a type of the other. -/
def trade : Discovery :=
  plainDiscovery
    [.fixed "auth" { name := "Auth", version := "1.0", importedTypes := .ofList ["Request"] },
      .fixed "http" { name := "Http", version := "2.1", exportedTypes := .ofList ["Request"] }]

/-- The plugins of the two extensions, the one that exports first. -/
def traders : List Plugin := [plainPlugin "http" (some "http"), plainPlugin "auth" (some "auth")]

/-- What is found in them. -/
def tradeFindings : Findings where
  extensions := .ofList
    [{ name := "Http", version := "2.1", exportedTypes := .ofList ["Request"] },
      { name := "Auth", version := "1.0", importedTypes := .ofList ["Request"] }]

/-- The extension that imports is well formed next to the one that exports. -/
theorem run_trade_wellFormed :
    (trade.run traders).outcome = .ok tradeFindings ∧
      ∃ auth, tradeFindings.extensions.find? "Auth" = some auth ∧ "Request" ∈ auth.importedTypes ∧
        auth.WellFormed (.ofSet tradeFindings.extensions) := by
  have h : (trade.run traders).outcome = .ok tradeFindings := rfl
  obtain ⟨hall, -⟩ := run_wellFormed h
  exact ⟨h, _, rfl, by decide, (hall "Auth" _ rfl).2.2⟩

end Discovery

end PluginHost
