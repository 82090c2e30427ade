import PluginHost.Proofs.Discovery.Soundness

/-!
# Discovery with more plugins behind

A discovery does not look ahead: a list of plugins is discovered by discovering a first part of
it and then the rest from what was found in the first part (`Discovery.visitEach_append`).  So a
failure in the first part is the failure of the whole list, and what was found in the first part
stays (`Discovery.run_append`).
-/

namespace PluginHost

namespace Discovery

variable {d : Discovery} {ps qs : List Plugin} {f g : Findings}

theorem visitEach_append (d : Discovery) (f : Findings) (ps qs : List Plugin) :
    d.visitEach f (ps ++ qs) = d.visitEach f ps >>= fun g => d.visitEach g qs := by
  induction ps generalizing f with
  | nil => exact (pure_bind f fun g => d.visitEach g qs).symm
  | cons p rest ih =>
    simp only [List.cons_append, visitEach, ih, bind_assoc]

theorem visitEach_append_of_error {failure : Failure}
    (h : (d.visitEach f ps).outcome = .error failure) (qs : List Plugin) :
    (d.visitEach f (ps ++ qs)).outcome = .error failure ∧
      (d.visitEach f (ps ++ qs)).calls = (d.visitEach f ps).calls := by
  rw [visitEach_append, Traced.bind_of_error _ h]
  exact ⟨rfl, rfl⟩

theorem run_append_of_error {failure : Failure} (h : (d.run ps).outcome = .error failure)
    (qs : List Plugin) :
    (d.run (ps ++ qs)).outcome = .error failure ∧ (d.run (ps ++ qs)).calls = (d.run ps).calls := by
  rw [outcome_run] at h
  rw [outcome_run, calls_run, calls_run]
  exact visitEach_append_of_error h qs

/-- A discovery that succeeds has succeeded in the first part of its list, and then in the rest. -/
theorem visitEach_of_run_append (h : (d.run (ps ++ qs)).outcome = .ok g) :
    ∃ f, (d.run ps).outcome = .ok f ∧ (d.visitEach f qs).outcome = .ok g := by
  rw [outcome_run, visitEach_append] at h
  obtain ⟨f, hf, hg⟩ := Traced.outcome_bind_eq_ok_iff.1 h
  exact ⟨f, (outcome_run d ps).trans hf, hg⟩

/-- The loads of a first part are the first loads of the whole list. -/
theorem exists_history_append (hf : (d.run ps).outcome = .ok f)
    (hg : (d.visitEach f qs).outcome = .ok g) :
    ∃ loads more, d.History ps loads f ∧ d.History (ps ++ qs) (loads ++ more) g ∧
      (d.run ps).calls = loads.map (·.call) ∧
      (d.run (ps ++ qs)).calls = (loads ++ more).map (·.call) := by
  obtain ⟨loads, hl, hc⟩ := history_of_run hf
  obtain ⟨more, hm, hcm⟩ := visitEach_history qs hl hg
  refine ⟨loads, more, hl, hm, hc, ?_⟩
  rw [outcome_run] at hf
  rw [calls_run, visitEach_append, Traced.calls_bind_of_ok _ hf, ← calls_run, hc, hcm,
    List.map_append]

namespace History

variable {loads more : List Load}

theorem extensions_subset_append (hf : d.History ps loads f)
    (hg : d.History (ps ++ qs) (loads ++ more) g) : f.extensions ⊆ g.extensions := by
  have hall := hg.extensions
  rw [List.map_append] at hall
  exact hf.extensions.subset hall

theorem undiscovered_prefix_append (hf : d.History ps loads f)
    (hg : d.History (ps ++ qs) (loads ++ more) g) : f.undiscovered <+: g.undiscovered := by
  rw [hf.undiscovered, hg.undiscovered, List.filter_append, List.map_append]
  exact List.prefix_append _ _

theorem loaded_append (hf : d.History ps loads f)
    (hg : d.History (ps ++ qs) (loads ++ more) g) :
    more.map (·.plugin) = qs.filter d.offers := by
  have hall := hg.loaded
  rw [List.map_append, List.filter_append, hf.loaded] at hall
  exact List.append_cancel_left hall

end History

/-- **Plugins that come later change nothing of what was found before them.**  If discovery
fails in a list, it fails in the same way with more plugins behind, and calls no further loader.
If it succeeds with more plugins behind, it succeeds in the list alone: the extensions found
there are found under their names in the end, the names noted there come first in the end, and
the plugins of the list are loaded in both runs by the same calls, in the same contexts, before
the others. -/
theorem run_append (d : Discovery) (ps qs : List Plugin) :
    (∀ failure, (d.run ps).outcome = .error failure →
      (d.run (ps ++ qs)).outcome = .error failure ∧
        (d.run (ps ++ qs)).calls = (d.run ps).calls) ∧
    ∀ g, (d.run (ps ++ qs)).outcome = .ok g →
      ∃ f, (d.run ps).outcome = .ok f ∧
        (∀ name e, f.extensions.find? name = some e → g.extensions.find? name = some e) ∧
        f.undiscovered <+: g.undiscovered ∧
        ∃ loads more : List Load, (∀ l ∈ loads ++ more, l.Performed d) ∧
          loads.map (·.plugin) = ps.filter d.offers ∧ more.map (·.plugin) = qs.filter d.offers ∧
          (d.run ps).calls = loads.map (·.call) ∧
          (d.run (ps ++ qs)).calls = loads.map (·.call) ++ more.map (·.call) := by
  refine ⟨fun failure h => run_append_of_error h qs, fun g h => ?_⟩
  obtain ⟨f, hf, hg⟩ := visitEach_of_run_append h
  obtain ⟨loads, more, hl, hm, hc, hcm⟩ := exists_history_append hf hg
  exact ⟨f, hf, hl.extensions_subset_append hm, hl.undiscovered_prefix_append hm, loads, more,
    hm.performed, hl.loaded, hl.loaded_append hm, hc, hcm.trans List.map_append⟩

end Discovery

end PluginHost
