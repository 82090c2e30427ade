import Mathlib.Data.List.Induction
import PluginHost.Proofs.Discovery.Prefix

/-!
# Discovery with plugins left out

A plugin adds nothing to the extensions that are found if it has no extension, or one whose name
is taken (`Discovery.Idle`).  Any choice of such plugins may be left out of a list: discovery
succeeds in the others, finds the same extensions, and loads each of them by the same call, in
the same context (`Discovery.run_staying`).

The two discoveries are carried along side by side (`Discovery.Parallel`).  They hold the same
extensions at every plugin that stays, and a visit sees nothing else of what was found before
(`Discovery.visit_of_performed`).
-/

namespace PluginHost

/-- Of a list with marks, the entries that stay: those marked `true`. -/
def staying {α : Type} (marked : List (α × Bool)) : List α := (marked.filter (·.2)).map (·.1)

@[simp]
theorem staying_append {α : Type} (l m : List (α × Bool)) :
    staying (l ++ m) = staying l ++ staying m := by
  simp [staying]

@[simp]
theorem staying_true {α : Type} (a : α) : staying [(a, true)] = [a] := rfl

@[simp]
theorem staying_false {α : Type} (a : α) : staying [(a, false)] = [] := rfl

namespace Discovery

variable {d : Discovery} {ps : List Plugin} {p : Plugin} {f f' g : Findings}

/-! ### One more plugin -/

theorem run_concat_eq_ok_iff :
    (d.run (ps ++ [p])).outcome = .ok g ↔
      ∃ f, (d.run ps).outcome = .ok f ∧ (d.visit f p).outcome = .ok g := by
  have hone : ∀ f, d.visitEach f [p] = d.visit f p := fun f => bind_pure (d.visit f p)
  simp only [outcome_run, visitEach_append, Traced.outcome_bind_eq_ok_iff, hone]

theorem calls_run_concat (hf : (d.run ps).outcome = .ok f) (p : Plugin) :
    (d.run (ps ++ [p])).calls = (d.run ps).calls ++ (d.visit f p).calls := by
  have hone : d.visitEach f [p] = d.visit f p := bind_pure (d.visit f p)
  rw [calls_run, calls_run, visitEach_append,
    Traced.calls_bind_of_ok _ ((outcome_run d ps).symm.trans hf), hone]

theorem visit_of_performed {l : Load} (hl : l.Performed d) (hs : l.found = f.extensions) :
    (d.visit f l.plugin).outcome = .ok { f with extensions := f.extensions.insert l.extension } ∧
      (d.visit f l.plugin).calls = [l.call] := by
  have ha : d.attempt? l.plugin f.extensions = some (l.loader.load l.request) := by
    rw [← hs]
    exact attempt?_of_serves hl.served l.found
  have he : (l.loader.load l.request).outcome = .ok l.extension :=
    Loader.outcome_load_eq_ok_iff.2 ⟨hl.declared, hl.valid⟩
  exact ⟨visit_of_attempt_ok ha he, (calls_visit_of_attempt ha).trans (Loader.calls_load _ _)⟩

/-! ### Plugins that may be left out -/

/-- Whether a plugin adds nothing to what is found in the plugins before it: it has no extension,
or its extension is dropped because the name is taken. -/
inductive Idle (d : Discovery) (before : List Plugin) (p : Plugin) : Prop
  | bare (nothing : d.offers p = false)
  | dropped {f : Findings} {l : Load} (found : (d.run before).outcome = .ok f)
      (plugin : l.plugin = p) (context : l.found = f.extensions) (performed : l.Performed d)
      (taken : l.kept = false)

/-- Whether, of a list with marks, only such plugins are left out. -/
def OmitsIdle (d : Discovery) (marked : List (Plugin × Bool)) : Prop :=
  ∀ before p after, marked = before ++ (p, false) :: after → d.Idle (before.map (·.1)) p

variable {marked : List (Plugin × Bool)} {loads : List (Load × Bool)} {stays : Bool}

theorem OmitsIdle.init {last : Plugin × Bool} (h : d.OmitsIdle (marked ++ [last])) :
    d.OmitsIdle marked :=
  fun before p after he => h before p (after ++ [last]) (by simp [he])

/-! ### Two discoveries side by side -/

/-- What a discovery in a list and one in the plugins of it that stay have to do with each other:
they hold the same extensions, and the calls of the second are those calls of the first that are
for the plugins that stay. -/
structure Parallel (d : Discovery) (marked : List (Plugin × Bool)) (loads : List (Load × Bool))
    (f g : Findings) : Prop where
  all : (d.run (marked.map (·.1))).outcome = .ok f
  others : (d.run (staying marked)).outcome = .ok g
  extensions : g.extensions = f.extensions
  /-- Every load is marked as its plugin is. -/
  loaded : loads.map (fun l => (l.1.plugin, l.2)) = marked.filter fun m => d.offers m.1
  performed : ∀ l ∈ loads, l.1.Performed d
  calls : (d.run (marked.map (·.1))).calls = loads.map (·.1.call)
  othersCalls : (d.run (staying marked)).calls = (staying loads).map (·.call)

theorem parallel_nil : d.Parallel [] [] {} {} where
  all := outcome_run d []
  others := outcome_run d []
  extensions := rfl
  loaded := rfl
  performed := by simp
  calls := calls_run d []
  othersCalls := calls_run d []

namespace Parallel

variable (h : d.Parallel marked loads f g)

include h

theorem skip (hp : d.offers p = false) (stays : Bool) :
    ∃ g', d.Parallel (marked ++ [(p, stays)]) loads
      { f with undiscovered := f.undiscovered ++ [p.name] } g' := by
  obtain ⟨hv, hc⟩ := visit_of_not_offers (f := f) hp
  obtain ⟨hv', hc'⟩ := visit_of_not_offers (f := g) hp
  have hothers : ∃ g', (d.run (staying (marked ++ [(p, stays)]))).outcome = .ok g' ∧
      g'.extensions = f.extensions ∧
      (d.run (staying (marked ++ [(p, stays)]))).calls = (d.run (staying marked)).calls := by
    cases stays with
    | true =>
      rw [staying_append, staying_true, calls_run_concat h.others, hc', List.append_nil]
      exact ⟨_, run_concat_eq_ok_iff.2 ⟨g, h.others, hv'⟩, h.extensions, rfl⟩
    | false =>
      rw [staying_append, staying_false, List.append_nil]
      exact ⟨g, h.others, h.extensions, rfl⟩
  obtain ⟨g', ho, he, hcalls⟩ := hothers
  refine ⟨g', ?_, ho, he, ?_, h.performed, ?_, hcalls.trans h.othersCalls⟩
  · rw [List.map_append]
    exact run_concat_eq_ok_iff.2 ⟨f, h.all, hv⟩
  · rw [List.filter_append, h.loaded]
    simp [hp]
  · rw [List.map_append, List.map_singleton, calls_run_concat h.all, hc, List.append_nil, h.calls]

/-- A load goes the same way in both, and may be left out if its extension is dropped. -/
theorem load {l : Load} (hl : l.Performed d) (hs : l.found = f.extensions) (stays : Bool)
    (hk : stays = false → l.kept = false) :
    ∃ g', d.Parallel (marked ++ [(l.plugin, stays)]) (loads ++ [(l, stays)])
      { f with extensions := f.extensions.insert l.extension } g' := by
  obtain ⟨hv, hc⟩ := visit_of_performed hl hs
  have hothers : ∃ g', (d.run (staying (marked ++ [(l.plugin, stays)]))).outcome = .ok g' ∧
      g'.extensions = f.extensions.insert l.extension ∧
      (d.run (staying (marked ++ [(l.plugin, stays)]))).calls =
        (staying (loads ++ [(l, stays)])).map (·.call) := by
    cases stays with
    | true =>
      obtain ⟨hv', hc'⟩ := visit_of_performed hl (hs.trans h.extensions.symm)
      simp only [staying_append, staying_true, List.map_append, List.map_singleton]
      rw [calls_run_concat h.others, hc', h.othersCalls]
      refine ⟨_, run_concat_eq_ok_iff.2 ⟨g, h.others, hv'⟩, ?_, rfl⟩
      exact congrArg (·.insert l.extension) h.extensions
    | false =>
      -- the name is taken, so the set of extensions stays as it is
      have ht : f.extensions.contains l.extension.name = true := by
        simpa [Load.kept, hs] using hk rfl
      simp only [staying_append, staying_false, List.append_nil]
      exact ⟨g, h.others, by rw [h.extensions, ExtensionSet.insert_of_contains ht], h.othersCalls⟩
  obtain ⟨g', ho, he, hcalls⟩ := hothers
  refine ⟨g', ?_, ho, he, ?_, ?_, ?_, hcalls⟩
  · rw [List.map_append]
    exact run_concat_eq_ok_iff.2 ⟨f, h.all, hv⟩
  · rw [List.map_append, List.filter_append, h.loaded]
    simp [offers_of_serves hl.served]
  · intro m hm
    rcases List.mem_append.1 hm with hm | hm
    · exact h.performed m hm
    · exact List.mem_singleton.1 hm ▸ hl
  · rw [List.map_append, List.map_singleton, calls_run_concat h.all, hc, h.calls, List.map_append,
      List.map_singleton]

end Parallel

/-- A discovery that succeeds has one beside it in which idle plugins are left out.  By induction
on the list from its end, as whether a plugin is idle depends on the plugins before it. -/
theorem exists_parallel (h : d.OmitsIdle marked)
    (hf : (d.run (marked.map (·.1))).outcome = .ok f) :
    ∃ loads g, d.Parallel marked loads f g := by
  induction marked using List.reverseRecOn generalizing f with
  | nil =>
    obtain rfl : {} = f := Except.ok.inj (parallel_nil.all.symm.trans hf)
    exact ⟨[], {}, parallel_nil⟩
  | append_singleton marked last ih =>
    obtain ⟨p, stays⟩ := last
    obtain ⟨e, he, hv⟩ := run_concat_eq_ok_iff.1 (List.map_append ▸ hf)
    obtain ⟨loads, g, hp⟩ := ih h.init he
    suffices ∃ loads' f' g', d.Parallel (marked ++ [(p, stays)]) loads' f' g' by
      obtain ⟨loads', f', g', hp'⟩ := this
      obtain rfl : f' = f := Except.ok.inj (hp'.all.symm.trans hf)
      exact ⟨loads', g', hp'⟩
    cases stays with
    | true =>
      rcases visit_cases hv with ⟨hnone, -⟩ | ⟨l, rfl, hs, hl, -⟩
      · exact ⟨_, _, hp.skip hnone true⟩
      · exact ⟨_, _, hp.load hl hs true nofun⟩
    | false =>
      cases h marked p [] rfl with
      | bare hnone => exact ⟨_, _, hp.skip hnone false⟩
      | dropped hfound hplugin hs hl hk =>
        obtain rfl := Except.ok.inj (hfound.symm.trans he)
        subst hplugin
        exact ⟨_, _, hp.load hl hs false fun _ => hk⟩

/-- **Plugins that add nothing may be left out.**  If discovery succeeds in a list, and plugins
without an extension, or with one that is dropped because an earlier plugin declared its name, are
left out of the list, wherever they stand, then discovery succeeds in the others and finds the
same extensions.  Every plugin that stays and has an extension is loaded by the same call, in the
same context, as in the whole list. -/
theorem run_staying (hf : (d.run (marked.map (·.1))).outcome = .ok f) (h : d.OmitsIdle marked) :
    ∃ g, (d.run (staying marked)).outcome = .ok g ∧ g.extensions = f.extensions ∧
      ∃ loads : List (Load × Bool), (∀ l ∈ loads, l.1.Performed d) ∧
        loads.map (fun l => (l.1.plugin, l.2)) = marked.filter (fun m => d.offers m.1) ∧
        (d.run (marked.map (·.1))).calls = loads.map (·.1.call) ∧
        (d.run (staying marked)).calls = (staying loads).map (·.call) := by
  obtain ⟨loads, g, hp⟩ := exists_parallel h hf
  exact ⟨g, hp.others, hp.extensions, loads, hp.performed, hp.loaded, hp.calls, hp.othersCalls⟩

/-! ### A rival and a plugin without an extension -/

/-- A discovery with the loaders of an extension that exports a type, of a newer one of the same
name that exports another, and of an extension that imports the first type. -/
def crowded : Discovery :=
  plainDiscovery
    [.fixed "auth" { name := "Auth", version := "1.0", importedTypes := .ofList ["Request"] },
      .fixed "http" { name := "Http", version := "2.1", exportedTypes := .ofList ["Request"] },
      .fixed "rival" { name := "Http", version := "3.0", exportedTypes := .ofList ["Reply"] }]

/-- Their plugins, with one that has no extension; the rival and that one are left out. -/
def crowd : List (Plugin × Bool) :=
  [(plainPlugin "server" (some "http"), true), (plainPlugin "newcomer" (some "rival"), false),
    (plainPlugin "stray" none, false), (plainPlugin "client" (some "auth"), true)]

/-- The load of the rival. -/
def rivalLoad : Load where
  plugin := plainPlugin "newcomer" (some "rival")
  loader := .fixed "rival" { name := "Http", version := "3.0", exportedTypes := .ofList ["Reply"] }
  attributes := ∅
  found := .ofList [{ name := "Http", version := "2.1", exportedTypes := .ofList ["Request"] }]
  extension := { name := "Http", version := "3.0", exportedTypes := .ofList ["Reply"] }

theorem rivalLoad_performed : rivalLoad.Performed crowded where
  served := @Serves.describer crowded rivalLoad.plugin { id := "rival" } _ rfl rfl
  declared := rfl
  valid := by decide

theorem omitsIdle_crowd : crowded.OmitsIdle crowd := by
  intro before p after he
  simp [crowd, List.cons_eq_append_iff] at he
  obtain ⟨_, rfl, ⟨rfl, rfl, -⟩ | ⟨rfl, rfl, -⟩⟩ := he
  · exact .dropped rfl rfl rfl rivalLoad_performed (by decide)
  · exact .bare rfl

/-- Without the two the same is found. -/
theorem run_staying_crowd :
    ((crowded.run (crowd.map (·.1))).outcome =
        .ok { tradeFindings with undiscovered := ["stray"] } ∧ crowded.OmitsIdle crowd) ∧
    ∃ g, (crowded.run (staying crowd)).outcome = .ok g ∧
      g.extensions = tradeFindings.extensions := by
  have hf : (crowded.run (crowd.map (·.1))).outcome =
    .ok { tradeFindings with undiscovered := ["stray"] } := rfl
  obtain ⟨g, hg, he, -⟩ := run_staying hf omitsIdle_crowd
  exact ⟨⟨hf, omitsIdle_crowd⟩, g, hg, he⟩

end Discovery

end PluginHost
