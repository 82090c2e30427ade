import PluginHost.Deployment
import PluginHost.Loader.Stock
import PluginHost.Proofs.Manager

/-!
# What a deployment leaves in its manager

A deployment fails exactly if discovery does, and then its manager is as it was made.  Otherwise
what was discovered is merged into the manager name by name, the newer version staying
(`Deployment.create_merges`).
-/

namespace PluginHost

namespace Deployment

variable {d : Deployment} {m : Manager} {f : Findings}

theorem create_of_error {failure : Failure} (hm : d.factory.outcome = .ok (some m))
    (hd : d.discover.outcome = .error failure) :
    d.create.manager = some m ∧ d.create.result.outcome = .error failure := by
  unfold create fill
  simp only [hm, hd, true_and]
  rw [Traced.outcome_bind_of_ok _ hm, Traced.outcome_bind_of_error _ hd]

theorem create_of_ok (hm : d.factory.outcome = .ok (some m)) (hd : d.discover.outcome = .ok f) :
    d.create.manager = some (m.registerAll f.extensions.toList) ∧
      d.create.result.outcome = .ok (m.registerAll f.extensions.toList) := by
  obtain ⟨hlast, hreg⟩ := m.registerEach_spec f.extensions.toList
  unfold create fill
  simp only [hm, hd]
  refine ⟨congrArg some hlast, ?_⟩
  rw [Traced.outcome_bind_of_ok _ hm, Traced.outcome_bind_of_ok _ hd,
    Traced.outcome_bind_of_ok _ hreg, Traced.outcome_pure, hlast]

theorem toList_registerAll_empty (s : ExtensionSet) :
    (Manager.registerAll ∅ s.toList).toList = s.toList := by
  have he : (Manager.registerAll ∅ s.toList).extensions = s.byName := by
    refine KeyMap.ext_find? fun name => ?_
    show (Manager.registerAll ∅ s.toList).find? name = s.find? name
    rw [Manager.find?_registerAll s.nodup_names_toList, ← s.find?_eq_find?_toList]
    cases s.find? name <;> rfl
  exact congrArg KeyMap.values he

/-- **All or nothing, and the newer version stays.**  The manager may hold any extensions.  If a
deployment fails, its manager is as it was handed out, and it does not fail if discovery
succeeds.  If it succeeds, the manager has each extension that was discovered, unless it held one
of that name whose version is not older, and is the same otherwise; deploying once more with that
manager changes nothing, and a new manager lists exactly what was discovered, by ascending
name. -/
theorem create_merges (hm : d.factory.outcome = .ok (some m)) :
    (∀ failure, d.create.result.outcome = .error failure →
      d.create.manager = some m ∧ d.discover.outcome = .error failure) ∧
    ∀ last, d.create.result.outcome = .ok last →
      d.create.manager = some last ∧
      ∃ f, d.discover.outcome = .ok f ∧
        (∀ name, last.find? name =
          match f.extensions.find? name, m.find? name with
          | none, held => held
          | some e, none => some e
          | some e, some held =>
            some (if Version.Supersedes e.version held.version then e else held)) ∧
        (∀ again : ManagerFactory, again.outcome = .ok (some last) →
          ({ d with factory := again }).create.manager = some last ∧
            ({ d with factory := again }).create.result.outcome = .ok last) ∧
        (m = ∅ → last.toList = f.extensions.toList ∧
          (last.toList.map (·.name)).Pairwise (· < ·)) := by
  cases hd : d.discover.outcome with
  | error failure =>
    obtain ⟨hmanager, hresult⟩ := create_of_error hm hd
    refine ⟨fun other h => ⟨hmanager, ?_⟩, fun last h => ?_⟩
    · rw [Except.error.inj (hresult.symm.trans h)]
    · exact nomatch hresult.symm.trans h
  | ok f =>
    obtain ⟨hmanager, hresult⟩ := create_of_ok hm hd
    refine ⟨fun failure h => absurd (hresult.symm.trans h) nofun, fun last h => ?_⟩
    obtain rfl : m.registerAll f.extensions.toList = last := by
      simpa using hresult.symm.trans h
    have hnodup := f.extensions.nodup_names_toList
    refine ⟨hmanager, f, rfl, fun name => ?_, fun again ha => ?_, ?_⟩
    · rw [Manager.find?_registerAll hnodup, ← f.extensions.find?_eq_find?_toList]
      cases f.extensions.find? name with
      | none => rfl
      | some e => cases m.find? name <;> rfl
    · -- the second deployment discovers the same and meets it in the manager
      have := create_of_ok (d := { d with factory := again }) ha hd
      rwa [Manager.registerAll_registerAll hnodup] at this
    · rintro rfl
      rw [toList_registerAll_empty]
      exact ⟨rfl, f.extensions.pairwise_toList⟩

/-! ### An update -/

/-- An older and a newer version of an extension. -/
def olderHttp : Extension := { name := "Http", version := "1.9.0" }

@[inherit_doc olderHttp]
def newerHttp : Extension := { name := "Http", version := "1.10.0" }

/-- A manager with the older version and another extension. -/
def outdated : Manager :=
  { extensions := KeyMap.ofList [("Auth", { name := "Auth", version := "x" }), ("Http", olderHttp)] }

/-- A deployment of the newer version with that manager. -/
def update : Deployment where
  plugins :=
    [{ descriptor := { name := "http", describer := some { id := "http" } }
       files := { artifactId := "http", root := ⟨"http"⟩, files := .empty } }]
  repository := { loaders := KeyMap.ofList [("http", .fixed "http" newerHttp)] }
  factory := return some outdated

/-- The newer version replaces the older one, and the other extension stays. -/
theorem create_update :
    update.factory.outcome = .ok (some outdated) ∧
      ∃ last, update.create.manager = some last ∧ last.find? "Http" = some newerHttp ∧
        last.find? "Auth" = outdated.find? "Auth" := by
  have hm : update.factory.outcome = .ok (some outdated) := rfl
  have hd : update.discover.outcome = .ok { extensions := .ofList [newerHttp] } := rfl
  obtain ⟨hfail, hdone⟩ := create_merges hm
  cases hc : update.create.result.outcome with
  | error failure => exact nomatch hd.symm.trans (hfail failure hc).2
  | ok last =>
    obtain ⟨hlast, f, hf, hfind, -⟩ := hdone last hc
    obtain rfl : { extensions := .ofList [newerHttp] } = f := by simpa using hd.symm.trans hf
    refine ⟨hm, last, hlast, ?_, hfind "Auth"⟩
    rw [hfind "Http"]
    decide

end Deployment

end PluginHost
