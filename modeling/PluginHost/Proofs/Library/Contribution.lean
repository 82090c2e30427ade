import PluginHost.Library.Basic
import PluginHost.Proofs.Repository.Batch
import PluginHost.Proofs.Repository.Calls

/-!
# What a library adds to a repository

A library adds all loaders that its entry point registers, or none (`Library.contribution`).  It
adds none if the repository is sealed, if its entry point fails, be it behind some loaders that it
registered, or if one of the ids is taken; otherwise the repository admits all of them
(`Library.admits_of_contribution`), so that registering them cannot fail
(`Library.outcome_registerInto`).
-/

namespace PluginHost

namespace Repository

variable {r : Repository}

/-! ### Loaders of a repository -/

theorem filed_empty : (∅ : Repository).Filed := fun _ _ h => nomatch h

theorem Filed.map_id_values (hr : r.Filed) : r.loaders.values.map (·.id) = r.ids := by
  show (r.loaders.entries.map (·.2)).map (·.id) = r.loaders.entries.map (·.1)
  rw [List.map_map]
  refine List.map_congr_left fun e he => ?_
  exact (hr e.1 e.2 (KeyMap.find?_eq_some_iff.2 he)).2

theorem Filed.mem_values_iff (hr : r.Filed) {loader : Loader} :
    loader ∈ r.loaders.values ↔ r.find? loader.id = some loader := by
  show loader ∈ r.loaders.entries.map (·.2) ↔ _
  rw [List.mem_map]
  constructor
  · rintro ⟨e, he, rfl⟩
    have hfound : r.find? e.1 = some e.2 := KeyMap.find?_eq_some_iff.2 he
    rw [(hr e.1 e.2 hfound).2]
    exact hfound
  · intro h
    exact ⟨(loader.id, loader), KeyMap.find?_eq_some_iff.1 h, rfl⟩

end Repository

/-! ### Entry points -/

namespace LibraryImage

variable {image : LibraryImage} {staging : Repository}

/-- An entry point succeeds exactly if it does not fail by itself and all that it registers are
loaders with different ids. -/
theorem run_eq_ok_iff :
    (image.run ∅).outcome = .ok staging ↔ image.failure = none ∧
      ∃ loaders, image.offered = loaders.map some ∧ (∅ : Repository).Admits loaders ∧
        staging = (∅ : Repository).putEach loaders := by
  unfold run
  rw [Traced.outcome_bind_eq_ok_iff]
  constructor
  · rintro ⟨r, hr, hstaging⟩
    cases hf : image.failure with
    | some failure =>
      rw [hf] at hstaging
      cases hstaging
    | none =>
      rw [hf] at hstaging
      obtain rfl := Except.ok.inj hstaging
      exact ⟨rfl, (Repository.registerEach_eq_ok_iff rfl).1 hr⟩
  · rintro ⟨hf, hloaders⟩
    exact ⟨staging, (Repository.registerEach_eq_ok_iff rfl).2 hloaders, by rw [hf]; rfl⟩

theorem filed_of_run (h : (image.run ∅).outcome = .ok staging) : staging.Filed := by
  obtain ⟨-, loaders, -, hadmits, rfl⟩ := run_eq_ok_iff.1 h
  exact Repository.filed_empty.step (.extended hadmits)

theorem mem_values_of_run (h : (image.run ∅).outcome = .ok staging) {loader : Loader} :
    loader ∈ staging.loaders.values ↔ some loader ∈ image.offered := by
  rw [(filed_of_run h).mem_values_iff]
  obtain ⟨-, loaders, ho, hadmits, rfl⟩ := run_eq_ok_iff.1 h
  have hnone : (∅ : Repository).find? loader.id = none := rfl
  rw [Repository.find?_putEach hadmits.distinct, hnone, Option.or_none, ho]
  constructor
  · intro hfound
    exact List.mem_map_of_mem (List.mem_of_find?_eq_some hfound)
  · intro hmem
    obtain ⟨l, hl, hsome⟩ := List.mem_map.1 hmem
    obtain rfl := Option.some.inj hsome
    exact find?_key_of_mem hadmits.distinct hl

end LibraryImage

namespace Library

variable {library : Library} {r : Repository} {loaders : List Loader}

theorem map_id_loadersKeeping (path : Path) (staging : Repository) :
    (loadersKeeping path staging).map (·.id) = staging.loaders.values.map (·.id) := by
  unfold loadersKeeping
  rw [List.map_map]
  rfl

/-- What an open library adds to a repository: its loaders by ascending id, each of which keeps it
mapped, or the fault for which it adds none. -/
def contribution (library : Library) (r : Repository) : Except LibraryFault (List Loader) :=
  if r.isSealed then .error (.repositorySealed library.path)
  else
    match (library.image.run ∅).outcome with
    | .error failure => .error (.entryPointFailed library.path failure.what)
    | .ok staging =>
      match staging.ids.find? r.has with
      | some id => .error (.idTaken library.path id)
      | none => .ok (loadersKeeping library.path staging)

theorem contribution_eq_ok_iff :
    library.contribution r = .ok loaders ↔ r.isSealed = false ∧
      ∃ staging, (library.image.run ∅).outcome = .ok staging ∧
        (∀ id ∈ staging.ids, r.has id = false) ∧
          loaders = loadersKeeping library.path staging := by
  unfold contribution
  cases hs : r.isSealed with
  | true => simp
  | false =>
    cases hrun : (library.image.run ∅).outcome with
    | error failure => simp
    | ok staging =>
      simp only [Bool.false_eq_true, ↓reduceIte, Except.ok.injEq, exists_eq_left', true_and]
      cases hf : staging.ids.find? r.has with
      | some id =>
        have htaken := List.find?_some hf
        have hmem := List.mem_of_find?_eq_some hf
        simp only [reduceCtorEq, false_iff, not_and]
        intro hfree
        exact nomatch htaken.symm.trans (hfree id hmem)
      | none =>
        have hfree := List.find?_eq_none.1 hf
        simp only [Bool.not_eq_true] at hfree
        simp only [Except.ok.injEq]
        exact ⟨fun he => ⟨hfree, he.symm⟩, fun he => he.2.symm⟩

theorem map_id_loadersKeeping_of_run {staging : Repository} (path : Path)
    (h : (library.image.run ∅).outcome = .ok staging) :
    (loadersKeeping path staging).map (·.id) = staging.ids :=
  (map_id_loadersKeeping path staging).trans (LibraryImage.filed_of_run h).map_id_values

/-- What a library adds can be registered together. -/
theorem admits_of_contribution (h : library.contribution r = .ok loaders) : r.Admits loaders := by
  obtain ⟨hopen, staging, hrun, hfree, rfl⟩ := contribution_eq_ok_iff.1 h
  have hfiled := LibraryImage.filed_of_run hrun
  have hids := map_id_loadersKeeping_of_run library.path hrun
  refine ⟨hopen, ?_, ?_, ?_⟩
  · intro l hl
    obtain ⟨loader, hloader, rfl⟩ := List.mem_map.1 hl
    exact (hfiled loader.id loader (hfiled.mem_values_iff.1 hloader)).1
  · intro l hl
    exact hfree l.id (hids ▸ List.mem_map_of_mem hl)
  · rw [hids]
    exact (KeyMap.pairwise_keys _).imp fun hlt => String.ne_of_lt hlt

/-- **Registering a library** never fails half-way: it adds what the library has to add, or
reports the fault for which that is nothing. -/
theorem outcome_registerInto (library : Library) (r : Repository) :
    (library.registerInto r).outcome =
      .ok ((library.contribution r).map fun loaders =>
        (r.putEach loaders, loaders.map (·.id))) := by
  have hadmits := @admits_of_contribution library r
  unfold registerInto
  unfold contribution at hadmits ⊢
  cases hs : r.isSealed with
  | true => rfl
  | false =>
    simp only [hs, Bool.false_eq_true, ↓reduceIte] at hadmits ⊢
    rw [Traced.outcome_bind_of_ok _ (Traced.outcome_attempt _)]
    cases hrun : (library.image.run ∅).outcome with
    | error failure => rfl
    | ok staging =>
      simp only [hrun] at hadmits ⊢
      unfold transfer
      cases hf : staging.ids.find? r.has with
      | some id => rfl
      | none =>
        simp only [hf] at hadmits ⊢
        have hbatch : (r.registerBatch ((loadersKeeping library.path staging).map some)).outcome =
            .ok (r.putEach (loadersKeeping library.path staging)) :=
          Repository.registerBatch_eq_ok_iff.2 ⟨_, rfl, hadmits rfl, rfl⟩
        have htried :
            (r.registerBatch ((loadersKeeping library.path staging).map some)).attempt.outcome =
              .ok (.ok (r.putEach (loadersKeeping library.path staging))) := by
          rw [Traced.outcome_attempt, hbatch]
        rw [Traced.outcome_bind_of_ok _ htried,
          Traced.outcome_bind_of_ok _ (Traced.outcome_emit _ _)]
        have hids := map_id_loadersKeeping_of_run library.path hrun
        simp only [Except.map, hids]
        rfl

/-- What the library at a path adds to a repository, or the fault for which it adds nothing.  It
is opened beside the libraries that the repository keeps mapped. -/
def contributionAt (files : FileSystem) (linker : Linker) (r : Repository) (path : Path) :
    Except LibraryFault (List Loader) :=
  match openAt files linker r.mapped path with
  | .error fault => .error fault
  | .ok library => library.contribution r

theorem contributionAt_eq_ok_iff {files : FileSystem} {linker : Linker} {path : Path} :
    contributionAt files linker r path = .ok loaders ↔
      ∃ image, sharedObject files linker r.mapped path = .library image ∧
        ({ path, image } : Library).contribution r = .ok loaders := by
  unfold contributionAt openAt
  cases sharedObject files linker r.mapped path <;> simp

/-- The loaders that a library adds are those that its entry point registers. -/
theorem mem_of_contribution (h : library.contribution r = .ok loaders) {loader : Loader} :
    loader ∈ loaders ↔
      ∃ offered, some offered ∈ library.image.offered ∧ offered.keeping library.path = loader := by
  obtain ⟨-, staging, hrun, -, rfl⟩ := contribution_eq_ok_iff.1 h
  refine List.mem_map.trans (exists_congr fun offered => and_congr_left fun _ => ?_)
  exact LibraryImage.mem_values_of_run hrun

end Library

end PluginHost
