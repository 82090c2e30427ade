import PluginHost.Proofs.Library.Contribution

/-!
# Registering a library in place

`Library.registerInto` gives a new repository or a fault.  A host changes the one that it has,
step by step: the entry point fills a staging repository and may break off at any loader, the ids
are compared, the loaders are fetched back one by one and registered as a batch, whose failure is
caught (`Library.registerInPlace`).  None of the steps leaves a mark unless all of them succeed
(`Library.on_registerInPlace`), and when they do is settled by the library and the repository
alone (`Library.registration_all_or_nothing`).
-/

namespace PluginHost

namespace Repository.InPlace

variable {α : Type}

/-- Takes steps and says how they end.  What they changed before a failure stays changed. -/
def attempt (x : InPlace α) : InPlace (Except Failure α) := ExceptT.lift (ExceptT.run x)

theorem on_attempt (x : InPlace α) (r : Repository) :
    (attempt x).on r = (.ok (x.on r).1, (x.on r).2) := rfl

end Repository.InPlace

open Repository (InPlace)

/-- Runs an entry point on the repository in place. -/
def LibraryImage.enter (image : LibraryImage) : InPlace Unit := do
  InPlace.registerEach image.offered
  match image.failure with
  | none => return
  | some failure => throw failure

/-- An entry point ends in place as it does otherwise, though it may leave loaders behind. -/
theorem LibraryImage.on_enter (image : LibraryImage) (r : Repository) :
    ∃ left, image.enter.on r =
      match (image.run r).outcome with
      | .ok next => (.ok (), next)
      | .error failure => (.error failure, left) := by
  unfold run enter
  simp only [InPlace.on_bind]
  cases heach : (r.registerEach image.offered).outcome with
  | error failure =>
    obtain ⟨left, hleft⟩ := InPlace.on_registerEach_of_error heach
    rw [hleft, Traced.outcome_bind_of_error _ heach]
    exact ⟨left, rfl⟩
  | ok next =>
    rw [InPlace.on_registerEach_of_ok heach, Traced.outcome_bind_of_ok _ heach]
    cases image.failure with
    | none => exact ⟨next, rfl⟩
    | some failure => exact ⟨next, rfl⟩

namespace Library

/-! ### Steps -/

/-- Compares ids with those of the repository, one after the other. -/
def clash? : List String → InPlace (Option String)
  | [] => return none
  | id :: rest => do
    if (← get).has id then return some id else clash? rest

/-- Registers the loaders of a staging repository in the repository in place, where they keep
their library mapped. -/
def transferInPlace (path : Path) (staging : Repository) :
    InPlace (Except LibraryFault (List String)) := do
  match ← clash? staging.ids with
  | some id => return .error (.idTaken path id)
  | none =>
    let loaders := staging.ids.map fun id => (staging.find? id).map (·.keeping path)
    match ← InPlace.attempt (InPlace.registerBatch loaders) with
    | .error failure => return .error (.refused path failure.what)
    | .ok () => return .ok staging.ids

/-- Registers the loaders of a library in the repository in place and gives their ids. -/
def registerInPlace (library : Library) : InPlace (Except LibraryFault (List String)) := do
  if (← get).isSealed then return .error (.repositorySealed library.path)
  else
    match library.image.enter.on ∅ with
    | (.error failure, _) => return .error (.entryPointFailed library.path failure.what)
    | (.ok (), staging) => transferInPlace library.path staging

/-! ### What the steps do -/

/-- How the registration of a library ends in place: a repository that it gives takes the place of
the old one, and a fault leaves the old one there. -/
def ending (r : Repository) : Except LibraryFault (Repository × List String) →
    Except Failure (Except LibraryFault (List String)) × Repository
  | .ok (next, ids) => (.ok (.ok ids), next)
  | .error fault => (.ok (.error fault), r)

theorem on_clash? (ids : List String) (r : Repository) :
    (clash? ids).on r = (.ok (ids.find? r.has), r) := by
  induction ids with
  | nil => rfl
  | cons id rest ih =>
    simp only [clash?, InPlace.on_bind, InPlace.on_get, List.find?_cons]
    cases r.has id with
    | true => rfl
    | false => exact ih

theorem map_keeping_find? (path : Path) (staging : Repository) :
    (staging.ids.map fun id => (staging.find? id).map (·.keeping path)) =
      (loadersKeeping path staging).map some := by
  have hkeys : staging.ids.map staging.find? = staging.loaders.values.map some :=
    staging.loaders.map_find?_keys
  have hmap := congrArg (List.map (Option.map (·.keeping path))) hkeys
  rw [List.map_map, List.map_map] at hmap
  rw [loadersKeeping, List.map_map]
  exact hmap

theorem on_transferInPlace (path : Path) (staging r : Repository) :
    ∃ result, (transfer path staging r).outcome = .ok result ∧
      (transferInPlace path staging).on r = ending r result := by
  unfold transfer transferInPlace
  simp only [InPlace.on_bind, on_clash?]
  cases staging.ids.find? r.has with
  | some id => exact ⟨_, rfl, rfl⟩
  | none =>
    simp only [InPlace.on_bind, InPlace.on_attempt, map_keeping_find?, InPlace.on_registerBatch]
    rw [Traced.outcome_bind_of_ok _ (Traced.outcome_attempt _)]
    cases (r.registerBatch ((loadersKeeping path staging).map some)).outcome with
    | error failure => exact ⟨_, rfl, rfl⟩
    | ok next => exact ⟨_, rfl, rfl⟩

/-- **Registering a library in place** ends as registering it does: with all of it registered, or
with the repository as it was. -/
theorem on_registerInPlace (library : Library) (r : Repository) :
    ∃ result, (library.registerInto r).outcome = .ok result ∧
      library.registerInPlace.on r = ending r result := by
  unfold registerInto registerInPlace
  simp only [InPlace.on_bind, InPlace.on_get]
  cases r.isSealed with
  | true => exact ⟨_, rfl, rfl⟩
  | false =>
    obtain ⟨left, hentered⟩ := library.image.on_enter ∅
    simp only [Bool.false_eq_true, ↓reduceIte, hentered]
    rw [Traced.outcome_bind_of_ok _ (Traced.outcome_attempt _)]
    cases (library.image.run ∅).outcome with
    | error failure => exact ⟨_, rfl, rfl⟩
    | ok staging => exact on_transferInPlace library.path staging r

/-! ### All or nothing -/

/-- Whether a repository takes the loaders of a library: it is open, the entry point completes on
a repository of its own, and none of the ids is taken. -/
structure Fits (library : Library) (r : Repository) : Prop where
  opened : r.isSealed = false
  completes : ∃ staging, (library.image.run ∅).outcome = .ok staging
  free : ∀ loader, some loader ∈ library.image.offered → r.has loader.id = false

/-- What a repository is once the loaders of a library are registered in it, and their ids.  The
loaders keep the library mapped. -/
structure Registered (library : Library) (r after : Repository) (ids : List String) : Prop where
  ascending : ids.Pairwise (· < ·)
  ids_eq : ∀ id, id ∈ ids ↔ ∃ loader, some loader ∈ library.image.offered ∧ loader.id = id
  gained : ∀ id, after.has id = true ↔ r.has id = true ∨ id ∈ ids
  found : ∀ id loader, after.find? id = some loader ↔ r.find? id = some loader ∨
    ∃ offered, some offered ∈ library.image.offered ∧ offered.id = id ∧
      loader = offered.keeping library.path
  isSealed : after.isSealed = r.isSealed

variable {library : Library} {r : Repository}

theorem exists_contribution_iff :
    (∃ loaders, library.contribution r = .ok loaders) ↔ library.Fits r := by
  have hids : ∀ {staging}, (library.image.run ∅).outcome = .ok staging →
      ((∀ id ∈ staging.ids, r.has id = false) ↔
        ∀ loader, some loader ∈ library.image.offered → r.has loader.id = false) := by
    intro staging hrun
    rw [← (LibraryImage.filed_of_run hrun).map_id_values, List.forall_mem_map]
    simp only [LibraryImage.mem_values_of_run hrun]
  simp only [contribution_eq_ok_iff]
  constructor
  · rintro ⟨_, hopened, staging, hrun, hfree, -⟩
    exact ⟨hopened, ⟨staging, hrun⟩, (hids hrun).1 hfree⟩
  · rintro ⟨hopened, ⟨staging, hrun⟩, hfree⟩
    exact ⟨_, hopened, staging, hrun, (hids hrun).2 hfree, rfl⟩

theorem registered_of_contribution {loaders : List Loader}
    (h : library.contribution r = .ok loaders) :
    library.Registered r (r.putEach loaders) (loaders.map (·.id)) := by
  have hadmits := admits_of_contribution h
  refine ⟨?_, fun id => ?_, fun id => Repository.has_putEach_iff, fun id loader => ?_,
    Repository.isSealed_putEach r _⟩
  · obtain ⟨-, staging, hrun, -, rfl⟩ := contribution_eq_ok_iff.1 h
    rw [map_id_loadersKeeping_of_run library.path hrun]
    exact KeyMap.pairwise_keys _
  · simp only [List.mem_map, mem_of_contribution h]
    constructor
    · rintro ⟨_, ⟨offered, hoffered, rfl⟩, hid⟩
      exact ⟨offered, hoffered, hid⟩
    · rintro ⟨offered, hoffered, hid⟩
      exact ⟨_, ⟨offered, hoffered, rfl⟩, hid⟩
  · rw [hadmits.find?_putEach_eq_some_iff, mem_of_contribution h]
    refine or_congr_right ?_
    constructor
    · rintro ⟨⟨offered, hoffered, rfl⟩, hid⟩
      exact ⟨offered, hoffered, hid, rfl⟩
    · rintro ⟨offered, hoffered, hid, rfl⟩
      exact ⟨⟨offered, hoffered, rfl⟩, hid⟩

/-- **A library is registered as a whole or not at all.**  However its entry point ends and
whatever the repository holds, registering it in place ends with a result: with all ids exactly if
the repository takes the loaders, and else with a fault and the repository as it was. -/
theorem registration_all_or_nothing (library : Library) (r : Repository) :
    ∃ result after, library.registerInPlace.on r = (.ok result, after) ∧
      (library.registerInto r).outcome = .ok (result.map fun ids => (after, ids)) ∧
      ((∃ ids, result = .ok ids) ↔ library.Fits r) ∧
      (∀ ids, result = .ok ids → library.Registered r after ids) ∧
      (∀ fault, result = .error fault → after = r) := by
  obtain ⟨answer, hanswer, hplace⟩ := library.on_registerInPlace r
  obtain rfl := Except.ok.inj (hanswer.symm.trans (outcome_registerInto library r))
  have hfits : (∃ loaders, library.contribution r = .ok loaders) ↔ library.Fits r :=
    exists_contribution_iff
  cases hc : library.contribution r with
  | error fault =>
    rw [hc] at hplace hanswer hfits
    refine ⟨.error fault, r, hplace, hanswer, ?_, ?_, ?_⟩
    · simp [← hfits]
    · intro ids h
      cases h
    · intro _ _
      rfl
  | ok loaders =>
    rw [hc] at hplace hanswer hfits
    refine ⟨.ok (loaders.map Loader.id), r.putEach loaders, hplace, hanswer, ?_, ?_, ?_⟩
    · simp [← hfits]
    · intro ids h
      obtain rfl := Except.ok.inj h
      exact registered_of_contribution hc
    · intro fault h
      cases h

end Library

end PluginHost
