import PluginHost.Loader.Native
import PluginHost.Proofs.Repository.InPlace

/-!
# Batches, and loaders one after the other

A batch is registered exactly if its loaders can be registered one after the other, and then the
repository is the same (`Repository.registerBatch_iff_registerEach`).  The two differ in how they
fail: of a batch nothing is left, and what is no loader or has no id is found first, wherever it
stands.  The batch of nothing is the exception: a sealed repository refuses it.
-/

namespace PluginHost

namespace Repository

variable {r next : Repository} {given : List (Option Loader)}

/-! ### Loaders one after the other -/

/-- **Loaders are registered one after the other** exactly if the batch of them can be. -/
theorem registerEach_eq_ok_iff (hr : r.isSealed = false) :
    (r.registerEach given).outcome = .ok next ↔
      ∃ loaders, given = loaders.map some ∧ r.Admits loaders ∧ next = r.putEach loaders := by
  induction given generalizing r with
  | nil =>
    constructor
    · intro h
      obtain rfl := Except.ok.inj h
      exact ⟨[], rfl, admits_nil hr, rfl⟩
    · rintro ⟨loaders, hgiven, -, rfl⟩
      obtain rfl : loaders = [] := by simpa using hgiven.symm
      rfl
  | cons loader rest ih =>
    unfold registerEach
    rw [Traced.outcome_bind_eq_ok_iff]
    constructor
    · rintro ⟨middle, hfirst, hrest⟩
      obtain ⟨l, rfl, hl, rfl⟩ := register_eq_ok_iff.1 hfirst
      obtain ⟨ls, rfl, hls, rfl⟩ := (ih ((isSealed_putEach r [l]).trans hr)).1 hrest
      exact ⟨l :: ls, rfl, admits_append_iff.2 ⟨hl, hls⟩, rfl⟩
    · rintro ⟨loaders, hgiven, hadmits, rfl⟩
      cases loaders with
      | nil => simp at hgiven
      | cons l ls =>
        obtain ⟨rfl, rfl⟩ := List.cons.inj (List.map_cons ▸ hgiven)
        have hboth : r.Admits ([l] ++ ls) := hadmits
        obtain ⟨hl, hls⟩ := admits_append_iff.1 hboth
        exact ⟨r.putEach [l], register_eq_ok_iff.2 ⟨l, rfl, hl, rfl⟩,
          (ih ((isSealed_putEach r [l]).trans hr)).2 ⟨ls, rfl, hls, rfl⟩⟩

theorem outcome_registerEach_ne_ok (hs : r.isSealed = true) (hgiven : given ≠ []) :
    (r.registerEach given).outcome ≠ .ok next := by
  cases given with
  | nil => exact absurd rfl hgiven
  | cons loader rest =>
    intro h
    obtain ⟨middle, hfirst, -⟩ := Traced.outcome_bind_eq_ok_iff.1 h
    obtain ⟨l, -, hadmits, -⟩ := register_eq_ok_iff.1 hfirst
    exact nomatch hs.symm.trans hadmits.opened

/-- **A batch gives what its loaders give one after the other.** -/
theorem registerBatch_eq_ok_iff_registerEach (hgiven : given ≠ []) :
    (r.registerBatch given).outcome = .ok next ↔ (r.registerEach given).outcome = .ok next := by
  cases hs : r.isSealed with
  | false => rw [registerBatch_eq_ok_iff, registerEach_eq_ok_iff hs]
  | true =>
    refine iff_of_false (fun h => ?_) (outcome_registerEach_ne_ok hs hgiven)
    obtain ⟨loaders, -, hadmits, -⟩ := registerBatch_eq_ok_iff.1 h
    exact nomatch hs.symm.trans hadmits.opened

/-! ### Refusals -/

theorem of_proper_eq_error {loader : Option Loader} {failure : Failure}
    (h : proper loader = .error failure) :
    (∃ message, failure = .invalidArgument message) ∧
      (loader = none ∨ ∃ l, loader = some l ∧ l.id = "") := by
  cases loader with
  | none =>
    cases h
    exact ⟨⟨_, rfl⟩, .inl rfl⟩
  | some l =>
    by_cases hid : l.id = ""
    · simp only [proper, hid, ↓reduceIte] at h
      cases h
      exact ⟨⟨_, rfl⟩, .inr ⟨l, rfl, hid⟩⟩
    · simp only [proper, hid, ↓reduceIte, reduceCtorEq] at h

theorem exists_invalidArgument_iff :
    (∃ message, (r.registerBatch given).outcome = .error (.invalidArgument message)) ↔
      none ∈ given ∨ ∃ l, some l ∈ given ∧ l.id = "" := by
  rw [outcome_registerBatch]
  cases hp : given.mapM proper with
  | error failure =>
    obtain ⟨loader, hmem, hfailure⟩ := exists_mem_of_mapM_eq_error hp
    obtain ⟨⟨message, rfl⟩, rfl | ⟨l, rfl, hid⟩⟩ := of_proper_eq_error hfailure
    · exact iff_of_true ⟨message, rfl⟩ (.inl hmem)
    · exact iff_of_true ⟨message, rfl⟩ (.inr ⟨l, hmem, hid⟩)
  | ok loaders =>
    obtain ⟨rfl, hids⟩ := mapM_proper_eq_ok_iff.1 hp
    refine iff_of_false ?_ ?_
    · rintro ⟨message, h⟩
      dsimp only at h
      split at h
      · cases h
      · split at h
        · cases h
        · cases h
    · rintro (hmem | ⟨l, hmem, hid⟩)
      · simp at hmem
      · exact hids l (by simpa using hmem) hid

/-! ### In place -/

namespace InPlace

/-- Registers loaders one after the other. -/
def registerEach : List (Option Loader) → InPlace Unit
  | [] => return
  | loader :: rest => do
    register loader
    registerEach rest

theorem on_registerEach_of_ok {given : List (Option Loader)} {r next : Repository}
    (h : (r.registerEach given).outcome = .ok next) :
    (registerEach given).on r = (.ok (), next) := by
  induction given generalizing r with
  | nil => exact congrArg (Prod.mk _) (Except.ok.inj h)
  | cons loader rest ih =>
    obtain ⟨middle, hfirst, hrest⟩ := Traced.outcome_bind_eq_ok_iff.1 h
    simp only [registerEach, on_bind, on_register, hfirst, ending, ih hrest]

/-- Loaders registered before a failure stay in the repository. -/
theorem on_registerEach_of_error {given : List (Option Loader)} {r : Repository}
    {failure : Failure} (h : (r.registerEach given).outcome = .error failure) :
    ∃ left, (registerEach given).on r = (.error failure, left) := by
  induction given generalizing r with
  | nil => exact nomatch h
  | cons loader rest ih =>
    unfold Repository.registerEach at h
    simp only [registerEach, on_bind, on_register]
    cases hfirst : (r.register loader).outcome with
    | error failure' =>
      rw [Traced.outcome_bind_of_error _ hfirst] at h
      obtain rfl := Except.error.inj h
      exact ⟨r, rfl⟩
    | ok middle =>
      rw [Traced.outcome_bind_of_ok _ hfirst] at h
      exact ih h

theorem on_registerEach_eq_ok_iff :
    (registerEach given).on r = (.ok (), next) ↔ (r.registerEach given).outcome = .ok next := by
  refine ⟨fun h => ?_, on_registerEach_of_ok⟩
  cases heach : (r.registerEach given).outcome with
  | error failure =>
    obtain ⟨left, hleft⟩ := on_registerEach_of_error heach
    exact nomatch hleft.symm.trans h
  | ok next' =>
    cases (on_registerEach_of_ok heach).symm.trans h
    rfl

theorem ending_eq_ok_iff {x : Except Failure Repository} :
    ending r x = (.ok (), next) ↔ x = .ok next := by
  cases x <;> simp [ending]

theorem ending_eq_error_iff {x : Except Failure Repository} {failure : Failure} :
    ending r x = (.error failure, next) ↔ x = .error failure ∧ next = r := by
  cases x <;> simp [ending, eq_comm]

end InPlace

/-- **A batch and its loaders one after the other.**  One succeeds exactly if the other does, and
then the repository is the same, in place or not.  A batch that fails leaves the repository as it
was, and fails for its arguments exactly if one of them is no loader or has no id. -/
theorem registerBatch_iff_registerEach (hgiven : given ≠ []) (r : Repository) :
    (∀ next, (InPlace.registerBatch given).on r = (.ok (), next) ↔
        (InPlace.registerEach given).on r = (.ok (), next)) ∧
      (∀ next, (r.registerBatch given).outcome = .ok next ↔
        (r.registerEach given).outcome = .ok next) ∧
      (∀ failure next, (InPlace.registerBatch given).on r = (.error failure, next) → next = r) ∧
      ((∃ message next,
          (InPlace.registerBatch given).on r = (.error (.invalidArgument message), next)) ↔
        none ∈ given ∨ ∃ l, some l ∈ given ∧ l.id = "") := by
  simp only [InPlace.on_registerBatch, InPlace.ending_eq_ok_iff, InPlace.ending_eq_error_iff,
    InPlace.on_registerEach_eq_ok_iff, exists_eq_right]
  exact ⟨fun _ => registerBatch_eq_ok_iff_registerEach hgiven,
    fun _ => registerBatch_eq_ok_iff_registerEach hgiven, fun _ _ h => h.2,
    exists_invalidArgument_iff⟩

/-- A batch whose second loader is missing is refused for that, and so are the two one after the
other. -/
theorem not_registerEach_of_absent :
    [some Loader.native, none] ≠ [] ∧
      (∃ message next, (InPlace.registerBatch [some Loader.native, none]).on ∅ =
        (.error (.invalidArgument message), next)) ∧
      ∀ next, (InPlace.registerEach [some Loader.native, none]).on ∅ ≠ (.ok (), next) := by
  have hgiven : [some Loader.native, none] ≠ [] := by simp
  obtain ⟨hsame, -, -, hrefused⟩ := registerBatch_iff_registerEach hgiven ∅
  have hnone := hrefused.2 (.inl (by simp))
  refine ⟨hgiven, hnone, fun next h => ?_⟩
  obtain ⟨message, left, hleft⟩ := hnone
  exact nomatch hleft.symm.trans ((hsame next).2 h)

/-- A sealed repository refuses the batch of nothing, though there is nothing to register. -/
example :
    (InPlace.registerBatch []).on (close ∅) =
        (.error (.runtime "Cannot register loaders: the loader repository is sealed"), close ∅) ∧
      (InPlace.registerEach []).on (close ∅) = (.ok (), close ∅) := by
  exact ⟨rfl, rfl⟩

end Repository

end PluginHost
