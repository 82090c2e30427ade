import PluginHost.Proofs.Repository.InPlace

/-!
# What holds of a repository whatever is asked of it

A host registers loaders with its repository, one by one and by batches, looks for some, and
closes it, in any order, and some of that fails.  What one call does to the repository is
`Repository.Step`; what holds of every repository that calls make of an empty one is collected in
`Repository.after_calls`.
-/

namespace PluginHost

namespace Repository

/-! ### Calls -/

/-- What a host can ask of a repository. -/
inductive Call where
  | register (loader : Option Loader)
  | registerBatch (loaders : List (Option Loader))
  | close
  | lookup (id : String)

namespace Call

/-- The steps of a call. -/
def perform : Call → InPlace Unit
  | register loader => InPlace.register loader
  | registerBatch loaders => InPlace.registerBatch loaders
  | close => InPlace.close
  | lookup id => discard (InPlace.lookup id)

/-- The repository that the operation of a call gives, unless it fails. -/
def outcome (r : Repository) : Call → Except Failure Repository
  | register loader => (r.register loader).outcome
  | registerBatch loaders => (r.registerBatch loaders).outcome
  | close => .ok r.close
  | lookup _ => .ok r

/-- **The steps of a call** end as its operation does: a failure leaves nothing half done. -/
theorem on_perform (call : Call) (r : Repository) :
    call.perform.on r = InPlace.ending r (call.outcome r) := by
  cases call with
  | register loader => exact InPlace.on_register loader r
  | registerBatch loaders => exact InPlace.on_registerBatch loaders r
  | close => rfl
  | lookup id => rfl

end Call

/-- The repository after calls, whether they fail or not. -/
def after (r : Repository) (calls : List Call) : Repository :=
  calls.foldl (fun r call => (call.perform.on r).2) r

/-! ### What one call does -/

variable {r next : Repository} {call : Call}

/-- What a call can make of a repository: the same, the closed one, or one with more loaders. -/
inductive Step (r : Repository) : Repository → Prop
  | same : Step r r
  | closed : Step r r.close
  | extended {loaders : List Loader} (h : r.Admits loaders) : Step r (r.putEach loaders)

theorem step_of_outcome (h : call.outcome r = .ok next) : Step r next := by
  cases call with
  | register loader =>
    obtain ⟨l, -, hadmits, rfl⟩ := register_eq_ok_iff.1 h
    exact .extended hadmits
  | registerBatch loaders =>
    obtain ⟨ls, -, hadmits, rfl⟩ := registerBatch_eq_ok_iff.1 h
    exact .extended hadmits
  | close =>
    cases h
    exact .closed
  | lookup id =>
    cases h
    exact .same

theorem snd_perform_of_error {failure : Failure} (h : (call.perform.on r).1 = .error failure) :
    (call.perform.on r).2 = r := by
  rw [call.on_perform] at h ⊢
  cases ho : call.outcome r with
  | error _ => rfl
  | ok next =>
    rw [ho] at h
    cases h

theorem step_perform (call : Call) (r : Repository) : Step r (call.perform.on r).2 := by
  rw [call.on_perform]
  cases ho : call.outcome r with
  | error _ => exact .same
  | ok next => exact step_of_outcome ho

/-! ### Loaders under their ids -/

/-- Whether all loaders are under their own ids, and none under the empty one. -/
def Filed (r : Repository) : Prop :=
  ∀ id loader, r.find? id = some loader → id ≠ "" ∧ loader.id = id

theorem Filed.step (hr : r.Filed) (h : Step r next) : next.Filed := by
  cases h with
  | same => exact hr
  | closed => exact hr
  | extended h =>
    intro id loader hfound
    rw [find?_putEach h.distinct, Option.or_eq_some_iff] at hfound
    rcases hfound with hfound | ⟨-, hfound⟩
    · have hid : loader.id = id := by simpa using List.find?_some hfound
      exact ⟨hid ▸ h.named loader (List.mem_of_find?_eq_some hfound), hid⟩
    · exact hr id loader hfound

theorem Filed.after (hr : r.Filed) (calls : List Call) : (r.after calls).Filed := by
  induction calls generalizing r with
  | nil => exact hr
  | cons call rest ih => exact ih (hr.step (step_perform call r))

/-! ### What stays -/

/-- Whether a repository has all loaders of another under the same ids, and is the other itself
if that is sealed. -/
structure Keeps (r next : Repository) : Prop where
  loaders : ∀ id loader, r.find? id = some loader → next.find? id = some loader
  sealed : r.isSealed = true → next = r

theorem Keeps.refl (r : Repository) : Keeps r r := ⟨fun _ _ h => h, fun _ => rfl⟩

theorem Keeps.trans {last : Repository} (h : Keeps r next) (h' : Keeps next last) :
    Keeps r last where
  loaders id loader hfound := h'.loaders id loader (h.loaders id loader hfound)
  sealed hs := by
    obtain rfl := h.sealed hs
    exact h'.sealed hs

theorem Step.keeps (h : Step r next) : Keeps r next := by
  cases h with
  | same => exact .refl r
  | closed =>
    refine ⟨fun _ _ hfound => hfound, fun hs => ?_⟩
    cases r
    exact congrArg _ hs.symm
  | @extended loaders h =>
    refine ⟨fun id loader hfound => ?_, fun hs => nomatch hs.symm.trans h.opened⟩
    -- an id that is found is not free, so no new loader has it
    have hid : id ∉ loaders.map (·.id) := by
      intro hmem
      obtain ⟨x, hx, rfl⟩ := List.mem_map.1 hmem
      rw [has_eq_false_iff.1 (h.free x hx)] at hfound
      cases hfound
    rw [find?_putEach h.distinct, find?_eq_none_of_notMem_keys hid]
    exact hfound

theorem keeps_after (r : Repository) (calls : List Call) : Keeps r (r.after calls) := by
  induction calls generalizing r with
  | nil => exact .refl r
  | cons call rest ih => exact (step_perform call r).keeps.trans (ih _)

/-- Closing a repository seals it, and no call behind that changes what is in it. -/
theorem after_close (r : Repository) (more : List Call) :
    (r.after (.close :: more)).isSealed = true ∧
      ∀ id, (r.after (.close :: more)).find? id = r.find? id := by
  have hclosed : r.after (.close :: more) = r.close := (keeps_after r.close more).sealed rfl
  rw [hclosed]
  exact ⟨rfl, fun id => rfl⟩

/-! ### Repositories that start empty -/

/-- **Whatever is asked of an empty repository**, with calls that succeed or fail: each loader is
under its own id, which is not empty; later calls neither remove nor replace a loader, and change
nothing once the repository is sealed; closing it seals it for good, with the loaders that it has;
a call ends as its operation does, and if it fails it leaves the repository as it was; and the ids
are listed in strictly ascending order, each exactly if there is a loader of it. -/
theorem after_calls (calls : List Call) :
    ((after ∅ calls).Filed ∧ ∀ more, Keeps (after ∅ calls) ((after ∅ calls).after more)) ∧
    (∀ more, ((after ∅ calls).after (.close :: more)).isSealed = true ∧
      ∀ id, ((after ∅ calls).after (.close :: more)).find? id = (after ∅ calls).find? id) ∧
    (∀ call : Call,
      call.perform.on (after ∅ calls) =
          InPlace.ending (after ∅ calls) (call.outcome (after ∅ calls)) ∧
        ∀ failure, (call.perform.on (after ∅ calls)).1 = .error failure →
          (call.perform.on (after ∅ calls)).2 = after ∅ calls) ∧
    (after ∅ calls).ids.Pairwise (· < ·) ∧ (after ∅ calls).ids.length = (after ∅ calls).size ∧
    ∀ id, (id ∈ (after ∅ calls).ids ↔ (after ∅ calls).has id = true) ∧
      ((after ∅ calls).has id = true ↔ (after ∅ calls).find? id ≠ none) := by
  have hempty : (∅ : Repository).Filed := fun id loader h => nomatch h
  refine ⟨⟨hempty.after calls, keeps_after _⟩, after_close _,
    fun call => ⟨call.on_perform _, fun _ => snd_perform_of_error⟩,
    KeyMap.pairwise_keys _, List.length_map _, fun id => ⟨KeyMap.mem_keys_iff, ?_⟩⟩
  exact Option.isSome_iff_ne_none

/-- A batch whose last loader has the id of its first one registers nothing. -/
example :
    (after ∅ [.registerBatch (["a", "b", "a"].map fun id =>
      some { id, declare := fun _ => Traced.fail absentLoader })]).ids = [] := by
  decide

end Repository

end PluginHost
