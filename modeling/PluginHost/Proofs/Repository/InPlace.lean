import PluginHost.Proofs.Repository.Registration

/-!
# Registration in place

The operations of a `Repository` give a new repository, or fail and give none.  A host has one
repository, which they change in place: step by step, so that a failure could leave half of the
work done.  `Repository.InPlace` spells out these steps, and `InPlace.on_registerBatch` shows
that no half is ever left: however a registration ends, the repository is the one that the
operation gives or, if it fails, the one from before.
-/

namespace PluginHost

namespace Repository

/-! ### Steps -/

/-- Steps on a repository in place.  What was changed before a failure stays changed. -/
abbrev InPlace (α : Type) := ExceptT Failure (StateM Repository) α

namespace InPlace

variable {α β : Type}

/-- How steps on a repository end, and the repository as it is then. -/
def on (x : InPlace α) (r : Repository) : Except Failure α × Repository :=
  StateT.run (ExceptT.run x) r

/-- Looks for the loader of an id. -/
def lookup (id : String) : InPlace (Option Loader) := return (← get).find? id

/-- Demands a loader that has an id. -/
def demandProper : Option Loader → InPlace Loader
  | none => throw absentLoader
  | some loader => if loader.id = "" then throw unnamedLoader else return loader

/-- Demands loaders that have ids, one after the other. -/
def demandEachProper : List (Option Loader) → InPlace (List Loader)
  | [] => return []
  | loader :: rest => do
    let first ← demandProper loader
    let others ← demandEachProper rest
    return first :: others

/-- Demands a repository that is not sealed. -/
def demandOpen (refusal : Failure) : InPlace Unit := do
  if (← get).isSealed then throw refusal

/-- Demands ids that are neither taken nor among earlier ones, one after the other. -/
def demandEachFree (earlier : List String) : List String → InPlace Unit
  | [] => return
  | id :: rest => do
    if (← get).has id ∨ id ∈ earlier then throw (takenId id)
    demandEachFree (id :: earlier) rest

/-- Puts a loader under its id if the id is free. -/
def emplace (loader : Loader) : InPlace Unit :=
  modify fun r => { r with loaders := r.loaders.insertNew loader.id loader }

/-- Puts loaders under their ids, one after the other. -/
def emplaceEach : List Loader → InPlace Unit
  | [] => return
  | loader :: rest => do
    emplace loader
    emplaceEach rest

/-- Registers one loader. -/
def register (loader : Option Loader) : InPlace Unit := do
  let loader ← demandProper loader
  demandOpen (.runtime
    s!"Cannot register loader '{loader.id}': the loader repository is sealed")
  if (← get).has loader.id then throw (takenId loader.id)
  emplace loader

/-- Registers loaders as a whole. -/
def registerBatch (loaders : List (Option Loader)) : InPlace Unit := do
  let loaders ← demandEachProper loaders
  demandOpen (.runtime "Cannot register loaders: the loader repository is sealed")
  demandEachFree [] (loaders.map (·.id))
  emplaceEach loaders

/-- Closes the repository for registration. -/
def close : InPlace Unit := modify (·.close)

/-! ### What the steps do -/

theorem on_pure (a : α) (r : Repository) : (pure a : InPlace α).on r = (.ok a, r) := rfl

theorem on_throw (failure : Failure) (r : Repository) :
    (throw failure : InPlace α).on r = (.error failure, r) := rfl

theorem on_get (r : Repository) : (get : InPlace Repository).on r = (.ok r, r) := rfl

theorem on_bind (x : InPlace α) (next : α → InPlace β) (r : Repository) :
    (x >>= next).on r =
      match x.on r with
      | (.ok a, r') => (next a).on r'
      | (.error failure, r') => (.error failure, r') := by
  show (ExceptT.bindCont next (x.on r).1 : StateM Repository (Except Failure β)).run (x.on r).2 = _
  rcases x.on r with ⟨_ | a, r'⟩ <;> rfl

theorem on_demandProper (loader : Option Loader) (r : Repository) :
    (demandProper loader).on r = (proper loader, r) := by
  cases loader with
  | none => rfl
  | some loader =>
    by_cases h : loader.id = ""
    · simp only [demandProper, proper, h, ↓reduceIte, on_throw]
    · simp only [demandProper, proper, h, ↓reduceIte, on_pure]

theorem on_demandEachProper (loaders : List (Option Loader)) (r : Repository) :
    (demandEachProper loaders).on r = (loaders.mapM proper, r) := by
  induction loaders with
  | nil => rfl
  | cons loader rest ih =>
    simp only [demandEachProper, on_bind, on_demandProper, List.mapM_cons]
    cases proper loader with
    | error failure => rfl
    | ok first =>
      simp only [ih]
      cases rest.mapM proper <;> rfl

theorem on_demandOpen (refusal : Failure) (r : Repository) :
    (demandOpen refusal).on r = (if r.isSealed then .error refusal else .ok (), r) := by
  simp only [demandOpen, on_bind, on_get]
  cases r.isSealed <;> rfl

theorem on_demandEachFree (ids earlier : List String) (r : Repository) :
    (demandEachFree earlier ids).on r =
      ((r.firstTaken? earlier ids).elim (.ok ()) fun id => .error (takenId id), r) := by
  induction ids generalizing earlier with
  | nil => rfl
  | cons id rest ih =>
    simp only [demandEachFree, on_bind, on_get]
    by_cases h : r.has id = true ∨ id ∈ earlier
    · simp only [firstTaken?, h, ↓reduceIte]
      rfl
    · simp only [firstTaken?, h, ↓reduceIte, ih]

theorem on_emplace {r : Repository} {loader : Loader} (h : r.has loader.id = false) :
    (emplace loader).on r = (.ok (), r.put loader) := by
  show ((.ok (), { r with loaders := r.loaders.insertNew loader.id loader }) :
    Except Failure Unit × Repository) = _
  rw [KeyMap.insertNew_of_not_contains h]
  rfl

theorem on_emplaceEach {r : Repository} {loaders : List Loader}
    (hfree : ∀ loader ∈ loaders, r.has loader.id = false)
    (hd : (loaders.map (·.id)).Nodup) :
    (emplaceEach loaders).on r = (.ok (), r.putEach loaders) := by
  induction loaders generalizing r with
  | nil => rfl
  | cons loader rest ih =>
    obtain ⟨hne, hrest⟩ := List.nodup_cons.1 (List.map_cons ▸ hd)
    obtain ⟨hloader, hothers⟩ := List.forall_mem_cons.1 hfree
    simp only [emplaceEach, on_bind, on_emplace hloader]
    -- the ids of the others are still free
    refine ih (fun x hx => ?_) hrest
    have hx' : x.id ≠ loader.id := fun he => hne (List.mem_map.2 ⟨x, hx, he⟩)
    rw [has_eq_false_iff, find?_put, if_neg hx']
    exact has_eq_false_iff.1 (hothers x hx)

/-! ### Registration as a whole -/

/-- How an operation ends in place that gives a repository or fails. -/
def ending (r : Repository) : Except Failure Repository → Except Failure Unit × Repository
  | .ok next => (.ok (), next)
  | .error failure => (.error failure, r)

/-- **Registering a batch in place** ends as registering it does: with all of it registered, or
with the repository as it was. -/
theorem on_registerBatch (given : List (Option Loader)) (r : Repository) :
    (registerBatch given).on r = ending r (r.registerBatch given).outcome := by
  rw [outcome_registerBatch]
  simp only [registerBatch, on_bind, on_demandEachProper]
  cases hp : given.mapM proper with
  | error failure => rfl
  | ok loaders =>
    simp only [on_demandOpen]
    cases hs : r.isSealed with
    | true => rfl
    | false =>
      simp only [Bool.false_eq_true, ↓reduceIte, on_demandEachFree]
      cases hf : r.firstTaken? [] (loaders.map (·.id)) with
      | some id => rfl
      | none =>
        have hadmits := admits_iff.2 ⟨(mapM_proper_eq_ok_iff.1 hp).2, hs, hf⟩
        exact on_emplaceEach hadmits.free hadmits.distinct

/-- **Registering a loader in place** ends as registering it does. -/
theorem on_register (loader : Option Loader) (r : Repository) :
    (register loader).on r = ending r (r.register loader).outcome := by
  rw [outcome_register]
  simp only [register, on_bind, on_demandProper]
  cases proper loader with
  | error failure => rfl
  | ok l =>
    simp only [on_demandOpen]
    cases hs : r.isSealed with
    | true => rfl
    | false =>
      simp only [Bool.false_eq_true, ↓reduceIte, on_get]
      cases hf : r.has l.id with
      | true => rfl
      | false => exact on_emplace hf

end InPlace

end Repository

end PluginHost
