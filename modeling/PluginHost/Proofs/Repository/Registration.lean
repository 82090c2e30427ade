import PluginHost.Repository
import PluginHost.Proofs.Except
import PluginHost.Proofs.KeyMap

/-!
# When registration succeeds, and what it does

Loaders can be registered together if the repository is open, each of them has an id, and the ids
are free and differ from each other (`Repository.Admits`).  Registering a batch succeeds exactly
then, and puts every loader under its id (`Repository.registerBatch_eq_ok_iff`); registering one
loader is registering the batch of it (`Repository.register_eq_ok_iff`).
-/

namespace PluginHost

namespace Repository

variable {r : Repository} {loaders : List Loader} {given : List (Option Loader)} {id : String}

/-! ### Loaders put under their ids -/

/-- The repository with loaders put under their ids, one after the other. -/
def putEach (r : Repository) (loaders : List Loader) : Repository := loaders.foldl put r

theorem has_eq_false_iff : r.has id = false ↔ r.find? id = none := by
  show (r.find? id).isSome = false ↔ _
  simp

theorem find?_put (r : Repository) (loader : Loader) (id : String) :
    (r.put loader).find? id = if id = loader.id then some loader else r.find? id :=
  KeyMap.find?_insert ..

theorem find?_putEach (hd : (loaders.map (·.id)).Nodup) (r : Repository) (id : String) :
    (r.putEach loaders).find? id = (loaders.find? (·.id = id)).or (r.find? id) := by
  induction loaders generalizing r with
  | nil => rfl
  | cons loader rest ih =>
    obtain ⟨hne, hrest⟩ := List.nodup_cons.1 (List.map_cons ▸ hd)
    show ((r.put loader).putEach rest).find? id = _
    rw [ih hrest, find?_put, List.find?_cons]
    by_cases hid : id = loader.id
    · subst hid
      -- no later loader has the id
      have hnone : rest.find? (·.id = loader.id) = none := find?_eq_none_of_notMem_keys hne
      simp [hnone]
    · simp [hid, Ne.symm hid]

theorem putEach_append (r : Repository) (first rest : List Loader) :
    r.putEach (first ++ rest) = (r.putEach first).putEach rest := List.foldl_append

@[simp]
theorem isSealed_putEach (r : Repository) (loaders : List Loader) :
    (r.putEach loaders).isSealed = r.isSealed := by
  induction loaders generalizing r with
  | nil => rfl
  | cons loader rest ih => exact ih (r.put loader)

theorem has_putEach_iff :
    (r.putEach loaders).has id = true ↔ r.has id = true ∨ id ∈ loaders.map (·.id) := by
  induction loaders generalizing r with
  | nil => simp [putEach]
  | cons loader rest ih =>
    have hput : (r.put loader).has id = true ↔ r.has id = true ∨ id = loader.id := by
      show ((r.put loader).find? id).isSome = true ↔ (r.find? id).isSome = true ∨ _
      rw [find?_put]
      by_cases hid : id = loader.id <;> simp [hid]
    show ((r.put loader).putEach rest).has id = true ↔ _
    rw [ih, hput, List.map_cons, List.mem_cons, or_assoc]

/-! ### Loaders that can be registered together -/

/-- Whether loaders can be registered together. -/
structure Admits (r : Repository) (loaders : List Loader) : Prop where
  opened : r.isSealed = false
  named : ∀ loader ∈ loaders, loader.id ≠ ""
  free : ∀ loader ∈ loaders, r.has loader.id = false
  distinct : (loaders.map (·.id)).Nodup

theorem admits_nil (hr : r.isSealed = false) : r.Admits [] := ⟨hr, by simp, by simp, by simp⟩

theorem proper_eq_ok_iff {loader : Option Loader} {l : Loader} :
    proper loader = .ok l ↔ loader = some l ∧ l.id ≠ "" := by
  cases loader with
  | none => simp [proper]
  | some loader =>
    by_cases h : loader.id = ""
    · simp only [proper, h, ↓reduceIte, reduceCtorEq, Option.some.injEq, false_iff]
      rintro ⟨rfl, hl⟩
      exact hl h
    · simp only [proper, h, ↓reduceIte, Except.ok.injEq, Option.some.injEq]
      exact ⟨fun he => ⟨he, he ▸ h⟩, And.left⟩

/-- Loaders are all proper exactly if all are given and have ids. -/
theorem mapM_proper_eq_ok_iff :
    given.mapM proper = .ok loaders ↔ given = loaders.map some ∧ ∀ l ∈ loaders, l.id ≠ "" := by
  simp only [mapM_eq_ok_iff, proper_eq_ok_iff]
  constructor
  · intro h
    induction h with
    | nil => exact ⟨rfl, fun _ hl => nomatch hl⟩
    | cons hproper _ ih =>
      obtain ⟨rfl, hid⟩ := hproper
      exact ⟨congrArg _ ih.1, List.forall_mem_cons.2 ⟨hid, ih.2⟩⟩
  · rintro ⟨rfl, hids⟩
    exact List.forall₂_map_left_iff.2 (List.forall₂_same.2 fun l hl => ⟨rfl, hids l hl⟩)

/-- No id is taken exactly if all are free, none is among the earlier ones, and none is repeated. -/
theorem firstTaken?_eq_none_iff {ids earlier : List String} :
    r.firstTaken? earlier ids = none ↔
      (∀ id ∈ ids, r.has id = false ∧ id ∉ earlier) ∧ ids.Nodup := by
  induction ids generalizing earlier with
  | nil => simp [firstTaken?]
  | cons id rest ih =>
    unfold firstTaken?
    by_cases h : r.has id = true ∨ id ∈ earlier
    · rw [if_pos h]
      simp only [reduceCtorEq, List.mem_cons, forall_eq_or_imp, false_iff, not_and]
      rintro ⟨⟨hfree, hearlier⟩, -⟩
      rcases h with h | h
      · exact nomatch h.symm.trans hfree
      · exact absurd h hearlier
    · rw [if_neg h, ih, List.nodup_cons]
      obtain ⟨hfree, hearlier⟩ := not_or.1 h
      simp only [List.mem_cons, not_or, forall_eq_or_imp]
      constructor
      · rintro ⟨hrest, hnodup⟩
        refine ⟨⟨⟨by simpa using hfree, hearlier⟩, fun x hx => ⟨(hrest x hx).1, (hrest x hx).2.2⟩⟩,
          fun hid => (hrest id hid).2.1 rfl, hnodup⟩
      · rintro ⟨⟨-, hrest⟩, hid, hnodup⟩
        exact ⟨fun x hx => ⟨(hrest x hx).1, fun he => hid (he ▸ hx), (hrest x hx).2⟩, hnodup⟩

theorem admits_iff :
    r.Admits loaders ↔ (∀ l ∈ loaders, l.id ≠ "") ∧ r.isSealed = false ∧
      r.firstTaken? [] (loaders.map (·.id)) = none := by
  rw [firstTaken?_eq_none_iff]
  constructor
  · intro h
    refine ⟨h.named, h.opened, fun id hid => ?_, h.distinct⟩
    obtain ⟨l, hl, rfl⟩ := List.mem_map.1 hid
    exact ⟨h.free l hl, List.not_mem_nil⟩
  · rintro ⟨hnamed, hopened, hfree, hdistinct⟩
    exact ⟨hopened, hnamed, fun l hl => (hfree l.id (List.mem_map_of_mem hl)).1, hdistinct⟩

theorem admits_singleton_iff {l : Loader} :
    r.Admits [l] ↔ l.id ≠ "" ∧ r.isSealed = false ∧ r.has l.id = false := by
  constructor
  · intro h
    exact ⟨h.named l (by simp), h.opened, h.free l (by simp)⟩
  · rintro ⟨hnamed, hopened, hfree⟩
    exact ⟨hopened, by simpa using hnamed, by simpa using hfree, by simp⟩

/-- Loaders can be registered together exactly if the first of them can be, and then the rest. -/
theorem admits_append_iff {first rest : List Loader} :
    r.Admits (first ++ rest) ↔ r.Admits first ∧ (r.putEach first).Admits rest := by
  have hnot : ∀ id, (r.putEach first).has id = false ↔
      r.has id = false ∧ id ∉ first.map (·.id) := by
    intro id
    rw [← Bool.not_eq_true, has_putEach_iff, not_or, Bool.not_eq_true]
  constructor
  · intro h
    obtain ⟨hfirst, hrest, happart⟩ := List.nodup_append.1 (List.map_append ▸ h.distinct)
    have hnamed := List.forall_mem_append.1 h.named
    have hfree := List.forall_mem_append.1 h.free
    refine ⟨⟨h.opened, hnamed.1, hfree.1, hfirst⟩,
      ⟨(isSealed_putEach r first).trans h.opened, hnamed.2, ?_, hrest⟩⟩
    intro l hl
    refine (hnot l.id).2 ⟨hfree.2 l hl, fun hmem => ?_⟩
    exact happart l.id hmem l.id (List.mem_map_of_mem hl) rfl
  · rintro ⟨h, h'⟩
    refine ⟨h.opened, List.forall_mem_append.2 ⟨h.named, h'.named⟩,
      List.forall_mem_append.2 ⟨h.free, fun l hl => ((hnot l.id).1 (h'.free l hl)).1⟩, ?_⟩
    rw [List.map_append, List.nodup_append]
    refine ⟨h.distinct, h'.distinct, ?_⟩
    rintro id hid _ hmem rfl
    obtain ⟨l, hl, rfl⟩ := List.mem_map.1 hmem
    exact ((hnot l.id).1 (h'.free l hl)).2 hid

/-- What is found once loaders that can be registered together are put under their ids. -/
theorem Admits.find?_putEach_eq_some_iff (h : r.Admits loaders) {loader : Loader} :
    (r.putEach loaders).find? id = some loader ↔
      r.find? id = some loader ∨ loader ∈ loaders ∧ loader.id = id := by
  rw [find?_putEach h.distinct]
  cases hf : loaders.find? (·.id = id) with
  | some l =>
    obtain rfl : l.id = id := by simpa using List.find?_some hf
    have hl : l ∈ loaders := List.mem_of_find?_eq_some hf
    simp only [Option.some_or, Option.some.injEq, has_eq_false_iff.1 (h.free l hl), reduceCtorEq,
      false_or]
    constructor
    · rintro rfl
      exact ⟨hl, rfl⟩
    · rintro ⟨hmem, hid⟩
      have hfound := find?_key_of_mem h.distinct hmem
      rw [hid] at hfound
      exact Option.some.inj (hf.symm.trans hfound)
  | none =>
    rw [Option.none_or]
    refine ⟨Or.inl, ?_⟩
    rintro (hfound | ⟨hmem, hid⟩)
    · exact hfound
    · exact absurd (decide_eq_true hid) (List.find?_eq_none.1 hf loader hmem)

/-! ### Registration -/

theorem outcome_putEachLogged (r : Repository) (loaders : List Loader) :
    (r.putEachLogged loaders).outcome = .ok (r.putEach loaders) := by
  induction loaders generalizing r with
  | nil => rfl
  | cons loader rest ih =>
    unfold putEachLogged
    have hput : (r.putLogged loader).outcome = .ok (r.put loader) := rfl
    rw [Traced.outcome_bind_of_ok _ hput]
    exact ih (r.put loader)

/-- How the registration of a batch ends: the first fault that is found decides. -/
theorem outcome_registerBatch (r : Repository) (given : List (Option Loader)) :
    (r.registerBatch given).outcome =
      match given.mapM proper with
      | .error failure => .error failure
      | .ok loaders =>
        if r.isSealed then
          .error (.runtime "Cannot register loaders: the loader repository is sealed")
        else
          match r.firstTaken? [] (loaders.map (·.id)) with
          | some id => .error (takenId id)
          | none => .ok (r.putEach loaders) := by
  unfold registerBatch
  cases hp : given.mapM proper with
  | error failure => exact Traced.outcome_bind_of_error _ rfl
  | ok loaders =>
    rw [Traced.ofExcept_ok, pure_bind]
    dsimp only
    cases r.isSealed with
    | true => rfl
    | false =>
      cases r.firstTaken? [] (loaders.map (·.id)) with
      | some id => rfl
      | none => exact outcome_putEachLogged r loaders

theorem outcome_register (r : Repository) (loader : Option Loader) :
    (r.register loader).outcome =
      match proper loader with
      | .error failure => .error failure
      | .ok l =>
        if r.isSealed then
          .error (.runtime
            s!"Cannot register loader '{l.id}': the loader repository is sealed")
        else if r.has l.id then .error (takenId l.id)
        else .ok (r.putEach [l]) := by
  unfold register
  cases hp : proper loader with
  | error failure => exact Traced.outcome_bind_of_error _ rfl
  | ok l =>
    rw [Traced.ofExcept_ok, pure_bind]
    dsimp only
    cases r.isSealed with
    | true => rfl
    | false => cases r.has l.id <;> rfl

/-- **A batch is registered** exactly if its loaders can be registered together, and then all of
them are put under their ids. -/
theorem registerBatch_eq_ok_iff {next : Repository} :
    (r.registerBatch given).outcome = .ok next ↔
      ∃ loaders, given = loaders.map some ∧ r.Admits loaders ∧ next = r.putEach loaders := by
  rw [outcome_registerBatch]
  have hproper : ∀ loaders, given = loaders.map some ∧ r.Admits loaders ↔
      given.mapM proper = .ok loaders ∧ r.isSealed = false ∧
        r.firstTaken? [] (loaders.map (·.id)) = none := fun loaders => by
    rw [mapM_proper_eq_ok_iff, admits_iff, and_assoc]
  simp only [← and_assoc, hproper]
  cases given.mapM proper with
  | error failure => simp
  | ok loaders =>
    simp only [Except.ok.injEq, and_assoc, exists_eq_left']
    cases r.isSealed with
    | true => simp
    | false => cases r.firstTaken? [] (loaders.map (·.id)) <;> simp [eq_comm]

/-- **One loader is registered** exactly if the batch of it can be, and then is put under its
id. -/
theorem register_eq_ok_iff {loader : Option Loader} {next : Repository} :
    (r.register loader).outcome = .ok next ↔
      ∃ l, loader = some l ∧ r.Admits [l] ∧ next = r.putEach [l] := by
  rw [outcome_register]
  have hproper : ∀ l, loader = some l ∧ r.Admits [l] ↔
      proper loader = .ok l ∧ r.isSealed = false ∧ r.has l.id = false := fun l => by
    rw [proper_eq_ok_iff, admits_singleton_iff, and_assoc]
  simp only [← and_assoc, hproper]
  cases proper loader with
  | error failure => simp
  | ok l =>
    simp only [Except.ok.injEq, and_assoc, exists_eq_left']
    cases r.isSealed with
    | true => simp
    | false => cases r.has l.id <;> simp [eq_comm]

end Repository

end PluginHost
