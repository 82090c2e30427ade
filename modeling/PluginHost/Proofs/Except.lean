import Mathlib.Data.List.Forall2

/-!
# Steps that may fail

When steps that may fail succeed together: one behind the other (`bind_eq_ok_iff`), or one for
each element of a list (`mapM_eq_ok_iff`, `filterM_eq_ok_iff`), also where a failure gives no
reason (`mapM_eq_some_iff`).
-/

namespace PluginHost

variable {α β ε : Type} {test : α → Except ε Bool} {l kept : List α}

theorem bind_eq_ok_iff {x : Except ε α} {next : α → Except ε β} {b : β} :
    (x >>= next) = .ok b ↔ ∃ a, x = .ok a ∧ next a = .ok b := by
  cases x <;> simp [bind, Except.bind]

theorem mapM_eq_ok_iff {f : α → Except ε β} {l' : List β} :
    l.mapM f = .ok l' ↔ List.Forall₂ (fun a b => f a = .ok b) l l' := by
  induction l generalizing l' with
  | nil => cases l' <;> simp [pure, Except.pure]
  | cons a rest ih =>
    rw [List.mapM_cons, bind_eq_ok_iff, List.forall₂_cons_left_iff]
    refine exists_congr fun b => ?_
    rw [bind_eq_ok_iff]
    simp only [ih]
    constructor
    · rintro ⟨hb, others, hothers, hl⟩
      exact ⟨others, hb, hothers, (Except.ok.inj hl).symm⟩
    · rintro ⟨others, hb, hothers, rfl⟩
      exact ⟨hb, others, hothers, rfl⟩

/-- A sequence fails exactly if its first part does, or its second part behind the first. -/
theorem bind_eq_error_iff {x : Except ε α} {next : α → Except ε β} {e : ε} :
    (x >>= next) = .error e ↔ x = .error e ∨ ∃ a, x = .ok a ∧ next a = .error e := by
  cases x <;> simp [bind, Except.bind]

theorem exists_mem_of_mapM_eq_error {f : α → Except ε β} {e : ε} (h : l.mapM f = .error e) :
    ∃ a ∈ l, f a = .error e := by
  induction l with
  | nil => cases h
  | cons a rest ih =>
    rw [List.mapM_cons, bind_eq_error_iff] at h
    rcases h with ha | ⟨b, -, h⟩
    · exact ⟨a, List.mem_cons_self, ha⟩
    · rcases bind_eq_error_iff.1 h with hrest | ⟨_, -, h⟩
      · obtain ⟨a', hmem, ha'⟩ := ih hrest
        exact ⟨a', List.mem_cons_of_mem a hmem, ha'⟩
      · cases h

theorem mapM_eq_some_iff {f : α → Option β} {l' : List β} :
    l.mapM f = some l' ↔ List.Forall₂ (fun a b => f a = some b) l l' := by
  induction l generalizing l' with
  | nil => cases l' <;> simp
  | cons a rest ih =>
    simp only [List.mapM_cons, Option.bind_eq_bind, Option.bind_eq_some_iff, ih, Option.pure_def,
      Option.some.injEq, List.forall₂_cons_left_iff]
    refine exists_congr fun b => ?_
    constructor
    · rintro ⟨hb, others, hothers, hl⟩
      exact ⟨others, hb, hothers, hl.symm⟩
    · rintro ⟨others, hb, hothers, rfl⟩
      exact ⟨hb, others, hothers, rfl⟩

theorem filterAuxM_eq_ok_iff {taken : List α} :
    l.filterAuxM test taken = .ok kept ↔ (∀ a ∈ l, ∃ b, test a = .ok b) ∧
      kept = (l.filter fun a => (test a).toOption = some true).reverse ++ taken := by
  induction l generalizing taken with
  | nil => simp [List.filterAuxM, pure, Except.pure, eq_comm]
  | cons a rest ih =>
    rw [List.filterAuxM, bind_eq_ok_iff]
    cases ha : test a with
    | error e => simp [ha]
    | ok b =>
      simp only [Except.ok.injEq, exists_eq_left', ih, List.forall_mem_cons, ha, exists_eq',
        true_and]
      cases b <;> simp [ha, Except.toOption]

/-- Filtering succeeds if all tests do, and keeps what passes. -/
theorem filterM_eq_ok_iff :
    l.filterM test = .ok kept ↔ (∀ a ∈ l, ∃ b, test a = .ok b) ∧
      kept = l.filter fun a => (test a).toOption = some true := by
  unfold List.filterM
  rw [bind_eq_ok_iff]
  constructor
  · rintro ⟨taken, htaken, hkept⟩
    obtain ⟨htests, rfl⟩ := filterAuxM_eq_ok_iff.1 htaken
    refine ⟨htests, ?_⟩
    simpa [pure, Except.pure, eq_comm] using hkept
  · rintro ⟨htests, rfl⟩
    exact ⟨_, filterAuxM_eq_ok_iff.2 ⟨htests, rfl⟩, by simp [pure, Except.pure]⟩

end PluginHost
