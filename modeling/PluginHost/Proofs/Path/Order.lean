import Mathlib.Data.List.Basic
import Mathlib.Data.String.Basic
import PluginHost.Proofs.Path

/-!
# Paths in order

Paths are the same if they have the same parts, however they are written, and of two others one
comes before the other (`Path.trichotomy`).  Paths that all differ can therefore be put in order
in one way only, in whatever order they are given (`Path.sort_eq_of_perm`).
-/

namespace PluginHost

namespace Path

variable {p q r : Path}

theorem same_iff : p.same q = true ↔ p.parts = q.parts := by
  simp [same]

theorem parts_eq_of_key_eq (hr : p.parts.rooted = q.parts.rooted)
    (hk : p.parts.key = q.parts.key) : p.parts = q.parts := by
  have hp : "" ∉ p.parts.names := fun hm => (isName_of_mem_parts hm).1 rfl
  have hq : "" ∉ q.parts.names := fun hm => (isName_of_mem_parts hm).1 rfl
  obtain ⟨hnames, htrailing⟩ :
      p.parts.names = q.parts.names ∧ p.parts.trailing = q.parts.trailing := by
    unfold Parts.key at hk
    -- the empty name at the end is the only one that is no name of the path
    cases ht : p.parts.trailing <;> cases ht' : q.parts.trailing <;> rw [ht, ht'] at hk
    · simpa using hk
    · have hmem : "" ∈ p.parts.names := by
        have hk' : p.parts.names = q.parts.names ++ [""] := by simpa using hk
        simp [hk']
      exact absurd hmem hp
    · have hmem : "" ∈ q.parts.names := by
        have hk' : p.parts.names ++ [""] = q.parts.names := by simpa using hk
        simp [← hk']
      exact absurd hmem hq
    · simpa using hk
  cases hpp : p.parts
  cases hqp : q.parts
  simp only [hpp, hqp] at hr hnames htrailing
  rw [hr, hnames, htrailing]

theorem trichotomy (p q : Path) :
    p.parts = q.parts ∨ p.before q = true ∨ q.before p = true := by
  unfold before
  by_cases hr : p.parts.rooted = q.parts.rooted
  · rw [if_pos hr, if_pos hr.symm, decide_eq_true_iff, decide_eq_true_iff]
    rcases lt_trichotomy p.parts.key q.parts.key with hlt | heq | hgt
    · exact Or.inr (Or.inl hlt)
    · exact Or.inl (parts_eq_of_key_eq hr heq)
    · exact Or.inr (Or.inr hgt)
  · rw [if_neg hr, if_neg (Ne.symm hr)]
    -- one of the two is absolute
    cases hq : q.parts.rooted with
    | true => exact Or.inr (Or.inl rfl)
    | false =>
      cases hp : p.parts.rooted with
      | true => exact Or.inr (Or.inr rfl)
      | false => exact absurd (hp.trans hq.symm) hr

theorem before_trans (hpq : p.before q = true) (hqr : q.before r = true) : p.before r = true := by
  unfold before at *
  by_cases h : p.parts.rooted = q.parts.rooted
  · rw [if_pos h] at hpq
    by_cases h' : q.parts.rooted = r.parts.rooted
    · rw [if_pos h'] at hqr
      rw [if_pos (h.trans h')]
      exact decide_eq_true (lt_trans (of_decide_eq_true hpq) (of_decide_eq_true hqr))
    · rw [if_neg h'] at hqr
      rw [if_neg (h ▸ h')]
      exact hqr
  · rw [if_neg h] at hpq
    by_cases h' : q.parts.rooted = r.parts.rooted
    · rw [if_neg (h' ▸ h)]
      exact h' ▸ hpq
    · -- an absolute path comes before no relative one
      rw [if_neg h'] at hqr
      exact absurd (hpq.trans hqr.symm) h'

theorem not_before_of_parts_eq (h : p.parts = q.parts) : p.before q = false := by
  unfold before
  rw [h, if_pos rfl]
  exact decide_eq_false (lt_irrefl _)

theorem before_asymm (h : p.before q = true) : q.before p = false := by
  cases hqp : q.before p with
  | false => rfl
  | true => exact (before_trans h hqp).symm.trans (not_before_of_parts_eq rfl)

/-! ### Sorting -/

variable {l l' : List Path}

theorem sort_perm (l : List Path) : (sort l).Perm l := List.mergeSort_perm l _

theorem pairwise_sort (l : List Path) : (sort l).Pairwise fun p q => q.before p = false := by
  have h := @List.pairwise_mergeSort Path (fun p q => !q.before p) ?_ ?_ l
  · refine h.imp ?_
    intro p q hpq
    simpa using hpq
  · intro p q r hpq hqr
    rcases trichotomy p q with heq | hlt | hgt
    · -- the same path comes before the same paths
      have hsame : r.before p = r.before q := by
        unfold before
        rw [heq]
      simpa [hsame] using hqr
    · cases hrp : r.before p with
      | false => rfl
      | true =>
        have hrq := before_trans hrp hlt
        simp [hrq] at hqr
    · simp [hgt] at hpq
  · intro p q
    cases hqp : q.before p with
    | false => rfl
    | true => simp [before_asymm hqp]

/-- Paths that all differ are sorted in strictly ascending order. -/
theorem pairwise_before_sort (h : (l.map parts).Nodup) :
    (sort l).Pairwise fun p q => p.before q = true := by
  have hd : (sort l).Pairwise fun p q => p.parts ≠ q.parts :=
    List.pairwise_map.1 (((sort_perm l).map parts).nodup_iff.2 h)
  refine ((pairwise_sort l).and hd).imp ?_
  rintro p q ⟨hnot, hne⟩
  rcases trichotomy p q with heq | hlt | hgt
  · exact absurd heq hne
  · exact hlt
  · exact nomatch hgt.symm.trans hnot

/-- **Paths that all differ are put in order in one way**, whatever order they are given in. -/
theorem sort_eq_of_perm (h : (l.map parts).Nodup) (hl : l.Perm l') : sort l = sort l' := by
  have hperm : (sort l).Perm (sort l') := (sort_perm l).trans (hl.trans (sort_perm l').symm)
  have hd' : (l'.map parts).Nodup := (hl.map parts).nodup_iff.1 h
  refine hperm.eq_of_pairwise ?_ (pairwise_before_sort h) (pairwise_before_sort hd')
  intro p q _ _ hpq hqp
  exact nomatch hqp.symm.trans (before_asymm hpq)

end Path

end PluginHost
