import PluginHost.Proofs.FileSystem.Alike
import PluginHost.Proofs.Library.Targets

/-!
# Scans of directories in another order

A pattern gives its libraries in ascending order of their paths, whatever order the directories
list them in (`FileSystem.Alike.collect_eq`), because all these paths differ.  Behind that a scan
only follows paths, so it does and reports the same (`FileSystem.Alike.scan_eq`).
-/

namespace PluginHost

namespace FileSystem.Alike

open Library

variable {fs fs' : FileSystem} {linker : Linker}

/-! ### What patterns give -/

theorem isCandidate_eq (h : fs.Alike fs') : isCandidate fs = isCandidate fs' := by
  funext e
  unfold isCandidate
  rw [h.statusOf_eq]

theorem listed?_perm (h : fs.Alike fs') {pattern : String} {entries : List Listed}
    (hl : listed? fs pattern = some entries) :
    (entries.map (·.path.parts)).Nodup ∧
      ∃ entries', listed? fs' pattern = some entries' ∧ entries.Perm entries' := by
  obtain ⟨hdir, hlist⟩ := listed?_eq_some_iff.1 hl
  simp only [listed?_eq_some_iff]
  by_cases hdeep : (target pattern).2 = true
  · rw [if_pos hdeep] at hlist
    simp only [if_pos hdeep]
    obtain ⟨entries', hlist', hperm⟩ := h.listBelow_perm hlist
    exact ⟨nodup_parts_listBelow hlist, entries', ⟨hdir, hlist'⟩, hperm⟩
  · rw [if_neg hdeep] at hlist
    simp only [if_neg hdeep]
    obtain ⟨entries', hlist', hperm⟩ := h.list_perm hlist
    exact ⟨nodup_parts_list hlist, entries', ⟨hdir, hlist'⟩, hperm⟩

theorem listed?_eq_none (h : fs.Alike fs') {pattern : String} (hl : listed? fs pattern = none) :
    listed? fs' pattern = none := by
  cases hl' : listed? fs' pattern with
  | none => rfl
  | some entries =>
    obtain ⟨-, _, hsome, -⟩ := h.symm.listed?_perm hl'
    exact nomatch hl.symm.trans hsome

theorem collect_eq (h : fs.Alike fs') (pattern : String) :
    collect fs pattern = collect fs' pattern := by
  unfold collect
  cases hl : listed? fs pattern with
  | none => rw [h.listed?_eq_none hl]
  | some entries =>
    obtain ⟨hnodup, entries', hl', hperm⟩ := h.listed?_perm hl
    rw [hl', ← h.isCandidate_eq]
    exact congrArg Traced.pure (sort_filter_eq_of_perm hnodup hperm _)

/-! ### What is opened -/

theorem openAt_eq (h : fs.Alike fs') (mapped : List Path) (path : Path) :
    openAt fs linker mapped path = openAt fs' linker mapped path := by
  unfold openAt sharedObject
  rw [h.status_eq]

/-! ### Scans -/

theorem visit_eq (h : fs.Alike fs') (s : Scan) (path : Path) :
    s.visit fs linker path = s.visit fs' linker path := by
  unfold Scan.visit
  rw [h.openAt_eq]

theorem visitEach_eq (h : fs.Alike fs') (s : Scan) (paths : List Path) :
    s.visitEach fs linker paths = s.visitEach fs' linker paths := by
  induction paths generalizing s with
  | nil => rfl
  | cons path rest ih =>
    unfold Scan.visitEach
    rw [h.visit_eq]
    exact congrArg _ (funext ih)

theorem visitPatterns_eq (h : fs.Alike fs') (s : Scan) (patterns : List String) :
    s.visitPatterns fs linker patterns = s.visitPatterns fs' linker patterns := by
  induction patterns generalizing s with
  | nil => rfl
  | cons pattern rest ih =>
    unfold Scan.visitPatterns
    rw [h.collect_eq]
    refine congrArg _ (funext fun paths => ?_)
    rw [h.visitEach_eq]
    exact congrArg _ (funext ih)

/-- **A scan does the same** whatever order the directories are listed in: the report and the
repository are the same, and what is logged. -/
theorem scan_eq (h : fs.Alike fs') (patterns : List String) (r : Repository) :
    scan fs linker patterns r = scan fs' linker patterns r := by
  unfold scan
  rw [h.visitPatterns_eq]

end FileSystem.Alike

end PluginHost
