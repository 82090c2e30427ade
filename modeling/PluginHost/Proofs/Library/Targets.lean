import PluginHost.Library.Scan
import PluginHost.Proofs.FileSystem.Listing
import PluginHost.Proofs.Path.Order

/-!
# What a scan attempts

A scan attempts the libraries that its patterns give, in their order, each once
(`Library.targets`); that depends on the files alone.  Of two lists of patterns, the second adds
the libraries that the first does not give (`Library.targets_append`).
-/

namespace PluginHost

namespace Library

/-- The libraries that a pattern gives, ascending. -/
def found (files : FileSystem) (pattern : String) : List Path :=
  match listed? files pattern with
  | none => []
  | some entries => Path.sort ((entries.filter (isCandidate files)).map (·.path))

/-- The paths of a list that are not the same as one before them. -/
def unseen : List Path → List Path → List Path
  | _, [] => []
  | seen, path :: rest =>
    if seen.any path.same then unseen seen rest else path :: unseen (path :: seen) rest

/-- The libraries that a scan attempts: those that the patterns give, each once. -/
def targets (files : FileSystem) (patterns : List String) : List Path :=
  unseen [] (patterns.flatMap (found files))

variable {files : FileSystem} {seen seen' paths : List Path} {path p q : Path}

/-! ### Listings -/

theorem listed?_eq_some_iff {pattern : String} {entries : List FileSystem.Listed} :
    listed? files pattern = some entries ↔ (target pattern).1 ≠ "" ∧
      (if (target pattern).2 then files.listBelow ⟨(target pattern).1⟩
        else files.list ⟨(target pattern).1⟩) = .ok entries := by
  unfold listed?
  dsimp only
  by_cases h : (target pattern).1 = ""
  · simp [h]
  · rw [if_neg h]
    cases (if (target pattern).2 then files.listBelow ⟨(target pattern).1⟩
      else files.list ⟨(target pattern).1⟩) <;> simp [h]

theorem outcome_collect (files : FileSystem) (pattern : String) :
    (collect files pattern).outcome = .ok (found files pattern) := by
  unfold collect found
  cases listed? files pattern with
  | none => rfl
  | some entries => rfl

theorem unseen_cons (seen : List Path) (path : Path) (rest : List Path) :
    unseen seen (path :: rest) =
      if seen.any path.same then unseen seen rest else path :: unseen (path :: seen) rest := rfl

theorem unseen_append (seen paths rest : List Path) :
    unseen seen (paths ++ rest) =
      unseen seen paths ++ unseen ((unseen seen paths).reverse ++ seen) rest := by
  induction paths generalizing seen with
  | nil => rfl
  | cons path others ih =>
    rw [List.cons_append, unseen_cons, unseen_cons]
    by_cases h : seen.any path.same = true
    · rw [if_pos h, if_pos h, ih]
    · rw [if_neg h, if_neg h, ih]
      simp

theorem exists_same_of_mem {path : Path} (h : path ∈ paths) (hs : seen.any path.same = false) :
    ∃ target ∈ unseen seen paths, path.same target = true := by
  induction paths generalizing seen with
  | nil => cases h
  | cons first rest ih =>
    rw [unseen_cons]
    by_cases hfirst : seen.any first.same = true
    · rw [if_pos hfirst]
      rcases List.mem_cons.1 h with rfl | h
      · exact nomatch hs.symm.trans hfirst
      · exact ih h hs
    · rw [if_neg hfirst]
      by_cases hsame : path.same first = true
      · exact ⟨first, List.mem_cons_self, hsame⟩
      · rcases List.mem_cons.1 h with rfl | h
        · exact absurd (Path.same_iff.2 rfl) hsame
        · have hs' : (first :: seen).any path.same = false := by
            rw [List.any_cons, hs, Bool.or_false]
            simpa using hsame
          obtain ⟨target, ht, hsame'⟩ := ih h hs'
          exact ⟨target, List.mem_cons_of_mem _ ht, hsame'⟩

theorem pairwise_unseen (seen paths : List Path) :
    (unseen seen paths).Pairwise (fun p q => p.parts ≠ q.parts) ∧
      ∀ path ∈ unseen seen paths, ∀ earlier ∈ seen, path.parts ≠ earlier.parts := by
  induction paths generalizing seen with
  | nil => exact ⟨.nil, fun _ h => nomatch h⟩
  | cons path rest ih =>
    rw [unseen_cons]
    by_cases h : seen.any path.same = true
    · rw [if_pos h]
      exact ih seen
    · rw [if_neg h]
      obtain ⟨hpair, hseen⟩ := ih (path :: seen)
      refine ⟨List.pairwise_cons.2 ⟨?_, hpair⟩, ?_⟩
      · intro q hq
        exact (hseen q hq path List.mem_cons_self).symm
      · intro q hq earlier he
        rcases List.mem_cons.1 hq with rfl | hq
        · intro heq
          exact h (List.any_eq_true.2 ⟨earlier, he, Path.same_iff.2 heq⟩)
        · exact hseen q hq earlier (List.mem_cons_of_mem _ he)

theorem exists_target_of_found {patterns : List String} {pattern : String} {path : Path}
    (hpattern : pattern ∈ patterns) (h : path ∈ found files pattern) :
    ∃ target ∈ targets files patterns, path.same target = true :=
  have hnone : ([] : List Path).any path.same = false := rfl
  exists_same_of_mem (List.mem_flatMap.2 ⟨pattern, hpattern, h⟩) hnone

theorem pairwise_targets (files : FileSystem) (patterns : List String) :
    (targets files patterns).Pairwise fun p q => p.parts ≠ q.parts :=
  (pairwise_unseen [] _).1

theorem unseen_congr (h : ∀ path : Path, seen.any path.same = seen'.any path.same)
    (paths : List Path) : unseen seen paths = unseen seen' paths := by
  induction paths generalizing seen seen' with
  | nil => rfl
  | cons path rest ih =>
    rw [unseen_cons, unseen_cons, h path, ih h]
    refine ite_congr rfl (fun _ => rfl) fun _ => congrArg _ (ih fun other => ?_)
    rw [List.any_cons, List.any_cons, h other]

theorem same_congr (h : p.same q = true) (path : Path) : path.same p = path.same q := by
  unfold Path.same
  rw [Path.same_iff.1 h]

/-- Paths that are seen beforehand are left out, and nothing else changes. -/
theorem unseen_append_seen (earlier seen paths : List Path) :
    unseen (earlier ++ seen) paths =
      (unseen seen paths).filter fun path => !earlier.any path.same := by
  induction paths generalizing seen with
  | nil => rfl
  | cons path rest ih =>
    rw [unseen_cons, unseen_cons, List.any_append]
    by_cases hseen : seen.any path.same = true
    · rw [if_pos hseen, if_pos (by simp [hseen]), ih]
    · rw [if_neg hseen]
      by_cases hearlier : earlier.any path.same = true
      · rw [if_pos (by simp [hearlier]), List.filter_cons_of_neg (by simp [hearlier]), ← ih]
        -- the path is the same as one that was seen earlier
        refine unseen_congr (fun other => ?_) rest
        obtain ⟨first, hfirst, hsame⟩ := List.any_eq_true.1 hearlier
        rw [List.any_append, List.any_append, List.any_cons, same_congr hsame other]
        cases ho : other.same first with
        | false => rw [Bool.false_or]
        | true =>
          have hany : earlier.any other.same = true := List.any_eq_true.2 ⟨first, hfirst, ho⟩
          simp [hany]
      · rw [if_neg (by simp [hseen, hearlier]),
          List.filter_cons_of_pos (by simpa using hearlier), ← ih]
        refine congrArg _ (unseen_congr (fun other => ?_) rest)
        simp only [List.any_cons, List.any_append]
        cases other.same path <;> simp

/-- Two lists of patterns give what the first gives, and what only the second gives. -/
theorem targets_append (files : FileSystem) (first second : List String) :
    targets files (first ++ second) = targets files first ++
      (targets files second).filter fun path => !(targets files first).any path.same := by
  have hreverse : ∀ path : Path, ((targets files first).reverse ++ []).any path.same =
      (targets files first ++ []).any path.same := fun path => by
    rw [List.append_nil, List.append_nil, List.any_reverse]
  unfold targets at hreverse ⊢
  rw [List.flatMap_append, unseen_append, unseen_congr hreverse, unseen_append_seen]

theorem mem_of_mem_unseen (h : path ∈ unseen seen paths) : path ∈ paths := by
  induction paths generalizing seen with
  | nil => exact h
  | cons first rest ih =>
    rw [unseen_cons] at h
    split at h
    · exact List.mem_cons_of_mem _ (ih h)
    · rcases List.mem_cons.1 h with rfl | h
      · exact List.mem_cons_self
      · exact List.mem_cons_of_mem _ (ih h)

/-- Libraries are attempted at paths that end in a name behind a slash. -/
theorem slash_mem_of_mem_targets {patterns : List String} (h : path ∈ targets files patterns) :
    '/' ∈ path.text.toList ∧ path.parts.trailing = false := by
  obtain ⟨pattern, -, hfound⟩ := List.mem_flatMap.1 (mem_of_mem_unseen h)
  unfold found at hfound
  cases hl : listed? files pattern with
  | none => simp [hl] at hfound
  | some entries =>
    rw [hl] at hfound
    obtain ⟨e, he, rfl⟩ := List.mem_map.1 ((Path.sort_perm _).mem_iff.1 hfound)
    have hmem := (List.mem_filter.1 he).1
    obtain ⟨hdir, hlist⟩ := listed?_eq_some_iff.1 hl
    obtain ⟨-, way, hne, hnames, hpath⟩ :
        (⟨(target pattern).1⟩ : Path).text ≠ "" ∧ ∃ way, way ≠ [] ∧
          (∀ n ∈ way, Path.IsName n) ∧ e.path = (⟨(target pattern).1⟩ : Path).descend way := by
      split at hlist
      · exact FileSystem.exists_way_of_mem_listBelow hlist hmem
      · exact FileSystem.exists_way_of_mem_list hlist hmem
    rw [hpath, Path.parts_descend hdir hne hnames]
    exact ⟨Path.slash_mem_descend hdir hne hnames, rfl⟩

end Library

end PluginHost
