import PluginHost.Proofs.Library.Contribution
import PluginHost.Proofs.Library.Targets

/-!
# What a scan reports

A scan attempts every library that its patterns give, once and in their order
(`Library.targets`), whatever becomes of the earlier ones.  What it reports and what it leaves in
the repository are those attempts added up (`Library.outcome_scan`), so the report agrees with
the repository whatever libraries there are (`Library.scan_balances`).
-/

namespace PluginHost

/-! ### Attempts -/

/-- The attempt to load a library. -/
structure Attempt where
  path : Path
  /-- The loaders that were added, or the fault for which none were. -/
  ending : Except LibraryFault (List Loader)

namespace Attempt

/-- The loaders that an attempt added. -/
def loaders (a : Attempt) : List Loader :=
  match a.ending with
  | .ok loaders => loaders
  | .error _ => []

/-- How an attempt is reported if it failed. -/
def failure? (a : Attempt) : Option (Path × LibraryFault) :=
  match a.ending with
  | .ok _ => none
  | .error fault => some (a.path, fault)

/-- The loaders that attempts added, one attempt after the other. -/
def added (attempts : List Attempt) : List Loader := attempts.flatMap loaders

/-- What a scan reports of its attempts. -/
def report (attempts : List Attempt) : ScanReport where
  attempted := attempts.length
  loaded := attempts.countP (·.failure?.isNone)
  ids := (added attempts).map (·.id)
  failures := attempts.filterMap failure?

theorem added_append (first rest : List Attempt) :
    added (first ++ rest) = added first ++ added rest := List.flatMap_append

theorem added_cons (a : Attempt) (rest : List Attempt) :
    added (a :: rest) = a.loaders ++ added rest := rfl

theorem failure?_eq_some_iff {a : Attempt} {path : Path} {fault : LibraryFault} :
    a.failure? = some (path, fault) ↔ a.path = path ∧ a.ending = .error fault := by
  unfold failure?
  cases a.ending <;> simp

theorem isNone_failure? (a : Attempt) : a.failure?.isNone = a.ending.toOption.isSome := by
  unfold failure?
  cases a.ending <;> rfl

theorem length_eq_countP_add (attempts : List Attempt) :
    attempts.length =
      attempts.countP (·.failure?.isNone) + (attempts.filterMap failure?).length := by
  induction attempts with
  | nil => rfl
  | cons a rest ih =>
    cases h : a.failure? with
    | none =>
      rw [List.filterMap_cons_none h, List.countP_cons_of_pos (by simp [h]), List.length_cons, ih]
      omega
    | some failure =>
      rw [List.filterMap_cons_some h, List.countP_cons_of_neg (by simp [h]), List.length_cons, ih,
        List.length_cons]
      omega

end Attempt

namespace Library

open Attempt

variable {files : FileSystem} {linker : Linker} {r : Repository} {paths : List Path}

/-- The attempt to load the library at a path into a repository. -/
def attempt (files : FileSystem) (linker : Linker) (r : Repository) (path : Path) : Attempt where
  path := path
  ending := contributionAt files linker r path

/-- The attempts to load libraries one after the other, each into what those before it left. -/
def attemptEach (files : FileSystem) (linker : Linker) : Repository → List Path → List Attempt
  | _, [] => []
  | r, path :: rest =>
    attempt files linker r path ::
      attemptEach files linker (r.putEach (attempt files linker r path).loaders) rest

theorem attemptEach_cons (r : Repository) (path : Path) (rest : List Path) :
    attemptEach files linker r (path :: rest) =
      attempt files linker r path ::
        attemptEach files linker (r.putEach (attempt files linker r path).loaders) rest := rfl

theorem attemptEach_append (r : Repository) (paths rest : List Path) :
    attemptEach files linker r (paths ++ rest) =
      attemptEach files linker r paths ++
        attemptEach files linker (r.putEach (added (attemptEach files linker r paths))) rest := by
  induction paths generalizing r with
  | nil => rfl
  | cons path others ih =>
    rw [List.cons_append, attemptEach_cons, attemptEach_cons, ih, List.cons_append]
    rw [added_cons, Repository.putEach_append]

theorem map_path_attemptEach (files : FileSystem) (linker : Linker) (r : Repository)
    (paths : List Path) :
    (attemptEach files linker r paths).map (·.path) = paths := by
  induction paths generalizing r with
  | nil => rfl
  | cons path rest ih =>
    rw [attemptEach_cons, List.map_cons, ih]
    rfl

/-- An attempt ends as its library fares in what the earlier attempts left. -/
theorem ending_of_attemptEach {before after : List Attempt} {a : Attempt}
    (h : attemptEach files linker r paths = before ++ a :: after) :
    a.ending = contributionAt files linker (r.putEach (added before)) a.path := by
  induction before generalizing r paths with
  | nil =>
    cases paths with
    | nil => cases h
    | cons path rest =>
      obtain ⟨rfl, -⟩ := List.cons.inj h
      rfl
  | cons first before ih =>
    cases paths with
    | nil => cases h
    | cons path rest =>
      obtain ⟨rfl, hrest⟩ := List.cons.inj h
      have hnext := ih hrest
      rwa [← Repository.putEach_append] at hnext

theorem exists_attempt_of_mem {a : Attempt} (ha : a ∈ attemptEach files linker r paths) :
    ∃ before after, attemptEach files linker r paths = before ++ a :: after ∧
      a = attempt files linker (r.putEach (added before)) a.path := by
  obtain ⟨before, after, h⟩ := List.append_of_mem ha
  refine ⟨before, after, h, ?_⟩
  unfold attempt
  rw [← ending_of_attemptEach h]

/-! ### What attempts add -/

theorem contributionAt_of_isSealed (hr : r.isSealed = true) (path : Path) :
    ∃ fault, contributionAt files linker r path = .error fault := by
  unfold contributionAt
  cases openAt files linker r.mapped path with
  | error fault => exact ⟨fault, rfl⟩
  | ok library => exact ⟨.repositorySealed library.path, if_pos hr⟩

theorem attemptEach_of_isSealed (hr : r.isSealed = true) {a : Attempt}
    (ha : a ∈ attemptEach files linker r paths) : ∃ fault, a.ending = .error fault := by
  obtain ⟨before, after, h⟩ := List.append_of_mem ha
  rw [ending_of_attemptEach h]
  exact contributionAt_of_isSealed ((Repository.isSealed_putEach _ _).trans hr) _

theorem admits_attempt (hr : r.isSealed = false) (path : Path) :
    r.Admits (attempt files linker r path).loaders := by
  have hnone : r.Admits [] := Repository.admits_nil hr
  unfold attempt contributionAt loaders
  cases openAt files linker r.mapped path with
  | error fault => exact hnone
  | ok library =>
    dsimp only
    cases hc : library.contribution r with
    | error fault => exact hnone
    | ok ls => exact admits_of_contribution hc

/-- **All that attempts add** an open repository admits together. -/
theorem admits_added (hr : r.isSealed = false) (paths : List Path) :
    r.Admits (added (attemptEach files linker r paths)) := by
  induction paths generalizing r with
  | nil => exact Repository.admits_nil hr
  | cons path rest ih =>
    rw [attemptEach_cons, added_cons]
    exact Repository.admits_append_iff.2
      ⟨admits_attempt hr path, ih ((Repository.isSealed_putEach _ _).trans hr)⟩

theorem added_of_isSealed (files : FileSystem) (linker : Linker) (hr : r.isSealed = true)
    (paths : List Path) :
    added (attemptEach files linker r paths) = [] := by
  refine List.flatMap_eq_nil_iff.2 fun a ha => ?_
  obtain ⟨fault, hf⟩ := attemptEach_of_isSealed hr ha
  simp [loaders, hf]

/-- Whatever a repository is, it gets nothing or what it admits. -/
theorem added_eq_nil_or_admits (files : FileSystem) (linker : Linker) (r : Repository)
    (paths : List Path) :
    added (attemptEach files linker r paths) = [] ∨
      r.Admits (added (attemptEach files linker r paths)) := by
  by_cases hr : r.isSealed = true
  · exact Or.inl (added_of_isSealed files linker hr paths)
  · exact Or.inr (admits_added (by simpa using hr) paths)

/-! ### Running a scan -/

theorem path_of_openAt {mapped : List Path} {path : Path} {library : Library}
    (h : openAt files linker mapped path = .ok library) : library.path = path := by
  unfold openAt at h
  split at h
  · cases h
  · cases h
  · cases h
    rfl

/-- The state of a scan of a repository after some attempts. -/
def Scan.after (r : Repository) (attempts : List Attempt) : Scan where
  repository := r.putEach (added attempts)
  report := Attempt.report attempts
  seen := (attempts.map (·.path)).reverse

namespace Scan

theorem outcome_enroll (s : Scan) (library : Library) :
    (s.enroll library).outcome =
      match library.contribution s.repository with
      | .error fault => (s.skip library.path fault).outcome
      | .ok loaders =>
        .ok { s with
          repository := s.repository.putEach loaders
          report :=
            { s.report with
              loaded := s.report.loaded + 1
              ids := s.report.ids ++ loaders.map (·.id) } } := by
  unfold enroll
  rw [Traced.outcome_bind_of_ok _ (outcome_registerInto library s.repository)]
  cases library.contribution s.repository <;> rfl

theorem after_concat_error (r : Repository) (attempts : List Attempt) (path : Path)
    (fault : LibraryFault) :
    after r (attempts ++ [⟨path, .error fault⟩]) =
      { after r attempts with
        report :=
          { Attempt.report attempts with
            attempted := attempts.length + 1
            failures := attempts.filterMap failure? ++ [(path, fault)] }
        seen := path :: (attempts.map (·.path)).reverse } := by
  have hadded : added (attempts ++ [⟨path, .error fault⟩]) = added attempts := by
    simp [added, loaders]
  simp [after, Attempt.report, hadded, failure?]

theorem after_concat_ok (r : Repository) (attempts : List Attempt) (path : Path)
    (ls : List Loader) :
    after r (attempts ++ [⟨path, .ok ls⟩]) =
      { repository := (r.putEach (added attempts)).putEach ls
        report :=
          { Attempt.report attempts with
            attempted := attempts.length + 1
            loaded := attempts.countP (·.failure?.isNone) + 1
            ids := (added attempts).map (·.id) ++ ls.map (·.id) }
        seen := path :: (attempts.map (·.path)).reverse } := by
  have hadded : added (attempts ++ [⟨path, .ok ls⟩]) = added attempts ++ ls := by
    simp [added, loaders]
  simp [after, Attempt.report, hadded, failure?, Repository.putEach_append]

/-- **One path** is one more attempt, unless it was attempted before. -/
theorem outcome_visit (files : FileSystem) (linker : Linker) (r : Repository)
    (attempts : List Attempt) (path : Path) :
    ((after r attempts).visit files linker path).outcome =
      .ok (if (attempts.map (·.path)).reverse.any path.same then after r attempts
        else after r (attempts ++ [attempt files linker (r.putEach (added attempts)) path])) := by
  unfold visit
  by_cases hseen : (attempts.map (·.path)).reverse.any path.same = true
  · have hseen' : (after r attempts).seen.any path.same = true := hseen
    rw [if_pos hseen, if_pos hseen']
    rfl
  · have hseen' : ¬ (after r attempts).seen.any path.same = true := hseen
    have hrepository : (after r attempts).repository = r.putEach (added attempts) := rfl
    rw [if_neg hseen, if_neg hseen', attempt, contributionAt, hrepository]
    cases ho : openAt files linker (r.putEach (added attempts)).mapped path with
    | error fault =>
      rw [after_concat_error]
      rfl
    | ok library =>
      have hpath : library.path = path := path_of_openAt ho
      dsimp only
      rw [outcome_enroll]
      dsimp only
      cases library.contribution (r.putEach (added attempts)) with
      | error fault =>
        rw [after_concat_error, hpath]
        rfl
      | ok ls =>
        rw [after_concat_ok]
        rfl

theorem outcome_visitEach (files : FileSystem) (linker : Linker) (r : Repository)
    (attempts : List Attempt) (paths : List Path) :
    ((after r attempts).visitEach files linker paths).outcome =
      .ok (after r (attempts ++ attemptEach files linker (r.putEach (added attempts))
        (unseen (attempts.map (·.path)).reverse paths))) := by
  induction paths generalizing attempts with
  | nil =>
    simp only [unseen, attemptEach, List.append_nil]
    rfl
  | cons path rest ih =>
    unfold visitEach
    rw [Traced.outcome_bind_of_ok _ (outcome_visit files linker r attempts path), unseen_cons]
    by_cases hseen : (attempts.map (·.path)).reverse.any path.same = true
    · rw [if_pos hseen, if_pos hseen, ih]
    · rw [if_neg hseen, if_neg hseen, ih, attemptEach_cons]
      -- the repository that the new attempt leaves is the one that the next ones find
      have hadded : added [attempt files linker (r.putEach (added attempts)) path] =
          (attempt files linker (r.putEach (added attempts)) path).loaders := by simp [added]
      simp only [List.map_append, List.map_cons, List.map_nil, List.reverse_append,
        List.reverse_cons, List.reverse_nil, List.nil_append,
        List.append_assoc, List.cons_append, added_append, Repository.putEach_append, hadded]
      rfl

/-- The patterns of a scan give one list of paths. -/
theorem outcome_visitPatterns (files : FileSystem) (linker : Linker) (r : Repository)
    (attempts : List Attempt) (patterns : List String) :
    ((after r attempts).visitPatterns files linker patterns).outcome =
      .ok (after r (attempts ++ attemptEach files linker (r.putEach (added attempts))
        (unseen (attempts.map (·.path)).reverse (patterns.flatMap (found files))))) := by
  induction patterns generalizing attempts with
  | nil =>
    simp only [List.flatMap_nil, unseen, attemptEach, List.append_nil]
    rfl
  | cons pattern rest ih =>
    unfold visitPatterns
    rw [Traced.outcome_bind_of_ok _ (outcome_collect files pattern),
      Traced.outcome_bind_of_ok _ (outcome_visitEach files linker r attempts _), ih,
      List.flatMap_cons, unseen_append, attemptEach_append]
    simp only [List.map_append, map_path_attemptEach, List.reverse_append, added_append,
      Repository.putEach_append, List.append_assoc]

end Scan

/-- **A scan is its attempts added up.** -/
theorem outcome_scan (files : FileSystem) (linker : Linker) (patterns : List String)
    (r : Repository) :
    (scan files linker patterns r).outcome =
      .ok (r.putEach (added (attemptEach files linker r (targets files patterns))),
        Attempt.report (attemptEach files linker r (targets files patterns))) := by
  have h := Scan.outcome_visitPatterns files linker r [] patterns
  have hstart : Scan.after r [] = { repository := r } := rfl
  rw [hstart] at h
  unfold scan
  rw [Traced.outcome_bind_of_ok _ h]
  rfl

/-! ### The report and the repository -/

/-- Whether a report agrees with what became of a repository. -/
structure Balances (r : Repository) (report : ScanReport) (next : Repository) : Prop where
  attempted : report.attempted = report.loaded + report.failures.length
  distinct : report.ids.Nodup
  fresh : ∀ id ∈ report.ids, r.has id = false
  ids : ∀ id, id ∈ next.ids ↔ id ∈ r.ids ∨ id ∈ report.ids
  kept : ∀ id loader, r.find? id = some loader → next.find? id = some loader
  isSealed : next.isSealed = r.isSealed

/-- Whether attempts account for a report: they are one for each library that the patterns give,
each ends as its library fares in what the earlier ones left, the report counts them and those
that ended well and lists those that failed, which added nothing, and what was registered is what
the others added. -/
structure Accounts (files : FileSystem) (linker : Linker) (patterns : List String)
    (r : Repository) (report : ScanReport) (next : Repository) (attempts : List Attempt) :
    Prop where
  paths : attempts.map (·.path) = targets files patterns
  every : ∀ pattern ∈ patterns, ∀ path ∈ found files pattern,
    ∃ a ∈ attempts, path.same a.path = true
  once : attempts.Pairwise fun a b => a.path.parts ≠ b.path.parts
  ending : ∀ before a after, attempts = before ++ a :: after →
    a.ending = contributionAt files linker (r.putEach (added before)) a.path
  attempted : report.attempted = attempts.length
  loaded : report.loaded = attempts.countP fun a => a.ending.toOption.isSome
  failures : ∀ path fault, (path, fault) ∈ report.failures ↔
    ∃ a ∈ attempts, a.path = path ∧ a.ending = .error fault
  failed : ∀ a ∈ attempts, ∀ fault, (a.path, fault) ∈ report.failures → a.loaders = []
  contributed : ∀ id loader, next.find? id = some loader ↔ r.find? id = some loader ∨
    ∃ a ∈ attempts, ∃ loaders, a.ending = .ok loaders ∧ loader ∈ loaders ∧ loader.id = id

section Report

variable {ls : List Loader} {attempts : List Attempt}

theorem mem_added_iff {loader : Loader} :
    loader ∈ added attempts ↔
      ∃ a ∈ attempts, ∃ loaders, a.ending = .ok loaders ∧ loader ∈ loaders := by
  unfold added Attempt.loaders
  rw [List.mem_flatMap]
  refine exists_congr fun a => and_congr_right fun _ => ?_
  cases a.ending <;> simp

theorem find?_putEach_added (r : Repository) (paths : List Path) {id : String}
    {loader : Loader} :
    (r.putEach (added (attemptEach files linker r paths))).find? id = some loader ↔
      r.find? id = some loader ∨
        loader ∈ added (attemptEach files linker r paths) ∧ loader.id = id := by
  rcases added_eq_nil_or_admits files linker r paths with hnone | hadmits
  · simp [hnone, Repository.putEach]
  · exact hadmits.find?_putEach_eq_some_iff

theorem balances_report (r : Repository) (paths : List Path) :
    Balances r (Attempt.report (attemptEach files linker r paths))
      (r.putEach (added (attemptEach files linker r paths))) where
  attempted := length_eq_countP_add _
  distinct := by
    rcases added_eq_nil_or_admits files linker r paths with hnone | hadmits
    · simp [Attempt.report, hnone]
    · exact hadmits.distinct
  fresh := by
    intro id hid
    obtain ⟨l, hl, rfl⟩ := List.mem_map.1 hid
    rcases added_eq_nil_or_admits files linker r paths with hnone | hadmits
    · exact absurd (hnone ▸ hl) List.not_mem_nil
    · exact hadmits.free l hl
  ids := by
    intro id
    have hkeys : ∀ s : Repository, id ∈ s.ids ↔ s.has id = true := fun s => KeyMap.mem_keys_iff
    rw [hkeys, hkeys, Repository.has_putEach_iff]
    rfl
  kept _ _ h := (find?_putEach_added r paths).2 (Or.inl h)
  isSealed := Repository.isSealed_putEach _ _

/-- Attempts on all libraries that patterns give account for their own report. -/
theorem accounts_attemptEach (files : FileSystem) (linker : Linker) (patterns : List String)
    (r : Repository) :
    Accounts files linker patterns r
      (Attempt.report (attemptEach files linker r (targets files patterns)))
      (r.putEach (added (attemptEach files linker r (targets files patterns))))
      (attemptEach files linker r (targets files patterns)) where
  paths := map_path_attemptEach files linker r _
  every := by
    intro pattern hpattern path hpath
    obtain ⟨target, ht, hsame⟩ := exists_target_of_found hpattern hpath
    rw [← map_path_attemptEach files linker r (targets files patterns)] at ht
    obtain ⟨a, ha, rfl⟩ := List.mem_map.1 ht
    exact ⟨a, ha, hsame⟩
  once := by
    have hpaths := pairwise_targets files patterns
    rw [← map_path_attemptEach files linker r (targets files patterns),
      List.pairwise_map] at hpaths
    exact hpaths
  ending _ _ _ h := ending_of_attemptEach h
  attempted := rfl
  loaded := List.countP_congr fun a _ => by rw [isNone_failure?]
  failures path fault := by
    refine List.mem_filterMap.trans (exists_congr fun a => and_congr_right fun _ => ?_)
    exact failure?_eq_some_iff
  failed a ha fault hreport := by
    obtain ⟨b, hb, hfailure⟩ := List.mem_filterMap.1 hreport
    obtain ⟨hpath, hending⟩ := failure?_eq_some_iff.1 hfailure
    -- there is one attempt at a path
    have hnodup : ((attemptEach files linker r (targets files patterns)).map (·.path)).Nodup := by
      rw [map_path_attemptEach]
      exact (pairwise_targets files patterns).imp fun hne heq => hne (congrArg Path.parts heq)
    obtain rfl := List.inj_on_of_nodup_map hnodup hb ha hpath
    simp [loaders, hending]
  contributed id loader := by
    rw [find?_putEach_added, mem_added_iff]
    refine or_congr Iff.rfl ?_
    constructor
    · rintro ⟨⟨a, ha, ls, hls, hmem⟩, hid⟩
      exact ⟨a, ha, ls, hls, hmem, hid⟩
    · rintro ⟨a, ha, ls, hls, hmem, hid⟩
      exact ⟨⟨a, ha, ls, hls, hmem⟩, hid⟩

end Report

/-- **The report of a scan agrees with the repository that it leaves**, and the scan attempts
every library that the patterns give, also behind those that fail.  On a sealed repository all
attempts fail. -/
theorem scan_balances (files : FileSystem) (linker : Linker) (patterns : List String)
    (r : Repository) :
    ∃ next report attempts, (scan files linker patterns r).outcome = .ok (next, report) ∧
      Balances r report next ∧ Accounts files linker patterns r report next attempts ∧
      (r.isSealed = true → (∀ a ∈ attempts, ∃ fault, a.ending = .error fault) ∧
        report.loaded = 0 ∧ report.ids = [] ∧ next = r) := by
  refine ⟨_, _, attemptEach files linker r (targets files patterns),
    outcome_scan files linker patterns r, balances_report r _,
    accounts_attemptEach files linker patterns r, fun hr => ?_⟩
  have hnone := added_of_isSealed files linker hr (targets files patterns)
  refine ⟨fun a ha => attemptEach_of_isSealed hr ha, List.countP_eq_zero.2 ?_,
    by simp [Attempt.report, hnone], by rw [hnone]; rfl⟩
  intro a ha
  obtain ⟨fault, hf⟩ := attemptEach_of_isSealed hr ha
  simp [failure?, hf]

end Library

end PluginHost
