import Mathlib.Data.List.Nodup
import Mathlib.Data.List.Pairwise
import PluginHost.Proofs.FileSystem.Names
import PluginHost.Proofs.Library.Rescan

/-!
# One library under several spellings

A scan knows the paths that it attempted, not the files: it passes over a path exactly if one of
the same parts was attempted before.  So each library file is attempted once if the patterns give
it under one spelling, slashes apart (`Library.SpeltAlike`), and only then.  A pattern that repeats
the names of a directory adds no attempt (`Library.Respells`).  A file that is attempted under a
second spelling is reported as failed, because its own loaders took the ids
(`Library.scan_once_iff`).
-/

namespace PluginHost

namespace Library

open Attempt

variable {files : FileSystem} {linker : Linker} {r : Repository} {patterns : List String}
  {pattern again : String} {p q : Path}

/-! ### What patterns give -/

/-- A pattern lists what there is in its directory, or below it if all below is meant. -/
theorem exists_directory_of_listed? {entries : List FileSystem.Listed}
    (h : listed? files pattern = some entries) :
    ∃ home, files.directory ⟨(target pattern).1⟩ = .ok home ∧ ∀ e, e ∈ entries ↔
      ∃ way, way ≠ [] ∧ ((target pattern).2 = false → way.length = 1) ∧
        files.entry? (home ++ way) = some e.entry ∧
        e.path = Path.descend ⟨(target pattern).1⟩ way := by
  obtain ⟨-, hlist⟩ := listed?_eq_some_iff.1 h
  cases hdeep : (target pattern).2 with
  | true =>
    rw [hdeep, if_pos rfl] at hlist
    obtain ⟨home, hdir, rfl⟩ := FileSystem.listBelow_eq_ok_iff.1 hlist
    refine ⟨home, hdir, fun e => ?_⟩
    rw [List.mem_map]
    constructor
    · rintro ⟨⟨way, entry⟩, hmem, rfl⟩
      obtain ⟨hne, hentry⟩ := FileSystem.mem_entriesBelow_iff.1 hmem
      exact ⟨way, hne, by simp, hentry, rfl⟩
    · rintro ⟨way, hne, -, hentry, hpath⟩
      exact ⟨(way, e.entry), FileSystem.mem_entriesBelow_iff.2 ⟨hne, hentry⟩, by rw [← hpath]⟩
  | false =>
    rw [hdeep, if_neg (by simp)] at hlist
    obtain ⟨home, hdir, rfl⟩ := FileSystem.list_eq_ok_iff.1 hlist
    refine ⟨home, hdir, fun e => ?_⟩
    rw [List.mem_map]
    constructor
    · rintro ⟨⟨name, entry⟩, hmem, rfl⟩
      exact ⟨[name], by simp, by simp, FileSystem.mem_entriesIn_iff.1 hmem, rfl⟩
    · rintro ⟨way, -, hone, hentry, hpath⟩
      obtain ⟨name, rfl⟩ := List.length_eq_one_iff.1 (hone rfl)
      exact ⟨(name, e.entry), FileSystem.mem_entriesIn_iff.2 hentry, by rw [← hpath]⟩

theorem mem_found_iff :
    p ∈ found files pattern ↔ ∃ entries, listed? files pattern = some entries ∧
      ∃ e ∈ entries, isCandidate files e = true ∧ e.path = p := by
  unfold found
  cases listed? files pattern with
  | none => simp
  | some entries => simp [(Path.sort_perm _).mem_iff, and_assoc]

theorem exists_names_of_found (h : p ∈ found files pattern) : ∃ place, files.Names p place := by
  obtain ⟨entries, hlisted, e, he, -, rfl⟩ := mem_found_iff.1 h
  obtain ⟨home, hdir, hentries⟩ := exists_directory_of_listed? hlisted
  obtain ⟨way, hne, -, hentry, hpath⟩ := (hentries e).1 he
  rw [hpath]
  exact ⟨home ++ way, FileSystem.names_descend hdir hne hentry⟩

/-- What a scan attempts are the paths that the patterns give, as far as their parts go. -/
theorem exists_target_iff {parts : Path.Parts} :
    (∃ p ∈ targets files patterns, p.parts = parts) ↔
      ∃ p ∈ patterns.flatMap (found files), p.parts = parts := by
  constructor
  · rintro ⟨p, hp, hparts⟩
    exact ⟨p, mem_of_mem_unseen hp, hparts⟩
  · rintro ⟨p, hp, rfl⟩
    obtain ⟨pattern, hpattern, hfound⟩ := List.mem_flatMap.1 hp
    obtain ⟨t, ht, hsame⟩ := exists_target_of_found hpattern hfound
    exact ⟨t, ht, (Path.same_iff.1 hsame).symm⟩

/-- How many libraries a scan attempts is how many different parts the given paths have. -/
theorem length_targets_eq {more : List String}
    (h : ∀ parts, (∃ p ∈ more.flatMap (found files), p.parts = parts) ↔
      ∃ p ∈ patterns.flatMap (found files), p.parts = parts) :
    (targets files more).length = (targets files patterns).length := by
  have hnodup : ∀ patterns, ((targets files patterns).map Path.parts).Nodup := fun patterns =>
    List.pairwise_map.2 (pairwise_targets files patterns)
  have hperm : ((targets files more).map Path.parts).Perm
      ((targets files patterns).map Path.parts) := by
    refine (List.perm_ext_iff_of_nodup (hnodup more) (hnodup patterns)).2 fun parts => ?_
    rw [List.mem_map, List.mem_map, exists_target_iff, exists_target_iff]
    exact h parts
  simpa using hperm.length_eq

/-! ### Spellings of one directory -/

/-- Whether a pattern only repeats what another one gives: it means a directory of the same names,
no deeper than the other does, and the other finds it and can follow what is there. -/
structure Respells (files : FileSystem) (pattern again : String) : Prop where
  rooted : (⟨(target again).1⟩ : Path).parts.rooted = (⟨(target pattern).1⟩ : Path).parts.rooted
  names : (⟨(target again).1⟩ : Path).parts.names = (⟨(target pattern).1⟩ : Path).parts.names
  depth : (target again).2 = true → (target pattern).2 = true
  listed : ∃ entries, listed? files pattern = some entries ∧
    ∀ e ∈ entries, e.path.text.utf8ByteSize ≤ FileSystem.pathLimit

/-- Entries of the same parts are candidates together, if both can be followed. -/
theorem isCandidate_of_parts_eq {e e' : FileSystem.Listed} (hparts : e.path.parts = e'.path.parts)
    (hentry : e.entry = e'.entry) (hne : e.path.text ≠ "") (hne' : e'.path.text ≠ "")
    (hsize : e.path.text.utf8ByteSize ≤ FileSystem.pathLimit)
    (h : isCandidate files e' = true) : isCandidate files e = true := by
  have hname : e.path.lastName = e'.path.lastName := by
    unfold Path.lastName
    rw [hparts]
  have hstatus : files.statusOf e = files.statusOf e' := by
    unfold FileSystem.statusOf
    rw [hentry]
    unfold isCandidate FileSystem.statusOf at h
    cases he : e'.entry with
    | directory => rfl
    | file content => rfl
    | link destination =>
      -- a link that is followed at the one path is followed at the other, which is short enough
      rw [he] at h
      by_cases hsize' : e'.path.text.utf8ByteSize ≤ FileSystem.pathLimit
      · exact files.status_eq_of_parts_eq hparts hne hne' hsize hsize'
      · rw [files.status_of_pathLimit_lt hne' (Nat.lt_of_not_le hsize')] at h
        cases h
  unfold isCandidate at h ⊢
  rw [hstatus, hname]
  exact h

/-- What a repeated pattern gives, the other one gives under the same parts. -/
theorem Respells.exists_found (h : Respells files pattern again) (hq : q ∈ found files again) :
    ∃ p ∈ found files pattern, p.parts = q.parts := by
  obtain ⟨entries, hlisted, hshort⟩ := h.listed
  obtain ⟨entries', hlisted', e', he', hcandidate, rfl⟩ := mem_found_iff.1 hq
  obtain ⟨home, hdir, hentries⟩ := exists_directory_of_listed? hlisted
  obtain ⟨home', hdir', hentries'⟩ := exists_directory_of_listed? hlisted'
  obtain ⟨way, hne, hone, hentry, hpath⟩ := (hentries' e').1 he'
  -- the same names lead to the same directory
  obtain rfl : home' = home := by
    obtain ⟨-, used, hw⟩ := FileSystem.leads_of_directory hdir
    obtain ⟨-, used', hw'⟩ := FileSystem.leads_of_directory hdir'
    have hrooted : (⟨(target again).1⟩ : Path).isAbsolute =
        (⟨(target pattern).1⟩ : Path).isAbsolute := h.rooted
    rw [FileSystem.start, hrooted, h.names] at hw'
    exact (hw'.unique hw).2
  have hnames := FileSystem.isName_below hne hentry
  have htext := FileSystem.text_ne_empty_of_directory hdir
  have htext' := FileSystem.text_ne_empty_of_directory hdir'
  let e : FileSystem.Listed := ⟨Path.descend ⟨(target pattern).1⟩ way, e'.entry⟩
  have hparts : e.path.parts = e'.path.parts := by
    rw [hpath, Path.parts_descend htext hne hnames, Path.parts_descend htext' hne hnames,
      h.rooted, h.names]
  have he : e ∈ entries := by
    refine (hentries e).2 ⟨way, hne, fun hflat => hone ?_, hentry, rfl⟩
    cases hdeep : (target again).2 with
    | false => rfl
    | true => exact (h.depth hdeep).symm.trans hflat
  have hne' : e'.path.text ≠ "" := hpath ▸ Path.text_descend_ne_empty htext' hne hnames
  exact ⟨e.path, mem_found_iff.2 ⟨entries, hlisted, e, he,
    isCandidate_of_parts_eq hparts rfl (Path.text_descend_ne_empty htext hne hnames) hne'
      (hshort e he) hcandidate, rfl⟩, hparts⟩

/-- A repeated pattern, wherever it stands, adds no attempt. -/
theorem Respells.length_targets (h : Respells files pattern again) (hpattern : pattern ∈ patterns)
    {more : List String} (hmore : more.Perm (again :: patterns)) :
    (targets files more).length = (targets files patterns).length := by
  refine length_targets_eq fun parts => ?_
  simp only [List.mem_flatMap, hmore.mem_iff, List.mem_cons]
  constructor
  · rintro ⟨q, ⟨other, rfl | hother, hq⟩, rfl⟩
    · obtain ⟨p, hp, hparts⟩ := h.exists_found hq
      exact ⟨p, ⟨pattern, hpattern, hp⟩, hparts⟩
    · exact ⟨q, ⟨other, hother, hq⟩, rfl⟩
  · rintro ⟨p, ⟨other, hother, hp⟩, hparts⟩
    exact ⟨p, ⟨other, .inr hother, hp⟩, hparts⟩

/-- The patterns of a directory that differ in nothing but what follows its name. -/
def spellings (dir : String) : List String := [dir, dir ++ "/", dir ++ "/*", dir ++ "/**"]

theorem parts_append_slash {dir : String} (hdir : dir ≠ "") :
    (⟨dir ++ "/"⟩ : Path).parts.rooted = (⟨dir⟩ : Path).parts.rooted ∧
      (⟨dir ++ "/"⟩ : Path).parts.names = (⟨dir⟩ : Path).parts.names :=
  ⟨Path.rooted_withSlashes (p := ⟨dir⟩) hdir 1, Path.names_withSlashes ⟨dir⟩ 1⟩

theorem target_of_mem_spellings {dir : String} (hdir : dir ≠ "")
    (hflat : target dir = (dir, false)) (h : pattern ∈ spellings dir) :
    (⟨(target pattern).1⟩ : Path).parts.rooted = (⟨dir⟩ : Path).parts.rooted ∧
      (⟨(target pattern).1⟩ : Path).parts.names = (⟨dir⟩ : Path).parts.names ∧
      ((target pattern).2 = true ↔ pattern = dir ++ "/**") := by
  have hslash : target (dir ++ "/") = (dir ++ "/", false) := by simp [target]
  have hstar : target (dir ++ "/*") = (dir, false) := by simp [target]
  have hstars : target (dir ++ "/**") = (dir, true) := by simp [target]
  -- a pattern that means the directory alone is not the last one
  have hdepth : ∀ {pattern}, (target pattern).2 = false →
      ((target pattern).2 = true ↔ pattern = dir ++ "/**") := by
    intro pattern hp
    constructor
    · intro ht
      exact nomatch hp.symm.trans ht
    · rintro rfl
      rw [hstars]
  simp only [spellings, List.mem_cons, List.not_mem_nil, or_false] at h
  rcases h with rfl | rfl | rfl | rfl
  · exact ⟨by rw [hflat], by rw [hflat], hdepth (by rw [hflat])⟩
  · obtain ⟨hrooted, hnames⟩ := parts_append_slash hdir
    exact ⟨by rw [hslash, hrooted], by rw [hslash, hnames], hdepth (by rw [hslash])⟩
  · exact ⟨by rw [hstar], by rw [hstar], hdepth (by rw [hstar])⟩
  · exact ⟨by rw [hstars], by rw [hstars], by simp [hstars]⟩

/-- One of these patterns repeats another, unless it means all below the directory and the other
does not. -/
theorem respells_of_mem_spellings {dir : String} (hdir : dir ≠ "")
    (hflat : target dir = (dir, false)) (hpattern : pattern ∈ spellings dir)
    (hagain : again ∈ spellings dir) (hdepth : again = dir ++ "/**" → pattern = dir ++ "/**")
    (hlisted : ∃ entries, listed? files pattern = some entries ∧
      ∀ e ∈ entries, e.path.text.utf8ByteSize ≤ FileSystem.pathLimit) :
    Respells files pattern again := by
  obtain ⟨hrooted, hnames, hdeep⟩ := target_of_mem_spellings hdir hflat hpattern
  obtain ⟨hrooted', hnames', hdeep'⟩ := target_of_mem_spellings hdir hflat hagain
  exact ⟨hrooted'.trans hrooted.symm, hnames'.trans hnames.symm,
    fun h => hdeep.2 (hdepth (hdeep'.1 h)), hlisted⟩

/-! ### Attempts at one file -/

/-- Whether patterns give each library file under one spelling, slashes apart. -/
def SpeltAlike (files : FileSystem) (patterns : List String) : Prop :=
  ∀ p ∈ patterns.flatMap (found files), ∀ q ∈ patterns.flatMap (found files),
    ∀ place, files.Names p place → files.Names q place → p.parts = q.parts

/-- Whether two paths name different places. -/
def Apart (files : FileSystem) (p q : Path) : Prop :=
  ∀ place, files.Names p place → ¬ files.Names q place

/-- **A scan attempts each file once** exactly if the patterns give it under one spelling. -/
theorem pairwise_apart_iff :
    (targets files patterns).Pairwise (Apart files) ↔ SpeltAlike files patterns := by
  constructor
  · intro h p hp q hq place hpplace hqplace
    obtain ⟨t, ht, htparts⟩ := exists_target_iff.2 ⟨p, hp, rfl⟩
    obtain ⟨u, hu, huparts⟩ := exists_target_iff.2 ⟨q, hq, rfl⟩
    have hsymm : Std.Symm (Apart files) := ⟨fun _ _ h place hq hp => h place hp hq⟩
    have htu : t = u := by
      by_contra hne
      exact h.forall ht hu hne place (hpplace.of_parts_eq htparts.symm)
        (hqplace.of_parts_eq huparts.symm)
    rw [← htparts, htu, huparts]
  · intro h
    refine (pairwise_targets files patterns).imp_of_mem ?_
    intro p q hp hq hne place hpplace hqplace
    exact hne (h p (mem_of_mem_unseen hp) q (mem_of_mem_unseen hq) place hpplace hqplace)

theorem pairwise_apart_attemptEach (linker : Linker) (r : Repository) :
    (attemptEach files linker r (targets files patterns)).Pairwise
      (fun a b => Apart files a.path b.path) ↔ SpeltAlike files patterns := by
  have hmap : ∀ attempts : List Attempt, (attempts.map (·.path)).Pairwise (Apart files) ↔
      attempts.Pairwise fun a b => Apart files a.path b.path := fun _ => List.pairwise_map
  rw [← hmap, map_path_attemptEach, pairwise_apart_iff]

theorem length_attemptEach (r : Repository) (paths : List Path) :
    (attemptEach files linker r paths).length = paths.length := by
  simpa using congrArg List.length (map_path_attemptEach files linker r paths)

/-! ### Ids that are taken -/

variable {library : Library} {staging : Repository} {fault : Path} {id : String}

theorem has_of_contribution (h : library.contribution r = .error (.idTaken fault id)) :
    r.has id = true := by
  unfold contribution at h
  split at h
  · cases h
  · split at h
    · cases h
    · split at h
      · next hfind =>
        cases h
        exact List.find?_some hfind
      · cases h

theorem has_of_contributionAt (h : contributionAt files linker r p = .error (.idTaken fault id)) :
    r.has id = true := by
  unfold contributionAt openAt at h
  split at h
  · next hopen =>
    -- a library that cannot be opened fails for another reason
    split at hopen <;> cases hopen <;> cases h
  · exact has_of_contribution h

theorem exists_contribution_idTaken (hrun : (library.image.run ∅).outcome = .ok staging)
    (hopen : r.isSealed = false) (hne : staging.ids ≠ [])
    (hall : ∀ id ∈ staging.ids, r.has id = true) :
    ∃ id ∈ staging.ids, library.contribution r = .error (.idTaken library.path id) := by
  cases hfind : staging.ids.find? r.has with
  | none =>
    obtain ⟨id, hid⟩ := List.exists_mem_of_ne_nil _ hne
    exact absurd (hall id hid) (List.find?_eq_none.1 hfind id hid)
  | some id =>
    refine ⟨id, List.mem_of_find?_eq_some hfind, ?_⟩
    simp only [contribution, hopen, Bool.false_eq_true, ↓reduceIte, hrun, hfind]

variable {paths : List Path} {before middle after : List Attempt} {a b : Attempt}

/-- A library that added loaders keeps every later attempt at the same object from its ids. -/
theorem exists_idTaken
    (h : attemptEach files linker r paths = before ++ a :: (middle ++ b :: after))
    (hobject : sharedObject files linker (r.putEach (added (before ++ a :: middle))).mapped b.path =
      sharedObject files linker (r.putEach (added before)).mapped a.path)
    (hadded : a.loaders ≠ []) :
    ∃ loader ∈ a.loaders, b.ending = .error (.idTaken b.path loader.id) := by
  cases ha : a.ending with
  | error fault =>
    refine absurd ?_ hadded
    simp [loaders, ha]
  | ok ls =>
    obtain ⟨image, himage, hcontribution⟩ :=
      contributionAt_eq_ok_iff.1 ((ending_of_attemptEach h).symm.trans ha)
    obtain ⟨hopen, staging, hrun, -, rfl⟩ := contribution_eq_ok_iff.1 hcontribution
    have hids : a.loaders.map (·.id) = staging.ids := by
      rw [← map_id_loadersKeeping_of_run a.path hrun]
      simp [loaders, ha]
    have hsplit : attemptEach files linker r paths = (before ++ a :: middle) ++ b :: after := by
      simp [h]
    rw [Repository.isSealed_putEach] at hopen
    -- all ids of the library are taken by now
    have hall : ∀ id ∈ staging.ids,
        (r.putEach (added (before ++ a :: middle))).has id = true := by
      intro id hid
      refine Repository.has_putEach_iff.2 (.inr ?_)
      rw [added_append, added_cons, List.map_append, List.map_append, hids]
      exact List.mem_append_right _ (List.mem_append_left _ hid)
    have hne : staging.ids ≠ [] := by
      rw [← hids]
      simpa using hadded
    obtain ⟨id, hid, hrefused⟩ := @exists_contribution_idTaken _ ⟨b.path, image⟩ _ hrun
      ((Repository.isSealed_putEach _ _).trans hopen) hne hall
    obtain ⟨loader, hloader, rfl⟩ := List.mem_map.1 (hids ▸ hid)
    refine ⟨loader, hloader, ?_⟩
    rw [ending_of_attemptEach hsplit]
    unfold contributionAt openAt
    rw [hobject, himage]
    exact hrefused

/-! ### One attempt for each file -/

/-- **A scan attempts each library file once exactly if the patterns give it under one spelling.**
Every path that is attempted names one place.  If each file has one spelling, an id is reported as
taken only if it was there before the scan or comes from another file.  A file that added loaders
and is attempted under another spelling is reported for one of its own ids.  A pattern that only
repeats another one never raises the number of attempts, and with slashes or stars behind it a
directory is only repeated, unless all below it is meant for the first time. -/
theorem scan_once_iff (files : FileSystem) (linker : Linker) (patterns : List String)
    (r : Repository) :
    ∃ next report attempts, (scan files linker patterns r).outcome = .ok (next, report) ∧
      Accounts files linker patterns r report next attempts ∧
      report.attempted = attempts.length ∧
      (∀ a ∈ attempts, ∃! place, files.Names a.path place) ∧
      (attempts.Pairwise (fun a b => Apart files a.path b.path) ↔ SpeltAlike files patterns) ∧
      (SpeltAlike files patterns → ∀ path fault id, (path, .idTaken fault id) ∈ report.failures →
        r.has id = true ∨
          ∃ a ∈ attempts, Apart files a.path path ∧ ∃ loader ∈ a.loaders, loader.id = id) ∧
      (∀ before a middle b after, attempts = before ++ a :: (middle ++ b :: after) →
        sharedObject files linker (r.putEach (added (before ++ a :: middle))).mapped b.path =
          sharedObject files linker (r.putEach (added before)).mapped a.path → a.loaders ≠ [] →
        ∃ loader ∈ a.loaders, (b.path, .idTaken b.path loader.id) ∈ report.failures) ∧
      (∀ pattern ∈ patterns, ∀ again, Respells files pattern again →
        ∀ more, more.Perm (again :: patterns) → ∃ next' report',
          (scan files linker more r).outcome = .ok (next', report') ∧
          report'.attempted = report.attempted) ∧
      ∀ dir, dir ≠ "" → target dir = (dir, false) → ∀ pattern ∈ spellings dir,
        ∀ again ∈ spellings dir, (again = dir ++ "/**" → pattern = dir ++ "/**") →
        (∃ entries, listed? files pattern = some entries ∧
          ∀ e ∈ entries, e.path.text.utf8ByteSize ≤ FileSystem.pathLimit) →
        Respells files pattern again := by
  have haccounts := accounts_attemptEach files linker patterns r
  refine ⟨_, _, _, outcome_scan files linker patterns r, haccounts, rfl, ?_,
    pairwise_apart_attemptEach linker r, ?_, ?_, ?_,
    fun _ hdir hflat _ hpattern _ hagain => respells_of_mem_spellings hdir hflat hpattern hagain⟩
  · intro a ha
    have hmem : a.path ∈ targets files patterns := haccounts.paths ▸ List.mem_map_of_mem ha
    obtain ⟨pattern, -, hfound⟩ := List.mem_flatMap.1 (mem_of_mem_unseen hmem)
    obtain ⟨place, hplace⟩ := exists_names_of_found hfound
    exact ⟨place, hplace, fun other hother => hother.unique hplace⟩
  · intro hspelt path fault id hreport
    obtain ⟨b, hb, rfl, hending⟩ := (haccounts.failures _ _).1 hreport
    obtain ⟨before, after, hattempts⟩ := List.append_of_mem hb
    rw [haccounts.ending _ _ _ hattempts] at hending
    refine (Repository.has_putEach_iff.1 (has_of_contributionAt hending)).imp_right fun hid => ?_
    obtain ⟨loader, hloader, rfl⟩ := List.mem_map.1 hid
    obtain ⟨a, ha, hmem⟩ := List.mem_flatMap.1 hloader
    have hapart := (pairwise_apart_attemptEach linker r).2 hspelt
    rw [hattempts] at hapart ⊢
    refine ⟨a, List.mem_append_left _ ha, ?_, loader, hmem, rfl⟩
    exact (List.pairwise_append.1 hapart).2.2 a ha b List.mem_cons_self
  · intro before a middle b after hattempts hobject hadded
    obtain ⟨loader, hloader, hending⟩ := exists_idTaken hattempts hobject hadded
    refine ⟨loader, hloader, (haccounts.failures _ _).2 ⟨b, ?_, rfl, hending⟩⟩
    rw [hattempts]
    simp
  · intro pattern hpattern again hagain more hmore
    refine ⟨_, _, outcome_scan files linker more r, ?_⟩
    show (attemptEach files linker r (targets files more)).length =
      (attemptEach files linker r (targets files patterns)).length
    rw [length_attemptEach, length_attemptEach, hagain.length_targets hpattern hmore]

/-- A directory that is given with a point before its name, too, has its library attempted twice,
and the second attempt fails for the id that the first one registered. -/
theorem scan_of_two_spellings :
    lone.Names ⟨"d/a.so"⟩ ["d", "a.so"] ∧ lone.Names ⟨"./d/a.so"⟩ ["d", "a.so"] ∧
      (scan lone offering ["d"] ∅).outcome.map Prod.snd =
        .ok { attempted := 1, loaded := 1, ids := ["x"] } ∧
      (scan lone offering ["d", "./d"] ∅).outcome.map Prod.snd =
        .ok { attempted := 2, loaded := 1, ids := ["x"]
              failures := [(⟨"./d/a.so"⟩, .idTaken ⟨"./d/a.so"⟩ "x")] } := by
  have hd : lone.entry? ["d"] = some .directory := rfl
  have honce : targets lone ["d"] = [⟨"d/a.so"⟩] := by decide +kernel
  have htwice : targets lone ["d", "./d"] = [⟨"d/a.so"⟩, ⟨"./d/a.so"⟩] := by decide +kernel
  refine ⟨⟨["d"], "a.so", ["d"], 0, by decide, hd, .directory trivial hd .done, rfl⟩,
    ⟨[".", "d"], "a.so", ["d"], 0, by decide, hd, .here (.directory trivial hd .done), rfl⟩,
    ?_, ?_⟩
  · rw [outcome_scan, honce]
    rfl
  · rw [outcome_scan, htwice]
    rfl

end Library

end PluginHost
