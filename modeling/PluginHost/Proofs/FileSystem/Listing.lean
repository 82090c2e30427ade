import Mathlib.Data.List.Nodup
import PluginHost.Proofs.Except
import PluginHost.Proofs.FileSystem.Leads
import PluginHost.Proofs.Path.Order

/-!
# What directories list

A directory lists its entries at paths that continue its own, by one name or, with all that is
below it, by a way of several.  Within one listing all these paths differ
(`FileSystem.nodup_parts_list`, `FileSystem.nodup_parts_listBelow`), because there is one entry
at a place.
-/

namespace PluginHost

namespace Path

/-- A path continued by names, one after the other. -/
def descend (p : Path) (way : List String) : Path := way.foldl (fun p name => p / ⟨name⟩) p

theorem text_ne_empty_of_names {p : Path} (h : p.parts.names ≠ []) : p.text ≠ "" := by
  intro he
  refine h ?_
  show namesOf p.text.toList = []
  rw [he]
  rfl

theorem parts_join_name {p : Path} {name : String} (hp : p.text ≠ "") (hn : IsName name) :
    (p / (⟨name⟩ : Path)).parts =
      { rooted := p.parts.rooted, names := p.parts.names ++ [name], trailing := false } := by
  have hname : ∀ n ∈ [name], IsName n := fun n hmem => List.mem_singleton.1 hmem ▸ hn
  have heq : (⟨name⟩ : Path) = ofNames [name] := by simp [ofNames, joinNames]
  have hparts := parts_ofNames (List.cons_ne_nil name []) hname
  have hrel : (ofNames [name]).isAbsolute = false := congrArg Parts.rooted hparts
  rw [heq, parts_join hp hrel (by rw [hparts]; exact List.cons_ne_nil _ _), hparts]

/-- A path continued by names has the names of both. -/
theorem parts_descend {p : Path} {way : List String} (hp : p.text ≠ "") (hne : way ≠ [])
    (hway : ∀ n ∈ way, IsName n) :
    (p.descend way).parts =
      { rooted := p.parts.rooted, names := p.parts.names ++ way, trailing := false } := by
  induction way generalizing p with
  | nil => exact absurd rfl hne
  | cons name rest ih =>
    have hjoin := parts_join_name hp (hway name List.mem_cons_self)
    show ((p / (⟨name⟩ : Path)).descend rest).parts = _
    by_cases hr : rest = []
    · subst hr
      exact hjoin
    · have htext : (p / (⟨name⟩ : Path)).text ≠ "" :=
        text_ne_empty_of_names (by rw [hjoin]; simp)
      rw [ih htext hr fun n hn => hway n (List.mem_cons_of_mem _ hn), hjoin]
      simp

theorem slash_mem_descend {p : Path} {way : List String} (hp : p.text ≠ "") (hne : way ≠ [])
    (hway : ∀ n ∈ way, IsName n) : '/' ∈ (p.descend way).text.toList := by
  induction way generalizing p with
  | nil => exact absurd rfl hne
  | cons name rest ih =>
    have hname := hway name List.mem_cons_self
    show '/' ∈ ((p / (⟨name⟩ : Path)).descend rest).text.toList
    by_cases hr : rest = []
    · subst hr
      have hrel : (⟨name⟩ : Path).isAbsolute = false := by
        refine decide_eq_false fun hhead => hname.2 ?_
        exact List.mem_of_head? hhead
      obtain ⟨stem, htext, -⟩ := exists_toList_join hp hrel
      show '/' ∈ (p / (⟨name⟩ : Path)).text.toList
      rw [htext]
      simp
    · have htext : (p / (⟨name⟩ : Path)).text ≠ "" :=
        text_ne_empty_of_names (by rw [parts_join_name hp hname]; simp)
      exact ih htext hr fun n hn => hway n (List.mem_cons_of_mem _ hn)

theorem text_descend_ne_empty {p : Path} {way : List String} (hp : p.text ≠ "") (hne : way ≠ [])
    (hway : ∀ n ∈ way, IsName n) : (p.descend way).text ≠ "" := by
  refine text_ne_empty_of_names ?_
  rw [parts_descend hp hne hway]
  simp [hne]

/-- Different ways from one directory are different paths. -/
theorem nodup_parts_descend {p : Path} {ways : List (List String)} (hp : p.text ≠ "")
    (hways : ∀ way ∈ ways, way ≠ [] ∧ ∀ n ∈ way, IsName n) (hd : ways.Nodup) :
    (ways.map fun way => (p.descend way).parts).Nodup := by
  refine (List.nodup_map_iff_inj_on hd).2 ?_
  intro way hway way' hway' heq
  rw [parts_descend hp (hways way hway).1 (hways way hway).2,
    parts_descend hp (hways way' hway').1 (hways way' hway').2] at heq
  exact List.append_cancel_left (Parts.mk.inj heq).2.1

end Path

namespace FileSystem

variable {fs : FileSystem} {place : Location} {path : Path}

theorem isName_of_isEntryName {name : String} (h : IsEntryName name) : Path.IsName name :=
  ⟨h.1, h.2.2.2.1⟩

/-! ### The entries of a directory -/

theorem entriesIn_sublist (fs : FileSystem) (place : Location) :
    ((fs.entriesIn place).map fun e => place ++ [e.1]).Sublist (fs.entries.map (·.1)) := by
  unfold entriesIn
  induction fs.entries with
  | nil => exact .slnil
  | cons e rest ih =>
    rw [List.filterMap_cons]
    split
    · exact ih.cons _
    · next shown h =>
      split at h
      · next hdrop =>
        obtain ⟨last, hlast, rfl⟩ := Option.map_eq_some_iff.1 h
        obtain ⟨above, habove⟩ := List.getLast?_eq_some_iff.1 hlast
        have he : place ++ [last] = e.1 := by rw [← hdrop, habove, List.dropLast_concat]
        rw [List.map_cons, List.map_cons, he]
        exact ih.cons_cons _
      · cases h

theorem entriesBelow_sublist (fs : FileSystem) (place : Location) :
    ((fs.entriesBelow place).map fun e => place ++ e.1).Sublist (fs.entries.map (·.1)) := by
  unfold entriesBelow
  induction fs.entries with
  | nil => exact .slnil
  | cons e rest ih =>
    rw [List.filterMap_cons]
    split
    · exact ih.cons _
    · next shown h =>
      split at h
      · next hbelow =>
        obtain rfl := Option.some.inj h
        have he : place ++ e.1.drop place.length = e.1 :=
          List.prefix_iff_eq_append.1 (List.isPrefixOf_iff_prefix.1 hbelow.1)
        rw [List.map_cons, List.map_cons, he]
        exact ih.cons_cons _
      · cases h

theorem ne_nil_of_mem_entriesBelow {e : List String × Entry} (h : e ∈ fs.entriesBelow place) :
    e.1 ≠ [] := by
  obtain ⟨d, hd, hsome⟩ := List.mem_filterMap.1 h
  split at hsome
  · next hbelow =>
    obtain rfl := Option.some.inj hsome
    intro hnil
    -- nothing is left of the place itself only
    have he := List.prefix_iff_eq_append.1 (List.isPrefixOf_iff_prefix.1 hbelow.1)
    have hdrop : d.1.drop place.length = [] := hnil
    rw [hdrop, List.append_nil] at he
    exact hbelow.2 he.symm
  · cases hsome

/-! ### Listings -/

variable {entries : List Listed}

theorem list_eq_ok_iff :
    fs.list path = .ok entries ↔ ∃ place, fs.directory path = .ok place ∧
      entries = (fs.entriesIn place).map fun e => ⟨path.descend [e.1], e.2⟩ := by
  unfold list
  rw [bind_eq_ok_iff]
  refine exists_congr fun place => and_congr_right fun _ => ?_
  simp [pure, Except.pure, Path.descend, eq_comm]

theorem listBelow_eq_ok_iff :
    fs.listBelow path = .ok entries ↔ ∃ place, fs.directory path = .ok place ∧
      entries = (fs.entriesBelow place).map fun e => ⟨path.descend e.1, e.2⟩ := by
  unfold listBelow
  rw [bind_eq_ok_iff]
  refine exists_congr fun place => and_congr_right fun _ => ?_
  simp [pure, Except.pure, Path.descend, eq_comm]

theorem text_ne_empty_of_directory (h : fs.directory path = .ok place) : path.text ≠ "" := by
  intro he
  simp [directory, resolve, he, bind, Except.bind] at h

theorem isName_of_way {way : List String} (h : place ++ way ∈ fs.entries.map (·.1)) :
    ∀ n ∈ way, Path.IsName n := by
  intro n hn
  obtain ⟨e, he, heq⟩ := List.mem_map.1 h
  exact isName_of_isEntryName ((fs.tree.named e he).2 n (by simp [heq, hn]))

/-- The ways from a directory to different places of the tree are different paths. -/
theorem nodup_parts_of_sublist (ways : List (List String)) (hd : fs.directory path = .ok place)
    (hne : ∀ way ∈ ways, way ≠ [])
    (hsub : (ways.map fun way => place ++ way).Sublist (fs.entries.map (·.1))) :
    (ways.map fun way => (path.descend way).parts).Nodup := by
  refine Path.nodup_parts_descend (text_ne_empty_of_directory hd) ?_ ?_
  · intro way hway
    exact ⟨hne way hway, isName_of_way (hsub.subset (List.mem_map_of_mem hway))⟩
  · exact List.Nodup.of_map _ (hsub.nodup fs.tree.distinct)

theorem nodup_parts_list (h : fs.list path = .ok entries) :
    (entries.map (·.path.parts)).Nodup := by
  obtain ⟨place, hd, rfl⟩ := list_eq_ok_iff.1 h
  have hways := nodup_parts_of_sublist ((fs.entriesIn place).map fun e => [e.1]) hd ?_ ?_
  · rw [List.map_map] at hways ⊢
    exact hways
  · intro way hway
    obtain ⟨e, he, rfl⟩ := List.mem_map.1 hway
    exact List.cons_ne_nil _ _
  · rw [List.map_map]
    exact entriesIn_sublist fs place

theorem nodup_parts_listBelow (h : fs.listBelow path = .ok entries) :
    (entries.map (·.path.parts)).Nodup := by
  obtain ⟨place, hd, rfl⟩ := listBelow_eq_ok_iff.1 h
  have hways := nodup_parts_of_sublist ((fs.entriesBelow place).map (·.1)) hd ?_ ?_
  · rw [List.map_map] at hways ⊢
    exact hways
  · intro way hway
    obtain ⟨e, he, rfl⟩ := List.mem_map.1 hway
    exact ne_nil_of_mem_entriesBelow he
  · rw [List.map_map]
    exact entriesBelow_sublist fs place

theorem nodup_parts_filter (h : (entries.map (·.path.parts)).Nodup) (keep : Listed → Bool) :
    (((entries.filter keep).map (·.path)).map Path.parts).Nodup := by
  rw [List.map_map]
  exact h.sublist (List.filter_sublist.map _)

/-- Some of the entries of a listing are put in order in one way. -/
theorem sort_filter_eq_of_perm (h : (entries.map (·.path.parts)).Nodup) {entries' : List Listed}
    (hperm : entries.Perm entries') (keep : Listed → Bool) :
    Path.sort ((entries.filter keep).map (·.path)) =
      Path.sort ((entries'.filter keep).map (·.path)) :=
  Path.sort_eq_of_perm (nodup_parts_filter h keep) ((hperm.filter keep).map _)

/-- An entry is listed at the path of the directory continued by names. -/
theorem exists_way_of_mem_list (h : fs.list path = .ok entries) {e : Listed} (he : e ∈ entries) :
    path.text ≠ "" ∧
      ∃ way, way ≠ [] ∧ (∀ n ∈ way, Path.IsName n) ∧ e.path = path.descend way := by
  obtain ⟨place, hd, rfl⟩ := list_eq_ok_iff.1 h
  obtain ⟨d, hmem, rfl⟩ := List.mem_map.1 he
  refine ⟨text_ne_empty_of_directory hd, [d.1], List.cons_ne_nil _ _, ?_, rfl⟩
  exact isName_of_way ((entriesIn_sublist fs place).subset (List.mem_map_of_mem hmem))

theorem exists_way_of_mem_listBelow (h : fs.listBelow path = .ok entries) {e : Listed}
    (he : e ∈ entries) :
    path.text ≠ "" ∧
      ∃ way, way ≠ [] ∧ (∀ n ∈ way, Path.IsName n) ∧ e.path = path.descend way := by
  obtain ⟨place, hd, rfl⟩ := listBelow_eq_ok_iff.1 h
  obtain ⟨d, hmem, rfl⟩ := List.mem_map.1 he
  refine ⟨text_ne_empty_of_directory hd, d.1, ne_nil_of_mem_entriesBelow hmem, ?_, rfl⟩
  exact isName_of_way ((entriesBelow_sublist fs place).subset (List.mem_map_of_mem hmem))

end FileSystem

end PluginHost
