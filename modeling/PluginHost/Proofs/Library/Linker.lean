import PluginHost.Library.Basic
import PluginHost.Proofs.Path

/-!
# Two spellings of one path

Paths with the same parts may be written differently, with more slashes or fewer.  The linker
replaces references within names, so such paths stay alike (`Linker.parts_expand_eq`), and they
are the same shared object if neither is too long to be followed
(`Library.sharedObject_eq_of_parts_eq`).  What a file is may also depend on the libraries that are
mapped when it is opened; a linker for which these do not open any file is `Linker.Unaided`.
-/

namespace PluginHost

/-! ### Paths with slashes -/

namespace Path

variable {p q : Path}

theorem namesOf_of_notMem {text : List Char} (h : '/' ∉ text) (hne : text ≠ []) :
    namesOf text = [String.ofList text] := by
  have hname : IsName (String.ofList text) := by
    refine ⟨fun he => hne (String.ofList_eq_empty_iff.1 he), ?_⟩
    rwa [String.toList_ofList]
  have hnames := namesOf_toList hname
  rwa [String.toList_ofList] at hnames

/-- What precedes the first slash is the first name, or nothing if the path is absolute. -/
theorem exists_toList_first (h : '/' ∈ p.text.toList) :
    ∃ rest, p.text.toList =
      (if p.parts.rooted then [] else (p.parts.names.head?.getD "").toList) ++ '/' :: rest := by
  obtain ⟨first, rest, htext, hfirst⟩ := List.eq_append_cons_of_mem h
  refine ⟨rest, ?_⟩
  have hnames : p.parts.names = namesOf first ++ namesOf rest := by
    show namesOf p.text.toList = _
    rw [htext, namesOf_append_slash]
  have hrooted : p.parts.rooted = decide ((first ++ '/' :: rest).head? = some '/') := by
    show decide (p.text.toList.head? = some '/') = _
    rw [htext]
  cases first with
  | nil => simp [htext, hrooted]
  | cons c first =>
    have hc : c ≠ '/' := fun he => hfirst (he ▸ List.mem_cons_self)
    rw [htext, hnames, hrooted, namesOf_of_notMem hfirst (List.cons_ne_nil _ _)]
    simp [hc]

/-- What follows the last slash is the last name, unless a slash follows that. -/
theorem exists_toList_last (h : '/' ∈ p.text.toList) (ht : p.parts.trailing = false) :
    ∃ front, p.text.toList = front ++ '/' :: p.lastName.toList := by
  obtain ⟨last, front, htext, hlast⟩ := List.eq_append_cons_of_mem (List.mem_reverse.2 h)
  have htext' : p.text.toList = front.reverse ++ '/' :: last.reverse := by
    rw [← p.text.toList.reverse_reverse, htext]
    simp
  refine ⟨front.reverse, ?_⟩
  have hnames : p.parts.names = namesOf front.reverse ++ namesOf last.reverse := by
    show namesOf p.text.toList = _
    rw [htext', namesOf_append_slash]
  by_cases hl : last = []
  · -- a slash ends the text, so there are only slashes
    subst hl
    have hend : p.text.toList.getLast? = some '/' := by simp [htext']
    have hempty : p.parts.names = [] := by
      have hflag : (!p.parts.names.isEmpty && decide (p.text.toList.getLast? = some '/')) = false :=
        ht
      simpa [hend] using hflag
    simp [htext', lastName, hempty]
  · have hlast' : '/' ∉ last.reverse := fun hm => hlast (List.mem_reverse.1 hm)
    rw [namesOf_of_notMem hlast' (by simpa using hl)] at hnames
    simp [htext', lastName, hnames]

end Path

/-! ### References -/

namespace Linker

variable {linker : Linker} {name text rest : List Char}

theorem named_nil : ∀ v ∈ ([] : List (String × String)), '/' ∉ v.1.toList := by simp

theorem isPrefixOf_append_slash (h : '/' ∉ name) (text rest : List Char) :
    name.isPrefixOf (text ++ '/' :: rest) = name.isPrefixOf text := by
  induction name generalizing text with
  | nil => rfl
  | cons c name ih =>
    rw [List.mem_cons, not_or] at h
    cases text with
    | nil =>
      have hc : (c == '/') = false := by simpa using Ne.symm h.1
      simp [List.isPrefixOf, hc]
    | cons d text => simp only [List.cons_append, List.isPrefixOf, ih h.2]

theorem length_le_of_isPrefixOf (h : name.isPrefixOf text = true) : name.length ≤ text.length :=
  (List.isPrefixOf_iff_prefix.1 h).length_le

/-- A slash ends a reference as the end of the text does. -/
theorem referenceLength?_append_slash (h : '/' ∉ name) (text rest : List Char) :
    referenceLength? name (text ++ '/' :: rest) = referenceLength? name text := by
  have hbare : ∀ text : List Char,
      (if name.isPrefixOf (text ++ '/' :: rest) ∧
          ¬ ((text ++ '/' :: rest).drop name.length).head?.any
            (fun c => c.isAlphanum || c = '_') then some name.length else none) =
        if name.isPrefixOf text ∧
          ¬ (text.drop name.length).head?.any (fun c => c.isAlphanum || c = '_') then
        some name.length else none := by
    intro text
    rw [isPrefixOf_append_slash h]
    by_cases hp : name.isPrefixOf text = true
    · rw [List.drop_append_of_le_length (length_le_of_isPrefixOf hp), List.head?_append]
      cases (text.drop name.length).head? with
      | some c => rfl
      | none => simp
    · simp [hp]
  cases text with
  | nil => exact hbare []
  | cons c text =>
    by_cases hc : c = '\x7b'
    · subst hc
      have hbraced : '/' ∉ name ++ ['\x7d'] := by simp [h]
      simp only [referenceLength?, List.cons_append, isPrefixOf_append_slash hbraced]
    · simpa [referenceLength?, hc] using hbare (c :: text)

theorem le_length_of_referenceLength? {length : Nat}
    (h : referenceLength? name text = some length) : length ≤ text.length := by
  unfold referenceLength? at h
  split at h
  · split at h
    · next hp =>
      obtain rfl := Option.some.inj h
      have hl := length_le_of_isPrefixOf hp
      simp only [List.length_append, List.length_cons] at hl ⊢
      omega
    · cases h
  · split at h
    · next hp =>
      obtain rfl := Option.some.inj h
      exact length_le_of_isPrefixOf hp.1
    · cases h

theorem reference?_append_slash (linker : Linker) (text rest : List Char) :
    linker.reference? (text ++ '/' :: rest) = linker.reference? text := by
  unfold reference?
  rw [← List.head?_filterMap, ← List.head?_filterMap]
  refine congrArg List.head? (List.filterMap_congr fun v hv => ?_)
  rw [referenceLength?_append_slash (linker.named v hv)]

theorem le_length_of_reference? {value : String} {length : Nat}
    (h : linker.reference? text = some (value, length)) : length ≤ text.length := by
  obtain ⟨v, hv, hsome⟩ := List.exists_of_findSome?_eq_some h
  obtain ⟨n, hn, heq⟩ := Option.map_eq_some_iff.1 hsome
  obtain rfl := (Prod.mk.inj heq).2
  exact le_length_of_referenceLength? hn

/-! ### Expansion -/

theorem expandFrom_cons (linker : Linker) (c : Char) (text : List Char) :
    linker.expandFrom 0 (c :: text) =
      if c = '$' then
        match linker.reference? text with
        | some (value, length) => value.toList ++ linker.expandFrom length text
        | none => c :: linker.expandFrom 0 text
      else c :: linker.expandFrom 0 text := rfl

/-- **Expansion leaves slashes where they are** and goes on behind each as at the start. -/
theorem expandFrom_append_slash (linker : Linker) {skip : Nat} (h : skip ≤ text.length)
    (rest : List Char) :
    linker.expandFrom skip (text ++ '/' :: rest) =
      linker.expandFrom skip text ++ '/' :: linker.expandFrom 0 rest := by
  induction text generalizing skip with
  | nil =>
    obtain rfl : skip = 0 := Nat.le_zero.1 h
    exact expandFrom_cons linker '/' rest
  | cons c text ih =>
    cases skip with
    | succ skip => exact ih (Nat.le_of_succ_le_succ h)
    | zero =>
      rw [List.cons_append, expandFrom_cons, expandFrom_cons, reference?_append_slash]
      by_cases hc : c = '$'
      · rw [if_pos hc, if_pos hc]
        cases hr : linker.reference? text with
        | none => exact congrArg _ (ih (Nat.zero_le _))
        | some reference =>
          obtain ⟨value, length⟩ := reference
          dsimp only
          rw [ih (le_length_of_reference? hr), List.append_assoc]
      · rw [if_neg hc, if_neg hc, ih (Nat.zero_le _), List.cons_append]

theorem expand_of_values_eq_nil (h : linker.values = []) (path : Path) :
    linker.expand path = path := by
  have hnone : ∀ text, linker.reference? text = none := by
    intro text
    simp [reference?, h]
  have htext : ∀ text, linker.expandFrom 0 text = text := by
    intro text
    induction text with
    | nil => rfl
    | cons c rest ih => simp [expandFrom_cons, hnone, ih]
  unfold expand
  rw [htext, String.ofList_toList]

/-- The names of a text with values in place of the references are those that its names give. -/
theorem namesOf_expandFrom (linker : Linker) (text : List Char) :
    Path.namesOf (linker.expandFrom 0 text) =
      (Path.namesOf text).flatMap fun name => Path.namesOf (linker.expandFrom 0 name.toList) := by
  have hplain : ∀ piece : List Char, '/' ∉ piece → Path.namesOf (linker.expandFrom 0 piece) =
      (Path.namesOf piece).flatMap fun name =>
        Path.namesOf (linker.expandFrom 0 name.toList) := by
    intro piece hpiece
    by_cases hne : piece = []
    · subst hne
      rfl
    · simp [Path.namesOf_of_notMem hpiece hne]
  by_cases h : '/' ∈ text
  · obtain ⟨first, rest, htext, hfirst⟩ := List.eq_append_cons_of_mem h
    have ih := namesOf_expandFrom linker rest
    rw [htext, expandFrom_append_slash linker (Nat.zero_le _), Path.namesOf_append_slash,
      Path.namesOf_append_slash, List.flatMap_append, ih, hplain first hfirst]
  · exact hplain text h
termination_by text.length
decreasing_by
  rw [htext, List.length_append, List.length_cons]
  omega

variable {p q : Path}

/-- **Paths with the same parts stay so** when references are replaced. -/
theorem parts_expand_eq (linker : Linker) (h : p.parts = q.parts) (hp : '/' ∈ p.text.toList)
    (hq : '/' ∈ q.text.toList) (ht : p.parts.trailing = false) :
    (linker.expand p).parts = (linker.expand q).parts := by
  have htoList : ∀ path : Path, (linker.expand path).text.toList =
      linker.expandFrom 0 path.text.toList := fun path => String.toList_ofList
  have hnames : Path.namesOf (linker.expand p).text.toList =
      Path.namesOf (linker.expand q).text.toList := by
    have hnames' : Path.namesOf p.text.toList = Path.namesOf q.text.toList :=
      congrArg Path.Parts.names h
    rw [htoList, htoList, namesOf_expandFrom, namesOf_expandFrom, hnames']
  have hhead : (linker.expand p).text.toList.head? = (linker.expand q).text.toList.head? := by
    obtain ⟨rest, hrest⟩ := Path.exists_toList_first hp
    obtain ⟨rest', hrest'⟩ := Path.exists_toList_first hq
    rw [htoList, htoList, hrest, hrest', h, expandFrom_append_slash linker (Nat.zero_le _),
      expandFrom_append_slash linker (Nat.zero_le _), List.head?_append, List.head?_append]
    rfl
  have hlast : (linker.expand p).text.toList.getLast? =
      (linker.expand q).text.toList.getLast? := by
    obtain ⟨front, hfront⟩ := Path.exists_toList_last hp ht
    obtain ⟨front', hfront'⟩ := Path.exists_toList_last hq (h ▸ ht)
    have hname : p.lastName = q.lastName := by
      unfold Path.lastName
      rw [h]
    rw [htoList, htoList, hfront, hfront', hname, expandFrom_append_slash linker (Nat.zero_le _),
      expandFrom_append_slash linker (Nat.zero_le _), List.getLast?_append_cons,
      List.getLast?_append_cons]
  unfold Path.parts Path.isAbsolute
  rw [hnames, hhead, hlast]

theorem text_expand_ne_empty (linker : Linker) (hp : '/' ∈ p.text.toList) :
    (linker.expand p).text ≠ "" := by
  obtain ⟨front, rest, htext⟩ := List.append_of_mem hp
  intro he
  have hempty : linker.expandFrom 0 p.text.toList = [] := String.ofList_eq_empty_iff.1 he
  rw [htext, expandFrom_append_slash linker (Nat.zero_le _)] at hempty
  simp at hempty

end Linker

/-! ### Shared objects -/

/-- Whether mapped libraries never open a file to the linker: what is a library beside more of
them is the same library beside fewer. -/
def Linker.Unaided (linker : Linker) : Prop :=
  ∀ fewer more : List Path, fewer ⊆ more → ∀ content image,
    linker.ofContent more content = .library image → linker.ofContent fewer content = .library image

namespace FileSystem

variable {fs : FileSystem} {p q : Path}

/-- Paths with the same parts lead to the same, unless one of them is too long. -/
theorem status_eq_of_parts_eq (h : p.parts = q.parts) (hp : p.text ≠ "") (hq : q.text ≠ "")
    (hlp : p.text.utf8ByteSize ≤ pathLimit) (hlq : q.text.utf8ByteSize ≤ pathLimit) :
    fs.status p = fs.status q := by
  have habs : p.isAbsolute = q.isAbsolute := congrArg Path.Parts.rooted h
  unfold status resolve start
  rw [if_neg hp, if_neg hq, if_neg (Nat.not_lt.2 hlp), if_neg (Nat.not_lt.2 hlq), h, habs]

theorem status_of_pathLimit_lt (hp : p.text ≠ "") (h : pathLimit < p.text.utf8ByteSize) :
    fs.status p = .error .tooLong := by
  unfold status resolve
  rw [if_neg hp, if_pos h]
  rfl

end FileSystem

namespace Library

variable {files : FileSystem} {linker : Linker} {p q : Path} {mapped : List Path}
  {image : LibraryImage}

/-- The spelling of a path does not matter to the linker, unless a spelling is too long. -/
theorem sharedObject_eq_of_parts_eq (h : p.parts = q.parts) (hp : '/' ∈ p.text.toList)
    (hq : '/' ∈ q.text.toList) (ht : p.parts.trailing = false)
    (hlp : (linker.expand p).text.utf8ByteSize ≤ FileSystem.pathLimit)
    (hlq : (linker.expand q).text.utf8ByteSize ≤ FileSystem.pathLimit) :
    sharedObject files linker mapped p = sharedObject files linker mapped q := by
  have hne : ∀ {path : Path}, '/' ∈ path.text.toList → path.text ≠ "" := by
    intro path hmem he
    simp [he] at hmem
  have hstatus := files.status_eq_of_parts_eq (linker.parts_expand_eq h hp hq ht)
    (linker.text_expand_ne_empty hp) (linker.text_expand_ne_empty hq) hlp hlq
  unfold sharedObject
  rw [if_neg (hne hp), if_neg (hne hq), if_pos hp, if_pos hq, hstatus]

theorem exists_content_of_library (hp : '/' ∈ p.text.toList)
    (h : sharedObject files linker mapped p = .library image) :
    ∃ content, linker.ofContent mapped content = .library image := by
  unfold sharedObject at h
  rw [if_pos hp] at h
  split at h
  · cases h
  · split at h
    · exact ⟨_, h⟩
    · cases h
    · cases h

theorem sharedObject_of_pathLimit_lt (files : FileSystem) (mapped : List Path)
    (hp : '/' ∈ p.text.toList) (h : FileSystem.pathLimit < (linker.expand p).text.utf8ByteSize) :
    ∃ reason, sharedObject files linker mapped p = .unloadable reason := by
  have hne : p.text ≠ "" := fun he => by simp [he] at hp
  have hstatus := files.status_of_pathLimit_lt (linker.text_expand_ne_empty hp) h
  unfold sharedObject
  rw [if_neg hne, if_pos hp, hstatus]
  exact ⟨_, rfl⟩

/-- What the linker opens beside some libraries it opens beside fewer, unless it is aided. -/
theorem sharedObject_library_of_subset {fewer more : List Path} (hl : linker.Unaided)
    (hmapped : fewer ⊆ more) (hp : '/' ∈ p.text.toList)
    (h : sharedObject files linker more p = .library image) :
    sharedObject files linker fewer p = .library image := by
  have hne : p.text ≠ "" := fun he => by simp [he] at hp
  unfold sharedObject at h ⊢
  rw [if_neg hne, if_pos hp] at h ⊢
  cases hs : files.status (linker.expand p) with
  | error e => simp [hs] at h
  | ok entry =>
    cases entry with
    | file content =>
      rw [hs] at h
      exact hl fewer more hmapped content image h
    | directory => simp [hs] at h
    | link _ => simp [hs] at h

/-- **A library is the same at every spelling of its path** that is not too long, also beside
fewer libraries. -/
theorem sharedObject_library_of_parts_eq {fewer more : List Path} (hl : linker.Unaided)
    (hmapped : fewer ⊆ more) (h : p.parts = q.parts)
    (hp : '/' ∈ p.text.toList) (hq : '/' ∈ q.text.toList) (ht : p.parts.trailing = false)
    (hlimit : (linker.expand q).text.utf8ByteSize ≤ FileSystem.pathLimit →
      (linker.expand p).text.utf8ByteSize ≤ FileSystem.pathLimit)
    (hlibrary : sharedObject files linker more q = .library image) :
    sharedObject files linker fewer p = .library image := by
  by_cases hlq : (linker.expand q).text.utf8ByteSize ≤ FileSystem.pathLimit
  · rw [sharedObject_eq_of_parts_eq h hp hq ht (hlimit hlq) hlq]
    exact sharedObject_library_of_subset hl hmapped hq hlibrary
  · obtain ⟨reason, hreason⟩ := sharedObject_of_pathLimit_lt files more hq (Nat.lt_of_not_le hlq)
    exact nomatch hreason.symm.trans hlibrary

end Library

end PluginHost
