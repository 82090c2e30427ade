import Mathlib.Data.List.Basic
import PluginHost.Path

/-!
# Texts of paths and their parts

Writing the parts of a path and reading them back gives the same parts (`Path.parts_path`), and
a path continued by a relative one has the names of both (`Path.parts_join`).  The normal form
of a path is determined by the normal form of its parts (`Path.parts_normal`).
-/

namespace PluginHost

namespace Path

/-- Whether a text can stand between the slashes of a path. -/
def IsName (name : String) : Prop := name ≠ "" ∧ '/' ∉ name.toList

instance (name : String) : Decidable (IsName name) := inferInstanceAs (Decidable (_ ∧ _))

/-- Whether a name stands for itself: it is neither "." nor "..". -/
def IsPlain (name : String) : Prop := IsName name ∧ name ≠ "." ∧ name ≠ ".."

instance (name : String) : Decidable (IsPlain name) := inferInstanceAs (Decidable (_ ∧ _ ∧ _))

theorem isName_of_isPlain {names : List String} (h : ∀ n ∈ names, IsPlain n) :
    ∀ n ∈ names, IsName n := fun n hn => (h n hn).1

theorem forall_mem_append {names rest : List String} (h : ∀ n ∈ names, IsName n)
    (hr : ∀ n ∈ rest, IsName n) : ∀ n ∈ names ++ rest, IsName n := fun n hn =>
  (List.mem_append.1 hn).elim (h n) (hr n)

theorem isName_dot : IsName "." := by decide

theorem isName_dotDot : IsName ".." := by decide

/-! ### Pieces -/

theorem pieces_ne_nil (text : List Char) : pieces text ≠ [] := by
  cases text with
  | nil => simp [pieces]
  | cons c rest =>
    unfold pieces
    split
    · simp
    · split <;> simp

theorem slash_notMem_of_mem_pieces {text piece : List Char} (h : piece ∈ pieces text) :
    '/' ∉ piece := by
  induction text generalizing piece with
  | nil =>
    obtain rfl : piece = [] := by simpa [pieces] using h
    simp
  | cons c rest ih =>
    unfold pieces at h
    split at h
    · rcases List.mem_cons.1 h with rfl | h
      · simp
      · exact ih h
    · next hc =>
      split at h
      · next he => exact absurd he (pieces_ne_nil rest)
      · next first others he =>
        rw [he] at ih
        rcases List.mem_cons.1 h with rfl | h
        · have hfirst : '/' ∉ first := ih List.mem_cons_self
          simp [Ne.symm hc, hfirst]
        · exact ih (List.mem_cons_of_mem _ h)

/-- A slash separates the pieces before it from those behind it. -/
theorem pieces_append_slash (text rest : List Char) :
    pieces (text ++ '/' :: rest) = pieces text ++ pieces rest := by
  induction text with
  | nil => simp [pieces]
  | cons c text ih =>
    rw [List.cons_append, pieces, pieces, ih]
    split
    · rfl
    · cases hp : pieces text with
      | nil => exact absurd hp (pieces_ne_nil text)
      | cons first others => rfl

theorem pieces_of_notMem {text : List Char} (h : '/' ∉ text) : pieces text = [text] := by
  induction text with
  | nil => rfl
  | cons c rest ih =>
    rw [List.mem_cons, not_or] at h
    simp only [pieces, Ne.symm h.1, ↓reduceIte, ih h.2]

/-! ### Names -/

theorem namesOf_append_slash (text rest : List Char) :
    namesOf (text ++ '/' :: rest) = namesOf text ++ namesOf rest := by
  simp [namesOf, pieces_append_slash]

theorem isName_of_mem_namesOf {text : List Char} {name : String} (h : name ∈ namesOf text) :
    IsName name := by
  obtain ⟨piece, hp, rfl⟩ := List.mem_map.1 h
  obtain ⟨hmem, hne⟩ := List.mem_filter.1 hp
  refine ⟨?_, by simpa using slash_notMem_of_mem_pieces hmem⟩
  simpa [String.ofList_eq_empty_iff] using hne

theorem namesOf_toList {name : String} (h : IsName name) : namesOf name.toList = [name] := by
  have hne : name.toList ≠ [] := fun he => h.1 (String.toList_eq_nil_iff.1 he)
  simp [namesOf, pieces_of_notMem h.2, hne]

theorem namesOf_joinNames {names : List String} (h : ∀ name ∈ names, IsName name) :
    namesOf (joinNames names).toList = names := by
  induction names with
  | nil => rfl
  | cons name rest ih =>
    have hname := namesOf_toList (h name List.mem_cons_self)
    cases rest with
    | nil => simpa [joinNames] using hname
    | cons next others =>
      have hsplit : (joinNames (name :: next :: others)).toList =
          name.toList ++ '/' :: (joinNames (next :: others)).toList := by
        simp [joinNames]
      rw [hsplit, namesOf_append_slash, hname, ih fun n hn => h n (List.mem_cons_of_mem _ hn)]
      rfl

theorem joinNames_concat (names : List String) (name : String) :
    joinNames (names ++ [name]) =
      (if names = [] then "" else joinNames names ++ "/") ++ name := by
  by_cases h : names = []
  · simp [h, joinNames]
  · rw [if_neg h]
    exact String.intercalate_append_of_ne_nil h (by simp)

theorem getLast?_joinNames {names : List String} (h : ∀ name ∈ names, IsName name) :
    (joinNames names).toList.getLast? ≠ some '/' := by
  rcases List.eq_nil_or_concat names with rfl | ⟨init, last, rfl⟩
  · simp [joinNames]
  · rw [List.concat_eq_append] at h ⊢
    obtain ⟨hne, hs⟩ := h last (by simp)
    have hl : last.toList ≠ [] := fun he => hne (String.toList_eq_nil_iff.1 he)
    rw [joinNames_concat, String.toList_append, List.getLast?_append_of_ne_nil _ hl]
    exact fun hlast => hs (List.mem_of_getLast? hlast)

theorem head?_joinNames {names : List String} (h : ∀ name ∈ names, IsName name) :
    (joinNames names).toList.head? ≠ some '/' := by
  cases names with
  | nil => simp [joinNames]
  | cons name rest =>
    obtain ⟨hne, hs⟩ := h name List.mem_cons_self
    have hl : name.toList ≠ [] := fun he => hne (String.toList_eq_nil_iff.1 he)
    have hhead : (joinNames (name :: rest)).toList.head? = name.toList.head? := by
      cases rest with
      | nil => simp [joinNames]
      | cons next others => simp [joinNames, List.head?_append_of_ne_nil _ hl]
    rw [hhead]
    exact fun hh => hs (List.mem_of_head? hh)

/-! ### Parts -/

/-- Whether parts can be read off a path: they have names, and what stands between slashes is a
name. -/
structure Parts.Proper (q : Parts) : Prop where
  nonempty : q.names ≠ []
  names : ∀ name ∈ q.names, IsName name

theorem toList_path (q : Parts) : q.path.text.toList =
    (if q.rooted then ['/'] else []) ++ (joinNames q.names).toList ++
      if q.trailing then ['/'] else [] := by
  unfold Parts.path
  cases q.rooted <;> cases q.trailing <;> simp

theorem namesOf_path {q : Parts} (h : ∀ name ∈ q.names, IsName name) :
    namesOf q.path.text.toList = q.names := by
  have hslash : ∀ text, namesOf ('/' :: text) = namesOf text := fun text =>
    namesOf_append_slash [] text
  have hlast : ∀ text, namesOf (text ++ ['/']) = namesOf text := fun text =>
    (namesOf_append_slash text []).trans (List.append_nil _)
  rw [toList_path]
  cases q.rooted <;> cases q.trailing <;> simp [hslash, hlast, namesOf_joinNames h]

theorem Parts.Proper.joinNames_ne_nil {q : Parts} (h : q.Proper) :
    (joinNames q.names).toList ≠ [] := by
  intro he
  have hn := namesOf_joinNames h.names
  rw [he] at hn
  exact h.nonempty hn.symm

theorem isAbsolute_path {q : Parts} (h : q.Proper) : q.path.isAbsolute = q.rooted := by
  unfold isAbsolute
  rw [toList_path]
  cases q.rooted with
  | true => simp
  | false =>
    have hh := head?_joinNames h.names
    simpa [List.head?_append_of_ne_nil _ h.joinNames_ne_nil] using hh

theorem parts_path {q : Parts} (h : q.Proper) : q.path.parts = q := by
  obtain ⟨rooted, names, trailing⟩ := q
  have hnames := namesOf_path h.names
  have hrooted := isAbsolute_path h
  have hn : names.isEmpty = false := by simpa using h.nonempty
  simp only [parts, hnames, hrooted, hn, Bool.not_false, Bool.true_and, Parts.mk.injEq, true_and]
  rw [toList_path]
  cases trailing with
  | true => simp
  | false =>
    have hl := getLast?_joinNames h.names
    simpa [List.getLast?_append_of_ne_nil _ h.joinNames_ne_nil] using hl

theorem isName_of_mem_parts {p : Path} {name : String} (h : name ∈ p.parts.names) : IsName name :=
  isName_of_mem_namesOf h

/-! ### Continuing a path -/

/-- A path is continued behind a slash, which it may end with itself. -/
theorem exists_toList_join {p q : Path} (hp : p.text ≠ "") (hq : q.isAbsolute = false) :
    ∃ stem, (p / q).text.toList = stem ++ '/' :: q.text.toList ∧
      namesOf stem = p.parts.names ∧ (stem ++ ['/']).head? = p.text.toList.head? := by
  have hne : p.text.toList ≠ [] := fun he => hp (String.toList_eq_nil_iff.1 he)
  show ∃ stem, (join p q).text.toList = _ ∧ _
  unfold join
  simp only [hq, Bool.false_eq_true, ↓reduceIte]
  split
  · -- a slash is written between the two
    refine ⟨p.text.toList, by simp, rfl, ?_⟩
    rw [List.head?_append_of_ne_nil _ hne]
  · next he =>
    -- the last character of the first is the slash
    have hlast : p.text.toList.getLast? = some '/' := by
      unfold endsInName at he
      cases hl : p.text.toList.getLast? with
      | none => exact absurd (List.getLast?_eq_none_iff.1 hl) hne
      | some c => simpa [hl] using he
    obtain ⟨stem, hstem⟩ := List.getLast?_eq_some_iff.1 hlast
    refine ⟨stem, by simp [hstem], ?_, by rw [hstem]⟩
    show _ = namesOf p.text.toList
    rw [hstem, namesOf_append_slash]
    exact (List.append_nil _).symm

/-- **A path continued by a relative one has the names of both.** -/
theorem parts_join {p q : Path} (hp : p.text ≠ "") (hq : q.isAbsolute = false)
    (hn : q.parts.names ≠ []) :
    (p / q).parts =
      { rooted := p.parts.rooted, names := p.parts.names ++ q.parts.names,
        trailing := q.parts.trailing } := by
  obtain ⟨stem, htext, hstem, hhead⟩ := exists_toList_join hp hq
  have hnames : namesOf (p / q).text.toList = p.parts.names ++ q.parts.names := by
    rw [htext, namesOf_append_slash, hstem]
    rfl
  have hrooted : (p / q).isAbsolute = p.isAbsolute := by
    unfold isAbsolute
    rw [htext, ← hhead]
    cases stem <;> simp
  have hqne : q.text.toList ≠ [] := by
    intro he
    refine hn ?_
    show namesOf q.text.toList = []
    rw [he]
    rfl
  have hlast : (p / q).text.toList.getLast? = q.text.toList.getLast? := by
    rw [htext, List.getLast?_append_of_ne_nil _ (by simp), List.getLast?_cons_of_ne_nil hqne]
  have he : (p.parts.names ++ q.parts.names).isEmpty = false := by simp [hn]
  have heq : q.parts.names.isEmpty = false := by simpa using hn
  have htrailing : q.parts.trailing = decide (q.text.toList.getLast? = some '/') := by
    show (!q.parts.names.isEmpty && _) = _
    rw [heq]
    rfl
  rw [htrailing]
  simp only [parts] at hnames he ⊢
  simp only [hnames, he, hrooted, hlast, Bool.not_false, Bool.true_and]

/-! ### Normal forms -/

namespace Parts

@[simp]
theorem rooted_follow (q : Parts) (name : String) : (q.follow name).rooted = q.rooted := by
  unfold follow
  split
  · rfl
  · split
    · split
      · split <;> rfl
      · split <;> rfl
    · rfl

theorem isName_follow {q : Parts} (hq : ∀ n ∈ q.names, IsName n) {name : String}
    (hname : IsName name) : ∀ n ∈ (q.follow name).names, IsName n := by
  have hconcat : ∀ n ∈ q.names ++ [name], IsName n := by
    intro n hn
    rcases List.mem_append.1 hn with hn | hn
    · exact hq n hn
    · exact List.mem_singleton.1 hn ▸ hname
  unfold follow
  split
  · exact hq
  · split
    · next hup =>
      split
      · split
        · exact hq
        · simpa using isName_dotDot
      · split
        · exact hup ▸ hconcat
        · exact fun n hn => hq n (List.dropLast_subset _ hn)
    · exact hconcat

theorem rooted_foldl_follow (names : List String) (q : Parts) :
    (names.foldl follow q).rooted = q.rooted := by
  induction names generalizing q with
  | nil => rfl
  | cons name rest ih => rw [List.foldl_cons, ih, rooted_follow]

theorem isName_foldl_follow {names : List String} (hnames : ∀ n ∈ names, IsName n) {q : Parts}
    (hq : ∀ n ∈ q.names, IsName n) : ∀ n ∈ (names.foldl follow q).names, IsName n := by
  induction names generalizing q with
  | nil => exact hq
  | cons name rest ih =>
    exact ih (fun n hn => hnames n (List.mem_cons_of_mem _ hn))
      (isName_follow hq (hnames name List.mem_cons_self))

theorem isName_of_mem_steps {q : Parts} (hq : ∀ n ∈ q.names, IsName n) :
    ∀ n ∈ q.steps, IsName n := by
  intro n hn
  rcases List.mem_append.1 hn with hn | hn
  · exact hq n hn
  · split at hn
    · exact List.mem_singleton.1 hn ▸ isName_dot
    · cases hn

theorem rooted_normal (q : Parts) : q.normal.rooted = q.rooted := by
  have hr := rooted_foldl_follow q.steps { rooted := q.rooted, names := [], trailing := false }
  simp only [normal]
  split
  · split <;> exact hr
  · split <;> exact hr

theorem isName_normal {q : Parts} (hq : ∀ n ∈ q.names, IsName n) :
    ∀ n ∈ q.normal.names, IsName n := by
  have hf := isName_foldl_follow (isName_of_mem_steps hq)
    (q := { rooted := q.rooted, names := [], trailing := false }) (by simp)
  simp only [normal]
  split
  · split
    · exact hf
    · simpa using isName_dot
  · split <;> exact hf

theorem proper_normal {q : Parts} (hq : ∀ n ∈ q.names, IsName n) (hr : q.rooted = false) :
    q.normal.Proper := by
  refine ⟨?_, isName_normal hq⟩
  have hf : ¬ (q.steps.foldl follow
      { rooted := q.rooted, names := [], trailing := false }).rooted = true := by
    rw [rooted_foldl_follow, hr]
    simp
  simp only [normal]
  split
  · simp
  · next hne => split <;> simpa using hne

theorem foldl_follow_plain {names : List String} (h : ∀ n ∈ names, IsPlain n)
    {q : Parts} (hq : q.trailing = false) :
    names.foldl follow q = { q with names := q.names ++ names } := by
  induction names generalizing q with
  | nil => simp
  | cons name rest ih =>
    obtain ⟨-, hdot, hup⟩ := h name List.mem_cons_self
    have hstep : q.follow name = { q with names := q.names ++ [name] } := by
      simp only [follow, hdot, hup, ↓reduceIte, hq]
    rw [List.foldl_cons, hstep]
    refine (ih (fun n hn => h n (List.mem_cons_of_mem _ hn))
      (q := { q with names := q.names ++ [name] }) hq).trans ?_
    simp

theorem normal_plain {names : List String} (hne : names ≠ []) (h : ∀ n ∈ names, IsPlain n) :
    normal { rooted := false, names, trailing := false } =
      { rooted := false, names, trailing := false } := by
  have hlast : names.getLast? ≠ some ".." := fun hl => (h _ (List.mem_of_getLast? hl)).2.2 rfl
  simp [normal, steps, foldl_follow_plain h, hne, hlast]

end Parts

theorem isAbsolute_normal {p : Path} (hp : p.text ≠ "") : p.normal.isAbsolute = p.isAbsolute := by
  have hr := p.parts.rooted_normal
  rw [normal, if_neg hp]
  cases h : p.isAbsolute with
  | false =>
    have hproper := Parts.proper_normal (fun _ => isName_of_mem_parts) h
    rw [isAbsolute_path hproper, hr]
    exact h
  | true =>
    have hroot : p.parts.normal.rooted = true := hr.trans h
    unfold isAbsolute
    rw [toList_path, hroot]
    simp

/-- **The normal form of a relative path has the normal parts.** -/
theorem parts_normal {p : Path} (hp : p.text ≠ "") (hr : p.isAbsolute = false) :
    p.normal.parts = p.parts.normal := by
  rw [normal, if_neg hp]
  exact parts_path (Parts.proper_normal (fun _ => isName_of_mem_parts) hr)

/-- The path of a row of names. -/
def ofNames (names : List String) : Path := ⟨joinNames names⟩

theorem path_eq_ofNames (names : List String) :
    Parts.path { rooted := false, names, trailing := false } = ofNames names := by
  simp [Parts.path, ofNames]

theorem parts_ofNames {names : List String} (hne : names ≠ []) (h : ∀ n ∈ names, IsName n) :
    (ofNames names).parts = { rooted := false, names, trailing := false } := by
  rw [← path_eq_ofNames]
  exact parts_path ⟨hne, h⟩

theorem text_ofNames_ne_empty {names : List String} (hne : names ≠ [])
    (h : ∀ n ∈ names, IsName n) : (ofNames names).text ≠ "" := by
  intro he
  have hp : (ofNames names).parts.names = names := by rw [parts_ofNames hne h]
  refine hne (hp.symm.trans ?_)
  show namesOf (ofNames names).text.toList = []
  rw [he]
  rfl

theorem ofNames_join {names rest : List String} (hne : names ≠ []) (hrest : rest ≠ [])
    (h : ∀ n ∈ names, IsName n) (hr : ∀ n ∈ rest, IsName n) :
    ofNames names / ofNames rest = ofNames (names ++ rest) := by
  have hrel : (ofNames rest).isAbsolute = false := by
    show (ofNames rest).parts.rooted = false
    rw [parts_ofNames hrest hr]
  have hends : (ofNames names).endsInName = true := by
    have hl := getLast?_joinNames h
    have htext : (joinNames names).toList ≠ [] := fun he =>
      text_ofNames_ne_empty hne h (String.toList_eq_nil_iff.1 he)
    unfold endsInName ofNames
    cases hlast : (joinNames names).toList.getLast? with
    | none => exact absurd (List.getLast?_eq_none_iff.1 hlast) htext
    | some c => simpa [hlast] using hl
  show join (ofNames names) (ofNames rest) = _
  rw [join, hrel, hends]
  simp [ofNames, joinNames, String.intercalate_append_of_ne_nil hne hrest]

theorem normal_ofNames {names : List String} (hne : names ≠ []) (h : ∀ n ∈ names, IsPlain n) :
    (ofNames names).normal = ofNames names := by
  have hname := isName_of_isPlain h
  rw [normal, if_neg (text_ofNames_ne_empty hne hname), parts_ofNames hne hname,
    Parts.normal_plain hne h, path_eq_ofNames]

theorem join_normal_ofNames {names rest : List String} (hne : names ≠ []) (hrest : rest ≠ [])
    (h : ∀ n ∈ names, IsName n) (hr : ∀ n ∈ rest, IsPlain n) :
    ofNames names / (ofNames rest).normal = ofNames (names ++ rest) := by
  rw [normal_ofNames hrest hr, ofNames_join hne hrest h (isName_of_isPlain hr)]

end Path

end PluginHost
