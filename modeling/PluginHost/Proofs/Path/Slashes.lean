import Mathlib.Data.List.Induction
import Mathlib.Data.List.TakeWhile
import PluginHost.Proofs.Path

/-!
# Slashes at the end of a path

The last name of a path is what its text has before the slashes at the end and behind the slash
that precedes it (`Path.isLastComponent_iff`).  It is found by path arithmetic, too: the empty path
behind it, the last part taken away, and the file name of what is left
(`Path.fileName_parent_join_empty`).  More slashes at the end leave the names of a path as they are,
and those of a path that continues it (`Path.parts_join_withSlashes`), which only gets longer.
-/

namespace PluginHost

namespace Path

variable {p q : Path} {name : String}

/-! ### The last component -/

/-- Whether a name is the last component of a path, slashes at its end apart.  It is empty if there
is nothing but slashes. -/
def IsLastComponent (p : Path) (name : String) : Prop :=
  '/' ∉ name.toList ∧ ∃ above slashes,
    p.text.toList = above ++ name.toList ++ List.replicate slashes '/' ∧
      (above = [] ∨ name ≠ "" ∧ above.getLast? = some '/')

theorem namesOf_replicate_slash (slashes : Nat) : namesOf (List.replicate slashes '/') = [] := by
  induction slashes with
  | zero => rfl
  | succ slashes ih => exact (namesOf_append_slash [] _).trans ih

theorem namesOf_append_replicate_slash (text : List Char) (slashes : Nat) :
    namesOf (text ++ List.replicate slashes '/') = namesOf text := by
  cases slashes with
  | zero => simp
  | succ slashes =>
    rw [List.replicate_succ, namesOf_append_slash, namesOf_replicate_slash, List.append_nil]

theorem IsLastComponent.eq_lastName (h : p.IsLastComponent name) : name = p.lastName := by
  obtain ⟨hslash, above, slashes, htext, habove⟩ := h
  have hnames : p.parts.names = namesOf (above ++ name.toList) := by
    show namesOf p.text.toList = _
    rw [htext, namesOf_append_replicate_slash]
  unfold lastName
  rw [hnames]
  by_cases hname : name = ""
  · obtain rfl := habove.resolve_right fun hbehind => hbehind.1 hname
    subst hname
    rfl
  · have hlast := namesOf_toList ⟨hname, hslash⟩
    rcases habove with rfl | ⟨-, hend⟩
    · simp [hlast]
    · obtain ⟨front, rfl⟩ := List.getLast?_eq_some_iff.1 hend
      rw [List.append_assoc, List.singleton_append, namesOf_append_slash, hlast]
      simp

/-- Every text ends in a component and slashes behind it. -/
theorem exists_lastComponent (text : List Char) :
    ∃ above last slashes, text = above ++ last ++ List.replicate slashes '/' ∧ '/' ∉ last ∧
      (above = [] ∨ last ≠ [] ∧ above.getLast? = some '/') := by
  induction text using List.reverseRecOn with
  | nil => exact ⟨[], [], 0, rfl, List.not_mem_nil, .inl rfl⟩
  | append_singleton text c ih =>
    obtain ⟨above, last, slashes, rfl, hlast, habove⟩ := ih
    by_cases hc : c = '/'
    · refine ⟨above, last, slashes + 1, ?_, hlast, habove⟩
      rw [hc, List.replicate_succ', ← List.append_assoc]
    · cases slashes with
      | zero =>
        -- the component gets longer
        refine ⟨above, last ++ [c], 0, by simp, by simp [hlast, Ne.symm hc], ?_⟩
        exact habove.imp_right fun hbehind => ⟨by simp, hbehind.2⟩
      | succ slashes =>
        -- a new one begins
        refine ⟨above ++ last ++ List.replicate (slashes + 1) '/', [c], 0, by simp,
          by simp [Ne.symm hc], .inr ⟨by simp, ?_⟩⟩
        rw [List.replicate_succ', ← List.append_assoc, List.getLast?_concat]

/-- **The last name of a path is its last component**, and the only one. -/
theorem isLastComponent_iff : p.IsLastComponent name ↔ name = p.lastName := by
  refine ⟨IsLastComponent.eq_lastName, ?_⟩
  rintro rfl
  obtain ⟨above, last, slashes, htext, hlast, habove⟩ := exists_lastComponent p.text.toList
  have hcomponent : p.IsLastComponent (String.ofList last) := by
    refine ⟨by simpa using hlast, above, slashes, by simpa using htext, ?_⟩
    exact habove.imp_right fun hbehind => ⟨by simpa using hbehind.1, hbehind.2⟩
  exact hcomponent.eq_lastName ▸ hcomponent

theorem endsInName_iff : p.endsInName = true ↔ p.text ≠ "" ∧ p.text.toList.getLast? ≠ some '/' := by
  unfold endsInName
  rw [ne_eq, ← String.toList_eq_nil_iff, ← List.getLast?_eq_none_iff]
  cases p.text.toList.getLast? <;> simp

theorem lastName_ne_empty (h : p.endsInName = true) : p.lastName ≠ "" := by
  obtain ⟨hne, hend⟩ := endsInName_iff.1 h
  obtain ⟨-, above, slashes, htext, habove⟩ := isLastComponent_iff.2 (Eq.refl p.lastName)
  intro hname
  obtain rfl := habove.resolve_right fun hbehind => hbehind.1 hname
  rw [hname] at htext
  cases slashes with
  | zero => exact hne (String.toList_eq_nil_iff.1 htext)
  | succ slashes => simp [htext, List.replicate_succ'] at hend

/-! ### Path arithmetic -/

/-- What follows the last slash of a path. -/
def fileName (p : Path) : String :=
  String.ofList (p.text.toList.reverse.takeWhile (· ≠ '/')).reverse

theorem text_join_empty (p : Path) :
    (p / (⟨""⟩ : Path)).text = if p.endsInName then p.text ++ "/" else p.text := by
  show (join p ⟨""⟩).text = _
  unfold join
  split
  · next habs => cases habs
  · split <;> simp

/-- A directory's path has at least one slash at its end when the empty path is put behind it. -/
theorem exists_toList_join_empty {stem : List Char} {slashes : Nat}
    (h : p.text.toList = stem ++ List.replicate slashes '/') (hne : stem ≠ [])
    (hstem : stem.getLast? ≠ some '/') :
    ∃ more, (p / (⟨""⟩ : Path)).text.toList = stem ++ List.replicate (more + 1) '/' := by
  rw [text_join_empty]
  cases slashes with
  | zero =>
    rw [List.replicate_zero, List.append_nil] at h
    have hend : p.endsInName = true := by
      rw [endsInName_iff, h, ne_eq, ← String.toList_eq_nil_iff, h]
      exact ⟨hne, hstem⟩
    exact ⟨0, by simp [hend, h]⟩
  | succ slashes =>
    have hend : p.endsInName = false := by
      rw [Bool.eq_false_iff, ne_eq, endsInName_iff, h]
      simp [List.replicate_succ']
    exact ⟨slashes, by simp [hend, h]⟩

theorem text_parent_of_slashes {stem : List Char} {slashes : Nat}
    (h : p.text.toList = stem ++ List.replicate (slashes + 1) '/') (hne : stem ≠ [])
    (hstem : stem.getLast? ≠ some '/') : p.parent.text.toList = stem := by
  obtain ⟨last, above, hreverse⟩ := List.exists_cons_of_ne_nil (List.reverse_ne_nil_iff.2 hne)
  have hlast : last ≠ '/' := by
    rintro rfl
    rw [← List.head?_reverse, hreverse] at hstem
    exact hstem rfl
  have habove : (p.text.toList.reverse.dropWhile (· ≠ '/')).dropWhile (· = '/') = stem.reverse := by
    rw [h, List.reverse_append, List.reverse_replicate, hreverse, List.replicate_succ,
      List.cons_append, List.dropWhile_cons_of_neg (by simp), ← List.cons_append,
      ← List.replicate_succ, List.dropWhile_append_of_pos (by simp),
      List.dropWhile_cons_of_neg (by simpa using hlast)]
  unfold parent
  simp only [habove]
  rw [if_neg (by simp [hne]), String.toList_ofList, List.reverse_reverse]

/-- The file name of a path that does not end in slashes is its last component. -/
theorem fileName_of_toList_eq {above : List Char} (h : p.text.toList = above ++ name.toList)
    (hslash : '/' ∉ name.toList) (habove : above = [] ∨ above.getLast? = some '/') :
    p.fileName = name := by
  have hall : ∀ c ∈ name.toList.reverse, (decide (c ≠ '/')) = true := by
    intro c hc
    refine decide_eq_true fun he => hslash ?_
    exact he ▸ List.mem_reverse.1 hc
  have hstop : above.reverse.takeWhile (fun c => decide (c ≠ '/')) = [] := by
    rcases habove with rfl | hend
    · rfl
    · obtain ⟨front, rfl⟩ := List.getLast?_eq_some_iff.1 hend
      simp
  unfold fileName
  rw [h, List.reverse_append, List.takeWhile_append_of_pos hall, hstop, List.append_nil,
    List.reverse_reverse, String.ofList_toList]

/-- A path of slashes only has no file name, nor has what is above it. -/
theorem fileName_parent_of_replicate {slashes : Nat}
    (h : p.text.toList = List.replicate slashes '/') : p.parent.fileName = "" := by
  have habove : (p.text.toList.reverse.dropWhile (· ≠ '/')).dropWhile (· = '/') = [] := by
    refine List.dropWhile_eq_nil_iff.2 fun c hc => ?_
    have hmem : c ∈ List.replicate slashes '/' := by
      rw [← h]
      exact List.mem_reverse.1 ((List.dropWhile_sublist _).subset hc)
    simp [List.eq_of_mem_replicate hmem]
  unfold parent
  simp only [habove]
  split <;> rfl

/-- **The last name of a path is found by path arithmetic**: the empty path is put behind the path,
so that it ends in a slash, and the file name of what is above is taken. -/
theorem fileName_parent_join_empty (p : Path) :
    (p / (⟨""⟩ : Path)).parent.fileName = p.lastName := by
  obtain ⟨hslash, above, slashes, htext, habove⟩ := isLastComponent_iff.2 (Eq.refl p.lastName)
  by_cases hname : p.lastName = ""
  · obtain rfl := habove.resolve_right fun hbehind => hbehind.1 hname
    rw [hname] at htext ⊢
    have hend : p.endsInName = false := by
      rw [Bool.eq_false_iff, ne_eq, endsInName_iff, ne_eq, ← String.toList_eq_nil_iff, htext]
      cases slashes <;> simp [List.replicate_succ']
    have hjoin : (p / (⟨""⟩ : Path)).text.toList = List.replicate slashes '/' := by
      simp [text_join_empty, hend, htext]
    exact fileName_parent_of_replicate hjoin
  · have hne : p.lastName.toList ≠ [] := fun he => hname (String.toList_eq_nil_iff.1 he)
    have hstem : (above ++ p.lastName.toList).getLast? ≠ some '/' := by
      rw [List.getLast?_append_of_ne_nil _ hne]
      exact fun hend => hslash (List.mem_of_getLast? hend)
    have hstemNe : above ++ p.lastName.toList ≠ [] := by simp [hne]
    obtain ⟨more, hjoin⟩ := exists_toList_join_empty htext hstemNe hstem
    exact fileName_of_toList_eq (text_parent_of_slashes hjoin hstemNe hstem) hslash
      (habove.imp_right And.right)

/-! ### More slashes -/

/-- A path with so many slashes behind it. -/
def withSlashes (p : Path) : Nat → Path
  | 0 => p
  | slashes + 1 => ⟨(p.withSlashes slashes).text ++ "/"⟩

theorem toList_withSlashes (p : Path) (slashes : Nat) :
    (p.withSlashes slashes).text.toList = p.text.toList ++ List.replicate slashes '/' := by
  induction slashes with
  | zero => simp [withSlashes]
  | succ slashes ih => simp [withSlashes, ih, List.replicate_succ']

theorem size_withSlashes (p : Path) (slashes : Nat) :
    (p.withSlashes slashes).text.utf8ByteSize = p.text.utf8ByteSize + slashes := by
  have hslash : "/".utf8ByteSize = 1 := rfl
  induction slashes with
  | zero => rfl
  | succ slashes ih => rw [withSlashes, String.utf8ByteSize_append, ih, hslash, Nat.add_assoc]

theorem names_withSlashes (p : Path) (slashes : Nat) :
    (p.withSlashes slashes).parts.names = p.parts.names := by
  show namesOf (p.withSlashes slashes).text.toList = namesOf p.text.toList
  rw [toList_withSlashes, namesOf_append_replicate_slash]

theorem lastName_withSlashes (p : Path) (slashes : Nat) :
    (p.withSlashes slashes).lastName = p.lastName := by
  unfold lastName
  rw [names_withSlashes]

theorem rooted_withSlashes (hp : p.text ≠ "") (slashes : Nat) :
    (p.withSlashes slashes).parts.rooted = p.parts.rooted := by
  have hne : p.text.toList ≠ [] := fun he => hp (String.toList_eq_nil_iff.1 he)
  show decide ((p.withSlashes slashes).text.toList.head? = some '/') =
    decide (p.text.toList.head? = some '/')
  rw [toList_withSlashes, List.head?_append_of_ne_nil _ hne]

theorem text_withSlashes_ne_empty (hp : p.text ≠ "") (slashes : Nat) :
    (p.withSlashes slashes).text ≠ "" := by
  rw [ne_eq, ← String.toList_eq_nil_iff, toList_withSlashes]
  simp [hp]

/-- **A path that continues another has the same parts** behind more slashes. -/
theorem parts_join_withSlashes (hp : p.text ≠ "") (hq : q.isAbsolute = false)
    (hn : q.parts.names ≠ []) (slashes : Nat) :
    (p.withSlashes slashes / q).parts = (p / q).parts := by
  rw [parts_join (text_withSlashes_ne_empty hp slashes) hq hn, parts_join hp hq hn,
    rooted_withSlashes hp, names_withSlashes]

/-- The first slash is the one that stands there anyway. -/
theorem size_join_withSlashes (hp : p.endsInName = true) (hq : q.isAbsolute = false)
    (slashes : Nat) :
    (p.withSlashes slashes / q).text.utf8ByteSize =
      (p / q).text.utf8ByteSize + (slashes - 1) := by
  cases slashes with
  | zero => rfl
  | succ slashes =>
    have hslash : "/".utf8ByteSize = 1 := rfl
    have hend : (p.withSlashes (slashes + 1)).endsInName = false := by
      rw [Bool.eq_false_iff, ne_eq, endsInName_iff, toList_withSlashes]
      simp [List.replicate_succ']
    have hmore : (p.withSlashes (slashes + 1) / q).text =
        (p.withSlashes (slashes + 1)).text ++ q.text := by
      show (join _ _).text = _
      rw [join, hq, hend]
      rfl
    have hone : (p / q).text = p.text ++ "/" ++ q.text := by
      show (join _ _).text = _
      rw [join, hq, hp]
      rfl
    rw [hmore, hone, String.utf8ByteSize_append, String.utf8ByteSize_append,
      String.utf8ByteSize_append, size_withSlashes, hslash]
    omega

end Path

end PluginHost
