import PluginHost.Loader.Native
import PluginHost.Proofs.Path

/-!
# Types of extensions and their declarations

A type that the built-in loader accepts is a row of segments with points between them.  Its
declaration is the resource of the same row with slashes between them, behind which
".extension.json" stands (`Loader.Native.declarationResource_eq_ok_iff`).
-/

namespace PluginHost.Loader.Native

/-! ### Rows of segments -/

/-- Whether characters are a segment of a type. -/
def IsSegment (segment : List Char) : Prop :=
  segment ≠ [] ∧ ∀ c ∈ segment, isSegmentChar c = true

variable {start : Bool} {text path : List Char}

theorem typePath?_append {segment : List Char} (hsegment : ∀ c ∈ segment, isSegmentChar c = true)
    (hstart : start = true → segment ≠ []) :
    typePath? start (segment ++ text) =
      (typePath? (start && segment.isEmpty) text).map (segment ++ ·) := by
  induction segment generalizing start with
  | nil => cases start <;> simp_all
  | cons c segment ih =>
    obtain ⟨hc, hsegment⟩ := List.forall_mem_cons.1 hsegment
    have hpoint : c ≠ '.' := by
      rintro rfl
      exact absurd hc (by decide)
    have hnext : typePath? false (segment ++ text) = (typePath? false text).map (segment ++ ·) :=
      ih hsegment nofun
    rw [List.cons_append, typePath?, if_neg hpoint, if_pos hc, hnext]
    simp [Function.comp_def]

/-- A row of segments is taken, with slashes in place of its points. -/
theorem typePath?_intercalate {first : List Char} {rest : List (List Char)}
    (hstart : start = true → first ≠ []) (hfirst : ∀ c ∈ first, isSegmentChar c = true)
    (hrest : ∀ s ∈ rest, IsSegment s) :
    typePath? start (['.'].intercalate (first :: rest)) =
      some (['/'].intercalate (first :: rest)) := by
  have hempty : (start && first.isEmpty) = false := by
    cases start <;> simp_all
  induction rest generalizing first start with
  | nil =>
    have happend : typePath? start (first ++ []) = _ := typePath?_append hfirst hstart
    rw [hempty, List.append_nil] at happend
    simpa [typePath?] using happend
  | cons s rest ih =>
    obtain ⟨⟨hne, hs⟩, hrest⟩ := List.forall_mem_cons.1 hrest
    have hnext : typePath? true (['.'].intercalate (s :: rest)) = _ :=
      ih (fun _ => hne) hs hrest (by simpa using hne)
    rw [List.intercalate_cons_cons, List.intercalate_cons_cons, List.append_assoc,
      typePath?_append hfirst hstart, hempty, List.singleton_append, typePath?, if_pos rfl, hnext]
    simp

/-- What is taken is a row of segments, of which the first may be empty behind others. -/
theorem exists_of_typePath? (h : typePath? start text = some path) :
    ∃ first rest, (start = true → first ≠ []) ∧ (∀ c ∈ first, isSegmentChar c = true) ∧
      (∀ s ∈ rest, IsSegment s) ∧ text = ['.'].intercalate (first :: rest) ∧
      path = ['/'].intercalate (first :: rest) := by
  induction text generalizing start path with
  | nil =>
    cases start with
    | true => cases h
    | false =>
      cases h
      exact ⟨[], [], nofun, nofun, nofun, rfl, rfl⟩
  | cons c text ih =>
    rw [typePath?] at h
    split at h
    · next hc =>
      -- a point: the segment before it ends, and another has to follow
      subst hc
      split at h
      · cases h
      · next hstart =>
        obtain ⟨path, hpath, rfl⟩ := Option.map_eq_some_iff.1 h
        obtain ⟨first, rest, hne, hfirst, hrest, rfl, rfl⟩ := ih hpath
        refine ⟨[], first :: rest, fun hs => absurd hs hstart, nofun, ?_, by simp, by simp⟩
        exact List.forall_mem_cons.2 ⟨⟨hne rfl, hfirst⟩, hrest⟩
    · split at h
      · next hc =>
        obtain ⟨path, hpath, rfl⟩ := Option.map_eq_some_iff.1 h
        obtain ⟨first, rest, -, hfirst, hrest, rfl, rfl⟩ := ih hpath
        exact ⟨c :: first, rest, fun _ => List.cons_ne_nil _ _,
          List.forall_mem_cons.2 ⟨hc, hfirst⟩, hrest, by simp, by simp⟩
      · cases h

/-! ### Types -/

/-- Whether a type is a row of segments with points between them. -/
structure Dotted (type : String) (segments : List String) : Prop where
  nonempty : segments ≠ []
  segment : ∀ s ∈ segments, IsSegment s.toList
  eq : type = ".".intercalate segments

/-- The resource with the declaration of a type, by the segments of the type. -/
def resourceOf (segments : List String) : Path :=
  ⟨Path.joinNames segments ++ declarationSuffix⟩

theorem typePath?_eq_some_iff {type : String} :
    typePath? true type.toList = some path ↔
      ∃ segments, Dotted type segments ∧ path = (Path.joinNames segments).toList := by
  constructor
  · intro h
    obtain ⟨first, rest, hne, hfirst, hrest, htype, rfl⟩ := exists_of_typePath? h
    have hsegments : ∀ s ∈ first :: rest, IsSegment s :=
      List.forall_mem_cons.2 ⟨⟨hne rfl, hfirst⟩, hrest⟩
    have htexts : ((first :: rest).map String.ofList).map String.toList = first :: rest := by
      simp [Function.comp_def]
    refine ⟨(first :: rest).map String.ofList, ⟨List.cons_ne_nil _ _, fun s hs => ?_, ?_⟩, ?_⟩
    · obtain ⟨segment, hmem, rfl⟩ := List.mem_map.1 hs
      rw [String.toList_ofList]
      exact hsegments segment hmem
    · rw [← String.toList_inj, String.toList_intercalate, htexts]
      exact htype
    · rw [Path.joinNames, String.toList_intercalate, htexts]
      rfl
  · rintro ⟨segments, ⟨hne, hsegment, rfl⟩, rfl⟩
    rw [Path.joinNames, String.toList_intercalate, String.toList_intercalate]
    cases segments with
    | nil => exact absurd rfl hne
    | cons s rest =>
      obtain ⟨hs, hrest⟩ := List.forall_mem_cons.1 hsegment
      exact typePath?_intercalate (fun _ => hs.1) hs.2 (List.forall_mem_map.2 hrest)

/-- **A type has a declaration exactly if it is a row of segments with points between them.** -/
theorem declarationResource_eq_ok_iff {type : String} {resource : Path} :
    declarationResource type = .ok resource ↔
      ∃ segments, Dotted type segments ∧ resource = resourceOf segments := by
  have hpath : ∀ path, typePath? true type.toList = some path ↔
      ∃ segments, Dotted type segments ∧ path = (Path.joinNames segments).toList := fun _ =>
    typePath?_eq_some_iff
  unfold declarationResource
  cases h : typePath? true type.toList with
  | none =>
    refine ⟨nofun, ?_⟩
    rintro ⟨segments, hsegments, -⟩
    cases h.symm.trans ((hpath _).2 ⟨segments, hsegments, rfl⟩)
  | some path =>
    constructor
    · intro he
      cases he
      obtain ⟨segments, hsegments, rfl⟩ := (hpath path).1 h
      exact ⟨segments, hsegments, by rw [String.ofList_toList, resourceOf]⟩
    · rintro ⟨segments, hsegments, rfl⟩
      obtain rfl := Option.some.inj (h.symm.trans ((hpath _).2 ⟨segments, hsegments, rfl⟩))
      simp [resourceOf]

end PluginHost.Loader.Native
