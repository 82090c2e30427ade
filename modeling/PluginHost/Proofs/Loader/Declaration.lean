import PluginHost.Proofs.Loader.Types
import PluginHost.Proofs.LoadingContext
import PluginHost.Proofs.Text.Bytes

/-!
# Where a type is declared

The built-in loader takes a row of bytes as a type exactly if it is a row of segments with points
between them, of ASCII letters, digits, "_", "$" and "-" (`Loader.Native.IsDotted`).  The resource
that declares a type names it: the type is what stands in front of the suffix, with points in place
of the slashes.  The path of the resource is in normal form and below where it starts, so it is
looked for at this path below the plugin's root and nowhere else
(`Loader.Native.declarationResource_ofBytes`).
-/

namespace PluginHost.Loader.Native

/-! ### Types as rows of bytes -/

/-- Whether a byte may stand in a segment of a type. -/
def IsSegmentByte (b : UInt8) : Prop :=
  ('A'.toUInt8 ≤ b ∧ b ≤ 'Z'.toUInt8) ∨ ('a'.toUInt8 ≤ b ∧ b ≤ 'z'.toUInt8) ∨
    ('0'.toUInt8 ≤ b ∧ b ≤ '9'.toUInt8) ∨ b = '_'.toUInt8 ∨ b = '$'.toUInt8 ∨ b = '-'.toUInt8

/-- Whether bytes are a row of segments with points between them. -/
structure IsDotted (bytes : List UInt8) (segments : List (List UInt8)) : Prop where
  nonempty : segments ≠ []
  segment : ∀ s ∈ segments, s ≠ [] ∧ ∀ b ∈ s, IsSegmentByte b
  eq : bytes = ['.'.toUInt8].intercalate segments

variable {bytes : List UInt8} {type : String} {segments : List String}

theorem isSegmentChar_iff {c : Char} :
    isSegmentChar c = true ↔
      ('A' ≤ c ∧ c ≤ 'Z') ∨ ('a' ≤ c ∧ c ≤ 'z') ∨ ('0' ≤ c ∧ c ≤ '9') ∨ c = '_' ∨ c = '$' ∨
        c = '-' := by
  have hupper : c.isUpper = true ↔ 'A' ≤ c ∧ c ≤ 'Z' := decide_eq_true_iff
  have hlower : c.isLower = true ↔ 'a' ≤ c ∧ c ≤ 'z' :=
    Bool.and_eq_true_iff.trans (and_congr decide_eq_true_iff decide_eq_true_iff)
  have hdigit : c.isDigit = true ↔ '0' ≤ c ∧ c ≤ '9' :=
    Bool.and_eq_true_iff.trans (and_congr decide_eq_true_iff decide_eq_true_iff)
  show ((((c.isUpper || c.isLower) || c.isDigit) || decide (c = '_') || decide (c = '$') ||
    decide (c = '-')) = true) ↔ _
  simp only [Bool.or_eq_true, hupper, hlower, hdigit, decide_eq_true_eq, or_assoc]

theorem isSegmentChar_ofUInt8_iff {b : UInt8} :
    isSegmentChar (Char.ofUInt8 b) = true ↔ IsSegmentByte b := by
  rw [isSegmentChar_iff]
  simp (disch := decide) only [Text.le_ofUInt8_iff, Text.ofUInt8_le_iff, Text.ofUInt8_eq_iff]
  rfl

theorem toNat_lt_of_isSegmentChar {c : Char} (h : isSegmentChar c = true) : c.toNat < 128 := by
  rcases isSegmentChar_iff.1 h with ⟨-, hle⟩ | ⟨-, hle⟩ | ⟨-, hle⟩ | rfl | rfl | rfl
  · exact Text.toNat_lt_of_le hle (by decide)
  · exact Text.toNat_lt_of_le hle (by decide)
  · exact Text.toNat_lt_of_le hle (by decide)
  · decide
  · decide
  · decide

theorem isSegment_ofBytes_iff :
    IsSegment (Text.ofBytes bytes).toList ↔ bytes ≠ [] ∧ ∀ b ∈ bytes, IsSegmentByte b := by
  rw [IsSegment, Text.toList_ofBytes, Ne, List.map_eq_nil_iff, List.forall_mem_map]
  simp only [isSegmentChar_ofUInt8_iff]

theorem Dotted.toList_eq (h : Dotted type segments) :
    type.toList = ['.'].intercalate (segments.map String.toList) := by
  rw [h.eq, String.toList_intercalate]
  rfl

theorem Dotted.isAscii (h : Dotted type segments) : Text.IsAscii type := by
  intro c hc
  rw [h.toList_eq] at hc
  rcases Text.mem_of_mem_intercalate hc with rfl | ⟨_, hpart, hmem⟩
  · decide
  · obtain ⟨s, hs, rfl⟩ := List.mem_map.1 hpart
    exact toNat_lt_of_isSegmentChar ((h.segment s hs).2 c hmem)

theorem isAscii_of_isSegment {s : String} (h : IsSegment s.toList) : Text.IsAscii s := fun c hc =>
  toNat_lt_of_isSegmentChar (h.2 c hc)

theorem intercalate_map_ofBytes (parts : List (List UInt8)) :
    ".".intercalate (parts.map Text.ofBytes) = Text.ofBytes (['.'.toUInt8].intercalate parts) := by
  rw [← String.toList_inj, String.toList_intercalate, Text.toList_ofBytes, Text.map_intercalate,
    List.map_map]
  simp only [Function.comp_def, Text.toList_ofBytes]
  rfl

/-- The rows of bytes that are types are those of segments with points between them. -/
theorem exists_dotted_ofBytes_iff :
    (∃ segments, Dotted (Text.ofBytes bytes) segments) ↔ ∃ segments, IsDotted bytes segments := by
  constructor
  · rintro ⟨segments, hne, hsegment, hbytes⟩
    -- the characters of the segments are those of bytes
    have hrows : (segments.map Text.bytes).map Text.ofBytes = segments := by
      have hsame : ∀ s ∈ segments, (Text.ofBytes ∘ Text.bytes) s = s := fun s hs =>
        Text.ofBytes_bytes (isAscii_of_isSegment (hsegment s hs))
      rw [List.map_map, List.map_congr_left hsame, List.map_id']
    refine ⟨segments.map Text.bytes, by simpa using hne, ?_, ?_⟩
    · rw [List.forall_mem_map]
      intro s hs
      rw [← isSegment_ofBytes_iff, Text.ofBytes_bytes (isAscii_of_isSegment (hsegment s hs))]
      exact hsegment s hs
    · refine Text.ofBytes_injective ?_
      rw [← intercalate_map_ofBytes, hrows, hbytes]
  · rintro ⟨segments, hne, hsegment, rfl⟩
    refine ⟨segments.map Text.ofBytes, by simpa using hne, ?_, (intercalate_map_ofBytes _).symm⟩
    rw [List.forall_mem_map]
    exact fun s hs => isSegment_ofBytes_iff.2 (hsegment s hs)

theorem declarationResource_cases (type : String) :
    (∃ resource, declarationResource type = .ok resource) ∨
      declarationResource type = .error (.configuration (.invalidType typeKey type)) := by
  unfold declarationResource
  split
  · exact .inl ⟨_, rfl⟩
  · exact .inr rfl

theorem exists_declarationResource_iff :
    (∃ resource, declarationResource type = .ok resource) ↔ ∃ segments, Dotted type segments := by
  simp only [declarationResource_eq_ok_iff]
  exact ⟨fun ⟨_, segments, h, _⟩ => ⟨segments, h⟩, fun ⟨segments, h⟩ => ⟨_, segments, h, rfl⟩⟩

/-- Whatever is no row of segments is refused as the attribute with the type. -/
theorem declarationResource_eq_error_iff {failure : Failure} :
    declarationResource type = .error failure ↔
      (¬ ∃ segments, Dotted type segments) ∧
        failure = .configuration (.invalidType typeKey type) := by
  rw [← exists_declarationResource_iff]
  obtain ⟨resource, h⟩ | h := declarationResource_cases type
  · simp [h]
  · simp [h, eq_comm]

/-- The bytes of a text are a type of the same declaration as the text. -/
theorem declarationResource_ofBytes_bytes {resource : Path} :
    declarationResource (Text.ofBytes (Text.bytes type)) = .ok resource ↔
      declarationResource type = .ok resource := by
  have hascii : ∀ {t : String}, declarationResource t = .ok resource → Text.IsAscii t := by
    intro t ht
    obtain ⟨segments, hdotted, -⟩ := declarationResource_eq_ok_iff.1 ht
    exact hdotted.isAscii
  constructor
  · intro h
    rwa [Text.ofBytes_bytes (Text.isAscii_of_isAscii_bytes (hascii h))] at h
  · intro h
    rwa [Text.ofBytes_bytes (hascii h)]

/-! ### Resources -/

theorem Dotted.map_joinNames (h : Dotted type segments) :
    (Path.joinNames segments).map (fun c => if c = '/' then '.' else c) = type := by
  have hkept : ∀ s ∈ segments.map String.toList,
      s.map (fun c => if c = '/' then '.' else c) = s := by
    rw [List.forall_mem_map]
    intro s hs
    refine (List.map_congr_left fun c hc => ?_).trans (List.map_id' _)
    have hslash : c ≠ '/' := by
      rintro rfl
      exact absurd ((h.segment s hs).2 _ hc) (by decide)
    exact if_neg hslash
  rw [← String.toList_inj, String.toList_map, Path.joinNames, String.toList_intercalate,
    h.toList_eq]
  show (['/'].intercalate _).map _ = _
  rw [Text.map_intercalate, if_pos rfl, List.map_congr_left hkept, List.map_id']

theorem isName_of_isSegment {s : String} (h : IsSegment s.toList) : Path.IsName s := by
  refine ⟨fun he => h.1 (String.toList_eq_nil_iff.2 he), fun hslash => ?_⟩
  exact absurd (h.2 _ hslash) (by decide)

theorem isPlain_of_isSegment {s : String} (h : IsSegment s.toList) : Path.IsPlain s := by
  have hpoint : '.' ∉ s.toList := fun hmem => absurd (h.2 _ hmem) (by decide)
  refine ⟨isName_of_isSegment h, ?_, ?_⟩
  · rintro rfl
    exact hpoint (by decide)
  · rintro rfl
    exact hpoint (by decide)

theorem isPlain_append_declarationSuffix {s : String} (h : IsSegment s.toList) :
    Path.IsPlain (s ++ declarationSuffix) := by
  have hlength : 3 ≤ (s ++ declarationSuffix).length := by
    have hsuffix : declarationSuffix.length = 15 := by decide
    rw [String.length_append, hsuffix]
    omega
  refine ⟨⟨?_, ?_⟩, ?_, ?_⟩
  · intro he
    rw [he] at hlength
    exact absurd hlength (by decide)
  · rw [String.toList_append, List.mem_append, not_or]
    exact ⟨(isName_of_isSegment h).2, by decide⟩
  · intro he
    rw [he] at hlength
    exact absurd hlength (by decide)
  · intro he
    rw [he] at hlength
    exact absurd hlength (by decide)

/-- The names of a declaration are those of its type, of which the last one has the suffix. -/
theorem Dotted.exists_names (h : Dotted type segments) :
    ∃ names, resourceOf segments = Path.ofNames names ∧ names ≠ [] ∧
      ∀ n ∈ names, Path.IsPlain n := by
  obtain ⟨init, last, rfl⟩ : ∃ init last, segments = init ++ [last] := by
    rcases List.eq_nil_or_concat segments with rfl | ⟨init, last, hlast⟩
    · exact absurd rfl h.nonempty
    · exact ⟨init, last, hlast.trans List.concat_eq_append⟩
  refine ⟨init ++ [last ++ declarationSuffix], ?_, by simp, ?_⟩
  · rw [resourceOf, Path.ofNames, Path.joinNames_concat, Path.joinNames_concat, String.append_assoc]
  · refine List.forall_mem_append.2 ⟨fun s hs => ?_, fun s hs => ?_⟩
    · exact isPlain_of_isSegment (h.segment s (List.mem_append_left _ hs))
    · rw [List.mem_singleton.1 hs]
      exact isPlain_append_declarationSuffix (h.segment last (by simp))

/-- A declaration is looked for at its own path below the root. -/
theorem Dotted.findResource_eq_some_iff (h : Dotted type segments) {c : LoadingContext}
    {location : Path} :
    c.findResource (resourceOf segments) = some location ↔
      location = c.root / resourceOf segments ∧ c.files.isFile location = true ∧
        c.confines location = true := by
  obtain ⟨names, hnames, hne, hplain⟩ := h.exists_names
  rw [LoadingContext.findResource_eq_some_iff_resolves, hnames, Path.normal_ofNames hne hplain]
  exact and_iff_right (Path.staysBelow_ofNames hne hplain)

/-- What the resource of a declaration is.  It ends in the suffix, and what stands in front of it is
the type, up to slashes for points.  It is a relative path in normal form, of names that lead to
nothing but what they name, so it is looked for at itself below the root. -/
structure IsDeclaration (bytes : List UInt8) (resource : Path) : Prop where
  type_eq : ∃ stem, resource.text = stem ++ ".extension.json" ∧
    stem.map (fun c => if c = '/' then '.' else c) = Text.ofBytes bytes
  relative : resource.text ≠ "" ∧ resource.isAbsolute = false
  normal : resource.normal = resource
  plain : ∀ n ∈ resource.parts.names, n ≠ "." ∧ n ≠ ".."
  found : ∀ (c : LoadingContext) (location : Path), c.findResource resource = some location ↔
    location = c.root / resource ∧ c.files.isFile location = true ∧ c.confines location = true

theorem isDeclaration_of_eq_ok {resource : Path}
    (h : declarationResource (Text.ofBytes bytes) = .ok resource) :
    IsDeclaration bytes resource := by
  obtain ⟨segments, hdotted, rfl⟩ := declarationResource_eq_ok_iff.1 h
  obtain ⟨names, hnames, hne, hplain⟩ := hdotted.exists_names
  have hname := Path.isName_of_isPlain hplain
  have hparts := Path.parts_ofNames hne hname
  refine ⟨⟨Path.joinNames segments, rfl, hdotted.map_joinNames⟩, ?_, ?_, ?_, fun _ _ =>
    hdotted.findResource_eq_some_iff⟩
  · rw [hnames]
    refine ⟨Path.text_ofNames_ne_empty hne hname, ?_⟩
    show (Path.ofNames names).parts.rooted = false
    rw [hparts]
  · rw [hnames, Path.normal_ofNames hne hplain]
  · rw [hnames, hparts]
    exact fun n hn => (hplain n hn).2

theorem IsDeclaration.bytes_eq {resource : Path} {other : List UInt8}
    (h : IsDeclaration bytes resource) (ho : IsDeclaration other resource) : other = bytes := by
  obtain ⟨stem, htext, hstem⟩ := h.type_eq
  obtain ⟨stem', htext', hstem'⟩ := ho.type_eq
  have hsame : stem' = stem := (String.append_left_inj _).1 (htext'.symm.trans htext)
  refine Text.ofBytes_injective ?_
  rw [← hstem, ← hstem', hsame]

/-- **A row of bytes is a type exactly if it is one of segments with points between them, and its
declaration names it.**  Everything else is refused as the attribute `type`.  No two types have one
declaration, whose path is that below the root at which it is looked for.  The bytes of a text are
a type as the text is. -/
theorem declarationResource_ofBytes (bytes : List UInt8) :
    ((∃ resource, declarationResource (Text.ofBytes bytes) = .ok resource) ↔
        ∃ segments, IsDotted bytes segments) ∧
      (∀ failure, declarationResource (Text.ofBytes bytes) = .error failure ↔
        (¬ ∃ segments, IsDotted bytes segments) ∧
          failure = .configuration
            { kind := .parameter "type"
              message := s!"Invalid extension type '{Text.ofBytes bytes}'" }) ∧
      (∀ resource, declarationResource (Text.ofBytes bytes) = .ok resource →
        IsDeclaration bytes resource ∧
          ∀ other, declarationResource (Text.ofBytes other) = .ok resource → other = bytes) ∧
      ∀ type resource, declarationResource (Text.ofBytes (Text.bytes type)) = .ok resource ↔
        declarationResource type = .ok resource := by
  refine ⟨?_, fun failure => ?_, fun resource h => ?_, fun _ _ =>
    declarationResource_ofBytes_bytes⟩
  · rw [exists_declarationResource_iff, exists_dotted_ofBytes_iff]
  · rw [declarationResource_eq_error_iff, exists_dotted_ofBytes_iff]
    rfl
  · have hdeclaration := isDeclaration_of_eq_ok h
    exact ⟨hdeclaration, fun _ ho => hdeclaration.bytes_eq (isDeclaration_of_eq_ok ho)⟩

end PluginHost.Loader.Native
