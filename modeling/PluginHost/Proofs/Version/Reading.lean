import Mathlib.Data.List.Forall2
import Mathlib.Data.List.GetD
import Mathlib.Data.List.TakeWhile
import Mathlib.Data.Nat.Digits.Defs
import PluginHost.Proofs.Except
import PluginHost.Proofs.Text.Bytes
import PluginHost.Version

/-!
# Which rows of bytes are versions

A row of bytes spells the numbers of a version if what stands before its first hyphen is a row of
one to three components with points between them, each of one to five digits and of a value of at
most 65535 (`Version.Spells`).  Exactly those rows are valid; they are read as the numbers that
they spell, and everything from the first hyphen on counts for nothing (`Version.parse_ofBytes`).
-/

namespace PluginHost

namespace Version

/-! ### What is spelt -/

/-- Whether `core` is what stands in a row of signs before the first hyphen: all of it if there is
none. -/
def IsCore {α : Type} (hyphen : α) (signs core : List α) : Prop :=
  hyphen ∉ core ∧ (signs = core ∨ ∃ qualifier, signs = core ++ hyphen :: qualifier)

/-- The number that a row of ASCII digits stands for. -/
def decimalValue (digits : List UInt8) : ℕ :=
  Nat.ofDigits 10 (digits.reverse.map fun b => b.toNat - '0'.toNat)

/-- Whether bytes are a component of a version, and of which value. -/
structure IsComponent (bytes : List UInt8) (n : ℕ) : Prop where
  nonempty : bytes ≠ []
  short : bytes.length ≤ 5
  digit : ∀ b ∈ bytes, '0'.toUInt8 ≤ b ∧ b ≤ '9'.toUInt8
  value : decimalValue bytes = n
  le : n ≤ 65535

/-- Whether bytes spell the numbers of a version. -/
def Spells (bytes : List UInt8) (numbers : List ℕ) : Prop :=
  ∃ core components, IsCore '-'.toUInt8 bytes core ∧
    core = ['.'.toUInt8].intercalate components ∧
    List.Forall₂ IsComponent components numbers ∧ 1 ≤ numbers.length ∧ numbers.length ≤ 3

/-! ### In front of the hyphen -/

section Core

variable {α : Type} {hyphen : α} {signs core : List α}

theorem isCore_iff [DecidableEq α] :
    IsCore hyphen signs core ↔ core = signs.takeWhile (· ≠ hyphen) := by
  constructor
  · rintro ⟨hcore, hsigns⟩
    have hall : ∀ a ∈ core, decide (a ≠ hyphen) = true := fun a ha =>
      decide_eq_true fun he => hcore (he ▸ ha)
    rcases hsigns with rfl | ⟨qualifier, rfl⟩
    · exact (List.takeWhile_eq_self_iff.2 hall).symm
    · rw [List.takeWhile_append_of_pos hall, List.takeWhile_cons_of_neg (by simp), List.append_nil]
  · rintro rfl
    refine ⟨fun hmem => by simpa using List.mem_takeWhile_imp hmem, ?_⟩
    have hsplit := List.takeWhile_append_dropWhile (p := (· ≠ hyphen)) (l := signs)
    have hnot := List.head?_dropWhile_not (· ≠ hyphen) signs
    cases hrest : signs.dropWhile (· ≠ hyphen) with
    | nil =>
      rw [hrest, List.append_nil] at hsplit
      exact .inl hsplit.symm
    | cons a qualifier =>
      rw [hrest] at hsplit hnot
      obtain rfl : a = hyphen := by simpa using hnot
      exact .inr ⟨qualifier, hsplit.symm⟩

theorem exists_isCore [DecidableEq α] (hyphen : α) (signs : List α) :
    ∃ core, IsCore hyphen signs core := ⟨_, isCore_iff.2 rfl⟩

theorem IsCore.append (h : IsCore hyphen signs core) (qualifier : List α) :
    IsCore hyphen (signs ++ hyphen :: qualifier) core := by
  refine ⟨h.1, .inr ?_⟩
  rcases h.2 with rfl | ⟨first, rfl⟩
  · exact ⟨qualifier, rfl⟩
  · exact ⟨first ++ hyphen :: qualifier, by rw [List.append_assoc, List.cons_append]⟩

theorem IsCore.ofBytes {bytes core : List UInt8} (h : IsCore '-'.toUInt8 bytes core) :
    IsCore '-' (Text.ofBytes bytes).toList (Text.ofBytes core).toList := by
  simp only [Text.toList_ofBytes]
  refine ⟨fun hmem => ?_, ?_⟩
  · obtain ⟨b, hb, hchar⟩ := List.mem_map.1 hmem
    obtain rfl := (Text.ofUInt8_eq_iff (by decide)).1 hchar
    exact h.1 hb
  · rcases h.2 with rfl | ⟨qualifier, rfl⟩
    · exact .inl rfl
    · exact .inr ⟨qualifier.map Char.ofUInt8, List.map_append⟩

end Core

theorem withoutQualifier_of_isCore {signs core : List Char} (h : IsCore '-' signs core) :
    withoutQualifier signs = core := (isCore_iff.1 h).symm

/-- A text is read as what stands before its first hyphen. -/
theorem parse?_of_isCore {text core : String} (h : IsCore '-' text.toList core.toList) :
    parse? text = parse? core := by
  rw [parse?, parse?, withoutQualifier_of_isCore h, withoutQualifier_of_isCore ⟨h.1, .inl rfl⟩]

/-! ### Components -/

/-- A text is cut at its points, whatever signs its characters come from. -/
theorem components_map {α : Type} [BEq α] [LawfulBEq α] {char : α → Char} {point : α}
    (hchar : ∀ a, char a = '.' ↔ a = point) (signs : List α) :
    components (signs.map char) = (signs.splitOn point).map (List.map char) := by
  induction signs with
  | nil => simp [components]
  | cons a rest ih =>
    rw [List.map_cons, components, List.splitOn_cons_eq_if_modifyHead, ih]
    by_cases ha : a = point
    · simp [ha, (hchar point).2 rfl]
    · obtain ⟨first, others, hrest⟩ :=
        List.exists_cons_of_ne_nil (List.splitOn_ne_nil point rest)
      simp [ha, hchar, hrest]

theorem components_eq_splitOn (text : List Char) : components text = text.splitOn '.' := by
  have hchar : ∀ c : Char, id c = '.' ↔ c = '.' := fun _ => Iff.rfl
  simpa using components_map hchar text

theorem component?_eq_some_iff {text : List Char} {n : UInt16} :
    component? text = some n ↔ text ≠ [] ∧ text.length ≤ 5 ∧ (∀ c ∈ text, Text.isDigit c = true) ∧
      Text.digitsValue text = n.toNat := by
  have hrefused : (text.isEmpty = true ∨ 5 < text.length ∨ ¬ text.all Text.isDigit = true) ↔
      ¬ (text ≠ [] ∧ text.length ≤ 5 ∧ ∀ c ∈ text, Text.isDigit c = true) := by
    simp only [List.isEmpty_iff, List.all_eq_true, not_and_or, not_not, Nat.not_le]
  have hvalue : ∀ value, (if value < UInt16.size then some (UInt16.ofNat value) else none) =
      some n ↔ value = n.toNat := by
    intro value
    split
    · next h => rw [Option.some.injEq, ← UInt16.toNat_inj, UInt16.toNat_ofNat_of_lt' h]
    · next h =>
      refine ⟨nofun, ?_⟩
      rintro rfl
      exact absurd n.toNat_lt h
  unfold component?
  split
  · next h =>
    refine ⟨nofun, fun ⟨hne, hlength, hdigits, _⟩ => ?_⟩
    exact absurd ⟨hne, hlength, hdigits⟩ (hrefused.1 h)
  · next h =>
    obtain ⟨hne, hlength, hdigits⟩ := not_not.1 (mt hrefused.2 h)
    rw [hvalue]
    exact ⟨fun he => ⟨hne, hlength, hdigits, he⟩, fun he => he.2.2.2⟩

theorem digitsValue_map_ofUInt8 (bytes : List UInt8) :
    Text.digitsValue (bytes.map Char.ofUInt8) = decimalValue bytes := by
  rw [Text.digitsValue, List.foldl_map, decimalValue, Nat.ofDigits_eq_foldr, List.foldr_map,
    List.foldr_reverse]
  simp only [Text.toNat_ofUInt8, Nat.cast_id, mul_comm, add_comm]

theorem isDigit_ofUInt8_iff {b : UInt8} :
    Text.isDigit (Char.ofUInt8 b) = true ↔ '0'.toUInt8 ≤ b ∧ b ≤ '9'.toUInt8 := by
  simp (disch := decide) only [Text.isDigit, decide_eq_true_eq, Text.le_ofUInt8_iff,
    Text.ofUInt8_le_iff]

theorem component?_map_eq_some_iff {bytes : List UInt8} {n : UInt16} :
    component? (bytes.map Char.ofUInt8) = some n ↔ IsComponent bytes n.toNat := by
  rw [component?_eq_some_iff, digitsValue_map_ofUInt8, List.length_map, Ne, List.map_eq_nil_iff,
    List.forall_mem_map]
  simp only [isDigit_ofUInt8_iff]
  constructor
  · rintro ⟨hne, hshort, hdigit, hvalue⟩
    exact ⟨hne, hshort, hdigit, hvalue, Nat.lt_succ_iff.1 n.toNat_lt⟩
  · rintro ⟨hne, hshort, hdigit, hvalue, -⟩
    exact ⟨hne, hshort, hdigit, hvalue⟩

theorem mapM_component?_eq_some_iff {parts : List (List UInt8)} {words : List UInt16} :
    (parts.map (List.map Char.ofUInt8)).mapM component? = some words ↔
      List.Forall₂ IsComponent parts (words.map UInt16.toNat) := by
  simp only [mapM_eq_some_iff, List.forall₂_map_left_iff, List.forall₂_map_right_iff,
    component?_map_eq_some_iff]

theorem ofNumbers?_eq_some_iff {words : List UInt16} {v : Version} :
    ofNumbers? words = some v ↔ 1 ≤ words.length ∧ words.length ≤ 3 ∧
      v.major = words.getD 0 0 ∧ v.minor = words.getD 1 0 ∧ v.patch = words.getD 2 0 := by
  obtain ⟨major, minor, patch⟩ := v
  rcases words with _ | ⟨a, _ | ⟨b, _ | ⟨c, _ | ⟨d, rest⟩⟩⟩⟩ <;> simp [ofNumbers?, eq_comm]

theorem getD_map_toNat (words : List UInt16) (i : ℕ) :
    (words.map UInt16.toNat).getD i 0 = (words.getD i 0).toNat := List.getD_map words 0 UInt16.toNat

/-! ### Rows of components -/

section Rows

variable {parts : List (List UInt8)} {numbers : List ℕ}

theorem IsComponent.point_notMem {bytes : List UInt8} {n : ℕ} (h : IsComponent bytes n) :
    '.'.toUInt8 ∉ bytes := fun hp => absurd (h.digit _ hp) (by decide)

/-- Components with points between them are found by cutting there. -/
theorem splitOn_intercalate_of_components (h : List.Forall₂ IsComponent parts numbers)
    (hpos : 1 ≤ numbers.length) :
    (['.'.toUInt8].intercalate parts).splitOn '.'.toUInt8 = parts := by
  have hpoints := (List.forall₂_and_left _ _).1 (h.imp fun _ _ hc => ⟨hc.point_notMem, hc⟩)
  refine List.splitOn_intercalate _ hpoints.1 ?_
  rintro rfl
  rw [← h.length_eq] at hpos
  exact absurd hpos (by simp)

theorem exists_eq_map_toNat (h : List.Forall₂ IsComponent parts numbers) :
    ∃ words : List UInt16, numbers = words.map UInt16.toNat := by
  induction h with
  | nil => exact ⟨[], rfl⟩
  | @cons _ n _ _ hc _ ih =>
    obtain ⟨words, rfl⟩ := ih
    have hn : (UInt16.ofNat n).toNat = n := UInt16.toNat_ofNat_of_lt' (Nat.lt_succ_iff.2 hc.le)
    exact ⟨UInt16.ofNat n :: words, by rw [List.map_cons, hn]⟩

end Rows

/-! ### Reading bytes -/

variable {bytes : List UInt8} {text : String} {v : Version}

/-- A row of bytes is read as the numbers that it spells; missing ones are zero. -/
theorem parse?_ofBytes_eq_some_iff :
    parse? (Text.ofBytes bytes) = some v ↔ ∃ numbers, Spells bytes numbers ∧
      v.major.toNat = numbers.getD 0 0 ∧ v.minor.toNat = numbers.getD 1 0 ∧
      v.patch.toNat = numbers.getD 2 0 := by
  obtain ⟨core, hcore⟩ := exists_isCore '-'.toUInt8 bytes
  have hpoint : ∀ b, Char.ofUInt8 b = '.' ↔ b = '.'.toUInt8 := fun _ =>
    Text.ofUInt8_eq_iff (by decide)
  rw [parse?, withoutQualifier_of_isCore hcore.ofBytes, Text.toList_ofBytes,
    components_map hpoint, Option.bind_eq_bind, Option.bind_eq_some_iff]
  simp only [mapM_component?_eq_some_iff, ofNumbers?_eq_some_iff, ← UInt16.toNat_inj,
    ← getD_map_toNat]
  constructor
  · rintro ⟨words, hparts, hpos, hle, hv⟩
    refine ⟨words.map UInt16.toNat,
      ⟨core, _, hcore, (List.intercalate_splitOn _).symm, hparts, ?_, ?_⟩, hv⟩
    · rwa [List.length_map]
    · rwa [List.length_map]
  · rintro ⟨numbers, ⟨core', parts, hcore', rfl, hparts, hpos, hle⟩, hv⟩
    obtain rfl := (isCore_iff.1 hcore).trans (isCore_iff.1 hcore').symm
    obtain ⟨words, rfl⟩ := exists_eq_map_toNat hparts
    rw [List.length_map] at hpos hle
    refine ⟨words, ?_, hpos, hle, hv⟩
    rwa [splitOn_intercalate_of_components hparts (by rwa [List.length_map])]

theorem parse?_ofBytes_append (bytes qualifier : List UInt8) :
    parse? (Text.ofBytes (bytes ++ '-'.toUInt8 :: qualifier)) = parse? (Text.ofBytes bytes) := by
  obtain ⟨core, hcore⟩ := exists_isCore '-'.toUInt8 bytes
  rw [parse?_of_isCore hcore.ofBytes, parse?_of_isCore (hcore.append qualifier).ofBytes]

/-- Only digits and points stand in front of the hyphen of a version. -/
theorem isAscii_of_parse? (hno : '-' ∉ text.toList) (h : parse? text = some v) :
    Text.IsAscii text := by
  rw [parse?, withoutQualifier_of_isCore ⟨hno, .inl rfl⟩, components_eq_splitOn,
    Option.bind_eq_bind, Option.bind_eq_some_iff] at h
  obtain ⟨words, hwords, -⟩ := h
  have hdigits : ∀ part ∈ text.toList.splitOn '.', ∀ c ∈ part, Text.isDigit c = true :=
    ((List.forall₂_and_left _ _).1 ((mapM_eq_some_iff.1 hwords).imp fun _ _ hpart =>
      ⟨(component?_eq_some_iff.1 hpart).2.2.1, hpart⟩)).1
  have hcut : ['.'].intercalate (text.toList.splitOn '.') = text.toList :=
    List.intercalate_splitOn _
  intro c hc
  rw [← hcut] at hc
  rcases Text.mem_of_mem_intercalate hc with rfl | ⟨part, hpart, hmem⟩
  · decide
  · exact Text.toNat_lt_of_le (of_decide_eq_true (hdigits part hpart c hmem)).2 (by decide)

theorem parse?_ofBytes_bytes (text : String) :
    parse? (Text.ofBytes (Text.bytes text)) = parse? text := by
  obtain ⟨core, hcore⟩ := exists_isCore '-' text.toList
  obtain ⟨core, rfl⟩ : ∃ s : String, s.toList = core := ⟨String.ofList core, String.toList_ofList⟩
  have hno : '-' ∉ (Text.ofBytes (Text.bytes core)).toList := by
    rw [Text.mem_ofBytes_bytes_iff (by decide)]
    exact hcore.1
  have hbytes : IsCore '-' (Text.ofBytes (Text.bytes text)).toList
      (Text.ofBytes (Text.bytes core)).toList := by
    refine ⟨hno, ?_⟩
    rcases hcore.2 with htext | ⟨qualifier, htext⟩
    · rw [String.toList_inj.1 htext]
      exact .inl rfl
    · refine .inr ⟨(Text.ofBytes (Text.bytes (String.ofList qualifier))).toList, ?_⟩
      simp only [Text.toList_ofBytes, Text.bytes_eq_flatMap, htext, String.toList_ofList,
        List.flatMap_append, List.flatMap_cons, List.map_append]
      rfl
  rw [parse?_of_isCore hcore, parse?_of_isCore hbytes]
  by_cases hascii : Text.IsAscii core
  · rw [Text.ofBytes_bytes hascii]
  · -- neither the core nor its bytes can be a version
    have hcorenone : parse? core = none := Option.eq_none_iff_forall_ne_some.2 fun v hv =>
      hascii (isAscii_of_parse? hcore.1 hv)
    have hbytesnone : parse? (Text.ofBytes (Text.bytes core)) = none :=
      Option.eq_none_iff_forall_ne_some.2 fun v hv =>
        hascii (Text.isAscii_of_isAscii_bytes (isAscii_of_parse? hno hv))
    rw [hcorenone, hbytesnone]

/-! ### Valid and invalid texts -/

theorem parse_eq_ok_iff : parse text = .ok v ↔ parse? text = some v := by
  unfold parse
  cases parse? text <;> simp

theorem parse_eq_error_iff {failure : Failure} :
    parse text = .error failure ↔
      isValid text = false ∧ failure = .invalidArgument s!"Invalid version: '{text}'" := by
  unfold parse isValid
  cases parse? text <;> simp [eq_comm]

theorem isValid_iff : isValid text = true ↔ ∃ v, parse text = .ok v := by
  simp only [isValid, Option.isSome_iff_exists, parse_eq_ok_iff]

theorem Spells.exists_version {numbers : List ℕ} (h : Spells bytes numbers) :
    ∃ v : Version, v.major.toNat = numbers.getD 0 0 ∧ v.minor.toNat = numbers.getD 1 0 ∧
      v.patch.toNat = numbers.getD 2 0 := by
  obtain ⟨core, parts, -, -, hparts, -⟩ := h
  obtain ⟨words, rfl⟩ := exists_eq_map_toNat hparts
  simp only [getD_map_toNat]
  exact ⟨⟨words.getD 0 0, words.getD 1 0, words.getD 2 0⟩, rfl, rfl, rfl⟩

/-- **Exactly the rows of bytes that spell numbers are versions.**  They are read as those numbers,
which are never cut off and of which missing ones are zero; any other row is an invalid argument.
What stands behind a hyphen counts for nothing, and the bytes of a text are read as the text is. -/
theorem parse_ofBytes (bytes : List UInt8) :
    (isValid (Text.ofBytes bytes) = true ↔ ∃ numbers, Spells bytes numbers) ∧
    (∀ failure, parse (Text.ofBytes bytes) = .error failure ↔
      isValid (Text.ofBytes bytes) = false ∧
        failure = .invalidArgument s!"Invalid version: '{Text.ofBytes bytes}'") ∧
    (∀ v, parse (Text.ofBytes bytes) = .ok v ↔ ∃ numbers, Spells bytes numbers ∧
      v.major.toNat = numbers.getD 0 0 ∧ v.minor.toNat = numbers.getD 1 0 ∧
      v.patch.toNat = numbers.getD 2 0) ∧
    (∀ qualifier, parse? (Text.ofBytes (bytes ++ '-'.toUInt8 :: qualifier)) =
      parse? (Text.ofBytes bytes)) ∧
    ∀ text, parse? (Text.ofBytes (Text.bytes text)) = parse? text := by
  have hok : ∀ v, parse (Text.ofBytes bytes) = .ok v ↔ ∃ numbers, Spells bytes numbers ∧
      v.major.toNat = numbers.getD 0 0 ∧ v.minor.toNat = numbers.getD 1 0 ∧
      v.patch.toNat = numbers.getD 2 0 := fun _ =>
    parse_eq_ok_iff.trans parse?_ofBytes_eq_some_iff
  refine ⟨?_, fun _ => parse_eq_error_iff, hok, parse?_ofBytes_append bytes, parse?_ofBytes_bytes⟩
  rw [isValid_iff]
  constructor
  · rintro ⟨v, hv⟩
    obtain ⟨numbers, hspells, -⟩ := (hok v).1 hv
    exact ⟨numbers, hspells⟩
  · rintro ⟨numbers, hspells⟩
    obtain ⟨v, hv⟩ := hspells.exists_version
    exact ⟨v, (hok v).2 ⟨numbers, hspells, hv⟩⟩

/-- A qualifier need not be UTF-8. -/
example : parse? (Text.ofBytes (Text.bytes "65535.007-" ++ [0xff])) =
    some { major := 65535, minor := 7 } := by
  decide

end Version

end PluginHost
