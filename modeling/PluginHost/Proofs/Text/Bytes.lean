import PluginHost.Proofs.Text.ByteOrder

/-!
# Rows of bytes as texts

What a host is given need not be UTF-8.  Where only ASCII characters matter, a row of bytes is
read as the text whose characters have the numbers of the bytes (`Text.ofBytes`).  Different rows
are different texts (`Text.ofBytes_injective`).  The bytes of an ASCII text are that text
(`Text.ofBytes_bytes`), and those of any text have the same ASCII characters in them
(`Text.mem_ofBytes_bytes_iff`).
-/

namespace PluginHost.Text

/-- The text whose characters have the numbers of bytes. -/
def ofBytes (bytes : List UInt8) : String := String.ofList (bytes.map Char.ofUInt8)

variable {text : String} {c : Char} {b : UInt8}

@[simp]
theorem toList_ofBytes (bytes : List UInt8) :
    (ofBytes bytes).toList = bytes.map Char.ofUInt8 := String.toList_ofList

@[simp]
theorem toNat_ofUInt8 (b : UInt8) : (Char.ofUInt8 b).toNat = b.toNat := rfl

theorem ofUInt8_injective : Function.Injective Char.ofUInt8 := fun _ _ h =>
  UInt8.toNat_inj.1 (congrArg Char.toNat h)

theorem ofBytes_injective : Function.Injective ofBytes := fun _ _ h =>
  List.map_injective_iff.2 ofUInt8_injective (String.ofList_injective h)

/-! ### Bytes of characters -/

theorem toNat_toUInt8 (h : c.toNat < 128) : c.toUInt8.toNat = c.toNat := by
  show c.val.toNat % 256 = c.val.toNat
  exact Nat.mod_eq_of_lt (Nat.lt_trans h (by decide))

theorem ofUInt8_eq_iff (h : c.toNat < 128) : Char.ofUInt8 b = c ↔ b = c.toUInt8 := by
  rw [← Char.toNat_inj, ← UInt8.toNat_inj, toNat_ofUInt8, toNat_toUInt8 h]

theorem le_ofUInt8_iff (h : c.toNat < 128) : c ≤ Char.ofUInt8 b ↔ c.toUInt8 ≤ b := by
  rw [UInt8.le_iff_toNat_le, toNat_toUInt8 h]
  exact UInt32.le_iff_toNat_le

theorem ofUInt8_le_iff (h : c.toNat < 128) : Char.ofUInt8 b ≤ c ↔ b ≤ c.toUInt8 := by
  rw [UInt8.le_iff_toNat_le, toNat_toUInt8 h]
  exact UInt32.le_iff_toNat_le

theorem toNat_lt_of_le {d : Char} (h : c ≤ d) (hd : d.toNat < 128) : c.toNat < 128 :=
  Nat.lt_of_le_of_lt (UInt32.le_iff_toNat_le.1 h) hd

theorem encodeChar_of_ascii (h : c.toNat < 128) : String.utf8EncodeChar c = [c.toUInt8] := by
  have hsmall : c.val.toNat ≤ 127 := Nat.lt_succ_iff.1 h
  simp only [String.utf8EncodeChar, hsmall, ↓reduceIte, List.cons.injEq, and_true]
  rfl

/-- All bytes of a character beyond ASCII are beyond ASCII. -/
theorem le_toNat_of_mem_encodeChar (h : 128 ≤ c.toNat) :
    ∀ b ∈ String.utf8EncodeChar c, 128 ≤ b.toNat := by
  have hlarge : ¬ c.val.toNat ≤ 127 := Nat.not_le.2 h
  unfold String.utf8EncodeChar
  simp only [hlarge, ↓reduceIte]
  -- a number of at least 128 is added to each digit of the code point
  split_ifs
  all_goals
    simp only [List.forall_mem_cons, List.not_mem_nil, false_imp_iff, implies_true, and_true,
      UInt8.toNat_ofNat']
    omega

/-- A text has the ASCII characters that its bytes have. -/
theorem mem_ofBytes_bytes_iff (h : c.toNat < 128) :
    c ∈ (ofBytes (bytes text)).toList ↔ c ∈ text.toList := by
  simp only [toList_ofBytes, bytes_eq_flatMap, List.mem_map, List.mem_flatMap]
  constructor
  · rintro ⟨b, ⟨d, hd, hb⟩, rfl⟩
    by_cases hascii : d.toNat < 128
    · rw [encodeChar_of_ascii hascii, List.mem_singleton] at hb
      rwa [(ofUInt8_eq_iff hascii).2 hb]
    · exact absurd (le_toNat_of_mem_encodeChar (Nat.not_lt.1 hascii) b hb) (Nat.not_le.2 h)
  · intro hc
    refine ⟨c.toUInt8, ⟨c, hc, ?_⟩, (ofUInt8_eq_iff h).2 rfl⟩
    rw [encodeChar_of_ascii h]
    exact List.mem_singleton_self _

/-! ### Parts with a sign between them -/

section Parts

variable {α β : Type}

theorem map_intercalate (f : α → β) (sign : α) (parts : List (List α)) :
    ([sign].intercalate parts).map f = [f sign].intercalate (parts.map (List.map f)) := by
  induction parts with
  | nil => rfl
  | cons part rest ih =>
    cases rest with
    | nil => simp
    | cons next others =>
      rw [List.intercalate_cons_cons, List.map_append, List.map_append, ih]
      simp [List.intercalate_cons_cons]

theorem mem_of_mem_intercalate {sign a : α} {parts : List (List α)}
    (h : a ∈ [sign].intercalate parts) : a = sign ∨ ∃ part ∈ parts, a ∈ part := by
  induction parts with
  | nil => cases h
  | cons part rest ih =>
    cases rest with
    | nil => exact .inr ⟨part, List.mem_cons_self, by simpa using h⟩
    | cons next others =>
      rw [List.intercalate_cons_cons, List.append_assoc, List.mem_append, List.singleton_append,
        List.mem_cons] at h
      rcases h with h | h | h
      · exact .inr ⟨part, List.mem_cons_self, h⟩
      · exact .inl h
      · exact (ih h).imp_right fun ⟨p, hp, ha⟩ => ⟨p, List.mem_cons_of_mem _ hp, ha⟩

end Parts

/-! ### ASCII texts -/

/-- Whether all characters of a text are ASCII characters. -/
def IsAscii (text : String) : Prop := ∀ c ∈ text.toList, c.toNat < 128

theorem ofBytes_bytes (h : IsAscii text) : ofBytes (bytes text) = text := by
  rw [← String.toList_inj, toList_ofBytes, bytes_eq_flatMap, List.map_flatMap]
  have hchars : ∀ c ∈ text.toList, (String.utf8EncodeChar c).map Char.ofUInt8 = [c] := by
    intro c hc
    rw [encodeChar_of_ascii (h c hc), List.map_singleton, (ofUInt8_eq_iff (h c hc)).2 rfl]
  rw [List.flatMap_congr hchars, List.flatMap_singleton']

/-- The bytes of a text are an ASCII text only if it is one itself. -/
theorem isAscii_of_isAscii_bytes (h : IsAscii (ofBytes (bytes text))) : IsAscii text := by
  intro c hc
  by_contra hbeyond
  cases hbytes : String.utf8EncodeChar c with
  | nil => exact String.utf8EncodeChar_ne_nil hbytes
  | cons b more =>
    have hb : b ∈ String.utf8EncodeChar c := by
      rw [hbytes]
      exact List.mem_cons_self
    have hmem : Char.ofUInt8 b ∈ (ofBytes (bytes text)).toList := by
      rw [toList_ofBytes, bytes_eq_flatMap]
      exact List.mem_map_of_mem (List.mem_flatMap.2 ⟨c, hc, hb⟩)
    exact absurd (le_toNat_of_mem_encodeChar (Nat.not_lt.1 hbeyond) b hb) (Nat.not_le.2 (h _ hmem))

end PluginHost.Text
