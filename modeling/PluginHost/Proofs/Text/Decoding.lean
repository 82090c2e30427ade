import PluginHost.Text.Utf8

/-!
# Bytes and the texts in them

What is decoded from bytes is their text up to the first ill-formed place: the bytes are those of
the text and others behind them, of which there are none if decoding is complete
(`Text.exists_eq_decode`).  A text in front of other bytes is decoded as it is, whatever those are
(`Text.decode_append`).
-/

namespace PluginHost.Text

theorem utf8DecodeChar?_append_left (front bytes : ByteArray) (start : Nat) :
    (front ++ bytes).utf8DecodeChar? (front.size + start) = bytes.utf8DecodeChar? start := by
  rw [ByteArray.utf8DecodeChar?_eq_utf8DecodeChar?_extract, ByteArray.size_append,
    ByteArray.extract_append_size_add, ← ByteArray.utf8DecodeChar?_eq_utf8DecodeChar?_extract]

/-- Decoding goes by the bytes from its position on. -/
theorem decodeFrom_append_left (front bytes : ByteArray) (start : Nat) :
    decodeFrom (front ++ bytes) (front.size + start) = decodeFrom bytes start := by
  fun_induction decodeFrom bytes start with
  | case1 start hlt c hc rest ih =>
    have hlt' : front.size + start < (front ++ bytes).size := by
      rw [ByteArray.size_append]
      omega
    rw [decodeFrom, if_pos hlt', utf8DecodeChar?_append_left, hc]
    simp only [Nat.add_assoc, ih]
    rfl
  | case2 start hlt hnone =>
    have hlt' : front.size + start < (front ++ bytes).size := by
      rw [ByteArray.size_append]
      omega
    rw [decodeFrom, if_pos hlt', utf8DecodeChar?_append_left, hnone]
  | case3 start hge =>
    have hge' : ¬ front.size + start < (front ++ bytes).size := by
      rw [ByteArray.size_append]
      omega
    rw [decodeFrom, if_neg hge']

theorem decode_append (text : List Char) (more : ByteArray) :
    decode (text.utf8Encode ++ more) = (text ++ (decode more).1, (decode more).2) := by
  induction text with
  | nil => simp
  | cons c rest ih =>
    have hchar : ([c].utf8Encode ++ (rest.utf8Encode ++ more)).utf8DecodeChar? 0 = some c :=
      List.utf8DecodeChar?_utf8Encode_singleton_append
    have hlt := ByteArray.lt_size_of_isSome_utf8DecodeChar? (Option.isSome_of_eq_some hchar)
    have hsize : c.utf8Size = [c].utf8Encode.size := by simp [List.utf8Encode_singleton]
    rw [List.utf8Encode_cons, ByteArray.append_assoc, decode, decodeFrom, if_pos hlt, hchar]
    simp only [Nat.zero_add, hsize]
    rw [← Nat.add_zero [c].utf8Encode.size, decodeFrom_append_left, ← decode, ih]
    rfl

/-- The bytes behind a position are those of what is decoded from there, and others. -/
theorem exists_extract_eq_decodeFrom (bytes : ByteArray) (start : Nat) :
    ∃ more, bytes.extract start bytes.size = (decodeFrom bytes start).1.utf8Encode ++ more ∧
      ((decodeFrom bytes start).2 = true → more = ByteArray.empty) := by
  fun_induction decodeFrom bytes start with
  | case1 start hlt c hc rest ih =>
    obtain ⟨more, hmore, hall⟩ := ih
    refine ⟨more, ?_, hall⟩
    rw [ByteArray.utf8DecodeChar?_eq_utf8DecodeChar?_extract] at hc
    have heq := ByteArray.eq_of_utf8DecodeChar?_eq_some hc
    have hle := ByteArray.le_size_of_utf8DecodeChar?_eq_some hc
    rw [ByteArray.size_extract, Nat.min_self] at heq hle
    rw [ByteArray.extract_extract, Nat.min_eq_right (by omega)] at heq
    rw [heq, hmore, List.utf8Encode_cons, List.utf8Encode_singleton, ByteArray.append_assoc]
  | case2 start hlt hnone =>
    exact ⟨_, by rw [List.utf8Encode_nil, ByteArray.empty_append], nofun⟩
  | case3 start hge =>
    refine ⟨ByteArray.empty, ?_, fun _ => rfl⟩
    rw [List.utf8Encode_nil, ByteArray.append_empty]
    exact ByteArray.extract_eq_empty_iff.2 (by omega)

/-- Bytes are those of what is decoded from them, and others. -/
theorem exists_eq_decode (bytes : ByteArray) :
    ∃ more, bytes = (decode bytes).1.utf8Encode ++ more ∧
      ((decode bytes).2 = true → more = ByteArray.empty) := by
  have h := exists_extract_eq_decodeFrom bytes 0
  rwa [ByteArray.extract_zero_size] at h

end PluginHost.Text
