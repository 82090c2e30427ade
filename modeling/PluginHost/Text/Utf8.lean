/-!
# Reading bytes as text

`Text.decode` reads bytes as UTF-8 up to the first place where they are ill-formed, and says
whether it reached the end.  `Text.untilNul` is the part of a text that a reader of
zero-terminated text sees.
-/

namespace PluginHost.Text

/-- The characters from position `start` on, up to the first ill-formed sequence, and whether
the bytes end there. -/
def decodeFrom (bytes : ByteArray) (start : Nat) : List Char × Bool :=
  if start < bytes.size then
    match bytes.utf8DecodeChar? start with
    | some c =>
      let rest := decodeFrom bytes (start + c.utf8Size)
      (c :: rest.1, rest.2)
    | none => ([], false)
  else ([], true)
  termination_by bytes.size - start
  decreasing_by have := c.utf8Size_pos; omega

/-- The longest well-formed text at the start of the bytes, and whether it is all of them. -/
def decode (bytes : ByteArray) : List Char × Bool := decodeFrom bytes 0

/-- Decoding takes back the encoding of characters behind any bytes. -/
theorem decodeFrom_append (bytes : ByteArray) (text : List Char) :
    decodeFrom (bytes ++ text.utf8Encode) bytes.size = (text, true) := by
  induction text generalizing bytes with
  | nil =>
    unfold decodeFrom
    simp
  | cons c rest ih =>
    have hchar : (bytes ++ (c :: rest).utf8Encode).utf8DecodeChar? bytes.size = some c := by
      rw [ByteArray.utf8DecodeChar?_eq_utf8DecodeChar?_extract,
        ByteArray.extract_append_eq_right rfl ByteArray.size_append]
      exact List.utf8DecodeChar?_utf8Encode_cons
    have hlt := ByteArray.lt_size_of_isSome_utf8DecodeChar? (Option.isSome_of_eq_some hchar)
    rw [decodeFrom, if_pos hlt, hchar]
    -- the rest stands behind the bytes of `c`
    have hsize : [c].utf8Encode.size = c.utf8Size := by simp [List.utf8Encode_singleton]
    have hrest := ih (bytes ++ [c].utf8Encode)
    rw [ByteArray.append_assoc, ← List.utf8Encode_cons, ByteArray.size_append, hsize] at hrest
    simp only [hrest]

/-- Decoding takes back the encoding of a text. -/
theorem decode_toUTF8 (text : String) : decode text.toUTF8 = (text.toList, true) := by
  have h := decodeFrom_append ByteArray.empty text.toList
  rwa [String.utf8Encode_toList, ByteArray.empty_append] at h

/-- The text before its first NUL character. -/
def untilNul (text : String) : String :=
  String.ofList (text.toList.takeWhile (· ≠ '\x00'))

end PluginHost.Text
