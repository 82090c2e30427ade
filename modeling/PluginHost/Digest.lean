/-!
# SHA-256

The digest by which contents are compared: `Digest.sha256Hex` of a text is the SHA-256 of its
UTF-8 bytes in hexadecimal digits.
-/

namespace PluginHost.Digest

/-- The round constants. -/
def roundConstants : Array UInt32 := #[
  0x428a2f98, 0x71374491, 0xb5c0fbcf, 0xe9b5dba5, 0x3956c25b, 0x59f111f1, 0x923f82a4, 0xab1c5ed5,
  0xd807aa98, 0x12835b01, 0x243185be, 0x550c7dc3, 0x72be5d74, 0x80deb1fe, 0x9bdc06a7, 0xc19bf174,
  0xe49b69c1, 0xefbe4786, 0x0fc19dc6, 0x240ca1cc, 0x2de92c6f, 0x4a7484aa, 0x5cb0a9dc, 0x76f988da,
  0x983e5152, 0xa831c66d, 0xb00327c8, 0xbf597fc7, 0xc6e00bf3, 0xd5a79147, 0x06ca6351, 0x14292967,
  0x27b70a85, 0x2e1b2138, 0x4d2c6dfc, 0x53380d13, 0x650a7354, 0x766a0abb, 0x81c2c92e, 0x92722c85,
  0xa2bfe8a1, 0xa81a664b, 0xc24b8b70, 0xc76c51a3, 0xd192e819, 0xd6990624, 0xf40e3585, 0x106aa070,
  0x19a4c116, 0x1e376c08, 0x2748774c, 0x34b0bcb5, 0x391c0cb3, 0x4ed8aa4a, 0x5b9cca4f, 0x682e6ff3,
  0x748f82ee, 0x78a5636f, 0x84c87814, 0x8cc70208, 0x90befffa, 0xa4506ceb, 0xbef9a3f7, 0xc67178f2]

/-- The eight working words. -/
structure Words where
  (a b c d e f g h : UInt32)

/-- The words before the first block. -/
def initial : Words :=
  ⟨0x6a09e667, 0xbb67ae85, 0x3c6ef372, 0xa54ff53a, 0x510e527f, 0x9b05688c, 0x1f83d9ab, 0x5be0cd19⟩

/-- Rotation to the right by less than 32 places. -/
def rotate (x : UInt32) (n : UInt32) : UInt32 := (x >>> n) ||| (x <<< (32 - n))

/-- The bytes with a one bit, zeros and the length in bits behind them, a multiple of 64. -/
def pad (bytes : ByteArray) : ByteArray :=
  let zeros := (119 - bytes.size % 64) % 64
  let size := (bytes.size * 8).toUInt64
  let body := (List.range zeros).foldl (fun b _ => b.push 0) (bytes.push 0x80)
  (List.range 8).foldl (fun b i => b.push (size >>> (56 - 8 * i.toUInt64)).toUInt8) body

/-- The sixteen words of the block at an offset. -/
def blockWords (bytes : ByteArray) (offset : Nat) : Array UInt32 :=
  (Array.range 16).map fun i =>
    (List.range 4).foldl (fun w k => (w <<< 8) ||| (bytes.get! (offset + 4 * i + k)).toUInt32) 0

/-- The sixteen words of a block extended to sixty-four. -/
def schedule (block : Array UInt32) : Array UInt32 :=
  (List.range 48).foldl (fun w k =>
    let x := w[k + 1]!
    let y := w[k + 14]!
    let s0 := rotate x 7 ^^^ rotate x 18 ^^^ (x >>> 3)
    let s1 := rotate y 17 ^^^ rotate y 19 ^^^ (y >>> 10)
    w.push (w[k]! + s0 + w[k + 9]! + s1)) block

/-- One round with its constant and its word of the schedule. -/
def round (s : Words) (constant word : UInt32) : Words :=
  let s1 := rotate s.e 6 ^^^ rotate s.e 11 ^^^ rotate s.e 25
  let choice := (s.e &&& s.f) ^^^ ((~~~ s.e) &&& s.g)
  let t1 := s.h + s1 + choice + constant + word
  let s0 := rotate s.a 2 ^^^ rotate s.a 13 ^^^ rotate s.a 22
  let majority := (s.a &&& s.b) ^^^ (s.a &&& s.c) ^^^ (s.b &&& s.c)
  ⟨t1 + s0 + majority, s.a, s.b, s.c, s.d + t1, s.e, s.f, s.g⟩

/-- The words behind the block at an offset. -/
def compress (bytes : ByteArray) (s : Words) (offset : Nat) : Words :=
  let w := schedule (blockWords bytes offset)
  let t := (List.range 64).foldl (fun t i => round t roundConstants[i]! w[i]!) s
  ⟨s.a + t.a, s.b + t.b, s.c + t.c, s.d + t.d, s.e + t.e, s.f + t.f, s.g + t.g, s.h + t.h⟩

/-- The words of the digest of some bytes. -/
def sha256 (bytes : ByteArray) : Words :=
  let padded := pad bytes
  (List.range (padded.size / 64)).foldl (fun s i => compress padded s (64 * i)) initial

/-- A word in eight hexadecimal digits. -/
def wordHex (w : UInt32) : String :=
  String.ofList ((List.range 8).map fun i =>
    Nat.digitChar ((w.toNat >>> (28 - 4 * i)) % 16))

/-- The SHA-256 of the UTF-8 bytes of a text in hexadecimal digits. -/
def sha256Hex (text : String) : String :=
  let s := sha256 text.toUTF8
  String.join ([s.a, s.b, s.c, s.d, s.e, s.f, s.g, s.h].map wordHex)

end PluginHost.Digest
