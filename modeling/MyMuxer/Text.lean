import MyMuxer.Rust

/-!
# Strings

The `str` operations the source uses: `as_bytes`, `trim`, and `String::from_utf8_lossy`, which
replaces every maximal invalid part by U+FFFD.
-/

namespace MyMuxer

/-- `s.as_bytes()`. -/
def strBytes (s : String) : Bytes := s.toList.flatMap String.utf8EncodeChar

/-- The Unicode property `White_Space`. -/
def isWhiteSpace (c : Char) : Bool :=
  let n := c.toNat
  (9 ≤ n && n ≤ 13) || n = 0x20 || n = 0x85 || n = 0xA0 || n = 0x1680 || (0x2000 ≤ n && n ≤ 0x200A) ||
    n = 0x2028 || n = 0x2029 || n = 0x202F || n = 0x205F || n = 0x3000

/-- `s.trim()`. -/
def trim (s : String) : String :=
  String.ofList ((s.toList.dropWhile isWhiteSpace).reverse.dropWhile isWhiteSpace).reverse

/-- A continuation byte in the range that may follow the bytes before it. -/
def follows (lo hi : ℕ) (b : Option UInt8) : Bool :=
  match b with
  | some b => lo ≤ b.toNat && b.toNat ≤ hi
  | none => false

/-- The range of the second byte of a sequence that starts with `b`. -/
def secondRange (b : ℕ) : ℕ × ℕ :=
  if b = 0xE0 then (0xA0, 0xBF)
  else if b = 0xED then (0x80, 0x9F)
  else if b = 0xF0 then (0x90, 0xBF)
  else if b = 0xF4 then (0x80, 0x8F)
  else (0x80, 0xBF)

/-- The low six bits of byte `i`. -/
def cont (l : Bytes) (i : ℕ) : ℕ := (byte l i).toNat % 64

/-- The character at the front of a non-empty `l`, and how many bytes it takes. -/
def utf8Front (l : Bytes) : Char × ℕ :=
  let b := (byte l 0).toNat
  let bad : Char := Char.ofNat 0xFFFD
  if b < 0x80 then (Char.ofNat b, 1)
  else if b < 0xC2 ∨ 0xF4 < b then (bad, 1)
  else if ¬ follows (secondRange b).1 (secondRange b).2 l[1]? then (bad, 1)
  else if b < 0xE0 then (Char.ofNat (b % 32 * 64 + cont l 1), 2)
  else if ¬ follows 0x80 0xBF l[2]? then (bad, 2)
  else if b < 0xF0 then (Char.ofNat (b % 16 * 4096 + cont l 1 * 64 + cont l 2), 3)
  else if ¬ follows 0x80 0xBF l[3]? then (bad, 3)
  else (Char.ofNat (b % 8 * 262144 + cont l 1 * 4096 + cont l 2 * 64 + cont l 3), 4)

/-- The characters of `l`, at most `fuel` of them. -/
def utf8LossyLoop : ℕ → Bytes → List Char
  | 0, _ => []
  | fuel + 1, l =>
    if l = [] then [] else (utf8Front l).1 :: utf8LossyLoop fuel (l.drop (utf8Front l).2)

/-- `String::from_utf8_lossy`. -/
def fromUtf8Lossy (l : Bytes) : String := String.ofList (utf8LossyLoop l.length l)

end MyMuxer
