import Keymap.Text.Decimal

/-!
# UTF-8

Files hold bytes. Writing a text is core's encoding of each character in turn; reading runs a
machine over the bytes that is either between characters or inside one, and that stops at the
first byte which cannot go on. Only shortest encodings of Unicode scalar values are read.

## Key results

- `Utf8.encode_append` — the bytes of two texts follow each other
- `Utf8.decode_encode` — what is written is what is read
-/

namespace Keymap

namespace Utf8

/-- The bytes of a text. -/
def encode (text : Text) : List UInt8 :=
  text.flatMap String.utf8EncodeChar

/-- Why bytes are not the encoding of a text. -/
inductive Reason where
  /-- No character begins with this byte. -/
  | invalidStart
  /-- A character has begun, and this byte cannot go on with it. -/
  | invalidContinuation
  /-- The bytes end inside a character. -/
  | unexpectedEnd
  deriving DecidableEq, Repr

/-- A stretch of bytes that encodes nothing: where it lies, and its first byte. -/
structure Fault where
  start : Nat
  stop : Nat
  first : UInt8
  reason : Reason
  deriving DecidableEq, Repr

/-- A character that has begun: where, with which byte, the bits read so far, how many bytes are
owed, and the least and the greatest value that the next one may have. -/
structure Begun where
  start : Nat
  first : UInt8
  bits : Nat
  owed : Nat
  least : Nat
  greatest : Nat

/-- What the first byte of a character of several bytes promises. The bounds on the second byte
leave out longer encodings of smaller numbers, the surrogates, and numbers past U+10FFFF. -/
def begin? (pos : Nat) (byte : UInt8) : Option Begun :=
  let n := byte.toNat
  if n < 0xC2 then none
  else if n < 0xE0 then some ⟨pos, byte, n % 0x20, 1, 0x80, 0xBF⟩
  else if n < 0xF0 then
    some ⟨pos, byte, n % 0x10, 2, if n = 0xE0 then 0xA0 else 0x80, if n = 0xED then 0x9F else 0xBF⟩
  else if n < 0xF5 then
    some ⟨pos, byte, n % 0x08, 3, if n = 0xF0 then 0x90 else 0x80, if n = 0xF4 then 0x8F else 0xBF⟩
  else none

/-- Read the bytes from a position on, between characters or inside one. -/
def readFrom : Nat → Option Begun → List UInt8 → Except Fault Text
  | _, none, [] => .ok []
  | pos, some b, [] => .error ⟨b.start, pos, b.first, .unexpectedEnd⟩
  -- Between characters.
  | pos, none, byte :: rest =>
    if byte.toNat < 0x80 then
      (Char.ofNat byte.toNat :: ·) <$> readFrom (pos + 1) none rest
    else match begin? pos byte with
      | some b => readFrom (pos + 1) (some b) rest
      | none => .error ⟨pos, pos + 1, byte, .invalidStart⟩
  -- Inside a character.
  | pos, some b, byte :: rest =>
    if b.least ≤ byte.toNat ∧ byte.toNat ≤ b.greatest then
      let bits := b.bits * 0x40 + byte.toNat % 0x40
      if b.owed ≤ 1 then
        (Char.ofNat bits :: ·) <$> readFrom (pos + 1) none rest
      else
        readFrom (pos + 1) (some ⟨b.start, b.first, bits, b.owed - 1, 0x80, 0xBF⟩) rest
    else .error ⟨b.start, pos, b.first, .invalidContinuation⟩

/-- The text whose bytes these are. -/
def decode (bytes : List UInt8) : Except Fault Text :=
  readFrom 0 none bytes

/-! ## Describing a fault -/

/-- The wording of a reason. -/
def Reason.message : Reason → Text
  | .invalidStart => "invalid start byte".toList
  | .invalidContinuation => "invalid continuation byte".toList
  | .unexpectedEnd => "unexpected end of data".toList

/-- A byte as two hexadecimal digits. -/
def hexByte (byte : UInt8) : Text :=
  [Nat.digitChar (byte.toNat / 16), Nat.digitChar (byte.toNat % 16)]

/-- The wording of a fault. A single byte is shown, several are only located. -/
def Fault.message (fault : Fault) : Text :=
  let place :=
    if fault.stop = fault.start + 1 then
      "byte 0x".toList ++ hexByte fault.first ++ " in position ".toList ++ Text.ofNat fault.start
    else
      "bytes in position ".toList ++ Text.ofNat fault.start ++ "-".toList ++
        Text.ofNat (fault.stop - 1)
  "'utf-8' codec can't decode ".toList ++ place ++ ": ".toList ++ fault.reason.message

/-! ## Writing, then reading -/

/-- The bytes of two texts follow each other. -/
theorem encode_append (s t : Text) : encode (s ++ t) = encode s ++ encode t :=
  List.flatMap_append

/-- The encoding of a character is read as that character, whatever comes after it. -/
theorem readFrom_encodeChar (pos : Nat) (c : Char) (rest : List UInt8) :
    readFrom pos none (String.utf8EncodeChar c ++ rest) =
      (c :: ·) <$> readFrom (pos + (String.utf8EncodeChar c).length) none rest := by
  have hvalid : c.toNat < 0xD800 ∨ 0xDFFF < c.toNat ∧ c.toNat < 0x110000 := c.valid
  have hself := Char.ofNat_toNat c
  -- What is taken for a byte is small enough to be one.
  have hbyte (n : Nat) (h : n < 0x100) : (UInt8.ofNat n).toNat = n := by
    rw [UInt8.toNat_ofNat', Nat.mod_eq_of_lt h]
  rw [String.utf8EncodeChar]
  simp only [show c.val.toNat = c.toNat from rfl]
  generalize c.toNat = n at *
  -- One case for each number of bytes.
  split
  · have h₀ := hbyte n (by omega)
    simp only [List.cons_append, List.nil_append, readFrom, h₀]
    rw [if_pos (by omega), hself]
    rfl
  · split
    · have h₀ := hbyte (n / 64 % 32 + 192) (by omega)
      have h₁ := hbyte (n % 64 + 128) (by omega)
      simp only [List.cons_append, List.nil_append, readFrom, begin?, h₀, h₁]
      rw [if_neg (by omega), if_neg (by omega), if_pos (by omega)]
      simp only
      rw [if_pos (by omega), if_pos (by omega),
        show (n / 64 % 32 + 192) % 32 * 64 + (n % 64 + 128) % 64 = n by omega, hself]
      rfl
    · split
      · have h₀ := hbyte (n / 4096 % 16 + 224) (by omega)
        have h₁ := hbyte (n / 64 % 64 + 128) (by omega)
        have h₂ := hbyte (n % 64 + 128) (by omega)
        simp only [List.cons_append, List.nil_append, readFrom, begin?, h₀, h₁, h₂]
        rw [if_neg (by omega), if_neg (by omega), if_neg (by omega), if_pos (by omega)]
        simp only
        rw [if_pos (by split <;> split <;> omega), if_neg (by omega), if_pos (by omega),
          if_pos (by omega),
          show ((n / 4096 % 16 + 224) % 16 * 64 + (n / 64 % 64 + 128) % 64) * 64 +
            (n % 64 + 128) % 64 = n by omega, hself]
        rfl
      · have h₀ := hbyte (n / 262144 % 8 + 240) (by omega)
        have h₁ := hbyte (n / 4096 % 64 + 128) (by omega)
        have h₂ := hbyte (n / 64 % 64 + 128) (by omega)
        have h₃ := hbyte (n % 64 + 128) (by omega)
        simp only [List.cons_append, List.nil_append, readFrom, begin?, h₀, h₁, h₂, h₃]
        rw [if_neg (by omega), if_neg (by omega), if_neg (by omega), if_neg (by omega),
          if_pos (by omega)]
        simp only
        rw [if_pos (by split <;> split <;> omega), if_neg (by omega), if_pos (by omega),
          if_neg (by omega), if_pos (by omega), if_pos (by omega),
          show (((n / 262144 % 8 + 240) % 8 * 64 + (n / 4096 % 64 + 128) % 64) * 64 +
            (n / 64 % 64 + 128) % 64) * 64 + (n % 64 + 128) % 64 = n by omega, hself]
        rfl

/-- What is written is what is read. -/
theorem decode_encode (text : Text) : decode (encode text) = .ok text := by
  suffices h : ∀ pos, readFrom pos none (encode text) = .ok text from h 0
  induction text with
  | nil => exact fun _ => rfl
  | cons c rest ih =>
    intro pos
    rw [encode, List.flatMap_cons, readFrom_encodeChar]
    exact congrArg _ (ih _)

end Utf8

end Keymap
