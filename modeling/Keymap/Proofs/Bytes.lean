import Keymap.Text.Plain
import Keymap.Text.Utf8

/-!
# Texts and their bytes

Bytes that are read as a text are the bytes of that text. Inside a character this holds because
what has been read of it and what is still owed determine it: every number that the owed bytes can
lead to is encoded by the bytes read so far and those. A place in a text has a position in its
bytes, and a splice of the text is a splice of the bytes.

## Key results

- `Utf8.decode_eq_ok_iff` — bytes are read as a text exactly if they are its encoding
- `Utf8.encode_splice` — the bytes of a splice
- `Utf8.escape_not_mem` — a text without an escape in its bytes has none
-/

namespace Keymap

namespace Utf8

/-! ## Reading, then writing -/

/-- A number without the bits of its last bytes, six for each. -/
def leadingBits : Nat → Nat → Nat
  | 0, n => n
  | owed + 1, n => leadingBits owed n / 0x40

/-- The last bytes of a number's encoding. -/
def trailing : Nat → Nat → List UInt8
  | 0, _ => []
  | owed + 1, n => UInt8.ofNat (leadingBits owed n % 0x40 + 0x80) :: trailing owed n

/-- The bytes read of a character that has begun. Whatever the next byte is, as long as it is
admitted, every number that begins with the bits read and those of that byte is encoded by the bytes
read and as many bytes as are owed. -/
structure Begun.Leads (b : Begun) (bytes : List UInt8) : Prop where
  owed_pos : 0 < b.owed
  le_least : 0x80 ≤ b.least
  greatest_le : b.greatest ≤ 0xBF
  encodes : ∀ next n, b.least ≤ next → next ≤ b.greatest →
    leadingBits (b.owed - 1) n = b.bits * 0x40 + next % 0x40 →
    String.utf8EncodeChar (Char.ofNat n) = bytes ++ trailing b.owed n

/-- What has been read of the character that the machine is inside of, if it is inside of one. -/
def Pending : Option Begun → List UInt8 → Prop
  | none, bytes => bytes = []
  | some b, bytes => b.Leads bytes

/-- A byte that continues a character is made of its last six bits. -/
theorem Begun.Leads.ofNat_eq {b : Begun} {bytes : List UInt8} {byte : UInt8} (h : b.Leads bytes)
    (hleast : b.least ≤ byte.toNat) (hgreatest : byte.toNat ≤ b.greatest) :
    UInt8.ofNat (byte.toNat % 0x40 + 0x80) = byte := by
  have hle := h.le_least
  have hge := h.greatest_le
  have hbits : byte.toNat % 0x40 + 0x80 = byte.toNat := by omega
  rw [hbits, UInt8.ofNat_toNat]

/-- The encoding of a number that is a character, one case for each number of bytes. -/
theorem encodeChar_ofNat {n : Nat} (h : n.isValidChar) :
    String.utf8EncodeChar (Char.ofNat n) =
      if n ≤ 0x7F then [UInt8.ofNat n]
      else if n ≤ 0x7FF then [UInt8.ofNat (n / 0x40 % 0x20 + 0xC0), UInt8.ofNat (n % 0x40 + 0x80)]
      else if n ≤ 0xFFFF then
        [UInt8.ofNat (n / 0x1000 % 0x10 + 0xE0), UInt8.ofNat (n / 0x40 % 0x40 + 0x80),
          UInt8.ofNat (n % 0x40 + 0x80)]
      else
        [UInt8.ofNat (n / 0x40000 % 0x08 + 0xF0), UInt8.ofNat (n / 0x1000 % 0x40 + 0x80),
          UInt8.ofNat (n / 0x40 % 0x40 + 0x80), UInt8.ofNat (n % 0x40 + 0x80)] := by
  have hself : (Char.ofNat n).val.toNat = n := by
    rw [Char.ofNat, dif_pos h]
    rfl
  rw [String.utf8EncodeChar]
  simp only [hself]

/-- The first byte of a character leads on. -/
theorem leads_of_begin? {pos : Nat} {byte : UInt8} {b : Begun} (h : begin? pos byte = some b) :
    b.Leads [byte] := by
  have hself : UInt8.ofNat byte.toNat = byte := UInt8.ofNat_toNat
  rw [begin?] at h
  generalize byte.toNat = first at h hself
  -- One case for each number of bytes.
  split at h
  · cases h
  split at h
  · obtain rfl := Option.some.inj h
    refine ⟨Nat.one_pos, Nat.le_refl _, Nat.le_refl _, fun next n hleast hgreatest hn => ?_⟩
    simp only [Nat.sub_self, leadingBits] at hleast hgreatest hn
    have hfirst : n / 0x40 % 0x20 + 0xC0 = first := by omega
    rw [encodeChar_ofNat (by left; omega), if_neg (by omega), if_pos (by omega), hfirst, hself]
    simp [trailing, leadingBits]
  split at h
  · obtain rfl := Option.some.inj h
    refine ⟨Nat.two_pos, by dsimp only; split <;> omega, by dsimp only; split <;> omega,
      fun next n hleast hgreatest hn => ?_⟩
    simp only [Nat.reduceSub, leadingBits] at hleast hgreatest hn
    -- The bounds of the next byte keep the number long enough, and outside of the surrogates.
    have hbounds : 0x80 ≤ next ∧ next ≤ 0xBF ∧ (first = 0xE0 → 0xA0 ≤ next) ∧
        (first = 0xED → next ≤ 0x9F) := by
      split at hleast <;> split at hgreatest <;> omega
    clear hleast hgreatest
    have hfirst : n / 0x1000 % 0x10 + 0xE0 = first := by omega
    have hvalid : n.isValidChar := by
      unfold Nat.isValidChar
      omega
    rw [encodeChar_ofNat hvalid, if_neg (by omega), if_neg (by omega), if_pos (by omega), hfirst,
      hself]
    simp [trailing, leadingBits]
  split at h
  · obtain rfl := Option.some.inj h
    refine ⟨Nat.succ_pos _, by dsimp only; split <;> omega, by dsimp only; split <;> omega,
      fun next n hleast hgreatest hn => ?_⟩
    simp only [Nat.reduceSub, leadingBits] at hleast hgreatest hn
    -- The bounds of the next byte keep the number long enough, and among the code points.
    have hbounds : 0x80 ≤ next ∧ next ≤ 0xBF ∧ (first = 0xF0 → 0x90 ≤ next) ∧
        (first = 0xF4 → next ≤ 0x8F) := by
      split at hleast <;> split at hgreatest <;> omega
    clear hleast hgreatest
    have hfirst : n / 0x40000 % 0x08 + 0xF0 = first := by omega
    have hvalid : n.isValidChar := by
      unfold Nat.isValidChar
      omega
    rw [encodeChar_ofNat hvalid, if_neg (by omega), if_neg (by omega), if_neg (by omega), hfirst,
      hself]
    simp [trailing, leadingBits, Nat.div_div_eq_div_mul]
  · cases h

/-- A byte that is admitted goes on with a character. -/
theorem Begun.Leads.next {b : Begun} {bytes : List UInt8} {byte : UInt8} (h : b.Leads bytes)
    (hleast : b.least ≤ byte.toNat) (hgreatest : byte.toNat ≤ b.greatest) (howed : 1 < b.owed) :
    Begun.Leads ⟨b.start, b.first, b.bits * 0x40 + byte.toNat % 0x40, b.owed - 1, 0x80, 0xBF⟩
      (bytes ++ [byte]) := by
  refine ⟨Nat.sub_pos_of_lt howed, Nat.le_refl _, Nat.le_refl _, fun later n _ _ hn => ?_⟩
  have hbyte := h.ofNat_eq hleast hgreatest
  have hencodes := h.encodes byte.toNat n hleast hgreatest
  obtain ⟨owed, howed⟩ := Nat.exists_eq_add_of_le' howed
  simp only [howed, Nat.add_sub_cancel, show owed + 2 - 1 = owed + 1 from rfl] at hn hencodes ⊢
  -- All but the last six bits of the number are those read so far.
  have hbits : leadingBits (owed + 1) n = b.bits * 0x40 + byte.toNat % 0x40 := by
    rw [leadingBits, hn]
    omega
  have hlast : (b.bits * 0x40 + byte.toNat % 0x40) % 0x40 = byte.toNat % 0x40 := by omega
  rw [hencodes hbits, trailing, hbits, hlast, hbyte, List.append_assoc, List.singleton_append]

/-- The last byte of a character ends its encoding. -/
theorem Begun.Leads.last {b : Begun} {bytes : List UInt8} {byte : UInt8} (h : b.Leads bytes)
    (hleast : b.least ≤ byte.toNat) (hgreatest : byte.toNat ≤ b.greatest) (howed : b.owed ≤ 1) :
    String.utf8EncodeChar (Char.ofNat (b.bits * 0x40 + byte.toNat % 0x40)) = bytes ++ [byte] := by
  have hone : b.owed = 1 := Nat.le_antisymm howed h.owed_pos
  have hbyte := h.ofNat_eq hleast hgreatest
  have hlast : (b.bits * 0x40 + byte.toNat % 0x40) % 0x40 = byte.toNat % 0x40 := by omega
  have hencodes := h.encodes byte.toNat (b.bits * 0x40 + byte.toNat % 0x40) hleast hgreatest
  rw [hone] at hencodes
  rw [hencodes rfl, trailing, leadingBits, hlast, hbyte, trailing]

/-- A character and the text behind it are read if they are encoded one after the other. -/
theorem encode_of_map_cons {pos : Nat} {c : Char} {bytes rest : List UInt8} {text : Text}
    (hchar : String.utf8EncodeChar c = bytes) (h : (c :: ·) <$> readFrom pos none rest = .ok text)
    (hrest : ∀ later, readFrom pos none rest = .ok later → encode later = rest) :
    encode text = bytes ++ rest := by
  cases hlater : readFrom pos none rest with
  | error fault =>
    rw [hlater] at h
    cases h
  | ok later =>
    rw [hlater] at h
    obtain rfl := Except.ok.inj h
    rw [encode, List.flatMap_cons, hchar, ← encode, hrest later hlater]

/-- A text that is read behind the bytes of a character that has begun is encoded by all of them. -/
theorem encode_of_readFrom {pos : Nat} {state : Option Begun} {before bytes : List UInt8}
    {text : Text} (hbefore : Pending state before) (h : readFrom pos state bytes = .ok text) :
    encode text = before ++ bytes := by
  -- The induction is on the bytes. `before` are those of a character that has begun.
  induction bytes generalizing pos state before text with
  | nil =>
    cases state with
    | none =>
      obtain rfl : before = [] := hbefore
      obtain rfl := Except.ok.inj h
      rfl
    | some b => cases h
  | cons byte rest ih =>
    have hrest (pos : Nat) (later : Text) (hlater : readFrom pos none rest = .ok later) :
        encode later = rest := @ih pos none [] later rfl hlater
    cases state with
    | none =>
      obtain rfl : before = [] := hbefore
      rw [readFrom] at h
      split at h
      · rename_i hsmall
        -- A small byte is a character of its own.
        have hchar : String.utf8EncodeChar (Char.ofNat byte.toNat) = [byte] := by
          rw [encodeChar_ofNat (by left; omega), if_pos (by omega), UInt8.ofNat_toNat]
        exact @encode_of_map_cons _ _ [byte] rest _ hchar h (hrest _)
      · split at h
        · rename_i b hbegin
          -- The byte begins a character.
          have hleads : Pending (some b) [byte] := leads_of_begin? hbegin
          exact ih hleads h
        · cases h
    | some b =>
      rw [readFrom] at h
      split at h
      · rename_i hwithin
        rw [List.append_cons before byte rest]
        dsimp only at h
        split at h
        · rename_i howed
          -- The byte is the last one that its character is owed.
          exact encode_of_map_cons (hbefore.last hwithin.1 hwithin.2 howed) h (hrest _)
        · rename_i howed
          -- More bytes are owed.
          have hleads : Pending (some _) (before ++ [byte]) :=
            hbefore.next hwithin.1 hwithin.2 (Nat.lt_of_not_le howed)
          exact ih hleads h
      · cases h

/-- Bytes are read as a text exactly if they are its encoding. -/
theorem decode_eq_ok_iff {bytes : List UInt8} {text : Text} :
    decode bytes = .ok text ↔ encode text = bytes := by
  constructor
  · exact @encode_of_readFrom 0 none [] bytes text rfl
  · rintro rfl
    exact decode_encode text

/-! ## Positions -/

/-- Where the bytes of a text from an offset on begin. -/
def position (text : Text) (offset : Nat) : Nat :=
  (encode (text.take offset)).length

/-- The bytes up to a position are those of the text up to the offset. -/
theorem take_position (text : Text) (offset : Nat) :
    (encode text).take (position text offset) = encode (text.take offset) := by
  have hsplit := encode_append (text.take offset) (text.drop offset)
  rw [List.take_append_drop] at hsplit
  rw [hsplit, position, List.take_left]

/-- The bytes from a position on are those of the text from the offset on. -/
theorem drop_position (text : Text) (offset : Nat) :
    (encode text).drop (position text offset) = encode (text.drop offset) := by
  have hsplit := encode_append (text.take offset) (text.drop offset)
  rw [List.take_append_drop] at hsplit
  rw [hsplit, position, List.drop_left]

/-- The bytes of a splice. -/
theorem encode_splice (text : Text) (start stop : Nat) (value : Text) :
    encode (text.splice start stop value) =
      (encode text).take (position text start) ++ encode value ++
        (encode text).drop (position text stop) := by
  rw [Text.splice, encode_append, encode_append, take_position, drop_position]

/-! ## Escapes -/

/-- The byte of an escape. -/
def escapeByte : UInt8 := 0x1B

/-- A text without an escape in its bytes has none. -/
theorem escape_not_mem {text : Text} (h : escapeByte ∉ encode text) : escape ∉ text := by
  intro hmem
  have hbyte : escapeByte ∈ String.utf8EncodeChar escape := by decide
  exact h (List.mem_flatMap.mpr ⟨escape, hmem, hbyte⟩)

end Utf8

end Keymap
