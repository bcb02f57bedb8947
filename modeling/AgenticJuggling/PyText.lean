/-
Python strings as sequences of code points, and their encodings.

A `str` may hold surrogate code points, which no text file holds: `json.loads`
makes them of lone `\uD800` escapes, and the `surrogatepass` handler lets a
decoder accept them.

* `PyStr.encode` — UTF-8, which has no bytes for a surrogate;
* `PyStr.decodeBytes` — the decoding of a `bytes` argument of `json.loads`,
  whose encoding it guesses from the zero bytes and the byte order mark;
* `PyStr.joinSurrogates` — neighbouring surrogates made one code point;
* `PyStr.encode_ascii`, `PyStr.decodeBytes_ascii` — ASCII text is its bytes.
-/
import AgenticJuggling.Base64

/-- A Python `str`: its code points. -/
abbrev PyStr := List ℕ

namespace PyStr

/-- The code points of a text without surrogates. -/
def ofString (s : String) : PyStr := s.toList.map Char.toNat

/-! ### Surrogates -/

def isHigh (c : ℕ) : Prop := 0xD800 ≤ c ∧ c < 0xDC00

def isLow (c : ℕ) : Prop := 0xDC00 ≤ c ∧ c < 0xE000

instance (c : ℕ) : Decidable (isHigh c) := inferInstanceAs (Decidable (0xD800 ≤ c ∧ c < 0xDC00))

instance (c : ℕ) : Decidable (isLow c) := inferInstanceAs (Decidable (0xDC00 ≤ c ∧ c < 0xE000))

/-- The code point of a surrogate pair. -/
def pair (high low : ℕ) : ℕ := 0x10000 + (high - 0xD800) * 0x400 + (low - 0xDC00)

/-- The high surrogate of a code point from `0x10000` on. -/
def highOf (c : ℕ) : ℕ := 0xD800 + (c - 0x10000) / 0x400

def lowOf (c : ℕ) : ℕ := 0xDC00 + (c - 0x10000) % 0x400

/-- Every high surrogate that a low one follows is joined with it. -/
def joinSurrogates : PyStr → PyStr
  | [] => []
  | [c] => [c]
  | c :: d :: s =>
    if isHigh c ∧ isLow d then pair c d :: joinSurrogates s else c :: joinSurrogates (d :: s)

/-! ### Encoding -/

/-- The UTF-8 bytes of a code point; a surrogate has none. -/
def encodePoint (c : ℕ) : Option Bytes :=
  if c < 0x80 then some [UInt8.ofNat c]
  else if c < 0x800 then some [UInt8.ofNat (0xC0 + c / 0x40), UInt8.ofNat (0x80 + c % 0x40)]
  else if isHigh c ∨ isLow c then none
  else if c < 0x10000 then
    some [UInt8.ofNat (0xE0 + c / 0x1000), UInt8.ofNat (0x80 + c / 0x40 % 0x40),
      UInt8.ofNat (0x80 + c % 0x40)]
  else if c < 0x110000 then
    some [UInt8.ofNat (0xF0 + c / 0x40000), UInt8.ofNat (0x80 + c / 0x1000 % 0x40),
      UInt8.ofNat (0x80 + c / 0x40 % 0x40), UInt8.ofNat (0x80 + c % 0x40)]
  else none

/-- `s.encode()`; `none` where it raises. -/
def encode : PyStr → Option Bytes
  | [] => some []
  | c :: s => do
    let bytes ← encodePoint c
    let rest ← encode s
    some (bytes ++ rest)

/-! ### Decoding, with `surrogatepass` -/

/-- The payload of a continuation byte. -/
def continuation (b : UInt8) : Option ℕ :=
  if 0x80 ≤ b ∧ b < 0xC0 then some (b.toNat - 0x80) else none

/-- UTF-8, in which surrogates pass. -/
def fromUtf8 : Bytes → Option PyStr
  | [] => some []
  | b :: rest =>
    if b < 0x80 then (fromUtf8 rest).map (b.toNat :: ·)
    else if 0xC2 ≤ b ∧ b < 0xE0 then
      match rest with
      | b1 :: rest => do
        let c1 ← continuation b1
        let s ← fromUtf8 rest
        some (((b.toNat - 0xC0) * 0x40 + c1) :: s)
      | _ => none
    else if 0xE0 ≤ b ∧ b < 0xF0 then
      match rest with
      | b1 :: b2 :: rest => do
        let c1 ← continuation b1
        let c2 ← continuation b2
        let s ← fromUtf8 rest
        let c := ((b.toNat - 0xE0) * 0x40 + c1) * 0x40 + c2
        -- An overlong form is refused, a surrogate is not.
        if 0x800 ≤ c then some (c :: s) else none
      | _ => none
    else if 0xF0 ≤ b ∧ b < 0xF5 then
      match rest with
      | b1 :: b2 :: b3 :: rest => do
        let c1 ← continuation b1
        let c2 ← continuation b2
        let c3 ← continuation b3
        let s ← fromUtf8 rest
        let c := (((b.toNat - 0xF0) * 0x40 + c1) * 0x40 + c2) * 0x40 + c3
        if 0x10000 ≤ c ∧ c < 0x110000 then some (c :: s) else none
      | _ => none
    else none

/-- The number of a group of bytes. -/
def word (bigEndian : Bool) (group : Bytes) : ℕ :=
  (if bigEndian then group else group.reverse).foldl (fun n b => n * 0x100 + b.toNat) 0

/-- The numbers of the two-byte groups; `none` where bytes are left over. -/
def words16 (bigEndian : Bool) : Bytes → Option (List ℕ)
  | [] => some []
  | a :: b :: rest => (words16 bigEndian rest).map (word bigEndian [a, b] :: ·)
  | _ => none

def words32 (bigEndian : Bool) : Bytes → Option (List ℕ)
  | [] => some []
  | a :: b :: c :: d :: rest => (words32 bigEndian rest).map (word bigEndian [a, b, c, d] :: ·)
  | _ => none

def fromUtf16 (bigEndian : Bool) (b : Bytes) : Option PyStr :=
  (words16 bigEndian b).map joinSurrogates

def fromUtf32 (bigEndian : Bool) (b : Bytes) : Option PyStr :=
  (words32 bigEndian b).filter fun s => s.all fun c => decide (c < 0x110000)

inductive Encoding
  | utf8
  | utf8Sig
  | utf16
  | utf16le
  | utf16be
  | utf32
  | utf32le
  | utf32be
  deriving DecidableEq

/-- `detect_encoding` of the `json` module. -/
def detectEncoding (b : Bytes) : Encoding :=
  if [0, 0, 0xFE, 0xFF].isPrefixOf b ∨ [0xFF, 0xFE, 0, 0].isPrefixOf b then .utf32
  else if [0xFE, 0xFF].isPrefixOf b ∨ [0xFF, 0xFE].isPrefixOf b then .utf16
  else if [0xEF, 0xBB, 0xBF].isPrefixOf b then .utf8Sig
  else
    -- Without a mark the zero bytes tell, for a text begins with ASCII.
    match b with
    | b0 :: b1 :: b2 :: b3 :: _ =>
      if b0 = 0 then if b1 ≠ 0 then .utf16be else .utf32be
      else if b1 = 0 then if b2 ≠ 0 ∨ b3 ≠ 0 then .utf16le else .utf32le
      else .utf8
    | [b0, b1] => if b0 = 0 then .utf16be else if b1 = 0 then .utf16le else .utf8
    | _ => .utf8

/-- `b.decode(encoding, 'surrogatepass')`; a byte order mark is dropped. -/
def decodeAs : Encoding → Bytes → Option PyStr
  | .utf8, b => fromUtf8 b
  | .utf8Sig, b => fromUtf8 (b.drop 3)
  | .utf16, b => fromUtf16 ([0xFE, 0xFF].isPrefixOf b) (b.drop 2)
  | .utf16le, b => fromUtf16 false b
  | .utf16be, b => fromUtf16 true b
  | .utf32, b => fromUtf32 ([0, 0, 0xFE, 0xFF].isPrefixOf b) (b.drop 4)
  | .utf32le, b => fromUtf32 false b
  | .utf32be, b => fromUtf32 true b

/-- The text of a `bytes` argument; `none` where the decoder raises. -/
def decodeBytes (b : Bytes) : Option PyStr := decodeAs (detectEncoding b) b

/-! ### Text without surrogates -/

/-- Every code point is one of Unicode's, and no low surrogate follows a high one. -/
structure Unpaired (s : PyStr) : Prop where
  lt : ∀ c ∈ s, c < 0x110000
  joined : joinSurrogates s = s

theorem joinSurrogates_of_not_high {s : PyStr} (h : ∀ c ∈ s, ¬isHigh c) :
    joinSurrogates s = s := by
  induction s with
  | nil => rfl
  | cons c s ih =>
    cases s with
    | nil => rfl
    | cons d s =>
      have hc : ¬isHigh c := h c List.mem_cons_self
      rw [joinSurrogates, if_neg fun hp => hc hp.1,
        ih fun c hc => h c (List.mem_cons_of_mem _ hc)]

theorem unpaired_ofString (s : String) : (ofString s).Unpaired := by
  have hvalid : ∀ c ∈ ofString s, c < 0xD800 ∨ 0xDFFF < c ∧ c < 0x110000 := by
    intro c hc
    obtain ⟨ch, -, rfl⟩ := List.mem_map.mp hc
    exact ch.valid
  refine ⟨fun c hc => ?_, joinSurrogates_of_not_high fun c hc hhigh => ?_⟩
  · have h := hvalid c hc
    omega
  · have h := hvalid c hc
    unfold isHigh at hhigh
    omega

/-! ### ASCII text -/

/-- The bytes of an ASCII text. -/
def asciiBytes (s : PyStr) : Bytes := s.map UInt8.ofNat

/-- The characters of an ASCII text other than NUL. -/
def Ascii (s : PyStr) : Prop := ∀ c ∈ s, 0 < c ∧ c < 0x80

theorem encode_ascii {s : PyStr} (h : Ascii s) : encode s = some (asciiBytes s) := by
  induction s with
  | nil => rfl
  | cons c s ih =>
    obtain ⟨hc, hs⟩ := List.forall_mem_cons.mp h
    rw [encode, encodePoint, if_pos hc.2, ih hs]
    rfl

theorem ofNat_toNat {c : ℕ} (h : c < 0x80) : (UInt8.ofNat c).toNat = c := by
  rw [UInt8.toNat_ofNat']
  omega

theorem fromUtf8_cons {b : UInt8} (hb : b < 0x80) (rest : Bytes) :
    fromUtf8 (b :: rest) = (fromUtf8 rest).map (b.toNat :: ·) := by
  rw [fromUtf8.eq_def]
  exact if_pos hb

theorem fromUtf8_ascii {s : PyStr} (h : Ascii s) : fromUtf8 (asciiBytes s) = some s := by
  induction s with
  | nil => simp [asciiBytes, fromUtf8]
  | cons c s ih =>
    obtain ⟨hc, hs⟩ := List.forall_mem_cons.mp h
    have hlt : UInt8.ofNat c < 0x80 := by
      rw [UInt8.lt_iff_toNat_lt, ofNat_toNat hc.2]
      exact hc.2
    rw [asciiBytes, List.map_cons, fromUtf8_cons hlt, ← asciiBytes, ih hs, ofNat_toNat hc.2]
    rfl

/-- No character of ASCII text is a zero byte or begins a byte order mark. -/
theorem asciiByte_ne {c : ℕ} (h : 0 < c ∧ c < 0x80) {b : UInt8} (hb : b = 0 ∨ 0x80 ≤ b.toNat) :
    UInt8.ofNat c ≠ b := by
  rintro rfl
  rw [ofNat_toNat h.2] at hb
  rcases hb with hzero | hle
  · have hnat : (UInt8.ofNat c).toNat = 0 := by rw [hzero]; rfl
    rw [ofNat_toNat h.2] at hnat
    omega
  · omega

theorem not_isPrefixOf_ascii {s : PyStr} (h : Ascii s) {b : UInt8} (hb : b = 0 ∨ 0x80 ≤ b.toNat)
    (mark : Bytes) : ¬(b :: mark).isPrefixOf (asciiBytes s) = true := by
  cases s with
  | nil => simp [asciiBytes]
  | cons c s =>
    have hne : b ≠ UInt8.ofNat c := (asciiByte_ne (h c List.mem_cons_self) hb).symm
    simp [asciiBytes, List.isPrefixOf, hne]

/-- ASCII text is taken for UTF-8. -/
theorem detectEncoding_ascii {s : PyStr} (h : Ascii s) : detectEncoding (asciiBytes s) = .utf8 := by
  have hmark : ∀ (b : UInt8) (mark : Bytes), b = 0 ∨ 0x80 ≤ b.toNat →
      ¬(b :: mark).isPrefixOf (asciiBytes s) = true :=
    fun b mark hb => not_isPrefixOf_ascii h hb mark
  have hzero : ∀ b ∈ asciiBytes s, b ≠ 0 := by
    intro b hb
    obtain ⟨c, hc, rfl⟩ := List.mem_map.mp hb
    exact asciiByte_ne (h c hc) (.inl rfl)
  unfold detectEncoding
  -- No byte order mark.
  rw [if_neg (not_or.mpr ⟨hmark 0 _ (.inl rfl), hmark 0xFF _ (.inr (by decide))⟩),
    if_neg (not_or.mpr ⟨hmark 0xFE _ (.inr (by decide)), hmark 0xFF _ (.inr (by decide))⟩),
    if_neg (hmark 0xEF _ (.inr (by decide)))]
  -- And no zero byte among the first.
  split
  · next b0 b1 b2 b3 rest heq =>
    rw [if_neg (hzero b0 (by simp [heq])), if_neg (hzero b1 (by simp [heq]))]
  · next b0 b1 heq =>
    rw [if_neg (hzero b0 (by simp [heq])), if_neg (hzero b1 (by simp [heq]))]
  · rfl

theorem decodeBytes_ascii {s : PyStr} (h : Ascii s) : decodeBytes (asciiBytes s) = some s := by
  rw [decodeBytes, detectEncoding_ascii h, decodeAs, fromUtf8_ascii h]

end PyStr
