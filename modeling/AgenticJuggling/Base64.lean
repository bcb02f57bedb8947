/-
Base64 as Python's `base64` module computes it.

`b64encode` writes every three bytes as four characters and pads the last
group with `=`.  `b64decode` is the lenient decoder: characters outside the
alphabet are skipped, a pad that completes a group ends the input, and a group
left incomplete is an error.  `b64decode_b64encode` — decoding inverts
encoding.
-/
import Mathlib

/-- A Python `bytes` value. -/
abbrev Bytes := List UInt8

namespace Base64

/-- The 64 digits, in order. -/
def alphabet : List Char :=
  "ABCDEFGHIJKLMNOPQRSTUVWXYZabcdefghijklmnopqrstuvwxyz0123456789+/".toList

/-- The digit for a six-bit value. -/
def digit (v : ℕ) : Char := alphabet.getD v '='

/-- The six-bit value of a digit; `none` outside the alphabet. -/
def value? (c : Char) : Option ℕ := alphabet.idxOf? c

/-- Four digits for every three bytes, the last group padded with `=`. -/
def encodeChars : Bytes → List Char
  | a :: b :: c :: rest =>
    digit (a.toNat / 4) :: digit (a.toNat % 4 * 16 + b.toNat / 16) ::
      digit (b.toNat % 16 * 4 + c.toNat / 64) :: digit (c.toNat % 64) :: encodeChars rest
  | [a, b] =>
    [digit (a.toNat / 4), digit (a.toNat % 4 * 16 + b.toNat / 16), digit (b.toNat % 16 * 4), '=']
  | [a] => [digit (a.toNat / 4), digit (a.toNat % 4 * 16), '=', '=']
  | [] => []

/-- The decoding loop.  `quad` counts the digits of the group read so far,
`left` holds their bits not yet emitted and `pads` the pads since the last
digit. -/
def decodeChars : List Char → (quad left pads : ℕ) → Option Bytes
  | [], quad, _, _ => if quad = 0 then some [] else none
  | ch :: cs, quad, left, pads =>
    if ch = '=' then
      if 2 ≤ quad ∧ 4 ≤ quad + (pads + 1) then some []
      else decodeChars cs quad left (if 2 ≤ quad then pads + 1 else pads)
    else
      match value? ch with
      | none => decodeChars cs quad left pads
      | some v =>
        match quad with
        | 0 => decodeChars cs 1 v 0
        | 1 => (decodeChars cs 2 (v % 16) 0).map (UInt8.ofNat (left * 4 + v / 16) :: ·)
        | 2 => (decodeChars cs 3 (v % 4) 0).map (UInt8.ofNat (left * 16 + v / 4) :: ·)
        | _ => (decodeChars cs 0 0 0).map (UInt8.ofNat (left * 64 + v) :: ·)

/-- `base64.b64encode(data).decode()`. -/
def b64encode (data : Bytes) : String := String.ofList (encodeChars data)

/-- `base64.b64decode(s)`; `none` where it raises. -/
def b64decode (s : String) : Option Bytes :=
  if s.toList.all (·.toNat < 128) then decodeChars s.toList 0 0 0 else none

set_option maxRecDepth 2000 in
theorem digit_ne_pad : ∀ v < 64, digit v ≠ '=' := by decide

set_option maxRecDepth 8000 in
theorem value?_digit : ∀ v < 64, value? (digit v) = some v := by decide

set_option maxRecDepth 2000 in
theorem digit_ascii : ∀ v < 64, (digit v).toNat < 128 := by decide

/-- One digit read as the first of a group. -/
private theorem decodeChars_zero {v : ℕ} (h : v < 64) (cs : List Char) (left pads : ℕ) :
    decodeChars (digit v :: cs) 0 left pads = decodeChars cs 1 v 0 := by
  rw [decodeChars, if_neg (digit_ne_pad v h), value?_digit v h]
  rfl

private theorem decodeChars_one {v : ℕ} (h : v < 64) (cs : List Char) (left pads : ℕ) :
    decodeChars (digit v :: cs) 1 left pads
      = (decodeChars cs 2 (v % 16) 0).map (UInt8.ofNat (left * 4 + v / 16) :: ·) := by
  rw [decodeChars, if_neg (digit_ne_pad v h), value?_digit v h]
  rfl

private theorem decodeChars_two {v : ℕ} (h : v < 64) (cs : List Char) (left pads : ℕ) :
    decodeChars (digit v :: cs) 2 left pads
      = (decodeChars cs 3 (v % 4) 0).map (UInt8.ofNat (left * 16 + v / 4) :: ·) := by
  rw [decodeChars, if_neg (digit_ne_pad v h), value?_digit v h]
  rfl

private theorem decodeChars_three {v : ℕ} (h : v < 64) (cs : List Char) (left pads : ℕ) :
    decodeChars (digit v :: cs) 3 left pads
      = (decodeChars cs 0 0 0).map (UInt8.ofNat (left * 64 + v) :: ·) := by
  rw [decodeChars, if_neg (digit_ne_pad v h), value?_digit v h]
  rfl

private theorem ofNat_eq {a : UInt8} {n : ℕ} (h : n = a.toNat) : UInt8.ofNat n = a := by
  rw [h, UInt8.ofNat_toNat]

theorem decodeChars_encodeChars (data : Bytes) :
    decodeChars (encodeChars data) 0 0 0 = some data := by
  induction data using encodeChars.induct with
  | case1 a b c rest ih =>
    have ha := a.toNat_lt
    have hb := b.toNat_lt
    have hc := c.toNat_lt
    rw [encodeChars, decodeChars_zero (by omega), decodeChars_one (by omega),
      decodeChars_two (by omega), decodeChars_three (by omega), ih]
    simp only [Option.map_some]
    rw [ofNat_eq (a := a) (by omega), ofNat_eq (a := b) (by omega), ofNat_eq (a := c) (by omega)]
  | case2 a b =>
    have ha := a.toNat_lt
    have hb := b.toNat_lt
    rw [encodeChars, decodeChars_zero (by omega), decodeChars_one (by omega),
      decodeChars_two (by omega)]
    simp only [decodeChars]
    rw [ofNat_eq (a := a) (by omega), ofNat_eq (a := b) (by omega)]
    simp
  | case3 a =>
    have ha := a.toNat_lt
    rw [encodeChars, decodeChars_zero (by omega), decodeChars_one (by omega)]
    simp only [decodeChars]
    rw [ofNat_eq (a := a) (by omega)]
    simp
  | case4 => rfl

theorem encodeChars_ascii (data : Bytes) : ∀ ch ∈ encodeChars data, ch.toNat < 128 := by
  induction data using encodeChars.induct with
  | case1 a b c rest ih =>
    have ha := a.toNat_lt
    have hb := b.toNat_lt
    have hc := c.toNat_lt
    simp only [encodeChars, List.forall_mem_cons]
    exact ⟨digit_ascii _ (by omega), digit_ascii _ (by omega), digit_ascii _ (by omega),
      digit_ascii _ (by omega), ih⟩
  | case2 a b =>
    have ha := a.toNat_lt
    have hb := b.toNat_lt
    simp only [encodeChars, List.forall_mem_cons]
    exact ⟨digit_ascii _ (by omega), digit_ascii _ (by omega), digit_ascii _ (by omega),
      by decide, by simp⟩
  | case3 a =>
    have ha := a.toNat_lt
    simp only [encodeChars, List.forall_mem_cons]
    exact ⟨digit_ascii _ (by omega), digit_ascii _ (by omega), by decide, by decide, by simp⟩
  | case4 => simp [encodeChars]

/-- **Decoding inverts encoding.** -/
theorem b64decode_b64encode (data : Bytes) : b64decode (b64encode data) = some data := by
  have hall : (encodeChars data).all (·.toNat < 128) := by
    rw [List.all_eq_true]
    exact fun ch hch => decide_eq_true (encodeChars_ascii data ch hch)
  rw [b64decode, b64encode, String.toList_ofList, if_pos hall, decodeChars_encodeChars]

end Base64
