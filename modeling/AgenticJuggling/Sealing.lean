/-
Key agreement and authenticated encryption, as an interface.

`Primitives` collects the functions a program takes from a cryptography
package: an X25519-style exchange, a key derivation and an AEAD cipher.
`Primitives.Lawful` is what such a program relies on: both ends of an exchange
compute the same secret, the raw bytes of a public key parse, and decryption
inverts encryption under equal key, nonce and associated data.

On top of it, the wire form `base64 (nonce ‖ ciphertext)`:

* `openBlob_sealBlob` — opening a sealed message under the same key and associated
  data returns the message;
* `eq_of_openBlob_sealBlob` — with an ideal cipher it opens under no other;
* `sessionKey_comm` — both ends of a key agreement derive the same key;
* `decodeUtf8_utf8` — text survives its encoding.
-/
import AgenticJuggling.Base64

open Base64

/-- A 12-byte AES-GCM nonce. -/
structure Nonce where
  bytes : Bytes
  length_eq : bytes.length = 12

/-- The all-zero nonce. -/
def Nonce.zero : Nonce := ⟨List.replicate 12 0, by decide⟩

/-- `s.encode()`. -/
def utf8 (s : String) : Bytes := s.toUTF8.data.toList

/-- `b.decode()`; `none` where it raises. -/
def decodeUtf8 (b : Bytes) : Option String := String.fromUTF8? ⟨b.toArray⟩

@[simp] theorem decodeUtf8_utf8 (s : String) : decodeUtf8 (utf8 s) = some s := by
  have hb : (⟨(utf8 s).toArray⟩ : ByteArray) = s.toUTF8 := by
    rw [utf8, Array.toArray_toList]
  rw [decodeUtf8, hb, String.fromUTF8?, String.toUTF8_eq_toByteArray, dif_pos s.isValidUTF8]
  rfl

/-- The cryptographic functions a program calls. -/
structure Primitives where
  /-- The raw public key of a private key. -/
  publicKey : Bytes → Bytes
  /-- Parse a raw public key; `none` where the package raises. -/
  fromPublicBytes : Bytes → Option Bytes
  /-- The secret shared by a private key and a peer's public key. -/
  exchange : Bytes → Bytes → Option Bytes
  /-- Derive a key from a shared secret. -/
  hkdf : Bytes → Bytes
  /-- `encrypt key nonce data aad`. -/
  encrypt : Bytes → Bytes → Bytes → Option Bytes → Bytes
  /-- `decrypt key nonce data aad`; `none` where authentication fails. -/
  decrypt : Bytes → Bytes → Bytes → Option Bytes → Option Bytes

namespace Primitives

/-- What a program relies on. -/
structure Lawful (P : Primitives) : Prop where
  fromPublicBytes_publicKey : ∀ a, P.fromPublicBytes (P.publicKey a) = some (P.publicKey a)
  exchange_comm : ∀ a b, P.exchange a (P.publicKey b) = P.exchange b (P.publicKey a)
  decrypt_encrypt : ∀ key (nonce : Nonce) data aad,
    P.decrypt key nonce.bytes (P.encrypt key nonce.bytes data aad) aad = some data

/-- An ideal cipher: what was encrypted decrypts only under the same key and
associated data, and to what was encrypted.  No associated data is the same as
empty data. -/
structure Ideal (P : Primitives) : Prop where
  eq_of_decrypt : ∀ key key' (nonce : Nonce) data data' aad aad',
    P.decrypt key' nonce.bytes (P.encrypt key nonce.bytes data aad) aad' = some data' →
      key' = key ∧ aad'.getD [] = aad.getD [] ∧ data' = data

variable (P : Primitives)

/-- The key derived from a private key and a peer's public key. -/
def sessionKey (priv peer : Bytes) : Option Bytes := (P.exchange priv peer).map P.hkdf

/-- `base64 (nonce ‖ ciphertext)`. -/
def sealBlob (key : Bytes) (nonce : Nonce) (data : Bytes) (aad : Option Bytes) : String :=
  b64encode (nonce.bytes ++ P.encrypt key nonce.bytes data aad)

/-- Split a blob after the nonce and decrypt the rest. -/
def openBlob (key : Bytes) (blob : String) (aad : Option Bytes) : Option Bytes :=
  (b64decode blob).bind fun b => P.decrypt key (b.take 12) (b.drop 12) aad

variable {P}

theorem openBlob_sealBlob (hP : P.Lawful) (key : Bytes) (nonce : Nonce) (data : Bytes)
    (aad : Option Bytes) : P.openBlob key (P.sealBlob key nonce data aad) aad = some data := by
  rw [openBlob, sealBlob, b64decode_b64encode, Option.bind_some]
  rw [List.take_left' nonce.length_eq, List.drop_left' nonce.length_eq]
  exact hP.decrypt_encrypt key nonce data aad

theorem eq_of_openBlob_sealBlob (hP : P.Ideal) {key key' : Bytes} {nonce : Nonce}
    {data data' : Bytes} {aad aad' : Option Bytes}
    (h : P.openBlob key' (P.sealBlob key nonce data aad) aad' = some data') :
    key' = key ∧ aad'.getD [] = aad.getD [] ∧ data' = data := by
  rw [openBlob, sealBlob, b64decode_b64encode, Option.bind_some] at h
  rw [List.take_left' nonce.length_eq, List.drop_left' nonce.length_eq] at h
  exact hP.eq_of_decrypt key key' nonce data data' aad aad' h

/-- **Both ends of a key agreement derive the same key.** -/
theorem sessionKey_comm (hP : P.Lawful) (a b : Bytes) :
    P.sessionKey a (P.publicKey b) = P.sessionKey b (P.publicKey a) := by
  rw [sessionKey, sessionKey, hP.exchange_comm a b]

/-- 32 bytes, as raw keys have. -/
def raw32 (b : Bytes) : Bytes := (b ++ List.replicate 32 0).take 32

/-- A cipher suite that computes: a key agreement by addition and a cipher that
appends the key, the nonce and the associated data as its tag. -/
def transparent : Primitives where
  publicKey a := raw32 a
  fromPublicBytes b := if b.length = 32 then some b else none
  exchange a b := some (List.zipWith (· + ·) (raw32 a) b)
  hkdf b := b
  encrypt key nonce data aad := data ++ (key ++ nonce ++ aad.getD [])
  decrypt key nonce data aad :=
    let tag := key ++ nonce ++ aad.getD []
    if tag.isSuffixOf data then some (data.take (data.length - tag.length)) else none

theorem length_raw32 (b : Bytes) : (raw32 b).length = 32 := by
  rw [raw32, List.length_take, List.length_append, List.length_replicate]
  omega

theorem transparent_lawful : transparent.Lawful where
  fromPublicBytes_publicKey a := if_pos (length_raw32 a)
  exchange_comm a b := by
    show some (List.zipWith (· + ·) (raw32 a) (raw32 b)) = some (List.zipWith _ (raw32 b) (raw32 a))
    rw [List.zipWith_comm_of_comm UInt8.add_comm]
  decrypt_encrypt key nonce data aad := by
    have htake : ∀ tag : Bytes,
        (if tag.isSuffixOf (data ++ tag) then
            some ((data ++ tag).take ((data ++ tag).length - tag.length))
          else none) = some data := by
      intro tag
      rw [if_pos (List.isSuffixOf_iff_suffix.mpr (List.suffix_append data tag)), List.length_append,
        Nat.add_sub_cancel, List.take_left]
    exact htake _

/-- A self-delimiting form of a byte string. -/
def frame : Bytes → Bytes
  | [] => [0]
  | b :: bs => 1 :: b :: frame bs

theorem frame_append_inj {a b x y : Bytes} (h : frame a ++ x = frame b ++ y) : a = b ∧ x = y := by
  induction a generalizing b with
  | nil =>
    cases b with
    | nil => exact ⟨rfl, List.append_cancel_left h⟩
    | cons c cs => simp [frame] at h
  | cons c cs ih =>
    cases b with
    | nil => simp [frame] at h
    | cons d ds =>
      simp only [frame, List.cons_append, List.cons.injEq, true_and] at h
      obtain ⟨rfl, h⟩ := h
      obtain ⟨rfl, rfl⟩ := ih h
      exact ⟨rfl, rfl⟩

/-- A cipher suite that computes and whose cipher is ideal: it puts the key, the
nonce and the associated data before the message, each in its frame. -/
def framed : Primitives :=
  { transparent with
    encrypt := fun key nonce data aad =>
      frame key ++ (frame nonce ++ (frame (aad.getD []) ++ data))
    decrypt := fun key nonce data aad =>
      let tag := frame key ++ (frame nonce ++ frame (aad.getD []))
      if tag.isPrefixOf data then some (data.drop tag.length) else none }

theorem framed_ideal : framed.Ideal where
  eq_of_decrypt := by
    intro key key' nonce data data' aad aad' h
    have h : (if (frame key' ++ (frame nonce.bytes ++ frame (aad'.getD []))).isPrefixOf
          (frame key ++ (frame nonce.bytes ++ (frame (aad.getD []) ++ data))) then
        some ((frame key ++ (frame nonce.bytes ++ (frame (aad.getD []) ++ data))).drop
          (frame key' ++ (frame nonce.bytes ++ frame (aad'.getD []))).length)
      else none) = some data' := h
    split at h
    · rename_i hprefix
      obtain ⟨rest, hrest⟩ := List.isPrefixOf_iff_prefix.mp hprefix
      have hdrop : rest = data' := by
        rw [← hrest, List.drop_left, Option.some_inj] at h
        exact h
      rw [List.append_assoc, List.append_assoc] at hrest
      -- The frames are read off one after the other.
      obtain ⟨hkey, hrest⟩ := frame_append_inj hrest
      obtain ⟨-, hrest⟩ := frame_append_inj hrest
      obtain ⟨haad, hrest⟩ := frame_append_inj hrest
      exact ⟨hkey, haad, hdrop ▸ hrest⟩
    · cases h

end Primitives
