import BlobStore.Lib.Codec

/-!
# Percent escapes

Decoding of `%` followed by two hexadecimal digits; a `%` that is followed by anything else stands
for itself. The decoded bytes are a text if they are valid UTF-8.
-/

namespace Percent

open Codec Text

/-- The text of bytes that are valid UTF-8. -/
def decodeUtf8 (bs : Bytes) : Option String :=
  if bs.all fun b => b < 128 then some (String.ofList (bs.map fun b => Char.ofNat b.toNat))
  else String.fromUTF8? bs.toByteArray

/-- The byte of an escape. -/
def escaped (b hi lo : UInt8) : Option UInt8 :=
  if b = 37 then
    match hexValue (Char.ofNat hi.toNat), hexValue (Char.ofNat lo.toNat) with
    | some x, some y => some (UInt8.ofNat (16 * x + y))
    | _, _           => none
  else none

def decodeBytes : Bytes → Bytes
  | []                   => []
  | [b]                  => [b]
  | [b, b']              => [b, b']
  | b :: hi :: lo :: bs =>
    match escaped b hi lo with
    | some v => v :: decodeBytes bs
    | none   => b :: decodeBytes (hi :: lo :: bs)

/-- The text that an escaped text stands for. -/
def decode (s : String) : Option String := decodeUtf8 (decodeBytes (bytes s))

/-- A text has an escape in it. -/
def hasEscape : Bytes → Bool
  | b :: hi :: lo :: bs => (escaped b hi lo).isSome || hasEscape (hi :: lo :: bs)
  | _                   => false

lemma decodeBytes_of_not_hasEscape {bs : Bytes} (h : hasEscape bs = false) :
    decodeBytes bs = bs := by
  induction bs using decodeBytes.induct with
  | case1 => rfl
  | case2 b => rfl
  | case3 b b' => rfl
  | case4 b hi lo bs v hv ih => simp [hasEscape, hv] at h
  | case5 b hi lo bs hv ih =>
    simp only [hasEscape, hv, Option.isSome_none, Bool.false_or] at h
    rw [decodeBytes, hv, ih h]

lemma decodeUtf8_bytes (s : String) : decodeUtf8 (bytes s) = some s := by
  unfold decodeUtf8
  split_ifs with h
  · have hchars := chars_eq s
    rw [chars, if_pos h] at hchars
    rw [hchars, String.ofList_toList]
  · have hbytes : (bytes s).toByteArray = s.toByteArray := ByteArray.ext (by simp [bytes])
    rw [hbytes]
    unfold String.fromUTF8?
    rw [dif_pos s.isValidUTF8]
    simp [String.fromUTF8]

/-- A text without escapes stands for itself. -/
lemma decode_of_not_hasEscape {s : String} (h : hasEscape (bytes s) = false) :
    decode s = some s := by
  rw [decode, decodeBytes_of_not_hasEscape h, decodeUtf8_bytes]

/-! ### Texts with escapes -/

/-- An escape takes three bytes and stands for one. -/
lemma length_decodeBytes_le (bs : Bytes) : (decodeBytes bs).length ≤ bs.length := by
  induction bs using decodeBytes.induct with
  | case1 => exact Nat.le_refl _
  | case2 b => exact Nat.le_refl _
  | case3 b b' => exact Nat.le_refl _
  | case4 b hi lo bs v hv ih =>
    rw [decodeBytes, hv]
    simp only [List.length_cons]
    omega
  | case5 b hi lo bs hv ih =>
    rw [decodeBytes, hv]
    simp only [List.length_cons] at ih ⊢
    omega

lemma length_decodeBytes_lt {bs : Bytes} (h : hasEscape bs = true) :
    (decodeBytes bs).length < bs.length := by
  induction bs using decodeBytes.induct with
  | case1 => cases h
  | case2 b => cases h
  | case3 b b' => cases h
  | case4 b hi lo bs v hv ih =>
    have hle := length_decodeBytes_le bs
    rw [decodeBytes, hv]
    simp only [List.length_cons]
    omega
  | case5 b hi lo bs hv ih =>
    simp only [hasEscape, hv, Option.isSome_none, Bool.false_or] at h
    have hlt := ih h
    rw [decodeBytes, hv]
    simp only [List.length_cons] at hlt ⊢
    omega

/-- What is decoded has the decoded bytes. -/
lemma bytes_of_decodeUtf8 {bs : Bytes} {s : String} (h : decodeUtf8 bs = some s) :
    bytes s = bs := by
  unfold decodeUtf8 at h
  split_ifs at h with hascii
  · cases h
    have hbs : ∀ b ∈ bs, b < 128 := by simpa using hascii
    rw [bytes, String.toByteArray_ofList, List.utf8Encode, flatMap_utf8EncodeChar hbs]
    simp [List.data_toByteArray]
  · unfold String.fromUTF8? at h
    split_ifs at h with hvalid
    cases h
    simp [bytes, String.fromUTF8, List.data_toByteArray]

/-- A text that stands for itself has no escape. -/
lemma decode_eq_self_iff {s : String} : decode s = some s ↔ hasEscape (bytes s) = false := by
  constructor
  · intro h
    rw [Bool.eq_false_iff]
    intro hescape
    have hlen := congrArg List.length (bytes_of_decodeUtf8 h)
    have hlt := length_decodeBytes_lt hescape
    omega
  · exact decode_of_not_hasEscape

/-! ### Parts of a text -/

lemma hasEscape_cons {b : UInt8} {bs : Bytes} (h : hasEscape bs = true) :
    hasEscape (b :: bs) = true := by
  match bs with
  | [] => cases h
  | [_] => cases h
  | hi :: lo :: bs => simp [hasEscape, h]

lemma hasEscape_append_right (as : Bytes) {bs : Bytes} (h : hasEscape bs = true) :
    hasEscape (as ++ bs) = true := by
  induction as with
  | nil => exact h
  | cons a as ih => exact hasEscape_cons ih

lemma hasEscape_append_left {as : Bytes} (bs : Bytes) (h : hasEscape as = true) :
    hasEscape (as ++ bs) = true := by
  induction as using decodeBytes.induct with
  | case1 => cases h
  | case2 b => cases h
  | case3 b b' => cases h
  | case4 b hi lo as v hv ih => simp [hasEscape, hv]
  | case5 b hi lo as hv ih =>
    simp only [hasEscape, hv, Option.isSome_none, Bool.false_or] at h
    exact hasEscape_cons (ih h)

/-- The escapes of a part are escapes of the whole. -/
lemma hasEscape_append_eq_false {s t : String} (h : hasEscape (bytes (s ++ t)) = false) :
    hasEscape (bytes s) = false ∧ hasEscape (bytes t) = false := by
  rw [Text.bytes_append] at h
  constructor
  · rw [Bool.eq_false_iff]
    intro hs
    rw [hasEscape_append_left _ hs] at h
    cases h
  · rw [Bool.eq_false_iff]
    intro ht
    rw [hasEscape_append_right _ ht] at h
    cases h

/-! ### Encoding -/

/-- Bytes that stand for themselves: ASCII letters and digits, and `-`, `_`, `.` and `~`. -/
def isUnreserved (b : UInt8) : Bool :=
  (Char.ofNat b.toNat).isAlphanum || b = 45 || b = 95 || b = 46 || b = 126

def upperHexDigit (n : ℕ) : UInt8 := UInt8.ofNat (if n < 10 then 48 + n else 55 + n)

def encodeByte (b : UInt8) : Bytes :=
  if isUnreserved b then [b] else [37, upperHexDigit (b.toNat / 16), upperHexDigit (b.toNat % 16)]

def encodeBytes (bs : Bytes) : Bytes := bs.flatMap encodeByte

/-- A text with every byte escaped that is not unreserved. -/
def encode (s : String) : String :=
  String.ofList ((encodeBytes (bytes s)).map fun b => Char.ofNat b.toNat)

/-- What encoding writes: unreserved bytes, percent signs and digits. -/
def isEncoded (b : UInt8) : Bool := isUnreserved b || b = 37

lemma forall_byte {P : UInt8 → Prop} (h : ∀ n < 256, P (UInt8.ofNat n)) (b : UInt8) : P b := by
  have hb := h b.toNat b.toNat_lt
  rwa [UInt8.ofNat_toNat] at hb

lemma isUnreserved_upperHexDigit : ∀ n < 16, isUnreserved (upperHexDigit n) = true := by decide

lemma isEncoded_lt (b : UInt8) (h : isEncoded b = true) : b < 128 := by
  revert b
  exact forall_byte (by decide +kernel)

/-- An escape is read back. -/
lemma escaped_upperHexDigit (b : UInt8) :
    escaped 37 (upperHexDigit (b.toNat / 16)) (upperHexDigit (b.toNat % 16)) = some b := by
  revert b
  exact forall_byte (by decide +kernel)

lemma isEncoded_encodeBytes {bs : Bytes} : ∀ b ∈ encodeBytes bs, isEncoded b = true := by
  intro b hb
  obtain ⟨b', -, hb⟩ := List.mem_flatMap.mp hb
  have hb' := b'.toNat_lt
  have hhi := isUnreserved_upperHexDigit (b'.toNat / 16) (by omega)
  have hlo := isUnreserved_upperHexDigit (b'.toNat % 16) (by omega)
  unfold encodeByte at hb
  split_ifs at hb with h
  · obtain rfl := List.mem_singleton.mp hb
    simp [isEncoded, h]
  · simp only [List.mem_cons, List.not_mem_nil, or_false] at hb
    rcases hb with rfl | rfl | rfl
    · simp [isEncoded]
    · simp [isEncoded, hhi]
    · simp [isEncoded, hlo]

lemma bytes_encode (s : String) : bytes (encode s) = encodeBytes (bytes s) := by
  have hlt : ∀ b ∈ encodeBytes (bytes s), b < 128 :=
    fun b hb => isEncoded_lt b (isEncoded_encodeBytes b hb)
  rw [bytes, encode, String.toByteArray_ofList, List.utf8Encode, flatMap_utf8EncodeChar hlt]
  simp [List.data_toByteArray]

lemma decodeBytes_cons_of_ne {b : UInt8} (hb : b ≠ 37) (bs : Bytes) :
    decodeBytes (b :: bs) = b :: decodeBytes bs := by
  match bs with
  | [] => rfl
  | [_] => rfl
  | hi :: lo :: bs =>
    have hescaped : escaped b hi lo = none := if_neg hb
    rw [decodeBytes, hescaped]

lemma decodeBytes_encodeBytes (bs : Bytes) : decodeBytes (encodeBytes bs) = bs := by
  induction bs with
  | nil => rfl
  | cons b bs ih =>
    rw [encodeBytes, List.flatMap_cons, ← encodeBytes, encodeByte]
    split_ifs with h
    · have hb : b ≠ 37 := by
        rintro rfl
        exact absurd h (by decide)
      rw [List.singleton_append, decodeBytes_cons_of_ne hb, ih]
    · simp only [List.cons_append, List.nil_append]
      rw [decodeBytes, escaped_upperHexDigit, ih]

/-- Decoding undoes encoding. -/
lemma decode_encode (s : String) : decode (encode s) = some s := by
  rw [decode, bytes_encode, decodeBytes_encodeBytes, decodeUtf8_bytes]

/-- Characters that are escaped do not occur in what encoding writes. -/
lemma not_mem_encode {c : Char} (hc : ∀ b : UInt8, isEncoded b = true → Char.ofNat b.toNat ≠ c)
    (s : String) : c ∉ (encode s).toList := by
  rw [encode, String.toList_ofList, List.mem_map]
  rintro ⟨b, hb, hbc⟩
  exact hc b (isEncoded_encodeBytes b hb) hbc

end Percent
