import BlobStore.Lib.Text
import Mathlib.Data.Nat.Notation

/-!
# Text encodings of bytes

Hexadecimal and base64, as the usual libraries write them: lower-case digits, and the standard
alphabet with padding.
-/

namespace Codec

abbrev Bytes := List UInt8

/-! ### Hexadecimal -/

def hexDigit (n : ℕ) : Char := Char.ofNat (if n < 10 then 48 + n else 87 + n)

def hexValue (c : Char) : Option ℕ :=
  if '0' ≤ c ∧ c ≤ '9' then some (c.toNat - 48)
  else if 'a' ≤ c ∧ c ≤ 'f' then some (c.toNat - 87)
  else if 'A' ≤ c ∧ c ≤ 'F' then some (c.toNat - 55)
  else none

def hexEncode (bs : Bytes) : String :=
  String.ofList (bs.flatMap fun b => [hexDigit (b.toNat / 16), hexDigit (b.toNat % 16)])

def hexDecodeList : List Char → Option Bytes
  | []             => some []
  | [_]            => none
  | hi :: lo :: cs =>
    match hexValue hi, hexValue lo, hexDecodeList cs with
    | some x, some y, some bs => some (UInt8.ofNat (16 * x + y) :: bs)
    | _, _, _                 => none

def hexDecode (s : String) : Option Bytes := hexDecodeList (Text.chars s)

lemma hexValue_hexDigit : ∀ n < 16, hexValue (hexDigit n) = some n := by decide

/-- Decoding undoes encoding. -/
lemma hexDecode_hexEncode (bs : Bytes) : hexDecode (hexEncode bs) = some bs := by
  rw [hexDecode, hexEncode, Text.chars_eq, String.toList_ofList]
  induction bs with
  | nil => rfl
  | cons b bs ih =>
    have hb := b.toNat_lt
    have hhi := hexValue_hexDigit (b.toNat / 16) (by omega)
    have hlo := hexValue_hexDigit (b.toNat % 16) (by omega)
    have hbyte : UInt8.ofNat (16 * (b.toNat / 16) + b.toNat % 16) = b := by
      rw [Nat.div_add_mod]
      exact UInt8.ofNat_toNat
    simp only [List.flatMap_cons, List.cons_append, List.nil_append, hexDecodeList, hhi, hlo, ih,
      hbyte]

/-! ### Base64 -/

def base64Char (n : ℕ) : Char :=
  (Text.chars "ABCDEFGHIJKLMNOPQRSTUVWXYZabcdefghijklmnopqrstuvwxyz0123456789+/").getD n 'A'

def base64EncodeList : Bytes → List Char
  | []  => []
  | [a] =>
    [base64Char (a.toNat / 4), base64Char (a.toNat % 4 * 16), '=', '=']
  | [a, b] =>
    [base64Char (a.toNat / 4), base64Char (a.toNat % 4 * 16 + b.toNat / 16),
      base64Char (b.toNat % 16 * 4), '=']
  | a :: b :: c :: bs =>
    base64Char (a.toNat / 4) :: base64Char (a.toNat % 4 * 16 + b.toNat / 16)
      :: base64Char (b.toNat % 16 * 4 + c.toNat / 64) :: base64Char (c.toNat % 64)
      :: base64EncodeList bs

def base64Encode (bs : Bytes) : String := String.ofList (base64EncodeList bs)

lemma base64Char_injective : ∀ m < 64, ∀ n < 64, base64Char m = base64Char n → m = n := by
  decide +kernel

lemma base64Char_ne_pad : ∀ n < 64, base64Char n ≠ '=' := by decide +kernel

/-- Bytes are told apart by their base64 texts. -/
lemma base64EncodeList_injective {as bs : Bytes}
    (h : base64EncodeList as = base64EncodeList bs) : as = bs := by
  have hpad : ∀ {n : ℕ}, n < 64 → base64Char n = '=' → False :=
    fun hn heq => base64Char_ne_pad _ hn heq
  have hchar : ∀ {m n : ℕ}, m < 64 → n < 64 → base64Char m = base64Char n → m = n :=
    fun hm hn => base64Char_injective _ hm _ hn
  have hlt : ∀ a : UInt8, a.toNat < 256 := fun a => a.toNat_lt
  induction as using base64EncodeList.induct generalizing bs with
  | case1 =>
    rcases bs with _ | ⟨a', _ | ⟨b', _ | ⟨c', bs⟩⟩⟩ <;> simp [base64EncodeList] at h ⊢
  | case2 a =>
    have ha := hlt a
    rcases bs with _ | ⟨a', _ | ⟨b', _ | ⟨c', bs⟩⟩⟩ <;>
      simp only [base64EncodeList, List.cons.injEq, reduceCtorEq] at h
    · have ha' := hlt a'
      have h₁ := hchar (by omega) (by omega) h.1
      have h₂ := hchar (by omega) (by omega) h.2.1
      rw [UInt8.toNat_inj.mp (show a.toNat = a'.toNat by omega)]
    · have hb' := hlt b'
      exact (hpad (by omega) h.2.2.1.symm).elim
    · have hb' := hlt b'
      have hc' := hlt c'
      exact (hpad (by omega) h.2.2.1.symm).elim
  | case3 a b =>
    have ha := hlt a
    have hb := hlt b
    rcases bs with _ | ⟨a', _ | ⟨b', _ | ⟨c', bs⟩⟩⟩ <;>
      simp only [base64EncodeList, List.cons.injEq, reduceCtorEq] at h
    · exact (hpad (by omega) h.2.2.1).elim
    · have ha' := hlt a'
      have hb' := hlt b'
      have h₁ := hchar (by omega) (by omega) h.1
      have h₂ := hchar (by omega) (by omega) h.2.1
      have h₃ := hchar (by omega) (by omega) h.2.2.1
      rw [UInt8.toNat_inj.mp (show a.toNat = a'.toNat by omega),
        UInt8.toNat_inj.mp (show b.toNat = b'.toNat by omega)]
    · have hc' := hlt c'
      exact (hpad (by omega) h.2.2.2.1.symm).elim
  | case4 a b c as ih =>
    have ha := hlt a
    have hb := hlt b
    have hc := hlt c
    rcases bs with _ | ⟨a', _ | ⟨b', _ | ⟨c', bs⟩⟩⟩ <;>
      simp only [base64EncodeList, List.cons.injEq, reduceCtorEq] at h
    · exact (hpad (by omega) h.2.2.1).elim
    · exact (hpad (by omega) h.2.2.2.1).elim
    · have ha' := hlt a'
      have hb' := hlt b'
      have hc' := hlt c'
      have h₁ := hchar (by omega) (by omega) h.1
      have h₂ := hchar (by omega) (by omega) h.2.1
      have h₃ := hchar (by omega) (by omega) h.2.2.1
      have h₄ := hchar (by omega) (by omega) h.2.2.2.1
      rw [UInt8.toNat_inj.mp (show a.toNat = a'.toNat by omega),
        UInt8.toNat_inj.mp (show b.toNat = b'.toNat by omega),
        UInt8.toNat_inj.mp (show c.toNat = c'.toNat by omega), ih h.2.2.2.2]

lemma base64Encode_injective {as bs : Bytes} (h : base64Encode as = base64Encode bs) : as = bs :=
  base64EncodeList_injective (String.ofList_injective h)

end Codec
