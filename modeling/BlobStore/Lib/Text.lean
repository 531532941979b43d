import Mathlib.Data.List.Basic

/-!
# The characters of a text

`String.toList` decodes a text from its bytes at growing positions, which takes long when a proof
evaluates a text of some length. `chars` is the same function; it reads a text of ASCII characters
off its bytes.
-/

namespace Text

/-- Decided by going through the list, not through all characters there are. -/
instance decidableForallMemChar (P : Char → Prop) [DecidablePred P] (l : List Char) :
    Decidable (∀ c ∈ l, P c) := List.decidableBAll P l

/-- The bytes of a text. -/
def bytes (s : String) : List UInt8 := s.toByteArray.data.toList

lemma bytes_injective {s t : String} (h : bytes s = bytes t) : s = t := by
  rw [← String.toByteArray_inj]
  exact ByteArray.ext (Array.toList_inj.mp h)

lemma bytes_append (s t : String) : bytes (s ++ t) = bytes s ++ bytes t := by
  simp [bytes]

/-- The characters of a text. -/
def chars (s : String) : List Char :=
  if (bytes s).all fun b => b < 128 then (bytes s).map fun b => Char.ofNat b.toNat
  else s.toList

lemma utf8EncodeChar_ofNat {b : UInt8} (h : b < 128) :
    String.utf8EncodeChar (Char.ofNat b.toNat) = [b] := by
  have hall : ∀ n : Fin 128,
      String.utf8EncodeChar (Char.ofNat (UInt8.ofNat n.val).toNat) = [UInt8.ofNat n.val] := by
    decide
  have hlt : b.toNat < 128 := UInt8.lt_iff_toNat_lt.mp h
  have hb := hall ⟨b.toNat, hlt⟩
  simpa using hb

lemma flatMap_utf8EncodeChar {bs : List UInt8} (h : ∀ b ∈ bs, b < 128) :
    (bs.map fun b => Char.ofNat b.toNat).flatMap String.utf8EncodeChar = bs := by
  induction bs with
  | nil => rfl
  | cons b bs ih =>
    rw [List.map_cons, List.flatMap_cons, utf8EncodeChar_ofNat (h b List.mem_cons_self),
      ih fun b' hb' => h b' (List.mem_cons_of_mem _ hb')]
    rfl

@[simp] lemma chars_eq (s : String) : chars s = s.toList := by
  unfold chars
  split_ifs with h
  · have hbytes : ∀ b ∈ bytes s, b < 128 := by simpa using h
    have hs : String.ofList ((bytes s).map fun b => Char.ofNat b.toNat) = s := by
      rw [← String.toByteArray_inj, String.toByteArray_ofList, List.utf8Encode,
        flatMap_utf8EncodeChar hbytes]
      refine ByteArray.ext ?_
      simp [bytes, List.data_toByteArray]
    conv_rhs => rw [← hs]
    rw [String.toList_ofList]
  · rfl

/-- What holds of the digits holds of the characters of a numeral. -/
lemma forall_mem_toDigits {P : Char → Prop} {b : ℕ} (hdigit : ∀ m < b, P (Nat.digitChar m))
    (hb : 1 < b) (n : ℕ) : ∀ c ∈ Nat.toDigits b n, P c := by
  induction n using Nat.strongRecOn with
  | ind n ih =>
    rw [Nat.toDigits_eq_if hb]
    split_ifs with hn
    · rw [List.forall_mem_singleton]
      exact hdigit n hn
    · rw [List.forall_mem_append, List.forall_mem_singleton]
      exact ⟨ih _ (Nat.div_lt_self (by omega) hb), hdigit _ (Nat.mod_lt n (by omega))⟩

lemma isAlpha_iff {c : Char} :
    c.isAlpha = true ↔ 65 ≤ c.toNat ∧ c.toNat ≤ 90 ∨ 97 ≤ c.toNat ∧ c.toNat ≤ 122 := by
  change (decide (c.val ≥ 'A'.val ∧ c.val ≤ 'Z'.val) ||
    decide (c.val ≥ 'a'.val) && decide (c.val ≤ 'z'.val)) = true ↔ _
  simp only [Bool.or_eq_true, Bool.and_eq_true, decide_eq_true_eq, ge_iff_le,
    UInt32.le_iff_toNat_le]
  rfl

lemma isAlphanum_iff {c : Char} :
    c.isAlphanum = true ↔ c.isAlpha = true ∨ 48 ≤ c.toNat ∧ c.toNat ≤ 57 := by
  change (c.isAlpha || decide (c.val ≥ '0'.val) && decide (c.val ≤ '9'.val)) = true ↔ _
  simp only [Bool.or_eq_true, Bool.and_eq_true, decide_eq_true_eq, ge_iff_le,
    UInt32.le_iff_toNat_le]
  rfl

lemma toLower_eq {c d : Char} (h : c.toLower = d) (hd : d.toNat < 97 ∨ 122 < d.toNat) : c = d := by
  unfold Char.toLower at h
  split_ifs at h with hc
  · exfalso
    subst h
    have hlow : 65 ≤ c.val.toNat := hc.1
    have hhigh : c.val.toNat ≤ 90 := hc.2
    have hval : (c.val + ('a'.val - 'A'.val)).toNat = (c.val.toNat + 32) % 2 ^ 32 :=
      UInt32.toNat_add _ _
    simp only [Char.toNat, hval] at hd
    omega
  · exact h

end Text
