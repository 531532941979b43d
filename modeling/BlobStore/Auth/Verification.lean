import Mathlib
import BlobStore.Auth.Sas
import BlobStore.Auth.SharedKey

/-!
# Keys and expiry

What a signature proves, and for how long. Both verifiers accept the signatures that can be made
with one of the configured keys. A key that is configured as an empty text decodes to a key of
length zero, with which everybody can sign. A token that comes without an expiry has none.
-/

namespace BlobStore

open Codec

/-! ### Signatures -/

/-- The signature of the message under the key, which must be base64 of at least one byte. -/
def AuthLib.SignedBy (lib : AuthLib) (key message sig : String) : Prop :=
  ∃ k, lib.base64Decode key = some k ∧ k ≠ [] ∧
    sig = base64Encode (lib.hmacSha256 k (Text.bytes message))

/-- The signature of the message under one of the configured keys. -/
def AuthLib.KnowsKey (lib : AuthLib) (key1 : String) (key2 : Option String)
    (message sig : String) : Prop :=
  ∃ key, (key = key1 ∨ some key = key2) ∧ lib.SignedBy key message sig

lemma foldl_diff_eq_zero {xs : List (UInt8 × UInt8)} {d : UInt8} :
    xs.foldl (fun diff xy => diff ||| (xy.1 ^^^ xy.2)) d = 0 ↔ d = 0 ∧ ∀ xy ∈ xs, xy.1 = xy.2 := by
  induction xs generalizing d with
  | nil => simp
  | cons x xs ih =>
    rw [List.foldl_cons, ih, UInt8.or_eq_zero_iff, UInt8.xor_eq_zero_iff, List.forall_mem_cons,
      and_assoc]

lemma forall_zip_eq {a b : Bytes} (hlen : a.length = b.length) :
    (∀ xy ∈ a.zip b, xy.1 = xy.2) ↔ a = b := by
  induction a generalizing b with
  | nil => simpa [eq_comm] using hlen
  | cons x a ih =>
    cases b with
    | nil => cases hlen
    | cons y b =>
      rw [List.zip_cons_cons, List.forall_mem_cons, ih (Nat.succ.inj hlen), List.cons.injEq]

/-- The comparison in constant time is equality. -/
lemma SharedKey.constantTimeEq_iff {a b : String} : constantTimeEq a b = true ↔ a = b := by
  unfold constantTimeEq
  dsimp only
  split_ifs with hlen
  · simp only [false_iff]
    rintro rfl
    exact hlen rfl
  · rw [beq_iff_eq, foldl_diff_eq_zero, forall_zip_eq (not_not.mp hlen)]
    simp only [true_and]
    exact ⟨fun h => Text.bytes_injective h, congrArg _⟩

variable {lib : AuthLib} {key key1 message sig : String} {key2 : Option String}

/-- A key that can be decoded signs, also if it is empty. -/
lemma AuthLib.hmacSign_eq_ok : lib.hmacSign key message = .ok sig ↔
    ∃ k, lib.base64Decode key = some k ∧
      sig = base64Encode (lib.hmacSha256 k (Text.bytes message)) := by
  unfold hmacSign
  cases lib.base64Decode key <;> simp [eq_comm]

/-- Keys that are not empty sign as they should. -/
lemma AuthLib.signedBy_iff (hkey : lib.base64Decode key ≠ some []) :
    lib.SignedBy key message sig ↔ lib.hmacSign key message = .ok sig := by
  rw [hmacSign_eq_ok]
  constructor
  · rintro ⟨k, hk, -, hsig⟩
    exact ⟨k, hk, hsig⟩
  · rintro ⟨k, hk, hsig⟩
    refine ⟨k, hk, ?_, hsig⟩
    rintro rfl
    exact hkey hk

lemma SharedKey.accepts_iff {key message : String} :
    (match lib.hmacSign key message with
      | .ok sig' => constantTimeEq sig' sig
      | .error _ => false) = true ↔ lib.hmacSign key message = .ok sig := by
  cases lib.hmacSign key message with
  | error e => simp
  | ok sig' => simp [constantTimeEq_iff]

lemma SharedKey.verify_eq_ok {low : Lowercase} {account : String} {req : SharedKeyRequest} :
    verify low lib account req sig key1 key2 = .ok () ↔
      ∃ key, (key = key1 ∨ some key = key2) ∧
        lib.hmacSign key (stringToSign low account req) = .ok sig := by
  unfold verify
  dsimp only
  split_ifs with h1 h2
  · simp only [true_iff]
    exact ⟨key1, .inl rfl, accepts_iff.mp h1⟩
  · obtain ⟨key, hkey, h⟩ := (Option.any_eq_true _ _).mp h2
    simp only [true_iff]
    exact ⟨key, .inr hkey.symm, accepts_iff.mp h⟩
  · simp only [false_iff]
    rintro ⟨key, rfl | hkey, h⟩
    · exact h1 (accepts_iff.mpr h)
    · exact h2 ((Option.any_eq_true _ _).mpr ⟨key, hkey.symm, accepts_iff.mpr h⟩)

lemma Sas.verifySignature_eq_ok {account container : String} {blob : Option String}
    {p : SasParams} : verifySignature lib account container blob p key1 key2 = .ok () ↔
      ∃ key, (key = key1 ∨ some key = key2) ∧
        lib.hmacSign key (stringToSign account container blob p) = .ok p.sig := by
  constructor
  · exact exists_key_of_verifySignature
  · rintro ⟨key, rfl | hkey, h⟩
    · simp [verifySignature, h]
    · simp only [verifySignature, ← hkey, Option.mem_some_iff, exists_eq_left', h, if_true]
      split_ifs <;> rfl

/-- A token that grants nothing, with a signature. -/
def emptyParams (sig : String) : SasParams :=
  ⟨"", "", "", "", "", "", "", "", sig, "", "", "", "", ""⟩

/-- Both verifiers accept exactly the signatures of the configured keys. -/
structure AuthLib.KeysDecide (lib : AuthLib) (key1 : String) (key2 : Option String) : Prop where
  sharedKey : ∀ (low : Lowercase) (account : String) (req : SharedKeyRequest) (sig : String),
    SharedKey.verify low lib account req sig key1 key2 = .ok () ↔
      lib.KnowsKey key1 key2 (SharedKey.stringToSign low account req) sig
  sas : ∀ (account container : String) (blob : Option String) (p : SasParams),
    Sas.verifySignature lib account container blob p key1 key2 = .ok () ↔
      lib.KnowsKey key1 key2 (Sas.stringToSign account container blob p) p.sig

lemma AuthLib.keysDecide_of_ne_empty (h1 : lib.base64Decode key1 ≠ some [])
    (h2 : ∀ key ∈ key2, lib.base64Decode key ≠ some []) : lib.KeysDecide key1 key2 := by
  have hkeys : ∀ message sig, (∃ key, (key = key1 ∨ some key = key2) ∧
      lib.hmacSign key message = .ok sig) ↔ lib.KnowsKey key1 key2 message sig := by
    intro message sig
    refine exists_congr fun key => and_congr_right fun hkey => ?_
    refine (AuthLib.signedBy_iff ?_).symm
    rcases hkey with rfl | hkey
    · exact h1
    · exact h2 key hkey.symm
  constructor
  · intro low account req sig
    rw [SharedKey.verify_eq_ok, hkeys]
  · intro account container blob p
    rw [Sas.verifySignature_eq_ok, hkeys]

/-- A signature under an empty key is accepted, and of no other key if the tags differ. -/
lemma AuthLib.not_keysDecide (hkey : key = key1 ∨ some key = key2)
    (hempty : lib.base64Decode key = some [])
    (htag : ∀ k m, k ≠ [] → lib.hmacSha256 k m ≠ lib.hmacSha256 [] m) :
    ¬ lib.KeysDecide key1 key2 := by
  intro h
  set sts := Sas.stringToSign "" "" none (emptyParams "") with hsts
  set p := emptyParams (base64Encode (lib.hmacSha256 [] (Text.bytes sts))) with hp
  have hsigned : lib.hmacSign key (Sas.stringToSign "" "" none p) = .ok p.sig :=
    AuthLib.hmacSign_eq_ok.mpr ⟨[], hempty, rfl⟩
  obtain ⟨key', -, k, -, hne, hsig⟩ :=
    (h.sas "" "" none p).mp (Sas.verifySignature_eq_ok.mpr ⟨key, hkey, hsigned⟩)
  exact htag k _ hne (base64Encode_injective hsig).symm

/-- Whatever HMAC is, signatures are decided by the keys, exactly if no key is empty. -/
theorem signature_accepted_iff (base64Decode : String → Option Bytes) (key1 : String)
    (key2 : Option String) :
    (∀ (hmacSha256 : Bytes → Bytes → Bytes) (parseRfc3339 : String → Option ℤ),
      AuthLib.KeysDecide ⟨base64Decode, hmacSha256, parseRfc3339⟩ key1 key2) ↔
      base64Decode key1 ≠ some [] ∧ ∀ key ∈ key2, base64Decode key ≠ some [] := by
  constructor
  · intro h
    have hfalse : ∀ key, (key = key1 ∨ some key = key2) → base64Decode key ≠ some [] := by
      intro key hkey hempty
      -- one tag for the empty key, another one for the rest
      refine AuthLib.not_keysDecide hkey hempty ?_ (h (fun k _ => if k = [] then [1] else [])
        fun _ => none)
      intro k m hk
      simp [hk]
    exact ⟨hfalse key1 (.inl rfl), fun key hkey => hfalse key (.inr hkey.symm)⟩
  · rintro ⟨h1, h2⟩ hmac parse
    exact AuthLib.keysDecide_of_ne_empty h1 h2

/-- A token to read one blob until 2030, signed with the empty key. -/
def emptyKeyToken : SasParams :=
  ⟨"r", "", "2030-01-01T00:00:00Z", "b", "", "https", "2021-08-06", "",
    "HCLO2JtGcbdwOKpTGciGVQSxmOS69m67Nx2VH57PDdA=", "", "", "", "", ""⟩

/-- Libraries that know two keys, and the tags of that token under them. -/
def emptyKeyLib : AuthLib where
  base64Decode s   := if s = "" then some [] else if s = "a2V5" then some [107, 101, 121] else none
  hmacSha256 key _ :=
    if key = [] then
      [28, 34, 206, 216, 155, 70, 113, 183, 112, 56, 170, 83, 25, 200, 134, 85, 4, 177, 152, 228,
        186, 246, 110, 187, 55, 29, 149, 31, 158, 207, 13, 208]
    else
      [251, 77, 89, 148, 42, 164, 96, 7, 48, 104, 119, 224, 135, 250, 152, 147, 102, 51, 19, 37,
        161, 178, 131, 118, 67, 171, 24, 229, 213, 139, 86, 125]
  parseRfc3339 _   := none

/-- With `key2 = ""`, as in the example configuration, a token is accepted that no key signed. -/
theorem empty_key_accepted :
    Sas.verifySignature emptyKeyLib "acc" "c" (some "b") emptyKeyToken "a2V5" (some "") = .ok () ∧
      ¬ emptyKeyLib.KnowsKey "a2V5" (some "")
        (Sas.stringToSign "acc" "c" (some "b") emptyKeyToken) emptyKeyToken.sig ∧
      ¬ emptyKeyLib.KeysDecide "a2V5" (some "") := by
  have haccepted : Sas.verifySignature emptyKeyLib "acc" "c" (some "b") emptyKeyToken "a2V5"
      (some "") = .ok () := by decide +kernel
  have hknows : ¬ emptyKeyLib.KnowsKey "a2V5" (some "")
      (Sas.stringToSign "acc" "c" (some "b") emptyKeyToken) emptyKeyToken.sig := by
    rintro ⟨key, -, k, -, hne, hsig⟩
    rw [emptyKeyLib] at hsig
    simp only [if_neg hne] at hsig
    revert hsig
    decide
  exact ⟨haccepted, hknows, fun h => hknows ((h.sas _ _ _ _).mp haccepted)⟩

/-! ### Expiry -/

/-- A token is valid in the time it names, and that time ends. -/
structure Sas.Expires (lib : AuthLib) (p : SasParams) : Prop where
  window : ∀ now, checkValidityWindow lib now p = .ok () ↔
    (∃ expiry, lib.parseRfc3339 p.se = some expiry ∧ now ≤ expiry) ∧
      (p.st = "" ∨ ∃ start, lib.parseRfc3339 p.st = some start ∧ start ≤ now)
  interval : {now | checkValidityWindow lib now p = .ok ()}.OrdConnected
  bounded : ∀ now, checkValidityWindow lib now p = .ok () →
    ∃ expiry, lib.parseRfc3339 p.se = some expiry ∧ now ≤ expiry
  expired : ∀ now later, checkValidityWindow lib now p = .error .expired → now ≤ later →
    checkValidityWindow lib later p = .error .expired
  finite : ∃ now, checkValidityWindow lib now p ≠ .ok ()

/-- The first check that fails decides. -/
lemma Sas.checkValidityWindow_eq (now : ℤ) (p : SasParams) :
    checkValidityWindow lib now p =
      if p.se ≠ "" ∧ lib.parseRfc3339 p.se = none then .error .malformedCredential
      else if p.se ≠ "" ∧ ∃ expiry ∈ lib.parseRfc3339 p.se, expiry < now then .error .expired
      else if p.st ≠ "" ∧ lib.parseRfc3339 p.st = none then .error .malformedCredential
      else if p.st ≠ "" ∧ ∃ start ∈ lib.parseRfc3339 p.st, now < start then .error .notYetValid
      else .ok () := by
  unfold checkValidityWindow
  by_cases hse : p.se = "" <;> by_cases hst : p.st = "" <;>
    cases lib.parseRfc3339 p.se <;> cases lib.parseRfc3339 p.st <;>
    simp [hse, hst, bind, Except.bind, pure, Except.pure, throw, throwThe, MonadExceptOf.throw]

lemma Sas.checkValidityWindow_eq_ok {now : ℤ} {p : SasParams} :
    checkValidityWindow lib now p = .ok () ↔
      (p.se = "" ∨ ∃ expiry, lib.parseRfc3339 p.se = some expiry ∧ now ≤ expiry) ∧
        (p.st = "" ∨ ∃ start, lib.parseRfc3339 p.st = some start ∧ start ≤ now) := by
  rw [checkValidityWindow_eq]
  split_ifs with hmalformed hexpired hmalformed' hearly
  · grind
  · grind
  · grind
  · grind
  · simp only [true_iff]
    constructor
    · by_cases hse : p.se = ""
      · exact .inl hse
      · obtain ⟨expiry, hparse⟩ := Option.ne_none_iff_exists'.mp fun h => hmalformed ⟨hse, h⟩
        exact .inr ⟨expiry, hparse, not_lt.mp fun h => hexpired ⟨hse, expiry, hparse, h⟩⟩
    · by_cases hst : p.st = ""
      · exact .inl hst
      · obtain ⟨start, hparse⟩ := Option.ne_none_iff_exists'.mp fun h => hmalformed' ⟨hst, h⟩
        exact .inr ⟨start, hparse, not_lt.mp fun h => hearly ⟨hst, start, hparse, h⟩⟩

lemma Sas.checkValidityWindow_eq_expired {now : ℤ} {p : SasParams} :
    checkValidityWindow lib now p = .error .expired ↔
      p.se ≠ "" ∧ ∃ expiry, lib.parseRfc3339 p.se = some expiry ∧ expiry < now := by
  rw [checkValidityWindow_eq]
  split_ifs with hmalformed hexpired hmalformed' hearly
  · grind
  · simpa using hexpired
  · grind
  · grind
  · grind

/-- A token expires exactly if it comes with an expiry, or with a start that is no time. -/
theorem sas_expires_iff {lib : AuthLib} (hempty : lib.parseRfc3339 "" = none) (p : SasParams) :
    Sas.Expires lib p ↔ p.se ≠ "" ∨ p.st ≠ "" ∧ lib.parseRfc3339 p.st = none := by
  constructor
  · intro h
    by_contra hcond
    obtain ⟨hse, hst⟩ := not_or.mp hcond
    rw [not_not] at hse
    obtain ⟨now, hnow⟩ : ∃ now, Sas.checkValidityWindow lib now p = .ok () := by
      by_cases hstart : p.st = ""
      · exact ⟨0, Sas.checkValidityWindow_eq_ok.mpr ⟨.inl hse, .inl hstart⟩⟩
      · obtain ⟨start, hparse⟩ := Option.ne_none_iff_exists'.mp fun hnone => hst ⟨hstart, hnone⟩
        exact ⟨start, Sas.checkValidityWindow_eq_ok.mpr ⟨.inl hse, .inr ⟨start, hparse, le_rfl⟩⟩⟩
    obtain ⟨expiry, hexpiry, -⟩ := h.bounded now hnow
    rw [hse, hempty] at hexpiry
    cases hexpiry
  · intro hcond
    have hwindow : ∀ now, Sas.checkValidityWindow lib now p = .ok () ↔
        (∃ expiry, lib.parseRfc3339 p.se = some expiry ∧ now ≤ expiry) ∧
          (p.st = "" ∨ ∃ start, lib.parseRfc3339 p.st = some start ∧ start ≤ now) := by
      intro now
      rw [Sas.checkValidityWindow_eq_ok]
      rcases hcond with hse | ⟨hst, hnone⟩
      · simp [hse]
      · simp [hst, hnone]
    refine ⟨hwindow, ?_, fun now hnow => ((hwindow now).mp hnow).1, ?_, ?_⟩
    · refine ⟨fun x hx y hy z hz => (hwindow z).mpr ⟨?_, ?_⟩⟩
      · obtain ⟨expiry, hexpiry, hle⟩ := ((hwindow y).mp hy).1
        exact ⟨expiry, hexpiry, hz.2.trans hle⟩
      · rcases ((hwindow x).mp hx).2 with hst | ⟨start, hstart, hle⟩
        · exact .inl hst
        · exact .inr ⟨start, hstart, hle.trans hz.1⟩
    · intro now later hnow hle
      obtain ⟨hse, expiry, hexpiry, hlt⟩ := Sas.checkValidityWindow_eq_expired.mp hnow
      exact Sas.checkValidityWindow_eq_expired.mpr ⟨hse, expiry, hexpiry, hlt.trans_le hle⟩
    · by_contra hall
      obtain ⟨expiry, hexpiry, -⟩ := ((hwindow 0).mp (not_not.mp (not_exists.mp hall 0))).1
      obtain ⟨expiry', hexpiry', hle⟩ :=
        ((hwindow (expiry + 1)).mp (not_not.mp (not_exists.mp hall (expiry + 1)))).1
      rw [hexpiry] at hexpiry'
      cases hexpiry'
      omega

/-- A calendar that knows one day. -/
def newYearLib : AuthLib where
  base64Decode _ := none
  hmacSha256 _ _ := []
  parseRfc3339 s := if s = "2030-01-01T00:00:00Z" then some 1893456000000000000 else none

/-- A token with an expiry. -/
theorem sas_expires_new_year : Sas.Expires newYearLib emptyKeyToken :=
  (sas_expires_iff (by decide) emptyKeyToken).mpr (.inl (by decide))

/-- A token without an expiry is accepted at all times. -/
theorem sas_without_expiry :
    (∀ now, Sas.checkValidityWindow newYearLib now { emptyKeyToken with se := "" } = .ok ()) ∧
      ¬ Sas.Expires newYearLib { emptyKeyToken with se := "" } := by
  have hall : ∀ now, Sas.checkValidityWindow newYearLib now { emptyKeyToken with se := "" } =
      .ok () := fun now => Sas.checkValidityWindow_eq_ok.mpr ⟨.inl rfl, .inl rfl⟩
  refine ⟨hall, fun h => ?_⟩
  obtain ⟨now, hnow⟩ := h.finite
  exact hnow (hall now)

end BlobStore
