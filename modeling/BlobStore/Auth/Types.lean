import BlobStore.Lib.Codec
import Mathlib.Data.Int.Notation

/-!
# Credentials

What the four authentication schemes share: their errors, the permissions, what is known about an
authenticated caller, and the libraries they rest on.
-/

namespace BlobStore

open Codec

inductive AuthError where
  | noCredentials
  | malformedCredential
  | signatureMismatch
  | unknownSigningKey
  | jwksUnavailable
  | expired
  | notYetValid
  | permissionDenied
  | resourceScopeMismatch
  | clockSkewTooLarge
  | unknownAccount
  deriving DecidableEq, Repr

/-- How the caller authenticated. -/
inductive AuthMethod where
  | sharedKey
  | sas
  | bearer (subject : Option String)
  | anonymous
  deriving DecidableEq, Repr

structure AuthContext where
  account : String
  method : AuthMethod
  deriving DecidableEq, Repr

inductive Permission where
  | read
  | write
  | delete
  | list
  | add
  | create
  deriving DecidableEq, Repr

def Permission.sasChar : Permission → Char
  | read   => 'r'
  | write  => 'w'
  | delete => 'd'
  | list   => 'l'
  | add    => 'a'
  | create => 'c'

/-- The cryptographic and calendar libraries: base64 as it is read, HMAC-SHA256 of a key and a
message, and the instant that an RFC 3339 text denotes. -/
structure AuthLib where
  base64Decode : String → Option Bytes
  hmacSha256 : Bytes → Bytes → Bytes
  parseRfc3339 : String → Option ℤ

/-- The base64 text of the HMAC of a message, under a key in base64. -/
def AuthLib.hmacSign (lib : AuthLib) (keyBase64 message : String) : Except AuthError String :=
  match lib.base64Decode keyBase64 with
  | none     => .error .malformedCredential
  | some key => .ok (base64Encode (lib.hmacSha256 key (Text.bytes message)))

/-- HMAC as an ideal signature: a tag determines its message. -/
def AuthLib.Binding (lib : AuthLib) : Prop :=
  ∀ key key' m m', lib.hmacSha256 key m = lib.hmacSha256 key' m' → m = m'

/-- Equal signatures are of equal messages. -/
lemma AuthLib.Binding.message_eq {lib : AuthLib} (h : lib.Binding) {key key' m m' sig : String}
    (hm : lib.hmacSign key m = .ok sig) (hm' : lib.hmacSign key' m' = .ok sig) : m = m' := by
  unfold hmacSign at hm hm'
  cases hkey : lib.base64Decode key with
  | none =>
    rw [hkey] at hm
    cases hm
  | some k =>
    cases hkey' : lib.base64Decode key' with
    | none =>
      rw [hkey'] at hm'
      cases hm'
    | some k' =>
      rw [hkey] at hm
      rw [hkey'] at hm'
      have hsig : base64Encode (lib.hmacSha256 k (Text.bytes m)) =
          base64Encode (lib.hmacSha256 k' (Text.bytes m')) :=
        (Except.ok.inj hm).trans (Except.ok.inj hm').symm
      exact Text.bytes_injective (h k k' _ _ (base64Encode_injective hsig))

end BlobStore
