import BlobStore.Auth.Types
import BlobStore.Lib.Fields

/-!
# Service SAS

Parsing and verification of shared access signatures that are signed with an account key.
-/

namespace BlobStore

/-- ASCII letters regarded as equal in both cases. -/
def eqIgnoreAsciiCase (s t : String) : Bool :=
  (Text.chars s).map Char.toLower == (Text.chars t).map Char.toLower

structure SasParams where
  sp : String
  st : String
  se : String
  sr : String
  sip : String
  spr : String
  sv : String
  si : String
  sig : String
  rscc : String
  rscd : String
  rsce : String
  rscl : String
  rsct : String
  deriving DecidableEq

namespace Sas

/-- No `sig` parameter, or an empty one, means that this is no SAS request. -/
def parseSasQuery (query : List (String × String)) : Option SasParams :=
  let get (name : String) : String :=
    ((query.find? fun p => eqIgnoreAsciiCase p.1 name).map Prod.snd).getD ""
  if get "sig" = "" then none
  else some
    { sp   := get "sp"
      st   := get "st"
      se   := get "se"
      sr   := get "sr"
      sip  := get "sip"
      spr  := get "spr"
      sv   := get "sv"
      si   := get "si"
      sig  := get "sig"
      rscc := get "rscc"
      rscd := get "rscd"
      rsce := get "rsce"
      rscl := get "rscl"
      rsct := get "rsct" }

def canonicalizedResource (account container : String) : Option String → String
  | some b => "/blob/" ++ account ++ "/" ++ container ++ "/" ++ b
  | none   => "/blob/" ++ account ++ "/" ++ container

def stringToSign (account container : String) (blob : Option String) (p : SasParams) : String :=
  "\n".intercalate
    [p.sp, p.st, p.se, canonicalizedResource account container blob, p.si, p.sip, p.spr, p.sv, p.sr,
      "", "", p.rscc, p.rscd, p.rsce, p.rscl, p.rsct]

variable (lib : AuthLib)

def verifySignature (account container : String) (blob : Option String) (p : SasParams)
    (key1 : String) (key2 : Option String) : Except AuthError Unit :=
  let sts := stringToSign account container blob p
  if lib.hmacSign key1 sts = .ok p.sig then .ok ()
  else if ∃ key ∈ key2, lib.hmacSign key sts = .ok p.sig then .ok ()
  else .error .signatureMismatch

def checkValidityWindow (now : ℤ) (p : SasParams) : Except AuthError Unit := do
  if p.se ≠ "" then
    match lib.parseRfc3339 p.se with
    | none        => throw .malformedCredential
    | some expiry => if now > expiry then throw .expired
  if p.st ≠ "" then
    match lib.parseRfc3339 p.st with
    | none       => throw .malformedCredential
    | some start => if now < start then throw .notYetValid

def hasPermission (p : SasParams) (required : Char) : Bool := (Text.chars p.sp).contains required

/-- A container SAS covers every blob in it, a blob SAS that blob only. -/
def resourceScopeMatches (p : SasParams) (requestingBlob : Bool) : Bool :=
  if p.sr = "c" then true
  else if p.sr = "b" then requestingBlob
  else false

/-! ### What is signed -/

variable {lib}

/-- A valid signature is that of one of the keys. -/
lemma exists_key_of_verifySignature {account container : String} {blob : Option String}
    {p : SasParams} {key1 : String} {key2 : Option String}
    (h : verifySignature lib account container blob p key1 key2 = .ok ()) :
    ∃ key, (key = key1 ∨ some key = key2) ∧
      lib.hmacSign key (stringToSign account container blob p) = .ok p.sig := by
  unfold verifySignature at h
  dsimp only at h
  split_ifs at h with h₁ h₂
  · exact ⟨key1, .inl rfl, h₁⟩
  · obtain ⟨key, hkey, hsig⟩ := h₂
    exact ⟨key, .inr hkey.symm, hsig⟩

/-- The fields of a SAS that are signed, in the order of the string to sign. -/
def signedFields (p : SasParams) : List String :=
  [p.sp, p.st, p.se, p.si, p.sip, p.spr, p.sv, p.sr, p.rscc, p.rscd, p.rsce, p.rscl, p.rsct]

/-- A resource whose account and container have no slash in them is read back from its text. -/
lemma canonicalizedResource_inj {a c a' c' : String} {b b' : Option String}
    (ha : '/' ∉ a.toList) (hc : '/' ∉ c.toList) (ha' : '/' ∉ a'.toList) (hc' : '/' ∉ c'.toList)
    (h : canonicalizedResource a c b = canonicalizedResource a' c' b') :
    a = a' ∧ c = c' ∧ b = b' := by
  have hslash : "/".toList = ['/'] := rfl
  have hchars := congrArg String.toList h
  cases b <;> cases b' <;>
    simp only [canonicalizedResource, String.toList_append, List.append_assoc, hslash,
      List.singleton_append] at hchars <;>
    obtain ⟨haa, hrest⟩ := Text.append_cons_inj ha ha' (List.append_cancel_left hchars)
  case none.none => exact ⟨String.toList_inj.mp haa, String.toList_inj.mp hrest, rfl⟩
  case none.some b' =>
    rw [hrest] at hc
    simp at hc
  case some.none b =>
    rw [← hrest] at hc'
    simp at hc'
  case some.some b b' =>
    obtain ⟨hcc, hbb⟩ := Text.append_cons_inj hc hc' hrest
    exact ⟨String.toList_inj.mp haa, String.toList_inj.mp hcc,
      congrArg some (String.toList_inj.mp hbb)⟩

/-- A string to sign whose fields have no newline in them fixes every field, against all others. -/
lemma fields_of_stringToSign {a c a' c' : String} {b b' : Option String} {p p' : SasParams}
    (hfields : ∀ x ∈ signedFields p', '\n' ∉ x.toList)
    (hresource : '\n' ∉ (canonicalizedResource a' c' b').toList)
    (h : stringToSign a' c' b' p' = stringToSign a c b p) :
    signedFields p' = signedFields p ∧
      canonicalizedResource a' c' b' = canonicalizedResource a c b := by
  have hall := Text.eq_of_intercalate_string (c := '\n') (by simp) ?_ h
  · simp only [List.cons.injEq, and_true] at hall
    simp [signedFields, hall]
  · simp only [signedFields, List.forall_mem_cons] at hfields ⊢
    simp [hfields, hresource]

end Sas
end BlobStore
