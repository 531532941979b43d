import BlobStore.Api.Auth
import BlobStore.Auth.Canonical
import BlobStore.Storage.TableHash

/-!
# What a shared access signature is good for

A signature that was made for one resource and one set of parameters is not valid for another: the
text that is signed fixes all of them, whatever texts a request comes with.
-/

namespace BlobStore

/-! ### Splitting paths -/

lemma nonEmpty_eq_some {s t : String} : nonEmpty s = some t ↔ s = t ∧ t ≠ "" := by
  unfold nonEmpty
  split_ifs with h
  · simp only [false_iff, not_and, not_not]
    rintro rfl
    exact h
  · simp only [Option.some.injEq]
    constructor
    · rintro rfl
      exact ⟨rfl, h⟩
    · exact fun hst => hst.1

/-- The account and the container that a path names have no slash in them. -/
lemma no_slash_of_splitPath {path a c : String} {b : Option String}
    (h : splitPath path = (some a, some c, b)) : '/' ∉ a.toList ∧ '/' ∉ c.toList := by
  unfold splitPath at h
  dsimp only at h
  split_ifs at h with hempty
  · cases h
  · split at h
    · cases h
    next account rest hcut =>
    simp only [Prod.mk.injEq, Option.some.injEq] at h
    obtain ⟨rfl, hc, -⟩ := h
    refine ⟨?_, ?_⟩
    · have hnot := Text.not_mem_cut_fst (c := '/')
        (s := String.ofList ((Text.chars path).dropWhile (· = '/')))
      rwa [hcut] at hnot
    · rw [← (nonEmpty_eq_some.mp hc).1]
      exact Text.not_mem_cut_fst

/-! ### Grants -/

/-- What a key holder signed. -/
structure Grant where
  account : String
  container : String
  blob : Option String
  params : SasParams

def Grant.text (g : Grant) : String := Sas.stringToSign g.account g.container g.blob g.params

/-- Nothing in the grant has a line break in it, and its account and container have no slash. -/
structure Grant.Plain (g : Grant) : Prop where
  fields : ∀ x ∈ Sas.signedFields g.params, '\n' ∉ x.toList
  account : '\n' ∉ g.account.toList ∧ '/' ∉ g.account.toList
  container : '\n' ∉ g.container.toList ∧ '/' ∉ g.container.toList
  blob : ∀ b ∈ g.blob, b ≠ "" ∧ '\n' ∉ b.toList

lemma Grant.Plain.resource {g : Grant} (h : g.Plain) :
    '\n' ∉ (Sas.canonicalizedResource g.account g.container g.blob).toList := by
  have hblob : "/blob/".toList = ['/', 'b', 'l', 'o', 'b', '/'] := rfl
  have hslash : "/".toList = ['/'] := rfl
  cases hb : g.blob with
  | none =>
    simp [Sas.canonicalizedResource, hblob, hslash, h.account.1, h.container.1]
  | some b =>
    have hnot := (h.blob b hb).2
    simp [Sas.canonicalizedResource, hblob, hslash, h.account.1, h.container.1, hnot]

lemma params_of_signedFields {p p' : SasParams} (h : Sas.signedFields p = Sas.signedFields p') :
    { p with sig := p'.sig } = p' := by
  simp only [Sas.signedFields, List.cons.injEq, and_true] at h
  simp [h]

/-- The text of a grant is the text of nothing else. -/
lemma Grant.Plain.eq_of_text {g : Grant} (hg : g.Plain) {p : SasParams} {a c : String}
    {b : Option String} (ha : '/' ∉ a.toList) (hc : '/' ∉ c.toList)
    (h : g.text = Sas.stringToSign a c b p) :
    { g.params with sig := p.sig } = p ∧ g.account = a ∧ g.container = c ∧ g.blob = b := by
  obtain ⟨hfields, hresource⟩ := Sas.fields_of_stringToSign hg.fields hg.resource h
  exact ⟨params_of_signedFields hfields,
    Sas.canonicalizedResource_inj hg.account.2 hg.container.2 ha hc hresource⟩

/-- A request that is accepted has a signature of a key, and a token for its scope. -/
lemma verifySas_eq_ok {app : AppState} {now : ℤ} {account key1 : String} {key2 : Option String}
    {p : SasParams} {container : String} {blob : Option String} {isBlobScope : Bool}
    {permission : Permission} {ctx : AuthContext}
    (h : verifySas app now account key1 key2 p (some container) blob isBlobScope permission =
      .ok ctx) :
    (∃ key, (key = key1 ∨ some key = key2) ∧ app.lib.hmacSign key (Sas.stringToSign account
        container (if p.sr = "c" then none else blob) p) = .ok p.sig) ∧
      Sas.checkValidityWindow app.lib now p = .ok () ∧
      Sas.resourceScopeMatches p isBlobScope = true ∧
      Sas.hasPermission p permission.sasChar = true := by
  unfold verifySas at h
  dsimp only at h
  split at h
  · cases h
  · next hsig =>
    split at h
    · cases h
    · next hwindow =>
      split_ifs at h with hscope hperm
      exact ⟨Sas.exists_key_of_verifySignature hsig, hwindow, by simpa using hscope,
        by simpa using hperm⟩

/-- A signature binds every signed field and the resource. Two texts that are signed agree only if
all fields, the accounts, the containers and the signed blobs do; so a request that is accepted with
the signature of a grant is for the container of the grant, and for its very blob if the token is
one for a blob. -/
theorem sas_signature_binds (g : Grant) (hg : g.Plain) (p : SasParams)
    {path account container : String} {blob : Option String}
    (hpath : splitPath path = (some account, some container, blob)) :
    (∀ signedBlob, signedBlob = none ∨ signedBlob = blob →
      g.text = Sas.stringToSign account container signedBlob p →
      { g.params with sig := p.sig } = p ∧ g.account = account ∧ g.container = container ∧
        g.blob = signedBlob) ∧
    (∀ (app : AppState) (now : ℤ) (key key1 : String) (key2 : Option String)
        (permission : Permission) (ctx : AuthContext),
      app.lib.Binding → app.lib.hmacSign key g.text = .ok p.sig →
      verifySas app now account key1 key2 p (some container) blob blob.isSome permission =
        .ok ctx →
      g.account = account ∧ g.container = container ∧
        (p.sr = "b" → blob.isSome = true ∧ g.blob = blob)) := by
  obtain ⟨ha, hc⟩ := no_slash_of_splitPath hpath
  constructor
  · intro signedBlob _ htext
    exact hg.eq_of_text ha hc htext
  · intro app now key key1 key2 permission ctx hbinding hsigned haccept
    obtain ⟨⟨key', -, hsig⟩, -, hscope, -⟩ := verifySas_eq_ok haccept
    obtain ⟨-, haccount, hcontainer, hblob⟩ := hg.eq_of_text ha hc (hbinding.message_eq hsigned hsig)
    refine ⟨haccount, hcontainer, ?_⟩
    intro hsr
    refine ⟨?_, ?_⟩
    · simpa [Sas.resourceScopeMatches, hsr] using hscope
    · simpa [hsr] using hblob

/-- A token to read one blob until 2030. -/
def sampleGrant : Grant where
  account   := "acc"
  container := "c"
  blob      := some "b"
  params    :=
    ⟨"r", "", "2030-01-01T00:00:00Z", "b", "", "https", "2021-08-06", "", "", "", "", "", "", ""⟩

/-- Its HMAC under the key `key`. -/
def sampleTag : Codec.Bytes :=
  [251, 77, 89, 148, 42, 164, 96, 7, 48, 104, 119, 224, 135, 250, 152, 147, 102, 51, 19, 37,
    161, 178, 131, 118, 67, 171, 24, 229, 213, 139, 86, 125]

/-- Libraries that know one key, one tag and one date, and tell other messages apart. -/
def sampleLib : AuthLib where
  base64Decode s   := if s = "a2V5" then some [107, 101, 121] else none
  hmacSha256 _ m   := if m = Text.bytes sampleGrant.text then sampleTag else sampleTag ++ 0 :: m
  parseRfc3339 s   := if s = "2030-01-01T00:00:00Z" then some 1893456000000000000 else none

lemma sampleLib_binding : sampleLib.Binding := by
  intro key key' m m' h
  simp only [sampleLib] at h
  split_ifs at h with hm hm'
  · rw [hm, hm']
  · have hlen := congrArg List.length h
    simp at hlen
  · have hlen := congrArg List.length h
    simp at hlen
  · exact (List.cons.inj (List.append_cancel_left h)).2

def sampleLowercase : Lowercase := SharedKey.asciiLowercase

/-- A server that knows these libraries. -/
def sampleApp : AppState where
  backend         := sample
  lib             := sampleLib
  low             := sampleLowercase
  oidc            := none
  serviceVersion  := "2021-08-06"
  serviceEndpoint := "http://0.0.0.0:8443/"
  defaultAccount  := none
  pathAndQuery _  := none
  xmlEvents _     := []

def sampleSig : String := "+01ZlCqkYAcwaHfgh/qYk2YzEyWhsoN2Q6sY5dWLVn0="

/-- The token opens its blob, and is one for it. -/
theorem sas_signature_binds_sample :
    splitPath "/acc/c/b" = (some "acc", some "c", some "b") ∧
    verifySas sampleApp 0 "acc" "a2V5" none
        { sampleGrant.params with sig := sampleSig } (some "c") (some "b") true .read =
      .ok ⟨"acc", .sas⟩ ∧
    sampleGrant.container = "c" ∧ sampleGrant.blob = some "b" := by
  have hpath : splitPath "/acc/c/b" = (some "acc", some "c", some "b") := by decide
  have haccept : verifySas sampleApp 0 "acc" "a2V5" none
      { sampleGrant.params with sig := sampleSig } (some "c") (some "b") true .read =
      .ok ⟨"acc", .sas⟩ := by decide +kernel
  have hplain : sampleGrant.Plain :=
    ⟨by decide, by decide, by decide, by decide⟩
  have hbinds := (sas_signature_binds sampleGrant hplain
    { sampleGrant.params with sig := sampleSig } hpath).2 sampleApp 0
    "a2V5" "a2V5" none .read ⟨"acc", .sas⟩ sampleLib_binding (by decide +kernel) haccept
  exact ⟨hpath, haccept, hbinds.2.1, (hbinds.2.2 rfl).2⟩

end BlobStore
