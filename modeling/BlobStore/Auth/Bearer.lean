import BlobStore.Auth.Types
import BlobStore.Lib.Table
import Mathlib.Data.List.Induction

/-!
# Bearer tokens

Tokens are checked with the signing keys of an issuer, which are fetched from its endpoint and kept
for a while. In every run the cache is what the last successful fetch brought, with the time at which
it was stored (`faithful_run`), and so a key is never answered for longer than the cache may be old.
-/

namespace BlobStore

/-! ### The code -/

structure OidcConfig where
  issuer : String
  audience : String
  cacheTtl : ℕ

/-- A key as the endpoint describes it. -/
structure JwkKey where
  kid : Option String
  kty : String
  n : Option String
  e : Option String
  deriving DecidableEq

/-- Keys under their ids, and when they were stored. -/
structure CacheEntry (κ : Type) where
  keys : Table String κ
  fetchedAt : ℕ

/-- What the token library does: it makes a key from the two numbers of an RSA key, finds the key id
in the header of a token, and checks a token with a key, an issuer and an audience, which gives the
subject. -/
structure JwtLib (κ : Type) where
  fromRsaComponents : String → String → Option κ
  decodeHeader : String → Option (Option String)
  decode : κ → String → String → String → Option (Option String)

/-- A call for a key, with the readings of the clock before and after it has asked the endpoint, and
what the endpoint has answered in between, if the answer has come and can be read. -/
structure KeyCall where
  kid : String
  now : ℕ
  answered : ℕ
  stored : ℕ
  response : Option (List JwkKey)

namespace JwksCache

variable {κ : Type} (lib : JwtLib κ) (config : OidcConfig)

/-- The key that an entry of the response stands for, under its id. -/
def decodingKey (k : JwkKey) : Option (String × κ) :=
  if k.kty ≠ "RSA" then none
  else
    match k.n, k.e, k.kid with
    | some n, some e, some kid => (lib.fromRsaComponents n e).map fun dk => (kid, dk)
    | _, _, _                  => none

def keyTable (jwks : List JwkKey) : Table String κ :=
  jwks.foldl (fun keys k =>
    match decodingKey lib k with
    | some (kid, dk) => AList.insert kid dk keys
    | none           => keys) ∅

def fetchKeys (response : Option (List JwkKey)) : Except AuthError (Table String κ) :=
  match response with
  | some jwks => .ok (keyTable lib jwks)
  | none      => .error .jwksUnavailable

/-- The key in the cache, unless the cache is stale. -/
def cached (c : KeyCall) (cache : Option (CacheEntry κ)) : Option κ :=
  cache.bind fun entry =>
    if c.now - entry.fetchedAt < config.cacheTtl then entry.keys.lookup c.kid else none

def getKey (c : KeyCall) (cache : Option (CacheEntry κ)) :
    Except AuthError κ × Option (CacheEntry κ) :=
  match cached config c cache with
  | some key => (.ok key, cache)
  | none     =>
    -- miss or stale: refresh once and try again
    match fetchKeys lib c.response with
    | .error e => (.error e, cache)
    | .ok keys =>
      match keys.lookup c.kid with
      | some key => (.ok key, some ⟨keys, c.stored⟩)
      | none     => (.error .unknownSigningKey, some ⟨keys, c.stored⟩)

/-- Checks a token; the call for its key is `c` but for the id. -/
def validateToken (token : String) (c : KeyCall) (cache : Option (CacheEntry κ)) :
    Except AuthError (Option String) × Option (CacheEntry κ) :=
  match lib.decodeHeader token with
  | none            => (.error .malformedCredential, cache)
  | some none       => (.error .malformedCredential, cache)
  | some (some kid) =>
    match getKey lib config { c with kid } cache with
    | (.error e, cache') => (.error e, cache')
    | (.ok key, cache')  =>
      match lib.decode key config.issuer config.audience token with
      | some sub => (.ok sub, cache')
      | none     => (.error .signatureMismatch, cache')

/-! ### Runs -/

/-- A successful fetch: when the endpoint answered, when the answer was stored, and what it was. -/
structure Fetch where
  answered : ℕ
  stored : ℕ
  jwks : List JwkKey

/-- The cache, and the successful fetches so far. -/
structure History (κ : Type) where
  cache : Option (CacheEntry κ)
  fetches : List Fetch

/-- The fetch that a call makes, if it makes one and it succeeds. -/
def fetchOf (c : KeyCall) (cache : Option (CacheEntry κ)) : Option Fetch :=
  match cached config c cache with
  | some _ => none
  | none   => c.response.map fun jwks => ⟨c.answered, c.stored, jwks⟩

def step (s : History κ) (c : KeyCall) : History κ where
  cache   := (getKey lib config c s.cache).2
  fetches := s.fetches ++ (fetchOf config c s.cache).toList

/-- What calls have left of an empty cache. -/
def run (calls : List KeyCall) : History κ := calls.foldl (step lib config) ⟨none, []⟩

/-- The clock does not go back, neither within a call nor from one call to the next. -/
def Ordered (calls : List KeyCall) : Prop :=
  (calls.flatMap fun c => [c.now, c.answered, c.stored]).Pairwise (· ≤ ·)

/-- The endpoint serves the key as an RSA key under the id. -/
def Serves (jwks : List JwkKey) (kid : String) (key : κ) : Prop :=
  ∃ k ∈ jwks, k.kty = "RSA" ∧ k.kid = some kid ∧
    ∃ n e, k.n = some n ∧ k.e = some e ∧ lib.fromRsaComponents n e = some key

section Runs

variable {lib config} {calls : List KeyCall} {c : KeyCall} {s : History κ}
  {cache : Option (CacheEntry κ)} {jwks : List JwkKey} {kid : String} {key : κ} {f : Fetch}

lemma serves_of_decodingKey {k : JwkKey} (hk : k ∈ jwks) (h : decodingKey lib k = some (kid, key)) :
    Serves lib jwks kid key := by
  simp only [decodingKey, Option.ite_none_left_eq_some, not_not] at h
  obtain ⟨hkty, h⟩ := h
  split at h
  · next n e kid' hn he hkid =>
    obtain ⟨dk, hdk, heq⟩ := Option.map_eq_some_iff.mp h
    cases heq
    exact ⟨k, hk, hkty, hkid, n, e, hn, he, hdk⟩
  · cases h

/-- Whatever is in the table is served. -/
lemma serves_of_lookup (h : (keyTable lib jwks).lookup kid = some key) :
    Serves lib jwks kid key := by
  induction jwks using List.reverseRecOn with
  | nil =>
    rw [keyTable, List.foldl_nil, AList.lookup_empty] at h
    cases h
  | append_singleton jwks k ih =>
    have hmono : Serves lib jwks kid key → Serves lib (jwks ++ [k]) kid key := by
      rintro ⟨k', hk', hserves⟩
      exact ⟨k', List.mem_append_left _ hk', hserves⟩
    rw [keyTable, List.foldl_append, ← keyTable, List.foldl_cons, List.foldl_nil] at h
    split at h
    · next kid' dk hdk =>
      rw [Table.lookup_insert_eq] at h
      split_ifs at h with heq
      · cases h
        rw [heq]
        exact serves_of_decodingKey (by simp) hdk
      · exact hmono (ih h)
    · exact hmono (ih h)

variable (lib) in
/-- What a call does to the cache and answers, by where it finds the key. -/
lemma getKey_of_cached (h : cached config c cache = some key) :
    getKey lib config c cache = (.ok key, cache) ∧ fetchOf config c cache = none := by
  simp [getKey, fetchOf, h]

variable (lib) in
lemma getKey_of_failed (h : cached config c cache = none) (hfail : c.response = none) :
    getKey lib config c cache = (.error .jwksUnavailable, cache) ∧
      fetchOf config c cache = none := by
  simp [getKey, fetchOf, fetchKeys, h, hfail]

variable (lib) in
lemma getKey_of_fetched (h : cached config c cache = none) (hfetch : c.response = some jwks) :
    getKey lib config c cache =
        (match (keyTable lib jwks).lookup c.kid with
          | some key => .ok key
          | none     => .error .unknownSigningKey, some ⟨keyTable lib jwks, c.stored⟩) ∧
      fetchOf config c cache = some ⟨c.answered, c.stored, jwks⟩ := by
  constructor
  · simp only [getKey, h, hfetch, fetchKeys]
    cases (keyTable lib jwks).lookup c.kid <;> rfl
  · simp [fetchOf, h, hfetch]

/-- The cache is what the last successful fetch has brought. -/
def Faithful (lib : JwtLib κ) (s : History κ) : Prop :=
  s.cache = s.fetches.getLast?.map fun f => ⟨keyTable lib f.jwks, f.stored⟩

/-- A call keeps the cache faithful. -/
lemma Faithful.step (h : Faithful lib s) (c : KeyCall) : Faithful lib (step lib config s c) := by
  rw [Faithful, JwksCache.step]
  cases hcached : cached config c s.cache with
  | some key =>
    obtain ⟨hget, hfetch⟩ := getKey_of_cached lib hcached
    simpa [Faithful, hget, hfetch] using h
  | none =>
    cases hresponse : c.response with
    | none =>
      obtain ⟨hget, hfetch⟩ := getKey_of_failed lib hcached hresponse
      simpa [Faithful, hget, hfetch] using h
    | some jwks =>
      obtain ⟨hget, hfetch⟩ := getKey_of_fetched lib hcached hresponse
      simp [hget, hfetch]

/-- In every run the cache is faithful. -/
lemma faithful_run (calls : List KeyCall) : Faithful lib (run lib config calls) := by
  induction calls using List.reverseRecOn with
  | nil => rfl
  | append_singleton calls c ih =>
    rw [run, List.foldl_append]
    exact ih.step c

/-- A key comes from the last successful fetch, which this call has made, or an earlier one that was
stored less than the lifetime of the cache ago. -/
lemma exists_of_getKey (h : Faithful lib s) (hkey : (getKey lib config c s.cache).1 = .ok key) :
    ∃ f, (step lib config s c).fetches.getLast? = some f ∧ Serves lib f.jwks c.kid key ∧
      (fetchOf config c s.cache = some f ∨
        s.fetches.getLast? = some f ∧ c.now - f.stored < config.cacheTtl) := by
  rw [JwksCache.step]
  cases hcached : cached config c s.cache with
  | some key' =>
    obtain ⟨hget, hfetch⟩ := getKey_of_cached lib hcached
    rw [hget, Except.ok.injEq] at hkey
    obtain ⟨entry, hentry, hfresh⟩ := Option.bind_eq_some_iff.mp hcached
    rw [h, Option.map_eq_some_iff] at hentry
    obtain ⟨f, hlast, rfl⟩ := hentry
    obtain ⟨hlt, hlookup⟩ := Option.ite_none_right_eq_some.mp hfresh
    rw [hkey] at hlookup
    exact ⟨f, by simpa [hfetch] using hlast, serves_of_lookup hlookup, .inr ⟨hlast, hlt⟩⟩
  | none =>
    cases hresponse : c.response with
    | none =>
      rw [(getKey_of_failed lib hcached hresponse).1] at hkey
      cases hkey
    | some jwks =>
      obtain ⟨hget, hfetch⟩ := getKey_of_fetched lib hcached hresponse
      rw [hget] at hkey
      cases hlookup : (keyTable lib jwks).lookup c.kid with
      | none =>
        rw [hlookup] at hkey
        cases hkey
      | some key' =>
        rw [hlookup, Except.ok.injEq] at hkey
        rw [hkey] at hlookup
        exact ⟨_, by simp [hfetch], serves_of_lookup hlookup, .inl hfetch⟩

lemma of_fetchOf (h : fetchOf config c cache = some f) :
    f.answered = c.answered ∧ f.stored = c.stored := by
  rw [fetchOf] at h
  split at h
  · cases h
  · obtain ⟨jwks, -, rfl⟩ := Option.map_eq_some_iff.mp h
    exact ⟨rfl, rfl⟩

lemma run_concat (calls : List KeyCall) (c : KeyCall) :
    run lib config (calls ++ [c]) = step lib config (run lib config calls) c := by
  rw [run, List.foldl_append]
  rfl

/-- Fetches are made by calls. -/
lemma exists_of_mem_fetches (h : f ∈ (run lib config calls).fetches) :
    ∃ c ∈ calls, f.stored = c.stored := by
  induction calls using List.reverseRecOn with
  | nil => cases h
  | append_singleton calls c ih =>
    rw [run_concat, step, List.mem_append] at h
    rcases h with h | h
    · obtain ⟨c', hc', hstored⟩ := ih h
      exact ⟨c', List.mem_append_left _ hc', hstored⟩
    · exact ⟨c, by simp, (of_fetchOf (Option.mem_toList.mp h)).2⟩

lemma Ordered.stored_le (h : Ordered (calls ++ [c])) (hf : f ∈ (run lib config calls).fetches) :
    f.stored ≤ c.now := by
  obtain ⟨c', hc', hstored⟩ := exists_of_mem_fetches hf
  rw [Ordered, List.flatMap_append, List.pairwise_append] at h
  rw [hstored]
  exact h.2.2 c'.stored (List.mem_flatMap.mpr ⟨c', hc', by simp⟩) c.now (by simp)

lemma Ordered.now_le (h : Ordered (calls ++ [c])) : c.now ≤ c.answered := by
  rw [Ordered, List.flatMap_append, List.pairwise_append] at h
  have hcall := h.2.1
  simp only [List.flatMap_cons, List.flatMap_nil, List.append_nil, List.pairwise_cons] at hcall
  exact hcall.1 c.answered (by simp)

/-- A key that no answer has served since some time is refused as soon as the cache lives no longer;
`delay` bounds how long an answer is under way. -/
lemma getKey_withdrawn (h : Ordered (calls ++ [c])) {withdrawn delay : ℕ}
    (hdelay : ∀ f ∈ (run lib config (calls ++ [c])).fetches, f.stored ≤ f.answered + delay)
    (hwithdrawn : ∀ f ∈ (run lib config (calls ++ [c])).fetches, withdrawn ≤ f.answered →
      ¬ Serves lib f.jwks c.kid key)
    (hlate : withdrawn + config.cacheTtl + delay ≤ c.now) :
    (getKey lib config c (run lib config calls).cache).1 ≠ .ok key := by
  intro hkey
  obtain ⟨f, hlast, hserves, hsource⟩ := exists_of_getKey (faithful_run calls) hkey
  rw [← run_concat] at hlast
  have hmem := List.mem_of_getLast? hlast
  have hstored := hdelay f hmem
  refine hwithdrawn f hmem ?_ hserves
  rcases hsource with hfetch | ⟨-, hfresh⟩
  · have hanswered := (of_fetchOf hfetch).1
    have hle := h.now_le
    omega
  · omega

/-- In every run, a key that is answered was served by the last successful fetch, in this call or
less than the lifetime of the cache ago; a failed fetch changes nothing, and what the last successful
fetch did not serve is not answered. -/
theorem signing_keys_fresh (h : Ordered (calls ++ [c])) :
    (∀ key, (getKey lib config c (run lib config calls).cache).1 = .ok key →
        ∃ f, (run lib config (calls ++ [c])).fetches.getLast? = some f ∧
          Serves lib f.jwks c.kid key ∧
          (fetchOf config c (run lib config calls).cache = some f ∨
            (run lib config calls).fetches.getLast? = some f ∧ f.stored ≤ c.now ∧
              c.now < f.stored + config.cacheTtl)) ∧
      (cached config c (run lib config calls).cache = none → c.response = none →
        (getKey lib config c (run lib config calls).cache).1 = .error .jwksUnavailable ∧
          (run lib config (calls ++ [c])).cache = (run lib config calls).cache) ∧
      (∀ f, (run lib config (calls ++ [c])).fetches.getLast? = some f →
        (∀ key, ¬ Serves lib f.jwks c.kid key) →
        ∀ key, (getKey lib config c (run lib config calls).cache).1 ≠ .ok key) ∧
      ∀ withdrawn delay key,
        (∀ f ∈ (run lib config (calls ++ [c])).fetches, f.stored ≤ f.answered + delay) →
        (∀ f ∈ (run lib config (calls ++ [c])).fetches, withdrawn ≤ f.answered →
          ¬ Serves lib f.jwks c.kid key) →
        withdrawn + config.cacheTtl + delay ≤ c.now →
        (getKey lib config c (run lib config calls).cache).1 ≠ .ok key := by
  refine ⟨fun key hkey => ?_, fun hcached hfail => ?_, fun f hlast hnot key hkey => ?_,
    fun withdrawn delay key hdelay hwithdrawn hlate => getKey_withdrawn h hdelay hwithdrawn hlate⟩
  · obtain ⟨f, hlast, hserves, hsource⟩ := exists_of_getKey (faithful_run calls) hkey
    refine ⟨f, by rwa [run_concat], hserves, hsource.imp_right ?_⟩
    rintro ⟨hbefore, hfresh⟩
    have hle := h.stored_le (List.mem_of_getLast? hbefore)
    exact ⟨hbefore, hle, by omega⟩
  · obtain ⟨hget, -⟩ := getKey_of_failed lib hcached hfail
    rw [run_concat, step, hget]
    exact ⟨rfl, rfl⟩
  · obtain ⟨f', hlast', hserves, -⟩ := exists_of_getKey (faithful_run calls) hkey
    rw [← run_concat, hlast, Option.some.injEq] at hlast'
    rw [← hlast'] at hserves
    exact hnot key hserves

end Runs

/-! ### Tokens -/

section Tokens

variable {lib config} {token : String} {c : KeyCall} {cache : Option (CacheEntry κ)}
  {s : History κ} {sub : Option String}

/-- A token that is accepted has been checked with the key of its id. -/
lemma exists_of_validateToken (h : (validateToken lib config token c cache).1 = .ok sub) :
    ∃ kid key, lib.decodeHeader token = some (some kid) ∧
      (getKey lib config { c with kid } cache).1 = .ok key ∧
      lib.decode key config.issuer config.audience token = some sub := by
  rw [validateToken] at h
  split at h
  · cases h
  · cases h
  · next kid hkid =>
    split at h
    · cases h
    · next key cache' hget =>
      split at h
      · next sub' hdecode =>
        cases h
        exact ⟨kid, key, hkid, by rw [hget], hdecode⟩
      · cases h

/-- The key that a token was accepted under is as fresh as the cache has to be. -/
theorem accepted_token_fresh (hs : Faithful lib s)
    (h : (validateToken lib config token c s.cache).1 = .ok sub) :
    ∃ kid key f, lib.decodeHeader token = some (some kid) ∧
      lib.decode key config.issuer config.audience token = some sub ∧
      (step lib config s { c with kid }).fetches.getLast? = some f ∧ Serves lib f.jwks kid key ∧
      (fetchOf config { c with kid } s.cache = some f ∨
        s.fetches.getLast? = some f ∧ c.now - f.stored < config.cacheTtl) := by
  obtain ⟨kid, key, hkid, hget, hdecode⟩ := exists_of_validateToken h
  obtain ⟨f, hlast, hserves, hsource⟩ := exists_of_getKey hs hget
  exact ⟨kid, key, f, hkid, hdecode, hlast, hserves, hsource⟩

end Tokens

/-! ### A run in which a key is withdrawn -/

/-- A library whose keys are the two numbers. -/
def sampleJwt : JwtLib (String × String) where
  fromRsaComponents n e := some (n, e)
  decodeHeader _        := none
  decode _ _ _ _        := none

def sampleOidc : OidcConfig := ⟨"issuer", "audience", 10⟩

/-- The key is served. -/
def sampleServed : KeyCall := ⟨"k1", 0, 1, 2, some [⟨some "k1", "RSA", some "n1", some "e1"⟩]⟩

/-- Another key is served in its place. -/
def sampleRotated : KeyCall := ⟨"k1", 20, 21, 22, some [⟨some "k2", "RSA", some "n2", some "e2"⟩]⟩

theorem signing_keys_fresh_rotated :
    (getKey sampleJwt sampleOidc sampleServed none).1 = .ok ("n1", "e1") ∧
      (getKey sampleJwt sampleOidc sampleRotated
        (run sampleJwt sampleOidc [sampleServed]).cache).1 ≠ .ok ("n1", "e1") := by
  have hordered : Ordered ([sampleServed] ++ [sampleRotated]) := by
    rw [Ordered]
    decide
  have hfetches : (run sampleJwt sampleOidc ([sampleServed] ++ [sampleRotated])).fetches =
      [⟨1, 2, [⟨some "k1", "RSA", some "n1", some "e1"⟩]⟩,
        ⟨21, 22, [⟨some "k2", "RSA", some "n2", some "e2"⟩]⟩] := rfl
  refine ⟨rfl, (signing_keys_fresh hordered).2.2.2 5 1 _ ?_ ?_ (by decide)⟩
  · rw [hfetches]
    simp
  · rw [hfetches]
    simp [Serves, sampleRotated]

end JwksCache
end BlobStore
