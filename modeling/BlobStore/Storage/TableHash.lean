import BlobStore.Storage.FsBackend

/-!
# Digests from a table

A `NameHash` whose values on finitely many names are given, as the 64 digits of a SHA-256 digest.
All other names get longer texts of their own, so that there are no collisions. `sample` is a
backend that can be run: on the names and bytes in its tables it hashes as the real one does.
-/

namespace BlobStore

open Codec

/-- The code of one character: its number in unary, and an end mark. -/
def letterDigits (c : Char) : List Char := List.replicate c.toNat 'a' ++ ['b']

/-- A text of hexadecimal digits for a name that is not in the table. -/
def spell (s : String) : String :=
  String.ofList (List.replicate 65 '0' ++ s.toList.flatMap letterDigits)

lemma replicate_end_injective {m n : ℕ} {xs ys : List Char}
    (h : List.replicate m 'a' ++ 'b' :: xs = List.replicate n 'a' ++ 'b' :: ys) :
    m = n ∧ xs = ys := by
  induction m generalizing n with
  | zero =>
    cases n with
    | zero => exact ⟨rfl, (List.cons.inj h).2⟩
    | succ n => exact absurd (List.cons.inj h).1 (by decide)
  | succ m ih =>
    cases n with
    | zero => exact absurd (List.cons.inj h).1 (by decide)
    | succ n =>
      obtain ⟨hmn, hxs⟩ := ih (List.cons.inj h).2
      exact ⟨congrArg (· + 1) hmn, hxs⟩

lemma flatMap_letterDigits_injective {xs ys : List Char}
    (h : xs.flatMap letterDigits = ys.flatMap letterDigits) : xs = ys := by
  induction xs generalizing ys with
  | nil =>
    cases ys with
    | nil => rfl
    | cons y ys => simp [letterDigits] at h
  | cons x xs ih =>
    cases ys with
    | nil => simp [letterDigits] at h
    | cons y ys =>
      simp only [List.flatMap_cons, letterDigits, List.append_assoc, List.singleton_append] at h
      obtain ⟨hxy, hrest⟩ := replicate_end_injective h
      rw [Char.toNat_inj.mp hxy, ih hrest]

lemma spell_injective : Function.Injective spell := by
  intro s t h
  have h' := String.ofList_injective h
  exact String.toList_injective (flatMap_letterDigits_injective (List.append_cancel_left h'))

lemma length_spell (s : String) : 65 ≤ (spell s).toList.length := by
  rw [spell, String.toList_ofList, List.length_append, List.length_replicate]
  omega

lemma hexText_spell (s : String) : HexText (spell s) := by
  intro c hc
  rw [spell, String.toList_ofList] at hc
  rcases List.mem_append.mp hc with hc | hc
  · rw [(List.mem_replicate.mp hc).2]
    decide
  · obtain ⟨x, -, hx⟩ := List.mem_flatMap.mp hc
    rcases List.mem_append.mp hx with hx | hx
    · rw [(List.mem_replicate.mp hx).2]
      decide
    · rw [List.mem_singleton.mp hx]
      decide

/-- A table of names and their digests. -/
structure DigestTable where
  entries : List (String × String)
  isHex : ∀ e ∈ entries, ∀ c ∈ e.2.toList, (hexValue c).isSome
  length : ∀ e ∈ entries, e.2.toList.length = 64
  nodup : (entries.map Prod.snd).Nodup

namespace DigestTable

variable (T : DigestTable)

def hashHex (s : String) : String := (T.entries.lookup s).getD (spell s)

lemma mem_of_lookup {l : List (String × String)} {s d : String} (h : l.lookup s = some d) :
    (s, d) ∈ l := by
  induction l with
  | nil => cases h
  | cons e l ih =>
    obtain ⟨s', d'⟩ := e
    rw [List.lookup_cons] at h
    split at h
    · next heq =>
      cases h
      rw [eq_of_beq heq]
      exact List.mem_cons_self
    · exact List.mem_cons_of_mem _ (ih h)

/-- A name is hashed by its entry, or spelt. -/
lemma hashHex_cases (s : String) : (s, T.hashHex s) ∈ T.entries ∨ T.hashHex s = spell s := by
  unfold hashHex
  cases h : T.entries.lookup s with
  | none => exact .inr rfl
  | some d => exact .inl (mem_of_lookup h)

lemma hashHex_injective : Function.Injective T.hashHex := by
  intro s t h
  rcases T.hashHex_cases s with hs | hs <;> rcases T.hashHex_cases t with ht | ht
  · rw [h] at hs
    exact congrArg Prod.fst (List.inj_on_of_nodup_map T.nodup hs ht rfl)
  · have hlen := T.length _ hs
    have hlong := length_spell t
    rw [← ht, ← h] at hlong
    dsimp only at hlen
    omega
  · have hlen := T.length _ ht
    have hlong := length_spell s
    rw [← hs, h] at hlong
    dsimp only at hlen
    omega
  · exact spell_injective (hs.symm.trans (h.trans ht))

/-- The hash that answers from the table. -/
def nameHash : NameHash where
  hashHex := T.hashHex
  isHex s := by
    rcases T.hashHex_cases s with hs | hs
    · exact T.isHex _ hs
    · rw [hs]
      exact hexText_spell s
  long s := by
    rcases T.hashHex_cases s with hs | hs
    · have hlen := T.length _ hs
      dsimp only at hlen
      omega
    · have hlong := length_spell s
      rw [hs]
      omega
  injective := T.hashHex_injective

end DigestTable
/-! ### A backend that can be run -/

def sampleEntries : List (String × String) :=
  [("b", "3e23e8160039594a33894f6564e1b1348bbd7a0088d42c4acb73eeaed59c009d"),
    ("x", "2d711642b726b04401627ca9fbac32f5c8530fb1903cc4db02258717921a4881"),
    ("a", "ca978112ca1bbdcafac231b39a23dc4da786eff8147c4e72b9807785afee48bb"),
    ("AAAA", "63c1dd951ffedf6f7fd968ad4efa39b8ed584f162f46e715114ee184f8de9201"),
    ("BBBB", "4a8d8134f29b0b7b60c126f5532bc9f5d9bb73037373cf6fb872d81f1dcefdfd")]

def sampleDigests : DigestTable where
  entries := sampleEntries
  isHex := by
    have hall : (sampleEntries.all fun e => e.2.toList.all fun c => (hexValue c).isSome) = true := by
      decide +kernel
    simpa only [List.all_eq_true] using hall
  length := by decide +kernel
  nodup := by decide +kernel

def sampleMd5 (bytes : Bytes) : Bytes :=
  (List.lookup bytes
    [([], [212, 29, 140, 217, 143, 0, 178, 4, 233, 128, 9, 152, 236, 248, 66, 126]),
    ([1], [85, 165, 64, 8, 173, 27, 165, 137, 170, 33, 13, 38, 41, 193, 223, 65]),
    ([2], [158, 104, 140, 88, 165, 72, 123, 142, 175, 105, 201, 225, 0, 90, 208, 191]),
    ([3], [134, 102, 104, 53, 6, 170, 205, 144, 11, 189, 90, 116, 172, 78, 223, 104]),
    ([1, 2], [12, 185, 136, 208, 66, 167, 242, 141, 213, 254, 43, 85, 179, 245, 172, 122]),
    ([1, 2, 3], [82, 137, 223, 115, 125, 245, 115, 38, 252, 221, 34, 89, 122, 251, 31, 172])]).getD []

def sample : FsBackend := ⟨"/data", sampleDigests.nameHash, sampleMd5⟩

def sampleAccounts : Table String AccountRow := AList.insert "acc" ⟨"a2V5", none⟩ ∅

/-- Quiet surroundings; `n` is the clock reading. -/
def sampleAmb (n : ℕ) : Ambient where
  etag         := "0x8DC"
  lastModified := "Mon, 01 Jan 2024 00:00:00 GMT"
  nowIso       := "2024-01-01T00:00:00+00:00"
  nanos        := n
  tid          := 1
  readLen      := fun _ => 4096
  removeFails  := fun _ => false
  dbFault      := none

end BlobStore
