import BlobStore.Lib.UnixPath
import BlobStore.Lib.Codec
import BlobStore.Storage.Types

/-!
# On-disk layout

Blob names and block ids are hashed; account and container names go into the path as they are.
The functions here compute texts; `UnixPath.resolve` says what they name.
-/

namespace BlobStore

open UnixPath FileTree

/-- What the layout takes from `sha2` and `hex`: the text of a digest, of hexadecimal digits, long
enough to cut two pairs from it, and without collisions. -/
structure NameHash where
  hashHex : String → String
  isHex : ∀ s, ∀ c ∈ (hashHex s).toList, (Codec.hexValue c).isSome
  long : ∀ s, 4 ≤ (hashHex s).toList.length
  injective : Function.Injective hashHex

/-- The part of a text between two character positions. -/
def slice (s : String) (i j : ℕ) : String := String.ofList (((Text.chars s).drop i).take (j - i))

namespace PathLayout

variable (H : NameHash)

/-- Root directory for an account. -/
def accountRoot (storageRoot account : String) : String :=
  join (join storageRoot "accounts") account

/-- Container root, below the account root. -/
def containerRoot (storageRoot account container : String) : String :=
  join (join (accountRoot storageRoot account) "containers") container

/-- Path of a committed blob's bytes, below the container root. -/
def blobRelPath (blobName : String) : String :=
  let h := H.hashHex blobName
  join (join (join "blobs" (slice h 0 2)) (slice h 2 4)) (h ++ ".bin")

/-- Path of one staged block, below the container root. -/
def stagedBlockRelPath (blobName blockId : String) : String :=
  join (join (join ".staging" "blocks") (H.hashHex blobName)) (H.hashHex blockId ++ ".blk")

end PathLayout

/-- `rel.to_string_lossy().replace('\\', "/")`, the text kept in the database. -/
def storedText (rel : String) : String :=
  String.ofList ((Text.chars rel).map fun c => if c = '\\' then '/' else c)

/-- A name for which a joined path goes one level down and is stored as it is. -/
structure OrdinaryName (x : String) : Prop extends IsComponent x where
  no_backslash : '\\' ∉ x.toList

instance (x : String) : Coe (OrdinaryName x) (IsComponent x) := ⟨OrdinaryName.toIsComponent⟩

instance (x : String) : Decidable (OrdinaryName x) :=
  decidable_of_iff (IsComponent x ∧ '\\' ∉ x.toList)
    ⟨fun h => ⟨h.1, h.2⟩, fun h => ⟨h.1, h.2⟩⟩

/-! ### Digests are plain components -/

section Digest

variable (H : NameHash)

/-- Texts whose characters are hexadecimal digits. -/
def HexText (s : String) : Prop := ∀ c ∈ s.toList, (Codec.hexValue c).isSome

lemma HexText.no_slash {s : String} (h : HexText s) : '/' ∉ s.toList :=
  fun hc => absurd (h _ hc) (by decide)

lemma HexText.no_dot {s : String} (h : HexText s) : '.' ∉ s.toList :=
  fun hc => absurd (h _ hc) (by decide)

lemma HexText.no_backslash {s : String} (h : HexText s) : '\\' ∉ s.toList :=
  fun hc => absurd (h _ hc) (by decide)

/-- A text that is free of slashes and has a character other than a dot is one step down. -/
lemma isComponent_of_mem {s : String} {c : Char} (hc : c ∈ s.toList) (hdot : c ≠ '.')
    (hslash : '/' ∉ s.toList) : IsComponent s where
  ne_empty := by rintro rfl; simp at hc
  ne_dot := by rintro rfl; simp at hc; exact hdot hc
  ne_dotdot := by rintro rfl; simp at hc; exact hdot hc
  no_slash := hslash

lemma HexText.isComponent {s : String} (h : HexText s) (hne : s ≠ "") : IsComponent s := by
  have hne' : s.toList ≠ [] := fun h' => hne (String.toList_injective h')
  obtain ⟨c, hc⟩ := List.exists_mem_of_ne_nil _ hne'
  exact isComponent_of_mem hc (fun h' => h.no_dot (h' ▸ hc)) h.no_slash

lemma hexText_hashHex (s : String) : HexText (H.hashHex s) := H.isHex s

lemma hashHex_ne_empty (s : String) : H.hashHex s ≠ "" := by
  intro h
  have := H.long s
  simp [h] at this

lemma hexText_slice {s : String} (h : HexText s) (i j : ℕ) : HexText (slice s i j) := by
  intro c hc
  rw [slice, String.toList_ofList, Text.chars_eq] at hc
  exact h c (List.mem_of_mem_drop (List.mem_of_mem_take hc))

lemma slice_ne_empty {s : String} {i j : ℕ} (hij : i < j) (hi : i < s.toList.length) :
    slice s i j ≠ "" := by
  intro h
  have hlen := congrArg (fun t : String => t.toList.length) h
  simp only [slice, String.toList_ofList, Text.chars_eq, List.length_take, List.length_drop,
    String.toList_empty, List.length_nil] at hlen
  omega

/-- A digest with a file extension is still one step down. -/
lemma HexText.isComponent_append {s ext : String} (h : HexText s) (hne : s ≠ "")
    (hext : '/' ∉ ext.toList) : IsComponent (s ++ ext) := by
  have hne' : s.toList ≠ [] := fun h' => hne (String.toList_injective h')
  obtain ⟨c, hc⟩ := List.exists_mem_of_ne_nil _ hne'
  refine isComponent_of_mem (c := c) ?_ (fun h' => h.no_dot (h' ▸ hc)) ?_
  · simp [hc]
  · simp [h.no_slash, hext]

end Digest
end BlobStore
