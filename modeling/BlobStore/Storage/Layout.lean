import BlobStore.Storage.FsBackend

/-!
# What the paths name

For ordinary account and container names the texts computed by the backend resolve to fixed
positions below the storage root. The positions themselves are lists of components, and as such
they tell apart blobs, staged blocks and temporary files of all keys.
-/

namespace BlobStore

open Codec FileTree UnixPath

/-- Both names of a container are ordinary. -/
structure ContainerKey.Ordinary (c : ContainerKey) : Prop where
  account : OrdinaryName c.account
  container : OrdinaryName c.container

instance (c : ContainerKey) : Decidable c.Ordinary :=
  decidable_of_iff (OrdinaryName c.account ∧ OrdinaryName c.container)
    ⟨fun h => ⟨h.1, h.2⟩, fun h => ⟨h.1, h.2⟩⟩

namespace FsBackend

variable (B : FsBackend)

/-! ### Positions -/

/-- The storage root. -/
def root : Path := resolve B.storageRoot

/-- The directory of a container. -/
def containerDir (c : ContainerKey) : Path :=
  B.root ++ ["accounts", c.account, "containers", c.container]

/-- The file of a blob. -/
def blobFile (k : BlobKey) : Path :=
  let h := B.hash.hashHex k.blob
  B.containerDir k.containerKey ++ ["blobs", slice h 0 2, slice h 2 4, h ++ ".bin"]

/-- The file of a staged block. -/
def stagedFile (s : StagedBlockKey) : Path :=
  B.containerDir s.blob.containerKey ++
    [".staging", "blocks", B.hash.hashHex s.blob.blob, B.hash.hashHex s.blockId ++ ".blk"]

/-- A temporary file of an account. -/
def tmpFile (account : String) (amb : Ambient) : Path :=
  B.root ++ ["accounts", account, "tmp", uuidLike amb.nanos amb.tid ++ ".tmp"]

/-! ### Positions tell their keys apart -/

lemma ext_injective {x y ext : String} (h : x ++ ext = y ++ ext) : x = y := by
  have h' := congrArg String.toList h
  rw [String.toList_append, String.toList_append] at h'
  exact String.toList_injective (List.append_cancel_right h')

variable {B}

lemma containerDir_injective {c c' : ContainerKey} (h : B.containerDir c = B.containerDir c') :
    c = c' := by
  have h' := List.append_cancel_left h
  simp only [List.cons.injEq, true_and, and_true] at h'
  obtain ⟨ha, hc⟩ := h'
  cases c; cases c'; simp_all

lemma blobFile_injective {k k' : BlobKey} (h : B.blobFile k = B.blobFile k') : k = k' := by
  obtain ⟨hdir, hfile⟩ := List.append_inj h (by simp [containerDir])
  have hc : k.containerKey = k'.containerKey := containerDir_injective hdir
  simp only [List.cons.injEq, true_and, and_true] at hfile
  have hb : k.blob = k'.blob := B.hash.injective (ext_injective hfile.2.2)
  obtain ⟨a, c, b⟩ := k
  obtain ⟨a', c', b'⟩ := k'
  simp_all

lemma stagedFile_injective {s s' : StagedBlockKey} (h : B.stagedFile s = B.stagedFile s') :
    s = s' := by
  obtain ⟨hdir, hfile⟩ := List.append_inj h (by simp [containerDir])
  have hc : s.blob.containerKey = s'.blob.containerKey := containerDir_injective hdir
  simp only [List.cons.injEq, true_and, and_true] at hfile
  have hb : s.blob.blob = s'.blob.blob := B.hash.injective hfile.1
  have hid : s.blockId = s'.blockId := B.hash.injective (ext_injective hfile.2)
  obtain ⟨⟨a, c, b⟩, id⟩ := s
  obtain ⟨⟨a', c', b'⟩, id'⟩ := s'
  simp_all

lemma blobFile_ne_stagedFile (k : BlobKey) (s : StagedBlockKey) :
    B.blobFile k ≠ B.stagedFile s := by
  intro h
  obtain ⟨-, hfile⟩ := List.append_inj h (by simp [containerDir])
  simp at hfile

/-- Temporary files lie higher in the tree than the files of blobs and blocks. -/
lemma tmpFile_ne_of_containerDir (account : String) (amb : Ambient) {c : ContainerKey}
    {p : Path} (h : B.containerDir c <+: p) : B.tmpFile account amb ≠ p := by
  rintro rfl
  obtain ⟨rest, h⟩ := h
  have h' := List.append_cancel_left ((List.append_assoc _ _ _).symm.trans h)
  simp at h'

lemma containerDir_blobFile {c : ContainerKey} {k : BlobKey} :
    B.containerDir c <+: B.blobFile k ↔ k.containerKey = c := by
  constructor
  · intro h
    have hk : B.containerDir k.containerKey <+: B.blobFile k := List.prefix_append _ _
    have := List.prefix_of_prefix_length_le h hk (by simp [containerDir])
    exact (containerDir_injective (this.eq_of_length (by simp [containerDir]))).symm
  · rintro rfl
    exact List.prefix_append _ _

lemma containerDir_stagedFile {c : ContainerKey} {s : StagedBlockKey} :
    B.containerDir c <+: B.stagedFile s ↔ s.blob.containerKey = c := by
  constructor
  · intro h
    have hk : B.containerDir s.blob.containerKey <+: B.stagedFile s := List.prefix_append _ _
    have := List.prefix_of_prefix_length_le h hk (by simp [containerDir])
    exact (containerDir_injective (this.eq_of_length (by simp [containerDir]))).symm
  · rintro rfl
    exact List.prefix_append _ _

lemma tmpFile_ne_blobFile (account : String) (amb : Ambient) (k : BlobKey) :
    B.tmpFile account amb ≠ B.blobFile k :=
  tmpFile_ne_of_containerDir account amb (containerDir_blobFile.mpr rfl)

lemma tmpFile_ne_stagedFile (account : String) (amb : Ambient) (s : StagedBlockKey) :
    B.tmpFile account amb ≠ B.stagedFile s :=
  tmpFile_ne_of_containerDir account amb (containerDir_stagedFile.mpr rfl)

end FsBackend

/-! ### Texts without backslashes are stored as they are -/

lemma storedText_of_no_backslash {s : String} (h : '\\' ∉ s.toList) : storedText s = s := by
  apply String.toList_injective
  rw [storedText, String.toList_ofList, Text.chars_eq]
  conv_rhs => rw [← List.map_id s.toList]
  refine List.map_congr_left fun c hc => ?_
  have hne : c ≠ '\\' := fun h' => h (h' ▸ hc)
  rw [if_neg hne, id]

lemma no_backslash_join {p q : String} (hp : '\\' ∉ p.toList) (hq : '\\' ∉ q.toList) :
    '\\' ∉ (join p q).toList := by
  unfold join
  split_ifs <;> simp [hp, hq]

lemma no_slash_toDigits {b : ℕ} (hb : 1 < b) (hb' : b ≤ 16) (n : ℕ) :
    '/' ∉ Nat.toDigits b n := by
  have hdigit : ∀ m < 16, Nat.digitChar m ≠ '/' := by decide
  have hall : ∀ c ∈ Nat.toDigits b n, c ≠ '/' :=
    Text.forall_mem_toDigits (fun m hm => hdigit m (by omega)) hb n
  exact fun hmem => hall '/' hmem rfl

/-- The name of a temporary file is one step down. -/
lemma isComponent_uuidLike (nanos tid : ℕ) : IsComponent (uuidLike nanos tid ++ ".tmp") := by
  have h16 := no_slash_toDigits (b := 16) (by omega) (by omega) nanos
  have h10 := no_slash_toDigits (b := 10) (by omega) (by omega) tid
  refine isComponent_of_mem (c := 't') (by simp) (by decide) ?_
  simp [uuidLike, h16, h10]

/-! ### Ordinary names go where they say -/

namespace FsBackend

variable (B : FsBackend) {a c : String} (b : String)

lemma isComponent_slice (s : String) (i j : ℕ) (hij : i < j) (hi : i < 4) :
    IsComponent (slice (B.hash.hashHex s) i j) :=
  (hexText_slice (hexText_hashHex B.hash s) i j).isComponent
    (slice_ne_empty hij (lt_of_lt_of_le hi (B.hash.long s)))

lemma isComponent_file (s : String) {ext : String} (hext : '/' ∉ ext.toList) :
    IsComponent (B.hash.hashHex s ++ ext) :=
  (hexText_hashHex B.hash s).isComponent_append (hashHex_ne_empty B.hash s) hext

lemma isComponent_hashHex (s : String) : IsComponent (B.hash.hashHex s) :=
  (hexText_hashHex B.hash s).isComponent (hashHex_ne_empty B.hash s)

/-- The texts the backend joins below a container: pieces that go down one by one. -/
lemma descend_blobRelPath (dir : Path) :
    descend dir (PathLayout.blobRelPath B.hash b) = dir ++
      ["blobs", slice (B.hash.hashHex b) 0 2, slice (B.hash.hashHex b) 2 4,
        B.hash.hashHex b ++ ".bin"] := by
  unfold PathLayout.blobRelPath
  rw [descend_join_component (B.isComponent_file b (by decide)),
    descend_join_component (B.isComponent_slice b 2 4 (by omega) (by omega)),
    descend_join_component (B.isComponent_slice b 0 2 (by omega) (by omega)),
    descend_component (by decide)]
  simp

lemma descend_stagedBlockRelPath (dir : Path) (id : String) :
    descend dir (PathLayout.stagedBlockRelPath B.hash b id) = dir ++
      [".staging", "blocks", B.hash.hashHex b, B.hash.hashHex id ++ ".blk"] := by
  unfold PathLayout.stagedBlockRelPath
  rw [descend_join_component (B.isComponent_file id (by decide)),
    descend_join_component (B.isComponent_hashHex b),
    descend_join_component (by decide), descend_component (by decide)]
  simp

lemma isAbsolute_blobRelPath : isAbsolute (PathLayout.blobRelPath B.hash b) = false :=
  isAbsolute_join
    (isAbsolute_join
      (isAbsolute_join (by decide) (B.isComponent_slice b 0 2 (by omega) (by omega)).isAbsolute)
      (B.isComponent_slice b 2 4 (by omega) (by omega)).isAbsolute)
    (B.isComponent_file b (by decide)).isAbsolute

lemma isAbsolute_stagedBlockRelPath (id : String) :
    isAbsolute (PathLayout.stagedBlockRelPath B.hash b id) = false :=
  isAbsolute_join
    (isAbsolute_join (isAbsolute_join (by decide) (by decide))
      (B.isComponent_hashHex b).isAbsolute)
    (B.isComponent_file id (by decide)).isAbsolute

variable {b}

/-- A relative text, put below a container and then below the storage root. -/
lemma resolve_join_container (ha : IsComponent a) (hc : IsComponent c) {rel : String}
    (hrel : isAbsolute rel = false) :
    resolve (join B.storageRoot (join (join (join (join "accounts" a) "containers") c) rel)) =
      descend (B.containerDir ⟨a, c⟩) rel := by
  have habs : isAbsolute (join (join (join "accounts" a) "containers") c) = false :=
    isAbsolute_join
      (isAbsolute_join (isAbsolute_join (by decide) ha.isAbsolute) (by decide)) hc.isAbsolute
  rw [resolve_join (isAbsolute_join habs hrel), descend_join hrel,
    descend_join_component hc,
    descend_join_component (x := "containers") (by decide),
    descend_join_component ha, descend_component (x := "accounts") (by decide)]
  simp [containerDir, root]

lemma resolve_blobPaths (ha : IsComponent a) (hc : IsComponent c) :
    resolve (B.blobPaths a c b).1 = B.blobFile ⟨a, c, b⟩ := by
  unfold blobPaths blobRel
  rw [B.resolve_join_container ha hc (B.isAbsolute_blobRelPath b), descend_blobRelPath]
  rfl

lemma resolve_stagedBlockPath (ha : IsComponent a) (hc : IsComponent c) (id : String) :
    resolve (B.stagedBlockPath a c b id).1 = B.stagedFile ⟨⟨a, c, b⟩, id⟩ := by
  unfold stagedBlockPath stagedBlockRel
  rw [B.resolve_join_container ha hc (B.isAbsolute_stagedBlockRelPath b id),
    descend_stagedBlockRelPath]
  rfl

lemma no_backslash_slice (s : String) (i j : ℕ) :
    '\\' ∉ (slice (B.hash.hashHex s) i j).toList :=
  (hexText_slice (hexText_hashHex B.hash s) i j).no_backslash

lemma no_backslash_file (s : String) {ext : String} (hext : '\\' ∉ ext.toList) :
    '\\' ∉ (B.hash.hashHex s ++ ext).toList := by
  simp [(hexText_hashHex B.hash s).no_backslash, hext]

lemma no_backslash_container (ha : OrdinaryName a) (hc : OrdinaryName c) :
    '\\' ∉ (join (join (join "accounts" a) "containers") c).toList :=
  no_backslash_join
    (no_backslash_join (no_backslash_join (by decide) ha.no_backslash) (by decide))
    hc.no_backslash

lemma storedText_blobRel (ha : OrdinaryName a) (hc : OrdinaryName c) :
    storedText (B.blobRel a c b) = B.blobRel a c b := by
  refine storedText_of_no_backslash (no_backslash_join (no_backslash_container ha hc) ?_)
  refine no_backslash_join (no_backslash_join (no_backslash_join (by decide) ?_) ?_) ?_
  · exact B.no_backslash_slice b 0 2
  · exact B.no_backslash_slice b 2 4
  · exact B.no_backslash_file b (by decide)

lemma storedText_stagedBlockRel (ha : OrdinaryName a) (hc : OrdinaryName c) (id : String) :
    storedText (B.stagedBlockRel a c b id) = B.stagedBlockRel a c b id := by
  refine storedText_of_no_backslash (no_backslash_join (no_backslash_container ha hc) ?_)
  refine no_backslash_join (no_backslash_join (by decide) ?_) ?_
  · exact (hexText_hashHex B.hash b).no_backslash
  · exact B.no_backslash_file id (by decide)

/-- The recorded path of a blob names the file that was written. -/
lemma stored_blobPaths (ha : OrdinaryName a) (hc : OrdinaryName c) :
    B.stored (B.blobPaths a c b).2 = B.blobFile ⟨a, c, b⟩ := by
  rw [← B.resolve_blobPaths ha hc]
  unfold stored blobPaths
  rw [B.storedText_blobRel ha hc]

lemma stored_stagedBlockPath (ha : OrdinaryName a) (hc : OrdinaryName c) (id : String) :
    B.stored (B.stagedBlockPath a c b id).2 = B.stagedFile ⟨⟨a, c, b⟩, id⟩ := by
  rw [← B.resolve_stagedBlockPath ha hc]
  unfold stored stagedBlockPath
  rw [B.storedText_stagedBlockRel ha hc]

lemma resolve_containerRoot (ha : IsComponent a) (hc : IsComponent c) :
    resolve (PathLayout.containerRoot B.storageRoot a c) = B.containerDir ⟨a, c⟩ := by
  unfold PathLayout.containerRoot PathLayout.accountRoot resolve
  rw [descend_join_component hc, descend_join_component (by decide),
    descend_join_component ha, descend_join_component (by decide)]
  simp [containerDir, root, resolve]

lemma resolve_tmpDir (ha : IsComponent a) :
    resolve (B.tmpDir a) = B.root ++ ["accounts", a, "tmp"] := by
  unfold tmpDir resolve
  rw [descend_join_component (by decide), descend_join_component ha,
    descend_join_component (by decide)]
  simp [root, resolve]

lemma uniqueTmpPath_tmpDir (ha : IsComponent a) (amb : Ambient) :
    FsIo.uniqueTmpPath amb (B.tmpDir a) = B.tmpFile a amb := by
  have h := descend_join_component (isComponent_uuidLike amb.nanos amb.tid) [] (B.tmpDir a)
  rw [FsIo.uniqueTmpPath, resolve, h]
  change resolve (B.tmpDir a) ++ _ = _
  rw [B.resolve_tmpDir ha]
  simp [tmpFile]

end FsBackend
end BlobStore
