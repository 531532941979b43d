import BlobStore.Storage.TableHash
import BlobStore.Storage.Written

/-!
# Blobs that are put together from blocks

A client stages the blocks of a blob one by one, each of them in chunks of any size, and then
commits a list of them. The blob is what the blocks of the list joined together would have been,
written at once.
-/

namespace BlobStore

open Codec

/-- One block of an upload, with the chunks of its body. -/
structure BlockUpload where
  amb : Ambient
  blockId : String
  chunks : List Bytes
  quiet : amb.dbFault = none

namespace BlockUpload

def bytes (u : BlockUpload) : Bytes := u.chunks.flatten

/-- The request that stages it. -/
def request (k : BlobKey) (u : BlockUpload) : Request :=
  ⟨u.amb, .putBlock k.account k.container k.blob u.blockId (u.chunks.map .ok)⟩

/-- The bytes that are staged under an id: those of its last upload. -/
def latest (uploads : List BlockUpload) (id : String) : Option Bytes :=
  (uploads.reverse.find? fun u => u.blockId = id).map bytes

/-- The blocks of a list, joined together. -/
def joined (uploads : List BlockUpload) (refs : List BlockRef) : Bytes :=
  (refs.map fun ref => (latest uploads ref.blockId).getD []).flatten

/-- The entries of a list: each id with the length of its block. -/
def entries (uploads : List BlockUpload) (refs : List BlockRef) : List CommittedBlock :=
  refs.map fun ref => ⟨ref.blockId, ((latest uploads ref.blockId).getD []).length⟩

lemma latest_concat (uploads : List BlockUpload) (u : BlockUpload) (id : String) :
    latest (uploads ++ [u]) id = if u.blockId = id then some u.bytes else latest uploads id := by
  unfold latest
  by_cases hid : u.blockId = id <;> simp [hid]

lemma isSome_latest {uploads : List BlockUpload} {id : String}
    (h : id ∈ uploads.map BlockUpload.blockId) : (latest uploads id).isSome = true := by
  obtain ⟨u, hu, rfl⟩ := List.mem_map.mp h
  rw [latest, Option.isSome_map, List.find?_isSome]
  exact ⟨u, List.mem_reverse.mpr hu, by simp⟩

end BlockUpload

open BlockUpload

variable {B : FsBackend} {w : World} {k : BlobKey} {s : Shelf} {uploads : List BlockUpload}

/-! ### Staging -/

/-- The uploads so far are staged. -/
structure Shelf.Holds (s : Shelf) (k : BlobKey) (uploads : List BlockUpload) : Prop where
  container : (s.db.containers.lookup k.containerKey).isSome = true
  block : ∀ id bytes, latest uploads id = some bytes → s.staged ⟨k, id⟩ = some bytes ∧
    ∃ r, s.db.stagedBlocks.lookup ⟨k, id⟩ = some r ∧ r.blockSize = bytes.length

lemma Shelf.Holds.upload (h : s.Holds k uploads) (u : BlockUpload) :
    (Shelf.call B u.amb (u.request k).call s).2.Holds k (uploads ++ [u]) := by
  have hcall : (Shelf.call B u.amb (u.request k).call s).2 =
      (Shelf.putBlock B u.amb ⟨k, u.blockId⟩ (u.chunks.map .ok) s).2 := rfl
  rw [hcall, Shelf.putBlock_eq u.quiet (b := ⟨k, u.blockId⟩) h.container (collect_map_ok u.chunks)
    rfl]
  refine ⟨h.container, fun id bytes hbytes => ?_⟩
  rw [latest_concat] at hbytes
  dsimp only
  by_cases hid : u.blockId = id
  · subst hid
    rw [if_pos rfl] at hbytes
    cases hbytes
    exact ⟨Function.update_self .., _, AList.lookup_insert _, rfl⟩
  · rw [if_neg hid] at hbytes
    have hne : (⟨k, id⟩ : StagedBlockKey) ≠ ⟨k, u.blockId⟩ := by
      rintro ⟨⟩
      exact hid rfl
    rw [Function.update_of_ne hne, AList.lookup_insert_ne hne]
    exact h.block id bytes hbytes

lemma Shelf.Holds.serve {done : List BlockUpload} (h : s.Holds k done)
    (uploads : List BlockUpload) :
    (Shelf.serve B s (uploads.map (BlockUpload.request k))).Holds k (done ++ uploads) := by
  induction uploads generalizing done s with
  | nil => rwa [List.append_nil]
  | cons u uploads ih =>
    have hstep := ih (h.upload (B := B) u)
    rwa [List.append_assoc, List.singleton_append] at hstep

/-! ### Committing -/

variable {refs : List BlockRef}

/-- The references of a list to staged blocks resolve to its entries. -/
lemma Shelf.Holds.resolve (h : s.Holds k uploads) (hrefs : ∀ ref ∈ refs,
      ref.kind ≠ .committed ∧ ref.blockId ∈ uploads.map BlockUpload.blockId) :
    refs.mapM (Shelf.resolveRef k s.db) = some (entries uploads refs) := by
  have hrow : ∀ ref ∈ refs, ∃ r, s.db.stagedBlocks.lookup ⟨k, ref.blockId⟩ = some r ∧
      r.blockSize = ((latest uploads ref.blockId).getD []).length := by
    intro ref href
    obtain ⟨bytes, hbytes⟩ := Option.isSome_iff_exists.mp (isSome_latest (hrefs ref href).2)
    rw [hbytes]
    exact (h.block _ _ hbytes).2
  rw [resolveRefs_of_staged]
  · congr 1
    refine List.map_congr_left fun ref href => ?_
    obtain ⟨r, hr, hsize⟩ := hrow ref href
    simp [stagedEntry, hr, hsize]
  · intro ref href
    obtain ⟨r, hr, -⟩ := hrow ref href
    exact ⟨(hrefs ref href).1, by simp [hr]⟩

lemma Shelf.Holds.assemble (h : s.Holds k uploads)
    (hrefs : ∀ ref ∈ refs, ref.blockId ∈ uploads.map BlockUpload.blockId) :
    s.assemble k refs = joined uploads refs := by
  unfold Shelf.assemble BlockUpload.joined
  congr 1
  refine List.map_congr_left fun ref href => ?_
  obtain ⟨bytes, hbytes⟩ := Option.isSome_iff_exists.mp (isSome_latest (hrefs ref href))
  rw [(h.block _ _ hbytes).1, hbytes]

/-! ### Reading -/

end BlobStore
