import BlobStore.Api.Interleaved
import BlobStore.Api.Unimplemented
import BlobStore.Server.Tenancy
import BlobStore.Storage.Overwrite

/-!
# The tables fit together

Whatever requests are served, in whatever interleaving, and wherever the server is cut off: a row
has the row it refers to, and its columns are those its key asks for. A staged block is the
exception: its container may be gone, but its account is known.
-/

namespace BlobStore

open Resumption Proc

/-- Rows refer to rows that are there, and record the names and paths of their keys. -/
structure MetadataDb.WellKept (B : FsBackend) (db : MetadataDb) : Prop where
  container : ∀ c, (db.containers.lookup c).isSome = true →
    (db.accounts.lookup c.account).isSome = true
  blob : ∀ k row, db.blobs.lookup k = some row →
    (db.containers.lookup k.containerKey).isSome = true ∧ row.name = k.blob ∧
      row.blobType = "BlockBlob" ∧ row.storagePath = (B.blobPaths k.account k.container k.blob).2
  committed : ∀ k, (db.committedBlocks.lookup k).isSome = true →
    (db.containers.lookup k.containerKey).isSome = true
  staged : ∀ s r, db.stagedBlocks.lookup s = some r →
    (db.accounts.lookup s.blob.account).isSome = true ∧ r.storagePath =
      (B.stagedBlockPath s.blob.account s.blob.container s.blob.blob s.blockId).2

/-- Blobs and block lists belong to containers that exist. -/
structure Anchored (db : MetadataDb) : Prop where
  blob : ∀ k, (db.blobs.lookup k).isSome = true → (db.containers.lookup k.containerKey).isSome = true
  committed : ∀ k, (db.committedBlocks.lookup k).isSome = true →
    (db.containers.lookup k.containerKey).isSome = true

variable {B : FsBackend} {w : World} {db db' : MetadataDb} {app : AppState}

/-! ### One action -/

/-- New rows have their container, and no container goes. -/
lemma Anchored.of_rows (h : Anchored db)
    (hcontainer : ∀ c, (db.containers.lookup c).isSome = true → (db'.containers.lookup c).isSome = true)
    (hblob : ∀ k, (db'.blobs.lookup k).isSome = true → (db.blobs.lookup k).isSome = true ∨
      (db.containers.lookup k.containerKey).isSome = true)
    (hcommitted : ∀ k, (db'.committedBlocks.lookup k).isSome = true →
      (db.committedBlocks.lookup k).isSome = true ∨
        (db.containers.lookup k.containerKey).isSome = true) : Anchored db' where
  blob k hk := hcontainer _ ((hblob k hk).elim (h.blob k) id)
  committed k hk := hcontainer _ ((hcommitted k hk).elim (h.committed k) id)

lemma SameRows.anchored (h : SameRows db db') (hdb : Anchored db) : Anchored db' :=
  hdb.of_rows h.container (fun k hk => .inl (h.blob k ▸ hk)) fun k hk => .inl (h.committed k ▸ hk)

lemma anchored_guarded {α : Type} {stmt : MetadataDb → Except SqlError α × MetadataDb}
    (h : Anchored db) (hstmt : Anchored (stmt db).2) (fault : Option String) :
    Anchored (MetadataDb.guarded fault stmt db).2 := by
  cases fault with
  | none => exact hstmt
  | some message => exact h

/-- A blob that is written was there before, or its container is there. -/
lemma Anchored.of_upsert (h : Anchored db) {k : BlobKey}
    (hk : ¬ ((db.blobs.lookup k).isNone && (db.containers.lookup k.containerKey).isNone) = true) :
    (db.containers.lookup k.containerKey).isSome = true := by
  by_cases hblob : (db.blobs.lookup k).isSome = true
  · exact h.blob k hblob
  · simpa [Option.not_isSome_iff_eq_none.mp hblob, Option.isSome_iff_ne_none] using hk

lemma anchored_upsertBlob (h : Anchored db) (k : BlobKey) (u : BlobUpsert) :
    Anchored (MetadataDb.upsertBlob k u db).2 := by
  unfold MetadataDb.upsertBlob
  split_ifs with hc
  · exact h
  · refine h.of_rows (fun _ hc' => hc') (fun k' hk' => ?_) fun k' hk' => .inl hk'
    rcases (Table.isSome_lookup_insert k k' _ db.blobs).mp hk' with rfl | hold
    · exact .inr (h.of_upsert hc)
    · exact .inl hold

lemma anchored_commitBlockList (h : Anchored db) (k : BlobKey) (resolved : List CommittedBlock)
    (u : BlobUpsert) : Anchored (MetadataDb.commitBlockList k resolved u db).2 := by
  have hup := anchored_upsertBlob h k u
  unfold MetadataDb.commitBlockList
  unfold MetadataDb.upsertBlob at hup ⊢
  split_ifs at hup ⊢ with hc
  · exact h
  · refine hup.of_rows (fun _ hc' => hc') (fun k' hk' => .inl hk') fun k' hk' => ?_
    rcases (Table.isSome_lookup_insert k k' resolved db.committedBlocks).mp hk' with rfl | hold
    · exact .inr (h.of_upsert hc)
    · exact .inl hold

/-- A container goes with its rows. -/
lemma anchored_deleteContainer (h : Anchored db) (c : ContainerKey) :
    Anchored (MetadataDb.deleteContainer c db).2 where
  blob k hk := by
    obtain ⟨hother, hrow⟩ := Table.isSome_lookup_deleteWhere.mp hk
    exact Table.isSome_lookup_erase.mpr ⟨by simpa using hother, h.blob k hrow⟩
  committed k hk := by
    obtain ⟨hother, hrow⟩ := Table.isSome_lookup_deleteWhere.mp hk
    exact Table.isSome_lookup_erase.mpr ⟨by simpa using hother, h.committed k hrow⟩

/-- Every action keeps blobs and block lists in their containers. -/
lemma Anchored.exec (h : Anchored w.db) (e : Action) : Anchored (e.exec w).2.db := by
  cases e with
  | insertContainer fault c r =>
    exact anchored_guarded h ((SameRows.insertContainer w.db c r).anchored h) fault
  | deleteContainer fault c => exact anchored_guarded h (anchored_deleteContainer h c) fault
  | setContainerMetadata fault c m et l =>
    exact anchored_guarded h ((SameRows.modify_container w.db c _).anchored h) fault
  | setContainerAcl fault c pa et l =>
    exact anchored_guarded h ((SameRows.modify_container w.db c _).anchored h) fault
  | upsertBlob fault k u => exact anchored_guarded h (anchored_upsertBlob h k u) fault
  | setBlobProperties fault k patch et l =>
    exact anchored_guarded h ((SameRows.modify_blob w.db k _).anchored h) fault
  | setBlobMetadata fault k m et l =>
    exact anchored_guarded h ((SameRows.modify_blob w.db k _).anchored h) fault
  | deleteBlobRow fault k =>
    exact anchored_guarded h (h.of_rows (fun _ hc => hc)
      (fun k' hk' => .inl (Table.isSome_lookup_erase.mp hk').2) fun _ hk' => .inl hk') fault
  | deleteCommittedBlocks k =>
    exact h.of_rows (fun _ hc => hc) (fun _ hk' => .inl hk')
      fun k' hk' => .inl (Table.isSome_lookup_erase.mp hk').2
  | deleteStagedBlocks k => exact ⟨h.blob, h.committed⟩
  | stageBlock fault s r => exact anchored_guarded h ⟨h.blob, h.committed⟩ fault
  | commitBlockList fault k resolved u =>
    exact anchored_guarded h (anchored_commitBlockList h k resolved u) fault
  | removeFile fails p => cases fails <;> exact h
  | _ => exact h

/-! ### Every state that arises -/

lemma Arisen.anchored (h : Arisen B w) : Anchored w.db := by
  induction h with
  | fresh h =>
    obtain ⟨accounts, hdb⟩ := h.db
    rw [hdb]
    exact ⟨by simp [MetadataDb.empty], by simp [MetadataDb.empty]⟩
  | call h amb call ih =>
    exact (issues_locates amb call).run_inv (I := fun w : World => Anchored w.db)
      (fun e _ _ hw => hw.exec e) ih
  | race h req schedule ih =>
    exact Conf.run_issues Action.exec (I := fun w : World => Anchored w.db)
      (fun i => issues_locates _ _) (fun e _ _ hw => hw.exec e) ih schedule

/-- The tables of a server fit together at every moment. -/
theorem served_wellKept (h : Served app w) : w.db.WellKept app.backend := by
  have harisen := h.arisen
  have haccounts := harisen.inAccounts
  have hanchored := harisen.anchored
  have hlocated := harisen.located
  refine ⟨haccounts.container, fun k row hrow => ?_, hanchored.committed, fun s r hr => ?_⟩
  · obtain ⟨hname, htype⟩ := harisen.rows inborn_plain k row hrow
    exact ⟨hanchored.blob k (by rw [hrow]; rfl), hname, htype, hlocated.blob k row hrow⟩
  · exact ⟨haccounts.staged s (by rw [hr]; rfl), hlocated.staged s r hr⟩

/-- A request of a client with a bearer token that puts one byte, or a container. -/
def samplePut (path : String) : HttpRequest where
  method     := .put
  path       := path
  query      := none
  uriHost    := none
  headers    := [("authorization", some "Bearer t")]
  body       := [.ok [1]]
  signedPath := none

/-- A container and a blob in it are put at the same time. -/
def samplePuts : Fin 2 → Arrival
  | 0 => ⟨sampleMoment, samplePut "/acc/c"⟩
  | 1 => ⟨{ sampleMoment with amb := sampleAmb 4 }, samplePut "/acc/c/b"⟩

/-- Both requests look up the account, then the container is put, and then the blob. -/
theorem served_wellKept_sample :
    (httpRace sampleBearerApp samplePuts (sample.fresh sampleAccounts)
      ([1, 1] ++ List.replicate 4 0 ++ List.replicate 12 1)).state.db.WellKept
        sampleBearerApp.backend ∧
    ((httpRace sampleBearerApp samplePuts (sample.fresh sampleAccounts)
      ([1, 1] ++ List.replicate 4 0 ++ List.replicate 12 1)).state.db.blobs.lookup
        ⟨"acc", "c", "b"⟩).isSome = true :=
  ⟨served_wellKept (.race (.fresh (sample.fresh_isFresh _)) samplePuts _), by decide +kernel⟩

end BlobStore
