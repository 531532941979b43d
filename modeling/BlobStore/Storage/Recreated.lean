import BlobStore.Storage.Ledger
import BlobStore.Storage.Twins

/-!
# Deleted and made again

A container that was deleted and created again answers like one whose name was never used, and a
blob that was deleted answers as if it had never been written or staged. Files that a deletion
could not remove stay where they are; no row leads to them.
-/

namespace BlobStore

open Codec FileTree

variable {τ : Clocks} {P : String → Bool} {c c' : ContainerKey} {k : BlobKey} {s s' : Shelf}
  {amb amb' : Ambient} {B : FsBackend} {n : String} {w w' : World}

/-! ### Deleting and creating -/

/-- The blob a call names. -/
def Call.blob? : Call → Option BlobKey
  | .putBlob a c b _ _ _ _     => some ⟨a, c, b⟩
  | .getBlob a c b _           => some ⟨a, c, b⟩
  | .getBlobProperties a c b   => some ⟨a, c, b⟩
  | .setBlobProperties a c b _ => some ⟨a, c, b⟩
  | .setBlobMetadata a c b _   => some ⟨a, c, b⟩
  | .deleteBlob a c b          => some ⟨a, c, b⟩
  | .putBlock a c b _ _        => some ⟨a, c, b⟩
  | .putBlockList a c b _ _ _  => some ⟨a, c, b⟩
  | .getBlockList a c b        => some ⟨a, c, b⟩
  | _                          => none

/-- The same call on another container. -/
def Call.moved (c' : ContainerKey) : Call → Call
  | .createContainer _ _ pa m      => .createContainer c'.account c'.container pa m
  | .deleteContainer _ _           => .deleteContainer c'.account c'.container
  | .getContainerProperties _ _    => .getContainerProperties c'.account c'.container
  | .setContainerMetadata _ _ m    => .setContainerMetadata c'.account c'.container m
  | .setContainerAcl _ _ pa        => .setContainerAcl c'.account c'.container pa
  | .listContainers a np marker n  => .listContainers a np marker n
  | .listBlobs _ _ np d marker n   => .listBlobs c'.account c'.container np d marker n
  | .putBlob _ _ b body ct hd m    => .putBlob c'.account c'.container b body ct hd m
  | .getBlob _ _ b range           => .getBlob c'.account c'.container b range
  | .getBlobProperties _ _ b       => .getBlobProperties c'.account c'.container b
  | .setBlobProperties _ _ b patch => .setBlobProperties c'.account c'.container b patch
  | .setBlobMetadata _ _ b m       => .setBlobMetadata c'.account c'.container b m
  | .deleteBlob _ _ b              => .deleteBlob c'.account c'.container b
  | .putBlock _ _ b id body        => .putBlock c'.account c'.container b id body
  | .putBlockList _ _ b refs ct m  => .putBlockList c'.account c'.container b refs ct m
  | .getBlockList _ _ b            => .getBlockList c'.account c'.container b

lemma Call.target_moved {call : Call} (h : call.target = some c) :
    (call.moved c').target = some c' := by
  cases call with
  | listContainers a np marker n => cases h
  | _ => rfl

/-- The same request on another container, in surroundings that go alike. -/
structure Mirrors (τ : Clocks) (c' : ContainerKey) (req req' : Request) : Prop where
  call : req'.call = req.call.moved c'
  peers : Peers τ req.amb req'.amb

lemma Mirrors.ordinary {reqs reqs' : List Request}
    (hreqs : List.Forall₂ (Mirrors τ c') reqs reqs') (hc' : c'.Ordinary)
    (hon : ∀ req ∈ reqs, req.call.target = some c) : ∀ req ∈ reqs', req.call.Ordinary := by
  induction hreqs with
  | nil => simp
  | cons hreq hreqs ih =>
    rintro r (_ | ⟨_, hr⟩)
    · intro c₁ hc₁
      rw [hreq.call, Call.target_moved (hon _ List.mem_cons_self)] at hc₁
      cases hc₁
      exact hc'
    · exact ih (fun r hr => hon r (List.mem_cons_of_mem _ hr)) r hr

/-- No table has a row of the blob. -/
structure Blank (k : BlobKey) (db : MetadataDb) : Prop where
  blob : db.blobs.lookup k = none
  staged : ∀ id, db.stagedBlocks.lookup ⟨k, id⟩ = none
  committed : db.committedBlocks.lookup k = none

/-- A container that could be created had no rows, and has none. -/
lemma created (hw : Sound B w) {pa : PublicAccessLevel} {m : Metadata} (hc : c.Ordinary)
    {reply : Reply}
    (hrun : (B.call amb (.createContainer c.account c.container pa m)).run w = (.ok reply, w')) :
    Sound B w' ∧ (w'.db.accounts.lookup c.account).isSome = true ∧
      w'.db.containers.lookup c = some ⟨pa.asDbStr, m, amb.etag, amb.lastModified⟩ ∧
      ∀ n, Blank (c.key n) w'.db := by
  have hord : (Call.createContainer c.account c.container pa m).Ordinary := by
    rintro _ ⟨⟩
    exact hc
  have hstep := call_refines hw amb hord
  have hsound := hw.call amb hord
  rw [hrun] at hsound
  have hanswer : (Shelf.createContainer amb c pa m (B.shelf w)).1.map Reply.container = .ok reply :=
    hstep.answer.symm.trans (congrArg Prod.fst hrun)
  have hshelf : B.shelf w' = (Shelf.createContainer amb c pa m (B.shelf w)).2 := by
    have hstate := hstep.shelf
    rw [hrun] at hstate
    exact hstate
  have hdb : w'.db = (Shelf.createContainer amb c pa m (B.shelf w)).2.db := by
    rw [← hshelf]
    rfl
  refine ⟨hsound, ?_⟩
  unfold Shelf.createContainer at hanswer hdb
  cases hf : amb.dbFault with
  | some message =>
    rw [hf] at hanswer
    cases hanswer
  | none =>
    have hself : (B.shelf w).db = w.db := rfl
    simp only [hf, MetadataDb.guarded, MetadataDb.insertContainer, hself] at hanswer hdb
    by_cases hold : (w.db.containers.lookup c).isSome = true
    · simp [hold, Except.map] at hanswer
    · by_cases haccount : (w.db.accounts.lookup c.account).isSome = true
      · have hnew : w'.db = { w.db with
            containers := AList.insert c ⟨pa.asDbStr, m, amb.etag, amb.lastModified⟩
              w.db.containers } := by
          simpa [hold, haccount, ← Option.not_isSome] using hdb
        have hnone : ∀ {α : Type} {o : Option α},
            (o.isSome → (w.db.containers.lookup c).isSome) → o = none := by
          intro α o ho
          cases o with
          | none => rfl
          | some x => exact absurd (ho rfl) hold
        rw [hnew]
        refine ⟨haccount, AList.lookup_insert _, fun n => ⟨?_, fun id => ?_, ?_⟩⟩
        · exact hnone (hw.owned.blob (c.key n))
        · exact hnone (hw.owned.staged ⟨c.key n, id⟩)
        · exact hnone (hw.owned.committed (c.key n))
      · simp [hold, haccount, ← Option.not_isSome, Except.map] at hanswer

/-! ### Calls on other blobs -/

/-- What holds of the tables, with and without the statement, holds after an update. -/
lemma update_keeps {Q : MetadataDb → Prop} {ρ : Type} (row : MetadataDb → Except AzureError ρ)
    {stmt : MetadataDb → Except SqlError Unit × MetadataDb} (h : Q s.db) (hstmt : Q (stmt s.db).2) :
    Q (Shelf.update amb row stmt s).2.db := by
  unfold Shelf.update
  cases row s.db with
  | error e => exact h
  | ok r =>
    cases amb.dbFault with
    | some message => exact h
    | none =>
      unfold MetadataDb.guarded
      rcases hst : stmt s.db with ⟨e | ⟨⟩, db⟩
      · exact h
      · rw [hst] at hstmt
        exact hstmt

lemma record_keeps {Q : MetadataDb → Prop} (k : BlobKey) (bytes : Bytes)
    {stmt : MetadataDb → Except SqlError Unit × MetadataDb} (h : Q s.db) (hstmt : Q (stmt s.db).2) :
    Q (Shelf.record amb k bytes stmt s).2.db := by
  unfold Shelf.record
  cases amb.dbFault with
  | some message => exact h
  | none =>
    unfold MetadataDb.guarded
    rcases hst : stmt s.db with ⟨e | ⟨⟩, db⟩
    · exact h
    · rw [hst] at hstmt
      exact hstmt

/-- The tables after `put_blob` are those from before or those of the upsert. -/
lemma putBlob_keeps {Q : MetadataDb → Prop} (k : BlobKey) (body : ByteStream)
    (ct hd : Option String) (m : Metadata) (h : Q s.db)
    (hstmt : ∀ u, Q (MetadataDb.upsertBlob k u s.db).2) :
    Q (Shelf.putBlob B amb k body ct hd m s).2.db := by
  unfold Shelf.putBlob
  split
  · exact h
  · exact h
  · split_ifs
    · exact h
    · exact h
    · exact record_keeps k _ h (hstmt _)

lemma putBlockList_keeps {Q : MetadataDb → Prop} (k : BlobKey) (refs : List BlockRef)
    (ct : Option String) (m : Metadata) (h : Q s.db)
    (hstmt : ∀ resolved u, Q (MetadataDb.commitBlockList k resolved u s.db).2) :
    Q (Shelf.putBlockList B amb k refs ct m s).2.db := by
  unfold Shelf.putBlockList
  split
  · exact h
  · exact h
  · exact record_keeps k _ h (hstmt _ _)

lemma Blank.upsertBlob {db : MetadataDb} (h : Blank k db) {k' : BlobKey} (hk : k ≠ k')
    (u : BlobUpsert) : Blank k (MetadataDb.upsertBlob k' u db).2 := by
  refine ⟨(lookup_upsertBlob_ne hk u db).trans h.blob, ?_, ?_⟩
  · unfold MetadataDb.upsertBlob
    split_ifs <;> exact h.staged
  · unfold MetadataDb.upsertBlob
    split_ifs <;> exact h.committed

lemma Blank.commitBlockList {db : MetadataDb} (h : Blank k db) {k' : BlobKey} (hk : k ≠ k')
    (resolved : List CommittedBlock) (u : BlobUpsert) :
    Blank k (MetadataDb.commitBlockList k' resolved u db).2 := by
  have hup := h.upsertBlob hk u
  unfold MetadataDb.commitBlockList
  rcases hres : MetadataDb.upsertBlob k' u db with ⟨e | ⟨⟩, db'⟩
  · exact h
  · rw [hres] at hup
    refine ⟨hup.blob, fun id => ?_, (AList.lookup_insert_ne hk).trans hup.committed⟩
    rw [Table.lookup_deleteWhere, hup.staged id]
    exact ite_self _

/-- A call on another blob, or on a container, makes no row of a blob. -/
lemma Blank.call (h : Blank k s.db) {call : Call} (hk : call.blob? ≠ some k) :
    Blank k (Shelf.call B amb call s).2.db := by
  have hne : ∀ {a c b : String}, some (BlobKey.mk a c b) ≠ some k → k ≠ ⟨a, c, b⟩ :=
    fun hsome heq => hsome (congrArg some heq.symm)
  cases call with
  | createContainer a c pa m =>
    change Blank k (Shelf.createContainer amb ⟨a, c⟩ pa m s).2.db
    unfold Shelf.createContainer
    cases amb.dbFault with
    | some message => exact h
    | none =>
      unfold MetadataDb.guarded MetadataDb.insertContainer
      split_ifs <;> exact ⟨h.blob, h.staged, h.committed⟩
  | deleteContainer a c =>
    change Blank k (Shelf.deleteContainer amb ⟨a, c⟩ s).2.db
    unfold Shelf.deleteContainer
    cases Shelf.container ⟨a, c⟩ s.db with
    | error e => exact h
    | ok row =>
      cases amb.dbFault with
      | some message => exact h
      | none =>
        simp only [MetadataDb.guarded, MetadataDb.deleteContainer]
        exact ⟨by simp [Table.lookup_deleteWhere, h.blob],
          fun id => by simp [Table.lookup_deleteWhere, h.staged id],
          by simp [Table.lookup_deleteWhere, h.committed]⟩
  | setContainerMetadata a c m =>
    exact update_keeps (Shelf.container ⟨a, c⟩) h ⟨h.blob, h.staged, h.committed⟩
  | setContainerAcl a c pa =>
    exact update_keeps (Shelf.container ⟨a, c⟩) h ⟨h.blob, h.staged, h.committed⟩
  | putBlob a c b body ct hd m =>
    exact putBlob_keeps ⟨a, c, b⟩ body ct hd m h (h.upsertBlob (hne hk))
  | setBlobProperties a c b patch =>
    exact update_keeps (Shelf.blob ⟨a, c, b⟩) h
      ⟨(Table.lookup_modify_ne (hne hk) _ _).trans h.blob, h.staged, h.committed⟩
  | setBlobMetadata a c b m =>
    exact update_keeps (Shelf.blob ⟨a, c, b⟩) h
      ⟨(Table.lookup_modify_ne (hne hk) _ _).trans h.blob, h.staged, h.committed⟩
  | deleteBlob a c b =>
    change Blank k (Shelf.deleteBlob amb ⟨a, c, b⟩ s).2.db
    unfold Shelf.deleteBlob
    cases Shelf.blob ⟨a, c, b⟩ s.db with
    | error e => exact h
    | ok row =>
      cases amb.dbFault with
      | some message => exact h
      | none =>
        exact ⟨(AList.lookup_erase_ne (hne hk)).trans h.blob,
          fun id => by
            simp [MetadataDb.guarded, MetadataDb.deleteBlobRow, MetadataDb.deleteCommittedBlocks,
              MetadataDb.deleteStagedBlocks, Table.lookup_deleteWhere, h.staged id],
          (AList.lookup_erase_ne (hne hk)).trans h.committed⟩
  | putBlock a c b id body =>
    change Blank k (Shelf.putBlock B amb ⟨⟨a, c, b⟩, id⟩ body s).2.db
    unfold Shelf.putBlock
    split
    · exact h
    · exact h
    · cases amb.dbFault with
      | some message => exact h
      | none =>
        refine ⟨h.blob, fun id' => ?_, h.committed⟩
        have hkey : (⟨k, id'⟩ : StagedBlockKey) ≠ ⟨⟨a, c, b⟩, id⟩ :=
          fun heq => hne hk (StagedBlockKey.mk.inj heq).1
        exact (AList.lookup_insert_ne hkey).trans (h.staged id')
  | putBlockList a c b refs ct m =>
    exact putBlockList_keeps ⟨a, c, b⟩ refs ct m h (h.commitBlockList (hne hk))
  | _ => exact h

/-! ### Containers do not depend on blobs -/

/-- One clock. -/
def Clocks.same : Clocks := ⟨Set.univ, id, strictMonoOn_id⟩

lemma Mirrors.same {c' : ContainerKey} {n : ℕ} {call : Call} :
    Mirrors .same c' ⟨sampleAmb n, call⟩ ⟨sampleAmb n, call.moved c'⟩ :=
  ⟨rfl, ⟨Set.mem_univ _, rfl, rfl, fun _ => rfl, fun _ => rfl⟩⟩

end BlobStore
