import BlobStore.Storage.FailedCalls
import BlobStore.Storage.PrefixMatch

/-!
# Updates of metadata

Four calls change columns of one row and leave everything else alone. A patch of properties is
meant to leave a property as it is where it has nothing for it; its statement sets every column.
-/

namespace BlobStore

open FsBackend Resumption Proc

/-! ### What an update may change -/

/-- Of a store, only the row of a blob has changed, by `f` and new stamps. -/
structure ChangesBlob (k : BlobKey) (f : BlobRow → BlobRow) (w w' : World) : Prop where
  files : w'.fs = w.fs
  accounts : w'.db.accounts = w.db.accounts
  containers : w'.db.containers = w.db.containers
  staged : w'.db.stagedBlocks = w.db.stagedBlocks
  committed : w'.db.committedBlocks = w.db.committedBlocks
  others : ∀ k', k' ≠ k → w'.db.blobs.lookup k' = w.db.blobs.lookup k'
  row : ∃ etag lastModified, w'.db.blobs.lookup k = (w.db.blobs.lookup k).map fun r =>
    { f r with etag := etag, lastModified := lastModified }

/-- Of a store, only the row of a container has changed, by `f` and new stamps. -/
structure ChangesContainer (c : ContainerKey) (f : ContainerRecord → ContainerRecord)
    (w w' : World) : Prop where
  files : w'.fs = w.fs
  accounts : w'.db.accounts = w.db.accounts
  blobs : w'.db.blobs = w.db.blobs
  staged : w'.db.stagedBlocks = w.db.stagedBlocks
  committed : w'.db.committedBlocks = w.db.committedBlocks
  others : ∀ c', c' ≠ c → w'.db.containers.lookup c' = w.db.containers.lookup c'
  row : ∃ etag lastModified, w'.db.containers.lookup c = (w.db.containers.lookup c).map fun r =>
    { f r with etag := etag, lastModified := lastModified }

/-- What a call does to a store: it succeeds and makes a change, or it fails and makes none. -/
def CallChanges (B : FsBackend) (amb : Ambient) (call : Call) (change : World → World → Prop)
    (w : World) : Prop :=
  match (B.call amb call).run w with
  | (.ok _, w')    => change w w'
  | (.error _, w') => w' = w

namespace BlobPropertiesPatch

/-- What a patch is meant to do: a property it has nothing for is left unchanged. -/
def applyTo (patch : BlobPropertiesPatch) (r : BlobRow) : BlobRow :=
  { r with
    contentType        := patch.contentType.or r.contentType
    contentMd5         := patch.contentMd5.or r.contentMd5
    contentEncoding    := patch.contentEncoding.or r.contentEncoding
    contentLanguage    := patch.contentLanguage.or r.contentLanguage
    cacheControl       := patch.cacheControl.or r.cacheControl
    contentDisposition := patch.contentDisposition.or r.contentDisposition }

/-- What the statement does: every property becomes that of the patch. -/
def overwrite (patch : BlobPropertiesPatch) (r : BlobRow) : BlobRow :=
  { r with
    contentType        := patch.contentType
    contentMd5         := patch.contentMd5
    contentEncoding    := patch.contentEncoding
    contentLanguage    := patch.contentLanguage
    cacheControl       := patch.cacheControl
    contentDisposition := patch.contentDisposition }

/-- Every property that a row has is given by the patch, too. -/
structure Covers (patch : BlobPropertiesPatch) (r : BlobRow) : Prop where
  contentType : patch.contentType = none → r.contentType = none
  contentMd5 : patch.contentMd5 = none → r.contentMd5 = none
  contentEncoding : patch.contentEncoding = none → r.contentEncoding = none
  contentLanguage : patch.contentLanguage = none → r.contentLanguage = none
  cacheControl : patch.cacheControl = none → r.cacheControl = none
  contentDisposition : patch.contentDisposition = none → r.contentDisposition = none

lemma or_eq_left_iff {α : Type} {o o' : Option α} : o.or o' = o ↔ (o = none → o' = none) := by
  cases o <;> simp

/-- Overwriting is patching if nothing is left out. -/
lemma overwrite_eq_iff {patch : BlobPropertiesPatch} {r : BlobRow} {etag lastModified e l : String} :
    { patch.overwrite r with etag := etag, lastModified := lastModified } =
        { patch.applyTo r with etag := e, lastModified := l } ↔
      patch.Covers r ∧ etag = e ∧ lastModified = l := by
  simp only [overwrite, applyTo, BlobRow.mk.injEq, true_and, eq_comm (b := Option.or _ _),
    or_eq_left_iff]
  constructor
  · rintro ⟨h₁, h₂, h₃, h₄, h₅, h₆, he, hl, -⟩
    exact ⟨⟨h₁, h₂, h₃, h₄, h₅, h₆⟩, he, hl⟩
  · rintro ⟨⟨h₁, h₂, h₃, h₄, h₅, h₆⟩, he, hl⟩
    exact ⟨h₁, h₂, h₃, h₄, h₅, h₆, he, hl, trivial⟩

end BlobPropertiesPatch

/-! ### The four calls -/

section Updates

variable {B : FsBackend} {amb : Ambient} {w : World} {a c b : String}

/-- An update of one row, by what it does to the row. -/
lemma callChanges_iff {ρ β : Type} {call : Call} {change : World → World → Prop}
    {row : MetadataDb → Except AzureError ρ} {db : MetadataDb} {f : ρ → β} {g : β → Reply}
    {p : Store β} (hcall : B.call amb call = p >>= fun y => pure (g y))
    (hrun : run Action.exec p w =
      match row w.db, amb.dbFault with
      | .error e, _         => (.error e, w)
      | .ok _, some message => (.error (sqlError (.other message)), w)
      | .ok _, none         => ((row db).map f, { w with db := db }))
    (hrow : (∃ r, row w.db = .ok r) → ∃ r, row db = .ok r) :
    CallChanges B amb call change w ↔
      (amb.dbFault = none → (∃ r, row w.db = .ok r) → change w { w with db := db }) := by
  rw [CallChanges, hcall, Store.run, run_bind_pure _ hrun]
  cases hr : row w.db with
  | error e => simp [Except.map]
  | ok r =>
    cases hfault : amb.dbFault with
    | some message => simp [Except.map]
    | none =>
      obtain ⟨r', hr'⟩ := hrow ⟨r, hr⟩
      simp [hr', Except.map]

lemma changesBlob_modify (k : BlobKey) (f : BlobRow → BlobRow) (etag lastModified : String)
    (w : World) :
    ChangesBlob k f w { w with
      db := { w.db with
        blobs := Table.modify k (fun r => { f r with etag := etag, lastModified := lastModified })
          w.db.blobs } } where
  files := rfl
  accounts := rfl
  containers := rfl
  staged := rfl
  committed := rfl
  others _ hk' := Table.lookup_modify_ne hk' _ _
  row := ⟨etag, lastModified, Table.lookup_modify_self _ _ _⟩

lemma changesContainer_modify (c : ContainerKey) (f : ContainerRecord → ContainerRecord)
    (etag lastModified : String) (w : World) :
    ChangesContainer c f w { w with
      db := { w.db with
        containers := Table.modify c
          (fun r => { f r with etag := etag, lastModified := lastModified }) w.db.containers } } where
  files := rfl
  accounts := rfl
  blobs := rfl
  staged := rfl
  committed := rfl
  others _ hc' := Table.lookup_modify_ne hc' _ _
  row := ⟨etag, lastModified, Table.lookup_modify_self _ _ _⟩

lemma blob_of_modify {k : BlobKey} (f : BlobRow → BlobRow) {db : MetadataDb}
    (h : ∃ r, Shelf.blob k db = .ok r) :
    ∃ r, Shelf.blob k { db with blobs := Table.modify k f db.blobs } = .ok r :=
  exists_blob.mpr ((Table.isSome_lookup_modify _ _ _ _).trans (exists_blob.mp h))

lemma container_of_modify {c : ContainerKey} (f : ContainerRecord → ContainerRecord)
    {db : MetadataDb} (h : ∃ r, Shelf.container c db = .ok r) :
    ∃ r, Shelf.container c { db with containers := Table.modify c f db.containers } = .ok r :=
  exists_container.mpr ((Table.isSome_lookup_modify _ _ _ _).trans (exists_container.mp h))

lemma callChanges_setContainerMetadata (m : Metadata) :
    CallChanges B amb (.setContainerMetadata a c m)
      (ChangesContainer ⟨a, c⟩ fun r => { r with metadata := m }) w := by
  have hrun : run Action.exec (FsBackend.setContainerMetadata amb a c m) w = _ :=
    run_update (MetadataDb.setContainerMetadata ⟨a, c⟩ m amb.etag amb.lastModified)
      (run_requireContainer a c) rfl rfl containerRowToProps
  refine (callChanges_iff rfl hrun (container_of_modify _)).mpr fun _ _ => ?_
  exact changesContainer_modify ⟨a, c⟩ (fun r => { r with metadata := m }) amb.etag amb.lastModified w

lemma callChanges_setContainerAcl (access : PublicAccessLevel) :
    CallChanges B amb (.setContainerAcl a c access)
      (ChangesContainer ⟨a, c⟩ fun r => { r with publicAccessLevel := access.asDbStr }) w := by
  have hrun : run Action.exec (FsBackend.setContainerAcl amb a c access) w = _ :=
    run_update (MetadataDb.setContainerAcl ⟨a, c⟩ access amb.etag amb.lastModified)
      (run_requireContainer a c) rfl rfl containerRowToProps
  refine (callChanges_iff rfl hrun (container_of_modify _)).mpr fun _ _ => ?_
  exact changesContainer_modify ⟨a, c⟩ (fun r => { r with publicAccessLevel := access.asDbStr })
    amb.etag amb.lastModified w

lemma callChanges_setBlobMetadata (m : Metadata) :
    CallChanges B amb (.setBlobMetadata a c b m)
      (ChangesBlob ⟨a, c, b⟩ fun r => { r with metadata := m }) w := by
  have hrun : run Action.exec (FsBackend.setBlobMetadata amb a c b m) w = _ :=
    run_update (MetadataDb.setBlobMetadata ⟨a, c, b⟩ m amb.etag amb.lastModified)
      (run_requireBlob a c b) rfl rfl blobRowToProps
  refine (callChanges_iff rfl hrun (blob_of_modify _)).mpr fun _ _ => ?_
  exact changesBlob_modify ⟨a, c, b⟩ (fun r => { r with metadata := m }) amb.etag amb.lastModified w

/-- A patch keeps to what it names if the row has nothing else, or there is nothing to be done. -/
lemma callChanges_setBlobProperties (patch : BlobPropertiesPatch) :
    CallChanges B amb (.setBlobProperties a c b patch) (ChangesBlob ⟨a, c, b⟩ patch.applyTo) w ↔
      (amb.dbFault = none → ∀ r, w.db.blobs.lookup ⟨a, c, b⟩ = some r → patch.Covers r) := by
  have hrun : run Action.exec (FsBackend.setBlobProperties amb a c b patch) w = _ :=
    run_update (MetadataDb.setBlobProperties ⟨a, c, b⟩ patch amb.etag amb.lastModified)
      (run_requireBlob a c b) rfl rfl blobRowToProps
  rw [callChanges_iff rfl hrun (blob_of_modify _)]
  refine imp_congr_right fun _ => ?_
  rw [exists_blob]
  have hself := Table.lookup_modify_self (BlobKey.mk a c b) (fun r =>
    { patch.overwrite r with etag := amb.etag, lastModified := amb.lastModified }) w.db.blobs
  constructor
  · intro h r hr
    obtain ⟨e, l, hrow⟩ := (h (by simp [hr])).row
    have heq := hself.symm.trans hrow
    rw [hr, Option.map_some, Option.map_some, Option.some.injEq] at heq
    exact (BlobPropertiesPatch.overwrite_eq_iff.mp heq).1
  · intro h _
    have hoverwrite := changesBlob_modify ⟨a, c, b⟩ patch.overwrite amb.etag amb.lastModified w
    refine { hoverwrite with row := ⟨amb.etag, amb.lastModified, hself.trans ?_⟩ }
    cases hr : w.db.blobs.lookup ⟨a, c, b⟩ with
    | none => rfl
    | some r =>
      rw [Option.map_some, Option.map_some, Option.some.injEq]
      exact BlobPropertiesPatch.overwrite_eq_iff.mpr ⟨h r hr, rfl, rfl⟩

/-- Each of the four calls changes only what it names, if and only if the statement fails, there is
no such blob, or its row has no property that the patch leaves out. -/
theorem metadata_updates_iff (B : FsBackend) (amb : Ambient) (w : World) (a c b : String)
    (patch : BlobPropertiesPatch) (m : Metadata) (access : PublicAccessLevel) :
    (CallChanges B amb (.setBlobProperties a c b patch) (ChangesBlob ⟨a, c, b⟩ patch.applyTo) w ∧
      CallChanges B amb (.setBlobMetadata a c b m)
        (ChangesBlob ⟨a, c, b⟩ fun r => { r with metadata := m }) w ∧
      CallChanges B amb (.setContainerMetadata a c m)
        (ChangesContainer ⟨a, c⟩ fun r => { r with metadata := m }) w ∧
      CallChanges B amb (.setContainerAcl a c access)
        (ChangesContainer ⟨a, c⟩ fun r => { r with publicAccessLevel := access.asDbStr }) w) ↔
      (amb.dbFault = none → ∀ r, w.db.blobs.lookup ⟨a, c, b⟩ = some r → patch.Covers r) := by
  rw [← callChanges_setBlobProperties]
  exact and_iff_left ⟨callChanges_setBlobMetadata m, callChanges_setContainerMetadata m,
    callChanges_setContainerAcl access⟩

end Updates

/-- A patch that gives a content type and nothing else. -/
def sampleTypePatch : BlobPropertiesPatch := ⟨some "text/plain", none, none, none, none, none⟩

/-- With the content type the digest is changed, too. -/
theorem metadata_updates_erase :
    Arisen sample (sample.withBlob "b") ∧
      ¬ CallChanges sample (sampleAmb 3) (.setBlobProperties "acc" "c" "b" sampleTypePatch)
        (ChangesBlob ⟨"acc", "c", "b"⟩ sampleTypePatch.applyTo) (sample.withBlob "b") := by
  refine ⟨arisen_withBlob sample "b", fun hchanges => ?_⟩
  have hdigest : ((sample.withBlob "b").db.blobs.lookup ⟨"acc", "c", "b"⟩).bind
      BlobRow.contentMd5 ≠ none := by
    decide +kernel
  cases hrow : (sample.withBlob "b").db.blobs.lookup ⟨"acc", "c", "b"⟩ with
  | none => simp [hrow] at hdigest
  | some r =>
    have hcovers := (callChanges_setBlobProperties sampleTypePatch).mp hchanges rfl r hrow
    simp [hrow, hcovers.contentMd5 rfl] at hdigest

end BlobStore
