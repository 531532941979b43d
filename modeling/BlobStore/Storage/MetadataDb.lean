import BlobStore.Storage.Types
import Mathlib.Data.List.Sort

/-!
# The metadata database

The tables of the migration and the statements `MetadataDb` runs on them, each as one atomic
change. Columns that no statement reads are left out: `created_at`, `lease_state`, `deleted`, and
`committed`, which every insertion sets to `1`. The rows of `committed_blocks` under one blob are
kept as the list they form in the order of `block_index`.

A statement can also fail for reasons outside the program; `fault` is then the text of the error,
and nothing is changed.
-/

namespace BlobStore

structure AccountRow where
  key1 : String
  key2 : Option String
  deriving DecidableEq

/-- A row of `containers`, with the access level as its text. -/
structure ContainerRecord where
  publicAccessLevel : String
  metadata : Metadata
  etag : String
  lastModified : String
  deriving DecidableEq

structure ContainerRow where
  name : String
  publicAccessLevel : PublicAccessLevel
  metadata : Metadata
  etag : String
  lastModified : String
  deriving DecidableEq

structure BlobRow where
  name : String
  blobType : String
  contentLength : ℕ
  contentType : Option String
  contentMd5 : Option String
  contentEncoding : Option String
  contentLanguage : Option String
  cacheControl : Option String
  contentDisposition : Option String
  metadata : Metadata
  etag : String
  lastModified : String
  storagePath : String
  deriving DecidableEq

/-- The columns an upsert of a blob sets. -/
structure BlobUpsert where
  contentLength : ℕ
  contentType : Option String
  contentMd5 : Option String
  metadata : Metadata
  etag : String
  lastModified : String
  storagePath : String
  deriving DecidableEq

structure StagedBlockKey where
  blob : BlobKey
  blockId : String
  deriving DecidableEq, Repr

structure StagedBlockRecord where
  blockSize : ℕ
  md5 : Option String
  storagePath : String
  stagedAt : String
  deriving DecidableEq

inductive SqlError where
  | uniqueViolation
  | foreignKeyViolation
  | other (message : String)
  deriving DecidableEq, Repr

def SqlError.toString : SqlError → String
  | uniqueViolation =>
    "error returned from database: (code: 1555) UNIQUE constraint failed"
  | foreignKeyViolation =>
    "error returned from database: (code: 787) FOREIGN KEY constraint failed"
  | other message => message

structure MetadataDb where
  accounts : Table String AccountRow
  containers : Table ContainerKey ContainerRecord
  blobs : Table BlobKey BlobRow
  stagedBlocks : Table StagedBlockKey StagedBlockRecord
  committedBlocks : Table BlobKey (List CommittedBlock)
  deriving DecidableEq

namespace MetadataDb

/-- A statement that may fail from outside, in which case it changes nothing. -/
def guarded {α : Type} (fault : Option String)
    (stmt : MetadataDb → Except SqlError α × MetadataDb) (db : MetadataDb) :
    Except SqlError α × MetadataDb :=
  match fault with
  | some message => (.error (.other message), db)
  | none         => stmt db

/-! ### Containers -/

def insertContainer (c : ContainerKey) (r : ContainerRecord) (db : MetadataDb) :
    Except SqlError Unit × MetadataDb :=
  if (db.containers.lookup c).isSome then (.error .uniqueViolation, db)
  else if (db.accounts.lookup c.account).isNone then (.error .foreignKeyViolation, db)
  else (.ok (), { db with containers := db.containers.insert c r })

def getContainer (c : ContainerKey) (db : MetadataDb) : Option ContainerRow :=
  (db.containers.lookup c).map fun r =>
    { name := c.container
      publicAccessLevel := .fromDbStr r.publicAccessLevel
      metadata := r.metadata
      etag := r.etag
      lastModified := r.lastModified }

/-- The transaction of `delete_container`: the storage paths of the blobs, and all rows gone. -/
def deleteContainer (c : ContainerKey) (db : MetadataDb) :
    Except SqlError (List String) × MetadataDb :=
  (.ok ((db.blobs.selectWhere fun k => k.containerKey = c).map fun e => e.2.storagePath),
    { db with
      committedBlocks := db.committedBlocks.deleteWhere fun k => k.containerKey = c
      stagedBlocks := db.stagedBlocks.deleteWhere fun k => k.blob.containerKey = c
      blobs := db.blobs.deleteWhere fun k => k.containerKey = c
      containers := db.containers.erase c })

def setContainerMetadata (c : ContainerKey) (metadata : Metadata) (etag lastModified : String)
    (db : MetadataDb) : Except SqlError Unit × MetadataDb :=
  (.ok (), { db with
    containers := Table.modify c
      (fun r => { r with metadata := metadata, etag := etag, lastModified := lastModified })
      db.containers })

def setContainerAcl (c : ContainerKey) (publicAccess : PublicAccessLevel)
    (etag lastModified : String) (db : MetadataDb) : Except SqlError Unit × MetadataDb :=
  (.ok (), { db with
    containers := Table.modify c
      (fun r => { r with
        publicAccessLevel := publicAccess.asDbStr, etag := etag, lastModified := lastModified })
      db.containers })

/-! ### Prefix patterns, order and paging -/

/-- SQLite's `LIKE`: `%` for any sequence, `_` for any one character, ASCII case ignored. -/
def like : List Char → List Char → Bool
  | []      => fun cs => cs.isEmpty
  | p :: ps => fun cs =>
    if p = '%' then cs.tails.any (like ps)
    else match cs with
      | []      => false
      | c :: cs => (p = '_' || p.toLower = c.toLower) && like ps cs

/-- `name LIKE prefix || '%' AND name > marker`. -/
def listed (namePrefix marker name : String) : Bool :=
  like (namePrefix.toList ++ ['%']) name.toList && decide (marker < name)

/-- Cut a page of `n` off the selected rows and name the last one if there are more. -/
def page {ρ : Type} (name : ρ → String) (n : ℕ) (rows : List ρ) : List ρ × Option String :=
  if n < rows.length then (rows.take n, (rows.take n).getLast?.map name)
  else (rows, none)

def listContainers (account : String) (namePrefix marker : Option String) (maxResults : UInt32)
    (db : MetadataDb) : List ContainerRow × Option String :=
  let selected := db.containers.selectWhere fun c =>
    c.account = account && listed (namePrefix.getD "") (marker.getD "") c.container
  let sorted := selected.insertionSort fun x y => x.1.container ≤ y.1.container
  -- the limit is computed in `u32`
  let rows := (sorted.take (maxResults + 1).toNat).map fun e =>
    { name := e.1.container
      publicAccessLevel := .fromDbStr e.2.publicAccessLevel
      metadata := e.2.metadata
      etag := e.2.etag
      lastModified := e.2.lastModified : ContainerRow }
  page ContainerRow.name maxResults.toNat rows

def listBlobs (c : ContainerKey) (namePrefix marker : Option String) (maxResults : UInt32)
    (db : MetadataDb) : List BlobRow × Option String :=
  let selected := db.blobs.selectWhere fun k =>
    k.containerKey = c && listed (namePrefix.getD "") (marker.getD "") k.blob
  let sorted := selected.insertionSort fun x y => x.1.blob ≤ y.1.blob
  -- widened to `i64` before the addition
  page BlobRow.name maxResults.toNat ((sorted.take (maxResults.toNat + 1)).map Prod.snd)

/-! ### Blobs -/

def getBlob (k : BlobKey) (db : MetadataDb) : Option BlobRow := db.blobs.lookup k

/-- The row an upsert leaves, given the row it finds. -/
def upsertedRow (k : BlobKey) (u : BlobUpsert) : Option BlobRow → BlobRow
  | some old => { old with
      contentLength := u.contentLength
      contentType := u.contentType
      contentMd5 := u.contentMd5
      metadata := u.metadata
      etag := u.etag
      lastModified := u.lastModified
      storagePath := u.storagePath }
  | none =>
    { name := k.blob
      blobType := "BlockBlob"
      contentLength := u.contentLength
      contentType := u.contentType
      contentMd5 := u.contentMd5
      contentEncoding := none
      contentLanguage := none
      cacheControl := none
      contentDisposition := none
      metadata := u.metadata
      etag := u.etag
      lastModified := u.lastModified
      storagePath := u.storagePath }

def upsertBlob (k : BlobKey) (u : BlobUpsert) (db : MetadataDb) :
    Except SqlError Unit × MetadataDb :=
  if (db.blobs.lookup k).isNone && (db.containers.lookup k.containerKey).isNone then
    (.error .foreignKeyViolation, db)
  else (.ok (), { db with blobs := db.blobs.insert k (upsertedRow k u (db.blobs.lookup k)) })

def setBlobProperties (k : BlobKey) (patch : BlobPropertiesPatch) (etag lastModified : String)
    (db : MetadataDb) : Except SqlError Unit × MetadataDb :=
  (.ok (), { db with
    blobs := Table.modify k
      (fun r => { r with
        contentType := patch.contentType
        contentMd5 := patch.contentMd5
        contentEncoding := patch.contentEncoding
        contentLanguage := patch.contentLanguage
        cacheControl := patch.cacheControl
        contentDisposition := patch.contentDisposition
        etag := etag
        lastModified := lastModified })
      db.blobs })

def setBlobMetadata (k : BlobKey) (metadata : Metadata) (etag lastModified : String)
    (db : MetadataDb) : Except SqlError Unit × MetadataDb :=
  (.ok (), { db with
    blobs := Table.modify k
      (fun r => { r with metadata := metadata, etag := etag, lastModified := lastModified })
      db.blobs })

def deleteBlobRow (k : BlobKey) (db : MetadataDb) : Except SqlError Unit × MetadataDb :=
  (.ok (), { db with blobs := db.blobs.erase k })

def deleteCommittedBlocks (k : BlobKey) (db : MetadataDb) : MetadataDb :=
  { db with committedBlocks := db.committedBlocks.erase k }

def deleteStagedBlocks (k : BlobKey) (db : MetadataDb) : MetadataDb :=
  { db with stagedBlocks := db.stagedBlocks.deleteWhere fun s => s.blob = k }

/-! ### Blocks -/

def stageBlock (s : StagedBlockKey) (r : StagedBlockRecord) (db : MetadataDb) :
    Except SqlError Unit × MetadataDb :=
  (.ok (), { db with stagedBlocks := db.stagedBlocks.insert s r })

def getStagedBlock (s : StagedBlockKey) (db : MetadataDb) : Option StagedBlockRecord :=
  db.stagedBlocks.lookup s

def getCommittedBlocks (k : BlobKey) (db : MetadataDb) : List CommittedBlock :=
  (db.committedBlocks.lookup k).getD []

def getUncommittedBlocks (k : BlobKey) (db : MetadataDb) : List CommittedBlock :=
  let rows := db.stagedBlocks.selectWhere fun s => s.blob = k
  (rows.insertionSort fun x y => x.2.stagedAt ≤ y.2.stagedAt).map fun e =>
    ⟨e.1.blockId, e.2.blockSize⟩

/-- The transaction of `commit_block_list`. -/
def commitBlockList (k : BlobKey) (resolved : List CommittedBlock) (u : BlobUpsert)
    (db : MetadataDb) : Except SqlError Unit × MetadataDb :=
  match upsertBlob k u db with
  | (.error e, _)   => (.error e, db)
  | (.ok (), db')   =>
    (.ok (), { db' with
      committedBlocks := db'.committedBlocks.insert k resolved
      stagedBlocks := db'.stagedBlocks.deleteWhere fun s => s.blob = k })

/-! ### Accounts -/

def ensureAccount (account : String) (r : AccountRow) (db : MetadataDb) : MetadataDb :=
  { db with accounts := db.accounts.insert account r }

def accountKeys (account : String) (db : MetadataDb) : Option (String × Option String) :=
  (db.accounts.lookup account).map fun r => (r.key1, r.key2)

/-- The tables after the migration: accounts only. -/
def empty (accounts : Table String AccountRow) : MetadataDb := ⟨accounts, ∅, ∅, ∅, ∅⟩

/-! ### Writing a blob of a container that exists -/

lemma upsertBlob_of_container {k : BlobKey} {db : MetadataDb}
    (hc : (db.containers.lookup k.containerKey).isSome) (u : BlobUpsert) :
    upsertBlob k u db = (.ok (), { db with
      blobs := db.blobs.insert k (upsertedRow k u (db.blobs.lookup k)) }) := by
  unfold upsertBlob
  rw [if_neg]
  simp [Option.isNone_eq_false_iff.mpr hc]

lemma commitBlockList_of_container {k : BlobKey} {db : MetadataDb}
    (hc : (db.containers.lookup k.containerKey).isSome) (resolved : List CommittedBlock)
    (u : BlobUpsert) : commitBlockList k resolved u db = (.ok (), { db with
      blobs := db.blobs.insert k (upsertedRow k u (db.blobs.lookup k))
      committedBlocks := db.committedBlocks.insert k resolved
      stagedBlocks := db.stagedBlocks.deleteWhere fun s => s.blob = k }) := by
  rw [commitBlockList, upsertBlob_of_container hc]

/-! ### Failed statements -/

/-- A statement that fails changes nothing. -/
def Atomic {α : Type} (stmt : MetadataDb → Except SqlError α × MetadataDb) : Prop :=
  ∀ db db' e, stmt db = (.error e, db') → db' = db

lemma Atomic.guarded {α : Type} {stmt : MetadataDb → Except SqlError α × MetadataDb}
    (h : Atomic stmt) (fault : Option String) : Atomic (guarded fault stmt) := by
  intro db db' e he
  cases fault with
  | none => exact h db db' e he
  | some message =>
    cases he
    rfl

lemma atomic_insertContainer (c : ContainerKey) (r : ContainerRecord) :
    Atomic (insertContainer c r) := by
  intro db db' e he
  unfold insertContainer at he
  split_ifs at he <;> cases he <;> rfl

lemma atomic_upsertBlob (k : BlobKey) (u : BlobUpsert) : Atomic (upsertBlob k u) := by
  intro db db' e he
  unfold upsertBlob at he
  split_ifs at he <;> cases he
  rfl

lemma atomic_commitBlockList (k : BlobKey) (resolved : List CommittedBlock) (u : BlobUpsert) :
    Atomic (commitBlockList k resolved u) := by
  intro db db' e he
  unfold commitBlockList at he
  split at he <;> cases he
  rfl

/-- A statement that never fails. -/
lemma atomic_of_ok {α : Type} {stmt : MetadataDb → Except SqlError α × MetadataDb}
    {a : MetadataDb → α} (h : ∀ db, (stmt db).1 = .ok (a db)) : Atomic stmt := by
  intro db db' e he
  have := h db
  rw [he] at this
  cases this

end MetadataDb
end BlobStore
