import BlobStore.Storage.Refinement.BlockList
import BlobStore.Storage.Refinement.Delete

/-!
# Calls one after another

Every call that runs alone on a sound state, with ordinary names, answers and leaves what the
shelf says, and the state it leaves is sound. Runs of calls can therefore be studied on shelves
alone (`serve_shelf`).
-/

namespace BlobStore

open Codec FileTree Resumption Proc

variable {B : FsBackend} {w w' : World}

/-! ### Reading -/

lemma openFile_of_tidy (hw : Settled B w) (k : BlobKey) :
    w.fs.openFile (B.blobFile k) = match w.fs.file? (B.blobFile k) with
      | some bytes => .ok bytes
      | none       => .error .notFound := by
  obtain ⟨rel, hrel, hpath⟩ := filePos_blobFile (B := B) k
  have hdir : w.fs.isDir (B.blobFile k) = false := by
    rw [hpath, Bool.eq_false_iff]
    exact fun h => hw.tidy.dir rel h hrel
  unfold FsTree.openFile
  cases w.fs.file? (B.blobFile k) <;> simp [hdir]

lemma run_getBlob (hw : Sound B w) {a c : String} (hord : (ContainerKey.mk a c).Ordinary)
    (b : String) (range : Option (ℕ × ℕ)) :
    run Action.exec (B.getBlob a c b range) w = (Shelf.getBlob ⟨a, c, b⟩ range (B.shelf w), w) := by
  have hdb : (B.shelf w).db = w.db := rfl
  unfold FsBackend.getBlob Shelf.getBlob
  cases hb : Shelf.blob ⟨a, c, b⟩ w.db with
  | error e =>
    rw [hdb, hb]
    exact run_bind_error _ ((run_requireBlob a c b w).trans (by rw [hb])) _
  | ok row =>
    have hrow := lookup_of_blob hb
    have hpath : B.stored row.storagePath = B.blobFile ⟨a, c, b⟩ :=
      hw.located.stored_blob (k := ⟨a, c, b⟩) hord hrow
    rw [hdb, hb, run_bind_ok _ ((run_requireBlob a c b w).trans (by rw [hb])), hpath]
    dsimp only
    cases hrange : FsBackend.resolveRange row.contentLength range with
    | error e => simp
    | ok rr =>
      have hcontent : (B.shelf w).content ⟨a, c, b⟩ = w.fs.file? (B.blobFile ⟨a, c, b⟩) := by
        simp [FsBackend.shelf, hrow]
      have hopen : Action.exec (.openFile (B.blobFile ⟨a, c, b⟩)) w =
          (w.fs.openFile (B.blobFile ⟨a, c, b⟩), w) := rfl
      rw [ofExcept_ok_bind, run_perform_bind, hopen, openFile_of_tidy hw.toSettled, ← hcontent]
      cases (B.shelf w).content ⟨a, c, b⟩ <;> simp [Except.mapError]

/-- `get_blob`, on a state. -/
def FsBackend.readBlob (B : FsBackend) (k : BlobKey) (range : Option (ℕ × ℕ)) (w : World) :
    Except AzureError BlobPayload :=
  ((B.getBlob k.account k.container k.blob range).run w).1

lemma readBlob_eq (hw : Sound B w) {k : BlobKey} (hk : k.containerKey.Ordinary)
    (range : Option (ℕ × ℕ)) : B.readBlob k range w = Shelf.getBlob k range (B.shelf w) := by
  rw [FsBackend.readBlob, Store.run, run_getBlob hw hk]

/-- Reading needs no more than a row and its file. -/
lemma run_getBlob_of_file {a c b : String} {row : BlobRow} {bytes : Bytes}
    (hrow : w.db.blobs.lookup ⟨a, c, b⟩ = some row)
    (hfile : w.fs.openFile (B.stored row.storagePath) = .ok bytes) (range : Option (ℕ × ℕ)) :
    run Action.exec (B.getBlob a c b range) w =
      ((FsBackend.resolveRange row.contentLength range).map fun rr =>
        ⟨blobRowToProps row, row.contentLength, rr,
          FsBackend.readRange bytes row.contentLength rr⟩, w) := by
  have hblob : Shelf.blob ⟨a, c, b⟩ w.db = .ok row := by
    simp only [Shelf.blob, MetadataDb.getBlob, hrow]
  have hopen : Action.exec (.openFile (B.stored row.storagePath)) w = (.ok bytes, w) := by
    rw [Action.exec, hfile]
  rw [FsBackend.getBlob, run_bind_ok _ ((run_requireBlob _ _ _ w).trans (by rw [hblob]))]
  cases hrange : FsBackend.resolveRange row.contentLength range with
  | error e => simp [hrange, Except.map]
  | ok rr =>
    simp only [hrange, ofExcept_ok_bind, run_perform_bind]
    rw [hopen]
    rfl

lemma readBlob_of_file (hw : Located B w.db) {k : BlobKey} (hk : k.containerKey.Ordinary)
    {row : BlobRow} (hrow : w.db.blobs.lookup k = some row) {bytes : Bytes}
    (hfile : w.fs.file? (B.blobFile k) = some bytes) (range : Option (ℕ × ℕ)) :
    B.readBlob k range w = (FsBackend.resolveRange row.contentLength range).map fun rr =>
      ⟨blobRowToProps row, row.contentLength, rr,
        FsBackend.readRange bytes row.contentLength rr⟩ := by
  have hopen : w.fs.openFile (B.stored row.storagePath) = .ok bytes := by
    rw [hw.stored_blob hk hrow, FsTree.openFile_eq_ok.mpr hfile]
  rw [FsBackend.readBlob, Store.run, run_getBlob_of_file hrow hopen]

/-- A file of the recorded length is read whole. -/
lemma readBlob_of_whole_file (hw : Located B w.db) {k : BlobKey} (hk : k.containerKey.Ordinary)
    {row : BlobRow} (hrow : w.db.blobs.lookup k = some row) {bytes : Bytes}
    (hfile : w.fs.file? (B.blobFile k) = some bytes) (hlen : row.contentLength = bytes.length) :
    B.readBlob k none w = .ok ⟨blobRowToProps row, bytes.length, none, bytes⟩ := by
  rw [readBlob_of_file hw hk hrow hfile]
  simp [FsBackend.resolveRange, FsBackend.readRange, Except.map, hlen]

lemma readBlob_of_no_row {k : BlobKey} (hrow : w.db.blobs.lookup k = none)
    (range : Option (ℕ × ℕ)) : B.readBlob k range w = .error (.new .blobNotFound) := by
  have hblob : Shelf.blob ⟨k.account, k.container, k.blob⟩ w.db = .error (.new .blobNotFound) := by
    simp only [Shelf.blob, MetadataDb.getBlob, hrow]
  unfold FsBackend.readBlob FsBackend.getBlob Store.run
  rw [run_bind_error _ ((run_requireBlob _ _ _ w).trans (by rw [hblob]))]

/-- A row without a file is an internal error. -/
lemma readBlob_of_no_file (hw : Located B w.db) {k : BlobKey} (hk : k.containerKey.Ordinary)
    {row : BlobRow} (hrow : w.db.blobs.lookup k = some row)
    (hfile : w.fs.file? (B.blobFile k) = none) :
    ∃ e, B.readBlob k none w = .error (ioError e) := by
  have hblob : Shelf.blob ⟨k.account, k.container, k.blob⟩ w.db = .ok row := by
    simp only [Shelf.blob, MetadataDb.getBlob, hrow]
  have hopen : ∃ e, Action.exec (.openFile (B.stored row.storagePath)) w = (.error e, w) := by
    rw [hw.stored_blob hk hrow, Action.exec]
    cases hres : w.fs.openFile (B.blobFile k) with
    | error e => exact ⟨e, rfl⟩
    | ok bytes =>
      rw [FsTree.openFile_eq_ok.mp hres] at hfile
      cases hfile
  obtain ⟨e, hopen⟩ := hopen
  refine ⟨e, ?_⟩
  unfold FsBackend.readBlob FsBackend.getBlob Store.run
  rw [run_bind_ok _ ((run_requireBlob _ _ _ w).trans (by rw [hblob]))]
  simp only [FsBackend.resolveRange, ofExcept_ok_bind, run_perform_bind]
  rw [hopen]
  rfl

/-! ### Every call -/

/-- A lookup and a function of the row. -/
lemma run_lookup {ρ β : Type} {p : Store ρ} {r : Except AzureError ρ}
    (hp : run Action.exec p w = (r, w)) (f : ρ → β) (g : β → Reply) :
    Store.run ((p >>= fun x => pure (f x)) >>= fun y => pure (g y)) w =
      (r.map fun x => g (f x), w) := by
  rw [Store.run, run_bind_pure _ (run_bind_pure _ hp f) g]
  cases r <;> rfl

/-- A listing groups the rows of its page. -/
lemma run_listBlobs (a c : String) (np d marker : Option String) (n : UInt32) (w : World) :
    run Action.exec (FsBackend.listBlobs a c np d marker n) w =
      ((Shelf.container ⟨a, c⟩ w.db).map fun _ =>
        (FsBackend.groupRows (np.getD "") d (w.db.listBlobs ⟨a, c⟩ np marker n).1 [] []).map
          fun g => ⟨g.1, g.2, (w.db.listBlobs ⟨a, c⟩ np marker n).2⟩, w) := by
  rw [FsBackend.listBlobs, run_bind, run_requireContainer]
  cases Shelf.container ⟨a, c⟩ w.db <;> rfl

lemma call_refines (hw : Sound B w) (amb : Ambient) {call : Call} (hcall : call.Ordinary) :
    Refines B (B.call amb call) (Shelf.call B amb call) w := by
  have hs := hw.toSettled
  cases call with
  | createContainer a c pa m =>
    exact (createContainer_refines hs amb (hcall _ rfl).account (hcall _ rfl).container pa m).map
      Reply.container
  | deleteContainer a c =>
    exact (deleteContainer_refines hw amb (hcall _ rfl)).map fun _ => Reply.done
  | getContainerProperties a c => exact .look hs (run_lookup (run_requireContainer a c w) _ _)
  | setContainerMetadata a c m =>
    exact (update_refines hs (MetadataDb.setContainerMetadata ⟨a, c⟩ m amb.etag amb.lastModified)
      (run_requireContainer a c) rfl rfl (.modify_container _ _ _) _).map Reply.container
  | setContainerAcl a c pa =>
    exact (update_refines hs (MetadataDb.setContainerAcl ⟨a, c⟩ pa amb.etag amb.lastModified)
      (run_requireContainer a c) rfl rfl (.modify_container _ _ _) _).map Reply.container
  | listContainers a np marker n => exact .look hs rfl
  | listBlobs a c np d marker n =>
    refine .look hs ?_
    exact (run_bind_pure _ (run_listBlobs a c np d marker n w) Reply.blobs).trans
      (by cases hc : Shelf.container ⟨a, c⟩ w.db <;> simp [FsBackend.shelf, hc, Except.map])
  | putBlob a c b body ct h m =>
    exact (putBlob_refines hs amb (hcall _ rfl).account (hcall _ rfl).container b body ct h m).map
      Reply.blob
  | getBlob a c b range => exact .look hs (run_bind_pure _ (run_getBlob hw (hcall _ rfl) b range) _)
  | getBlobProperties a c b => exact .look hs (run_lookup (run_requireBlob a c b w) _ _)
  | setBlobProperties a c b patch =>
    exact (update_refines hs (MetadataDb.setBlobProperties ⟨a, c, b⟩ patch amb.etag
      amb.lastModified) (run_requireBlob a c b) rfl rfl (.modify_blob _ _ _) _).map Reply.blob
  | setBlobMetadata a c b m =>
    exact (update_refines hs (MetadataDb.setBlobMetadata ⟨a, c, b⟩ m amb.etag amb.lastModified)
      (run_requireBlob a c b) rfl rfl (.modify_blob _ _ _) _).map Reply.blob
  | deleteBlob a c b => exact (deleteBlob_refines hw amb (hcall _ rfl) b).map fun _ => Reply.done
  | putBlock a c b id body =>
    exact (putBlock_refines hs amb (hcall _ rfl) b id body).map Reply.md5
  | putBlockList a c b refs ct m =>
    exact (putBlockList_refines hw amb (hcall _ rfl) b refs ct m).map Reply.blob
  | getBlockList a c b => exact .look hs rfl

/-- A call leaves a sound state. -/
theorem Sound.call (hw : Sound B w) (amb : Ambient) {call : Call} (hcall : call.Ordinary) :
    Sound B ((B.call amb call).run w).2 :=
  ⟨(call_refines hw amb hcall).settled, hw.located.call amb call⟩

/-! ### Runs of calls -/

/-- A call with the surroundings it meets. -/
structure Request where
  amb : Ambient
  call : Call

namespace FsBackend

variable (B)

/-- The state after serving requests one after another. -/
def serve (w : World) : List Request → World
  | []          => w
  | req :: reqs => serve ((B.call req.amb req.call).run w).2 reqs

/-- The answers to them, in order. -/
def answers (w : World) : List Request → List (Except AzureError Reply)
  | []          => []
  | req :: reqs =>
    ((B.call req.amb req.call).run w).1 :: answers ((B.call req.amb req.call).run w).2 reqs

end FsBackend

namespace Shelf

variable (B)

def serve (s : Shelf) : List Request → Shelf
  | []          => s
  | req :: reqs => serve (call B req.amb req.call s).2 reqs

def answers (s : Shelf) : List Request → List (Except AzureError Reply)
  | []          => []
  | req :: reqs => (call B req.amb req.call s).1 :: answers (call B req.amb req.call s).2 reqs

end Shelf

variable {reqs : List Request}

lemma serve_append (w : World) (reqs reqs' : List Request) :
    B.serve w (reqs ++ reqs') = B.serve (B.serve w reqs) reqs' := by
  induction reqs generalizing w with
  | nil => rfl
  | cons req reqs ih => exact ih _

theorem Sound.serve (hw : Sound B w) (hreqs : ∀ req ∈ reqs, req.call.Ordinary) :
    Sound B (B.serve w reqs) := by
  induction reqs generalizing w with
  | nil => exact hw
  | cons req reqs ih =>
    exact ih (hw.call req.amb (hreqs req List.mem_cons_self))
      fun r hr => hreqs r (List.mem_cons_of_mem _ hr)

/-- Requests served one after another are served on the shelf. -/
theorem serve_shelf (hw : Sound B w) (hreqs : ∀ req ∈ reqs, req.call.Ordinary) :
    B.shelf (B.serve w reqs) = Shelf.serve B (B.shelf w) reqs ∧
      B.answers w reqs = Shelf.answers B (B.shelf w) reqs := by
  induction reqs generalizing w with
  | nil => exact ⟨rfl, rfl⟩
  | cons req reqs ih =>
    have hreq := hreqs req List.mem_cons_self
    have hstep := call_refines hw req.amb hreq
    obtain ⟨hserve, hanswers⟩ := ih (hw.call req.amb hreq)
      fun r hr => hreqs r (List.mem_cons_of_mem _ hr)
    constructor
    · rw [FsBackend.serve, Shelf.serve, hserve, hstep.shelf]
    · rw [FsBackend.answers, Shelf.answers, hanswers, hstep.shelf, hstep.answer]

/-! ### The empty store -/

/-- A store before its first call: accounts only, and nothing below the storage root. -/
structure Fresh (B : FsBackend) (w : World) : Prop where
  db : ∃ accounts, w.db = MetadataDb.empty accounts
  below : ∀ rel, rel ≠ [] → w.fs.node (B.root ++ rel) = none
  above : ∀ q, q <+: B.root → w.fs.file? q = none

/-- A store on a file system that has the storage root and nothing else. -/
def FsBackend.fresh (B : FsBackend) (accounts : Table String AccountRow) : World where
  db := .empty accounts
  fs := ⟨fun p => if p <+: B.root then some .dir else none⟩

lemma FsBackend.fresh_isFresh (B : FsBackend) (accounts : Table String AccountRow) :
    Fresh B (B.fresh accounts) where
  db := ⟨accounts, rfl⟩
  below rel hrel := by
    refine if_neg fun h => hrel ?_
    have hlen := h.length_le
    rw [List.length_append] at hlen
    exact List.eq_nil_of_length_eq_zero (by omega)
  above q hq := by simp [FsBackend.fresh, FsTree.file?, hq]

lemma Fresh.sound (h : Fresh B w) : Sound B w := by
  obtain ⟨accounts, hdb⟩ := h.db
  have hnode : ∀ rel, FilePos rel → w.fs.node (B.root ++ rel) = none :=
    fun rel hrel => h.below rel hrel.ne_nil
  refine ⟨⟨⟨fun rel c hc => ?_, fun rel hdir hrel => ?_, h.above⟩, ?_, ?_⟩, ?_⟩
  · by_cases hrel : rel = []
    · subst hrel
      rw [h.above _ (by simp)] at hc
      cases hc
    · simp [FsTree.file?, h.below rel hrel] at hc
  · rw [FsTree.isDir_eq_node (by simp [hrel.ne_nil]), hnode rel hrel] at hdir
    cases hdir
  · rw [hdb]
    exact ⟨by simp [MetadataDb.empty], by simp [MetadataDb.empty], by simp [MetadataDb.empty]⟩
  · rw [hdb]
    simp [MetadataDb.empty]
  · rw [hdb]
    exact ⟨by simp [MetadataDb.empty], by simp [MetadataDb.empty]⟩

/-- The states that calls with ordinary names, one after another, can reach. -/
def Reachable (B : FsBackend) (w : World) : Prop :=
  ∃ w₀ reqs, Fresh B w₀ ∧ (∀ req ∈ reqs, req.call.Ordinary) ∧ w = B.serve w₀ reqs

lemma Reachable.sound (h : Reachable B w) : Sound B w := by
  obtain ⟨w₀, reqs, hfresh, hreqs, rfl⟩ := h
  exact hfresh.sound.serve hreqs

end BlobStore
