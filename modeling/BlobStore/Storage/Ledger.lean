import BlobStore.Storage.Refinement.Call
import BlobStore.Storage.TableHash

/-!
# What callers may rely on

The ledger is kept by somebody who only sees calls and answers: the bytes of the last successful
write of each blob since it was last deleted, and the bytes last staged under each block id. It
knows nothing of tables and files. Reading a blob gives what the ledger says.
-/

namespace BlobStore

open Codec FileTree

/-- The bytes in the chunks of a body. -/
def ByteStream.bytes (body : ByteStream) : Bytes :=
  (body.filterMap fun chunk => chunk.toOption).flatten

lemma ByteStream.bytes_of_collect {body : ByteStream} {bytes : Bytes}
    (h : body.collect = .ok bytes) : body.bytes = bytes := by
  induction body generalizing bytes with
  | nil =>
    cases h
    rfl
  | cons x body ih =>
    cases x with
    | error e => cases h
    | ok chunk =>
      rw [ByteStream.collect] at h
      cases hbody : ByteStream.collect body with
      | error e =>
        rw [hbody] at h
        cases h
      | ok rest =>
        rw [hbody] at h
        cases h
        change chunk ++ ByteStream.bytes body = chunk ++ rest
        rw [ih hbody]

structure Ledger where
  content : BlobKey → Option Bytes
  staged : StagedBlockKey → Option Bytes

namespace Ledger

def empty : Ledger := ⟨fun _ => none, fun _ => none⟩

/-- What a successful call means to its caller. -/
def note (l : Ledger) : Call → Ledger
  | .putBlob a c b body _ _ _ =>
    { l with content := Function.update l.content ⟨a, c, b⟩ (some body.bytes) }
  | .putBlock a c b id body =>
    { l with staged := Function.update l.staged ⟨⟨a, c, b⟩, id⟩ (some body.bytes) }
  | .putBlockList a c b refs _ _ =>
    let bytes := (refs.map fun ref => (l.staged ⟨⟨a, c, b⟩, ref.blockId⟩).getD []).flatten
    { l with content := Function.update l.content ⟨a, c, b⟩ (some bytes) }
  | .deleteBlob a c b => { l with content := Function.update l.content ⟨a, c, b⟩ none }
  | .deleteContainer a c =>
    { l with content := fun k => if k.containerKey = ⟨a, c⟩ then none else l.content k }
  | _ => l

/-- A call that fails means nothing. -/
def enter (l : Ledger) (event : Call × Except AzureError Reply) : Ledger :=
  match event.2 with
  | .ok _    => l.note event.1
  | .error _ => l

/-- The ledger after calls and their answers. -/
def after (l : Ledger) (events : List (Call × Except AzureError Reply)) : Ledger :=
  events.foldl enter l

end Ledger

/-! ### The invariant -/

/-- The shelf has the bytes of the ledger, with their number in the rows. -/
structure Agrees (s : Shelf) (l : Ledger) : Prop where
  length : ∀ k, (s.db.blobs.lookup k).map BlobRow.contentLength = (l.content k).map List.length
  content : s.content = l.content
  staged : ∀ b, (s.db.stagedBlocks.lookup b).isSome →
    s.staged b = l.staged b ∧ (l.staged b).isSome

variable {B : FsBackend} {s s' : Shelf} {l : Ledger} {amb : Ambient}

/-- Changes of the tables that keep lengths and staged rows. -/
lemma Agrees.of_rows (h : Agrees s l) {db : MetadataDb}
    (hblob : ∀ k, (db.blobs.lookup k).map BlobRow.contentLength =
      (s.db.blobs.lookup k).map BlobRow.contentLength)
    (hstaged : db.stagedBlocks = s.db.stagedBlocks) : Agrees { s with db := db } l where
  length k := (hblob k).trans (h.length k)
  content := h.content
  staged b hb := h.staged b (hstaged ▸ hb)

lemma Agrees.modify_blob (h : Agrees s l) (k : BlobKey) {f : BlobRow → BlobRow}
    (hf : ∀ row, (f row).contentLength = row.contentLength) :
    Agrees { s with db := { s.db with blobs := Table.modify k f s.db.blobs } } l := by
  refine h.of_rows (fun k' => ?_) rfl
  by_cases hk : k' = k
  · subst hk
    dsimp only
    rw [Table.lookup_modify_self, Option.map_map]
    exact congrArg (Option.map · _) (funext hf)
  · dsimp only
    rw [Table.lookup_modify_ne hk]

/-- A row of newly written bytes. -/
lemma Agrees.record (h : Agrees s l) {k : BlobKey} {bytes : Bytes} {db : MetadataDb}
    (hself : (db.blobs.lookup k).map BlobRow.contentLength = some bytes.length)
    (hblob : ∀ k', k' ≠ k → db.blobs.lookup k' = s.db.blobs.lookup k')
    (hstaged : ∀ b, (db.stagedBlocks.lookup b).isSome → (s.db.stagedBlocks.lookup b).isSome) :
    Agrees
      { db      := db
        content := Function.update s.content k (some bytes)
        staged  := fun b => if (db.stagedBlocks.lookup b).isSome then s.staged b else none }
      { l with content := Function.update l.content k (some bytes) } where
  length k' := by
    by_cases hk : k' = k
    · subst hk
      simpa using hself
    · dsimp only
      rw [Function.update_of_ne hk, hblob k' hk]
      exact h.length k'
  content := by rw [h.content]
  staged b hb := by
    dsimp only at hb ⊢
    rw [if_pos hb]
    exact h.staged b (hstaged b hb)

lemma lookup_upsertBlob {k : BlobKey} {u : BlobUpsert} {db db' : MetadataDb}
    (h : MetadataDb.upsertBlob k u db = (.ok (), db')) :
    (db'.blobs.lookup k).map BlobRow.contentLength = some u.contentLength ∧
      (∀ k', k' ≠ k → db'.blobs.lookup k' = db.blobs.lookup k') ∧
      db'.stagedBlocks = db.stagedBlocks := by
  unfold MetadataDb.upsertBlob at h
  split_ifs at h <;> cases h
  refine ⟨?_, fun k' hk' => AList.lookup_insert_ne hk', rfl⟩
  dsimp only
  rw [AList.lookup_insert]
  cases db.blobs.lookup k <;> rfl

lemma lookup_commitBlockList {k : BlobKey} {resolved : List CommittedBlock} {u : BlobUpsert}
    {db db' : MetadataDb} (h : MetadataDb.commitBlockList k resolved u db = (.ok (), db')) :
    (db'.blobs.lookup k).map BlobRow.contentLength = some u.contentLength ∧
      (∀ k', k' ≠ k → db'.blobs.lookup k' = db.blobs.lookup k') ∧
      ∀ b, (db'.stagedBlocks.lookup b).isSome → (db.stagedBlocks.lookup b).isSome := by
  unfold MetadataDb.commitBlockList at h
  rcases hup : MetadataDb.upsertBlob k u db with ⟨e | _, db₁⟩
  · rw [hup] at h
    cases h
  · obtain ⟨hself, hne, hstaged⟩ := lookup_upsertBlob hup
    rw [hup] at h
    cases h
    exact ⟨hself, hne, fun b hb => hstaged ▸ (Table.isSome_lookup_deleteWhere.mp hb).2⟩

/-! ### One call -/

/-- The calls that write bytes. -/
def Call.isWrite : Call → Bool
  | .putBlob .. | .putBlock .. | .putBlockList .. => true
  | _ => false

def Call.isPutBlob : Call → Bool
  | .putBlob .. => true
  | _           => false

/-- A `put_blob` whose body does not have the announced digest. -/
def Mismatch (call : Call) (answer : Except AzureError Reply) : Prop :=
  call.isPutBlob = true ∧ answer = .error (.new .md5Mismatch)

instance (call : Call) (answer : Except AzureError Reply) : Decidable (Mismatch call answer) :=
  inferInstanceAs (Decidable (_ ∧ _))

lemma agrees_look (h : Agrees s l) {f : Shelf → Except AzureError Reply} {call : Call}
    (hnote : l.note call = l) :
    Agrees (Shelf.look f s).2 (l.enter (call, (Shelf.look f s).1)) := by
  unfold Shelf.look Ledger.enter
  cases f s with
  | error e => exact h
  | ok r =>
    change Agrees s (l.note call)
    rw [hnote]
    exact h

/-- An operation that fails without effect, or succeeds as the ledger notes it. -/
lemma agrees_replying {α : Type} {op : Shelf.Op α} {f : α → Reply} {call : Call}
    (herror : ∀ e, (op s).1 = .error e → Agrees (op s).2 l)
    (hok : ∀ a, (op s).1 = .ok a → Agrees (op s).2 (l.note call)) :
    Agrees (Shelf.replying f op s).2 (l.enter (call, (Shelf.replying f op s).1)) := by
  unfold Shelf.replying Ledger.enter
  cases hans : (op s).1 with
  | error e => exact herror e hans
  | ok a => exact hok a hans

lemma agrees_update {ρ : Type} (h : Agrees s l) (amb : Ambient)
    (row : MetadataDb → Except AzureError ρ)
    (stmt : MetadataDb → Except SqlError Unit × MetadataDb) {db : MetadataDb}
    (hstmt : stmt s.db = (.ok (), db)) (hdb : Agrees { s with db := db } l) :
    Agrees (Shelf.update amb row stmt s).2 l := by
  unfold Shelf.update
  cases row s.db with
  | error e => exact h
  | ok r =>
    cases amb.dbFault with
    | some message => exact h
    | none =>
      simp only [MetadataDb.guarded, hstmt]
      exact hdb

lemma agrees_record (h : Agrees s l) (hfault : amb.dbFault = none) {k : BlobKey} {bytes : Bytes}
    {stmt : MetadataDb → Except SqlError Unit × MetadataDb} {db : MetadataDb}
    (hc : stmt s.db = (.ok (), db))
    (hrec : (db.blobs.lookup k).map BlobRow.contentLength = some bytes.length ∧
      (∀ k', k' ≠ k → db.blobs.lookup k' = s.db.blobs.lookup k') ∧
      ∀ b, (db.stagedBlocks.lookup b).isSome → (s.db.stagedBlocks.lookup b).isSome) :
    (∃ row, (Shelf.record amb k bytes stmt s).1 = .ok (blobRowToProps row)) ∧
      Agrees (Shelf.record amb k bytes stmt s).2
        { l with content := Function.update l.content k (some bytes) } := by
  unfold Shelf.record
  rw [hfault, MetadataDb.guarded, hc]
  refine ⟨?_, h.record hrec.1 hrec.2.1 hrec.2.2⟩
  dsimp only
  obtain ⟨row, hrow, -⟩ := Option.map_eq_some_iff.mp hrec.1
  exact ⟨row, by simp [Shelf.blob, MetadataDb.getBlob, hrow, Except.map]⟩

lemma agrees_createContainer (h : Agrees s l) (c : ContainerKey) (pa : PublicAccessLevel)
    (m : Metadata) : Agrees (Shelf.createContainer amb c pa m s).2 l := by
  have hrows : ∀ r, (MetadataDb.guarded amb.dbFault (MetadataDb.insertContainer c r) s.db).2.blobs =
      s.db.blobs ∧ (MetadataDb.guarded amb.dbFault (MetadataDb.insertContainer c r)
        s.db).2.stagedBlocks = s.db.stagedBlocks := by
    intro r
    cases amb.dbFault with
    | some message => exact ⟨rfl, rfl⟩
    | none =>
      unfold MetadataDb.guarded MetadataDb.insertContainer
      split_ifs <;> exact ⟨rfl, rfl⟩
  unfold Shelf.createContainer
  specialize hrows ⟨pa.asDbStr, m, amb.etag, amb.lastModified⟩
  split
  · exact h
  · exact h
  · next db heq =>
    rw [heq] at hrows
    exact h.of_rows (fun k => by rw [hrows.1]) hrows.2

lemma agrees_putBlob (h : Agrees s l) (hfault : amb.dbFault = none) {k : BlobKey}
    {body : ByteStream} {ct hd : Option String} {m : Metadata}
    (hmd5 : (Shelf.putBlob B amb k body ct hd m s).1 ≠ .error (.new .md5Mismatch)) :
    (∀ e, (Shelf.putBlob B amb k body ct hd m s).1 = .error e →
      Agrees (Shelf.putBlob B amb k body ct hd m s).2 l) ∧
    ∀ p, (Shelf.putBlob B amb k body ct hd m s).1 = .ok p →
      Agrees (Shelf.putBlob B amb k body ct hd m s).2
        { l with content := Function.update l.content k (some body.bytes) } := by
  unfold Shelf.putBlob at hmd5 ⊢
  cases hc : Shelf.container k.containerKey s.db with
  | error e => exact ⟨fun _ _ => h, fun p hp => by cases hp⟩
  | ok row =>
    cases hbody : body.collect with
    | error e => exact ⟨fun _ _ => h, fun p hp => by cases hp⟩
    | ok bytes =>
      simp only [hc, hbody] at hmd5
      by_cases hmis : hd.isSome ∧ hd ≠ Shelf.digest B bytes
      · rw [if_pos hmis] at hmd5
        exact absurd rfl hmd5
      · dsimp only
        rw [if_neg hmis, ByteStream.bytes_of_collect hbody]
        have hup := MetadataDb.upsertBlob_of_container (isSome_of_container hc)
          (Shelf.upsertFor B amb k bytes ct (Shelf.digest B bytes) m)
        obtain ⟨hself, hne, hstaged⟩ := lookup_upsertBlob hup
        obtain ⟨⟨p, hp⟩, hagrees⟩ := agrees_record h hfault hup
          ⟨hself, hne, fun b hb => hstaged ▸ hb⟩
        refine ⟨fun e he => ?_, fun _ _ => hagrees⟩
        rw [hp] at he
        cases he

lemma agrees_putBlock (h : Agrees s l) (hfault : amb.dbFault = none) (b : StagedBlockKey)
    (body : ByteStream) :
    (∀ e, (Shelf.putBlock B amb b body s).1 = .error e →
      Agrees (Shelf.putBlock B amb b body s).2 l) ∧
    ∀ p, (Shelf.putBlock B amb b body s).1 = .ok p → Agrees (Shelf.putBlock B amb b body s).2
      { l with staged := Function.update l.staged b (some body.bytes) } := by
  unfold Shelf.putBlock
  cases hc : Shelf.container b.blob.containerKey s.db with
  | error e => exact ⟨fun _ _ => h, fun p hp => by cases hp⟩
  | ok row =>
    cases hbody : body.collect with
    | error e => exact ⟨fun _ _ => h, fun p hp => by cases hp⟩
    | ok bytes =>
      simp only [hfault, MetadataDb.guarded, MetadataDb.stageBlock]
      refine ⟨fun e he => (by cases he), fun p _ => ⟨h.length, h.content, fun b' hb' => ?_⟩⟩
      rw [ByteStream.bytes_of_collect hbody]
      by_cases hb : b' = b
      · subst hb
        simp
      · have hold := ((Table.isSome_lookup_insert b b' _ s.db.stagedBlocks).mp hb').resolve_left hb
        simp only [Function.update_of_ne hb]
        exact h.staged b' hold

lemma staged_of_resolved {k : BlobKey} {db : MetadataDb} {refs : List BlockRef}
    {resolved : List CommittedBlock} (h : refs.mapM (Shelf.resolveRef k db) = some resolved)
    {ref : BlockRef} (href : ref ∈ refs) : (db.stagedBlocks.lookup ⟨k, ref.blockId⟩).isSome := by
  induction refs generalizing resolved with
  | nil => cases href
  | cons r refs ih =>
    rw [List.mapM_cons] at h
    cases hr : Shelf.resolveRef k db r with
    | none => simp [hr] at h
    | some cb =>
      cases hrest : refs.mapM (Shelf.resolveRef k db) with
      | none => simp [hr, hrest] at h
      | some rest =>
        rcases List.mem_cons.mp href with rfl | href
        · unfold Shelf.resolveRef at hr
          obtain ⟨rec, hrec, -⟩ := Option.bind_eq_some_iff.mp hr
          exact Option.isSome_iff_exists.mpr ⟨rec, hrec⟩
        · exact ih hrest href

lemma agrees_putBlockList (h : Agrees s l) (hfault : amb.dbFault = none) (k : BlobKey)
    (refs : List BlockRef) (ct : Option String) (m : Metadata) :
    (∀ e, (Shelf.putBlockList B amb k refs ct m s).1 = .error e →
      Agrees (Shelf.putBlockList B amb k refs ct m s).2 l) ∧
    ∀ p, (Shelf.putBlockList B amb k refs ct m s).1 = .ok p →
      Agrees (Shelf.putBlockList B amb k refs ct m s).2 { l with
        content := Function.update l.content k
          (some (refs.map fun ref => (l.staged ⟨k, ref.blockId⟩).getD []).flatten) } := by
  unfold Shelf.putBlockList
  cases hc : Shelf.container k.containerKey s.db with
  | error e => exact ⟨fun _ _ => h, fun p hp => by cases hp⟩
  | ok row =>
    cases hrefs : refs.mapM (Shelf.resolveRef k s.db) with
    | none => exact ⟨fun _ _ => h, fun p hp => by cases hp⟩
    | some resolved =>
      have hbytes : s.assemble k refs =
          (refs.map fun ref => (l.staged ⟨k, ref.blockId⟩).getD []).flatten := by
        refine congrArg List.flatten (List.map_congr_left fun ref href => ?_)
        rw [(h.staged _ (staged_of_resolved hrefs href)).1]
      rw [← hbytes]
      have hup := MetadataDb.commitBlockList_of_container (isSome_of_container hc) resolved
        (Shelf.upsertFor B amb k (s.assemble k refs) ct
          (some ((Shelf.digest B (s.assemble k refs)).getD "")) m)
      obtain ⟨⟨p, hp⟩, hagrees⟩ := agrees_record h hfault hup (lookup_commitBlockList hup)
      refine ⟨fun e he => ?_, fun _ _ => hagrees⟩
      rw [hp] at he
      cases he

/-- What a successful deletion leaves. -/
lemma Agrees.dropped (h : Agrees s l) {pk : BlobKey → Prop} {pb : StagedBlockKey → Prop}
    [DecidablePred pk] [DecidablePred pb] {db : MetadataDb} (hdb : Drops pk pb s.db db) :
    Agrees ⟨db, fun k => if pk k then none else s.content k,
        fun b => if pb b then none else s.staged b⟩
      { l with content := fun k => if pk k then none else l.content k } where
  length k := by
    dsimp only
    rw [hdb.blob]
    split_ifs
    · rfl
    · exact h.length k
  content := by rw [h.content]
  staged b hb := by
    dsimp only at hb ⊢
    rw [hdb.staged] at hb
    split_ifs at hb ⊢ with hpb
    · cases hb
    · exact h.staged b hb

lemma agrees_deleteBlob (h : Agrees s l) (amb : Ambient) (k : BlobKey) :
    (∀ e, (Shelf.deleteBlob amb k s).1 = .error e → Agrees (Shelf.deleteBlob amb k s).2 l) ∧
    ∀ p, (Shelf.deleteBlob amb k s).1 = .ok p → Agrees (Shelf.deleteBlob amb k s).2
      { l with content := Function.update l.content k none } := by
  have hnote : Function.update l.content k none = fun k' => if k' = k then none else l.content k' :=
    funext fun k' => by simp [Function.update_apply]
  rw [hnote]
  unfold Shelf.deleteBlob
  cases hb : Shelf.blob k s.db with
  | error e => exact ⟨fun _ _ => h, fun p hp => by cases hp⟩
  | ok row =>
    cases amb.dbFault with
    | some message => exact ⟨fun _ _ => h, fun p hp => by cases hp⟩
    | none =>
      exact ⟨fun e he => (by cases he), fun _ _ => h.dropped (drops_deleteBlob k s.db)⟩

lemma agrees_deleteContainer (h : Agrees s l) (amb : Ambient) (c : ContainerKey) :
    (∀ e, (Shelf.deleteContainer amb c s).1 = .error e →
      Agrees (Shelf.deleteContainer amb c s).2 l) ∧
    ∀ p, (Shelf.deleteContainer amb c s).1 = .ok p → Agrees (Shelf.deleteContainer amb c s).2
      { l with content := fun k => if k.containerKey = c then none else l.content k } := by
  unfold Shelf.deleteContainer
  cases hc : Shelf.container c s.db with
  | error e => exact ⟨fun _ _ => h, fun p hp => by cases hp⟩
  | ok row =>
    cases amb.dbFault with
    | some message => exact ⟨fun _ _ => h, fun p hp => by cases hp⟩
    | none =>
      exact ⟨fun e he => (by cases he), fun _ _ => h.dropped (drops_deleteContainer c s.db)⟩

/-- One call keeps the ledger right. -/
lemma agrees_call (h : Agrees s l) {call : Call} (hfault : call.isWrite = true → amb.dbFault = none)
    (hmd5 : ¬ Mismatch call (Shelf.call B amb call s).1) :
    Agrees (Shelf.call B amb call s).2 (l.enter (call, (Shelf.call B amb call s).1)) := by
  cases call with
  | createContainer a c pa m =>
    exact agrees_replying (fun _ _ => agrees_createContainer h _ pa m)
      fun _ _ => agrees_createContainer h _ pa m
  | deleteContainer a c =>
    have hdel := agrees_deleteContainer h amb ⟨a, c⟩
    exact agrees_replying hdel.1 hdel.2
  | getContainerProperties a c => exact agrees_look h rfl
  | setContainerMetadata a c m =>
    have hup := agrees_update h amb (Shelf.container ⟨a, c⟩)
      (MetadataDb.setContainerMetadata ⟨a, c⟩ m amb.etag amb.lastModified) rfl
      (h.of_rows (fun _ => rfl) rfl)
    exact agrees_replying (fun _ _ => hup) fun _ _ => hup
  | setContainerAcl a c pa =>
    have hup := agrees_update h amb (Shelf.container ⟨a, c⟩)
      (MetadataDb.setContainerAcl ⟨a, c⟩ pa amb.etag amb.lastModified) rfl
      (h.of_rows (fun _ => rfl) rfl)
    exact agrees_replying (fun _ _ => hup) fun _ _ => hup
  | listContainers a np marker n => exact agrees_look h rfl
  | listBlobs a c np d marker n => exact agrees_look h rfl
  | putBlob a c b body ct hd m =>
    have hput := agrees_putBlob (B := B) h (hfault rfl) (k := ⟨a, c, b⟩) (m := m)
      fun hans => hmd5 ⟨rfl, by
        rw [Shelf.call, Shelf.replying, hans]
        rfl⟩
    exact agrees_replying hput.1 hput.2
  | getBlob a c b range => exact agrees_look h rfl
  | getBlobProperties a c b => exact agrees_look h rfl
  | setBlobProperties a c b patch =>
    have hup := agrees_update h amb (Shelf.blob ⟨a, c, b⟩)
      (MetadataDb.setBlobProperties ⟨a, c, b⟩ patch amb.etag amb.lastModified) rfl
      (h.modify_blob _ fun _ => rfl)
    exact agrees_replying (fun _ _ => hup) fun _ _ => hup
  | setBlobMetadata a c b m =>
    have hup := agrees_update h amb (Shelf.blob ⟨a, c, b⟩)
      (MetadataDb.setBlobMetadata ⟨a, c, b⟩ m amb.etag amb.lastModified) rfl
      (h.modify_blob _ fun _ => rfl)
    exact agrees_replying (fun _ _ => hup) fun _ _ => hup
  | deleteBlob a c b =>
    have hdel := agrees_deleteBlob h amb ⟨a, c, b⟩
    exact agrees_replying hdel.1 hdel.2
  | putBlock a c b id body =>
    have hput := agrees_putBlock (B := B) h (hfault rfl) ⟨⟨a, c, b⟩, id⟩ body
    exact agrees_replying hput.1 hput.2
  | putBlockList a c b refs ct m =>
    have hput := agrees_putBlockList (B := B) h (hfault rfl) ⟨a, c, b⟩ refs ct m
    exact agrees_replying hput.1 hput.2
  | getBlockList a c b => exact agrees_look h rfl

/-! ### Runs -/

/-- The calls of a run with their answers. -/
def events (B : FsBackend) (w : World) (reqs : List Request) :
    List (Call × Except AzureError Reply) :=
  (reqs.map Request.call).zip (B.answers w reqs)

lemma agrees_serve (h : Agrees s l) {reqs : List Request}
    (hfault : ∀ req ∈ reqs, req.call.isWrite = true → req.amb.dbFault = none)
    (hmd5 : ∀ e ∈ (reqs.map Request.call).zip (Shelf.answers B s reqs), ¬ Mismatch e.1 e.2) :
    Agrees (Shelf.serve B s reqs)
      (l.after ((reqs.map Request.call).zip (Shelf.answers B s reqs))) := by
  induction reqs generalizing s l with
  | nil => exact h
  | cons req reqs ih =>
    refine ih (agrees_call h (hfault req List.mem_cons_self) (hmd5 _ List.mem_cons_self))
      (fun r hr => hfault r (List.mem_cons_of_mem _ hr)) fun e he => ?_
    exact hmd5 e (List.mem_cons_of_mem _ he)

lemma Fresh.agrees {w : World} (h : Fresh B w) : Agrees (B.shelf w) .empty := by
  obtain ⟨accounts, hdb⟩ := h.db
  refine ⟨fun k => ?_, funext fun k => ?_, fun b hb => ?_⟩
  · simp [FsBackend.shelf, hdb, MetadataDb.empty, Ledger.empty]
  · simp [FsBackend.shelf, hdb, MetadataDb.empty, Ledger.empty]
  · simp [FsBackend.shelf, hdb, MetadataDb.empty] at hb

/-- The whole of a blob, on a shelf that agrees with the ledger. -/
lemma Agrees.getBlob (h : Agrees s l) (k : BlobKey) :
    match l.content k with
    | none       => Shelf.getBlob k none s = .error (.new .blobNotFound)
    | some bytes => ∃ props : BlobProps, props.contentLength = bytes.length ∧
        Shelf.getBlob k none s = .ok ⟨props, bytes.length, none, bytes⟩ := by
  have hlen := h.length k
  unfold Shelf.getBlob Shelf.blob MetadataDb.getBlob
  cases hk : l.content k with
  | none =>
    rw [hk] at hlen
    rw [Option.map_eq_none_iff.mp hlen]
  | some bytes =>
    rw [hk] at hlen
    obtain ⟨row, hrow, hlength⟩ := Option.map_eq_some_iff.mp hlen
    refine ⟨blobRowToProps row, hlength, ?_⟩
    simp [hrow, h.content, hk, FsBackend.resolveRange, FsBackend.readRange, hlength]

/-! ### Calls on other blobs -/

/-- The calls that may change what `get_blob` says of `k`. -/
def Call.Concerns (k : BlobKey) : Call → Prop
  | .putBlob a c b _ _ _ _     => k = ⟨a, c, b⟩
  | .putBlockList a c b _ _ _  => k = ⟨a, c, b⟩
  | .setBlobProperties a c b _ => k = ⟨a, c, b⟩
  | .setBlobMetadata a c b _   => k = ⟨a, c, b⟩
  | .deleteBlob a c b          => k = ⟨a, c, b⟩
  | .deleteContainer a c       => k.containerKey = ⟨a, c⟩
  | _                          => False

/-- The row and the bytes of a blob are as before. -/
structure SameBlob (k : BlobKey) (s s' : Shelf) : Prop where
  row : s'.db.blobs.lookup k = s.db.blobs.lookup k
  content : s'.content k = s.content k

lemma SameBlob.refl (k : BlobKey) (s : Shelf) : SameBlob k s s := ⟨rfl, rfl⟩

lemma SameBlob.getBlob {k : BlobKey} (h : SameBlob k s s') (range : Option (ℕ × ℕ)) :
    Shelf.getBlob k range s' = Shelf.getBlob k range s := by
  unfold Shelf.getBlob Shelf.blob MetadataDb.getBlob
  rw [h.row, h.content]

lemma sameBlob_update {k : BlobKey} {ρ : Type} (row : MetadataDb → Except AzureError ρ)
    (stmt : MetadataDb → Except SqlError Unit × MetadataDb)
    (hstmt : (stmt s.db).2.blobs.lookup k = s.db.blobs.lookup k) :
    SameBlob k s (Shelf.update amb row stmt s).2 := by
  unfold Shelf.update
  cases row s.db with
  | error e => exact .refl k s
  | ok r =>
    cases amb.dbFault with
    | some message => exact .refl k s
    | none =>
      unfold MetadataDb.guarded
      rcases hst : stmt s.db with ⟨e | ⟨⟩, db⟩
      · exact .refl k s
      · rw [hst] at hstmt
        exact ⟨hstmt, rfl⟩

lemma sameBlob_overwrite {k k' : BlobKey} (hk : k ≠ k') (bytes : Option Bytes) :
    SameBlob k s (s.overwrite k' bytes) := ⟨rfl, if_neg hk⟩

lemma sameBlob_record {k k' : BlobKey} (hk : k ≠ k') {bytes : Bytes}
    {stmt : MetadataDb → Except SqlError Unit × MetadataDb}
    (hstmt : (stmt s.db).2.blobs.lookup k = s.db.blobs.lookup k) :
    SameBlob k s (Shelf.record amb k' bytes stmt s).2 := by
  unfold Shelf.record
  cases amb.dbFault with
  | some message => exact sameBlob_overwrite hk _
  | none =>
    unfold MetadataDb.guarded
    rcases hst : stmt s.db with ⟨e | ⟨⟩, db⟩
    · exact sameBlob_overwrite hk _
    · rw [hst] at hstmt
      exact ⟨hstmt, Function.update_of_ne hk _ _⟩

lemma lookup_upsertBlob_ne {k k' : BlobKey} (hk : k ≠ k') (u : BlobUpsert) (db : MetadataDb) :
    (MetadataDb.upsertBlob k' u db).2.blobs.lookup k = db.blobs.lookup k := by
  unfold MetadataDb.upsertBlob
  split_ifs
  · rfl
  · exact AList.lookup_insert_ne hk

lemma lookup_commitBlockList_ne {k k' : BlobKey} (hk : k ≠ k') (resolved : List CommittedBlock)
    (u : BlobUpsert) (db : MetadataDb) :
    (MetadataDb.commitBlockList k' resolved u db).2.blobs.lookup k = db.blobs.lookup k := by
  have h := lookup_upsertBlob_ne hk u db
  unfold MetadataDb.commitBlockList
  rcases hup : MetadataDb.upsertBlob k' u db with ⟨e | ⟨⟩, db'⟩
  · rfl
  · rw [hup] at h
    exact h

/-- A call that does not concern a blob leaves it alone, whether it succeeds or fails. -/
lemma sameBlob_call {k : BlobKey} {call : Call} (hk : ¬ call.Concerns k) (s : Shelf) :
    SameBlob k s (Shelf.call B amb call s).2 := by
  cases call with
  | createContainer a c pa m =>
    change SameBlob k s (Shelf.createContainer amb ⟨a, c⟩ pa m s).2
    have hrows : ∀ r, (MetadataDb.guarded amb.dbFault (MetadataDb.insertContainer ⟨a, c⟩ r)
        s.db).2.blobs = s.db.blobs := by
      intro r
      cases amb.dbFault with
      | some message => rfl
      | none =>
        unfold MetadataDb.guarded MetadataDb.insertContainer
        split_ifs <;> rfl
    unfold Shelf.createContainer
    specialize hrows ⟨pa.asDbStr, m, amb.etag, amb.lastModified⟩
    split
    · exact .refl k s
    · exact .refl k s
    · next db heq =>
      rw [heq] at hrows
      exact ⟨by rw [hrows], rfl⟩
  | deleteContainer a c =>
    change SameBlob k s (Shelf.deleteContainer amb ⟨a, c⟩ s).2
    unfold Shelf.deleteContainer
    cases Shelf.container ⟨a, c⟩ s.db with
    | error e => exact .refl k s
    | ok row =>
      cases amb.dbFault with
      | some message => exact .refl k s
      | none => exact ⟨((drops_deleteContainer ⟨a, c⟩ s.db).blob k).trans (if_neg hk), if_neg hk⟩
  | setContainerMetadata a c m =>
    exact sameBlob_update (Shelf.container ⟨a, c⟩) (MetadataDb.setContainerMetadata ⟨a, c⟩ m _ _)
      rfl
  | setContainerAcl a c pa =>
    exact sameBlob_update (Shelf.container ⟨a, c⟩) (MetadataDb.setContainerAcl ⟨a, c⟩ pa _ _)
      rfl
  | putBlob a c b body ct hd m =>
    change SameBlob k s (Shelf.putBlob B amb ⟨a, c, b⟩ body ct hd m s).2
    unfold Shelf.putBlob
    split
    · exact .refl k s
    · exact .refl k s
    · next bytes _ _ =>
      by_cases hmd5 : hd.isSome ∧ hd ≠ Shelf.digest B bytes
      · rw [if_pos hmd5]
        exact sameBlob_overwrite hk _
      · rw [if_neg hmd5]
        exact sameBlob_record hk (lookup_upsertBlob_ne hk _ _)
  | setBlobProperties a c b patch =>
    exact sameBlob_update (Shelf.blob ⟨a, c, b⟩) (MetadataDb.setBlobProperties ⟨a, c, b⟩ patch _ _)
      (Table.lookup_modify_ne hk _ _)
  | setBlobMetadata a c b m =>
    exact sameBlob_update (Shelf.blob ⟨a, c, b⟩) (MetadataDb.setBlobMetadata ⟨a, c, b⟩ m _ _)
      (Table.lookup_modify_ne hk _ _)
  | deleteBlob a c b =>
    change SameBlob k s (Shelf.deleteBlob amb ⟨a, c, b⟩ s).2
    unfold Shelf.deleteBlob
    cases Shelf.blob ⟨a, c, b⟩ s.db with
    | error e => exact .refl k s
    | ok row =>
      cases amb.dbFault with
      | some message => exact .refl k s
      | none => exact ⟨((drops_deleteBlob ⟨a, c, b⟩ s.db).blob k).trans (if_neg hk), if_neg hk⟩
  | putBlock a c b id body =>
    change SameBlob k s (Shelf.putBlock B amb ⟨⟨a, c, b⟩, id⟩ body s).2
    unfold Shelf.putBlock
    split
    · exact .refl k s
    · exact .refl k s
    · cases amb.dbFault <;> exact ⟨rfl, rfl⟩
  | putBlockList a c b refs ct m =>
    change SameBlob k s (Shelf.putBlockList B amb ⟨a, c, b⟩ refs ct m s).2
    unfold Shelf.putBlockList
    split
    · exact .refl k s
    · exact .refl k s
    · exact sameBlob_record hk (lookup_commitBlockList_ne hk _ _ _)
  | _ => exact .refl k s

/-! ### The store and the ledger -/

/-- Reading a blob gives the bytes of its last successful write since it was last deleted, and
their number; a call that does not concern the blob changes nothing of it. -/
theorem readBlob_eq_ledger {w₀ : World} (hfresh : Fresh B w₀) (reqs : List Request)
    (hord : ∀ req ∈ reqs, req.call.Ordinary)
    (hfault : ∀ req ∈ reqs, req.call.isWrite = true → req.amb.dbFault = none)
    (hmd5 : ∀ e ∈ events B w₀ reqs, ¬ Mismatch e.1 e.2)
    (k : BlobKey) (hk : k.containerKey.Ordinary) :
    (∀ bytes, (Ledger.empty.after (events B w₀ reqs)).content k = some bytes →
      ∃ props : BlobProps, props.contentLength = bytes.length ∧
        B.readBlob k none (B.serve w₀ reqs) = .ok ⟨props, bytes.length, none, bytes⟩) ∧
    ((Ledger.empty.after (events B w₀ reqs)).content k = none →
      B.readBlob k none (B.serve w₀ reqs) = .error (.new .blobNotFound)) ∧
    ∀ req : Request, req.call.Ordinary → ¬ req.call.Concerns k → ∀ range,
      B.readBlob k range (B.serve w₀ (reqs ++ [req])) = B.readBlob k range (B.serve w₀ reqs) := by
  have hsound := hfresh.sound.serve hord
  obtain ⟨hshelf, hanswers⟩ := serve_shelf hfresh.sound hord
  unfold events at hmd5 ⊢
  rw [hanswers] at hmd5 ⊢
  have hagrees := agrees_serve hfresh.agrees hfault hmd5
  rw [← hshelf] at hagrees
  have hread := hagrees.getBlob k
  rw [← readBlob_eq hsound hk] at hread
  refine ⟨fun bytes hbytes => ?_, fun hnone => ?_, fun req hreq hconcerns range => ?_⟩
  · rwa [hbytes] at hread
  · rwa [hnone] at hread
  · have hreqs : ∀ r ∈ reqs ++ [req], r.call.Ordinary := by
      intro r hr
      rcases List.mem_append.mp hr with hr | hr
      · exact hord r hr
      · rw [List.mem_singleton.mp hr]
        exact hreq
    rw [readBlob_eq (hfresh.sound.serve hreqs) hk, readBlob_eq hsound hk, serve_append,
      FsBackend.serve, FsBackend.serve, (call_refines hsound req.amb hreq).shelf]
    exact (sameBlob_call hconcerns _).getBlob range

/-- A blob written twice. -/
def sampleWrites : List Request :=
  [⟨sampleAmb 1, .createContainer "acc" "c" .off ∅⟩,
    ⟨sampleAmb 2, .putBlob "acc" "c" "b" [.ok [1]] none none ∅⟩,
    ⟨sampleAmb 3, .putBlob "acc" "c" "b" [.ok [1], .ok [2]] none none ∅⟩]

theorem readBlob_sampleWrites : ∃ props : BlobProps, props.contentLength = 2 ∧
    sample.readBlob ⟨"acc", "c", "b"⟩ none
      (sample.serve (sample.fresh sampleAccounts) sampleWrites) = .ok ⟨props, 2, none, [1, 2]⟩ :=
  (readBlob_eq_ledger (sample.fresh_isFresh sampleAccounts) sampleWrites (by decide)
    (by simp [sampleWrites, sampleAmb]) (by decide +kernel) ⟨"acc", "c", "b"⟩ (by decide)).1
    [1, 2] (by decide +kernel)

end BlobStore
