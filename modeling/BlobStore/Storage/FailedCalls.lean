import BlobStore.Storage.Ledger

/-!
# Calls that fail

A call that fails for a reason of its own leaves no trace that later calls could find, with one
exception: `put_blob` compares the digest of a body after the body has replaced the file of the
blob, and removes that file when the digests differ. If the blob was there before, its row is left
without a file.
-/

namespace BlobStore

open Codec FileTree

variable {B : FsBackend} {s : Shelf} {amb : Ambient}

/-- A body with another digest than the one announced, for a blob that has a row and a file. -/
def Call.Clobbers (B : FsBackend) (s : Shelf) : Call → Prop
  | .putBlob a c b body _ h _ =>
    (∃ bytes, body.collect = .ok bytes ∧ h.isSome = true ∧ h ≠ Shelf.digest B bytes) ∧
      (s.content ⟨a, c, b⟩).isSome = true
  | _ => False

/-! ### One call on the shelf -/

lemma failed_replying {α β : Type} {op : Shelf.Op α} {f : α → β} {e : AzureError}
    (h : (Shelf.replying f op s).1 = .error e)
    (hop : ∀ e, (op s).1 = .error e → (op s).2 = s) : (Shelf.replying f op s).2 = s := by
  unfold Shelf.replying at h ⊢
  cases hans : (op s).1 with
  | error e' => exact hop e' hans
  | ok a =>
    rw [hans] at h
    cases h

lemma exists_blob {k : BlobKey} {db : MetadataDb} :
    (∃ row, Shelf.blob k db = .ok row) ↔ (db.blobs.lookup k).isSome = true := by
  unfold Shelf.blob MetadataDb.getBlob
  cases db.blobs.lookup k <;> simp

lemma failed_update {ρ : Type} {row : MetadataDb → Except AzureError ρ}
    {stmt : MetadataDb → Except SqlError Unit × MetadataDb} {db : MetadataDb}
    (hstmt : stmt s.db = (.ok (), db))
    (hrow : (∃ r, row s.db = .ok r) → ∃ r, row db = .ok r)
    (e : AzureError) (h : (Shelf.update amb row stmt s).1 = .error e) :
    (Shelf.update amb row stmt s).2 = s := by
  unfold Shelf.update at h ⊢
  cases hr : row s.db with
  | error e' => rfl
  | ok r' =>
    cases hfault : amb.dbFault with
    | some message => rfl
    | none =>
      obtain ⟨r, hdb⟩ := hrow ⟨r', hr⟩
      simp only [hr, hfault, MetadataDb.guarded, hstmt, hdb] at h
      cases h

lemma failed_createContainer (c : ContainerKey) (pa : PublicAccessLevel) (m : Metadata)
    (e : AzureError) (h : (Shelf.createContainer amb c pa m s).1 = .error e) :
    (Shelf.createContainer amb c pa m s).2 = s := by
  unfold Shelf.createContainer at h ⊢
  split at h
  · rfl
  · rfl
  · cases h

/-- With the container there and no fault, recording cannot fail. -/
lemma record_ok (hfault : amb.dbFault = none) {k : BlobKey} (bytes : Bytes)
    {stmt : MetadataDb → Except SqlError Unit × MetadataDb} {db : MetadataDb}
    (hstmt : stmt s.db = (.ok (), db)) (hrow : (db.blobs.lookup k).isSome = true) :
    ∃ props, (Shelf.record amb k bytes stmt s).1 = .ok props := by
  obtain ⟨row, hblob⟩ := exists_blob.mpr hrow
  unfold Shelf.record
  simp only [hfault, MetadataDb.guarded, hstmt, hblob]
  exact ⟨_, rfl⟩

/-- Removing the file of a blob that has none. -/
lemma overwrite_none {k : BlobKey} (hs : s.content k = none) : s.overwrite k none = s := by
  ext1
  · rfl
  · funext k'
    simp only [Shelf.overwrite, Option.bind_fun_none]
    split_ifs with hk
    · rw [hk, hs]
    · rfl
  · rfl

lemma failed_putBlob (hfault : amb.dbFault = none) {a c b : String} {body : ByteStream}
    {ct hd : Option String} {m : Metadata}
    (hremove : amb.removeFails (B.blobFile ⟨a, c, b⟩) = false)
    (hcond : ¬ (Call.putBlob a c b body ct hd m).Clobbers B s) (e : AzureError)
    (h : (Shelf.putBlob B amb ⟨a, c, b⟩ body ct hd m s).1 = .error e) :
    (Shelf.putBlob B amb ⟨a, c, b⟩ body ct hd m s).2 = s := by
  unfold Shelf.putBlob at h ⊢
  cases hc : Shelf.container (BlobKey.mk a c b).containerKey s.db with
  | error e => rfl
  | ok row =>
    cases hbody : body.collect with
    | error e => rfl
    | ok bytes =>
      simp only [hc, hbody] at h ⊢
      by_cases hmis : hd.isSome ∧ hd ≠ Shelf.digest B bytes
      · rw [if_pos hmis, hremove]
        refine overwrite_none ?_
        rw [← Option.not_isSome_iff_eq_none]
        exact fun hsome => hcond ⟨⟨bytes, hbody, hmis⟩, hsome⟩
      · rw [if_neg hmis] at h
        have hup := MetadataDb.upsertBlob_of_container (isSome_of_container hc)
          (Shelf.upsertFor B amb ⟨a, c, b⟩ bytes ct (Shelf.digest B bytes) m)
        obtain ⟨props, hok⟩ := record_ok hfault bytes hup
          ((Table.isSome_lookup_insert _ _ _ _).mpr (.inl rfl))
        rw [hok] at h
        cases h

lemma failed_putBlock (hfault : amb.dbFault = none) (b : StagedBlockKey) (body : ByteStream)
    (e : AzureError) (h : (Shelf.putBlock B amb b body s).1 = .error e) :
    (Shelf.putBlock B amb b body s).2 = s := by
  unfold Shelf.putBlock at h ⊢
  cases hc : Shelf.container b.blob.containerKey s.db with
  | error e => rfl
  | ok row =>
    cases hbody : body.collect with
    | error e => rfl
    | ok bytes =>
      simp only [hc, hbody, hfault, MetadataDb.guarded, MetadataDb.stageBlock] at h
      cases h

lemma failed_putBlockList (hfault : amb.dbFault = none) (k : BlobKey) (refs : List BlockRef)
    (ct : Option String) (m : Metadata) (e : AzureError)
    (h : (Shelf.putBlockList B amb k refs ct m s).1 = .error e) :
    (Shelf.putBlockList B amb k refs ct m s).2 = s := by
  unfold Shelf.putBlockList at h ⊢
  cases hc : Shelf.container k.containerKey s.db with
  | error e => rfl
  | ok row =>
    cases hrefs : refs.mapM (Shelf.resolveRef k s.db) with
    | none => rfl
    | some resolved =>
      simp only [hc, hrefs] at h
      have hup := MetadataDb.commitBlockList_of_container (isSome_of_container hc) resolved
        (Shelf.upsertFor B amb k (s.assemble k refs) ct
          (some ((Shelf.digest B (s.assemble k refs)).getD "")) m)
      obtain ⟨props, hok⟩ := record_ok hfault (s.assemble k refs) hup
        ((Table.isSome_lookup_insert _ _ _ _).mpr (.inl rfl))
      rw [hok] at h
      cases h

lemma failed_deleteBlob (k : BlobKey) (e : AzureError)
    (h : (Shelf.deleteBlob amb k s).1 = .error e) : (Shelf.deleteBlob amb k s).2 = s := by
  unfold Shelf.deleteBlob at h ⊢
  cases hb : Shelf.blob k s.db with
  | error e => rfl
  | ok row =>
    cases hfault : amb.dbFault with
    | some message => rfl
    | none =>
      simp only [hb, hfault] at h
      cases h

lemma failed_deleteContainer (c : ContainerKey) (e : AzureError)
    (h : (Shelf.deleteContainer amb c s).1 = .error e) :
    (Shelf.deleteContainer amb c s).2 = s := by
  unfold Shelf.deleteContainer at h ⊢
  cases hc : Shelf.container c s.db with
  | error e => rfl
  | ok row =>
    cases hfault : amb.dbFault with
    | some message => rfl
    | none =>
      simp only [hc, hfault] at h
      cases h

/-- A call that fails leaves the shelf as it was, unless it clobbers a blob. -/
lemma failed_call (hfault : amb.dbFault = none) (hremove : ∀ p, amb.removeFails p = false)
    {call : Call} (hcond : ¬ call.Clobbers B s) {e : AzureError}
    (h : (Shelf.call B amb call s).1 = .error e) : (Shelf.call B amb call s).2 = s := by
  cases call with
  | createContainer a c pa m => exact failed_replying h (failed_createContainer _ pa m)
  | deleteContainer a c => exact failed_replying h (failed_deleteContainer _)
  | setContainerMetadata a c m =>
    refine failed_replying h fun e he => failed_replying (f := containerRowToProps) he ?_
    exact failed_update rfl fun hrow => exists_container.mpr
      ((Table.isSome_lookup_modify _ _ _ _).trans (exists_container.mp hrow))
  | setContainerAcl a c pa =>
    refine failed_replying h fun e he => failed_replying (f := containerRowToProps) he ?_
    exact failed_update rfl fun hrow => exists_container.mpr
      ((Table.isSome_lookup_modify _ _ _ _).trans (exists_container.mp hrow))
  | putBlob a c b body ct hd m =>
    exact failed_replying h (failed_putBlob hfault (hremove _) hcond)
  | setBlobProperties a c b patch =>
    refine failed_replying h fun e he => failed_replying (f := blobRowToProps) he ?_
    exact failed_update rfl fun hrow => exists_blob.mpr
      ((Table.isSome_lookup_modify _ _ _ _).trans (exists_blob.mp hrow))
  | setBlobMetadata a c b m =>
    refine failed_replying h fun e he => failed_replying (f := blobRowToProps) he ?_
    exact failed_update rfl fun hrow => exists_blob.mpr
      ((Table.isSome_lookup_modify _ _ _ _).trans (exists_blob.mp hrow))
  | deleteBlob a c b => exact failed_replying h (failed_deleteBlob _)
  | putBlock a c b id body => exact failed_replying h (failed_putBlock hfault _ body)
  | putBlockList a c b refs ct m => exact failed_replying h (failed_putBlockList hfault _ refs ct m)
  | _ => rfl

/-! ### Runs -/

/-- The answer of a clobbering call, and what it leaves behind the row. -/
lemma clobbering_call {a c b : String} {body : ByteStream} {ct hd : Option String} {m : Metadata}
    (hcond : (Call.putBlob a c b body ct hd m).Clobbers B s)
    (hc : (s.db.containers.lookup ⟨a, c⟩).isSome = true)
    (hremove : amb.removeFails (B.blobFile ⟨a, c, b⟩) = false) :
    (Shelf.call B amb (.putBlob a c b body ct hd m) s) =
      (.error (.new .md5Mismatch), s.overwrite ⟨a, c, b⟩ none) := by
  obtain ⟨⟨bytes, hbody, hmis⟩, -⟩ := hcond
  obtain ⟨row, hrow⟩ := exists_container.mpr hc
  have hput : Shelf.putBlob B amb ⟨a, c, b⟩ body ct hd m s =
      (.error (.new .md5Mismatch), s.overwrite ⟨a, c, b⟩ none) := by
    unfold Shelf.putBlob
    simp only [BlobKey.containerKey_mk, hrow, hbody, hremove]
    exact if_pos hmis
  rw [Shelf.call, Shelf.replying, hput]
  rfl

/-- A blob that has a file can be read, and cannot once the file is removed. -/
lemma getBlob_overwrite_none {k : BlobKey} (hrow : (s.db.blobs.lookup k).isSome = true)
    (hs : (s.content k).isSome = true) :
    (∃ p, Shelf.getBlob k none s = .ok p) ∧
      Shelf.getBlob k none (s.overwrite k none) = .error (ioError .notFound) := by
  obtain ⟨row, hrow⟩ := exists_blob.mpr hrow
  obtain ⟨bytes, hbytes⟩ := Option.isSome_iff_exists.mp hs
  have hgone : (s.overwrite k none).content k = none := by simp [Shelf.overwrite]
  have hdb : (s.overwrite k none).db = s.db := rfl
  unfold Shelf.getBlob
  rw [hdb, hrow, hgone, hbytes]
  exact ⟨⟨_, rfl⟩, rfl⟩

/-- After a call that failed, all later calls are answered as if it had not been made, exactly if
it does not clobber a blob. -/
theorem failed_call_unobservable_iff {w : World} (hw : Reachable B w) {amb : Ambient}
    (hfault : amb.dbFault = none) (hremove : ∀ p, amb.removeFails p = false) {call : Call}
    (hcall : call.Ordinary) {e : AzureError}
    (herror : ((B.call amb call).run w).1 = .error e) :
    (∀ reqs : List Request, (∀ req ∈ reqs, req.call.Ordinary) →
      B.answers ((B.call amb call).run w).2 reqs = B.answers w reqs) ↔
      ¬ call.Clobbers B (B.shelf w) := by
  have hsound := hw.sound
  have hstep := call_refines hsound amb hcall
  have hsound' := hsound.call amb hcall
  constructor
  · intro hsame hcond
    cases call with
    | putBlob a c b body ct hd m =>
      have hrow : (w.db.blobs.lookup ⟨a, c, b⟩).isSome = true := by
        obtain ⟨bytes, hbytes⟩ := Option.isSome_iff_exists.mp hcond.2
        obtain ⟨row, hrow, -⟩ := Option.bind_eq_some_iff.mp hbytes
        exact Option.isSome_iff_exists.mpr ⟨row, hrow⟩
      have hc : (w.db.containers.lookup ⟨a, c⟩).isSome = true := hsound.owned.blob ⟨a, c, b⟩ hrow
      have hreqs : ∀ req ∈ [(⟨amb, .getBlob a c b none⟩ : Request)], req.call.Ordinary := by
        intro req hreq
        rw [List.mem_singleton.mp hreq]
        exact hcall
      have hread := hsame _ hreqs
      rw [(serve_shelf hsound' hreqs).2, (serve_shelf hsound hreqs).2, hstep.shelf,
        clobbering_call hcond hc (hremove _)] at hread
      obtain ⟨⟨p, hbefore⟩, hafter⟩ := getBlob_overwrite_none (s := B.shelf w) (k := ⟨a, c, b⟩)
        hrow hcond.2
      have hfirst : (Shelf.getBlob ⟨a, c, b⟩ none ((B.shelf w).overwrite ⟨a, c, b⟩ none)).map
          Reply.payload = (Shelf.getBlob ⟨a, c, b⟩ none (B.shelf w)).map Reply.payload :=
        (List.cons.inj hread).1
      rw [hbefore, hafter] at hfirst
      cases hfirst
    | _ => cases hcond
  · intro hcond reqs hreqs
    rw [(serve_shelf hsound' hreqs).2, (serve_shelf hsound hreqs).2, hstep.shelf]
    rw [hstep.answer] at herror
    rw [failed_call hfault hremove hcond herror]

/-- A blob of one byte. -/
def sampleBlob : List Request :=
  [⟨sampleAmb 1, .createContainer "acc" "c" .off ∅⟩,
    ⟨sampleAmb 2, .putBlob "acc" "c" "b" [.ok [1]] none none ∅⟩]

/-- An overwriting body that breaks off after one chunk. -/
theorem failed_call_broken_body :
    sample.answers (sample.serve (sample.fresh sampleAccounts) (sampleBlob ++
        [⟨sampleAmb 3, .putBlob "acc" "c" "b" [.ok [2], .error (.other "reset")] none none ∅⟩]))
      [⟨sampleAmb 4, .getBlob "acc" "c" "b" none⟩] =
    sample.answers (sample.serve (sample.fresh sampleAccounts) sampleBlob)
      [⟨sampleAmb 4, .getBlob "acc" "c" "b" none⟩] := by
  rw [serve_append]
  refine (failed_call_unobservable_iff
    ⟨_, sampleBlob, sample.fresh_isFresh sampleAccounts, by decide, rfl⟩ rfl (fun _ => rfl)
    (by decide) (e := ioError (.other "reset")) (by decide +kernel)).mpr ?_ _ (by decide)
  rintro ⟨⟨bytes, hbytes, -⟩, -⟩
  cases hbytes

/-- The digest of the first body, announced for another one. -/
def sampleMismatch : Call :=
  .putBlob "acc" "c" "b" [.ok [2]] none (some "VaVACK0bpYmqIQ0mKcHfQQ==") ∅

/-- The call fails, and the blob that was there is lost. -/
theorem failed_call_md5_mismatch :
    ((sample.call (sampleAmb 3) sampleMismatch).run
        (sample.serve (sample.fresh sampleAccounts) sampleBlob)).1 = .error (.new .md5Mismatch) ∧
      sample.answers ((sample.call (sampleAmb 3) sampleMismatch).run
          (sample.serve (sample.fresh sampleAccounts) sampleBlob)).2
        [⟨sampleAmb 4, .getBlob "acc" "c" "b" none⟩] ≠
      sample.answers (sample.serve (sample.fresh sampleAccounts) sampleBlob)
        [⟨sampleAmb 4, .getBlob "acc" "c" "b" none⟩] := by
  decide +kernel

end BlobStore
