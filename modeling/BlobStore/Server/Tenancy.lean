import BlobStore.Server.Startup
import BlobStore.Storage.Concurrent.Traced

/-!
# Rows belong to accounts

A container refers to an account and a blob to a container, and the database checks both. Nothing
checks the rows of blocks; but `put_block` looks the container up before it writes one.
-/

namespace BlobStore

open Resumption Proc

/-- Every row is a row of an account that the database knows. -/
structure MetadataDb.InAccounts (db : MetadataDb) : Prop where
  container : ∀ c, (db.containers.lookup c).isSome = true →
    (db.accounts.lookup c.account).isSome = true
  blob : ∀ k, (db.blobs.lookup k).isSome = true → (db.accounts.lookup k.account).isSome = true
  staged : ∀ s, (db.stagedBlocks.lookup s).isSome = true →
    (db.accounts.lookup s.blob.account).isSome = true
  committed : ∀ k, (db.committedBlocks.lookup k).isSome = true →
    (db.accounts.lookup k.account).isSome = true

variable {B : FsBackend} {w : World} {db : MetadataDb} {e : Action}

/-! ### One action -/

lemma inAccounts_guarded {α : Type} {stmt : MetadataDb → Except SqlError α × MetadataDb}
    (h : db.InAccounts) (hstmt : (stmt db).2.InAccounts) (fault : Option String) :
    (MetadataDb.guarded fault stmt db).2.InAccounts := by
  cases fault with
  | none => exact hstmt
  | some message => exact h

lemma inAccounts_insertContainer (h : db.InAccounts) (c : ContainerKey) (r : ContainerRecord) :
    (MetadataDb.insertContainer c r db).2.InAccounts := by
  unfold MetadataDb.insertContainer
  split_ifs with hc ha
  · exact h
  · exact h
  · refine ⟨fun c' hc' => ?_, h.blob, h.staged, h.committed⟩
    rcases (Table.isSome_lookup_insert c c' r db.containers).mp hc' with rfl | hold
    · exact Option.isSome_iff_ne_none.mpr fun hnone => ha (by simp [hnone])
    · exact h.container c' hold

/-- A blob that is written was there before, or its container is there. -/
lemma MetadataDb.InAccounts.of_upsert (h : db.InAccounts) {k : BlobKey}
    (hk : ¬ ((db.blobs.lookup k).isNone && (db.containers.lookup k.containerKey).isNone) = true) :
    (db.accounts.lookup k.account).isSome = true := by
  by_cases hblob : (db.blobs.lookup k).isSome = true
  · exact h.blob k hblob
  · refine h.container k.containerKey ?_
    simpa [Option.not_isSome_iff_eq_none.mp hblob, Option.isSome_iff_ne_none] using hk

lemma inAccounts_upsertBlob (h : db.InAccounts) (k : BlobKey) (u : BlobUpsert) :
    (MetadataDb.upsertBlob k u db).2.InAccounts := by
  unfold MetadataDb.upsertBlob
  split_ifs with hc
  · exact h
  · refine ⟨h.container, fun k' hk' => ?_, h.staged, h.committed⟩
    rcases (Table.isSome_lookup_insert k k' _ db.blobs).mp hk' with rfl | hold
    · exact h.of_upsert hc
    · exact h.blob k' hold

lemma inAccounts_commitBlockList (h : db.InAccounts) (k : BlobKey) (resolved : List CommittedBlock)
    (u : BlobUpsert) : (MetadataDb.commitBlockList k resolved u db).2.InAccounts := by
  have hup := inAccounts_upsertBlob h k u
  unfold MetadataDb.commitBlockList
  unfold MetadataDb.upsertBlob at hup ⊢
  split_ifs at hup ⊢ with hc
  · exact h
  · refine ⟨hup.container, hup.blob, fun s hs => ?_, fun k' hk' => ?_⟩
    · exact h.staged s (Table.isSome_lookup_deleteWhere.mp hs).2
    · rcases (Table.isSome_lookup_insert k k' resolved db.committedBlocks).mp hk' with rfl | hold
      · exact h.of_upsert hc
      · exact h.committed k' hold

lemma inAccounts_deleteContainer (h : db.InAccounts) (c : ContainerKey) :
    (MetadataDb.deleteContainer c db).2.InAccounts where
  container c' hc' := h.container c' (Table.isSome_lookup_erase.mp hc').2
  blob k hk := h.blob k (Table.isSome_lookup_deleteWhere.mp hk).2
  staged s hs := h.staged s (Table.isSome_lookup_deleteWhere.mp hs).2
  committed k hk := h.committed k (Table.isSome_lookup_deleteWhere.mp hk).2

/-- No action writes a row of an account that the database does not know, if none stages a block
there. -/
lemma inAccounts_exec (h : w.db.InAccounts)
    (hstage : ∀ fault s r, e = .stageBlock fault s r →
      (w.db.accounts.lookup s.blob.account).isSome = true) : (e.exec w).2.db.InAccounts := by
  cases e with
  | insertContainer fault c r => exact inAccounts_guarded h (inAccounts_insertContainer h c r) fault
  | deleteContainer fault c => exact inAccounts_guarded h (inAccounts_deleteContainer h c) fault
  | setContainerMetadata fault c m et l =>
    exact inAccounts_guarded h ⟨fun c' hc' => h.container c'
      (by rwa [MetadataDb.setContainerMetadata, Table.isSome_lookup_modify] at hc'),
      h.blob, h.staged, h.committed⟩ fault
  | setContainerAcl fault c pa et l =>
    exact inAccounts_guarded h ⟨fun c' hc' => h.container c'
      (by rwa [MetadataDb.setContainerAcl, Table.isSome_lookup_modify] at hc'),
      h.blob, h.staged, h.committed⟩ fault
  | upsertBlob fault k u => exact inAccounts_guarded h (inAccounts_upsertBlob h k u) fault
  | setBlobProperties fault k patch et l =>
    exact inAccounts_guarded h ⟨h.container, fun k' hk' => h.blob k'
      (by rwa [MetadataDb.setBlobProperties, Table.isSome_lookup_modify] at hk'),
      h.staged, h.committed⟩ fault
  | setBlobMetadata fault k m et l =>
    exact inAccounts_guarded h ⟨h.container, fun k' hk' => h.blob k'
      (by rwa [MetadataDb.setBlobMetadata, Table.isSome_lookup_modify] at hk'),
      h.staged, h.committed⟩ fault
  | deleteBlobRow fault k =>
    exact inAccounts_guarded h ⟨h.container, fun k' hk' => h.blob k' (Table.isSome_lookup_erase.mp hk').2,
      h.staged, h.committed⟩ fault
  | deleteCommittedBlocks k =>
    exact ⟨h.container, h.blob, h.staged,
      fun k' hk' => h.committed k' (Table.isSome_lookup_erase.mp hk').2⟩
  | deleteStagedBlocks k =>
    exact ⟨h.container, h.blob,
      fun s hs => h.staged s (Table.isSome_lookup_deleteWhere.mp hs).2, h.committed⟩
  | stageBlock fault s r =>
    refine inAccounts_guarded h ⟨h.container, h.blob, fun s' hs' => ?_, h.committed⟩ fault
    rcases (Table.isSome_lookup_insert s s' r w.db.stagedBlocks).mp hs' with rfl | hold
    · exact hstage fault s' r rfl
    · exact h.staged s' hold
  | commitBlockList fault k resolved u =>
    exact inAccounts_guarded h (inAccounts_commitBlockList h k resolved u) fault
  | removeFile fails p => cases fails <;> exact h
  | _ => exact h

/-! ### Every state that arises -/

/-- A container that is found belongs to an account. -/
def Action.FindsKnown (accounts : Table String AccountRow) : Event Action Action.Response → Prop
  | ⟨.getContainer c, row⟩ =>
    Option.isSome (α := ContainerRow) row = true → (accounts.lookup c.account).isSome = true
  | _ => True

/-- A block is staged in an account. -/
def Action.StagesKnown (accounts : Table String AccountRow) : Action → Prop
  | .stageBlock _ s _ => (accounts.lookup s.blob.account).isSome = true
  | _                 => True

variable {accounts : Table String AccountRow}

lemma Call.Uses.stagesKnown {call : Call} (h : call.Uses B e)
    (hcall : ∀ a c b id body, call = .putBlock a c b id body →
      (accounts.lookup a).isSome = true) : e.StagesKnown accounts := by
  cases e with
  | stageBlock fault s r =>
    rcases h with h | h | h
    · cases h
    · cases h
    · cases call with
      | putBlock a c b id body =>
        obtain ⟨rfl, -⟩ := h
        exact hcall a c b id body rfl
      | _ => cases h
  | _ => trivial

/-- `put_block` stages a block only after it has found the container. -/
lemma follows_stagesKnown (amb : Ambient) (call : Call) :
    Follows (Action.FindsKnown accounts) (fun (_ : Unit) ev _ => ev.1.StagesKnown accounts)
      (fun _ _ => True) () (B.call amb call) := by
  by_cases hcall : ∀ a c b id body, call = .putBlock a c b id body →
      (accounts.lookup a).isSome = true
  · exact ((issues_uses amb call).mono fun _ h => h.stagesKnown hcall).follows
      (fun _ _ h => h) fun _ => trivial
  · push Not at hcall
    obtain ⟨a, c, b, id, body, rfl, ha⟩ := hcall
    -- the account is not known, so the container is not found
    refine Follows.bind (Q := fun _ _ => True) ?_ (fun _ _ _ => trivial) fun _ _ _ => trivial
    refine Follows.bind (Q := fun _ r => ∃ e, r = .error e) ?_ ?_ fun _ _ _ => trivial
    · refine follows_perform_bind.mpr fun row hrow => ⟨(), trivial, ?_⟩
      cases row with
      | none => exact ⟨_, rfl⟩
      | some row => exact absurd (hrow rfl) ha
    · rintro _ _ ⟨e, he⟩
      cases he

lemma findsKnown_exec (h : w.db.InAccounts) (e : Action) :
    Action.FindsKnown w.db.accounts ⟨e, (e.exec w).1⟩ := by
  cases e with
  | getContainer c =>
    intro hrow
    refine h.container c ?_
    simpa [Action.exec, MetadataDb.getContainer] using hrow
  | _ => trivial

lemma stagesKnown_exec (h : w.db.InAccounts ∧ w.db.accounts = accounts) (he : e.StagesKnown accounts) :
    (e.exec w).2.db.InAccounts ∧ (e.exec w).2.db.accounts = accounts := by
  refine ⟨inAccounts_exec h.1 ?_, (accounts_exec e w).trans h.2⟩
  rintro fault s r rfl
  rw [h.2]
  exact he

/-- In every state that arises, rows belong to accounts. -/
theorem Arisen.inAccounts (h : Arisen B w) : w.db.InAccounts := by
  induction h with
  | fresh h =>
    obtain ⟨accounts, hdb⟩ := h.db
    rw [hdb]
    exact ⟨by simp [MetadataDb.empty], by simp [MetadataDb.empty], by simp [MetadataDb.empty],
      by simp [MetadataDb.empty]⟩
  | @call w h amb call ih =>
    exact ((follows_stagesKnown amb call).run_inv
      (I := fun v : World => v.db.InAccounts ∧ v.db.accounts = w.db.accounts)
      (fun v e hv => hv.2 ▸ findsKnown_exec hv.1 e)
      (fun v _ e _ hv he => stagesKnown_exec hv he) ⟨ih, rfl⟩).1
  | @race w h ι _ req schedule ih =>
    obtain ⟨-, hI, -⟩ := Conf.run_upheld Action.exec (s := w) (φ := fun _ : ι => ())
      (I := fun (v : World) _ _ => v.db.InAccounts ∧ v.db.accounts = w.db.accounts)
      (fun v _ _ e hv => hv.2 ▸ findsKnown_exec hv.1 e)
      (fun v _ _ _ e _ hv he => stagesKnown_exec hv he) ⟨ih, rfl⟩
      (fun i => follows_stagesKnown (req i).amb (req i).call) schedule
    exact hI.1

end BlobStore
