import BlobStore.Storage.Concurrent.Deletion

/-!
# A container that is created again

`delete_container` deletes the rows in one transaction and removes the files afterwards, while the
name is free again; and `put_block` looks the container up before it writes, not when it records its
row. `recreated_intact` says in which runs this does no harm.
-/

namespace BlobStore

open Codec FileTree UnixPath Resumption Proc

/-! ### What a container has -/

/-- Rows of a container are there only if the container is. -/
structure OwnedIn (c : ContainerKey) (db : MetadataDb) : Prop where
  blob : ∀ k, k.containerKey = c → (db.blobs.lookup k).isSome = true →
    (db.containers.lookup c).isSome = true
  staged : ∀ b, b.blob.containerKey = c → (db.stagedBlocks.lookup b).isSome = true →
    (db.containers.lookup c).isSome = true
  committed : ∀ k, k.containerKey = c → (db.committedBlocks.lookup k).isSome = true →
    (db.containers.lookup c).isSome = true

/-- Blobs and staged blocks of a container have files of the size in their rows, and no row is left
of a container that is gone. -/
structure Intact (B : FsBackend) (c : ContainerKey) (w : World) : Prop where
  blob : ∀ k row, k.containerKey = c → w.db.blobs.lookup k = some row →
    ∃ bytes, w.fs.file? (B.blobFile k) = some bytes ∧ row.contentLength = bytes.length
  staged : ∀ b row, b.blob.containerKey = c → w.db.stagedBlocks.lookup b = some row →
    ∃ bytes, w.fs.file? (B.stagedFile b) = some bytes ∧ row.blockSize = bytes.length
  owned : OwnedIn c w.db

variable {B : FsBackend} {w : World} {c : ContainerKey} {db : MetadataDb}

lemma ownedIn_guarded {α : Type} {stmt : MetadataDb → Except SqlError α × MetadataDb}
    (h : OwnedIn c db) (hstmt : OwnedIn c (stmt db).2) (fault : Option String) :
    OwnedIn c (MetadataDb.guarded fault stmt db).2 := by
  cases fault with
  | none => exact hstmt
  | some message => exact h

/-- Statements that change no keys. -/
lemma SameRows.ownedIn {db' : MetadataDb} (h : SameRows db db') (hdb : OwnedIn c db) :
    OwnedIn c db' where
  blob k hk hrow := h.container c (hdb.blob k hk (h.blob k ▸ hrow))
  staged b hb hrow := h.container c (hdb.staged b hb (h.staged b ▸ hrow))
  committed k hk hrow := h.container c (hdb.committed k hk (h.committed k ▸ hrow))

/-- A blob that is written was there before, or its container is there. -/
lemma OwnedIn.of_upsert {k : BlobKey} (h : OwnedIn k.containerKey db)
    (hk : ¬ ((db.blobs.lookup k).isNone && (db.containers.lookup k.containerKey).isNone) = true) :
    (db.containers.lookup k.containerKey).isSome = true := by
  by_cases hblob : (db.blobs.lookup k).isSome = true
  · exact h.blob k rfl hblob
  · simpa [Option.not_isSome_iff_eq_none.mp hblob, Option.isSome_iff_ne_none] using hk

lemma ownedIn_upsertBlob (h : OwnedIn c db) (k : BlobKey) (u : BlobUpsert) :
    OwnedIn c (MetadataDb.upsertBlob k u db).2 := by
  unfold MetadataDb.upsertBlob
  split_ifs with hc
  · exact h
  · refine ⟨fun k' hk' hrow => ?_, h.staged, h.committed⟩
    rcases (Table.isSome_lookup_insert k k' _ db.blobs).mp hrow with rfl | hold
    · subst hk'
      exact h.of_upsert hc
    · exact h.blob k' hk' hold

lemma ownedIn_commitBlockList (h : OwnedIn c db) (k : BlobKey) (resolved : List CommittedBlock)
    (u : BlobUpsert) : OwnedIn c (MetadataDb.commitBlockList k resolved u db).2 := by
  have hup := ownedIn_upsertBlob h k u
  unfold MetadataDb.commitBlockList
  unfold MetadataDb.upsertBlob at hup ⊢
  split_ifs at hup ⊢ with hc
  · exact h
  · refine ⟨hup.blob, fun b hb hrow => ?_, fun k' hk' hrow => ?_⟩
    · exact h.staged b hb (Table.isSome_lookup_deleteWhere.mp hrow).2
    · rcases (Table.isSome_lookup_insert k k' resolved db.committedBlocks).mp hrow with rfl | hold
      · subst hk'
        exact h.of_upsert hc
      · exact h.committed k' hk' hold

/-- A container that is deleted takes its rows with it. -/
lemma ownedIn_deleteContainer_self (c : ContainerKey) (db : MetadataDb) :
    OwnedIn c (MetadataDb.deleteContainer c db).2 where
  blob k hk hrow := absurd (Table.isSome_lookup_deleteWhere.mp hrow).1 (by simp [hk])
  staged b hb hrow := absurd (Table.isSome_lookup_deleteWhere.mp hrow).1 (by simp [hb])
  committed k hk hrow := absurd (Table.isSome_lookup_deleteWhere.mp hrow).1 (by simp [hk])

lemma ownedIn_deleteContainer (h : OwnedIn c db) (c' : ContainerKey) :
    OwnedIn c (MetadataDb.deleteContainer c' db).2 := by
  by_cases hc : c = c'
  · subst hc
    exact ownedIn_deleteContainer_self c db
  · have hkept : (db.containers.lookup c).isSome = true →
        ((MetadataDb.deleteContainer c' db).2.containers.lookup c).isSome = true :=
      fun h => Table.isSome_lookup_erase.mpr ⟨hc, h⟩
    exact
      { blob := fun k hk hrow =>
          hkept (h.blob k hk (Table.isSome_lookup_deleteWhere.mp hrow).2)
        staged := fun b hb hrow =>
          hkept (h.staged b hb (Table.isSome_lookup_deleteWhere.mp hrow).2)
        committed := fun k hk hrow =>
          hkept (h.committed k hk (Table.isSome_lookup_deleteWhere.mp hrow).2) }

/-- No action leaves rows without their container, except that one stages a block there. -/
lemma OwnedIn.exec (h : OwnedIn c w.db) (e : Action)
    (hstage : ∀ fault b r, e = .stageBlock fault b r → b.blob.containerKey = c → fault = none →
      (w.db.containers.lookup c).isSome = true) : OwnedIn c (e.exec w).2.db := by
  cases e with
  | insertContainer fault c' r =>
    exact ownedIn_guarded h ((SameRows.insertContainer w.db c' r).ownedIn h) fault
  | deleteContainer fault c' => exact ownedIn_guarded h (ownedIn_deleteContainer h c') fault
  | setContainerMetadata fault c' m et l =>
    exact ownedIn_guarded h ((SameRows.modify_container w.db c' _).ownedIn h) fault
  | setContainerAcl fault c' pa et l =>
    exact ownedIn_guarded h ((SameRows.modify_container w.db c' _).ownedIn h) fault
  | upsertBlob fault k u => exact ownedIn_guarded h (ownedIn_upsertBlob h k u) fault
  | setBlobProperties fault k patch et l =>
    exact ownedIn_guarded h ((SameRows.modify_blob w.db k _).ownedIn h) fault
  | setBlobMetadata fault k m et l =>
    exact ownedIn_guarded h ((SameRows.modify_blob w.db k _).ownedIn h) fault
  | deleteBlobRow fault k =>
    exact ownedIn_guarded h ⟨fun k' hk' hrow => h.blob k' hk' (Table.isSome_lookup_erase.mp hrow).2,
      h.staged, h.committed⟩ fault
  | deleteCommittedBlocks k =>
    exact ⟨h.blob, h.staged,
      fun k' hk' hrow => h.committed k' hk' (Table.isSome_lookup_erase.mp hrow).2⟩
  | deleteStagedBlocks k =>
    exact ⟨h.blob,
      fun b hb hrow => h.staged b hb (Table.isSome_lookup_deleteWhere.mp hrow).2, h.committed⟩
  | stageBlock fault b r =>
    cases fault with
    | some message => exact h
    | none =>
      refine ⟨h.blob, fun b' hb' hrow => ?_, h.committed⟩
      rcases (Table.isSome_lookup_insert b b' r w.db.stagedBlocks).mp hrow with rfl | hold
      · exact hstage none b' r rfl hb' rfl
      · exact h.staged b' hb' hold
  | commitBlockList fault k resolved u =>
    exact ownedIn_guarded h (ownedIn_commitBlockList h k resolved u) fault
  | removeFile fails p => cases fails <;> exact h
  | _ => exact h

/-! ### The last effect of a trace -/

section Traces

variable {ι : Type} {x : Slot} {t u : Trace ι Action Action.Response}

/-- A trace has no event with an effect, or it has a last one. -/
lemma exists_last_effect (effect : Event Action Action.Response → Effect)
    (tr : Trace ι Action Action.Response) : (∀ e ∈ tr, effect e.2 = .none) ∨
      ∃ t e u, tr = t ++ e :: u ∧ effect e.2 ≠ .none ∧ ∀ e' ∈ u, effect e'.2 = .none := by
  induction tr using List.reverseRecOn with
  | nil => exact .inl (by simp)
  | append_singleton tr e ih =>
    by_cases he : effect e.2 = .none
    · rcases ih with hnone | ⟨t, e', u, rfl, he', hu⟩
      · left
        intro e' hmem
        rcases List.mem_append.mp hmem with hmem | hmem
        · exact hnone e' hmem
        · rw [List.mem_singleton.mp hmem]
          exact he
      · refine .inr ⟨t, e', u ++ [e], by simp, he', fun e'' hmem => ?_⟩
        rcases List.mem_append.mp hmem with hmem | hmem
        · exact hu e'' hmem
        · rw [List.mem_singleton.mp hmem]
          exact he
    · exact .inr ⟨tr, e, [], rfl, he, by simp⟩

lemma owner_append_of_none (hu : ∀ e ∈ u, rowEffect x e.2 = .none) :
    owner x (t ++ u) = owner x t := by
  induction u using List.reverseRecOn with
  | nil => rw [List.append_nil]
  | append_singleton u e ih =>
    rw [← List.append_assoc, owner_snoc, hu e (by simp), ih fun e' he' => hu e' (by simp [he'])]
    rfl

lemma holder_append_of_none (hu : ∀ e ∈ u, fileEffect B x e.2 = .none) :
    holder B x (t ++ u) = holder B x t := by
  induction u using List.reverseRecOn with
  | nil => rw [List.append_nil]
  | append_singleton u e ih =>
    rw [← List.append_assoc, holder_snoc, hu e (by simp), ih fun e' he' => hu e' (by simp [he'])]
    rfl

/-- A row that somebody has written was recorded, and left alone since. -/
lemma exists_last_record {tr : Trace ι Action Action.Response} {i : ι}
    (howner : owner x tr = .write i) :
    ∃ t ev u, tr = t ++ (i, ev) :: u ∧ rowEffect x ev = .put ∧
      ∀ e ∈ u, rowEffect x e.2 = .none := by
  rcases exists_last_effect (rowEffect x) tr with hnone | ⟨t, ⟨j, ev⟩, u, rfl, heffect, hu⟩
  · have hstart := owner_append_of_none (t := []) hnone
    rw [List.nil_append, howner] at hstart
    cases hstart
  · rw [List.append_cons, owner_append_of_none hu, owner_snoc] at howner
    refine ⟨t, ev, u, ?_⟩
    cases hev : rowEffect x ev with
    | none => exact absurd hev heffect
    | put =>
      rw [hev] at howner
      cases howner
      exact ⟨rfl, rfl, hu⟩
    | drop =>
      rw [hev] at howner
      cases howner

/-- Before a row was recorded that has been left alone since, lies each of its deletions. -/
lemma before_last_record {tr : Trace ι Action Action.Response}
    {d e : ι × Event Action Action.Response} {t₁ t₂ : Trace ι Action Action.Response}
    (htr : tr = t ++ d :: u) (htr' : tr = t₁ ++ e :: t₂)
    (hd : rowEffect x d.2 = .drop) (he : rowEffect x e.2 = .put)
    (ht₂ : ∀ e ∈ t₂, rowEffect x e.2 = .none) :
    ∀ s, s <+: t₂ → ∃ s', s' <+: u ∧ t₁ ++ e :: s = t ++ d :: s' := by
  intro s hs
  have hne : d ≠ e := by
    rintro rfl
    rw [hd] at he
    cases he
  rcases List.append_eq_append_iff.mp (htr.symm.trans htr') with ⟨l, rfl, hl⟩ | ⟨l, rfl, hl⟩
  · cases l with
    | nil => exact absurd (List.cons.inj hl).1 hne
    | cons a l =>
      obtain ⟨rfl, rfl⟩ := List.cons.inj hl
      have hpre : l ++ e :: s <+: l ++ e :: t₂ :=
        (List.prefix_append_right_inj l).mpr (List.cons_prefix_cons.mpr ⟨rfl, hs⟩)
      exact ⟨l ++ e :: s, hpre, by simp⟩
  · cases l with
    | nil => exact absurd (List.cons.inj hl).1.symm hne
    | cons a l =>
      obtain ⟨rfl, rfl⟩ := List.cons.inj hl
      exact absurd (hd.symm.trans (ht₂ d (by simp))) nofun

/-- What records a row does nothing to files. -/
lemma fileEffect_of_put {ev : Event Action Action.Response} (h : rowEffect x ev = .put) :
    fileEffect B x ev = .none := by
  obtain ⟨e, r⟩ := ev
  cases e <;> first | rfl | cases h

end Traces

/-! ### What becomes of a file that was put in place -/

/-- After this event the file of a slot needs no row any more: it has one, it is removed, or the row
was refused. -/
def Closes (B : FsBackend) (x : Slot) (ev : Event Action Action.Response) : Prop :=
  rowEffect x ev = .put ∨ fileEffect B x ev = .drop ∨
    match ev with
    | ⟨.getContainer c, none⟩           => c = x.container
    | ⟨.upsertBlob none k _, .error _⟩  => x = .blob k
    | ⟨.stageBlock none b _, .error _⟩  => x = .block b
    | _                                 => False

/-- Each time the call has put a file in the slot, such an event has come after it. -/
def Settles (B : FsBackend) (x : Slot) (h : List (Event Action Action.Response)) : Prop :=
  ∀ h₁ ev h₂, h = h₁ ++ ev :: h₂ → fileEffect B x ev = .put → ∃ f ∈ h₂, Closes B x f

section Histories

variable {x : Slot} {h : List (Event Action Action.Response)} {amb : Ambient}

lemma settles_nil : Settles B x [] := by
  intro h₁ ev h₂ heq
  cases h₁ <;> cases heq

lemma Settles.snoc (hh : Settles B x h) {ev : Event Action Action.Response}
    (hev : fileEffect B x ev ≠ .put) : Settles B x (h ++ [ev]) := by
  intro h₁ ev' h₂ heq hput
  rcases snoc_eq_append_cons heq with ⟨h₂', rfl, heq'⟩ | ⟨rfl, -, -⟩
  · obtain ⟨f, hf, hcloses⟩ := hh h₁ ev' h₂' heq' hput
    exact ⟨f, List.mem_append_left _ hf, hcloses⟩
  · exact absurd hput hev

lemma settles_of_closes {ev : Event Action Action.Response} (hcloses : Closes B x ev)
    (hev : fileEffect B x ev ≠ .put) : Settles B x (h ++ [ev]) := by
  intro h₁ ev' h₂ heq hput
  rcases snoc_eq_append_cons heq with ⟨h₂', rfl, -⟩ | ⟨rfl, -, -⟩
  · exact ⟨ev, by simp, hcloses⟩
  · exact absurd hput hev

/-- Actions other than renames. -/
def Action.Stays : Action → Prop
  | .rename _ _ => False
  | _           => True

lemma Action.Stays.fileEffect {e : Action} (he : e.Stays) (r : e.Response) :
    fileEffect B x ⟨e, r⟩ ≠ .put := by
  intro hput
  cases e with
  | rename src dst => exact he
  | removeFile fails p =>
    cases fails <;> simp only [BlobStore.fileEffect] at hput
    · split_ifs at hput
    · cases hput
  | removeDirAll keep p =>
    cases r <;> simp only [BlobStore.fileEffect] at hput
    · cases hput
    · split_ifs at hput
  | _ => cases hput

lemma Settles.stays (hh : Settles B x h) {e : Action} (he : e.Stays) (r : e.Response) :
    Settles B x (h ++ [⟨e, r⟩]) := hh.snoc (he.fileEffect r)

lemma Settles.follows {ε α : Type} {p : Proc Action Action.Response ε α} (hh : Settles B x h)
    (hp : Issues Action.Stays p) : FollowsHistory (fun h _ => Settles B x h) h p := by
  induction p generalizing h with
  | ret r => exact hh
  | act e k ih => exact fun r _ => ⟨_, rfl, ih r (hh.stays hp.1 r) (hp.2 r)⟩

lemma issues_stays_requireContainer (a c : String) :
    Issues Action.Stays (requireContainer a c) := by
  refine Issues.perform_bind trivial fun row => ?_
  cases row <;> trivial

lemma issues_stays_requireBlob (a c b : String) : Issues Action.Stays (requireBlob a c b) := by
  refine Issues.perform_bind trivial fun row => ?_
  cases row <;> trivial

lemma FsIo.issues_stays_writeChunks (tmp : Path) (body : ByteStream) (total : ℕ) (hashed : Bytes) :
    Issues Action.Stays (FsIo.writeChunks tmp body total hashed) := by
  induction body generalizing total hashed with
  | nil => trivial
  | cons y body ih =>
    cases y with
    | error e => trivial
    | ok chunk => exact Issues.perform_bind trivial fun _ => ih _ _

/-- A body that cannot be written is not put in place. -/
lemma FsIo.history_writeStreamAtomic (md5 : Bytes → Bytes) (tmpDir finalPath : String)
    (body : ByteStream) (hh : Settles B x h) :
    FollowsHistory (fun h r => ∀ e, r = .error e → Settles B x h) h
      (FsIo.writeStreamAtomic md5 amb tmpDir finalPath body) := by
  have hfails : ∀ {α : Type} {p : Io α} {h : List (Event Action Action.Response)},
      Settles B x h → Issues Action.Stays p → FollowsHistory (fun h _ => Settles B x h) h p :=
    fun hh hp => hh.follows hp
  unfold FsIo.writeStreamAtomic
  refine (hfails hh (issues_createDirAll trivial)).bind ?_ fun _ _ hh _ _ => hh
  intro h₁ _ hh₁
  refine (hfails hh₁ (issues_createDirAll trivial)).bind ?_ fun _ _ hh _ _ => hh
  intro h₂ _ hh₂
  refine follows_perform_bind.mpr fun r _ => ⟨_, rfl, ?_⟩
  rcases r with e | ⟨⟩
  · exact fun _ _ => hh₂.stays (by trivial) _
  · refine (hfails (hh₂.stays (by trivial) _) (issues_stays_writeChunks _ _ _ _)).bind ?_
      fun _ _ hh _ _ => hh
    intro h₃ _ hh₃
    refine follows_perform_bind.mpr fun _ _ => ⟨_, rfl, ?_⟩
    refine follows_perform_bind.mpr fun r _ => ⟨_, rfl, ?_⟩
    rcases r with e | ⟨⟩
    · exact fun _ _ => (hh₃.stays (by trivial) _).snoc (by simp [fileEffect])
    · exact follows_perform_bind.mpr fun _ _ => ⟨_, rfl, nofun⟩

variable {a c b : String} {body : ByteStream}

/-- The statement that records a row, without a fault: whatever it answers, the file is settled. -/
lemma history_recorded {ε α : Type} {e : Action}
    {f : e.Response → Proc Action Action.Response ε α}
    (hcloses : ∀ r, Closes B x ⟨e, r⟩) (he : e.Stays) (hf : ∀ r, Issues Action.Stays (f r)) :
    FollowsHistory (fun h _ => Settles B x h) h (perform e >>= f) := by
  refine follows_perform_bind.mpr fun r _ => ⟨_, rfl, ?_⟩
  exact (settles_of_closes (hcloses r) (he.fileEffect r)).follows (hf r)

/-- A body is written, and then it is recorded or refused. -/
lemma history_written {α : Type} (tmpDir finalPath : String) {f : ℕ × String → Store α}
    (hf : ∀ h s, FollowsHistory (fun h _ => Settles B x h) h (f s)) :
    FollowsHistory (fun h _ => Settles B x h) [] (do
      let _ ← requireContainer a c
      let s ← (FsIo.writeStreamAtomic B.md5 amb tmpDir finalPath body).mapErr ioError
      f s) := by
  refine (settles_nil.follows (issues_stays_requireContainer a c)).bind ?_ fun _ _ hh => hh
  intro h₁ _ hh₁
  refine Follows.bind (Q := fun h r => ∀ e, r = .error e → Settles B x h)
    (follows_mapErr.mpr ((FsIo.history_writeStreamAtomic _ _ _ _ hh₁).mono ?_))
    (fun h s _ => hf h s) fun _ _ hh => hh _ rfl
  rintro h (e | s) hh e' he'
  · exact hh e rfl
  · cases he'

lemma history_settles_putBlob (hord : (ContainerKey.mk a c).Ordinary) (hfault : amb.dbFault = none)
    (hremove : ∀ p, amb.removeFails p = false) (ct md5 : Option String) (m : Metadata) :
    FollowsHistory (fun h _ => Settles B (.blob ⟨a, c, b⟩) h) []
      (B.call amb (.putBlob a c b body ct md5 m)) := by
  refine Follows.bind (Q := fun h _ => Settles B (.blob ⟨a, c, b⟩) h) ?_ (fun _ _ hh => hh)
    fun _ _ hh => hh
  refine history_written _ _ fun h s => ?_
  have hrecord : ∀ h, FollowsHistory (fun h _ => Settles B (.blob ⟨a, c, b⟩) h) h (do
      let row ← FsBackend.upsertBlobSingleShot amb a c b (B.blobPaths a c b).2 s.1 ct
        (md5HexToBase64 s.2) m
      pure (blobRowToProps row)) := by
    intro h
    refine Follows.bind (Q := fun h _ => Settles B (.blob ⟨a, c, b⟩) h) ?_ (fun _ _ hh => hh)
      fun _ _ hh => hh
    unfold FsBackend.upsertBlobSingleShot requireContainer
    refine follows_perform_bind.mpr fun row _ => ⟨_, rfl, ?_⟩
    cases row with
    | none => exact settles_of_closes (.inr (.inr rfl)) (Action.Stays.fileEffect (by trivial) _)
    | some row =>
      rw [hfault]
      refine history_recorded (fun r => ?_) trivial fun r => ?_
      · rcases r with e | ⟨⟩
        · exact .inr (.inr rfl)
        · exact .inl (if_pos rfl)
      · exact Issues.bind issues_ofExcept fun _ => issues_stays_requireBlob a c b
  refine Follows.bind (Q := fun h r => r ≠ .ok () → Settles B (.blob ⟨a, c, b⟩) h) ?_
    (fun h _ _ => hrecord h) fun _ _ hh => hh nofun
  unfold FsBackend.checkMd5
  split_ifs
  · have hpath : resolve (join B.storageRoot (B.blobRel a c b)) = B.slotFile (.blob ⟨a, c, b⟩) :=
      B.resolve_blobPaths hord.account.toIsComponent hord.container.toIsComponent
    rw [hpath]
    refine Follows.bind (Q := fun h _ => Settles B (.blob ⟨a, c, b⟩) h) ?_
      (fun _ _ hh => follows_fail.mpr fun _ => hh) fun _ _ hh _ => hh
    refine follows_ignore.mpr ?_
    unfold FsIo.removeFileIfExists
    rw [hremove]
    refine history_recorded (fun r => ?_) (by trivial) fun r => ?_
    · exact .inr (.inl (if_pos rfl))
    · rcases r with (_ | _ | _ | _) | _ <;> trivial
  · exact follows_pure.mpr fun hne => absurd rfl hne

lemma history_settles_putBlock {id : String} (hfault : amb.dbFault = none) :
    FollowsHistory (fun h _ => Settles B (.block ⟨⟨a, c, b⟩, id⟩) h) []
      (B.call amb (.putBlock a c b id body)) := by
  refine Follows.bind (Q := fun h _ => Settles B (.block ⟨⟨a, c, b⟩, id⟩) h) ?_ (fun _ _ hh => hh)
    fun _ _ hh => hh
  refine history_written _ _ fun h s => ?_
  rw [hfault]
  refine history_recorded (fun r => ?_) trivial fun r => ?_
  · rcases r with e | ⟨⟩
    · exact .inr (.inr rfl)
    · exact .inl (if_pos rfl)
  · exact Issues.bind issues_ofExcept fun _ => issues_pure

/-- A deletion that succeeds has deleted the rows. -/
lemma history_deleteContainer (amb : Ambient) (c : ContainerKey) :
    FollowsHistory (fun h r => ∀ reply, r = .ok reply →
        ∃ paths, ⟨.deleteContainer amb.dbFault c, .ok paths⟩ ∈ h) []
      (B.call amb (.deleteContainer c.account c.container)) := by
  refine Follows.bind (Q := fun h r => r = .ok () →
    ∃ paths, ⟨.deleteContainer amb.dbFault c, .ok paths⟩ ∈ h) ?_ (fun _ _ hh _ _ => hh rfl)
    fun _ _ _ _ h => error_elim h
  unfold FsBackend.deleteContainer
  refine (follows_history _ _).bind (fun h₁ _ _ => ?_) fun _ _ _ h => error_elim h
  refine follows_perform_bind.mpr fun r _ => ⟨_, rfl, ?_⟩
  rcases r with e | paths
  · exact fun h => error_elim h
  · exact (follows_history _ _).mono fun h _ hpre _ => ⟨paths, hpre.subset (by simp)⟩

end Histories

/-! ### Runs -/

/-- The calls that fill a container again. -/
def Call.Refills (c : ContainerKey) : Call → Prop
  | .createContainer a n _ _ | .putBlob a n _ _ _ _ _ | .putBlock a n _ _ _ => ⟨a, n⟩ = c
  | _                                                                         => False

/-- Nothing fails around a request. -/
def Request.Quiet (req : Request) : Prop :=
  req.amb.dbFault = none ∧ ∀ p, req.amb.removeFails p = false

variable {ι : Type} [DecidableEq ι]

/-- A step that does no harm, after the events of `tr`. Files with a row are not removed, and not
replaced by a call that may fail later; a row is recorded for the file that the call itself has put
in place, and the row of a block while its container is there. -/
structure InTurn (B : FsBackend) (c : ContainerKey) (req : ι → Request) (w : World)
    (tr : Trace ι Action Action.Response) (e : ι × Event Action Action.Response) : Prop where
  removed : ∀ x, x.container = c → fileEffect B x e.2 = .drop → ∀ i, owner x tr ≠ .write i
  replaced : ∀ x, x.container = c → fileEffect B x e.2 = .put →
    (req e.1).Quiet ∨ ∀ i, owner x tr ≠ .write i
  recorded : ∀ x, x.container = c → rowEffect x e.2 = .put → holder B x tr = .write e.1
  staged : ∀ b, b.blob.containerKey = c → rowEffect (.block b) e.2 = .put →
    ((after Action.exec w tr).db.containers.lookup c).isSome = true

variable {req : ι → Request} {x : Slot} {tr : Trace ι Action Action.Response}

/-- A call that has put a file in a slot and returned has settled it. -/
lemma settles_of_returned (hcalls : ∀ i, (req i).call.slot = some x → (req i).call.Refills c)
    (hord : c.Ordinary) {i : ι} (hslot : (req i).call.slot = some x) (hquiet : (req i).Quiet)
    (schedule : List ι) {r : Except AzureError Reply}
    (hret : (B.race req w schedule).Returned i r) :
    Settles B x (Trace.history i (B.race req w schedule).trace) := by
  refine Conf.run_history (Q := fun h _ => Settles B x h) Action.exec
    (fun i => B.call (req i).amb (req i).call) i ?_ w schedule hret
  have hrefills := hcalls i hslot
  cases hcall : (req i).call with
  | putBlob a n b body ct md5 m =>
    rw [hcall] at hslot hrefills
    cases hslot
    cases hrefills
    exact history_settles_putBlob hord hquiet.1 hquiet.2 ct md5 m
  | putBlock a n b id body =>
    rw [hcall] at hslot hrefills
    cases hslot
    cases hrefills
    exact history_settles_putBlock hquiet.1
  | putBlockList a n b refs ct m =>
    rw [hcall] at hrefills
    cases hrefills
  | _ =>
    rw [hcall] at hslot
    cases hslot

/-- Once the container has been deleted, its rows are there only if it is. -/
lemma ownedIn_of_deleted {t u s : Trace ι Action Action.Response} {i : ι} {fault : Option String}
    {paths : List String} (hrec : Recorded Action.exec w (B.race req w schedule))
    (horder : ∀ t e u, (B.race req w schedule).trace = t ++ e :: u → InTurn B c req w t e)
    (htr : (B.race req w schedule).trace = t ++ (i, ⟨.deleteContainer fault c, .ok paths⟩) :: u)
    (hs : s <+: u) : OwnedIn c (after Action.exec w
      (t ++ (i, ⟨.deleteContainer fault c, .ok paths⟩) :: s)).db := by
  induction s using List.reverseRecOn with
  | nil =>
    have hanswer := hrec.answer t _ u htr
    cases fault with
    | some message => cases hanswer
    | none =>
      rw [after_append]
      exact ownedIn_deleteContainer_self c _
  | append_singleton s e ih =>
    obtain ⟨v, rfl⟩ := hs
    have htr' : (B.race req w schedule).trace =
        (t ++ (i, ⟨.deleteContainer fault c, .ok paths⟩) :: s) ++ e :: v := by simp [htr]
    have hanswer := hrec.answer _ _ _ htr'
    have hturn := horder _ _ _ htr'
    have hprev := ih ⟨[e] ++ v, by simp⟩
    obtain ⟨j, a, r⟩ := e
    rw [← List.cons_append, ← List.append_assoc, after_append]
    refine hprev.exec a fun fault b row ha hb hfault => ?_
    subst ha hfault
    have hok : r = .ok () := hanswer
    subst hok
    exact hturn.staged b hb (if_pos rfl)

/-- A slot with a row is a slot of a container that is there. -/
lemma container_of_owner {φ : ι → Phase} {v : World} (htraced : Traced B req w v tr φ)
    (howned : OwnedIn x.container v.db) {i : ι} (howner : owner x tr = .write i) :
    (v.db.containers.lookup x.container).isSome = true := by
  cases x with
  | blob k =>
    have hrow := htraced.blob k
    rw [howner] at hrow
    obtain ⟨row, hlookup, -⟩ := hrow
    exact howned.blob k rfl (by rw [hlookup]; rfl)
  | block b =>
    have hrow := htraced.block b
    rw [howner] at hrow
    obtain ⟨row, hlookup, -⟩ := hrow
    exact howned.staged b rfl (by rw [hlookup]; rfl)

/-- As long as a slot has a row, nothing closes it without an effect on it. -/
lemma not_closes_of_owner {φ : ι → Phase} {v : World} (htraced : Traced B req w v tr φ)
    (howned : OwnedIn x.container v.db) {i : ι} (howner : owner x tr = .write i) {e : Action}
    (hrow : rowEffect x ⟨e, (e.exec v).1⟩ ≠ .put)
    (hfile : fileEffect B x ⟨e, (e.exec v).1⟩ ≠ .drop) : ¬ Closes B x ⟨e, (e.exec v).1⟩ := by
  have hcontainer := container_of_owner htraced howned howner
  rintro (hput | hdrop | hfails)
  · exact hrow hput
  · exact hfile hdrop
  · cases e with
    | getContainer c' =>
      have hfound : (Action.exec (.getContainer c') v).1 = v.db.getContainer c' := rfl
      rw [hfound] at hfails
      cases hrow : v.db.containers.lookup c' with
      | none =>
        simp only [MetadataDb.getContainer, hrow, Option.map_none] at hfails
        rw [← hfails, hrow] at hcontainer
        cases hcontainer
      | some row => simp only [MetadataDb.getContainer, hrow, Option.map_some] at hfails
    | upsertBlob fault k u =>
      cases fault with
      | some message => exact hfails
      | none =>
        cases hres : (Action.exec (.upsertBlob none k u) v).1 with
        | error er =>
          rw [hres] at hfails
          subst hfails
          have hok := congrArg Prod.fst (MetadataDb.upsertBlob_of_container hcontainer u)
          exact error_elim (hres.symm.trans hok)
        | ok y =>
          rw [hres] at hfails
          exact hfails
    | stageBlock fault b r => cases fault <;> exact hfails
    | _ => exact hfails

/-- In an orderly run, the row of a slot belongs to the file in it. -/
lemma holder_of_owner (hreq : Compatible req) (hw : Located B w.db) {schedule : List ι}
    (horder : ∀ t e u, (B.race req w schedule).trace = t ++ e :: u → InTurn B c req w t e)
    (hcalls : ∀ i, (req i).call.slot = some x → (req i).call.Refills c) (hord : c.Ordinary)
    (hret : ∀ i, ∃ r, (B.race req w schedule).Returned i r) (hx : x.container = c)
    {t u : Trace ι Action Action.Response} {i₀ : ι} {fault : Option String} {paths : List String}
    (htr : (B.race req w schedule).trace = t ++ (i₀, ⟨.deleteContainer fault c, .ok paths⟩) :: u)
    {i : ι} (howner : owner x (B.race req w schedule).trace = .write i) :
    holder B x (B.race req w schedule).trace = .write i := by
  obtain ⟨φ, hsteady, -⟩ := race_steady hreq hw schedule
  have hrec := Conf.run_recorded Action.exec (fun i => B.call (req i).amb (req i).call) w schedule
  obtain ⟨t₁, ev, t₂, htr₁, hput, ht₂⟩ := exists_last_record howner
  -- the row is there from now on, and so is the container
  have howned : ∀ s, s <+: t₂ → OwnedIn c (after Action.exec w (t₁ ++ (i, ev) :: s)).db := by
    intro s hs
    obtain ⟨s', hs', heq⟩ := before_last_record htr htr₁ (if_pos hx) hput ht₂ s hs
    rw [heq]
    exact ownedIn_of_deleted hrec horder htr hs'
  have hrow : ∀ s, s <+: t₂ → owner x (t₁ ++ (i, ev) :: s) = .write i := by
    intro s hs
    rw [List.append_cons, owner_append_of_none fun e he => ht₂ e (hs.subset he), owner_snoc, hput]
    rfl
  have hown : holder B x (t₁ ++ [(i, ev)]) = .write i := by
    rw [holder_snoc, fileEffect_of_put hput]
    exact (horder t₁ _ t₂ htr₁).recorded x hx hput
  rw [htr₁, List.append_cons]
  rcases exists_last_effect (fileEffect B x) t₂ with hnone | ⟨s, ⟨j, g⟩, v, rfl, heffect, hv⟩
  · rw [holder_append_of_none hnone, hown]
  have htr₂ : (B.race req w schedule).trace = (t₁ ++ (i, ev) :: s) ++ (j, g) :: v := by simp [htr₁]
  have hs := hrow s (List.prefix_append s _)
  have hturn := horder _ _ _ htr₂
  exfalso
  cases hg : fileEffect B x g with
  | none => exact heffect hg
  | drop => exact hturn.removed x hx hg i hs
  | put =>
    -- somebody has replaced the file, and must have recorded a row for it
    have hquiet : (req j).Quiet := (hturn.replaced x hx hg).resolve_right fun h => h i hs
    have hholder : holder B x (B.race req w schedule).trace = .write j := by
      rw [htr₂, List.append_cons, holder_append_of_none hv, holder_snoc, hg]
      rfl
    obtain ⟨r, hr⟩ := hret j
    obtain ⟨⟨a, r'⟩, hf, hcloses⟩ := settles_of_returned hcalls hord
      (hsteady.traced.slot_of_holder hholder) hquiet schedule hr
      (Trace.history j (t₁ ++ (i, ev) :: s)) g (Trace.history j v)
      (by rw [htr₂, Trace.history_append, Trace.history_cons_self]) hg
    obtain ⟨h₁, h₂, hhist⟩ := List.append_of_mem hf
    obtain ⟨v₁, v₂, rfl, -, -⟩ := Trace.exists_of_history_eq_append hhist
    have hpre : s ++ (j, g) :: v₁ <+: s ++ (j, g) :: (v₁ ++ (j, ⟨a, r'⟩) :: v₂) := by simp
    have htr₃ : (B.race req w schedule).trace =
        (t₁ ++ (i, ev) :: (s ++ (j, g) :: v₁)) ++ (j, ⟨a, r'⟩) :: v₂ := by simp [htr₁]
    obtain ⟨φ', htraced, -⟩ := hsteady.past _ ⟨_, htr₃.symm⟩
    have hanswer : r' = (a.exec (after Action.exec w _)).1 := hrec.answer _ _ _ htr₃
    subst hanswer
    refine not_closes_of_owner htraced (hx ▸ howned _ hpre) (hrow _ hpre) ?_ ?_ hcloses
    · rw [ht₂ (j, _) (by simp)]
      nofun
    · rw [hv (j, _) (by simp)]
      nofun

/-- A deletion that has succeeded has carried out its transaction. -/
lemma exists_deletion {i₀ : ι} (hdel : (req i₀).call = .deleteContainer c.account c.container)
    (schedule : List ι) (hok : (B.race req w schedule).Succeeded i₀) :
    ∃ t fault paths u, (B.race req w schedule).trace =
      t ++ (i₀, ⟨.deleteContainer fault c, .ok paths⟩) :: u := by
  obtain ⟨reply, hreply⟩ := hok
  have hdeletion := Conf.run_history Action.exec (fun i => B.call (req i).amb (req i).call) i₀
    (by rw [hdel]; exact history_deleteContainer _ c) w schedule hreply
  obtain ⟨paths, hdeleted⟩ := hdeletion reply rfl
  obtain ⟨h₁, h₂, hhist⟩ := List.append_of_mem hdeleted
  obtain ⟨t, u, htr, -, -⟩ := Trace.exists_of_history_eq_append hhist
  exact ⟨t, _, paths, u, htr⟩

/-- A deletion of a container that has succeeded, with calls that create the container again and
write blobs and blocks into it: once all have returned, and if all steps came in turn, the container
is intact. -/
theorem recreated_intact {i₀ : ι} (hreq : Compatible req)
    (hdel : (req i₀).call = .deleteContainer c.account c.container)
    (hrefills : ∀ i, i ≠ i₀ → (req i).call.Refills c) (hw : Arisen B w) (schedule : List ι)
    (hret : ∀ i, ∃ r, (B.race req w schedule).Returned i r)
    (hok : (B.race req w schedule).Succeeded i₀)
    (horder : ∀ t e u, (B.race req w schedule).trace = t ++ e :: u → InTurn B c req w t e) :
    Intact B c (B.race req w schedule).state := by
  obtain ⟨φ, hsteady, -⟩ := race_steady hreq hw.located schedule
  have htraced := hsteady.traced
  have hrec := Conf.run_recorded Action.exec (fun i => B.call (req i).amb (req i).call) w schedule
  have hord : c.Ordinary := hreq.ordinary i₀ c (by rw [hdel]; rfl)
  obtain ⟨t, fault, paths, u, htr⟩ := exists_deletion hdel schedule hok
  have hcalls : ∀ x i, (req i).call.slot = some x → (req i).call.Refills c := by
    intro x i hslot
    refine hrefills i fun hi => ?_
    rw [hi, hdel] at hslot
    cases hslot
  -- no row of the container is older than its deletion
  have hstart : ∀ x : Slot, x.container = c → owner x (B.race req w schedule).trace ≠ .start := by
    intro x hx howner
    have hpre : t ++ [(i₀, ⟨.deleteContainer fault c, .ok paths⟩)] <+:
        (B.race req w schedule).trace := ⟨u, by rw [htr, List.append_assoc]; rfl⟩
    have hgone := owner_start_of_initial hpre howner
    have hdrop : rowEffect x (Sigma.mk (.deleteContainer fault c) (.ok paths)) = .drop := if_pos hx
    rw [owner_snoc, hdrop] at hgone
    cases hgone
  have hfile : ∀ (x : Slot) i, x.container = c → owner x (B.race req w schedule).trace = .write i →
      ∃ bytes, (B.race req w schedule).state.fs.file? (B.slotFile x) = some bytes ∧
        version req (B.race req w schedule).trace i = some bytes := by
    intro x i hx howner
    have hholder := holder_of_owner hreq hw.located horder (hcalls x) hord hret hx htr howner
    have hcontent := htraced.file x
    rw [hholder] at hcontent
    obtain ⟨bytes, hbytes, -, -, hversion⟩ := hcontent
    exact ⟨bytes, hbytes, hversion⟩
  refine ⟨fun k row hk hrow => ?_, fun b row hb hrow => ?_, ?_⟩
  · have hexplained := htraced.blob k
    cases howner : owner (.blob k) (B.race req w schedule).trace with
    | start => exact absurd howner (hstart (.blob k) hk)
    | gone =>
      rw [howner] at hexplained
      cases hrow.symm.trans hexplained
    | write i =>
      rw [howner] at hexplained
      obtain ⟨row', hlookup, -, bytes, u', hbytes, hu, hupsert⟩ := hexplained
      obtain ⟨bytes', hcontent, hversion⟩ := hfile (.blob k) i hk howner
      cases hrow.symm.trans hlookup
      cases hbytes.symm.trans hversion
      exact ⟨bytes, hcontent,
        (show (req i).Wrote B _ bytes row from ⟨k, u', hu, hupsert⟩).contentLength⟩
  · have hexplained := htraced.block b
    cases howner : owner (.block b) (B.race req w schedule).trace with
    | start => exact absurd howner (hstart (.block b) hb)
    | gone =>
      rw [howner] at hexplained
      cases hrow.symm.trans hexplained
    | write i =>
      rw [howner] at hexplained
      obtain ⟨row', hlookup, -, bytes, hbytes, hblock⟩ := hexplained
      obtain ⟨bytes', hcontent, hversion⟩ := hfile (.block b) i hb howner
      cases hrow.symm.trans hlookup
      cases hbytes.symm.trans hversion
      exact ⟨bytes, hcontent, blockSize_of_blockRow hblock⟩
  · have howned := ownedIn_of_deleted hrec horder htr (List.prefix_refl u)
    rw [hsteady.state, htr]
    exact howned

/-! ### A deletion, a creation and a write -/

def sampleRecreation : Fin 3 → Request
  | 0 => ⟨sampleAmb 4, .deleteContainer "acc" "c"⟩
  | 1 => ⟨sampleAmb 5, .createContainer "acc" "c" .off ∅⟩
  | 2 => ⟨sampleAmb 6, .putBlob "acc" "c" "b" [.ok [2]] none none ∅⟩

lemma compatible_sampleRecreation : Compatible sampleRecreation where
  ordinary := by decide
  noPatch := by decide
  tmp := by decide +kernel

/-- One after another. -/
def deletedFirst : Conf (Fin 3) Action Action.Response AzureError Reply World :=
  sample.race sampleRecreation sampleStored
    (List.replicate 4 0 ++ List.replicate 3 1 ++ List.replicate 12 2)

lemma sampleRecreation_slot {i : Fin 3} {x : Slot} (h : (sampleRecreation i).call.slot = some x) :
    x = .blob ⟨"acc", "c", "b"⟩ := by
  match i with
  | 0 | 1 => cases h
  | 2 => exact (Option.some.inj h).symm

lemma inTurn_deletedFirst {t u : Trace (Fin 3) Action Action.Response}
    {e : Fin 3 × Event Action Action.Response} (htr : deletedFirst.trace = t ++ e :: u) :
    InTurn sample ⟨"acc", "c"⟩ sampleRecreation sampleStored t e := by
  have hall : ∀ n < deletedFirst.trace.length, ∀ e ∈ deletedFirst.trace[n]?,
      (fileEffect sample (.blob ⟨"acc", "c", "b"⟩) e.2 ≠ .none →
        ∀ i, owner (.blob ⟨"acc", "c", "b"⟩) (deletedFirst.trace.take n) ≠ .write i) ∧
      (rowEffect (.blob ⟨"acc", "c", "b"⟩) e.2 = .put →
        holder sample (.blob ⟨"acc", "c", "b"⟩) (deletedFirst.trace.take n) = .write e.1) := by
    decide +kernel
  obtain ⟨hfile, hrow⟩ := hall t.length (by simp [htr]) e (by simp [htr])
  rw [htr, List.take_left] at hfile hrow
  obtain ⟨φ, hsteady, -⟩ := race_steady compatible_sampleRecreation arisen_sampleStored.located
    (List.replicate 4 0 ++ List.replicate 3 1 ++ List.replicate 12 2)
  have howner : ∀ t', t' <+: deletedFirst.trace → ∀ x i, owner x t' = .write i →
      x = .blob ⟨"acc", "c", "b"⟩ := by
    intro t' ht' x i howner
    obtain ⟨φ', htraced, -⟩ := hsteady.past t' ht'
    exact sampleRecreation_slot (htraced.slot_of_owner howner)
  have hput : ∀ x, rowEffect x e.2 = .put → x = .blob ⟨"acc", "c", "b"⟩ := by
    intro x hx
    refine howner (t ++ [e]) ⟨u, by simp [htr]⟩ x e.1 ?_
    rw [owner_snoc, hx]
    rfl
  have hpre : t <+: deletedFirst.trace := ⟨e :: u, htr.symm⟩
  refine ⟨fun x _ heffect i hi => ?_, fun x _ heffect => .inr fun i hi => ?_, fun x _ hx => ?_,
    fun b _ hb => ?_⟩
  · cases howner t hpre x i hi
    exact hfile (by rw [heffect]; nofun) i hi
  · cases howner t hpre x i hi
    exact hfile (by rw [heffect]; nofun) i hi
  · cases hput x hx
    exact hrow hx
  · cases hput _ hb

theorem recreated_intact_deletedFirst : Intact sample ⟨"acc", "c"⟩ deletedFirst.state := by
  have hall : ∀ i, deletedFirst.Succeeded i := by decide +kernel
  have hreturned : ∀ i, ∃ r, deletedFirst.Returned i r := by
    intro i
    obtain ⟨reply, hreply⟩ := hall i
    exact ⟨_, hreply⟩
  have hdel : (sampleRecreation 0).call = .deleteContainer "acc" "c" := rfl
  refine recreated_intact compatible_sampleRecreation hdel (fun i hi => ?_) arisen_sampleStored _
    hreturned (hall 0) fun t e u htr => inTurn_deletedFirst htr
  match i with
  | 0 => exact absurd rfl hi
  | 1 | 2 => rfl

/-- The container is created and the blob written after the transaction of the deletion and before
its removals. -/
def deletedAround : Conf (Fin 3) Action Action.Response AzureError Reply World :=
  sample.race sampleRecreation sampleStored
    (List.replicate 2 0 ++ List.replicate 3 1 ++ List.replicate 12 2 ++ List.replicate 2 0)

theorem recreated_not_intact :
    (∀ i, deletedAround.Succeeded i) ∧ ¬ Intact sample ⟨"acc", "c"⟩ deletedAround.state := by
  have hrun : (∀ i, deletedAround.Succeeded i) ∧
      (deletedAround.state.db.blobs.lookup ⟨"acc", "c", "b"⟩).isSome = true ∧
      deletedAround.state.fs.file? (sample.blobFile ⟨"acc", "c", "b"⟩) = none := by
    decide +kernel
  obtain ⟨hall, hsome, hnone⟩ := hrun
  refine ⟨hall, fun h => ?_⟩
  obtain ⟨row, hrow⟩ := Option.isSome_iff_exists.mp hsome
  obtain ⟨bytes, hfile, -⟩ := h.blob ⟨"acc", "c", "b"⟩ row rfl hrow
  cases hnone.symm.trans hfile

end BlobStore
