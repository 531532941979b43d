import BlobStore.Storage.Concurrent.Uploads
import Mathlib.Algebra.GroupWithZero.Nat

/-!
# A block list beside an upload

`put_block_list` takes the sizes of its blocks from their rows and, later, the bytes from their
files; it clears all rows of the blob and, later, removes the files it has read, by their paths. An
upload of a block can fall into each of these gaps.
-/

namespace BlobStore

open Codec FileTree Resumption Proc

variable {B : FsBackend}

/-! ### What a block list has seen -/

/-- Actions that change neither rows of blobs nor lists of committed blocks. -/
def Action.KeepsBlobs : Action → Prop
  | .getContainer _ | .getCommittedBlocks _ | .getStagedBlock _ | .getBlob _
  | .stageBlock _ _ _ => True
  | a                 => a.IsFs

lemma Action.IsFs.keepsBlobs {a : Action} (ha : a.IsFs) : a.KeepsBlobs := by
  cases a <;> first | exact ha | trivial

lemma Action.KeepsBlobs.exec {a : Action} (ha : a.KeepsBlobs) (w : World) :
    (a.exec w).2.db.blobs = w.db.blobs ∧
      (a.exec w).2.db.committedBlocks = w.db.committedBlocks := by
  cases a with
  | stageBlock f s r => cases f <;> exact ⟨rfl, rfl⟩
  | removeFile fails p =>
    rw [Action.IsFs.exec_db (a := .removeFile fails p) trivial]
    exact ⟨rfl, rfl⟩
  | _ => first | exact ⟨rfl, rfl⟩ | cases ha

lemma after_keepsBlobs {ι : Type} {tr : Trace ι Action Action.Response}
    (htr : ∀ x ∈ tr, x.2.1.KeepsBlobs) (w : World) :
    (after Action.exec w tr).db.blobs = w.db.blobs ∧
      (after Action.exec w tr).db.committedBlocks = w.db.committedBlocks := by
  induction tr generalizing w with
  | nil => exact ⟨rfl, rfl⟩
  | cons x tr ih =>
    obtain ⟨hblobs, hcommitted⟩ := (htr x List.mem_cons_self).exec w
    obtain ⟨ihblobs, ihcommitted⟩ := ih (fun y hy => htr y (List.mem_cons_of_mem _ hy))
      (Action.exec x.2.1 w).2
    rw [after_cons, ihblobs, ihcommitted]
    exact ⟨hblobs, hcommitted⟩

/-- An entry of the list to be committed, and the file its bytes are taken from: a row has been
looked up. -/
def LookedUp (B : FsBackend) (k : BlobKey) (committed : List CommittedBlock) (refs : List BlockRef)
    (h : List (Event Action Action.Response)) (e : CommittedBlock) (p : Path) : Prop :=
  ∃ rec, ⟨.getStagedBlock ⟨k, e.blockId⟩, some rec⟩ ∈ h ∧ p = B.stored rec.storagePath ∧
    (e.size = rec.blockSize ∨ (∃ ref ∈ refs, ref.kind = .committed ∧ ref.blockId = e.blockId) ∧
      FsBackend.committedSize committed e.blockId = some e.size)

lemma LookedUp.mono {k : BlobKey} {committed : List CommittedBlock} {refs refs' : List BlockRef}
    {h h' : List (Event Action Action.Response)} {e : CommittedBlock} {p : Path}
    (hl : LookedUp B k committed refs h e p) (hrefs : refs ⊆ refs') (hh : h ⊆ h') :
    LookedUp B k committed refs' h' e p := by
  obtain ⟨rec, hrec, hp, hsize⟩ := hl
  refine ⟨rec, hh hrec, hp, hsize.imp_right fun ⟨⟨ref, href, hkind⟩, hcommitted⟩ => ?_⟩
  exact ⟨⟨ref, hrefs href, hkind⟩, hcommitted⟩

lemma history_resolveRefs (k : BlobKey) (committed : List CommittedBlock) (refs : List BlockRef)
    (h : List (Event Action Action.Response)) :
    FollowsHistory (fun h' r => h <+: h' ∧ ∀ l, r = .ok l → ∀ e ∈ l, ∀ p, e.2 = some p →
        LookedUp B k committed refs h' e.1 p)
      h (B.resolveRefs k committed refs) := by
  induction refs generalizing h with
  | nil =>
    refine ⟨List.prefix_refl h, fun l hl => ?_⟩
    cases hl
    simp
  | cons ref refs ih =>
    refine follows_perform_bind.mpr fun staged _ => ⟨_, rfl, ?_⟩
    have hgrown := List.prefix_append h [(⟨.getStagedBlock ⟨k, ref.blockId⟩, staged⟩ :
      Event Action Action.Response)]
    cases href : B.resolveRef committed staged ref with
    | error e => exact ⟨hgrown, fun l hl => error_elim hl⟩
    | ok res =>
      refine (ih _).bind ?_ fun h' e hh => ⟨hgrown.trans hh.1, fun l hl => error_elim hl⟩
      rintro h' rest ⟨hpre, hrest⟩
      refine ⟨hgrown.trans hpre, fun l hl e he p hp => ?_⟩
      cases hl
      rcases List.mem_cons.mp he with rfl | he
      · obtain ⟨size, path⟩ := res
        cases hp
        obtain ⟨rec, rfl, rfl, hsize⟩ := resolveRef_eq_some href
        refine ⟨rec, hpre.subset (by simp), rfl, hsize.imp_right fun ⟨hkind, hcommitted⟩ => ?_⟩
        exact ⟨⟨ref, List.mem_cons_self, hkind, rfl⟩, hcommitted⟩
      · exact (hrest rest rfl e he p hp).mono (List.subset_cons_self _ _) (List.Subset.refl _)

/-- Files that have been opened, with their contents. -/
def Opened (h : List (Event Action Action.Response)) : List Path → List Bytes → Prop :=
  List.Forall₂ fun p bytes => ⟨.openFile p, .ok bytes⟩ ∈ h

lemma Opened.mono {h h' : List (Event Action Action.Response)} {parts : List Path}
    {contents : List Bytes} (ho : Opened h parts contents) (hh : h ⊆ h') :
    Opened h' parts contents :=
  List.Forall₂.imp (fun _ _ hp => hh hp) ho

namespace FsIo

variable {amb : Ambient}

lemma history_writeChunks (tmp : Path) (body : ByteStream) (total : ℕ) (hashed : Bytes)
    (h : List (Event Action Action.Response)) :
    FollowsHistory (fun h' r => h <+: h' ∧ ∀ s, r = .ok s → ∃ bytes, body.collect = .ok bytes ∧
        s.1 = total + bytes.length)
      h (writeChunks tmp body total hashed) := by
  induction body generalizing total hashed h with
  | nil =>
    refine ⟨List.prefix_refl h, fun s hs => ?_⟩
    cases hs
    exact ⟨[], rfl, rfl⟩
  | cons x body ih =>
    cases x with
    | error e => exact ⟨List.prefix_refl h, fun s hs => error_elim hs⟩
    | ok chunk =>
      refine follows_perform_bind.mpr fun r _ => ⟨_, rfl, (ih _ _ _).mono ?_⟩
      rintro h' r' ⟨hpre, hr'⟩
      refine ⟨(List.prefix_append h _).trans hpre, fun s hs => ?_⟩
      obtain ⟨bytes, hbytes, hlen⟩ := hr' s hs
      exact ⟨chunk ++ bytes, by simp [ByteStream.collect, hbytes], by simp [hlen, Nat.add_assoc]⟩

lemma history_copyParts (tmp : Path) (parts : List Path) (total : ℕ) (hashed : Bytes)
    (h : List (Event Action Action.Response)) :
    FollowsHistory (fun h' r => h <+: h' ∧ ∀ s, r = .ok s → ∃ contents,
        Opened h' parts contents ∧ s.1 = total + contents.flatten.length)
      h (copyParts amb tmp parts total hashed) := by
  induction parts generalizing total hashed h with
  | nil =>
    refine ⟨List.prefix_refl h, fun s hs => ?_⟩
    cases hs
    exact ⟨[], .nil, rfl⟩
  | cons part parts ih =>
    refine follows_perform_bind.mpr fun r _ => ⟨_, rfl, ?_⟩
    rcases r with e | bytes
    · exact ⟨List.prefix_append h _, fun s hs => error_elim hs⟩
    · refine (history_writeChunks tmp _ total hashed _).bind ?_ fun h' e hh => ?_
      · rintro h₁ s ⟨hpre₁, hs⟩
        obtain ⟨bytes', hbytes, hlen⟩ := hs s rfl
        rw [collect_map_ok, flatten_readPieces _ _ _ le_rfl] at hbytes
        cases hbytes
        refine (ih _ _ h₁).mono ?_
        rintro h₂ r ⟨hpre₂, hr⟩
        refine ⟨(List.prefix_append h _).trans (hpre₁.trans hpre₂), fun s' hs' => ?_⟩
        obtain ⟨contents, hopened, hlen'⟩ := hr s' hs'
        refine ⟨bytes :: contents, .cons ((hpre₁.trans hpre₂).subset (by simp)) hopened, ?_⟩
        rw [hlen', hlen, List.flatten_cons, List.length_append, Nat.add_assoc]
      · exact ⟨(List.prefix_append h _).trans hh.1, fun s hs => error_elim hs⟩

lemma history_concatenateFilesAtomic (md5 : Bytes → Bytes) (amb : Ambient) (tmpDir finalPath : String)
    (parts : List Path) (h : List (Event Action Action.Response)) :
    FollowsHistory (fun h' r => ∀ s, r = .ok s → ∃ contents,
        Opened h' parts contents ∧ s.1 = contents.flatten.length)
      h (concatenateFilesAtomic md5 amb tmpDir finalPath parts) := by
  unfold concatenateFilesAtomic
  refine (follows_history h _).bind (fun h₁ _ _ => ?_) fun _ _ _ s hs => error_elim hs
  refine (follows_history h₁ _).bind (fun h₂ _ _ => ?_) fun _ _ _ s hs => error_elim hs
  refine follows_perform_bind.mpr fun r _ => ⟨_, rfl, ?_⟩
  rcases r with e | ⟨⟩
  · exact fun s hs => error_elim hs
  · refine (history_copyParts _ parts 0 [] _).bind ?_ fun _ _ _ s hs => error_elim hs
    rintro h₃ s ⟨-, hs⟩
    obtain ⟨contents, hopened, hlen⟩ := hs s rfl
    refine (follows_history h₃ _).bind (fun h₄ _ hpre => ?_) fun _ _ _ s hs => error_elim hs
    refine follows_pure.mpr fun s' hs' => ?_
    cases hs'
    exact ⟨contents, hopened.mono hpre.subset, by rw [hlen, Nat.zero_add]⟩

end FsIo

/-- A list of blocks that has been committed: its rows had been looked up and its files opened, and
nothing else has been done to blobs. -/
structure Committing (B : FsBackend) (amb : Ambient) (k : BlobKey) (refs : List BlockRef)
    (h : List (Event Action Action.Response)) where
  before : List (Event Action Action.Response)
  behind : List (Event Action Action.Response)
  committed : List CommittedBlock
  resolved : List CommittedBlock
  parts : List Path
  contents : List Bytes
  upsert : BlobUpsert
  history : h = before ++ ⟨.commitBlockList amb.dbFault k resolved upsert, .ok ()⟩ :: behind
  keeps : ∀ ev ∈ before ++ behind, ev.1.KeepsBlobs
  listed : ⟨.getCommittedBlocks k, committed⟩ ∈ before
  lookedUp : List.Forall₂ (LookedUp B k committed refs before) resolved parts
  opened : Opened before parts contents
  contentLength : upsert.contentLength = contents.flatten.length

lemma issues_keepsBlobs_requireContainer (a c : String) :
    Issues Action.KeepsBlobs (requireContainer a c) := by
  refine Issues.perform_bind trivial fun row => ?_
  cases row <;> trivial

lemma issues_keepsBlobs_requireBlob (a c b : String) :
    Issues Action.KeepsBlobs (requireBlob a c b) := by
  refine Issues.perform_bind trivial fun row => ?_
  cases row <;> trivial

lemma issues_keepsBlobs_resolveRefs (k : BlobKey) (committed : List CommittedBlock)
    (refs : List BlockRef) : Issues Action.KeepsBlobs (B.resolveRefs k committed refs) := by
  induction refs with
  | nil => trivial
  | cons ref refs ih =>
    refine Issues.perform_bind trivial fun staged => ?_
    exact Issues.bind issues_ofExcept fun _ => ih.bind fun _ => issues_pure

lemma forall₂_of_mapM_snd {R : CommittedBlock → Path → Prop}
    {l : List (CommittedBlock × Option Path)} {paths : List Path}
    (hl : ∀ e ∈ l, ∀ p, e.2 = some p → R e.1 p) (h : l.mapM Prod.snd = some paths) :
    List.Forall₂ R (l.map Prod.fst) paths := by
  induction l generalizing paths with
  | nil =>
    cases h
    exact .nil
  | cons e l ih =>
    rw [List.mapM_cons] at h
    obtain ⟨q, hq, h⟩ := Option.bind_eq_some_iff.mp h
    obtain ⟨rest, hrest, h⟩ := Option.bind_eq_some_iff.mp h
    cases h
    exact .cons (hl e List.mem_cons_self q hq)
      (ih (fun e' he' => hl e' (List.mem_cons_of_mem _ he')) hrest)

/-- What comes after the parts have been put together. -/
lemma history_commit {amb : Ambient} {k : BlobKey} {refs : List BlockRef}
    {h : List (Event Action Action.Response)} (hkeeps : ∀ ev ∈ h, ev.1.KeepsBlobs)
    {committed resolved : List CommittedBlock} {parts : List Path} {contents : List Bytes}
    (hlisted : ⟨.getCommittedBlocks k, committed⟩ ∈ h)
    (hlooked : List.Forall₂ (LookedUp B k committed refs h) resolved parts)
    (hopened : Opened h parts contents) {total : ℕ} (htotal : total = contents.flatten.length)
    (path md5 : String) (ct : Option String) (m : Metadata) (paths : List Path) :
    FollowsHistory (fun h' r => ∀ x, r = .ok x → Nonempty (Committing B amb k refs h')) h (do
      let row ← FsBackend.commitBlockList amb k.account k.container k.blob resolved path total md5 ct m
      FsBackend.removeAll amb paths
      pure (blobRowToProps row)) := by
  refine Follows.bind (Q := fun h' r => ∀ row, r = .ok row → Nonempty (Committing B amb k refs h'))
    ?_ (fun h' row hrow => ?_) fun _ _ _ x hx => error_elim hx
  · unfold FsBackend.commitBlockList
    refine ((issues_keepsBlobs_requireContainer _ _).history_all hkeeps).bind ?_
      fun _ _ _ x hx => error_elim hx
    rintro h₁ row ⟨hpre, hkeeps₁⟩
    refine follows_perform_bind.mpr fun r _ => ⟨_, rfl, ?_⟩
    rcases r with e | ⟨⟩
    · exact fun x hx => error_elim hx
    · refine (issues_keepsBlobs_requireBlob _ _ _).history.mono ?_
      rintro h₂ r ⟨t, rfl, ht⟩ x -
      refine ⟨⟨h₁, t, committed, resolved, parts, contents,
        ⟨total, ct, some md5, m, amb.etag, amb.lastModified, path⟩, by simp, ?_, hpre.subset hlisted,
        hlooked.imp fun e p he => he.mono (List.Subset.refl _) hpre.subset,
        hopened.mono hpre.subset, htotal⟩⟩
      intro ev hev
      rcases List.mem_append.mp hev with hev | hev
      · exact hkeeps₁ ev hev
      · exact ht ev hev
  · obtain ⟨c⟩ := hrow row rfl
    have hrest : Issues Action.KeepsBlobs (do
        FsBackend.removeAll amb paths
        pure (blobRowToProps row)) :=
      ((FsBackend.issues_removeAll amb paths).mono fun _ he => he.isFs.keepsBlobs).bind
        fun _ => issues_pure
    refine hrest.history.mono ?_
    rintro h'' r ⟨t, rfl, ht⟩ x -
    refine ⟨{ c with
      behind := c.behind ++ t
      history := by simp [c.history]
      keeps := fun ev hev => ?_ }⟩
    rw [← List.append_assoc] at hev
    rcases List.mem_append.mp hev with hev | hev
    · exact c.keeps ev hev
    · exact ht ev hev

/-- What a block list that is accepted has done. -/
lemma history_putBlockList (amb : Ambient) (k : BlobKey) (refs : List BlockRef)
    (ct : Option String) (m : Metadata) :
    FollowsHistory (fun h r => ∀ x, r = .ok x → Nonempty (Committing B amb k refs h)) []
      (B.call amb (.putBlockList k.account k.container k.blob refs ct m)) := by
  refine Follows.bind (Q := fun h r => ∀ x, r = .ok x → Nonempty (Committing B amb k refs h)) ?_
    (fun h x hx => follows_pure.mpr fun _ _ => hx x rfl) fun _ _ _ x hx => error_elim hx
  unfold FsBackend.putBlockList
  refine ((issues_keepsBlobs_requireContainer _ _).history_all (h := []) (by simp)).bind ?_
    fun _ _ _ x hx => error_elim hx
  rintro h₁ row ⟨-, hkeeps₁⟩
  refine follows_perform_bind.mpr fun committed _ => ⟨_, rfl, ?_⟩
  have hkeeps₂ : ∀ ev ∈ h₁ ++ [(⟨.getCommittedBlocks k, committed⟩ : Event Action Action.Response)],
      ev.1.KeepsBlobs := by
    intro ev hev
    rcases List.mem_append.mp hev with hev | hev
    · exact hkeeps₁ ev hev
    · rw [List.mem_singleton.mp hev]
      trivial
  refine ((history_resolveRefs (B := B) k committed refs _).and
    ((issues_keepsBlobs_resolveRefs k committed refs).history_all hkeeps₂)).bind ?_
    fun _ _ _ x hx => error_elim hx
  rintro h₃ resolved ⟨⟨hpre₃, hlooked⟩, -, hkeeps₃⟩
  dsimp only
  cases hpaths : resolved.mapM Prod.snd with
  | none => exact fun x hx => error_elim hx
  | some parts =>
    have hissues := (FsIo.issues_concatenateFilesAtomic B.md5 amb (B.tmpDir k.account)
      (B.blobPaths k.account k.container k.blob).1 parts).mono fun _ he => he.isFs.keepsBlobs
    have hconcat := (FsIo.history_concatenateFilesAtomic B.md5 amb (B.tmpDir k.account)
      (B.blobPaths k.account k.container k.blob).1 parts h₃).and (hissues.history_all hkeeps₃)
    refine (follows_mapErr.mpr (hconcat.mono ?_)).bind (Q := fun h r => (∀ s, r = .ok s →
      ∃ contents, Opened h parts contents ∧ s.1 = contents.flatten.length) ∧ h₃ <+: h ∧
        ∀ ev ∈ h, ev.1.KeepsBlobs) ?_ fun _ _ _ x hx => error_elim hx
    · rintro h (e | s) hh
      · exact ⟨fun s hs => error_elim hs, hh.2⟩
      · refine ⟨fun s' hs' => ?_, hh.2⟩
        cases hs'
        exact hh.1 s rfl
    · rintro h₄ s ⟨hs, hpre₄, hkeeps₄⟩
      obtain ⟨contents, hopened, htotal⟩ := hs s rfl
      have hlisted : ⟨.getCommittedBlocks k, committed⟩ ∈ h₄ :=
        (hpre₃.trans hpre₄).subset (by simp)
      refine history_commit hkeeps₄ hlisted ?_ hopened htotal _ _ _ _ _
      exact forall₂_of_mapM_snd (fun e he p hp => (hlooked resolved rfl e he p hp).mono
        (List.Subset.refl _) hpre₄.subset) hpaths

/-! ### Both together -/

section Steps

variable {ι : Type} [DecidableEq ι]

/-- The block whose row a process looks up at step `n` of a trace. -/
def looksUp (i : ι) (tr : Trace ι Action Action.Response) (n : ℕ) : Option StagedBlockKey :=
  match tr[n]? with
  | some (j, ⟨.getStagedBlock b, _⟩) => if j = i then some b else none
  | _                                => none

/-- The file that a process opens at step `n` of a trace. -/
def opens (i : ι) (tr : Trace ι Action Action.Response) (n : ℕ) : Option Path :=
  match tr[n]? with
  | some (j, ⟨.openFile p, _⟩) => if j = i then some p else none
  | _                          => none

end Steps

/-- A block list and an upload come in an order that does no harm: the file of a block is opened as
long as it belongs to the row that was looked up, blocks listed as committed are staged with the size
they are committed with, and the file of a block that stays staged is not removed. -/
structure Orderly (B : FsBackend) (k : BlobKey) (refs : List BlockRef) (w : World)
    (tr : Trace Bool Action Action.Response) : Prop where
  paired : ∀ n n' b, looksUp false tr n = some b → opens false tr n' = some (B.stagedFile b) →
    owner (.block b) (tr.take n) = holder B (.block b) (tr.take n')
  sizes : ∀ ref ∈ refs, ref.kind = .committed → ∀ n, looksUp false tr n = some ⟨k, ref.blockId⟩ →
    FsBackend.committedSize (w.db.getCommittedBlocks k) ref.blockId =
      ((after Action.exec w (tr.take n)).db.stagedBlocks.lookup ⟨k, ref.blockId⟩).map
        StagedBlockRecord.blockSize
  kept : ∀ id, owner (.block ⟨k, id⟩) tr = .write true → holder B (.block ⟨k, id⟩) tr ≠ .gone

/-- The rows of staged blocks have files of their size. -/
def StagedWhole (B : FsBackend) (k : BlobKey) (w : World) : Prop :=
  ∀ id row, w.db.stagedBlocks.lookup ⟨k, id⟩ = some row → ∃ bytes,
    w.fs.file? (B.stagedFile ⟨k, id⟩) = some bytes ∧ row.blockSize = bytes.length

/-- The sizes of the committed blocks add up to the length of the blob. -/
def SizesAddUp (k : BlobKey) (w : World) : Prop :=
  ∃ row, w.db.blobs.lookup k = some row ∧
    ((w.db.getCommittedBlocks k).map CommittedBlock.size).sum = row.contentLength

lemma sum_sizes {resolved : List CommittedBlock} {parts : List Path} {contents : List Bytes}
    {L : CommittedBlock → Path → Prop} {O : Path → Bytes → Prop}
    (hlooked : List.Forall₂ L resolved parts) (hopened : List.Forall₂ O parts contents)
    (hsize : ∀ e p bytes, L e p → O p bytes → e.size = bytes.length) :
    (resolved.map CommittedBlock.size).sum = contents.flatten.length := by
  induction hlooked generalizing contents with
  | nil =>
    cases hopened
    rfl
  | cons hl _ ih =>
    cases hopened with
    | cons ho hrest =>
      rw [List.map_cons, List.sum_cons, List.flatten_cons, List.length_append, ih hrest,
        hsize _ _ _ hl ho]

variable {w : World} {k : BlobKey} {req : Bool → Request} {refs : List BlockRef}
  {ct : Option String} {m : Metadata} {id : String} {body : ByteStream}

/-- A row that was looked up and a file that was opened, of the same write, agree in size. -/
lemma size_of_paired {φ : Bool → Phase} {tr : Trace Bool Action Action.Response}
    (hsteady : Steady B req w (after Action.exec w tr) tr φ) (hstaged : StagedWhole B k w)
    {n n' : ℕ} {rec : StagedBlockRecord} {bytes : Bytes}
    (hrec : (after Action.exec w (tr.take n)).db.stagedBlocks.lookup ⟨k, id⟩ = some rec)
    (hbytes : (after Action.exec w (tr.take n')).fs.file? (B.stagedFile ⟨k, id⟩) = some bytes)
    (hsame : owner (.block ⟨k, id⟩) (tr.take n) = holder B (.block ⟨k, id⟩) (tr.take n')) :
    rec.blockSize = bytes.length := by
  obtain ⟨φ₁, htraced₁, hkept₁⟩ := hsteady.past _ (List.take_prefix n tr)
  obtain ⟨φ₂, htraced₂, hkept₂⟩ := hsteady.past _ (List.take_prefix n' tr)
  have hrow := htraced₁.block ⟨k, id⟩
  have hfile := htraced₂.file (.block ⟨k, id⟩)
  rw [← hsame] at hfile
  rw [FsBackend.slotFile] at hfile
  cases howner : owner (.block ⟨k, id⟩) (tr.take n) with
  | start =>
    rw [howner] at hrow hfile
    obtain ⟨bytes', hbytes', hsize⟩ := hstaged id rec (hrow.symm.trans hrec)
    cases hbytes'.symm.trans (hfile.symm.trans hbytes)
    exact hsize
  | gone =>
    rw [howner] at hrow
    cases hrow.symm.trans hrec
  | write j =>
    rw [howner] at hrow hfile
    obtain ⟨rec', hrec', hpub₁, bytes₁, hversion₁, hblock⟩ := hrow
    obtain ⟨bytes₂, hfile₂, hpub₂, hslot, hversion₂⟩ := hfile
    cases hrec'.symm.trans hrec
    cases hfile₂.symm.trans hbytes
    have hsome : (req j).call.slot.isSome := by rw [hslot]; rfl
    have hfinal₁ := (hkept₁ j hpub₁ hsome).2.trans hversion₁
    have hfinal₂ := (hkept₂ j hpub₂ hsome).2.trans hversion₂
    cases hfinal₁.symm.trans hfinal₂
    exact blockSize_of_blockRow hblock

lemma Action.OnStaged.keepsBlobs {a : Action} (ha : a.OnStaged) : a.KeepsBlobs := by
  cases a <;> first | exact ha | trivial

/-- The statement of a block list that succeeded, in the trace of both. -/
lemma exists_commit
    (hlist : (req false).call = .putBlockList k.account k.container k.blob refs ct m)
    (hblock : (req true).call = .putBlock k.account k.container k.blob id body)
    (schedule : List Bool) (hok : (B.race req w schedule).Succeeded false) :
    ∃ (c : Committing B (req false).amb k refs
        (Trace.history false (B.race req w schedule).trace)) (tr₁ tr₂ : _),
      (B.race req w schedule).trace = tr₁ ++ (false,
        ⟨.commitBlockList (req false).amb.dbFault k c.resolved c.upsert, .ok ()⟩) :: tr₂ ∧
      Trace.history false tr₁ = c.before ∧
      (∀ x ∈ tr₁, x.2.1.KeepsBlobs) ∧ ∀ x ∈ tr₂, x.2.1.KeepsBlobs := by
  obtain ⟨reply, hreply⟩ := hok
  have hhist := Conf.run_history Action.exec (fun i => B.call (req i).amb (req i).call) false
    (by rw [hlist]; exact history_putBlockList _ k refs ct m) w schedule hreply
  obtain ⟨c⟩ := hhist reply rfl
  obtain ⟨tr₁, tr₂, htr, hbefore, hbehind⟩ := Trace.exists_of_history_eq_append c.history
  have htr' : (B.race req w schedule).trace = tr₁ ++ (false,
      ⟨.commitBlockList (req false).amb.dbFault k c.resolved c.upsert, .ok ()⟩) :: tr₂ := htr
  -- the steps of the upload change no blob
  have hupload : ∀ x ∈ (B.race req w schedule).trace, x.1 = true → x.2.1.KeepsBlobs := by
    refine Conf.run_requests Action.exec (P := fun i e => i = true → e.KeepsBlobs) (fun i => ?_) w
      schedule
    cases i with
    | false => exact (issues_locates (B := B) _ _).mono fun _ _ h => absurd h (by simp)
    | true =>
      rw [hblock]
      exact (issues_onStaged_putBlock _ _ _ _ _ _).mono fun _ he _ => he.keepsBlobs
  have hkeeps : ∀ x ∈ (B.race req w schedule).trace, (x.1 = false → x.2 ∈ c.before ++ c.behind) →
      x.2.1.KeepsBlobs := by
    intro x hx hhist
    cases hi : x.1 with
    | false => exact c.keeps _ (hhist hi)
    | true => exact hupload x hx hi
  refine ⟨c, tr₁, tr₂, htr', hbefore, fun x hx => hkeeps x (by simp [htr', hx]) fun hi => ?_,
    fun x hx => hkeeps x (by simp [htr', hx]) fun hi => ?_⟩
  · exact List.mem_append_left _ (hbefore ▸ hi ▸ Trace.mem_history hx)
  · exact List.mem_append_right _ (hbehind ▸ hi ▸ Trace.mem_history hx)

/-- What a block list has looked up and opened has the recorded size. -/
lemma Committing.size (hreq : Compatible req)
    (hlist : (req false).call = .putBlockList k.account k.container k.blob refs ct m)
    (hw : Arisen B w) (hstaged : StagedWhole B k w) (schedule : List Bool)
    (horder : Orderly B k refs w (B.race req w schedule).trace)
    {tr₁ tr₂ : Trace Bool Action Action.Response}
    (htr : (B.race req w schedule).trace = tr₁ ++ tr₂) (hkeeps : ∀ x ∈ tr₁, x.2.1.KeepsBlobs)
    {committed : List CommittedBlock}
    (hcommitted : ⟨.getCommittedBlocks k, committed⟩ ∈ Trace.history false tr₁)
    {e : CommittedBlock} {p : Path} {bytes : Bytes}
    (hlooked : LookedUp B k committed refs (Trace.history false tr₁) e p)
    (hopened : ⟨.openFile p, .ok bytes⟩ ∈ Trace.history false tr₁) : e.size = bytes.length := by
  obtain ⟨φ, hsteady, -⟩ := race_steady hreq hw.located schedule
  have hrecorded := Conf.run_recorded Action.exec (fun i => B.call (req i).amb (req i).call) w
    schedule
  have hk : k.containerKey.Ordinary := hreq.ordinary false _ (by rw [hlist]; rfl)
  -- the events of the list, as places in the whole trace
  have hplace : ∀ ev, ev ∈ Trace.history false tr₁ →
      ∃ n : ℕ, (B.race req w schedule).trace[n]? = some (false, ev) ∧
        (B.race req w schedule).trace.take n = tr₁.take n := by
    intro ev hev
    obtain ⟨n, hn⟩ := Trace.exists_getElem_of_mem_history hev
    have hlt : n < tr₁.length := (List.getElem?_eq_some_iff.mp hn).1
    refine ⟨n, ?_, ?_⟩
    · rw [htr, List.getElem?_append_left hlt, hn]
    · rw [htr, List.take_append_of_le_length hlt.le]
  obtain ⟨rec, hrec, rfl, hsize⟩ := hlooked
  obtain ⟨n, hn, -⟩ := hplace _ hrec
  obtain ⟨n', hn', -⟩ := hplace _ hopened
  obtain ⟨n₀, hn₀, htake₀⟩ := hplace _ hcommitted
  have hrow : (after Action.exec w
      ((B.race req w schedule).trace.take n)).db.stagedBlocks.lookup ⟨k, e.blockId⟩ = some rec :=
    (hrecorded.answer_getElem _ hn).symm
  have hbytes := FsTree.openFile_eq_ok.mp (hrecorded.answer_getElem _ hn').symm
  obtain ⟨φ₁, htraced₁, -⟩ := hsteady.past _ (List.take_prefix n _)
  have hfile := htraced₁.located.stored_staged hk hrow
  have hlook : looksUp false (B.race req w schedule).trace n = some ⟨k, e.blockId⟩ := by
    simp [looksUp, hn]
  have hopen : opens false (B.race req w schedule).trace n' = some (B.stagedFile ⟨k, e.blockId⟩) := by
    simp [opens, hn', hfile]
  rw [hfile] at hbytes
  have hstate := hsteady.state
  rw [hstate] at hsteady
  have hrecSize := size_of_paired hsteady hstaged hrow hbytes (horder.paired n n' _ hlook hopen)
  rcases hsize with hsize | ⟨⟨ref, href, hkind, hid⟩, hsize⟩
  · exact hsize.trans hrecSize
  · -- listed as a committed block: its size was read from the old list
    have hold : committed = w.db.getCommittedBlocks k := by
      have hanswer : committed = (after Action.exec w
          ((B.race req w schedule).trace.take n₀)).db.getCommittedBlocks k :=
        hrecorded.answer_getElem _ hn₀
      rw [hanswer, htake₀, MetadataDb.getCommittedBlocks, MetadataDb.getCommittedBlocks,
        (after_keepsBlobs (fun x hx => hkeeps x (List.mem_of_mem_take hx)) w).2]
    have hsame := horder.sizes ref href hkind n (by rw [hid]; exact hlook)
    rw [hid, ← hold, hsize, hrow] at hsame
    exact (Option.some.inj hsame).trans hrecSize

/-- If a block list and an upload come in an orderly way and the list succeeds, all staged rows of
the blob have their files, and the sizes of its blocks add up. -/
theorem overlap_consistent (hreq : Compatible req)
    (hlist : (req false).call = .putBlockList k.account k.container k.blob refs ct m)
    (hblock : (req true).call = .putBlock k.account k.container k.blob id body)
    (hw : Arisen B w) (hstaged : StagedWhole B k w) (schedule : List Bool)
    (hok : (B.race req w schedule).Succeeded false)
    (horder : Orderly B k refs w (B.race req w schedule).trace) :
    StagedWhole B k (B.race req w schedule).state ∧ SizesAddUp k (B.race req w schedule).state := by
  obtain ⟨φ, hsteady, -⟩ := race_steady hreq hw.located schedule
  have htraced := hsteady.traced
  have hrecorded := Conf.run_recorded Action.exec (fun i => B.call (req i).amb (req i).call) w
    schedule
  obtain ⟨c, tr₁, tr₂, htr, hbefore, hkeeps₁, hkeeps₂⟩ := exists_commit hlist hblock schedule hok
  constructor
  · intro id' row hrow
    have hexplained := htraced.block ⟨k, id'⟩
    have hfile := htraced.file (.block ⟨k, id'⟩)
    rw [FsBackend.slotFile] at hfile
    cases howner : owner (.block ⟨k, id'⟩) (B.race req w schedule).trace with
    | start =>
      -- the list has cleared it
      have hpre : tr₁ ++ [(false, ⟨.commitBlockList (req false).amb.dbFault k c.resolved c.upsert,
          .ok ()⟩)] <+: (B.race req w schedule).trace := ⟨tr₂, by simp [htr]⟩
      have hstart := owner_start_of_initial hpre howner
      rw [owner_snoc] at hstart
      simp [rowEffect, Source.after] at hstart
    | gone =>
      rw [howner] at hexplained
      cases hexplained.symm.trans hrow
    | write i =>
      rw [howner] at hexplained
      obtain ⟨row', hrow', hpub, bytes, hversion, hrec⟩ := hexplained
      cases hrow'.symm.trans hrow
      have hslot := slot_of_blockRow hrec
      have hi : i = true := by
        cases i with
        | true => rfl
        | false =>
          rw [hlist] at hslot
          cases hslot
      subst hi
      cases hholder : holder B (.block ⟨k, id'⟩) (B.race req w schedule).trace with
      | start => exact absurd hholder (htraced.placed true hpub _ hslot)
      | gone => exact absurd hholder (horder.kept id' howner)
      | write j =>
        rw [hholder] at hfile
        obtain ⟨bytes', hcontent, -, hslot', hversion'⟩ := hfile
        have hj : j = true := by
          cases j with
          | true => rfl
          | false =>
            rw [hlist] at hslot'
            cases hslot'
        subst hj
        cases hversion.symm.trans hversion'
        exact ⟨bytes, hcontent, blockSize_of_blockRow hrec⟩
  · have hsum : (c.resolved.map CommittedBlock.size).sum = c.contents.flatten.length := by
      refine sum_sizes c.lookedUp c.opened fun e p bytes hl ho => ?_
      refine Committing.size hreq hlist hw hstaged schedule horder htr hkeeps₁
        (hbefore ▸ c.listed) (hbefore ▸ hl) (hbefore ▸ ho)
    have hanswer := hrecorded.answer _ _ _ htr
    have hstate : (B.race req w schedule).state = _ := hrecorded.state
    have htrace : (Conf.run Action.exec (fun i => B.call (req i).amb (req i).call) w
      schedule).trace = _ := htr
    rw [htrace, after_append, after_cons] at hstate
    obtain ⟨hblobs, hcommitted⟩ := after_keepsBlobs hkeeps₂ (Action.exec
      (.commitBlockList (req false).amb.dbFault k c.resolved c.upsert) (after Action.exec w tr₁)).2
    rcases exec_commitBlockList (req false).amb.dbFault k c.resolved c.upsert
      (after Action.exec w tr₁) with ⟨er, hres⟩ | hres
    · exact error_elim ((congrArg Prod.fst hres).symm.trans hanswer.symm)
    · rw [hres] at hblobs hcommitted
      refine ⟨MetadataDb.upsertedRow k c.upsert
        ((after Action.exec w tr₁).db.blobs.lookup k), ?_, ?_⟩
      · rw [hstate, hres, hblobs]
        exact AList.lookup_insert _
      · rw [hstate, hres, MetadataDb.getCommittedBlocks, hcommitted, AList.lookup_insert,
          Option.getD_some, hsum, ← c.contentLength]
        cases (after Action.exec w tr₁).db.blobs.lookup k <;> rfl

/-- A block list, and an upload of the block it names. -/
def sampleOverlap : Bool → Request
  | false => ⟨sampleAmb 4, .putBlockList "acc" "c" "b" [⟨"AAAA", .latest⟩] none ∅⟩
  | true  => ⟨sampleAmb 5, .putBlock "acc" "c" "b" "AAAA" [.ok [2]]⟩

lemma compatible_sampleOverlap : Compatible sampleOverlap where
  ordinary := by decide
  noPatch := by decide
  tmp := by decide +kernel

/-- A staged block of two bytes. -/
def sampleStaged : World :=
  ((sample.call (sampleAmb 2) (.putBlock "acc" "c" "b" "AAAA" [.ok [1, 2]])).run sampleContainer).2

lemma arisen_sampleStaged : Arisen sample sampleStaged := .call arisen_sampleContainer _ _

/-- The upload first, then the list. -/
def uploadFirst : Conf Bool Action Action.Response AzureError Reply World :=
  sample.race sampleOverlap sampleStaged (List.replicate 10 true ++ List.replicate 15 false)

lemma looksUp_lt {ι : Type} [DecidableEq ι] {i : ι} {tr : Trace ι Action Action.Response} {n : ℕ}
    {b : StagedBlockKey} (h : looksUp i tr n = some b) : n < tr.length := by
  by_contra hn
  rw [looksUp, List.getElem?_eq_none (not_lt.mp hn)] at h
  cases h

lemma opens_lt {ι : Type} [DecidableEq ι] {i : ι} {tr : Trace ι Action Action.Response} {n : ℕ}
    {p : Path} (h : opens i tr n = some p) : n < tr.length := by
  by_contra hn
  rw [opens, List.getElem?_eq_none (not_lt.mp hn)] at h
  cases h

lemma orderly_uploadFirst :
    Orderly sample ⟨"acc", "c", "b"⟩ [⟨"AAAA", .latest⟩] sampleStaged uploadFirst.trace where
  paired n n' b hn hn' := by
    have hall : ∀ n < uploadFirst.trace.length, ∀ n' < uploadFirst.trace.length,
        ∀ b ∈ looksUp false uploadFirst.trace n,
          opens false uploadFirst.trace n' = some (sample.stagedFile b) →
            owner (.block b) (uploadFirst.trace.take n) =
              holder sample (.block b) (uploadFirst.trace.take n') := by
      decide +kernel
    exact hall n (looksUp_lt hn) n' (opens_lt hn') b hn hn'
  sizes ref href hkind := by
    rw [List.mem_singleton.mp href] at hkind
    cases hkind
  kept id howner := by
    obtain ⟨φ, hsteady, -⟩ := race_steady compatible_sampleOverlap arisen_sampleStaged.located
      (List.replicate 10 true ++ List.replicate 15 false)
    cases hsteady.traced.slot_of_owner howner
    exact absurd howner (by decide +kernel)

theorem overlap_consistent_uploadFirst :
    StagedWhole sample ⟨"acc", "c", "b"⟩ uploadFirst.state ∧
      SizesAddUp ⟨"acc", "c", "b"⟩ uploadFirst.state := by
  refine overlap_consistent (m := ∅) compatible_sampleOverlap rfl rfl arisen_sampleStaged ?_ _
    (by decide +kernel) orderly_uploadFirst
  have hall : ∀ e ∈ sampleStaged.db.stagedBlocks.entries,
      (sampleStaged.fs.file? (sample.stagedFile e.1)).map List.length = some e.2.blockSize := by
    decide +kernel
  intro id row hrow
  obtain ⟨bytes, hbytes, hlen⟩ :=
    Option.map_eq_some_iff.mp (hall ⟨_, row⟩ (AList.mem_lookup_iff.mp hrow))
  exact ⟨bytes, hbytes, hlen.symm⟩

/-- The upload comes between the statement of the list and the removal of the file. -/
def uploadLate : Conf Bool Action Action.Response AzureError Reply World :=
  sample.race sampleOverlap sampleStaged
    (List.replicate 14 false ++ List.replicate 10 true ++ [false])

/-- The upload comes between the lookup of the row and the opening of the file. -/
def uploadBetween : Conf Bool Action Action.Response AzureError Reply World :=
  sample.race sampleOverlap sampleStaged
    (List.replicate 6 false ++ List.replicate 10 true ++ List.replicate 9 false)

/-- Once the row of the new block is left without a file, once the list has the size of the old
block. -/
theorem overlap_inconsistent :
    (∀ i, uploadLate.Succeeded i) ∧ ¬ StagedWhole sample ⟨"acc", "c", "b"⟩ uploadLate.state ∧
    (∀ i, uploadBetween.Succeeded i) ∧ ¬ SizesAddUp ⟨"acc", "c", "b"⟩ uploadBetween.state := by
  have hlate : (∀ i, uploadLate.Succeeded i) ∧
      (uploadLate.state.db.stagedBlocks.lookup ⟨⟨"acc", "c", "b"⟩, "AAAA"⟩).isSome = true ∧
      uploadLate.state.fs.file? (sample.stagedFile ⟨⟨"acc", "c", "b"⟩, "AAAA"⟩) = none := by
    decide +kernel
  have hbetween : (∀ i, uploadBetween.Succeeded i) ∧
      (uploadBetween.state.db.blobs.lookup ⟨"acc", "c", "b"⟩).map BlobRow.contentLength = some 1 ∧
      ((uploadBetween.state.db.getCommittedBlocks ⟨"acc", "c", "b"⟩).map
        CommittedBlock.size).sum = 2 := by
    decide +kernel
  refine ⟨hlate.1, fun h => ?_, hbetween.1, ?_⟩
  · obtain ⟨row, hrow⟩ := Option.isSome_iff_exists.mp hlate.2.1
    obtain ⟨bytes, hbytes, -⟩ := h "AAAA" row hrow
    cases hlate.2.2.symm.trans hbytes
  · rintro ⟨row, hrow, hsum⟩
    have hlen := hbetween.2.1
    rw [hrow] at hlen
    cases (hbetween.2.2.symm.trans hsum).trans (Option.some.inj hlen)

end BlobStore
