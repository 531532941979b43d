import BlobStore.Storage.Concurrent.Traced
import BlobStore.Storage.TableHash
import BlobStore.Storage.Written

/-!
# Where the files of a container are

Names of blobs and ids of blocks are hashed before they become parts of a path; names of accounts
and containers are not. If both names are ordinary, all calls on a container keep to its directory,
and different containers have no file in common. If one is not, there is a call that leaves the
directory.
-/

namespace BlobStore

open Codec FileTree UnixPath Resumption Proc

/-- The directory of a container is kept to: all that is read, put or removed is in it, except that
a file comes from the temporary file `tmp`. -/
def Action.Within (B : FsBackend) (c : ContainerKey) (tmp : Path) : Action → Prop
  | .createFile p | .writeAll p _                       => p = tmp
  | .rename src dst                                     => src = tmp ∧ B.containerDir c <+: dst
  | .openFile p | .removeFile _ p | .removeDirAll _ p => B.containerDir c <+: p
  | _                                                   => True

variable {B : FsBackend} {c c' : ContainerKey} {amb : Ambient} {call : Call} {e : Action}

/-! ### Ordinary names -/

/-- An action that opens a file opens one in the directory of the container. -/
def Action.Opens (B : FsBackend) (c : ContainerKey) : Action → Prop
  | .openFile p => B.containerDir c <+: p
  | _           => True

namespace FsIo

variable (md5 : Bytes → Bytes) (amb : Ambient) (tmp final : Path) (tmpDir finalPath : String)

lemma issues_opens_writeChunks (body : ByteStream) (total : ℕ) (hashed : Bytes) :
    Issues (Action.Opens B c) (writeChunks tmp body total hashed) := by
  induction body generalizing total hashed with
  | nil => trivial
  | cons x body ih =>
    cases x with
    | error e => trivial
    | ok chunk => exact Issues.perform_bind trivial fun _ => ih _ _

lemma issues_opens_publish : Issues (Action.Opens B c) (publish tmp final) := by
  refine Issues.perform_bind trivial fun _ => Issues.perform_bind trivial fun r => ?_
  exact Issues.bind issues_ofExcept fun _ => issues_perform.mpr trivial

lemma issues_opens_writeStreamAtomic (body : ByteStream) :
    Issues (Action.Opens B c) (writeStreamAtomic md5 amb tmpDir finalPath body) := by
  refine Issues.bind (issues_createDirAll trivial) fun _ => ?_
  refine Issues.bind (issues_createDirAll trivial) fun _ => Issues.perform_bind trivial fun r => ?_
  refine Issues.bind issues_ofExcept fun _ => ?_
  refine Issues.bind (issues_opens_writeChunks _ _ _ _) fun _ => ?_
  exact Issues.bind (issues_opens_publish _ _) fun _ => issues_pure

variable {parts : List Path} (hparts : ∀ p ∈ parts, B.containerDir c <+: p)

include hparts

lemma issues_opens_copyParts (total : ℕ) (hashed : Bytes) :
    Issues (Action.Opens B c) (copyParts amb tmp parts total hashed) := by
  induction parts generalizing total hashed with
  | nil => trivial
  | cons part parts ih =>
    refine Issues.perform_bind (hparts part List.mem_cons_self) fun r => ?_
    refine Issues.bind issues_ofExcept fun content => ?_
    refine Issues.bind (issues_opens_writeChunks _ _ _ _) fun _ => ?_
    exact ih (fun p hp => hparts p (List.mem_cons_of_mem part hp)) _ _

lemma issues_opens_concatenateFilesAtomic :
    Issues (Action.Opens B c) (concatenateFilesAtomic md5 amb tmpDir finalPath parts) := by
  refine Issues.bind (issues_createDirAll trivial) fun _ => ?_
  refine Issues.bind (issues_createDirAll trivial) fun _ => Issues.perform_bind trivial fun r => ?_
  refine Issues.bind issues_ofExcept fun _ => ?_
  refine Issues.bind (issues_opens_copyParts _ _ hparts _ _) fun _ => ?_
  exact Issues.bind (issues_opens_publish _ _) fun _ => issues_pure

end FsIo

lemma Action.Removing.opens (h : e.Removing) : e.Opens B c := by
  cases e <;> trivial

/-- What a call asks for, if it is no open. -/
lemma Call.Asks.opens (h : call.Asks B amb e) (hfiles : call.Files B amb e → e.Opens B c) :
    e.Opens B c := by
  rcases h with h | h | h
  · exact hfiles h
  · cases e <;> trivial
  · cases call <;> cases e <;> trivial

lemma issues_opens_requireContainer (a b : String) :
    Issues (Action.Opens B c) (requireContainer a b) := by
  refine Issues.perform_bind trivial fun row => ?_
  cases row <;> trivial

lemma issues_opens_requireBlob (a b d : String) :
    Issues (Action.Opens B c) (requireBlob a b d) := by
  refine Issues.perform_bind trivial fun row => ?_
  cases row <;> trivial

lemma issues_opens_putBlob (a n b : String) (body : ByteStream) (ct h : Option String)
    (m : Metadata) : Issues (Action.Opens B c) (B.putBlob amb a n b body ct h m) := by
  unfold FsBackend.putBlob
  refine (issues_opens_requireContainer a n).bind fun _ => ?_
  refine Issues.bind (issues_mapErr.mpr (FsIo.issues_opens_writeStreamAtomic _ _ _ _ _)) fun _ => ?_
  refine Issues.bind ?_ fun _ => Issues.bind ?_ fun _ => issues_pure
  · unfold FsBackend.checkMd5
    split_ifs
    · refine Issues.bind (issues_ignore.mpr ?_) fun _ => issues_fail
      exact (FsIo.issues_removeFileIfExists amb _).mono fun e he => he.opens
    · exact issues_pure
  · refine (issues_opens_requireContainer a n).bind fun _ => Issues.perform_bind trivial fun _ => ?_
    exact Issues.bind issues_ofExcept fun _ => issues_opens_requireBlob a n b

lemma issues_opens_putBlock (a n b id : String) (body : ByteStream) :
    Issues (Action.Opens B c) (B.putBlock amb a n b id body) := by
  unfold FsBackend.putBlock
  refine (issues_opens_requireContainer a n).bind fun _ => ?_
  refine Issues.bind (issues_mapErr.mpr (FsIo.issues_opens_writeStreamAtomic _ _ _ _ _)) fun _ => ?_
  refine Issues.perform_bind trivial fun _ => ?_
  exact Issues.bind issues_ofExcept fun _ => issues_pure

section Calls

variable {a n : String} (hord : (ContainerKey.mk a n).Ordinary)

include hord

lemma always_opens_getBlob (b : String) (range : Option (ℕ × ℕ)) :
    Always (Plausible B) (fun ev => ev.1.Opens B ⟨a, n⟩) (B.getBlob a n b range) := by
  refine follows_perform_bind.mpr fun row hrow => ⟨(), trivial, ?_⟩
  cases row with
  | none => trivial
  | some row =>
    have hfile : B.stored row.storagePath = B.blobFile ⟨a, n, b⟩ := by
      rw [hrow row rfl]
      exact B.stored_blobPaths hord.account hord.container
    have hopen : (Action.openFile (B.stored row.storagePath)).Opens B ⟨a, n⟩ := by
      rw [hfile]
      exact B.containerDir_blobFile.mpr rfl
    refine Issues.always (P := Action.Opens B ⟨a, n⟩) ?_ fun _ _ h => h
    refine Issues.bind (p := Proc.ofExcept (FsBackend.resolveRange row.contentLength range))
      issues_ofExcept fun _ => Issues.perform_bind hopen fun _ => ?_
    exact Issues.bind issues_ofExcept fun _ => issues_pure

lemma follows_opens_resolveRefs (b : String) (committed : List CommittedBlock)
    (refs : List BlockRef) :
    Follows (Plausible B) (fun (_ : Unit) ev _ => ev.1.Opens B ⟨a, n⟩)
      (fun _ r => ∀ l, r = .ok l → ∀ e ∈ l, ∀ p, e.2 = some p → B.containerDir ⟨a, n⟩ <+: p)
      () (B.resolveRefs ⟨a, n, b⟩ committed refs) := by
  induction refs with
  | nil =>
    intro l hl
    cases hl
    simp
  | cons ref refs ih =>
    refine follows_perform_bind.mpr fun staged hstaged => ⟨(), trivial, ?_⟩
    cases href : B.resolveRef committed staged ref with
    | error e => exact fun l hl => by cases hl
    | ok res =>
      refine ih.bind ?_ fun _ e h l hl => by cases hl
      intro _ rest hrest l hl e he p hp
      cases hl
      rcases List.mem_cons.mp he with rfl | he
      · obtain ⟨size, path⟩ := res
        cases hp
        obtain ⟨id, rfl⟩ := slot_of_resolveRef (k := ⟨a, n, b⟩) hord hstaged href
        exact B.containerDir_slotFile.mpr rfl
      · exact hrest rest rfl e he p hp

lemma always_opens_putBlockList (b : String) (refs : List BlockRef) (ct : Option String)
    (m : Metadata) :
    Always (Plausible B) (fun ev => ev.1.Opens B ⟨a, n⟩) (B.putBlockList amb a n b refs ct m) := by
  have hreads : ∀ {α : Type} {p : Store α}, Issues (Action.Opens B ⟨a, n⟩) p →
      Always (Plausible B) (fun ev => ev.1.Opens B ⟨a, n⟩) p := fun hp => hp.always fun _ _ h => h
  refine (hreads (issues_opens_requireContainer a n)).bind (fun _ _ _ => ?_) fun _ _ _ => trivial
  refine follows_perform_bind.mpr fun committed _ => ⟨(), trivial, ?_⟩
  refine (follows_opens_resolveRefs hord b committed refs).bind ?_ fun _ _ _ => trivial
  intro _ resolved hresolved
  dsimp only
  cases hpaths : resolved.mapM Prod.snd with
  | none => trivial
  | some paths =>
    have hparts : ∀ p ∈ paths, B.containerDir ⟨a, n⟩ <+: p := by
      intro p hp
      obtain ⟨e, he, hpe⟩ := mem_of_mapM_snd hpaths hp
      exact hresolved resolved rfl e he p hpe
    have hconcat : Issues (Action.Opens B ⟨a, n⟩) ((FsIo.concatenateFilesAtomic B.md5 amb
        (B.tmpDir a) (B.blobPaths a n b).1 paths).mapErr ioError) :=
      issues_mapErr.mpr (FsIo.issues_opens_concatenateFilesAtomic _ _ _ _ hparts)
    refine (hreads hconcat).bind (fun _ _ _ => hreads ?_) fun _ _ _ => trivial
    refine Issues.bind ?_ fun _ => ?_
    · refine (issues_opens_requireContainer a n).bind fun _ => ?_
      refine Issues.perform_bind trivial fun _ => ?_
      exact Issues.bind issues_ofExcept fun _ => issues_opens_requireBlob a n b
    · exact ((FsBackend.issues_removeAll amb paths).mono fun e he => he.opens).bind
        fun _ => issues_pure

/-- What a call on a container opens is in the directory of the container. -/
lemma always_opens (htarget : call.target = some ⟨a, n⟩) :
    Always (Plausible B) (fun ev => ev.1.Opens B ⟨a, n⟩) (B.call amb call) := by
  have hasks : (∀ e, call.Files B amb e → e.Opens B ⟨a, n⟩) →
      Always (Plausible B) (fun ev => ev.1.Opens B ⟨a, n⟩) (B.call amb call) :=
    fun hfiles => (issues_asks amb call).always fun e _ he => he.opens (hfiles e)
  cases call with
  | getBlob a' n' b range =>
    cases htarget
    exact (always_opens_getBlob hord b range).bind (fun _ _ _ => trivial) fun _ _ _ => trivial
  | putBlob a' n' b body ct h m =>
    exact ((issues_opens_putBlob a' n' b body ct h m).bind fun _ => issues_pure).always
      fun _ _ h => h
  | putBlock a' n' b id body =>
    exact ((issues_opens_putBlock a' n' b id body).bind fun _ => issues_pure).always fun _ _ h => h
  | putBlockList a' n' b refs ct m =>
    cases htarget
    exact (always_opens_putBlockList hord b refs ct m).bind (fun _ _ _ => trivial)
      fun _ _ _ => trivial
  | deleteContainer a' n' =>
    refine hasks fun e he => ?_
    rcases he with he | rfl
    · exact he.opens
    · trivial
  | deleteBlob a' n' b => exact hasks fun e he => Action.Removing.opens he
  | _ => exact hasks fun e he => by cases e <;> trivial

end Calls

/-- A call on a container disturbs nothing in another one. -/
lemma Call.container_of_disturbs {x : Slot} (h : call.disturbs x)
    (htarget : call.target = some c) : x.container = c := by
  cases call with
  | deleteBlob a n b =>
    cases htarget
    rcases h with rfl | ⟨id, rfl⟩ <;> rfl
  | deleteContainer a n =>
    cases htarget
    exact h
  | putBlockList a n b refs ct m =>
    cases htarget
    obtain ⟨id, rfl⟩ := h
    rfl
  | _ => cases h

lemma Step.within {φ φ' : Phase} {ev : Event Action Action.Response}
    (hstep : Step B ⟨amb, call⟩ φ ev φ') (htarget : call.target = some c)
    (hopen : ev.1.Opens B c) : ev.1.Within B c (B.tmpFile c.account amb) := by
  have htmp : Request.tmp B ⟨amb, call⟩ = B.tmpFile c.account amb := by
    rw [Request.tmp, Call.account, htarget]
  have hslot : ∀ x, call.slot = some x → B.containerDir c <+: B.slotFile x := by
    intro x hx
    have hx' := (Call.target_of_slot hx).symm.trans htarget
    exact B.containerDir_slotFile.mpr (Option.some.inj hx')
  cases hstep with
  | @calm φ e r he =>
    cases e with
    | removeFile fails p =>
      obtain ⟨x, rfl, hx⟩ := he
      exact B.containerDir_slotFile.mpr (Call.container_of_disturbs hx htarget)
    | removeDirAll keep p =>
      obtain ⟨c', rfl, hc'⟩ := he
      have hx := Call.container_of_disturbs (hc' (.blob ⟨c'.account, c'.container, ""⟩) rfl) htarget
      rw [← hx]
      exact List.prefix_refl _
    | openFile p => exact hopen
    | createFile p => cases he
    | writeAll p b => cases he
    | rename src dst => cases he
    | _ => trivial
  | look hreq => exact hopen
  | read => exact hopen
  | create => exact htmp
  | write => exact htmp
  | rename hx hc => exact ⟨htmp, hslot _ hx⟩
  | reject hx => exact hslot _ hx
  | upsert hu => trivial
  | commit hu hd => trivial
  | stage hs => trivial

/-- Calls on a container whose names are ordinary keep to its directory. -/
lemma always_within (hord : c.Ordinary) (htarget : call.target = some c) :
    Always (Plausible B) (fun ev => ev.1.Within B c (B.tmpFile c.account amb))
      (B.call amb call) := by
  have hopens : Always (Plausible B) (fun ev => ev.1.Opens B c) (B.call amb call) :=
    always_opens hord htarget
  cases hpatch : call.patches with
  | true =>
    refine (issues_asks amb call).always fun e r he => ?_
    cases call with
    | setBlobProperties a n b patch => rcases he with he | he | he <;> cases e <;> trivial
    | setBlobMetadata a n b m => rcases he with he | he | he <;> cases e <;> trivial
    | _ => cases hpatch
  | false =>
    have hcall : (Request.mk amb call).call.Ordinary := by
      intro c' hc'
      rw [Option.mem_def, htarget] at hc'
      cases hc'
      exact hord
    have hsteps : Always (Plausible B) (fun ev => ∃ φ φ', Step B ⟨amb, call⟩ φ ev φ')
        (B.call amb call) :=
      (follows_call (B := B) hcall hpatch).always fun φ ev φ' h => ⟨φ, φ', h⟩
    exact (hsteps.and hopens).always fun _ ev _ ⟨⟨φ, φ', hstep⟩, hopen⟩ =>
      hstep.within htarget hopen

/-- A table with one account. -/
def justAccount (account : String) : Table String AccountRow := AList.insert account ⟨"", none⟩ ∅

/-- A store to which only a container has been added. -/
def FsBackend.opened (B : FsBackend) (c : ContainerKey) : World :=
  ((B.call (sampleAmb 0) (.createContainer c.account c.container .off ∅)).run
    (B.fresh (justAccount c.account))).2

end BlobStore
