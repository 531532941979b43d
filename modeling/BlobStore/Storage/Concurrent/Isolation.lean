import BlobStore.Lib.FileTree.Region
import BlobStore.Lib.Resumption.Isolation
import BlobStore.Lib.Resumption.Prelude
import BlobStore.Storage.Concurrent.Manners
import BlobStore.Storage.Concurrent.Writers

/-!
# Containers do not notice each other

Some requests are on the containers of a set `S`, the others are on other containers. However the
requests are interleaved, those on `S` answer as they would if the others were not there, and the
rows and files of `S` are the same (`race_isolated`). If no two requests on `S` overlap they answer
like the store without its file tree (`race_serial`).
-/

namespace BlobStore

open Codec FileTree UnixPath Resumption Proc

variable {B : FsBackend} {c : ContainerKey} {req : Request} {e : Action} {w w' : World}

/-! ### The events of a request -/

/-- What is known of an event of a request, the phase being that of its temporary file. -/
structure Mannered (B : FsBackend) (req : Request) (made : Bool)
    (ev : Event Action Action.Response) (made' : Bool) : Prop where
  locates : ev.1.Locates B
  tidy : ∀ w : World, (ev.1.exec w).1 = ev.2 → Tidy B.root w.fs → Tidy B.root (ev.1.exec w).2.fs
  moves : ∀ src dst, ev.1 = .rename src dst → ∃ x, dst = B.slotFile x
  within : ∀ c, req.call.target = some c →
    ev.1.Within B c (req.tmp B) ∧ Preparing B c (req.tmp B) made ev made'
  lists : req.call.target = none → made' = made ∧
    ∃ a np mk n, req.call = .listContainers a np mk n ∧ ev.1 = .listContainers a np mk n

/-- What a patch asks for are rows. -/
lemma Call.Asks.of_patches {call : Call} {amb : Ambient} (h : call.Asks B amb e)
    (hpatch : call.patches = true) : e.filePaths = [] ∧ ∀ p, e ≠ .createDirAll p := by
  cases call with
  | setBlobProperties a b d patch =>
    rcases h with h | h | h <;> cases e <;> first | cases h; done | exact ⟨rfl, nofun⟩
  | setBlobMetadata a b d m =>
    rcases h with h | h | h <;> cases e <;> first | cases h; done | exact ⟨rfl, nofun⟩
  | _ => cases hpatch

lemma exec_fs_of_rows (h : e.filePaths = []) (hdir : ∀ p, e ≠ .createDirAll p) (w : World) :
    (e.exec w).2.fs = w.fs := by
  cases e <;> first | exact absurd rfl (hdir _) | cases h; done | rfl

/-- Files are put where the files of blobs and blocks are, and the tree stays tidy. -/
lemma always_files (hord : req.call.Ordinary) :
    Always (Plausible B) (fun ev => (∀ w : World, (ev.1.exec w).1 = ev.2 → Tidy B.root w.fs →
        Tidy B.root (ev.1.exec w).2.fs) ∧ ∀ src dst, ev.1 = .rename src dst →
          ∃ x, dst = B.slotFile x) (B.call req.amb req.call) := by
  cases hpatch : req.call.patches with
  | true =>
    refine (issues_asks req.amb req.call).always fun e r he => ?_
    obtain ⟨hfiles, hdir⟩ := he.of_patches hpatch
    refine ⟨fun w _ ht => ?_, fun src dst he => ?_⟩
    · rw [exec_fs_of_rows hfiles hdir]
      exact ht
    · dsimp only at he
      rw [he] at hfiles
      cases hfiles
  | false =>
    refine (follows_call (B := B) hord hpatch).always ?_
    rintro φ ⟨e, r⟩ φ' hstep
    refine ⟨fun w hr ht => ?_, fun src dst he => ?_⟩
    · dsimp only at hr
      subst hr
      exact hstep.tidy ht
    · dsimp only at he
      subst he
      cases hstep with
      | calm he => cases he
      | @rename o c x r hx hc => exact ⟨x, rfl⟩

/-- Every call with ordinary names has these manners. -/
lemma follows_mannered (hord : req.call.Ordinary) :
    Follows (Plausible B) (Mannered B req) (fun _ _ => True) false (B.call req.amb req.call) := by
  have hlocated : Always (Plausible B) (fun ev => ev.1.Locates B) (B.call req.amb req.call) :=
    (issues_locates req.amb req.call).always fun _ _ he => he
  have hfiles := (always_files hord).and hlocated
  rcases htarget : req.call.target with _ | c
  · have hlist : ∃ a np mk n, req.call = .listContainers a np mk n := by
      rcases req with ⟨amb, call⟩
      cases call <;> first | cases htarget; done | exact ⟨_, _, _, _, rfl⟩
    obtain ⟨a, np, mk, n, hcall⟩ := hlist
    have honly : Issues (fun e => e = .listContainers a np mk n) (B.call req.amb req.call) := by
      rw [hcall]
      exact Issues.bind (Issues.perform_bind rfl fun _ => issues_pure) fun _ => issues_pure
    have hstay : Follows (Plausible B) (fun made ev made' => made' = made ∧
        ev.1 = .listContainers a np mk n) (fun _ _ => True) false (B.call req.amb req.call) :=
      honly.follows (fun e r he => ⟨rfl, he⟩) fun _ => trivial
    refine (hstay.and_always hfiles).imp ?_ fun _ _ _ => trivial
    rintro made ev made' ⟨⟨⟨htidy, hmoves⟩, hlocates⟩, hmade, hev⟩
    refine ⟨hlocates, htidy, hmoves, fun c hc => ?_, fun _ => ⟨hmade, a, np, mk, n, hcall, hev⟩⟩
    rw [htarget] at hc
    cases hc
  · have hc : c.Ordinary := hord c htarget
    have haccount : Request.tmp B req = B.tmpFile c.account req.amb := by
      rw [Request.tmp, Call.account, htarget]
    have hwithin : Always (Plausible B)
        (fun ev => ev.1.Within B c (B.tmpFile c.account req.amb)) (B.call req.amb req.call) :=
      always_within hc htarget
    have hprepare : Follows (Plausible B) (Preparing B c (req.tmp B)) (fun _ _ => True) false
        (B.call req.amb req.call) := follows_preparing hc htarget
    refine (hprepare.and_always (hwithin.and hfiles)).imp ?_ fun _ _ _ => trivial
    rintro made ev made' ⟨⟨hin, ⟨htidy, hmoves⟩, hlocates⟩, hprepares⟩
    refine ⟨hlocates, htidy, hmoves, fun c' hc' => ?_, fun hnone => ?_⟩
    · rw [htarget] at hc'
      cases hc'
      rw [haccount]
      refine ⟨hin, ?_⟩
      rw [← haccount]
      exact hprepares
    · rw [htarget] at hnone
      cases hnone

/-! ### States -/

/-- The states that calls with ordinary names can lead to: one after another or interleaved. -/
inductive Housed (B : FsBackend) : World → Prop where
  | fresh {w : World} (h : Fresh B w) : Housed B w
  | call {w : World} (h : Housed B w) (req : Request) (hord : req.call.Ordinary) :
      Housed B ((B.call req.amb req.call).run w).2
  | race {w : World} (h : Housed B w) {ι : Type} [DecidableEq ι] (req : ι → Request)
      (hord : ∀ i, (req i).call.Ordinary) (schedule : List ι) :
      Housed B (B.race req w schedule).state

/-- Paths of files and temporary files, all of them below the root. -/
lemma Request.tmp_ne_nil (req : Request) : req.tmp B ≠ [] := by
  simp [Request.tmp, FsBackend.tmpFile]

lemma FsBackend.ne_nil_of_containerDir {p : Path} (hp : B.containerDir c <+: p) : p ≠ [] := by
  rintro rfl
  have hnil := List.prefix_nil.mp hp
  simp [containerDir] at hnil

/-- An action within a container keeps the directories that are not in it. -/
lemma Action.Within.isDir {d : Path} (h : e.Within B c (req.tmp B))
    (hd : ¬ B.containerDir c <+: d) (hdir : w.fs.isDir d = true) :
    (e.exec w).2.fs.isDir d = true := by
  cases e with
  | createDirAll p => exact (FsTree.Grows.createDirAll (S := fun _ => True) p w.fs).dir d hdir
  | createFile p => exact (FsTree.isDir_createFile p d w.fs).trans hdir
  | writeAll p b => exact (FsTree.isDir_write (h ▸ req.tmp_ne_nil) b d w.fs).trans hdir
  | rename src dst => exact (FsTree.isDir_rename (h.1 ▸ req.tmp_ne_nil) dst d w.fs).trans hdir
  | removeFile fails p =>
    cases fails with
    | true => exact hdir
    | false =>
      exact (FsTree.isDir_removeFile (FsBackend.ne_nil_of_containerDir h) d w.fs).trans hdir
  | removeDirAll keep p =>
    have hp : ¬ p <+: d := fun hpd => hd (h.trans hpd)
    exact (FsTree.isDir_removeDirAll_of_not hp w.fs).trans hdir
  | _ => exact hdir

/-! ### Two groups of requests -/

section Groups

variable {ι : Type} {S : ContainerKey → Bool} {vis : ι → Bool} {reqs : ι → Request}
  {made : ι → Bool} {m : Bool} {i : ι}

/-- The requests in `vis` are on containers of `S`, the others are on other containers, and no
temporary file is used on both sides. -/
structure Separate (B : FsBackend) (S : ContainerKey → Bool) (vis : ι → Bool)
    (reqs : ι → Request) : Prop where
  ordinary : ∀ i, (reqs i).call.Ordinary
  target : ∀ i c, (reqs i).call.target = some c → S c = vis i
  lists : ∀ i, vis i = true → ∀ a np mk n, (reqs i).call = .listContainers a np mk n →
    ∀ c : ContainerKey, c.account = a → S c = true
  tmp : ∀ i j, vis i = true → vis j = false → (reqs i).tmp B ≠ (reqs j).tmp B

/-- The directories of the containers of `S`, and the temporary files of the requests on them. -/
def Share (B : FsBackend) (S : ContainerKey → Bool) (vis : ι → Bool) (reqs : ι → Request)
    (p : Path) : Prop :=
  (∃ c, S c = true ∧ B.containerDir c <+: p) ∨ ∃ i, vis i = true ∧ p = (reqs i).tmp B

lemma share_of_containerDir {p : Path} (hS : S c = true) (hp : B.containerDir c <+: p) :
    Share B S vis reqs p := .inl ⟨c, hS, hp⟩

lemma share_tmp (hi : vis i = true) : Share B S vis reqs ((reqs i).tmp B) := .inr ⟨i, hi, rfl⟩

lemma not_containerDir_tmp (req : Request) (c : ContainerKey) : ¬ B.containerDir c <+: req.tmp B :=
  fun h => B.tmpFile_ne_of_containerDir _ _ h rfl

/-- What is in another container is not shared. -/
lemma not_share_of_containerDir {p : Path} (hS : S c = false) (hp : B.containerDir c <+: p) :
    ¬ Share B S vis reqs p := by
  rintro (⟨c', hS', hp'⟩ | ⟨i, -, rfl⟩)
  · have hpre := List.prefix_of_prefix_length_le hp hp' (by simp [FsBackend.containerDir])
    have hcc := FsBackend.containerDir_injective
      (hpre.eq_of_length (by simp [FsBackend.containerDir]))
    rw [hcc, hS'] at hS
    cases hS
  · exact not_containerDir_tmp _ c hp

lemma not_share_tmp (h : Separate B S vis reqs) (hi : vis i = false) :
    ¬ Share B S vis reqs ((reqs i).tmp B) := by
  rintro (⟨c, -, hp⟩ | ⟨j, hj, heq⟩)
  · exact not_containerDir_tmp _ c hp
  · exact h.tmp j i hj hi heq.symm

/-- Nothing on the way to the directory of a temporary file is shared. -/
lemma not_share_dropLast_tmp {q : Path} (req : Request) (hq : q <+: (req.tmp B).dropLast) :
    ¬ Share B S vis reqs q := by
  rintro (⟨c, -, hp⟩ | ⟨j, -, rfl⟩)
  · exact not_containerDir_tmp req c ((hp.trans hq).trans (List.dropLast_prefix _))
  · have hlen := hq.length_le
    simp [Request.tmp, FsBackend.tmpFile] at hlen

/-- Nor is anything on the way to a place in another container. -/
lemma not_share_prefix {p q : Path} (hS : S c = false) (hp : B.containerDir c <+: p)
    (hq : q <+: p) : ¬ Share B S vis reqs q := by
  rintro (⟨c', hS', hp'⟩ | ⟨j, -, rfl⟩)
  · have hshare : Share B S vis reqs p := share_of_containerDir hS' (hp'.trans hq)
    exact not_share_of_containerDir hS hp hshare
  · have hpre := List.prefix_of_prefix_length_le hp hq
      (by simp [FsBackend.containerDir, Request.tmp, FsBackend.tmpFile])
    exact not_containerDir_tmp _ c hpre

/-- The portion of `S` is the same in two states. -/
structure SameShare (B : FsBackend) (S : ContainerKey → Bool) (vis : ι → Bool) (reqs : ι → Request)
    (w w' : World) (made : ι → Bool) : Prop where
  rows : w.db.only S = w'.db.only S
  files : FsTree.Agree (Share B S vis reqs) w.fs w'.fs
  located : Located B w.db
  tidy : Tidy B.root w.fs
  tidy' : Tidy B.root w'.fs
  made : ∀ i, vis i = true → made i = true → w.fs.isDir ((reqs i).tmp B).dropLast = true ∧
    w'.fs.isDir ((reqs i).tmp B).dropLast = true

/-! ### Actions on `S`, and elsewhere -/

/-- A statement about a container of `S`. -/
lemma SameShare.exec_rows (h : SameShare B S vis reqs w w' made) (he : e.Covered S) :
    (e.exec w').1 = (e.exec w).1 ∧ (e.exec w).2.db.only S = (e.exec w').2.db.only S ∧
      (e.exec w).2.fs = w.fs ∧ (e.exec w').2.fs = w'.fs := by
  obtain ⟨hans, hdb, -, hfs⟩ := he.exec w w.fs
  obtain ⟨hans', hdb', -, hfs'⟩ := he.exec w' w.fs
  rw [← h.rows] at hans' hdb'
  exact ⟨hans'.symm.trans hans, hdb.symm.trans hdb', hfs, hfs'⟩

/-- A file-system call in the share of `S`. -/
lemma SameShare.exec_files (h : SameShare B S vis reqs w w' made) (hi : vis i = true) (hS : S c = true)
    (hrows : e.rows = none) {r : e.Response} (hwithin : e.Within B c ((reqs i).tmp B))
    (hprepares : Preparing B c ((reqs i).tmp B) (made i) ⟨e, r⟩ m)
    (hmoves : ∀ src dst, e = .rename src dst → ∃ x, dst = B.slotFile x) :
    (e.exec w').1 = (e.exec w).1 ∧
      FsTree.Agree (Share B S vis reqs) (e.exec w).2.fs (e.exec w').2.fs := by
  have hfile : ∀ {p}, B.containerDir c <+: p → Share B S vis reqs p :=
    fun hp => share_of_containerDir hS hp
  have htmp : Share B S vis reqs ((reqs i).tmp B) := share_tmp hi
  cases e with
  | createDirAll p =>
    obtain ⟨⟨rel, hrel, rfl⟩, -, -⟩ := hprepares
    have hok := (h.tidy.createDirAll hrel).1
    have hok' := (h.tidy'.createDirAll hrel).1
    exact ⟨hok'.trans hok.symm, h.files.createDirAll hok hok'⟩
  | createFile p =>
    have hp : p = (reqs i).tmp B := hwithin
    subst hp
    obtain ⟨hdir, hdir'⟩ := h.made i hi hprepares.1
    obtain ⟨hans, hfiles⟩ := h.files.createFile htmp hdir hdir'
    exact ⟨hans.symm, hfiles⟩
  | writeAll p b =>
    have hp : p = (reqs i).tmp B := hwithin
    subst hp
    exact ⟨rfl, h.files.write htmp b⟩
  | rename src dst =>
    obtain ⟨rfl, hdst⟩ := hwithin
    obtain ⟨x, rfl⟩ := hmoves _ _ rfl
    have hparent : Share B S vis reqs (B.slotFile x).dropLast := by
      rw [FsBackend.containerDir_slotFile] at hdst
      exact hfile (hdst ▸ B.containerDir_dropLast_slotFile x)
    obtain ⟨hans, hfiles⟩ := h.files.rename htmp (hfile hdst) hparent
    exact ⟨hans.symm, hfiles⟩
  | openFile p => exact ⟨(h.files.openFile (hfile hwithin)).symm, h.files⟩
  | removeFile fails p =>
    cases fails with
    | true => exact ⟨rfl, h.files⟩
    | false =>
      obtain ⟨hans, hfiles⟩ := h.files.removeFile (hfile hwithin)
      exact ⟨hans.symm, hfiles⟩
  | removeDirAll keep p =>
    obtain ⟨hans, hfiles⟩ := h.files.removeDirAll keep (hfile hwithin)
    exact ⟨hans.symm, hfiles⟩
  | syncAll p => exact ⟨rfl, h.files⟩
  | fsyncDir p => exact ⟨rfl, h.files⟩
  | accountKeys a => exact hprepares.1.elim
  | listContainers a np mk n => exact hprepares.1.elim
  | _ => cases hrows

/-- Where the rows of an action are, or what it does to files. -/
lemma Preparing.rows {r : e.Response} {made made' : Bool} {tmp : Path}
    (h : Preparing B c tmp made ⟨e, r⟩ made') : e.rows = none ∨ e.rows = some c := by
  cases e with
  | createDirAll p => exact .inl rfl
  | createFile p => exact .inl rfl
  | accountKeys a => exact h.1.elim
  | listContainers a np mk n => exact h.1.elim
  | _ => exact h.1

lemma exec_db_of_preparing {r : e.Response} {made made' : Bool} {tmp : Path}
    (h : Preparing B c tmp made ⟨e, r⟩ made') (hrows : e.rows = none) (w : World) :
    (e.exec w).2.db = w.db := by
  cases e with
  | removeFile fails p => exact Action.IsFs.exec_db (a := .removeFile fails p) trivial w
  | accountKeys a => exact h.1.elim
  | listContainers a np mk n => exact h.1.elim
  | _ => first | rfl | cases hrows

/-- A directory that has been made is there. -/
lemma Preparing.isDir_of_made {tmp : Path} {made made' : Bool}
    (h : Preparing B c tmp made ⟨e, (e.exec w).1⟩ made') (hmade : made' = true) :
    made = true ∨ (e.exec w).2.fs.isDir tmp.dropLast = true := by
  cases e with
  | createDirAll p =>
    refine (h.2.2 hmade).imp_right ?_
    rintro ⟨rfl, hok⟩
    exact (FsTree.isDir_createDirAll_of_ok hok _).mpr (.inl (List.prefix_refl _))
  | _ => exact .inl (h.2 ▸ hmade)

/-- A file-system call out of the share of `S`. -/
lemma agree_exec (hsep : Separate B S vis reqs) (hi : vis i = false) (hS : S c = false)
    {r : e.Response} (hwithin : e.Within B c ((reqs i).tmp B))
    (hprepares : Preparing B c ((reqs i).tmp B) (made i) ⟨e, r⟩ m) (hrows : e.rows = none)
    (w : World) : FsTree.Agree (Share B S vis reqs) (e.exec w).2.fs w.fs := by
  have hfile : ∀ {p}, B.containerDir c <+: p → ¬ Share B S vis reqs p :=
    fun hp => not_share_of_containerDir hS hp
  have htmp : ¬ Share B S vis reqs ((reqs i).tmp B) := not_share_tmp hsep hi
  cases e with
  | createDirAll p =>
    obtain ⟨-, hp, -⟩ := hprepares
    refine FsTree.agree_createDirAll (fun q hq => ?_) w.fs
    rcases hp with rfl | hp
    · exact not_share_dropLast_tmp (reqs i) hq
    · exact not_share_prefix hS hp hq
  | createFile p =>
    have hp : p = (reqs i).tmp B := hwithin
    exact FsTree.agree_createFile (hp ▸ htmp) w.fs
  | writeAll p b =>
    have hp : p = (reqs i).tmp B := hwithin
    exact FsTree.agree_write (hp ▸ htmp) b w.fs
  | rename src dst =>
    obtain ⟨rfl, hdst⟩ := hwithin
    exact FsTree.agree_rename htmp (hfile hdst) w.fs
  | removeFile fails p =>
    cases fails with
    | true => exact FsTree.Agree.refl _ w.fs
    | false => exact FsTree.agree_removeFile (hfile hwithin) w.fs
  | removeDirAll keep p =>
    have hp : B.containerDir c <+: p := hwithin
    exact FsTree.agree_removeDirAll keep (fun q hq => hfile (hp.trans hq)) w.fs
  | accountKeys a => exact hprepares.1.elim
  | listContainers a np mk n => exact hprepares.1.elim
  | _ => exact FsTree.Agree.refl _ w.fs

variable [DecidableEq ι]

/-! ### Turns -/

/-- The turn of a request on `S`, on both sides. -/
lemma SameShare.both (h : SameShare B S vis reqs w w' made) (hsep : Separate B S vis reqs)
    (hi : vis i = true) (hev : Mannered B (reqs i) (made i) ⟨e, (e.exec w).1⟩ m) :
    (e.exec w').1 = (e.exec w).1 ∧
      SameShare B S vis reqs (e.exec w).2 (e.exec w').2 (Function.update made i m) := by
  rcases htarget : (reqs i).call.target with _ | c
  · obtain ⟨rfl, a, np, mk, n, hcall, he⟩ := hev.lists htarget
    dsimp only at he
    subst he
    have hcovered : (Action.listContainers a np mk n).Covered S :=
      .inr (.inr ⟨a, np, mk, n, rfl, hsep.lists i hi a np mk n hcall⟩)
    rw [Function.update_eq_self]
    exact ⟨(h.exec_rows hcovered).1, h⟩
  · obtain ⟨hwithin, hprepares⟩ := hev.within c htarget
    have hS : S c = true := (hsep.target i c htarget).trans hi
    have hboth : (e.exec w').1 = (e.exec w).1 ∧ (e.exec w).2.db.only S = (e.exec w').2.db.only S ∧
        FsTree.Agree (Share B S vis reqs) (e.exec w).2.fs (e.exec w').2.fs := by
      rcases hprepares.rows with hrows | hrows
      · obtain ⟨hans, hfiles⟩ := h.exec_files hi hS hrows hwithin hprepares hev.moves
        refine ⟨hans, ?_, hfiles⟩
        rw [exec_db_of_preparing hprepares hrows, exec_db_of_preparing hprepares hrows]
        exact h.rows
      · obtain ⟨hans, hdb, hfs, hfs'⟩ := h.exec_rows (.inl ⟨c, hrows, hS⟩)
        refine ⟨hans, hdb, ?_⟩
        rw [hfs, hfs']
        exact h.files
    obtain ⟨hans, hrows, hfiles⟩ := hboth
    refine ⟨hans, hrows, hfiles, h.located.exec hev.locates, hev.tidy w rfl h.tidy,
      hev.tidy w' hans h.tidy', fun j hj hmade => ?_⟩
    have hkept : made j = true → (e.exec w).2.fs.isDir ((reqs j).tmp B).dropLast = true ∧
        (e.exec w').2.fs.isDir ((reqs j).tmp B).dropLast = true := by
      intro hj'
      obtain ⟨hdir, hdir'⟩ := h.made j hj hj'
      have hout : ¬ B.containerDir c <+: ((reqs j).tmp B).dropLast := fun hp =>
        not_containerDir_tmp (reqs j) c (hp.trans (List.dropLast_prefix _))
      exact ⟨hwithin.isDir hout hdir, hwithin.isDir hout hdir'⟩
    by_cases hji : j = i
    · subst hji
      rw [Function.update_self] at hmade
      rcases hprepares.isDir_of_made hmade with hmade' | hdir
      · exact hkept hmade'
      · have hprepares' : Preparing B c ((reqs j).tmp B) (made j) ⟨e, (e.exec w').1⟩ m := by
          rw [hans]
          exact hprepares
        rcases hprepares'.isDir_of_made hmade with hmade' | hdir'
        · exact hkept hmade'
        · exact ⟨hdir, hdir'⟩
    · rw [Function.update_of_ne hji] at hmade
      exact hkept hmade

/-- The turn of a request on another container, on one side. -/
lemma SameShare.one (h : SameShare B S vis reqs w w' made) (hsep : Separate B S vis reqs)
    (hi : vis i = false) (hev : Mannered B (reqs i) (made i) ⟨e, (e.exec w).1⟩ m) :
    SameShare B S vis reqs (e.exec w).2 w' (Function.update made i m) := by
  have hne : ∀ j, vis j = true → j ≠ i := by
    rintro j hj rfl
    rw [hi] at hj
    cases hj
  rcases htarget : (reqs i).call.target with _ | c
  · obtain ⟨rfl, a, np, mk, n, hcall, he⟩ := hev.lists htarget
    dsimp only at he
    subst he
    rw [Function.update_eq_self]
    exact h
  · obtain ⟨hwithin, hprepares⟩ := hev.within c htarget
    have hS : S c = false := (hsep.target i c htarget).trans hi
    have hapart : (e.exec w).2.db.only S = w.db.only S ∧
        FsTree.Agree (Share B S vis reqs) (e.exec w).2.fs w.fs := by
      rcases hprepares.rows with hrows | hrows
      · rw [exec_db_of_preparing hprepares hrows]
        exact ⟨rfl, agree_exec hsep hi hS hwithin hprepares hrows w⟩
      · obtain ⟨hdb, hfs⟩ := Action.exec_beside hrows hS w
        rw [hfs]
        exact ⟨hdb, FsTree.Agree.refl _ w.fs⟩
    refine ⟨hapart.1.trans h.rows, hapart.2.trans h.files, h.located.exec hev.locates,
      hev.tidy w rfl h.tidy, h.tidy', fun j hj hmade => ?_⟩
    rw [Function.update_of_ne (hne j hj)] at hmade
    obtain ⟨hdir, hdir'⟩ := h.made j hj hmade
    refine ⟨hwithin.isDir (fun hp => ?_) hdir, hdir'⟩
    exact not_containerDir_tmp (reqs j) c (hp.trans (List.dropLast_prefix _))

end Groups

/-! ### Runs -/

/-- Rows point at their own files and the tree is tidy, in every state of every run. -/
lemma Housed.located_tidy (h : Housed B w) : Located B w.db ∧ Tidy B.root w.fs := by
  induction h with
  | fresh h => exact ⟨h.sound.located, h.sound.tidy⟩
  | call h req hord ih =>
    exact (follows_mannered (B := B) hord).run_inv
      (I := fun w : World => Located B w.db ∧ Tidy B.root w.fs) (fun w e h => Located.plausible h.1 e)
      (fun w φ e φ' h hstep => ⟨h.1.exec hstep.locates, hstep.tidy w rfl h.2⟩) ih
  | race h req hord schedule ih =>
    obtain ⟨φ, hinv, -⟩ := Conf.run_upheld Action.exec
      (I := fun w _ (_ : _ → Bool) => Located B w.db ∧ Tidy B.root w.fs)
      (fun w tr φ e h => Located.plausible h.1 e)
      (fun w tr φ i e φ' h hstep => ⟨h.1.exec hstep.locates, hstep.tidy w rfl h.2⟩) ih
      (fun i => follows_mannered (B := B) (hord i)) schedule
    exact hinv

section Runs

variable {ι : Type} [DecidableEq ι] {S : ContainerKey → Bool} {vis : ι → Bool}
  {reqs : ι → Request}

/-- The run with the other requests, and the run without them. -/
lemma race_sameShare (hlocated : Located B w.db) (htidy : Tidy B.root w.fs)
    (hsep : Separate B S vis reqs) (schedule : List ι) :
    ∃ made, Unnoticed vis (fun i => Mannered B (reqs i)) (Plausible B) (fun _ _ _ => True)
      (SameShare B S vis reqs) (B.race reqs w schedule) (B.race reqs w (schedule.filter vis)) made := by
  have hinit : SameShare B S vis reqs w w fun _ => false :=
    ⟨rfl, FsTree.Agree.refl _ _, hlocated, htidy, htidy, fun _ _ h => nomatch h⟩
  exact Conf.run_filter Action.exec vis
    (fun s s' made e h => h.located.plausible e)
    (fun i hi s s' made e m h hev => h.both hsep hi hev)
    (fun i hi s s' made e m h hev => h.one hsep hi hev) hinit
    (fun i => follows_mannered (B := B) (hsep.ordinary i)) schedule

/-- Whatever requests on other containers do in between: the requests on the containers of `S`
come to the same outcomes by the same events as if the others were not there, and they leave the
same rows and files. -/
theorem race_isolated (hw : Housed B w) (hsep : Separate B S vis reqs) (schedule : List ι) :
    (∀ i, vis i = true → ∀ r, (B.race reqs w schedule).Returned i r ↔
      (B.race reqs w (schedule.filter vis)).Returned i r) ∧
    (B.race reqs w (schedule.filter vis)).trace =
      (B.race reqs w schedule).trace.filter (fun x => vis x.1) ∧
    (B.race reqs w schedule).state.db.only S =
      (B.race reqs w (schedule.filter vis)).state.db.only S ∧
    ∀ c, S c = true → ∀ p, B.containerDir c <+: p → (B.race reqs w schedule).state.fs.node p =
      (B.race reqs w (schedule.filter vis)).state.fs.node p := by
  obtain ⟨made, h⟩ := race_sameShare hw.located_tidy.1 hw.located_tidy.2 hsep schedule
  refine ⟨fun i hi r => ?_, h.trace, h.related.rows, fun c hS p hp => ?_⟩
  · unfold Conf.Returned
    rw [h.pool i hi]
  · exact h.related.files p (share_of_containerDir hS hp)

/-- The part of a store that the containers of `S` make up. -/
def Shelf.only (S : ContainerKey → Bool) (s : Shelf) : Shelf where
  db        := s.db.only S
  content k := if S k.containerKey then s.content k else none
  staged b  := if S b.blob.containerKey then s.staged b else none

omit [DecidableEq ι] in
/-- States with the same rows and files of `S` have the same part in `S`. -/
lemma SameShare.shelf {w' : World} {made : ι → Bool} (h : SameShare B S vis reqs w w' made) :
    (B.shelf w).only S = (B.shelf w').only S := by
  have hfile : ∀ x : Slot, S x.container = true →
      w.fs.file? (B.slotFile x) = w'.fs.file? (B.slotFile x) := fun x hx =>
    h.files.file? (share_of_containerDir hx (FsBackend.containerDir_slotFile.mpr rfl))
  refine Shelf.ext h.rows (funext fun k => ?_) (funext fun b => ?_)
  · refine if_ctx_congr Iff.rfl (fun hk => ?_) fun _ => rfl
    have hrow : (w.db.only S).blobs.lookup k = w.db.blobs.lookup k := MetadataDb.blobs_only hk
    rw [h.rows, MetadataDb.blobs_only hk] at hrow
    exact congrArg₂ Option.bind hrow.symm (funext fun _ => hfile (.blob k) hk)
  · refine if_ctx_congr Iff.rfl (fun hb => ?_) fun _ => rfl
    have hrow : (w.db.only S).stagedBlocks.lookup b = w.db.stagedBlocks.lookup b :=
      MetadataDb.stagedBlocks_only hb
    rw [h.rows, MetadataDb.stagedBlocks_only hb] at hrow
    exact congrArg₂ Option.bind hrow.symm (funext fun _ => hfile (.block b) hb)

end Runs

/-! ### An example -/

/-- Writing and reading a blob, while another container is created. -/
def sampleBeside : Fin 3 → Request
  | 0 => ⟨sampleAmb 2, .putBlob "acc" "c" "b" [.ok [1]] none none ∅⟩
  | 1 => ⟨sampleAmb 3, .createContainer "acc" "d" .off ∅⟩
  | 2 => ⟨sampleAmb 4, .getBlob "acc" "c" "b" none⟩

/-- The requests on the container `c`. -/
def sampleSeen (i : Fin 3) : Bool := i.val ≠ 1

/-- The other container is created step by step, while the blob is written. -/
def sampleTurns : List (Fin 3) :=
  (List.replicate 12 ((List.finRange 3).take 2)).flatten ++ List.replicate 4 (Fin.last 2)

lemma separate_sampleBeside :
    Separate sample (fun c => c = ⟨"acc", "c"⟩) sampleSeen sampleBeside where
  ordinary := by decide
  target i c h := by
    match i, h with
    | 0, rfl => decide
    | 1, rfl => decide
    | 2, rfl => decide
  lists i _ a np mk n h := by
    match i, h with
    | 0, h => cases h
    | 1, h => cases h
    | 2, h => cases h
  tmp := by decide +kernel

theorem race_isolated_sample :
    (sample.race sampleBeside sampleContainer (sampleTurns.filter sampleSeen)).trace =
      (sample.race sampleBeside sampleContainer sampleTurns).trace.filter
        (fun x => sampleSeen x.1) := by
  have hw : Housed sample sampleContainer :=
    .call (.fresh (sample.fresh_isFresh sampleAccounts))
      ⟨sampleAmb 1, .createContainer "acc" "c" .off ∅⟩ (by decide)
  exact (race_isolated hw separate_sampleBeside sampleTurns).2.1

end BlobStore
