import BlobStore.Storage.Layout

/-!
# Tidy file trees

Below the storage root the backend keeps files and directories apart by their depth: eight levels
down below `containers`, four levels down in `tmp`. In a tree where this is so (`Tidy`) none of the
calls that write a file can fail, and what they leave is given by the bytes of the body alone.
-/

namespace BlobStore

open Codec FileTree Resumption Proc

/-! ### Where files may be -/

/-- The places, relative to the storage root, where files may be. -/
def FilePos (rel : Path) : Prop :=
  rel.length = 8 ∧ rel[2]? = some "containers" ∨ rel.length = 4 ∧ rel[2]? = some "tmp"

/-- No file may be here or on the way here. -/
def DirPos (rel : Path) : Prop := ∀ r, r <+: rel → ¬ FilePos r

lemma getElem?_of_initial {r l : List String} (h : r <+: l) {n : ℕ} (hn : n < r.length) :
    r[n]? = l[n]? := by
  obtain ⟨t, rfl⟩ := h
  rw [List.getElem?_append_left hn]

/-- On the way to a file there are only directories. -/
lemma FilePos.dirPos_dropLast {rel : Path} (h : FilePos rel) : DirPos rel.dropLast := by
  intro r hr hfile
  have hlen := hr.length_le
  rw [List.length_dropLast] at hlen
  have hrel : r <+: rel := hr.trans (List.dropLast_prefix rel)
  rcases hfile with ⟨hr8, hr2⟩ | ⟨hr4, hr2⟩
  · rcases h with ⟨h8, -⟩ | ⟨h4, -⟩ <;> omega
  · rw [getElem?_of_initial hrel (by omega)] at hr2
    rcases h with ⟨-, h2⟩ | ⟨h4, -⟩
    · rw [hr2] at h2
      exact absurd h2 (by decide)
    · omega

lemma FilePos.ne_nil {rel : Path} (h : FilePos rel) : rel ≠ [] := by
  rintro rfl
  rcases h with ⟨h, -⟩ | ⟨h, -⟩ <;> simp at h

/-- Files and directories below `root` keep to their places, and no file is above it. -/
structure Tidy (root : Path) (t : FsTree UInt8) : Prop where
  file : ∀ rel c, t.file? (root ++ rel) = some c → FilePos rel
  dir : ∀ rel, t.isDir (root ++ rel) = true → ¬ FilePos rel
  above : ∀ q, q <+: root → t.file? q = none

variable {root : Path} {t : FsTree UInt8} {rel : Path}

lemma Tidy.clear (ht : Tidy root t) (hrel : DirPos rel) {q : Path} (hq : q <+: root ++ rel) :
    t.file? q = none := by
  rcases List.prefix_or_prefix_of_prefix hq (List.prefix_append root rel) with h | ⟨r, rfl⟩
  · exact ht.above q h
  · have hr : r <+: rel := (List.prefix_append_right_inj root).mp hq
    cases hc : t.file? (root ++ r) with
    | none => rfl
    | some c => exact absurd (ht.file r c hc) (hrel r hr)

/-- A new file at a place for files keeps the tree tidy, as long as no directory is new. -/
lemma Tidy.of_file {t' : FsTree UInt8} {p : Path} (ht : Tidy root t) (hp : FilePos p)
    (hfile : ∀ q, q ≠ root ++ p → t'.file? q = t.file? q ∨ t'.file? q = none)
    (hdir : ∀ q, t'.isDir q = true → t.isDir q = true) : Tidy root t' where
  file r c h := by
    by_cases hr : r = p
    · exact hr ▸ hp
    · rcases hfile (root ++ r) (fun h' => hr (List.append_cancel_left h')) with h' | h'
      · exact ht.file r c (h' ▸ h)
      · rw [h'] at h
        cases h
  dir r h := ht.dir r (hdir _ h)
  above q hq := by
    have hne : q ≠ root ++ p := by
      rintro rfl
      have hlen := hq.length_le
      rw [List.length_append] at hlen
      exact hp.ne_nil (List.eq_nil_of_length_eq_zero (by omega))
    rcases hfile q hne with h | h
    · rw [h]
      exact ht.above q hq
    · exact h

/-- Removing files and directories keeps the tree tidy. -/
lemma Tidy.of_removed {t' : FsTree UInt8} (ht : Tidy root t)
    (hfile : ∀ q, t'.file? q = t.file? q ∨ t'.file? q = none)
    (hdir : ∀ q, t'.isDir q = true → t.isDir q = true) : Tidy root t' :=
  -- any place for files will do as the one that may change
  ht.of_file (p := ["", "", "tmp", ""]) (.inr ⟨rfl, rfl⟩) (fun q _ => hfile q) hdir

lemma Tidy.createDirAll (ht : Tidy root t) (hrel : DirPos rel) :
    (FsTree.createDirAll (root ++ rel) t).1 = .ok () ∧
      Tidy root (FsTree.createDirAll (root ++ rel) t).2 := by
  have hok := FsTree.createDirAll_of_clear fun q hq => ht.clear hrel hq
  refine ⟨hok, ⟨fun r c h => ht.file r c (by simpa using h), ?_,
    fun q hq => by simpa using ht.above q hq⟩⟩
  intro r h
  rcases (FsTree.isDir_createDirAll_of_ok hok _).mp h with hr | hr
  · exact hrel r ((List.prefix_append_right_inj root).mp hr)
  · exact ht.dir r hr

lemma Tidy.createFile (ht : Tidy root t) (hrel : FilePos rel) :
    Tidy root (FsTree.createFile (root ++ rel) t).2 := by
  refine ht.of_file hrel (fun q hq => .inl ?_) fun q hq => (FsTree.isDir_createFile _ q t).symm.trans hq
  cases hres : (FsTree.createFile (root ++ rel) t).1 with
  | error e => rw [FsTree.createFile_of_error hres]
  | ok u => rw [FsTree.file?_createFile_of_ok hres, if_neg hq]

lemma Tidy.write (ht : Tidy root t) (hrel : FilePos rel) (b : Bytes) :
    Tidy root (FsTree.write (root ++ rel) b t) :=
  ht.of_file hrel (fun _ hq => .inl (FsTree.file?_write_ne hq b t))
    fun q hq => (FsTree.isDir_write (by simp [hrel.ne_nil]) b q t).symm.trans hq

lemma Tidy.rename {rel' : Path} (ht : Tidy root t) (hrel : FilePos rel) (hrel' : FilePos rel') :
    Tidy root (FsTree.rename (root ++ rel) (root ++ rel') t).2 := by
  refine ht.of_file hrel' (fun q hq => ?_)
    fun q hq => (FsTree.isDir_rename (by simp [hrel.ne_nil]) _ q t).symm.trans hq
  cases hres : (FsTree.rename (root ++ rel) (root ++ rel') t).1 with
  | error e =>
    rw [FsTree.rename_of_error hres]
    exact .inl rfl
  | ok u =>
    rw [FsTree.file?_rename_of_ok hres, if_neg hq]
    split_ifs
    · exact .inr rfl
    · exact .inl rfl

lemma Tidy.removeFile (ht : Tidy root t) (hrel : FilePos rel) :
    Tidy root (FsTree.removeFile (root ++ rel) t).2 := by
  refine ht.of_removed (fun q => ?_)
    fun q hq => (FsTree.isDir_removeFile (by simp [hrel.ne_nil]) q t).symm.trans hq
  rw [FsTree.file?_removeFile]
  split_ifs
  · exact .inr rfl
  · exact .inl rfl

lemma Tidy.removeDirAll (ht : Tidy root t) (keep : Path → Bool) (p : Path) :
    Tidy root (FsTree.removeDirAll keep p t).2 := by
  refine ht.of_removed (fun q => ?_) fun q hq => FsTree.isDir_of_isDir_removeDirAll hq
  rw [FsTree.file?_removeDirAll]
  split_ifs
  · exact .inr rfl
  · exact .inl rfl

/-! ### Writing a file -/

/-- `w'` differs from `w` by new directories and by the file at `tmp` only. -/
structure Scratch (root tmp : Path) (w w' : World) : Prop where
  db : w'.db = w.db
  file : ∀ q, q ≠ tmp → w'.fs.file? q = w.fs.file? q
  dir : ∀ q, w.fs.isDir q = true → w'.fs.isDir q = true
  tidy : Tidy root w'.fs

/-- `w'` differs from `w` by new directories, by the file at `tmp`, and by `bytes` at `dst`. -/
structure Replaced (root tmp dst : Path) (bytes : Bytes) (w w' : World) : Prop where
  db : w'.db = w.db
  file : ∀ q, q ≠ tmp → w'.fs.file? q = if q = dst then some bytes else w.fs.file? q
  tidy : Tidy root w'.fs

lemma Scratch.refl {tmp : Path} {w : World} (ht : Tidy root w.fs) : Scratch root tmp w w :=
  ⟨rfl, fun _ _ => rfl, fun _ h => h, ht⟩

lemma Scratch.trans {tmp : Path} {w w' w'' : World} (h : Scratch root tmp w w')
    (h' : Scratch root tmp w' w'') : Scratch root tmp w w'' where
  db := h'.db.trans h.db
  file q hq := (h'.file q hq).trans (h.file q hq)
  dir q hq := h'.dir q (h.dir q hq)
  tidy := h'.tidy

lemma Scratch.replaced {tmp dst : Path} {bytes : Bytes} {w w' w'' : World}
    (h : Scratch root tmp w w') (h' : Replaced root tmp dst bytes w' w'') :
    Replaced root tmp dst bytes w w'' where
  db := h'.db.trans h.db
  file q hq := by rw [h'.file q hq, h.file q hq]
  tidy := h'.tidy

section Steps

variable {tmp dst : Path} {w : World}

lemma run_createDirAll (ht : Tidy root w.fs) (hrel : DirPos rel) (tmp : Path) :
    ∃ w', run Action.exec (FsIo.createDirAll (root ++ rel)) w = (.ok (), w') ∧
      Scratch root tmp w w' ∧ w'.fs.isDir (root ++ rel) = true := by
  obtain ⟨hok, htidy⟩ := ht.createDirAll hrel
  refine ⟨{ w with fs := (FsTree.createDirAll (root ++ rel) w.fs).2 }, ?_, ⟨rfl, ?_, ?_, htidy⟩, ?_⟩
  · simp [FsIo.createDirAll, Action.exec, Action.onFs, hok]
  · intro q _
    simp
  · exact fun q hq => (FsTree.isDir_createDirAll_of_ok hok q).mpr (.inr hq)
  · exact (FsTree.isDir_createDirAll_of_ok hok _).mpr (.inl (List.prefix_refl _))

lemma exec_createFile (ht : Tidy root w.fs) (hrel : FilePos rel)
    (hparent : w.fs.isDir (root ++ rel).dropLast = true) :
    ∃ w', Action.exec (.createFile (root ++ rel)) w = (.ok (), w') ∧
      Scratch root (root ++ rel) w w' ∧ w'.fs.file? (root ++ rel) = some [] := by
  have hdir : w.fs.isDir (root ++ rel) = false := by
    rw [Bool.eq_false_iff]
    exact fun h => ht.dir rel h hrel
  have hok := FsTree.createFile_of_isDir hparent hdir
  have hfile := FsTree.file?_createFile_of_ok hok
  have hfile' : ∀ q, q ≠ root ++ rel → (FsTree.createFile (root ++ rel) w.fs).2.file? q =
      w.fs.file? q := fun q hq => by rw [hfile, if_neg hq]
  refine ⟨{ w with fs := (FsTree.createFile (root ++ rel) w.fs).2 }, ?_, ⟨rfl, hfile', ?_, ?_⟩, ?_⟩
  · simp [Action.exec, Action.onFs, hok]
  · exact fun q hq => (FsTree.isDir_createFile _ q w.fs).trans hq
  · exact ht.createFile hrel
  · rw [hfile, if_pos rfl]

lemma exec_writeAll (ht : Tidy root w.fs) (hrel : FilePos rel) {c : Bytes}
    (hc : w.fs.file? (root ++ rel) = some c) (b : Bytes) :
    Scratch root (root ++ rel) w (Action.exec (.writeAll (root ++ rel) b) w).2 ∧
      (Action.exec (.writeAll (root ++ rel) b) w).2.fs.file? (root ++ rel) = some (c ++ b) := by
  have hne : root ++ rel ≠ [] := by simp [hrel.ne_nil]
  have hfile : ∀ q, q ≠ root ++ rel → (FsTree.write (root ++ rel) b w.fs).file? q = w.fs.file? q :=
    fun q hq => FsTree.file?_write_ne hq b w.fs
  refine ⟨⟨rfl, hfile, fun q hq => (FsTree.isDir_write hne b q w.fs).trans hq, ?_⟩, ?_⟩
  · exact ht.write hrel b
  · change (FsTree.write (root ++ rel) b w.fs).file? (root ++ rel) = some (c ++ b)
    rw [FsTree.file?_write hc, if_pos rfl]

/-- The loop over the body: all bytes, or those before the first error, end up in the file. -/
lemma run_writeChunks (ht : Tidy root w.fs) (hrel : FilePos rel) {c : Bytes}
    (hc : w.fs.file? (root ++ rel) = some c) (body : ByteStream) (total : ℕ) (hashed : Bytes) :
    ∃ w', Scratch root (root ++ rel) w w' ∧
      match body.collect with
      | .ok bytes   =>
        run Action.exec (FsIo.writeChunks (root ++ rel) body total hashed) w =
          (.ok (total + bytes.length, hashed ++ bytes), w') ∧
        w'.fs.file? (root ++ rel) = some (c ++ bytes)
      | .error e =>
        run Action.exec (FsIo.writeChunks (root ++ rel) body total hashed) w = (.error e.1, w') := by
  induction body generalizing w c total hashed with
  | nil => exact ⟨w, .refl ht, by simp [FsIo.writeChunks], by simpa using hc⟩
  | cons x body ih =>
    cases x with
    | error e => exact ⟨w, .refl ht, rfl⟩
    | ok chunk =>
      obtain ⟨hscratch, hc'⟩ := exec_writeAll ht hrel hc chunk
      obtain ⟨w', hw', hrun⟩ := ih hscratch.tidy hc' (total + chunk.length) (hashed ++ chunk)
      refine ⟨w', hscratch.trans hw', ?_⟩
      simp only [ByteStream.collect, FsIo.writeChunks, run_perform_bind]
      cases hbody : ByteStream.collect body with
      | ok bytes =>
        simp only [hbody] at hrun ⊢
        rw [hrun.1, hrun.2]
        simp [Nat.add_assoc]
      | error e =>
        simp only [hbody] at hrun ⊢
        exact hrun

/-- The temporary file is moved onto its final place. -/
lemma run_publish {rel' : Path} (ht : Tidy root w.fs) (hrel : FilePos rel) (hrel' : FilePos rel')
    {c : Bytes} (hc : w.fs.file? (root ++ rel) = some c)
    (hparent : w.fs.isDir (root ++ rel').dropLast = true) :
    ∃ w', run Action.exec (FsIo.publish (root ++ rel) (root ++ rel')) w = (.ok (), w') ∧
      Replaced root (root ++ rel) (root ++ rel') c w w' := by
  have hdir : w.fs.isDir (root ++ rel') = false := by
    rw [Bool.eq_false_iff]
    exact fun h => ht.dir rel' h hrel'
  have hok := FsTree.rename_of_isDir hc hparent hdir
  have hfile := FsTree.file?_rename_of_ok hok
  refine ⟨{ w with fs := (FsTree.rename (root ++ rel) (root ++ rel') w.fs).2 }, ?_, rfl, ?_, ?_⟩
  · simp [FsIo.publish, Action.exec, Action.onFs, hok]
  · intro q hq
    change (FsTree.rename (root ++ rel) (root ++ rel') w.fs).2.file? q = _
    rw [hfile, hc, if_neg hq]
  · exact ht.rename hrel hrel'

/-- What comes before the first byte: both directories and an empty temporary file. -/
lemma run_openTmp {β : Type} {rel' : Path} (ht : Tidy root w.fs) (hrel : FilePos rel)
    (hrel' : FilePos rel') :
    ∃ w', (∀ f : Unit → Io β, run Action.exec (do
        FsIo.createDirAll (root ++ rel).dropLast
        FsIo.createDirAll (root ++ rel').dropLast
        let r : Except IoError Unit ← perform (Action.createFile (root ++ rel))
        ofExcept r >>= f) w = run Action.exec (f ()) w') ∧
      Scratch root (root ++ rel) w w' ∧ w'.fs.file? (root ++ rel) = some [] ∧
      w'.fs.isDir (root ++ rel').dropLast = true := by
  rw [List.dropLast_append_of_ne_nil hrel.ne_nil, List.dropLast_append_of_ne_nil hrel'.ne_nil]
  obtain ⟨w₁, hrun₁, hs₁, hdir₁⟩ := run_createDirAll ht hrel.dirPos_dropLast (root ++ rel)
  obtain ⟨w₂, hrun₂, hs₂, hdir₂⟩ := run_createDirAll hs₁.tidy hrel'.dirPos_dropLast (root ++ rel)
  have hparent : w₂.fs.isDir (root ++ rel).dropLast = true := by
    rw [List.dropLast_append_of_ne_nil hrel.ne_nil]
    exact hs₂.dir _ hdir₁
  obtain ⟨w₃, hexec, hs₃, hfile⟩ := exec_createFile hs₂.tidy hrel hparent
  refine ⟨w₃, fun f => ?_, hs₁.trans (hs₂.trans hs₃), hfile, hs₃.dir _ hdir₂⟩
  rw [run_bind_ok _ hrun₁, run_bind_ok _ hrun₂, run_perform_bind, hexec, ofExcept_ok_bind]

lemma run_writeStreamAtomic {rel' : Path} {amb : Ambient} {tmpDir finalPath : String}
    (ht : Tidy root w.fs) (hrel : FilePos rel) (hrel' : FilePos rel')
    (htmp : FsIo.uniqueTmpPath amb tmpDir = root ++ rel)
    (htmpDir : UnixPath.resolve tmpDir = (root ++ rel).dropLast)
    (hfinal : UnixPath.resolve finalPath = root ++ rel') (md5 : Bytes → Bytes)
    (body : ByteStream) :
    ∃ w', match body.collect with
      | .ok bytes =>
        run Action.exec (FsIo.writeStreamAtomic md5 amb tmpDir finalPath body) w =
          (.ok (bytes.length, hexEncode (md5 bytes)), w') ∧
        Replaced root (root ++ rel) (root ++ rel') bytes w w'
      | .error e =>
        run Action.exec (FsIo.writeStreamAtomic md5 amb tmpDir finalPath body) w =
          (.error e.1, w') ∧ Scratch root (root ++ rel) w w' := by
  unfold FsIo.writeStreamAtomic
  rw [htmpDir, hfinal]
  generalize FsIo.uniqueTmpPath amb tmpDir = tmp at htmp ⊢
  subst htmp
  obtain ⟨w₁, hrun₁, hs₁, hfile₁, hparent⟩ := run_openTmp ht hrel hrel' (w := w)
  obtain ⟨w₂, hs₂, hchunks⟩ := run_writeChunks hs₁.tidy hrel hfile₁ body 0 []
  cases hbody : body.collect with
  | ok bytes =>
    simp only [hbody] at hchunks ⊢
    obtain ⟨hrun₂, hfile₂⟩ := hchunks
    obtain ⟨w₃, hrun₃, hw₃⟩ := run_publish hs₂.tidy hrel hrel' hfile₂ (hs₂.dir _ hparent)
    refine ⟨w₃, ?_, (hs₁.trans hs₂).replaced hw₃⟩
    rw [hrun₁, run_bind_ok _ hrun₂, run_bind_ok _ hrun₃]
    simp
  | error e =>
    simp only [hbody] at hchunks ⊢
    refine ⟨w₂, ?_, hs₁.trans hs₂⟩
    rw [hrun₁, run_bind_error _ hchunks]

/-! ### Reading the parts of a block list -/

lemma flatten_readPieces (readLen : ℕ → ℕ) (fuel : ℕ) (bs : Bytes) (h : bs.length ≤ fuel) :
    (FsIo.readPieces readLen fuel bs).flatten = bs := by
  induction fuel generalizing bs with
  | zero =>
    rw [List.eq_nil_of_length_eq_zero (by omega : bs.length = 0)]
    rfl
  | succ fuel ih =>
    cases bs with
    | nil => rfl
    | cons b bs =>
      rw [FsIo.readPieces, List.flatten_cons, ih _ (by simp at h ⊢; omega), List.take_append_drop]

lemma collect_map_ok (chunks : List Bytes) :
    ByteStream.collect (chunks.map .ok) = .ok chunks.flatten := by
  induction chunks with
  | nil => rfl
  | cons c cs ih => simp [ByteStream.collect, ih]

/-- The loop over the parts, each of which is there. -/
lemma run_copyParts (ht : Tidy root w.fs) (hrel : FilePos rel) {c : Bytes}
    (hc : w.fs.file? (root ++ rel) = some c) (amb : Ambient) {parts : List Path}
    {contents : List Bytes}
    (hparts : List.Forall₂ (fun p b => p ≠ root ++ rel ∧ w.fs.file? p = some b) parts contents)
    (total : ℕ) (hashed : Bytes) :
    ∃ w', Scratch root (root ++ rel) w w' ∧
      run Action.exec (FsIo.copyParts amb (root ++ rel) parts total hashed) w =
        (.ok (total + contents.flatten.length, hashed ++ contents.flatten), w') ∧
      w'.fs.file? (root ++ rel) = some (c ++ contents.flatten) := by
  induction parts generalizing w c contents total hashed with
  | nil =>
    cases hparts
    exact ⟨w, .refl ht, by simp [FsIo.copyParts], by simpa using hc⟩
  | cons part parts ih =>
    obtain ⟨content, contents, hpart, hrest, rfl⟩ := List.forall₂_cons_left_iff.mp hparts
    have hopen : Action.exec (.openFile part) w = (.ok content, w) := by
      rw [Action.exec, FsTree.openFile_eq_ok.mpr hpart.2]
    obtain ⟨w₁, hs₁, hchunks⟩ := run_writeChunks ht hrel hc
      ((FsIo.readPieces (fun left => amb.readLen (total + (content.length - left)))
        content.length content).map .ok) total hashed
    simp only [collect_map_ok, flatten_readPieces _ _ _ le_rfl] at hchunks
    have hparts' : List.Forall₂ (fun p b => p ≠ root ++ rel ∧ w₁.fs.file? p = some b)
        parts contents :=
      hrest.imp fun p b hp => ⟨hp.1, (hs₁.file p hp.1).trans hp.2⟩
    obtain ⟨w₂, hs₂, hrun₂, hfile₂⟩ := ih hs₁.tidy hchunks.2 hparts' (total + content.length)
      (hashed ++ content)
    refine ⟨w₂, hs₁.trans hs₂, ?_, ?_⟩
    · rw [FsIo.copyParts, run_perform_bind, hopen, ofExcept_ok_bind, run_bind_ok _ hchunks.1, hrun₂]
      simp [Nat.add_assoc]
    · simp [hfile₂]

lemma run_concatenateFilesAtomic {rel' : Path} {amb : Ambient} {tmpDir finalPath : String}
    (ht : Tidy root w.fs) (hrel : FilePos rel) (hrel' : FilePos rel')
    (htmp : FsIo.uniqueTmpPath amb tmpDir = root ++ rel)
    (htmpDir : UnixPath.resolve tmpDir = (root ++ rel).dropLast)
    (hfinal : UnixPath.resolve finalPath = root ++ rel') (md5 : Bytes → Bytes)
    {parts : List Path} {contents : List Bytes}
    (hparts : List.Forall₂ (fun p b => p ≠ root ++ rel ∧ w.fs.file? p = some b) parts contents) :
    ∃ w', run Action.exec (FsIo.concatenateFilesAtomic md5 amb tmpDir finalPath parts) w =
        (.ok (contents.flatten.length, hexEncode (md5 contents.flatten)), w') ∧
      Replaced root (root ++ rel) (root ++ rel') contents.flatten w w' := by
  unfold FsIo.concatenateFilesAtomic
  rw [htmpDir, hfinal]
  generalize FsIo.uniqueTmpPath amb tmpDir = tmp at htmp ⊢
  subst htmp
  obtain ⟨w₁, hrun₁, hs₁, hfile₁, hparent⟩ := run_openTmp ht hrel hrel' (w := w)
  have hparts₁ : List.Forall₂ (fun p b => p ≠ root ++ rel ∧ w₁.fs.file? p = some b)
      parts contents :=
    hparts.imp fun p b hp => ⟨hp.1, (hs₁.file p hp.1).trans hp.2⟩
  obtain ⟨w₂, hs₂, hrun₂, hfile₂⟩ := run_copyParts hs₁.tidy hrel hfile₁ amb hparts₁ 0 []
  obtain ⟨w₃, hrun₃, hw₃⟩ := run_publish hs₂.tidy hrel hrel' hfile₂ (hs₂.dir _ hparent)
  refine ⟨w₃, ?_, (hs₁.trans hs₂).replaced hw₃⟩
  rw [hrun₁, run_bind_ok _ hrun₂, run_bind_ok _ hrun₃]
  simp

/-! ### Removing files -/

/-- `w'` has lost some files, all of them in `gone`. -/
structure Removed (root : Path) (gone : Path → Prop) (w w' : World) : Prop where
  db : w'.db = w.db
  file : ∀ q, w'.fs.file? q = w.fs.file? q ∨ w'.fs.file? q = none ∧ gone q
  tidy : Tidy root w'.fs

lemma Removed.keep {gone : Path → Prop} {w w' : World} (h : Removed root gone w w') {q : Path}
    (hq : ¬ gone q) : w'.fs.file? q = w.fs.file? q := by
  rcases h.file q with h' | h'
  · exact h'
  · exact absurd h'.2 hq

lemma Removed.trans {gone : Path → Prop} {w w' w'' : World} (h : Removed root gone w w')
    (h' : Removed root gone w' w'') : Removed root gone w w'' where
  db := h'.db.trans h.db
  file q := by
    rcases h'.file q with h'' | h''
    · rw [h'']
      exact h.file q
    · exact .inr h''
  tidy := h'.tidy

/-- Removing one file, or failing to. -/
lemma run_removeFileIfExists (ht : Tidy root w.fs) (hrel : FilePos rel) (amb : Ambient) :
    (run Action.exec (FsIo.removeFileIfExists amb (root ++ rel)) w).2.db = w.db ∧
    (∀ q, (run Action.exec (FsIo.removeFileIfExists amb (root ++ rel)) w).2.fs.file? q =
      if q = root ++ rel ∧ amb.removeFails (root ++ rel) = false then none else w.fs.file? q) ∧
    Tidy root (run Action.exec (FsIo.removeFileIfExists amb (root ++ rel)) w).2.fs := by
  have hstate : (run Action.exec (FsIo.removeFileIfExists amb (root ++ rel)) w).2 =
      (Action.exec (.removeFile (amb.removeFails (root ++ rel)) (root ++ rel)) w).2 := by
    unfold FsIo.removeFileIfExists
    rw [run_perform_bind]
    generalize (Action.exec (.removeFile (amb.removeFails (root ++ rel)) (root ++ rel)) w).1 = r
    rcases r with (_ | _ | _ | _) | _ <;> rfl
  rw [hstate]
  cases amb.removeFails (root ++ rel) with
  | true => exact ⟨rfl, fun q => by simp [Action.exec], ht⟩
  | false =>
    have hfile : ∀ q, (FsTree.removeFile (root ++ rel) w.fs).2.file? q =
        if q = root ++ rel then none else w.fs.file? q :=
      fun q => FsTree.file?_removeFile (root ++ rel) q w.fs
    refine ⟨rfl, fun q => ?_, ht.removeFile hrel⟩
    simp only [and_true]
    exact hfile q

lemma run_removeAll_ok (amb : Ambient) (paths : List Path) (w : World) :
    (run Action.exec (FsBackend.removeAll amb paths) w).1 = .ok () := by
  induction paths generalizing w with
  | nil => rfl
  | cons p paths ih =>
    rw [FsBackend.removeAll, run_bind_ok _ (run_ignore _ _ _)]
    exact ih _

lemma run_removeAll (ht : Tidy root w.fs) (amb : Ambient) (gone : Path → Prop) {paths : List Path}
    (hpaths : ∀ p ∈ paths, gone p ∧ ∃ rel, FilePos rel ∧ p = root ++ rel) :
    ∃ w', run Action.exec (FsBackend.removeAll amb paths) w = (.ok (), w') ∧
      Removed root gone w w' := by
  induction paths generalizing w with
  | nil => exact ⟨w, rfl, rfl, fun q => .inl rfl, ht⟩
  | cons p paths ih =>
    obtain ⟨hgone, rel, hrel, rfl⟩ := hpaths p List.mem_cons_self
    obtain ⟨hdb, hfile, htidy⟩ := run_removeFileIfExists ht hrel amb
    have hfirst : Removed root gone w
        (run Action.exec (FsIo.removeFileIfExists amb (root ++ rel)) w).2 := by
      refine ⟨hdb, fun q => ?_, htidy⟩
      rw [hfile]
      split_ifs with hq
      · exact .inr ⟨rfl, hq.1 ▸ hgone⟩
      · exact .inl rfl
    obtain ⟨w', hrun, hw'⟩ := ih htidy fun q hq => hpaths q (List.mem_cons_of_mem _ hq)
    refine ⟨w', ?_, hfirst.trans hw'⟩
    rw [FsBackend.removeAll, run_bind_ok _ (run_ignore _ _ _), hrun]

lemma exec_removeDirAll (ht : Tidy root w.fs) (keep : Path → Bool) (p : Path) :
    Removed root (p <+: ·) w (Action.exec (.removeDirAll keep p) w).2 := by
  have hfile : ∀ q, (FsTree.removeDirAll keep p w.fs).2.file? q = w.fs.file? q ∨
      (FsTree.removeDirAll keep p w.fs).2.file? q = none ∧ p <+: q := by
    intro q
    rw [FsTree.file?_removeDirAll]
    split_ifs with hq
    · exact .inr ⟨rfl, hq.2.1⟩
    · exact .inl rfl
  exact ⟨rfl, hfile, ht.removeDirAll keep p⟩

end Steps
end BlobStore
