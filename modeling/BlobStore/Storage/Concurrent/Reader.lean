import BlobStore.Storage.Concurrent.Writers
import Mathlib.Data.Fintype.Option

/-!
# A reader among writers

`get_blob` looks up the row first and opens the file later. The open descriptor protects it from
what happens after the opening, but not from what happens before.
-/

namespace BlobStore

open Codec FileTree Resumption Proc

variable {B : FsBackend} {ι : Type} [DecidableEq ι] {w : World} {k : BlobKey}

/-- The length announced for a range of a blob. -/
def announcedLength (totalLen : ℕ) : Option ByteRange → ℕ
  | some r => r.stop - r.start + 1
  | none   => totalLen

def Action.isGetBlob : Action → Bool
  | .getBlob _ => true
  | _          => false

def Action.isOpenFile : Action → Bool
  | .openFile _ => true
  | _           => false

/-- A payload cut out of `bytes`, with the properties of `row`. -/
structure BlobPayload.Of (p : BlobPayload) (range : Option (ℕ × ℕ)) (row : BlobRow)
    (bytes : Bytes) : Prop where
  props : p.props = blobRowToProps row
  totalLen : p.totalLen = bytes.length
  range : FsBackend.resolveRange bytes.length range = .ok p.range
  bytes : p.bytes = FsBackend.readRange bytes bytes.length p.range
  length : p.bytes.length = announcedLength p.totalLen p.range

lemma length_readRange {bytes : Bytes} {range : Option (ℕ × ℕ)} {rr : Option ByteRange}
    (h : FsBackend.resolveRange bytes.length range = .ok rr) :
    (FsBackend.readRange bytes bytes.length rr).length = announcedLength bytes.length rr := by
  cases range with
  | none =>
    cases h
    simp [FsBackend.readRange, announcedLength]
  | some r =>
    obtain ⟨start, stop⟩ := r
    unfold FsBackend.resolveRange at h
    dsimp only at h
    split_ifs at h with hbad
    cases h
    simp only [FsBackend.readRange, announcedLength, List.length_take, List.length_drop]
    omega

lemma error_elim {ε α : Type} {x : ε} {a : α} {P : Prop}
    (h : (Except.error x : Except ε α) = .ok a) : P := nomatch h

lemma history_requireBlob (k : BlobKey) :
    FollowsHistory (fun h r => h = [⟨.getBlob k, r.toOption⟩]) []
      (requireBlob k.account k.container k.blob) := by
  refine follows_perform_bind.mpr fun row _ => ⟨_, rfl, ?_⟩
  cases row with
  | none => exact follows_fail.mpr rfl
  | some row => exact follows_pure.mpr rfl

/-- The two requests of a reader that succeeds, and what it makes of the responses. -/
lemma history_getBlob (k : BlobKey) (range : Option (ℕ × ℕ)) :
    FollowsHistory (fun h r => ∀ p, r = .ok p → ∃ row content rr,
        h = [⟨.getBlob k, some row⟩, ⟨.openFile (B.stored row.storagePath), .ok content⟩] ∧
        FsBackend.resolveRange row.contentLength range = .ok rr ∧
        p = ⟨blobRowToProps row, row.contentLength, rr,
          FsBackend.readRange content row.contentLength rr⟩)
      [] (B.getBlob k.account k.container k.blob range) := by
  refine (history_requireBlob k).bind ?_ fun _ _ _ _ h => error_elim h
  intro h row hrow
  rw [hrow]
  dsimp only [Except.toOption]
  cases hrange : FsBackend.resolveRange row.contentLength range with
  | error e => exact follows_fail.mpr fun _ h => error_elim h
  | ok rr =>
    refine follows_perform_bind.mpr fun file _ => ⟨_, rfl, ?_⟩
    cases file with
    | error e => exact follows_fail.mpr fun _ h => error_elim h
    | ok content =>
      refine follows_pure.mpr fun p hp => ?_
      cases hp
      exact ⟨row, content, rr, rfl, hrange, rfl⟩

lemma history_call_getBlob (amb : Ambient) (k : BlobKey) (range : Option (ℕ × ℕ)) :
    FollowsHistory (fun h r => ∀ p, r = .ok (.payload p) → ∃ row content rr,
        h = [⟨.getBlob k, some row⟩, ⟨.openFile (B.stored row.storagePath), .ok content⟩] ∧
        FsBackend.resolveRange row.contentLength range = .ok rr ∧
        p = ⟨blobRowToProps row, row.contentLength, rr,
          FsBackend.readRange content row.contentLength rr⟩)
      [] (B.call amb (.getBlob k.account k.container k.blob range)) := by
  refine (history_getBlob k range).bind ?_ fun _ _ _ _ h => error_elim h
  intro h p hp
  refine follows_pure.mpr fun p' hp' => ?_
  cases hp'
  exact hp p rfl

variable {req : Option ι → Request} {range : Option (ℕ × ℕ)}

/-- What a reader has seen: the row at its lookup, and the file at its opening. -/
lemma seen_of_returned (hget : (req none).call = .getBlob k.account k.container k.blob range)
    (schedule : List (Option ι)) {p : BlobPayload}
    (hret : (B.race req w schedule).Returned none (.ok (.payload p))) :
    ∃ tr₁ tr₂ row content rr, tr₁ <+: (B.race req w schedule).trace ∧
      tr₂ <+: (B.race req w schedule).trace ∧
      tr₁ = Trace.before none Action.isGetBlob (B.race req w schedule).trace ∧
      tr₂ = Trace.before none Action.isOpenFile (B.race req w schedule).trace ∧
      (after Action.exec w tr₁).db.blobs.lookup k = some row ∧
      (after Action.exec w tr₂).fs.file? (B.stored row.storagePath) = some content ∧
      FsBackend.resolveRange row.contentLength range = .ok rr ∧
      p = ⟨blobRowToProps row, row.contentLength, rr,
        FsBackend.readRange content row.contentLength rr⟩ := by
  have hrec := Conf.run_recorded Action.exec (fun i => B.call (req i).amb (req i).call) w schedule
  have hhist := Conf.run_history Action.exec (fun i => B.call (req i).amb (req i).call) none
    (by rw [hget]; exact history_call_getBlob _ k range) w schedule hret
  obtain ⟨row, content, rr, hevents, hrange, hp⟩ := hhist p rfl
  obtain ⟨tr₁, rest, htr, hbefore₁, hrest⟩ := Trace.exists_of_history_eq_cons hevents
  obtain ⟨tr₂, rest', rfl, hbefore₂, -⟩ := Trace.exists_of_history_eq_cons hrest
  have htr₁ : (B.race req w schedule).trace = tr₁ ++ (none, ⟨.getBlob k, some row⟩) ::
      (tr₂ ++ (none, ⟨.openFile (B.stored row.storagePath), .ok content⟩) :: rest') := htr
  have htr₂ : (B.race req w schedule).trace = (tr₁ ++ (none, ⟨.getBlob k, some row⟩) :: tr₂) ++
      (none, ⟨.openFile (B.stored row.storagePath), .ok content⟩) :: rest' := by
    rw [htr₁, List.append_assoc]
    rfl
  have hrow := hrec.answer _ _ _ htr₁
  have hcontent := hrec.answer _ _ _ htr₂
  refine ⟨tr₁, _, row, content, rr, ⟨_, htr₁.symm⟩, ⟨_, htr₂.symm⟩, ?_, ?_, hrow.symm,
    FsTree.openFile_eq_ok.mp hcontent.symm, hrange, hp⟩
  · rw [htr₁, Trace.before_append_cons _ rfl]
    intro ev hev
    rw [hbefore₁] at hev
    exact absurd hev List.not_mem_nil
  · rw [htr₂, Trace.before_append_cons _ rfl]
    intro ev hev
    rw [Trace.history_append, hbefore₁, List.nil_append, Trace.history_cons_self, hbefore₂,
      List.mem_singleton] at hev
    rw [hev]
    rfl

/-- A `get_blob` among writes of the same blob that succeeds, and whose file was put in place by the
write of its row, returns one version of the blob: the one at the start or that of a write. -/
theorem get_blob_untorn (hreq : Compatible req)
    (hget : (req none).call = .getBlob k.account k.container k.blob range)
    (hput : ∀ i, (req (some i)).call.slot = some (.blob k)) (hw : Arisen B w)
    (hagree : ∀ row, w.db.blobs.lookup k = some row → ∃ bytes,
      w.fs.file? (B.blobFile k) = some bytes ∧ row.contentLength = bytes.length)
    (schedule : List (Option ι)) {p : BlobPayload}
    (hret : (B.race req w schedule).Returned none (.ok (.payload p)))
    (hsame : holder B (.blob k)
        (Trace.before none Action.isOpenFile (B.race req w schedule).trace) =
      owner (.blob k) (Trace.before none Action.isGetBlob (B.race req w schedule).trace)) :
    ∃ row bytes, p.Of range row bytes ∧
      (w.db.blobs.lookup k = some row ∧ w.fs.file? (B.blobFile k) = some bytes ∨
        ∃ i, version req (B.race req w schedule).trace (some i) = some bytes ∧
          (req (some i)).Wrote B (w.db.blobs.lookup k) bytes row) := by
  obtain ⟨φ, hsteady, -⟩ := race_steady hreq hw.located schedule
  obtain ⟨tr₁, tr₂, row, content, rr, hpre₁, hpre₂, hbefore₁, hbefore₂, hrow, hcontent, hrange, hp⟩ :=
    seen_of_returned hget schedule hret
  obtain ⟨φ₁, htraced₁, hkept₁⟩ := hsteady.past tr₁ hpre₁
  obtain ⟨φ₂, htraced₂, hkept₂⟩ := hsteady.past tr₂ hpre₂
  rw [← hbefore₁, ← hbefore₂] at hsame
  have hord : k.containerKey.Ordinary := by
    refine hreq.ordinary none _ ?_
    rw [hget]
    rfl
  rw [htraced₁.located.stored_blob hord hrow] at hcontent
  have hdel : ∀ i, (req i).call.deletes = false := by
    rintro (_ | i)
    · rw [hget]
      rfl
    · exact Call.deletes_of_slot (hput i)
  obtain ⟨hgone, hbase⟩ := htraced₁.never_dropped (k := k) hdel
  have hrow' := htraced₁.blob k
  have hfile := htraced₂.file (.blob k)
  rw [hsame] at hfile
  -- the payload, once the row and the file agree in length
  have hof : row.contentLength = content.length → p.Of range row content := by
    intro hlen
    rw [hlen] at hrange
    rw [hp, hlen]
    exact ⟨rfl, rfl, hrange, rfl, length_readRange hrange⟩
  refine ⟨row, content, ?_⟩
  cases howner : owner (.blob k) tr₁ with
  | start =>
    rw [howner] at hrow' hfile
    have hrow₀ := hrow'.symm.trans hrow
    have hfile₀ := hfile.symm.trans hcontent
    obtain ⟨bytes, hbytes, hlen⟩ := hagree row hrow₀
    cases hbytes.symm.trans hfile₀
    exact ⟨hof hlen, .inl ⟨hrow₀, hfile₀⟩⟩
  | gone => exact absurd howner hgone
  | write j =>
    rw [howner] at hrow' hfile
    obtain ⟨row', hlookup, hpub₁, bytes₁, u, hversion₁, hu, hupsert⟩ := hrow'
    obtain ⟨bytes₂, hfile₂, hpub₂, hslot, hversion₂⟩ := hfile
    cases hlookup.symm.trans hrow
    cases hfile₂.symm.trans hcontent
    -- both readings of the version agree with the one at the end
    have hsome : (req j).call.slot.isSome := by rw [hslot]; rfl
    have hfinal₁ := (hkept₁ j hpub₁ hsome).2.trans hversion₁
    have hfinal₂ := (hkept₂ j hpub₂ hsome).2.trans hversion₂
    cases hfinal₁.symm.trans hfinal₂
    rw [hbase] at hupsert
    have hwrote : (req j).Wrote B (w.db.blobs.lookup k) content row := ⟨k, u, hu, hupsert⟩
    obtain _ | i := j
    · rw [hget] at hslot
      cases hslot
    · exact ⟨hof hwrote.contentLength, .inr ⟨i, hfinal₁, hwrote⟩⟩

/-- A reader of a blob, and a write of one byte. -/
def sampleReader : Option Unit → Request
  | none   => ⟨sampleAmb 4, .getBlob "acc" "c" "b" none⟩
  | some _ => ⟨sampleAmb 5, .putBlob "acc" "c" "b" [.ok [2]] none none ∅⟩

lemma compatible_sampleReader : Compatible sampleReader where
  ordinary := by decide
  noPatch := by decide
  tmp := by decide +kernel

def sampleProps (contentLength : ℕ) (contentMd5 : String) : BlobProps where
  name               := "b"
  blobType           := .blockBlob
  contentLength      := contentLength
  contentType        := none
  contentMd5         := some contentMd5
  contentEncoding    := none
  contentLanguage    := none
  cacheControl       := none
  contentDisposition := none
  metadata           := ∅
  etag               := "0x8DC"
  lastModified       := "Mon, 01 Jan 2024 00:00:00 GMT"

/-- The reader comes after the upsert of the write. -/
def afterUpsert : List (Option Unit) := List.replicate 10 (some ()) ++ [none, some (), none]

theorem get_blob_untorn_afterUpsert :
    ∃ row bytes, (BlobPayload.mk (sampleProps 1 "nmiMWKVIe46vacnhAFrQvw==") 1 none [2]).Of none
        row bytes ∧
      (sampleContainer.db.blobs.lookup ⟨"acc", "c", "b"⟩ = some row ∧
          sampleContainer.fs.file? (sample.blobFile ⟨"acc", "c", "b"⟩) = some bytes ∨
        ∃ i, version sampleReader
            (sample.race sampleReader sampleContainer afterUpsert).trace (some i) = some bytes ∧
          (sampleReader (some i)).Wrote sample
            (sampleContainer.db.blobs.lookup ⟨"acc", "c", "b"⟩) bytes row) := by
  refine get_blob_untorn compatible_sampleReader rfl (fun _ => rfl) arisen_sampleContainer ?_ _
    (by decide +kernel) (by decide +kernel)
  intro row hrow
  have hnone : sampleContainer.db.blobs.lookup ⟨"acc", "c", "b"⟩ = none := by decide +kernel
  rw [hrow] at hnone
  cases hnone

/-- A blob of two bytes. -/
def sampleStored : World :=
  ((sample.call (sampleAmb 2) (.putBlob "acc" "c" "b" [.ok [1, 2]] none none ∅)).run
    sampleContainer).2

/-- The write runs to its end between the lookup and the opening of the reader. -/
def betweenReads : List (Option Unit) := [none] ++ List.replicate 11 (some ()) ++ [none]

/-- The reader announces the length of one version and returns the bytes of the other. -/
theorem get_blob_torn :
    (sample.race sampleReader sampleStored betweenReads).Returned none
        (.ok (.payload ⟨sampleProps 2 "DLmI0EKn8o3V/itVs/Wseg==", 2, none, [2]⟩)) ∧
      [2].length ≠ announcedLength 2 none := by
  decide +kernel

end BlobStore
