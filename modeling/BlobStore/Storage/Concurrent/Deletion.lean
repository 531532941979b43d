import BlobStore.Storage.Concurrent.Reader

/-!
# A deletion beside a write

`delete_blob` deletes the row first and removes the file last, by its path, and the path is the same
for the blob that was deleted and for one that was written since. `delete_spares_put_iff` says on
which runs this does harm.
-/

namespace BlobStore

open Codec FileTree Resumption Proc

variable {B : FsBackend} {ι : Type} {w : World} {k : BlobKey}

/-- A row that has been touched is never again the one of the start. -/
lemma owner_start_of_initial {x : Slot} {tr tr' : Trace ι Action Action.Response}
    (hpre : tr' <+: tr) (h : owner x tr = .start) : owner x tr' = .start := by
  obtain ⟨rest, rfl⟩ := hpre
  induction rest using List.reverseRecOn with
  | nil => simpa using h
  | append_singleton rest e ih =>
    rw [← List.append_assoc, owner_snoc] at h
    refine ih ?_
    by_contra hne
    exact Source.after_ne_start hne _ _ h

/-- A deletion that is at its end has found no row, or has deleted it. -/
lemma history_deleteBlob (amb : Ambient) (k : BlobKey) :
    FollowsHistory (fun h _ => h = [⟨.getBlob k, none⟩] ∨
        ∃ r, ⟨.deleteBlobRow amb.dbFault k, r⟩ ∈ h)
      [] (B.call amb (.deleteBlob k.account k.container k.blob)) := by
  refine Follows.bind (Q := fun h _ => h = [⟨.getBlob k, none⟩] ∨
    ∃ r, ⟨.deleteBlobRow amb.dbFault k, r⟩ ∈ h) ?_
    (fun _ _ hh => follows_pure.mpr hh) fun _ _ hh => hh
  refine (history_requireBlob k).bind ?_ fun h e hh => .inl hh
  intro h row hh
  refine follows_perform_bind.mpr fun r _ => ⟨_, rfl, ?_⟩
  refine (follows_history _ _).mono fun h' _ hpre => .inr ⟨r, ?_⟩
  exact hpre.subset (by simp)

variable {req : Bool → Request} {body : ByteStream} {ct md5 : Option String} {m : Metadata}

/-- The blob is absent or reads as the body; if it has a row, it has a file. -/
structure Spared (B : FsBackend) (k : BlobKey) (body : ByteStream) (w : World) : Prop where
  reads : B.readBlob k none w = .error (.new .blobNotFound) ∨
    ∃ bytes p, body.collect = .ok bytes ∧ B.readBlob k none w = .ok p ∧ p.bytes = bytes ∧
      p.totalLen = bytes.length ∧ p.props.contentLength = bytes.length
  file : (w.db.blobs.lookup k).isSome = true → (w.fs.file? (B.blobFile k)).isSome = true

lemma spared_of_no_row (body : ByteStream) (hrow : w.db.blobs.lookup k = none) :
    Spared B k body w where
  reads := .inl (readBlob_of_no_row hrow none)
  file := by simp [hrow]

/-- A row as it was at the start, after the deletion: there was none. -/
lemma no_row_of_untouched (hreq : Compatible req)
    (hdel : (req false).call = .deleteBlob k.account k.container k.blob)
    (hfault : (req false).amb.dbFault = none) (hw : Located B w.db) (schedule : List Bool)
    {r : Except AzureError Reply} (hret : (B.race req w schedule).Returned false r)
    (howner : owner (.blob k) (B.race req w schedule).trace = .start) :
    w.db.blobs.lookup k = none := by
  obtain ⟨φ, hsteady, -⟩ := race_steady hreq hw schedule
  have hrec := Conf.run_recorded Action.exec (fun i => B.call (req i).amb (req i).call) w schedule
  have hhist := Conf.run_history Action.exec (fun i => B.call (req i).amb (req i).call) false
    (by rw [hdel]; exact history_deleteBlob _ k) w schedule hret
  rcases hhist with hfound | ⟨r, hdeleted⟩
  · obtain ⟨tr₁, tr₂, htr, -, -⟩ := Trace.exists_of_history_eq_cons hfound
    have hpre : tr₁ <+: (B.race req w schedule).trace := ⟨_, htr.symm⟩
    have hlookup := hrec.answer _ _ _ htr
    obtain ⟨φ₁, htraced₁, -⟩ := hsteady.past tr₁ hpre
    have hrow := htraced₁.blob k
    rw [owner_start_of_initial hpre howner] at hrow
    exact hrow.symm.trans hlookup.symm
  · obtain ⟨x, hx, hxev⟩ := List.mem_map.mp hdeleted
    obtain ⟨tr₁, tr₂, htr⟩ := List.append_of_mem (List.mem_of_mem_filter hx)
    have htr' : (B.race req w schedule).trace = (tr₁ ++ [x]) ++ tr₂ := by
      rw [List.append_assoc]
      exact htr
    have hanswer := hrec.answer _ _ _ htr
    have hstart := owner_start_of_initial ⟨_, htr'.symm⟩ howner
    rw [owner_snoc, hxev] at hstart
    rw [hxev, hfault] at hanswer
    cases hanswer
    rw [hfault] at hstart
    simp [rowEffect, Source.after] at hstart

/-- Once a deletion has returned, the blob is absent or exactly what the write beside it wrote,
unless the write has recorded its row and the file was removed after it was put in place. -/
theorem delete_spares_put_iff (hreq : Compatible req)
    (hdel : (req false).call = .deleteBlob k.account k.container k.blob)
    (hput : (req true).call = .putBlob k.account k.container k.blob body ct md5 m)
    (hfault : (req false).amb.dbFault = none) (hw : Arisen B w) (schedule : List Bool)
    {r : Except AzureError Reply} (hret : (B.race req w schedule).Returned false r) :
    Spared B k body (B.race req w schedule).state ↔
      ¬ (owner (.blob k) (B.race req w schedule).trace = .write true ∧
        holder B (.blob k) (B.race req w schedule).trace = .gone) := by
  obtain ⟨φ, hsteady, -⟩ := race_steady hreq hw.located schedule
  have htraced := hsteady.traced
  have hrow := htraced.blob k
  have hfile := htraced.file (.blob k)
  have hslot : (req true).call.slot = some (.blob k) := by rw [hput]; rfl
  have hversion : ∀ bytes, version req (B.race req w schedule).trace true = some bytes →
      body.collect = .ok bytes := by
    intro bytes hbytes
    rw [version, hput] at hbytes
    cases hcollect : body.collect with
    | error e => simp [Call.bytes, hcollect, Except.toOption] at hbytes
    | ok bytes' => simpa [Call.bytes, hcollect, Except.toOption] using hbytes
  cases howner : owner (.blob k) (B.race req w schedule).trace with
  | start =>
    rw [howner] at hrow
    have hnone := no_row_of_untouched hreq hdel hfault hw.located schedule hret howner
    exact ⟨fun _ h => (by cases h.1), fun _ => spared_of_no_row body (hrow.trans hnone)⟩
  | gone =>
    rw [howner] at hrow
    exact ⟨fun _ h => (by cases h.1), fun _ => spared_of_no_row body hrow⟩
  | write i =>
    rw [howner] at hrow
    obtain ⟨row, hlookup, hpub, bytes, u, hbytes, hu, hupsert⟩ := hrow
    have hi : i = true := by
      cases i with
      | true => rfl
      | false =>
        have := slot_of_blobRow hu
        rw [hdel] at this
        cases this
    subst hi
    have hlen : row.contentLength = bytes.length :=
      (show (req true).Wrote B _ bytes row from ⟨k, u, hu, hupsert⟩).contentLength
    cases hholder : holder B (.blob k) (B.race req w schedule).trace with
    | start => exact absurd hholder (htraced.placed true hpub _ hslot)
    | gone =>
      rw [hholder] at hfile
      refine ⟨fun hspared => ?_, fun h => absurd ⟨rfl, rfl⟩ h⟩
      have hsome := hspared.file (by rw [hlookup]; rfl)
      rw [FsBackend.slotFile] at hfile
      rw [hfile] at hsome
      cases hsome
    | write j =>
      rw [hholder] at hfile
      obtain ⟨bytes', hcontent, -, hslot', hbytes'⟩ := hfile
      have hj : j = true := by
        cases j with
        | true => rfl
        | false =>
          rw [hdel] at hslot'
          cases hslot'
      subst hj
      cases hbytes.symm.trans hbytes'
      have hord : k.containerKey.Ordinary := hreq.ordinary true _ (Call.target_of_slot hslot)
      have hread := readBlob_of_whole_file htraced.located hord hlookup hcontent hlen
      refine ⟨fun _ h => (by cases h.2), fun _ =>
        ⟨.inr ⟨bytes, _, hversion bytes hbytes, hread, rfl, rfl, hlen⟩, fun _ => ?_⟩⟩
      rw [FsBackend.slotFile] at hcontent
      rw [hcontent]
      rfl

/-- A deletion of a blob, and a write of one byte. -/
def sampleDeletion : Bool → Request
  | false => ⟨sampleAmb 4, .deleteBlob "acc" "c" "b"⟩
  | true  => ⟨sampleAmb 5, .putBlob "acc" "c" "b" [.ok [2]] none none ∅⟩

lemma compatible_sampleDeletion : Compatible sampleDeletion where
  ordinary := by decide
  noPatch := by decide
  tmp := by decide +kernel

lemma arisen_sampleStored : Arisen sample sampleStored := .call arisen_sampleContainer _ _

/-- The file is removed before the write puts its own in place. -/
theorem delete_spares_put_removed :
    Spared sample ⟨"acc", "c", "b"⟩ [.ok [2]] (sample.race sampleDeletion sampleStored
      (List.replicate 4 true ++ List.replicate 5 false ++ List.replicate 8 true)).state :=
  (delete_spares_put_iff (k := ⟨"acc", "c", "b"⟩) (r := .ok .done) compatible_sampleDeletion rfl rfl
    rfl arisen_sampleStored _ (by decide +kernel)).mpr (by decide +kernel)

/-- The write runs to its end before the last step of the deletion: both succeed, and the blob has a
row but no file. -/
theorem delete_destroys_put :
    (∀ i, (sample.race sampleDeletion sampleStored
      (List.replicate 4 false ++ List.replicate 11 true ++ [false])).Succeeded i) ∧
    ¬ Spared sample ⟨"acc", "c", "b"⟩ [.ok [2]] (sample.race sampleDeletion sampleStored
      (List.replicate 4 false ++ List.replicate 11 true ++ [false])).state := by
  refine ⟨by decide +kernel, fun h => absurd h.file ?_⟩
  decide +kernel

end BlobStore
