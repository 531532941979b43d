import BlobStore.Storage.Concurrent.Traced
import BlobStore.Storage.TableHash

/-!
# Writers of one blob

There is no lock: the write whose row is there at the end and the write whose file is there at the
end may be different ones. `writers_agree` says what holds if they are the same, and
`writers_disagree` is a schedule on which they are not.
-/

namespace BlobStore

open Codec FileTree Resumption Proc

variable {B : FsBackend} {ι : Type} [DecidableEq ι] {req : ι → Request} {w : World} {k : BlobKey}

/-- The row that a write of `bytes` leaves over the row `old`. -/
def Request.Wrote (B : FsBackend) (req : Request) (old : Option BlobRow) (bytes : Bytes)
    (row : BlobRow) : Prop :=
  ∃ k u, req.blobRow B bytes = some (k, u) ∧ row = MetadataDb.upsertedRow k u old

lemma Request.Wrote.contentLength {old : Option BlobRow} {req : Request} {bytes : Bytes}
    {row : BlobRow} (h : req.Wrote B old bytes row) : row.contentLength = bytes.length := by
  obtain ⟨k, u, hu, rfl⟩ := h
  have hlen : u.contentLength = bytes.length := by
    unfold Request.blobRow at hu
    split at hu <;> cases hu <;> rfl
  rw [← hlen]
  cases old <;> rfl

omit [DecidableEq ι] in
lemma owner_ne_gone {x : Slot} {tr : Trace ι Action Action.Response}
    (h : ∀ e ∈ tr, rowEffect x e.2 ≠ .drop) : owner x tr ≠ .gone := by
  induction tr using List.reverseRecOn with
  | nil => nofun
  | append_singleton tr e ih =>
    have hlast := h e (by simp)
    have hprev := ih fun e' he' => h e' (by simp [he'])
    rw [owner_snoc]
    cases heffect : rowEffect x e.2 with
    | none => exact hprev
    | put => nofun
    | drop => exact absurd heffect hlast

/-- Where no call deletes, rows are only overwritten. -/
lemma Traced.never_dropped {w₀ : World} {tr : Trace ι Action Action.Response} {φ : ι → Phase}
    (h : Traced B req w₀ w tr φ) (hdel : ∀ i, (req i).call.deletes = false) :
    owner (.blob k) tr ≠ .gone ∧ ∀ row, base tr k row = row := by
  have hnone : ∀ e ∈ tr, rowEffect (.blob k) e.2 ≠ .drop := by
    intro e he hdrop
    have := h.deletes e he k hdrop
    rw [hdel] at this
    cases this
  refine ⟨owner_ne_gone hnone, fun row => if_neg ?_⟩
  rintro ⟨e, he, hdrop⟩
  exact hnone e he hdrop

/-! ### Writers -/

/-- Once all writes of a blob have succeeded, and if the one that renamed its file last is the one
that wrote its row last, the blob is exactly what that one wrote. -/
theorem writers_agree [Nonempty ι] (hreq : Compatible req)
    (hslot : ∀ i, (req i).call.slot = some (.blob k)) (hw : Arisen B w) (schedule : List ι)
    (hok : ∀ i, (B.race req w schedule).Succeeded i)
    (hlast : holder B (.blob k) (B.race req w schedule).trace =
      owner (.blob k) (B.race req w schedule).trace) :
    ∃ i bytes row, version req (B.race req w schedule).trace i = some bytes ∧
      (req i).Wrote B (w.db.blobs.lookup k) bytes row ∧
      B.readBlob k none (B.race req w schedule).state =
        .ok ⟨blobRowToProps row, bytes.length, none, bytes⟩ := by
  obtain ⟨φ, hsteady, hout⟩ := race_steady hreq hw.located schedule
  have htraced := hsteady.traced
  obtain ⟨hgone, hbase⟩ :=
    htraced.never_dropped (k := k) fun i => Call.deletes_of_slot (hslot i)
  have hstart : owner (.blob k) (B.race req w schedule).trace ≠ .start := by
    obtain ⟨i⟩ := ‹Nonempty ι›
    obtain ⟨reply, hreply⟩ := hok i
    obtain ⟨c, hc⟩ := hout i _ hreply (by rw [hslot]; rfl) ⟨reply, rfl⟩
    exact htraced.noted i c hc _ (hslot i)
  have hrow := htraced.blob k
  have hfile := htraced.file (.blob k)
  rw [hlast] at hfile
  cases howner : owner (.blob k) (B.race req w schedule).trace with
  | start => exact absurd howner hstart
  | gone => exact absurd howner hgone
  | write i =>
    rw [howner] at hrow hfile
    obtain ⟨row, hlookup, -, bytes, u, hversion, hu, hupsert⟩ := hrow
    obtain ⟨bytes', hcontent, -, -, hversion'⟩ := hfile
    rw [hversion] at hversion'
    cases hversion'
    rw [hbase] at hupsert
    have hwrote : (req i).Wrote B (w.db.blobs.lookup k) bytes row := ⟨k, u, hu, hupsert⟩
    have hord : k.containerKey.Ordinary := hreq.ordinary i _ (Call.target_of_slot (hslot i))
    exact ⟨i, bytes, row, hversion, hwrote,
      readBlob_of_whole_file htraced.located hord hlookup hcontent hwrote.contentLength⟩

/-- A store with one container. -/
def sampleContainer : World :=
  ((sample.call (sampleAmb 1) (.createContainer "acc" "c" .off ∅)).run
    (sample.fresh sampleAccounts)).2

lemma arisen_sampleContainer : Arisen sample sampleContainer :=
  .call (.fresh (sample.fresh_isFresh sampleAccounts)) _ _

/-- Two writes of one blob. -/
def samplePair : Bool → Request
  | false => ⟨sampleAmb 2, .putBlob "acc" "c" "b" [.ok [2]] none none ∅⟩
  | true  => ⟨sampleAmb 3, .putBlob "acc" "c" "b" [.ok [1], .ok [2]] none none ∅⟩

lemma compatible_samplePair : Compatible samplePair where
  ordinary := by decide
  noPatch := by decide
  tmp := by decide +kernel

/-- One write runs to its end just before the other one renames its file. -/
theorem writers_agree_nested :
    ∃ i bytes row, version samplePair (sample.race samplePair sampleContainer
        (List.replicate 6 false ++ List.replicate 12 true ++ List.replicate 5 false)).trace i =
          some bytes ∧
      (samplePair i).Wrote sample (sampleContainer.db.blobs.lookup ⟨"acc", "c", "b"⟩) bytes row ∧
      sample.readBlob ⟨"acc", "c", "b"⟩ none (sample.race samplePair sampleContainer
        (List.replicate 6 false ++ List.replicate 12 true ++ List.replicate 5 false)).state =
          .ok ⟨blobRowToProps row, bytes.length, none, bytes⟩ :=
  writers_agree compatible_samplePair (by decide) arisen_sampleContainer _ (by decide +kernel)
    (by decide +kernel)

/-- One write runs to its end between the rename and the upsert of the other one: both succeed, and
what is read is neither of the two bodies. -/
theorem writers_disagree :
    (∀ i, (sample.race samplePair sampleContainer
      (List.replicate 7 false ++ List.replicate 12 true ++ List.replicate 4 false)).Succeeded i) ∧
    (∀ i, version samplePair (sample.race samplePair sampleContainer
      (List.replicate 7 false ++ List.replicate 12 true ++ List.replicate 4 false)).trace i ≠
        some [1]) ∧
    (sample.readBlob ⟨"acc", "c", "b"⟩ none (sample.race samplePair sampleContainer
      (List.replicate 7 false ++ List.replicate 12 true ++ List.replicate 4 false)).state).map
        BlobPayload.bytes = .ok [1] := by
  decide +kernel

end BlobStore
