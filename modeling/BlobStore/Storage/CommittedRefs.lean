import BlobStore.Storage.CommittedList
import BlobStore.Storage.Written

/-!
# References to committed blocks

A reference to a committed block is accepted only while a block is staged under its id, and it
stands for the bytes of that staged block; its size is taken from the committed list. It stands for
the committed block, then, only where the same bytes were staged again.
-/

namespace BlobStore

open Codec Paging

/-- The blob is made of `parts`, and this is the block that an id stands for among them. -/
def HadBytes (B : FsBackend) (w : World) (k : BlobKey) (parts : List (String × Bytes))
    (id : String) (bytes : Bytes) : Prop :=
  (B.shelf w).content k = some (parts.map Prod.snd).flatten ∧ (id, bytes) ∈ parts

/-- After a block list, from `w` to `w'`: where it has a reference to a committed block, the part
that the blob is made of there is the one it had before, and the list has its length. -/
def DenotesCommitted (B : FsBackend) (k : BlobKey) (refs : List BlockRef) (w w' : World)
    (parts parts' : List (String × Bytes)) : Prop :=
  ∀ (i : ℕ) (ref : BlockRef), refs[i]? = some ref → ref.kind = .committed →
    ∃ bytes, HadBytes B w k parts ref.blockId bytes ∧
      parts'[i]? = some (ref.blockId, bytes) ∧
      (committedBlocks k w')[i]? = some ⟨ref.blockId, bytes.length⟩

/-- The block that an id stands for is staged again, with the same bytes and with the length that
is recorded. -/
def StagedAgain (B : FsBackend) (w : World) (k : BlobKey) (parts : List (String × Bytes))
    (id : String) : Prop :=
  ∃ bytes, HadBytes B w k parts id bytes ∧ (B.shelf w).staged ⟨k, id⟩ = some bytes ∧
    FsBackend.committedSize (committedBlocks k w) id = some bytes.length

variable {B : FsBackend} {w : World} {k : BlobKey} {refs : List BlockRef} {amb : Ambient}
  {ct : Option String} {m : Metadata} {reply : Reply}

/-! ### One block list -/

lemma contributions_concat (g : Contributions) (w : World) (reqs : List Request) (req : Request) :
    B.contributions g w (reqs ++ [req]) =
      (B.contributions g w reqs).enter (B.shelf (B.serve w reqs)) req.call
        ((B.call req.amb req.call).run (B.serve w reqs)).1 := by
  induction reqs generalizing g w with
  | nil => rfl
  | cons r reqs ih => exact ih _ _

/-- A list that is accepted: its references resolve, and the blob is what is staged for them. -/
lemma putBlockList_accepted (hw : Sound B w) (hk : k.containerKey.Ordinary)
    (hok : ((B.call amb (.putBlockList k.account k.container k.blob refs ct m)).run w).1 =
      .ok reply) :
    ∃ resolved, refs.mapM (Shelf.resolveRef k w.db) = some resolved ∧
      (B.shelf ((B.call amb (.putBlockList k.account k.container k.blob refs ct m)).run
        w).2).content k = some ((B.shelf w).assemble k refs) ∧
      committedBlocks k ((B.call amb (.putBlockList k.account k.container k.blob refs ct m)).run
        w).2 = resolved := by
  have hcall : (Call.putBlockList k.account k.container k.blob refs ct m).Ordinary := by
    rintro c ⟨⟩
    exact hk
  rw [(call_refines hw amb hcall).answer] at hok
  obtain ⟨props, hprops⟩ :
      ∃ props, (Shelf.putBlockList B amb k refs ct m (B.shelf w)).1 = .ok props :=
    Shelf.replying_ok_inv hok
  obtain ⟨hfault, hc, resolved, hrefs⟩ := Shelf.putBlockList_ok_inv hprops
  have hstores := stores_putBlockList hw hk hfault hc hrefs rfl ct m
  exact ⟨resolved, hrefs, hstores.has.bytes,
    congrArg BlockListResult.committed hstores.has.blocks⟩

/-- What a reference to a committed block resolves to. -/
lemma resolveRef_committed (hw : Sound B w) {ref : BlockRef} (hkind : ref.kind = .committed)
    {entry : CommittedBlock} (h : Shelf.resolveRef k w.db ref = some entry) :
    ∃ bytes size, (B.shelf w).staged ⟨k, ref.blockId⟩ = some bytes ∧
      FsBackend.committedSize (committedBlocks k w) ref.blockId = some size ∧
      entry = ⟨ref.blockId, size⟩ := by
  obtain ⟨r, hr, hentry⟩ := Option.bind_eq_some_iff.mp h
  rw [hkind] at hentry
  obtain ⟨size, hsize, rfl⟩ := Option.map_eq_some_iff.mp hentry
  have hlookup : w.db.stagedBlocks.lookup ⟨k, ref.blockId⟩ = some r := hr
  obtain ⟨bytes, hbytes⟩ :=
    Option.isSome_iff_exists.mp (hw.staged ⟨k, ref.blockId⟩ (by simp [hlookup]))
  refine ⟨bytes, size, ?_, hsize, rfl⟩
  simp [FsBackend.shelf, hlookup, hbytes]

/-! ### Runs -/

/-- The parts a blob is made of after a run from an empty store. -/
def FsBackend.parts (B : FsBackend) (w₀ : World) (reqs : List Request) (k : BlobKey) :
    List (String × Bytes) :=
  B.contributions (fun _ => []) w₀ reqs k

/-- After every run: a block list that is accepted makes the blob of its parts, and its references
to committed blocks stand for the parts the blob had exactly if these were staged again. -/
theorem committed_refs_iff {w₀ : World} (hfresh : Fresh B w₀) {reqs : List Request}
    (hord : ∀ req ∈ reqs, req.call.Ordinary) (hk : k.containerKey.Ordinary) {req : Request}
    (hreq : req.call = .putBlockList k.account k.container k.blob refs ct m)
    (hok : ((B.call req.amb req.call).run (B.serve w₀ reqs)).1 = .ok reply) :
    (B.shelf (B.serve w₀ (reqs ++ [req]))).content k =
        some ((B.parts w₀ (reqs ++ [req]) k).map Prod.snd).flatten ∧
      (DenotesCommitted B k refs (B.serve w₀ reqs) (B.serve w₀ (reqs ++ [req]))
          (B.parts w₀ reqs k) (B.parts w₀ (reqs ++ [req]) k) ↔
        ∀ ref ∈ refs, ref.kind = .committed →
          StagedAgain B (B.serve w₀ reqs) k (B.parts w₀ reqs k) ref.blockId) := by
  have hsound : Sound B (B.serve w₀ reqs) := hfresh.sound.serve hord
  have hserve : B.serve w₀ (reqs ++ [req]) = ((B.call req.amb req.call).run (B.serve w₀ reqs)).2 :=
    serve_append w₀ reqs [req]
  have hparts : B.parts w₀ (reqs ++ [req]) k = refs.map fun ref =>
      (ref.blockId, ((B.shelf (B.serve w₀ reqs)).staged ⟨k, ref.blockId⟩).getD []) := by
    rw [FsBackend.parts, contributions_concat, hok, hreq]
    exact Function.update_self ..
  rw [hreq] at hok hserve
  obtain ⟨resolved, hrefs, hcontent, hlist⟩ := putBlockList_accepted hsound hk hok
  rw [← hserve] at hcontent hlist
  refine ⟨?_, ?_, ?_⟩
  · rw [hcontent, hparts, Shelf.assemble, List.map_map]
    rfl
  · intro hdenotes ref href hkind
    obtain ⟨i, hi⟩ := List.mem_iff_getElem?.mp href
    obtain ⟨bytes, hhad, hpart, hentry⟩ := hdenotes i ref hi hkind
    rw [hlist, getElem?_of_mapM hrefs hi] at hentry
    obtain ⟨staged, size, hstaged, hsize, heq⟩ := resolveRef_committed hsound hkind hentry
    rw [hparts, List.getElem?_map, hi, Option.map_some, hstaged, Option.getD_some] at hpart
    cases hpart
    cases heq
    exact ⟨bytes, hhad, hstaged, hsize⟩
  · intro hagain i ref hi hkind
    obtain ⟨bytes, hhad, hstaged, hsize⟩ := hagain ref (List.mem_of_getElem? hi) hkind
    obtain ⟨entry, -, hentry⟩ := exists_of_mapM hrefs (List.mem_of_getElem? hi)
    obtain ⟨staged, size, hstaged', hsize', rfl⟩ := resolveRef_committed hsound hkind hentry
    rw [hsize] at hsize'
    cases hsize'
    refine ⟨bytes, hhad, ?_, ?_⟩
    · rw [hparts, List.getElem?_map, hi, Option.map_some, hstaged, Option.getD_some]
    · rw [hlist, getElem?_of_mapM hrefs hi, hentry]

/-- The block of a blob is staged again, and the list is committed anew. -/
def sampleRestaged (bytes : Bytes) : List Request :=
  sampleCommitted ++ [⟨sampleAmb 4, .putBlock "acc" "c" "b" "AAAA" [.ok bytes]⟩]

/-- The list of the blob once more. -/
def sampleAnew : Request :=
  ⟨sampleAmb 5, .putBlockList "acc" "c" "b" [⟨"AAAA", .committed⟩] none ∅⟩

/-- With the same bytes, the reference stands for what it names. -/
theorem committed_refs_same_bytes :
    DenotesCommitted sample ⟨"acc", "c", "b"⟩ [⟨"AAAA", .committed⟩]
      (sample.serve (sample.fresh sampleAccounts) (sampleRestaged [1, 2]))
      (sample.serve (sample.fresh sampleAccounts) (sampleRestaged [1, 2] ++ [sampleAnew]))
      (sample.parts (sample.fresh sampleAccounts) (sampleRestaged [1, 2]) ⟨"acc", "c", "b"⟩)
      (sample.parts (sample.fresh sampleAccounts) (sampleRestaged [1, 2] ++ [sampleAnew])
        ⟨"acc", "c", "b"⟩) := by
  obtain ⟨reply, hreply⟩ := exists_of_isOk (r := ((sample.call sampleAnew.amb sampleAnew.call).run
    (sample.serve (sample.fresh sampleAccounts) (sampleRestaged [1, 2]))).1) (by decide +kernel)
  have hanew : sampleAnew.call = .putBlockList "acc" "c" "b" [⟨"AAAA", .committed⟩] none ∅ := rfl
  have hiff := (committed_refs_iff (k := ⟨"acc", "c", "b"⟩) (sample.fresh_isFresh sampleAccounts)
    (by decide) (by decide) hanew hreply).2
  refine hiff.mpr fun ref href _ => ?_
  rw [List.mem_singleton.mp href]
  have hsame : ((sample.shelf (sample.serve (sample.fresh sampleAccounts)
        (sampleRestaged [1, 2]))).content ⟨"acc", "c", "b"⟩ =
      some ((sample.parts (sample.fresh sampleAccounts) (sampleRestaged [1, 2])
        ⟨"acc", "c", "b"⟩).map Prod.snd).flatten ∧
      ("AAAA", [1, 2]) ∈ sample.parts (sample.fresh sampleAccounts) (sampleRestaged [1, 2])
        ⟨"acc", "c", "b"⟩) ∧
      (sample.shelf (sample.serve (sample.fresh sampleAccounts)
        (sampleRestaged [1, 2]))).staged ⟨⟨"acc", "c", "b"⟩, "AAAA"⟩ = some [1, 2] ∧
      FsBackend.committedSize (committedBlocks ⟨"acc", "c", "b"⟩ (sample.serve
        (sample.fresh sampleAccounts) (sampleRestaged [1, 2]))) "AAAA" = some 2 := by
    decide +kernel
  exact ⟨[1, 2], hsame⟩

/-- With one other byte, the list is accepted, the blob is that byte, and two bytes are recorded
for it. -/
theorem committed_refs_other_bytes :
    ((sample.call sampleAnew.amb sampleAnew.call).run
        (sample.serve (sample.fresh sampleAccounts) (sampleRestaged [3]))).1.isOk = true ∧
      committedBlocks ⟨"acc", "c", "b"⟩ (sample.serve (sample.fresh sampleAccounts)
        (sampleRestaged [3] ++ [sampleAnew])) = [⟨"AAAA", 2⟩] ∧
      ¬ DenotesCommitted sample ⟨"acc", "c", "b"⟩ [⟨"AAAA", .committed⟩]
        (sample.serve (sample.fresh sampleAccounts) (sampleRestaged [3]))
        (sample.serve (sample.fresh sampleAccounts) (sampleRestaged [3] ++ [sampleAnew]))
        (sample.parts (sample.fresh sampleAccounts) (sampleRestaged [3]) ⟨"acc", "c", "b"⟩)
        (sample.parts (sample.fresh sampleAccounts) (sampleRestaged [3] ++ [sampleAnew])
          ⟨"acc", "c", "b"⟩) := by
  have hrun : (((sample.call sampleAnew.amb sampleAnew.call).run
        (sample.serve (sample.fresh sampleAccounts) (sampleRestaged [3]))).1.isOk = true ∧
      committedBlocks ⟨"acc", "c", "b"⟩ (sample.serve (sample.fresh sampleAccounts)
        (sampleRestaged [3] ++ [sampleAnew])) = [⟨"AAAA", 2⟩]) ∧
      sample.parts (sample.fresh sampleAccounts) (sampleRestaged [3]) ⟨"acc", "c", "b"⟩ =
        [("AAAA", [1, 2])] ∧
      sample.parts (sample.fresh sampleAccounts) (sampleRestaged [3] ++ [sampleAnew])
        ⟨"acc", "c", "b"⟩ = [("AAAA", [3])] := by
    decide +kernel
  obtain ⟨⟨hok, hlist⟩, hparts, hparts'⟩ := hrun
  refine ⟨hok, hlist, fun h => ?_⟩
  obtain ⟨bytes, ⟨-, hbefore⟩, hafter, -⟩ := h 0 ⟨"AAAA", .committed⟩ rfl rfl
  rw [hparts] at hbefore
  rw [hparts'] at hafter
  have hone : bytes = [1, 2] := (Prod.mk.inj (List.mem_singleton.mp hbefore)).2
  have htwo : [3] = bytes := (Prod.mk.inj (Option.some.inj hafter)).2
  rw [hone] at htwo
  cases htwo

end BlobStore
