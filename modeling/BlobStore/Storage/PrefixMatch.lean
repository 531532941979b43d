import BlobStore.Storage.ContainerPages
import BlobStore.Storage.Walk
import BlobStore.Storage.Written

/-!
# What a prefix matches

Listings select names by a pattern, the prefix followed by a wildcard. Characters of the prefix that
are wildcards themselves, or letters, match other characters, too. Without such characters the
pattern matches what starts with the prefix.
-/

namespace BlobStore

open Paging

namespace MetadataDb

/-! ### The pattern -/

/-- No wildcard, and the same in both cases. -/
def PlainChar (c : Char) : Prop := c ≠ '%' ∧ c ≠ '_' ∧ c.isAlpha = false

instance (c : Char) : Decidable (PlainChar c) := inferInstanceAs (Decidable (_ ∧ _ ∧ _))

/-- A prefix that matches only itself. -/
def PlainPrefix (p : String) : Prop := ∀ c ∈ p.toList, PlainChar c

instance (p : String) : Decidable (PlainPrefix p) :=
  inferInstanceAs (Decidable (∀ c ∈ p.toList, PlainChar c))

/-- A plain character is matched by itself only. -/
lemma PlainChar.eq_of_toLower {c d : Char} (h : PlainChar c) (hd : c.toLower = d.toLower) :
    c = d := by
  have halpha : ¬ (65 ≤ c.toNat ∧ c.toNat ≤ 90 ∨ 97 ≤ c.toNat ∧ c.toNat ≤ 122) :=
    fun hc => absurd (Text.isAlpha_iff.mpr hc) (by simp [h.2.2])
  have hc : c.toLower = c := by
    unfold Char.toLower
    rw [dif_neg]
    exact fun hupper => halpha (.inl hupper)
  rw [hc] at hd
  exact (Text.toLower_eq hd.symm (by omega)).symm

/-- A plain prefix matches what starts with it. -/
lemma like_iff_of_plain {p cs : List Char} (h : ∀ c ∈ p, PlainChar c) :
    like (p ++ ['%']) cs = true ↔ p <+: cs := by
  induction p generalizing cs with
  | nil => simp [like_percent]
  | cons c p ih =>
    rw [List.forall_mem_cons] at h
    cases cs with
    | nil => simp [like, h.1.1]
    | cons d cs =>
      simp only [List.cons_append, like, if_neg h.1.1, h.1.2.1, decide_false, Bool.false_or,
        Bool.and_eq_true, decide_eq_true_eq, ih h.2, List.cons_prefix_cons]
      refine and_congr_left fun _ => ⟨h.1.eq_of_toLower, ?_⟩
      rintro rfl
      rfl

/-- Every letter has another case. -/
lemma exists_other_case {c : Char} (h : c.isAlpha = true) : ∃ d, d ≠ c ∧ c.toLower = d.toLower := by
  have hall : ∀ n : Fin 128, (Char.ofNat n).isAlpha = true →
      Char.ofNat (if n.val < 97 then n.val + 32 else n.val - 32) ≠ Char.ofNat n ∧
        (Char.ofNat n).toLower =
          (Char.ofNat (if n.val < 97 then n.val + 32 else n.val - 32)).toLower := by
    decide
  have hlt : c.toNat < 128 := by
    rcases Text.isAlpha_iff.mp h with h | h <;> omega
  have hc := hall ⟨c.toNat, hlt⟩
  rw [Char.ofNat_toNat] at hc
  exact ⟨_, hc h⟩

/-- What is not plain matches something else. -/
lemma exists_other {c : Char} (h : ¬ PlainChar c) :
    ∃ d, d ≠ c ∧ ∀ p cs, like p cs = true → like (c :: p) (d :: cs) = true := by
  by_cases hpercent : c = '%'
  · subst hpercent
    refine ⟨'x', by decide, fun p cs hlike => ?_⟩
    simp only [like, if_pos, List.any_eq_true]
    exact ⟨cs, by simp [List.mem_tails], hlike⟩
  · by_cases hunder : c = '_'
    · subst hunder
      refine ⟨'x', by decide, fun p cs hlike => ?_⟩
      simp [like, hlike]
    · have halpha : c.isAlpha = true := by
        by_contra halpha
        exact h ⟨hpercent, hunder, Bool.eq_false_iff.mpr halpha⟩
      obtain ⟨d, hne, hcase⟩ := exists_other_case halpha
      refine ⟨d, hne, fun p cs hlike => ?_⟩
      simp [like, hpercent, hcase, hlike]

lemma like_append_left {p cs : List Char} (h : like p cs = true) (q : List Char) :
    like (q ++ p) (q ++ cs) = true := by
  induction q with
  | nil => exact h
  | cons c q ih =>
    simp only [List.cons_append, like]
    by_cases hc : c = '%'
    · rw [if_pos hc, List.any_eq_true]
      exact ⟨q ++ cs, by simp [List.mem_tails], ih⟩
    · simp [hc, ih]

/-- A prefix that is not plain matches a name that does not start with it. -/
lemma exists_like_not_prefix {p : String} (h : ¬ PlainPrefix p) :
    ∃ name : String, name ≠ "" ∧ like (p.toList ++ ['%']) name.toList = true ∧
      ¬ p.toList <+: name.toList := by
  simp only [PlainPrefix, not_forall] at h
  obtain ⟨c, hc, hplain⟩ := h
  obtain ⟨pre, post, hsplit⟩ := List.append_of_mem hc
  obtain ⟨d, hne, hlike⟩ := exists_other hplain
  refine ⟨String.ofList (pre ++ d :: post), ?_, ?_, ?_⟩
  · intro hempty
    have := congrArg String.toList hempty
    simp at this
  · rw [hsplit, String.toList_ofList, List.append_assoc, List.cons_append]
    exact like_append_left (hlike _ _ (by simpa using like_append post [])) pre
  · rw [hsplit, String.toList_ofList, List.prefix_append_right_inj, List.cons_prefix_cons]
    exact fun hpre => hne hpre.1.symm

end MetadataDb

/-! ### Listings -/

/-- A page that is long enough lists the blobs that start with the prefix. -/
def ExactBlobs (p : String) (c : ContainerKey) (w : World) : Prop :=
  ∀ m : UInt32, (w.db.selectBlobs c (some p) none).length ≤ m.toNat →
    ∃ entries, flatPage c (some p) m w none = some (entries, none) ∧
      (entries.map BlobProps.name).Pairwise (· < ·) ∧
      ∀ name, name ∈ entries.map BlobProps.name ↔
        name ∈ w.db.blobNames c ∧ p.toList <+: name.toList

/-- A page that is long enough lists the containers that start with the prefix. -/
def ExactContainers (p account : String) (w : World) : Prop :=
  ∀ m : UInt32, (w.db.selectContainers account (some p) none).length ≤ m.toNat →
    m.toNat < 2 ^ 32 - 1 →
    ∃ entries, containerPage account (some p) m w none = some (entries, none) ∧
      (entries.map ContainerProps.name).Pairwise (· < ·) ∧
      ∀ name, name ∈ entries.map ContainerProps.name ↔
        (w.db.containers.lookup ⟨account, name⟩).isSome = true ∧ p.toList <+: name.toList

/-- Nothing has the empty name, as no request can name it. -/
structure Nameable (db : MetadataDb) : Prop where
  blob : ∀ k, (db.blobs.lookup k).isSome = true → k.blob ≠ ""
  container : ∀ c, (db.containers.lookup c).isSome = true → c.container ≠ ""

variable {p account : String} {c : ContainerKey} {w : World}

lemma flatPage_of_le (hc : (w.db.containers.lookup c).isSome = true) {m : UInt32}
    (hm : (w.db.selectBlobs c (some p) none).length ≤ m.toNat) :
    flatPage c (some p) m w none =
      some ((w.db.selectBlobs c (some p) none).map blobRowToProps, none) := by
  rw [flatPage_eq hc, MetadataDb.listBlobs_eq, MetadataDb.page, if_neg (not_lt.mpr hm)]

lemma exactBlobs_of_plain (hp : MetadataDb.PlainPrefix p) (hnamed : w.db.Named)
    (hne : Nameable w.db) (hc : (w.db.containers.lookup c).isSome = true) : ExactBlobs p c w := by
  intro m hm
  refine ⟨_, flatPage_of_le hc hm, ?_, ?_⟩
  · rw [List.map_map]
    exact List.pairwise_map.mpr (MetadataDb.sorted_selectBlobs hnamed)
  · intro name
    rw [List.map_map]
    refine (mem_directory hnamed).trans (and_congr_right fun hmem => ?_)
    obtain ⟨row, hrow⟩ := MetadataDb.mem_blobNames.mp hmem
    have hname := hne.blob _ (Option.isSome_iff_exists.mpr ⟨row, hrow⟩)
    simp only [MetadataDb.listed, Bool.and_eq_true, decide_eq_true_eq,
      MetadataDb.like_iff_of_plain hp, and_iff_left (MetadataDb.empty_lt hname)]

lemma containerPage_of_le {m : UInt32} (hmax : m.toNat < 2 ^ 32 - 1)
    (hm : (w.db.selectContainers account (some p) none).length ≤ m.toNat) :
    containerPage account (some p) m w none =
      some ((w.db.selectContainers account (some p) none).map containerRowToProps, none) := by
  rw [containerPage_eq, MetadataDb.listContainers_eq hmax, MetadataDb.page,
    if_neg (not_lt.mpr hm)]

lemma exactContainers_of_plain (hp : MetadataDb.PlainPrefix p) (hne : Nameable w.db) :
    ExactContainers p account w := by
  intro m hm hmax
  refine ⟨_, containerPage_of_le hmax hm, ?_, ?_⟩
  · rw [List.map_map]
    exact List.pairwise_map.mpr MetadataDb.sorted_selectContainers
  · intro name
    rw [List.map_map]
    refine mem_names_selectContainers.trans ?_
    rw [Option.getD_some, MetadataDb.like_iff_of_plain hp]
    constructor
    · exact fun h => h.2
    · exact fun h => ⟨hne.container _ h.1, h⟩

/-! ### Stores with one name -/

/-- A store with one container and nothing in it. -/
@[irreducible] def FsBackend.withContainer (B : FsBackend) (name : String) : World :=
  ((B.call (sampleAmb 1) (.createContainer "acc" name .off ∅)).run (B.fresh sampleAccounts)).2

lemma arisen_withContainer (B : FsBackend) (name : String) : Arisen B (B.withContainer name) := by
  rw [FsBackend.withContainer]
  exact .call (.fresh (B.fresh_isFresh sampleAccounts)) _ _

lemma db_withContainer (B : FsBackend) (name : String) :
    (B.withContainer name).db =
      { accounts        := sampleAccounts
        containers      := AList.insert ⟨"acc", name⟩ ⟨PublicAccessLevel.off.asDbStr, ∅,
          (sampleAmb 1).etag, (sampleAmb 1).lastModified⟩ ∅
        blobs           := ∅
        stagedBlocks    := ∅
        committedBlocks := ∅ } := by
  have haccount : (sampleAccounts.lookup "acc").isNone = false := by decide
  rw [FsBackend.withContainer, db_createContainer]
  simp only [MetadataDb.guarded, sampleAmb, MetadataDb.insertContainer, FsBackend.fresh,
    MetadataDb.empty, AList.lookup_empty, Option.isSome_none, haccount, Bool.false_eq_true,
    if_false]

lemma mem_withContainer {B : FsBackend} {name : String} {c : ContainerKey} :
    ((B.withContainer name).db.containers.lookup c).isSome = true ↔ c = ⟨"acc", name⟩ := by
  rw [db_withContainer, Table.isSome_lookup_insert]
  simp

/-- A store with one blob. -/
@[irreducible] def FsBackend.withBlob (B : FsBackend) (name : String) : World :=
  ((B.call (sampleAmb 2) (.putBlob "acc" "c" name [] none none ∅)).run (B.withContainer "c")).2

lemma arisen_withBlob (B : FsBackend) (name : String) : Arisen B (B.withBlob name) := by
  rw [FsBackend.withBlob]
  exact .call (arisen_withContainer B "c") _ _

lemma db_withBlob (B : FsBackend) (name : String) :
    ∃ row, (B.withBlob name).db = { (B.withContainer "c").db with
      blobs := AList.insert ⟨"acc", "c", name⟩ row ∅ } := by
  have hord : (ContainerKey.mk "acc" "c").Ordinary := by decide
  have hsound : Sound B (B.withContainer "c") := by
    rw [FsBackend.withContainer]
    exact (B.fresh_isFresh sampleAccounts).sound.call _ fun _ hc => Option.some.inj hc ▸ hord
  have hcall : (Call.putBlob "acc" "c" name [] none none ∅).Ordinary :=
    fun _ hc => Option.some.inj hc ▸ hord
  have hput := (call_refines hsound (sampleAmb 2) hcall).shelf
  have hblobs : (B.withContainer "c").db.blobs = ∅ := by rw [db_withContainer]
  have hc : ((B.shelf (B.withContainer "c")).db.containers.lookup
      (BlobKey.mk "acc" "c" name).containerKey).isSome = true := mem_withContainer.mpr rfl
  obtain ⟨row, hrow⟩ : ∃ row, row = MetadataDb.upsertedRow ⟨"acc", "c", name⟩
      (Shelf.upsertFor B (sampleAmb 2) ⟨"acc", "c", name⟩ [] none (Shelf.digest B []) ∅)
      ((B.shelf (B.withContainer "c")).db.blobs.lookup ⟨"acc", "c", name⟩) := ⟨_, rfl⟩
  rw [Shelf.call, Shelf.replying, Shelf.putBlob_eq rfl hc rfl (by simp) hrow] at hput
  refine ⟨row, ?_⟩
  rw [FsBackend.withBlob]
  refine (congrArg Shelf.db hput).trans ?_
  simp only [FsBackend.shelf, hblobs]

lemma mem_withBlob {B : FsBackend} {name : String} {k : BlobKey} :
    ((B.withBlob name).db.blobs.lookup k).isSome = true ↔ k = ⟨"acc", "c", name⟩ := by
  obtain ⟨row, hdb⟩ := db_withBlob B name
  rw [hdb, Table.isSome_lookup_insert]
  simp

lemma containers_withBlob (B : FsBackend) (name : String) :
    (B.withBlob name).db.containers = (B.withContainer "c").db.containers := by
  obtain ⟨row, hdb⟩ := db_withBlob B name
  rw [hdb]

lemma length_le_one {α : Type} {l : List α} {x : α} (hnodup : l.Nodup) (h : ∀ y ∈ l, y = x) :
    l.length ≤ 1 := by
  have hsub : l.Subperm [x] := List.subperm_of_subset hnodup fun y hy => by simp [h y hy]
  simpa using hsub.length_le

/-- A listing by prefix is exact, for blobs as for containers, exactly if the prefix has no letter
and no wildcard in it. -/
theorem prefix_listing_iff (B : FsBackend) (p : String) :
    ((∀ w c, Arisen B w → Nameable w.db → (w.db.containers.lookup c).isSome = true →
      ExactBlobs p c w) ↔ MetadataDb.PlainPrefix p) ∧
    ((∀ w account, Arisen B w → Nameable w.db → ExactContainers p account w) ↔
      MetadataDb.PlainPrefix p) := by
  refine ⟨⟨?_, ?_⟩, ⟨?_, ?_⟩⟩
  · intro h
    by_contra hp
    obtain ⟨name, hne, hlike, hnot⟩ := MetadataDb.exists_like_not_prefix hp
    have hc : ((B.withBlob name).db.containers.lookup ⟨"acc", "c"⟩).isSome = true := by
      rw [containers_withBlob]
      exact mem_withContainer.mpr rfl
    have hnameable : Nameable (B.withBlob name).db := by
      refine ⟨fun k hk => ?_, fun c hc => ?_⟩
      · rw [mem_withBlob.mp hk]
        exact hne
      · rw [containers_withBlob] at hc
        rw [mem_withContainer.mp hc]
        decide
    have hnamed := (arisen_withBlob B name).named
    have hm : ((B.withBlob name).db.selectBlobs ⟨"acc", "c"⟩ (some p) none).length ≤
        (1 : UInt32).toNat := by
      rw [← List.length_map (f := BlobRow.name)]
      refine length_le_one (x := name) (nodup_directory hnamed p) fun y hy => ?_
      obtain ⟨row, hrow⟩ := MetadataDb.mem_blobNames.mp ((mem_directory hnamed).mp hy).1
      have hkey := mem_withBlob.mp (Option.isSome_iff_exists.mpr ⟨row, hrow⟩)
      exact congrArg BlobKey.blob hkey
    obtain ⟨entries, hentries, -, hexact⟩ := h _ _ (arisen_withBlob B name) hnameable hc 1 hm
    rw [flatPage_of_le hc hm] at hentries
    cases hentries
    refine hnot ((hexact name).mp ?_).2
    rw [List.map_map]
    refine (mem_directory hnamed).mpr ⟨?_, ?_⟩
    · rw [MetadataDb.mem_blobNames, ← Option.isSome_iff_exists]
      exact mem_withBlob.mpr rfl
    · simp [MetadataDb.listed, hlike, MetadataDb.empty_lt hne]
  · intro hp w c hw hnameable hc
    exact exactBlobs_of_plain hp hw.named hnameable hc
  · intro h
    by_contra hp
    obtain ⟨name, hne, hlike, hnot⟩ := MetadataDb.exists_like_not_prefix hp
    have hnameable : Nameable (B.withContainer name).db := by
      refine ⟨fun k hk => ?_, fun c hc => ?_⟩
      · rw [db_withContainer] at hk
        simp at hk
      · rw [mem_withContainer.mp hc]
        exact hne
    have hm : ((B.withContainer name).db.selectContainers "acc" (some p) none).length ≤
        (1 : UInt32).toNat := by
      rw [← List.length_map (f := ContainerRow.name)]
      refine length_le_one (x := name) (List.pairwise_map.mpr
        (MetadataDb.sorted_selectContainers.imp fun h => h.ne)) fun y hy => ?_
      exact congrArg ContainerKey.container
        (mem_withContainer.mp (mem_names_selectContainers.mp hy).2.1)
    obtain ⟨entries, hentries, -, hexact⟩ :=
      h _ "acc" (arisen_withContainer B name) hnameable 1 hm (by decide)
    rw [containerPage_of_le (by decide) hm] at hentries
    cases hentries
    refine hnot ((hexact name).mp ?_).2
    rw [List.map_map]
    exact mem_names_selectContainers.mpr ⟨hne, mem_withContainer.mpr rfl, hlike⟩
  · intro hp w account hw hnameable
    exact exactContainers_of_plain hp hnameable

/-- The prefix `a_` finds a blob `ab`. -/
theorem prefix_listing_wildcard :
    Arisen sample (sample.withBlob "ab") ∧
      (flatPage ⟨"acc", "c"⟩ (some "a_") 5000 (sample.withBlob "ab") none).map
        (fun page => page.1.map BlobProps.name) = some ["ab"] ∧
      ¬ ExactBlobs "a_" ⟨"acc", "c"⟩ (sample.withBlob "ab") := by
  have hpage : (flatPage ⟨"acc", "c"⟩ (some "a_") 5000 (sample.withBlob "ab") none).map
      (fun page => page.1.map BlobProps.name) = some ["ab"] := by decide +kernel
  refine ⟨arisen_withBlob sample "ab", hpage, fun h => ?_⟩
  obtain ⟨entries, hentries, -, hexact⟩ := h 5000 (by decide +kernel)
  rw [hentries, Option.map_some, Option.some.injEq] at hpage
  have hbegins := ((hexact "ab").mp (by rw [hpage]; simp)).2
  revert hbegins
  decide

end BlobStore
