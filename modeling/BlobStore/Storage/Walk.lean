import BlobStore.Storage.Concurrent.Writers
import BlobStore.Storage.Hierarchy

/-!
# Listing a container that changes

A client follows the markers of a listing without a delimiter, while blobs are written and deleted
between its requests. Names only increase along the pages, so nothing is reported twice; and what
is there all the time lies after every marker until it is reported.
-/

namespace BlobStore

open Paging Resumption Proc

/-- One request for a page without a delimiter: the entries and the next marker. -/
def flatPage (c : ContainerKey) (namePrefix : Option String) (maxResults : UInt32) (w : World)
    (marker : Option String) : Option (List BlobProps × Option String) :=
  match ((FsBackend.listBlobs c.account c.container namePrefix none marker maxResults).run w).1 with
  | .ok (some page) => some (page.blobs, page.nextMarker)
  | _               => none

/-- Calls of `put_blob` and `delete_blob`, to any container. -/
def Call.IsBlobChange : Call → Prop
  | .putBlob _ _ _ _ _ _ _ => True
  | .deleteBlob _ _ _      => True
  | _                      => False

/-- What calls of `put_blob` and `delete_blob` make of a store. -/
def FsBackend.BlobChanges (B : FsBackend) (w w' : World) : Prop :=
  ∃ reqs : List Request, (∀ req ∈ reqs, req.call.IsBlobChange) ∧ w' = B.serve w reqs

variable {B : FsBackend} {w : World} {c : ContainerKey} {namePrefix : Option String} {n : UInt32}

/-! ### The pages -/

/-- Without a delimiter every row becomes an entry. -/
lemma groupRows_none (p : String) (rows : List BlobRow) (blobs : List BlobProps)
    (prefixes : List String) :
    FsBackend.groupRows p none rows blobs prefixes =
      some (blobs ++ rows.map blobRowToProps, prefixes) := by
  induction rows generalizing blobs with
  | nil => simp [FsBackend.groupRows]
  | cons row rows ih => simp [FsBackend.groupRows, ih]

lemma flatPage_eq (hc : (w.db.containers.lookup c).isSome = true) (marker : Option String) :
    flatPage c namePrefix n w marker =
      some ((w.db.listBlobs c namePrefix marker n).1.map blobRowToProps,
        (w.db.listBlobs c namePrefix marker n).2) := by
  obtain ⟨r, hr⟩ := Option.isSome_iff_exists.mp hc
  have hrow : w.db.getContainer ⟨c.account, c.container⟩ = w.db.getContainer c := rfl
  unfold flatPage FsBackend.listBlobs requireContainer
  simp only [Store.run, run_bind, run_perform, Action.exec, hrow]
  simp [MetadataDb.getContainer, hr, groupRows_none]

/-- Where a listing can be asked for: the container is there, and rows have their names. -/
structure Listable (c : ContainerKey) (w : World) : Prop where
  named : w.db.Named
  exists' : (w.db.containers.lookup c).isSome = true

lemma serves_flatPage (h : Listable c w) (hn : 0 < n.toNat) :
    Serves BlobRow.name n.toNat (fun marker => w.db.selectBlobs c namePrefix marker)
      (fun rows => some (rows.map blobRowToProps)) (flatPage c namePrefix n w) := by
  refine serves_of_page hn (fun _ => MetadataDb.sorted_selectBlobs h.named)
    (fun _ _ hx => MetadataDb.selectBlobs_after h.named hx) fun marker => ?_
  rw [flatPage_eq h.exists', MetadataDb.listBlobs_eq]
  rfl

lemma lists_flatPage (c : ContainerKey) (namePrefix : Option String) (hn : 0 < n.toNat) :
    Lists BlobRow.name BlobProps.name blobRowToProps n.toNat (Listable c)
      (fun w marker => w.db.selectBlobs c namePrefix marker) (flatPage c namePrefix n) where
  serves _ h := serves_flatPage h hn
  above w m h x hx := by
    have hlisted := ((MetadataDb.mem_selectBlobs h.named).mp hx).2
    simp only [MetadataDb.listed, Option.getD_some, Bool.and_eq_true, decide_eq_true_eq] at hlisted
    exact hlisted.2
  name _ := rfl

/-! ### Changes between pages -/

/-- The actions that leave the table of containers alone. -/
def Action.KeepsContainers : Action → Prop
  | .insertContainer _ _ _ | .deleteContainer _ _ | .setContainerMetadata _ _ _ _ _
  | .setContainerAcl _ _ _ _ _ => False
  | _ => True

lemma MetadataDb.containers_upsertBlob (k : BlobKey) (u : BlobUpsert) (db : MetadataDb) :
    (upsertBlob k u db).2.containers = db.containers := by
  unfold upsertBlob
  split_ifs <;> rfl

lemma MetadataDb.containers_guarded {α : Type} {db : MetadataDb}
    {stmt : MetadataDb → Except SqlError α × MetadataDb}
    (h : (stmt db).2.containers = db.containers) (fault : Option String) :
    (guarded fault stmt db).2.containers = db.containers := by
  cases fault with
  | none => exact h
  | some message => rfl

lemma Action.KeepsContainers.exec {e : Action} (h : e.KeepsContainers) (w : World) :
    (e.exec w).2.db.containers = w.db.containers := by
  cases e with
  | upsertBlob fault k u =>
    exact MetadataDb.containers_guarded (MetadataDb.containers_upsertBlob k u w.db) fault
  | setBlobProperties fault k patch e l => exact MetadataDb.containers_guarded rfl fault
  | setBlobMetadata fault k m e l => exact MetadataDb.containers_guarded rfl fault
  | deleteBlobRow fault k => exact MetadataDb.containers_guarded rfl fault
  | stageBlock fault b r => exact MetadataDb.containers_guarded rfl fault
  | commitBlockList fault k resolved u =>
    refine MetadataDb.containers_guarded ?_ fault
    have hup := MetadataDb.containers_upsertBlob k u w.db
    unfold MetadataDb.commitBlockList
    rcases hres : MetadataDb.upsertBlob k u w.db with ⟨e | _, db'⟩
    · rfl
    · rw [hres] at hup
      exact hup
  | removeFile fails p => cases fails <;> rfl
  | insertContainer | deleteContainer | setContainerMetadata | setContainerAcl => cases h
  | _ => rfl

lemma Call.IsBlobChange.keepsContainers {call : Call} (hcall : call.IsBlobChange) {e : Action}
    (h : call.Uses B e) : e.KeepsContainers := by
  rcases h with h | h | h
  · cases e <;> trivial
  · cases e <;> trivial
  · cases call <;> cases hcall
    all_goals cases e <;> trivial

lemma Listable.call (h : Listable c w) (amb : Ambient) {call : Call}
    (hcall : call.IsBlobChange) : Listable c ((B.call amb call).run w).2 where
  named := (issues_uses amb call).run_inv (I := fun w : World => w.db.Named)
    (fun e _ _ hw => named_exec e hw) h.named
  exists' := (issues_uses amb call).run_inv
    (I := fun w : World => (w.db.containers.lookup c).isSome = true)
    (fun e w he hw => by rwa [(hcall.keepsContainers he).exec]) h.exists'

lemma Listable.changes {w' : World} (h : Listable c w) (hch : B.BlobChanges w w') :
    Listable c w' := by
  obtain ⟨reqs, hreqs, rfl⟩ := hch
  induction reqs generalizing w with
  | nil => exact h
  | cons req reqs ih =>
    rw [List.forall_mem_cons] at hreqs
    exact ih (h.call req.amb hreqs.1) hreqs.2

/-- A blob that is there lies after every marker that its name comes after. -/
lemma mem_selectBlobs_of_row (h : Listable c w) {name : String} (hne : name ≠ "")
    (hlike : MetadataDb.like ((namePrefix.getD "").toList ++ ['%']) name.toList = true)
    (hrow : (w.db.blobs.lookup ⟨c.account, c.container, name⟩).isSome = true)
    {marker : Option String} (hmarker : ∀ m ∈ marker, m < name) :
    ∃ row ∈ w.db.selectBlobs c namePrefix marker, row.name = name := by
  obtain ⟨row, hrow⟩ := Option.isSome_iff_exists.mp hrow
  have hname : row.name = name := h.named _ row hrow
  refine ⟨row, (MetadataDb.mem_selectBlobs h.named).mpr ⟨by rw [hname, hrow], ?_⟩, hname⟩
  simp only [MetadataDb.listed, hname, hlike, Bool.true_and, decide_eq_true_eq]
  cases marker with
  | none => exact MetadataDb.empty_lt hne
  | some m => exact hmarker m rfl

/-- Whatever is written and deleted between the pages of a listing: the names increase, no page is
too long, and a blob that matches and is there for every page is reported exactly once. If nothing
changes, the listing comes to an end, and the pages together are what one page without a bound
would be. -/
theorem blob_walk (hw : Arisen B w) (hc : (w.db.containers.lookup c).isSome = true)
    (namePrefix : Option String) {n : UInt32} (hn : 1 ≤ n.toNat) :
    (∀ pages, Walk (flatPage c namePrefix n) B.BlobChanges w none pages →
      ((pages.flatMap Prod.snd).map BlobProps.name).Pairwise (· < ·) ∧
      (∀ pg ∈ pages, pg.2.length ≤ n.toNat) ∧
      ∀ name, name ≠ "" →
        MetadataDb.like ((namePrefix.getD "").toList ++ ['%']) name.toList = true →
        (∀ pg ∈ pages, (pg.1.db.blobs.lookup ⟨c.account, c.container, name⟩).isSome = true) →
        ((pages.flatMap Prod.snd).map BlobProps.name).count name = 1) ∧
    ∃ pages, (∀ k, (w.db.selectBlobs c namePrefix none).length < k →
        follow (flatPage c namePrefix n w) k none = some pages) ∧
      ∀ m : UInt32, (w.db.selectBlobs c namePrefix none).length ≤ m.toNat →
        flatPage c namePrefix m w none = some (pages.flatten, none) := by
  have hlist : Listable c w := ⟨hw.named, hc⟩
  have hlists := lists_flatPage c namePrefix hn
  have hstays : ∀ w w', Listable c w → B.BlobChanges w w' → Listable c w' :=
    fun _ _ h hch => h.changes hch
  constructor
  · intro pages hwalk
    have hsorted := (Walk.sorted hlists hstays hwalk hlist).1
    refine ⟨hsorted, Walk.length_le hlists hstays hwalk hlist, ?_⟩
    intro name hne hlike hthere
    refine List.count_eq_one_of_mem (hsorted.imp fun h => h.ne) ?_
    exact Walk.mem hlists hstays hwalk hlist
      (P := fun w => (w.db.blobs.lookup ⟨c.account, c.container, name⟩).isSome = true)
      (fun w marker h hrow hmarker => mem_selectBlobs_of_row h hne hlike hrow hmarker) hthere
      (by simp)
  · set rows := w.db.selectBlobs c namePrefix none with hrows
    refine ⟨(Paging.pages n.toNat rows).map (List.map blobRowToProps), ?_, ?_⟩
    · intro k hk
      refine (hlists.serves w hlist).follow_complete ?_ hk
      rw [mapM_eq_some_iff, List.forall₂_map_right_iff]
      exact List.forall₂_same.mpr fun _ _ => rfl
    · intro m hm
      rw [flatPage_eq hc, MetadataDb.listBlobs_eq, MetadataDb.page, if_neg (not_lt.mpr hm)]
      rw [← List.map_flatten, flatten_pages]

/-- A container with one blob. -/
def sampleListed : World :=
  ((sample.call (sampleAmb 2) (.putBlob "acc" "c" "b" [.ok [1]] none none ∅)).run sampleContainer).2

/-- Its listing in pages of one entry. -/
theorem blob_walk_sample :
    (∀ pages, Walk (flatPage ⟨"acc", "c"⟩ (some "b") 1) sample.BlobChanges sampleListed none pages →
      ((pages.flatMap Prod.snd).map BlobProps.name).Pairwise (· < ·)) ∧
    ∃ pages, follow (flatPage ⟨"acc", "c"⟩ (some "b") 1 sampleListed) 2 none = some pages ∧
      flatPage ⟨"acc", "c"⟩ (some "b") 5000 sampleListed none = some (pages.flatten, none) := by
  have hwalk := blob_walk (B := sample) (w := sampleListed) (c := ⟨"acc", "c"⟩)
    (.call arisen_sampleContainer _ _) (by decide +kernel) (some "b") (n := 1) (by decide)
  obtain ⟨hall, pages, hpages, hone⟩ := hwalk
  have hlen : (sampleListed.db.selectBlobs ⟨"acc", "c"⟩ (some "b") none).length = 1 := by
    decide +kernel
  refine ⟨fun pages h => (hall pages h).1, pages, hpages 2 (by omega), hone 5000 ?_⟩
  rw [hlen]
  decide

end BlobStore
