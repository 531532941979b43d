import BlobStore.Storage.Listing
import BlobStore.Storage.Refinement.Call
import BlobStore.Storage.TableHash

/-!
# Listing the containers of an account

The listing of containers is paged as that of blobs is, but the number of rows to fetch is computed
in 32 bits: the largest page size a client can ask for wraps around to a limit of zero.
-/

namespace BlobStore

open Paging Resumption Proc

namespace MetadataDb

/-- A container as it is listed. -/
def containerRow (c : ContainerKey) (r : ContainerRecord) : ContainerRow where
  name := c.container
  publicAccessLevel := .fromDbStr r.publicAccessLevel
  metadata := r.metadata
  etag := r.etag
  lastModified := r.lastModified

/-- The containers of an account that match a prefix and come after a marker, in their order. -/
def selectContainers (account : String) (namePrefix marker : Option String) (db : MetadataDb) :
    List ContainerRow :=
  ((db.containers.selectWhere fun c =>
    c.account = account && listed (namePrefix.getD "") (marker.getD "") c.container).insertionSort
      fun x y => x.1.container ≤ y.1.container).map fun e => containerRow e.1 e.2

/-- The limit is one more than the page size, unless that is the largest number. -/
lemma toNat_limit {n : UInt32} : (n + 1).toNat = n.toNat + 1 ↔ n.toNat < 2 ^ 32 - 1 := by
  have hn := n.toNat_lt
  rw [UInt32.toNat_add]
  constructor
  · intro h
    have hmod := Nat.mod_lt (n.toNat + (1 : UInt32).toNat) (show 0 < 2 ^ 32 by decide)
    omega
  · intro h
    exact Nat.mod_eq_of_lt (by change n.toNat + 1 < 2 ^ 32; omega)

lemma listContainers_eq {n : UInt32} (hn : n.toNat < 2 ^ 32 - 1) (account : String)
    (namePrefix marker : Option String) (db : MetadataDb) :
    db.listContainers account namePrefix marker n =
      page ContainerRow.name n.toNat (db.selectContainers account namePrefix marker) := by
  simp only [listContainers, selectContainers, toNat_limit.mpr hn, List.map_take]
  exact page_take_succ _ _ _

variable {account : String} {namePrefix marker : Option String} {db : MetadataDb}

lemma mem_selectContainers {row : ContainerRow} :
    row ∈ db.selectContainers account namePrefix marker ↔
      (∃ r, db.containers.lookup ⟨account, row.name⟩ = some r ∧
        row = containerRow ⟨account, row.name⟩ r) ∧
        listed (namePrefix.getD "") (marker.getD "") row.name = true := by
  simp only [selectContainers, List.mem_map, List.mem_insertionSort, Prod.exists,
    Table.mem_selectWhere, Bool.and_eq_true, decide_eq_true_eq]
  constructor
  · rintro ⟨c, r, ⟨⟨rfl, hlisted⟩, hlookup⟩, rfl⟩
    exact ⟨⟨r, hlookup, rfl⟩, hlisted⟩
  · rintro ⟨⟨r, hlookup, hrow⟩, hlisted⟩
    exact ⟨_, r, ⟨⟨rfl, hlisted⟩, hlookup⟩, hrow.symm⟩

lemma sorted_selectContainers :
    (db.selectContainers account namePrefix marker).Pairwise fun x y => x.name < y.name := by
  unfold selectContainers
  rw [List.pairwise_map]
  apply sorted_insertionSort
  have hkeys : (db.containers.entries.map Sigma.fst).Nodup := db.containers.nodupKeys
  rw [Table.selectWhere, List.map_map]
  refine List.Nodup.map_on ?_ ((List.Nodup.of_map _ hkeys).filter _)
  rintro ⟨c, r⟩ hx ⟨c', r'⟩ hy hname
  simp only [List.mem_filter, Bool.and_eq_true, decide_eq_true_eq] at hx hy
  have hc : c = c' := by
    cases c
    cases c'
    exact congrArg₂ ContainerKey.mk (hx.2.1.trans hy.2.1.symm) hname
  subst hc
  exact List.inj_on_of_nodup_map hkeys hx.1 hy.1 rfl

/-- The rows after a row of a listing. -/
lemma selectContainers_after {x : ContainerRow}
    (hx : x ∈ db.selectContainers account namePrefix marker) :
    db.selectContainers account namePrefix (some x.name) =
      (db.selectContainers account namePrefix marker).filter fun y => x.name < y.name := by
  refine eq_of_sorted sorted_selectContainers (sorted_selectContainers.filter _) fun y => ?_
  obtain ⟨-, hlisted⟩ := mem_selectContainers.mp hx
  have hmarker : marker.getD "" < x.name := by
    simp only [listed, Bool.and_eq_true, decide_eq_true_eq] at hlisted
    exact hlisted.2
  simp only [List.mem_filter, mem_selectContainers, listed, Option.getD_some, Bool.and_eq_true,
    decide_eq_true_eq]
  constructor
  · rintro ⟨hrow, hlike, hlt⟩
    exact ⟨⟨hrow, hlike, hmarker.trans hlt⟩, hlt⟩
  · rintro ⟨⟨hrow, hlike, -⟩, hlt⟩
    exact ⟨hrow, hlike, hlt⟩

end MetadataDb

/-- One request for a page of containers: the entries and the next marker. -/
def containerPage (account : String) (namePrefix : Option String) (maxResults : UInt32) (w : World)
    (marker : Option String) : Option (List ContainerProps × Option String) :=
  match ((FsBackend.listContainers account namePrefix marker maxResults).run w).1 with
  | .ok page => some (page.containers, page.nextMarker)
  | .error _ => none

variable {account : String} {namePrefix : Option String} {n : UInt32} {w : World}

lemma containerPage_eq (marker : Option String) :
    containerPage account namePrefix n w marker =
      some ((w.db.listContainers account namePrefix marker n).1.map containerRowToProps,
        (w.db.listContainers account namePrefix marker n).2) := rfl

lemma serves_containerPage (hpos : 0 < n.toNat) (hn : n.toNat < 2 ^ 32 - 1) :
    Serves ContainerRow.name n.toNat
      (fun marker => w.db.selectContainers account namePrefix marker)
      (fun rows => some (rows.map containerRowToProps)) (containerPage account namePrefix n w) := by
  refine serves_of_page hpos (fun _ => MetadataDb.sorted_selectContainers)
    (fun _ _ hx => MetadataDb.selectContainers_after hx) fun marker => ?_
  rw [containerPage_eq, MetadataDb.listContainers_eq hn]
  rfl

/-- A name that is selected, by what the query asks for. -/
lemma mem_names_selectContainers {name : String} :
    name ∈ (w.db.selectContainers account namePrefix none).map ContainerRow.name ↔
      name ≠ "" ∧ (w.db.containers.lookup ⟨account, name⟩).isSome = true ∧
        MetadataDb.like ((namePrefix.getD "").toList ++ ['%']) name.toList = true := by
  simp only [List.mem_map, MetadataDb.mem_selectContainers, MetadataDb.listed, Option.getD_none,
    Bool.and_eq_true, decide_eq_true_eq]
  constructor
  · rintro ⟨row, ⟨⟨r, hlookup, -⟩, hlike, hlt⟩, rfl⟩
    refine ⟨?_, by simp [hlookup], hlike⟩
    intro hempty
    rw [hempty] at hlt
    exact absurd hlt (lt_irrefl _)
  · rintro ⟨hne, hsome, hlike⟩
    obtain ⟨r, hlookup⟩ := Option.isSome_iff_exists.mp hsome
    refine ⟨MetadataDb.containerRow ⟨account, name⟩ r, ⟨⟨r, hlookup, rfl⟩, hlike, ?_⟩, rfl⟩
    exact MetadataDb.empty_lt hne

/-- Following the markers to the end reports every container that matches exactly once, in order,
in pages that are not too long, and the limit of rows is the number it should be. -/
structure CompletePages (account : String) (namePrefix : Option String) (n : UInt32) (w : World) :
    Prop where
  limit : (n + 1).toNat = n.toNat + 1
  complete : ∃ k pages, follow (containerPage account namePrefix n w) k none = some pages ∧
    (pages.flatten.map ContainerProps.name).Pairwise (· < ·) ∧
    (∀ name, name ∈ pages.flatten.map ContainerProps.name ↔
      name ≠ "" ∧ (w.db.containers.lookup ⟨account, name⟩).isSome = true ∧
        MetadataDb.like ((namePrefix.getD "").toList ++ ['%']) name.toList = true) ∧
    ∀ pg ∈ pages, pg.length ≤ n.toNat

/-- The pages of containers are complete exactly if the page size is not the largest number. -/
theorem container_pages_iff (account : String) (namePrefix : Option String) (w : World)
    {n : UInt32} (hpos : 1 ≤ n.toNat) :
    CompletePages account namePrefix n w ↔ n.toNat < 2 ^ 32 - 1 := by
  constructor
  · intro h
    exact MetadataDb.toNat_limit.mp h.limit
  · intro hn
    set rows := w.db.selectContainers account namePrefix none with hrows
    refine ⟨MetadataDb.toNat_limit.mpr hn, rows.length + 1,
      (pages n.toNat rows).map (List.map containerRowToProps), ?_, ?_, ?_, ?_⟩
    · refine (serves_containerPage hpos hn).follow_complete ?_ (Nat.lt_succ_self _)
      rw [mapM_eq_some_iff, List.forall₂_map_right_iff]
      exact List.forall₂_same.mpr fun _ _ => rfl
    · rw [← List.map_flatten, flatten_pages, List.map_map]
      exact List.pairwise_map.mpr MetadataDb.sorted_selectContainers
    · intro name
      rw [← List.map_flatten, flatten_pages, List.map_map]
      exact mem_names_selectContainers
    · intro pg hpg
      obtain ⟨pg', hpg', rfl⟩ := List.mem_map.mp hpg
      rw [List.length_map]
      exact length_le_of_mem_pages hpos hpg'

/-- An account with two containers. -/
def sampleContainers : World :=
  ((sample.call (sampleAmb 2) (.createContainer "acc" "d" .off ∅)).run
    ((sample.call (sampleAmb 1) (.createContainer "acc" "c" .off ∅)).run
      (sample.fresh sampleAccounts)).2).2

/-- Pages of one container. -/
theorem container_pages_sample : CompletePages "acc" none 1 sampleContainers :=
  (container_pages_iff "acc" none sampleContainers (by decide)).mpr (by decide)

/-- The largest page size gives an empty page and no marker. -/
theorem container_pages_largest :
    containerPage "acc" none 4294967295 sampleContainers none = some ([], none) ∧
      ¬ CompletePages "acc" none 4294967295 sampleContainers := by
  refine ⟨by decide +kernel, fun h => ?_⟩
  have hlimit := h.limit
  revert hlimit
  decide

end BlobStore
