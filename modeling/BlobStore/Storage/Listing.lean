import BlobStore.Lib.Paging
import BlobStore.Storage.FsBackend
import Mathlib.Data.String.Basic

/-!
# Listing the blobs of a container

What the statement of `list_blobs` selects, as a sorted list of rows; how it is cut into pages and
how markers lead from one page to the next; and what the loop over the rows of a page makes of
them when there is a delimiter.
-/

namespace BlobStore

open Resumption Proc Paging

/-! ### The rows -/

namespace MetadataDb

/-- The rows of a container that match a prefix and come after a marker, in their order. -/
def selectBlobs (c : ContainerKey) (namePrefix marker : Option String) (db : MetadataDb) :
    List BlobRow :=
  ((db.blobs.selectWhere fun k =>
    k.containerKey = c && listed (namePrefix.getD "") (marker.getD "") k.blob).insertionSort
      fun x y => x.1.blob ≤ y.1.blob).map Prod.snd

/-- The names of the blobs of a container. -/
def blobNames (c : ContainerKey) (db : MetadataDb) : List String :=
  (db.blobs.selectWhere fun k => k.containerKey = c).map fun e => e.1.blob

/-- The column `name` of a row is the name it is stored under. -/
def Named (db : MetadataDb) : Prop := ∀ k row, db.blobs.lookup k = some row → row.name = k.blob

lemma page_take_succ {ρ : Type} (name : ρ → String) (n : ℕ) (rows : List ρ) :
    page name n (rows.take (n + 1)) = page name n rows := by
  unfold page
  by_cases h : n < rows.length
  · have hlen : n < (rows.take (n + 1)).length := by simp; omega
    rw [if_pos h, if_pos hlen, List.take_take, min_eq_left (by omega)]
  · have hle : rows.length ≤ n + 1 := by omega
    rw [List.take_of_length_le hle]

lemma listBlobs_eq (c : ContainerKey) (namePrefix marker : Option String) (n : UInt32)
    (db : MetadataDb) :
    db.listBlobs c namePrefix marker n =
      page BlobRow.name n.toNat (db.selectBlobs c namePrefix marker) := by
  simp only [listBlobs, selectBlobs, List.map_take, page_take_succ]

variable {c : ContainerKey} {db : MetadataDb} {namePrefix marker : Option String}

lemma containerKey_eq_iff {k : BlobKey} :
    k.containerKey = c ↔ k = ⟨c.account, c.container, k.blob⟩ := by
  cases k
  cases c
  simp

lemma mem_selectBlobs (h : db.Named) {row : BlobRow} :
    row ∈ db.selectBlobs c namePrefix marker ↔
      db.blobs.lookup ⟨c.account, c.container, row.name⟩ = some row ∧
        listed (namePrefix.getD "") (marker.getD "") row.name = true := by
  simp only [selectBlobs, List.mem_map, List.mem_insertionSort, Prod.exists, exists_eq_right,
    Table.mem_selectWhere, Bool.and_eq_true, decide_eq_true_eq]
  constructor
  · rintro ⟨k, ⟨hk, hlisted⟩, hlookup⟩
    rw [h k row hlookup]
    rw [containerKey_eq_iff.mp hk] at hlookup
    exact ⟨hlookup, hlisted⟩
  · rintro ⟨hlookup, hlisted⟩
    exact ⟨⟨c.account, c.container, row.name⟩, ⟨rfl, hlisted⟩, hlookup⟩

lemma mem_blobNames {name : String} :
    name ∈ db.blobNames c ↔
      ∃ row, db.blobs.lookup ⟨c.account, c.container, name⟩ = some row := by
  simp only [blobNames, List.mem_map, Prod.exists, Table.mem_selectWhere, decide_eq_true_eq]
  constructor
  · rintro ⟨k, row, ⟨hk, hlookup⟩, rfl⟩
    rw [containerKey_eq_iff.mp hk] at hlookup
    exact ⟨row, hlookup⟩
  · rintro ⟨row, hlookup⟩
    exact ⟨⟨c.account, c.container, name⟩, row, ⟨rfl, hlookup⟩, rfl⟩

/-- Rows of one container have different names. -/
lemma nodup_selectWhere (db : MetadataDb) (p : BlobKey → Bool)
    (hp : ∀ k, p k = true → k.containerKey = c) :
    ((db.blobs.selectWhere p).map fun e => e.1.blob).Nodup := by
  have hkeys := Table.nodup_keys_selectWhere p db.blobs
  refine List.Nodup.map_on ?_ hkeys.of_map
  rintro ⟨k, row⟩ hx ⟨k', row'⟩ hy hblob
  have hk : k = k' := by
    rw [containerKey_eq_iff.mp (hp k (Table.mem_selectWhere.mp hx).1),
      containerKey_eq_iff.mp (hp k' (Table.mem_selectWhere.mp hy).1)]
    exact congrArg _ hblob
  exact List.inj_on_of_nodup_map hkeys hx hy hk

lemma nodup_blobNames (c : ContainerKey) (db : MetadataDb) : (db.blobNames c).Nodup :=
  nodup_selectWhere db _ fun k hk => by simpa using hk

lemma sorted_selectBlobs (h : db.Named) :
    (db.selectBlobs c namePrefix marker).Pairwise fun x y => x.name < y.name := by
  have hnames : ∀ e ∈ db.blobs.selectWhere fun k =>
      k.containerKey = c && listed (namePrefix.getD "") (marker.getD "") k.blob,
      e.2.name = e.1.blob := by
    rintro ⟨k, row⟩ he
    exact h k row (Table.mem_selectWhere.mp he).2
  have hnodup := nodup_selectWhere (c := c) db (fun k =>
    k.containerKey = c && listed (namePrefix.getD "") (marker.getD "") k.blob)
    fun k hk => by simpa using (Bool.and_eq_true_iff.mp hk).1
  unfold selectBlobs
  generalize db.blobs.selectWhere _ = rows at hnames hnodup
  rw [List.pairwise_map]
  refine (sorted_insertionSort hnodup).imp_of_mem fun {x y} hx hy hxy => ?_
  rw [hnames x ((List.mem_insertionSort _).mp hx), hnames y ((List.mem_insertionSort _).mp hy)]
  exact hxy

/-- The rows after a row of a listing. -/
lemma selectBlobs_after (h : db.Named) {x : BlobRow} (hx : x ∈ db.selectBlobs c namePrefix marker) :
    db.selectBlobs c namePrefix (some x.name) =
      (db.selectBlobs c namePrefix marker).filter fun y => x.name < y.name := by
  refine eq_of_sorted (sorted_selectBlobs h) ((sorted_selectBlobs h).filter _) fun y => ?_
  obtain ⟨-, hlisted⟩ := (mem_selectBlobs h).mp hx
  have hmarker : marker.getD "" < x.name := by
    simp only [listed, Bool.and_eq_true, decide_eq_true_eq] at hlisted
    exact hlisted.2
  simp only [List.mem_filter, mem_selectBlobs h, listed, Option.getD_some, Bool.and_eq_true,
    decide_eq_true_eq]
  constructor
  · rintro ⟨hlookup, hlike, hlt⟩
    exact ⟨⟨hlookup, hlike, hmarker.trans hlt⟩, hlt⟩
  · rintro ⟨⟨hlookup, hlike, -⟩, hlt⟩
    exact ⟨hlookup, hlike, hlt⟩

lemma like_percent (cs : List Char) : like ['%'] cs = true := by
  simp only [like, if_pos, List.any_eq_true]
  exact ⟨[], by simp⟩

/-- A pattern that ends in a wildcard matches what starts with it. -/
lemma like_append (p rest : List Char) : like (p ++ ['%']) (p ++ rest) = true := by
  induction p with
  | nil => exact like_percent rest
  | cons c p ih =>
    simp only [List.cons_append, like]
    by_cases hc : c = '%'
    · rw [if_pos hc, List.any_eq_true]
      exact ⟨p ++ rest, by simp [List.mem_tails], ih⟩
    · simp [hc, ih]

lemma empty_lt {name : String} (hname : name ≠ "") : "" < name := by
  rw [String.lt_iff_toList_lt]
  cases hcs : name.toList with
  | nil => exact absurd (String.toList_inj.mp hcs) hname
  | cons c cs => exact List.nil_lt_cons c cs

/-- What starts with a prefix, and is not empty, is listed under it. -/
lemma listed_of_prefix {p name : String} (h : p.toList <+: name.toList) (hname : name ≠ "") :
    listed p "" name = true := by
  obtain ⟨rest, hrest⟩ := h
  simp only [listed, ← hrest, like_append, Bool.true_and, decide_eq_true_eq]
  exact empty_lt hname

/-! ### What the rows of blobs have in common -/

/-- A property of a row that depends on its name and its type only, and holds of new rows. -/
structure Inborn (P : BlobKey → BlobRow → Prop) : Prop where
  new : ∀ k u, P k (upsertedRow k u none)
  kept : ∀ k row row', row'.name = row.name → row'.blobType = row.blobType → P k row → P k row'

/-- All rows have the property. -/
def Rows (P : BlobKey → BlobRow → Prop) (db : MetadataDb) : Prop :=
  ∀ k row, db.blobs.lookup k = some row → P k row

lemma inborn_name : Inborn fun k row => row.name = k.blob where
  new _ _ := rfl
  kept _ _ _ hname _ h := hname.trans h

lemma inborn_blobType : Inborn fun _ row => row.blobType = "BlockBlob" where
  new _ _ := rfl
  kept _ _ _ _ htype h := htype.trans h

variable {P : BlobKey → BlobRow → Prop}

lemma Rows.modify (hP : Inborn P) (h : db.Rows P) (k : BlobKey) {f : BlobRow → BlobRow}
    (hname : ∀ row, (f row).name = row.name) (htype : ∀ row, (f row).blobType = row.blobType) :
    Rows P { db with blobs := Table.modify k f db.blobs } := by
  intro k' row hrow
  by_cases hk : k' = k
  · subst hk
    rw [Table.lookup_modify_self, Option.map_eq_some_iff] at hrow
    obtain ⟨old, hold, rfl⟩ := hrow
    exact hP.kept _ _ _ (hname old) (htype old) (h k' old hold)
  · rw [Table.lookup_modify_ne hk] at hrow
    exact h k' row hrow

lemma Rows.upsertBlob (hP : Inborn P) (h : db.Rows P) (k : BlobKey) (u : BlobUpsert) :
    Rows P (upsertBlob k u db).2 := by
  unfold MetadataDb.upsertBlob
  split_ifs
  · exact h
  · intro k' row hrow
    rw [Table.lookup_insert_eq] at hrow
    split_ifs at hrow with hk
    · subst hk
      cases hrow
      cases hold : db.blobs.lookup k' with
      | none => exact hP.new k' u
      | some old => exact hP.kept k' old _ rfl rfl (h k' old hold)
    · exact h k' row hrow

lemma Named.upsertBlob (h : db.Named) (k : BlobKey) (u : BlobUpsert) :
    Named (upsertBlob k u db).2 := Rows.upsertBlob inborn_name h k u

lemma Rows.guarded {α : Type} {stmt : MetadataDb → Except SqlError α × MetadataDb} (h : db.Rows P)
    (hstmt : Rows P (stmt db).2) (fault : Option String) : Rows P (guarded fault stmt db).2 := by
  cases fault with
  | none => exact hstmt
  | some message => exact h

end MetadataDb

/-- Every action keeps such a property. -/
lemma rows_exec {P : BlobKey → BlobRow → Prop} (hP : MetadataDb.Inborn P) (e : Action) {w : World}
    (h : w.db.Rows P) : (e.exec w).2.db.Rows P := by
  cases e with
  | insertContainer fault c r =>
    apply h.guarded
    unfold MetadataDb.insertContainer
    split_ifs <;> exact h
  | deleteContainer fault c =>
    apply h.guarded
    intro k row hrow
    exact h k row (Table.lookup_of_lookup_deleteWhere hrow)
  | setContainerMetadata fault c m e l => exact h.guarded h fault
  | setContainerAcl fault c pa e l => exact h.guarded h fault
  | upsertBlob fault k u => exact h.guarded (h.upsertBlob hP k u) fault
  | setBlobProperties fault k patch e l =>
    apply h.guarded
    exact h.modify hP k (fun _ => rfl) fun _ => rfl
  | setBlobMetadata fault k m e l =>
    apply h.guarded
    exact h.modify hP k (fun _ => rfl) fun _ => rfl
  | deleteBlobRow fault k =>
    apply h.guarded
    intro k' row hrow
    exact h k' row (Table.lookup_of_lookup_erase hrow)
  | stageBlock fault b r => exact h.guarded h fault
  | commitBlockList fault k resolved u =>
    apply h.guarded
    have hup := h.upsertBlob hP k u
    unfold MetadataDb.commitBlockList
    rcases hres : MetadataDb.upsertBlob k u w.db with ⟨e | _, db'⟩
    · exact h
    · rw [hres] at hup
      exact hup
  | removeFile fails p => cases fails <;> exact h
  | _ => exact h

/-- Every action keeps the names of rows. -/
lemma named_exec (e : Action) {w : World} (h : w.db.Named) : (e.exec w).2.db.Named :=
  rows_exec MetadataDb.inborn_name e h

/-! ### The pages -/

/-- One request for a page, as a caller sees it: the entries, the virtual directories and the next
marker. -/
def listPage (w : World) (c : ContainerKey) (namePrefix delimiter : String) (maxResults : UInt32)
    (marker : Option String) : Option ((List BlobProps × List String) × Option String) :=
  match ((FsBackend.listBlobs c.account c.container (some namePrefix) (some delimiter) marker
    maxResults).run w).1 with
  | .ok (some page) => some ((page.blobs, page.blobPrefixes), page.nextMarker)
  | _               => none

variable {w : World} {c : ContainerKey}

lemma listPage_eq (hc : (w.db.containers.lookup c).isSome = true) (p d : String) (n : UInt32)
    (marker : Option String) :
    listPage w c p d n marker =
      (FsBackend.groupRows p (some d)
        (w.db.listBlobs c (some p) marker n).1 [] []).map
          fun g => (g, (w.db.listBlobs c (some p) marker n).2) := by
  obtain ⟨r, hr⟩ := Option.isSome_iff_exists.mp hc
  have hrow : w.db.getContainer ⟨c.account, c.container⟩ = w.db.getContainer c := rfl
  unfold listPage FsBackend.listBlobs requireContainer
  simp only [Store.run, run_bind, run_perform, Action.exec, hrow]
  simp [MetadataDb.getContainer, hr]
  cases FsBackend.groupRows p (some d) (w.db.listBlobs c (some p) marker n).1 [] [] <;> rfl

/-- What a statement selects, cut by `page`, is served as a listing in pages. -/
lemma serves_of_page {ρ β : Type} {name : ρ → String} {n : ℕ} (hn : 0 < n)
    {rest : Option String → List ρ} {f : List ρ → Option β}
    {fetch : Option String → Option (β × Option String)}
    (hsorted : ∀ marker, (rest marker).Pairwise fun x y => name x < name y)
    (hafter : ∀ marker, ∀ x ∈ rest marker,
      rest (some (name x)) = (rest marker).filter fun y => name x < name y)
    (hfetch : ∀ marker, fetch marker = (f (MetadataDb.page name n (rest marker)).1).map
      fun page => (page, (MetadataDb.page name n (rest marker)).2)) :
    Serves name n rest f fetch where
  pos := hn
  sorted := hsorted
  after := hafter
  last marker hlen := by rw [hfetch, MetadataDb.page, if_neg (not_lt.mpr hlen)]
  more marker hlen := by
    have hne : (rest marker).take n ≠ [] := by
      rw [Ne, List.take_eq_nil_iff]
      rintro (h | h)
      · omega
      · simp [h] at hlen
    obtain ⟨x, hx⟩ := Option.isSome_iff_exists.mp (List.getLast?_isSome.mpr hne)
    refine ⟨x, hx, ?_⟩
    rw [hfetch, MetadataDb.page, if_pos hlen, hx]
    rfl

/-- Pages of a listing with a delimiter are served as a listing in pages. -/
lemma serves_listPage (hnamed : w.db.Named) (hc : (w.db.containers.lookup c).isSome = true)
    (p d : String) {n : UInt32} (hn : 0 < n.toNat) :
    Serves BlobRow.name n.toNat (fun marker => w.db.selectBlobs c (some p) marker)
      (fun rows => FsBackend.groupRows p (some d) rows [] []) (listPage w c p d n) := by
  refine serves_of_page hn (fun _ => MetadataDb.sorted_selectBlobs hnamed)
    (fun _ _ hx => MetadataDb.selectBlobs_after hnamed hx) fun marker => ?_
  rw [listPage_eq hc, MetadataDb.listBlobs_eq]

/-! ### The loop over a page -/

/-- Texts in the order in which they first occur, after those already seen. -/
def firstSeen (seen gs : List String) : List String :=
  gs.foldl (fun seen g => if seen.contains g then seen else seen ++ [g]) seen

lemma mem_firstSeen {seen gs : List String} {g : String} :
    g ∈ firstSeen seen gs ↔ g ∈ seen ∨ g ∈ gs := by
  induction gs generalizing seen with
  | nil => simp [firstSeen]
  | cons x gs ih =>
    change g ∈ firstSeen (if seen.contains x then seen else seen ++ [x]) gs ↔ _
    rw [ih]
    by_cases hx : x ∈ seen
    · have himp : g = x → g ∈ seen := by
        rintro rfl
        exact hx
      simp only [List.contains_eq_mem, hx, decide_true, if_pos, List.mem_cons]
      tauto
    · simp only [List.contains_eq_mem, hx, decide_false, Bool.false_eq_true, if_false,
        List.mem_append, List.mem_cons]
      tauto

lemma nodup_firstSeen {seen gs : List String} (h : seen.Nodup) : (firstSeen seen gs).Nodup := by
  induction gs generalizing seen with
  | nil => exact h
  | cons x gs ih =>
    apply ih
    by_cases hx : x ∈ seen
    · simpa [hx] using h
    · simp only [List.contains_eq_mem, hx, decide_false, Bool.false_eq_true, if_false]
      exact List.nodup_append.mpr ⟨h, by simp, by
        intro y hy z hz
        rw [List.mem_singleton.mp hz]
        rintro rfl
        exact hx hy⟩

/-- The names of a page that have no delimiter after the prefix. -/
def filesOf (p d : String) (names : List String) : List String :=
  names.filter fun n => FsBackend.groupPrefix p d n = some none

/-- The virtual directories of a page. -/
def groupsOf (p d : String) (names : List String) : List String :=
  firstSeen [] (names.filterMap fun n => (FsBackend.groupPrefix p d n).join)

/-- All names of a page can be sliced at the end of the prefix. -/
def Aligned (p d : String) (names : List String) : Prop :=
  ∀ n ∈ names, FsBackend.groupPrefix p d n ≠ none

lemma mem_filesOf {p d n : String} {names : List String} :
    n ∈ filesOf p d names ↔ n ∈ names ∧ FsBackend.groupPrefix p d n = some none := by
  simp [filesOf]

lemma mem_groupsOf {p d g : String} {names : List String} :
    g ∈ groupsOf p d names ↔ ∃ n ∈ names, FsBackend.groupPrefix p d n = some (some g) := by
  simp [groupsOf, mem_firstSeen, Option.join_eq_some_iff]

lemma nodup_groupsOf (p d : String) (names : List String) : (groupsOf p d names).Nodup :=
  nodup_firstSeen List.nodup_nil

lemma groupRows_of_aligned {p d : String} {rows : List BlobRow} {blobs : List BlobProps}
    {prefixes : List String} (h : Aligned p d (rows.map BlobRow.name)) :
    FsBackend.groupRows p (some d) rows blobs prefixes = some
      (blobs ++ (rows.filter fun row =>
        FsBackend.groupPrefix p d row.name = some none).map blobRowToProps,
      firstSeen prefixes ((rows.map BlobRow.name).filterMap fun n =>
        (FsBackend.groupPrefix p d n).join)) := by
  induction rows generalizing blobs prefixes with
  | nil => simp [FsBackend.groupRows, firstSeen]
  | cons row rows ih =>
    have hrest : Aligned p d (rows.map BlobRow.name) := fun n hn => h n (by simp at hn ⊢; tauto)
    rw [FsBackend.groupRows, Option.map_some]
    rcases hg : FsBackend.groupPrefix p d row.name with _ | _ | g
    · exact absurd hg (h row.name (by simp))
    · simp [ih hrest, hg]
    · simp [ih hrest, hg, firstSeen]

lemma aligned_of_groupRows {p d : String} {rows : List BlobRow} {blobs : List BlobProps}
    {prefixes : List String} {r : List BlobProps × List String}
    (h : FsBackend.groupRows p (some d) rows blobs prefixes = some r) :
    Aligned p d (rows.map BlobRow.name) := by
  induction rows generalizing blobs prefixes with
  | nil => simp [Aligned]
  | cons row rows ih =>
    rw [FsBackend.groupRows, Option.map_some] at h
    rcases hg : FsBackend.groupPrefix p d row.name with _ | _ | g
    · simp [hg] at h
    · rw [hg] at h
      have hrest := ih h
      simp only [Aligned, List.map_cons, List.forall_mem_cons]
      exact ⟨by simp [hg], hrest⟩
    · rw [hg] at h
      have hrest := ih h
      simp only [Aligned, List.map_cons, List.forall_mem_cons]
      exact ⟨by simp [hg], hrest⟩

/-- What the loop makes of a page, in names. -/
lemma names_of_groupRows {p d : String} {rows : List BlobRow} {r : List BlobProps × List String}
    (h : FsBackend.groupRows p (some d) rows [] [] = some r) :
    r.1.map BlobProps.name = filesOf p d (rows.map BlobRow.name) ∧
      r.2 = groupsOf p d (rows.map BlobRow.name) := by
  rw [groupRows_of_aligned (aligned_of_groupRows h)] at h
  cases h
  refine ⟨?_, rfl⟩
  rw [filesOf, List.filter_map, List.nil_append, List.map_map]
  rfl

/-! ### Prefixes and delimiters -/

namespace FsBackend

lemma utf8ByteSize_ofList_cons (c : Char) (cs : List Char) :
    (String.ofList (c :: cs)).utf8ByteSize = c.utf8Size + (String.ofList cs).utf8ByteSize := by
  rw [← List.singleton_append, String.ofList_append, String.utf8ByteSize_append,
    ← String.singleton_eq_ofList, String.utf8ByteSize_singleton]

lemma dropBytes_append (pre rest : List Char) :
    dropBytes (String.ofList pre).utf8ByteSize (pre ++ rest) = some rest := by
  induction pre with
  | nil => simp [dropBytes]
  | cons c pre ih =>
    have hpos := c.utf8Size_pos
    obtain ⟨k, hk⟩ : ∃ k, (String.ofList (c :: pre)).utf8ByteSize = k + 1 :=
      ⟨(String.ofList (c :: pre)).utf8ByteSize - 1, by rw [utf8ByteSize_ofList_cons]; omega⟩
    have hsize := utf8ByteSize_ofList_cons c pre
    have hrest : k + 1 - c.utf8Size = (String.ofList pre).utf8ByteSize := by omega
    rw [hk, List.cons_append, dropBytes, if_pos (by omega), hrest, ih]

lemma exists_of_dropBytes {n : ℕ} {cs rest : List Char} (h : dropBytes n cs = some rest) :
    ∃ pre, cs = pre ++ rest ∧ (String.ofList pre).utf8ByteSize = n := by
  induction cs generalizing n with
  | nil =>
    cases n with
    | zero => exact ⟨[], by simpa [dropBytes] using h, rfl⟩
    | succ n => simp [dropBytes] at h
  | cons c cs ih =>
    cases n with
    | zero => exact ⟨[], by simpa [dropBytes] using h, rfl⟩
    | succ n =>
      rw [dropBytes] at h
      split_ifs at h with hc
      obtain ⟨pre, rfl, hpre⟩ := ih h
      refine ⟨c :: pre, rfl, ?_⟩
      rw [utf8ByteSize_ofList_cons, hpre]
      omega

lemma exists_of_beforeFirst {d cs b : List Char} (h : beforeFirst d cs = some b) :
    ∃ rest, cs = b ++ d ++ rest := by
  induction cs generalizing b with
  | nil =>
    rw [beforeFirst] at h
    split_ifs at h with hd
    cases h
    exact ⟨[], by simp [hd]⟩
  | cons c cs ih =>
    rw [beforeFirst] at h
    split_ifs at h with hd
    · cases h
      obtain ⟨rest, hrest⟩ := hd
      exact ⟨rest, by simp [hrest]⟩
    · obtain ⟨b', hb', rfl⟩ := Option.map_eq_some_iff.mp h
      obtain ⟨rest, rfl⟩ := ih hb'
      exact ⟨rest, by simp⟩

/-- Where a pattern occurs first depends only on the text up to its end. -/
lemma beforeFirst_congr {d b r : List Char} (h : beforeFirst d (b ++ d ++ r) = some b)
    (r' : List Char) : beforeFirst d (b ++ d ++ r') = some b := by
  induction b with
  | nil =>
    cases hcs : [] ++ d ++ r' with
    | nil =>
      have hd : d = [] := by
        simp only [List.nil_append, List.append_eq_nil_iff] at hcs
        exact hcs.1
      simp [beforeFirst, hd]
    | cons c cs =>
      have hbegins : d <+: c :: cs := ⟨r', by simpa using hcs⟩
      rw [beforeFirst, if_pos hbegins]
  | cons c b ih =>
    simp only [List.cons_append, beforeFirst] at h ⊢
    by_cases hd : d <+: c :: (b ++ d ++ r)
    · rw [if_pos hd] at h
      cases h
    · have hd' : ¬ d <+: c :: (b ++ d ++ r') := by
        intro hpre
        have hlocal : d <+: c :: b ++ d := by
          refine List.prefix_of_prefix_length_le hpre ?_ (by simp; omega)
          exact ⟨r', by simp⟩
        exact hd (hlocal.trans ⟨r, by simp⟩)
      rw [if_neg hd] at h
      rw [if_neg hd']
      obtain ⟨b', hb', hcons⟩ := Option.map_eq_some_iff.mp h
      rw [ih (by rw [hb', (List.cons.inj hcons).2])]
      rfl

/-- What the virtual directory of a name is made of. -/
lemma groupPrefix_eq_some {p d n g : String} (h : groupPrefix p d n = some (some g)) :
    ∃ pre b r, n.toList = pre ++ (b ++ d.toList ++ r) ∧
      (String.ofList pre).utf8ByteSize = min p.utf8ByteSize n.utf8ByteSize ∧
      beforeFirst d.toList (b ++ d.toList ++ r) = some b ∧
      g.toList = p.toList ++ b ++ d.toList := by
  obtain ⟨rest, hdrop, hrest⟩ := Option.map_eq_some_iff.mp h
  obtain ⟨b, hb, rfl⟩ := Option.map_eq_some_iff.mp hrest
  obtain ⟨pre, hn, hsize⟩ := exists_of_dropBytes hdrop
  obtain ⟨r, rfl⟩ := exists_of_beforeFirst hb
  exact ⟨pre, b, r, hn, hsize, hb, by simp⟩

/-- The virtual directory of a name that starts with the prefix. -/
lemma groupPrefix_of_append {p d n : String} {rest : List Char} (h : n.toList = p.toList ++ rest) :
    groupPrefix p d n =
      some ((beforeFirst d.toList rest).map fun b => p ++ String.ofList b ++ d) := by
  have hn : n = p ++ String.ofList rest := String.toList_inj.mp (by simp [h])
  have hle : p.utf8ByteSize ≤ n.utf8ByteSize := by
    rw [hn, String.utf8ByteSize_append]
    omega
  have hdrop := dropBytes_append p.toList rest
  rw [String.ofList_toList, ← h] at hdrop
  rw [groupPrefix, min_eq_left hle, hdrop]
  rfl

/-- A name that starts with a prefix and has a virtual directory starts with it, too. -/
lemma prefix_of_groupPrefix {p d n g : String} (hn : p.toList <+: n.toList)
    (h : groupPrefix p d n = some (some g)) : g.toList <+: n.toList := by
  obtain ⟨rest, hrest⟩ := hn
  rw [groupPrefix_of_append hrest.symm] at h
  obtain ⟨b, hb, hg⟩ := Option.map_eq_some_iff.mp (Option.some.inj h)
  obtain ⟨r, rfl⟩ := exists_of_beforeFirst hb
  exact ⟨r, by simp [← hg, ← hrest]⟩

/-- A virtual directory is that of every name that starts with it. -/
lemma groupPrefix_of_starts {p d n n' g : String} (h : groupPrefix p d n' = some (some g))
    (hn : g.toList <+: n.toList) : groupPrefix p d n = some (some g) := by
  obtain ⟨_, b, r, -, -, hb, hg⟩ := groupPrefix_eq_some h
  obtain ⟨r', hr'⟩ := hn
  have hsplit : n.toList = p.toList ++ (b ++ d.toList ++ r') := by simp [← hr', hg]
  rw [groupPrefix_of_append hsplit, beforeFirst_congr hb]
  exact congrArg (some ∘ some) (String.toList_inj.mp (by simp [hg]))

lemma prefix_groupPrefix {p d n g : String} (h : groupPrefix p d n = some (some g)) :
    p.toList <+: g.toList := by
  obtain ⟨_, b, r, -, -, -, hg⟩ := groupPrefix_eq_some h
  exact ⟨b ++ d.toList, by simp [hg]⟩

/-- Virtual directories get longer, but not longer than the names in them. -/
lemma utf8ByteSize_groupPrefix {p d n g : String} (hd : d ≠ "")
    (h : groupPrefix p d n = some (some g)) :
    p.utf8ByteSize < g.utf8ByteSize ∧ g.utf8ByteSize ≤ n.utf8ByteSize := by
  obtain ⟨pre, b, r, hn, hsize, -, hg⟩ := groupPrefix_eq_some h
  have hn' : n = String.ofList pre ++ (String.ofList b ++ d ++ String.ofList r) :=
    String.toList_inj.mp (by simp [hn])
  have hg' : g = p ++ String.ofList b ++ d := String.toList_inj.mp (by simp [hg])
  have hpos : 0 < d.utf8ByteSize := by
    rw [Nat.pos_iff_ne_zero, Ne, String.utf8ByteSize_eq_zero_iff]
    exact hd
  have hlen : n.utf8ByteSize = (String.ofList pre).utf8ByteSize +
      ((String.ofList b).utf8ByteSize + d.utf8ByteSize + (String.ofList r).utf8ByteSize) := by
    conv_lhs => rw [hn']
    simp only [String.utf8ByteSize_append]
  rw [hg', String.utf8ByteSize_append, String.utf8ByteSize_append]
  omega

/-- With an empty delimiter every name falls into the prefix itself. -/
lemma groupPrefix_empty (n : String) : groupPrefix "" "" n = some (some "") := by
  have hnil : ∀ cs : List Char, beforeFirst [] cs = some [] := by
    intro cs
    cases cs <;> simp [beforeFirst]
  rw [groupPrefix_of_append (show n.toList = "".toList ++ n.toList by simp)]
  simp [hnil]

end FsBackend
end BlobStore
