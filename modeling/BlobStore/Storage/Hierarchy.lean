import BlobStore.Storage.Concurrent.Traced
import BlobStore.Storage.Listing
import BlobStore.Storage.TableHash
import Mathlib.Algebra.Order.BigOperators.Group.List
import Mathlib.Data.List.Nodup

/-!
# Walking a container through its virtual directories

A client lists the prefix `""` with a delimiter, page by page, and then does the same for every
virtual directory it was given. Three things can go wrong. An empty delimiter leads back to the
directory it was found in. The pattern of a prefix can match names that do not start with it. And
directories are put together within one page, so that one whose names lie on two pages is given
twice.
-/

namespace BlobStore

open Paging FsBackend Resumption Proc

/-- The names a client finds below a prefix; the number bounds the requests. -/
def traverse (w : World) (c : ContainerKey) (d : String) (maxResults : UInt32) :
    ℕ → String → Option (List String)
  | 0, _     => none
  | k + 1, p => do
    let pages ← follow (listPage w c p d maxResults) k none
    let below ← (pages.flatMap Prod.snd).mapM (traverse w c d maxResults k)
    pure ((pages.flatMap fun page => page.1.map BlobProps.name) ++ below.flatten)

/-- The names that are selected for a prefix, in order. -/
def MetadataDb.directory (db : MetadataDb) (c : ContainerKey) (p : String) : List String :=
  (db.selectBlobs c (some p) none).map BlobRow.name

/-- The virtual directories that a walk is led to. -/
inductive Visited (dir : String → List String) (d : String) : String → Prop where
  | root : Visited dir d ""
  | group {p n g : String} : Visited dir d p → n ∈ dir p → groupPrefix p d n = some (some g) →
      Visited dir d g

/-- On the way of a walk, names are sliced at characters, what is reported under a prefix starts
with it, and the names of a virtual directory lie on one page. -/
structure Clear (dir : String → List String) (d : String) (n : ℕ) : Prop where
  aligned : ∀ p, Visited dir d p → Aligned p d (dir p)
  own : ∀ p, Visited dir d p → ∀ x ∈ filesOf p d (dir p), p.toList <+: x.toList
  whole : ∀ p, Visited dir d p → ∀ pg ∈ pages n (dir p), ∀ pg' ∈ pages n (dir p),
    ∀ x ∈ pg, ∀ x' ∈ pg', ∀ g, groupPrefix p d x = some (some g) →
      groupPrefix p d x' = some (some g) → g.toList <+: x.toList → pg = pg'

variable {w : World} {c : ContainerKey} {d : String} {m : UInt32}

/-! ### The names of a directory -/

/-- What is inborn holds of all rows, in every state that arises. -/
lemma Arisen.rows {B : FsBackend} {P : BlobKey → BlobRow → Prop} (hP : MetadataDb.Inborn P)
    (h : Arisen B w) : w.db.Rows P := by
  induction h with
  | fresh h =>
    obtain ⟨accounts, hdb⟩ := h.db
    intro k row hrow
    simp [hdb, MetadataDb.empty] at hrow
  | call h amb call ih =>
    exact (issues_locates amb call).run_inv (I := fun w : World => w.db.Rows P)
      (fun e _ _ hw => rows_exec hP e hw) ih
  | race h req schedule ih =>
    exact Conf.run_issues Action.exec (I := fun w : World => w.db.Rows P)
      (fun i => issues_locates _ _) (fun e _ _ hw => rows_exec hP e hw) ih schedule

/-- In every state that arises, rows have the names they are stored under. -/
theorem Arisen.named {B : FsBackend} (h : Arisen B w) : w.db.Named :=
  h.rows MetadataDb.inborn_name

section Directory

variable (hnamed : w.db.Named)
include hnamed

lemma mem_directory {p x : String} :
    x ∈ w.db.directory c p ↔ x ∈ w.db.blobNames c ∧ MetadataDb.listed p "" x = true := by
  simp only [MetadataDb.directory, List.mem_map, MetadataDb.mem_selectBlobs hnamed,
    MetadataDb.mem_blobNames, Option.getD_some, Option.getD_none]
  constructor
  · rintro ⟨row, ⟨hrow, hlisted⟩, rfl⟩
    exact ⟨⟨row, hrow⟩, hlisted⟩
  · rintro ⟨⟨row, hrow⟩, hlisted⟩
    have hname := hnamed _ row hrow
    dsimp only at hname
    subst hname
    exact ⟨row, ⟨hrow, hlisted⟩, rfl⟩

lemma ne_empty_of_mem_directory {p x : String} (hx : x ∈ w.db.directory c p) : x ≠ "" := by
  rintro rfl
  have hlisted := ((mem_directory hnamed).mp hx).2
  simp [MetadataDb.listed] at hlisted

lemma mem_directory_of_prefix {p x : String} (hx : x ∈ w.db.blobNames c) (hne : x ≠ "")
    (hp : p.toList <+: x.toList) : x ∈ w.db.directory c p :=
  (mem_directory hnamed).mpr ⟨hx, MetadataDb.listed_of_prefix hp hne⟩

lemma nodup_directory (p : String) : (w.db.directory c p).Nodup := by
  rw [MetadataDb.directory, List.Nodup, List.pairwise_map]
  exact (MetadataDb.sorted_selectBlobs hnamed).imp fun h => h.ne

lemma length_directory_le (p : String) :
    (w.db.directory c p).length ≤ (w.db.blobNames c).length :=
  (List.subperm_of_subset (nodup_directory hnamed p) fun _ hx =>
    ((mem_directory hnamed).mp hx).1).length_le

end Directory

/-- All virtual directories given for a prefix, page after page. -/
def groupsIn (db : MetadataDb) (c : ContainerKey) (d : String) (n : ℕ) (p : String) :
    List String :=
  (pages n (db.directory c p)).flatMap (groupsOf p d)

lemma mem_groupsIn {db : MetadataDb} {n : ℕ} {p g : String} :
    g ∈ groupsIn db c d n p ↔ ∃ x ∈ db.directory c p, groupPrefix p d x = some (some g) := by
  simp only [groupsIn, List.mem_flatMap, mem_groupsOf]
  constructor
  · rintro ⟨pg, hpg, x, hx, hg⟩
    exact ⟨x, mem_pages.mp ⟨pg, hpg, hx⟩, hg⟩
  · rintro ⟨x, hx, hg⟩
    obtain ⟨pg, hpg, hx⟩ := mem_pages.mpr hx
    exact ⟨pg, hpg, x, hx, hg⟩

/-! ### One level -/

lemma pages_map {α β : Type} (f : α → β) (n : ℕ) (l : List α) :
    pages n (l.map f) = (pages n l).map (List.map f) := by
  induction l using pages.induct n with
  | case1 l h ih =>
    rw [pages_of_lt h.1 h.2, pages_of_lt h.1 (by simpa using h.2), List.map_cons, ← ih,
      List.map_take, List.map_drop]
  | case2 l h =>
    rw [pages, if_neg (by simpa using h), pages, if_neg h]
    rfl

/-- What the pages of a listing are, in names. -/
lemma names_of_pages {p : String} {n : ℕ} {rows : List BlobRow}
    {r : List (List BlobProps × List String)}
    (h : (pages n rows).mapM (fun rows => groupRows p (some d) rows [] []) = some r) :
    (r.flatMap fun page => page.1.map BlobProps.name) = filesOf p d (rows.map BlobRow.name) ∧
      r.flatMap Prod.snd = (pages n (rows.map BlobRow.name)).flatMap (groupsOf p d) := by
  have hall := mapM_eq_some_iff.mp h
  have hfiles : ∀ {l : List (List BlobRow)} {r : List (List BlobProps × List String)},
      List.Forall₂ (fun rows page => groupRows p (some d) rows [] [] = some page) l r →
      (r.flatMap fun page => page.1.map BlobProps.name) =
        filesOf p d (l.flatten.map BlobRow.name) ∧
      r.flatMap Prod.snd = (l.map (List.map BlobRow.name)).flatMap (groupsOf p d) := by
    intro l r hall
    induction hall with
    | nil => simp [filesOf]
    | cons hpage hrest ih =>
      obtain ⟨hnames, hgroups⟩ := names_of_groupRows hpage
      simp only [List.flatMap_cons, ih.1, ih.2, hnames, hgroups, List.flatten_cons, List.map_append,
        List.map_cons, filesOf, List.filter_append, and_self]
  obtain ⟨h₁, h₂⟩ := hfiles hall
  rw [flatten_pages] at h₁
  rw [pages_map]
  exact ⟨h₁, h₂⟩

lemma aligned_of_pages {p : String} {n : ℕ} {rows : List BlobRow}
    {r : List (List BlobProps × List String)}
    (h : (pages n rows).mapM (fun rows => groupRows p (some d) rows [] []) = some r) :
    Aligned p d (rows.map BlobRow.name) := by
  intro x hx
  obtain ⟨row, hrow, rfl⟩ := List.mem_map.mp hx
  obtain ⟨pg, hpg, hrow⟩ := mem_pages.mpr hrow
  obtain ⟨page, -, hpage⟩ := exists_of_mapM h hpg
  exact aligned_of_groupRows hpage row.name (List.mem_map_of_mem hrow)

lemma exists_pages_of_aligned {p : String} {n : ℕ} {rows : List BlobRow}
    (h : Aligned p d (rows.map BlobRow.name)) :
    ∃ r, (pages n rows).mapM (fun rows => groupRows p (some d) rows [] []) = some r := by
  have hsome : ∀ l : List (List BlobRow), (∀ pg ∈ l, Aligned p d (pg.map BlobRow.name)) →
      ∃ r, l.mapM (fun rows => groupRows p (some d) rows [] []) = some r := by
    intro l
    induction l with
    | nil => exact fun _ => ⟨[], rfl⟩
    | cons pg l ih =>
      intro hl
      obtain ⟨r, hr⟩ := ih fun pg' hpg' => hl pg' (by simp [hpg'])
      rw [List.mapM_cons, groupRows_of_aligned (hl pg (by simp)), hr]
      exact ⟨_, rfl⟩
  refine hsome _ fun pg hpg x hx => ?_
  obtain ⟨row, hrow, rfl⟩ := List.mem_map.mp hx
  exact h row.name (List.mem_map_of_mem (mem_pages.mp ⟨pg, hpg, hrow⟩))

/-- What a walk finds below a virtual directory, if it comes to an end. -/
def found (w : World) (c : ContainerKey) (d : String) (m : UInt32) (k : ℕ) (p : String) :
    List String :=
  (traverse w c d m k p).getD []

lemma mapM_traverse {k : ℕ} {gs : List String} (h : ∀ g ∈ gs, traverse w c d m k g ≠ none) :
    gs.mapM (traverse w c d m k) = some (gs.map (found w c d m k)) := by
  rw [mapM_eq_some_iff, List.forall₂_map_right_iff, List.forall₂_same]
  intro g hg
  obtain ⟨l, hl⟩ := Option.ne_none_iff_exists'.mp (h g hg)
  simp [found, hl]

section Level

variable (hnamed : w.db.Named) (hc : (w.db.containers.lookup c).isSome = true)
  (hm : 0 < m.toNat) {k : ℕ} {p : String} {l : List String}
include hnamed hc hm

/-- A walk that comes to an end has come to an end below, and finds the entries of the prefix and
what is below. -/
lemma traverse_sound (h : traverse w c d m (k + 1) p = some l) :
    Aligned p d (w.db.directory c p) ∧
      (∀ g ∈ groupsIn w.db c d m.toNat p, traverse w c d m k g ≠ none) ∧
      l = filesOf p d (w.db.directory c p) ++
        (groupsIn w.db c d m.toNat p).flatMap (found w c d m k) := by
  rw [traverse] at h
  obtain ⟨pgs, hfollow, h⟩ := Option.bind_eq_some_iff.mp h
  obtain ⟨below, hbelow, h⟩ := Option.bind_eq_some_iff.mp h
  have hpages := (serves_listPage hnamed hc p d hm).follow_sound hfollow
  obtain ⟨hfiles, hgroups⟩ := names_of_pages hpages
  change pgs.flatMap Prod.snd = groupsIn w.db c d m.toNat p at hgroups
  rw [hgroups] at hbelow
  have hsome : ∀ g ∈ groupsIn w.db c d m.toNat p, traverse w c d m k g ≠ none := by
    intro g hg
    obtain ⟨lg, -, hlg⟩ := exists_of_mapM hbelow hg
    simp [hlg]
  rw [mapM_traverse hsome] at hbelow
  refine ⟨aligned_of_pages hpages, hsome, ?_⟩
  rw [← Option.some.inj h, hfiles, ← Option.some.inj hbelow, List.flatMap_def]
  rfl

/-- A walk that comes to an end below comes to an end. -/
lemma traverse_complete (hk : (w.db.blobNames c).length < k)
    (haligned : Aligned p d (w.db.directory c p))
    (hbelow : ∀ g ∈ groupsIn w.db c d m.toNat p, traverse w c d m k g ≠ none) :
    traverse w c d m (k + 1) p = some (filesOf p d (w.db.directory c p) ++
      (groupsIn w.db c d m.toNat p).flatMap (found w c d m k)) := by
  obtain ⟨pgs, hpages⟩ := exists_pages_of_aligned (n := m.toNat) haligned
  have hlen : (w.db.selectBlobs c (some p) none).length < k := by
    have hle := length_directory_le (c := c) hnamed p
    rw [MetadataDb.directory, List.length_map] at hle
    omega
  have hfollow := (serves_listPage hnamed hc p d hm).follow_complete hpages hlen
  obtain ⟨hfiles, hgroups⟩ := names_of_pages hpages
  change pgs.flatMap Prod.snd = groupsIn w.db c d m.toNat p at hgroups
  simp only [traverse, hfollow, Option.bind_eq_bind, Option.bind_some, hgroups,
    mapM_traverse hbelow, hfiles]
  rw [List.flatMap_def]
  rfl

/-- A walk finds only names of the container, none of them empty. -/
lemma traverse_mem (h : traverse w c d m k p = some l) {x : String} (hx : x ∈ l) :
    x ∈ w.db.blobNames c ∧ x ≠ "" := by
  induction k generalizing p l with
  | zero => simp [traverse] at h
  | succ k ih =>
    obtain ⟨-, hbelow, rfl⟩ := traverse_sound hnamed hc hm h
    rcases List.mem_append.mp hx with hx | hx
    · have hdir := (mem_filesOf.mp hx).1
      exact ⟨((mem_directory hnamed).mp hdir).1, ne_empty_of_mem_directory hnamed hdir⟩
    · obtain ⟨g, hg, hx⟩ := List.mem_flatMap.mp hx
      obtain ⟨lg, hlg⟩ := Option.ne_none_iff_exists'.mp (hbelow g hg)
      rw [found, hlg] at hx
      exact ih hlg hx

/-- A walk finds every name that starts with the prefix. -/
lemma mem_traverse (h : traverse w c d m k p = some l) {x : String} (hx : x ∈ w.db.blobNames c)
    (hne : x ≠ "") (hp : p.toList <+: x.toList) : x ∈ l := by
  induction k generalizing p l with
  | zero => simp [traverse] at h
  | succ k ih =>
    obtain ⟨haligned, hbelow, rfl⟩ := traverse_sound hnamed hc hm h
    have hdir := mem_directory_of_prefix hnamed hx hne hp
    rw [List.mem_append]
    rcases hg : groupPrefix p d x with _ | _ | g
    · exact absurd hg (haligned x hdir)
    · exact .inl (mem_filesOf.mpr ⟨hdir, hg⟩)
    · have hgin : g ∈ groupsIn w.db c d m.toNat p := mem_groupsIn.mpr ⟨x, hdir, hg⟩
      obtain ⟨lg, hlg⟩ := Option.ne_none_iff_exists'.mp (hbelow g hgin)
      refine .inr (List.mem_flatMap.mpr ⟨g, hgin, ?_⟩)
      rw [found, hlg]
      exact ih hlg (prefix_of_groupPrefix hp hg)

end Level

/-! ### Clear walks -/

lemma disjoint_of_nodup_flatMap {α β : Type} {f : α → List β} {l : List α}
    (h : (l.flatMap f).Nodup) {x y : α} (hx : x ∈ l) (hy : y ∈ l) (hne : x ≠ y) :
    List.Disjoint (f x) (f y) := by
  have : Std.Symm (Function.onFun List.Disjoint f) := ⟨fun _ _ hdisj _ hx hy => hdisj hy hx⟩
  exact (List.nodup_flatMap.mp h).2.forall hx hy hne

section Clear

variable (hnamed : w.db.Named) (hc : (w.db.containers.lookup c).isSome = true)
  (hm : 0 < m.toNat)
include hnamed

/-- A directory that is given twice is not one that a name starts with. -/
lemma Clear.pairwise_groupsIn (h : Clear (w.db.directory c) d m.toNat) {p : String}
    (hp : Visited (w.db.directory c) d p) :
    (groupsIn w.db c d m.toNat p).Pairwise fun g g' =>
      g = g' → ∀ x ∈ w.db.directory c p, ¬ g.toList <+: x.toList := by
  have hnodup : (pages m.toNat (w.db.directory c p)).flatten.Nodup := by
    rw [flatten_pages]
    exact nodup_directory hnamed p
  rw [groupsIn, List.pairwise_flatMap]
  refine ⟨fun pg _ => (nodup_groupsOf p d pg).imp fun hne heq => absurd heq hne, ?_⟩
  refine (List.nodup_flatten.mp hnodup).2.imp_of_mem fun {pg pg'} hpg hpg' hdisj g hg g' hg' => ?_
  rintro rfl x hx hbegins
  obtain ⟨y, hy, hgy⟩ := mem_groupsOf.mp hg
  obtain ⟨y', hy', hgy'⟩ := mem_groupsOf.mp hg'
  obtain ⟨pg₀, hpg₀, hx⟩ := mem_pages.mpr hx
  have hgx := groupPrefix_of_starts hgy hbegins
  have heq := h.whole p hp pg₀ hpg₀ pg hpg x hx y hy g hgx hgy hbegins
  have heq' := h.whole p hp pg₀ hpg₀ pg' hpg' x hx y' hy' g hgx hgy' hbegins
  subst heq
  subst heq'
  exact hdisj hy hy

include hc hm

/-- A clear walk comes to an end and finds the names that start with its prefix, once each. -/
lemma Clear.traverse (h : Clear (w.db.directory c) d m.toNat) (hd : d ≠ "")
    (hempty : "" ∉ w.db.blobNames c) {bound : ℕ}
    (hbound : ∀ x ∈ w.db.blobNames c, x.utf8ByteSize ≤ bound) {j : ℕ} {p : String}
    (hp : Visited (w.db.directory c) d p) (hj : bound < p.utf8ByteSize + j) :
    ∃ l, traverse w c d m ((w.db.blobNames c).length + 2 + j) p = some l ∧ l.Nodup ∧
      ∀ x, x ∈ l ↔ x ∈ w.db.blobNames c ∧ p.toList <+: x.toList := by
  induction j generalizing p with
  | zero =>
    -- no name is long enough for a further directory
    have hnone : groupsIn w.db c d m.toNat p = [] := by
      rw [List.eq_nil_iff_forall_not_mem]
      intro g hg
      obtain ⟨x, hx, hgx⟩ := mem_groupsIn.mp hg
      have hsize := utf8ByteSize_groupPrefix hd hgx
      have hle := hbound x ((mem_directory hnamed).mp hx).1
      omega
    have hrun := traverse_complete hnamed hc hm
      (k := (w.db.blobNames c).length + 1) (by omega) (h.aligned p hp) (by simp [hnone])
    rw [hnone, List.flatMap_nil, List.append_nil] at hrun
    refine ⟨_, hrun, (nodup_directory hnamed p).filter _, fun x => ⟨fun hx => ?_, ?_⟩⟩
    · exact ⟨((mem_directory hnamed).mp (mem_filesOf.mp hx).1).1, h.own p hp x hx⟩
    · rintro ⟨hx, hbegins⟩
      exact mem_traverse hnamed hc hm hrun hx (fun heq => hempty (heq ▸ hx)) hbegins
  | succ j ih =>
    have hbelow : ∀ g ∈ groupsIn w.db c d m.toNat p, ∃ l,
        BlobStore.traverse w c d m ((w.db.blobNames c).length + 2 + j) g = some l ∧ l.Nodup ∧
          ∀ x, x ∈ l ↔ x ∈ w.db.blobNames c ∧ g.toList <+: x.toList := by
      intro g hg
      obtain ⟨x, hx, hgx⟩ := mem_groupsIn.mp hg
      have hsize := utf8ByteSize_groupPrefix hd hgx
      exact ih (hp.group hx hgx) (by omega)
    have hsome : ∀ g ∈ groupsIn w.db c d m.toNat p,
        BlobStore.traverse w c d m ((w.db.blobNames c).length + 2 + j) g ≠ none := by
      intro g hg
      obtain ⟨l, hl, -⟩ := hbelow g hg
      simp [hl]
    have hfound : ∀ g ∈ groupsIn w.db c d m.toNat p,
        (found w c d m ((w.db.blobNames c).length + 2 + j) g).Nodup ∧
          ∀ x, x ∈ found w c d m ((w.db.blobNames c).length + 2 + j) g ↔
            x ∈ w.db.blobNames c ∧ g.toList <+: x.toList := by
      intro g hg
      obtain ⟨l, hl, hl'⟩ := hbelow g hg
      rw [found, hl]
      exact hl'
    have hrun := traverse_complete hnamed hc hm (by omega) (h.aligned p hp) hsome
    refine ⟨_, hrun, ?_, fun x => ⟨fun hx => ?_, ?_⟩⟩
    · rw [List.nodup_append']
      refine ⟨(nodup_directory hnamed p).filter _, ?_, ?_⟩
      · rw [List.nodup_flatMap]
        refine ⟨fun g hg => (hfound g hg).1, ?_⟩
        refine (h.pairwise_groupsIn hnamed hp).imp_of_mem fun {g g'} hg hg' hR x hx hx' => ?_
        obtain ⟨hxn, hbegins⟩ := ((hfound g hg).2 x).mp hx
        have hbegins' := (((hfound g' hg').2 x).mp hx').2
        obtain ⟨y, hy, hgy⟩ := mem_groupsIn.mp hg
        obtain ⟨y', hy', hgy'⟩ := mem_groupsIn.mp hg'
        have hgx := groupPrefix_of_starts hgy hbegins
        have hgx' := groupPrefix_of_starts hgy' hbegins'
        have hdir := mem_directory_of_prefix hnamed hxn (fun heq => hempty (heq ▸ hxn))
          ((prefix_groupPrefix hgy).trans hbegins)
        exact hR (Option.some.inj (Option.some.inj (hgx.symm.trans hgx'))) x hdir hbegins
      · intro x hx hx'
        obtain ⟨g, hg, hx'⟩ := List.mem_flatMap.mp hx'
        obtain ⟨y, hy, hgy⟩ := mem_groupsIn.mp hg
        have hgx := groupPrefix_of_starts hgy (((hfound g hg).2 x).mp hx').2
        cases (mem_filesOf.mp hx).2.symm.trans hgx
    · rcases List.mem_append.mp hx with hx | hx
      · exact ⟨((mem_directory hnamed).mp (mem_filesOf.mp hx).1).1, h.own p hp x hx⟩
      · obtain ⟨g, hg, hx⟩ := List.mem_flatMap.mp hx
        obtain ⟨hxn, hbegins⟩ := ((hfound g hg).2 x).mp hx
        obtain ⟨y, hy, hgy⟩ := mem_groupsIn.mp hg
        exact ⟨hxn, (prefix_groupPrefix hgy).trans hbegins⟩
    · rintro ⟨hx, hbegins⟩
      exact mem_traverse hnamed hc hm hrun hx (fun heq => hempty (heq ▸ hx)) hbegins

/-- With an empty delimiter a walk never ends, unless there is nothing to be found. -/
lemma traverse_empty_delimiter {x : String} (hx : x ∈ w.db.blobNames c) (hne : x ≠ "") (k : ℕ) :
    BlobStore.traverse w c "" m k "" = none := by
  induction k with
  | zero => rfl
  | succ k ih =>
    by_contra hsome
    obtain ⟨l, hl⟩ := Option.ne_none_iff_exists'.mp hsome
    have hdir := mem_directory_of_prefix hnamed hx hne (p := "") (by simp)
    exact (traverse_sound hnamed hc hm hl).2.1 ""
      (mem_groupsIn.mpr ⟨x, hdir, groupPrefix_empty x⟩) ih

/-- What is found at a place that a walk without repetitions is led to starts with its prefix. -/
lemma Visited.found {k : ℕ} {l : List String} (hl : BlobStore.traverse w c d m k "" = some l)
    (hnodup : l.Nodup) {p : String} (hp : Visited (w.db.directory c) d p) :
    ∃ k l, BlobStore.traverse w c d m k p = some l ∧ l.Nodup ∧ ∀ x ∈ l, p.toList <+: x.toList := by
  induction hp with
  | root => exact ⟨k, l, hl, hnodup, by simp⟩
  | @group p y g hp hy hgy ih =>
    obtain ⟨k, l, hl, hnodup, hown⟩ := ih
    cases k with
    | zero => simp [BlobStore.traverse] at hl
    | succ k =>
      obtain ⟨haligned, hbelow, rfl⟩ := traverse_sound hnamed hc hm hl
      have hg : g ∈ groupsIn w.db c d m.toNat p := mem_groupsIn.mpr ⟨y, hy, hgy⟩
      obtain ⟨lg, hlg⟩ := Option.ne_none_iff_exists'.mp (hbelow g hg)
      have hfound : ∀ {g lg}, BlobStore.traverse w c d m k g = some lg →
          BlobStore.found w c d m k g = lg := by
        intro g lg hlg
        simp [BlobStore.found, hlg]
      obtain ⟨-, hnodup', hdisj⟩ := List.nodup_append'.mp hnodup
      have hnodups := (List.nodup_flatMap.mp hnodup').1
      refine ⟨k, lg, hlg, hfound hlg ▸ hnodups g hg, fun x hx => ?_⟩
      have hxin : x ∈ (groupsIn w.db c d m.toNat p).flatMap (BlobStore.found w c d m k) :=
        List.mem_flatMap.mpr ⟨g, hg, (hfound hlg).symm ▸ hx⟩
      have hbegins := hown x (List.mem_append_right _ hxin)
      obtain ⟨hxn, hne⟩ := traverse_mem hnamed hc hm hlg hx
      have hdir := mem_directory_of_prefix hnamed hxn hne hbegins
      -- otherwise it is found a second time, where it belongs
      rcases hgx : groupPrefix p d x with _ | _ | g'
      · exact absurd hgx (haligned x hdir)
      · exact (hdisj (mem_filesOf.mpr ⟨hdir, hgx⟩) hxin).elim
      · have hbegins' := prefix_of_groupPrefix hbegins hgx
        by_cases heq : g' = g
        · exact heq ▸ hbegins'
        · have hg' : g' ∈ groupsIn w.db c d m.toNat p := mem_groupsIn.mpr ⟨x, hdir, hgx⟩
          obtain ⟨lg', hlg'⟩ := Option.ne_none_iff_exists'.mp (hbelow g' hg')
          have hx' := mem_traverse hnamed hc hm hlg' hxn hne hbegins'
          have hsep := disjoint_of_nodup_flatMap hnodup' hg' hg heq
          rw [hfound hlg', hfound hlg] at hsep
          exact (hsep hx' hx).elim

/-- A walk without repetitions is clear. -/
lemma clear_of_nodup {k : ℕ} {l : List String} (hl : BlobStore.traverse w c d m k "" = some l)
    (hnodup : l.Nodup) : Clear (w.db.directory c) d m.toNat := by
  have hlevel : ∀ p, Visited (w.db.directory c) d p → ∃ k,
      Aligned p d (w.db.directory c p) ∧
      (∀ g ∈ groupsIn w.db c d m.toNat p, BlobStore.traverse w c d m k g ≠ none) ∧
      (filesOf p d (w.db.directory c p) ++
        (groupsIn w.db c d m.toNat p).flatMap (BlobStore.found w c d m k)).Nodup ∧
      ∀ x ∈ filesOf p d (w.db.directory c p), p.toList <+: x.toList := by
    intro p hp
    obtain ⟨k, l, hl, hnodup, hown⟩ := Visited.found hnamed hc hm hl hnodup hp
    cases k with
    | zero => simp [BlobStore.traverse] at hl
    | succ k =>
      obtain ⟨haligned, hbelow, rfl⟩ := traverse_sound hnamed hc hm hl
      exact ⟨k, haligned, hbelow, hnodup, fun x hx => hown x (List.mem_append_left _ hx)⟩
  refine ⟨fun p hp => ?_, fun p hp => ?_, fun p hp pg hpg pg' hpg' x hx x' hx' g hg hg' hbegins => ?_⟩
  · obtain ⟨k, haligned, -⟩ := hlevel p hp
    exact haligned
  · obtain ⟨k, -, -, -, hown⟩ := hlevel p hp
    exact hown
  · obtain ⟨k, -, hbelow, hnodup, -⟩ := hlevel p hp
    by_contra hne
    have hdir := mem_pages.mp ⟨pg, hpg, hx⟩
    obtain ⟨lg, hlg⟩ := Option.ne_none_iff_exists'.mp (hbelow g (mem_groupsIn.mpr ⟨x, hdir, hg⟩))
    have hxg : x ∈ BlobStore.found w c d m k g := by
      rw [BlobStore.found, hlg]
      exact mem_traverse hnamed hc hm hlg ((mem_directory hnamed).mp hdir).1
        (ne_empty_of_mem_directory hnamed hdir) hbegins
    have hpages := (List.nodup_append'.mp hnodup).2.1
    rw [groupsIn, List.flatMap_assoc] at hpages
    exact disjoint_of_nodup_flatMap hpages hpg hpg' hne
      (List.mem_flatMap.mpr ⟨g, mem_groupsOf.mpr ⟨x, hx, hg⟩, hxg⟩)
      (List.mem_flatMap.mpr ⟨g, mem_groupsOf.mpr ⟨x', hx', hg'⟩, hxg⟩)

end Clear

/-- A walk through the virtual directories of a container comes to an end and reports every blob
exactly once, if and only if there is no blob, or the delimiter is not empty, no blob has the empty
name, and the walk is clear. -/
theorem traverse_perm_iff (hnamed : w.db.Named) (hc : (w.db.containers.lookup c).isSome = true)
    (hm : 0 < m.toNat) :
    (∃ k l, traverse w c d m k "" = some l ∧ l.Perm (w.db.blobNames c)) ↔
      w.db.blobNames c = [] ∨
        d ≠ "" ∧ "" ∉ w.db.blobNames c ∧ Clear (w.db.directory c) d m.toNat := by
  constructor
  · rintro ⟨k, l, hl, hperm⟩
    have hempty : "" ∉ w.db.blobNames c := by
      intro hx
      exact (traverse_mem hnamed hc hm hl (hperm.mem_iff.mpr hx)).2 rfl
    cases hnames : w.db.blobNames c with
    | nil => exact .inl rfl
    | cons x names =>
      refine .inr ⟨?_, hnames ▸ hempty, clear_of_nodup hnamed hc hm hl
        (hperm.nodup_iff.mpr (MetadataDb.nodup_blobNames c w.db))⟩
      rintro rfl
      have hx : x ∈ w.db.blobNames c := by simp [hnames]
      have hne : x ≠ "" := fun heq => hempty (heq ▸ hx)
      rw [traverse_empty_delimiter hnamed hc hm hx hne] at hl
      cases hl
  · rintro (hnone | ⟨hd, hempty, hclear⟩)
    · have hdir : ∀ p, w.db.directory c p = [] := by
        intro p
        rw [List.eq_nil_iff_forall_not_mem]
        intro x hx
        have hx := ((mem_directory hnamed).mp hx).1
        simp [hnone] at hx
      refine ⟨2, [], ?_, by rw [hnone]⟩
      have hrun := traverse_complete (d := d) (p := "") hnamed hc hm (k := 1) (by simp [hnone])
        (by simp [hdir, Aligned]) (by simp [mem_groupsIn, hdir])
      simpa [hdir, filesOf, groupsIn, pages_of_le, groupsOf, firstSeen] using hrun
    · have hbound : ∀ x ∈ w.db.blobNames c,
          x.utf8ByteSize ≤ ((w.db.blobNames c).map String.utf8ByteSize).sum := by
        intro x hx
        exact List.single_le_sum (by simp) _ (List.mem_map_of_mem hx)
      obtain ⟨l, hl, hnodup, hmem⟩ := hclear.traverse hnamed hc hm hd hempty hbound .root
        (j := ((w.db.blobNames c).map String.utf8ByteSize).sum + 1) (by omega)
      refine ⟨_, l, hl, ?_⟩
      rw [List.perm_ext_iff_of_nodup hnodup (MetadataDb.nodup_blobNames c w.db)]
      intro x
      simp [hmem]

/-- A store with one container and blobs of the given names. -/
def sampleNames (names : List String) : World where
  db := names.foldl (fun db n => (db.upsertBlob ⟨"acc", "c", n⟩
      ⟨0, none, none, ∅, "0x8DC", "Mon, 01 Jan 2024 00:00:00 GMT", n⟩).2)
    (MetadataDb.insertContainer ⟨"acc", "c"⟩ ⟨"off", ∅, "0x8DC", ""⟩ (.empty sampleAccounts)).2
  fs := ⟨fun _ => none⟩

lemma named_sampleNames (names : List String) : (sampleNames names).db.Named := by
  have hfold : ∀ (names : List String) (db : MetadataDb), db.Named →
      (names.foldl (fun db n => (db.upsertBlob ⟨"acc", "c", n⟩
        ⟨0, none, none, ∅, "0x8DC", "Mon, 01 Jan 2024 00:00:00 GMT", n⟩).2) db).Named := by
    intro names
    induction names with
    | nil => exact fun _ h => h
    | cons n names ih => exact fun db h => ih _ (h.upsertBlob _ _)
  apply hfold
  intro k row hrow
  unfold MetadataDb.insertContainer at hrow
  split_ifs at hrow <;> simp [MetadataDb.empty] at hrow

/-- One directory and one blob beside it. -/
theorem traverse_sampleNames :
    ∃ k l, traverse (sampleNames ["a/x", "b"]) ⟨"acc", "c"⟩ "/" 5000 k "" = some l ∧
      l.Perm ((sampleNames ["a/x", "b"]).db.blobNames ⟨"acc", "c"⟩) := by
  refine (traverse_perm_iff (named_sampleNames _) (by decide +kernel) (by decide)).mpr
    (.inr ⟨by decide, by decide +kernel, ?_⟩)
  have hroot : (sampleNames ["a/x", "b"]).db.directory ⟨"acc", "c"⟩ "" = ["a/x", "b"] := by
    decide +kernel
  have hdir : (sampleNames ["a/x", "b"]).db.directory ⟨"acc", "c"⟩ "a/" = ["a/x"] := by
    decide +kernel
  have hax : groupPrefix "" "/" "a/x" = some (some "a/") := by decide +kernel
  have hb : groupPrefix "" "/" "b" = some none := by decide +kernel
  have hx : groupPrefix "a/" "/" "a/x" = some none := by decide +kernel
  have hvisited : ∀ p, Visited ((sampleNames ["a/x", "b"]).db.directory ⟨"acc", "c"⟩) "/" p →
      p = "" ∨ p = "a/" := by
    intro p hp
    induction hp with
    | root => exact .inl rfl
    | group _ hn hg ih =>
      rcases ih with rfl | rfl
      · simp only [hroot, List.mem_cons, List.not_mem_nil, or_false] at hn
        rcases hn with rfl | rfl
        · simp_all
        · simp_all
      · simp only [hdir, List.mem_singleton] at hn
        simp_all
  refine ⟨fun p hp => ?_, fun p hp x hx => ?_, fun p hp pg hpg pg' hpg' => ?_⟩
  · rcases hvisited p hp with rfl | rfl <;> simp [Aligned, hroot, hdir, hax, hb, hx]
  · rcases hvisited p hp with rfl | rfl
    · simp
    · rw [mem_filesOf, hdir, List.mem_singleton] at hx
      rw [hx.1]
      decide
  · rcases hvisited p hp with rfl | rfl
    · rw [hroot, pages_of_le (by decide), List.mem_singleton] at hpg hpg'
      simp [hpg, hpg']
    · rw [hdir, pages_of_le (by decide), List.mem_singleton] at hpg hpg'
      simp [hpg, hpg']

/-- Two directories whose names differ only in their case: each is listed with both blobs. -/
theorem traverse_other_case :
    ¬ ∃ k l, traverse (sampleNames ["A/x", "a/y"]) ⟨"acc", "c"⟩ "/" 5000 k "" = some l ∧
      l.Perm ((sampleNames ["A/x", "a/y"]).db.blobNames ⟨"acc", "c"⟩) := by
  rintro ⟨k, l, hl, hperm⟩
  have hclear := clear_of_nodup (named_sampleNames _) (by decide +kernel) (by decide) hl
    (hperm.nodup_iff.mpr (MetadataDb.nodup_blobNames _ _))
  have hvisited : Visited ((sampleNames ["A/x", "a/y"]).db.directory ⟨"acc", "c"⟩) "/" "A/" :=
    .group (n := "A/x") .root (by decide +kernel) (by decide +kernel)
  have hown := hclear.own "A/" hvisited "a/y" (by decide +kernel)
  exact absurd hown (by decide)

end BlobStore
