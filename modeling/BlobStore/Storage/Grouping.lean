import BlobStore.Storage.PrefixMatch

/-!
# Grouping by a delimiter

The loop of `list_blobs` slices every name of a page behind the bytes of the prefix, looks for the
delimiter in the rest, and puts the name down as a blob or as a virtual directory. On names that
start with the prefix this is a partition of the page, and the virtual directories come out in
order. But a name is selected by a pattern, and a wildcard of the prefix may stand for a character
with more bytes than it has itself: then the slice begins inside a character.
-/

namespace BlobStore

open FsBackend Resumption Proc Paging

/-! ### Slices -/

/-- A name can be sliced behind the bytes of the prefix: as many bytes, or all of them, make up its
first characters. -/
def CutsAt (p name : String) : Prop :=
  ∃ pre, pre <+: name.toList ∧
    (String.ofList pre).utf8ByteSize = min p.utf8ByteSize name.utf8ByteSize

lemma groupPrefix_ne_none_iff {p d name : String} :
    groupPrefix p d name ≠ none ↔ CutsAt p name := by
  simp only [groupPrefix, Ne, Option.map_eq_none_iff]
  constructor
  · intro h
    obtain ⟨rest, hrest⟩ := Option.ne_none_iff_exists'.mp h
    obtain ⟨pre, hname, hsize⟩ := exists_of_dropBytes hrest
    exact ⟨pre, ⟨rest, hname.symm⟩, hsize⟩
  · rintro ⟨pre, ⟨rest, hname⟩, hsize⟩
    have hdrop := dropBytes_append pre rest
    rw [hname, hsize] at hdrop
    simp [hdrop]

/-- A name that starts with the prefix can be sliced behind it. -/
lemma cutsAt_of_starts {p name : String} (h : p.toList <+: name.toList) : CutsAt p name := by
  obtain ⟨rest, hrest⟩ := h
  have hname : name = p ++ String.ofList rest := String.toList_inj.mp (by simp [← hrest])
  refine ⟨p.toList, ⟨rest, hrest⟩, ?_⟩
  rw [String.ofList_toList, hname, String.utf8ByteSize_append, min_eq_left (by omega)]

/-! ### Prefixes without wildcards -/

lemma utf8Size_toLower (c : Char) : c.toLower.utf8Size = c.utf8Size := by
  unfold Char.toLower
  split_ifs with hc
  · have hlow : 65 ≤ c.val.toNat := hc.1
    have hhigh : c.val.toNat ≤ 90 := hc.2
    have hval : (c.val + ('a'.val - 'A'.val)).toNat = (c.val.toNat + 32) % 2 ^ 32 :=
      UInt32.toNat_add _ _
    have hsmall : ∀ d : Char, d.val.toNat < 128 → d.utf8Size = 1 := by
      intro d hd
      have hle : d.val ≤ 127 := UInt32.le_iff_toNat_le.mpr (show d.val.toNat ≤ 127 by omega)
      simp [Char.utf8Size, hle]
    rw [hsmall c (by omega), hsmall _ (by simp only [hval]; omega)]
  · rfl

/-- The two cases of a letter are of the same size. -/
lemma utf8Size_of_toLower {c d : Char} (h : c.toLower = d.toLower) : c.utf8Size = d.utf8Size := by
  rw [← utf8Size_toLower c, h, utf8Size_toLower]

/-- A prefix without wildcards matches names that can be sliced behind it, in whatever case their
letters are. -/
lemma cutsAt_of_like {p name : String} (hp : ∀ c ∈ p.toList, c ≠ '%' ∧ c ≠ '_')
    (h : MetadataDb.like (p.toList ++ ['%']) name.toList = true) : CutsAt p name := by
  have hmatch : ∀ (p cs : List Char), (∀ c ∈ p, c ≠ '%' ∧ c ≠ '_') →
      MetadataDb.like (p ++ ['%']) cs = true → ∃ pre rest, cs = pre ++ rest ∧
        (String.ofList pre).utf8ByteSize = (String.ofList p).utf8ByteSize := by
    intro p
    induction p with
    | nil => exact fun cs _ _ => ⟨[], cs, rfl, rfl⟩
    | cons c p ih =>
      intro cs hp hlike
      obtain ⟨hc, hp⟩ := List.forall_mem_cons.mp hp
      cases cs with
      | nil => simp [MetadataDb.like, hc.1] at hlike
      | cons x cs =>
        simp only [List.cons_append, MetadataDb.like, if_neg hc.1, hc.2, decide_false,
          Bool.false_or, Bool.and_eq_true, decide_eq_true_eq] at hlike
        obtain ⟨pre, rest, rfl, hsize⟩ := ih cs hp hlike.2
        refine ⟨x :: pre, rest, rfl, ?_⟩
        rw [utf8ByteSize_ofList_cons, utf8ByteSize_ofList_cons, hsize, utf8Size_of_toLower hlike.1]
  obtain ⟨pre, rest, hname, hsize⟩ := hmatch p.toList name.toList hp h
  have hwhole : name = String.ofList pre ++ String.ofList rest :=
    String.toList_inj.mp (by simp [hname])
  refine ⟨pre, ⟨rest, hname.symm⟩, ?_⟩
  rw [String.ofList_toList] at hsize
  rw [hwhole, String.utf8ByteSize_append, hsize, min_eq_left (by omega)]

/-! ### Listings that return -/

section Returns

variable {w : World} {c : ContainerKey} {np : Option String}

lemma groupRows_ne_none_iff {p : String} {delim : Option String} {rows : List BlobRow} :
    groupRows p delim rows [] [] ≠ none ↔
      delim = none ∨ ∀ row ∈ rows, CutsAt p row.name := by
  cases delim with
  | none => simp [groupRows_none]
  | some d =>
    simp only [reduceCtorEq, false_or]
    constructor
    · intro h row hrow
      obtain ⟨page, hpage⟩ := Option.ne_none_iff_exists'.mp h
      exact groupPrefix_ne_none_iff.mp (aligned_of_groupRows hpage _ (List.mem_map_of_mem hrow))
    · intro h
      have haligned : Aligned p d (rows.map BlobRow.name) := by
        intro name hname
        obtain ⟨row, hrow, rfl⟩ := List.mem_map.mp hname
        exact groupPrefix_ne_none_iff.mpr (h row hrow)
      simp [groupRows_of_aligned haligned]

lemma listBlobs_ne_none_iff {delim marker : Option String} {n : UInt32} :
    ((FsBackend.listBlobs c.account c.container np delim marker n).run w).1 ≠ .ok none ↔
      (w.db.containers.lookup c).isNone = true ∨ delim = none ∨
        ∀ row ∈ (w.db.listBlobs c np marker n).1, CutsAt (np.getD "") row.name := by
  rw [← groupRows_ne_none_iff, Store.run, run_listBlobs]
  cases hc : w.db.containers.lookup c with
  | none => simp [Shelf.container, MetadataDb.getContainer, hc, Except.map]
  | some r => simp [Shelf.container, MetadataDb.getContainer, hc, Except.map]

/-- Where the names can be sliced, listings return. -/
lemma listing_returns_of_cuts (hnamed : w.db.Named) (delim : Option String)
    (h : ∀ name ∈ w.db.blobNames c, MetadataDb.listed (np.getD "") "" name = true →
      CutsAt (np.getD "") name) (marker : Option String) (n : UInt32) :
    ((FsBackend.listBlobs c.account c.container np delim marker n).run w).1 ≠ .ok none := by
  refine listBlobs_ne_none_iff.mpr (.inr (.inr fun row hrow => ?_))
  have hselected : row ∈ w.db.selectBlobs c np marker := by
    rw [MetadataDb.listBlobs_eq, MetadataDb.page] at hrow
    split_ifs at hrow
    · exact List.mem_of_mem_take hrow
    · exact hrow
  obtain ⟨hlookup, hlisted⟩ := (MetadataDb.mem_selectBlobs hnamed).mp hselected
  refine h _ (MetadataDb.mem_blobNames.mpr ⟨row, hlookup⟩) ?_
  simp only [MetadataDb.listed, Bool.and_eq_true, decide_eq_true_eq] at hlisted ⊢
  refine ⟨hlisted.1, MetadataDb.empty_lt fun hempty => ?_⟩
  rw [hempty, String.lt_iff_toList_lt] at hlisted
  exact List.not_lt_nil _ hlisted.2

/-- With a prefix in which no character is a wildcard, listings return. -/
theorem listing_returns_of_literal (hnamed : w.db.Named)
    (hp : ∀ ch ∈ (np.getD "").toList, ch ≠ '%' ∧ ch ≠ '_') (delim marker : Option String)
    (n : UInt32) :
    ((FsBackend.listBlobs c.account c.container np delim marker n).run w).1 ≠ .ok none := by
  refine listing_returns_of_cuts hnamed delim (fun name _ hlisted => ?_) marker n
  simp only [MetadataDb.listed, Bool.and_eq_true] at hlisted
  exact cutsAt_of_like hp hlisted.1

end Returns

/-! ### The partition of a page -/

/-- The delimiter occurs in a name after the prefix. -/
def Delimited (p d name : String) : Prop := d.toList <:+: name.toList.drop p.toList.length

instance (p d name : String) : Decidable (Delimited p d name) :=
  inferInstanceAs (Decidable (_ <:+: _))

/-- The virtual directory of a name: the shortest text that is made of the prefix and something that
ends with the delimiter, and that the name starts with. -/
structure IsGroup (p d name g : String) : Prop where
  ends : ∃ t, g = p ++ t ++ d
  starts : g.toList <+: name.toList
  least : ∀ t, (p ++ t ++ d).toList <+: name.toList → g.length ≤ (p ++ t ++ d).length

lemma beforeFirst_eq_none_iff {d cs : List Char} : beforeFirst d cs = none ↔ ¬ d <:+: cs := by
  induction cs with
  | nil => simp [beforeFirst]
  | cons c cs ih =>
    rw [beforeFirst, List.infix_cons_iff, not_or, ← ih]
    by_cases hd : d <+: c :: cs <;> simp [hd]

/-- What is before the first occurrence is not longer than what is before another one. -/
lemma length_beforeFirst_le {d cs b t : List Char} (h : beforeFirst d cs = some b)
    (ht : t ++ d <+: cs) : b.length ≤ t.length := by
  induction cs generalizing b t with
  | nil =>
    rw [beforeFirst] at h
    split_ifs at h
    cases h
    simp
  | cons c cs ih =>
    rw [beforeFirst] at h
    split_ifs at h with hd
    · cases h
      simp
    · obtain ⟨b', hb', rfl⟩ := Option.map_eq_some_iff.mp h
      cases t with
      | nil => exact absurd ht hd
      | cons x t =>
        rw [List.cons_append, List.cons_prefix_cons] at ht
        simpa using ih hb' ht.2

section Partition

variable {p d name g : String}

lemma groupPrefix_eq_some_none_iff (h : p.toList <+: name.toList) :
    groupPrefix p d name = some none ↔ ¬ Delimited p d name := by
  obtain ⟨rest, hrest⟩ := h
  rw [groupPrefix_of_append hrest.symm, Delimited, ← hrest, List.drop_left]
  simp [beforeFirst_eq_none_iff]

lemma isGroup_of_groupPrefix (h : p.toList <+: name.toList)
    (hg : groupPrefix p d name = some (some g)) : IsGroup p d name g := by
  refine ⟨?_, prefix_of_groupPrefix h hg, fun t ht => ?_⟩
  · obtain ⟨_, b, _, -, -, -, hparts⟩ := groupPrefix_eq_some hg
    exact ⟨String.ofList b, String.toList_inj.mp (by simp [hparts])⟩
  · obtain ⟨rest, hrest⟩ := h
    rw [groupPrefix_of_append hrest.symm] at hg
    obtain ⟨b, hb, rfl⟩ := Option.map_eq_some_iff.mp (Option.some.inj hg)
    have hle : b.length ≤ t.toList.length := by
      refine length_beforeFirst_le hb ?_
      rw [← hrest] at ht
      simpa using ht
    simpa only [String.length_append, String.length_ofList, String.length_toList,
      Nat.add_le_add_iff_left, Nat.add_le_add_iff_right] using hle

/-- Texts of which none starts with the other are in the order of what starts with them. -/
lemma lt_of_append_lt {a b r r' : List Char} (hab : ¬ a <+: b) (hba : ¬ b <+: a)
    (h : a ++ r < b ++ r') : a < b := by
  induction a generalizing b with
  | nil => simp at hab
  | cons x a ih =>
    cases b with
    | nil => simp at hba
    | cons y b =>
      rw [List.cons_append, List.cons_append, List.cons_lt_cons_iff] at h
      rw [List.cons_lt_cons_iff]
      rw [List.cons_prefix_cons, not_and] at hab hba
      exact h.imp_right fun hlt => ⟨hlt.1, ih (hab hlt.1) (hba hlt.1.symm) hlt.2⟩

/-- Virtual directories come in the order of the names in them. -/
lemma groupPrefix_le {name' g' : String} (hp : p.toList <+: name.toList)
    (hp' : p.toList <+: name'.toList) (hg : groupPrefix p d name = some (some g))
    (hg' : groupPrefix p d name' = some (some g')) (hlt : name < name') : g ≤ g' := by
  by_cases heq : g = g'
  · exact heq.le
  have hstarts := prefix_of_groupPrefix hp hg
  have hstarts' := prefix_of_groupPrefix hp' hg'
  have hab : ¬ g.toList <+: g'.toList := fun hpre =>
    heq (by simpa [hg'] using (groupPrefix_of_starts hg (hpre.trans hstarts')).symm)
  have hba : ¬ g'.toList <+: g.toList := fun hpre =>
    heq (by simpa [hg] using groupPrefix_of_starts hg' (hpre.trans hstarts))
  obtain ⟨r, hr⟩ := hstarts
  obtain ⟨r', hr'⟩ := hstarts'
  rw [String.lt_iff_toList_lt, ← hr, ← hr'] at hlt
  exact (String.lt_iff_toList_lt.mpr (lt_of_append_lt hab hba hlt)).le

/-- Of an ordered list, first occurrences are strictly ordered. -/
lemma sorted_firstSeen {seen gs : List String} (hseen : seen.Pairwise (· < ·))
    (hgs : gs.Pairwise (· ≤ ·)) (hle : ∀ s ∈ seen, ∀ g ∈ gs, s ≤ g) :
    (firstSeen seen gs).Pairwise (· < ·) := by
  induction gs generalizing seen with
  | nil => exact hseen
  | cons x gs ih =>
    rw [List.pairwise_cons] at hgs
    change (firstSeen (if seen.contains x then seen else seen ++ [x]) gs).Pairwise _
    have hrest : ∀ s ∈ seen, ∀ g ∈ gs, s ≤ g := fun s hs g hg => hle s hs g (by simp [hg])
    by_cases hx : x ∈ seen
    · rw [if_pos (by simpa using hx)]
      exact ih hseen hgs.2 hrest
    · rw [if_neg (by simpa using hx)]
      refine ih ?_ hgs.2 ?_
      · rw [List.pairwise_append]
        refine ⟨hseen, List.pairwise_singleton _ _, fun s hs y hy => ?_⟩
        rw [List.mem_singleton.mp hy]
        refine lt_of_le_of_ne (hle s hs x (by simp)) ?_
        rintro rfl
        exact hx hs
      · intro s hs g hg
        rcases List.mem_append.mp hs with hs | hs
        · exact hrest s hs g hg
        · rw [List.mem_singleton.mp hs]
          exact hgs.1 g hg

variable {rows : List BlobRow} (hbegins : ∀ row ∈ rows, p.toList <+: row.name.toList)
include hbegins

/-- What the loop makes of a page whose names start with the prefix. -/
lemma groupRows_of_prefix :
    groupRows p (some d) rows [] [] = some
      ((rows.filter fun row => ¬ Delimited p d row.name).map blobRowToProps,
        groupsOf p d (rows.map BlobRow.name)) := by
  have haligned : Aligned p d (rows.map BlobRow.name) := by
    intro name hname
    obtain ⟨row, hrow, rfl⟩ := List.mem_map.mp hname
    exact groupPrefix_ne_none_iff.mpr (cutsAt_of_starts (hbegins row hrow))
  have hfilter : (rows.filter fun row => groupPrefix p d row.name = some none) =
      rows.filter fun row => ¬ Delimited p d row.name := by
    refine List.filter_congr fun row hrow => ?_
    rw [decide_eq_decide]
    exact groupPrefix_eq_some_none_iff (hbegins row hrow)
  rw [groupRows_of_aligned haligned, hfilter]
  rfl

/-- On a page in order, the virtual directories are in order. -/
lemma sorted_groupsOf (hsorted : rows.Pairwise fun x y => x.name < y.name) :
    (groupsOf p d (rows.map BlobRow.name)).Pairwise (· < ·) := by
  refine sorted_firstSeen List.Pairwise.nil ?_ (by simp)
  rw [List.filterMap_map, List.pairwise_filterMap]
  refine hsorted.imp_of_mem fun {x y} hx hy hlt g hg g' hg' => ?_
  exact groupPrefix_le (hbegins x hx) (hbegins y hy) (by simpa [Option.join_eq_some_iff] using hg)
    (by simpa [Option.join_eq_some_iff] using hg') hlt

/-- A page of names that start with the prefix is partitioned: a name with no delimiter after the
prefix is an entry of its own, every other one is in its virtual directory and in no other, and the
virtual directories are those of the names, in order. -/
theorem grouping_partitions (hsorted : rows.Pairwise fun x y => x.name < y.name) :
    ∃ groups, groupRows p (some d) rows [] [] = some
        ((rows.filter fun row => ¬ Delimited p d row.name).map blobRowToProps, groups) ∧
      (∀ row ∈ rows, Delimited p d row.name → ∃ g ∈ groups, IsGroup p d row.name g ∧
        ∀ g' ∈ groups, g'.toList <+: row.name.toList → g' = g) ∧
      (∀ row ∈ rows, ¬ Delimited p d row.name → ∀ g ∈ groups, ¬ g.toList <+: row.name.toList) ∧
      groups.Pairwise (· < ·) ∧
      ∀ g ∈ groups, ∃ row ∈ rows, IsGroup p d row.name g := by
  have hown : ∀ row ∈ rows, ∀ g ∈ groupsOf p d (rows.map BlobRow.name),
      g.toList <+: row.name.toList → groupPrefix p d row.name = some (some g) := by
    intro row _ g hg hstarts
    obtain ⟨name, -, hname⟩ := mem_groupsOf.mp hg
    exact groupPrefix_of_starts hname hstarts
  refine ⟨_, groupRows_of_prefix hbegins, ?_, ?_, sorted_groupsOf hbegins hsorted, ?_⟩
  · intro row hrow hdelim
    have hcut := groupPrefix_ne_none_iff (d := d).mpr (cutsAt_of_starts (hbegins row hrow))
    rcases hg : groupPrefix p d row.name with _ | _ | g
    · exact absurd hg hcut
    · exact absurd hdelim ((groupPrefix_eq_some_none_iff (hbegins row hrow)).mp hg)
    · refine ⟨g, mem_groupsOf.mpr ⟨row.name, List.mem_map_of_mem hrow, hg⟩,
        isGroup_of_groupPrefix (hbegins row hrow) hg, fun g' hg' hstarts => ?_⟩
      simpa [hg, eq_comm] using hown row hrow g' hg' hstarts
  · intro row hrow hdelim g hg hstarts
    have hnone := (groupPrefix_eq_some_none_iff (hbegins row hrow)).mpr hdelim
    simp [hown row hrow g hg hstarts] at hnone
  · intro g hg
    obtain ⟨name, hname, hgroup⟩ := mem_groupsOf.mp hg
    obtain ⟨row, hrow, rfl⟩ := List.mem_map.mp hname
    exact ⟨row, hrow, isGroup_of_groupPrefix (hbegins row hrow) hgroup⟩

end Partition

/-- The row of an empty blob. -/
def sampleRow (name : String) : BlobRow :=
  MetadataDb.upsertedRow ⟨"acc", "c", name⟩
    ⟨0, none, none, ∅, "0x8DC", "Mon, 01 Jan 2024 00:00:00 GMT", name⟩ none

/-- Two blobs of one directory and one beside it. -/
theorem grouping_partitions_directory :
    ∃ groups, groupRows "" (some "/") (["a/x", "a/y", "b"].map sampleRow) [] [] = some
        ((["b"].map sampleRow).map blobRowToProps, groups) ∧ groups.Pairwise (· < ·) ∧
      ∀ g ∈ groups, ∃ row ∈ ["a/x", "a/y", "b"].map sampleRow, IsGroup "" "/" row.name g := by
  have hbegins : ∀ row ∈ ["a/x", "a/y", "b"].map sampleRow, "".toList <+: row.name.toList := by
    simp
  obtain ⟨groups, hrun, -, -, hsorted, hgroups⟩ :=
    grouping_partitions (p := "") (d := "/") hbegins (by decide +kernel)
  exact ⟨groups, hrun, hsorted, hgroups⟩

/-- A delimiter that begins within the prefix does not count: the virtual directory is not the
shortest text that the name starts with, extends the prefix and ends with the delimiter. -/
theorem grouping_overlap :
    groupRows "a/" (some "//") [sampleRow "a//b//c"] [] [] = some ([], ["a//b//"]) ∧
      "a/".toList <+: "a//".toList ∧ "//".toList <:+ "a//".toList ∧
      "a//".toList <+: "a//b//c".toList ∧ "a//".length < "a//b//".length := by
  decide +kernel

end BlobStore
