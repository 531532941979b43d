import Mathlib.Data.List.AList
import Mathlib.Data.List.Sort

/-!
# Keyed tables

A table with a primary key is an association list without duplicate keys (`AList`). Besides the
lookup and the insertion of the library it has the bulk statement of a query language: delete
every row whose key satisfies a condition.
-/

/-- Rows of type `ρ` under a primary key of type `κ`. -/
abbrev Table (κ ρ : Type) := AList (fun _ : κ => ρ)

namespace Table

variable {κ ρ : Type} [DecidableEq κ]

/-- The comparison of the library is stated with casts and does not compute. -/
instance [DecidableEq ρ] : DecidableEq (Table κ ρ) := fun s t =>
  decidable_of_iff (s.entries = t.entries) ⟨AList.ext, congrArg AList.entries⟩

/-- Delete the rows whose key satisfies `p`. -/
def deleteWhere (p : κ → Bool) (t : Table κ ρ) : Table κ ρ where
  entries  := t.entries.filter fun e => !p e.1
  nodupKeys := List.NodupKeys.sublist List.filter_sublist t.nodupKeys

/-- The rows whose key satisfies `p`. -/
def selectWhere (p : κ → Bool) (t : Table κ ρ) : List (κ × ρ) :=
  (t.entries.filter fun e => p e.1).map fun e => (e.1, e.2)

/-- Replace the row under `k`, if there is one. -/
def modify (k : κ) (f : ρ → ρ) (t : Table κ ρ) : Table κ ρ :=
  match t.lookup k with
  | some r => t.insert k (f r)
  | none   => t

lemma lookup_deleteWhere (p : κ → Bool) (t : Table κ ρ) (k : κ) :
    (t.deleteWhere p).lookup k = if p k then none else t.lookup k := by
  ext r
  change r ∈ AList.lookup k (t.deleteWhere p) ↔ r ∈ (if p k then none else AList.lookup k t)
  rw [AList.mem_lookup_iff]
  split_ifs with hp
  · simp [deleteWhere, hp]
  · rw [AList.mem_lookup_iff]
    simp [deleteWhere, hp]

@[simp] lemma lookup_deleteWhere_of_pos {p : κ → Bool} {k : κ} (h : p k = true) (t : Table κ ρ) :
    (t.deleteWhere p).lookup k = none := by
  rw [lookup_deleteWhere, if_pos h]

@[simp] lemma lookup_deleteWhere_of_neg {p : κ → Bool} {k : κ} (h : p k = false)
    (t : Table κ ρ) : (t.deleteWhere p).lookup k = t.lookup k := by
  rw [lookup_deleteWhere, if_neg (by simp [h])]

lemma lookup_insert_eq (k k' : κ) (r : ρ) (t : Table κ ρ) :
    (AList.insert k r t).lookup k' = if k' = k then some r else t.lookup k' := by
  split_ifs with h
  · subst h
    exact AList.lookup_insert t
  · exact AList.lookup_insert_ne h

lemma lookup_erase_eq (k k' : κ) (t : Table κ ρ) :
    (AList.erase k t).lookup k' = if k' = k then none else t.lookup k' := by
  split_ifs with h
  · subst h
    exact AList.lookup_erase k' t
  · exact AList.lookup_erase_ne h

@[simp] lemma lookup_modify_self (k : κ) (f : ρ → ρ) (t : Table κ ρ) :
    (t.modify k f).lookup k = (t.lookup k).map f := by
  unfold modify
  cases h : t.lookup k with
  | none => exact h
  | some r => exact AList.lookup_insert t

lemma lookup_modify_ne {k k' : κ} (h : k' ≠ k) (f : ρ → ρ) (t : Table κ ρ) :
    (t.modify k f).lookup k' = t.lookup k' := by
  unfold modify
  split
  · exact AList.lookup_insert_ne h
  · rfl

lemma isSome_lookup_modify (k k' : κ) (f : ρ → ρ) (t : Table κ ρ) :
    ((t.modify k f).lookup k').isSome = (t.lookup k').isSome := by
  by_cases hk : k' = k
  · subst hk
    simp
  · rw [Table.lookup_modify_ne hk]

lemma lookup_of_lookup_deleteWhere {p : κ → Bool} {t : Table κ ρ} {k : κ} {r : ρ}
    (h : (t.deleteWhere p).lookup k = some r) : t.lookup k = some r := by
  rw [Table.lookup_deleteWhere] at h
  split_ifs at h
  exact h

lemma lookup_of_lookup_erase {t : Table κ ρ} {k k' : κ} {r : ρ}
    (h : (AList.erase k' t).lookup k = some r) : t.lookup k = some r := by
  by_cases hk : k = k'
  · subst hk
    rw [AList.lookup_erase] at h
    cases h
  · rwa [AList.lookup_erase_ne hk] at h

lemma isSome_lookup_insert (k k' : κ) (r : ρ) (t : Table κ ρ) :
    ((AList.insert k r t).lookup k').isSome = true ↔ k' = k ∨ (t.lookup k').isSome = true := by
  rw [lookup_insert_eq]
  split_ifs with hk <;> simp [hk]

lemma isSome_lookup_deleteWhere {p : κ → Bool} {t : Table κ ρ} {k : κ} :
    ((t.deleteWhere p).lookup k).isSome = true ↔ p k = false ∧ (t.lookup k).isSome = true := by
  rw [lookup_deleteWhere]
  cases p k <;> simp

lemma isSome_lookup_erase {t : Table κ ρ} {k k' : κ} :
    ((AList.erase k' t).lookup k).isSome = true ↔ k ≠ k' ∧ (t.lookup k).isSome = true := by
  by_cases hk : k = k'
  · subst hk
    simp
  · rw [AList.lookup_erase_ne hk]
    simp [hk]

lemma mem_selectWhere {p : κ → Bool} {t : Table κ ρ} {k : κ} {r : ρ} :
    (k, r) ∈ t.selectWhere p ↔ p k = true ∧ t.lookup k = some r := by
  have hlookup : t.lookup k = some r ↔ (⟨k, r⟩ : Sigma fun _ : κ => ρ) ∈ t.entries :=
    AList.mem_lookup_iff
  rw [hlookup]
  simp only [selectWhere, List.mem_map, List.mem_filter, Prod.mk.injEq]
  constructor
  · rintro ⟨⟨k', r'⟩, ⟨hmem, hp⟩, rfl, rfl⟩
    exact ⟨hp, hmem⟩
  · rintro ⟨hp, hmem⟩
    exact ⟨⟨k, r⟩, ⟨hmem, hp⟩, rfl, rfl⟩

omit [DecidableEq κ] in
/-- Selected rows have different keys. -/
lemma nodup_keys_selectWhere (p : κ → Bool) (t : Table κ ρ) :
    ((t.selectWhere p).map Prod.fst).Nodup := by
  have hkeys : (t.entries.map Sigma.fst).Nodup := t.nodupKeys
  rw [selectWhere, List.map_map]
  exact hkeys.sublist (List.filter_sublist.map Sigma.fst)

/-! ### Rows in an order

Rows are selected in the order of a column and shown through a function that tells them apart.
-/

lemma eq_of_map_eq {α β : Type} {f : α → β} {l l' : List α}
    (hf : ∀ a ∈ l, ∀ b ∈ l', f a = f b → a = b) (h : l.map f = l'.map f) : l = l' := by
  induction l generalizing l' with
  | nil =>
    cases l' with
    | nil => rfl
    | cons b l' => cases h
  | cons a l ih =>
    cases l' with
    | nil => cases h
    | cons b l' =>
      obtain ⟨hhead, htail⟩ := List.cons.inj h
      rw [hf a List.mem_cons_self b List.mem_cons_self hhead, ih ?_ htail]
      intro x hx y hy
      exact hf x (List.mem_cons_of_mem a hx) y (List.mem_cons_of_mem b hy)

/-- Rows that the column tells apart are shown as in a list of them if that list is in order. -/
lemma map_insertionSort_eq_iff {α β γ : Type} [LinearOrder γ] {g : α → γ}
    [DecidableRel fun x y => g x ≤ g y] {f : α → β} {rows l : List α} (hperm : rows.Perm l)
    (hf : ∀ a ∈ l, ∀ b ∈ l, f a = f b → a = b) (hg : ∀ a ∈ l, ∀ b ∈ l, g a = g b → a = b) :
    (rows.insertionSort fun x y => g x ≤ g y).map f = l.map f ↔
      l.Pairwise fun x y => g x ≤ g y := by
  have : Std.Total fun x y => g x ≤ g y := ⟨fun x y => le_total (g x) (g y)⟩
  have : IsTrans α fun x y => g x ≤ g y := ⟨fun _ _ _ => le_trans⟩
  set sorted := rows.insertionSort fun x y => g x ≤ g y
  have hsort : sorted.Perm l := (List.perm_insertionSort _ rows).trans hperm
  have hpair : sorted.Pairwise fun x y => g x ≤ g y := List.pairwise_insertionSort _ rows
  constructor
  · intro h
    rwa [← eq_of_map_eq (fun a ha b hb => hf a (hsort.subset ha) b hb) h]
  · intro h
    congr 1
    refine hsort.eq_of_pairwise (fun a b ha hb hab hba => ?_) hpair h
    exact hg a (hsort.subset ha) b hb (le_antisymm hab hba)

/-! ### Parts of a table

Some keys have a name, and names determine keys. The named rows of a table, seen through a function
of the row, can be compared with those of another table whose keys are of another kind. -/

section Part

variable {ι σ : Type} [DecidableEq ι] {f : κ → Option ι} {g : ρ → σ}

/-- The rows whose keys have a name, under that name, seen through `g`. -/
def part (f : κ → Option ι) (g : ρ → σ) (t : Table κ ρ) : List (ι × σ) :=
  t.entries.filterMap fun e => (f e.1).map fun i => (i, g e.2)

/-- Keys of one name are equal. -/
def Names (f : κ → Option ι) : Prop := ∀ ⦃k k' i⦄, f k = some i → f k' = some i → k = k'

lemma lookup_part (hf : Names f) (t : Table κ ρ) {k : κ} {i : ι} (hk : f k = some i) :
    (t.lookup k).map g = ((t.part f g).find? fun e => e.1 = i).map Prod.snd := by
  have hentries : ∀ l : List (Sigma fun _ : κ => ρ), (l.dlookup k).map g =
      ((l.filterMap fun e => (f e.1).map fun i => (i, g e.2)).find? fun e => e.1 = i).map
        Prod.snd := by
    intro l
    induction l with
    | nil => rfl
    | cons e l ih =>
      obtain ⟨k', r⟩ := e
      by_cases hkk : k = k'
      · subst hkk
        simp [hk]
      · rw [List.dlookup_cons_ne _ _ hkk, ih]
        cases hk' : f k' with
        | none => simp [hk']
        | some j =>
          have hj : j ≠ i := by
            rintro rfl
            exact hkk (hf hk hk')
          simp [hk', hj]
  exact hentries t.entries

lemma part_kerase (hf : Names f) {k : κ} {i : ι} (hk : f k = some i)
    {l : List (Sigma fun _ : κ => ρ)} (hl : l.NodupKeys) :
    (l.kerase k).filterMap (fun e => (f e.1).map fun i => (i, g e.2)) =
      (l.filterMap fun e => (f e.1).map fun i => (i, g e.2)).filter fun e => e.1 ≠ i := by
  induction l with
  | nil => rfl
  | cons e l ih =>
    obtain ⟨k', r⟩ := e
    obtain ⟨hnot, hl⟩ := List.nodupKeys_cons.mp hl
    by_cases hkk : k = k'
    · subst hkk
      have hhead : List.kerase k (⟨k, r⟩ :: l) = l := List.kerase_cons_eq rfl
      rw [hhead, List.filterMap_cons_some (b := (i, g r)) (by simp [hk]),
        List.filter_cons_of_neg (by simp), List.filter_eq_self.mpr]
      intro e he
      obtain ⟨⟨k', r'⟩, hmem, hname⟩ := List.mem_filterMap.mp he
      obtain ⟨j, hj, rfl⟩ := Option.map_eq_some_iff.mp hname
      have hne : j ≠ i := by
        rintro rfl
        have hkey : k' ∈ l.keys := List.mem_keys_of_mem hmem
        have hkk : k = k' := hf hk hj
        exact hnot (hkk ▸ hkey)
      simpa using hne
    · have htail : List.kerase k (⟨k', r⟩ :: l) = ⟨k', r⟩ :: List.kerase k l :=
        List.kerase_cons_ne hkk
      rw [htail]
      cases hk' : f k' with
      | none => simpa [hk'] using ih hl
      | some j =>
        have hj : j ≠ i := by
          rintro rfl
          exact hkk (hf hk hk')
        simpa [hk', hj] using ih hl

lemma part_insert (hf : Names f) (t : Table κ ρ) {k : κ} {i : ι} (hk : f k = some i) (r : ρ) :
    Table.part f g (AList.insert k r t) = (i, g r) :: (t.part f g).filter fun e => e.1 ≠ i := by
  rw [part, AList.entries_insert, List.filterMap_cons_some (b := (i, g r)) (by simp [hk]),
    part_kerase hf hk t.nodupKeys]
  rfl

omit [DecidableEq κ] [DecidableEq ι] in
/-- Deleting named rows by their names. -/
lemma part_deleteWhere {p : κ → Bool} {q : ι → Bool} (h : ∀ k i, f k = some i → p k = q i)
    (t : Table κ ρ) : (t.deleteWhere p).part f g = (t.part f g).filter fun e => !q e.1 := by
  have hentries : ∀ l : List (Sigma fun _ : κ => ρ),
      (l.filter fun e => !p e.1).filterMap (fun e => (f e.1).map fun i => (i, g e.2)) =
        (l.filterMap fun e => (f e.1).map fun i => (i, g e.2)).filter fun e => !q e.1 := by
    intro l
    induction l with
    | nil => rfl
    | cons e l ih =>
      obtain ⟨k, r⟩ := e
      cases hk : f k with
      | none => by_cases hp : p k <;> simpa [hk, hp] using ih
      | some i => by_cases hp : p k <;> simpa [hk, hp, ← h k i hk] using ih
  exact hentries t.entries

end Part

end Table
