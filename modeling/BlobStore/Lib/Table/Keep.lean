import BlobStore.Lib.Table

/-!
# Tables cut down to some of their keys

`keep p` drops the rows whose key does not satisfy `p`, and leaves the others in their order. A
statement about a key that is kept does the same before and after; one about another key is not seen.
-/

namespace Table

variable {κ ρ : Type}

/-- The rows whose key satisfies `p`. -/
def keep (p : κ → Bool) (t : Table κ ρ) : Table κ ρ where
  entries   := t.entries.filter fun e => p e.1
  nodupKeys := List.NodupKeys.sublist List.filter_sublist t.nodupKeys

variable {p q : κ → Bool} {t : Table κ ρ} {k : κ}

/-- Selecting among rows that are kept. -/
lemma selectWhere_keep (h : ∀ k, q k = true → p k = true) (t : Table κ ρ) :
    (t.keep p).selectWhere q = t.selectWhere q := by
  unfold selectWhere keep
  dsimp only
  rw [List.filter_filter]
  congr 2
  funext e
  cases hq : q e.1 with
  | true => simp [h e.1 hq]
  | false => simp

lemma keep_deleteWhere (q : κ → Bool) (t : Table κ ρ) :
    (t.deleteWhere q).keep p = (t.keep p).deleteWhere q := by
  refine AList.ext ?_
  change (t.entries.filter fun e => !q e.1).filter (fun e => p e.1) =
    (t.entries.filter fun e => p e.1).filter fun e => !q e.1
  rw [List.filter_filter, List.filter_filter]
  congr 1
  funext e
  exact Bool.and_comm _ _

lemma keep_deleteWhere_of_not (h : ∀ k, q k = true → p k = false) (t : Table κ ρ) :
    (t.deleteWhere q).keep p = t.keep p := by
  refine AList.ext ?_
  change (t.entries.filter fun e => !q e.1).filter (fun e => p e.1) = t.entries.filter fun e => p e.1
  rw [List.filter_filter]
  congr 1
  funext e
  cases hq : q e.1 with
  | true => simp [h e.1 hq]
  | false => simp

variable [DecidableEq κ]

lemma lookup_keep (hk : p k = true) (t : Table κ ρ) : (t.keep p).lookup k = t.lookup k := by
  ext r
  rw [← Option.mem_def, ← Option.mem_def, AList.mem_lookup_iff, AList.mem_lookup_iff]
  simp [keep, hk]

/-- Erasing a row before and after others are dropped. -/
lemma kerase_filter (p : κ → Bool) (k : κ) (l : List (Sigma fun _ : κ => ρ)) :
    (l.kerase k).filter (fun e => p e.1) =
      if p k then (l.filter fun e => p e.1).kerase k else l.filter fun e => p e.1 := by
  induction l with
  | nil => simp
  | cons e l ih =>
    obtain ⟨k', r⟩ := e
    by_cases hkk : k = k'
    · subst hkk
      have hhead : ∀ l : List (Sigma fun _ : κ => ρ), List.kerase k (⟨k, r⟩ :: l) = l :=
        fun l => List.kerase_cons_eq rfl
      rw [hhead, List.filter_cons]
      cases p k with
      | true => simp [hhead]
      | false => simp
    · have htail : ∀ l : List (Sigma fun _ : κ => ρ),
          List.kerase k (⟨k', r⟩ :: l) = ⟨k', r⟩ :: List.kerase k l :=
        fun l => List.kerase_cons_ne hkk
      rw [htail, List.filter_cons, List.filter_cons, ih]
      cases p k' with
      | true => cases p k <;> simp [htail]
      | false => rfl

lemma keep_erase (hk : p k = true) (t : Table κ ρ) :
    Table.keep p (AList.erase k t) = AList.erase k (t.keep p) := by
  refine AList.ext ?_
  change (t.entries.kerase k).filter (fun e => p e.1) = (t.entries.filter fun e => p e.1).kerase k
  rw [kerase_filter p k t.entries, if_pos hk]

lemma keep_erase_of_not (hk : p k = false) (t : Table κ ρ) :
    Table.keep p (AList.erase k t) = t.keep p := by
  refine AList.ext ?_
  change (t.entries.kerase k).filter (fun e => p e.1) = t.entries.filter fun e => p e.1
  rw [kerase_filter p k t.entries, if_neg (by simp [hk])]

lemma keep_insert (hk : p k = true) (r : ρ) (t : Table κ ρ) :
    Table.keep p (AList.insert k r t) = AList.insert k r (t.keep p) := by
  refine AList.ext ?_
  change (AList.insert k r t).entries.filter (fun e => p e.1) = (AList.insert k r (t.keep p)).entries
  rw [AList.entries_insert, AList.entries_insert, List.filter_cons, if_pos hk, kerase_filter,
    if_pos hk]
  rfl

lemma keep_insert_of_not (hk : p k = false) (r : ρ) (t : Table κ ρ) :
    Table.keep p (AList.insert k r t) = t.keep p := by
  refine AList.ext ?_
  change (AList.insert k r t).entries.filter (fun e => p e.1) = t.entries.filter fun e => p e.1
  rw [AList.entries_insert, List.filter_cons, if_neg (by simp [hk]), kerase_filter,
    if_neg (by simp [hk])]

lemma keep_modify (hk : p k = true) (f : ρ → ρ) (t : Table κ ρ) :
    (t.modify k f).keep p = (t.keep p).modify k f := by
  unfold modify
  rw [lookup_keep hk]
  cases t.lookup k with
  | none => rfl
  | some r => exact keep_insert hk (f r) t

lemma keep_modify_of_not (hk : p k = false) (f : ρ → ρ) (t : Table κ ρ) :
    (t.modify k f).keep p = t.keep p := by
  unfold modify
  cases t.lookup k with
  | none => rfl
  | some r => exact keep_insert_of_not hk (f r) t

end Table
