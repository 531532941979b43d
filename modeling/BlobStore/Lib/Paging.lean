import Mathlib.Data.List.Forall2
import Mathlib.Data.List.Sort

/-!
# Listings in pages

A listing is cut in pages; each page but the last names its last key, and the next page consists of
the rows after that key. Whoever follows these markers to the end has seen the pages of the whole
listing (`follow_eq`), whatever is then done with a page.
-/

namespace Paging

/-! ### Lists under partial functions -/

section Partial

variable {α β : Type} {f : α → Option β}

lemma mapM_eq_some_iff {l : List α} {r : List β} :
    l.mapM f = some r ↔ List.Forall₂ (fun x y => f x = some y) l r := by
  induction l generalizing r with
  | nil =>
    simp only [List.mapM_nil, List.forall₂_nil_left_iff]
    exact ⟨fun h => (Option.some.inj h).symm, fun h => congrArg some h.symm⟩
  | cons x l ih =>
    rw [List.mapM_cons, List.forall₂_cons_left_iff]
    constructor
    · intro h
      obtain ⟨y, hy, h⟩ := Option.bind_eq_some_iff.mp h
      obtain ⟨r', hr', h⟩ := Option.bind_eq_some_iff.mp h
      exact ⟨y, r', hy, ih.mp hr', (Option.some.inj h).symm⟩
    · rintro ⟨y, r', hy, hr', rfl⟩
      rw [hy, ih.mpr hr']
      rfl

/-- The results of a traversal stand where its elements stand. -/
lemma getElem?_of_mapM {l : List α} {r : List β} (h : l.mapM f = some r) {i : ℕ} {x : α}
    (hx : l[i]? = some x) : r[i]? = f x := by
  have hall := mapM_eq_some_iff.mp h
  clear h
  induction hall generalizing i with
  | nil => simp at hx
  | cons hy _ ih =>
    cases i with
    | zero =>
      simp only [List.getElem?_cons_zero, Option.some.injEq] at hx ⊢
      rw [← hx, hy]
    | succ i =>
      rw [List.getElem?_cons_succ] at hx ⊢
      exact ih hx

lemma exists_of_mapM {l : List α} {r : List β} (h : l.mapM f = some r) {x : α} (hx : x ∈ l) :
    ∃ y ∈ r, f x = some y := by
  have hall := mapM_eq_some_iff.mp h
  induction hall with
  | nil => simp at hx
  | cons hy hrest ih =>
    rcases List.mem_cons.mp hx with rfl | hx
    · exact ⟨_, by simp, hy⟩
    · obtain ⟨y, hy, hfy⟩ := ih (mapM_eq_some_iff.mpr hrest) hx
      exact ⟨y, by simp [hy], hfy⟩

lemma exists_of_mem_mapM {l : List α} {r : List β} (h : l.mapM f = some r) {y : β} (hy : y ∈ r) :
    ∃ x ∈ l, f x = some y := by
  have hall := mapM_eq_some_iff.mp h
  induction hall with
  | nil => simp at hy
  | cons hx hrest ih =>
    rcases List.mem_cons.mp hy with rfl | hy
    · exact ⟨_, by simp, hx⟩
    · obtain ⟨x, hx, hfx⟩ := ih (mapM_eq_some_iff.mpr hrest) hy
      exact ⟨x, by simp [hx], hfx⟩

end Partial

/-! ### Pages -/

variable {α β κ : Type}

/-- A list cut in pages of `n`; there is always a last one, possibly empty. -/
def pages (n : ℕ) (l : List α) : List (List α) :=
  if 0 < n ∧ n < l.length then l.take n :: pages n (l.drop n) else [l]
termination_by l.length
decreasing_by simp only [List.length_drop]; omega

variable {n : ℕ} {l : List α}

lemma pages_of_le (h : l.length ≤ n) : pages n l = [l] := by
  rw [pages, if_neg fun hlt => absurd hlt.2 (not_lt.mpr h)]

lemma pages_of_lt (hn : 0 < n) (h : n < l.length) :
    pages n l = l.take n :: pages n (l.drop n) := by
  rw [pages, if_pos ⟨hn, h⟩]

@[simp] lemma flatten_pages (n : ℕ) (l : List α) : (pages n l).flatten = l := by
  induction l using pages.induct n with
  | case1 l h ih => rw [pages_of_lt h.1 h.2, List.flatten_cons, ih, List.take_append_drop]
  | case2 l h =>
    rw [pages, if_neg h]
    simp

lemma length_le_of_mem_pages (hn : 0 < n) {pg : List α} (hpg : pg ∈ pages n l) :
    pg.length ≤ n := by
  induction l using pages.induct n with
  | case1 l h ih =>
    rw [pages_of_lt h.1 h.2, List.mem_cons] at hpg
    rcases hpg with rfl | hpg
    · simp
    · exact ih hpg
  | case2 l h =>
    rw [pages, if_neg h, List.mem_singleton] at hpg
    rw [hpg]
    omega

lemma mem_pages {x : α} : (∃ pg ∈ pages n l, x ∈ pg) ↔ x ∈ l := by
  rw [← List.mem_flatten, flatten_pages]

/-! ### Following markers -/

/-- Fetch page after page until there is no further marker; the number bounds the requests. -/
def follow (fetch : Option κ → Option (β × Option κ)) : ℕ → Option κ → Option (List β)
  | 0, _          => none
  | k + 1, marker =>
    match fetch marker with
    | none                 => none
    | some (page, none)    => some [page]
    | some (page, some mk) => (follow fetch k (some mk)).map (page :: ·)

variable [LinearOrder κ] {key : α → κ} {rest : Option κ → List α} {f : List α → Option β}
  {fetch : Option κ → Option (β × Option κ)}

/-- A listing is determined by its rows. -/
lemma eq_of_sorted {l' : List α} (hl : l.Pairwise fun x y => key x < key y)
    (hl' : l'.Pairwise fun x y => key x < key y) (hmem : ∀ x, x ∈ l ↔ x ∈ l') : l = l' := by
  have hnodup : ∀ {l : List α}, (l.Pairwise fun x y => key x < key y) → l.Nodup := by
    intro l h
    exact h.imp fun hlt heq => absurd (congrArg key heq) hlt.ne
  have hperm : l.Perm l' := (List.perm_ext_iff_of_nodup (hnodup hl) (hnodup hl')).mpr hmem
  exact hperm.eq_of_pairwise (fun x y _ _ hxy hyx => absurd hyx hxy.asymm) hl hl'

/-- Sorting by a key that no two rows share. -/
lemma sorted_insertionSort (h : (l.map key).Nodup) :
    (l.insertionSort fun x y => key x ≤ key y).Pairwise fun x y => key x < key y := by
  have hle := List.pairwise_insertionSort (fun x y => key x ≤ key y) l
  have hne : (l.insertionSort fun x y => key x ≤ key y).Pairwise fun x y => key x ≠ key y := by
    rw [List.Nodup, List.pairwise_map] at h
    exact (List.perm_insertionSort _ l).symm.pairwise h Ne.symm
  exact (hle.and hne).imp fun h => lt_of_le_of_ne h.1 h.2

/-- The rows after the last one of a page are those that the page leaves out. -/
lemma filter_lt_eq_drop (hl : l.Pairwise fun x y => key x < key y) {x : α}
    (hx : (l.take n).getLast? = some x) : (l.filter fun y => key x < key y) = l.drop n := by
  have hsplit := List.pairwise_append.mp ((List.take_append_drop n l).symm ▸ hl)
  obtain ⟨init, hinit⟩ := List.getLast?_eq_some_iff.mp hx
  have hmem : x ∈ l.take n := List.mem_of_getLast? hx
  have hbefore : (l.take n).filter (fun y => key x < key y) = [] := by
    rw [List.filter_eq_nil_iff]
    intro y hy
    have hle : key y ≤ key x := by
      rw [hinit, List.mem_append, List.mem_singleton] at hy
      have hpair := hsplit.1
      rw [hinit] at hpair
      rcases hy with hy | rfl
      · exact ((List.pairwise_append.mp hpair).2.2 y hy x (by simp)).le
      · exact le_rfl
    simpa using hle
  have hafter : (l.drop n).filter (fun y => key x < key y) = l.drop n := by
    rw [List.filter_eq_self]
    intro y hy
    simpa using hsplit.2.2 x hmem y hy
  calc l.filter (fun y => key x < key y)
      = (l.take n ++ l.drop n).filter (fun y => key x < key y) := by rw [List.take_append_drop]
    _ = l.drop n := by rw [List.filter_append, hbefore, hafter, List.nil_append]

/-- How a listing is served: its first `n` rows, and the key of the last one if more are left. -/
structure Serves (key : α → κ) (n : ℕ) (rest : Option κ → List α) (f : List α → Option β)
    (fetch : Option κ → Option (β × Option κ)) : Prop where
  pos : 0 < n
  sorted : ∀ marker, (rest marker).Pairwise fun x y => key x < key y
  after : ∀ marker, ∀ x ∈ rest marker,
    rest (some (key x)) = (rest marker).filter fun y => key x < key y
  last : ∀ marker, (rest marker).length ≤ n →
    fetch marker = (f (rest marker)).map fun page => (page, none)
  more : ∀ marker, n < (rest marker).length → ∃ x, ((rest marker).take n).getLast? = some x ∧
    fetch marker = (f ((rest marker).take n)).map fun page => (page, some (key x))

/-- Whoever follows the markers to the end has seen the pages of the whole listing. -/
lemma Serves.follow_sound (h : Serves key n rest f fetch) {k : ℕ} {marker : Option κ}
    {r : List β} (hr : follow fetch k marker = some r) :
    (pages n (rest marker)).mapM f = some r := by
  induction k generalizing marker r with
  | zero => simp [follow] at hr
  | succ k ih =>
    by_cases hlen : (rest marker).length ≤ n
    · rw [pages_of_le hlen]
      rw [follow, h.last marker hlen] at hr
      cases hpage : f (rest marker) with
      | none => simp [hpage] at hr
      | some page =>
        simp only [hpage, Option.map_some, Option.some.injEq] at hr
        simp [← hr, hpage]
    · push Not at hlen
      obtain ⟨x, hx, hfetch⟩ := h.more marker hlen
      have hnext : rest (some (key x)) = (rest marker).drop n := by
        rw [h.after marker x (List.mem_of_mem_take (List.mem_of_getLast? hx)),
          filter_lt_eq_drop (h.sorted marker) hx]
      rw [pages_of_lt h.pos hlen, ← hnext]
      rw [follow, hfetch] at hr
      cases hpage : f ((rest marker).take n) with
      | none => simp [hpage] at hr
      | some page =>
        simp only [hpage, Option.map_some, Option.map_eq_some_iff] at hr
        obtain ⟨r', hr', rfl⟩ := hr
        simp [hpage, ih hr']

/-- There are no more pages than rows. -/
lemma Serves.follow_complete (h : Serves key n rest f fetch) {k : ℕ} {marker : Option κ}
    {r : List β} (hr : (pages n (rest marker)).mapM f = some r) (hk : (rest marker).length < k) :
    follow fetch k marker = some r := by
  induction k generalizing marker r with
  | zero => omega
  | succ k ih =>
    by_cases hlen : (rest marker).length ≤ n
    · rw [pages_of_le hlen] at hr
      rw [follow, h.last marker hlen]
      cases hpage : f (rest marker) with
      | none => simp [hpage] at hr
      | some page =>
        simp only [List.mapM_cons, hpage, List.mapM_nil] at hr
        simpa using hr
    · push Not at hlen
      obtain ⟨x, hx, hfetch⟩ := h.more marker hlen
      have hnext : rest (some (key x)) = (rest marker).drop n := by
        rw [h.after marker x (List.mem_of_mem_take (List.mem_of_getLast? hx)),
          filter_lt_eq_drop (h.sorted marker) hx]
      rw [pages_of_lt h.pos hlen, ← hnext, List.mapM_cons] at hr
      obtain ⟨page, hpage, hr⟩ := Option.bind_eq_some_iff.mp hr
      obtain ⟨r', hr', hr⟩ := Option.bind_eq_some_iff.mp hr
      have hshort : (rest (some (key x))).length < k := by
        rw [hnext, List.length_drop]
        have := h.pos
        omega
      rw [follow, hfetch, hpage, Option.map_some]
      dsimp only
      rw [ih hr' hshort]
      exact hr

/-! ### Listings that change -/

/-- Pages fetched one after another, each by the marker that came with the one before, with changes
in between. -/
inductive Walk {σ : Type} (fetch : σ → Option κ → Option (List β × Option κ))
    (Change : σ → σ → Prop) : σ → Option κ → List (σ × List β) → Prop where
  | last {s : σ} {marker : Option κ} {page : List β} (h : fetch s marker = some (page, none)) :
      Walk fetch Change s marker [(s, page)]
  | more {s s' : σ} {marker : Option κ} {mk : κ} {page : List β} {pages : List (σ × List β)}
      (h : fetch s marker = some (page, some mk)) (hchange : Change s s')
      (hrest : Walk fetch Change s' (some mk) pages) :
      Walk fetch Change s marker ((s, page) :: pages)

/-- In every state that can be met, a listing is served in pages; its entries have the keys of the
rows. -/
structure Lists {σ : Type} (key : α → κ) (name : β → κ) (g : α → β) (n : ℕ) (valid : σ → Prop)
    (rest : σ → Option κ → List α) (fetch : σ → Option κ → Option (List β × Option κ)) : Prop where
  serves : ∀ s, valid s → Serves key n (rest s) (fun rows => some (rows.map g)) (fetch s)
  above : ∀ s m, valid s → ∀ x ∈ rest s (some m), m < key x
  name : ∀ x, name (g x) = key x

section Changing

variable {σ : Type} {name : β → κ} {g : α → β} {valid : σ → Prop} {rest : σ → Option κ → List α}
  {fetch : σ → Option κ → Option (List β × Option κ)} {Change : σ → σ → Prop} {s : σ}
  {marker : Option κ} {page : List β} {pgs : List (σ × List β)}

lemma Lists.last (h : Lists key name g n valid rest fetch) (hs : valid s)
    (hpage : fetch s marker = some (page, none)) :
    (rest s marker).length ≤ n ∧ page = (rest s marker).map g := by
  by_cases hlen : (rest s marker).length ≤ n
  · rw [(h.serves s hs).last marker hlen] at hpage
    cases hpage
    exact ⟨hlen, rfl⟩
  · obtain ⟨x, -, hx⟩ := (h.serves s hs).more marker (not_le.mp hlen)
    rw [hx] at hpage
    cases hpage

lemma Lists.more (h : Lists key name g n valid rest fetch) (hs : valid s) {mk : κ}
    (hpage : fetch s marker = some (page, some mk)) :
    n < (rest s marker).length ∧ page = ((rest s marker).take n).map g ∧
      ∃ x, ((rest s marker).take n).getLast? = some x ∧ mk = key x := by
  by_cases hlen : (rest s marker).length ≤ n
  · rw [(h.serves s hs).last marker hlen] at hpage
    cases hpage
  · obtain ⟨x, hx, hfetch⟩ := (h.serves s hs).more marker (not_le.mp hlen)
    rw [hfetch] at hpage
    cases hpage
    exact ⟨not_le.mp hlen, rfl, x, hx, rfl⟩

lemma Lists.map_name (h : Lists key name g n valid rest fetch) (rows : List α) :
    (rows.map g).map name = rows.map key := by
  rw [List.map_map]
  exact List.map_congr_left fun x _ => h.name x

lemma Lists.after_marker (h : Lists key name g n valid rest fetch) (hs : valid s) {x : α}
    (hx : x ∈ rest s marker) : ∀ m ∈ marker, m < key x := by
  rintro m rfl
  exact h.above s m hs x hx

/-- No page is longer than it may be. -/
lemma Walk.length_le (h : Lists key name g n valid rest fetch)
    (hstays : ∀ s s', valid s → Change s s' → valid s')
    (hwalk : Walk fetch Change s marker pgs) (hs : valid s) : ∀ pg ∈ pgs, pg.2.length ≤ n := by
  induction hwalk with
  | last hpage =>
    obtain ⟨hlen, rfl⟩ := h.last hs hpage
    simpa using hlen
  | more hpage hchange _ ih =>
    obtain ⟨-, rfl, -⟩ := h.more hs hpage
    rw [List.forall_mem_cons]
    exact ⟨by simp, ih (hstays _ _ hs hchange)⟩

/-- The keys of all pages increase, and come after the marker of the first. -/
lemma Walk.sorted (h : Lists key name g n valid rest fetch)
    (hstays : ∀ s s', valid s → Change s s' → valid s')
    (hwalk : Walk fetch Change s marker pgs) (hs : valid s) :
    ((pgs.flatMap Prod.snd).map name).Pairwise (· < ·) ∧
      ∀ k ∈ (pgs.flatMap Prod.snd).map name, ∀ m ∈ marker, m < k := by
  induction hwalk with
  | @last s marker page hpage =>
    obtain ⟨-, rfl⟩ := h.last hs hpage
    simp only [List.flatMap_cons, List.flatMap_nil, List.append_nil, h.map_name]
    refine ⟨List.pairwise_map.mpr ((h.serves s hs).sorted marker), ?_⟩
    intro k hk
    obtain ⟨x, hx, rfl⟩ := List.mem_map.mp hk
    exact h.after_marker hs hx
  | @more s s' marker mk page pgs hpage hchange _ ih =>
    obtain ⟨-, rfl, x, hx, rfl⟩ := h.more hs hpage
    obtain ⟨hsorted, hafter⟩ := ih (hstays _ _ hs hchange)
    have htake := ((h.serves s hs).sorted marker).sublist (List.take_sublist n _)
    simp only [List.flatMap_cons, List.map_append, h.map_name]
    constructor
    · refine List.pairwise_append.mpr ⟨List.pairwise_map.mpr htake, hsorted, ?_⟩
      intro k hk k' hk'
      obtain ⟨y, hy, rfl⟩ := List.mem_map.mp hk
      -- the last key of the page is the largest one on it
      have hle : key y ≤ key x := by
        obtain ⟨init, hinit⟩ := List.getLast?_eq_some_iff.mp hx
        rw [hinit] at htake hy
        rcases List.mem_append.mp hy with hy | hy
        · exact ((List.pairwise_append.mp htake).2.2 y hy x (by simp)).le
        · rw [List.mem_singleton.mp hy]
      exact hle.trans_lt (hafter k' hk' _ rfl)
    · intro k hk m hm
      have hlast : m < key x :=
        h.after_marker hs (List.mem_of_mem_take (List.mem_of_getLast? hx)) m hm
      rcases List.mem_append.mp hk with hk | hk
      · obtain ⟨y, hy, rfl⟩ := List.mem_map.mp hk
        exact h.after_marker hs (List.mem_of_mem_take hy) m hm
      · exact hlast.trans (hafter k hk _ rfl)

/-- A key that is there whenever a page is fetched is on one of the pages. -/
lemma Walk.mem (h : Lists key name g n valid rest fetch)
    (hstays : ∀ s s', valid s → Change s s' → valid s')
    (hwalk : Walk fetch Change s marker pgs) (hs : valid s) {k : κ} {P : σ → Prop}
    (hP : ∀ s marker, valid s → P s → (∀ m ∈ marker, m < k) → ∃ x ∈ rest s marker, key x = k)
    (hthere : ∀ pg ∈ pgs, P pg.1) (hk : ∀ m ∈ marker, m < k) :
    k ∈ (pgs.flatMap Prod.snd).map name := by
  induction hwalk with
  | @last s marker page hpage =>
    obtain ⟨-, rfl⟩ := h.last hs hpage
    obtain ⟨x, hx, rfl⟩ := hP s marker hs (hthere _ (List.mem_singleton_self _)) hk
    simp only [List.flatMap_cons, List.flatMap_nil, List.append_nil, h.map_name]
    exact List.mem_map_of_mem hx
  | @more s s' marker mk page pgs hpage hchange _ ih =>
    obtain ⟨-, rfl, x, hx, rfl⟩ := h.more hs hpage
    rw [List.forall_mem_cons] at hthere
    obtain ⟨y, hy, rfl⟩ := hP s marker hs hthere.1 hk
    simp only [List.flatMap_cons, List.map_append, h.map_name, List.mem_append]
    by_cases hle : key y ≤ key x
    · refine .inl (List.mem_map_of_mem ?_)
      have hfilter := filter_lt_eq_drop ((h.serves s hs).sorted marker) hx
      rw [← List.take_append_drop n (rest s marker), List.mem_append, ← hfilter] at hy
      rcases hy with hy | hy
      · exact hy
      · simp only [List.mem_filter, decide_eq_true_eq] at hy
        exact absurd hy.2 (not_lt.mpr hle)
    · refine .inr (ih (hstays _ _ hs hchange) hthere.2 ?_)
      rintro m ⟨⟩
      exact not_le.mp hle

end Changing

end Paging
