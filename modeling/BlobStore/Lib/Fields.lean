import BlobStore.Lib.Text
import Mathlib.Algebra.GroupWithZero.Nat
import Mathlib.Data.List.TakeWhile

/-!
# Texts made of fields

Fields joined with a separator can be told apart again if they are known not to contain it, and it
is enough to know this of one of two texts with as many fields: a text that has a separator inside a
field has too many of them. `cut` takes the first field off a text.
-/

namespace Text

/-! ### Joining -/

section Joining

variable {α : Type} [DecidableEq α] {c : α}

/-- One separator between two fields, and those inside them. -/
lemma count_intercalate (x : List α) (xs : List (List α)) :
    ([c].intercalate (x :: xs)).count c = xs.length + ((x :: xs).map (List.count c)).sum := by
  induction xs generalizing x with
  | nil => simp
  | cons y ys ih =>
    rw [List.intercalate_cons_cons, List.count_append, List.count_append, ih y]
    simp only [List.count_singleton_self, List.length_cons, List.map_cons, List.sum_cons]
    omega

/-- As many fields, and no separator inside those of one side: none inside those of the other. -/
lemma not_mem_of_intercalate {xs ys : List (List α)} (hlen : xs.length = ys.length)
    (hxs : ∀ x ∈ xs, c ∉ x) (h : [c].intercalate xs = [c].intercalate ys) : ∀ y ∈ ys, c ∉ y := by
  cases xs with
  | nil =>
    rw [List.length_nil, eq_comm, List.length_eq_zero_iff] at hlen
    simp [hlen]
  | cons x xs =>
    cases ys with
    | nil => cases hlen
    | cons y ys =>
      have hzero : ((x :: xs).map (List.count c)).sum = 0 := by
        rw [List.sum_eq_zero_iff_forall_eq_nat]
        intro n hn
        obtain ⟨z, hz, rfl⟩ := List.mem_map.mp hn
        exact List.count_eq_zero.mpr (hxs z hz)
      have hcount := congrArg (List.count c) h
      rw [count_intercalate, count_intercalate, hzero] at hcount
      have hlen' : xs.length = ys.length := by simpa using hlen
      have hzero' : ((y :: ys).map (List.count c)).sum = 0 := by omega
      rw [List.sum_eq_zero_iff_forall_eq_nat] at hzero'
      intro z hz
      exact List.count_eq_zero.mp (hzero' _ (List.mem_map_of_mem hz))

lemma eq_of_intercalate {xs ys : List (List α)} (hlen : xs.length = ys.length)
    (hxs : ∀ x ∈ xs, c ∉ x) (h : [c].intercalate xs = [c].intercalate ys) : xs = ys := by
  by_cases hnil : xs = []
  · rw [hnil, List.length_nil, eq_comm, List.length_eq_zero_iff] at hlen
    rw [hnil, hlen]
  · have hnil' : ys ≠ [] := by
      rintro rfl
      exact hnil (List.length_eq_zero_iff.mp hlen)
    rw [← List.splitOn_intercalate c hxs hnil, h,
      List.splitOn_intercalate c (not_mem_of_intercalate hlen hxs h) hnil']

/-- The first separator splits a text in one way only. -/
lemma append_cons_inj {x x' y y' : List α} (hx : c ∉ x) (hx' : c ∉ x')
    (h : x ++ c :: y = x' ++ c :: y') : x = x' ∧ y = y' := by
  have htake : ∀ {x : List α} (y : List α), c ∉ x →
      (x ++ c :: y).takeWhile (fun a => decide (a ≠ c)) = x := by
    intro x y hx
    rw [List.takeWhile_append_of_pos]
    · simp
    · intro a ha
      simp only [ne_eq, decide_not, Bool.not_eq_eq_eq_not, Bool.not_true, decide_eq_false_iff_not]
      rintro rfl
      exact hx ha
  have hxx : x = x' := by
    rw [← htake y hx, h, htake y' hx']
  subst hxx
  exact ⟨rfl, (List.cons.inj (List.append_cancel_left h)).2⟩

/-- Fields without separators, and then the rest of the text. -/
lemma intercalate_append_inj {x x' : List α} {xs xs' : List (List α)} {y y' : List α}
    (hlen : xs.length = xs'.length) (hx : ∀ z ∈ x :: xs, c ∉ z) (hx' : ∀ z ∈ x' :: xs', c ∉ z)
    (h : [c].intercalate (x :: xs) ++ c :: y = [c].intercalate (x' :: xs') ++ c :: y') :
    x :: xs = x' :: xs' ∧ y = y' := by
  induction xs generalizing x x' xs' with
  | nil =>
    rw [List.length_nil, eq_comm, List.length_eq_zero_iff] at hlen
    subst hlen
    simp only [List.intercalate_singleton] at h
    obtain ⟨rfl, rfl⟩ := append_cons_inj (hx x List.mem_cons_self) (hx' x' List.mem_cons_self) h
    exact ⟨rfl, rfl⟩
  | cons z xs ih =>
    cases xs' with
    | nil => cases hlen
    | cons z' xs' =>
      simp only [List.intercalate_cons_cons, List.append_assoc, List.singleton_append] at h
      obtain ⟨rfl, hrest⟩ := append_cons_inj (hx x List.mem_cons_self) (hx' x' List.mem_cons_self) h
      obtain ⟨hzs, rfl⟩ := ih (by simpa using hlen) (fun w hw => hx w (List.mem_cons_of_mem _ hw))
        (fun w hw => hx' w (List.mem_cons_of_mem _ hw)) hrest
      exact ⟨by rw [hzs], rfl⟩

/-- Lines that do not start with `d`, and then something that does. -/
lemma lines_append_inj {d : α} {xs xs' : List (List α)} {y y' : List α}
    (hx : ∀ z ∈ xs, c ∉ z ∧ z.head? ≠ some d ∧ z ≠ [])
    (hx' : ∀ z ∈ xs', c ∉ z ∧ z.head? ≠ some d ∧ z ≠ [])
    (h : (xs.map (· ++ [c])).flatten ++ d :: y = (xs'.map (· ++ [c])).flatten ++ d :: y') :
    xs = xs' ∧ y = y' := by
  have hhead : ∀ {z : List α} {zs : List (List α)} {y y' : List α}, z.head? ≠ some d → z ≠ [] →
      ((z :: zs).map (· ++ [c])).flatten ++ d :: y ≠ d :: y' := by
    intro z zs y y' hne hnil heq
    obtain ⟨a, z, rfl⟩ := List.exists_cons_of_ne_nil hnil
    simp only [List.map_cons, List.flatten_cons, List.cons_append, List.cons.injEq] at heq
    exact hne (congrArg some heq.1)
  induction xs generalizing xs' with
  | nil =>
    cases xs' with
    | nil => exact ⟨rfl, (List.cons.inj h).2⟩
    | cons z' xs' =>
      obtain ⟨-, hne, hnil⟩ := hx' z' List.mem_cons_self
      exact absurd h.symm (hhead hne hnil)
  | cons z xs ih =>
    cases xs' with
    | nil =>
      obtain ⟨-, hne, hnil⟩ := hx z List.mem_cons_self
      exact absurd h (hhead hne hnil)
    | cons z' xs' =>
      simp only [List.map_cons, List.flatten_cons, List.append_assoc, List.singleton_append] at h
      obtain ⟨rfl, hrest⟩ := append_cons_inj (hx z List.mem_cons_self).1
        (hx' z' List.mem_cons_self).1 h
      obtain ⟨rfl, rfl⟩ := ih (fun w hw => hx w (List.mem_cons_of_mem _ hw))
        (fun w hw => hx' w (List.mem_cons_of_mem _ hw)) hrest
      exact ⟨rfl, rfl⟩

/-- A first line, and then lines that begin with a separator each. -/
lemma append_lines_inj {x x' : List α} {xs xs' : List (List α)} (hx : c ∉ x) (hx' : c ∉ x')
    (h : x ++ (xs.map (c :: ·)).flatten = x' ++ (xs'.map (c :: ·)).flatten) :
    x = x' ∧ (xs.map (c :: ·)).flatten = (xs'.map (c :: ·)).flatten := by
  have hcons : ∀ zs : List (List α), (zs.map (c :: ·)).flatten = [] ∨
      ∃ l, (zs.map (c :: ·)).flatten = c :: l := by
    intro zs
    cases zs with
    | nil => exact .inl rfl
    | cons z zs => exact .inr ⟨_, rfl⟩
  have hmem : ∀ {x x' l : List α}, c ∉ x → x = x' ++ c :: l → False := by
    rintro x x' l hx rfl
    simp at hx
  rcases hcons xs with hnil | ⟨l, hl⟩ <;> rcases hcons xs' with hnil' | ⟨l', hl'⟩
  · rw [hnil, hnil', List.append_nil, List.append_nil] at h
    exact ⟨h, by rw [hnil, hnil']⟩
  · rw [hnil, hl', List.append_nil] at h
    exact (hmem hx h).elim
  · rw [hl, hnil', List.append_nil] at h
    exact (hmem hx' h.symm).elim
  · rw [hl, hl'] at h
    obtain ⟨rfl, rfl⟩ := append_cons_inj hx hx' h
    exact ⟨rfl, by rw [hl, hl']⟩

/-- Lines without separators in them are read back. -/
lemma lines_inj {xs xs' : List (List α)} (hx : ∀ z ∈ xs, c ∉ z) (hx' : ∀ z ∈ xs', c ∉ z)
    (h : (xs.map (c :: ·)).flatten = (xs'.map (c :: ·)).flatten) : xs = xs' := by
  have hjoin : ∀ (y : List α) (zs : List (List α)),
      y ++ (zs.map (c :: ·)).flatten = [c].intercalate (y :: zs) := by
    intro y zs
    induction zs generalizing y with
    | nil => simp
    | cons z zs ih =>
      rw [List.intercalate_cons_cons, ← ih z]
      simp
  have hsplit : ∀ {zs : List (List α)}, (∀ z ∈ zs, c ∉ z) →
      ([c].intercalate ([] :: zs)).splitOn c = [] :: zs := by
    intro zs hzs
    refine List.splitOn_intercalate c ?_ (by simp)
    intro z hz
    rcases List.mem_cons.mp hz with rfl | hz
    · simp
    · exact hzs z hz
  have htexts : [c].intercalate ([] :: xs) = [c].intercalate ([] :: xs') := by
    rw [← hjoin, ← hjoin, h]
  have hlines := hsplit hx
  rw [htexts, hsplit hx'] at hlines
  exact (List.cons.inj hlines).2.symm

end Joining

/-- Texts of as many fields joined with one character. -/
lemma eq_of_intercalate_string {c : Char} {xs ys : List String} (hlen : xs.length = ys.length)
    (hxs : ∀ x ∈ xs, c ∉ x.toList)
    (h : (String.singleton c).intercalate xs = (String.singleton c).intercalate ys) : xs = ys := by
  have hlists : xs.map String.toList = ys.map String.toList := by
    refine eq_of_intercalate (c := c) (by simpa using hlen) ?_ ?_
    · simpa using hxs
    · have hchars := congrArg String.toList h
      simpa [String.toList_intercalate] using hchars
  have hmap : ∀ l : List String, (l.map String.toList).map String.ofList = l := by
    intro l
    simp [Function.comp_def]
  rw [← hmap xs, hlists, hmap ys]

/-! ### Cutting -/

/-- The part before the first `c`, and the part after it if there is a `c`. -/
def cut (c : Char) (s : String) : String × Option String :=
  (String.ofList ((chars s).takeWhile (· ≠ c)),
    match (chars s).dropWhile (· ≠ c) with
    | []     => none
    | _ :: l => some (String.ofList l))

section Cutting

variable {c : Char} {s : String}

lemma not_mem_takeWhile_ne (l : List Char) : c ∉ l.takeWhile (· ≠ c) := by
  intro h
  have := List.mem_takeWhile_imp h
  simp at this

lemma not_mem_cut_fst : c ∉ (cut c s).1.toList := by
  simpa [cut] using not_mem_takeWhile_ne (c := c) s.toList

lemma cut_append {x y : String} (hx : c ∉ x.toList) :
    cut c (x ++ String.singleton c ++ y) = (x, some y) := by
  have hall : ∀ a ∈ x.toList, decide (a ≠ c) = true := by
    intro a ha
    simp only [ne_eq, decide_not, Bool.not_eq_eq_eq_not, Bool.not_true, decide_eq_false_iff_not]
    rintro rfl
    exact hx ha
  simp only [cut, chars_eq, String.toList_append, String.toList_singleton, List.append_assoc]
  rw [List.takeWhile_append_of_pos hall, List.dropWhile_append_of_pos hall]
  simp

/-- Nothing is lost by cutting. -/
lemma cut_eq (c : Char) (s : String) : s = match cut c s with
    | (x, none)   => x
    | (x, some y) => x ++ String.singleton c ++ y := by
  have h := List.takeWhile_append_dropWhile (p := fun a => decide (a ≠ c)) (l := s.toList)
  simp only [cut, chars_eq]
  cases hdrop : s.toList.dropWhile (fun a => decide (a ≠ c)) with
  | nil =>
    rw [hdrop, List.append_nil] at h
    rw [h]
    simp
  | cons a l =>
    have ha : a = c := by
      have hhead := List.head_dropWhile_not (fun a => decide (a ≠ c)) (l := s.toList)
        (by rw [hdrop]; exact List.cons_ne_nil a l)
      simp only [hdrop, List.head_cons] at hhead
      simpa using hhead
    subst ha
    rw [← String.toList_inj]
    simp only [String.toList_append, String.toList_ofList, String.toList_singleton,
      List.append_assoc, List.singleton_append]
    rw [← hdrop]
    exact h.symm

end Cutting

end Text
