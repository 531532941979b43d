import BlobStore.Lib.Text
import Mathlib.Data.List.DropRight
import Mathlib.Data.String.Basic

/-!
# Texts of decimal digits

Numbers written with as many digits are ordered like their texts. Without the zeros at the end the
texts of fractions are not: what follows the shorter of two texts is compared with a digit.
-/

namespace Digits

/-! ### Texts of one length -/

section Order

variable {a b : List Char}

/-- Texts of one length differ at some place. -/
lemma exists_of_lt (hlen : a.length = b.length) (h : a < b) :
    ∃ p x y s t, a = p ++ x :: s ∧ b = p ++ y :: t ∧ x < y := by
  induction a generalizing b with
  | nil =>
    rw [List.length_nil, eq_comm, List.length_eq_zero_iff] at hlen
    rw [hlen] at h
    exact absurd h (List.lt_irrefl [])
  | cons c a ih =>
    cases b with
    | nil => cases hlen
    | cons d b =>
      rcases List.cons_lt_cons_iff.mp h with hcd | ⟨rfl, hab⟩
      · exact ⟨[], c, d, a, b, rfl, rfl, hcd⟩
      · obtain ⟨p, x, y, s, t, rfl, rfl, hxy⟩ := ih (Nat.succ.inj hlen) hab
        exact ⟨c :: p, x, y, s, t, rfl, rfl, hxy⟩

lemma append_cons_lt {x y : Char} (hxy : x < y) (p s t : List Char) : p ++ x :: s < p ++ y :: t :=
  List.append_left_lt (List.cons_lt_cons_iff.mpr (.inl hxy))

/-- What follows texts of one length does not change their order. -/
lemma append_lt_append (hlen : a.length = b.length) (h : a < b) (c d : List Char) :
    a ++ c < b ++ d := by
  obtain ⟨p, x, y, s, t, rfl, rfl, hxy⟩ := exists_of_lt hlen h
  rw [List.append_assoc, List.append_assoc]
  exact append_cons_lt hxy p (s ++ c) (t ++ d)

lemma append_lt_append_left_iff (c d : List Char) : a ++ c < a ++ d ↔ c < d := by
  induction a with
  | nil => rfl
  | cons x a ih => simpa using ih

end Order

/-! ### Digits of fixed width -/

/-- The last digits of a number. -/
def fixed : ℕ → ℕ → List Char
  | 0, _     => []
  | w + 1, n => fixed w (n / 10) ++ [Nat.digitChar (n % 10)]

variable {w k m n : ℕ}

@[simp] lemma length_fixed (w n : ℕ) : (fixed w n).length = w := by
  induction w generalizing n with
  | zero => rfl
  | succ w ih => simp [fixed, ih]

lemma forall_mem_fixed {P : Char → Prop} (hdigit : ∀ m < 10, P (Nat.digitChar m)) (w n : ℕ) :
    ∀ c ∈ fixed w n, P c := by
  induction w generalizing n with
  | zero => simp [fixed]
  | succ w ih =>
    rw [fixed, List.forall_mem_append, List.forall_mem_singleton]
    exact ⟨ih (n / 10), hdigit _ (Nat.mod_lt n (by omega))⟩

lemma fixed_zero (w : ℕ) : fixed w 0 = List.replicate w '0' := by
  induction w with
  | zero => rfl
  | succ w ih =>
    rw [fixed, Nat.zero_div, ih, List.replicate_succ']
    rfl

lemma digitChar_lt {i j : ℕ} (hij : i < j) (hj : j < 10) : Nat.digitChar i < Nat.digitChar j := by
  have hall : ∀ j < 10, ∀ i < j, Nat.digitChar i < Nat.digitChar j := by decide
  exact hall j hj i hij

/-- Numbers are ordered like their digits. -/
lemma fixed_lt (hnm : n < m) (hm : m < 10 ^ w) : fixed w n < fixed w m := by
  induction w generalizing n m with
  | zero =>
    rw [pow_zero] at hm
    omega
  | succ w ih =>
    rw [pow_succ] at hm
    rw [fixed, fixed]
    rcases Nat.lt_or_ge (n / 10) (m / 10) with hlt | hge
    · exact append_lt_append (by simp) (ih hlt (by omega)) _ _
    · have heq : n / 10 = m / 10 := by omega
      rw [heq]
      exact append_cons_lt (digitChar_lt (by omega) (Nat.mod_lt m (by omega))) _ [] []

/-- Numbers of a fixed width are compared first. -/
lemma fixed_append_lt_iff (hn : n < 10 ^ w) (hm : m < 10 ^ w) (c d : List Char) :
    fixed w n ++ c < fixed w m ++ d ↔ n < m ∨ n = m ∧ c < d := by
  rcases Nat.lt_trichotomy n m with hlt | rfl | hgt
  · exact iff_of_true (append_lt_append (by simp) (fixed_lt hlt hm) c d) (.inl hlt)
  · simp [append_lt_append_left_iff]
  · refine iff_of_false (List.lt_asymm ?_) (by omega)
    exact append_lt_append (by simp) (fixed_lt hgt hn) d c

lemma fixed_inj (hn : n < 10 ^ w) (hm : m < 10 ^ w) (h : fixed w n = fixed w m) : n = m := by
  rcases Nat.lt_trichotomy n m with hlt | heq | hgt
  · exact absurd (h ▸ fixed_lt hlt hm) (List.lt_irrefl _)
  · exact heq
  · exact absurd (h ▸ fixed_lt hgt hn) (List.lt_irrefl _)

/-- Rounding down puts zeros in the place of the last digits. -/
lemma fixed_round (hk : k ≤ w) (n : ℕ) :
    fixed w (n / 10 ^ k * 10 ^ k) = (fixed w n).take (w - k) ++ List.replicate k '0' := by
  induction k generalizing w n with
  | zero => simp [List.take_of_length_le]
  | succ k ih =>
    obtain ⟨w, rfl⟩ : ∃ v, w = v + 1 := ⟨w - 1, by omega⟩
    have hdiv : n / 10 ^ (k + 1) * 10 ^ (k + 1) = n / 10 / 10 ^ k * 10 ^ k * 10 := by
      rw [Nat.div_div_eq_div_mul, pow_succ, Nat.mul_comm 10, Nat.mul_assoc]
    rw [hdiv, fixed, Nat.mul_div_cancel _ (by omega), Nat.mul_mod_left, ih (by omega), fixed,
      Nat.add_sub_add_right, List.take_append_of_le_length (by simp), List.append_assoc,
      List.replicate_succ']
    rfl

/-! ### Zeros at the end -/

/-- A text without the zeros at its end. -/
def strip (l : List Char) : List Char := l.rdropWhile (· = '0')

lemma strip_append_replicate (l : List Char) (k : ℕ) :
    strip (l ++ List.replicate k '0') = strip l := by
  induction k with
  | zero => simp
  | succ k ih =>
    rw [List.replicate_succ', ← List.append_assoc, strip,
      List.rdropWhile_concat_pos _ _ _ (by simp)]
    exact ih

lemma strip_starts (l : List Char) : strip l <+: l := List.rdropWhile_prefix _ l

/-- What has been taken off is zeros. -/
lemma eq_strip_append (l : List Char) :
    l = strip l ++ List.replicate (l.length - (strip l).length) '0' := by
  induction l using List.reverseRecOn with
  | nil => rfl
  | append_singleton l c ih =>
    by_cases hc : c = '0'
    · subst hc
      have hle : (strip l).length ≤ l.length := (strip_starts l).length_le
      have hstrip : strip (l ++ ['0']) = strip l := strip_append_replicate l 1
      rw [hstrip, List.length_append, List.length_singleton, Nat.sub_add_comm hle,
        List.replicate_succ', ← List.append_assoc, ← ih]
    · have hstrip : strip (l ++ [c]) = l ++ [c] :=
        List.rdropWhile_concat_neg _ _ _ (by simpa using hc)
      simp [hstrip]

/-- Of texts of one length, what is left tells them apart. -/
lemma strip_inj {a b : List Char} (hlen : a.length = b.length) (h : strip a = strip b) :
    a = b := by
  rw [eq_strip_append a, eq_strip_append b, h, hlen]

lemma strip_cases (l : List Char) : strip l = [] ∨ ∃ q y, strip l = q ++ [y] ∧ y ≠ '0' := by
  rcases List.eq_nil_or_concat (strip l) with hnil | ⟨q, y, hq⟩
  · exact .inl hnil
  · rw [List.concat_eq_append] at hq
    refine .inr ⟨q, y, hq, ?_⟩
    have hne : strip l ≠ [] := by simp [hq]
    have hlast := List.rdropWhile_last_not (· = '0') l hne
    have hy : (strip l).getLast hne = y := by simp [hq]
    have hy' : ((l.rdropWhile (· = '0')).getLast hne) = y := hy
    rw [hy'] at hlast
    simpa using hlast

/-- A start that ends in another digit than zero is kept. -/
lemma concat_prefix_strip {q l : List Char} {y : Char} (h : q ++ [y] <+: l) (hy : y ≠ '0') :
    q ++ [y] <+: strip l := by
  refine List.prefix_of_prefix_length_le h (strip_starts l) ?_
  by_contra hlen
  obtain ⟨t, ht⟩ := h
  have hget : l[q.length]? = some y := by simp [← ht]
  rw [eq_strip_append l, List.getElem?_append_right (by simp at hlen; omega)] at hget
  exact hy (List.eq_of_mem_replicate (List.mem_of_getElem? hget))

/-- Without the zeros, and with something greater than a digit behind it, a lesser text comes first
unless it is the start of the other. -/
lemma strip_lt_iff {a b : List Char} {z : Char} (ha : ∀ c ∈ a, '0' ≤ c) (hb : ∀ c ∈ b, c < z)
    (hlen : a.length = b.length) (hab : a < b) (s t : List Char) :
    strip a ++ z :: s < strip b ++ z :: t ↔ ¬ strip a <+: strip b := by
  constructor
  · rintro h ⟨r, hr⟩
    cases r with
    | nil =>
      rw [List.append_nil] at hr
      exact absurd (strip_inj hlen hr ▸ hab) (List.lt_irrefl b)
    | cons y r =>
      have hy : y ∈ b := (strip_starts b).subset (hr ▸ by simp)
      rw [← hr, List.append_assoc, append_lt_append_left_iff, List.cons_append,
        List.cons_lt_cons_iff] at h
      rcases h with hzy | ⟨rfl, -⟩
      · exact absurd (hb y hy) (not_lt_of_gt hzy)
      · exact absurd (hb z hy) (lt_irrefl z)
  · intro hnot
    obtain ⟨p, x, y, s', t', rfl, rfl, hxy⟩ := exists_of_lt hlen hab
    have hx : '0' ≤ x := ha x (by simp)
    have hy : y ≠ '0' := (lt_of_le_of_lt hx hxy).ne'
    obtain ⟨t'', ht⟩ := concat_prefix_strip (q := p) (l := p ++ y :: t') ⟨t', by simp⟩ hy
    have hstart : p <+: p ++ x :: s' := ⟨_, rfl⟩
    rcases Nat.lt_or_ge p.length (strip (p ++ x :: s')).length with hlt | hge
    · have hpx : p ++ [x] <+: p ++ x :: s' := ⟨s', by simp⟩
      have hshort : (p ++ [x]).length ≤ (strip (p ++ x :: s')).length := by
        rw [List.length_append, List.length_singleton]
        exact hlt
      obtain ⟨s'', hs⟩ := List.prefix_of_prefix_length_le hpx (strip_starts _) hshort
      rw [← hs, ← ht]
      simp only [List.append_assoc, List.singleton_append]
      exact append_cons_lt hxy p _ _
    · refine absurd ?_ hnot
      have hshort := List.prefix_of_prefix_length_le (strip_starts _) hstart hge
      exact hshort.trans ⟨[y] ++ t'', by rw [← ht, List.append_assoc]⟩

/-- The start of the digits of another number: that number, rounded down. -/
lemma strip_fixed_prefix_iff (hnm : n < m) (hm : m < 10 ^ w) :
    strip (fixed w n) <+: strip (fixed w m) ↔ ∃ k ≤ w, n = m / 10 ^ k * 10 ^ k := by
  constructor
  · intro h
    have hle := (strip_starts (fixed w n)).length_le
    rw [length_fixed] at hle
    set j := (strip (fixed w n)).length with hj
    have htake : strip (fixed w n) = (fixed w m).take j :=
      List.prefix_iff_eq_take.mp (h.trans (strip_starts _))
    refine ⟨w - j, by omega, fixed_inj (hnm.trans hm) ?_ ?_⟩
    · exact lt_of_le_of_lt (Nat.div_mul_le_self m _) hm
    · rw [fixed_round (by omega), Nat.sub_sub_self hle, ← htake]
      conv_lhs => rw [eq_strip_append (fixed w n), length_fixed, ← hj]
  · rintro ⟨k, hk, rfl⟩
    rw [fixed_round hk, strip_append_replicate]
    rcases strip_cases ((fixed w m).take (w - k)) with hnil | ⟨q, y, hq, hy⟩
    · rw [hnil]
      exact List.nil_prefix
    · rw [hq]
      refine concat_prefix_strip ?_ hy
      rw [← hq]
      exact (strip_starts _).trans (List.take_prefix _ _)

end Digits
