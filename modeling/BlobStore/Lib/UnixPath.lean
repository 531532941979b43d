import BlobStore.Lib.Text

/-!
# Path texts and what they name

A path is first of all a text. Joining two texts puts a slash between them, unless the second one
is absolute, which then replaces the first. What a text names is found by walking its pieces from
the root: empty pieces and `.` stay, `..` goes up, every other piece goes down one level. The
result of the walk is a list of plain components.
-/

namespace UnixPath

open Text

/-- The pieces of a text between its slashes. -/
def pieces (p : String) : List String := ((chars p).splitOn '/').map String.ofList

/-- Walk one piece from a directory. -/
def walk (dir : List String) (piece : String) : List String :=
  if piece = "" ∨ piece = "." then dir
  else if piece = ".." then dir.dropLast
  else dir ++ [piece]

/-- Walk a whole text from a directory. -/
def descend (dir : List String) (p : String) : List String := (pieces p).foldl walk dir

/-- What a text names, from the root. -/
def resolve (p : String) : List String := descend [] p

def isAbsolute (p : String) : Bool := (chars p).head? == some '/'

/-- Put `q` below `p`; an absolute `q` replaces it. -/
def join (p q : String) : String :=
  if isAbsolute q then q
  else if chars p = [] ∨ (chars p).getLast? = some '/' then p ++ q
  else p ++ "/" ++ q

/-- A name that is one step down: no slash in it, neither empty nor a dot entry. -/
structure IsComponent (x : String) : Prop where
  ne_empty  : x ≠ ""
  ne_dot    : x ≠ "."
  ne_dotdot : x ≠ ".."
  no_slash  : '/' ∉ x.toList

instance (x : String) : Decidable (IsComponent x) :=
  decidable_of_iff (x ≠ "" ∧ x ≠ "." ∧ x ≠ ".." ∧ '/' ∉ x.toList)
    ⟨fun h => ⟨h.1, h.2.1, h.2.2.1, h.2.2.2⟩, fun h => ⟨h.1, h.2, h.3, h.4⟩⟩

/-! ### Walking -/

lemma walk_component {x : String} (hx : IsComponent x) (dir : List String) :
    walk dir x = dir ++ [x] := by
  simp [walk, hx.ne_empty, hx.ne_dot, hx.ne_dotdot]

lemma pieces_of_no_slash {x : String} (hx : '/' ∉ x.toList) : pieces x = [x] := by
  simp [pieces, List.splitOn_eq_singleton hx]

lemma descend_component {x : String} (hx : IsComponent x) (dir : List String) :
    descend dir x = dir ++ [x] := by
  rw [descend, pieces_of_no_slash hx.no_slash]
  exact walk_component hx dir

lemma pieces_append_slash (p q : String) : pieces (p ++ "/" ++ q) = pieces p ++ pieces q := by
  simp [pieces, List.splitOn_append_cons_self]

lemma descend_append_slash (dir : List String) (p q : String) :
    descend dir (p ++ "/" ++ q) = descend (descend dir p) q := by
  rw [descend, pieces_append_slash, List.foldl_append]
  rfl

@[simp] lemma descend_empty (dir : List String) : descend dir "" = dir := by
  simp [descend, pieces, walk]

/-- Joining is walking on, whatever the slashes at the seam. -/
lemma descend_join {q : String} (hq : isAbsolute q = false) (dir : List String) (p : String) :
    descend dir (join p q) = descend (descend dir p) q := by
  rw [join, if_neg (by simp [hq])]
  simp only [chars_eq]
  split_ifs with hp
  · rcases hp with hp | hp
    · have hp' : p = "" := String.toList_injective hp
      simp [hp']
    · obtain ⟨l, hl⟩ := List.getLast?_eq_some_iff.mp hp
      have hp' : p = String.ofList l ++ "/" ++ "" := by
        apply String.toList_injective
        simp [hl]
      have hpq : p ++ q = String.ofList l ++ "/" ++ q := by
        apply String.toList_injective
        simp [hl]
      rw [hpq, descend_append_slash, hp', descend_append_slash, descend_empty]
  · exact descend_append_slash dir p q

lemma resolve_join {q : String} (hq : isAbsolute q = false) (p : String) :
    resolve (join p q) = descend (resolve p) q :=
  descend_join hq [] p

lemma IsComponent.isAbsolute {x : String} (hx : IsComponent x) : isAbsolute x = false := by
  cases h : x.toList with
  | nil => simp [UnixPath.isAbsolute, h]
  | cons c cs =>
    have hc : c ≠ '/' := by
      rintro rfl
      exact hx.no_slash (by simp [h])
    simp [UnixPath.isAbsolute, h, hc]

/-- A plain name goes exactly one level down. -/
lemma descend_join_component {x : String} (hx : IsComponent x) (dir : List String) (p : String) :
    descend dir (join p x) = descend dir p ++ [x] := by
  rw [descend_join hx.isAbsolute, descend_component hx]

/-- Relative texts join to a relative text. -/
lemma isAbsolute_join {p q : String} (hp : isAbsolute p = false) (hq : isAbsolute q = false) :
    isAbsolute (join p q) = false := by
  rw [join, if_neg (by simp [hq])]
  cases hl : p.toList with
  | nil => simpa [isAbsolute, hl] using hq
  | cons c cs =>
    rw [isAbsolute, chars_eq, hl] at hp
    split_ifs <;> simpa [isAbsolute, hl] using hp

/-! ### Only plain components are ever reached -/

end UnixPath
