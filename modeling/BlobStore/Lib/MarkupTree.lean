import BlobStore.Lib.MarkupReader

/-!
# Trees of markup documents

What is known of every tree that the reader makes, and how values are found in a tree.
-/

namespace Markup

/-! ### Names in a tree -/

/-- Every element in the tree has a name. -/
inductive Node.Named : Node → Prop
  | text (cs : List Char) : Named (.text cs)
  | element {name : List Char} {attributes : List (List Char × List Char)} {children : List Node}
      (h : isName name = true) (hchildren : ∀ c ∈ children, Named c) :
      Named (.element name attributes children)

def Lexeme.Named : Lexeme → Prop
  | .start name _ _ => isName name = true
  | _               => True

structure Place.Named (p : Place) : Prop where
  stack : ∀ f ∈ p.stack, isName f.name = true ∧ ∀ c ∈ f.children, c.Named
  root : ∀ node, p.root = some node → node.Named

section Named

variable {p q : Place} {node : Node} {l : Lexeme} {cs rest : List Char}

lemma named_lexeme (h : lexeme cs = some (l, rest)) : l.Named := by
  unfold lexeme at h
  split at h
  · simp only [Option.bind_eq_bind, Option.bind_eq_some_iff] at h
    obtain ⟨⟨s, more⟩, -, h⟩ := h
    split at h
    · split_ifs at h
      cases h
      trivial
    · cases h
  · simp only [Option.bind_eq_bind, Option.bind_eq_some_iff] at h
    obtain ⟨⟨s, more⟩, -, h⟩ := h
    split_ifs at h
    cases h
    trivial
  · simp only [Option.bind_eq_bind, Option.bind_eq_some_iff] at h
    obtain ⟨⟨s, more⟩, -, h⟩ := h
    split_ifs at h
    cases h
    trivial
  · split at h
    · simp only [Option.ite_none_right_eq_some] at h
      cases h.2
      trivial
    · cases h
  · simp only [Option.ite_none_right_eq_some] at h
    obtain ⟨hname, h⟩ := h
    obtain ⟨r, -, hr⟩ := Option.map_eq_some_iff.mp h
    cases hr
    exact hname
  · obtain ⟨s, -, hs⟩ := Option.map_eq_some_iff.mp h
    cases hs
    trivial

lemma Place.Named.add (hp : p.Named) (hnode : node.Named) (h : p.add node = some q) : q.Named := by
  obtain ⟨hstack, hroot⟩ := hp
  unfold Place.add at h
  split at h
  · cases h
    exact ⟨by simp, by rintro _ ⟨⟩; exact hnode⟩
  · cases h
  · cases h
    obtain ⟨hf, hstack⟩ := List.forall_mem_cons.mp hstack
    refine ⟨List.forall_mem_cons.mpr ⟨⟨hf.1, ?_⟩, hstack⟩, hroot⟩
    intro c hc
    rcases List.mem_append.mp hc with hc | hc
    · exact hf.2 c hc
    · rw [List.mem_singleton.mp hc]
      exact hnode

/-- One part of a document keeps the names. -/
lemma Place.Named.step (hp : p.Named) (hl : l.Named) (h : p.step l = some q) : q.Named := by
  cases l with
  | skipped =>
    cases h
    exact hp
  | «section» cs =>
    simp only [Place.step] at h
    split_ifs at h
    exact hp.add (.text cs) h
  | text cs =>
    simp only [Place.step] at h
    split_ifs at h
    · cases h
      exact hp
    · exact hp.add (.text cs) h
  | start name attributes closed =>
    cases closed with
    | true => exact hp.add (.element hl (by simp)) h
    | false =>
      simp only [Place.step] at h
      split_ifs at h
      cases h
      exact ⟨List.forall_mem_cons.mpr ⟨⟨hl, by simp⟩, hp.stack⟩, hp.root⟩
  | stop name =>
    obtain ⟨hstack, hroot⟩ := hp
    simp only [Place.step] at h
    split at h
    · cases h
    · next f stack heq =>
      rw [heq] at hstack
      obtain ⟨hf, hstack⟩ := List.forall_mem_cons.mp hstack
      have hp' : Place.Named ⟨stack, p.root⟩ := ⟨hstack, hroot⟩
      split_ifs at h
      exact hp'.add (.element hf.1 hf.2) h

lemma named_readFrom {n : ℕ} (hp : p.Named) (h : readFrom n p cs = some node) : node.Named := by
  induction n generalizing p cs with
  | zero => cases h
  | succ n ih =>
    rw [readFrom] at h
    split_ifs at h
    · exact hp.root node h
    · obtain ⟨⟨l, rest⟩, hlex, h⟩ := Option.bind_eq_some_iff.mp h
      obtain ⟨q, hstep, h⟩ := Option.bind_eq_some_iff.mp h
      exact ih (hp.step (named_lexeme hlex) hstep) h

/-- Whatever is read has names. -/
lemma named_readDocument {s : String} (h : readDocument s = some node) : node.Named := by
  obtain ⟨body, -, h⟩ := Option.bind_eq_some_iff.mp h
  have hstart : Place.Named ⟨[], none⟩ := ⟨by simp, by simp⟩
  exact named_readFrom hstart h

end Named

/-! ### Looking into a tree -/

namespace Node

def children : Node → List Node
  | text _         => []
  | element _ _ cs => cs

@[simp] lemma children_element (name : List Char) (attributes : List (List Char × List Char))
    (cs : List Node) : (element name attributes cs).children = cs := rfl

/-- The text in a node, without that of the elements in it. -/
def content (node : Node) : List Char :=
  node.children.flatMap fun
    | text cs       => cs
    | element _ _ _ => []

def hasName (name : List Char) : Node → Bool
  | text _        => false
  | element n _ _ => n = name

/-- The first element of a name in a node. -/
def child? (name : List Char) (node : Node) : Option Node := node.children.find? (hasName name)

/-- An element as a name and a text. -/
def entry : Node → Option (List Char × List Char)
  | text _                           => none
  | element name attributes children => some (name, (element name attributes children).content)

variable {node child : Node} {name cs : List Char}

lemma Named.of_mem (h : node.Named) (hchild : child ∈ node.children) : child.Named := by
  cases h with
  | text cs => cases hchild
  | element _ hchildren => exact hchildren child hchild

lemma Named.of_child? (h : node.Named) (hchild : node.child? name = some child) : child.Named :=
  h.of_mem (List.mem_of_find?_eq_some hchild)

lemma Named.isName_of_entry (h : node.Named) (hentry : node.entry = some (name, cs)) :
    isName name = true := by
  cases h with
  | text cs => cases hentry
  | element hname _ =>
    cases hentry
    exact hname

end Node

/-- Elements with the texts that there are, under their names. -/
def leaves (fields : List (List Char × Option (List Char))) : List Node :=
  fields.filterMap fun f => f.2.map (leaf f.1)

section Leaves

variable {name : List Char} {fields : List (List Char × Option (List Char))}

@[simp] lemma content_leaf (name cs : List Char) : (leaf name cs).content = normalizeEol cs := by
  unfold leaf Node.content
  split_ifs with h
  · rw [h]
    rfl
  · simp [Node.children]

@[simp] lemma entry_leaf (name cs : List Char) :
    (leaf name cs).entry = some (name, normalizeEol cs) := by
  rw [← content_leaf name cs]
  rfl

@[simp] lemma hasName_leaf (name n cs : List Char) :
    (leaf n cs).hasName name = decide (n = name) := rfl

@[simp] lemma hasName_element (name n : List Char) (attributes : List (List Char × List Char))
    (children : List Node) :
    (Node.element n attributes children).hasName name = decide (n = name) := rfl

lemma find?_leaves_of_forall (h : ∀ f ∈ fields, f.1 ≠ name) :
    (leaves fields).find? (Node.hasName name) = none := by
  rw [List.find?_eq_none]
  intro node hnode
  obtain ⟨f, hf, hnode⟩ := List.mem_filterMap.mp hnode
  obtain ⟨cs, -, rfl⟩ := Option.map_eq_some_iff.mp hnode
  simp [h f hf]

/-- An element is found under its name if names are not used twice. -/
lemma find?_leaves (hnodup : (fields.map Prod.fst).Nodup) {value : Option (List Char)}
    (h : (name, value) ∈ fields) :
    (leaves fields).find? (Node.hasName name) = value.map (leaf name) := by
  induction fields with
  | nil => cases h
  | cons f fields ih =>
    rw [List.map_cons, List.nodup_cons] at hnodup
    have hleaves : leaves (f :: fields) = (f.2.map (leaf f.1)).toList ++ leaves fields := by
      rw [leaves, List.filterMap_cons]
      cases f.2 <;> rfl
    rw [hleaves, List.find?_append]
    rcases List.mem_cons.mp h with rfl | h
    · have hrest : ∀ f ∈ fields, f.1 ≠ name := by
        rintro f hf rfl
        exact hnodup.1 (List.mem_map.mpr ⟨f, hf, rfl⟩)
      rw [find?_leaves_of_forall hrest]
      cases value <;> simp
    · have hne : f.1 ≠ name := by
        rintro rfl
        exact hnodup.1 (List.mem_map.mpr ⟨_, h, rfl⟩)
      rw [ih hnodup.2 h]
      cases f.2 <;> simp [hne]

end Leaves

end Markup
