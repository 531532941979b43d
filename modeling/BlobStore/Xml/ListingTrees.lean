import BlobStore.Core.Stamps
import BlobStore.Lib.MarkupTree
import BlobStore.Lib.Paging
import BlobStore.Xml.BlockListBody

/-!
# The trees of listings

How a client reads the document of a listing, and the tree that such a document is read as. Whatever
is written between tags is read as the nodes that it renders (`Renders`), part by part.
-/

namespace BlobStore

open Markup Xml

/-! ### Reading -/

/-- The text in the first element of a name. -/
def textIn (name : String) (nodes : List Node) : Option String :=
  (nodes.find? (Node.hasName name.toList)).map fun node => String.ofList node.content

def readMetadata (node : Node) : Option Metadata :=
  let entries : List (Sigma fun _ : String => String) :=
    (node.children.filterMap Node.entry).map fun e => ⟨String.ofList e.1, String.ofList e.2⟩
  if h : entries.keys.Nodup then some ⟨entries, h⟩ else none

def readBlob (node : Node) : Option BlobProps := do
  let name ← textIn "Name" node.children
  let properties ← node.child? "Properties".toList
  let field := fun name => textIn name properties.children
  let blobType ← (field "BlobType").bind BlobType.parse
  let contentLength ← (field "Content-Length").bind fun s => number 10 s.toList
  let metadata ← (node.child? "Metadata".toList).bind readMetadata
  let etag ← field "Etag"
  let lastModified ← field "Last-Modified"
  some
    { name, blobType, contentLength, metadata, etag, lastModified
      contentType        := field "Content-Type"
      contentMd5         := field "Content-MD5"
      contentEncoding    := field "Content-Encoding"
      contentLanguage    := field "Content-Language"
      cacheControl       := field "Cache-Control"
      contentDisposition := field "Content-Disposition" }

/-- The marker of the next page; an empty one says that there is no next page. -/
def readMarker (root : Node) : Option (Option String) :=
  (textIn "NextMarker" root.children).map fun s => if s = "" then none else some s

def readBlobPage (root : Node) : Option BlobListPage := do
  let entries ← root.child? "Blobs".toList
  let blobs ← (entries.children.filter (Node.hasName "Blob".toList)).mapM readBlob
  let blobPrefixes ← (entries.children.filter (Node.hasName "BlobPrefix".toList)).mapM fun node =>
    textIn "Name" node.children
  let nextMarker ← readMarker root
  some ⟨blobs, blobPrefixes, nextMarker⟩

def readContainer (node : Node) : Option ContainerProps := do
  let name ← textIn "Name" node.children
  let properties ← node.child? "Properties".toList
  let field := fun name => textIn name properties.children
  let metadata ← (node.child? "Metadata".toList).bind readMetadata
  let etag ← field "Etag"
  let lastModified ← field "Last-Modified"
  some ⟨name, .fromHeaderValue (field "PublicAccess"), metadata, etag, lastModified⟩

def readContainerPage (root : Node) : Option ContainerListPage := do
  let entries ← root.child? "Containers".toList
  let containers ← (entries.children.filter (Node.hasName "Container".toList)).mapM readContainer
  let nextMarker ← readMarker root
  some ⟨containers, nextMarker⟩

/-! ### Texts of a page -/

def mapValues (f : String → String) (m : Metadata) : Metadata where
  entries   := m.entries.map fun e => ⟨e.1, f e.2⟩
  nodupKeys := by
    have h := m.nodupKeys
    simpa [List.NodupKeys, List.keys, Function.comp_def] using h

namespace BlobProps

/-- The texts of a blob, apart from its etag and its date. -/
def texts (p : BlobProps) : List String :=
  p.name :: [p.contentType, p.contentMd5, p.contentEncoding, p.contentLanguage, p.cacheControl,
    p.contentDisposition].flatMap Option.toList ++ p.metadata.entries.map Sigma.snd

def mapTexts (f : String → String) (p : BlobProps) : BlobProps :=
  { p with
    name               := f p.name
    contentType        := p.contentType.map f
    contentMd5         := p.contentMd5.map f
    contentEncoding    := p.contentEncoding.map f
    contentLanguage    := p.contentLanguage.map f
    cacheControl       := p.cacheControl.map f
    contentDisposition := p.contentDisposition.map f
    metadata           := mapValues f p.metadata }

end BlobProps

namespace ContainerProps

def texts (c : ContainerProps) : List String := c.name :: c.metadata.entries.map Sigma.snd

def mapTexts (f : String → String) (c : ContainerProps) : ContainerProps :=
  { c with name := f c.name, metadata := mapValues f c.metadata }

end ContainerProps

def BlobListPage.texts (page : BlobListPage) : List String :=
  page.blobs.flatMap BlobProps.texts ++ page.blobPrefixes ++ page.nextMarker.toList

def ContainerListPage.texts (page : ContainerListPage) : List String :=
  page.containers.flatMap ContainerProps.texts ++ page.nextMarker.toList

section Texts

variable {f : String → String}

lemma map_eq_self_iff {α : Type} {g : α → α} {l : List α} : l.map g = l ↔ ∀ x ∈ l, g x = x := by
  conv_lhs => rhs; rw [← List.map_id l]
  rw [List.map_inj_left]
  rfl

lemma optionMap_eq_self_iff {o : Option String} : o.map f = o ↔ ∀ s ∈ o.toList, f s = s := by
  cases o <;> simp

lemma mapValues_eq_self_iff {m : Metadata} :
    mapValues f m = m ↔ ∀ s ∈ m.entries.map Sigma.snd, f s = s := by
  have hentries : mapValues f m = m ↔ (mapValues f m).entries = m.entries :=
    ⟨congrArg AList.entries, AList.ext⟩
  rw [hentries, mapValues, map_eq_self_iff, List.forall_mem_map]
  exact forall₂_congr fun e _ => by simp [Sigma.ext_iff]

lemma BlobProps.mapTexts_eq_self_iff {p : BlobProps} :
    p.mapTexts f = p ↔ ∀ s ∈ p.texts, f s = s := by
  have hfields : p.mapTexts f = p ↔ f p.name = p.name ∧ p.contentType.map f = p.contentType ∧
      p.contentMd5.map f = p.contentMd5 ∧ p.contentEncoding.map f = p.contentEncoding ∧
      p.contentLanguage.map f = p.contentLanguage ∧ p.cacheControl.map f = p.cacheControl ∧
      p.contentDisposition.map f = p.contentDisposition ∧ mapValues f p.metadata = p.metadata := by
    cases p
    simp [mapTexts]
  rw [hfields, mapValues_eq_self_iff]
  simp only [optionMap_eq_self_iff, texts, List.cons_append, List.forall_mem_cons,
    List.forall_mem_append, List.flatMap_cons, List.flatMap_nil, List.append_nil, and_assoc]

lemma ContainerProps.mapTexts_eq_self_iff {c : ContainerProps} :
    c.mapTexts f = c ↔ ∀ s ∈ c.texts, f s = s := by
  have hfields : c.mapTexts f = c ↔ f c.name = c.name ∧ mapValues f c.metadata = c.metadata := by
    cases c
    simp [mapTexts]
  rw [hfields, mapValues_eq_self_iff, texts, List.forall_mem_cons]

end Texts

/-! ### The tree of a listing -/

/-- A text whose ends of lines are uniform. -/
def uniform (s : String) : String := String.ofList (normalizeEol s.toList)

/-- Elements with the texts that there are, under their names. -/
def fieldNodes (fields : List (String × Option String)) : List Node :=
  leaves (fields.map fun f => (f.1.toList, f.2.map String.toList))

lemma fieldNodes_some (name s : String) :
    fieldNodes [(name, some s)] = [leaf name.toList s.toList] := rfl

def metadataNodes (m : Metadata) : List Node :=
  m.entries.map fun e => leaf e.1.toList e.2.toList

def propertyFields (p : BlobProps) : List (String × Option String) :=
  [("Last-Modified", some p.lastModified), ("Etag", some p.etag),
    ("Content-Length", some (toString p.contentLength)), ("Content-Type", p.contentType),
    ("Content-MD5", p.contentMd5), ("Content-Encoding", p.contentEncoding),
    ("Content-Language", p.contentLanguage), ("Cache-Control", p.cacheControl),
    ("Content-Disposition", p.contentDisposition), ("BlobType", some p.blobType.asStr),
    ("LeaseStatus", some "unlocked"), ("LeaseState", some "available")]

/-- The element of a blob or a container. -/
def entryNode (kind name : String) (fields : List (String × Option String)) (m : Metadata) : Node :=
  .element kind.toList [] [leaf "Name".toList name.toList,
    .element "Properties".toList [] (fieldNodes fields),
    .element "Metadata".toList [] (metadataNodes m)]

def blobNode (p : BlobProps) : Node := entryNode "Blob" p.name (propertyFields p) p.metadata

def prefixNode (s : String) : Node :=
  .element "BlobPrefix".toList [] [leaf "Name".toList s.toList]

def containerFields (c : ContainerProps) : List (String × Option String) :=
  [("Last-Modified", some c.lastModified), ("Etag", some c.etag),
    ("LeaseStatus", some "unlocked"), ("LeaseState", some "available"),
    ("PublicAccess", c.publicAccess.asHeaderValue)]

def containerNode (c : ContainerProps) : Node :=
  entryNode "Container" c.name (containerFields c) c.metadata

/-- What the element of a listing contains: what was asked for, the entries, and the next marker. -/
def listingNodes (asked : List (String × Option String)) (name : String) (entries : List Node)
    (nextMarker : Option String) : List Node :=
  fieldNodes asked ++ [.element name.toList [] entries,
    leaf "NextMarker".toList (nextMarker.getD "").toList]

section Trees

variable {name : String} {s : String}

lemma uniform_eq_self_iff : uniform s = s ↔ '\r' ∉ s.toList := by
  rw [← normalizeEol_eq_self_iff, uniform]
  constructor
  · intro h
    rw [← String.toList_ofList (l := normalizeEol s.toList), h]
  · intro h
    rw [h, String.ofList_toList]

lemma textIn_fieldNodes {fields : List (String × Option String)} {value : Option String}
    (hnodup : (fields.map Prod.fst).Nodup) (h : (name, value) ∈ fields) :
    textIn name (fieldNodes fields) = value.map uniform := by
  have hnames : ((fields.map fun f => (f.1.toList, f.2.map String.toList)).map Prod.fst).Nodup := by
    have hmap := hnodup.map fun _ _ => String.toList_inj.mp
    simpa [Function.comp_def] using hmap
  rw [textIn, fieldNodes, find?_leaves hnames (List.mem_map.mpr ⟨_, h, rfl⟩)]
  cases value <;> simp [uniform]

lemma readMetadata_metadataNodes (m : Metadata) :
    readMetadata (.element name.toList [] (metadataNodes m)) = some (mapValues uniform m) := by
  have hentries : ((metadataNodes m).filterMap Node.entry).map
      (fun e => (⟨String.ofList e.1, String.ofList e.2⟩ : Sigma fun _ : String => String)) =
      (mapValues uniform m).entries := by
    simp [metadataNodes, mapValues, List.filterMap_map, Function.comp_def, uniform]
  have hnodup : (mapValues uniform m).entries.keys.Nodup := (mapValues uniform m).nodupKeys
  simp only [readMetadata, Node.children, hentries, dif_pos hnodup]

lemma toList_toString (n : ℕ) : (toString n).toList = Nat.toDigits 10 n := Nat.toList_repr

lemma uniform_toString (n : ℕ) : uniform (toString n) = toString n := by
  have hdigits : ∀ c ∈ Nat.toDigits 10 n, c ≠ '\r' :=
    Text.forall_mem_toDigits (by decide) (by omega) n
  rw [uniform_eq_self_iff, toList_toString]
  exact fun hmem => hdigits '\r' hmem rfl

section Entries

variable {kind name : String} {fields : List (String × Option String)} {m : Metadata}

lemma textIn_entryNode :
    textIn "Name" (entryNode kind name fields m).children = some (uniform name) := by
  have hname : (leaf "Name".toList name.toList).hasName "Name".toList = true := by
    simp only [hasName_leaf, decide_true]
  rw [textIn, entryNode, Node.children, List.find?_cons_of_pos hname, Option.map_some, content_leaf]
  rfl

lemma properties_entryNode : (entryNode kind name fields m).child? "Properties".toList =
    some (.element "Properties".toList [] (fieldNodes fields)) := by
  have hname : ¬(leaf "Name".toList name.toList).hasName "Properties".toList = true := by
    simp only [hasName_leaf, decide_eq_true_eq]
    decide
  rw [Node.child?, entryNode, Node.children, List.find?_cons_of_neg hname,
    List.find?_cons_of_pos (by simp only [hasName_element, decide_true])]

lemma metadata_entryNode :
    ((entryNode kind name fields m).child? "Metadata".toList).bind readMetadata =
      some (mapValues uniform m) := by
  have hname : ¬(leaf "Name".toList name.toList).hasName "Metadata".toList = true := by
    simp only [hasName_leaf, decide_eq_true_eq]
    decide
  have hproperties : ¬(Node.element "Properties".toList [] (fieldNodes fields)).hasName
      "Metadata".toList = true := by
    simp only [hasName_element, decide_eq_true_eq]
    decide
  rw [Node.child?, entryNode, Node.children, List.find?_cons_of_neg hname,
    List.find?_cons_of_neg hproperties,
    List.find?_cons_of_pos (by simp only [hasName_element, decide_true]), Option.bind_some,
    readMetadata_metadataNodes]

end Entries

lemma readBlob_blobNode (p : BlobProps) (hetag : '\r' ∉ p.etag.toList)
    (hdate : '\r' ∉ p.lastModified.toList) :
    readBlob (blobNode p) = some (p.mapTexts uniform) := by
  have hfields : ∀ f ∈ propertyFields p,
      textIn f.1 (fieldNodes (propertyFields p)) = f.2.map uniform := fun f hf =>
    textIn_fieldNodes (by simp [propertyFields]) hf
  have htype : BlobType.parse (uniform p.blobType.asStr) = some p.blobType := by
    cases p.blobType <;> decide +kernel
  have hlength : number 10 (uniform (toString p.contentLength)).toList = some p.contentLength := by
    rw [uniform_toString, toList_toString, number_toDigits]
  rw [← uniform_eq_self_iff] at hetag hdate
  rw [readBlob, blobNode, textIn_entryNode, properties_entryNode, metadata_entryNode]
  generalize fieldNodes (propertyFields p) = nodes at hfields
  simp only [propertyFields, List.forall_mem_cons, Option.map_some] at hfields
  obtain ⟨hdate', hetag', hlength', htype', hmd5, hencoding, hlanguage, hcache, hdisposition, hblob,
    -⟩ := hfields
  simp only [Option.bind_eq_bind, Option.bind_some, Node.children, hdate', hetag', hetag, hdate,
    hlength', hlength, htype', hmd5, hencoding, hlanguage, hcache, hdisposition, hblob, htype,
    BlobProps.mapTexts]

lemma readContainer_containerNode (c : ContainerProps) (hetag : '\r' ∉ c.etag.toList)
    (hdate : '\r' ∉ c.lastModified.toList) :
    readContainer (containerNode c) = some (c.mapTexts uniform) := by
  have hfields : ∀ f ∈ containerFields c,
      textIn f.1 (fieldNodes (containerFields c)) = f.2.map uniform := fun f hf =>
    textIn_fieldNodes (by simp [containerFields]) hf
  have haccess : PublicAccessLevel.fromHeaderValue (c.publicAccess.asHeaderValue.map uniform) =
      c.publicAccess := by
    cases c.publicAccess <;> decide +kernel
  rw [← uniform_eq_self_iff] at hetag hdate
  rw [readContainer, containerNode, textIn_entryNode, properties_entryNode, metadata_entryNode]
  generalize fieldNodes (containerFields c) = nodes at hfields
  simp only [containerFields, List.forall_mem_cons, Option.map_some] at hfields
  obtain ⟨hdate', hetag', -, -, haccess', -⟩ := hfields
  simp only [Option.bind_eq_bind, Option.bind_some, Node.children, hdate', hetag', hetag, hdate,
    haccess', haccess, ContainerProps.mapTexts]

/-! ### Whole trees -/

variable {asked : List (String × Option String)} {values : List (List Char × List Char)}
  {root : List Char} {entries : List Node} {nextMarker : Option String}

lemma find?_fieldNodes_of_forall (h : ∀ f ∈ asked, f.1 ≠ name) :
    (fieldNodes asked).find? (Node.hasName name.toList) = none := by
  rw [fieldNodes]
  refine find?_leaves_of_forall ?_
  rw [List.forall_mem_map]
  exact fun f hf heq => h f hf (String.toList_inj.mp heq)

lemma child?_listingNodes (hasked : ∀ f ∈ asked, f.1 ≠ name) :
    (Node.element root values (listingNodes asked name entries nextMarker)).child? name.toList =
      some (.element name.toList [] entries) := by
  simp [Node.child?, Node.children, listingNodes, find?_fieldNodes_of_forall hasked]

lemma readMarker_listingNodes (hasked : ∀ f ∈ asked, f.1 ≠ "NextMarker")
    (hname : name ≠ "NextMarker") :
    readMarker (.element root values (listingNodes asked name entries nextMarker)) =
      some ((nextMarker.map uniform).filter (· ≠ "")) := by
  have hne : name.toList ≠ "NextMarker".toList := fun h => hname (String.toList_inj.mp h)
  have htext : textIn "NextMarker" (listingNodes asked name entries nextMarker) =
      some (uniform (nextMarker.getD "")) := by
    rw [textIn, listingNodes, List.find?_append, find?_fieldNodes_of_forall hasked, Option.none_or,
      List.find?_cons_of_neg (by simpa using hne),
      List.find?_cons_of_pos (by simp only [hasName_leaf, decide_true]), Option.map_some,
      content_leaf]
    rfl
  rw [readMarker, Node.children, htext, Option.map_some]
  cases nextMarker with
  | none => rfl
  | some s => by_cases h : uniform s = "" <;> simp [h, Option.filter_some]

end Trees

/-! ### Documents are read as their trees -/

/-- In an open element, the text is read as the nodes. -/
def Renders (s : String) (nodes : List Node) : Prop := Yields s.toList nodes

section Rendering

variable {name s t : String} {nodes nodes' : List Node}

lemma Renders.append (h : Renders s nodes) (h' : Renders t nodes') :
    Renders (s ++ t) (nodes ++ nodes') := by
  rw [Renders, String.toList_append]
  exact Yields.append h h'

/-- Fields are read one by one. -/
lemma renders_fields {texts : List String} {fields : List (String × Option String)}
    (h : List.Forall₂ (fun text field => Renders text (fieldNodes [field])) texts fields) :
    Renders (String.join texts) (fieldNodes fields) := by
  induction h with
  | nil => exact yields_nil
  | @cons text field texts fields hfield _ ih =>
    have hnodes : fieldNodes (field :: fields) = fieldNodes [field] ++ fieldNodes fields := by
      rw [← List.singleton_append, fieldNodes, List.map_append, leaves, List.filterMap_append]
      rfl
    have htexts : String.join (text :: texts) = text ++ String.join texts := by
      rw [← String.toList_inj, String.toList_join, String.toList_append, String.toList_join,
        List.flatMap_cons]
    rw [hnodes, htexts]
    exact hfield.append ih

lemma renders_join {α : Type} {l : List α} {write : α → String} {nodesOf : α → List Node}
    (h : ∀ x ∈ l, Renders (write x) (nodesOf x)) :
    Renders (String.join (l.map write)) (l.flatMap nodesOf) := by
  rw [Renders, String.toList_join, List.flatMap_map]
  exact yields_flatMap h

lemma toList_element (name text : String) :
    (element name text).toList =
      '<' :: name.toList ++ '>' :: text.toList ++ '<' :: '/' :: name.toList ++ ['>'] := by
  simp [element]

lemma renders_element (h : isName name.toList = true) (hinner : Renders s nodes) :
    Renders (element name s) [.element name.toList [] nodes] := by
  rw [Renders, toList_element]
  exact yields_element h hinner.fills

lemma renders_run (h : isName name.toList = true) {r : Run} (hr : r.Readable)
    (hwrite : r.write = t.toList) (hchars : r.chars = s.toList) :
    Renders (element name t) (fieldNodes [(name, some s)]) := by
  have hleaf := yields_leaf h hr
  rw [hwrite, hchars] at hleaf
  rw [Renders, toList_element]
  exact hleaf

lemma not_mem_write_escapeRun {d : Char} (hd : d = '>' ∨ d = '"') (s : String) :
    d ∉ (escapeRun s).write := by
  rw [Run.write, List.mem_flatMap]
  rintro ⟨x, hx, hmem⟩
  obtain ⟨c, -, rfl⟩ := List.mem_map.mp hx
  rw [write_escapeData, escapeChar] at hmem
  split_ifs at hmem with hamp hlt hgt hquot hapos
  all_goals rcases hd with rfl | rfl <;> simp at hmem
  · exact hgt hmem.symm
  · exact hquot hmem.symm

lemma readable_escapeRun (h : ∀ c ∈ s.toList, isXmlChar c = true) : (escapeRun s).Readable where
  line x hx heol := by
    obtain ⟨c, -, rfl⟩ := List.mem_map.mp hx
    rw [char_escapeData] at heol ⊢
    rw [write_escapeData]
    rcases heol with rfl | rfl <;> decide +kernel
  closing := not_mem_write_escapeRun (.inl rfl) s
  xml := by
    rw [chars_escapeRun]
    exact h

lemma renders_escaped (h : isName name.toList = true) (hs : ∀ c ∈ s.toList, isXmlChar c = true) :
    Renders (element name (xmlEscape s)) (fieldNodes [(name, some s)]) :=
  renders_run h (readable_escapeRun hs) (write_escapeRun s) (chars_escapeRun s)

lemma renders_optional {v : Option String} (h : isName name.toList = true)
    (hv : ∀ s ∈ v.toList, ∀ c ∈ s.toList, isXmlChar c = true) :
    Renders (optional name v) (fieldNodes [(name, v)]) := by
  cases v with
  | none => exact yields_nil
  | some s => exact renders_escaped h (hv s (by simp))

lemma of_isStampChar {c : Char} (h : isStampChar c = true) :
    (c ≠ '<' ∧ c ≠ '&') ∧ c ≠ '>' ∧ c ≠ '\r' ∧ isXmlChar c = true := by
  have hne : ∀ d, isStampChar d = false → c ≠ d := by
    rintro d hd rfl
    rw [h] at hd
    cases hd
  refine ⟨⟨hne '<' (by decide +kernel), hne '&' (by decide +kernel)⟩, hne '>' (by decide +kernel),
    hne '\r' (by decide +kernel), ?_⟩
  have hrange : 0x20 ≤ c.toNat ∧ c.toNat ≤ 0xD7FF := by
    simp only [isStampChar, Bool.or_eq_true, Text.isAlphanum_iff, Text.isAlpha_iff,
      decide_eq_true_eq, List.mem_cons, List.not_mem_nil, or_false] at h
    rcases h with (h | h) | rfl | rfl | rfl | rfl
    · omega
    · omega
    all_goals decide
  simp [isXmlChar, inRanges, hrange]

/-- Etags, dates, numbers and words are read as they are. -/
lemma renders_plain (h : isName name.toList = true) (hs : ∀ c ∈ s.toList, isStampChar c = true) :
    Renders (element name s) (fieldNodes [(name, some s)]) := by
  obtain ⟨r, hwrite, hchars, hline⟩ := exists_literal_run fun c hc => (of_isStampChar (hs c hc)).1
  refine renders_run h ⟨hline, ?_, ?_⟩ hwrite hchars
  · rw [hwrite]
    exact fun hmem => (of_isStampChar (hs '>' hmem)).2.1 rfl
  · rw [hchars]
    exact fun c hc => (of_isStampChar (hs c hc)).2.2.2

lemma isStampChar_toString (n : ℕ) : ∀ c ∈ (toString n).toList, isStampChar c = true := by
  rw [toList_toString]
  exact Text.forall_mem_toDigits (by decide +kernel) (by omega) n

end Rendering

/-- Every text is made of characters that a document may be made of. -/
def IsXml (texts : List String) : Prop := ∀ s ∈ texts, ∀ c ∈ s.toList, isXmlChar c = true

instance (texts : List String) : Decidable (IsXml texts) :=
  inferInstanceAs (Decidable (∀ s ∈ texts, ∀ c ∈ s.toList, isXmlChar c = true))

/-- Every key may be the name of an element. -/
def Metadata.Named (m : Metadata) : Prop := ∀ e ∈ m.entries, isName e.1.toList = true

instance (m : Metadata) : Decidable (Metadata.Named m) :=
  inferInstanceAs (Decidable (∀ e ∈ m.entries, isName e.1.toList = true))

section Entries

variable {m : Metadata} {p : BlobProps} {c : ContainerProps}

/-- A name is not changed by escaping. -/
lemma xmlEscape_of_isName {s : String} (h : isName s.toList = true) : xmlEscape s = s := by
  have hne : ∀ d, isNameChar d = false → ∀ c ∈ s.toList, c ≠ d := by
    rintro d hd c hc rfl
    rw [isNameChar_of_isName h c hc] at hd
    cases hd
  have hsame : ∀ c ∈ s.toList, (escapeChar c).toList = [c] := by
    intro c hc
    rw [escapeChar, if_neg (hne '&' (by decide) c hc), if_neg (hne '<' (by decide) c hc),
      if_neg (hne '>' (by decide) c hc), if_neg (hne '"' (by decide) c hc),
      if_neg (hne '\'' (by decide) c hc), String.toList_singleton]
  rw [← String.toList_inj, xmlEscape, String.toList_join, Text.chars_eq, List.flatMap_map,
    List.flatMap_congr hsame, List.flatMap_singleton']

lemma renders_metadata (hnamed : Metadata.Named m) (hxml : IsXml (m.entries.map Sigma.snd)) :
    Renders (metadataElements m) (metadataNodes m) := by
  have hnodes : metadataNodes m = m.entries.flatMap fun e => fieldNodes [(e.1, some e.2)] := by
    simp only [fieldNodes_some, metadataNodes, List.map_eq_flatMap]
  rw [hnodes]
  refine renders_join fun e he => ?_
  rw [xmlEscape_of_isName (hnamed e he)]
  exact renders_escaped (hnamed e he) (hxml e.2 (List.mem_map_of_mem he))

lemma renders_entry {kind name properties : String} {fields : List (String × Option String)}
    (hkind : isName kind.toList = true) (hname : IsXml [name])
    (hproperties : Renders properties (fieldNodes fields))
    (hmetadata : Renders (metadataElements m) (metadataNodes m)) :
    Renders (element kind (element "Name" (xmlEscape name) ++ element "Properties" properties ++
      element "Metadata" (metadataElements m))) [entryNode kind name fields m] := by
  have hleaf : Renders (element "Name" (xmlEscape name)) [leaf "Name".toList name.toList] := by
    rw [← fieldNodes_some]
    exact renders_escaped (by decide) (hname name (by simp))
  have hproperties' : Renders (element "Properties" properties)
      [.element "Properties".toList [] (fieldNodes fields)] :=
    renders_element (by decide) hproperties
  have hmetadata' : Renders (element "Metadata" (metadataElements m))
      [.element "Metadata".toList [] (metadataNodes m)] :=
    renders_element (by decide) hmetadata
  exact renders_element hkind ((hleaf.append hproperties').append hmetadata')

lemma element_eq {text : String} (name start stop : String) (hstart : "<" ++ name ++ ">" = start)
    (hstop : "</" ++ name ++ ">" = stop) : element name text = start ++ (text ++ stop) := by
  rw [← hstart, ← hstop, element]
  simp only [String.append_assoc]

lemma lease_eq : lease = element "LeaseStatus" "unlocked" ++ element "LeaseState" "available" := by
  decide +kernel

/-- The texts of the properties of a blob. -/
def propertyTexts (p : BlobProps) : List String :=
  [element "Last-Modified" p.lastModified, element "Etag" p.etag,
    element "Content-Length" (toString p.contentLength), optional "Content-Type" p.contentType,
    optional "Content-MD5" p.contentMd5, optional "Content-Encoding" p.contentEncoding,
    optional "Content-Language" p.contentLanguage, optional "Cache-Control" p.cacheControl,
    optional "Content-Disposition" p.contentDisposition, element "BlobType" p.blobType.asStr,
    element "LeaseStatus" "unlocked", element "LeaseState" "available"]

lemma blobElement_eq (p : BlobProps) :
    blobElement p = element "Blob" (element "Name" (xmlEscape p.name) ++
      element "Properties" (String.join (propertyTexts p)) ++
      element "Metadata" (metadataElements p.metadata)) := by
  delta blobElement
  rw [element_eq "Blob" "<Blob>" "</Blob>" rfl rfl,
    element_eq "Properties" "<Properties>" "</Properties>" rfl rfl,
    element_eq "Metadata" "<Metadata>" "</Metadata>" rfl rfl, lease_eq]
  simp only [propertyTexts, String.join, List.foldl_cons, List.foldl_nil, String.empty_append,
    String.append_assoc]

/-- The element of a blob is read as its tree. -/
lemma renders_blob (hstamped : Stamped p.etag p.lastModified) (hnamed : Metadata.Named p.metadata)
    (hxml : IsXml p.texts) : Renders (blobElement p) [blobNode p] := by
  obtain ⟨hetag, hdate⟩ := hstamped.isStampChar
  have htype : ∀ c ∈ p.blobType.asStr.toList, isStampChar c = true := by
    cases p.blobType <;> decide +kernel
  simp only [IsXml, BlobProps.texts, List.cons_append, List.forall_mem_cons,
    List.forall_mem_append, List.flatMap_cons, List.flatMap_nil, List.append_nil] at hxml
  obtain ⟨hname, ⟨hcontent, hmd5, hencoding, hlanguage, hcache, hdisposition⟩, hvalues⟩ := hxml
  rw [blobElement_eq]
  refine renders_entry (by decide) (by simpa [IsXml] using hname) (renders_fields ?_)
    (renders_metadata hnamed hvalues)
  exact .cons (renders_plain (by decide) hdate) <| .cons (renders_plain (by decide) hetag) <|
    .cons (renders_plain (by decide) (isStampChar_toString _)) <|
    .cons (renders_optional (by decide) hcontent) <| .cons (renders_optional (by decide) hmd5) <|
    .cons (renders_optional (by decide) hencoding) <|
    .cons (renders_optional (by decide) hlanguage) <| .cons (renders_optional (by decide) hcache) <|
    .cons (renders_optional (by decide) hdisposition) <|
    .cons (renders_plain (by decide) htype) <|
    .cons (renders_plain (by decide) (by decide +kernel)) <|
    .cons (renders_plain (by decide) (by decide +kernel)) .nil

/-- The texts of the properties of a container. -/
def containerTexts (c : ContainerProps) : List String :=
  [element "Last-Modified" c.lastModified, element "Etag" c.etag,
    element "LeaseStatus" "unlocked", element "LeaseState" "available",
    (c.publicAccess.asHeaderValue.map (element "PublicAccess")).getD ""]

lemma containerElement_eq (c : ContainerProps) :
    containerElement c = element "Container" (element "Name" (xmlEscape c.name) ++
      element "Properties" (String.join (containerTexts c)) ++
      element "Metadata" (metadataElements c.metadata)) := by
  delta containerElement
  rw [element_eq "Container" "<Container>" "</Container>" rfl rfl,
    element_eq "Properties" "<Properties>" "</Properties>" rfl rfl,
    element_eq "Metadata" "<Metadata>" "</Metadata>" rfl rfl, lease_eq]
  simp only [containerTexts, String.join, List.foldl_cons, List.foldl_nil, String.empty_append,
    String.append_assoc]

/-- The element of a container is read as its tree. -/
lemma renders_container (hstamped : Stamped c.etag c.lastModified)
    (hnamed : Metadata.Named c.metadata) (hxml : IsXml c.texts) :
    Renders (containerElement c) [containerNode c] := by
  obtain ⟨hetag, hdate⟩ := hstamped.isStampChar
  have haccess : Renders ((c.publicAccess.asHeaderValue.map (element "PublicAccess")).getD "")
      (fieldNodes [("PublicAccess", c.publicAccess.asHeaderValue)]) := by
    cases c.publicAccess with
    | off => exact yields_nil
    | blob => exact renders_plain (by decide) (by decide +kernel)
    | container => exact renders_plain (by decide) (by decide +kernel)
  simp only [IsXml, ContainerProps.texts, List.forall_mem_cons] at hxml
  rw [containerElement_eq]
  refine renders_entry (by decide) (by simpa [IsXml] using hxml.1) (renders_fields ?_)
    (renders_metadata hnamed hxml.2)
  exact .cons (renders_plain (by decide) hdate) <| .cons (renders_plain (by decide) hetag) <|
    .cons (renders_plain (by decide) (by decide +kernel)) <|
    .cons (renders_plain (by decide) (by decide +kernel)) <| .cons haccess .nil

end Entries

/-! ### Whole documents -/

/-- The document of a listing. -/
def listingText (attributes : List (String × String)) (asked : List String) (name entries : String)
    (nextMarker : Option String) : String :=
  declaration ++ ("<EnumerationResults" ++
    String.join (attributes.map fun a => " " ++ a.1 ++ "=\"" ++ xmlEscape a.2 ++ "\"") ++ ">" ++
    (String.join asked ++ element name entries ++
      element "NextMarker" (xmlEscape (nextMarker.getD ""))) ++ "</EnumerationResults>")

section Documents

variable {endpoint container : String} {namePrefix delimiter marker : Option String}
  {maxResults : UInt32}

/-- What was asked for in a request for blobs. -/
def askedBlobs (namePrefix delimiter marker : Option String) (maxResults : UInt32) :
    List (String × Option String) :=
  [("Prefix", some (namePrefix.getD "")), ("Delimiter", delimiter),
    ("Marker", some (marker.getD "")), ("MaxResults", some (toString maxResults))]

def askedContainers (namePrefix marker : Option String) (maxResults : UInt32) :
    List (String × Option String) :=
  [("Prefix", some (namePrefix.getD "")), ("Marker", some (marker.getD "")),
    ("MaxResults", some (toString maxResults))]

lemma enumeration_eq : "<EnumerationResults ServiceEndpoint=\"" =
    "<EnumerationResults" ++ (" " ++ ("ServiceEndpoint" ++ "=\"")) := rfl

lemma containerName_eq :
    "\" ContainerName=\"" = "\"" ++ (" " ++ ("ContainerName" ++ "=\"")) := rfl

lemma quote_eq : "\">" = "\"" ++ ">" := rfl

lemma renderListBlobs_eq (page : BlobListPage) :
    renderListBlobs endpoint container namePrefix delimiter marker maxResults page =
      listingText [("ServiceEndpoint", endpoint), ("ContainerName", container)]
        [element "Prefix" (xmlEscape (namePrefix.getD "")), optional "Delimiter" delimiter,
          element "Marker" (xmlEscape (marker.getD "")),
          element "MaxResults" (toString maxResults)] "Blobs"
        (String.join (page.blobs.map blobElement) ++ String.join (page.blobPrefixes.map fun p =>
          element "BlobPrefix" (element "Name" (xmlEscape p)))) page.nextMarker := by
  have hbegins : ∀ p, element "BlobPrefix" (element "Name" (xmlEscape p)) =
      "<BlobPrefix>" ++ element "Name" (xmlEscape p) ++ "</BlobPrefix>" := by
    intro p
    rw [element_eq "BlobPrefix" "<BlobPrefix>" "</BlobPrefix>" rfl rfl, String.append_assoc]
  delta renderListBlobs listingText
  rw [enumeration_eq, containerName_eq, quote_eq, element_eq "Blobs" "<Blobs>" "</Blobs>" rfl rfl]
  simp only [hbegins, String.join, List.map_cons, List.map_nil, List.foldl_cons, List.foldl_nil,
    String.empty_append, String.append_assoc]

lemma renderListContainers_eq (page : ContainerListPage) :
    renderListContainers endpoint namePrefix marker maxResults page =
      listingText [("ServiceEndpoint", endpoint)]
        [element "Prefix" (xmlEscape (namePrefix.getD "")),
          element "Marker" (xmlEscape (marker.getD "")),
          element "MaxResults" (toString maxResults)] "Containers"
        (String.join (page.containers.map containerElement)) page.nextMarker := by
  delta renderListContainers listingText
  rw [enumeration_eq, quote_eq, element_eq "Containers" "<Containers>" "</Containers>" rfl rfl]
  simp only [String.join, List.map_cons, List.map_nil, List.foldl_cons, List.foldl_nil,
    String.empty_append, String.append_assoc]

/-- The document of a listing is read as its tree. -/
lemma exists_readDocument_listing {attributes : List (String × String)} {texts : List String}
    {asked : List (String × Option String)} {name entries : String} {nodes : List Node}
    {nextMarker : Option String} (hnames : ∀ n ∈ attributes.map Prod.fst, isName n.toList = true)
    (hnodup : (attributes.map Prod.fst).Nodup) (hvalues : IsXml (attributes.map Prod.snd))
    (hasked : List.Forall₂ (fun text field => Renders text (fieldNodes [field])) texts asked)
    (hname : isName name.toList = true) (hentries : Renders entries nodes)
    (hmarker : IsXml nextMarker.toList) :
    ∃ values, readDocument (listingText attributes texts name entries nextMarker) =
      some (.element "EnumerationResults".toList values
        (listingNodes asked name nodes nextMarker)) := by
  have hmarker' : IsXml [nextMarker.getD ""] := by
    cases nextMarker with
    | none => simp [IsXml]
    | some s => simpa [IsXml] using hmarker
  have hlast : Renders (element "NextMarker" (xmlEscape (nextMarker.getD "")))
      [leaf "NextMarker".toList (nextMarker.getD "").toList] := by
    rw [← fieldNodes_some]
    exact renders_escaped (by decide) (hmarker' _ (by simp))
  have hinner := ((renders_fields hasked).append (renders_element hname hentries)).append hlast
  rw [List.append_assoc] at hinner
  have hattributes : ReadableAttributes (attributes.map fun a => (a.1.toList, escapeRun a.2)) := by
    refine ⟨List.forall_mem_map.mpr (List.forall_mem_map.mp hnames), ?_,
      List.forall_mem_map.mpr fun a ha => ⟨?_, ?_⟩⟩
    · have hmap := hnodup.map fun _ _ => String.toList_inj.mp
      simpa [Function.comp_def] using hmap
    · exact readable_escapeRun (hvalues a.2 (List.mem_map_of_mem ha))
    · exact not_mem_write_escapeRun (.inr rfl) a.2
  have hquestion : '?' ∉ "version=\"1.0\" encoding=\"utf-8\"".toList := by decide
  refine exists_readDocument ?_ hquestion (by decide) hattributes hinner.fills
  have hdeclaration : declaration.toList = "<?xml ".toList ++
      "version=\"1.0\" encoding=\"utf-8\"".toList ++ "?>\n".toList := by
    decide +kernel
  have hwrite : (String.join (attributes.map fun a =>
      " " ++ a.1 ++ "=\"" ++ xmlEscape a.2 ++ "\"")).toList =
      writeAttributes (attributes.map fun a => (a.1.toList, escapeRun a.2)) := by
    rw [String.toList_join, List.flatMap_map, writeAttributes, List.flatMap_map]
    simp [write_escapeRun]
  rw [listingText, String.toList_append, hdeclaration]
  simp only [String.toList_append, hwrite]
  simp

end Documents

end BlobStore
