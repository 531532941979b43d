import BlobStore.Lib.Markup
import BlobStore.Xml.Render

/-!
# Block lists as documents

The body of Put Block List is read event by event: a start tag is remembered, and the next text is
the id of its block. Everything else is passed over, and so is what else belongs to the content of
an element: sections of character data, and the runs behind a comment.
-/

namespace BlobStore.Xml

open Codec Markup

/-! ### Documents -/

/-- What may stand between elements. -/
structure Gap where
  tokens : List Token
  misc : ∀ t ∈ tokens, t.IsMisc

/-- What an element contains: runs of characters, and something between every two of them. -/
structure Content where
  head : Run
  tail : List (Aside × Run)

def Content.tokens (content : Content) : List Token :=
  .run content.head :: content.tail.flatMap fun p => [.aside p.1, .run p.2]

def kindName : BlockRefKind → String
  | .committed   => "Committed"
  | .uncommitted => "Uncommitted"
  | .latest      => "Latest"

/-- An element for a block; it may be written as one tag. -/
structure Child where
  kind : BlockRefKind
  content : Option Content

namespace Child

/-- What is between the tags. -/
def inner (ch : Child) : List Token := ch.content.elim [] Content.tokens

def tokens (ch : Child) : List Token :=
  match ch.content with
  | some content => .start (kindName ch.kind) :: content.tokens ++ [.stop (kindName ch.kind)]
  | none         => [.empty (kindName ch.kind)]

/-- The whole content, as text. -/
def text (ch : Child) : List Char := charsOf ch.inner

end Child

/-- The content of the element that contains the others. -/
structure Root where
  children : List (Gap × Child)
  last : Gap

def Root.tokens (root : Root) : List Token :=
  (root.children.flatMap fun p => p.1.tokens ++ p.2.tokens) ++ root.last.tokens

/-- A block list; one without blocks may be written as one tag. A declaration is an instruction. -/
structure Document where
  prolog : Gap
  root : Option Root
  epilog : Gap

namespace Document

/-- The document up to the end of its element. -/
def body (doc : Document) : List Token :=
  doc.prolog.tokens ++ match doc.root with
  | some root => .start "BlockList" :: root.tokens ++ [.stop "BlockList"]
  | none      => [.empty "BlockList"]

def tokens (doc : Document) : List Token := doc.body ++ doc.epilog.tokens

def text (doc : Document) : String := String.ofList (writeTokens doc.tokens)

def children (doc : Document) : List Child := doc.root.elim [] fun root => root.children.map Prod.snd

end Document

/-! ### Events -/

variable {unescape : String → Except String String}

/-- What the reader reports of a token: runs without the blanks around them, and no blank run. -/
def event? (unescape : String → Except String String) : Token → Option Event
  | .start name => some (.start name)
  | .run r      =>
    if r.isBlank then none else some (.text (unescape (String.ofList (Markup.trim r.write))))
  | _           => some .other

def eventsOf (unescape : String → Except String String) (ts : List Token) :
    List (Except String Event) :=
  (ts.filterMap (event? unescape)).map .ok

@[simp] lemma eventsOf_append (ts us : List Token) :
    eventsOf unescape (ts ++ us) = eventsOf unescape ts ++ eventsOf unescape us := by
  simp [eventsOf]

@[simp] lemma eventsOf_nil : eventsOf unescape [] = [] := rfl

@[simp] lemma eventsOf_cons (t : Token) (ts : List Token) :
    eventsOf unescape (t :: ts) =
      ((event? unescape t).map Except.ok).toList ++ eventsOf unescape ts := by
  rw [eventsOf, List.filterMap_cons]
  cases event? unescape t <;> rfl

/-- Tokens within a content. -/
def IsInner : Token → Prop
  | .run _   => True
  | .aside _ => True
  | _        => False

lemma Content.isInner (content : Content) : ∀ t ∈ content.tokens, IsInner t := by
  intro t ht
  simp only [tokens, List.mem_cons, List.mem_flatMap] at ht
  rcases ht with rfl | ⟨p, -, ht⟩
  · trivial
  · simp only [List.not_mem_nil, or_false] at ht
    rcases ht with rfl | rfl <;> trivial

lemma Child.isInner (ch : Child) : ∀ t ∈ ch.inner, IsInner t := by
  rw [Child.inner]
  cases ch.content with
  | none => simp
  | some content => exact content.isInner

/-! ### Reading -/

section Reading

variable (hu : Unescapes unescape)

/-- The id that is read from a run. -/
def idOf (r : Run) : String := String.ofList r.trim.chars

/-- The reference that is read from an element, if there is one. -/
def Child.ref? (ch : Child) : Option BlockRef :=
  (firstRun ch.inner).map fun r => ⟨idOf r, ch.kind⟩

/-- What is no text is passed over. -/
lemma readRefs_misc {ts : List Token} (h : ∀ t ∈ ts, t.IsMisc) (k : Option BlockRefKind)
    (rest : List (Except String Event)) :
    readRefs k (eventsOf unescape ts ++ rest) = readRefs k rest := by
  induction ts with
  | nil => rfl
  | cons t ts ih =>
    obtain ⟨ht, hts⟩ := List.forall_mem_cons.mp h
    rw [eventsOf_cons, List.append_assoc]
    cases t with
    | run r =>
      have hblank : r.isBlank = true := ht
      simpa [event?, hblank] using ih hts
    | aside a => simpa [event?, readRefs] using ih hts
    | start name => exact ht.elim
    | empty name => exact ht.elim
    | stop name => exact ht.elim

/-- After the text of an element, its content is passed over. -/
lemma readRefs_none {ts : List Token} (h : ∀ t ∈ ts, IsInner t)
    (rest : List (Except String Event)) :
    readRefs none (eventsOf unescape ts ++ rest) = readRefs none rest := by
  induction ts with
  | nil => rfl
  | cons t ts ih =>
    obtain ⟨ht, hts⟩ := List.forall_mem_cons.mp h
    rw [eventsOf_cons, List.append_assoc]
    cases t with
    | run r =>
      cases hblank : r.isBlank with
      | true => simpa [event?, hblank] using ih hts
      | false => simpa [event?, hblank, readRefs] using ih hts
    | aside a => simpa [event?, readRefs] using ih hts
    | start name => exact ht.elim
    | empty name => exact ht.elim
    | stop name => exact ht.elim

include hu

lemma unescape_trim (r : Run) :
    unescape (String.ofList (Markup.trim r.write)) = .ok (idOf r) := by
  rw [← Run.write_trim, hu.run, idOf]

/-- The first run of an element is its id. -/
lemma readRefs_some {ts : List Token} (h : ∀ t ∈ ts, IsInner t) (kind : BlockRefKind)
    (rest : List (Except String Event)) :
    readRefs (some kind) (eventsOf unescape ts ++ rest) =
      match firstRun ts with
      | some r => (readRefs none rest).map (⟨idOf r, kind⟩ :: ·)
      | none   => readRefs (some kind) rest := by
  induction ts with
  | nil => rfl
  | cons t ts ih =>
    obtain ⟨ht, hts⟩ := List.forall_mem_cons.mp h
    rw [eventsOf_cons, List.append_assoc]
    cases t with
    | run r =>
      cases hblank : r.isBlank with
      | true => simpa [event?, hblank, firstRun] using ih hts
      | false =>
        simp only [event?, hblank, Bool.false_eq_true, if_false, Option.map_some,
          Option.toList_some, List.singleton_append, readRefs, unescape_trim hu, firstRun]
        exact congrArg _ (readRefs_none hts rest)
    | aside a => simpa [event?, readRefs, firstRun] using ih hts
    | start name => exact ht.elim
    | empty name => exact ht.elim
    | stop name => exact ht.elim

omit hu in
lemma refKind_kindName (kind : BlockRefKind) : refKind (kindName kind) = some kind := by
  cases kind <;> decide

/-- An element is read on its own, whatever was remembered before it. -/
lemma readRefs_child (ch : Child) (k : Option BlockRefKind) (rest : List (Except String Event)) :
    ∃ k', readRefs k (eventsOf unescape ch.tokens ++ rest) =
      (readRefs k' rest).map (ch.ref?.toList ++ ·) := by
  have hid : ∀ r : Except AzureError (List BlockRef), r.map ([] ++ ·) = r := by
    rintro (_ | _) <;> rfl
  cases hcontent : ch.content with
  | none =>
    have href : ch.ref? = none := by simp [Child.ref?, Child.inner, hcontent, firstRun]
    refine ⟨k, ?_⟩
    rw [href, Option.toList_none, hid, Child.tokens, hcontent]
    simp [event?, readRefs]
  | some content =>
    have hinner : ch.inner = content.tokens := by simp [Child.inner, hcontent]
    have hstop : ∀ k, readRefs k (eventsOf unescape [.stop (kindName ch.kind)] ++ rest) =
        readRefs k rest := by
      simp [event?, readRefs]
    have htokens : readRefs k (eventsOf unescape ch.tokens ++ rest) =
        readRefs (some ch.kind) (eventsOf unescape content.tokens ++
          (eventsOf unescape [.stop (kindName ch.kind)] ++ rest)) := by
      rw [Child.tokens, hcontent]
      simp [event?, readRefs, refKind_kindName]
    rw [htokens, readRefs_some hu content.isInner, Child.ref?, hinner]
    cases firstRun content.tokens with
    | none =>
      refine ⟨some ch.kind, ?_⟩
      rw [Option.map_none, Option.toList_none, hid]
      exact hstop _
    | some r => exact ⟨none, by rw [hstop]; rfl⟩

lemma readRefs_children (l : List (Gap × Child)) (k : Option BlockRefKind)
    (rest : List (Except String Event)) :
    ∃ k', readRefs k (eventsOf unescape (l.flatMap fun p => p.1.tokens ++ p.2.tokens) ++ rest) =
      (readRefs k' rest).map ((l.map Prod.snd).filterMap Child.ref? ++ ·) := by
  induction l generalizing k with
  | nil =>
    refine ⟨k, ?_⟩
    cases hread : readRefs k rest <;> simp [Except.map, hread]
  | cons p l ih =>
    obtain ⟨k₁, hchild⟩ := readRefs_child hu p.2 k
      (eventsOf unescape (l.flatMap fun p => p.1.tokens ++ p.2.tokens) ++ rest)
    obtain ⟨k₂, hl⟩ := ih k₁
    refine ⟨k₂, ?_⟩
    rw [List.flatMap_cons, eventsOf_append, eventsOf_append, List.append_assoc, List.append_assoc,
      readRefs_misc p.1.misc, hchild, hl, List.map_cons, List.filterMap_cons]
    cases readRefs k₂ rest with
    | error e => rfl
    | ok refs => cases p.2.ref? <;> simp [Except.map]

/-- A document is read element by element. -/
lemma readRefs_document (doc : Document) :
    readRefs none (eventsOf unescape doc.tokens) = .ok (doc.children.filterMap Child.ref?) := by
  have hrest : ∀ k, readRefs k (eventsOf unescape doc.epilog.tokens) = .ok [] := by
    intro k
    have hmisc : readRefs k (eventsOf unescape doc.epilog.tokens ++ []) = readRefs k [] :=
      readRefs_misc doc.epilog.misc k []
    rwa [List.append_nil] at hmisc
  rw [Document.tokens, Document.body, Document.children, eventsOf_append, eventsOf_append,
    List.append_assoc, readRefs_misc doc.prolog.misc]
  cases doc.root with
  | none => simpa [event?, readRefs] using hrest none
  | some root =>
    obtain ⟨k, hchildren⟩ := readRefs_children hu root.children none
      (eventsOf unescape root.last.tokens ++ (eventsOf unescape [.stop "BlockList"] ++
        eventsOf unescape doc.epilog.tokens))
    have hkind : refKind "BlockList" = none := by decide
    have hstop : ∀ k, readRefs k (eventsOf unescape [.stop "BlockList"] ++
        eventsOf unescape doc.epilog.tokens) = .ok [] := by
      intro k
      simpa [event?, readRefs] using hrest k
    rw [readRefs_misc root.last.misc, hstop] at hchildren
    simp only [Root.tokens, List.cons_append, eventsOf_cons, event?, eventsOf_append, Option.map_some,
      Option.toList_some, List.append_assoc, readRefs, hkind] at hchildren ⊢
    simpa [Except.map] using hchildren

end Reading

/-! ### What is read faithfully -/

/-- Every element is read in its place, with its kind and, but for the blanks around it, its whole
text. -/
def Document.Faithful (doc : Document) (refs : List BlockRef) : Prop :=
  List.Forall₂ (fun ch ref => ref.kind = ch.kind ∧ Markup.trim ref.blockId.toList = Markup.trim ch.text)
    doc.children refs

section Bodies

variable (hu : Unescapes unescape) (doc : Document) (xmlEvents : Bytes → List (Except String Event))
  (hread : xmlEvents (Text.bytes doc.text) = eventsOf unescape doc.tokens)
include hu hread

lemma parse_document :
    parseBlockListRequest (xmlEvents (Text.bytes doc.text)) =
      match doc.children.filterMap Child.ref? with
      | []          => .error (.new .invalidBlockList)
      | ref :: refs => .ok (ref :: refs) := by
  rw [hread, parseBlockListRequest, readRefs_document hu]
  cases doc.children.filterMap Child.ref? <;> rfl

end Bodies

/-! ### Escaped texts -/

/-- What an escaped character is as a part of a run. -/
def escapeData (c : Char) : CharData :=
  if hamp : c = '&' then .reference ['a', 'm', 'p'] c (by rw [hamp]; rfl)
  else if hlt : c = '<' then .reference ['l', 't'] c (by rw [hlt]; rfl)
  else if hgt : c = '>' then .reference ['g', 't'] c (by rw [hgt]; rfl)
  else if hquot : c = '"' then .reference ['q', 'u', 'o', 't'] c (by rw [hquot]; rfl)
  else if hapos : c = '\'' then .reference ['a', 'p', 'o', 's'] c (by rw [hapos]; rfl)
  else .literal c ⟨hlt, hamp⟩

def escapeRun (s : String) : Run := s.toList.map escapeData

lemma char_escapeData (c : Char) : (escapeData c).char = c := by
  unfold escapeData
  split_ifs <;> rfl

lemma write_escapeData (c : Char) : (escapeData c).write = (escapeChar c).toList := by
  unfold escapeData escapeChar
  split_ifs <;> simp [CharData.write]

@[simp] lemma chars_escapeRun (s : String) : (escapeRun s).chars = s.toList := by
  simp [escapeRun, Run.chars, Function.comp_def, char_escapeData]

/-- What `xml_escape` writes. -/
lemma write_escapeRun (s : String) : (escapeRun s).write = (xmlEscape s).toList := by
  rw [xmlEscape, String.toList_join, Text.chars_eq, Run.write, escapeRun, List.flatMap_map,
    List.flatMap_map]
  simp only [write_escapeData]

/-- The document has an element for every reference, in order, with the escaped id in it. -/
def Document.Encodes (doc : Document) (refs : List BlockRef) : Prop :=
  List.Forall₂ (fun ch ref => ch.kind = ref.kind ∧ ∃ r : Run, ch.content = some ⟨r, []⟩ ∧
    r.write = (xmlEscape ref.blockId).toList) doc.children refs

section Encoding

variable (hu : Unescapes unescape)
include hu

/-- Whatever is written as an escaped text stands for the text. -/
lemma chars_of_write {r : Run} {s : String} (h : r.write = (xmlEscape s).toList) :
    r.chars = s.toList := by
  have hrun := hu.run r
  rw [h, ← write_escapeRun, hu.run, Except.ok.injEq, chars_escapeRun] at hrun
  exact (String.ofList_injective hrun).symm

/-- A text without blanks around it is read as it is. -/
lemma firstRun_of_write {r : Run} {s : String} (h : r.write = (xmlEscape s).toList)
    (hne : s ≠ "") (htrim : Markup.trim s.toList = s.toList) :
    firstRun (Content.tokens ⟨r, []⟩) = some r ∧ idOf r = s := by
  have hchars := chars_of_write hu h
  have hblank : r.isBlank = false := by
    rw [Bool.eq_false_iff]
    intro hblank
    have hempty := trim_append_blank (Run.isBlank_chars hblank) []
    rw [List.nil_append, hchars, htrim] at hempty
    exact hne (String.toList_eq_nil_iff.mp hempty)
  refine ⟨by simp [Content.tokens, firstRun, hblank], ?_⟩
  rw [← hchars] at htrim
  rw [idOf, Run.trim_eq_of_chars htrim, hchars, String.ofList_toList]

lemma refs_of_encodes {doc : Document} {refs : List BlockRef} (hdoc : doc.Encodes refs)
    (hids : ∀ ref ∈ refs, ref.blockId ≠ "" ∧ Markup.trim ref.blockId.toList = ref.blockId.toList) :
    doc.children.filterMap Child.ref? = refs := by
  rw [Document.Encodes] at hdoc
  generalize doc.children = children at hdoc
  induction hdoc with
  | nil => rfl
  | @cons ch ref children refs hchild _ ih =>
    obtain ⟨hkind, r, hcontent, hwrite⟩ := hchild
    obtain ⟨⟨hne, htrim⟩, hids⟩ := List.forall_mem_cons.mp hids
    obtain ⟨hfirst, hid⟩ := firstRun_of_write hu hwrite hne htrim
    have href : ch.ref? = some ref := by
      rw [Child.ref?, Child.inner, hcontent, Option.elim_some, hfirst, Option.map_some, hid, hkind]
    rw [List.filterMap_cons, href, ih hids]

/-- A block list that encodes references is read as these references. -/
theorem block_list_round_trip {doc : Document} {refs : List BlockRef}
    (xmlEvents : Bytes → List (Except String Event))
    (hread : xmlEvents (Text.bytes doc.text) = eventsOf unescape doc.tokens)
    (hdoc : doc.Encodes refs) (hne : refs ≠ [])
    (hids : ∀ ref ∈ refs, ref.blockId ≠ "" ∧ Markup.trim ref.blockId.toList = ref.blockId.toList) :
    parseBlockListRequest (xmlEvents (Text.bytes doc.text)) = .ok refs := by
  have hrefs := refs_of_encodes hu hdoc hids
  rw [parse_document hu doc xmlEvents hread, hrefs]
  cases refs with
  | nil => exact absurd rfl hne
  | cons ref refs => rfl

end Encoding

/-! ### Some block lists -/

/-- A document without blanks between its elements. -/
def sampleDocument (children : List Child) : Document where
  prolog := ⟨[], by simp⟩
  root   := some ⟨children.map fun ch => (⟨[], by simp⟩, ch), ⟨[], by simp⟩⟩
  epilog := ⟨[], by simp⟩

/-- A block with an id that has to be escaped, and another one. -/
def sampleBlockList : Document :=
  sampleDocument [⟨.latest, some ⟨escapeRun "A&A=", []⟩⟩, ⟨.committed, some ⟨escapeRun "BBBB", []⟩⟩]

lemma encodes_sampleBlockList :
    sampleBlockList.Encodes [⟨"A&A=", .latest⟩, ⟨"BBBB", .committed⟩] :=
  .cons ⟨rfl, _, rfl, write_escapeRun _⟩ (.cons ⟨rfl, _, rfl, write_escapeRun _⟩ .nil)

theorem block_list_round_trip_two :
    parseBlockListRequest (eventsOf Markup.unescape sampleBlockList.tokens) =
      .ok [⟨"A&A=", .latest⟩, ⟨"BBBB", .committed⟩] :=
  block_list_round_trip unescapes_unescape
    (fun _ => eventsOf Markup.unescape sampleBlockList.tokens) rfl encodes_sampleBlockList
    (by simp) (by decide)

end BlobStore.Xml
