import BlobStore.Api.Handlers
import BlobStore.Auth.Canonical
import BlobStore.Xml.ListingTrees

/-!
# The bodies of listings

The document of a listing is read back, and is the page that was written, unless a key of metadata
cannot be the name of an element, a text has an end of line that documents do not keep, or the next
marker is empty.
-/

namespace BlobStore

open Markup Xml

/-! ### Reading back -/

/-- A listing is the same when it has been written and read: its keys are names, its texts have no
carriage return, and its marker is not empty. -/
structure Restorable (metadata : List Metadata) (texts : List String) (nextMarker : Option String) :
    Prop where
  named : ∀ m ∈ metadata, Metadata.Named m
  lines : ∀ s ∈ texts, '\r' ∉ s.toList
  marker : nextMarker ≠ some ""

section Restoring

variable {node root : Node} {m : Metadata} {p : BlobProps} {c : ContainerProps}

lemma Stamped.lines {etag lastModified : String} (h : Stamped etag lastModified) :
    '\r' ∉ etag.toList ∧ '\r' ∉ lastModified.toList := by
  obtain ⟨hetag, hdate⟩ := h.isStampChar
  exact ⟨fun hmem => (of_isStampChar (hetag _ hmem)).2.2.1 rfl,
    fun hmem => (of_isStampChar (hdate _ hmem)).2.2.1 rfl⟩

lemma marker_eq_self_iff {marker : Option String} :
    (marker.map uniform).filter (· ≠ "") = marker ↔
      (∀ s ∈ marker.toList, '\r' ∉ s.toList) ∧ marker ≠ some "" := by
  cases marker with
  | none => simp
  | some s =>
    simp only [Option.map_some, Option.filter_some, Option.toList_some, List.forall_mem_singleton,
      ← uniform_eq_self_iff]
    by_cases h : uniform s = ""
    · rw [h, if_neg (by simp)]
      constructor
      · simp
      · rintro ⟨rfl, hne⟩
        exact absurd rfl hne
    · rw [if_pos (by simpa using h), Option.some.injEq]
      exact ⟨fun heq => ⟨heq, fun hs => h (heq.trans (Option.some.inj hs))⟩, And.left⟩

lemma mapM_eq_map {α β : Type} {read : Node → Option β} {write : α → Node} {f : α → β} {l : List α}
    (h : ∀ x ∈ l, read (write x) = some (f x)) : (l.map write).mapM read = some (l.map f) := by
  rw [Paging.mapM_eq_some_iff, List.forall₂_map_left_iff, List.forall₂_map_right_iff,
    List.forall₂_same]
  exact h

section Pages

variable {asked : List (String × Option String)} {values : List (List Char × List Char)}
  {name : List Char}

lemma readBlobPage_listingNodes {page : BlobListPage}
    (hasked : ∀ f ∈ asked, f.1 ≠ "Blobs" ∧ f.1 ≠ "NextMarker")
    (hstamped : ∀ p ∈ page.blobs, Stamped p.etag p.lastModified) :
    readBlobPage (.element name values (listingNodes asked "Blobs"
      (page.blobs.map blobNode ++ page.blobPrefixes.map prefixNode) page.nextMarker)) =
      some ⟨page.blobs.map fun p => p.mapTexts uniform, page.blobPrefixes.map uniform,
        (page.nextMarker.map uniform).filter (· ≠ "")⟩ := by
  have hblobs : (page.blobs.map blobNode ++ page.blobPrefixes.map prefixNode).filter
      (Node.hasName "Blob".toList) = page.blobs.map blobNode := by
    simp [List.filter_append, List.filter_map, Function.comp_def, blobNode, prefixNode, entryNode]
  have hprefixes : (page.blobs.map blobNode ++ page.blobPrefixes.map prefixNode).filter
      (Node.hasName "BlobPrefix".toList) = page.blobPrefixes.map prefixNode := by
    simp [List.filter_append, List.filter_map, Function.comp_def, blobNode, prefixNode, entryNode]
  have hreadBlobs := mapM_eq_map fun p hp =>
    readBlob_blobNode p (hstamped p hp).lines.1 (hstamped p hp).lines.2
  have hreadPrefixes : (page.blobPrefixes.map prefixNode).mapM
      (fun node => textIn "Name" node.children) = some (page.blobPrefixes.map uniform) :=
    mapM_eq_map fun s _ => by simp [textIn, prefixNode, Node.children, uniform]
  rw [readBlobPage, child?_listingNodes fun f hf => (hasked f hf).1,
    readMarker_listingNodes (fun f hf => (hasked f hf).2) (by simp)]
  simp only [Option.bind_eq_bind, Option.bind_some, Node.children_element, hblobs, hprefixes,
    hreadBlobs, hreadPrefixes]

lemma readContainerPage_listingNodes {page : ContainerListPage}
    (hasked : ∀ f ∈ asked, f.1 ≠ "Containers" ∧ f.1 ≠ "NextMarker")
    (hstamped : ∀ c ∈ page.containers, Stamped c.etag c.lastModified) :
    readContainerPage (.element name values (listingNodes asked "Containers"
      (page.containers.map containerNode) page.nextMarker)) =
      some ⟨page.containers.map fun c => c.mapTexts uniform,
        (page.nextMarker.map uniform).filter (· ≠ "")⟩ := by
  have hcontainers : (page.containers.map containerNode).filter
      (Node.hasName "Container".toList) = page.containers.map containerNode := by
    simp [List.filter_map, Function.comp_def, containerNode, entryNode]
  have hread := mapM_eq_map fun c hc =>
    readContainer_containerNode c (hstamped c hc).lines.1 (hstamped c hc).lines.2
  rw [readContainerPage, child?_listingNodes fun f hf => (hasked f hf).1,
    readMarker_listingNodes (fun f hf => (hasked f hf).2) (by simp)]
  simp only [Option.bind_eq_bind, Option.bind_some, Node.children_element, hcontainers, hread]

end Pages

/-- The keys that are read are names. -/
lemma named_of_readMetadata (hnode : node.Named) (h : readMetadata node = some m) :
    Metadata.Named m := by
  simp only [readMetadata, Option.dite_none_right_eq_some, Option.some.injEq] at h
  obtain ⟨_, rfl⟩ := h
  intro e he
  simp only [List.mem_map, List.mem_filterMap] at he
  obtain ⟨⟨name, text⟩, ⟨child, hchild, hentry⟩, rfl⟩ := he
  rw [String.toList_ofList]
  exact (hnode.of_mem hchild).isName_of_entry hentry

lemma named_of_readBlob (hnode : node.Named) (h : readBlob node = some p) :
    Metadata.Named p.metadata := by
  simp only [readBlob, Option.bind_eq_bind, Option.bind_eq_some_iff, Option.some.injEq] at h
  obtain ⟨_, -, _, -, _, -, _, -, _, ⟨child, hchild, hmetadata⟩, _, -, _, -, rfl⟩ := h
  exact named_of_readMetadata (hnode.of_child? hchild) hmetadata

lemma named_of_readContainer (hnode : node.Named) (h : readContainer node = some c) :
    Metadata.Named c.metadata := by
  simp only [readContainer, Option.bind_eq_bind, Option.bind_eq_some_iff, Option.some.injEq] at h
  obtain ⟨_, -, _, -, _, ⟨child, hchild, hmetadata⟩, _, -, _, -, rfl⟩ := h
  exact named_of_readMetadata (hnode.of_child? hchild) hmetadata

lemma named_of_readBlobPage {page : BlobListPage} (hroot : root.Named)
    (h : readBlobPage root = some page) : ∀ p ∈ page.blobs, Metadata.Named p.metadata := by
  simp only [readBlobPage, Option.bind_eq_bind, Option.bind_eq_some_iff, Option.some.injEq] at h
  obtain ⟨entries, hentries, blobs, hblobs, _, -, _, -, rfl⟩ := h
  intro p hp
  obtain ⟨node, hnode, hread⟩ := Paging.exists_of_mem_mapM hblobs hp
  have hnamed := (hroot.of_child? hentries).of_mem (List.mem_filter.mp hnode).1
  exact named_of_readBlob hnamed hread

lemma named_of_readContainerPage {page : ContainerListPage} (hroot : root.Named)
    (h : readContainerPage root = some page) :
    ∀ c ∈ page.containers, Metadata.Named c.metadata := by
  simp only [readContainerPage, Option.bind_eq_bind, Option.bind_eq_some_iff,
    Option.some.injEq] at h
  obtain ⟨entries, hentries, containers, hcontainers, _, -, rfl⟩ := h
  intro c hc
  obtain ⟨node, hnode, hread⟩ := Paging.exists_of_mem_mapM hcontainers hc
  have hnamed := (hroot.of_child? hentries).of_mem (List.mem_filter.mp hnode).1
  exact named_of_readContainer hnamed hread

end Restoring

section Listings

variable {endpoint : String} {namePrefix marker : Option String} (maxResults : UInt32)

lemma isXml_cons {s : String} {texts : List String} :
    IsXml (s :: texts) ↔ (∀ c ∈ s.toList, isXmlChar c = true) ∧ IsXml texts :=
  List.forall_mem_cons

/-- A value that is missing is written as an empty text. -/
lemma isXml_getD {v : Option String} (h : IsXml v.toList) :
    ∀ c ∈ (v.getD "").toList, isXmlChar c = true := by
  cases v with
  | none => simp
  | some s => exact h s (by simp)

/-- Where every key is a name, a listing is read as a page with uniform ends of lines. -/
lemma read_renderListBlobs {container : String} {delimiter : Option String} {page : BlobListPage}
    (hasked : IsXml (endpoint :: container :: namePrefix.toList ++ delimiter.toList ++
      marker.toList))
    (hxml : IsXml page.texts) (hstamped : ∀ p ∈ page.blobs, Stamped p.etag p.lastModified)
    (hnamed : ∀ p ∈ page.blobs, Metadata.Named p.metadata) :
    (readDocument (renderListBlobs endpoint container namePrefix delimiter marker maxResults
      page)).bind readBlobPage = some ⟨page.blobs.map fun p => p.mapTexts uniform,
        page.blobPrefixes.map uniform, (page.nextMarker.map uniform).filter (· ≠ "")⟩ := by
  simp only [IsXml, List.cons_append, List.forall_mem_cons, List.forall_mem_append] at hasked
  obtain ⟨hendpoint, hcontainer, ⟨hbegins, hdelimiter⟩, hmarker⟩ := hasked
  simp only [IsXml, BlobListPage.texts, List.forall_mem_append] at hxml
  obtain ⟨⟨hblobs, hprefixes⟩, hnext⟩ := hxml
  have hrenders : List.Forall₂ (fun text field => Renders text (fieldNodes [field]))
      [element "Prefix" (xmlEscape (namePrefix.getD "")), optional "Delimiter" delimiter,
        element "Marker" (xmlEscape (marker.getD "")), element "MaxResults" (toString maxResults)]
      (askedBlobs namePrefix delimiter marker maxResults) :=
    .cons (renders_escaped (by decide) (isXml_getD hbegins)) <|
    .cons (renders_optional (by decide) hdelimiter) <|
    .cons (renders_escaped (by decide) (isXml_getD hmarker)) <|
    .cons (renders_plain (by decide) (isStampChar_toString _)) .nil
  have hentries : Renders
      (String.join (page.blobs.map blobElement) ++ String.join (page.blobPrefixes.map fun p =>
        element "BlobPrefix" (element "Name" (xmlEscape p))))
      (page.blobs.map blobNode ++ page.blobPrefixes.map prefixNode) := by
    rw [List.map_eq_flatMap (f := blobNode), List.map_eq_flatMap (f := prefixNode)]
    refine (renders_join fun p hp => ?_).append (renders_join fun s hs => ?_)
    · exact renders_blob (hstamped p hp) (hnamed p hp) fun s hs =>
        hblobs s (List.mem_flatMap.mpr ⟨p, hp, hs⟩)
    · have hname : Renders (element "Name" (xmlEscape s)) [leaf "Name".toList s.toList] := by
        rw [← fieldNodes_some]
        exact renders_escaped (by decide) (hprefixes s hs)
      exact renders_element (by decide) hname
  have hattributes : ∀ n ∈ [("ServiceEndpoint", endpoint),
      ("ContainerName", container)].map Prod.fst, isName n.toList = true := by
    simp only [List.map_cons, List.map_nil]
    decide
  have hname : isName "Blobs".toList = true := by decide
  obtain ⟨values, hread⟩ := exists_readDocument_listing hattributes (by simp)
    (by simpa [IsXml] using ⟨hendpoint, hcontainer⟩) hrenders hname hentries hnext
  rw [renderListBlobs_eq, hread, Option.bind_some,
    readBlobPage_listingNodes (by simp [askedBlobs]) hstamped]

lemma read_renderListContainers {page : ContainerListPage}
    (hasked : IsXml (endpoint :: namePrefix.toList ++ marker.toList)) (hxml : IsXml page.texts)
    (hstamped : ∀ c ∈ page.containers, Stamped c.etag c.lastModified)
    (hnamed : ∀ c ∈ page.containers, Metadata.Named c.metadata) :
    (readDocument (renderListContainers endpoint namePrefix marker maxResults page)).bind
      readContainerPage = some ⟨page.containers.map fun c => c.mapTexts uniform,
        (page.nextMarker.map uniform).filter (· ≠ "")⟩ := by
  simp only [IsXml, List.cons_append, List.forall_mem_cons, List.forall_mem_append] at hasked
  obtain ⟨hendpoint, hbegins, hmarker⟩ := hasked
  simp only [IsXml, ContainerListPage.texts, List.forall_mem_append] at hxml
  obtain ⟨hcontainers, hnext⟩ := hxml
  have hrenders : List.Forall₂ (fun text field => Renders text (fieldNodes [field]))
      [element "Prefix" (xmlEscape (namePrefix.getD "")),
        element "Marker" (xmlEscape (marker.getD "")), element "MaxResults" (toString maxResults)]
      (askedContainers namePrefix marker maxResults) :=
    .cons (renders_escaped (by decide) (isXml_getD hbegins)) <|
    .cons (renders_escaped (by decide) (isXml_getD hmarker)) <|
    .cons (renders_plain (by decide) (isStampChar_toString _)) .nil
  have hentries : Renders (String.join (page.containers.map containerElement))
      (page.containers.map containerNode) := by
    rw [List.map_eq_flatMap (f := containerNode)]
    exact renders_join fun c hc => renders_container (hstamped c hc) (hnamed c hc) fun s hs =>
      hcontainers s (List.mem_flatMap.mpr ⟨c, hc, hs⟩)
  have hattributes : ∀ n ∈ [("ServiceEndpoint", endpoint)].map Prod.fst,
      isName n.toList = true := by
    simp only [List.map_cons, List.map_nil]
    decide
  have hname : isName "Containers".toList = true := by decide
  obtain ⟨values, hread⟩ := exists_readDocument_listing hattributes (by simp)
    (by simpa [IsXml] using hendpoint) hrenders hname hentries hnext
  rw [renderListContainers_eq, hread, Option.bind_some,
    readContainerPage_listingNodes (by simp [askedContainers]) hstamped]

/-- The body of a listing is read back as its page if and only if the page is restorable. -/
theorem listings_lossless_iff (hendpoint : IsXml [endpoint]) (hbegins : IsXml namePrefix.toList)
    (hmarker : IsXml marker.toList) :
    (∀ (container : String) (delimiter : Option String) (page : BlobListPage),
        IsXml (container :: delimiter.toList) → IsXml page.texts →
        (∀ p ∈ page.blobs, Stamped p.etag p.lastModified) →
        ((readDocument (renderListBlobs endpoint container namePrefix delimiter marker maxResults
            page)).bind readBlobPage = some page ↔
          Restorable (page.blobs.map BlobProps.metadata) page.texts page.nextMarker)) ∧
      ∀ page : ContainerListPage, IsXml page.texts →
        (∀ c ∈ page.containers, Stamped c.etag c.lastModified) →
        ((readDocument (renderListContainers endpoint namePrefix marker maxResults page)).bind
            readContainerPage = some page ↔
          Restorable (page.containers.map ContainerProps.metadata) page.texts page.nextMarker) := by
  constructor
  · intro container delimiter page hcontainer hxml hstamped
    have hasked : IsXml (endpoint :: container :: namePrefix.toList ++ delimiter.toList ++
        marker.toList) := by
      simp only [IsXml, List.cons_append, List.forall_mem_cons, List.forall_mem_append]
        at hendpoint hcontainer hbegins hmarker ⊢
      exact ⟨hendpoint.1, hcontainer.1, ⟨hbegins, hcontainer.2⟩, hmarker⟩
    have hread := read_renderListBlobs maxResults hasked hxml hstamped
    have hsame : (⟨page.blobs.map fun p => p.mapTexts uniform, page.blobPrefixes.map uniform,
        (page.nextMarker.map uniform).filter (· ≠ "")⟩ : BlobListPage) = page ↔
        (∀ s ∈ page.texts, '\r' ∉ s.toList) ∧ page.nextMarker ≠ some "" := by
      obtain ⟨blobs, blobPrefixes, nextMarker⟩ := page
      simp only [BlobListPage.mk.injEq, map_eq_self_iff, BlobProps.mapTexts_eq_self_iff,
        marker_eq_self_iff, uniform_eq_self_iff, BlobListPage.texts, List.forall_mem_append,
        List.forall_mem_flatMap, and_assoc]
    constructor
    · intro h
      obtain ⟨root, hroot, hpage⟩ := Option.bind_eq_some_iff.mp h
      have hnamed := named_of_readBlobPage (named_readDocument hroot) hpage
      rw [hread hnamed, Option.some.injEq, hsame] at h
      exact ⟨List.forall_mem_map.mpr hnamed, h.1, h.2⟩
    · intro h
      rw [hread (List.forall_mem_map.mp h.named), Option.some.injEq, hsame]
      exact ⟨h.lines, h.marker⟩
  · intro page hxml hstamped
    have hasked : IsXml (endpoint :: namePrefix.toList ++ marker.toList) := by
      simp only [IsXml, List.cons_append, List.forall_mem_cons, List.forall_mem_append]
        at hendpoint hbegins hmarker ⊢
      exact ⟨hendpoint.1, hbegins, hmarker⟩
    have hread := read_renderListContainers maxResults hasked hxml hstamped
    have hsame : (⟨page.containers.map fun c => c.mapTexts uniform,
        (page.nextMarker.map uniform).filter (· ≠ "")⟩ : ContainerListPage) = page ↔
        (∀ s ∈ page.texts, '\r' ∉ s.toList) ∧ page.nextMarker ≠ some "" := by
      obtain ⟨containers, nextMarker⟩ := page
      simp only [ContainerListPage.mk.injEq, map_eq_self_iff, ContainerProps.mapTexts_eq_self_iff,
        marker_eq_self_iff, uniform_eq_self_iff, ContainerListPage.texts, List.forall_mem_append,
        List.forall_mem_flatMap, and_assoc]
    constructor
    · intro h
      obtain ⟨root, hroot, hpage⟩ := Option.bind_eq_some_iff.mp h
      have hnamed := named_of_readContainerPage (named_readDocument hroot) hpage
      rw [hread hnamed, Option.some.injEq, hsame] at h
      exact ⟨List.forall_mem_map.mpr hnamed, h.1, h.2⟩
    · intro h
      rw [hread (List.forall_mem_map.mp h.named), Option.some.injEq, hsame]
      exact ⟨h.lines, h.marker⟩

end Listings

/-! ### Some listings -/

def sampleBlobListing (m : Metadata) : BlobListPage where
  blobs        := [⟨"a<b", .blockBlob, 2, some "text/plain", none, none, none, none, none, m,
    generateEtag 255, formatHttpDate ⟨2, 10, 8, 2026, 12, 34, 56⟩⟩]
  blobPrefixes := ["p/"]
  nextMarker   := some "a<b"

def sampleContainerListing : ContainerListPage where
  containers := [⟨"c", .blob, AList.insert "k" "v&w" ∅, generateEtag 255,
    formatHttpDate ⟨2, 10, 8, 2026, 12, 34, 56⟩⟩]
  nextMarker := none

theorem listings_lossless_plain :
    (readDocument (renderListBlobs "http://h/acc" "c" none (some "/") none 5000
        (sampleBlobListing (AList.insert "k" "v&w" ∅)))).bind readBlobPage =
      some (sampleBlobListing (AList.insert "k" "v&w" ∅)) ∧
    (readDocument (renderListContainers "http://h/acc" none none 5000 sampleContainerListing)).bind
      readContainerPage = some sampleContainerListing := by
  have hendpoint : IsXml ["http://h/acc"] := by decide +kernel
  have hnone : IsXml (none : Option String).toList := by decide
  have hiff := listings_lossless_iff 5000 hendpoint hnone hnone
  constructor
  · refine (hiff.1 "c" (some "/") _ (by decide +kernel) (by decide +kernel) ?_).mpr ?_
    · simp [sampleBlobListing, Stamped]
    · exact ⟨by decide +kernel, by decide +kernel, by decide⟩
  · refine (hiff.2 _ (by decide +kernel) ?_).mpr ?_
    · simp [sampleContainerListing, Stamped]
    · exact ⟨by decide +kernel, by decide +kernel, by decide⟩

/-- The metadata of a request with a key that an element may not have as its name. -/
def sampleKeyed : Metadata :=
  extractMetadata SharedKey.asciiLowercase [("x-ms-meta-1a", some "v")]

theorem listings_lossy :
    sampleKeyed.keys = ["1a"] ∧ IsXml (sampleBlobListing sampleKeyed).texts ∧
    (readDocument (renderListBlobs "http://h/acc" "c" none (some "/") none 5000
        (sampleBlobListing sampleKeyed))).bind readBlobPage ≠ some (sampleBlobListing sampleKeyed) := by
  refine ⟨by decide +kernel, by decide +kernel, fun h => ?_⟩
  obtain ⟨root, hroot, hpage⟩ := Option.bind_eq_some_iff.mp h
  have hnamed := named_of_readBlobPage (named_readDocument hroot) hpage
  have hnot : ¬ ∀ p ∈ (sampleBlobListing sampleKeyed).blobs, Metadata.Named p.metadata := by
    decide +kernel
  exact hnot hnamed

end BlobStore
