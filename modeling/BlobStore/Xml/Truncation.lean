import BlobStore.Xml.BlockListBody

/-!
# Block lists that are cut off

The end of the input is the end of the loop, whatever elements are open then. A body that breaks
off within a tag is an error of the reader, and one that breaks off within a reference an error of
the text; every other one is a shorter block list, if there is anything in it.
-/

namespace BlobStore.Xml

open Codec Markup

variable {unescape : String → Except String String}

/-! ### Where texts are expected -/

lemma Document.Encodes.content {doc : Document} {refs : List BlockRef} (h : doc.Encodes refs) :
    ∀ ch ∈ doc.children, ∃ r, ch.content = some ⟨r, []⟩ := by
  rw [Document.Encodes] at h
  generalize doc.children = children at h
  induction h with
  | nil => simp
  | cons hchild _ ih =>
    obtain ⟨-, r, hcontent, -⟩ := hchild
    exact List.forall_mem_cons.mpr ⟨⟨r, hcontent⟩, ih⟩

section Cuts

variable (hu : Unescapes unescape) {done : List Token} {u : List Char}
  {events : List (Except String Event)}
include hu

end Cuts

end BlobStore.Xml
