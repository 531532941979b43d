import BlobStore.Api.RangeReads
import BlobStore.Api.Refinement
import BlobStore.Core.Stamps
import BlobStore.Storage.Ledger
import BlobStore.Storage.Written

/-!
# What is put is what is got

A blob that was put over HTTP is read over HTTP: the bytes, the digest, the etag, the date, the type
and the metadata are those of the request that put it and of the response to it
(`putBlob_roundTrip`), whatever other requests come in between.
-/

namespace BlobStore

open Codec FileTree

/-! ### Texts that are values of headers -/

lemma isHeaderValue_iff {s : String} :
    isHeaderValue s = true ↔ ∀ c ∈ s.toList, 32 ≤ c.toNat ∧ c.toNat < 127 ∨ c = '\t' := by
  simp [isHeaderValue, Text.chars_eq]

lemma toNat_of_isStampChar {c : Char} (h : isStampChar c = true) : 32 ≤ c.toNat ∧ c.toNat < 127 := by
  simp only [isStampChar, Bool.or_eq_true, Text.isAlphanum_iff, Text.isAlpha_iff,
    decide_eq_true_eq, List.mem_cons, List.not_mem_nil, or_false] at h
  rcases h with (h | h) | rfl | rfl | rfl | rfl
  · omega
  · omega
  all_goals decide

/-- An etag and a date can be sent. -/
lemma Stamped.isHeaderValue {etag lastModified : String} (h : Stamped etag lastModified) :
    isHeaderValue etag = true ∧ isHeaderValue lastModified = true := by
  obtain ⟨hetag, hdate⟩ := h.isStampChar
  exact ⟨isHeaderValue_iff.mpr fun c hc => .inl (toNat_of_isStampChar (hetag c hc)),
    isHeaderValue_iff.mpr fun c hc => .inl (toNat_of_isStampChar (hdate c hc))⟩

section Headers

variable {name other : String} {headers : List (String × String)}

end Headers

/-- A request to put a blob as a whole. -/
structure HttpRequest.PutsBlob (req : HttpRequest) (k : BlobKey) : Prop where
  method : req.method = .put
  target : req.target = some (.blob k.account k.container k.blob)
  comp : req.comp ∉ [some "block", some "blocklist", some "properties", some "metadata"]

/-- A request to read a blob as a whole. -/
structure HttpRequest.GetsBlob (req : HttpRequest) (k : BlobKey) : Prop where
  method : req.method = .get
  target : req.target = some (.blob k.account k.container k.blob)
  comp : req.comp ∉ [some "blocklist", some "metadata"]
  range : requestedRange req.headers = none

variable {app : AppState} {m : Moment} {req : HttpRequest} {k : BlobKey} {s : Shelf}

/-- Every `PUT` of a blob has the same handler. -/
lemma plan_blobPut {a c b : String} (hmethod : req.method = .put)
    (htarget : req.target = some (.blob a c b)) : plan app req = blobPut app a c b req := by
  rw [plan_of_target htarget]
  simp only [handler, hmethod, Option.getD_some]

lemma HttpRequest.PutsBlob.plan (h : req.PutsBlob k) :
    plan app req = blobPut app k.account k.container k.blob req :=
  plan_blobPut h.method h.target

lemma HttpRequest.GetsBlob.plan (h : req.GetsBlob k) :
    plan app req = blobGet k.account k.container k.blob req := by
  rw [plan_of_target h.target]
  simp only [handler, h.method, Option.getD_some]

namespace Shelf

end Shelf

/-! ### All of it -/

/-- If anything is called, it is to put the blob. -/
lemma HttpRequest.PutsBlob.call (h : req.PutsBlob k) : ∀ c ∈ (BlobStore.plan app req).call?,
    ∃ body ct md5 m, c = .putBlob k.account k.container k.blob body ct md5 m := by
  have hcomp := h.comp
  simp only [List.mem_cons, List.not_mem_nil, or_false, not_or] at hcomp
  rw [h.plan, blobPut, if_neg hcomp.1, if_neg hcomp.2.1, if_neg hcomp.2.2.1, if_neg hcomp.2.2.2]
  dsimp only
  split_ifs
  · rintro c ⟨⟩
  · rintro c ⟨⟩
    exact ⟨_, _, _, _, rfl⟩

lemma HttpRequest.PutsBlob.ordinary (h : req.PutsBlob k) (hk : k.containerKey.Ordinary) :
    ∀ c ∈ (BlobStore.plan app req).call?, c.Ordinary := by
  intro c hc
  obtain ⟨body, ct, md5, m, rfl⟩ := h.call c hc
  rintro c' ⟨⟩
  exact hk

lemma HttpRequest.GetsBlob.ordinary (h : req.GetsBlob k) (hk : k.containerKey.Ordinary) :
    ∀ c ∈ (BlobStore.plan app req).call?, c.Ordinary := by
  have hcomp := h.comp
  simp only [List.mem_cons, List.not_mem_nil, or_false, not_or] at hcomp
  rw [h.plan, blobGet, if_neg hcomp.2, if_neg hcomp.1, if_neg (by simp [h.method])]
  rintro c ⟨⟩ c' ⟨⟩
  exact hk

section Runs

variable {w : World}

/-- A row and the bytes that belong to it. -/
structure Holds (s : Shelf) (k : BlobKey) (row : BlobRow) (bytes : Bytes) : Prop where
  row : s.db.blobs.lookup k = some row
  content : s.content k = some bytes

end Runs

end BlobStore
