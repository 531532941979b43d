import BlobStore.Api.Http
import BlobStore.Lib.Fields

/-!
# Query strings

What clients encode is read back: ampersands and equals signs inside a name or a value are escaped,
so those that are left separate the pairs, and a name from its value.
-/

namespace BlobStore.Query

open Percent

/-- A pair as clients write it. -/
def encodePair (p : String × String) : String := encode p.1 ++ "=" ++ encode p.2

def encodeQuery (pairs : List (String × String)) : String :=
  "&".intercalate (pairs.map encodePair)

lemma ampersand_not_mem_encode (s : String) : '&' ∉ (encode s).toList :=
  not_mem_encode (forall_byte (by decide +kernel)) s

lemma equals_not_mem_encode (s : String) : '=' ∉ (encode s).toList :=
  not_mem_encode (forall_byte (by decide +kernel)) s

variable {pairs : List (String × String)} {p : String × String}

lemma ampersand_not_mem_encodePair : '&' ∉ (encodePair p).toList := by
  have hequals : "=".toList = ['='] := rfl
  simp [encodePair, hequals, ampersand_not_mem_encode]

lemma encodePair_ne_empty : encodePair p ≠ "" := by
  intro h
  have hmem : '=' ∈ (encodePair p).toList := by
    have hequals : "=".toList = ['='] := rfl
    simp [encodePair, hequals]
  rw [h] at hmem
  simp at hmem

/-- The first equals sign ends the name. -/
lemma cut_encodePair : Text.cut '=' (encodePair p) = (encode p.1, some (encode p.2)) :=
  Text.cut_append (equals_not_mem_encode p.1)

lemma decodeOr_encode (s : String) : decodeOr (encode s) = s := by
  rw [decodeOr, decode_encode, Option.getD_some]

/-- The ampersands separate the pairs. -/
lemma splitOn_encodeQuery (hne : pairs ≠ []) :
    ((Text.chars (encodeQuery pairs)).splitOn '&').map String.ofList = pairs.map encodePair := by
  have hchars : Text.chars (encodeQuery pairs) =
      ['&'].intercalate ((pairs.map encodePair).map String.toList) := by
    rw [Text.chars_eq, encodeQuery, String.toList_intercalate]
    rfl
  have hsplit : (['&'].intercalate ((pairs.map encodePair).map String.toList)).splitOn '&' =
      (pairs.map encodePair).map String.toList := by
    refine List.splitOn_intercalate '&' ?_ (by simpa using hne)
    intro l hl
    simp only [List.map_map, List.mem_map] at hl
    obtain ⟨p, -, rfl⟩ := hl
    exact ampersand_not_mem_encodePair
  rw [hchars, hsplit, List.map_map]
  simp

/-- Query strings decode to what was encoded. -/
theorem parseQuery_encodeQuery (pairs : List (String × String)) :
    parseQuery (encodeQuery pairs) = pairs := by
  by_cases hne : pairs = []
  · subst hne
    decide
  · have hkept : ∀ s ∈ pairs.map encodePair, decide (s ≠ "") = true := by
      intro s hs
      obtain ⟨p, -, rfl⟩ := List.mem_map.mp hs
      exact decide_eq_true encodePair_ne_empty
    rw [parseQuery, splitOn_encodeQuery hne, List.filter_eq_self.mpr hkept, List.map_map]
    conv_rhs => rw [← List.map_id pairs]
    refine List.map_congr_left fun p _ => ?_
    rw [Function.comp_apply, cut_encodePair, Option.getD_some, decodeOr_encode, decodeOr_encode]
    rfl

end BlobStore.Query
