import BlobStore.Lib.Fields
import BlobStore.Xml.Render

/-!
# Escaping

Reading entities from left to right undoes escaping, also for texts that look escaped already. What
is escaped has no character that ends a text or an attribute.
-/

namespace BlobStore.Xml

/-- The entities that escaping writes. -/
def entities : List (List Char) := ["&amp;", "&lt;", "&gt;", "&quot;", "&apos;"].map String.toList

/-- Replaces these entities from left to right. -/
def replaceEntities : List Char → List Char
  | '&' :: 'a' :: 'm' :: 'p' :: ';' :: cs        => '&' :: replaceEntities cs
  | '&' :: 'l' :: 't' :: ';' :: cs               => '<' :: replaceEntities cs
  | '&' :: 'g' :: 't' :: ';' :: cs               => '>' :: replaceEntities cs
  | '&' :: 'q' :: 'u' :: 'o' :: 't' :: ';' :: cs => '"' :: replaceEntities cs
  | '&' :: 'a' :: 'p' :: 'o' :: 's' :: ';' :: cs => '\'' :: replaceEntities cs
  | c :: cs                                      => c :: replaceEntities cs
  | []                                           => []

lemma replaceEntities_cons {c : Char} (hc : c ≠ '&') (cs : List Char) :
    replaceEntities (c :: cs) = c :: replaceEntities cs := by
  simp [replaceEntities, hc]

/-- What a character is written as: an entity, or the character itself. -/
lemma escapeChar_cases (c : Char) :
    (escapeChar c).toList ∈ entities ∨
      (escapeChar c).toList = [c] ∧ c ≠ '&' ∧ c ∉ ['<', '>', '"', '\''] := by
  unfold escapeChar
  split_ifs with hamp hlt hgt hquot hapos
  · exact .inl (by decide)
  · exact .inl (by decide)
  · exact .inl (by decide)
  · exact .inl (by decide)
  · exact .inl (by decide)
  · exact .inr ⟨String.toList_singleton c, hamp, by simp [hlt, hgt, hquot, hapos]⟩

lemma replaceEntities_escapeChar (c : Char) (cs : List Char) :
    replaceEntities ((escapeChar c).toList ++ cs) = c :: replaceEntities cs := by
  unfold escapeChar
  split_ifs with hamp hlt hgt hquot hapos
  · subst hamp
    rfl
  · subst hlt
    rfl
  · subst hgt
    rfl
  · subst hquot
    rfl
  · subst hapos
    rfl
  · rw [String.toList_singleton, List.singleton_append, replaceEntities_cons hamp]

lemma toList_xmlEscape (s : String) :
    (xmlEscape s).toList = s.toList.flatMap fun c => (escapeChar c).toList := by
  rw [xmlEscape, Text.chars_eq, String.toList_join, List.flatMap_map]

lemma replaceEntities_xmlEscape (s : String) :
    replaceEntities (xmlEscape s).toList = s.toList := by
  rw [toList_xmlEscape]
  induction s.toList with
  | nil => rfl
  | cons c cs ih => rw [List.flatMap_cons, replaceEntities_escapeChar, ih]

lemma xmlEscape_injective : Function.Injective xmlEscape := by
  intro s t h
  have hread := congrArg (fun u => replaceEntities u.toList) h
  simp only [replaceEntities_xmlEscape] at hread
  exact String.toList_inj.mp hread

lemma xmlEscape_append (s t : String) : xmlEscape (s ++ t) = xmlEscape s ++ xmlEscape t := by
  rw [← String.toList_inj]
  simp [toList_xmlEscape]

/-- No character that ends a text or an attribute. -/
lemma not_mem_xmlEscape {c : Char} (hc : c ∈ ['<', '>', '"', '\'']) (s : String) :
    c ∉ (xmlEscape s).toList := by
  rw [toList_xmlEscape, List.mem_flatMap]
  rintro ⟨d, -, hd⟩
  have hentities : ∀ e ∈ entities, ∀ c ∈ ['<', '>', '"', '\''], c ∉ e := by decide
  rcases escapeChar_cases d with h | ⟨h, -, hplain⟩
  · exact hentities _ h c hc hd
  · rw [h, List.mem_singleton] at hd
    exact hplain (hd ▸ hc)

/-- Every ampersand starts an entity. -/
lemma entity_of_ampersand {s : String} {start rest : List Char}
    (h : (xmlEscape s).toList = start ++ '&' :: rest) : ∃ e ∈ entities, e <+: '&' :: rest := by
  have hentities : ∀ e ∈ entities, '&' ∉ e.tail := by decide
  rw [toList_xmlEscape] at h
  generalize s.toList = cs at h
  induction cs generalizing start with
  | nil => simp at h
  | cons c cs ih =>
    rw [List.flatMap_cons] at h
    rcases List.append_eq_append_iff.mp h with ⟨mid, -, hrest⟩ | ⟨mid, hchar, hrest⟩
    · exact ih hrest
    · cases mid with
      | nil => exact @ih [] hrest.symm
      | cons x mid =>
        obtain ⟨rfl, hrest⟩ := List.cons.inj hrest
        rcases escapeChar_cases c with hentity | ⟨hplain, hamp, -⟩
        · cases start with
          | nil =>
            refine ⟨_, hentity, ?_⟩
            rw [hchar, hrest]
            exact ⟨_, rfl⟩
          | cons y start =>
            have hmem := hentities _ hentity
            rw [hchar] at hmem
            simp at hmem
        · rw [hplain] at hchar
          have hmem : '&' ∈ [c] := by simp [hchar]
          exact absurd (List.mem_singleton.mp hmem).symm hamp

/-- Escaping is undone by reading the entities from left to right, and what is escaped ends where
the renderer ends it: at the next tag, or at the quote that closes the attribute. -/
theorem xmlEscape_reversible :
    (∀ s, ∀ c ∈ ['<', '>', '"', '\''], c ∉ (xmlEscape s).toList) ∧
      (∀ s start rest, (xmlEscape s).toList = start ++ '&' :: rest →
        ∃ e ∈ entities, e <+: '&' :: rest) ∧
      (∀ s, replaceEntities (xmlEscape s).toList = s.toList) ∧
      Function.Injective xmlEscape ∧
      (∀ s t, xmlEscape (s ++ t) = xmlEscape s ++ xmlEscape t) ∧
      ∀ s rest, ∀ c ∈ ['<', '"'],
        Text.cut c (xmlEscape s ++ String.singleton c ++ rest) = (xmlEscape s, some rest) := by
  refine ⟨fun s c hc => not_mem_xmlEscape hc s, fun s start rest h => entity_of_ampersand h,
    replaceEntities_xmlEscape, xmlEscape_injective, xmlEscape_append, fun s rest c hc => ?_⟩
  have hc' : c ∈ ['<', '>', '"', '\''] := by
    simp only [List.mem_cons, List.not_mem_nil, or_false] at hc ⊢
    tauto
  exact Text.cut_append (not_mem_xmlEscape hc' s)

end BlobStore.Xml
