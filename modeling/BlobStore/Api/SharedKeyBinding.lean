import BlobStore.Api.SasBinding

/-!
# What a Shared Key signature is good for

The text that is signed fixes the verb and the path of a request. It fixes the parameters only of
requests that have plain ones: names and values are decoded before they are joined with line breaks,
colons and commas, and these may be part of them.
-/

namespace BlobStore

/-! ### Case -/

lemma eqIgnoreAsciiCase_iff {s t : String} :
    eqIgnoreAsciiCase s t = true ↔ asciiLower s = asciiLower t := by
  simp [eqIgnoreAsciiCase, asciiLower, String.ofList_inj]

lemma not_mem_asciiLower {s : String} {d : Char} (hd : d.toNat < 97 ∨ 122 < d.toNat)
    (h : d ∉ s.toList) : d ∉ (asciiLower s).toList := by
  simp only [asciiLower, Text.chars_eq, String.toList_ofList, List.mem_map, not_exists, not_and]
  intro c hc hlower
  rw [Text.toLower_eq hlower hd] at hc
  exact h hc

/-! ### Plain parameters -/

/-- Parameters that can be told apart in the text that is signed. -/
structure PlainParams (params : List (String × String)) : Prop where
  ascii : ∀ p ∈ params, ∀ c ∈ p.1.toList, c.toNat < 128
  names : ∀ p ∈ params, ':' ∉ p.1.toList ∧ '\n' ∉ p.1.toList
  values : ∀ p ∈ params, '\n' ∉ p.2.toList
  distinct : (params.map fun p => asciiLower p.1).Nodup

/-- Of the elements that a function tells apart, one is found by its value. -/
lemma filter_of_nodup_map {α β : Type} [DecidableEq β] {f : α → β} {l : List α}
    (h : (l.map f).Nodup) {a : α} (ha : a ∈ l) : l.filter (fun b => f b = f a) = [a] := by
  induction l with
  | nil => cases ha
  | cons b l ih =>
    rw [List.map_cons, List.nodup_cons] at h
    rcases List.mem_cons.mp ha with rfl | ha
    · rw [List.filter_cons_of_pos (by simp), List.filter_eq_nil_iff.mpr]
      intro b hb hfb
      simp only [decide_eq_true_eq] at hfb
      exact h.1 (hfb ▸ List.mem_map_of_mem hb)
    · rw [List.filter_cons_of_neg, ih h.2 ha]
      simp only [decide_eq_true_eq]
      intro hfb
      exact h.1 (hfb ▸ List.mem_map_of_mem ha)

section Plain

variable {low : Lowercase} {params params' : List (String × String)}

/-- The lines of plain parameters: one for each, with its name and its value. -/
lemma mem_queryLines (low : Lowercase) (h : PlainParams params) {line : String} :
    line ∈ SharedKey.queryLines low params ↔
      ∃ p ∈ params, line = asciiLower p.1 ++ ":" ++ p.2 := by
  have hlower : ∀ p ∈ params, low.lower p.1 = asciiLower p.1 :=
    fun p hp => low.ascii p.1 (h.ascii p hp)
  have hvalues : ∀ p ∈ params,
      (params.filter fun q => low.lower q.1 = low.lower p.1).map Prod.snd = [p.2] := by
    intro p hp
    have hfilter : (params.filter fun q => low.lower q.1 = low.lower p.1) =
        params.filter fun q => asciiLower q.1 = asciiLower p.1 := by
      refine List.filter_congr fun q hq => ?_
      rw [hlower q hq, hlower p hp]
    rw [hfilter, filter_of_nodup_map h.distinct hp]
    rfl
  simp only [SharedKey.queryLines, SharedKey.grouped, List.map_map, List.mem_map,
    List.mem_insertionSort, List.mem_dedup, Function.comp_apply]
  constructor
  · rintro ⟨k, ⟨p, hp, rfl⟩, rfl⟩
    refine ⟨p, hp, ?_⟩
    rw [hvalues p hp, hlower p hp]
    simp
  · rintro ⟨p, hp, rfl⟩
    refine ⟨low.lower p.1, ⟨p, hp, rfl⟩, ?_⟩
    rw [hvalues p hp, hlower p hp]
    simp

lemma no_newline_queryLines (low : Lowercase) (h : PlainParams params) :
    ∀ line ∈ SharedKey.queryLines low params, '\n' ∉ line.toList := by
  intro line hline
  obtain ⟨p, hp, rfl⟩ := (mem_queryLines low h).mp hline
  have hcolon : ":".toList = [':'] := rfl
  have hname := not_mem_asciiLower (d := '\n') (.inl (by decide)) (h.names p hp).2
  simp [hcolon, hname, h.values p hp]

/-- A parameter that is read is the one of that name. -/
lemma get_eq_some_iff (h : PlainParams params) {name v : String} :
    Query.get params name = some v ↔
      ∃ p ∈ params, asciiLower p.1 = asciiLower name ∧ p.2 = v := by
  unfold Query.get
  constructor
  · intro hget
    obtain ⟨p, hfind, rfl⟩ := Option.map_eq_some_iff.mp hget
    have hname : eqIgnoreAsciiCase p.1 name = true := by simpa using List.find?_some hfind
    exact ⟨p, List.mem_of_find?_eq_some hfind, eqIgnoreAsciiCase_iff.mp hname, rfl⟩
  · rintro ⟨p, hp, hname, rfl⟩
    cases hfind : params.find? fun p => eqIgnoreAsciiCase p.1 name with
    | none =>
      have hnot := List.find?_eq_none.mp hfind p hp
      exact absurd (eqIgnoreAsciiCase_iff.mpr hname) hnot
    | some q =>
      have hq : eqIgnoreAsciiCase q.1 name = true := by simpa using List.find?_some hfind
      have heq : q = p := List.inj_on_of_nodup_map h.distinct (List.mem_of_find?_eq_some hfind) hp
        ((eqIgnoreAsciiCase_iff.mp hq).trans hname.symm)
      rw [heq]
      rfl

/-- Plain parameters with the same lines are read alike. -/
lemma get_of_queryLines (h : PlainParams params) (h' : PlainParams params')
    (hlines : SharedKey.queryLines low params = SharedKey.queryLines low params') (name : String) :
    Query.get params name = Query.get params' name := by
  have hcolon : ":".toList = [':'] := rfl
  have hsub : ∀ {ps ps' : List (String × String)}, PlainParams ps → PlainParams ps' →
      SharedKey.queryLines low ps = SharedKey.queryLines low ps' → ∀ p ∈ ps,
      ∃ p' ∈ ps', asciiLower p'.1 = asciiLower p.1 ∧ p'.2 = p.2 := by
    intro ps ps' hps hps' heq p hp
    have hline := (mem_queryLines low hps).mpr ⟨p, hp, rfl⟩
    rw [heq] at hline
    obtain ⟨p', hp', htext⟩ := (mem_queryLines low hps').mp hline
    have hchars := congrArg String.toList htext
    simp only [String.toList_append, hcolon, List.append_assoc, List.singleton_append] at hchars
    obtain ⟨hname, hvalue⟩ := Text.append_cons_inj
      (not_mem_asciiLower (.inl (by decide)) (hps.names p hp).1)
      (not_mem_asciiLower (.inl (by decide)) (hps'.names p' hp').1) hchars
    exact ⟨p', hp', (String.toList_inj.mp hname).symm, (String.toList_inj.mp hvalue).symm⟩
  ext v
  rw [get_eq_some_iff h, get_eq_some_iff h']
  constructor
  · rintro ⟨p, hp, hname, rfl⟩
    obtain ⟨p', hp', hname', hvalue⟩ := hsub h h' hlines p hp
    exact ⟨p', hp', hname'.trans hname, hvalue⟩
  · rintro ⟨p', hp', hname, rfl⟩
    obtain ⟨p, hp, hname', hvalue⟩ := hsub h' h hlines.symm p' hp'
    exact ⟨p, hp, hname'.trans hname, hvalue⟩

end Plain

/-! ### The parts of the text -/

section Parts

variable {app : AppState} {req : HttpRequest}

lemma HttpRequest.Parsed.no_newline_headerStr (h : req.Parsed) (name : String) :
    '\n' ∉ (headerStr req.headers name).toList := by
  unfold headerStr HeaderMap.text?
  cases hfind : req.headers.find? fun h => h.1 = name with
  | none => simp
  | some hd =>
    obtain ⟨n, v⟩ := hd
    cases v with
    | none => simp
    | some v => exact h.values _ (List.mem_of_find?_eq_some hfind) v rfl

lemma no_newline_ite {c : Prop} [Decidable c] {s : String} (h : '\n' ∉ s.toList) :
    '\n' ∉ (if c then "" else s).toList := by
  split_ifs
  · simp
  · exact h

lemma HttpRequest.Parsed.no_newline_headFields (h : req.Parsed) (app : AppState)
    (params : List (String × String)) :
    ∀ x ∈ SharedKey.headFields (sharedKeyRequest app req params), '\n' ∉ x.toList := by
  have hheader := h.no_newline_headerStr
  simp only [SharedKey.headFields, sharedKeyRequest, List.forall_mem_cons]
  refine ⟨h.method, hheader _, hheader _, ?_, hheader _, hheader _, ?_, hheader _, hheader _,
    hheader _, hheader _, hheader _, by simp⟩
  · exact no_newline_ite (hheader _)
  · exact no_newline_ite (hheader _)

lemma no_newline_trim {v : String} (h : '\n' ∉ v.toList) : '\n' ∉ (trim v).toList := by
  intro hmem
  simp only [trim, Text.chars_eq, String.toList_ofList, List.mem_reverse] at hmem
  have hfirst := (List.dropWhile_suffix _).subset hmem
  rw [List.mem_reverse] at hfirst
  exact h ((List.dropWhile_suffix _).subset hfirst)

/-- The lines of the headers start with an `x`. -/
lemma HttpRequest.Parsed.headerLines (h : req.Parsed) (app : AppState)
    (params : List (String × String)) :
    ∀ line ∈ SharedKey.headerLines app.low (sharedKeyRequest app req params).xMsHeaders,
      '\n' ∉ line.toList ∧ line.toList.head? ≠ some '/' ∧ line.toList ≠ [] := by
  intro line hline
  simp only [SharedKey.headerLines, sharedKeyRequest, List.map_map, List.mem_map,
    List.mem_insertionSort, List.mem_filter] at hline
  obtain ⟨_, ⟨⟨name, v⟩, ⟨hmem, hstart⟩, rfl⟩, rfl⟩ := hline
  obtain ⟨hlower, hchars⟩ := h.names _ hmem
  have hname : app.low.lower name = name := by
    rw [app.low.ascii name fun c hc => by have := hchars c hc; omega]
    exact hlower
  have hvalue : '\n' ∉ (v.getD "").toList := by
    cases v with
    | none => simp
    | some v => exact h.values _ hmem v rfl
  have hnot : '\n' ∉ name.toList := by
    intro hc
    have := hchars _ hc
    exact absurd this.1 (by decide)
  have hcolon : ":".toList = [':'] := rfl
  simp only [hname, Text.chars_eq, List.isPrefixOf_iff_prefix] at hstart
  obtain ⟨rest, hrest⟩ := hstart
  have hx : name.toList = 'x' :: ("-ms-".toList ++ rest) := hrest.symm
  simp only [Function.comp_apply, hname, String.toList_append, hcolon]
  refine ⟨?_, ?_, ?_⟩
  · simp [hnot, no_newline_trim hvalue]
  · simp [hx]
  · simp [hx]

end Parts

lemma toList_stringToSign (low : Lowercase) (account : String) (req : SharedKeyRequest) :
    (SharedKey.stringToSign low account req).toList =
      ['\n'].intercalate ((SharedKey.headFields req).map String.toList) ++ '\n' ::
        ((((SharedKey.headerLines low req.xMsHeaders).map String.toList).map (· ++ ['\n'])).flatten ++
          '/' :: (account.toList ++ (req.canonicalPath.toList ++
            (((SharedKey.queryLines low req.queryParams).map String.toList).map
              ('\n' :: ·)).flatten))) := by
  have hnewline : "\n".toList = ['\n'] := rfl
  have hslash : "/".toList = ['/'] := rfl
  simp only [SharedKey.stringToSign, SharedKey.canonicalizedHeaders,
    SharedKey.canonicalizedResource, String.toList_append, String.toList_intercalate,
    String.toList_join, hnewline, hslash, List.flatMap_def, List.map_map, List.append_assoc,
    List.singleton_append]
  simp [Function.comp_def, hnewline]

/-- The parts of a text that is signed are read back from it. -/
lemma parts_of_stringToSign {app : AppState} {account : String} {req req' : HttpRequest}
    (h : req.Parsed) (h' : req'.Parsed) {params params' : List (String × String)}
    (heq : SharedKey.stringToSign app.low account (sharedKeyRequest app req params) =
      SharedKey.stringToSign app.low account (sharedKeyRequest app req' params')) :
    SharedKey.headFields (sharedKeyRequest app req params) =
        SharedKey.headFields (sharedKeyRequest app req' params') ∧
      req.signedPath.getD req.path = req'.signedPath.getD req'.path ∧
      (((SharedKey.queryLines app.low params).map String.toList).map ('\n' :: ·)).flatten =
        (((SharedKey.queryLines app.low params').map String.toList).map ('\n' :: ·)).flatten := by
  have hpath : ∀ {r : HttpRequest}, r.Parsed → '\n' ∉ (r.signedPath.getD r.path).toList := by
    intro r hr
    cases hs : r.signedPath with
    | none => exact hr.path
    | some p => exact hr.signedPath p hs
  have hchars := congrArg String.toList heq
  rw [toList_stringToSign, toList_stringToSign] at hchars
  -- twelve fields, then the lines of the headers, then the resource
  obtain ⟨hfields, hrest⟩ := Text.intercalate_append_inj (by simp)
    (by simpa [SharedKey.headFields] using h.no_newline_headFields app params)
    (by simpa [SharedKey.headFields] using h'.no_newline_headFields app params') hchars
  obtain ⟨-, hresource⟩ := Text.lines_append_inj (d := '/')
    (by simpa using h.headerLines app params)
    (by simpa using h'.headerLines app params') hrest
  obtain ⟨hpaths, hlines⟩ := Text.append_lines_inj (hpath h) (hpath h')
    (List.append_cancel_left hresource)
  refine ⟨?_, String.toList_inj.mp hpaths, hlines⟩
  exact List.map_injective_iff.mpr (fun _ _ hab => String.toList_inj.mp hab) hfields

/-- A signature binds the verb and the path of a request, and among requests with plain parameters
it binds what handlers read from them. -/
theorem shared_key_signature_binds (app : AppState) (account : String) {req req' : HttpRequest}
    (h : req.Parsed) (h' : req'.Parsed) (params params' : List (String × String))
    (heq : SharedKey.stringToSign app.low account (sharedKeyRequest app req params) =
      SharedKey.stringToSign app.low account (sharedKeyRequest app req' params')) :
    req.method.asStr = req'.method.asStr ∧
      req.signedPath.getD req.path = req'.signedPath.getD req'.path ∧
      (PlainParams params → PlainParams params' →
        ∀ name, Query.get params name = Query.get params' name) := by
  obtain ⟨hfields, hpath, hlines⟩ := parts_of_stringToSign h h' heq
  refine ⟨(List.cons.inj hfields).1, hpath, ?_⟩
  intro hplain hplain' name
  have hlists := Text.lines_inj (by simpa using no_newline_queryLines app.low hplain)
    (by simpa using no_newline_queryLines app.low hplain') hlines
  exact get_of_queryLines hplain hplain'
    (List.map_injective_iff.mpr (fun _ _ hab => String.toList_inj.mp hab) hlists) name

/-! ### Two requests -/

/-- A request to stage a block. -/
def samplePutBlock : HttpRequest where
  method     := .put
  path       := "/acc/c/b"
  query      := some "comp=block&blockid=AAAA"
  uriHost    := none
  headers    := [("x-ms-version", some "2021-08-06")]
  body       := [.ok [1]]
  signedPath := none

/-- A request to write the blob: the rest of the other query is part of a value. -/
def samplePutBlob : HttpRequest := { samplePutBlock with query := some "blockid=AAAA%0Acomp:block" }

lemma samplePutBlock_parsed : samplePutBlock.Parsed :=
  ⟨by decide, by decide, by decide, by simp [samplePutBlock, asciiLower], by simp [samplePutBlock]⟩

/-- The signature of one is valid for the other, and they ask for different operations. -/
theorem shared_key_signature_reused :
    samplePutBlob.Parsed ∧
    SharedKey.stringToSign sampleLowercase "acc"
        (sharedKeyRequest sampleApp samplePutBlock samplePutBlock.params) =
      SharedKey.stringToSign sampleLowercase "acc"
        (sharedKeyRequest sampleApp samplePutBlob samplePutBlob.params) ∧
    Query.get samplePutBlock.params "comp" = some "block" ∧
    Query.get samplePutBlob.params "comp" = none := by
  have h := samplePutBlock_parsed
  refine ⟨⟨h.method, h.path, h.signedPath, h.names, h.values⟩, ?_⟩
  decide +kernel

/-- The same parameters in another order and case. -/
theorem shared_key_signature_binds_sample :
    Query.get samplePutBlock.params "comp" =
      Query.get [("BlockId", "AAAA"), ("Comp", "block")] "comp" := by
  have hparams : samplePutBlock.params = [("comp", "block"), ("blockid", "AAAA")] := by
    decide +kernel
  refine (shared_key_signature_binds sampleApp "acc" samplePutBlock_parsed samplePutBlock_parsed
    samplePutBlock.params [("BlockId", "AAAA"), ("Comp", "block")] (by decide +kernel)).2.2 ?_ ?_ _
  · rw [hparams]
    exact ⟨by simp, by simp, by simp, by decide +kernel⟩
  · exact ⟨by simp, by simp, by simp, by decide +kernel⟩

end BlobStore
