import BlobStore.Api.Unimplemented

/-!
# Range reads

A range travels from a header through the parser and the clamp into the reader, and from there into
two headers of the response. On the way it is a pair of 64-bit numbers; the largest one stands for
an end that is left out.
-/

namespace BlobStore

open Codec FsBackend Resumption Proc

/-! ### Headers of a response -/

/-- The values of a header. -/
def headerValues (name : String) (headers : List (String × String)) : List String :=
  (headers.filter fun h => h.1 = name).map Prod.snd

section HeaderValues

variable {name other : String} {headers : List (String × String)}

@[simp] lemma headerValues_setHeader (value : String) :
    headerValues name (setHeader name value headers) = [value] := by
  simp [headerValues, setHeader, List.filter_filter]

lemma headerValues_setHeader_of_ne (h : other ≠ name) (value : String) :
    headerValues name (setHeader other value headers) = headerValues name headers := by
  have hnone : [(other, value)].filter (fun h => h.1 = name) = [] := by simp [h]
  rw [headerValues, setHeader, List.filter_append, hnone, List.append_nil, List.filter_filter]
  refine congrArg _ (List.filter_congr fun x _ => ?_)
  by_cases hx : x.1 = name
  · simp [hx, h.symm]
  · simp [hx]

lemma headerValues_setHeaderIfValid_of_ne (h : other ≠ name) (value : String) :
    headerValues name (setHeaderIfValid other value headers) = headerValues name headers := by
  rw [setHeaderIfValid]
  split_ifs
  · exact headerValues_setHeader_of_ne h value
  · rfl

lemma headerValues_setOptional_of_ne (h : other ≠ name) (value : Option String) :
    headerValues name (setOptional other value headers) = headerValues name headers := by
  cases value with
  | none => rfl
  | some v => exact headerValues_setHeaderIfValid_of_ne h v

lemma headerValues_applyMetadataHeaders (h : ∀ key, "x-ms-meta-" ++ key ≠ name)
    (metadata : Metadata) :
    headerValues name (applyMetadataHeaders metadata headers) = headerValues name headers := by
  rw [applyMetadataHeaders]
  generalize metadata.entries = entries
  induction entries generalizing headers with
  | nil => rfl
  | cons e entries ih =>
    rw [List.foldl_cons, ih, headerValues_setHeaderIfValid_of_ne (h e.1)]

end HeaderValues

lemma meta_ne {name : String} (h : name.toList.head? ≠ some 'x') (key : String) :
    "x-ms-meta-" ++ key ≠ name := by
  rintro rfl
  exact h (by simp)

/-- The length that a blob's headers state is that of its row. -/
lemma contentLength_applyBlobPropertyHeaders (props : BlobProps) :
    headerValues "content-length" (applyBlobPropertyHeaders props []) =
      [toString props.contentLength] := by
  rw [applyBlobPropertyHeaders, headerValues_applyMetadataHeaders (meta_ne (by decide)),
    headerValues_setHeader_of_ne (by decide)]
  simp only [headerValues_setOptional_of_ne (show "content-disposition" ≠ "content-length" by decide),
    headerValues_setOptional_of_ne (show "cache-control" ≠ "content-length" by decide),
    headerValues_setOptional_of_ne (show "content-language" ≠ "content-length" by decide),
    headerValues_setOptional_of_ne (show "content-encoding" ≠ "content-length" by decide),
    headerValues_setOptional_of_ne (show "content-md5" ≠ "content-length" by decide),
    headerValues_setOptional_of_ne (show "content-type" ≠ "content-length" by decide),
    headerValues_setHeader]

/-! ### Parsing -/

/-- A decimal numeral and its value; zeros may lead it. -/
structure IsNumeral (s : String) (n : ℕ) : Prop where
  nonempty : s ≠ ""
  digits : ∀ c ∈ s.toList, c.isDigit = true
  value : Nat.ofDigitChars 10 s.toList 0 = n

/-- The text of the range header that decides. -/
def rangeText (headers : HeaderMap) : Option String :=
  if headers.containsKey "x-ms-range" then headers.text? "x-ms-range" else headers.text? "range"

lemma requestedRange_eq (headers : HeaderMap) :
    requestedRange headers = (rangeText headers).bind parseRange := rfl

lemma IsNumeral.not_mem {s : String} {n : ℕ} (h : IsNumeral s n) {c : Char}
    (hc : c.isDigit = false) : c ∉ s.toList := fun hmem =>
  absurd (h.digits c hmem) (by simp [hc])

lemma IsNumeral.parseUnsigned {s : String} {n : ℕ} (h : IsNumeral s n) {bound : ℕ}
    (hn : n < bound) : parseUnsigned bound s = some n := by
  have hne : s.toList ≠ [] := by simpa using h.nonempty
  have hplus : ∀ cs, s.toList ≠ '+' :: cs := fun cs heq =>
    h.not_mem (c := '+') (by decide) (by simp [heq])
  have hfold : s.toList.foldl (fun n c => n * 10 + (c.toNat - 48)) 0 = n := by
    rw [← h.value, Nat.ofDigitChars_eq_foldl]
    simp only [mul_comm]
    rfl
  simp only [BlobStore.parseUnsigned, Text.chars_eq]
  rw [if_pos ⟨hne, List.all_eq_true.mpr h.digits⟩, hfold, if_pos hn]

lemma stripStart_append (start rest : String) : stripStart start (start ++ rest) = some rest := by
  simp [stripStart]

section Parsing

variable {first last : String} {start stop : ℕ}

/-- What comes after the unit is cut at the dash. -/
lemma parseRange_eq (hfirst : IsNumeral first start) (hstart : start < 2 ^ 64)
    (hlast : ',' ∉ last.toList) :
    parseRange ("bytes=" ++ first ++ "-" ++ last) =
      (if last = "" then some (2 ^ 64 - 1) else parseUnsigned (2 ^ 64) last).map fun stop =>
        (start, stop) := by
  have hcomma : ',' ∉ (first ++ "-" ++ last).toList := by
    simp [hfirst.not_mem (c := ',') (by decide), hlast]
  have hcut : Text.cut '-' (first ++ "-" ++ last) = (first, some last) :=
    Text.cut_append (hfirst.not_mem (by decide))
  have hwhole : "bytes=" ++ first ++ "-" ++ last = "bytes=" ++ (first ++ "-" ++ last) := by
    simp only [String.append_assoc]
  rw [hwhole, parseRange, stripStart_append]
  simp only [Option.bind_eq_bind, Option.bind_some, Text.chars_eq, List.contains_eq_mem, hcomma,
    decide_false, Bool.false_eq_true, if_false, hcut, hfirst.nonempty,
    hfirst.parseUnsigned hstart]
  split_ifs
  · rfl
  · cases parseUnsigned (2 ^ 64) last <;> rfl

lemma parseRange_closed (hfirst : IsNumeral first start) (hlast : IsNumeral last stop)
    (hstart : start < 2 ^ 64) (hstop : stop < 2 ^ 64) :
    parseRange ("bytes=" ++ first ++ "-" ++ last) = some (start, stop) := by
  rw [parseRange_eq hfirst hstart (hlast.not_mem (by decide)), if_neg hlast.nonempty,
    hlast.parseUnsigned hstop, Option.map_some]

lemma parseRange_open (hfirst : IsNumeral first start) (hstart : start < 2 ^ 64) :
    parseRange ("bytes=" ++ first ++ "-") = some (start, 2 ^ 64 - 1) := by
  have hcomma : ',' ∉ "".toList := by simp
  have hrange := parseRange_eq hfirst hstart hcomma
  rwa [String.append_empty] at hrange

end Parsing

/-! ### The clamp -/

lemma resolveRange_eq (n start stop : ℕ) :
    resolveRange n (some (start, stop)) =
      if start < n ∧ start ≤ stop then .ok (some ⟨start, min stop (n - 1)⟩)
      else .error (.new .invalidRange) := by
  rw [resolveRange]
  by_cases h : start < n ∧ start ≤ stop
  · rw [if_pos h, if_neg (by omega)]
  · rw [if_neg h, if_pos (by omega)]

/-- A clamped range lies within the blob. -/
lemma resolveRange_fits {n : ℕ} {range : Option (ℕ × ℕ)} {r : ByteRange}
    (h : resolveRange n range = .ok (some r)) : r.start ≤ r.stop ∧ r.stop < n := by
  cases range with
  | none => cases h
  | some range =>
    rw [resolveRange_eq] at h
    split_ifs at h with hin
    cases h
    dsimp only
    omega

lemma readRange_whole (content : Bytes) : readRange content content.length none = content := by
  simp [readRange]

lemma readRange_eq_extract (content : Bytes) {start stop : ℕ} (h : start ≤ stop) (n : ℕ) :
    readRange content n (some ⟨start, stop⟩) = content.extract start (stop + 1) := by
  simp only [readRange, List.extract_eq_take_drop]
  congr 1
  omega

/-! ### Responses -/

/-- The response with all bytes of a blob. -/
structure WholeAnswer (content : Bytes) (resp : Response) : Prop where
  status : resp.status = 200
  body : resp.body = content
  length : headerValues "content-length" resp.headers = [toString content.length]

/-- The response with the bytes from `start` to `stop`. -/
structure PartAnswer (content : Bytes) (start stop : ℕ) (resp : Response) : Prop where
  status : resp.status = 206
  body : resp.body = content.extract start (stop + 1)
  range : headerValues "content-range" resp.headers =
    ["bytes " ++ toString start ++ "-" ++ toString stop ++ "/" ++ toString content.length]
  length : headerValues "content-length" resp.headers = [toString resp.body.length]

/-- The response to a request for a range. -/
def RangeAnswer (m : Moment) (content : Bytes) (start stop : ℕ) (resp : Response) : Prop :=
  if start < content.length ∧ start ≤ stop then
    PartAnswer content start (min stop (content.length - 1)) resp
  else resp = azureErrorResponse m (.new .invalidRange) m.errorId

section Reads

variable {app : AppState} {m : Moment} {w : World} {a c b : String} {req : HttpRequest}
  {row : BlobRow} {content : Bytes}

/-- A blob is read, and its file matches its row. -/
structure ReadsBlob (B : FsBackend) (w : World) (k : BlobKey) (req : HttpRequest) (row : BlobRow)
    (content : Bytes) : Prop where
  method : req.method = .get
  comp : req.comp ≠ some "metadata" ∧ req.comp ≠ some "blocklist"
  found : w.db.blobs.lookup k = some row
  file : w.fs.openFile (B.stored row.storagePath) = .ok content
  length : row.contentLength = content.length

/-- The response to a read, by the clamped range. -/
lemma run_blobGet (h : ReadsBlob app.backend w ⟨a, c, b⟩ req row content) :
    ∃ resp, ((blobGet a c b req).run app m w).1 = some resp ∧
      match resolveRange content.length (requestedRange req.headers) with
      | .ok none     => WholeAnswer content resp
      | .ok (some r) => PartAnswer content r.start r.stop resp
      | .error err   => resp = azureErrorResponse m err m.errorId := by
  have hrun : ((app.backend.call m.amb (.getBlob a c b (requestedRange req.headers))).run w).1 =
      (resolveRange content.length (requestedRange req.headers)).map fun rr =>
        .payload ⟨blobRowToProps row, content.length, rr, readRange content content.length rr⟩ := by
    rw [FsBackend.call, Store.run, run_bind_pure _ (run_getBlob_of_file h.found h.file _), h.length]
    cases resolveRange content.length (requestedRange req.headers) <;> rfl
  have hlength : (blobRowToProps row).contentLength = content.length := h.length
  rw [blobGet, if_neg h.comp.1, if_neg h.comp.2, if_neg (by simp [h.method]), Plan.run_call, hrun]
  cases hrange : resolveRange content.length (requestedRange req.headers) with
  | error err => exact ⟨_, rfl, rfl⟩
  | ok rr =>
    cases rr with
    | none =>
      refine ⟨_, rfl, rfl, readRange_whole content, ?_⟩
      rw [contentLength_applyBlobPropertyHeaders, hlength]
    | some r =>
      obtain ⟨hle, hlt⟩ := resolveRange_fits hrange
      refine ⟨_, rfl, rfl, readRange_eq_extract content hle content.length, ?_, ?_⟩
      · rw [headerValues_setHeader_of_ne (by decide), headerValues_setHeader]
      · rw [headerValues_setHeader, readRange_eq_extract content hle content.length,
          List.extract_eq_take_drop, List.length_take, List.length_drop]
        congr 2
        omega

/-- A read of a range is exact: for every range that is written in decimal numerals, and for a
request without a range, the response has the bytes, the status and the lengths that belong to it,
and no number on the way leaves its type. -/
theorem range_read_exact (h : ReadsBlob app.backend w ⟨a, c, b⟩ req row content)
    (hn : content.length < 2 ^ 64) :
    ∃ resp, ((blobGet a c b req).run app m w).1 = some resp ∧
      (requestedRange req.headers = none → WholeAnswer content resp) ∧
      (∀ first last start stop, IsNumeral first start → IsNumeral last stop → start < 2 ^ 64 →
        stop < 2 ^ 64 → rangeText req.headers = some ("bytes=" ++ first ++ "-" ++ last) →
        RangeAnswer m content start stop resp) ∧
      (∀ first start, IsNumeral first start → start < 2 ^ 64 →
        rangeText req.headers = some ("bytes=" ++ first ++ "-") →
        RangeAnswer m content start (2 ^ 64 - 1) resp) ∧
      ∀ range r, resolveRange content.length range = .ok (some r) →
        r.start ≤ r.stop ∧ r.stop - r.start + 1 < 2 ^ 64 := by
  obtain ⟨resp, hresp, hanswer⟩ := run_blobGet (m := m) h
  have hclamped : ∀ start stop, requestedRange req.headers = some (start, stop) →
      RangeAnswer m content start stop resp := by
    intro start stop hrange
    rw [hrange, resolveRange_eq] at hanswer
    rw [RangeAnswer]
    split_ifs at hanswer ⊢ with hin
    · exact hanswer
    · exact hanswer
  refine ⟨resp, hresp, fun hnone => ?_, ?_, ?_, ?_⟩
  · rwa [hnone] at hanswer
  · intro first last start stop hfirst hlast hstart hstop htext
    refine hclamped start stop ?_
    rw [requestedRange_eq, htext, Option.bind_some, parseRange_closed hfirst hlast hstart hstop]
  · intro first start hfirst hstart htext
    refine hclamped start _ ?_
    rw [requestedRange_eq, htext, Option.bind_some, parseRange_open hfirst hstart]
  · intro range r hrange
    obtain ⟨hle, hlt⟩ := resolveRange_fits hrange
    omega

end Reads

/-- A request for part of a blob. -/
def sampleRangeRead (range : String) : HttpRequest where
  method     := .get
  path       := "/acc/c/b"
  query      := none
  uriHost    := none
  headers    := [("x-ms-range", some range)]
  body       := []
  signedPath := none

/-- The only byte of a blob. -/
theorem range_read_one_byte :
    ∃ resp, ((blobGet "acc" "c" "b" (sampleRangeRead "bytes=0-")).run sampleApp sampleMoment
      sampleOneBlob).1 = some resp ∧ PartAnswer [1] 0 0 resp := by
  have hstored : (sampleOneBlob.db.blobs.lookup ⟨"acc", "c", "b"⟩).map (fun row =>
      (row.contentLength, sampleOneBlob.fs.openFile (sample.stored row.storagePath))) =
        some (1, .ok [1]) := by
    decide +kernel
  obtain ⟨row, hrow, hparts⟩ := Option.map_eq_some_iff.mp hstored
  have hzero : IsNumeral "0" 0 := ⟨by decide, by decide, by decide⟩
  have hread : ReadsBlob sampleApp.backend sampleOneBlob ⟨"acc", "c", "b"⟩
      (sampleRangeRead "bytes=0-") row [1] :=
    ⟨rfl, by decide +kernel, hrow, (Prod.mk.inj hparts).2, (Prod.mk.inj hparts).1⟩
  obtain ⟨resp, hresp, -, -, hopen, -⟩ := range_read_exact (m := sampleMoment) hread (by decide)
  have hanswer := hopen "0" 0 hzero (by decide) (by decide)
  rw [RangeAnswer, if_pos (by decide)] at hanswer
  exact ⟨resp, hresp, hanswer⟩

end BlobStore
