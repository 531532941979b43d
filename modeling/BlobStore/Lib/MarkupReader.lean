import BlobStore.Lib.Markup
import Mathlib.Data.List.Infix

/-!
# Reading markup documents

A reader for documents without a type declaration: it is given the whole text, and makes a tree of
it if the text is well formed. Ends of lines in its texts are made uniform.
-/

namespace Markup

/-! ### Characters and names -/

def inRanges (ranges : List (ℕ × ℕ)) (c : Char) : Bool :=
  ranges.any fun r => r.1 ≤ c.toNat && c.toNat ≤ r.2

/-- The characters that a document may be made of. -/
def isXmlChar : Char → Bool :=
  inRanges [(0x9, 0xA), (0xD, 0xD), (0x20, 0xD7FF), (0xE000, 0xFFFD), (0x10000, 0x10FFFF)]

def isNameStart : Char → Bool :=
  inRanges [(0x3A, 0x3A), (0x41, 0x5A), (0x5F, 0x5F), (0x61, 0x7A), (0xC0, 0xD6), (0xD8, 0xF6),
    (0xF8, 0x2FF), (0x370, 0x37D), (0x37F, 0x1FFF), (0x200C, 0x200D), (0x2070, 0x218F),
    (0x2C00, 0x2FEF), (0x3001, 0xD7FF), (0xF900, 0xFDCF), (0xFDF0, 0xFFFD), (0x10000, 0xEFFFF)]

def isNameChar (c : Char) : Bool :=
  isNameStart c ||
    inRanges [(0x2D, 0x2E), (0x30, 0x39), (0xB7, 0xB7), (0x300, 0x36F), (0x203F, 0x2040)] c

def isName : List Char → Bool
  | []      => false
  | c :: cs => isNameStart c && cs.all isNameChar

/-- Every end of a line becomes a line feed; the flag says that a carriage return was before. -/
def normalizeFrom : Bool → List Char → List Char
  | _, []          => []
  | after, c :: cs =>
    if c = '\r' then '\n' :: normalizeFrom true cs
    else if after ∧ c = '\n' then normalizeFrom false cs
    else c :: normalizeFrom false cs

def normalizeEol (cs : List Char) : List Char := normalizeFrom false cs

/-- The text before the first occurrence of a pattern, and the text after it. -/
def cutAt (pat : List Char) : List Char → Option (List Char × List Char)
  | []      => none
  | c :: cs =>
    if pat <+: c :: cs then some ([], (c :: cs).drop pat.length)
    else (cutAt pat cs).map fun p => (c :: p.1, p.2)

/-! ### Parts of a document -/

/-- A text between tags, with its references resolved. -/
def decodeText (raw : List Char) : Option (List Char) :=
  if "]]>".toList <:+: raw then none
  else (unescapeFrom none (normalizeEol raw)).filter fun cs => cs.all isXmlChar

/-- The value of an attribute; blanks in it become spaces. -/
def decodeValue (raw : List Char) : Option (List Char) :=
  if '<' ∈ raw then none
  else
    (unescapeFrom none ((normalizeEol raw).map fun c => if isBlank c then ' ' else c)).filter
      fun cs => cs.all isXmlChar

/-- What the reader meets in a document. -/
inductive Lexeme where
  | start (name : List Char) (attributes : List (List Char × List Char)) (closed : Bool)
  | stop (name : List Char)
  | text (cs : List Char)
  | section (cs : List Char)
  | skipped

/-- The rest of a tag after its name: attributes, whether it is closed, and what comes after it. -/
def lexAttributes : ℕ → List Char → Option (List (List Char × List Char) × Bool × List Char)
  | 0, _      => none
  | n + 1, cs =>
    match cs.dropWhile isBlank with
    | '>' :: rest        => some ([], false, rest)
    | '/' :: '>' :: rest => some ([], true, rest)
    | cs₁                =>
      let name := cs₁.takeWhile isNameChar
      match (cs₁.dropWhile isNameChar).dropWhile isBlank with
      | '=' :: cs₂ =>
        match cs₂.dropWhile isBlank with
        | q :: cs₃ =>
          if cs₁.length < cs.length ∧ isName name ∧ (q = '"' ∨ q = '\'') then
            match cs₃.dropWhile (· ≠ q) with
            | _ :: cs₄ => do
              let value ← decodeValue (cs₃.takeWhile (· ≠ q))
              let (attributes, closed, rest) ← lexAttributes n cs₄
              if attributes.any fun a => a.1 = name then none
              else some ((name, value) :: attributes, closed, rest)
            | []       => none
          else none
        | []       => none
      | _          => none

/-- The first part of a document, and what comes after it. -/
def lexeme : List Char → Option (Lexeme × List Char)
  | '<' :: '!' :: '-' :: '-' :: cs => do
    let (s, rest) ← cutAt "--".toList cs
    match rest with
    | '>' :: rest => if s.all isXmlChar then some (.skipped, rest) else none
    | _           => none
  | '<' :: '!' :: '[' :: 'C' :: 'D' :: 'A' :: 'T' :: 'A' :: '[' :: cs => do
    let (s, rest) ← cutAt "]]>".toList cs
    if s.all isXmlChar then some (.section (normalizeEol s), rest) else none
  | '<' :: '?' :: cs => do
    let (s, rest) ← cutAt "?>".toList cs
    let target := s.takeWhile isNameChar
    if isName target ∧ target.map Char.toLower ≠ "xml".toList ∧ s.all isXmlChar ∧
        ((s.dropWhile isNameChar).head?.all isBlank) then some (.skipped, rest)
    else none
  | '<' :: '/' :: cs =>
    let name := cs.takeWhile isNameChar
    match (cs.dropWhile isNameChar).dropWhile isBlank with
    | '>' :: rest => if isName name then some (.stop name, rest) else none
    | _           => none
  | '<' :: cs =>
    let name := cs.takeWhile isNameChar
    if isName name then
      (lexAttributes cs.length (cs.dropWhile isNameChar)).map fun p =>
        (.start name p.1 p.2.1, p.2.2)
    else none
  | cs => (decodeText (cs.takeWhile (· ≠ '<'))).map fun s => (.text s, cs.dropWhile (· ≠ '<'))

/-! ### Trees -/

inductive Node where
  | text (cs : List Char)
  | element (name : List Char) (attributes : List (List Char × List Char)) (children : List Node)

/-- An element that is open, with the nodes that are in it so far. -/
structure Frame where
  name : List Char
  attributes : List (List Char × List Char)
  children : List Node

def Frame.add (f : Frame) (nodes : List Node) : Frame := { f with children := f.children ++ nodes }

/-- Where the reader is: the open elements, and the outermost element if it is closed. -/
structure Place where
  stack : List Frame
  root : Option Node

/-- Puts a node into the innermost open element. -/
def Place.add (node : Node) : Place → Option Place
  | ⟨[], none⟩         => some ⟨[], some node⟩
  | ⟨[], some _⟩       => none
  | ⟨f :: stack, root⟩ => some ⟨f.add [node] :: stack, root⟩

def Place.step (p : Place) : Lexeme → Option Place
  | .skipped                     => some p
  | .section cs                  => if p.stack = [] then none else p.add (.text cs)
  | .text cs                     =>
    if p.stack = [] then if cs.all isBlank then some p else none else p.add (.text cs)
  | .start name attributes true  => p.add (.element name attributes [])
  | .start name attributes false =>
    if p.stack = [] ∧ p.root.isSome then none
    else some { p with stack := ⟨name, attributes, []⟩ :: p.stack }
  | .stop name                   =>
    match p.stack with
    | []         => none
    | f :: stack =>
      if f.name = name then Place.add (.element f.name f.attributes f.children) ⟨stack, p.root⟩
      else none

/-- Reads a document to its end. -/
def readFrom : ℕ → Place → List Char → Option Node
  | 0, _, _      => none
  | n + 1, p, cs =>
    if cs = [] then if p.stack = [] then p.root else none
    else do
      let (l, rest) ← lexeme cs
      readFrom n (← p.step l) rest

/-- What comes after a declaration, if there is one. -/
def afterDeclaration (cs : List Char) : Option (List Char) :=
  if "<?xml ".toList <+: cs then (cutAt "?>".toList (cs.drop 6)).map Prod.snd else some cs

/-- The tree of a document. -/
def readDocument (s : String) : Option Node :=
  (afterDeclaration s.toList).bind fun body => readFrom (body.length + 1) ⟨[], none⟩ body

/-! ### Ends of lines -/

section EndsOfLines

variable {cs : List Char} {after : Bool}

lemma normalizeFrom_of_not_mem (hreturn : '\r' ∉ cs) (hfeed : after = true → '\n' ∉ cs)
    (rest : List Char) :
    normalizeFrom after (cs ++ rest) =
      cs ++ normalizeFrom (if cs = [] then after else false) rest := by
  induction cs generalizing after with
  | nil => simp
  | cons c cs ih =>
    simp only [List.mem_cons, not_or] at hreturn hfeed
    have hskip : ¬ (after = true ∧ c = '\n') := fun h => (hfeed h.1).1 h.2.symm
    rw [List.cons_append, normalizeFrom, if_neg (Ne.symm hreturn.1), if_neg hskip,
      ih hreturn.2 (by simp)]
    simp

/-- Only texts without a carriage return keep their ends of lines. -/
lemma normalizeEol_eq_self_iff : normalizeEol cs = cs ↔ '\r' ∉ cs := by
  constructor
  · have hno : ∀ (cs : List Char) (after : Bool), '\r' ∉ normalizeFrom after cs := by
      intro cs
      induction cs with
      | nil => simp [normalizeFrom]
      | cons c cs ih =>
        intro after
        rw [normalizeFrom]
        split_ifs with hc hskip
        · simp [ih]
        · exact ih _
        · simp [ih, Ne.symm hc]
    intro h
    rw [← h]
    exact hno cs false
  · intro h
    have hsame : normalizeFrom false (cs ++ []) =
        cs ++ normalizeFrom (if cs = [] then false else false) [] :=
      normalizeFrom_of_not_mem h (by simp) []
    simpa [normalizeEol, normalizeFrom] using hsame

lemma isXmlChar_normalizeFrom (h : ∀ c ∈ cs, isXmlChar c = true) :
    ∀ c ∈ normalizeFrom after cs, isXmlChar c = true := by
  induction cs generalizing after with
  | nil => simp [normalizeFrom]
  | cons c cs ih =>
    obtain ⟨hc, hcs⟩ := List.forall_mem_cons.mp h
    rw [normalizeFrom]
    split_ifs
    · exact List.forall_mem_cons.mpr ⟨by decide, ih hcs⟩
    · exact ih hcs
    · exact List.forall_mem_cons.mpr ⟨hc, ih hcs⟩

end EndsOfLines

/-! ### Runs -/

section Runs

variable {r : Run}

/-- Ends of lines stand for themselves. -/
def Run.LiteralEol (r : Run) : Prop :=
  ∀ x ∈ r, x.char = '\r' ∨ x.char = '\n' → x.write = [x.char]

/-- A text without marks is a run. -/
lemma exists_literal_run {cs : List Char} (h : ∀ c ∈ cs, c ≠ '<' ∧ c ≠ '&') :
    ∃ r : Run, r.write = cs ∧ r.chars = cs ∧ r.LiteralEol := by
  induction cs with
  | nil => exact ⟨[], rfl, rfl, by simp [Run.LiteralEol]⟩
  | cons c cs ih =>
    obtain ⟨hc, hcs⟩ := List.forall_mem_cons.mp h
    obtain ⟨r, hwrite, hchars, hline⟩ := ih hcs
    refine ⟨.literal c hc :: r, ?_, ?_, List.forall_mem_cons.mpr ⟨fun _ => rfl, hline⟩⟩
    · rw [Run.write_cons, hwrite]
      rfl
    · rw [Run.chars_cons, hchars]
      rfl

lemma not_mem_write_reference {name : List Char} {c d : Char} (hc : refChar name = some c)
    (hd : Codec.hexValue d = none) (hd' : d ∉ "#xmpltgquos&;".toList) :
    d ∉ (CharData.reference name c hc).write := by
  simp only [String.reduceToList, List.mem_cons, not_or] at hd'
  have hname : d ∉ name := not_mem_of_refChar hc hd (by simp [hd'])
  simp [CharData.write, hname, hd']

/-- A run is still a run if its ends of lines are made uniform. -/
lemma exists_normalized (h : r.LiteralEol) (after : Bool) :
    ∃ s : Run, s.write = normalizeFrom after r.write ∧ s.chars = normalizeFrom after r.chars := by
  induction r generalizing after with
  | nil => exact ⟨[], rfl, rfl⟩
  | cons x r ih =>
    obtain ⟨hx, hr⟩ := List.forall_mem_cons.mp h
    cases x with
    | literal c hc =>
      by_cases hreturn : c = '\r'
      · obtain ⟨s, hwrite, hchars⟩ := ih hr true
        exact ⟨.literal '\n' (by decide) :: s, by
          simp [CharData.write, CharData.char, normalizeFrom, hreturn, hwrite, hchars]⟩
      · obtain ⟨s, hwrite, hchars⟩ := ih hr false
        by_cases hskip : after = true ∧ c = '\n'
        · exact ⟨s, by
            simp [CharData.write, CharData.char, normalizeFrom, hskip, hwrite, hchars]⟩
        · exact ⟨.literal c hc :: s, by
            simp [CharData.write, CharData.char, normalizeFrom, hreturn, hskip, hwrite, hchars]⟩
    | reference name c hc =>
      have hc' : c ≠ '\r' ∧ c ≠ '\n' := by
        constructor
        · rintro rfl
          simpa [CharData.write] using hx (.inl rfl)
        · rintro rfl
          simpa [CharData.write] using hx (.inr rfl)
      have hempty : (CharData.reference name c hc).write ≠ [] := by simp [CharData.write]
      obtain ⟨s, hwrite, hchars⟩ := ih hr false
      refine ⟨.reference name c hc :: s, ?_, ?_⟩
      · rw [Run.write_cons, Run.write_cons, normalizeFrom_of_not_mem
          (not_mem_write_reference hc (by decide) (by decide))
          fun _ => not_mem_write_reference hc (by decide) (by decide), if_neg hempty, hwrite]
      · simp [CharData.char, normalizeFrom, hc', hchars]

/-- A run with spaces for its blanks. -/
def Run.spaced (r : Run) : Run :=
  r.map fun
    | .literal c h => if Markup.isBlank c then .literal ' ' (by decide) else .literal c h
    | x            => x

lemma Run.write_spaced (r : Run) :
    r.spaced.write = r.write.map fun c => if Markup.isBlank c then ' ' else c := by
  induction r with
  | nil => rfl
  | cons x r ih =>
    have hcons : Run.spaced (x :: r) = Run.spaced [x] ++ Run.spaced r := rfl
    rw [hcons, write_append, ih, write_cons, List.map_append]
    congr 1
    cases x with
    | literal c hc => cases hblank : Markup.isBlank c <;> simp [spaced, CharData.write, hblank]
    | reference name c hc =>
      have hsame : ∀ d ∈ (CharData.reference name c hc).write, Markup.isBlank d = false := by
        intro d hd
        rw [Bool.eq_false_iff]
        intro hblank
        simp only [Markup.isBlank, Bool.or_eq_true, decide_eq_true_eq] at hblank
        rcases hblank with ((rfl | rfl) | rfl) | rfl
        all_goals exact not_mem_write_reference hc (by decide) (by decide) hd
      have hmap : (CharData.reference name c hc).write.map
          (fun c => if Markup.isBlank c then ' ' else c) = (CharData.reference name c hc).write.map id :=
        List.map_congr_left fun d hd => by simp [hsame d hd]
      rw [hmap, List.map_id]
      simp [spaced]

lemma Run.mem_chars_spaced {c : Char} (h : c ∈ r.spaced.chars) : c = ' ' ∨ c ∈ r.chars := by
  simp only [chars, spaced, List.map_map, List.mem_map, Function.comp_apply] at h ⊢
  obtain ⟨x, hx, rfl⟩ := h
  cases x with
  | literal d hd =>
    cases hblank : Markup.isBlank d with
    | true => simp [hblank, CharData.char]
    | false => exact .inr ⟨_, hx, by simp [hblank, CharData.char]⟩
  | reference name d hd => exact .inr ⟨_, hx, rfl⟩

lemma Run.not_mem_write (r : Run) : '<' ∉ r.write := by
  rw [write, List.mem_flatMap]
  rintro ⟨x, -, hx⟩
  cases x with
  | literal c hc =>
    rw [CharData.write, List.mem_singleton] at hx
    exact hc.1 hx.symm
  | reference name c hc => exact not_mem_write_reference hc (by decide) (by decide) hx

/-- A run between tags is read as what it stands for. -/
lemma decodeText_of_run (hline : r.LiteralEol) (hend : '>' ∉ r.write)
    (hchars : ∀ c ∈ r.chars, isXmlChar c = true) :
    decodeText r.write = some (normalizeEol r.chars) := by
  have hclose : ¬ "]]>".toList <:+: r.write := fun h => hend (h.subset (by decide))
  obtain ⟨s, hwrite, hs⟩ := exists_normalized hline false
  have hxml : (normalizeEol r.chars).all isXmlChar = true := by
    rw [List.all_eq_true]
    exact isXmlChar_normalizeFrom hchars
  rw [decodeText, if_neg hclose, normalizeEol, ← hwrite, unescapeFrom_write, hs,
    Option.filter_some]
  exact if_pos hxml

/-- A run between quotes is read. -/
lemma decodeValue_of_run (hline : r.LiteralEol) (hchars : ∀ c ∈ r.chars, isXmlChar c = true) :
    ∃ value, decodeValue r.write = some value := by
  obtain ⟨s, hwrite, hs⟩ := exists_normalized hline false
  have hxml : s.spaced.chars.all isXmlChar = true := by
    rw [List.all_eq_true]
    intro c hc
    rcases Run.mem_chars_spaced hc with rfl | hc
    · decide
    · rw [hs] at hc
      exact isXmlChar_normalizeFrom hchars c hc
  refine ⟨s.spaced.chars, ?_⟩
  rw [decodeValue, if_neg r.not_mem_write, normalizeEol, ← hwrite, ← Run.write_spaced,
    unescapeFrom_write, Option.filter_some]
  exact if_pos hxml

end Runs

/-! ### Reading what is written -/

section Lexemes

variable {name raw rest : List Char}

lemma isNameChar_of_isName (h : isName name = true) : ∀ c ∈ name, isNameChar c = true := by
  cases name with
  | nil => simp
  | cons c cs =>
    rw [isName, Bool.and_eq_true, List.all_eq_true] at h
    intro d hd
    rcases List.mem_cons.mp hd with rfl | hd
    · simp [isNameChar, h.1]
    · exact h.2 d hd

/-- What the first character of a name is not. -/
lemma ne_of_isName {x c : Char} {xs : List Char} (h : isName (x :: xs) = true)
    (hc : isNameStart c = false) : x ≠ c := by
  rw [isName, Bool.and_eq_true] at h
  rintro rfl
  rw [hc] at h
  exact absurd h.1 (by simp)

lemma takeWhile_name (h : isName name = true) {c : Char} (hc : isNameChar c = false)
    (rest : List Char) :
    (name ++ c :: rest).takeWhile isNameChar = name := by
  rw [List.takeWhile_append_of_pos (isNameChar_of_isName h)]
  simp [hc]

lemma dropWhile_name (h : isName name = true) {c : Char} (hc : isNameChar c = false)
    (rest : List Char) :
    (name ++ c :: rest).dropWhile isNameChar = c :: rest := by
  rw [List.dropWhile_append_of_pos (isNameChar_of_isName h)]
  simp [hc]

lemma takeWhile_until {c : Char} (h : c ∉ raw) (rest : List Char) :
    (raw ++ c :: rest).takeWhile (· ≠ c) = raw := by
  have hkeep : ∀ d ∈ raw, decide (d ≠ c) = true := by
    intro d hd
    rw [decide_eq_true_eq]
    rintro rfl
    exact h hd
  rw [List.takeWhile_append_of_pos hkeep]
  simp

lemma dropWhile_until {c : Char} (h : c ∉ raw) (rest : List Char) :
    (raw ++ c :: rest).dropWhile (· ≠ c) = c :: rest := by
  have hsplit := List.takeWhile_append_dropWhile (p := (· ≠ c)) (l := raw ++ c :: rest)
  rw [takeWhile_until h rest] at hsplit
  exact List.append_cancel_left hsplit

lemma lexeme_tag (h : isName name = true) {c : Char} (hc : isNameChar c = false) :
    lexeme ('<' :: name ++ c :: rest) =
      (lexAttributes (name ++ c :: rest).length (c :: rest)).map fun p =>
        (.start name p.1 p.2.1, p.2.2) := by
  have htake : (name ++ c :: rest).takeWhile isNameChar = name := takeWhile_name h hc rest
  have hdrop : (name ++ c :: rest).dropWhile isNameChar = c :: rest := dropWhile_name h hc rest
  cases name with
  | nil => cases h
  | cons x xs =>
    have hne : x ≠ '!' ∧ x ≠ '?' ∧ x ≠ '/' :=
      ⟨ne_of_isName h (by decide), ne_of_isName h (by decide), ne_of_isName h (by decide)⟩
    simp only [List.cons_append] at htake hdrop ⊢
    simp [lexeme, hne, htake, hdrop, h]

lemma lexeme_start (h : isName name = true) (rest : List Char) :
    lexeme ('<' :: name ++ '>' :: rest) = some (.start name [] false, rest) := by
  have hblank : isBlank '>' = false := by decide
  rw [lexeme_tag h (by decide), List.length_append, List.length_cons, ← Nat.add_assoc,
    lexAttributes]
  simp [hblank]

lemma lexeme_stop (h : isName name = true) (rest : List Char) :
    lexeme ('<' :: '/' :: name ++ '>' :: rest) = some (.stop name, rest) := by
  have hblank : isBlank '>' = false := by decide
  have hend : isNameChar '>' = false := by decide
  have htake := takeWhile_name h hend rest
  have hdrop := dropWhile_name h hend rest
  simp only [List.cons_append]
  simp [lexeme, htake, hdrop, hblank, h]

lemma lexeme_text (hne : raw ≠ []) (hraw : '<' ∉ raw) (rest : List Char) :
    lexeme (raw ++ '<' :: rest) = (decodeText raw).map fun s => (.text s, '<' :: rest) := by
  have htake : (raw ++ '<' :: rest).takeWhile (· ≠ '<') = raw := takeWhile_until hraw _
  have hdrop : (raw ++ '<' :: rest).dropWhile (· ≠ '<') = '<' :: rest := dropWhile_until hraw _
  cases raw with
  | nil => exact absurd rfl hne
  | cons c cs =>
    have hc : c ≠ '<' := fun heq => hraw (by simp [heq])
    rw [List.cons_append] at htake hdrop ⊢
    rw [lexeme, htake, hdrop]
    all_goals simp [hc]

end Lexemes

/-- A run that is read where it is written. -/
structure Run.Readable (r : Run) : Prop where
  line : r.LiteralEol
  closing : '>' ∉ r.write
  xml : ∀ c ∈ r.chars, isXmlChar c = true

/-! ### Attributes -/

/-- The attributes of a tag, as they are written. -/
def writeAttributes (attributes : List (List Char × Run)) : List Char :=
  attributes.flatMap fun a => ' ' :: a.1 ++ '=' :: '"' :: a.2.write ++ ['"']

section Attributes

variable {name raw value rest rest' : List Char} {values : List (List Char × List Char)}
  {closed : Bool} {n : ℕ}

lemma lexAttributes_close (n : ℕ) :
    lexAttributes (n + 1) ('>' :: rest) = some ([], false, rest) := by
  have hblank : isBlank '>' = false := by decide
  simp [lexAttributes, hblank]

lemma lexAttributes_cons (h : isName name = true) (hraw : '"' ∉ raw)
    (hvalue : decodeValue raw = some value)
    (hrest : lexAttributes n rest = some (values, closed, rest'))
    (hnew : name ∉ values.map Prod.fst) :
    lexAttributes (n + 1) (' ' :: name ++ '=' :: '"' :: raw ++ '"' :: rest) =
      some ((name, value) :: values, closed, rest') := by
  have hspace : isBlank ' ' = true := by decide
  have hequals : isNameChar '=' = false ∧ isBlank '=' = false ∧ isBlank '"' = false := by decide
  have htake := takeWhile_name h hequals.1 ('"' :: raw ++ '"' :: rest)
  have hdrop := dropWhile_name h hequals.1 ('"' :: raw ++ '"' :: rest)
  have htake' := takeWhile_until hraw rest
  have hdrop' := dropWhile_until hraw rest
  simp only [ne_eq, decide_not] at htake' hdrop'
  have hany : (values.any fun a => a.1 = name) = false := by
    rw [List.any_eq_false]
    intro a ha heq
    exact hnew (List.mem_map.mpr ⟨a, ha, of_decide_eq_true heq⟩)
  cases name with
  | nil => cases h
  | cons x xs =>
    have hne : ∀ c, isNameStart c = false → x ≠ c := fun c hc => ne_of_isName h hc
    have hblank : isBlank x = false := by
      simp [isBlank, hne ' ' (by decide), hne '\t' (by decide), hne '\r' (by decide),
        hne '\n' (by decide)]
    simp only [List.cons_append, List.append_assoc] at htake hdrop ⊢
    rw [lexAttributes]
    simp [hspace, hblank, hne '>' (by decide), hne '/' (by decide), htake, hdrop, hequals, h,
      htake', hdrop', hvalue, hrest, hany]

/-- Attributes that are read where they are written. -/
structure ReadableAttributes (attributes : List (List Char × Run)) : Prop where
  names : ∀ a ∈ attributes, isName a.1 = true
  nodup : (attributes.map Prod.fst).Nodup
  runs : ∀ a ∈ attributes, a.2.Readable ∧ '"' ∉ a.2.write

/-- Attributes are read under their names. -/
lemma exists_lexAttributes {attributes : List (List Char × Run)}
    (h : ReadableAttributes attributes) (rest : List Char) (n : ℕ) :
    ∃ values, values.map Prod.fst = attributes.map Prod.fst ∧
      lexAttributes (n + attributes.length + 1) (writeAttributes attributes ++ '>' :: rest) =
        some (values, false, rest) := by
  induction attributes with
  | nil => exact ⟨[], rfl, lexAttributes_close n⟩
  | cons a attributes ih =>
    obtain ⟨hname, hnames⟩ := List.forall_mem_cons.mp h.names
    obtain ⟨⟨hrun, hquote⟩, hruns⟩ := List.forall_mem_cons.mp h.runs
    obtain ⟨hnew, hnodup⟩ := List.nodup_cons.mp h.nodup
    obtain ⟨values, hvalues, hlex⟩ := ih ⟨hnames, hnodup, hruns⟩
    obtain ⟨value, hvalue⟩ := decodeValue_of_run hrun.line hrun.xml
    refine ⟨(a.1, value) :: values, by simp [hvalues], ?_⟩
    have hwrite : writeAttributes (a :: attributes) ++ '>' :: rest =
        ' ' :: a.1 ++ '=' :: '"' :: a.2.write ++ '"' ::
          (writeAttributes attributes ++ '>' :: rest) := by
      simp [writeAttributes]
    rw [hwrite]
    exact lexAttributes_cons hname hquote hvalue hlex (by rw [hvalues]; exact hnew)

lemma length_le_writeAttributes (attributes : List (List Char × Run)) :
    attributes.length ≤ (writeAttributes attributes).length := by
  induction attributes with
  | nil => simp
  | cons a attributes ih =>
    simp only [writeAttributes, List.flatMap_cons, List.length_append, List.length_cons] at ih ⊢
    omega

/-- A tag is read with its attributes. -/
lemma exists_lexeme_start {attributes : List (List Char × Run)} (h : isName name = true)
    (hattributes : ReadableAttributes attributes) (rest : List Char) :
    ∃ values, lexeme ('<' :: name ++ writeAttributes attributes ++ '>' :: rest) =
      some (.start name values false, rest) := by
  have hstart : ∃ c cs, isNameChar c = false ∧
      writeAttributes attributes ++ '>' :: rest = c :: cs := by
    cases attributes with
    | nil => exact ⟨'>', rest, by decide, rfl⟩
    | cons a attributes => exact ⟨' ', _, by decide, rfl⟩
  obtain ⟨c, cs, hc, hcs⟩ := hstart
  have hlen : ∃ n, (name ++ c :: cs).length = n + attributes.length + 1 := by
    have hle := length_le_writeAttributes attributes
    rw [← hcs]
    refine ⟨(name ++ (writeAttributes attributes ++ '>' :: rest)).length - attributes.length - 1,
      ?_⟩
    simp only [List.length_append, List.length_cons]
    omega
  obtain ⟨n, hn⟩ := hlen
  obtain ⟨values, -, hlex⟩ := exists_lexAttributes hattributes rest n
  refine ⟨values, ?_⟩
  rw [List.append_assoc, hcs, lexeme_tag h hc, hn, ← hcs, hlex]
  rfl

end Attributes

/-! ### Elements -/

/-- In an open element, the text is read as the nodes if it is followed by a tag. -/
def Fills (s : List Char) (nodes : List Node) : Prop :=
  ∃ k ≤ s.length, ∀ n f stack root rest,
    readFrom (n + k) ⟨f :: stack, root⟩ (s ++ '<' :: rest) =
      readFrom n ⟨f.add nodes :: stack, root⟩ ('<' :: rest)

/-- In an open element, the text is read as the nodes whatever follows. -/
def Yields (s : List Char) (nodes : List Node) : Prop :=
  ∃ k ≤ s.length, ∀ n f stack root rest,
    readFrom (n + k) ⟨f :: stack, root⟩ (s ++ rest) =
      readFrom n ⟨f.add nodes :: stack, root⟩ rest

/-- An element with a text in it. -/
def leaf (name cs : List Char) : Node :=
  .element name [] (if cs = [] then [] else [.text (normalizeEol cs)])

section Elements

variable {name s t : List Char} {nodes nodes' : List Node} {r : Run}

@[simp] lemma Frame.add_nil (f : Frame) : f.add [] = f := by simp [Frame.add]

@[simp] lemma Frame.add_add (f : Frame) (nodes nodes' : List Node) :
    (f.add nodes).add nodes' = f.add (nodes ++ nodes') := by
  simp [Frame.add]

lemma readFrom_lexeme {cs rest : List Char} {l : Lexeme} {p q : Place} (hne : cs ≠ [])
    (h : lexeme cs = some (l, rest)) (hstep : p.step l = some q) (n : ℕ) :
    readFrom (n + 1) p cs = readFrom n q rest := by
  simp [readFrom, hne, h, hstep]

lemma Yields.fills (h : Yields s nodes) : Fills s nodes := by
  obtain ⟨k, hk, hread⟩ := h
  exact ⟨k, hk, fun n f stack root rest => hread n f stack root _⟩

lemma yields_nil : Yields [] [] := ⟨0, le_rfl, by simp⟩

lemma Yields.append (h : Yields s nodes) (h' : Yields t nodes') :
    Yields (s ++ t) (nodes ++ nodes') := by
  obtain ⟨k, hk, hread⟩ := h
  obtain ⟨k', hk', hread'⟩ := h'
  refine ⟨k' + k, ?_, fun n f stack root rest => ?_⟩
  · rw [List.length_append]
    omega
  · rw [List.append_assoc, ← Nat.add_assoc, hread, hread', Frame.add_add]

lemma yields_flatMap {α : Type} {l : List α} {write : α → List Char} {nodesOf : α → List Node}
    (h : ∀ x ∈ l, Yields (write x) (nodesOf x)) :
    Yields (l.flatMap write) (l.flatMap nodesOf) := by
  induction l with
  | nil => exact yields_nil
  | cons x l ih =>
    obtain ⟨hx, hl⟩ := List.forall_mem_cons.mp h
    exact hx.append (ih hl)

/-- The text of an element. -/
lemma fills_run (h : r.Readable) :
    Fills r.write (if r.chars = [] then [] else [.text (normalizeEol r.chars)]) := by
  cases r with
  | nil => exact ⟨0, le_rfl, by simp [Run.chars]⟩
  | cons x r =>
    have hne : Run.write (x :: r) ≠ [] := by cases x <;> simp [CharData.write]
    refine ⟨1, List.length_pos_iff.mpr hne, fun n f stack root rest => ?_⟩
    rw [Run.chars_cons, if_neg (List.cons_ne_nil _ _), ← Run.chars_cons]
    have hlex := lexeme_text hne (Run.not_mem_write _) rest
    rw [decodeText_of_run h.line h.closing h.xml] at hlex
    exact readFrom_lexeme (by simp) hlex (by simp [Place.step, Place.add]) n

/-- An element is read with what fills it. -/
lemma yields_element (h : isName name = true) (hinner : Fills s nodes) :
    Yields ('<' :: name ++ '>' :: s ++ '<' :: '/' :: name ++ ['>']) [.element name [] nodes] := by
  obtain ⟨k, hk, hread⟩ := hinner
  refine ⟨k + 2, ?_, fun n f stack root rest => ?_⟩
  · simp only [List.length_append, List.length_cons]
    omega
  · have htext : '<' :: name ++ '>' :: s ++ '<' :: '/' :: name ++ ['>'] ++ rest =
        '<' :: name ++ '>' :: (s ++ '<' :: '/' :: name ++ '>' :: rest) := by
      simp
    have hopen : Place.step ⟨f :: stack, root⟩ (.start name [] false) =
        some ⟨⟨name, [], []⟩ :: f :: stack, root⟩ := by
      simp [Place.step]
    have hclose : Place.step ⟨Frame.add ⟨name, [], []⟩ nodes :: f :: stack, root⟩ (.stop name) =
        some ⟨f.add [.element name [] nodes] :: stack, root⟩ := by
      simp [Place.step, Place.add, Frame.add]
    rw [htext, ← Nat.add_assoc, readFrom_lexeme (by simp) (lexeme_start h _) hopen,
      Nat.add_right_comm, List.append_assoc, List.cons_append, hread]
    exact readFrom_lexeme (by simp) (lexeme_stop h rest) hclose n

lemma yields_leaf (h : isName name = true) (hr : r.Readable) :
    Yields ('<' :: name ++ '>' :: r.write ++ '<' :: '/' :: name ++ ['>']) [leaf name r.chars] :=
  yields_element h (fills_run hr)

end Elements

/-! ### Documents -/

section Documents

variable {name inner declared : List Char} {attributes : List (List Char × Run)}
  {nodes : List Node} {s : String}

lemma cutAt_of_not_mem {c : Char} {pat before : List Char} (h : c ∉ before) (rest : List Char) :
    cutAt (c :: pat) (before ++ c :: pat ++ rest) = some (before, rest) := by
  induction before with
  | nil =>
    have hbegins : c :: pat <+: c :: (pat ++ rest) := ⟨rest, rfl⟩
    simp only [List.nil_append, List.cons_append]
    rw [cutAt, if_pos hbegins]
    simp
  | cons d before ih =>
    simp only [List.mem_cons, not_or] at h
    have hbegins : ¬ c :: pat <+: d :: (before ++ c :: pat ++ rest) := fun hp =>
      h.1 (List.cons_prefix_cons.mp hp).1
    rw [List.cons_append, List.cons_append, cutAt, if_neg hbegins, ih h.2]
    rfl

/-- A document with a declaration is read as its element. -/
lemma exists_readDocument
    (htext : s.toList = "<?xml ".toList ++ declared ++ "?>\n".toList ++ ('<' :: name ++
      writeAttributes attributes ++ '>' :: inner ++ '<' :: '/' :: name ++ ['>']))
    (hdeclared : '?' ∉ declared) (h : isName name = true)
    (hattributes : ReadableAttributes attributes) (hinner : Fills inner nodes) :
    ∃ values, readDocument s = some (.element name values nodes) := by
  obtain ⟨k, hk, hread⟩ := hinner
  obtain ⟨values, hstart⟩ := exists_lexeme_start h hattributes
    (inner ++ '<' :: '/' :: name ++ ['>'])
  refine ⟨values, ?_⟩
  let tags := name ++ writeAttributes attributes ++ '>' :: (inner ++ '<' :: '/' :: name ++ ['>'])
  have hbody : s.toList = "<?xml ".toList ++ (declared ++ "?>".toList ++ '\n' :: '<' :: tags) := by
    rw [htext]
    simp [tags]
  have hbegins : "<?xml ".toList <+: s.toList := ⟨_, hbody.symm⟩
  have hdrop : s.toList.drop 6 = declared ++ "?>".toList ++ '\n' :: '<' :: tags := by
    rw [hbody]
    rfl
  have hcut : cutAt "?>".toList (declared ++ "?>".toList ++ '\n' :: '<' :: tags) =
      some (declared, '\n' :: '<' :: tags) :=
    cutAt_of_not_mem hdeclared _
  have hlen : ∃ n, ('\n' :: '<' :: tags).length + 1 = n + 1 + 1 + k + 1 + 1 := by
    refine ⟨('\n' :: '<' :: tags).length - k - 3, ?_⟩
    simp only [tags, List.length_cons, List.length_append]
    omega
  obtain ⟨n, hn⟩ := hlen
  have hskip : Place.step ⟨[], none⟩ (.text ['\n']) = some ⟨[], none⟩ := by
    simp [Place.step, isBlank]
  have hopen : Place.step ⟨[], none⟩ (.start name values false) =
      some ⟨[⟨name, values, []⟩], none⟩ := by
    simp [Place.step]
  have hclose : Place.step ⟨[Frame.add ⟨name, values, []⟩ nodes], none⟩ (.stop name) =
      some ⟨[], some (.element name values nodes)⟩ := by
    simp [Place.step, Place.add, Frame.add]
  have hblank : lexeme ('\n' :: '<' :: tags) = some (.text ['\n'], '<' :: tags) := by
    have hnewline : decodeText ['\n'] = some ['\n'] := by decide
    have hlex : lexeme (['\n'] ++ '<' :: tags) = _ := lexeme_text (by simp) (by decide) tags
    rwa [hnewline] at hlex
  rw [readDocument, afterDeclaration, if_pos hbegins, hdrop, hcut, Option.map_some,
    Option.bind_some]
  have htags : '<' :: tags = '<' :: name ++ writeAttributes attributes ++ '>' ::
      (inner ++ '<' :: '/' :: name ++ ['>']) := by
    simp [tags]
  rw [hn, readFrom_lexeme (by simp) hblank hskip, htags, readFrom_lexeme (by simp) hstart hopen,
    List.append_assoc, List.cons_append, hread]
  have hend : readFrom (n + 1) ⟨[], some (.element name values nodes)⟩ [] =
      some (.element name values nodes) := rfl
  rw [← hend]
  exact readFrom_lexeme (by simp) (lexeme_stop h []) hclose (n + 1)

end Documents

end Markup
