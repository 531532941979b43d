import BlobStore.Lib.Codec
import Mathlib.Data.List.DropRight

/-!
# Markup texts

A document of a markup language is a sequence of tokens: tags, runs of character data, and what
stands aside of them. In a run, characters stand for themselves or are referred to by a name or a
number.
-/

namespace Markup

/-! ### Blanks -/

def isBlank (c : Char) : Bool := c = ' ' || c = '\t' || c = '\r' || c = '\n'

/-- A text without the blanks around it. -/
def trim (cs : List Char) : List Char := (cs.dropWhile isBlank).rdropWhile isBlank

/-- The characters of a text that are not blank. -/
def inked (cs : List Char) : List Char := cs.filter fun c => !isBlank c

section Blanks

variable {cs pre post : List Char}

@[simp] lemma inked_nil : inked [] = [] := rfl

/-- A text is what is left of it by trimming, and blanks around it. -/
lemma exists_of_trim {α : Type} (p : α → Bool) (l : List α) :
    ∃ pre post, l = pre ++ (l.dropWhile p).rdropWhile p ++ post ∧ (∀ x ∈ pre, p x = true) ∧
      ∀ x ∈ post, p x = true := by
  refine ⟨l.takeWhile p, (l.dropWhile p).rtakeWhile p, ?_, ?_, ?_⟩
  · rw [List.append_assoc, List.rdropWhile_append_rtakeWhile, List.takeWhile_append_dropWhile]
  · exact fun x hx => List.mem_takeWhile_imp hx
  · exact fun x hx => List.mem_rtakeWhile_imp hx

lemma trim_blank_append (h : ∀ c ∈ pre, isBlank c = true) (cs : List Char) :
    trim (pre ++ cs) = trim cs := by
  rw [trim, List.dropWhile_append_of_pos h, trim]

lemma trim_append_blank (h : ∀ c ∈ post, isBlank c = true) (cs : List Char) :
    trim (cs ++ post) = trim cs := by
  have hpost : post.rdropWhile isBlank = [] := List.rdropWhile_eq_nil_iff.mpr h
  rw [trim, trim, List.dropWhile_append]
  split_ifs with hcs
  · rw [List.isEmpty_iff] at hcs
    rw [hcs, List.dropWhile_eq_nil_iff.mpr h]
  · rw [List.rdropWhile, List.rdropWhile, List.reverse_append, List.dropWhile_append_of_pos]
    simpa using h

end Blanks

/-! ### References -/

/-- The character with a number, if there is one and it is not null. -/
def charOfNumber (n : ℕ) : Option Char :=
  if n ≠ 0 ∧ n.isValidChar then some (Char.ofNat n) else none

/-- The number that digits of a base stand for. -/
def number (base : ℕ) (digits : List Char) : Option ℕ :=
  if digits = [] then none
  else digits.foldlM (fun n c => (Codec.hexValue c).bind fun d =>
    if d < base then some (base * n + d) else none) 0

/-- The character that is referred to by a name or a number. -/
def refChar : List Char → Option Char
  | ['a', 'm', 'p']      => some '&'
  | ['l', 't']           => some '<'
  | ['g', 't']           => some '>'
  | ['q', 'u', 'o', 't'] => some '"'
  | ['a', 'p', 'o', 's'] => some '\''
  | '#' :: 'x' :: digits => (number 16 digits).bind charOfNumber
  | '#' :: digits        => (number 10 digits).bind charOfNumber
  | _                    => none

/-- A number is read as it is written. -/
lemma number_toDigits (n : ℕ) : number 10 (Nat.toDigits 10 n) = some n := by
  have hfold : ∀ (digits : List Char) (m : ℕ), (∀ c ∈ digits, c.isDigit = true) →
      digits.foldlM (fun n c => (Codec.hexValue c).bind fun d =>
        if d < 10 then some (10 * n + d) else none) m = some (Nat.ofDigitChars 10 digits m) := by
    intro digits
    induction digits with
    | nil => simp
    | cons c digits ih =>
      intro m hdigits
      obtain ⟨hc, hdigits⟩ := List.forall_mem_cons.mp hdigits
      simp only [Char.isDigit, Bool.and_eq_true, decide_eq_true_eq] at hc
      have hvalue : Codec.hexValue c = some (c.toNat - 48) := if_pos hc
      have hlt : c.toNat - 48 < 10 := by
        have hle : c.toNat ≤ 57 := hc.2
        omega
      rw [List.foldlM_cons, hvalue, Option.bind_some, if_pos hlt, Nat.ofDigitChars_cons]
      exact ih _ hdigits
  have hdigits : ∀ c ∈ Nat.toDigits 10 n, c.isDigit = true := fun c hc =>
    Nat.isDigit_of_mem_toDigits (by decide) (by decide) hc
  rw [number, if_neg Nat.toDigits_ne_nil, hfold _ 0 hdigits, Nat.ofDigitChars_ten_toDigits]

lemma not_mem_of_number {base n : ℕ} {digits : List Char} (h : number base digits = some n)
    {c : Char} (hc : Codec.hexValue c = none) : c ∉ digits := by
  have hfold : ∀ (digits : List Char) (m : ℕ), c ∈ digits →
      digits.foldlM (fun n c => (Codec.hexValue c).bind fun d =>
        if d < base then some (base * n + d) else none) m = none := by
    intro digits
    induction digits with
    | nil => simp
    | cons x digits ih =>
      intro m hmem
      rw [List.foldlM_cons]
      rcases List.mem_cons.mp hmem with rfl | hmem
      · simp [hc]
      · cases hstep : (Codec.hexValue x).bind fun d =>
            if d < base then some (base * m + d) else none with
        | none => rfl
        | some m' => exact ih m' hmem
  intro hmem
  rw [number] at h
  split_ifs at h
  simp [hfold digits 0 hmem] at h

/-- The characters that a name of a reference may be made of. -/
lemma not_mem_of_refChar {name : List Char} {c d : Char} (h : refChar name = some c)
    (hd : Codec.hexValue d = none) (hd' : d ∉ "#xmpltgquos".toList) : d ∉ name := by
  have hnumber : ∀ {base digits}, (number base digits).bind charOfNumber = some c →
      d ∉ digits := by
    intro base digits hnum
    obtain ⟨n, hn, -⟩ := Option.bind_eq_some_iff.mp hnum
    exact not_mem_of_number hn hd
  have ha : d ≠ 'a' := by
    rintro rfl
    revert hd
    decide
  simp only [String.reduceToList, List.mem_cons, not_or] at hd'
  unfold refChar at h
  split at h
  · simp_all
  · simp_all
  · simp_all
  · simp_all
  · simp_all
  · simp only [List.mem_cons, not_or]
    exact ⟨hd'.1, hd'.2.1, hnumber h⟩
  · simp only [List.mem_cons, not_or]
    exact ⟨hd'.1, hnumber h⟩
  · cases h

/-! ### Runs of characters -/

/-- A character as it is written in a run. -/
inductive CharData where
  | literal (c : Char) (h : c ≠ '<' ∧ c ≠ '&')
  | reference (name : List Char) (c : Char) (h : refChar name = some c)
  deriving DecidableEq

namespace CharData

def write : CharData → List Char
  | literal c _        => [c]
  | reference name _ _ => '&' :: name ++ [';']

def char : CharData → Char
  | literal c _     => c
  | reference _ c _ => c

/-- References are never blank, whatever they refer to. -/
def isBlank : CharData → Bool
  | literal c _     => Markup.isBlank c
  | reference _ _ _ => false

end CharData

abbrev Run := List CharData

namespace Run

def write (r : Run) : List Char := r.flatMap CharData.write

def chars (r : Run) : List Char := r.map CharData.char

def isBlank (r : Run) : Bool := r.all CharData.isBlank

/-- A run without the blanks around it. -/
def trim (r : Run) : Run := (r.dropWhile CharData.isBlank).rdropWhile CharData.isBlank

@[simp] lemma write_append (r s : Run) : write (r ++ s) = write r ++ write s :=
  List.flatMap_append ..

@[simp] lemma chars_append (r s : Run) : chars (r ++ s) = chars r ++ chars s :=
  List.map_append ..

@[simp] lemma write_nil : write [] = [] := rfl

@[simp] lemma write_cons (x : CharData) (r : Run) : write (x :: r) = x.write ++ write r := rfl

@[simp] lemma chars_cons (x : CharData) (r : Run) : chars (x :: r) = x.char :: chars r := rfl

variable {r : Run}

lemma isBlank_chars (h : r.isBlank = true) : ∀ c ∈ chars r, Markup.isBlank c = true := by
  simp only [isBlank, List.all_eq_true] at h
  intro c hc
  obtain ⟨x, hx, rfl⟩ := List.mem_map.mp hc
  have hblank := h x hx
  cases x with
  | literal c _ => exact hblank
  | reference name c _ => cases hblank

lemma all_isBlank_of (h : ∀ x ∈ r, CharData.isBlank x = true) : r.isBlank = true :=
  List.all_eq_true.mpr h

lemma write_dropWhile (r : Run) :
    write (r.dropWhile CharData.isBlank) = (write r).dropWhile Markup.isBlank := by
  induction r with
  | nil => rfl
  | cons x r ih =>
    cases x with
    | literal c hc =>
      cases hblank : Markup.isBlank c with
      | true => simpa [write, CharData.isBlank, CharData.write, hblank] using ih
      | false => simp [write, CharData.isBlank, CharData.write, hblank]
    | reference name c hc =>
      have hamp : Markup.isBlank '&' = false := by decide
      simp [write, CharData.isBlank, CharData.write, hamp]

lemma write_rdropWhile (r : Run) :
    write (r.rdropWhile CharData.isBlank) = (write r).rdropWhile Markup.isBlank := by
  induction r using List.reverseRecOn with
  | nil => rfl
  | append_singleton r x ih =>
    rw [write_append, List.rdropWhile_concat]
    cases x with
    | literal c hc =>
      have hwrite : write [.literal c hc] = [c] := rfl
      rw [hwrite, List.rdropWhile_concat, ← ih]
      cases hblank : Markup.isBlank c with
      | true => simp [CharData.isBlank, hblank]
      | false => simp [CharData.isBlank, hblank, hwrite]
    | reference name c hc =>
      have hwrite : write [.reference name c hc] = '&' :: name ++ [';'] := by
        simp [write, CharData.write]
      have hend : Markup.isBlank ';' = false := by decide
      rw [hwrite, ← List.append_assoc, List.rdropWhile_concat]
      simp [CharData.isBlank, hend, hwrite]

/-- Trimming a run trims what is written. -/
lemma write_trim (r : Run) : write r.trim = Markup.trim (write r) := by
  rw [trim, write_rdropWhile, write_dropWhile, Markup.trim]

/-- Trimming a run takes away nothing but blanks. -/
lemma trim_chars (r : Run) : Markup.trim (chars r.trim) = Markup.trim (chars r) := by
  obtain ⟨pre, post, hr, hpre, hpost⟩ := exists_of_trim CharData.isBlank r
  change r = pre ++ r.trim ++ post at hr
  conv_rhs => rw [hr]
  rw [chars_append, chars_append, trim_append_blank (isBlank_chars (all_isBlank_of hpost)),
    trim_blank_append (isBlank_chars (all_isBlank_of hpre))]

/-- A run is trimmed if what it stands for is. -/
lemma trim_eq_of_chars (h : Markup.trim (chars r) = chars r) : r.trim = r := by
  obtain ⟨pre, post, hr, -, -⟩ := exists_of_trim CharData.isBlank r
  change r = pre ++ r.trim ++ post at hr
  have hle : ∀ cs : List Char, (Markup.trim cs).length ≤ cs.length := by
    intro cs
    obtain ⟨pre, post, hcs, -, -⟩ := exists_of_trim Markup.isBlank cs
    have hlen := congrArg List.length hcs
    simp only [List.length_append] at hlen
    rw [Markup.trim]
    omega
  have hlen := hle (chars r.trim)
  have hwhole := congrArg List.length hr
  rw [trim_chars, h] at hlen
  simp only [chars, List.length_map, List.length_append] at hlen hwhole
  have hpre : pre = [] := List.length_eq_zero_iff.mp (by omega)
  have hpost : post = [] := List.length_eq_zero_iff.mp (by omega)
  rw [hpre, hpost, List.nil_append, List.append_nil] at hr
  exact hr.symm

end Run

/-! ### Reading runs -/

/-- What reading a run is taken to be: characters stand for themselves and references for what they
refer to, and a reference that does not end is an error. -/
structure Unescapes (unescape : String → Except String String) : Prop where
  run : ∀ r : Run, unescape (String.ofList r.write) = .ok (String.ofList r.chars)
  cut : ∀ (r : Run) (name : List Char), ';' ∉ name →
    ∃ e, unescape (String.ofList (r.write ++ '&' :: name)) = .error e

/-- Reads a run, after the beginning of a reference if there is one. -/
def unescapeFrom : Option (List Char) → List Char → Option (List Char)
  | none, []           => some []
  | some _, []         => none
  | none, c :: cs      =>
    if c = '&' then unescapeFrom (some []) cs else (unescapeFrom none cs).map (c :: ·)
  | some name, c :: cs =>
    if c = ';' then (refChar name).bind fun x => (unescapeFrom none cs).map (x :: ·)
    else unescapeFrom (some (name ++ [c])) cs

def unescape (s : String) : Except String String :=
  match unescapeFrom none s.toList with
  | some cs => .ok (String.ofList cs)
  | none    => .error "no such reference"

lemma unescapeFrom_name {name : List Char} (h : ';' ∉ name) (start rest : List Char) :
    unescapeFrom (some start) (name ++ rest) = unescapeFrom (some (start ++ name)) rest := by
  induction name generalizing start with
  | nil => simp
  | cons c name ih =>
    simp only [List.mem_cons, not_or] at h
    rw [List.cons_append, unescapeFrom, if_neg (Ne.symm h.1), ih h.2, List.append_assoc]
    rfl

lemma unescapeFrom_run (r : Run) (rest : List Char) :
    unescapeFrom none (r.write ++ rest) = (unescapeFrom none rest).map (r.chars ++ ·) := by
  induction r with
  | nil => simp [Run.write, Run.chars]
  | cons x r ih =>
    rw [Run.write_cons, Run.chars_cons, List.append_assoc]
    cases x with
    | literal c hc =>
      rw [CharData.write, List.singleton_append, unescapeFrom, if_neg hc.2, ih, Option.map_map]
      rfl
    | reference name c hc =>
      have hname := not_mem_of_refChar hc (by decide : Codec.hexValue ';' = none) (by decide)
      simp only [CharData.write, List.cons_append, List.append_assoc, List.nil_append]
      rw [unescapeFrom, if_pos rfl, unescapeFrom_name hname, List.nil_append, unescapeFrom,
        if_pos rfl, hc, Option.bind_some, ih, Option.map_map]
      rfl

lemma unescapeFrom_write (r : Run) : unescapeFrom none r.write = some r.chars := by
  have hrun := unescapeFrom_run r []
  rw [List.append_nil] at hrun
  simp [hrun, unescapeFrom]

lemma unescapes_unescape : Unescapes unescape where
  run r := by simp [unescape, unescapeFrom_write]
  cut r name hname := by
    have hname' := unescapeFrom_name hname [] []
    rw [List.append_nil] at hname'
    refine ⟨"no such reference", ?_⟩
    simp [unescape, unescapeFrom_run, unescapeFrom, hname']

/-! ### Tokens -/

/-- What stands beside character data. -/
inductive Aside where
  | cdata (s : List Char)
  | comment (s : List Char)
  | instruction (s : List Char)

namespace Aside

def write : Aside → List Char
  | cdata s       => "<![CDATA[".toList ++ s ++ "]]>".toList
  | comment s     => "<!--".toList ++ s ++ "-->".toList
  | instruction s => "<?".toList ++ s ++ "?>".toList

/-- The characters that it adds to a content. -/
def chars : Aside → List Char
  | cdata s => s
  | _       => []

end Aside

inductive Token where
  | start (name : String)
  | empty (name : String)
  | stop (name : String)
  | run (r : Run)
  | aside (a : Aside)

namespace Token

def write : Token → List Char
  | start name => '<' :: name.toList ++ ['>']
  | empty name => '<' :: name.toList ++ ['/', '>']
  | stop name  => '<' :: '/' :: name.toList ++ ['>']
  | run r      => r.write
  | aside a    => a.write

/-- The characters that it adds to a content. -/
def chars : Token → List Char
  | run r   => r.chars
  | aside a => a.chars
  | _       => []

/-- Nothing that counts: blanks, a comment, an instruction. -/
def IsMisc : Token → Prop
  | run r                  => r.isBlank = true
  | aside (.comment _)     => True
  | aside (.instruction _) => True
  | _                      => False

end Token

/-- The text of a sequence of tokens. -/
def writeTokens (ts : List Token) : List Char := ts.flatMap Token.write

/-- The characters in a sequence of tokens. -/
def charsOf (ts : List Token) : List Char := ts.flatMap Token.chars

/-- The first run that is not blank. -/
def firstRun : List Token → Option Run
  | []           => none
  | .run r :: ts => if r.isBlank then firstRun ts else some r
  | _ :: ts      => firstRun ts

lemma isBlank_of_firstRun {ts : List Token} {r : Run} (h : firstRun ts = some r) :
    r.isBlank = false := by
  induction ts with
  | nil => cases h
  | cons t ts ih =>
    cases t with
    | run s =>
      rw [firstRun] at h
      split_ifs at h with hblank
      · exact ih h
      · cases h
        simpa using hblank
    | start name => exact ih h
    | empty name => exact ih h
    | stop name => exact ih h
    | aside a => exact ih h

/-! ### Texts that are cut off -/

/-- A text ends within a token, after all of some tokens. -/
structure Cut (ts : List Token) (p : List Char) (done : List Token) (t : Token) (u : List Char) :
    Prop where
  tokens : ∃ rest, ts = done ++ t :: rest
  text : p = writeTokens done ++ u
  part : u <+: t.write
  proper : u ≠ t.write

lemma Cut.length_lt {ts : List Token} {p u : List Char} {done : List Token} {t : Token}
    (h : Cut ts p done t u) : p.length < (writeTokens (done ++ [t])).length := by
  have hlt : u.length < t.write.length :=
    lt_of_le_of_ne h.part.length_le fun heq => h.proper (h.part.eq_of_length heq)
  rw [h.text, writeTokens, writeTokens, List.flatMap_append, List.length_append,
    List.length_append]
  simpa using hlt

/-- A text ends in one place. -/
lemma Cut.unique {ts : List Token} {p u u' : List Char} {done done' : List Token} {t t' : Token}
    (h : Cut ts p done t u) (h' : Cut ts p done' t' u') : done = done' ∧ t = t' ∧ u = u' := by
  have hnot : ∀ {done done' t t' u u'}, Cut ts p done t u → Cut ts p done' t' u' →
      ¬ done ++ [t] <+: done' := by
    rintro done done' t t' u u' h h' ⟨more, rfl⟩
    have hlt := h.length_lt
    rw [h'.text, writeTokens, List.flatMap_append, ← writeTokens] at hlt
    simp only [List.length_append] at hlt
    omega
  obtain ⟨rest, hts⟩ := h.tokens
  obtain ⟨rest', hts'⟩ := h'.tokens
  have hbegins : ∀ {done done' : List Token} {t : Token} {rest rest' : List Token},
      done ++ t :: rest = done' ++ rest' → done.length < done'.length → done ++ [t] <+: done' := by
    intro done done' t rest rest' heq hlt
    refine List.prefix_of_prefix_length_le ⟨rest, by simpa using heq⟩ ⟨rest', rfl⟩ ?_
    rw [List.length_append, List.length_singleton]
    exact hlt
  have heq := hts.symm.trans hts'
  have hlen : done.length = done'.length := by
    rcases lt_trichotomy done.length done'.length with hlt | hlen | hlt
    · exact absurd (hbegins heq hlt) (hnot h h')
    · exact hlen
    · exact absurd (hbegins heq.symm hlt) (hnot h' h)
  obtain ⟨rfl, hcons⟩ := List.append_inj heq hlen
  refine ⟨rfl, (List.cons.inj hcons).1, ?_⟩
  exact List.append_cancel_left (h.text.symm.trans h'.text)

/-- A run that is cut off ends in a reference. -/
def EndsInReference (u : List Char) : Prop :=
  ∃ (r : Run) (name : List Char), u = r.write ++ '&' :: name ∧ ';' ∉ name

/-- Trimming does not complete a reference. -/
lemma EndsInReference.trim {u : List Char} (h : EndsInReference u) :
    EndsInReference (Markup.trim u) := by
  obtain ⟨r, name, rfl, hname⟩ := h
  have hamp : isBlank '&' = false := by decide
  have hleft : (r.write ++ '&' :: name).dropWhile isBlank =
      Run.write (r.dropWhile CharData.isBlank) ++ '&' :: name := by
    rw [List.dropWhile_append, Run.write_dropWhile]
    split_ifs with hempty
    · rw [List.isEmpty_iff.mp hempty]
      simp [hamp]
    · rfl
  have hright : ∀ (cs name : List Char), ∃ name', (∀ c ∈ name', c ∈ name) ∧
      (cs ++ '&' :: name).rdropWhile isBlank = cs ++ '&' :: name' := by
    intro cs name
    induction name using List.reverseRecOn with
    | nil => exact ⟨[], by simp, by rw [List.rdropWhile_concat]; simp [hamp]⟩
    | append_singleton name c ih =>
      rw [← List.cons_append, ← List.append_assoc, List.rdropWhile_concat]
      split_ifs with hc
      · obtain ⟨name', hsub, hdrop⟩ := ih
        exact ⟨name', fun c hc => by simp [hsub c hc], hdrop⟩
      · exact ⟨name ++ [c], by simp, by simp⟩
  obtain ⟨name', hsub, hdrop⟩ := hright (Run.write (r.dropWhile CharData.isBlank)) name
  refine ⟨r.dropWhile CharData.isBlank, name', ?_, fun hmem => hname (hsub _ hmem)⟩
  rw [Markup.trim, hleft, hdrop]

end Markup
