import BlobStore.Api.Dispatch
import BlobStore.Api.SasBinding

/-!
# The resource that is authorized

The middleware splits the raw path, after leading slashes are taken off. The router matches the raw
path against the routes and decodes what it captured. Both see the same resource exactly if there
is nothing to take off and nothing to decode.
-/

namespace BlobStore

/-- The account, the container and the blob of a route. -/
def Route.resource : Route → Option String × Option String × Option String
  | .account a     => (some a, none, none)
  | .container a c => (some a, some c, none)
  | .blob a c b    => (some a, some c, some b)

/-- What a route captured stands for itself: no escapes, and no empty account or container. -/
def Route.Literal : Route → Prop
  | .account a     => Percent.hasEscape (Text.bytes a) = false
  | .container a c => a ≠ "" ∧ Percent.hasEscape (Text.bytes a) = false ∧
      Percent.hasEscape (Text.bytes c) = false
  | .blob a c b    => (a ≠ "" ∧ c ≠ "") ∧ Percent.hasEscape (Text.bytes a) = false ∧
      Percent.hasEscape (Text.bytes c) = false ∧ Percent.hasEscape (Text.bytes b) = false

variable {path : String}

/-! ### Two ways to take a path apart -/

/-- The segments of a path, as the router captures them. -/
inductive Captures (path : String) : Route → Prop where
  | account {cs : List Char} {a : String} (hpath : Text.chars path = '/' :: cs)
      (hcut : Text.cut '/' (String.ofList cs) = (a, none)) (ha : a ≠ "") :
      Captures path (.account a)
  | container {cs : List Char} {a rest c : String} (hpath : Text.chars path = '/' :: cs)
      (hcut : Text.cut '/' (String.ofList cs) = (a, some rest))
      (hrest : Text.cut '/' rest = (c, none)) (hc : c ≠ "") : Captures path (.container a c)
  | blob {cs : List Char} {a rest c b : String} (hpath : Text.chars path = '/' :: cs)
      (hcut : Text.cut '/' (String.ofList cs) = (a, some rest))
      (hrest : Text.cut '/' rest = (c, some b)) (hb : b ≠ "") : Captures path (.blob a c b)

lemma captures_of_matchRoute {r : Route} (h : matchRoute path = some r) : Captures path r := by
  unfold matchRoute at h
  split at h
  · next cs hpath =>
    split at h
    · next a hcut =>
      split_ifs at h with ha
      cases h
      exact .account hpath hcut ha
    · next a rest hcut =>
      split at h
      · next c hrest =>
        split_ifs at h with hc
        cases h
        exact .container hpath hcut hrest hc
      · next c b hrest =>
        split_ifs at h with hb
        cases h
        exact .blob hpath hcut hrest hb
  · cases h

/-- If the first segment is not empty, there is one leading slash. -/
lemma dropWhile_of_cut {cs : List Char} {a : String} {rest : Option String}
    (hcut : Text.cut '/' (String.ofList cs) = (a, rest)) (ha : a ≠ "") :
    ('/' :: cs).dropWhile (· = '/') = cs := by
  cases cs with
  | nil => rfl
  | cons x cs =>
    have hx : x ≠ '/' := by
      rintro rfl
      have hfirst : (Text.cut '/' (String.ofList ('/' :: cs))).1 = "" := by simp [Text.cut]
      rw [hcut] at hfirst
      exact ha hfirst
    simp [hx]

lemma splitPath_of_cut {cs : List Char} {a : String} {rest : Option String}
    (hpath : Text.chars path = '/' :: cs)
    (hcut : Text.cut '/' (String.ofList cs) = (a, rest)) (ha : a ≠ "") :
    splitPath path = match rest with
      | none      => (some a, none, none)
      | some rest =>
        (some a, nonEmpty (Text.cut '/' rest).1, (Text.cut '/' rest).2.bind nonEmpty) := by
  have hne : String.ofList cs ≠ "" := by
    intro hempty
    rw [hempty] at hcut
    exact ha (congrArg Prod.fst hcut).symm
  unfold splitPath
  simp only [hpath, dropWhile_of_cut hcut ha, if_neg hne, hcut]
  cases rest <;> rfl

/-- The account of a request is never empty. -/
lemma splitPath_ne_empty (path : String) : (splitPath path).1 ≠ some "" := by
  unfold splitPath
  dsimp only
  split_ifs with hempty
  · simp
  · have hfirst : (Text.cut '/' (String.ofList
        ((Text.chars path).dropWhile (· = '/')))).1 ≠ "" := by
      cases hdrop : (Text.chars path).dropWhile (· = '/') with
      | nil =>
        rw [hdrop] at hempty
        exact absurd rfl hempty
      | cons x cs =>
        have hhead := List.head_dropWhile_not (fun c => decide (c = '/'))
          (l := Text.chars path) (by rw [hdrop]; exact List.cons_ne_nil x cs)
        simp only [hdrop, List.head_cons] at hhead
        have hx : x ≠ '/' := by simpa using hhead
        intro h
        simpa [Text.cut, hx] using congrArg String.toList h
    split
    · next a hcut =>
      intro h
      rw [hcut] at hfirst
      exact hfirst (Option.some.inj h)
    · next a rest hcut =>
      intro h
      rw [hcut] at hfirst
      exact hfirst (Option.some.inj h)

/-! ### When they agree -/

/-- A segment that stands for what it was decoded to. -/
lemma eq_decoded_iff {s t : String} (h : Percent.decode s = some t) :
    s = t ↔ Percent.hasEscape (Text.bytes s) = false := by
  rw [← Percent.decode_eq_self_iff, h, Option.some.injEq]
  exact eq_comm

lemma decode_empty {t : String} (h : Percent.decode "" = some t) : t = "" :=
  ((eq_decoded_iff h).mpr rfl).symm

/-- The resource that is authorized is the one that is acted on exactly if the segments of the path
stand for themselves. -/
theorem authorized_resource_iff {r r' : Route} (hroute : matchRoute path = some r)
    (hdecode : r.decode = .ok r') : splitPath path = r'.resource ↔ r.Literal := by
  have hempty := splitPath_ne_empty path
  cases captures_of_matchRoute hroute with
  | @account cs a hpath hcut ha =>
    obtain ⟨a', ha', rfl⟩ := decode_account.mp hdecode
    rw [splitPath_of_cut hpath hcut ha, Route.Literal, ← eq_decoded_iff ha']
    simp [Route.resource]
  | @container cs a rest c hpath hcut hrest hc =>
    obtain ⟨a', c', ha', hc', rfl⟩ := decode_container.mp hdecode
    by_cases ha : a = ""
    · subst ha
      refine iff_of_false (fun h => hempty ?_) fun h => h.1 rfl
      rw [h, decode_empty ha']
      rfl
    · rw [splitPath_of_cut hpath hcut ha, Route.Literal, ← eq_decoded_iff ha', ← eq_decoded_iff hc']
      simp [Route.resource, hrest, nonEmpty, ha, hc]
  | @blob cs a rest c b hpath hcut hrest hb =>
    obtain ⟨a', c', b', ha', hc', hb', rfl⟩ := decode_blob.mp hdecode
    by_cases ha : a = ""
    · subst ha
      refine iff_of_false (fun h => hempty ?_) fun h => h.1.1 rfl
      rw [h, decode_empty ha']
      rfl
    · rw [splitPath_of_cut hpath hcut ha, Route.Literal, ← eq_decoded_iff ha',
        ← eq_decoded_iff hc', ← eq_decoded_iff hb']
      by_cases hc : c = ""
      · simp [Route.resource, hrest, nonEmpty, hc]
      · simp [Route.resource, hrest, nonEmpty, ha, hc, hb]

/-- A path with nothing to decode. -/
theorem authorized_resource_literal :
    splitPath "/acc/c/dir/b" = (some "acc", some "c", some "dir/b") := by
  have hroute : matchRoute "/acc/c/dir/b" = some (.blob "acc" "c" "dir/b") := by decide +kernel
  have hdecode : (Route.blob "acc" "c" "dir/b").decode = .ok (.blob "acc" "c" "dir/b") := by
    decide +kernel
  exact (authorized_resource_iff hroute hdecode).mpr
    ⟨⟨by decide, by decide⟩, by decide +kernel, by decide +kernel, by decide +kernel⟩

/-- The container that is authorized is called `%63`, and the call is for the container `c`. -/
theorem authorized_resource_escaped :
    matchRoute "/acc/%63/b" = some (.blob "acc" "%63" "b") ∧
      (Route.blob "acc" "%63" "b").decode = .ok (.blob "acc" "c" "b") ∧
      splitPath "/acc/%63/b" = (some "acc", some "%63", some "b") ∧
      splitPath "/acc/%63/b" ≠ (Route.blob "acc" "c" "b").resource := by
  decide +kernel

end BlobStore
