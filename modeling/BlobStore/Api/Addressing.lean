import BlobStore.Api.Resource

/-!
# Three ways to name the account

A request names its account in the first segment of its path, in the first label of its host, or
not at all if the server has a default. The last two are rewritten to the first. What is signed
stays the path that the client sent.
-/

namespace BlobStore

variable {app : AppState} {db : MetadataDb} {req : HttpRequest} {account path : String}

/-! ### The first segment of a path -/

lemma nonEmpty_of_ne {s : String} (h : s ≠ "") : nonEmpty s = some s := if_neg h

section Host

variable {host : String}

lemma withoutPort_of_not_mem (h : ':' ∉ host.toList) : withoutPort host = host := by
  have hall : ∀ c ∈ host.toList.reverse, decide (c ≠ ':') = true := by
    intro c hc
    rw [decide_eq_true_iff]
    rintro rfl
    exact h (List.mem_reverse.mp hc)
  unfold withoutPort
  rw [Text.chars_eq, List.span_eq_takeWhile_dropWhile, List.dropWhile_eq_nil_iff.mpr hall]

/-- Whatever is before the last colon, if only digits follow. -/
lemma withoutPort_append {port : String} (hport : ∀ c ∈ port.toList, '0' ≤ c ∧ c ≤ '9') :
    withoutPort (host ++ ":" ++ port) = host := by
  have hall : ∀ c ∈ port.toList.reverse, decide (c ≠ ':') = true := by
    intro c hc
    rw [decide_eq_true_iff]
    rintro rfl
    exact absurd (hport ':' (List.mem_reverse.mp hc)) (by decide)
  have hrev : (Text.chars (host ++ ":" ++ port)).reverse =
      port.toList.reverse ++ ':' :: host.toList.reverse := by
    simp
  have hdigits : port.toList.reverse.all (fun c => decide ('0' ≤ c ∧ c ≤ '9')) = true := by
    rw [List.all_reverse, List.all_eq_true]
    intro c hc
    exact decide_eq_true (hport c hc)
  have hspan : (port.toList.reverse ++ ':' :: host.toList.reverse).span (· ≠ ':') =
      (port.toList.reverse, ':' :: host.toList.reverse) := by
    rw [List.span_eq_takeWhile_dropWhile, List.takeWhile_append_of_pos hall,
      List.dropWhile_append_of_pos hall]
    simp
  unfold withoutPort
  rw [hrev, hspan]
  dsimp only
  rw [if_pos hdigits]
  simp

/-- The hosts under an account: its label, the rest, and perhaps a port. -/
inductive HostOf (account : String) : String → Prop where
  | plain {rest : String} (hrest : ':' ∉ rest.toList)
      (hip : IpAddr.isIpAddr (account ++ "." ++ rest) = false) :
      HostOf account (account ++ "." ++ rest)
  | port {rest port : String} (hrest : ':' ∉ rest.toList)
      (hport : ∀ c ∈ port.toList, '0' ≤ c ∧ c ≤ '9')
      (hip : IpAddr.isIpAddr (account ++ "." ++ rest) = false) :
      HostOf account (account ++ "." ++ rest ++ ":" ++ port)

lemma hostLabel_of_withoutPort {rest : String} (hne : account ≠ "") (hdot : '.' ∉ account.toList)
    (hbracket : '[' ∉ account.toList) (hip : IpAddr.isIpAddr (account ++ "." ++ rest) = false)
    (hhost : withoutPort host = account ++ "." ++ rest) : hostLabel host = some account := by
  have hhead : (Text.chars (account ++ "." ++ rest)).head? ≠ some '[' := by
    cases hcs : account.toList with
    | nil => exact absurd (String.toList_eq_nil_iff.mp hcs) hne
    | cons c cs =>
      rw [hcs] at hbracket
      simp only [Text.chars_eq, String.toList_append, hcs, List.cons_append, List.head?_cons, ne_eq,
        Option.some.injEq]
      rintro rfl
      exact hbracket List.mem_cons_self
  have hcut : Text.cut '.' (account ++ "." ++ rest) = (account, some rest) :=
    Text.cut_append hdot
  have haddress : ¬(IpAddr.isIpAddr (account ++ "." ++ rest) = true ∨
      (Text.chars (account ++ "." ++ rest)).head? = some '[') := by
    rw [not_or, hip]
    exact ⟨Bool.false_ne_true, hhead⟩
  unfold hostLabel
  simp only [hhost, hcut]
  rw [if_neg haddress, nonEmpty_of_ne hne]

lemma HostOf.hostLabel (h : HostOf account host) (hne : account ≠ "")
    (hdot : '.' ∉ account.toList) (hcolon : ':' ∉ account.toList)
    (hbracket : '[' ∉ account.toList) : hostLabel host = some account := by
  cases h with
  | plain hrest hip =>
    refine hostLabel_of_withoutPort hne hdot hbracket hip (withoutPort_of_not_mem ?_)
    simp [hcolon, hrest]
  | port hrest hport hip =>
    exact hostLabel_of_withoutPort hne hdot hbracket hip (withoutPort_append hport)

end Host

/-! ### The middleware -/

/-- The host a request was sent to. -/
def HttpRequest.host (req : HttpRequest) : Option String :=
  (headerOpt req.headers "host").or req.uriHost

end BlobStore
