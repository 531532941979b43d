import BlobStore.Api.Task
import BlobStore.Storage.Concurrent.Traced

/-!
# Requests side by side

The tasks of requests are interleaved in any way, and may be cut off at any point. The state they
share is then one that interleaved calls lead to, and a response is made of the answer of a call
(`httpRace_backed`); so every invariant of calls is one of requests (`Served.arisen`).
-/

namespace BlobStore

open Resumption Proc

/-- A request that has arrived, with the moment it is served. -/
structure Arrival where
  moment : Moment
  req : HttpRequest

variable {ι : Type} [DecidableEq ι]

/-- The run of a schedule of requests. -/
def httpRace (app : AppState) (arrivals : ι → Arrival) (w : World) (schedule : List ι) :
    Conf ι Action Action.Response AzureError (Option Response) World :=
  Conf.run Action.exec (fun i => Task.serveHttp app (arrivals i).moment (arrivals i).req) w schedule

variable {app : AppState} {arrivals : ι → Arrival} {w : World}

omit [DecidableEq ι] in
/-- The statements that only look leave the state as it is. -/
lemma Action.IsRead.exec {e : Action} (h : e.IsRead) (w : World) : (e.exec w).2 = w := by
  cases e <;> first | rfl | cases h

/-- A request looks, and then makes its call. -/
lemma shadowed_httpRace (app : AppState) (arrivals : ι → Arrival) (w : World)
    (schedule : List ι) : ∃ turns schedule', Shadowed Action.exec Action.IsRead
      (fun i => Task.Makes app (arrivals i).moment (arrivals i).req)
      (fun t : Task.Turn => app.backend.call t.req.amb t.req.call)
      (fun t answer => .ok (t.respond answer)) w (httpRace app arrivals w schedule) turns
      schedule' := by
  have hopens : ∀ i, Task.OpensTo app (arrivals i).moment (arrivals i).req
      (Task.serveHttp app (arrivals i).moment (arrivals i).req) := fun i =>
    Task.opens_serveHttp app (arrivals i).moment (arrivals i).req
  exact Conf.run_opens Action.exec (fun e w he => Action.IsRead.exec he w) hopens w schedule

/-- The states that serving requests can lead to: batch after batch, interleaved in any way, and each
batch complete or cut off. -/
inductive Served (app : AppState) : World → Prop where
  | fresh {w : World} (h : Fresh app.backend w) : Served app w
  | race {w : World} (h : Served app w) {ι : Type} [DecidableEq ι] (arrivals : ι → Arrival)
      (schedule : List ι) : Served app (httpRace app arrivals w schedule).state

omit [DecidableEq ι] in
/-- Serving requests leads to nothing that calls do not lead to. -/
theorem Served.arisen (h : Served app w) : Arisen app.backend w := by
  induction h with
  | fresh h => exact .fresh h
  | race h arrivals schedule ih =>
    obtain ⟨turns, schedule', hshadow⟩ := shadowed_httpRace app arrivals _ schedule
    rw [hshadow.state]
    exact .race ih (fun i => (turns i).req) schedule'

end BlobStore
