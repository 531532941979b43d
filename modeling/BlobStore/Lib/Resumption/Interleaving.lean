import BlobStore.Lib.Resumption.Guarantee
import Mathlib.Data.List.Induction

/-!
# Interleavings

Processes under names `i : ι` share one state. A schedule is the list of the names whose turn it
is; at its turn a process issues one request, atomically, and a process that is at its end does
nothing. Every interleaving is the run of some schedule, and the trace of a run records who did
what and what the answer was.

What a trace carries is `Recorded`: the shared state is the one its events lead to, and every
response in it is the one the shared state gave. An invariant of the shared state, the trace and the
ghost phases of all processes is proved event by event (`Conf.run_upheld`).
-/

namespace Resumption

variable {ι E : Type} {R : E → Type} {ε α σ : Type}

/-- What happened, in order, and by whom. -/
abbrev Trace (ι E : Type) (R : E → Type) := List (ι × Event E R)

namespace Trace

variable [DecidableEq ι] {tr tr' : Trace ι E R} {i j : ι} {ev : Event E R}

/-- The events of one process. -/
def history (i : ι) (tr : Trace ι E R) : List (Event E R) :=
  (tr.filter fun x => x.1 = i).map Prod.snd

@[simp] lemma history_nil : (history i ([] : Trace ι E R)) = [] := rfl

@[simp] lemma history_append : history i (tr ++ tr') = history i tr ++ history i tr' := by
  simp [history]

lemma history_snoc_self : history i (tr ++ [(i, ev)]) = history i tr ++ [ev] := by
  simp [history]

lemma history_snoc_ne (hij : j ≠ i) : history i (tr ++ [(j, ev)]) = history i tr := by
  simp [history, hij]

@[simp] lemma history_cons_self : history i ((i, ev) :: tr) = ev :: history i tr := by
  simp [history]

lemma history_cons_ne (hij : j ≠ i) : history i ((j, ev) :: tr) = history i tr := by
  simp [history, hij]

/-- What happened before the first request of a process that satisfies `p`. -/
def before (i : ι) (p : E → Bool) (tr : Trace ι E R) : Trace ι E R :=
  tr.takeWhile fun x => !(decide (x.1 = i) && p x.2.1)

/-- An event of a process in a trace, with the events of the process before and after it. -/
lemma exists_of_history_eq_append {h h₂ : List (Event E R)}
    (htr : history i tr = h ++ ev :: h₂) :
    ∃ tr₁ tr₂, tr = tr₁ ++ (i, ev) :: tr₂ ∧ history i tr₁ = h ∧ history i tr₂ = h₂ := by
  induction tr generalizing h with
  | nil => simp at htr
  | cons x tr ih =>
    obtain ⟨j, ev'⟩ := x
    by_cases hj : j = i
    · subst hj
      rw [history_cons_self] at htr
      cases h with
      | nil =>
        obtain ⟨rfl, hrest⟩ := List.cons.inj htr
        exact ⟨[], tr, rfl, rfl, hrest⟩
      | cons ev₁ h =>
        obtain ⟨rfl, htail⟩ := List.cons.inj htr
        obtain ⟨tr₁, tr₂, rfl, hpre, hrest⟩ := ih htail
        exact ⟨(j, ev') :: tr₁, tr₂, rfl, by rw [history_cons_self, hpre], hrest⟩
    · rw [history_cons_ne hj] at htr
      obtain ⟨tr₁, tr₂, rfl, hpre, hrest⟩ := ih htr
      exact ⟨(j, ev') :: tr₁, tr₂, rfl, by rw [history_cons_ne hj, hpre], hrest⟩

/-- The first event of a process in a trace. -/
lemma exists_of_history_eq_cons {h : List (Event E R)} (htr : history i tr = ev :: h) :
    ∃ tr₁ tr₂, tr = tr₁ ++ (i, ev) :: tr₂ ∧ history i tr₁ = [] ∧ history i tr₂ = h :=
  exists_of_history_eq_append (h := []) htr

lemma exists_getElem_of_mem_history (hev : ev ∈ history i tr) :
    ∃ n : ℕ, tr[n]? = some (i, ev) := by
  obtain ⟨⟨j, ev'⟩, hx, rfl⟩ := List.mem_map.mp hev
  obtain ⟨hx, hj⟩ := List.mem_filter.mp hx
  obtain ⟨n, hn⟩ := List.mem_iff_getElem?.mp hx
  have hj' : j = i := by simpa using hj
  exact ⟨n, by rw [hn, hj']⟩

lemma mem_history {x : ι × Event E R} (hx : x ∈ tr) : x.2 ∈ history x.1 tr :=
  List.mem_map.mpr ⟨x, List.mem_filter.mpr ⟨hx, by simp⟩, rfl⟩

lemma before_append_cons {p : E → Bool} (h₁ : ∀ ev' ∈ history i tr, p ev'.1 = false)
    (hev : p ev.1 = true) : before i p (tr ++ (i, ev) :: tr') = tr := by
  unfold before
  rw [List.takeWhile_append_of_pos, List.takeWhile_cons_of_neg, List.append_nil]
  · simp [hev]
  · intro x hx
    by_cases hj : x.1 = i
    · have := h₁ x.2 (by
        simp only [history, List.mem_map, List.mem_filter]
        exact ⟨x, ⟨hx, by simp [hj]⟩, rfl⟩)
      simp [this]
    · simp [hj]

end Trace

variable (exec : ∀ e : E, σ → R e × σ)

/-- The shared state after the events of a trace. -/
def after (s : σ) (tr : Trace ι E R) : σ := tr.foldl (fun s x => (exec x.2.1 s).2) s

@[simp] lemma after_nil (s : σ) : after exec s ([] : Trace ι E R) = s := rfl

@[simp] lemma after_append (s : σ) (tr tr' : Trace ι E R) :
    after exec s (tr ++ tr') = after exec (after exec s tr) tr' := List.foldl_append

@[simp] lemma after_singleton (s : σ) (x : ι × Event E R) :
    after exec s [x] = (exec x.2.1 s).2 := rfl

@[simp] lemma after_cons (s : σ) (x : ι × Event E R) (tr : Trace ι E R) :
    after exec s (x :: tr) = after exec (exec x.2.1 s).2 tr := rfl

/-- Processes in progress, the state they share and what they did so far. -/
structure Conf (ι E : Type) (R : E → Type) (ε α σ : Type) where
  pool : ι → Proc E R ε α
  state : σ
  trace : Trace ι E R

namespace Conf

variable [DecidableEq ι]

/-- The turn of process `i`. -/
def turn (c : Conf ι E R ε α σ) (i : ι) : Conf ι E R ε α σ :=
  match c.pool i with
  | .ret _   => c
  | .act e k =>
    { pool  := Function.update c.pool i (k (exec e c.state).1)
      state := (exec e c.state).2
      trace := c.trace ++ [(i, ⟨e, (exec e c.state).1⟩)] }

/-- All processes before their first event. -/
def start (pool : ι → Proc E R ε α) (s : σ) : Conf ι E R ε α σ := ⟨pool, s, []⟩

/-- The run of a schedule. -/
def run (pool : ι → Proc E R ε α) (s : σ) (schedule : List ι) : Conf ι E R ε α σ :=
  schedule.foldl (turn exec) (start pool s)

/-- Process `i` has come to the outcome `r`. -/
def Returned (c : Conf ι E R ε α σ) (i : ι) (r : Except ε α) : Prop :=
  (c.pool i).outcome? = some r

instance [DecidableEq ε] [DecidableEq α] (c : Conf ι E R ε α σ) (i : ι) (r : Except ε α) :
    Decidable (c.Returned i r) := inferInstanceAs (Decidable (_ = some r))

/-- Process `i` has come to an outcome that is no error. -/
def Succeeded (c : Conf ι E R ε α σ) (i : ι) : Prop := ∃ a, c.Returned i (.ok a)

instance (c : Conf ι E R ε α σ) (i : ι) : Decidable (c.Succeeded i) :=
  match h : (c.pool i).outcome? with
  | some (.ok a)    => isTrue ⟨a, h⟩
  | some (.error _) => isFalse fun ⟨_, ha⟩ => nomatch h.symm.trans ha
  | none            => isFalse fun ⟨_, ha⟩ => nomatch h.symm.trans ha

lemma run_snoc (pool : ι → Proc E R ε α) (s : σ) (schedule : List ι) (i : ι) :
    run exec pool s (schedule ++ [i]) = turn exec (run exec pool s schedule) i := by
  simp [run]

end Conf

open Proc

/-! ### What a trace records -/

/-- The state and the responses are those of the trace. -/
structure Recorded (s : σ) (c : Conf ι E R ε α σ) : Prop where
  state : c.state = after exec s c.trace
  answer : ∀ tr x rest, c.trace = tr ++ x :: rest → x.2.2 = (exec x.2.1 (after exec s tr)).1

/-- The response at one place of a trace. -/
lemma Recorded.answer_getElem {s : σ} {c : Conf ι E R ε α σ} (hc : Recorded exec s c) {n : ℕ}
    {x : ι × Event E R} (hx : c.trace[n]? = some x) :
    x.2.2 = (exec x.2.1 (after exec s (c.trace.take n))).1 := by
  refine hc.answer (c.trace.take n) x (c.trace.drop (n + 1)) ?_
  obtain ⟨hn, hx⟩ := List.getElem?_eq_some_iff.mp hx
  rw [← hx, ← List.drop_eq_getElem_cons hn, List.take_append_drop]

/-- In a trace with a new last event, an event is an old one or the new one. -/
lemma snoc_eq_append_cons {x y : α} {l a b : List α} (h : l ++ [x] = a ++ y :: b) :
    (∃ b', b = b' ++ [x] ∧ l = a ++ y :: b') ∨ (y = x ∧ a = l ∧ b = []) := by
  rcases List.eq_nil_or_concat b with rfl | ⟨b', z, rfl⟩
  · right
    have h' := List.append_inj' h rfl
    simp only [List.cons.injEq, and_true] at h'
    exact ⟨h'.2.symm, h'.1.symm, rfl⟩
  · left
    rw [List.concat_eq_append] at h ⊢
    rw [show a ++ y :: (b' ++ [z]) = (a ++ y :: b') ++ [z] by simp] at h
    obtain ⟨h1, h2⟩ := List.append_inj' h rfl
    simp only [List.cons.injEq, and_true] at h2
    subst h2
    exact ⟨b', rfl, h1⟩

variable [DecidableEq ι] {s : σ} {c : Conf ι E R ε α σ}

/-- A turn does nothing, or adds one event. -/
lemma Conf.turn_cases (c : Conf ι E R ε α σ) (i : ι) :
    c.turn exec i = c ∨ ∃ e k, c.pool i = .act e k ∧ c.turn exec i =
      { pool  := Function.update c.pool i (k (exec e c.state).1)
        state := (exec e c.state).2
        trace := c.trace ++ [(i, ⟨e, (exec e c.state).1⟩)] } := by
  unfold Conf.turn
  split
  · exact .inl rfl
  · next e k hi => exact .inr ⟨e, k, hi, rfl⟩

lemma Recorded.turn (hc : Recorded exec s c) (i : ι) : Recorded exec s (c.turn exec i) := by
  rcases c.turn_cases exec i with h | ⟨e, k, -, h⟩
  · rwa [h]
  · rw [h]
    refine ⟨?_, ?_⟩
    · rw [after_append, ← hc.state]
      rfl
    · intro tr x rest htr
      rcases snoc_eq_append_cons htr with ⟨rest', -, h'⟩ | ⟨rfl, rfl, -⟩
      · exact hc.answer tr x rest' h'
      · rw [← hc.state]

/-- An invariant of all requests is an invariant of every run. -/
theorem Conf.run_issues {P : E → Prop} {I : σ → Prop} {pool : ι → Proc E R ε α}
    (hpool : ∀ i, Issues P (pool i)) (hstep : ∀ e s, P e → I s → I (exec e s).2) (hs : I s)
    (schedule : List ι) : I (Conf.run exec pool s schedule).state := by
  have hrun : I (Conf.run exec pool s schedule).state ∧
      ∀ i, Issues P ((Conf.run exec pool s schedule).pool i) := by
    induction schedule using List.reverseRecOn with
    | nil => exact ⟨hs, hpool⟩
    | append_singleton schedule i ih =>
      rw [Conf.run_snoc]
      rcases Conf.turn_cases exec (Conf.run exec pool s schedule) i with h | ⟨e, k, hi, h⟩
      · rwa [h]
      · rw [h]
        have hproc := ih.2 i
        rw [hi] at hproc
        refine ⟨hstep e _ hproc.1 ih.1, fun j => ?_⟩
        by_cases hj : j = i
        · subst hj
          simpa using hproc.2 _
        · simpa [hj] using ih.2 j
  exact hrun.1

/-- The requests in a trace are those that its processes issue. -/
theorem Conf.run_requests {P : ι → E → Prop} {pool : ι → Proc E R ε α}
    (hpool : ∀ i, Issues (P i) (pool i)) (s : σ) (schedule : List ι) :
    ∀ x ∈ (Conf.run exec pool s schedule).trace, P x.1 x.2.1 := by
  have hrun : (∀ x ∈ (Conf.run exec pool s schedule).trace, P x.1 x.2.1) ∧
      ∀ i, Issues (P i) ((Conf.run exec pool s schedule).pool i) := by
    induction schedule using List.reverseRecOn with
    | nil => exact ⟨by simp [Conf.run, Conf.start], hpool⟩
    | append_singleton schedule i ih =>
      rw [Conf.run_snoc]
      rcases Conf.turn_cases exec (Conf.run exec pool s schedule) i with h | ⟨e, k, hi, h⟩
      · rwa [h]
      · rw [h]
        have hproc := ih.2 i
        rw [hi] at hproc
        refine ⟨fun x hx => ?_, fun j => ?_⟩
        · rcases List.mem_append.mp hx with hx | hx
          · exact ih.1 x hx
          · rw [List.mem_singleton.mp hx]
            exact hproc.1
        · by_cases hj : j = i
          · subst hj
            simpa using hproc.2 _
          · simpa [hj] using ih.2 j
  exact hrun.1

theorem Conf.run_recorded (pool : ι → Proc E R ε α) (s : σ) (schedule : List ι) :
    Recorded exec s (Conf.run exec pool s schedule) := by
  induction schedule using List.reverseRecOn with
  | nil => exact ⟨rfl, by simp [Conf.run, Conf.start]⟩
  | append_singleton schedule i ih =>
    rw [Conf.run_snoc]
    exact ih.turn exec i

/-! ### Invariants with ghost phases -/

variable {Φ : Type} {A : Event E R → Prop} {Step : ι → Φ → Event E R → Φ → Prop}
  {Q : ι → Φ → Except ε α → Prop} {I : σ → Trace ι E R → (ι → Φ) → Prop}

/-- The rule of invariants: responses are as assumed, and every step of a phase keeps `I`. -/
theorem Conf.run_upheld
    (hanswer : ∀ w tr φ e, I w tr φ → A ⟨e, (exec e w).1⟩)
    (hstep : ∀ w tr φ i e φ', I w tr φ → Step i (φ i) ⟨e, (exec e w).1⟩ φ' →
      I (exec e w).2 (tr ++ [(i, ⟨e, (exec e w).1⟩)]) (Function.update φ i φ'))
    {pool : ι → Proc E R ε α} {φ : ι → Φ} (hinit : I s [] φ)
    (hpool : ∀ i, Follows A (Step i) (Q i) (φ i) (pool i)) (schedule : List ι) :
    ∃ φ, I (Conf.run exec pool s schedule).state (Conf.run exec pool s schedule).trace φ ∧
      ∀ i, Follows A (Step i) (Q i) (φ i) ((Conf.run exec pool s schedule).pool i) := by
  induction schedule using List.reverseRecOn with
  | nil => exact ⟨φ, hinit, hpool⟩
  | append_singleton schedule i ih =>
    rw [Conf.run_snoc]
    rcases Conf.turn_cases exec (Conf.run exec pool s schedule) i with h | ⟨e, k, hi, h⟩
    · rwa [h]
    · rw [h]
      obtain ⟨φ, hI, hfollows⟩ := ih
      have hproc := hfollows i
      rw [hi] at hproc
      obtain ⟨φ', hmove, hk⟩ := hproc _ (hanswer _ _ _ e hI)
      refine ⟨_, hstep _ _ _ i e φ' hI hmove, fun j => ?_⟩
      by_cases hj : j = i
      · subst hj
        simpa using hk
      · simpa [hj] using hfollows j

/-- What holds of every event, given the answers, holds of the events in every trace. -/
theorem Conf.run_always {P : ι → Event E R → Prop} {J : σ → Prop}
    (hanswer : ∀ w e, J w → A ⟨e, (exec e w).1⟩)
    (hstep : ∀ w i e, J w → P i ⟨e, (exec e w).1⟩ → J (exec e w).2) (hs : J s)
    {pool : ι → Proc E R ε α} (hpool : ∀ i, Always A (P i) (pool i)) (schedule : List ι) :
    ∀ x ∈ (Conf.run exec pool s schedule).trace, P x.1 x.2 := by
  have hsnoc : ∀ w (tr : Trace ι E R) (i : ι) e, J w ∧ (∀ x ∈ tr, P x.1 x.2) →
      P i ⟨e, (exec e w).1⟩ →
      J (exec e w).2 ∧ ∀ x ∈ tr ++ [(i, ⟨e, (exec e w).1⟩)], P x.1 x.2 := by
    intro w tr i e hI hP
    refine ⟨hstep w i e hI.1 hP, fun x hx => ?_⟩
    rcases List.mem_append.mp hx with hx | hx
    · exact hI.2 x hx
    · rw [List.mem_singleton.mp hx]
      exact hP
  obtain ⟨-, hI, -⟩ := Conf.run_upheld exec (s := s) (φ := fun _ => ())
    (I := fun w tr _ => J w ∧ ∀ x ∈ tr, P x.1 x.2) (fun w _ _ e hI => hanswer w e hI.1)
    (fun w tr _ i e _ hI hP => hsnoc w tr i e hI hP) ⟨hs, by simp⟩ hpool schedule
  exact hI.2

/-- A process at its end has an outcome that fits its phase. -/
lemma Proc.Follows.outcome {Q : Φ → Except ε α → Prop} {Step : Φ → Event E R → Φ → Prop} {φ : Φ}
    {p : Proc E R ε α} (h : Follows A Step Q φ p) {r : Except ε α} (hr : p.outcome? = some r) :
    Q φ r := by
  cases p with
  | ret r' =>
    cases hr
    exact h
  | act e k => cases hr

/-- The history of a process as its phase: what its outcome says about its own events. -/
theorem Conf.run_history {Q : List (Event E R) → Except ε α → Prop} (pool : ι → Proc E R ε α)
    (i : ι) (hi : FollowsHistory Q [] (pool i))
    (s : σ) (schedule : List ι) {r : Except ε α}
    (hr : (Conf.run exec pool s schedule).Returned i r) :
    Q (Trace.history i (Conf.run exec pool s schedule).trace) r := by
  have hpool : ∀ j, FollowsHistory (fun h r => j = i → Q h r) [] (pool j) := by
    intro j
    by_cases hj : j = i
    · subst hj
      exact hi.mono fun _ _ h _ => h
    · exact (follows_history [] (pool j)).mono fun _ _ _ h => absurd h hj
  have hrun := Conf.run_upheld exec (s := s) (φ := fun _ => [])
    (I := fun _ tr φ => ∀ i, φ i = Trace.history i tr) (fun _ _ _ _ _ => trivial)
    (fun w tr φ i e φ' hI hφ' j => ?_) (fun _ => rfl) hpool schedule
  · obtain ⟨φ, hI, hfollows⟩ := hrun
    rw [← hI i]
    exact (hfollows i).outcome hr rfl
  · by_cases hj : j = i
    · subst hj
      rw [Function.update_self, Trace.history_snoc_self, hφ', hI]
    · rw [Function.update_of_ne hj, Trace.history_snoc_ne (Ne.symm hj), hI]

end Resumption
