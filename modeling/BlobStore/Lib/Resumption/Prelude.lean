import BlobStore.Lib.Resumption.Interleaving

/-!
# Processes that look before they start

`finish` goes on with the outcome of a process, whatever it is. A process `Opens` if all it does is
look at the state until it either ends or has become one of a family of bodies, each finished in
its own way. Interleaving processes that open leads to no state that interleaving their bodies
cannot lead to (`Conf.run_opens`).
-/

namespace Resumption

variable {E : Type} {R : E → Type} {ε ε' α β γ σ : Type}

namespace Proc

/-- Go on with the outcome of a process, errors included. -/
def finish (f : Except ε α → Proc E R ε' β) : Proc E R ε α → Proc E R ε' β
  | .ret r   => f r
  | .act e k => .act e fun r => (k r).finish f

@[simp] lemma finish_ret (f : Except ε α → Proc E R ε' β) (r : Except ε α) :
    (Proc.ret r : Proc E R ε α).finish f = f r := rfl

@[simp] lemma finish_act (f : Except ε α → Proc E R ε' β) (e : E) (k : R e → Proc E R ε α) :
    (Proc.act e k).finish f = .act e fun r => (k r).finish f := rfl

lemma bind_assoc (p : Proc E R ε γ) (f : γ → Proc E R ε α) (f' : α → Proc E R ε β) :
    p >>= f >>= f' = p >>= fun a => f a >>= f' := by
  induction p with
  | ret r => cases r <;> rfl
  | act e k ih => exact congrArg (Proc.act e) (funext ih)

lemma Issues.finish {P : E → Prop} {p : Proc E R ε α} (hp : Issues P p)
    {f : Except ε α → Proc E R ε' β} (hf : ∀ r, Issues P (f r)) : Issues P (p.finish f) := by
  induction p with
  | ret r => exact hf r
  | act e k ih => exact ⟨hp.1, fun r => ih r (hp.2 r)⟩

variable {Φ : Type} {A : Event E R → Prop} {Step : Φ → Event E R → Φ → Prop} {φ : Φ}

lemma Follows.finish {Q : Φ → Except ε α → Prop} {Q' : Φ → Except ε' β → Prop}
    {p : Proc E R ε α} (hp : Follows A Step Q φ p) {f : Except ε α → Proc E R ε' β}
    (hf : ∀ φ r, Q φ r → Follows A Step Q' φ (f r)) : Follows A Step Q' φ (p.finish f) := by
  induction p generalizing φ with
  | ret r => exact hf φ r hp
  | act e k ih =>
    intro r hr
    obtain ⟨φ', hstep, hk⟩ := hp r hr
    exact ⟨φ', hstep, ih r hk⟩

/-- Weaker steps and outcomes. -/
lemma Follows.imp {Step' : Φ → Event E R → Φ → Prop} {Q Q' : Φ → Except ε α → Prop}
    {p : Proc E R ε α} (hp : Follows A Step Q φ p)
    (hstep : ∀ φ ev φ', Step φ ev φ' → Step' φ ev φ') (hQ : ∀ φ r, Q φ r → Q' φ r) :
    Follows A Step' Q' φ p := by
  induction p generalizing φ with
  | ret r => exact hQ φ r hp
  | act e k ih =>
    intro r hr
    obtain ⟨φ', hmove, hk⟩ := hp r hr
    exact ⟨φ', hstep φ _ φ' hmove, ih r hk⟩

/-- Fewer answers to be prepared for. -/
lemma Follows.assume {A' : Event E R → Prop} {Q : Φ → Except ε α → Prop} {p : Proc E R ε α}
    (hp : Follows A Step Q φ p) (hA : ∀ ev, A' ev → A ev) : Follows A' Step Q φ p := by
  induction p generalizing φ with
  | ret r => exact hp
  | act e k ih =>
    intro r hr
    obtain ⟨φ', hmove, hk⟩ := hp r (hA _ hr)
    exact ⟨φ', hmove, ih r hk⟩

/-- A phase that every event may leave as it is. -/
lemma follows_of_stay {Q : Φ → Except ε α → Prop} (hstep : ∀ ev, Step φ ev φ) (hQ : ∀ r, Q φ r)
    (p : Proc E R ε α) : Follows A Step Q φ p := by
  induction p with
  | ret r => exact hQ r
  | act e k ih => exact fun r _ => ⟨φ, hstep _, ih r⟩

/-! ### Looking first -/

variable {J : Type}

/-- The process only looks until it has an outcome or is a body, finished by `g`. -/
def Opens (L : E → Prop) (own : J → Prop) (body : J → Proc E R ε α)
    (g : J → Except ε α → Except ε' β) : Proc E R ε' β → Prop
  | .ret _   => True
  | .act e k =>
    (∃ j, own j ∧ Proc.act e k = (body j).finish fun r => .ret (g j r)) ∨
      (L e ∧ ∀ r, Opens L own body g (k r))

variable {L : E → Prop} {own : J → Prop} {body : J → Proc E R ε α}
  {g : J → Except ε α → Except ε' β}

lemma opens_ret (r : Except ε' β) : Opens L own body g (.ret r) := trivial

lemma opens_body {j : J} (hj : own j) :
    Opens L own body g ((body j).finish fun r => .ret (g j r)) := by
  rcases h : (body j).finish fun r => (.ret (g j r) : Proc E R ε' β) with r | ⟨e, k⟩
  · trivial
  · exact .inl ⟨j, hj, h.symm⟩

/-- Looking, and then a process that opens whatever was seen. -/
lemma Issues.opens_finish {p : Proc E R ε' γ} (hp : Issues L p)
    {f : Except ε' γ → Proc E R ε' β} (hf : ∀ r, Opens L own body g (f r)) :
    Opens L own body g (p.finish f) := by
  induction p with
  | ret r => exact hf r
  | act e k ih => exact .inr ⟨hp.1, fun r => ih r (hp.2 r)⟩

lemma Issues.opens_bind {p : Proc E R ε' γ} (hp : Issues L p) {f : γ → Proc E R ε' β}
    (hf : ∀ a, Opens L own body g (f a)) : Opens L own body g (p >>= f) := by
  induction p with
  | ret r =>
    cases r with
    | ok a => exact hf a
    | error x => trivial
  | act e k ih => exact .inr ⟨hp.1, fun r => ih r (hp.2 r)⟩

end Proc

open Proc

/-! ### Interleavings -/

variable (exec : ∀ e : E, σ → R e × σ) {ι : Type} [DecidableEq ι] {J : Type}

/-- A run depends only on the processes that have turns. -/
lemma Conf.run_congr {pool pool' : ι → Proc E R ε α} (s : σ) {schedule : List ι}
    (h : ∀ i ∈ schedule, pool i = pool' i) :
    (Conf.run exec pool s schedule).state = (Conf.run exec pool' s schedule).state ∧
      ∀ i, pool i = pool' i →
        (Conf.run exec pool s schedule).pool i = (Conf.run exec pool' s schedule).pool i := by
  induction schedule using List.reverseRecOn with
  | nil => exact ⟨rfl, fun i hi => hi⟩
  | append_singleton schedule i ih =>
    obtain ⟨hstate, hpool⟩ := ih fun j hj => h j (List.mem_append_left _ hj)
    have hi := hpool i (h i (by simp))
    rw [Conf.run_snoc, Conf.run_snoc]
    unfold Conf.turn
    rw [← hi]
    cases hact : (Conf.run exec pool s schedule).pool i with
    | ret r => exact ⟨hstate, hpool⟩
    | act e k =>
      dsimp only
      rw [← hstate]
      refine ⟨rfl, fun j hj => ?_⟩
      by_cases hji : j = i
      · subst hji
        rw [Function.update_self, Function.update_self]
      · rw [Function.update_of_ne hji, Function.update_of_ne hji]
        exact hpool j hj

/-- A process without turns stays as it is. -/
lemma Conf.run_pool_of_not_mem {pool : ι → Proc E R ε α} (s : σ) {schedule : List ι} {i : ι}
    (h : i ∉ schedule) : (Conf.run exec pool s schedule).pool i = pool i := by
  induction schedule using List.reverseRecOn with
  | nil => rfl
  | append_singleton schedule j ih =>
    rw [List.mem_append, not_or, List.mem_singleton] at h
    rw [Conf.run_snoc]
    rcases Conf.turn_cases exec (Conf.run exec pool s schedule) j with hturn | ⟨e, k, -, hturn⟩
    · rw [hturn]
      exact ih h.1
    · rw [hturn]
      dsimp only
      rw [Function.update_of_ne h.2]
      exact ih h.1

variable {L : E → Prop} {own : ι → J → Prop} {body : J → Proc E R ε α}
  {g : J → Except ε α → Except ε' β}

/-- A run of processes that open and the run of their bodies that it stands for: each process is
still looking, or it is in the body that was chosen for it. -/
structure Shadowed (L : E → Prop) (own : ι → J → Prop) (body : J → Proc E R ε α)
    (g : J → Except ε α → Except ε' β) (s : σ) (c : Conf ι E R ε' β σ) (j : ι → J)
    (schedule : List ι) : Prop where
  state : c.state = (Conf.run exec (fun i => body (j i)) s schedule).state
  pool : ∀ i, (i ∉ schedule ∧ Opens L (own i) body g (c.pool i)) ∨
    own i (j i) ∧ c.pool i = ((Conf.run exec (fun i => body (j i)) s schedule).pool i).finish
      fun r => .ret (g (j i) r)

variable {exec} {s : σ} {c : Conf ι E R ε' β σ} {j : ι → J} {schedule : List ι}

/-- A process that looks is not where the others are. -/
lemma Shadowed.of_look (h : Shadowed exec L own body g s c j schedule) {i : ι} {p : Proc E R ε' β}
    (hi : i ∉ schedule) (hp : Opens L (own i) body g p) (tr : Trace ι E R) :
    Shadowed exec L own body g s ⟨Function.update c.pool i p, c.state, tr⟩ j schedule := by
  refine ⟨h.state, fun i' => ?_⟩
  by_cases hi' : i' = i
  · subst hi'
    refine .inl ⟨hi, ?_⟩
    dsimp only
    rwa [Function.update_self]
  · dsimp only
    rw [Function.update_of_ne hi']
    exact h.pool i'

/-- A process that starts its body has it chosen. -/
lemma Shadowed.choose (h : Shadowed exec L own body g s c j schedule) {i : ι} (hi : i ∉ schedule)
    {j₀ : J} (hj₀ : own i j₀) (hbody : c.pool i = (body j₀).finish fun r => .ret (g j₀ r)) :
    ∃ j', Shadowed exec L own body g s c j' schedule ∧ own i (j' i) ∧
      c.pool i = ((Conf.run exec (fun i => body (j' i)) s schedule).pool i).finish
        fun r => .ret (g (j' i) r) := by
  have hsame : ∀ i', i' ≠ i → Function.update j i j₀ i' = j i' := fun i' h' =>
    Function.update_of_ne h' j₀ j
  have hbodies : ∀ i' ∈ schedule, body (j i') = body (Function.update j i j₀ i') := fun i' hi' => by
    rw [hsame i' fun heq => hi (heq ▸ hi')]
  obtain ⟨hstate, hpool⟩ := Conf.run_congr exec s hbodies
  have hself : own i (Function.update j i j₀ i) ∧ c.pool i =
      ((Conf.run exec (fun i' => body (Function.update j i j₀ i')) s schedule).pool i).finish
        fun r => .ret (g (Function.update j i j₀ i) r) := by
    rw [Conf.run_pool_of_not_mem exec s hi, Function.update_self]
    exact ⟨hj₀, hbody⟩
  refine ⟨_, ⟨h.state.trans hstate, fun i' => ?_⟩, hself⟩
  by_cases hi' : i' = i
  · subst hi'
    exact .inr hself
  · rw [← hpool i' (by rw [hsame i' hi']), hsame i' hi']
    exact h.pool i'

/-- The turn of a process that is in its body is a turn of the body. -/
lemma Shadowed.turn_body (h : Shadowed exec L own body g s c j schedule) {i : ι}
    (hown : own i (j i))
    (hi : c.pool i = ((Conf.run exec (fun i => body (j i)) s schedule).pool i).finish
      fun r => .ret (g (j i) r)) :
    Shadowed exec L own body g s (c.turn exec i) j (schedule ++ [i]) := by
  set d := Conf.run exec (fun i => body (j i)) s schedule with hd
  have hrun : Conf.run exec (fun i => body (j i)) s (schedule ++ [i]) = d.turn exec i :=
    Conf.run_snoc exec _ s schedule i
  have hstate : c.state = d.state := h.state
  have hout : ∀ i', i' ≠ i → (i' ∉ schedule ++ [i] ∧ Opens L (own i') body g (c.pool i')) ∨
      own i' (j i') ∧ c.pool i' = (d.pool i').finish fun r => .ret (g (j i') r) := by
    intro i' hi'
    exact (h.pool i').imp_left fun hlook => ⟨by simp [hlook.1, hi'], hlook.2⟩
  rcases hact : d.pool i with r | ⟨e, k⟩
  · rw [hact] at hi
    have hturn : c.turn exec i = c := by simp only [Conf.turn, hi, finish_ret]
    have hturn' : d.turn exec i = d := by simp only [Conf.turn, hact]
    refine ⟨by rw [hturn, hrun, hturn', hstate], fun i' => ?_⟩
    rw [hturn, hrun, hturn']
    by_cases hi' : i' = i
    · subst hi'
      exact .inr ⟨hown, by rw [hi, hact]⟩
    · exact hout i' hi'
  · rw [hact] at hi
    refine ⟨?_, fun i' => ?_⟩
    · rw [hrun]
      simp only [Conf.turn, hi, hact, finish_act, hstate]
    · rw [hrun]
      by_cases hi' : i' = i
      · subst hi'
        refine .inr ⟨hown, ?_⟩
        simp only [Conf.turn, hi, hact, finish_act, hstate, Function.update_self]
      · simpa only [Conf.turn, hi, hact, finish_act, Function.update_of_ne hi'] using hout i' hi'

/-- A turn is a look, or a turn of a body. -/
lemma Shadowed.turn (hlook : ∀ e s, L e → (exec e s).2 = s)
    (h : Shadowed exec L own body g s c j schedule) (i : ι) :
    ∃ j' schedule', Shadowed exec L own body g s (c.turn exec i) j' schedule' := by
  rcases h.pool i with ⟨hi, hopens⟩ | ⟨hown, hi⟩
  · rcases hact : c.pool i with r | ⟨e, k⟩
    · exact ⟨j, schedule, by simpa only [Conf.turn, hact] using h⟩
    · rw [hact] at hopens
      rcases hopens with ⟨j₀, hj₀, hbody⟩ | ⟨he, hk⟩
      · obtain ⟨j', hchosen, hown, hself⟩ := h.choose hi hj₀ (hact.trans hbody)
        exact ⟨j', _, hchosen.turn_body hown hself⟩
      · refine ⟨j, schedule, ?_⟩
        simp only [Conf.turn, hact, hlook e _ he]
        exact h.of_look hi (hk _) _
  · exact ⟨j, _, h.turn_body hown hi⟩

variable (exec) in
/-- Interleaving processes that open is interleaving their bodies. -/
theorem Conf.run_opens [Inhabited J] (hlook : ∀ e s, L e → (exec e s).2 = s)
    {pool : ι → Proc E R ε' β} (hpool : ∀ i, Opens L (own i) body g (pool i)) (s : σ)
    (schedule : List ι) :
    ∃ j schedule', Shadowed exec L own body g s (Conf.run exec pool s schedule) j schedule' := by
  induction schedule using List.reverseRecOn with
  | nil => exact ⟨fun _ => default, [], rfl, fun i => .inl ⟨List.not_mem_nil, hpool i⟩⟩
  | append_singleton schedule i ih =>
    obtain ⟨j, schedule', h⟩ := ih
    rw [Conf.run_snoc]
    exact h.turn hlook i

end Resumption
