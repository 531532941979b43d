import BlobStore.Lib.Resumption.Basic

/-!
# What a process guarantees

An event is a request together with the response it got. Guarantees are statements about the
events a process can take part in, whatever the responses are, so that they hold no matter what
other processes do in between.

`Issues P` is the plain form: all requests satisfy `P`. `Follows A Step Q φ p` is the form with
memory: a ghost phase `φ` is attached to the process, every event moves the phase by `Step`, and
the outcome fits the last phase by `Q`. Responses may be assumed to satisfy `A`.
-/

namespace Resumption

variable {E : Type} {R : E → Type} {ε ε' α β σ : Type}

/-- A request and the response to it. -/
abbrev Event (E : Type) (R : E → Type) := Σ e : E, R e

namespace Proc

/-! ### Requests -/

/-- Every request of the process, whatever the responses, satisfies `P`. -/
def Issues (P : E → Prop) : Proc E R ε α → Prop
  | .ret _   => True
  | .act e k => P e ∧ ∀ r, Issues P (k r)

variable {P P' : E → Prop}

@[simp] lemma issues_pure {a : α} : Issues P (pure a : Proc E R ε α) := trivial

@[simp] lemma issues_fail {x : ε} : Issues P (fail x : Proc E R ε α) := trivial

@[simp] lemma issues_ofExcept {r : Except ε α} : Issues P (ofExcept r : Proc E R ε α) := trivial

@[simp] lemma issues_perform {e : E} : Issues P (perform e : Proc E R ε (R e)) ↔ P e :=
  ⟨fun h => h.1, fun h => ⟨h, fun _ => trivial⟩⟩

lemma Issues.bind {p : Proc E R ε α} {f : α → Proc E R ε β} (hp : Issues P p)
    (hf : ∀ a, Issues P (f a)) : Issues P (p >>= f) := by
  induction p with
  | ret r =>
    cases r with
    | ok a => exact hf a
    | error x => trivial
  | act e k ih => exact ⟨hp.1, fun r => ih r (hp.2 r)⟩

/-- One request, and what follows for each response. -/
lemma Issues.perform_bind {e : E} {f : R e → Proc E R ε α} (he : P e)
    (hf : ∀ r, Issues P (f r)) : Issues P (perform e >>= f) := ⟨he, hf⟩

lemma Issues.mono {p : Proc E R ε α} (hp : Issues P p) (hPP' : ∀ e, P e → P' e) :
    Issues P' p := by
  induction p with
  | ret r => trivial
  | act e k ih => exact ⟨hPP' e hp.1, fun r => ih r (hp.2 r)⟩

@[simp] lemma issues_mapErr {f : ε → ε'} {p : Proc E R ε α} :
    Issues P (p.mapErr f) ↔ Issues P p := by
  induction p with
  | ret r => cases r <;> rfl
  | act e k ih => exact and_congr_right fun _ => forall_congr' ih

@[simp] lemma issues_ignore {p : Proc E R ε α} :
    Issues P (p.ignore : Proc E R ε' Unit) ↔ Issues P p := by
  induction p with
  | ret r => rfl
  | act e k ih => exact and_congr_right fun _ => forall_congr' ih

/-- An invariant of the requests that are issued is an invariant of the run. -/
lemma Issues.run_inv {exec : ∀ e : E, σ → R e × σ} {I : σ → Prop} {p : Proc E R ε α}
    (hp : Issues P p) (hstep : ∀ e s, P e → I s → I (exec e s).2) {s : σ} (hs : I s) :
    I (run exec p s).2 := by
  induction p generalizing s with
  | ret r => exact hs
  | act e k ih => exact ih _ (hp.2 _) (hstep e s hp.1 hs)

/-! ### Phases -/

variable {Φ : Type}

/-- From phase `φ` on, the events of the process are steps of phases, and its outcome fits. -/
def Follows (A : Event E R → Prop) (Step : Φ → Event E R → Φ → Prop)
    (Q : Φ → Except ε α → Prop) : Φ → Proc E R ε α → Prop
  | φ, .ret r   => Q φ r
  | φ, .act e k => ∀ r, A ⟨e, r⟩ → ∃ φ', Step φ ⟨e, r⟩ φ' ∧ Follows A Step Q φ' (k r)

variable {A : Event E R → Prop} {Step Step' : Φ → Event E R → Φ → Prop}
  {Q Q' : Φ → Except ε α → Prop} {φ : Φ}

@[simp] lemma follows_pure {a : α} :
    Follows A Step Q φ (pure a : Proc E R ε α) ↔ Q φ (.ok a) := Iff.rfl

@[simp] lemma follows_fail {x : ε} :
    Follows A Step Q φ (fail x : Proc E R ε α) ↔ Q φ (.error x) := Iff.rfl

@[simp] lemma follows_ofExcept {r : Except ε α} :
    Follows A Step Q φ (ofExcept r : Proc E R ε α) ↔ Q φ r := Iff.rfl

/-- One request, and what follows for each response. -/
lemma follows_perform_bind {e : E} {f : R e → Proc E R ε α} :
    Follows A Step Q φ (perform e >>= f) ↔
      ∀ r, A ⟨e, r⟩ → ∃ φ', Step φ ⟨e, r⟩ φ' ∧ Follows A Step Q φ' (f r) := Iff.rfl

lemma Follows.mono {p : Proc E R ε α} (hp : Follows A Step Q φ p)
    (hQ : ∀ φ r, Q φ r → Q' φ r) : Follows A Step Q' φ p := by
  induction p generalizing φ with
  | ret r => exact hQ φ r hp
  | act e k ih =>
    intro r hr
    obtain ⟨φ', hstep, hk⟩ := hp r hr
    exact ⟨φ', hstep, ih r hk⟩

/-- Sequencing: the errors of the first process are errors of the whole. -/
lemma Follows.bind {p : Proc E R ε α} {f : α → Proc E R ε β} {Q' : Φ → Except ε β → Prop}
    (hp : Follows A Step Q φ p) (hok : ∀ φ a, Q φ (.ok a) → Follows A Step Q' φ (f a))
    (herror : ∀ φ x, Q φ (.error x) → Q' φ (.error x)) : Follows A Step Q' φ (p >>= f) := by
  induction p generalizing φ with
  | ret r =>
    cases r with
    | ok a => exact hok φ a hp
    | error x => exact herror φ x hp
  | act e k ih =>
    intro r hr
    obtain ⟨φ', hstep, hk⟩ := hp r hr
    exact ⟨φ', hstep, ih r hk⟩

lemma follows_mapErr {f : ε → ε'} {p : Proc E R ε α} {Q' : Φ → Except ε' α → Prop} :
    Follows A Step Q' φ (p.mapErr f) ↔ Follows A Step (fun φ r => Q' φ (r.mapError f)) φ p := by
  induction p generalizing φ with
  | ret r => cases r <;> rfl
  | act e k ih =>
    exact forall_congr' fun r => forall_congr' fun _ => exists_congr fun φ' =>
      and_congr_right fun _ => ih r

lemma follows_ignore {p : Proc E R ε α} {Q' : Φ → Except ε' Unit → Prop} :
    Follows A Step Q' φ p.ignore ↔ Follows A Step (fun φ _ => Q' φ (.ok ())) φ p := by
  induction p generalizing φ with
  | ret r => rfl
  | act e k ih =>
    exact forall_congr' fun r => forall_congr' fun _ => exists_congr fun φ' =>
      and_congr_right fun _ => ih r

/-- A process that issues only requests which leave the phase as it is. -/
lemma Issues.follows {p : Proc E R ε α} (hp : Issues P p)
    (hstep : ∀ e r, P e → Step φ ⟨e, r⟩ φ) (hQ : ∀ r, Q φ r) : Follows A Step Q φ p := by
  induction p with
  | ret r => exact hQ r
  | act e k ih => exact fun r _ => ⟨φ, hstep e r hp.1, ih r (hp.2 r)⟩

/-- The rule of invariants for a process that runs alone. -/
lemma Follows.run_inv {exec : ∀ e : E, σ → R e × σ} {I : σ → Prop} {p : Proc E R ε α}
    (hp : Follows A Step Q φ p) (hanswer : ∀ s e, I s → A ⟨e, (exec e s).1⟩)
    (hstep : ∀ s φ e φ', I s → Step φ ⟨e, (exec e s).1⟩ φ' → I (exec e s).2) {s : σ} (hs : I s) :
    I (run exec p s).2 := by
  induction p generalizing s φ with
  | ret r => exact hs
  | act e k ih =>
    obtain ⟨φ', hmove, hk⟩ := hp _ (hanswer s e hs)
    exact ih _ hk (hstep s φ e φ' hs hmove)

/-- What is known of the requests may be added to the steps. -/
lemma Follows.and_issues {p : Proc E R ε α} (hp : Follows A Step Q φ p) (hP : Issues P p) :
    Follows A (fun φ ev φ' => P ev.1 ∧ Step φ ev φ') Q φ p := by
  induction p generalizing φ with
  | ret r => exact hp
  | act e k ih =>
    intro r hr
    obtain ⟨φ', hstep, hk⟩ := hp r hr
    exact ⟨φ', ⟨hP.1, hstep⟩, ih r hk (hP.2 r)⟩

/-! ### Every event -/

/-- Given the answers, every event satisfies `P`. -/
abbrev Always (A P : Event E R → Prop) (p : Proc E R ε α) : Prop :=
  Follows A (fun (_ : Unit) ev _ => P ev) (fun _ _ => True) () p

/-- What every step of the phases implies holds of every event. -/
lemma Follows.always {P : Event E R → Prop} {p : Proc E R ε α} (hp : Follows A Step Q φ p)
    (hstep : ∀ φ ev φ', Step φ ev φ' → P ev) : Always A P p := by
  induction p generalizing φ with
  | ret r => trivial
  | act e k ih =>
    intro r hr
    obtain ⟨φ', hmove, hk⟩ := hp r hr
    exact ⟨(), hstep _ _ _ hmove, ih r hk⟩

lemma Issues.always {P' : Event E R → Prop} {p : Proc E R ε α} (hp : Issues P p)
    (hevent : ∀ e r, P e → P' ⟨e, r⟩) : Always A P' p :=
  hp.follows hevent fun _ => trivial

lemma Always.and {P P' : Event E R → Prop} {p : Proc E R ε α} (hp : Always A P p)
    (hp' : Always A P' p) : Always A (fun ev => P ev ∧ P' ev) p := by
  induction p with
  | ret r => trivial
  | act e k ih =>
    intro r hr
    obtain ⟨_, hev, hk⟩ := hp r hr
    obtain ⟨_, hev', hk'⟩ := hp' r hr
    exact ⟨(), ⟨hev, hev'⟩, ih r hk hk'⟩

/-! ### A run alone -/

section Asked

variable (exec : ∀ e : E, σ → R e × σ)

/-- The requests of a process that runs alone. -/
def asked : Proc E R ε α → σ → List E
  | .ret _, _   => []
  | .act e k, s => e :: asked (k (exec e s).1) (exec e s).2

variable {exec} {e : E} {s s' : σ}

end Asked

/-! ### Histories -/

/-- The history of a process, as its phase. -/
abbrev FollowsHistory (Q : List (Event E R) → Except ε α → Prop) :
    List (Event E R) → Proc E R ε α → Prop :=
  Follows (fun _ => True) (fun h ev h' => h' = h ++ [ev]) Q

variable {h : List (Event E R)} {p : Proc E R ε α} {H H' : List (Event E R) → Except ε α → Prop}

/-- The requests of a process are those of its history. -/
lemma Issues.history (hp : Issues P p) :
    FollowsHistory (fun h' _ => ∃ t, h' = h ++ t ∧ ∀ ev ∈ t, P ev.1) h p := by
  induction p generalizing h with
  | ret r => exact ⟨[], (List.append_nil h).symm, by simp⟩
  | act e k ih =>
    refine fun r _ => ⟨_, rfl, (ih r (hp.2 r)).mono ?_⟩
    rintro h' r' ⟨t, rfl, ht⟩
    refine ⟨⟨e, r⟩ :: t, by simp, fun ev hev => ?_⟩
    rcases List.mem_cons.mp hev with rfl | hev
    · exact hp.1
    · exact ht ev hev

lemma Issues.history_all (hp : Issues P p) (hh : ∀ ev ∈ h, P ev.1) :
    FollowsHistory (fun h' _ => h <+: h' ∧ ∀ ev ∈ h', P ev.1) h p := by
  refine hp.history.mono ?_
  rintro h' r ⟨t, rfl, ht⟩
  refine ⟨List.prefix_append h t, fun ev hev => ?_⟩
  rcases List.mem_append.mp hev with hev | hev
  · exact hh ev hev
  · exact ht ev hev

lemma FollowsHistory.and (hp : FollowsHistory H h p) (hp' : FollowsHistory H' h p) :
    FollowsHistory (fun h r => H h r ∧ H' h r) h p := by
  induction p generalizing h with
  | ret r => exact ⟨hp, hp'⟩
  | act e k ih =>
    intro r hr
    obtain ⟨_, rfl, hk⟩ := hp r hr
    obtain ⟨_, rfl, hk'⟩ := hp' r hr
    exact ⟨_, rfl, ih r hk hk'⟩

/-- A history only grows. -/
lemma follows_history (h : List (Event E R)) (p : Proc E R ε α) :
    FollowsHistory (fun h' _ => h <+: h') h p := by
  induction p generalizing h with
  | ret r => exact List.prefix_refl h
  | act e k ih =>
    intro r _
    refine ⟨_, rfl, (ih r (h ++ [⟨e, r⟩])).mono fun h' _ hpre => ?_⟩
    exact (List.prefix_append h _).trans hpre

end Proc
end Resumption
