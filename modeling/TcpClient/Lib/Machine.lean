import Mathlib.Data.List.Induction
import Mathlib.Algebra.BigOperators.Group.List.Basic
import Mathlib.Algebra.GroupWithZero.Nat

/-!
# Machines driven by their environment

A program that waits on its environment is a step function `step : σ → ε → σ`:
from a state, and what the environment answers there, the next state. This
module says what a run of such a program reaches, and gives the rules by which
everything is proved of a run:

* `Reach.invariant` — what the start satisfies and a step preserves holds of
  every state reached;
* `Reach.strengthen` — an invariant once proved may be assumed in every later
  step;
* `run_invariant` — an invariant may speak of the answers there were;
* `Reach.simulation` — where a run of another machine matches every step, one matches every run;
* `run_of_variant` — a run that uses up a measure ends;
* `exists_step_of_run` — what comes to hold in a run comes to hold in one of its steps;
* `foldlM_ok_invariant` — the invariant rule for a loop that may return early;
* `LastLeft` — what a run looked like when a condition was last given up;
* `Comes` — an event that comes before anything else stops a schedule.

The environment may be promised to behave (`A s e`: in state `s` the answer `e`
is one it can give); a run without a promise is `Reach step Free`.
-/

namespace TcpClient.Machine

universe u v w x

variable {σ : Type u} {ε : Type v}

/-- What a run from `s₀` reaches, when every answer keeps the promise `A`. -/
inductive Reach (step : σ → ε → σ) (A : σ → ε → Prop) (s₀ : σ) : σ → Prop where
  /-- Nothing has happened yet. -/
  | refl : Reach step A s₀ s₀
  /-- One step more. -/
  | tail {s : σ} {e : ε} : Reach step A s₀ s → A s e → Reach step A s₀ (step s e)

/-- The environment that promises nothing. -/
def Free (_ : σ) (_ : ε) : Prop := True

variable {step : σ → ε → σ} {A B : σ → ε → Prop} {s₀ s t : σ}

/-- **The invariant rule.** -/
theorem Reach.invariant {I : σ → Prop} (h₀ : I s₀) (hstep : ∀ s e, I s → A s e → I (step s e))
    (h : Reach step A s₀ s) : I s := by
  induction h with
  | refl => exact h₀
  | tail _ ha ih => exact hstep _ _ ih ha

/-- A run under a promise is a run under any weaker one. -/
theorem Reach.mono (hAB : ∀ s e, A s e → B s e) (h : Reach step A s₀ s) : Reach step B s₀ s := by
  induction h with
  | refl => exact .refl
  | tail _ ha ih => exact .tail ih (hAB _ _ ha)

/-- Every run is a run without a promise. -/
theorem Reach.free (h : Reach step A s₀ s) : Reach step Free s₀ s := h.mono fun _ _ _ => trivial

theorem Reach.trans (h₁ : Reach step A s₀ s) (h₂ : Reach step A s t) : Reach step A s₀ t := by
  induction h₂ with
  | refl => exact h₁
  | tail _ ha ih => exact .tail ih ha

/-- **An invariant may be assumed**: if `I` holds wherever the run can be, its steps
may be taken to start in `I`. -/
theorem Reach.strengthen {I : σ → Prop} (hI : ∀ s, Reach step A s₀ s → I s)
    (h : Reach step A s₀ s) : Reach step (fun s e => A s e ∧ I s) s₀ s := by
  induction h with
  | refl => exact .refl
  | tail hr ha ih => exact .tail ih ⟨ha, hI _ hr⟩

/-- **The simulation rule**: if from states in `R` every step is matched by a run of the other machine, so is
every run. -/
theorem Reach.simulation {τ : Type w} {ζ : Type x} {R : σ → τ → Prop} {step' : τ → ζ → τ} {B : τ → ζ → Prop} {u₀ : τ}
    (hstep : ∀ s e u, R s u → A s e → ∃ u', Reach step' B u u' ∧ R (step s e) u') (h₀ : R s₀ u₀)
    (h : Reach step A s₀ s) : ∃ u, Reach step' B u₀ u ∧ R s u := by
  induction h with
  | refl => exact ⟨u₀, .refl, h₀⟩
  | tail _ ha ih =>
    obtain ⟨u, hreach, hR⟩ := ih
    obtain ⟨u', hreach', hR'⟩ := hstep _ _ u hR ha
    exact ⟨u', hreach.trans hreach', hR'⟩

/-! ### Runs as lists of answers -/

/-- The state after the answers `es`. -/
def run (step : σ → ε → σ) (s : σ) (es : List ε) : σ := es.foldl step s

@[simp] theorem run_nil (s : σ) : run step s [] = s := rfl

@[simp] theorem run_cons (s : σ) (e : ε) (es : List ε) : run step s (e :: es) = run step (step s e) es := rfl

/-- Every answer of the list keeps the promise in the state where it is given. -/
def Keeps (step : σ → ε → σ) (A : σ → ε → Prop) : σ → List ε → Prop
  | _, [] => True
  | s, e :: es => A s e ∧ Keeps step A (step s e) es

instance keepsDecidable {step : σ → ε → σ} {A : σ → ε → Prop} [∀ s e, Decidable (A s e)] :
    ∀ (s : σ) (es : List ε), Decidable (Keeps step A s es)
  | _, [] => .isTrue trivial
  | s, e :: es => @instDecidableAnd _ _ _ (keepsDecidable (step s e) es)

/-- A promise that never depends on the state is kept by a list that keeps it. -/
theorem keeps_of_forall {es : List ε} (h : ∀ e ∈ es, ∀ s, A s e) : Keeps step A s es := by
  induction es generalizing s with
  | nil => trivial
  | cons e es ih =>
    exact ⟨h e List.mem_cons_self s, ih fun e' he' => h e' (List.mem_cons_of_mem _ he')⟩

theorem reach_run {es : List ε} (h : Keeps step A s es) : Reach step A s (run step s es) := by
  induction es generalizing s with
  | nil => exact .refl
  | cons e es ih =>
    obtain ⟨ha, hk⟩ := h
    exact (Reach.tail .refl ha).trans (ih hk)

/-- Without a promise, any list of answers is a run. -/
theorem reach_free_run (s : σ) (es : List ε) : Reach step Free s (run step s es) := by
  induction es generalizing s with
  | nil => exact .refl
  | cons e es ih => exact (Reach.tail .refl trivial).trans (ih _)

/-- A run of `es` and then of `es'`. -/
theorem run_append (s : σ) (es es' : List ε) : run step s (es ++ es') = run step (run step s es) es' :=
  List.foldl_append

/-- **The invariant rule, with the answers so far.** -/
theorem run_invariant {I : List ε → σ → Prop} (h₀ : I [] s)
    (hstep : ∀ es e, I es (run step s es) → I (es ++ [e]) (step (run step s es) e)) (es : List ε) :
    I es (run step s es) := by
  induction es using List.reverseRecOn with
  | nil => exact h₀
  | append_singleton es e ih =>
    rw [run_append]
    exact hstep es e ih

/-- What no step changes no run changes. -/
theorem run_stays (h : ∀ e, step s e = s) (es : List ε) : run step s es = s := by
  induction es with
  | nil => rfl
  | cons e es ih => rw [run_cons, h, ih]

/-- **What comes to hold in a run comes to hold in one of its steps.** -/
theorem exists_step_of_run {P : σ → Prop} {es : List ε} (h₀ : ¬ P s) (h : P (run step s es)) :
    ∃ pre e post, es = pre ++ e :: post ∧ ¬ P (run step s pre) ∧ P (step (run step s pre) e) := by
  induction es generalizing s with
  | nil => exact absurd h h₀
  | cons e es ih =>
    by_cases hfirst : P (step s e)
    · exact ⟨[], e, es, rfl, h₀, hfirst⟩
    · obtain ⟨pre, d, post, rfl, hbefore, hat⟩ := ih hfirst h
      exact ⟨e :: pre, d, post, rfl, hbefore, hat⟩

/-- **The variant rule.** Where a step is done, or uses some of the measure unless its answer is a busy one, a run
that is long enough, the busy answers not counted, is done. -/
theorem run_of_variant {I Done : σ → Prop} {P : ε → Prop} {left : σ → ℕ} {busy : ε → Bool}
    (hstep : ∀ s e, I s → P e → I (step s e)) (hdone : ∀ s e, Done s → Done (step s e))
    (hleft : ∀ s e, I s → P e → ¬ Done s →
      left (step s e) < left s ∨ (busy e = true ∧ left (step s e) ≤ left s))
    (hzero : ∀ s, I s → left s = 0 → Done s) (hs : I s) (es : List ε) (hes : ∀ e ∈ es, P e)
    (hlen : left s + es.countP busy ≤ es.length) : Done (run step s es) := by
  have hstays : ∀ (es : List ε) (s : σ), Done s → Done (run step s es) := by
    intro es
    induction es with
    | nil => exact fun s hs => hs
    | cons e es ih => exact fun s hs => ih _ (hdone s e hs)
  induction es generalizing s with
  | nil =>
    refine hzero s hs ?_
    rw [List.countP_nil, List.length_nil] at hlen
    omega
  | cons e es ih =>
    rw [List.forall_mem_cons] at hes
    by_cases hend : Done s
    · exact hstays (e :: es) s hend
    · refine ih (hstep s e hs hes.1) hes.2 ?_
      rw [List.countP_cons, List.length_cons] at hlen
      rcases hleft s e hs hes.1 hend with hless | ⟨hbusy, hle⟩
      · omega
      · rw [if_pos hbusy] at hlen
        omega

/-! ### Runs that can fail -/

/-- **The invariant rule for steps that can fail**: if every step from a state in `I` succeeds
and stays in `I`, a run from `I` succeeds and ends in `I`. -/
theorem foldlM_invariant {I : σ → Prop} {f : σ → ε → Option σ} (hstep : ∀ s e, I s → ∃ t, f s e = some t ∧ I t)
    {s : σ} (hs : I s) (es : List ε) : ∃ t, es.foldlM f s = some t ∧ I t := by
  induction es generalizing s with
  | nil => exact ⟨s, rfl, hs⟩
  | cons e es ih =>
    obtain ⟨t, ht, hI⟩ := hstep s e hs
    obtain ⟨u, hu, hIu⟩ := ih hI
    refine ⟨u, ?_, hIu⟩
    rw [List.foldlM_cons, ht]
    exact hu

/-- **The invariant rule for runs that may be cut short**: what every step that goes on keeps, a run
that went through has kept. -/
theorem foldlM_ok_invariant {κ : Type w} {I : σ → Prop} {f : σ → ε → Except κ σ}
    (hstep : ∀ s e t, I s → f s e = .ok t → I t) {es : List ε} (hs : I s) (h : es.foldlM f s = .ok t) : I t := by
  induction es generalizing s with
  | nil =>
    rw [List.foldlM_nil] at h
    cases h
    exact hs
  | cons e es ih =>
    rw [List.foldlM_cons] at h
    cases hfirst : f s e with
    | error k =>
      rw [hfirst] at h
      cases h
    | ok u =>
      rw [hfirst] at h
      exact ih (hstep s e u hs hfirst) h

/-- A run cut short was cut short by one of its steps. -/
theorem foldlM_error {κ : Type w} {f : σ → ε → Except κ σ} {es : List ε} {k : κ}
    (h : es.foldlM f s = .error k) : ∃ t e, e ∈ es ∧ f t e = .error k := by
  induction es generalizing s with
  | nil => cases h
  | cons e es ih =>
    rw [List.foldlM_cons] at h
    cases hfirst : f s e with
    | error k' =>
      rw [hfirst] at h
      cases h
      exact ⟨s, e, List.mem_cons_self, hfirst⟩
    | ok u =>
      rw [hfirst] at h
      obtain ⟨t, d, hd, hstep⟩ := ih h
      exact ⟨t, d, List.mem_cons_of_mem e hd, hstep⟩

/-! ### The last time a condition was given up -/

/-- In the run of `es` from `s₀` the condition `P` held last in `s₁`: the next step gave it up, and it
has not held since. -/
def LastLeft (f : σ → ε → Option σ) (P : σ → Prop) (s₀ : σ) (es : List ε) (s₁ : σ) : Prop :=
  ∃ es₁ e es₂, es = es₁ ++ e :: es₂ ∧ es₁.foldlM f s₀ = some s₁ ∧ P s₁ ∧
    ∀ pre, pre <+: es₂ → ∀ s, (es₁ ++ e :: pre).foldlM f s₀ = some s → ¬ P s

/-- One loop after another, where neither returns early. -/
theorem foldlM_append_ok {κ : Type w} {f : σ → ε → Except κ σ} {es es' : List ε} (h : es.foldlM f s₀ = .ok s)
    (h' : es'.foldlM f s = .ok t) : (es ++ es').foldlM f s₀ = .ok t := by
  rw [List.foldlM_append, h]
  exact h'

theorem foldlM_concat {f : σ → ε → Option σ} {es : List ε} {e : ε} (hs : es.foldlM f s₀ = some s) :
    (es ++ [e]).foldlM f s₀ = f s e := by
  simp [List.foldlM_append, hs]

/-- A step gives the condition up. -/
theorem LastLeft.leave {f : σ → ε → Option σ} {P : σ → Prop} {es : List ε} {e : ε} (hs : es.foldlM f s₀ = some s)
    (hP : P s) (hstep : f s e = some t) (hnot : ¬ P t) : LastLeft f P s₀ (es ++ [e]) s := by
  refine ⟨es, e, [], rfl, hs, hP, ?_⟩
  intro pre hpre u hu
  rw [List.prefix_nil.mp hpre, foldlM_concat hs, hstep] at hu
  cases hu
  exact hnot

/-- A step does not bring the condition back. -/
theorem LastLeft.extend {f : σ → ε → Option σ} {P : σ → Prop} {es : List ε} {e : ε} {s₁ : σ}
    (h : LastLeft f P s₀ es s₁) (hs : es.foldlM f s₀ = some s) (hstep : f s e = some t) (hnot : ¬ P t) :
    LastLeft f P s₀ (es ++ [e]) s₁ := by
  obtain ⟨es₁, e₁, es₂, rfl, hs₁, hP, hsince⟩ := h
  refine ⟨es₁, e₁, es₂ ++ [e], by simp, hs₁, hP, ?_⟩
  intro pre hpre u hu
  cases List.prefix_concat_iff.mp hpre with
  | inl hwhole =>
    rw [hwhole, ← List.cons_append, ← List.append_assoc, foldlM_concat hs, hstep] at hu
    cases hu
    exact hnot
  | inr hpart => exact hsince pre hpart u hu

/-! ### What comes first -/

/-- Of the events of the schedule `es` one with `P` comes first: those before it go on, and what they
use stays below the budget. -/
def Comes (goes : ε → Prop) (use : ε → ℕ) (P : ε → Prop) (es : List ε) (budget : ℕ) : Prop :=
  ∃ before e after, es = before ++ e :: after ∧ P e ∧ (∀ d ∈ before, goes d) ∧ (before.map use).sum < budget

section Comes

variable {goes P : ε → Prop} {use : ε → ℕ} {budget : ℕ}

theorem not_comes_nil : ¬ Comes goes use P [] budget := by
  rintro ⟨before, e, after, h, -⟩
  cases before <;> cases h

/-- **The first event either is the one, or goes on** and uses some of the budget. -/
theorem comes_cons (e : ε) (es : List ε) :
    Comes goes use P (e :: es) budget ↔
      (P e ∧ 0 < budget) ∨ (goes e ∧ use e < budget ∧ Comes goes use P es (budget - use e)) := by
  constructor
  · rintro ⟨before, d, after, heq, hP, hgoes, hsum⟩
    cases before with
    | nil =>
      cases heq
      exact Or.inl ⟨hP, hsum⟩
    | cons b before =>
      cases heq
      rw [List.map_cons, List.sum_cons] at hsum
      rw [List.forall_mem_cons] at hgoes
      exact Or.inr ⟨hgoes.1, by omega, before, d, after, rfl, hP, hgoes.2, by omega⟩
  · rintro (⟨hP, hpos⟩ | ⟨hgo, huse, before, d, after, rfl, hP, hgoes, hsum⟩)
    · exact ⟨[], e, es, rfl, hP, List.forall_mem_nil _, hpos⟩
    · refine ⟨e :: before, d, after, rfl, hP, List.forall_mem_cons.mpr ⟨hgo, hgoes⟩, ?_⟩
      rw [List.map_cons, List.sum_cons]
      omega

end Comes

end TcpClient.Machine
