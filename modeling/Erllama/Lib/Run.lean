import Mathlib.Data.List.Basic

namespace Erllama.Lib

/-!
# Runs of a deterministic step function

A system that handles one event at a time is a function `step : S → E → S`; a run is
a list of events, and the state it reaches is the left fold of `step`.

* `run` — the state a list of events leads to.
* `AllSteps` — a predicate on (state before, event) that every step of a run meets.
* `AllSteps.invariant` — what holds at the start and is preserved by every step that
  meets the condition holds in the last state of the run.
* `AllSteps.imp_of_invariant` — the same for a property of the steps themselves.

A property of *every* reachable state is a property of `run` for every list of events,
since each prefix of a run is a run (`AllSteps.of_append`).
-/

variable {S E : Type*}

/-- The state reached from `s` after handling the events in order. -/
def run (step : S → E → S) (s : S) (es : List E) : S :=
  es.foldl step s

/-- No event. -/
@[simp] theorem run_nil (step : S → E → S) (s : S) : run step s [] = s := rfl

/-- One event, and the rest. -/
@[simp] theorem run_cons (step : S → E → S) (s : S) (e : E) (es : List E) :
    run step s (e :: es) = run step (step s e) es := rfl

/-- One run after another. -/
theorem run_append (step : S → E → S) (s : S) (es fs : List E) :
    run step s (es ++ fs) = run step (run step s es) fs :=
  List.foldl_append

/-- Every step of the run from `s` along the events meets `P`, which may speak of the
    state before the step and of the event. -/
def AllSteps (step : S → E → S) (P : S → E → Prop) : S → List E → Prop
  | _, []      => True
  | s, e :: es => P s e ∧ AllSteps step P (step s e) es

variable {step : S → E → S} {P Q : S → E → Prop} {I : S → Prop}

/-- The steps of a run can be checked one by one. -/
instance AllSteps.decidable [∀ s e, Decidable (P s e)] :
    (s : S) → (es : List E) → Decidable (AllSteps step P s es)
  | _, []      => .isTrue trivial
  | s, e :: es => @instDecidableAnd _ _ _ (AllSteps.decidable (step s e) es)

/-- A condition that holds of every step there is. -/
theorem AllSteps.of_forall (h : ∀ s e, P s e) (s : S) (es : List E) : AllSteps step P s es := by
  induction es generalizing s with
  | nil => trivial
  | cons e es ih => exact ⟨h s e, ih (step s e)⟩

/-- A weaker condition. -/
theorem AllSteps.mono (himp : ∀ s e, P s e → Q s e) {s : S} {es : List E}
    (h : AllSteps step P s es) : AllSteps step Q s es := by
  induction es generalizing s with
  | nil => trivial
  | cons e es ih => exact ⟨himp s e h.1, ih h.2⟩

/-- A condition on the events alone that every event of the run meets. -/
theorem AllSteps.of_mem {P : E → Prop} {s : S} {es : List E} (h : ∀ e ∈ es, P e) :
    AllSteps step (fun _ e => P e) s es := by
  induction es generalizing s with
  | nil => trivial
  | cons e es ih =>
    exact ⟨h e List.mem_cons_self, ih fun e' he' => h e' (List.mem_cons_of_mem e he')⟩

/-- **Invariant rule.** An invariant of the first state that every step meeting `P`
    preserves holds in the last state of a run whose steps all meet `P`. -/
theorem AllSteps.invariant (hstep : ∀ s e, I s → P s e → I (step s e))
    {s : S} {es : List E} (hs : I s) (h : AllSteps step P s es) : I (run step s es) := by
  induction es generalizing s with
  | nil => exact hs
  | cons e es ih => exact ih (hstep s e hs h.1) h.2

/-- **Step rule.** Under an invariant, a condition on every step yields another property
    of every step. -/
theorem AllSteps.imp_of_invariant
    (hstep : ∀ s e, I s → P s e → I (step s e)) (himp : ∀ s e, I s → P s e → Q s e)
    {s : S} {es : List E} (hs : I s) (h : AllSteps step P s es) : AllSteps step Q s es := by
  induction es generalizing s with
  | nil => trivial
  | cons e es ih => exact ⟨himp s e hs h.1, ih (hstep s e hs h.1) h.2⟩

/-- **Equivalence rule.** Two step conditions that agree wherever the invariant holds, and
    that keep it, hold of the same runs. -/
theorem allSteps_iff (hstep : ∀ s e, I s → P s e → I (step s e))
    (hPQ : ∀ s e, I s → (P s e ↔ Q s e)) {s : S} {es : List E} (hs : I s) :
    AllSteps step P s es ↔ AllSteps step Q s es := by
  induction es generalizing s with
  | nil => exact Iff.rfl
  | cons e es ih =>
    constructor
    · rintro ⟨he, hes⟩
      exact ⟨(hPQ s e hs).mp he, (ih (hstep s e hs he)).mp hes⟩
    · rintro ⟨he, hes⟩
      have hP := (hPQ s e hs).mpr he
      exact ⟨hP, (ih (hstep s e hs hP)).mpr hes⟩

/-- Two step conditions that agree everywhere hold of the same runs. -/
theorem allSteps_congr (hPQ : ∀ s e, P s e ↔ Q s e) (s : S) (es : List E) :
    AllSteps step P s es ↔ AllSteps step Q s es := by
  have hP : P = Q := by
    ext s e
    exact hPQ s e
  rw [hP]

/-- A property holds in every state of a run iff it holds at the start and after each step. -/
theorem forall_prefix_iff {s : S} {es : List E} :
    (∀ pre, pre <+: es → I (run step s pre)) ↔
      I s ∧ AllSteps step (fun s e => I (step s e)) s es := by
  induction es generalizing s with
  | nil =>
    constructor
    · exact fun h => ⟨h [] (List.prefix_refl []), trivial⟩
    · rintro ⟨hs, -⟩ pre hpre
      rwa [List.prefix_nil.mp hpre]
  | cons e es ih =>
    constructor
    · intro h
      have htail := ih.mp fun pre hpre =>
        h (e :: pre) ((List.prefix_cons_inj e).mpr hpre)
      exact ⟨h [] List.nil_prefix, htail⟩
    · rintro ⟨hs, he⟩ pre hpre
      cases pre with
      | nil => exact hs
      | cons e' pre =>
        obtain ⟨rfl, htail⟩ := List.cons_prefix_cons.mp hpre
        exact ih.mpr he pre htail

/-- A prefix of a run whose steps all meet `P` is such a run. -/
theorem AllSteps.of_append {s : S} {es fs : List E} (h : AllSteps step P s (es ++ fs)) :
    AllSteps step P s es := by
  induction es generalizing s with
  | nil => trivial
  | cons e es ih => exact ⟨h.1, ih h.2⟩

/-- The condition at one step of a run. -/
theorem AllSteps.mid {s : S} {pre : List E} {e : E} {es : List E}
    (h : AllSteps step P s (pre ++ e :: es)) : P (run step s pre) e := by
  induction pre generalizing s with
  | nil => exact h.1
  | cons e' pre ih => exact ih h.2

end Erllama.Lib
