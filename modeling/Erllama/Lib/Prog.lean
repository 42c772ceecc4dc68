import Mathlib.Logic.Function.Basic
import Mathlib.Order.Defs.Unbundled

namespace Erllama.Lib

/-!
# Sequential programs that run side by side

A sequential program is a tree of actions: it stops with a result, or it performs an action
and goes on with the answer.  Many such programs share one state; each step performs the next
action of one of them, and between two steps of a program the others may have moved.

* `Prog` — programs, with `do` notation; `Prog.perform` is one action.
* `Prog.All`, `Prog.Returns` — every action the program can ever perform, and every result,
  meets a predicate.
* `Prog.exec` — the program run without interference; `Prog.Ensures` — what holds at its end.
* `Safe` — rely and guarantee: at every state the others may leave, the program's next action
  keeps the invariant and disturbs the others only as they expect.
* `PoolSafe` — the invariant rule for many programs: one of them moves (`PoolSafe.act`),
  something outside moves (`PoolSafe.outside`), a program starts (`PoolSafe.spawn`) or dies
  (`PoolSafe.drop`).
-/

/-- A sequential program over actions `A` that are answered with `R a`. -/
inductive Prog (A : Type) (R : A → Type) (β : Type) where
  | ret (b : β)
  | act (a : A) (k : R a → Prog A R β)

variable {A : Type} {R : A → Type} {β γ : Type}

namespace Prog

/-- Continue with the result. -/
protected def bind : Prog A R β → (β → Prog A R γ) → Prog A R γ
  | .ret b, f   => f b
  | .act a k, f => .act a fun r => (k r).bind f

instance : Monad (Prog A R) where
  pure := .ret
  bind := Prog.bind

/-- Perform one action and stop with its answer. -/
def perform (a : A) : Prog A R (R a) := .act a .ret

/-- Nothing, and then the rest. -/
@[simp] theorem ret_bind (b : β) (f : β → Prog A R γ) : (Prog.ret b >>= f) = f b := rfl

/-- A value, and then the rest. -/
@[simp] theorem pure_bind (b : β) (f : β → Prog A R γ) : ((pure b : Prog A R β) >>= f) = f b :=
  rfl

/-- One act, and then the rest. -/
@[simp] theorem act_bind (a : A) (k : R a → Prog A R β) (f : β → Prog A R γ) :
    (Prog.act a k >>= f) = .act a fun r => k r >>= f := rfl

/-- An act and what follows on its answer. -/
@[simp] theorem perform_bind (a : A) (f : R a → Prog A R γ) : (perform a >>= f) = .act a f := rfl

/-! ### What a program may do -/

/-- Every action the program can perform, whatever it is answered, meets `P`. -/
def All (P : A → Prop) : Prog A R β → Prop
  | .ret _   => True
  | .act a k => P a ∧ ∀ r, (k r).All P

/-- Every act of one program after another. -/
theorem All.bind {P : A → Prop} {p : Prog A R β} {f : β → Prog A R γ} (hp : p.All P)
    (hf : ∀ b, (f b).All P) : (p >>= f).All P := by
  induction p with
  | ret b      => exact hf b
  | act a k ih => exact ⟨hp.1, fun r => ih r (hp.2 r)⟩

/-- A weaker condition on the acts. -/
theorem All.mono {P Q : A → Prop} {p : Prog A R β} (hp : p.All P) (h : ∀ a, P a → Q a) :
    p.All Q := by
  induction p with
  | ret b      => trivial
  | act a k ih => exact ⟨h a hp.1, fun r => ih r (hp.2 r)⟩

/-- Whatever its actions are answered, the program's result meets `Q`. -/
def Returns (Q : β → Prop) : Prog A R β → Prop
  | .ret b   => Q b
  | .act _ k => ∀ r, (k r).Returns Q

/-- The actions of a sequence, given what the first program returns. -/
theorem All.bind_of {P : A → Prop} {Q : β → Prop} {p : Prog A R β} {f : β → Prog A R γ}
    (hp : p.All P) (hq : p.Returns Q) (hf : ∀ b, Q b → (f b).All P) : (p >>= f).All P := by
  induction p with
  | ret b      => exact hf b hq
  | act a k ih => exact ⟨hp.1, fun r => ih r (hp.2 r) (hq r)⟩

/-- The result is the last program's. -/
theorem Returns.bind {Q : γ → Prop} {p : Prog A R β} {f : β → Prog A R γ}
    (hf : ∀ b, (f b).Returns Q) : (p >>= f).Returns Q := by
  induction p with
  | ret b      => exact hf b
  | act a k ih => exact fun r => ih r

/-- The program run without interference; the `n`-th action is answered by `step n`. -/
def exec {σ : Type} (step : Nat → σ → (a : A) → R a × σ) : Nat → Prog A R β → σ → β × σ
  | _, .ret b, s   => (b, s)
  | n, .act a k, s => exec step (n + 1) (k (step n s a).1) (step n s a).2

/-- What holds at the end of a run without interference that starts with the `n`-th action and
    in which each action is answered as `can` allows; `post` is told how many were performed. -/
def Ensures {σ : Type} (can : Nat → σ → (a : A) → R a → σ → Prop) (post : Nat → β → σ → Prop) :
    Nat → Prog A R β → σ → Prop
  | n, .ret b, s   => post n b s
  | n, .act a k, s => ∀ r t, can n s a r t → Ensures can post (n + 1) (k r) t

section Ensures

variable {σ : Type} {can : Nat → σ → (a : A) → R a → σ → Prop} {post : Nat → β → σ → Prop}
  {p : Prog A R β} {n : Nat} {s : σ}

/-- One program after another. -/
theorem Ensures.bind {post' : Nat → γ → σ → Prop} {f : β → Prog A R γ}
    (hp : Ensures can post n p s) (hf : ∀ m b t, post m b t → Ensures can post' m (f b) t) :
    Ensures can post' n (p >>= f) s := by
  induction p generalizing n s with
  | ret b      => exact hf n b s hp
  | act a k ih => exact fun r t hc => ih r (hp r t hc)

/-- A weaker postcondition. -/
theorem Ensures.mono {post' : Nat → β → σ → Prop} (hp : Ensures can post n p s)
    (h : ∀ m b t, post m b t → post' m b t) : Ensures can post' n p s := by
  induction p generalizing n s with
  | ret b      => exact h n b s hp
  | act a k ih => exact fun r t hc => ih r (hp r t hc)

/-- What is ensured holds of the run itself. -/
theorem Ensures.exec {step : Nat → σ → (a : A) → R a × σ} (hp : Ensures can post n p s)
    (hstep : ∀ n s a, can n s a (step n s a).1 (step n s a).2) :
    ∃ m, post m (p.exec step n s).1 (p.exec step n s).2 := by
  induction p generalizing n s with
  | ret b      => exact ⟨n, hp⟩
  | act a k ih => exact ih _ (hp _ _ (hstep n s a))

end Ensures

end Prog

/-! ### Rely and guarantee -/

section Safe

variable {σ ι : Type} (valid : σ → Prop) (rely : ι → σ → σ → Prop)
  (can : σ → (a : A) → R a → σ → Prop)

/-- Program `i` is safe at a state: whatever the others do that `rely i` allows, its next
    action keeps the state valid and is allowed by what every other program relies on; when
    it stops, its result meets `post`. -/
def Safe (i : ι) (post : β → σ → Prop) : Prog A R β → σ → Prop
  | .ret b, s   => ∀ s', rely i s s' → valid s' → post b s'
  | .act a k, s => ∀ s' r t, rely i s s' → valid s' → can s' a r t →
      valid t ∧ (∀ j, j ≠ i → rely j s' t) ∧ Safe i post (k r) t

variable {valid rely can} {i : ι} {post : β → σ → Prop} {p : Prog A R β} {s s' : σ}

/-- A program that is safe here is safe after the others went on. -/
theorem Safe.mono (htrans : ∀ s s' t, rely i s s' → rely i s' t → rely i s t)
    (h : Safe valid rely can i post p s) (hrely : rely i s s') :
    Safe valid rely can i post p s' := by
  cases p with
  | ret b   => exact fun t ht hv => h t (htrans _ _ _ hrely ht) hv
  | act a k => exact fun t r t' ht hv hc => h t r t' (htrans _ _ _ hrely ht) hv hc

/-- Safety under an assertion that the others keep. -/
theorem Safe.act_of {a : A} {k : R a → Prog A R β} {P : σ → Prop}
    (hstable : ∀ s s', P s → rely i s s' → valid s' → P s') (hs : P s)
    (h : ∀ s r t, valid s → P s → can s a r t →
      valid t ∧ (∀ j, j ≠ i → rely j s t) ∧ Safe valid rely can i post (k r) t) :
    Safe valid rely can i post (.act a k) s :=
  fun s' r t hrely hv hc => h s' r t hv (hstable s s' hs hrely hv) hc

/-- **Sequencing.** What the first program leaves is where the second starts. -/
theorem Safe.bind {post' : γ → σ → Prop} {f : β → Prog A R γ}
    (hrefl : ∀ s, rely i s s) (hv : valid s) (hp : Safe valid rely can i post p s)
    (hf : ∀ b s, valid s → post b s → Safe valid rely can i post' (f b) s) :
    Safe valid rely can i post' (p >>= f) s := by
  induction p generalizing s with
  | ret b => exact hf b s hv (hp s (hrefl s) hv)
  | act a k ih =>
    intro s' r t hrely hv' hc
    obtain ⟨hvt, hguar, hnext⟩ := hp s' r t hrely hv' hc
    exact ⟨hvt, hguar, ih r hvt hnext⟩

/-! ### Many programs -/

variable (valid rely can) in
/-- The state is valid and every running program is safe at it. -/
def PoolSafe (post : β → σ → Prop) (s : σ) (ps : ι → Option (Prog A R β)) : Prop :=
  valid s ∧ ∀ i p, ps i = some p → Safe valid rely can i post p s

variable {ps : ι → Option (Prog A R β)}

/-- Something outside the programs moves. -/
theorem PoolSafe.outside (htrans : ∀ i s s' t, rely i s s' → rely i s' t → rely i s t)
    (h : PoolSafe valid rely can post s ps) (hv : valid s') (hrely : ∀ i, rely i s s') :
    PoolSafe valid rely can post s' ps :=
  ⟨hv, fun i p hp => (h.2 i p hp).mono (htrans i) (hrely i)⟩

variable [DecidableEq ι]

/-- One program performs its next action. -/
theorem PoolSafe.act (htrans : ∀ i s s' t, rely i s s' → rely i s' t → rely i s t)
    (hrefl : ∀ i s, rely i s s) (h : PoolSafe valid rely can post s ps) {a : A}
    {k : R a → Prog A R β} {r : R a} (hp : ps i = some (.act a k)) (hc : can s a r s') :
    PoolSafe valid rely can post s' (Function.update ps i (some (k r))) := by
  obtain ⟨hv, hguar, hnext⟩ := h.2 i _ hp s r s' (hrefl i s) h.1 hc
  refine ⟨hv, fun j q hq => ?_⟩
  by_cases hj : j = i
  · subst hj
    rw [Function.update_self] at hq
    cases hq
    exact hnext
  · rw [Function.update_of_ne hj] at hq
    exact (h.2 j q hq).mono (htrans j) (hguar j hj)

/-- A program starts. -/
theorem PoolSafe.spawn (h : PoolSafe valid rely can post s ps)
    (hp : Safe valid rely can i post p s) :
    PoolSafe valid rely can post s (Function.update ps i (some p)) := by
  refine ⟨h.1, fun j q hq => ?_⟩
  by_cases hj : j = i
  · subst hj
    rw [Function.update_self] at hq
    cases hq
    exact hp
  · rw [Function.update_of_ne hj] at hq
    exact h.2 j q hq

/-- A program dies. -/
theorem PoolSafe.drop (h : PoolSafe valid rely can post s ps) (i : ι) :
    PoolSafe valid rely can post s (Function.update ps i none) := by
  refine ⟨h.1, fun j q hq => ?_⟩
  by_cases hj : j = i
  · subst hj
    rw [Function.update_self] at hq
    cases hq
  · rw [Function.update_of_ne hj] at hq
    exact h.2 j q hq

end Safe

end Erllama.Lib
