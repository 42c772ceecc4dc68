import Erllama.Lib.Prog
import Mathlib.Data.Set.Finite.Lattice
import Mathlib.Data.Finset.Max

namespace Erllama.Lib

/-!
# Locks taken in order

Sequential programs that share locks.  A lock has one owner at a time, and a program that asks
for a lock somebody has must wait.  When every program takes its locks in the order of a rank,
the programs cannot wait for each other in a circle.

* `LockOp` — what an action does to a lock.
* `Prog.Locks` — the program takes locks in the order of their ranks, gives back only what it
  has, and ends with the locks that its result says.
* `Owners.Moves` — the owners before and after an action.
* `Ordered` — every running program keeps to the order from the locks that it has now on.
* `Ordered.acquires` — each lock is taken after all that its program has.
* `Ordered.act`, `Ordered.start`, `Ordered.stop` — this stays so.
* `Ordered.not_stuck` — then some program is not waiting.
-/

/-- What an action does to a lock. -/
inductive LockOp (L : Type*) where
  | acquire (l : L)
  | release (l : L)
  | other

variable {A L ι ρ : Type} {R : A → Type} {β γ : Type} [LinearOrder ρ]
  {rank : L → ρ} {op : A → LockOp L}

variable (rank op) in
/-- From the locks `held` on, the program asks only for locks that rank above all that it has,
    gives back only what it has, and when it stops with `b` it has exactly `post b`. -/
def Prog.Locks (post : β → Set L) : Set L → Prog A R β → Prop
  | held, .ret b   => held = post b
  | held, .act a k =>
    match op a with
    | .acquire l => (∀ h ∈ held, rank h < rank l) ∧ ∀ r, (k r).Locks post (insert l held)
    | .release l => l ∈ held ∧ ∀ r, (k r).Locks post (held \ {l})
    | .other     => ∀ r, (k r).Locks post held

section Rules

variable {post : β → Set L} {held : Set L} {a : A} {l : L} {k : R a → Prog A R β}

/-- An act that takes a lock. -/
theorem Prog.locks_acquire (h : op a = .acquire l) :
    (Prog.act a k).Locks rank op post held ↔
      (∀ x ∈ held, rank x < rank l) ∧ ∀ r, (k r).Locks rank op post (insert l held) := by
  rw [Prog.Locks, h]

/-- An act that gives one back. -/
theorem Prog.locks_release (h : op a = .release l) :
    (Prog.act a k).Locks rank op post held ↔
      l ∈ held ∧ ∀ r, (k r).Locks rank op post (held \ {l}) := by
  rw [Prog.Locks, h]

/-- Any other act. -/
theorem Prog.locks_other (h : op a = .other) :
    (Prog.act a k).Locks rank op post held ↔ ∀ r, (k r).Locks rank op post held := by
  rw [Prog.Locks, h]

/-- **Sequencing.** The second program starts with the locks that the first one ends with. -/
theorem Prog.Locks.bind {post' : γ → Set L} {p : Prog A R β} {f : β → Prog A R γ}
    (hp : p.Locks rank op post held) (hf : ∀ b, (f b).Locks rank op post' (post b)) :
    (p >>= f).Locks rank op post' held := by
  induction p generalizing held with
  | ret b =>
    have hheld : held = post b := hp
    rw [hheld]
    exact hf b
  | act a k ih =>
    rw [Prog.act_bind]
    cases hop : op a with
    | acquire l =>
      rw [locks_acquire hop] at hp ⊢
      exact ⟨hp.1, fun r => ih r (hp.2 r)⟩
    | release l =>
      rw [locks_release hop] at hp ⊢
      exact ⟨hp.1, fun r => ih r (hp.2 r)⟩
    | other =>
      rw [locks_other hop] at hp ⊢
      exact fun r => ih r (hp r)

end Rules

/-! ### Owners -/

/-- Who has which lock. -/
abbrev Owners (L ι : Type) := L → Option ι

/-- The locks that `i` has. -/
def Owners.locksOf (own : Owners L ι) (i : ι) : Set L := { l | own l = some i }

/-- The owners before and after an action of `i`. -/
def Owners.Moves [DecidableEq L] (i : ι) (own own' : Owners L ι) : LockOp L → Prop
  | .acquire l => own l = none ∧ own' = Function.update own l (some i)
  | .release l => own l = some i ∧ own' = Function.update own l none
  | .other     => own' = own

section Moves

variable [DecidableEq L] {own own' : Owners L ι} {i j : ι} {l : L}

/-- Whoever takes a lock holds it. -/
theorem Owners.locksOf_acquire :
    Owners.locksOf (Function.update own l (some i)) i = insert l (own.locksOf i) := by
  ext x
  by_cases hx : x = l
  · subst hx
    simp [locksOf]
  · simp [locksOf, hx]

/-- Whoever gives it back does not. -/
theorem Owners.locksOf_release :
    Owners.locksOf (Function.update own l none) i = own.locksOf i \ {l} := by
  ext x
  by_cases hx : x = l
  · subst hx
    simp [locksOf]
  · simp [locksOf, hx]

/-- An action leaves the others the locks that they have. -/
theorem Owners.Moves.locksOf_of_ne {o : LockOp L} (h : Owners.Moves i own own' o) (hj : j ≠ i) :
    own'.locksOf j = own.locksOf j := by
  ext x
  cases o with
  | acquire l =>
    obtain ⟨hfree, rfl⟩ := h
    by_cases hx : x = l
    · subst hx
      simp [locksOf, hfree, hj.symm]
    · simp [locksOf, hx]
  | release l =>
    obtain ⟨hown, rfl⟩ := h
    by_cases hx : x = l
    · subst hx
      simp [locksOf, hown, hj.symm]
    · simp [locksOf, hx]
  | other =>
    have hsame : own' = own := h
    rw [hsame]

end Moves

/-! ### Many programs -/

variable (rank op) in
/-- Every running program keeps to the order from the locks that it has now on and ends with
    none, what does not run has none, and finitely many run. -/
structure Ordered (own : Owners L ι) (ps : ι → Option (Prog A R β)) : Prop where
  keeps : ∀ i p, ps i = some p → p.Locks rank op (fun _ => ∅) (own.locksOf i)
  free : ∀ i, ps i = none → own.locksOf i = ∅
  finite : { i | ps i ≠ none }.Finite

/-- The program asks for a lock that somebody has. -/
def Waits (op : A → LockOp L) (own : Owners L ι) : Prog A R β → Prop
  | .ret _   => False
  | .act a _ => ∃ l, op a = .acquire l ∧ own l ≠ none

variable {own own' : Owners L ι} {ps : ι → Option (Prog A R β)} {i : ι}

/-- Nothing runs. -/
theorem Ordered.init : Ordered rank op (fun _ => none : Owners L ι)
    (fun _ => none : ι → Option (Prog A R β)) where
  keeps := by
    rintro i p ⟨⟩
  free i _ := by
    ext l
    simp [Owners.locksOf]
  finite := by simp

/-- A program asks for a lock after all that it has. -/
theorem Ordered.acquires (h : Ordered rank op own ps) {a : A} {k : R a → Prog A R β} {l : L}
    (hp : ps i = some (.act a k)) (ha : op a = .acquire l) :
    ∀ x, own x = some i → rank x < rank l := by
  have hlocks := h.keeps i _ hp
  rw [Prog.locks_acquire ha] at hlocks
  exact fun x hx => hlocks.1 x hx

section Steps

variable [DecidableEq ι]

/-- One program performs its next action. -/
theorem Ordered.act [DecidableEq L] (h : Ordered rank op own ps) {a : A} {k : R a → Prog A R β}
    (r : R a) (hp : ps i = some (.act a k)) (hm : Owners.Moves i own own' (op a)) :
    Ordered rank op own' (Function.update ps i (some (k r))) where
  keeps := by
    intro j q hq
    by_cases hj : j = i
    · subst hj
      rw [Function.update_self] at hq
      cases hq
      have hlocks := h.keeps j _ hp
      cases hop : op a with
      | acquire l =>
        rw [hop] at hm
        rw [Prog.locks_acquire hop] at hlocks
        rw [hm.2, Owners.locksOf_acquire]
        exact hlocks.2 r
      | release l =>
        rw [hop] at hm
        rw [Prog.locks_release hop] at hlocks
        rw [hm.2, Owners.locksOf_release]
        exact hlocks.2 r
      | other =>
        rw [hop] at hm
        rw [Prog.locks_other hop] at hlocks
        have hsame : own' = own := hm
        rw [hsame]
        exact hlocks r
    · rw [Function.update_of_ne hj] at hq
      rw [hm.locksOf_of_ne hj]
      exact h.keeps j q hq
  free := by
    intro j hj
    have hji : j ≠ i := by
      rintro rfl
      rw [Function.update_self] at hj
      cases hj
    rw [Function.update_of_ne hji] at hj
    rw [hm.locksOf_of_ne hji]
    exact h.free j hj
  finite := by
    refine h.finite.subset fun j hj => ?_
    by_cases hji : j = i
    · subst hji
      simp [hp]
    · rwa [Set.mem_ofPred_eq, Function.update_of_ne hji] at hj

/-- A program starts. -/
theorem Ordered.start (h : Ordered rank op own ps) (hi : ps i = none) {p : Prog A R β}
    (hp : p.Locks rank op (fun _ => ∅) ∅) :
    Ordered rank op own (Function.update ps i (some p)) where
  keeps := by
    intro j q hq
    by_cases hj : j = i
    · subst hj
      rw [Function.update_self] at hq
      cases hq
      rwa [h.free j hi]
    · rw [Function.update_of_ne hj] at hq
      exact h.keeps j q hq
  free := by
    intro j hj
    have hji : j ≠ i := by
      rintro rfl
      rw [Function.update_self] at hj
      cases hj
    rw [Function.update_of_ne hji] at hj
    exact h.free j hj
  finite := by
    refine (h.finite.insert i).subset fun j hj => ?_
    by_cases hji : j = i
    · exact .inl hji
    · rw [Set.mem_ofPred_eq, Function.update_of_ne hji] at hj
      exact .inr hj

/-- A program that has stopped goes away. -/
theorem Ordered.stop (h : Ordered rank op own ps) {b : β} (hi : ps i = some (.ret b)) :
    Ordered rank op own (Function.update ps i none) where
  keeps := by
    intro j q hq
    have hji : j ≠ i := by
      rintro rfl
      rw [Function.update_self] at hq
      cases hq
    rw [Function.update_of_ne hji] at hq
    exact h.keeps j q hq
  free := by
    intro j hj
    by_cases hji : j = i
    · subst hji
      exact h.keeps j _ hi
    · rw [Function.update_of_ne hji] at hj
      exact h.free j hj
  finite := by
    refine h.finite.subset fun j hj => ?_
    by_cases hji : j = i
    · subst hji
      simp [hi]
    · rwa [Set.mem_ofPred_eq, Function.update_of_ne hji] at hj

end Steps

/-- A waiting program waits for a lock that ranks above all that it has. -/
theorem Ordered.waits (h : Ordered rank op own ps) {p : Prog A R β} (hp : ps i = some p)
    (hw : Waits op own p) : ∃ l, own l ≠ none ∧ ∀ x, own x = some i → rank x < rank l := by
  cases p with
  | ret b => exact hw.elim
  | act a k =>
    obtain ⟨l, hop, hown⟩ := hw
    have hlocks := h.keeps i _ hp
    rw [Prog.locks_acquire hop] at hlocks
    exact ⟨l, hown, hlocks.1⟩

/-- **No deadlock.** While any program runs, some running program is not waiting. -/
theorem Ordered.not_stuck (h : Ordered rank op own ps) (hrun : ∃ i, ps i ≠ none) :
    ∃ i p, ps i = some p ∧ ¬ Waits op own p := by
  by_contra hstuck
  have hwaits : ∀ i, ps i ≠ none → ∃ l, own l ≠ none ∧ ∀ x, own x = some i → rank x < rank l := by
    intro i hi
    obtain ⟨p, hp⟩ := Option.ne_none_iff_exists'.mp hi
    refine h.waits hp ?_
    by_contra hw
    exact hstuck ⟨i, p, hp, hw⟩
  obtain ⟨i₀, hi₀⟩ := hrun
  have hL : Nonempty L := ⟨(hwaits i₀ hi₀).choose⟩
  choose! want hown hbelow using hwaits
  -- One of them waits for a lock of the highest rank; the owner of that lock waits for more.
  obtain ⟨i, hi, hmax⟩ := h.finite.toFinset.exists_max_image (fun i => rank (want i))
    ⟨i₀, h.finite.mem_toFinset.mpr hi₀⟩
  have hi : ps i ≠ none := h.finite.mem_toFinset.mp hi
  obtain ⟨j, hj⟩ := Option.ne_none_iff_exists'.mp (hown i hi)
  have hjrun : ps j ≠ none := by
    intro hnone
    have hmem : want i ∈ own.locksOf j := hj
    rw [h.free j hnone] at hmem
    exact hmem
  have hlt : rank (want i) < rank (want j) := hbelow j hjrun (want i) hj
  exact absurd (hmax j (h.finite.mem_toFinset.mpr hjrun)) (not_le.mpr hlt)

end Erllama.Lib
