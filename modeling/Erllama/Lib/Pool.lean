import Mathlib.Data.List.Nodup
import Mathlib.Logic.Function.Basic
import Mathlib.Logic.Relation

namespace Erllama.Lib

/-!
# A pool of slots

A slot is idle, busy, or pinned under a key; a busy slot may be pinned at the same time, under
the key its holder carries.

* `Pool` — the idle list, the holders' keys, and the pins.
* `Pool.Step` — the ways slots change hands, with a side condition `C` on overwriting a pin.
* `Pool.Sound` — no slot is in two places that exclude each other; every step keeps it.
* `Pool.Conserved` — every slot is in exactly one place; the steps that keep it are those
  that overwrite no pin of an unused slot.
* `Pool.Lost` — a slot in no place stays there.
* `Pool.Stocked` — some slot is in some place; every step leaves one.
-/

variable {ι κ : Type*}

/-- Who holds which slot. -/
structure Pool (ι κ : Type*) where
  idle : List ι
  busy : ι → Option (Option κ)
  pinned : κ → Option ι

/-- All slots idle. -/
def Pool.full (slots : List ι) : Pool ι κ := ⟨slots, fun _ => none, fun _ => none⟩

/-- No pin of a slot that nobody uses would be overwritten by pinning `i` under `k`. -/
def Pool.PinSafe (p : Pool ι κ) (k : κ) (i : ι) : Prop :=
  ∀ j, p.pinned k = some j → j = i ∨ p.busy j ≠ none

variable [DecidableEq ι] [DecidableEq κ]

/-- Slots change hands.  `C` is the condition under which a holder may pin its slot. -/
inductive Pool.Step (C : Pool ι κ → κ → ι → Prop) : Pool ι κ → Pool ι κ → Prop
  | take {p i rest} (k : Option κ) (h : p.idle = i :: rest) :
    Step C p { p with idle := rest, busy := Function.update p.busy i (some k) }
  | resume {p i k} (hk : p.pinned k = some i) (hi : p.busy i = none) :
    Step C p { p with busy := Function.update p.busy i (some (some k)) }
  | release {p i} (h : p.busy i = some none) :
    Step C p { p with idle := i :: p.idle, busy := Function.update p.busy i none }
  | pin {p i k} (h : p.busy i = some (some k)) (hC : C p k i) :
    Step C p { p with
      busy := Function.update p.busy i none
      pinned := Function.update p.pinned k (some i) }
  | unpin {p i k} (h : p.pinned k = some i) :
    Step C p
      { idle := i :: p.idle
        busy := Function.update p.busy i none
        pinned := Function.update p.pinned k none }
  | pinIdle {p i rest k} (h : p.idle = i :: rest) (hk : p.pinned k = none) :
    Step C p { p with idle := rest, pinned := Function.update p.pinned k (some i) }

/-- Every slot mentioned is one of `slots`, no slot is in two places that exclude each other,
    and the holder of a pinned slot carries the pin's key. -/
structure Pool.Sound (slots : List ι) (p : Pool ι κ) : Prop where
  idle_nodup : p.idle.Nodup
  idle_mem : ∀ i ∈ p.idle, i ∈ slots
  idle_free : ∀ i ∈ p.idle, p.busy i = none
  idle_unpinned : ∀ i ∈ p.idle, ∀ k, p.pinned k ≠ some i
  busy_mem : ∀ i, p.busy i ≠ none → i ∈ slots
  pinned_mem : ∀ k i, p.pinned k = some i → i ∈ slots
  pinned_inj : ∀ k k' i, p.pinned k = some i → p.pinned k' = some i → k = k'
  pinned_holder : ∀ k i k', p.pinned k = some i → p.busy i = some k' → k' = some k

variable {C : Pool ι κ → κ → ι → Prop} {slots : List ι} {p p' : Pool ι κ}

omit [DecidableEq ι] [DecidableEq κ] in
/-- The full pool is sound. -/
theorem Pool.sound_full (h : slots.Nodup) : (Pool.full slots : Pool ι κ).Sound slots where
  idle_nodup := h
  idle_mem := fun _ hi => hi
  idle_free := fun _ _ => rfl
  idle_unpinned := fun _ _ _ h => nomatch h
  busy_mem := fun _ h => absurd rfl h
  pinned_mem := fun _ _ h => nomatch h
  pinned_inj := fun _ _ _ h => nomatch h
  pinned_holder := fun _ _ _ h => nomatch h

/-- **Steps keep the pool sound.** -/
theorem Pool.Step.sound (h : Pool.Step C p p') (hp : p.Sound slots) : p'.Sound slots := by
  obtain ⟨h1, h2, h3, h4, h5, h6, h7, h8⟩ := hp
  cases h with
  | take k h => constructor <;> grind
  | resume hk hi => constructor <;> grind
  | release h => constructor <;> grind
  | pin h hC => constructor <;> grind
  | unpin h => constructor <;> grind
  | pinIdle h hk => constructor <;> grind

/-! ### Conservation -/

/-- Every slot is accounted for exactly once: idle and nowhere else, or not idle and busy, or
    pinned under exactly one key (and busy or not). -/
def Pool.Conserved (slots : List ι) (p : Pool ι κ) : Prop :=
  ∀ i ∈ slots,
    (p.idle.count i = 1 ∧ p.busy i = none ∧ ∀ k, p.pinned k ≠ some i) ∨
      (i ∉ p.idle ∧
        ((p.busy i ≠ none ∧ ∀ k, p.pinned k ≠ some i) ∨ ∃! k, p.pinned k = some i))

/-- The slot is in no place at all. -/
def Pool.Lost (p : Pool ι κ) (i : ι) : Prop :=
  i ∉ p.idle ∧ p.busy i = none ∧ ∀ k, p.pinned k ≠ some i

omit [DecidableEq κ] in
/-- In a sound pool the only way not to be conserved is to lose a slot. -/
theorem Pool.Sound.conserved_iff (hp : p.Sound slots) :
    p.Conserved slots ↔ ∀ i ∈ slots, ¬ p.Lost i := by
  constructor
  · rintro h i hi ⟨hidle, hbusy, hpinned⟩
    rcases h i hi with ⟨hcount, -, -⟩ | ⟨-, ⟨hb, -⟩ | ⟨k, hk, -⟩⟩
    · rw [List.count_eq_zero.mpr hidle] at hcount
      omega
    · exact hb hbusy
    · exact hpinned k hk
  · intro h i hi
    by_cases hidle : i ∈ p.idle
    · left
      exact ⟨List.count_eq_one_of_mem hp.idle_nodup hidle, hp.idle_free i hidle,
        hp.idle_unpinned i hidle⟩
    · right
      refine ⟨hidle, ?_⟩
      by_cases hpinned : ∃ k, p.pinned k = some i
      · obtain ⟨k, hk⟩ := hpinned
        exact .inr ⟨k, hk, fun k' hk' => hp.pinned_inj k' k i hk' hk⟩
      · have hnone : ∀ k, p.pinned k ≠ some i := fun k hk => hpinned ⟨k, hk⟩
        exact .inl ⟨fun hbusy => h i hi ⟨hidle, hbusy, hnone⟩, hnone⟩

omit [DecidableEq ι] [DecidableEq κ] in
/-- Nothing of it is lost. -/
theorem Pool.not_lost_full {i : ι} (hi : i ∈ slots) : ¬ (Pool.full slots : Pool ι κ).Lost i :=
  fun h => h.1 hi

/-- A slot in no place stays there. -/
theorem Pool.Step.lost (h : Pool.Step C p p') {i : ι} (hi : p.Lost i) : p'.Lost i := by
  obtain ⟨hidle, hbusy, hpinned⟩ := hi
  cases h with
  | take k h => refine ⟨?_, ?_, ?_⟩ <;> grind
  | resume hk hi => refine ⟨?_, ?_, ?_⟩ <;> grind
  | release h => refine ⟨?_, ?_, ?_⟩ <;> grind
  | pin h hC => refine ⟨?_, ?_, ?_⟩ <;> grind
  | unpin h => refine ⟨?_, ?_, ?_⟩ <;> grind
  | pinIdle h hk => refine ⟨?_, ?_, ?_⟩ <;> grind

omit [DecidableEq ι] in
/-- A slot that a map names nowhere after an update is named nowhere else before it. -/
theorem Pool.unnamed_of_update {f : κ → Option ι} {k : κ} {v : Option ι} {i : ι}
    (h : ∀ k', Function.update f k v k' ≠ some i) (hk : f k ≠ some i) (k' : κ) :
    f k' ≠ some i := by
  by_cases heq : k' = k
  · rwa [heq]
  · have hne := h k'
    rwa [Function.update_of_ne heq] at hne

/-- **Conservation.** When no pin of an unused slot is overwritten, no slot is lost. -/
theorem Pool.Step.not_lost (h : Pool.Step Pool.PinSafe p p') {i : ι}
    (hi : ¬ p.Lost i) : ¬ p'.Lost i := by
  rintro ⟨hidle, hbusy, hpinned⟩
  refine hi ?_
  cases h with
  | take k h => refine ⟨?_, ?_, ?_⟩ <;> grind
  | resume hk hi => refine ⟨?_, ?_, ?_⟩ <;> grind
  | release h => refine ⟨?_, ?_, ?_⟩ <;> grind
  | @pin j k h hC =>
    -- `i` is not the slot being pinned, which the new pin names.
    have hij : i ≠ j := by
      rintro rfl
      exact hpinned k (Function.update_self k (some i) p.pinned)
    have hb : p.busy i = none := (Function.update_of_ne hij none p.busy).symm.trans hbusy
    refine ⟨hidle, hb, Pool.unnamed_of_update hpinned ?_⟩
    intro hk
    rcases hC i hk with heq | hne
    · exact hij heq
    · exact hne hb
  | @unpin j k h =>
    have hij : i ≠ j := fun hij => hidle (hij ▸ List.mem_cons_self)
    have hb : p.busy i = none := (Function.update_of_ne hij none p.busy).symm.trans hbusy
    refine ⟨fun h => hidle (List.mem_cons_of_mem j h), hb, Pool.unnamed_of_update hpinned ?_⟩
    intro hk
    exact hij (Option.some.inj (hk.symm.trans h))
  | @pinIdle j rest k h hk =>
    have hij : i ≠ j := by
      rintro rfl
      exact hpinned k (Function.update_self k (some i) p.pinned)
    refine ⟨?_, hbusy, Pool.unnamed_of_update hpinned (by rw [hk]; exact nofun)⟩
    rw [h]
    exact fun hmem => (List.mem_cons.mp hmem).elim hij hidle

/-- Overwriting the pin of an unused slot loses it. -/
theorem Pool.Sound.lost_of_pin (hp : p.Sound slots) {k : κ} {i j : ι}
    (hj : p.pinned k = some j) (hij : j ≠ i) (hbusy : p.busy j = none) :
    Pool.Lost { p with
      busy := Function.update p.busy i none
      pinned := Function.update p.pinned k (some i) } j := by
  refine ⟨fun h => hp.idle_unpinned j h k hj, ?_, ?_⟩
  · show Function.update p.busy i none j = none
    rw [Function.update_of_ne hij, hbusy]
  · intro k' hk'
    replace hk' : Function.update p.pinned k (some i) k' = some j := hk'
    by_cases hk : k' = k
    · subst hk
      rw [Function.update_self] at hk'
      exact hij (Option.some.inj hk').symm
    · rw [Function.update_of_ne hk] at hk'
      exact hk (hp.pinned_inj k' k j hk' hj)

/-! ### Slots in some place -/

/-- Some slot is in some place. -/
def Pool.Stocked (p : Pool ι κ) : Prop :=
  p.idle ≠ [] ∨ (∃ i, p.busy i ≠ none) ∨ ∃ k, p.pinned k ≠ none

omit [DecidableEq ι] [DecidableEq κ] in
/-- It has something, unless there are no slots. -/
theorem Pool.stocked_full (h : slots ≠ []) : (Pool.full slots : Pool ι κ).Stocked := .inl h

/-- Every step puts a slot somewhere. -/
theorem Pool.Step.stocked (h : Pool.Step C p p') : p'.Stocked := by
  cases h with
  | @take i rest k h => exact .inr (.inl ⟨i, by simp⟩)
  | @resume i k hk hi => exact .inr (.inl ⟨i, by simp⟩)
  | release h => exact .inl (List.cons_ne_nil _ _)
  | @pin i k h hC => exact .inr (.inr ⟨k, by simp⟩)
  | unpin h => exact .inl (List.cons_ne_nil _ _)
  | @pinIdle i rest k h hk => exact .inr (.inr ⟨k, by simp⟩)

/-! ### Runs -/

/-- Any number of steps. -/
abbrev Pool.Steps (C : Pool ι κ → κ → ι → Prop) : Pool ι κ → Pool ι κ → Prop :=
  Relation.ReflTransGen (Pool.Step C)

/-- Any number of steps keeps the pool sound. -/
theorem Pool.Steps.sound (h : Pool.Steps C p p') (hp : p.Sound slots) : p'.Sound slots := by
  induction h with
  | refl => exact hp
  | tail _ hstep ih => exact hstep.sound ih

/-- It leaves something. -/
theorem Pool.Steps.stocked (h : Pool.Steps C p p') (hp : p.Stocked) : p'.Stocked := by
  cases h with
  | refl => exact hp
  | tail _ hstep => exact hstep.stocked

/-- What is lost stays so. -/
theorem Pool.Steps.lost (h : Pool.Steps C p p') {i : ι} (hi : p.Lost i) : p'.Lost i := by
  induction h with
  | refl => exact hi
  | tail _ hstep ih => exact hstep.lost ih

/-- Steps that pin safely lose nothing. -/
theorem Pool.Steps.not_lost (h : Pool.Steps Pool.PinSafe p p') {i : ι} (hi : ¬ p.Lost i) :
    ¬ p'.Lost i := by
  induction h with
  | refl => exact hi
  | tail _ hstep ih => exact hstep.not_lost ih

end Erllama.Lib
