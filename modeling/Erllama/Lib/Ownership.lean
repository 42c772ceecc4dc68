import Erllama.Lib.Prog
import Mathlib.Algebra.Order.Group.Multiset

namespace Erllama.Lib.Ownership

/-!
# Programs that own what they allocate

A program makes objects, frees them, copies them and hands one over to another.  Each of its
actions may fail, and the program goes on with the failure; a schedule says which ones do.  The
store remembers whether an object that is not there was ever used, or one was misused.

* `Store`, `Act`, `Store.perform` — the objects, the actions, and one action under a schedule.
* `Holds` — the store is sound and its objects are exactly those of a multiset.
* `OwnsIf` — from such a store the program ends in another, under every schedule or under the
  one without failures.  The objects that it does not touch are part of both multisets.
* `OwnsIf.alloc`, `OwnsIf.free`, …, `OwnsIf.bind` — its rules, one for each action.
* `Owns` — the same under every schedule.
-/

/-- The name of an object. -/
abbrev Loc := Nat

/-- The objects that were made and not freed, and whether only such objects were used. -/
structure Store (O : Type) where
  next : Loc
  live : List (Loc × O)
  sound : Bool

variable {O β γ : Type}

/-- What a program does with its objects. -/
inductive Act (O : Type) where
  /-- Make an object. -/
  | alloc (o : O)
  /-- Free one. -/
  | free (l : Loc)
  /-- Make another one from it. -/
  | copy (l : Loc) (f : O → O)
  /-- `l` takes `l'` over. -/
  | absorb (l l' : Loc) (f : O → O → O)
  /-- Change one; `none` is a change that the object is not made for. -/
  | alter (l : Loc) (f : O → Option O)
  /-- The same, where it cannot fail. -/
  | write (l : Loc) (f : O → Option O)
  /-- Look at one. -/
  | read (l : Loc)
  /-- Something else that may fail. -/
  | test

/-- What an action is answered: the new object, whether it worked, or what was read. -/
abbrev Answer : Act O → Type
  | .alloc _ | .copy ..            => Option Loc
  | .free _ | .write ..            => Unit
  | .absorb .. | .alter .. | .test => Bool
  | .read _                        => Option O

/-- A program over objects. -/
abbrev Owner (O β : Type) := Prog (Act O) (@Answer O) β

/-- One action. -/
def perform (a : Act O) : Owner O (Answer a) := Prog.perform a

/-- An act and what follows on its answer. -/
@[simp] theorem perform_bind (a : Act O) (f : Answer a → Owner O β) :
    (perform a >>= f) = .act a f := rfl

/-- Nothing was made yet. -/
def Store.init : Store O := ⟨0, [], true⟩

/-- The object of a name. -/
def Store.get (s : Store O) (l : Loc) : Option O := s.live.lookup l

/-- A new object. -/
def Store.push (s : Store O) (o : O) : Store O :=
  { s with next := s.next + 1, live := (s.next, o) :: s.live }

/-- The object is gone. -/
def Store.drop (s : Store O) (l : Loc) : Store O :=
  { s with live := s.live.filter fun x => x.1 ≠ l }

/-- Another object under its name. -/
def Store.put (s : Store O) (l : Loc) (o : O) : Store O :=
  { s with live := (l, o) :: s.live.filter fun x => x.1 ≠ l }

/-- An object was used that is not there, or in a way that it is not made for. -/
def Store.misuse (s : Store O) : Store O := { s with sound := false }

/-- One action, which fails if the schedule says so. -/
def Store.perform (fails : Nat → Bool) (n : Nat) (s : Store O) : (a : Act O) → Answer a × Store O
  | .alloc o => if fails n then (none, s) else (some s.next, s.push o)
  | .free l =>
    match s.get l with
    | none   => ((), s.misuse)
    | some _ => ((), s.drop l)
  | .copy l f =>
    match s.get l with
    | none   => (none, s.misuse)
    | some o => if fails n then (none, s) else (some s.next, s.push (f o))
  | .absorb l l' f =>
    match s.get l, s.get l' with
    | some o, some o' => if fails n then (false, s) else (true, (s.drop l').put l (f o o'))
    | _, _            => (false, s.misuse)
  | .alter l f =>
    match (s.get l).bind f with
    | none   => (false, s.misuse)
    | some o => if fails n then (false, s) else (true, s.put l o)
  | .write l f =>
    match (s.get l).bind f with
    | none   => ((), s.misuse)
    | some o => ((), s.put l o)
  | .read l =>
    match s.get l with
    | none   => (none, s.misuse)
    | some o => (some o, s)
  | .test => (!fails n, s)

/-! ### The objects of a store -/

/-- Only objects that are there were used, and the objects are these. -/
structure Holds (s : Store O) (m : Multiset (Loc × O)) : Prop where
  sound : s.sound = true
  live : (s.live : Multiset (Loc × O)) = m
  unique : (s.live.map Prod.fst).Nodup
  fresh : ∀ x ∈ s.live, x.1 < s.next

variable {s : Store O} {m : Multiset (Loc × O)} {l l' : Loc} {o o' : O}

/-- A new store holds nothing. -/
theorem Holds.init : Holds (Store.init : Store O) 0 :=
  ⟨rfl, rfl, List.nodup_nil, nofun⟩

/-- Unique names determine their objects. -/
theorem lookup_of_perm {live : List (Loc × O)} (hu : (live.map Prod.fst).Nodup)
    (h : (l, o) ∈ live) : live.lookup l = some o := by
  induction live with
  | nil => cases h
  | cons x live ih =>
    rw [List.map_cons, List.nodup_cons] at hu
    rw [List.lookup_cons]
    rcases List.mem_cons.mp h with rfl | h
    · rw [beq_self_eq_true]
    · have hne : l ≠ x.1 := fun heq => hu.1 (List.mem_map.mpr ⟨(l, o), h, heq⟩)
      rw [beq_eq_false_iff_ne.mpr hne]
      exact ih hu.2 h

/-- Without the object of a name, the others are left. -/
theorem filter_of_perm {live rest : List (Loc × O)} (h : live.Perm ((l, o) :: rest))
    (hu : (live.map Prod.fst).Nodup) : (live.filter fun x => x.1 ≠ l).Perm rest := by
  have hu' : (((l, o) :: rest).map Prod.fst).Nodup := (h.map Prod.fst).nodup_iff.mp hu
  rw [List.map_cons, List.nodup_cons] at hu'
  have hrest : rest.filter (fun x => x.1 ≠ l) = rest := by
    refine List.filter_eq_self.mpr fun x hx => decide_eq_true fun heq => hu'.1 ?_
    exact List.mem_map.mpr ⟨x, hx, heq⟩
  have hfilter := h.filter fun x => decide (x.1 ≠ l)
  rw [List.filter_cons_of_neg (by simp), hrest] at hfilter
  exact hfilter

/-- What is held at a location is there. -/
theorem Holds.get (h : Holds s ((l, o) ::ₘ m)) : s.get l = some o := by
  refine lookup_of_perm h.unique ?_
  rw [← Multiset.mem_coe, h.live]
  exact Multiset.mem_cons_self _ _

/-- So is every object that is held. -/
theorem Holds.get_of_mem (h : Holds s m) (hmem : (l, o) ∈ m) : s.get l = some o := by
  obtain ⟨m, rfl⟩ := Multiset.exists_cons_of_mem hmem
  exact h.get

/-- A new object is held at the next location. -/
theorem Holds.push (h : Holds s m) : Holds (s.push o) ((s.next, o) ::ₘ m) := by
  refine ⟨h.sound, ?_, ?_, ?_⟩
  · rw [← h.live]
    rfl
  · refine List.nodup_cons.mpr ⟨fun hmem => ?_, h.unique⟩
    obtain ⟨x, hx, heq⟩ := List.mem_map.mp hmem
    exact absurd (h.fresh x hx) (heq ▸ lt_irrefl _)
  · intro x hx
    rcases List.mem_cons.mp hx with rfl | hx
    · exact Nat.lt_succ_self _
    · exact Nat.lt_succ_of_lt (h.fresh x hx)

/-- A freed object is not held any more. -/
theorem Holds.drop (h : Holds s ((l, o) ::ₘ m)) : Holds (s.drop l) m := by
  obtain ⟨rest, rfl⟩ := Quot.exists_rep m
  have hperm : s.live.Perm ((l, o) :: rest) := Multiset.coe_eq_coe.mp h.live
  refine ⟨h.sound, ?_, ?_, fun x hx => h.fresh x (List.mem_of_mem_filter hx)⟩
  · exact Multiset.coe_eq_coe.mpr (filter_of_perm hperm h.unique)
  · exact h.unique.sublist ((List.filter_sublist).map _)

/-- A changed object is held as it was changed. -/
theorem Holds.put (h : Holds s ((l, o) ::ₘ m)) : Holds (s.put l o') ((l, o') ::ₘ m) := by
  have hd := h.drop
  have hl : l < s.next := by
    refine h.fresh (l, o) ?_
    rw [← Multiset.mem_coe, h.live]
    exact Multiset.mem_cons_self _ _
  refine ⟨hd.sound, ?_, ?_, ?_⟩
  · rw [← hd.live]
    rfl
  · refine List.nodup_cons.mpr ⟨fun hmem => ?_, hd.unique⟩
    obtain ⟨x, hx, heq⟩ := List.mem_map.mp hmem
    exact of_decide_eq_true (List.mem_filter.mp hx).2 heq
  · intro x hx
    rcases List.mem_cons.mp hx with rfl | hx
    · exact hl
    · exact hd.fresh x hx

/-! ### What a program owns -/

/-- If something may fail, then whatever fails, and else if nothing does: the program uses only
    objects that are there, and it ends with objects that `Q` relates to its result. -/
def OwnsIf (may : Prop) (m : Multiset (Loc × O)) (p : Owner O β)
    (Q : β → Multiset (Loc × O) → Prop) : Prop :=
  ∀ fails : Nat → Bool, (¬ may → ∀ n, fails n = false) → ∀ n s, Holds s m →
    ∃ m', Holds (p.exec (Store.perform fails) n s).2 m' ∧ Q (p.exec (Store.perform fails) n s).1 m'

variable {may : Prop} {Q : β → Multiset (Loc × O) → Prop}

namespace OwnsIf

/-- The end of a program. -/
theorem ret {b : β} (h : Q b m) : OwnsIf may m (.ret b) Q := fun _ _ _ _ hs => ⟨m, hs, h⟩

/-- The first action, and the program after it. -/
theorem act {a : Act O} {k : Answer a → Owner O β}
    (h : ∀ fails : Nat → Bool, (¬ may → ∀ n, fails n = false) → ∀ n s, Holds s m →
      ∃ m', Holds (Store.perform fails n s a).2 m' ∧
        OwnsIf may m' (k (Store.perform fails n s a).1) Q) : OwnsIf may m (.act a k) Q := by
  intro fails hf n s hs
  obtain ⟨m', hs', hk⟩ := h fails hf n s hs
  exact hk fails hf (n + 1) _ hs'

/-- What fails may fail. -/
theorem may_of {fails : Nat → Bool} {n : Nat} (hf : ¬ may → ∀ n, fails n = false)
    (h : fails n = true) : may := by
  by_contra hmay
  rw [hf hmay n] at h
  exact Bool.false_ne_true h

/-- Making an object, which may fail. -/
theorem alloc {k : Option Loc → Owner O β} (hfail : may → OwnsIf may m (k none) Q)
    (hmade : ∀ l, OwnsIf may ((l, o) ::ₘ m) (k (some l)) Q) :
    OwnsIf may m (.act (.alloc o) k) Q := by
  refine act fun fails hmay n s hs => ?_
  dsimp only [Store.perform]
  by_cases hf : fails n = true
  · rw [if_pos hf]
    exact ⟨m, hs, hfail (may_of hmay hf)⟩
  · rw [if_neg hf]
    exact ⟨_, hs.push, hmade _⟩

/-- Freeing an object that is held. -/
theorem free {k : Unit → Owner O β} (h : OwnsIf may m (k ()) Q) :
    OwnsIf may ((l, o) ::ₘ m) (.act (.free l) k) Q := by
  refine act fun fails hmay n s hs => ?_
  dsimp only [Store.perform]
  rw [hs.get]
  exact ⟨m, hs.drop, h⟩

/-- Copying an object, which may fail. -/
theorem copy {f : O → O} {k : Option Loc → Owner O β}
    (hfail : may → OwnsIf may ((l, o) ::ₘ m) (k none) Q)
    (hmade : ∀ l', OwnsIf may ((l', f o) ::ₘ (l, o) ::ₘ m) (k (some l')) Q) :
    OwnsIf may ((l, o) ::ₘ m) (.act (.copy l f) k) Q := by
  refine act fun fails hmay n s hs => ?_
  dsimp only [Store.perform]
  rw [hs.get]
  dsimp only
  by_cases hf : fails n = true
  · rw [if_pos hf]
    exact ⟨_, hs, hfail (may_of hmay hf)⟩
  · rw [if_neg hf]
    exact ⟨_, hs.push, hmade _⟩

/-- Handing an object over to another one, which may refuse it. -/
theorem absorb {f : O → O → O} {k : Bool → Owner O β}
    (hfail : may → OwnsIf may ((l', o') ::ₘ (l, o) ::ₘ m) (k false) Q)
    (hdone : OwnsIf may ((l, f o o') ::ₘ m) (k true) Q) :
    OwnsIf may ((l', o') ::ₘ (l, o) ::ₘ m) (.act (.absorb l l' f) k) Q := by
  refine act fun fails hmay n s hs => ?_
  have hswap : Holds s ((l, o) ::ₘ (l', o') ::ₘ m) := Multiset.cons_swap (l, o) (l', o') m ▸ hs
  dsimp only [Store.perform]
  rw [hs.get, hswap.get]
  dsimp only
  by_cases hf : fails n = true
  · rw [if_pos hf]
    exact ⟨_, hs, hfail (may_of hmay hf)⟩
  · rw [if_neg hf]
    exact ⟨_, hs.drop.put, hdone⟩

/-- Changing an object in a way that may fail. -/
theorem alter {f : O → Option O} {k : Bool → Owner O β} (ho : f o = some o')
    (hfail : may → OwnsIf may ((l, o) ::ₘ m) (k false) Q)
    (hdone : OwnsIf may ((l, o') ::ₘ m) (k true) Q) :
    OwnsIf may ((l, o) ::ₘ m) (.act (.alter l f) k) Q := by
  refine act fun fails hmay n s hs => ?_
  dsimp only [Store.perform]
  rw [hs.get, Option.bind_some, ho]
  dsimp only
  by_cases hf : fails n = true
  · rw [if_pos hf]
    exact ⟨_, hs, hfail (may_of hmay hf)⟩
  · rw [if_neg hf]
    exact ⟨_, hs.put, hdone⟩

/-- Changing an object in a way that cannot fail. -/
theorem write {f : O → Option O} {k : Unit → Owner O β} (ho : f o = some o')
    (h : OwnsIf may ((l, o') ::ₘ m) (k ()) Q) :
    OwnsIf may ((l, o) ::ₘ m) (.act (.write l f) k) Q := by
  refine act fun fails hmay n s hs => ?_
  dsimp only [Store.perform]
  rw [hs.get, Option.bind_some, ho]
  exact ⟨_, hs.put, h⟩

/-- Reading an object that is held. -/
theorem read {k : Option O → Owner O β} (h : OwnsIf may ((l, o) ::ₘ m) (k (some o)) Q) :
    OwnsIf may ((l, o) ::ₘ m) (.act (.read l) k) Q := by
  refine act fun fails hmay n s hs => ?_
  dsimp only [Store.perform]
  rw [hs.get]
  exact ⟨_, hs, h⟩

/-- Asking for what may fail. -/
theorem test {k : Bool → Owner O β} (hfail : may → OwnsIf may m (k false) Q)
    (hdone : OwnsIf may m (k true) Q) : OwnsIf may m (.act .test k) Q := by
  refine act fun fails hmay n s hs => ⟨m, hs, ?_⟩
  dsimp only [Store.perform]
  cases hf : fails n with
  | true  => exact hfail (may_of hmay hf)
  | false => exact hdone

end OwnsIf

/-- A sequence of programs is run one after the other, the second at some later action. -/
theorem exec_bind {A : Type} {R : A → Type} {σ : Type} (step : Nat → σ → (a : A) → R a × σ)
    (p : Prog A R β) (f : β → Prog A R γ) (n : Nat) (s : σ) :
    ∃ n', (p >>= f).exec step n s = (f (p.exec step n s).1).exec step n' (p.exec step n s).2 := by
  induction p generalizing n s with
  | ret b      => exact ⟨n, rfl⟩
  | act a k ih => exact ih _ (n + 1) _

namespace OwnsIf

/-- **Sequencing.** -/
theorem bind {p : Owner O β} {f : β → Owner O γ} {Q' : γ → Multiset (Loc × O) → Prop}
    (hp : OwnsIf may m p Q) (hf : ∀ b m', Q b m' → OwnsIf may m' (f b) Q') :
    OwnsIf may m (p >>= f) Q' := by
  intro fails hmay n s hs
  obtain ⟨m', hs', hq⟩ := hp fails hmay n s hs
  obtain ⟨n', hexec⟩ := exec_bind (Store.perform fails) p f n s
  rw [hexec]
  exact hf _ m' hq fails hmay n' _ hs'

/-- A weaker postcondition. -/
theorem mono {p : Owner O β} {Q' : β → Multiset (Loc × O) → Prop} (hp : OwnsIf may m p Q)
    (h : ∀ b m', Q b m' → Q' b m') : OwnsIf may m p Q' := by
  intro fails hmay n s hs
  obtain ⟨m', hs', hq⟩ := hp fails hmay n s hs
  exact ⟨m', hs', h _ m' hq⟩

/-- Another order of the objects. -/
theorem of_eq {m' : Multiset (Loc × O)} {p : Owner O β} (h : OwnsIf may m p Q) (heq : m' = m) :
    OwnsIf may m' p Q := heq ▸ h

end OwnsIf

/-- The same whatever fails. -/
abbrev Owns (m : Multiset (Loc × O)) (p : Owner O β) (Q : β → Multiset (Loc × O) → Prop) : Prop :=
  OwnsIf True m p Q

namespace Owns

/-- The end of a program. -/
theorem ret {b : β} (h : Q b m) : Owns m (.ret b) Q := OwnsIf.ret h

/-- Making an object, which may fail. -/
theorem alloc {k : Option Loc → Owner O β} (hfail : Owns m (k none) Q)
    (hmade : ∀ l, Owns ((l, o) ::ₘ m) (k (some l)) Q) : Owns m (.act (.alloc o) k) Q :=
  OwnsIf.alloc (fun _ => hfail) hmade

/-- Freeing an object that is held. -/
theorem free {k : Unit → Owner O β} (h : Owns m (k ()) Q) :
    Owns ((l, o) ::ₘ m) (.act (.free l) k) Q := OwnsIf.free h

/-- Copying an object, which may fail. -/
theorem copy {f : O → O} {k : Option Loc → Owner O β} (hfail : Owns ((l, o) ::ₘ m) (k none) Q)
    (hmade : ∀ l', Owns ((l', f o) ::ₘ (l, o) ::ₘ m) (k (some l')) Q) :
    Owns ((l, o) ::ₘ m) (.act (.copy l f) k) Q := OwnsIf.copy (fun _ => hfail) hmade

/-- Handing an object over to another one, which may refuse it. -/
theorem absorb {f : O → O → O} {k : Bool → Owner O β}
    (hfail : Owns ((l', o') ::ₘ (l, o) ::ₘ m) (k false) Q)
    (hdone : Owns ((l, f o o') ::ₘ m) (k true) Q) :
    Owns ((l', o') ::ₘ (l, o) ::ₘ m) (.act (.absorb l l' f) k) Q :=
  OwnsIf.absorb (fun _ => hfail) hdone

/-- Changing an object in a way that may fail. -/
theorem alter {f : O → Option O} {k : Bool → Owner O β} (ho : f o = some o')
    (hfail : Owns ((l, o) ::ₘ m) (k false) Q) (hdone : Owns ((l, o') ::ₘ m) (k true) Q) :
    Owns ((l, o) ::ₘ m) (.act (.alter l f) k) Q := OwnsIf.alter ho (fun _ => hfail) hdone

/-- One program after another. -/
theorem bind {p : Owner O β} {f : β → Owner O γ} {Q' : γ → Multiset (Loc × O) → Prop}
    (hp : Owns m p Q) (hf : ∀ b m', Q b m' → Owns m' (f b) Q') : Owns m (p >>= f) Q' :=
  OwnsIf.bind hp hf

/-- A weaker postcondition. -/
theorem mono {p : Owner O β} {Q' : β → Multiset (Loc × O) → Prop} (hp : Owns m p Q)
    (h : ∀ b m', Q b m' → Q' b m') : Owns m p Q' := OwnsIf.mono hp h

/-- The same objects under another name. -/
theorem of_eq {m' : Multiset (Loc × O)} {p : Owner O β} (h : Owns m p Q) (heq : m' = m) :
    Owns m' p Q := OwnsIf.of_eq h heq

/-- Whatever fails, from an empty store. -/
theorem exec {p : Owner O β} (hp : Owns 0 p Q) (fails : Nat → Bool) :
    ∃ m, Holds (p.exec (Store.perform fails) 0 Store.init).2 m ∧
      Q (p.exec (Store.perform fails) 0 Store.init).1 m :=
  hp fails (fun h => absurd trivial h) 0 Store.init Holds.init

end Owns

end Erllama.Lib.Ownership
