import Erllama.Lib.Prog
import Erllama.Loading.Registry

namespace Erllama.Publish.Semaphore

open Lib Loading

/-!
# The writer's semaphore (`erllama_cache_writer`)

At most `max` saves write at a time.  The number of slots that are taken is a counter in a table
that anyone can read; which references took them is a map of the server, which watches every
holder.  The counter goes up before it is compared, and comes down by a decrement that stops at
zero, so the two are kept together by the code alone.

* `Sem`, `Event`, `step` — the server between the processes; another process may act between
  any two of its accesses to the table.
* `Exact` — the counter, the holders, and the history of the slots agree.
* `run_exact` — in every run.
* `save` — what a client does; `save_balanced` — it gives back what it took.
-/

/-! ### The server -/

/-- The `try_acquire` call that the server is in the middle of: what `max_concurrent/0` gave, and
    what `update_counter` gave, once it has.  `held` is the number of holders at its start. -/
structure Acquire where
  pid : Pid
  max : Nat
  held : Nat
  count : Option Nat
deriving DecidableEq

/-- What happened to the slots: a call was taken up; it was answered, with a reference or with
    `busy`; a reference was given back, or its holder was reported dead; a release or a report
    came for a reference that has no slot. -/
inductive Note where
  | asked (pid : Pid)
  | answered (pid : Pid) (held max : Nat) (ref : Option Ref)
  | released (ref : Ref)
  | downed (ref : Ref)
  | stale (ref : Ref)
deriving DecidableEq

/-- The two counters of the table, the state of the server, and the processes. -/
structure Sem where
  running : Nat
  max : Nat
  holders : Table Ref Pid
  procs : Procs Proc
  call : Option Acquire
  log : List Note

/-- `init/1`. -/
def Sem.init (max : Nat) : Sem := ⟨0, max, ∅, .start, none, []⟩

/-- `decr/0`: the counter stops at zero. -/
def decr (s : Sem) : Sem := { s with running := s.running - 1 }

def Sem.note (s : Sem) (n : Note) : Sem := { s with log := s.log ++ [n] }

/-- `set_max_concurrent/1`, by any process; it raises for a maximum that is not positive. -/
def setMaxConcurrent (max : Nat) (s : Sem) : Sem := if 0 < max then { s with max := max } else s

/-- `handle_call({try_acquire, Pid}, ...)`, its first access: the maximum. -/
def tryAcquire (pid : Pid) (s : Sem) : Sem :=
  { s with call := some ⟨pid, s.max, s.holders.card, none⟩ }.note (.asked pid)

/-- Its second access: the counter goes up. -/
def updateCounter (c : Acquire) (s : Sem) : Sem :=
  { s with running := s.running + 1, call := some { c with count := some (s.running + 1) } }

/-- The rest of the call, and its reply. -/
def answer (c : Acquire) (n : Nat) (s : Sem) : Sem :=
  if n ≤ c.max then
    { s with
      procs := s.procs.monitor .server (.client c.pid)
      holders := s.holders.insert s.procs.nextRef c.pid
      call := none }.note (.answered c.pid c.held c.max (some s.procs.nextRef))
  else (decr { s with call := none }).note (.answered c.pid c.held c.max none)

/-- `handle_call({release, Ref}, ...)`. -/
def release (ref : Ref) (s : Sem) : Sem :=
  match s.holders.lookup ref with
  | some _ =>
    (decr { s with
      procs := s.procs.demonitor .server ref
      holders := s.holders.erase ref }).note (.released ref)
  | none   => s.note (.stale ref)

/-- `handle_info({'DOWN', Ref, ...}, S)`. -/
def handleDown (m : Monitor Proc) (s : Sem) : Sem :=
  let s := { s with procs := s.procs.receive m }
  match s.holders.lookup m.ref with
  | some _ => (decr { s with holders := s.holders.erase m.ref }).note (.downed m.ref)
  | none   => s.note (.stale m.ref)

/-- What happens next. -/
inductive Event where
  | tryAcquire (pid : Pid)
  | goOn
  | release (ref : Ref)
  | down (m : Monitor Proc)
  | setMax (max : Nat)
  | exit (pid : Pid)

/-- One step.  The server goes on with the call it is in before it takes up a message: a call by
    anyone, for any reference, or a report that is pending.  Meanwhile the others set the
    maximum, and end. -/
def step (s : Sem) (e : Event) : Sem :=
  match e, s.call with
  | .setMax max, _          => setMaxConcurrent max s
  | .exit pid, _            => { s with procs := s.procs.exit (.client pid) }
  | .goOn, some c           =>
    match c.count with
    | none   => updateCounter c s
    | some n => answer c n s
  | .tryAcquire pid, none   => tryAcquire pid s
  | .release ref, none      => release ref s
  | .down m, none           =>
    if m ∈ s.procs.downs ∧ m.owner = .server then handleDown m s else s
  | _, _                    => s

/-! ### What is exact -/

/-- The reference was handed out. -/
def Note.grants (ref : Ref) : Note → Bool
  | .answered _ _ _ r => r = some ref
  | _                 => false

/-- The slot of the reference was given back, by a release or by a report. -/
def Note.undoes (ref : Ref) : Note → Bool
  | .released r => r = ref
  | .downed r   => r = ref
  | _           => false

def Note.isAsked : Note → Bool
  | .asked _ => true
  | _        => false

def Note.isAnswer : Note → Bool
  | .answered _ _ _ _ => true
  | _                 => false

/-- The semaphore is exact. -/
structure Exact (s : Sem) : Prop where
  /-- Between calls the counter is the number of holders. -/
  counter : s.call = none → s.running = s.holders.card
  /-- Every call is answered once. -/
  served : s.log.countP Note.isAsked =
    s.log.countP Note.isAnswer + if s.call.isSome then 1 else 0
  /-- A call succeeds iff the number of holders was below the maximum. -/
  answers : ∀ pid held max r, Note.answered pid held max r ∈ s.log → (r.isSome ↔ held < max)
  /-- No reference is handed out twice. -/
  once : ∀ ref, s.log.countP (Note.grants ref) ≤ 1
  /-- A slot that was taken is held, or it has been given back once and no more. -/
  undone : ∀ ref, s.log.countP (Note.grants ref) =
    (if (s.holders.lookup ref).isSome then 1 else 0) + s.log.countP (Note.undoes ref)
  /-- The death of a holder is about to be reported. -/
  watched : ∀ ref pid, s.holders.lookup ref = some pid → s.procs.isAlive (.client pid) = false →
    ⟨ref, .server, .client pid⟩ ∈ s.procs.downs

/-- What the counter is ahead of the holders by, while the server is in a call. -/
def Sem.ahead (s : Sem) : Nat :=
  match s.call with
  | some ⟨_, _, _, some _⟩ => 1
  | _                      => 0

/-- The invariant of a run. -/
structure Kept (s : Sem) : Prop where
  counter : s.running = s.holders.card + s.ahead
  call : ∀ c, s.call = some c → c.held = s.holders.card ∧
    ∀ n, c.count = some n → n = s.holders.card + 1
  served : s.log.countP Note.isAsked =
    s.log.countP Note.isAnswer + if s.call.isSome then 1 else 0
  answers : ∀ pid held max r, Note.answered pid held max r ∈ s.log → (r.isSome ↔ held < max)
  fresh : ∀ ref, s.procs.nextRef ≤ ref → s.log.countP (Note.grants ref) = 0
  once : ∀ ref, s.log.countP (Note.grants ref) ≤ 1
  undone : ∀ ref, s.log.countP (Note.grants ref) =
    (if (s.holders.lookup ref).isSome then 1 else 0) + s.log.countP (Note.undoes ref)
  active : s.procs.Active
  watched : ∀ ref pid, s.holders.lookup ref = some pid →
    s.procs.Keeps ⟨ref, .server, .client pid⟩

variable {s : Sem}

/-- Between calls the counter is not ahead. -/
theorem ahead_eq_zero (hcall : s.call = none) : s.ahead = 0 := by
  rw [Sem.ahead, hcall]

/-- The invariant makes the counter exact. -/
theorem Kept.exact (h : Kept s) : Exact s where
  counter hcall := by rw [h.counter, ahead_eq_zero hcall, Nat.add_zero]
  served := h.served
  answers := h.answers
  once := h.once
  undone := h.undone
  watched ref pid hhold hdead := by
    refine (h.watched ref pid hhold).pending h.active ?_
    by_contra halive
    rw [Procs.isAlive_iff.mpr halive] at hdead
    cases hdead

/-- It holds at the start. -/
theorem kept_init (max : Nat) : Kept (Sem.init max) where
  counter := rfl
  call c hc := by cases hc
  served := rfl
  answers pid held max r hr := by cases hr
  fresh ref _ := rfl
  once ref := Nat.zero_le 1
  undone ref := rfl
  active := Procs.active_start
  watched ref pid hhold := by cases hhold

namespace Kept

variable (h : Kept s)

include h

/-- Another maximum moves no holder. -/
theorem setMaxConcurrent (max : Nat) : Kept (setMaxConcurrent max s) := by
  unfold Semaphore.setMaxConcurrent
  split
  · exact { h with }
  · exact h

/-- Whoever ends, its reports are pending. -/
theorem exit (pid : Pid) : Kept { s with procs := s.procs.exit (.client pid) } :=
  { h with
    active := h.active.exit _
    watched := fun ref q hhold => (h.watched ref q hhold).exit (by simp) }

/-- A call is taken up. -/
theorem tryAcquire (hcall : s.call = none) (pid : Pid) : Kept (tryAcquire pid s) := by
  have hcounter := h.exact.counter hcall
  have hserved := h.served
  rw [hcall] at hserved
  refine { h with
    counter := hcounter, call := fun c hc => ?_, served := ?_, answers := ?_, fresh := ?_
    once := ?_, undone := ?_ }
  · cases hc
    exact ⟨rfl, fun n hn => by cases hn⟩
  all_goals simp only [Semaphore.tryAcquire, Sem.note, List.countP_append, List.countP_singleton,
    List.mem_append, List.mem_singleton]
  · simp [Note.isAsked, Note.isAnswer, hserved]
  · rintro pid' held max r (hr | hr)
    · exact h.answers pid' held max r hr
    · cases hr
  · exact h.fresh
  · exact h.once
  · exact h.undone

/-- The counter goes ahead of the holders. -/
theorem updateCounter {c : Acquire} (hcall : s.call = some c) (hcount : c.count = none) :
    Kept (updateCounter c s) := by
  obtain ⟨pid, max, held, count⟩ := c
  dsimp only at hcount
  subst hcount
  have hcounter : s.running = s.holders.card := by
    have hcounter := h.counter
    rw [Sem.ahead, hcall] at hcounter
    exact hcounter
  have hserved := h.served
  rw [hcall] at hserved
  refine { h with counter := ?_, call := fun c hc => ?_, served := hserved }
  · exact congrArg (· + 1) hcounter
  · cases hc
    refine ⟨(h.call _ hcall).1, fun n hn => ?_⟩
    cases hn
    exact congrArg (· + 1) hcounter

/-- The call is answered: the counter stays where the holders get to, or comes back. -/
theorem answer {c : Acquire} {n : Nat} (hcall : s.call = some c) (hcount : c.count = some n) :
    Kept (answer c n s) := by
  obtain ⟨hheld, hn⟩ := h.call c hcall
  replace hn := hn n hcount
  have hcounter : s.running = s.holders.card + 1 := by
    have hcounter := h.counter
    rw [Sem.ahead, hcall] at hcounter
    obtain ⟨pid, max, held, count⟩ := c
    dsimp only at hcount
    subst hcount
    exact hcounter
  have hserved := h.served
  rw [hcall] at hserved
  unfold Semaphore.answer
  -- Granted when the count before this caller is below its maximum.
  by_cases hfits : n ≤ c.max
  · rw [if_pos hfits]
    -- the reference is new, so nothing has happened to it
    have hgrants := h.fresh _ le_rfl
    have hnew : s.holders.lookup s.procs.nextRef = none ∧
        s.log.countP (Note.undoes s.procs.nextRef) = 0 := by
      have hundone := h.undone s.procs.nextRef
      rw [hgrants] at hundone
      cases hlookup : s.holders.lookup s.procs.nextRef with
      | none   =>
        rw [hlookup] at hundone
        exact ⟨rfl, by simpa using hundone.symm⟩
      | some q =>
        rw [hlookup] at hundone
        simp only [Option.isSome_some, if_true] at hundone
        omega
    -- Only the new reference gets another holder.
    have hlookup : ∀ ref, (s.holders.insert s.procs.nextRef c.pid).lookup ref =
        if ref = s.procs.nextRef then some c.pid else s.holders.lookup ref :=
      fun ref => AList.lookup_insert_ite _ _ _ ref
    constructor
    case counter =>
      exact hcounter.trans (AList.card_insert_of_lookup_none hnew.1 c.pid).symm
    case call => exact fun c' hc' => by cases hc'
    case active => exact h.active.monitor _ _
    case watched =>
      intro ref q hhold
      have hhold' := (hlookup ref).symm.trans hhold
      split at hhold'
      · rename_i heq
        cases hhold'
        exact heq ▸ Procs.keeps_monitor (by simp)
      · exact (h.watched ref q hhold').monitor _ _
    all_goals simp only [Sem.note, List.countP_append, List.countP_singleton, List.mem_append,
      List.mem_singleton, Procs.nextRef_monitor]
    case served => simpa [Note.isAsked, Note.isAnswer] using hserved
    case answers =>
      rintro pid held max r (hr | hr)
      · exact h.answers pid held max r hr
      · cases hr
        simp only [Option.isSome_some, true_iff]
        omega
    case fresh =>
      intro ref href
      have hne : s.procs.nextRef ≠ ref := by omega
      simp [Note.grants, h.fresh ref (by omega), hne]
    case once =>
      -- It is granted now, and no other reference is.
      intro ref
      by_cases heq : ref = s.procs.nextRef
      · subst heq
        simp [Note.grants, hgrants]
      · simpa [Note.grants, Ne.symm heq] using h.once ref
    case undone =>
      intro ref
      by_cases heq : ref = s.procs.nextRef
      · subst heq
        simp [hlookup, Note.grants, Note.undoes, hgrants, hnew.2]
      · simpa [hlookup, Note.grants, Note.undoes, heq, Ne.symm heq] using h.undone ref
  · rw [if_neg hfits]
    -- Refused: the counter goes down again, and nobody holds more than before.
    refine { h with
      counter := ?_, call := fun c' hc' => (by cases hc'), served := ?_, answers := ?_
      fresh := ?_, once := ?_, undone := ?_ }
    · show s.running - 1 = s.holders.card
      omega
    all_goals simp only [Sem.note, decr, List.countP_append, List.countP_singleton,
      List.mem_append, List.mem_singleton]
    · simpa [Note.isAsked, Note.isAnswer] using hserved
    · rintro pid held max r (hr | hr)
      · exact h.answers pid held max r hr
      · cases hr
        simp only [Option.isSome_none, Bool.false_eq_true, false_iff]
        omega
    · exact h.fresh
    · exact h.once
    · exact h.undone

/-- A slot that is held is given back. -/
theorem undo {ref : Ref} {pid : Pid} {procs : Procs Proc} {n : Note} (hcall : s.call = none)
    (hhold : s.holders.lookup ref = some pid) (hn : n = .released ref ∨ n = .downed ref)
    (hnext : procs.nextRef = s.procs.nextRef) (hactive : procs.Active)
    (hkeeps : ∀ ref' q, ref' ≠ ref → s.procs.Keeps ⟨ref', .server, .client q⟩ →
      procs.Keeps ⟨ref', .server, .client q⟩) :
    Kept ((decr { s with procs := procs, holders := s.holders.erase ref }).note n) := by
  have hcounter := h.exact.counter hcall
  have hcard := AList.card_erase_of_lookup_some hhold
  have hgrants : ∀ r, Note.grants r n = false := by
    rcases hn with rfl | rfl <;> exact fun _ => rfl
  have hundoes : ∀ r, Note.undoes r n = decide (ref = r) := by
    rcases hn with rfl | rfl <;> exact fun _ => rfl
  have hother : n.isAsked = false ∧ n.isAnswer = false := by
    rcases hn with rfl | rfl <;> exact ⟨rfl, rfl⟩
  have hlookup : ∀ r, (s.holders.erase ref).lookup r =
      if r = ref then none else s.holders.lookup r := fun r => AList.lookup_erase_ite _ _ r
  constructor
  case counter =>
    refine Eq.trans ?_ (congrArg ((s.holders.erase ref).card + ·) (ahead_eq_zero hcall).symm)
    show s.running - 1 = (s.holders.erase ref).card + 0
    omega
  case call => exact fun c hc => by cases hcall.symm.trans hc
  case active => exact hactive
  case watched =>
    intro r q hr
    have hr' := (hlookup r).symm.trans hr
    split at hr'
    · cases hr'
    · rename_i hne
      exact hkeeps r q hne (h.watched r q hr')
  all_goals simp only [Sem.note, decr, List.countP_append, List.countP_singleton,
    List.mem_append, List.mem_singleton, hgrants, hundoes, hother, Bool.false_eq_true, if_false,
    Nat.add_zero, hnext]
  case served => exact h.served
  case answers =>
    rintro pid held max r (hr | rfl)
    · exact h.answers pid held max r hr
    · rcases hn with hn | hn <;> cases hn
  case fresh => exact h.fresh
  case once => exact h.once
  case undone =>
    intro r
    have hundone := h.undone r
    by_cases heq : r = ref
    · subst heq
      simpa [hlookup, hhold, Nat.add_comm] using hundone
    · simpa [hlookup, heq, Ne.symm heq] using hundone

/-- A note of something that has no slot. -/
theorem stale (ref : Ref) {procs : Procs Proc} (hnext : procs.nextRef = s.procs.nextRef)
    (hactive : procs.Active)
    (hkeeps : ∀ ref' q, s.holders.lookup ref' = some q → procs.Keeps ⟨ref', .server, .client q⟩) :
    Kept (({ s with procs := procs } : Sem).note (.stale ref)) := by
  refine { h with
    served := ?_, answers := ?_, fresh := ?_, once := ?_, undone := ?_
    active := hactive, watched := hkeeps }
  all_goals simp only [Sem.note, List.countP_append, List.countP_singleton, List.mem_append,
    List.mem_singleton, Note.grants, Note.undoes, Note.isAsked, Note.isAnswer, Bool.false_eq_true,
    if_false, Nat.add_zero, hnext]
  · exact h.served
  · rintro pid held max r (hr | hr)
    · exact h.answers pid held max r hr
    · cases hr
  · exact h.fresh
  · exact h.once
  · exact h.undone

/-- A reference is given back: the first time it frees a slot, and its monitor goes. -/
theorem release (hcall : s.call = none) (ref : Ref) : Kept (release ref s) := by
  unfold Semaphore.release
  cases hhold : s.holders.lookup ref with
  | none     => exact h.stale ref rfl h.active h.watched
  | some pid =>
    exact h.undo hcall hhold (Or.inl rfl) rfl (h.active.demonitor _ _)
      fun ref' q hne hkeeps => hkeeps.demonitor hne _

/-- A death is reported: the slot is free, unless it was given back before. -/
theorem handleDown (hcall : s.call = none) (m : Monitor Proc) : Kept (handleDown m s) := by
  have hkeeps : ∀ ref q, ref ≠ m.ref → s.procs.Keeps ⟨ref, .server, .client q⟩ →
      (s.procs.receive m).Keeps ⟨ref, .server, .client q⟩ := by
    rintro ref q hne hkeeps
    refine hkeeps.receive ?_
    rintro rfl
    exact hne rfl
  unfold Semaphore.handleDown
  dsimp only
  cases hhold : s.holders.lookup m.ref with
  | some pid => exact h.undo hcall hhold (Or.inr rfl) rfl h.active hkeeps
  | none     =>
    refine h.stale m.ref rfl h.active fun ref q hq => ?_
    refine hkeeps ref q ?_ (h.watched ref q hq)
    rintro rfl
    rw [hhold] at hq
    cases hq

/-- **A step.** -/
theorem step (e : Event) : Kept (step s e) := by
  unfold Semaphore.step
  split
  · exact h.setMaxConcurrent _
  · exact h.exit _
  · rename_i c hcall
    cases hcount : c.count with
    | none   => exact h.updateCounter hcall hcount
    | some n => exact h.answer hcall hcount
  · exact h.tryAcquire ‹_› _
  · exact h.release ‹_› _
  · split
    · exact h.handleDown ‹_› _
    · exact h
  · exact h

end Kept

/-- **The semaphore is exact.**  In every run: between calls the counter is the number of
    holders; a call succeeds iff fewer than the maximum held a slot; every slot that was taken is
    held, or was given back once, by a release or by the report of its holder's death; and that
    report is pending for every holder that is dead. -/
theorem run_exact (max : Nat) (es : List Event) : Exact (run step (Sem.init max) es) :=
  (AllSteps.invariant (I := Kept) (fun _ e hs _ => hs.step e) (kept_init max)
    (AllSteps.of_forall (P := fun _ _ => True) (fun _ _ => trivial) _ es)).exact

/-! ### The clients -/

/-- What a client does at one point: a call of the server, a look at the clock, a pause, a word
    with its process dictionary, or the save itself. -/
inductive Act where
  | tryAcquire
  | release (ref : Ref)
  | monotonicTime
  | sleep (backoff : Nat)
  | put (ref : Ref)
  | erase
  | body

/-- How a save ends: with what `do_save/4` answers, or with an exception that it raises. -/
inductive SaveResult where
  | answered
  | raised
deriving DecidableEq

/-- What an action is answered with. -/
@[reducible] def Act.Ans : Act → Type
  | .tryAcquire    => Option Ref
  | .monotonicTime => Int
  | .erase         => Option Ref
  | .body          => SaveResult
  | .release _ | .sleep _ | .put _ => Unit

/-- A program of a client. -/
abbrev Program (β : Type) := Prog Act Act.Ans β

def callTryAcquire : Program (Option Ref) := Prog.perform Act.tryAcquire
def callRelease (ref : Ref) : Program Unit := Prog.perform (Act.release ref)
def monotonicTime : Program Int := Prog.perform Act.monotonicTime
def sleep (backoff : Nat) : Program Unit := Prog.perform (Act.sleep backoff)
def putSlot (ref : Ref) : Program Unit := Prog.perform (Act.put ref)
def eraseSlot : Program (Option Ref) := Prog.perform Act.erase
def doSave : Program SaveResult := Prog.perform Act.body

/-- What `acquire/1` comes to, or that it waits still. -/
inductive Acquired where
  | ok | maxConcurrent | waiting
deriving DecidableEq

/-- `check_timeout/2`, after a look at the clock; `true` is `continue`. -/
def checkTimeout (timeout : Option Nat) (start : Int) : Program Bool :=
  match timeout with
  | none   => return true
  | some t => do
    let now ← monotonicTime
    return now - start < t

/-- `acquire_loop/3`, as far as it gets in so many rounds. -/
def acquireLoop (timeout : Option Nat) (start : Int) : Nat → Nat → Program Acquired
  | 0, _               => return .waiting
  | rounds + 1, backoff => do
    match ← callTryAcquire with
    | some ref =>
      putSlot ref
      return .ok
    | none     =>
      -- the backoff doubles up to 50 ms
      if ← checkTimeout timeout start then
        sleep backoff
        acquireLoop timeout start rounds (min (backoff * 2) 50)
      else return .maxConcurrent

/-- `acquire/1`; `none` is `infinity`. -/
def acquire (rounds : Nat) (timeout : Option Nat) : Program Acquired :=
  match timeout with
  | none   => acquireLoop none 0 rounds 5
  | some t => do
    let start ← monotonicTime
    acquireLoop (some t) start rounds 5

/-- `release/0`. -/
def releaseSlot : Program Unit := do
  match ← eraseSlot with
  | some ref => callRelease ref
  | none     => return ()

/-- `save/5`: the slot is given back after the save, also after one that raises. -/
def save (rounds : Nat) (timeout : Option Nat) : Program (Acquired × Option SaveResult) := do
  match ← acquire rounds timeout with
  | .ok =>
    let r ← doSave
    releaseSlot
    return (.ok, some r)
  | a   => return (a, none)

/-- The slot in a client's process dictionary, and the references it got and gave back. -/
structure Client where
  slot : Option Ref
  taken : List Ref
  given : List Ref
deriving DecidableEq

/-- How an action can be answered, and what it does. -/
def does (_ : Nat) (c : Client) : (a : Act) → a.Ans → Client → Prop
  | .tryAcquire, r, c'  => c' = { c with taken := c.taken ++ r.toList }
  | .release ref, _, c' => c' = { c with given := c.given ++ [ref] }
  | .put ref, _, c'     => c' = { c with slot := some ref }
  | .erase, r, c'       => r = c.slot ∧ c' = { c with slot := none }
  | .monotonicTime, _, c' | .sleep _, _, c' | .body, _, c' => c' = c

/-- After an attempt the client has what it says it has. -/
def Holds (c : Client) (_ : Nat) (a : Acquired) (c' : Client) : Prop :=
  if a = .ok then ∃ ref, c' = ⟨some ref, c.taken ++ [ref], c.given⟩ else c' = c

/-- Who did not acquire holds what it held. -/
theorem holds_refl {a : Acquired} (ha : a ≠ .ok) (n : Nat) (c : Client) : Holds c n a c := by
  rw [Holds, if_neg ha]

/-- The loop holds one more iff it says so. -/
theorem ensures_acquireLoop (timeout : Option Nat) (start : Int) (rounds backoff n : Nat)
    (c : Client) : Prog.Ensures does (Holds c) n (acquireLoop timeout start rounds backoff) c := by
  induction rounds generalizing backoff n with
  | zero => exact holds_refl (by decide) n c
  | succ rounds ih =>
    rintro (_ | ref) c' rfl
    · -- refused, so nothing was taken
      rw [Option.toList_none, List.append_nil]
      have hround : ∀ (b : Bool) (m : Nat), Prog.Ensures does (Holds c) m
          (if b = true then sleep backoff >>= fun _ =>
            acquireLoop timeout start rounds (min (backoff * 2) 50)
          else pure .maxConcurrent) c := by
        intro b m
        cases b with
        | false => exact holds_refl (by decide) m c
        | true =>
          rintro _ c' rfl
          exact ih _ _
      cases timeout with
      | none   => exact hround true _
      | some t =>
        rintro now c' rfl
        exact hround (decide (now - start < t)) _
    · rintro _ c' rfl
      show Holds c _ Acquired.ok _
      rw [Holds, if_pos rfl]
      exact ⟨ref, rfl⟩

/-- So does the whole acquisition. -/
theorem ensures_acquire (rounds : Nat) (timeout : Option Nat) (n : Nat) (c : Client) :
    Prog.Ensures does (Holds c) n (acquire rounds timeout) c := by
  cases timeout with
  | none   => exact ensures_acquireLoop none 0 rounds 5 n c
  | some t =>
    rintro start c' rfl
    exact ensures_acquireLoop (some t) start rounds 5 _ c'

/-- **A save is balanced.**  Whatever it is answered, and however `do_save/4` ends: a save that
    returns has given back the reference it took, and no other, and its slot is empty. -/
theorem save_balanced (rounds : Nat) (timeout : Option Nat) (n : Nat) (c : Client)
    (hslot : c.slot = none) :
    Prog.Ensures does
      (fun _ _ c' => c'.slot = none ∧ ∃ refs, refs.length ≤ 1 ∧
        c'.taken = c.taken ++ refs ∧ c'.given = c.given ++ refs) n (save rounds timeout) c := by
  refine (ensures_acquire rounds timeout n c).bind fun m a c1 ha => ?_
  by_cases hok : a = .ok
  · rw [Holds, if_pos hok] at ha
    obtain ⟨ref, rfl⟩ := ha
    subst hok
    rintro r c2 rfl _ c3 ⟨rfl, rfl⟩ _ c4 rfl
    exact ⟨rfl, [ref], le_rfl, rfl, rfl⟩
  · rw [Holds, if_neg hok] at ha
    subst ha
    cases a with
    | ok => exact absurd rfl hok
    | maxConcurrent => exact ⟨hslot, [], Nat.zero_le 1, by simp, by simp⟩
    | waiting => exact ⟨hslot, [], Nat.zero_le 1, by simp, by simp⟩

end Erllama.Publish.Semaphore
