import Mathlib.Data.List.Basic

namespace Erllama.Lib

/-!
# Processes and monitors

`monitor(process, Target)` asks the runtime for one `'DOWN'` message when the target is gone.
The message goes to the process that made the call, and a process that monitors itself never
gets one.

* `Monitor`, `Procs` — who has died, which monitors are active, which messages are pending.
* `Procs.monitor`, `Procs.demonitor`, `Procs.exit`, `Procs.receive` — the operations.
* `Procs.Quiet` — no monitor and no message: what self-monitors leave.
* `Procs.Keeps` — a monitor is active or its message is pending.
* `Procs.Watches` — a death has been reported or will be, for as long as the watcher lives.
-/

/-- A monitor, or the `'DOWN'` message it turned into. -/
structure Monitor (P : Type*) where
  ref : Nat
  owner : P
  target : P
deriving DecidableEq

instance {P : Type*} [DecidableEq P] : LawfulBEq (Monitor P) := inferInstance

/-- The processes of a system: a process that is not dead is alive or has yet to start. -/
structure Procs (P : Type*) where
  dead : List P
  monitors : List (Monitor P)
  downs : List (Monitor P)
  nextRef : Nat

namespace Procs

variable {P : Type*} [DecidableEq P]

/-- Nobody has died and nobody watches. -/
def start : Procs P := ⟨[], [], [], 0⟩

/-- `is_process_alive/1`. -/
def isAlive (s : Procs P) (p : P) : Bool := p ∉ s.dead

/-- `monitor(process, Target)`: a dead target is reported at once, and monitoring oneself only
    takes a reference. -/
def monitor (s : Procs P) (owner target : P) : Procs P :=
  if owner = target then { s with nextRef := s.nextRef + 1 }
  else if target ∈ s.dead then
    { s with downs := s.downs ++ [⟨s.nextRef, owner, target⟩], nextRef := s.nextRef + 1 }
  else { s with monitors := s.monitors ++ [⟨s.nextRef, owner, target⟩], nextRef := s.nextRef + 1 }

/-- `demonitor(Ref, [flush])`: only the owner's own monitor and message go. -/
def demonitor (s : Procs P) (owner : P) (ref : Nat) : Procs P :=
  { s with
    monitors := s.monitors.filter fun m => ¬ (m.owner = owner ∧ m.ref = ref)
    downs := s.downs.filter fun m => ¬ (m.owner = owner ∧ m.ref = ref) }

/-- A process ends, whatever the cause: whoever watches it is told, and its own mailbox and
    monitors go with it. -/
def exit (s : Procs P) (p : P) : Procs P :=
  { s with
    dead := p :: s.dead
    monitors := s.monitors.filter fun m => m.owner ≠ p ∧ m.target ≠ p
    downs := (s.downs.filter fun m => m.owner ≠ p) ++
      s.monitors.filter fun m => m.target = p ∧ m.owner ≠ p }

/-- A pending message is received. -/
def receive (s : Procs P) (m : Monitor P) : Procs P := { s with downs := s.downs.erase m }

variable {s : Procs P} {o p q : P}

/-- A process is alive unless it died. -/
theorem isAlive_iff : s.isAlive p = true ↔ p ∉ s.dead := by simp [isAlive]

/-- A monitor kills nobody. -/
@[simp] theorem monitor_dead : (s.monitor o p).dead = s.dead := by
  unfold monitor
  split
  · rfl
  · split <;> rfl

/-- Nor does setting one change who is alive. -/
@[simp] theorem isAlive_monitor : (s.monitor o p).isAlive q = s.isAlive q := by
  simp only [isAlive, monitor_dead]

/-- Nor does taking one away. -/
@[simp] theorem isAlive_demonitor (r : Nat) : (s.demonitor o r).isAlive q = s.isAlive q := rfl

/-- Nor does receiving its message. -/
@[simp] theorem isAlive_receive (m : Monitor P) : (s.receive m).isAlive q = s.isAlive q := rfl

/-- An exit kills one process. -/
theorem isAlive_exit_iff : (s.exit p).isAlive q = true ↔ q ≠ p ∧ s.isAlive q = true := by
  simp [isAlive, exit]

/-! ### Self-monitors -/

/-- Nobody watches anybody. -/
def Quiet (s : Procs P) : Prop := s.monitors = [] ∧ s.downs = []

omit [DecidableEq P] in
/-- At the start there is no monitor. -/
theorem quiet_start : (start : Procs P).Quiet := ⟨rfl, rfl⟩

/-- Monitoring oneself sets up nothing. -/
theorem Quiet.monitor_self (h : s.Quiet) (p : P) : (s.monitor p p).Quiet := by
  rw [monitor, if_pos rfl]
  exact h

/-- Taking a monitor away adds no message. -/
theorem Quiet.demonitor (h : s.Quiet) (o : P) (r : Nat) : (s.demonitor o r).Quiet := by
  simp [Quiet, Procs.demonitor, h.1, h.2]

/-- An exit turns monitors into messages. -/
theorem Quiet.exit (h : s.Quiet) (p : P) : (s.exit p).Quiet := by
  simp [Quiet, Procs.exit, h.1, h.2]

/-- A received message is gone. -/
theorem Quiet.receive (h : s.Quiet) (m : Monitor P) : (s.receive m).Quiet := by
  simp [Quiet, Procs.receive, h.1, h.2]

/-! ### Watching another process -/

/-- Active monitors watch the living. -/
def Active (s : Procs P) : Prop := ∀ m ∈ s.monitors, m.target ∉ s.dead

/-- `o` has been told of the death of `p` and the message is pending, or it will be told. -/
def Watches (s : Procs P) (o p : P) : Prop :=
  ∃ m, m.owner = o ∧ m.target = p ∧ (m ∈ s.monitors ∨ m ∈ s.downs)

omit [DecidableEq P] in
/-- At the start no monitor is set. -/
theorem active_start : (start : Procs P).Active := nofun

/-- A monitor of a dead process is a message at once. -/
theorem Active.monitor (h : s.Active) (o p : P) : (s.monitor o p).Active := by
  unfold Procs.monitor
  split
  · exact h
  · split
    · exact h
    · rename_i hdead
      intro m hm
      rcases List.mem_append.mp hm with hm | hm
      · exact h m hm
      · rw [List.mem_singleton.mp hm]
        exact hdead

/-- After an exit no monitor of the process is left. -/
theorem Active.exit (h : s.Active) (p : P) : (s.exit p).Active := by
  intro m hm
  simp only [Procs.exit, List.mem_filter, decide_eq_true_eq] at hm
  rw [show (s.exit p).dead = p :: s.dead from rfl, List.mem_cons, not_or]
  exact ⟨hm.2.2, h m hm.1⟩

/-- What is reported has happened. -/
def Truthful (s : Procs P) : Prop := ∀ m ∈ s.downs, m.target ∈ s.dead

omit [DecidableEq P] in
/-- At the start there is no message. -/
theorem truthful_start : (start : Procs P).Truthful := nofun

/-- The message of a new monitor is about a dead process. -/
theorem Truthful.monitor (h : s.Truthful) (o p : P) : (s.monitor o p).Truthful := by
  unfold Procs.monitor
  split
  · exact h
  · split
    · rename_i hdead
      intro m hm
      rcases List.mem_append.mp hm with hm | hm
      · exact h m hm
      · rw [List.mem_singleton.mp hm]
        exact hdead
    · exact h

/-- So are the messages of an exit. -/
theorem Truthful.exit (h : s.Truthful) (p : P) : (s.exit p).Truthful := by
  intro m hm
  refine List.mem_cons.mpr ?_
  rcases List.mem_append.mp hm with hm | hm
  · exact Or.inr (h m (List.mem_filter.mp hm).1)
  · have htarget := (List.mem_filter.mp hm).2
    exact Or.inl (of_decide_eq_true htarget).1

/-- Receiving makes no message. -/
theorem Truthful.receive (h : s.Truthful) (m : Monitor P) : (s.receive m).Truthful :=
  fun m' hm' => h m' (List.mem_of_mem_erase hm')

/-- The monitor is active, or its message is pending. -/
def Keeps (s : Procs P) (m : Monitor P) : Prop := m ∈ s.monitors ∨ m ∈ s.downs

/-- A monitor takes a reference. -/
@[simp] theorem nextRef_monitor : (s.monitor o p).nextRef = s.nextRef + 1 := by
  unfold monitor
  split
  · rfl
  · split <;> rfl

/-- Taking a monitor away sets none. -/
theorem Active.demonitor (h : s.Active) (o : P) (r : Nat) : (s.demonitor o r).Active :=
  fun m hm => h m (List.mem_filter.mp hm).1

/-- Monitoring another process makes a monitor under a new reference. -/
theorem keeps_monitor (hne : o ≠ p) : (s.monitor o p).Keeps ⟨s.nextRef, o, p⟩ := by
  unfold Procs.monitor
  rw [if_neg hne]
  split
  · exact Or.inr (by simp)
  · exact Or.inl (by simp)

namespace Keeps

variable {m : Monitor P} (h : s.Keeps m)

include h

/-- A new monitor keeps the others. -/
theorem monitor (o q : P) : (s.monitor o q).Keeps m := by
  unfold Procs.monitor
  split
  · exact h
  · split
    · exact h.imp id (List.mem_append_left _)
    · exact h.imp (List.mem_append_left _) id

/-- The monitors of other references stay. -/
theorem demonitor {r : Nat} (hr : m.ref ≠ r) (o : P) : (s.demonitor o r).Keeps m := by
  have hkeep : decide (¬ (m.owner = o ∧ m.ref = r)) = true := decide_eq_true fun hm => hr hm.2
  exact h.imp (fun hm => List.mem_filter.mpr ⟨hm, hkeep⟩) fun hm => List.mem_filter.mpr ⟨hm, hkeep⟩

/-- Whoever dies but the owner: what was active is pending now, or stays. -/
theorem exit (hq : m.owner ≠ q) : (s.exit q).Keeps m := by
  rcases h with hm | hm
  · by_cases htarget : m.target = q
    · refine Or.inr (List.mem_append_right _ ?_)
      simp [hm, htarget, hq]
    · refine Or.inl ?_
      simp [Procs.exit, hm, htarget, hq]
  · refine Or.inr (List.mem_append_left _ ?_)
    simp [hm, hq]

/-- Receiving one message keeps the others. -/
theorem receive {m' : Monitor P} (hne : m ≠ m') : (s.receive m').Keeps m :=
  h.imp id fun hm => (List.mem_erase_of_ne hne).mpr hm

omit [DecidableEq P] in
/-- If the target is dead, the message is pending. -/
theorem pending (hactive : s.Active) (hdead : m.target ∈ s.dead) : m ∈ s.downs := by
  rcases h with hm | hm
  · exact absurd hdead (hactive m hm)
  · exact hm

end Keeps

/-- Monitoring another process is watching it. -/
theorem watches_monitor (hne : o ≠ p) : (s.monitor o p).Watches o p :=
  ⟨_, rfl, rfl, keeps_monitor hne⟩

/-- Who watches goes on watching. -/
theorem Watches.monitor (h : s.Watches o p) (o' q : P) : (s.monitor o' q).Watches o p := by
  obtain ⟨m, ho, hp, hm⟩ := h
  exact ⟨m, ho, hp, Keeps.monitor hm o' q⟩

/-- Whoever dies, a living watcher goes on watching. -/
theorem Watches.exit (h : s.Watches o p) (hq : o ≠ q) : (s.exit q).Watches o p := by
  obtain ⟨m, ho, hp, hm⟩ := h
  exact ⟨m, ho, hp, Keeps.exit hm (ho ▸ hq)⟩

/-- Receiving the message about one process leaves the others watched. -/
theorem Watches.receive {m : Monitor P} (h : s.Watches o p) (hm : m.target ≠ p) :
    (s.receive m).Watches o p := by
  obtain ⟨m', ho, hp, hm'⟩ := h
  refine ⟨m', ho, hp, Keeps.receive hm' ?_⟩
  rintro rfl
  exact hm hp

omit [DecidableEq P] in
/-- **A watcher is told**: the target is dead, so the message is pending. -/
theorem Watches.pending (h : s.Watches o p) (hactive : s.Active) (hp : p ∈ s.dead) :
    ∃ m ∈ s.downs, m.owner = o ∧ m.target = p := by
  obtain ⟨m, ho, hpt, hm⟩ := h
  exact ⟨m, Keeps.pending hm hactive (hpt ▸ hp), ho, hpt⟩

end Procs

end Erllama.Lib
