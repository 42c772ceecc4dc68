import Erllama.Basic
import Erllama.Lib.Monitors
import Erllama.Lib.Run
import Erllama.Lib.Table

namespace Erllama.Loading

open Lib

/-!
# The model registry (`erllama_registry`)

A `via` registry: `gen_statem` calls `register_name/2` from the process that is being
registered, and never calls `unregister_name/1` when that process ends.  The row is meant to be
deleted by the registry server when it receives the `'DOWN'` of the model, but the monitor is
made by the caller of `register_name/2`, so by the model itself.

* `Registry`, `registerName`, `unregisterName`, `whereisName`, `handleDown` — the module.
* `Sys`, `step` — the registry among its processes.
* `startModel`, `stopModel` — loading and unloading, as the supervisor does them.
* `Sys.Reusable` — a name whose process has ended is free again, and one process has it at most.
* `run_reusable` — this holds in every state iff no process ends while it has a row.
-/

/-- A model id. -/
abbrev ModelId := Bytes

/-- The server of a module, or any other process. -/
inductive Proc where
  | server
  | client (pid : Pid)
deriving DecidableEq

/-- A row of the registry's table, without its name. -/
structure RegRow where
  pid : Proc
  monRef : Nat
deriving DecidableEq

/-- The table of the registry, among the processes. -/
structure Registry where
  procs : Procs Proc
  table : Table ModelId RegRow

namespace Registry

/-- `register_name/2`, called by `self`: the monitor is made before the row is inserted, and by
    the caller. -/
def registerName (self : Proc) (name : ModelId) (pid : Proc) (r : Registry) : Bool × Registry :=
  let procs := r.procs.monitor self pid
  match r.table.lookup name with
  | some _ => (false, { r with procs := procs })
  | none   => (true, ⟨procs, r.table.insert name ⟨pid, r.procs.nextRef⟩⟩)

/-- `unregister_name/1`, called by `self`. -/
def unregisterName (self : Proc) (name : ModelId) (r : Registry) : Registry :=
  match r.table.lookup name with
  | some row => ⟨r.procs.demonitor self row.monRef, r.table.erase name⟩
  | none     => r

/-- `whereis_name/1`. -/
def whereisName (name : ModelId) (r : Registry) : Option Proc :=
  match r.table.lookup name with
  | some row => if r.procs.isAlive row.pid then some row.pid else none
  | none     => none

/-- `handle_info({'DOWN', ...}, S)`: every row of the process is deleted. -/
def handleDown (m : Monitor Proc) (r : Registry) : Registry where
  procs := r.procs.receive m
  table := (r.table.entries.filter fun e => e.2.pid = m.target).foldl
    (fun t e => t.erase e.1) r.table

/-- A name that is found has a row of a live process. -/
theorem row_of_whereisName {r : Registry} {name : ModelId} {p : Proc}
    (h : r.whereisName name = some p) :
    ∃ row, r.table.lookup name = some row ∧ r.procs.isAlive p = true := by
  unfold whereisName at h
  cases hrow : r.table.lookup name with
  | none     =>
    rw [hrow] at h
    cases h
  | some row =>
    rw [hrow] at h
    dsimp only at h
    split at h
    · rename_i halive
      obtain rfl := Option.some.inj h
      exact ⟨row, rfl, halive⟩
    · cases h

/-! ### Unregistering -/

/-- An unregistered name is free. -/
theorem lookup_unregisterName (r : Registry) (self : Proc) (name n : ModelId) :
    (r.unregisterName self name).table.lookup n =
      if n = name then none else r.table.lookup n := by
  unfold unregisterName
  cases hrow : r.table.lookup name with
  | some row => exact AList.lookup_erase_ite ..
  | none     =>
    dsimp only
    split
    · rename_i heq
      rw [heq, hrow]
    · rfl

/-- Unregistering kills nobody. -/
theorem isAlive_unregisterName (r : Registry) (self : Proc) (name : ModelId) (p : Proc) :
    (r.unregisterName self name).procs.isAlive p = r.procs.isAlive p := by
  unfold unregisterName
  cases r.table.lookup name <;> rfl

/-- It leaves no message. -/
theorem quiet_unregisterName {r : Registry} (h : r.procs.Quiet) (self : Proc) (name : ModelId) :
    (r.unregisterName self name).procs.Quiet := by
  unfold unregisterName
  cases r.table.lookup name with
  | some row => exact h.demonitor _ _
  | none     => exact h

end Registry

/-! ### Runs -/

/-- The registry with its history: who was answered `yes` under which name, unless the name
    has been unregistered since. -/
structure Sys where
  reg : Registry
  held : List (ModelId × Pid)

/-- Nothing is registered. -/
def Sys.init : Sys := ⟨⟨.start, ∅⟩, []⟩

/-- What processes do with the registry. -/
inductive Event where
  | register (name : ModelId) (pid : Pid)
  | unregister (name : ModelId) (pid : Pid)
  | exit (pid : Pid)
  | handle

/-- One step; a process that has ended does nothing. -/
def step (s : Sys) : Event → Sys
  | .register name pid   =>
    if s.reg.procs.isAlive (.client pid) then
      let a := s.reg.registerName (.client pid) name (.client pid)
      ⟨a.2, if a.1 then (name, pid) :: s.held else s.held⟩
    else s
  | .unregister name pid =>
    if s.reg.procs.isAlive (.client pid) then
      ⟨s.reg.unregisterName (.client pid) name, s.held.filter fun h => h.1 ≠ name⟩
    else s
  | .exit pid            =>
    if s.reg.procs.isAlive (.client pid) then
      { s with reg := { s.reg with procs := s.reg.procs.exit (.client pid) } }
    else s
  -- one DOWN message after another
  | .handle              =>
    match s.reg.procs.downs.find? fun m => m.owner = .server with
    | some m => { s with reg := s.reg.handleDown m }
    | none   => s

/-- Messages that the registry has yet to handle. -/
def Sys.Pending (s : Sys) : Prop := ∃ m ∈ s.reg.procs.downs, m.owner = .server

/-- Model ids can be reused: at most one live process has a name, and when all who had it are
    dead and the registry has no message left, the name is free. -/
structure Sys.Reusable (s : Sys) : Prop where
  unique : ∀ name p q, (name, p) ∈ s.held → (name, q) ∈ s.held →
    s.reg.procs.isAlive (.client p) = true → s.reg.procs.isAlive (.client q) = true → p = q
  freed : ¬ s.Pending → ∀ name,
    (∀ p, (name, p) ∈ s.held → s.reg.procs.isAlive (.client p) = false) →
      s.reg.whereisName name = none ∧
      ∀ q, s.reg.procs.isAlive (.client q) = true →
        (s.reg.registerName (.client q) name (.client q)).1 = true

/-- The step does not end a process that has a row. -/
def Unlisted (s : Sys) : Event → Prop
  | .exit pid => s.reg.procs.isAlive (.client pid) = true →
      ∀ name row, s.reg.table.lookup name = some row → row.pid ≠ .client pid
  | _         => True

/-- What holds in every run: nobody watches anybody, rows are registrations, and a live
    registration has its row. -/
structure Sys.Listed (s : Sys) : Prop where
  quiet : s.reg.procs.Quiet
  rows : ∀ name row, s.reg.table.lookup name = some row →
    ∃ p, row.pid = .client p ∧ (name, p) ∈ s.held
  live : ∀ name p, (name, p) ∈ s.held → s.reg.procs.isAlive (.client p) = true →
    ∃ row, s.reg.table.lookup name = some row ∧ row.pid = .client p

/-- No row belongs to a process that has ended. -/
def Sys.Fresh (s : Sys) : Prop :=
  ∀ name row, s.reg.table.lookup name = some row → s.reg.procs.isAlive row.pid = true

/-- At the start no name is taken. -/
theorem Sys.init_listed : Sys.init.Listed := ⟨Procs.quiet_start, nofun, nofun⟩

/-- Nor is there a monitor. -/
theorem Sys.init_fresh : Sys.init.Fresh := nofun

/-- Nobody watches anybody, so the registry waits for nothing. -/
theorem Sys.Listed.not_pending {s : Sys} (h : s.Listed) : ¬ s.Pending := by
  rintro ⟨m, hm, -⟩
  rw [h.quiet.2] at hm
  cases hm

/-- The `'DOWN'` handler never runs. -/
theorem Sys.Listed.step_handle {s : Sys} (h : s.Listed) : step s .handle = s := by
  simp only [step, h.quiet.2, List.find?_nil]

/-- **One step keeps the rows in order**, whatever it is. -/
theorem step_listed (s : Sys) (e : Event) (h : s.Listed) : (step s e).Listed := by
  cases e with
  | register name pid =>
    simp only [step]
    split
    -- The name is taken or free; either way the caller is monitored.
    · unfold Registry.registerName
      cases hrow : s.reg.table.lookup name with
      | some row =>
        -- the monitor of the refused caller is one on itself, too
        refine ⟨h.quiet.monitor_self _, h.rows, fun n p hheld hp => ?_⟩
        exact h.live n p hheld (by simpa using hp)
      | none     =>
        refine ⟨h.quiet.monitor_self _, fun n row hn => ?_, fun n p hheld hp => ?_⟩
        · dsimp only at hn ⊢
          rw [AList.lookup_insert_ite] at hn
          split at hn
          · rename_i hname
            obtain rfl := Option.some.inj hn
            exact ⟨pid, rfl, hname ▸ List.mem_cons_self⟩
          · obtain ⟨p, hp, hheld⟩ := h.rows n row hn
            exact ⟨p, hp, List.mem_cons_of_mem _ hheld⟩
        · have hp : s.reg.procs.isAlive (.client p) = true := by simpa using hp
          dsimp only
          -- the new name and the old ones
          rw [AList.lookup_insert_ite]
          rcases List.mem_cons.mp hheld with heq | hheld
          · obtain ⟨rfl, rfl⟩ := Prod.mk.inj heq
            exact ⟨_, if_pos rfl, rfl⟩
          · obtain ⟨row, hrow', hpid⟩ := h.live n p hheld hp
            have hne : n ≠ name := by
              rintro rfl
              rw [hrow] at hrow'
              cases hrow'
            exact ⟨row, by rw [if_neg hne, hrow'], hpid⟩
    · exact h
  | unregister name pid =>
    simp only [step]
    split
    -- Only this name goes.
    · refine ⟨Registry.quiet_unregisterName h.quiet _ name, fun n row hn => ?_,
        fun n p hheld hp => ?_⟩
      · dsimp only at hn ⊢
        rw [Registry.lookup_unregisterName] at hn
        split at hn
        · cases hn
        · rename_i hne
          obtain ⟨p, hp, hheld⟩ := h.rows n row hn
          exact ⟨p, hp, List.mem_filter.mpr ⟨hheld, decide_eq_true hne⟩⟩
      · obtain ⟨hheld, hne⟩ := List.mem_filter.mp hheld
        dsimp only at hp ⊢
        rw [Registry.isAlive_unregisterName] at hp
        rw [Registry.lookup_unregisterName, if_neg (of_decide_eq_true hne)]
        exact h.live n p hheld hp
    · exact h
  | exit pid =>
    simp only [step]
    split
    -- A process that died stays listed until its DOWN message.
    · refine ⟨h.quiet.exit _, h.rows, fun n p hheld hp => ?_⟩
      exact h.live n p hheld (Procs.isAlive_exit_iff.mp hp).2
    · exact h
  | handle => rwa [h.step_handle]

/-- **One step that ends no listed process** leaves no row of a dead process. -/
theorem step_fresh (s : Sys) (e : Event) (hl : s.Listed) (h : s.Fresh) (he : Unlisted s e) :
    (step s e).Fresh := by
  cases e with
  | register name pid =>
    simp only [step]
    split
    · rename_i hpid
      unfold Registry.registerName
      cases hrow : s.reg.table.lookup name with
      | some row => exact fun n row hn => by simpa using h n row hn
      | none     =>
        intro n row hn
        dsimp only at hn ⊢
        rw [AList.lookup_insert_ite] at hn
        rw [Procs.isAlive_monitor]
        split at hn
        · obtain rfl := Option.some.inj hn
          exact hpid
        · exact h n row hn
    · exact h
  | unregister name pid =>
    simp only [step]
    split
    · intro n row hn
      dsimp only at hn ⊢
      rw [Registry.lookup_unregisterName] at hn
      rw [Registry.isAlive_unregisterName]
      split at hn
      · cases hn
      · exact h n row hn
    · exact h
  | exit pid =>
    simp only [step]
    split
    · rename_i hpid
      exact fun n row hn => Procs.isAlive_exit_iff.mpr ⟨he hpid n row hn, h n row hn⟩
    · exact h
  | handle => rwa [hl.step_handle]

/-- A name is free when no row belongs to a dead process. -/
theorem Sys.Listed.reusable {s : Sys} (h : s.Listed) (hf : s.Fresh) : s.Reusable where
  unique name p q hp hq hpa hqa := by
    obtain ⟨row, hrow, hpid⟩ := h.live name p hp hpa
    obtain ⟨row', hrow', hqid⟩ := h.live name q hq hqa
    rw [hrow] at hrow'
    obtain rfl := Option.some.inj hrow'
    exact Proc.client.inj (hpid.symm.trans hqid)
  freed _ name hdead := by
    have hnone : s.reg.table.lookup name = none := by
      cases hrow : s.reg.table.lookup name with
      | none     => rfl
      | some row =>
        obtain ⟨p, hpid, hheld⟩ := h.rows name row hrow
        have halive := hf name row hrow
        rw [hpid, hdead p hheld] at halive
        cases halive
    refine ⟨?_, fun q _ => ?_⟩
    · simp only [Registry.whereisName, hnone]
    · simp only [Registry.registerName, hnone]

/-- There is always a process that has not ended. -/
theorem exists_alive (s : Procs Proc) : ∃ q, s.isAlive (.client q) = true := by
  obtain ⟨q, hq⟩ := Infinite.exists_notMem_finset
    (s.dead.filterMap fun p => match p with | .server => none | .client n => some n).toFinset
  refine ⟨q, Procs.isAlive_iff.mpr fun hmem => hq ?_⟩
  exact List.mem_toFinset.mpr (List.mem_filterMap.mpr ⟨.client q, hmem, rfl⟩)

/-- **The process of a row ends**: its name stays taken. -/
theorem not_reusable_of_listed {s : Sys} (h : s.Listed) {pid : Pid}
    (hpid : s.reg.procs.isAlive (.client pid) = true) {name : ModelId} {row : RegRow}
    (hrow : s.reg.table.lookup name = some row) (heq : row.pid = .client pid) :
    ¬ (step s (.exit pid)).Reusable := by
  intro hreusable
  have hstep : step s (.exit pid) =
      { s with reg := { s.reg with procs := s.reg.procs.exit (.client pid) } } := if_pos hpid
  have hdead : ∀ p, (name, p) ∈ (step s (.exit pid)).held →
      (step s (.exit pid)).reg.procs.isAlive (.client p) = false := by
    intro p hheld
    rw [Bool.eq_false_iff]
    intro halive
    rw [hstep] at hheld halive
    obtain ⟨hne, hp⟩ := Procs.isAlive_exit_iff.mp halive
    obtain ⟨row', hrow', hp'⟩ := h.live name p hheld hp
    rw [hrow] at hrow'
    obtain rfl := Option.some.inj hrow'
    exact hne (hp'.symm.trans heq)
  obtain ⟨q, hq⟩ := exists_alive (step s (.exit pid)).reg.procs
  have hyes := (hreusable.freed (step_listed s _ h).not_pending name hdead).2 q hq
  rw [hstep] at hyes
  simp only [Registry.registerName, hrow, Bool.false_eq_true] at hyes

/-- **A model id can be reused exactly when nothing listed ends.** In every run, every state
    meets the statement iff each process that ended had been unregistered before. -/
theorem run_reusable (es : List Event) :
    (∀ pre, pre <+: es → (run step Sys.init pre).Reusable) ↔
      AllSteps step Unlisted Sys.init es := by
  have hinit : Sys.init.Listed ∧ Sys.init.Fresh := ⟨Sys.init_listed, Sys.init_fresh⟩
  have hstep : ∀ s e, s.Listed ∧ s.Fresh → Unlisted s e →
      (step s e).Listed ∧ (step s e).Fresh := fun s e h he =>
    ⟨step_listed s e h.1, step_fresh s e h.1 h.2 he⟩
  have hiff : ∀ s e, s.Listed ∧ s.Fresh → (Unlisted s e ↔ (step s e).Reusable) := by
    intro s e h
    constructor
    · intro he
      obtain ⟨hl, hf⟩ := hstep s e h he
      exact hl.reusable hf
    · intro hreusable
      cases e with
      | exit pid =>
        intro hpid name row hrow heq
        exact not_reusable_of_listed h.1 hpid hrow heq hreusable
      | _ => trivial
  rw [forall_prefix_iff, allSteps_iff hstep hiff hinit]
  exact and_iff_right (hinit.1.reusable hinit.2)

/-! ### Loading and unloading -/

/-- Why a model was not loaded. -/
inductive LoadError where
  | alreadyLoaded
  | initFailed
deriving DecidableEq

/-- `erllama_model_sup:start_model/2`: the new process registers itself; it ends when the name
    is taken, and also when `init/1` fails, but then it is unregistered first. -/
def startModel (id : ModelId) (pid : Pid) (initOk : Bool) (s : Sys) :
    Except LoadError Unit × Sys :=
  if (s.reg.registerName (.client pid) id (.client pid)).1 then
    if initOk then (.ok (), step s (.register id pid))
    else (.error .initFailed, run step s [.register id pid, .unregister id pid, .exit pid])
  else (.error .alreadyLoaded, run step s [.register id pid, .exit pid])

/-- `erllama_model_sup:stop_model/1`: the supervisor ends the process that has the id. -/
def stopModel (id : ModelId) (s : Sys) : Bool × Sys :=
  match s.reg.whereisName id with
  | some (.client pid) => (true, step s (.exit pid))
  | _                  => (false, s)

/-- **An unloaded id is refused for good.** In every run, once a loaded id has been unloaded,
    the next load of it answers `already_loaded`, whoever is started. -/
theorem startModel_stopModel (es : List Event) (id : ModelId)
    (hstop : (stopModel id (run step Sys.init es)).1 = true) (pid : Pid) (initOk : Bool) :
    (startModel id pid initOk (stopModel id (run step Sys.init es)).2).1 =
      .error .alreadyLoaded := by
  set s := run step Sys.init es with hs
  have hlisted : s.Listed :=
    AllSteps.invariant (I := Sys.Listed) (fun s e h _ => step_listed s e h) Sys.init_listed
      (.of_forall (fun _ _ => trivial) Sys.init es)
  have hgone : ∀ {p : Pid} {row : RegRow}, s.reg.table.lookup id = some row →
      s.reg.procs.isAlive (.client p) = true →
      (startModel id pid initOk (step s (.exit p))).1 = .error .alreadyLoaded := by
    intro p row hrow halive
    simp only [startModel, step, if_pos halive, Registry.registerName, hrow, Bool.false_eq_true,
      ↓reduceIte]
  unfold stopModel at hstop ⊢
  cases hwhere : s.reg.whereisName id with
  | none   =>
    rw [hwhere] at hstop
    cases hstop
  | some q =>
    rw [hwhere] at hstop
    obtain ⟨row, hrow, halive⟩ := Registry.row_of_whereisName hwhere
    cases q with
    | server     => cases hstop
    | client p => exact hgone hrow halive

/-- A model is loaded and unloaded: its id is not known any more and cannot be loaded again. -/
theorem unloaded_not_reusable :
    (startModel [109] 1 true Sys.init).1 = .ok () ∧
      (stopModel [109] (run step Sys.init [.register [109] 1])).1 = true ∧
      (run step Sys.init [.register [109] 1, .exit 1]).reg.whereisName [109] = none ∧
      (startModel [109] 2 true (run step Sys.init [.register [109] 1, .exit 1])).1 =
        .error .alreadyLoaded ∧
      ¬ (run step Sys.init [.register [109] 1, .exit 1]).Reusable := by
  refine ⟨by decide, by decide, by decide, by decide, fun hreusable => ?_⟩
  have hpending : ¬ (run step Sys.init [.register [109] 1, .exit 1]).Pending := by
    rintro ⟨m, hm, -⟩
    cases hm
  have hheld : ∀ p, ([109], p) ∈ (run step Sys.init [.register [109] 1, .exit 1]).held →
      (run step Sys.init [.register [109] 1, .exit 1]).reg.procs.isAlive (.client p) = false := by
    intro p hp
    obtain rfl : p = 1 := (Prod.mk.inj (List.mem_singleton.mp hp)).2
    decide
  have hyes := (hreusable.freed hpending [109] hheld).2 2 (by decide)
  revert hyes
  decide

end Erllama.Loading
