import Erllama.Loading.Registry

namespace Erllama.Loading.Depth

open Lib

/-!
# The queue depth (`erllama_inflight`)

A table holds the streaming requests with the model that serves each; a counter beside it is
what `queue_depth/0` reads.  A model changes its own rows itself, first the table and then the
counter; the rows of a model that has died are deleted by the server one by one, and counted
off at the end.  No lock holds the two together.

* `Sys`, `Event`, `step` — the models, the server, and every access to the table or the counter
  as a step of its own.
* `OwnRefs` — a model unregisters references of its own only.
* `Lockstep` — what the counter and the table have to do with each other.
* `run_lockstep` — in every run.
-/

/-- Where a model is in a call: a row is in that is not counted yet, the cast is still to be
    sent, or a row is out that is still counted. -/
inductive Doing where
  | inserted | casting | taken
deriving DecidableEq

/-- Where the server is in a `'DOWN'`: which of the model's references it has deleted, and which
    are left. -/
inductive Server where
  | idle
  | sweeping (pid : Pid) (done left : List Ref)
deriving DecidableEq

/-- The table, the counter, the calls that are not over, the server with the casts that it has
    not handled, the processes, and the models whose death it has handled. -/
structure Sys where
  rows : Table Ref Pid
  counter : Int
  doing : Table Pid Doing
  server : Server
  casts : List Pid
  monitors : List Pid
  procs : Procs Proc
  swept : List Pid

/-- `init/1`. -/
def Sys.init : Sys := ⟨∅, 0, ∅, .idle, [], [], .start, []⟩

/-- `counter_add/1`. -/
def counterAdd (n : Int) (s : Sys) : Sys := { s with counter := s.counter + n }

/-- `register/2`, its access to the table; a row that is there already is not counted. -/
def register (pid : Pid) (ref : Ref) (s : Sys) : Sys :=
  match s.rows.lookup ref with
  | none   => { s with rows := s.rows.insert ref pid, doing := s.doing.insert pid .inserted }
  | some _ => { s with doing := s.doing.insert pid .casting }

/-- `unregister/1`, its access to the table. -/
def unregister (pid : Pid) (ref : Ref) (s : Sys) : Sys :=
  match s.rows.lookup ref with
  | some _ => { s with rows := s.rows.erase ref, doing := s.doing.insert pid .taken }
  | none   => s

/-- The next access of a call. -/
def goOn (pid : Pid) (d : Doing) (s : Sys) : Sys :=
  match d with
  | .inserted => counterAdd 1 { s with doing := s.doing.insert pid .casting }
  | .casting  => { s with doing := s.doing.erase pid, casts := s.casts ++ [pid] }
  | .taken    => counterAdd (-1) { s with doing := s.doing.erase pid }

/-- `handle_cast({monitor_model, Pid}, S)`. -/
def handleMonitorModel (pid : Pid) (s : Sys) : Sys :=
  if pid ∈ s.monitors then s
  else { s with procs := s.procs.monitor .server (.client pid), monitors := pid :: s.monitors }

/-- `[R || {R, P} <- ets:tab2list(?TABLE), P =:= Pid]`. -/
def refsOf (pid : Pid) (rows : Table Ref Pid) : List Ref :=
  (rows.entries.filter fun e => e.2 = pid).map Sigma.fst

/-- `handle_info({'DOWN', ...}, S)`, its look at the table. -/
def handleDown (m : Monitor Proc) (pid : Pid) (s : Sys) : Sys :=
  { s with
    procs := s.procs.receive m
    server := .sweeping pid [] (refsOf pid s.rows) }

/-- The next access of the server: one row, or the counter and the end of the callback. -/
def sweep (pid : Pid) (done left : List Ref) (s : Sys) : Sys :=
  match left with
  | ref :: left => { s with rows := s.rows.erase ref, server := .sweeping pid (done ++ [ref]) left }
  | []          =>
    counterAdd (-(done.length : Int)) { s with
      server := .idle
      monitors := s.monitors.filter (· ≠ pid)
      swept := pid :: s.swept }

/-- What happens next. -/
inductive Event where
  | register (pid : Pid) (ref : Ref)
  | unregister (pid : Pid) (ref : Ref)
  | goOn (pid : Pid)
  | exit (pid : Pid)
  | cast (pid : Pid)
  | down (m : Monitor Proc)
  | sweep

/-- A model is alive, and not in the middle of a call. -/
def Sys.free (s : Sys) (pid : Pid) : Prop :=
  s.procs.isAlive (.client pid) = true ∧ s.doing.lookup pid = none

instance (s : Sys) (pid : Pid) : Decidable (s.free pid) := inferInstanceAs (Decidable (_ ∧ _))

/-- One step.  A model that has died goes on with nothing; the server takes up a message, in any
    order, when it has finished with the last. -/
def step (s : Sys) : Event → Sys
  | .register pid ref   => if s.free pid then register pid ref s else s
  | .unregister pid ref => if s.free pid then unregister pid ref s else s
  | .goOn pid           =>
    match s.procs.isAlive (.client pid), s.doing.lookup pid with
    | true, some d => goOn pid d s
    | _, _         => s
  | .exit pid           => { s with procs := s.procs.exit (.client pid) }
  | .cast pid           =>
    if s.server = .idle ∧ pid ∈ s.casts then
      handleMonitorModel pid { s with casts := s.casts.erase pid }
    else s
  | .down m             =>
    match m.target with
    | .client pid =>
      if s.server = .idle ∧ m ∈ s.procs.downs ∧ m.owner = .server then handleDown m pid s else s
    | .server     => s
  | .sweep              =>
    match s.server with
    | .idle                   => s
    | .sweeping pid done left => sweep pid done left s

/-- A model unregisters no reference that another model has a row under. -/
def OwnRefs (s : Sys) : Event → Prop
  | .unregister pid ref => ∀ q, s.rows.lookup ref = some q → q = pid
  | _                   => True

/-! ### What holds -/

/-- The calls that are at a point. -/
def Sys.callsAt (s : Sys) (d : Doing) : Nat := s.doing.countValues (· = d)

/-- The rows that the server has deleted and not counted off. -/
def Server.deleted : Server → Nat
  | .idle              => 0
  | .sweeping _ done _ => done.length

/-- Nobody is between a change of the table and that of the counter. -/
def Sys.Between (s : Sys) : Prop :=
  (∀ pid d, s.doing.lookup pid = some d → d = .casting) ∧ s.server = .idle

/-- The counter keeps up with the table. -/
structure Lockstep (s : Sys) : Prop where
  /-- Between operations it is the number of rows. -/
  depth : s.Between → s.counter = s.rows.card
  /-- At any other time it is off by the accesses that are missing. -/
  account : s.counter + s.callsAt .inserted = s.rows.card + s.callsAt .taken + s.server.deleted
  /-- A model whose death was handled has no rows. -/
  swept : ∀ pid ∈ s.swept, ∀ ref, s.rows.lookup ref ≠ some pid

/-- The invariant of a run. -/
structure Kept (s : Sys) : Prop where
  account : s.counter + s.callsAt .inserted = s.rows.card + s.callsAt .taken + s.server.deleted
  swept : ∀ pid ∈ s.swept, .client pid ∈ s.procs.dead ∧ ∀ ref, s.rows.lookup ref ≠ some pid
  sweeping : ∀ pid done left, s.server = .sweeping pid done left →
    .client pid ∈ s.procs.dead ∧ left.Nodup ∧ ∀ ref, ref ∈ left ↔ s.rows.lookup ref = some pid
  truthful : s.procs.Truthful

variable {s : Sys} {pid : Pid} {ref : Ref}

/-- The references of a model, each once. -/
theorem mem_refsOf {rows : Table Ref Pid} : ref ∈ refsOf pid rows ↔ rows.lookup ref = some pid := by
  simp only [refsOf, List.mem_map, List.mem_filter, decide_eq_true_eq]
  constructor
  · rintro ⟨⟨ref, q⟩, ⟨hmem, rfl⟩, rfl⟩
    exact AList.mem_entries_iff.mp hmem
  · intro hrow
    exact ⟨⟨ref, pid⟩, ⟨AList.mem_entries_iff.mpr hrow, rfl⟩, rfl⟩

/-- A process has a reference once. -/
theorem nodup_refsOf (rows : Table Ref Pid) : (refsOf pid rows).Nodup :=
  (List.Sublist.map Sigma.fst List.filter_sublist).nodup rows.nodupKeys

/-- Between operations no call is in the middle of its accesses. -/
theorem callsAt_eq_zero (h : s.Between) {d : Doing} (hd : d ≠ .casting) : s.callsAt d = 0 := by
  rw [Sys.callsAt, AList.countValues, List.countP_eq_zero]
  intro d' hd'
  obtain ⟨pid, hpid⟩ := AList.mem_values_iff.mp hd'
  rw [h.1 pid d' hpid]
  simpa using hd.symm

/-- Starting a call counts it where it is. -/
theorem callsAt_insert_of_none (h : s.doing.lookup pid = none) (d d' : Doing) :
    (s.doing.insert pid d').countValues (· = d) = s.callsAt d + if d' = d then 1 else 0 := by
  rw [AList.countValues_insert_of_lookup_none h, Sys.callsAt]
  simp only [decide_eq_true_eq]

/-- A call that goes on is counted where it was no more. -/
theorem callsAt_erase_of_some {d0 : Doing} (h : s.doing.lookup pid = some d0) (d : Doing) :
    s.callsAt d = (s.doing.erase pid).countValues (· = d) + if d0 = d then 1 else 0 := by
  rw [Sys.callsAt, AList.countValues_erase_of_lookup_some h]
  simp only [decide_eq_true_eq]

/-- The invariant keeps the table and the counter in lockstep. -/
theorem Kept.lockstep (h : Kept s) : Lockstep s where
  depth hbetween := by
    have haccount := h.account
    rw [callsAt_eq_zero hbetween (by decide), callsAt_eq_zero hbetween (by decide),
      hbetween.2] at haccount
    simpa [Server.deleted] using haccount
  account := h.account
  swept pid hpid := (h.swept pid hpid).2

/-- It holds at the start. -/
theorem kept_init : Kept Sys.init where
  account := rfl
  swept pid hpid := by cases hpid
  sweeping pid done left h := by cases h
  truthful := Procs.truthful_start

namespace Kept

variable (h : Kept s)

include h

/-- A live model changes no row that a sweep is after: only the account is left to show. -/
theorem of_live (hlive : Proc.client pid ∉ s.procs.dead) {s' : Sys} (hprocs : s'.procs = s.procs)
    (hswept : s'.swept = s.swept) (hserver : s'.server = s.server)
    (hrows : ∀ ref q, q ≠ pid → (s'.rows.lookup ref = some q ↔ s.rows.lookup ref = some q))
    (haccount : s'.counter + s'.callsAt .inserted =
      s'.rows.card + s'.callsAt .taken + s'.server.deleted) : Kept s' where
  account := haccount
  swept q hq := by
    obtain ⟨hdead, hnone⟩ := h.swept q (hswept ▸ hq)
    refine ⟨hprocs ▸ hdead, fun ref => ?_⟩
    rw [ne_eq, hrows ref q fun heq => hlive (heq ▸ hdead)]
    exact hnone ref
  sweeping q done left hs := by
    obtain ⟨hdead, hnodup, hleft⟩ := h.sweeping q done left (hserver ▸ hs)
    refine ⟨hprocs ▸ hdead, hnodup, fun ref => ?_⟩
    rw [hrows ref q fun heq => hlive (heq ▸ hdead)]
    exact hleft ref
  truthful := hprocs ▸ h.truthful

/-- A row goes in, of a model that is alive: no sweep is after it. -/
theorem register (hfree : s.free pid) (ref : Ref) : Kept (register pid ref s) := by
  obtain ⟨halive, hdoing⟩ := hfree
  have hpid : Proc.client pid ∉ s.procs.dead := Procs.isAlive_iff.mp halive
  have haccount := h.account
  have hcalls := callsAt_insert_of_none hdoing
  unfold Depth.register
  cases hrow : s.rows.lookup ref with
  | some q =>
    refine { h with account := ?_ }
    dsimp only [Sys.callsAt]
    rw [hcalls, hcalls, if_neg (by decide), if_neg (by decide)]
    exact haccount
  | none =>
    have hlookup : ∀ r q, q ≠ pid →
        ((s.rows.insert ref pid).lookup r = some q ↔ s.rows.lookup r = some q) := by
      intro r q hq
      rw [AList.lookup_insert_ite]
      by_cases hr : r = ref
      · subst hr
        simp [hrow, Ne.symm hq]
      · rw [if_neg hr]
    refine h.of_live hpid rfl rfl rfl hlookup ?_
    dsimp only [Sys.callsAt]
    rw [hcalls, hcalls, if_pos rfl, if_neg (by decide), AList.card_insert_of_lookup_none hrow]
    push_cast
    omega

/-- A row goes out, of the model itself. -/
theorem unregister (hfree : s.free pid) (ref : Ref)
    (hown : ∀ q, s.rows.lookup ref = some q → q = pid) : Kept (unregister pid ref s) := by
  obtain ⟨halive, hdoing⟩ := hfree
  have hpid : Proc.client pid ∉ s.procs.dead := Procs.isAlive_iff.mp halive
  have haccount := h.account
  have hcalls := callsAt_insert_of_none hdoing
  unfold Depth.unregister
  cases hrow : s.rows.lookup ref with
  | none   => exact h
  | some q =>
    obtain rfl := hown q hrow
    have hlookup : ∀ r q', q' ≠ q →
        ((s.rows.erase ref).lookup r = some q' ↔ s.rows.lookup r = some q') := by
      intro r q' hq'
      rw [AList.lookup_erase_ite]
      by_cases hr : r = ref
      · subst hr
        simp [hrow, Ne.symm hq']
      · rw [if_neg hr]
    have hcard := AList.card_erase_of_lookup_some hrow
    refine h.of_live hpid rfl rfl rfl hlookup ?_
    dsimp only [Sys.callsAt]
    rw [hcalls, hcalls, if_pos rfl, if_neg (by decide)]
    push_cast
    omega

/-- The counter follows, or the cast. -/
theorem goOn {d : Doing} (hdoing : s.doing.lookup pid = some d) : Kept (goOn pid d s) := by
  have haccount := h.account
  have hcalls := callsAt_erase_of_some hdoing
  have hinserted := hcalls .inserted
  have htaken := hcalls .taken
  cases d with
  | inserted =>
    rw [if_pos rfl] at hinserted
    rw [if_neg (by decide)] at htaken
    refine { h with account := ?_ }
    dsimp only [Depth.goOn, counterAdd, Sys.callsAt]
    rw [AList.countValues_insert, AList.countValues_insert, if_neg (by decide),
      if_neg (by decide)]
    omega
  | casting =>
    rw [if_neg (by decide)] at hinserted htaken
    refine { h with account := ?_ }
    dsimp only [Depth.goOn, Sys.callsAt]
    omega
  | taken =>
    rw [if_neg (by decide)] at hinserted
    rw [if_pos rfl] at htaken
    refine { h with account := ?_ }
    dsimp only [Depth.goOn, counterAdd, Sys.callsAt]
    omega

/-- A process that exits changes neither table nor counter. -/
theorem exit (pid : Pid) : Kept { s with procs := s.procs.exit (.client pid) } :=
  { h with
    swept := fun q hq => ⟨List.mem_cons_of_mem _ (h.swept q hq).1, (h.swept q hq).2⟩
    sweeping := fun q done left hs =>
      ⟨List.mem_cons_of_mem _ (h.sweeping q done left hs).1, (h.sweeping q done left hs).2⟩
    truthful := h.truthful.exit _ }

/-- A monitor changes no row. -/
theorem handleMonitorModel (pid : Pid) {casts : List Pid} :
    Kept (handleMonitorModel pid { s with casts := casts }) := by
  unfold Depth.handleMonitorModel
  split
  · exact { h with }
  · exact { h with
      swept := fun q hq => ⟨by rw [Procs.monitor_dead]; exact (h.swept q hq).1, (h.swept q hq).2⟩
      sweeping := fun q done left hs =>
        ⟨by rw [Procs.monitor_dead]; exact (h.sweeping q done left hs).1,
          (h.sweeping q done left hs).2⟩
      truthful := h.truthful.monitor _ _ }

/-- The server looks at the table: it sees the rows of a model that is dead, so no other step
    changes them. -/
theorem handleDown {m : Monitor Proc} (hidle : s.server = .idle) (hm : m ∈ s.procs.downs)
    (htarget : m.target = .client pid) : Kept (handleDown m pid s) := by
  have haccount := h.account
  rw [hidle] at haccount
  refine { h with
    account := haccount, truthful := h.truthful.receive m
    sweeping := fun q done left hs => ?_ }
  cases hs
  exact ⟨htarget ▸ h.truthful m hm, nodup_refsOf s.rows, fun ref => mem_refsOf⟩

/-- The server deletes a row, or counts them off. -/
theorem sweep {done left : List Ref} (hserver : s.server = .sweeping pid done left) :
    Kept (sweep pid done left s) := by
  obtain ⟨hdead, hnodup, hleft⟩ := h.sweeping pid done left hserver
  have haccount := h.account
  rw [hserver] at haccount
  cases left with
  | nil =>
    refine { h with
      account := ?_, swept := fun q hq => ?_, sweeping := fun q _ _ hs => by cases hs }
    · dsimp only [Depth.sweep, counterAdd, Server.deleted, Sys.callsAt] at haccount ⊢
      push_cast
      omega
    · rcases List.mem_cons.mp hq with rfl | hq
      · exact ⟨hdead, fun ref hrow => List.not_mem_nil ((hleft ref).mpr hrow)⟩
      · exact h.swept q hq
  | cons ref left =>
    have hrow : s.rows.lookup ref = some pid := (hleft ref).mp List.mem_cons_self
    have hcard := AList.card_erase_of_lookup_some hrow
    obtain ⟨hnew, hnodup⟩ := List.nodup_cons.mp hnodup
    refine { h with account := ?_, swept := fun q hq => ?_, sweeping := fun q d l hs => ?_ }
    · dsimp only [Depth.sweep, Server.deleted, Sys.callsAt] at haccount ⊢
      rw [List.length_append, List.length_singleton]
      push_cast
      omega
    · refine ⟨(h.swept q hq).1, fun r => ?_⟩
      dsimp only [Depth.sweep]
      rw [AList.lookup_erase_ite]
      split
      · exact Option.some_ne_none q ∘ Eq.symm
      · exact (h.swept q hq).2 r
    · cases hs
      refine ⟨hdead, hnodup, fun r => ?_⟩
      dsimp only [Depth.sweep]
      rw [AList.lookup_erase_ite]
      by_cases hr : r = ref
      · subst hr
        simp [hnew]
      · rw [if_neg hr, ← hleft r, List.mem_cons, or_iff_right hr]

/-- **A step.** -/
theorem step (e : Event) (hown : OwnRefs s e) : Kept (step s e) := by
  cases e with
  | register pid ref =>
    dsimp only [Depth.step]
    split
    · exact h.register ‹_› ref
    · exact h
  | unregister pid ref =>
    dsimp only [Depth.step]
    split
    · exact h.unregister ‹_› ref hown
    · exact h
  | goOn pid =>
    dsimp only [Depth.step]
    split
    · exact h.goOn ‹_›
    · exact h
  | exit pid => exact h.exit pid
  | cast pid =>
    dsimp only [Depth.step]
    split
    · exact h.handleMonitorModel pid
    · exact h
  | down m =>
    dsimp only [Depth.step]
    split
    · rename_i htarget
      split
      · rename_i hm
        exact h.handleDown hm.1 hm.2.1 htarget
      · exact h
    · exact h
  | sweep =>
    dsimp only [Depth.step]
    split
    · exact h
    · exact h.sweep ‹_›

end Kept

/-- **The depth is the number of rows.**  In every run in which each model unregisters its own
    references only, whatever the others do between two accesses, and whenever models die and
    their monitors are made: between operations the counter is the number of rows, and no row is
    left of a model whose death was handled. -/
theorem run_lockstep (es : List Event) (h : AllSteps step OwnRefs Sys.init es) :
    Lockstep (run step Sys.init es) :=
  (AllSteps.invariant (I := Kept) (fun _ e hs hown => hs.step e hown) kept_init h).lockstep

/-- Two models; the first registers two references, unregisters one twice, and dies before its
    monitor is made; the second registers in the middle of the sweep. -/
def sampleRun : List Event :=
  [.register 1 10, .goOn 1, .goOn 1, .register 1 11, .goOn 1, .goOn 1, .unregister 1 10, .goOn 1,
    .unregister 1 10, .exit 1, .cast 1, .down ⟨0, .server, .client 1⟩, .register 2 20, .sweep,
    .goOn 2, .sweep, .goOn 2]

/-- One request ends, and another dies with its process and is swept. -/
theorem run_lockstep_sampleRun :
    Lockstep (run step Sys.init sampleRun) ∧ (run step Sys.init sampleRun).counter = 1 ∧
      (run step Sys.init sampleRun).swept = [1] :=
  ⟨run_lockstep sampleRun (by simp [sampleRun, AllSteps, OwnRefs]; decide), by decide, by decide⟩

end Erllama.Loading.Depth
