import Erllama.Loading.Registry

namespace Erllama.Loading.Tracking

open Lib

/-!
# What is kept about a loaded model (`erllama_inflight`, `erllama_chat_cache`)

Four tables outlive the process of a model, and each is cleaned in its own way.

* `obs` — the observability row of an id; `terminate/3` deletes it.
* `abort` — the decode-abort handle of a pid, which keeps the context reachable; `terminate/3`
  and the `'DOWN'` of a monitored process delete it.
* `inflight` — the refs of streaming requests with the pid that serves them; a request deletes
  its own, the `'DOWN'` the rest.  The monitor is made by the server, on a cast that follows the
  insertion.
* `ChatCache` — the chat templates of an id; `purge/1` deletes them, and eviction.

`terminate/3` runs when a callback crashes or the process is stopped, but not when a supervisor
shuts it down: the process does not trap exits.

* `Sys`, `Event`, `step` — the model processes, the two servers and their mailboxes.
* `Clean` — nothing is left of a dead process.
-/

/-- A `model_ref` of the backend. -/
abbrev ModelRef := Nat

/-- A `templates_ref`. -/
abbrev Templates := Nat

/-- The phase of a model. -/
inductive Phase where
  | idle | prefilling | generating
deriving DecidableEq

/-- The kind of the last admission. -/
inductive HitKind where
  | exact | partly | cold
deriving DecidableEq

/-- A row of the observability table, without its id. -/
structure ObsRow where
  phase : Phase
  pendingLen : Nat
  lastKind : Option HitKind
  prefixLen : Nat
deriving DecidableEq

/-- `obs_install_initial/1`. -/
def ObsRow.initial : ObsRow := ⟨.idle, 0, none, 0⟩

/-- Where a process is in its callback: between two messages, between the insertion of a ref
    and the cast that follows it, or waiting for the chat cache. -/
inductive Doing where
  | nothing | registering | chatCall
deriving DecidableEq

/-- What the tables depend on in the `#data{}` of a model; the backend may lack
    `get_model_ref/1`. -/
structure Model where
  id : ModelId
  modelRef : Option ModelRef
  chatTemplate : Option Bytes
deriving DecidableEq

/-- What the chat cache is asked. -/
inductive ChatReq where
  | put (pid : Pid) (id : ModelId) (t : Templates)
  | purge (pid : Pid) (id : ModelId)
deriving DecidableEq

/-- `erllama_chat_cache`: the entries with their insertion numbers. -/
structure ChatCache where
  tab : Table ModelId (Templates × Nat)
  seq : Nat
  maxSize : Nat

namespace ChatCache

/-- `lookup/2`. -/
def lookup (c : ChatCache) (id : ModelId) : Option Templates := (c.tab.lookup id).map Prod.fst

/-- The entry with the smallest insertion number, if there is one. -/
def oldest (c : ChatCache) : Option ModelId :=
  (c.tab.entries.foldl
    (fun acc e =>
      match acc with
      | none   => some (e.1, e.2.2)
      | some a => if e.2.2 < a.2 then some (e.1, e.2.2) else some a)
    (none : Option (ModelId × Nat))).map Prod.fst

/-- `evict_oldest/0`. -/
def evictOldest (c : ChatCache) : ChatCache :=
  match c.oldest with
  | some id => { c with tab := c.tab.erase id }
  | none    => c

/-- `handle_call({put, Key, Value}, ...)`. -/
def put (c : ChatCache) (id : ModelId) (t : Templates) : ChatCache :=
  let c1 := { c with tab := c.tab.insert id (t, c.seq + 1), seq := c.seq + 1 }
  if c.maxSize < c1.tab.entries.length then c1.evictOldest else c1

/-- `handle_call({purge, ModelIdBin}, ...)`: a model id has one key at most. -/
def purge (c : ChatCache) (id : ModelId) : ChatCache := { c with tab := c.tab.erase id }

end ChatCache

/-- The model processes (also those that have ended), the tables, and the two servers with what
    waits in their mailboxes. -/
structure Sys where
  models : Table Pid Model
  doing : Pid → Doing
  procs : Procs Proc
  obs : Table ModelId ObsRow
  abort : Table Pid Ref
  inflight : Table Ref Pid
  casts : List Pid
  monitors : List Pid
  chat : ChatCache
  chatBox : List ChatReq

/-- Nothing is loaded; the chat cache holds `maxSize` entries. -/
def Sys.init (maxSize : Nat) : Sys where
  models := ∅
  doing _ := .nothing
  procs := .start
  obs := ∅
  abort := ∅
  inflight := ∅
  casts := []
  monitors := []
  chat := ⟨∅, 0, maxSize⟩
  chatBox := []

/-- The model of a live process. -/
def Sys.live (s : Sys) (pid : Pid) : Option Model :=
  if s.procs.isAlive (.client pid) then s.models.lookup pid else none

/-- Some live process has the id. -/
def Sys.loaded (s : Sys) (id : ModelId) : Bool :=
  s.models.entries.any fun e => s.procs.isAlive (.client e.1) && e.2.id = id

/-! ### The operations -/

/-- `publish_abort_handle/1`: set the handle of the backend's context, or clear it. -/
def publishAbortHandle (pid : Pid) (handle : Option Ref) (s : Sys) : Sys :=
  match handle with
  | some h => { s with abort := s.abort.insert pid h }
  | none   => { s with abort := s.abort.erase pid }

/-- The process goes on with something else. -/
def setDoing (pid : Pid) (d : Doing) (s : Sys) : Sys :=
  { s with doing := Function.update s.doing pid d }

/-- `erllama_model:init/1`. -/
def load (pid : Pid) (m : Model) (handle : Option Ref) (s : Sys) : Sys :=
  publishAbortHandle pid handle
    { s with
      models := s.models.insert pid m
      obs := s.obs.insert m.id .initial }

/-- The templates that `do_chat_apply/2` applies, if the backend has a model ref. -/
def templatesFor (build : ModelRef → Option Bytes → Option Templates) (m : Model) (s : Sys) :
    Option Templates :=
  m.modelRef.bind fun r =>
    match s.chat.lookup m.id with
    | some t => some t
    | none   => build r m.chatTemplate

/-- `do_chat_apply/2` up to the call of the cache server: a cached ref is used as it is, a new
    one is built from the process's own model and sent to the cache. -/
def chatApply (build : ModelRef → Option Bytes → Option Templates) (pid : Pid) (m : Model)
    (s : Sys) : Sys :=
  match m.modelRef, s.chat.lookup m.id with
  | some r, none =>
    match build r m.chatTemplate with
    | some t => setDoing pid .chatCall { s with chatBox := s.chatBox ++ [.put pid m.id t] }
    | none   => s
  | _, _         => s

/-- `terminate/3`, as far as the tables go. -/
def terminate (pid : Pid) (m : Model) (s : Sys) : Sys :=
  { s with obs := s.obs.erase m.id, abort := s.abort.erase pid }

/-- The process is gone. -/
def Sys.exit (s : Sys) (pid : Pid) : Sys := { s with procs := s.procs.exit (.client pid) }

/-- `handle_cast({monitor_model, Pid}, S)`. -/
def handleMonitorModel (pid : Pid) (s : Sys) : Sys :=
  if pid ∈ s.monitors then s
  else { s with procs := s.procs.monitor .server (.client pid), monitors := pid :: s.monitors }

/-- `handle_info({'DOWN', ...}, S)`: the refs and the handle of the process go. -/
def handleDown (w : Monitor Proc) (pid : Pid) (s : Sys) : Sys :=
  { s with
    procs := s.procs.receive w
    inflight := (s.inflight.entries.filter fun e => e.2 = pid).foldl (fun t e => t.erase e.1)
      s.inflight
    abort := s.abort.erase pid
    monitors := s.monitors.filter (· ≠ pid) }

/-- The caller of the chat cache has its answer. -/
def answered (pid : Pid) (s : Sys) : Sys :=
  if s.doing pid = .chatCall then setDoing pid .nothing s else s

/-- The chat cache serves a request. -/
def handleChat (req : ChatReq) (s : Sys) : Sys :=
  match req with
  | .put pid id t => answered pid { s with chat := s.chat.put id t }
  | .purge pid id => answered pid { s with chat := s.chat.purge id }

/-! ### Runs -/

/-- How a process ends: it is stopped, a callback crashes, or an exit signal kills it, as the
    shutdown of a supervisor does. -/
inductive Cause where
  | stop | crash | shutdown
deriving DecidableEq

/-- What happens next. -/
inductive Event where
  | load (pid : Pid) (m : Model) (handle : Option Ref)
  | obsRefresh (pid : Pid) (row : ObsRow)
  | register (pid : Pid) (ref : Ref)
  | castMonitor (pid : Pid)
  | unregister (pid : Pid) (ref : Ref)
  | recover (pid : Pid) (handle : Option Ref)
  | chatApply (pid : Pid)
  | chatPurge (pid : Pid)
  | ends (pid : Pid) (cause : Cause)
  | handleCast
  | handleDown
  | handleChat

/-- What a live process does next; it handles a message only when it is not in the middle of
    another. -/
def modelStep (build : ModelRef → Option Bytes → Option Templates) (s : Sys) (pid : Pid)
    (m : Model) : Event → Sys
  | .obsRefresh _ row   =>
    if s.doing pid = .nothing then { s with obs := s.obs.insert m.id row } else s
  -- the row of the stream comes before the cast that has the model monitored
  | .register _ ref     =>
    if s.doing pid = .nothing ∧ s.inflight.lookup ref = none then
      setDoing pid .registering { s with inflight := s.inflight.insert ref pid }
    else s
  | .castMonitor _      =>
    if s.doing pid = .registering then setDoing pid .nothing { s with casts := s.casts ++ [pid] }
    else s
  | .unregister _ ref   =>
    if s.doing pid = .nothing then { s with inflight := s.inflight.erase ref } else s
  | .recover _ handle   => if s.doing pid = .nothing then publishAbortHandle pid handle s else s
  | .chatApply _        => if s.doing pid = .nothing then chatApply build pid m s else s
  | .chatPurge _        =>
    if s.doing pid = .nothing then
      setDoing pid .chatCall { s with chatBox := s.chatBox ++ [.purge pid m.id] }
    else s
  | .ends _ .stop       => if s.doing pid = .nothing then (terminate pid m s).exit pid else s
  | .ends _ .crash      => if s.doing pid = .registering then s else (terminate pid m s).exit pid
  -- without `trap_exit` a supervisor's shutdown runs no `terminate/3`
  | .ends _ .shutdown   => s.exit pid
  | _                   => s

/-- The process an event belongs to. -/
def Event.pid : Event → Option Pid
  | .obsRefresh pid _ | .register pid _ | .castMonitor pid | .unregister pid _ | .recover pid _
  | .chatApply pid | .chatPurge pid | .ends pid _ => some pid
  | _ => none

/-- The first report of a death that the tracking server has not handled. -/
def Sys.firstDown (s : Sys) : Option (Monitor Proc × Pid) :=
  s.procs.downs.findSome? fun w =>
    match w with
    | ⟨_, .server, .client pid⟩ => some (w, pid)
    | _                         => none

/-- One step.  A process is loaded once, under an id that no live process has: the registry
    sees to that. -/
def step (build : ModelRef → Option Bytes → Option Templates) (s : Sys) (e : Event) : Sys :=
  match e with
  | .load pid m handle =>
    if s.procs.isAlive (.client pid) ∧ s.models.lookup pid = none ∧ ¬ s.loaded m.id then
      load pid m handle s
    else s
  | .handleCast        =>
    match s.casts with
    | []          => s
    | pid :: rest => handleMonitorModel pid { s with casts := rest }
  | .handleDown        =>
    match s.firstDown with
    | none          => s
    | some (w, pid) => handleDown w pid s
  | .handleChat        =>
    match s.chatBox with
    | []          => s
    | req :: rest => handleChat req { s with chatBox := rest }
  | e                  =>
    match e.pid.bind fun pid => (s.live pid).map fun m => (pid, m) with
    | none          => s
    | some (pid, m) => modelStep build s pid m e

/-! ### What is left -/

/-- The lock-free accessors (`phase/1`, `pending_len/1`, `last_cache_hit/1`) read the row. -/
def obs {α : Type} (s : Sys) (id : ModelId) (project : ObsRow → α) : Option α :=
  (s.obs.lookup id).map project

/-- The servers have handled their messages. -/
def Sys.Settled (s : Sys) : Prop :=
  s.casts = [] ∧ s.firstDown = none ∧ s.chatBox = []

/-- The step ends a process well: `terminate/3` runs, and the chat cache has no templates of
    its id, nor has it been sent any. -/
def EndsWell (s : Sys) : Event → Prop
  | .ends pid cause => ∀ m, s.live pid = some m →
      cause ≠ .shutdown ∧ s.chat.lookup m.id = none ∧ ∀ t, .put pid m.id t ∉ s.chatBox
  | _               => True

/-- Nothing is left of a process that has ended: none of its refs, no handle, so no context;
    and, unless its id is loaded again, no row, so `not_loaded` from every accessor, and no
    templates.  A model that is loaded gets templates made from itself. -/
structure Clean (build : ModelRef → Option Bytes → Option Templates) (s : Sys) : Prop where
  inflight : ∀ ref pid, s.inflight.lookup ref = some pid → s.procs.isAlive (.client pid) = true
  abort : ∀ pid h, s.abort.lookup pid = some h → s.procs.isAlive (.client pid) = true
  obs : ∀ (α : Type) (project : ObsRow → α) id, s.loaded id = false → obs s id project = none
  chat : ∀ id, s.loaded id = false → s.chat.lookup id = none
  own : ∀ pid m, s.live pid = some m →
    templatesFor build m s = m.modelRef.bind fun r => build r m.chatTemplate

/-! ### The chat cache -/

namespace ChatCache

variable {c : ChatCache} {id id' : ModelId} {t t' : Templates}

/-- Eviction only takes entries away. -/
theorem lookup_evictOldest (h : c.evictOldest.lookup id = some t) : c.lookup id = some t := by
  unfold evictOldest at h
  cases ho : c.oldest with
  | none    => rwa [ho] at h
  | some id' =>
    rw [ho] at h
    simp only [lookup, AList.lookup_erase_ite] at h
    split at h
    · cases h
    · exact h

/-- After an insertion the cache has what it had and the new entry, at most. -/
theorem lookup_put (h : (c.put id t).lookup id' = some t') :
    (id' = id ∧ t' = t) ∨ c.lookup id' = some t' := by
  have hinsert : ({ c with tab := c.tab.insert id (t, c.seq + 1), seq := c.seq + 1 } :
      ChatCache).lookup id' = some t' := by
    unfold put at h
    dsimp only at h
    split at h
    · exact lookup_evictOldest h
    · exact h
  simp only [lookup, AList.lookup_insert_ite] at hinsert
  split at hinsert
  · rename_i hid
    exact Or.inl ⟨hid, (Option.some.inj hinsert).symm⟩
  · exact Or.inr hinsert

/-- A purge adds nothing. -/
theorem lookup_purge (h : (c.purge id).lookup id' = some t) : c.lookup id' = some t := by
  simp only [lookup, purge, AList.lookup_erase_ite] at h
  split at h
  · cases h
  · exact h

end ChatCache

/-! ### The invariant -/

section Invariant

variable (build : ModelRef → Option Bytes → Option Templates)

/-- The templates are those of a live process with that id. -/
def Sys.Owned (s : Sys) (id : ModelId) (t : Templates) : Prop :=
  ∃ pid m r, s.live pid = some m ∧ m.id = id ∧ m.modelRef = some r ∧
    build r m.chatTemplate = some t

/-- What holds as long as every process ends well: everything belongs to a live process, and
    whoever has a ref is watched, or about to be. -/
structure Kept (s : Sys) : Prop where
  distinct : ∀ p q m m', s.live p = some m → s.live q = some m' → m.id = m'.id → p = q
  active : s.procs.Active
  obs : ∀ id row, s.obs.lookup id = some row → ∃ pid m, s.live pid = some m ∧ m.id = id
  row : ∀ pid m, s.live pid = some m → ∃ row, s.obs.lookup m.id = some row
  abort : ∀ pid h, s.abort.lookup pid = some h → ∃ m, s.live pid = some m
  inflight : ∀ ref pid, s.inflight.lookup ref = some pid →
    (s.procs.isAlive (.client pid) = true ∧ s.doing pid = .registering) ∨ pid ∈ s.casts ∨
      pid ∈ s.monitors
  monitors : ∀ pid ∈ s.monitors, s.procs.Watches .server (.client pid)
  chat : ∀ id t, s.chat.lookup id = some t → s.Owned build id t
  box : ∀ pid id t, .put pid id t ∈ s.chatBox →
    ∃ m r, s.live pid = some m ∧ m.id = id ∧ m.modelRef = some r ∧ build r m.chatTemplate = some t

end Invariant

variable {build : ModelRef → Option Bytes → Option Templates} {s : Sys}

/-- A model is live iff its process is alive and knows it. -/
theorem live_iff {pid : Pid} {m : Model} :
    s.live pid = some m ↔ s.procs.isAlive (.client pid) = true ∧ s.models.lookup pid = some m := by
  unfold Sys.live
  split <;> simp_all

/-- A model is loaded iff a live process has it. -/
theorem loaded_iff {id : ModelId} :
    s.loaded id = true ↔ ∃ pid m, s.live pid = some m ∧ m.id = id := by
  simp only [Sys.loaded, List.any_eq_true, Bool.and_eq_true, decide_eq_true_eq, live_iff]
  constructor
  · rintro ⟨⟨pid, m⟩, hmem, halive, hid⟩
    exact ⟨pid, m, ⟨halive, AList.mem_entries_iff.mp hmem⟩, hid⟩
  · rintro ⟨pid, m, ⟨halive, hm⟩, hid⟩
    exact ⟨⟨pid, m⟩, AList.mem_entries_iff.mpr hm, halive, hid⟩

/-- The processes that are alive after one has ended. -/
theorem live_exit_iff {pid q : Pid} {m : Model} :
    (s.exit pid).live q = some m ↔ q ≠ pid ∧ s.live q = some m := by
  rw [live_iff, live_iff]
  simp only [Sys.exit, Procs.isAlive_exit_iff, ne_eq, Proc.client.injEq]
  tauto

/-- At the start the cache is empty. -/
theorem kept_init (maxSize : Nat) : Kept build (Sys.init maxSize) where
  distinct p q m m' hp := by
    rw [live_iff] at hp
    cases hp.2
  active := Procs.active_start
  obs := nofun
  row pid m hm := by
    rw [live_iff] at hm
    cases hm.2
  abort := nofun
  inflight := nofun
  monitors := nofun
  chat := nofun
  box := nofun

namespace Kept

variable (h : Kept build s) {pid : Pid} {m : Model}

include h

/-- A live process sets or clears its abort handle. -/
theorem publishAbortHandle (hm : s.live pid = some m) (handle : Option Ref) :
    Kept build (publishAbortHandle pid handle s) := by
  cases handle with
  | none   =>
    refine { h with abort := fun q k hq => ?_ }
    dsimp only [Tracking.publishAbortHandle] at hq
    rw [AList.lookup_erase_ite] at hq
    split at hq
    · cases hq
    · exact h.abort q k hq
  | some k =>
    refine { h with abort := fun q k' hq => ?_ }
    dsimp only [Tracking.publishAbortHandle] at hq
    rw [AList.lookup_insert_ite] at hq
    split at hq
    · rename_i hqp
      exact ⟨m, hqp ▸ hm⟩
    · exact h.abort q k' hq

/-- A process starts, under an id that is not loaded. -/
theorem load (halive : s.procs.isAlive (.client pid) = true) (hnew : s.models.lookup pid = none)
    (hid : s.loaded m.id = false) (handle : Option Ref) : Kept build (load pid m handle s) := by
  set s1 : Sys := { s with models := s.models.insert pid m, obs := s.obs.insert m.id .initial }
    with hs1
  -- The one process that is live now and was not before is the new one.
  have hlive : ∀ q m', s1.live q = some m' ↔ (q = pid ∧ m' = m) ∨ s.live q = some m' := by
    intro q m'
    rw [live_iff, live_iff]
    show s.procs.isAlive (.client q) = true ∧ (s.models.insert pid m).lookup q = some m' ↔ _
    rw [AList.lookup_insert_ite]
    by_cases hq : q = pid
    · subst hq
      simp [halive, hnew, eq_comm]
    · simp [hq]
  have hstays : ∀ q m', s.live q = some m' → s1.live q = some m' :=
    fun q m' hq => (hlive q m').mpr (Or.inr hq)
  -- No live process serves the new id: the loader checked that.
  have hother : ∀ q m', s.live q = some m' → m'.id ≠ m.id := fun q m' hq heq =>
    Bool.eq_false_iff.mp hid (loaded_iff.mpr ⟨q, m', hq, heq⟩)
  have hnow : s1.live pid = some m := (hlive pid m).mpr (Or.inl ⟨rfl, rfl⟩)
  refine Kept.publishAbortHandle ?_ hnow handle
  refine { h with distinct := ?_, obs := ?_, row := ?_, abort := ?_, chat := ?_, box := ?_ }
  · intro p q m' m'' hp hq heq
    rcases (hlive p m').mp hp with ⟨rfl, rfl⟩ | hp'
    · rcases (hlive q m'').mp hq with ⟨rfl, rfl⟩ | hq'
      · rfl
      · exact absurd heq.symm (hother q m'' hq')
    · rcases (hlive q m'').mp hq with ⟨rfl, rfl⟩ | hq'
      · exact absurd heq (hother p m' hp')
      · exact h.distinct p q m' m'' hp' hq' heq
  · intro id row hrow
    rw [AList.lookup_insert_ite] at hrow
    split at hrow
    · rename_i heq
      exact ⟨pid, m, hnow, heq.symm⟩
    · obtain ⟨q, m', hq, hqid⟩ := h.obs id row hrow
      exact ⟨q, m', hstays q m' hq, hqid⟩
  · intro q m' hq
    show ∃ row, (s.obs.insert m.id .initial).lookup m'.id = some row
    rw [AList.lookup_insert_ite]
    split
    · exact ⟨_, rfl⟩
    · rename_i hne
      rcases (hlive q m').mp hq with ⟨-, rfl⟩ | hq'
      · exact absurd rfl hne
      · exact h.row q m' hq'
  · intro q k hq
    obtain ⟨m', hm'⟩ := h.abort q k hq
    exact ⟨m', hstays q m' hm'⟩
  · intro id t ht
    obtain ⟨q, m', r, hq, hrest⟩ := h.chat id t ht
    exact ⟨q, m', r, hstays q m' hq, hrest⟩
  · intro q id t hmem
    obtain ⟨m', r, hq, hrest⟩ := h.box q id t hmem
    exact ⟨m', r, hstays q m' hq, hrest⟩

/-- A process that is not registering a ref goes on with something else. -/
theorem setDoing (d : Doing) (hd : s.doing pid ≠ .registering) :
    Kept build (setDoing pid d s) := by
  refine { h with inflight := fun ref q hq => ?_ }
  refine (h.inflight ref q hq).imp (fun hreg => ⟨hreg.1, ?_⟩) id
  have hne : q ≠ pid := by
    rintro rfl
    exact hd hreg.2
  exact (Function.update_of_ne hne ..).trans hreg.2

/-- An answer keeps the cache. -/
theorem answered : Kept build (answered pid s) := by
  unfold Tracking.answered
  split
  · rename_i hcall
    exact h.setDoing _ (by simp [hcall])
  · exact h

/-- A live process inserts a ref; it has yet to ask for the monitor. -/
theorem register (hm : s.live pid = some m) (hd : s.doing pid = .nothing) (ref : Ref) :
    Kept build (Tracking.setDoing pid .registering
      { s with inflight := s.inflight.insert ref pid }) := by
  refine { h with inflight := fun ref' q hq => ?_ }
  dsimp only [Tracking.setDoing] at hq ⊢
  rw [AList.lookup_insert_ite] at hq
  by_cases hqp : q = pid
  · subst hqp
    exact Or.inl ⟨(live_iff.mp hm).1, Function.update_self ..⟩
  · split at hq
    · exact absurd (Option.some.inj hq).symm hqp
    · refine (h.inflight ref' q hq).imp (fun hreg => ⟨hreg.1, ?_⟩) id
      exact (Function.update_of_ne hqp ..).trans hreg.2

/-- It asks for the monitor. -/
theorem castMonitor : Kept build (Tracking.setDoing pid .nothing
    { s with casts := s.casts ++ [pid] }) := by
  refine { h with inflight := fun ref q hq => ?_ }
  dsimp only [Tracking.setDoing]
  by_cases hqp : q = pid
  · subst hqp
    exact Or.inr (Or.inl (List.mem_append_right _ (List.mem_singleton.mpr rfl)))
  · rcases h.inflight ref q hq with hreg | hcast | hmon
    · exact Or.inl ⟨hreg.1, (Function.update_of_ne hqp ..).trans hreg.2⟩
    · exact Or.inr (Or.inl (List.mem_append_left _ hcast))
    · exact Or.inr (Or.inr hmon)

/-- A request deletes its ref. -/
theorem unregister (ref : Ref) : Kept build { s with inflight := s.inflight.erase ref } := by
  refine { h with inflight := fun ref' q hq => ?_ }
  dsimp only at hq
  rw [AList.lookup_erase_ite] at hq
  split at hq
  · cases hq
  · exact h.inflight ref' q hq

/-- A live process refreshes its row. -/
theorem obsRefresh (hm : s.live pid = some m) (row : ObsRow) :
    Kept build { s with obs := s.obs.insert m.id row } := by
  refine { h with obs := fun id r hr => ?_, row := fun q m' hq => ?_ }
  · dsimp only at hr
    rw [AList.lookup_insert_ite] at hr
    split at hr
    · rename_i heq
      exact ⟨pid, m, hm, heq.symm⟩
    · exact h.obs id r hr
  · dsimp only
    rw [AList.lookup_insert_ite]
    split
    · exact ⟨row, rfl⟩
    · exact h.row q m' hq

/-- A live process asks the chat cache for something. -/
theorem request (req : ChatReq)
    (hreq : ∀ q id t, req = .put q id t → ∃ m r, s.live q = some m ∧ m.id = id ∧
      m.modelRef = some r ∧ build r m.chatTemplate = some t) :
    Kept build { s with chatBox := s.chatBox ++ [req] } := by
  refine { h with box := fun q id t hmem => ?_ }
  rcases List.mem_append.mp hmem with hmem | hmem
  · exact h.box q id t hmem
  · exact hreq q id t (List.mem_singleton.mp hmem).symm

/-- The chat cache serves its first request. -/
theorem handleChat {req : ChatReq} {rest : List ChatReq} (hbox : s.chatBox = req :: rest) :
    Kept build (handleChat req { s with chatBox := rest }) := by
  have hrest : ∀ q id t, .put q id t ∈ rest → .put q id t ∈ s.chatBox := by
    intro q id t hmem
    rw [hbox]
    exact List.mem_cons_of_mem req hmem
  cases req with
  | put pid id t =>
    have hput : Kept build { s with chat := s.chat.put id t, chatBox := rest } := by
      refine { h with chat := fun id' t' hlookup => ?_, box := fun q id' t' hmem => ?_ }
      · rcases ChatCache.lookup_put hlookup with ⟨rfl, rfl⟩ | hold
        · obtain ⟨m, r, hm, hid, hr, ht⟩ := h.box pid id' t' (hbox ▸ List.mem_cons_self)
          exact ⟨pid, m, r, hm, hid, hr, ht⟩
        · exact h.chat id' t' hold
      · exact h.box q id' t' (hrest q id' t' hmem)
    exact hput.answered
  | purge pid id =>
    have hpurge : Kept build { s with chat := s.chat.purge id, chatBox := rest } := by
      refine { h with chat := fun id' t' hlookup => ?_, box := fun q id' t' hmem => ?_ }
      · exact h.chat id' t' (ChatCache.lookup_purge hlookup)
      · exact h.box q id' t' (hrest q id' t' hmem)
    exact hpurge.answered

/-- The tracking server watches a process that has a ref. -/
theorem handleMonitorModel {rest : List Pid} (hcasts : s.casts = pid :: rest) :
    Kept build (handleMonitorModel pid { s with casts := rest }) := by
  -- The cast is taken: whoever it was for is monitored from now on.
  have hcases : ∀ ref q, s.inflight.lookup ref = some q →
      (s.procs.isAlive (.client q) = true ∧ s.doing q = .registering) ∨ q ∈ rest ∨
        q = pid ∨ q ∈ s.monitors := by
    intro ref q hq
    rcases h.inflight ref q hq with hreg | hcast | hmon
    · exact Or.inl hreg
    · rw [hcasts] at hcast
      rcases List.mem_cons.mp hcast with heq | hmem
      · exact Or.inr (Or.inr (Or.inl heq))
      · exact Or.inr (Or.inl hmem)
    · exact Or.inr (Or.inr (Or.inr hmon))
  unfold Tracking.handleMonitorModel
  split
  -- It was monitored already.
  · rename_i hmem
    refine { h with inflight := fun ref q hq => ?_ }
    rcases hcases ref q hq with hreg | hrest | rfl | hmon
    · exact Or.inl hreg
    · exact Or.inr (Or.inl hrest)
    · exact Or.inr (Or.inr hmem)
    · exact Or.inr (Or.inr hmon)
  · have hlive : ∀ q, Sys.live { s with
        casts := rest, procs := s.procs.monitor .server (.client pid)
        monitors := pid :: s.monitors } q = s.live q := by
      intro q
      simp only [Sys.live, Procs.isAlive_monitor]
    constructor
    case distinct =>
      intro p q m m' hp hq
      exact h.distinct p q m m' (hlive p ▸ hp) (hlive q ▸ hq)
    case active => exact h.active.monitor _ _
    case obs =>
      intro id row hrow
      obtain ⟨q, m, hq, hid⟩ := h.obs id row hrow
      exact ⟨q, m, (hlive q).trans hq, hid⟩
    case row => exact fun q m hq => h.row q m (hlive q ▸ hq)
    case abort =>
      intro q k hq
      obtain ⟨m, hm⟩ := h.abort q k hq
      exact ⟨m, (hlive q).trans hm⟩
    case inflight =>
      intro ref q hq
      -- a stream of this model is covered by the monitor
      rcases hcases ref q hq with hreg | hrest | rfl | hmon
      · exact Or.inl ⟨(Procs.isAlive_monitor).trans hreg.1, hreg.2⟩
      · exact Or.inr (Or.inl hrest)
      · exact Or.inr (Or.inr List.mem_cons_self)
      · exact Or.inr (Or.inr (List.mem_cons_of_mem _ hmon))
    case monitors =>
      intro q hq
      rcases List.mem_cons.mp hq with rfl | hq
      · exact Procs.watches_monitor (by simp)
      · exact (h.monitors q hq).monitor _ _
    case chat =>
      intro id t ht
      obtain ⟨q, m, r, hq, hrest⟩ := h.chat id t ht
      exact ⟨q, m, r, (hlive q).trans hq, hrest⟩
    case box =>
      intro q id t hmem
      obtain ⟨m, r, hq, hrest⟩ := h.box q id t hmem
      exact ⟨m, r, (hlive q).trans hq, hrest⟩

/-- The tracking server hears of a death: what the process had in its tables goes. -/
theorem handleDown {w : Monitor Proc} (hw : w.target = .client pid) :
    Kept build (handleDown w pid s) := by
  have hgone : ∀ ref q, (Tracking.handleDown w pid s).inflight.lookup ref = some q →
      q ≠ pid ∧ s.inflight.lookup ref = some q := by
    intro ref q hq
    simp only [Tracking.handleDown] at hq
    rw [AList.lookup_foldl_erase] at hq
    split at hq
    · cases hq
    · rename_i hnot
      refine ⟨?_, hq⟩
      rintro rfl
      refine hnot (List.mem_map.mpr ⟨⟨ref, q⟩, List.mem_filter.mpr ⟨?_, decide_eq_true rfl⟩, rfl⟩)
      exact AList.mem_entries_iff.mpr hq
  refine { h with
    abort := fun q k hq => ?_, inflight := fun ref q hq => ?_, monitors := fun q hq => ?_ }
  · dsimp only [Tracking.handleDown] at hq
    rw [AList.lookup_erase_ite] at hq
    split at hq
    · cases hq
    · exact h.abort q k hq
  · obtain ⟨hne, hq⟩ := hgone ref q hq
    refine (h.inflight ref q hq).imp id (Or.imp id fun hmon => ?_)
    exact List.mem_filter.mpr ⟨hmon, decide_eq_true hne⟩
  · obtain ⟨hq, hne⟩ := List.mem_filter.mp hq
    refine (h.monitors q hq).receive ?_
    rw [hw]
    simpa using Ne.symm (of_decide_eq_true hne)

/-- A process ends after `terminate/3`; nothing else of it is left in the chat cache. -/
theorem terminate (hm : s.live pid = some m) (hd : s.doing pid ≠ .registering)
    (hchat : s.chat.lookup m.id = none) (hbox : ∀ t, .put pid m.id t ∉ s.chatBox) :
    Kept build ((terminate pid m s).exit pid) := by
  have hlive : ∀ q m', ((Tracking.terminate pid m s).exit pid).live q = some m' ↔
      q ≠ pid ∧ s.live q = some m' := fun q m' => live_exit_iff
  -- The models that are left have other ids, since two live ones never share one.
  have hother : ∀ q m', s.live q = some m' → m'.id ≠ m.id → q ≠ pid := by
    rintro q m' hq hid rfl
    rw [hm] at hq
    exact hid (congrArg Model.id (Option.some.inj hq)).symm
  constructor
  case distinct =>
    intro p q m' m'' hp hq
    exact h.distinct p q m' m'' ((hlive p m').mp hp).2 ((hlive q m'').mp hq).2
  case active => exact h.active.exit _
  case obs =>
    intro id row hrow
    dsimp only [Sys.exit, Tracking.terminate] at hrow
    rw [AList.lookup_erase_ite] at hrow
    split at hrow
    · cases hrow
    · rename_i hid
      obtain ⟨q, m', hq, rfl⟩ := h.obs id row hrow
      exact ⟨q, m', (hlive q m').mpr ⟨hother q m' hq hid, hq⟩, rfl⟩
  -- the row of a model that is left was not the one erased
  case row =>
    intro q m' hq
    obtain ⟨hne, hq⟩ := (hlive q m').mp hq
    dsimp only [Sys.exit, Tracking.terminate]
    rw [AList.lookup_erase_ite]
    split
    · rename_i hid
      exact absurd (h.distinct q pid m' m hq hm hid) hne
    · exact h.row q m' hq
  case abort =>
    intro q k hq
    dsimp only [Sys.exit, Tracking.terminate] at hq
    rw [AList.lookup_erase_ite] at hq
    split at hq
    · cases hq
    · rename_i hne
      obtain ⟨m', hm'⟩ := h.abort q k hq
      exact ⟨m', (hlive q m').mpr ⟨hne, hm'⟩⟩
  case inflight =>
    intro ref q hq
    refine (h.inflight ref q hq).imp (fun hreg => ⟨?_, hreg.2⟩) id
    refine Procs.isAlive_exit_iff.mpr ⟨?_, hreg.1⟩
    -- the process that ends is not in the middle of a registration
    rintro heq
    obtain rfl := Proc.client.inj heq
    exact hd hreg.2
  case monitors => exact fun q hq => (h.monitors q hq).exit (by simp)
  case chat =>
    intro id t ht
    obtain ⟨q, m', r, hq, rfl, hrest⟩ := h.chat id t ht
    -- its template is another model's
    have hid : m'.id ≠ m.id := by
      intro heq
      have hnone : s.chat.lookup m'.id = none := heq ▸ hchat
      rw [show s.chat.lookup m'.id = some t from ht] at hnone
      cases hnone
    exact ⟨q, m', r, (hlive q m').mpr ⟨hother q m' hq hid, hq⟩, rfl, hrest⟩
  case box =>
    intro q id t hmem
    obtain ⟨m', r, hq, rfl, hrest⟩ := h.box q id t hmem
    -- nothing of this model is in the mailbox
    have hne : q ≠ pid := by
      rintro rfl
      rw [hm] at hq
      obtain rfl := Option.some.inj hq
      exact hbox t hmem
    exact ⟨m', r, (hlive q m').mpr ⟨hne, hq⟩, rfl, hrest⟩

end Kept

/-- The report that the tracking server handles next is one of a death. -/
theorem firstDown_target {w : Monitor Proc} {pid : Pid} (h : s.firstDown = some (w, pid)) :
    w.target = .client pid := by
  obtain ⟨w', -, hw'⟩ := List.exists_of_findSome?_eq_some h
  split at hw'
  · obtain ⟨rfl, rfl⟩ := Prod.mk.inj (Option.some.inj hw')
    rfl
  · cases hw'

/-- An event of a process that is no more changes nothing. -/
theorem modelStep_kept (h : Kept build s) (e : Event)
    (hstep : ∀ pid m, e.pid = some pid → s.live pid = some m →
      Kept build (modelStep build s pid m e)) :
    Kept build (match e.pid.bind fun pid => (s.live pid).map fun m => (pid, m) with
      | none          => s
      | some (pid, m) => modelStep build s pid m e) := by
  split
  · exact h
  · rename_i pid m heq
    obtain ⟨p, hp, hbind⟩ := Option.bind_eq_some_iff.mp heq
    obtain ⟨m', hm', hpair⟩ := Option.map_eq_some_iff.mp hbind
    obtain ⟨rfl, rfl⟩ := Prod.mk.inj hpair
    exact hstep p m' hp hm'

/-- **One step** in which a process that ends does so well. -/
theorem step_kept (e : Event) (h : Kept build s) (he : EndsWell s e) :
    Kept build (step build s e) := by
  have hmodel := modelStep_kept h
  cases e with
  | load pid m handle =>
    simp only [step]
    split
    · rename_i hcond
      exact h.load hcond.1 hcond.2.1 (Bool.eq_false_iff.mpr hcond.2.2) handle
    · exact h
  -- The servers take what waits for them; without any, nothing happens.
  | handleCast =>
    simp only [step]
    split
    · exact h
    · rename_i pid rest hcasts
      exact h.handleMonitorModel hcasts
  | handleDown =>
    simp only [step]
    split
    · exact h
    · rename_i w pid hdown
      exact h.handleDown (firstDown_target hdown)
  | handleChat =>
    simp only [step]
    split
    · exact h
    · rename_i req rest hbox
      exact h.handleChat hbox
  -- What a model does itself: `hmodel` gives the model that runs as `pid`.
  | obsRefresh pid row =>
    refine hmodel _ fun p m hp hm => ?_
    obtain rfl := Option.some.inj hp
    simp only [modelStep]
    split
    · exact h.obsRefresh hm row
    · exact h
  | register pid ref =>
    refine hmodel _ fun p m hp hm => ?_
    obtain rfl := Option.some.inj hp
    simp only [modelStep]
    split
    · rename_i hcond
      exact h.register hm hcond.1 ref
    · exact h
  | castMonitor pid =>
    refine hmodel _ fun p m hp hm => ?_
    obtain rfl := Option.some.inj hp
    simp only [modelStep]
    split
    · exact h.castMonitor
    · exact h
  | unregister pid ref =>
    refine hmodel _ fun p m hp hm => ?_
    simp only [modelStep]
    split
    · exact h.unregister ref
    · exact h
  | recover pid handle =>
    refine hmodel _ fun p m hp hm => ?_
    simp only [modelStep]
    split
    · exact h.publishAbortHandle hm handle
    · exact h
  | chatApply pid =>
    refine hmodel _ fun p m hp hm => ?_
    obtain rfl := Option.some.inj hp
    simp only [modelStep]
    split
    · rename_i hidle
      unfold chatApply
      split
      · rename_i r hr hmiss
        split
        · rename_i t ht
          have hbusy : s.doing pid ≠ .registering := by simp [hidle]
          refine (h.request (.put pid m.id t) ?_).setDoing .chatCall hbusy
          intro q id t' heq
          obtain ⟨rfl, rfl, rfl⟩ := ChatReq.put.inj heq
          exact ⟨m, r, hm, rfl, hr, ht⟩
        · exact h
      · exact h
    · exact h
  | chatPurge pid =>
    refine hmodel _ fun p m hp hm => ?_
    obtain rfl := Option.some.inj hp
    simp only [modelStep]
    split
    · rename_i hidle
      have hbusy : s.doing pid ≠ .registering := by simp [hidle]
      exact (h.request (.purge pid m.id) (by rintro _ _ _ ⟨⟩)).setDoing .chatCall hbusy
    · exact h
  -- The ends: `EndsWell` rules the shutdown out and gives an empty mailbox.
  | ends pid cause =>
    refine hmodel _ fun p m hp hm => ?_
    obtain rfl := Option.some.inj hp
    obtain ⟨hcause, hchat, hbox⟩ := he m hm
    cases cause with
    | stop =>
      simp only [modelStep]
      split
      · rename_i hidle
        exact h.terminate hm (by simp [hidle]) hchat hbox
      · exact h
    | crash =>
      simp only [modelStep]
      split
      · exact h
      · rename_i hbusy
        exact h.terminate hm hbusy hchat hbox
    | shutdown => exact absurd rfl hcause

/-- **What is kept belongs to the living**, so nothing is left of the dead. -/
theorem Kept.clean (h : Kept build s) (hs : s.Settled) : Clean build s where
  inflight ref pid href := by
    rcases h.inflight ref pid href with hreg | hcast | hmon
    · exact hreg.1
    · rw [hs.1] at hcast
      cases hcast
    · -- a watched process that were dead would have its report pending
      by_contra hdead
      rw [Procs.isAlive_iff, not_not] at hdead
      obtain ⟨w, hw, howner, htarget⟩ := (h.monitors pid hmon).pending h.active hdead
      have hnone := List.findSome?_eq_none_iff.mp hs.2.1 w hw
      obtain ⟨r, o, q⟩ := w
      subst howner htarget
      cases hnone
  abort pid k hk := by
    obtain ⟨m, hm⟩ := h.abort pid k hk
    exact (live_iff.mp hm).1
  obs α project id hid := by
    cases hrow : s.obs.lookup id with
    | none     => simp only [Tracking.obs, hrow, Option.map_none]
    | some row =>
      obtain ⟨pid, m, hm, hmid⟩ := h.obs id row hrow
      rw [loaded_iff.mpr ⟨pid, m, hm, hmid⟩] at hid
      cases hid
  chat id hid := by
    cases ht : s.chat.lookup id with
    | none   => rfl
    | some t =>
      obtain ⟨pid, m, r, hm, hmid, -⟩ := h.chat id t ht
      rw [loaded_iff.mpr ⟨pid, m, hm, hmid⟩] at hid
      cases hid
  own pid m hm := by
    unfold templatesFor
    cases ht : s.chat.lookup m.id with
    | none   => rfl
    | some t =>
      obtain ⟨q, m', r, hm', hid, hr, hbuild⟩ := h.chat m.id t ht
      obtain rfl := h.distinct q pid m' m hm' hm hid
      rw [hm] at hm'
      obtain rfl := Option.some.inj hm'
      rw [hr, Option.bind_some, Option.bind_some, hbuild]

/-- **Unloading leaves nothing behind, if every process ends well.** -/
theorem run_clean (build : ModelRef → Option Bytes → Option Templates) (maxSize : Nat)
    (es : List Event) (hes : AllSteps (step build) EndsWell (Sys.init maxSize) es)
    (pre : List Event) (hpre : pre <+: es)
    (hs : (run (step build) (Sys.init maxSize) pre).Settled) :
    Clean build (run (step build) (Sys.init maxSize) pre) := by
  obtain ⟨rest, rfl⟩ := hpre
  exact (AllSteps.invariant (fun s e h he => step_kept e h he) (kept_init maxSize)
    hes.of_append).clean hs

/-- **A bad end leaves something behind**: after a shutdown the row of the id stays, and after
    any end its templates do. -/
theorem Kept.end_leaves (h : Kept build s) {pid : Pid} {m : Model} (hm : s.live pid = some m)
    {s' : Sys} (hs' : s' = s.exit pid ∨
      s' = (Tracking.terminate pid m s).exit pid ∧ s.chat.lookup m.id ≠ none) :
    ¬ Clean build s' := by
  intro hclean
  have hunloaded : ∀ s1 : Sys, s1.procs = s.procs → s1.models = s.models →
      (s1.exit pid).loaded m.id = false := by
    intro s1 hprocs hmodels
    rw [Bool.eq_false_iff]
    intro hloaded
    obtain ⟨q, m', hq, hid⟩ := loaded_iff.mp hloaded
    obtain ⟨hne, hq⟩ := live_exit_iff.mp hq
    rw [live_iff, hprocs, hmodels, ← live_iff] at hq
    exact hne (h.distinct q pid m' m hq hm hid)
  rcases hs' with rfl | ⟨rfl, hchat⟩
  · obtain ⟨row, hrow⟩ := h.row pid m hm
    have hnone := hclean.obs ObsRow id m.id (hunloaded s rfl rfl)
    simp only [Tracking.obs, Sys.exit, hrow, Option.map_some, reduceCtorEq] at hnone
  · exact hchat (hclean.chat m.id (hunloaded (Tracking.terminate pid m s) rfl rfl))

/-! ### Two unloads -/

/-- A model with a chat template of its own. -/
def chatModel (r : ModelRef) : Model := ⟨[109], some r, none⟩

/-- A templates ref for each model ref. -/
def plainBuild : ModelRef → Option Bytes → Option Templates := fun r _ => some r

/-- A request is served, the process is stopped, and the servers do their part: the process
    ends well. -/
def stopped : List Event :=
  [.load 1 (chatModel 1) (some 7), .register 1 0, .castMonitor 1, .handleCast, .ends 1 .stop,
   .handleDown]

/-- Nothing is left, and the refs are gone with their process. -/
theorem stopped_clean :
    Clean plainBuild (run (step plainBuild) (Sys.init 64) stopped) ∧
      (run (step plainBuild) (Sys.init 64) stopped).procs.isAlive (.client 1) = false := by
  refine ⟨?_, by decide⟩
  refine run_clean plainBuild 64 stopped ?_ stopped (List.prefix_refl _) ⟨rfl, rfl, rfl⟩
  refine ⟨trivial, trivial, trivial, trivial, ?_, trivial, trivial⟩
  intro m hm
  obtain rfl : chatModel 1 = m := Option.some.inj hm
  exact ⟨nofun, rfl, nofun⟩

/-- A model is unloaded by its supervisor. -/
def shutDown : List Event := [.load 1 (chatModel 1) (some 7), .ends 1 .shutdown]

/-- A model that has rendered a chat is stopped, and another one gets its id. -/
def replaced : List Event :=
  [.load 1 (chatModel 1) (some 7), .chatApply 1, .handleChat, .ends 1 .stop,
   .load 2 (chatModel 2) (some 8)]

/-- What unloading leaves: a shutdown leaves the row, so `phase/1` goes on answering, and the
    abort handle; a stop leaves the chat templates, which the next model of the id then uses. -/
theorem unloaded_not_clean :
    ((run (step plainBuild) (Sys.init 64) shutDown).Settled ∧
      (run (step plainBuild) (Sys.init 64) shutDown).loaded [109] = false ∧
      obs (run (step plainBuild) (Sys.init 64) shutDown) [109] ObsRow.phase = some .idle ∧
      (run (step plainBuild) (Sys.init 64) shutDown).abort.lookup 1 = some 7 ∧
      ¬ Clean plainBuild (run (step plainBuild) (Sys.init 64) shutDown)) ∧
    ((run (step plainBuild) (Sys.init 64) replaced).Settled ∧
      (run (step plainBuild) (Sys.init 64) replaced).live 2 = some (chatModel 2) ∧
      templatesFor plainBuild (chatModel 2) (run (step plainBuild) (Sys.init 64) replaced) =
        some 1 ∧
      ¬ Clean plainBuild (run (step plainBuild) (Sys.init 64) replaced)) := by
  refine ⟨⟨⟨rfl, rfl, rfl⟩, by decide, by decide, by decide, fun hclean => ?_⟩,
    ⟨⟨rfl, rfl, rfl⟩, by decide, by decide, fun hclean => ?_⟩⟩
  · have hlive := hclean.abort 1 7 (by decide)
    revert hlive
    decide
  · have hown := hclean.own 2 (chatModel 2) (by decide)
    revert hown
    decide

end Erllama.Loading.Tracking
