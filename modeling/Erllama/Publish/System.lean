import Erllama.Publish.Pipeline

namespace Erllama.Publish

open Lib MetaSrv Kvc

/-!
# Saves and loads side by side

The meta server, the directory of one tier server, and any number of processes that save or
load.  One event lets one process perform its next action, lets the server handle a message of
its own (a sweep, a `DOWN`, an eviction, a reader's call), starts a process or kills one.

* `deps` — the checkpoint parser, as the meta server calls it.
* `Sys`, `Event`, `sysStep` — the system and its steps.
* `Act.Spares`, `Event.Spares` — the step deletes no checkpoint that parses.
-/

section System

variable (sha256 : Bytes → Digest) (hitBias : Nat → Int → Int) (root : Path)

/-- What the meta server calls: `erllama_cache_kvc:parse/2` and the eviction score. -/
def deps : Deps where
  parse bin key :=
    match parse sha256 bin key with
    | .ok (info, _) => some ⟨info.tokens, info.promptText⟩
    | .error _      => none
  hitBias := hitBias

/-- What a process is started for. -/
inductive Job where
  | save (w : Save)
  | load (key : CacheKey) (pid : Pid)

/-- The program of a job; `unique` is the integer the process would ask for. -/
def Job.program (unique : Nat) : Job → Program Outcome
  | .save w       => doSave sha256 root unique w
  | .load key pid => pinAndLoad sha256 root key pid

/-- The server with the files, and the processes by their unique integers. -/
structure Sys where
  srv : State
  threads : Nat → Option (Program Outcome)
  next : Nat

/-- One step of the system. -/
inductive Event where
  | spawn (job : Job)
  | act (u : Nat) (env : Env) (fault : Fault)
  | crash (u : Nat)
  | server (env : Env) (frm : From) (msg : Msg)

/-- A process performs its next action; one that has ended acts no more. -/
def Sys.act (s : Sys) (u : Nat) (env : Env) (fault : Fault) : Sys :=
  match s.threads u with
  | some (.act a k) =>
    let r := perform (deps sha256 hitBias) env u fault a s.srv
    { s with srv := r.2, threads := Function.update s.threads u (some (k r.1)) }
  | _ => s

/-- The effect of one event; the server handles no call of the save pipeline that no process
    made. -/
def sysStep (s : Sys) : Event → Sys
  | .spawn job =>
    { s with
      threads := Function.update s.threads s.next (some (job.program sha256 root s.next))
      next := s.next + 1 }
  -- a thread takes one step of its program
  | .act u env fault => s.act sha256 hitBias u env fault
  -- a killed writer runs no cleanup of its own
  | .crash u => { s with threads := Function.update s.threads u none }
  | .server env frm msg =>
    -- messages of writers and readers come from their threads
    if msg.isBackground then
      { s with srv := step (deps sha256 hitBias) s.srv ⟨env, frm, msg⟩ }
    else s

/-- The final file of the key is there and parses under the key. -/
def Valid (files : Files) (key : CacheKey) : Prop :=
  ∃ bin info payload, files (finalPath root key) = some bin ∧
    parse sha256 bin key = .ok (info, payload)

/-- The action deletes no final file of these keys that parses. -/
def Act.Spares (K : CacheKey → Prop) (files : Files) : Act → Prop
  | .delete p => ∀ key, K key → p = finalPath root key → ¬ Valid sha256 root files key
  | _         => True

/-- The next action of a process that is at work. -/
def Sys.nextAct (s : Sys) (u : Nat) : Option Act :=
  match s.threads u with
  | some (.act a _) => some a
  | _               => none

/-- The step deletes no final file of these keys that parses, unless the server does it. -/
def Event.Spares (K : CacheKey → Prop) (s : Sys) : Event → Prop
  | .act u _ _ => ∀ a, s.nextAct u = some a → a.Spares sha256 root K s.srv.files
  | _          => True

/-- A process at work performs its action; otherwise nothing happens. -/
theorem act_cases (s : Sys) (u : Nat) (env : Env) (fault : Fault) :
    (s.nextAct u = none ∧ s.act sha256 hitBias u env fault = s) ∨
      ∃ a k, s.threads u = some (.act a k) ∧ s.nextAct u = some a ∧
        s.act sha256 hitBias u env fault =
          { s with
            srv := (perform (deps sha256 hitBias) env u fault a s.srv).2
            threads := Function.update s.threads u
              (some (k (perform (deps sha256 hitBias) env u fault a s.srv).1)) } := by
  unfold Sys.nextAct Sys.act
  cases s.threads u with
  | none   => exact Or.inl ⟨rfl, rfl⟩
  | some p =>
    cases p with
    | ret o   => exact Or.inl ⟨rfl, rfl⟩
    | act a k => exact Or.inr ⟨a, k, rfl, rfl, rfl⟩

end System

end Erllama.Publish
