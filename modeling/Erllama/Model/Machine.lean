import Erllama.Lib.Run
import Erllama.Model.Adapters
import Erllama.Model.Finish

namespace Erllama.Model

open Lib

/-!
# The model process (`erllama_model`, state functions)

A `gen_statem` with the states idle and running.  An event is a call with its caller, or a
cast; the calls that only read (`status`, `model_info`, `tokenize`, …) are left out.

* `Event` — what the process can be sent.
* `init` — the process after `init/1` on a fresh context.
* `step` — one event.  A tick is handled only if a tick cast is in the mailbox; a stopped
  process handles nothing.
-/

/-- The events of the state functions. -/
inductive Event (Sid : Type) where
  | request (item : Item Sid)
  | continue (frm : From) (suffix : List Token) (opts : ContinueOpts Sid)
  | endSession (frm : From) (sid : Sid)
  | forkSession (frm : From) (src new : Sid)
  | resetSession (frm : From) (sid : Sid)
  | verify (frm : From) (prefixTokens candidates : List Token) (k : Nat)
  | embed (frm : From) (tokens : List Token)
  | embedBatch (frm : From) (tokenLists : List (List Token))
  | evict (frm : From)
  | shutdown (frm : From)
  | loadAdapter (frm : From) (path : Path) (file : Option Bytes)
  | unloadAdapter (frm : From) (handle : Ref)
  | setAdapterScale (frm : From) (handle : Ref) (scale : ℚ)
  | cancel (ref : Ref)
  | tick

variable {σ γ Sid : Type}

/-- `find_req_by_ref/2`. -/
def findReqByRef (d : Data σ γ Sid) (ref : Ref) : Option (Req Sid) :=
  (requests d.reqTable).find? fun r => r.requestRef = some ref

/-- The cancel cast: an unknown reference is ignored. -/
def handleCancel (d : Data σ γ Sid) (ref : Ref) : Data σ γ Sid :=
  match findReqByRef d ref with
  | some r => putReq d { r with cancelPending := true }
  | none   => d

section Calls

variable (env : Env σ γ) (d : Data σ γ Sid)

/-- `run_verify/4`, for the idle state. -/
def runVerify (prefixTokens candidates : List Token) (k : Nat) : Reply × Data σ γ Sid :=
  match env.be.verify with
  | none => (.error .notSupported, d)
  | some verify =>
    let res := verify d.sys.ctx prefixTokens candidates k
    let d := withSys d { d.sys with ctx := res.2 }
    match res.1 with
    | .ok (accepted, next) => (.verified accepted next, d)
    | .error e             => (.error (.backend e), d)

/-- `embed_each/3`: stops at the first error. -/
def embedEach (acc : List (List ℚ)) : List (List Token) → Data σ γ Sid → Reply × Data σ γ Sid
  | [], d => (.embedding acc.reverse, d)
  | tokens :: rest, d =>
    match env.be.embed with
    | none => (.error .notSupported, d)
    | some embed =>
      let res := embed d.sys.ctx tokens
      let d := withSys d { d.sys with ctx := res.2 }
      match res.1 with
      | .ok v    => embedEach (v :: acc) rest d
      | .error e => (.error (.backend e), d)

end Calls

section Step

variable [LinearOrder Sid] (env : Env σ γ)

/-- Reply with the outcome of an operation and keep the state. -/
def replyWith (p : Proc σ γ Sid) (frm : From) (res : Reply × Data σ γ Sid) : Proc σ γ Sid :=
  ⟨p.phase, emit res.2 (.reply frm res.1)⟩

/-- Take a tick cast out of the mailbox. -/
def takeTick (d : Data σ γ Sid) : Data σ γ Sid := withSys d { d.sys with ticks := d.sys.ticks - 1 }

/-- The tick cast: a running process steps, an idle one ignores it. -/
def handleTick (p : Proc σ γ Sid) : Proc σ γ Sid :=
  if p.data.sys.ticks = 0 then p
  else if p.phase = .running then stepTick env (takeTick p.data)
  else { p with data := takeTick p.data }

/-- The state functions of a live process. -/
def handleEvent (p : Proc σ γ Sid) : Event Sid → Proc σ γ Sid
  | .request item             => admitRequest env p.data p.phase item
  | .continue frm suffix opts => admitContinue env p.data p.phase frm suffix opts
  | .endSession frm sid       => replyWith p frm (.ok, dropSession env p.data sid)
  | .forkSession frm src new  => replyWith p frm (forkSession env p.data src new)
  | .resetSession frm sid     => replyWith p frm (resetSessionSeq env p.data sid)
  -- verification needs the whole context: it is refused while requests run
  | .verify frm pre cands k   =>
    if p.phase = .idle then replyWith p frm (runVerify env p.data pre cands k)
    else replyWith p frm (.error .busy, p.data)
  | .embed frm tokens         => replyWith p frm (embedEach env [] [tokens] p.data)
  | .embedBatch frm lists     => replyWith p frm (embedEach env [] lists p.data)
  | .evict frm                => replyWith p frm (.ok, fireSaveForReason env p.data .evict)
  | .shutdown frm             => replyWith p frm (.ok, fireSaveForReason env p.data .shutdown)
  | .loadAdapter frm path file => replyWith p frm (loadAdapter env p.data path file)
  | .unloadAdapter frm handle => replyWith p frm (unloadAdapter env p.data handle)
  | .setAdapterScale frm handle scale =>
    replyWith p frm (setAdapterScale env p.data handle scale)
  | .cancel ref               => { p with data := handleCancel p.data ref }
  | .tick                     => handleTick env p

/-- One event. -/
def step (p : Proc σ γ Sid) (e : Event Sid) : Proc σ γ Sid :=
  if p.phase = .stopped then p else handleEvent env p e

end Step

/-- `init/1` and `build_init_data/4` on a fresh context. -/
def init (env : Env σ γ) (ctx : σ) (world : γ) : Proc σ γ Sid where
  phase := .idle
  data :=
    { adapters := []
      effectiveFp := env.cfg.fingerprint
      reqTable := ∅
      idleSeqIds := List.range env.cfg.nSeqMax
      pending := []
      sessionSeq := ∅
      spec := none
      sys :=
        { ctx := ctx, world := world, nextRef := 0, ticks := 0, out := [], log := [],
          restored := [] } }

end Erllama.Model
