import Erllama.Backend
import Mathlib.Logic.Function.Basic

namespace Erllama.Native

/-!
# The native context (`erllama_nif_int.h`, `erllama_nif_kv.c`)

A `llama_context` holds the KV of every sequence and the logits rows of the batch it decoded
last.  Around it the library keeps, for each sequence, the row to sample next and the position
of the next token.

What llama.cpp does is taken as documented: the logits of a position are a function of the
sequence's own tokens up to it, a sampler chain is a state machine that is fed one row a sample,
and a batch whose positions do not follow a sequence's cells is refused.  The positions of a
sequence are the indices of its cells.

* `Params`, `Ctx` — what the loaded model computes, and the context.
* `Nif` — a call: an answer or an error, and the context it leaves.
* `llamaDecode` — decode a batch, which replaces the logits rows.
* `kvSeqRm`, `kvUnpack`, `kvSeqCp`, `newContext` — the operations on cells.
-/

/-- A sampler chain: its state, and how many candidates it reports with each token. -/
structure Chain (Smp : Type) where
  state : Smp
  nProbs : Nat

/-- What the loaded model and its vocabulary compute. -/
structure Params (Row Smp : Type) where
  /-- The logits of the last position of a sequence with these tokens. -/
  logits : List Token → Row
  /-- `llama_sampler_sample`: the token, if the chain yields one, and the chain's next state. -/
  sample : Smp → Row → Option Token × Smp
  /-- The chain of a sampler configuration. -/
  newChain : SamplerCfg → Chain Smp
  /-- `erllama_safe_top_logprobs`; none where it fails. -/
  topLogprobs : Row → Nat → Token → Option LpPayload
  /-- The token of the highest logit. -/
  argmax : Row → Token
  /-- The pooled embedding of a sequence with these tokens. -/
  embedding : List Token → Option (List ℚ)
  isEog : Token → Bool
  nVocab : Nat
  nCtx : Nat
  nBatch : Nat
  /-- The cells that a serialised sequence restores, or that a bad one leaves behind. -/
  unpack : Bytes → Except (List Token) (List Token)
  /-- `llama_state_seq_get_data`. -/
  pack : List Token → Bytes
  /-- Whether the memory can drop its cells from a position on. -/
  removes : List Token → Nat → Bool
  /-- Whether the sequences share one stream of cells, so that a copy adds to its target. -/
  oneStream : Bool
  /-- What a position that such a copy leaves with two cells is to the model. -/
  doubled : Token → Token → Token
  /-- What the projector makes of a prompt with its media: the number of tokens, and a cell for
      each position they take, or the error. -/
  mtmd : Bytes → List (MediaType × Bytes) → Bool → Except Reason (Nat × List Token)

/-- `erllama_per_seq_t`. -/
structure PerSeq where
  lastLogitsIdx : Int
  nextPos : Nat
deriving DecidableEq

/-- No logits are live for the sequence. -/
def noLogitsIdx : Int := -1

/-- `ERLLAMA_LOGITS_LAST`: sample at the last row. -/
def logitsLast : Int := -2

/-- A row of the logits buffer: the sequence, and its tokens up to the row's position. -/
structure OutRow where
  seq : SeqId
  cells : List Token
deriving DecidableEq

/-- How a decode of the library fails: the classified reason, and how many tokens of the batch
    it leaves in the memory. -/
structure Fault where
  reason : Reason
  kept : Nat
deriving DecidableEq

/-- What a sampling call found: the sequence, its cells, and the row it read; or that there was
    no row to read. -/
inductive Sampled where
  | read (seq : SeqId) (cells : List Token) (row : Option OutRow)
  | refused (seq : SeqId)
deriving DecidableEq

/-- `erllama_context_t`, with the memory and the logits buffer of its `llama_context`.  `rows`
    has an entry for each token of the last batch, `faults` is what the coming decodes answer
    (none, or past its end, where they work), and `sampled` records the sampling calls. -/
structure Ctx (Smp : Type) where
  kv : SeqId → List Token
  rows : List (Option OutRow)
  perSeq : SeqId → PerSeq
  decodeReady : Bool
  chains : Ref → Option (Chain Smp)
  nextSampler : Ref
  faults : List (Option Fault)
  sampled : List Sampled

/-- The errors of the calls. -/
inductive NifError where
  | badarg | released | noLogits | exception | batchOverflow | contextOverflow | invalidToken
  | unpackFailed | seqCpFailed | embedFailed
  | crash
  | decode (r : Reason)
  | media (r : Reason)
deriving DecidableEq

/-- The answer of a call and the context after it. -/
abbrev Nif (Smp α : Type) := ExceptT NifError (StateM (Ctx Smp)) α

variable {Row Smp : Type}

namespace Nif

variable {α β : Type}

/-- Run a call. -/
def on (x : Nif Smp α) (c : Ctx Smp) : Except NifError α × Ctx Smp := x c

/-- A value. -/
@[simp] theorem on_pure (a : α) (c : Ctx Smp) : (pure a : Nif Smp α).on c = (.ok a, c) := rfl

/-- An error. -/
@[simp] theorem on_throw (e : NifError) (c : Ctx Smp) :
    (throw e : Nif Smp α).on c = (.error e, c) := rfl

/-- Reading the context. -/
@[simp] theorem on_get (c : Ctx Smp) : (get : Nif Smp (Ctx Smp)).on c = (.ok c, c) := rfl

/-- Writing it. -/
@[simp] theorem on_set (c c' : Ctx Smp) : (set c' : Nif Smp PUnit).on c = (.ok ⟨⟩, c') := rfl

/-- Changing it. -/
@[simp] theorem on_modify (f : Ctx Smp → Ctx Smp) (c : Ctx Smp) :
    (modify f : Nif Smp PUnit).on c = (.ok ⟨⟩, f c) := rfl

/-- A sequence of calls stops at the first error. -/
theorem on_bind (x : Nif Smp α) (f : α → Nif Smp β) (c : Ctx Smp) :
    (x >>= f).on c =
      match x.on c with
      | (.ok a, c')    => (f a).on c'
      | (.error e, c') => (.error e, c') := by
  unfold on
  simp only [bind, ExceptT.bind, ExceptT.mk, StateT.bind, ExceptT.bindCont]
  cases x c with
  | mk res c' => cases res <;> rfl

/-- The call goes on with the answer of its first part. -/
theorem on_bind_ok {x : Nif Smp α} {f : α → Nif Smp β} {c c' : Ctx Smp} {a : α}
    (h : x.on c = (.ok a, c')) : (x >>= f).on c = (f a).on c' := by
  rw [on_bind, h]

/-- An answer of a sequence of calls is one of both. -/
theorem of_bind_ok {x : Nif Smp α} {f : α → Nif Smp β} {c c'' : Ctx Smp} {b : β}
    (h : (x >>= f).on c = (.ok b, c'')) :
    ∃ a c', x.on c = (.ok a, c') ∧ (f a).on c' = (.ok b, c'') := by
  rw [on_bind] at h
  split at h
  case h_1 a c' hx => exact ⟨a, c', hx, h⟩
  case h_2 => cases h

end Nif

/-! ### The logits rows -/

/-- `llama_get_logits_ith`: a negative index counts the rows with logits from the end. -/
def rowAt (c : Ctx Smp) (li : Int) : Option OutRow :=
  if li < 0 then (c.rows.reduceOption).getLast? else (c.rows[li.toNat]?).join

/-- A token of a batch. -/
structure BatchRow where
  token : Token
  pos : Nat
  seq : SeqId
  logits : Bool
deriving DecidableEq

/-- Append a token to its sequence. -/
def pushCell (kv : SeqId → List Token) (b : BatchRow) : SeqId → List Token :=
  Function.update kv b.seq (kv b.seq ++ [b.token])

/-- Whether the positions of a batch follow the cells of their sequences. -/
def Follows : (SeqId → List Token) → List BatchRow → Bool
  | _, []             => true
  | kv, b :: batch => b.pos == (kv b.seq).length && Follows (pushCell kv b) batch

/-- The rows that a batch leaves. -/
def batchRows : (SeqId → List Token) → List BatchRow → List (Option OutRow)
  | _, []             => []
  | kv, b :: batch =>
    (if b.logits then some ⟨b.seq, kv b.seq ++ [b.token]⟩ else none) ::
      batchRows (pushCell kv b) batch

/-- `llama_decode`: a batch that does not follow the memory is refused; a failing decode may
    leave a part of its batch behind; and a decoded batch replaces the logits rows. -/
def llamaDecode (batch : List BatchRow) : Nif Smp Unit := do
  let c ← get
  match c.faults with
  -- the backend fails, with some of the batch in the KV
  | some f :: faults =>
    set { c with
      faults := faults
      rows := []
      kv := (batch.take f.kept).foldl pushCell c.kv }
    throw (.decode f.reason)
  | _ =>
    let c := { c with faults := c.faults.tail }
    -- the positions of each sequence are to follow its cells
    if Follows c.kv batch then
      set { c with kv := batch.foldl pushCell c.kv, rows := batchRows c.kv batch }
    else
      set c
      throw (.decode (.decodeFailedWith 1))

/-! ### The tracking of a sequence -/

/-- Set the tracking of a sequence. -/
def track (c : Ctx Smp) (q : SeqId) (s : PerSeq) : Ctx Smp :=
  { c with perSeq := Function.update c.perSeq q s }

/-- What the operations on cells leave: the position after the last cell, and no logits. -/
def refresh (c : Ctx Smp) (q : SeqId) : Ctx Smp := track c q ⟨noLogitsIdx, (c.kv q).length⟩

/-- Replace the cells of a sequence. -/
def setCells (c : Ctx Smp) (q : SeqId) (cells : List Token) : Ctx Smp :=
  { c with kv := Function.update c.kv q cells }

section Cells

variable (p : Params Row Smp)

/-- `llama_memory_seq_rm(ctx, q, pos, -1)`: dropping everything always works. -/
def memorySeqRm (q : SeqId) (pos : Nat) : Nif Smp Bool := do
  let c ← get
  if pos = 0 ∨ p.removes (c.kv q) pos then
    set (setCells c q ((c.kv q).take pos))
    return true
  else return false

/-- `nif_kv_seq_rm`, up to the end of the sequence.  The tracking is refreshed on a refusal
    too. -/
def kvSeqRm (q : SeqId) (pos : Nat) : Nif Smp Unit := do
  let removed ← memorySeqRm p q pos
  modify fun c => refresh { c with decodeReady := false } q
  if removed then return () else throw .unpackFailed

/-- `nif_kv_pack`. -/
def kvPack (c : Ctx Smp) (q : SeqId) : Bytes := p.pack (c.kv q)

/-- `nif_kv_unpack`: the cells are restored, the logits are not. -/
def kvUnpack (bin : Bytes) (q : SeqId) : Nif Smp Unit := do
  let c ← get
  match p.unpack bin with
  | .ok cells =>
    set (refresh { setCells c q cells with decodeReady := false } q)
  | .error left =>
    set (refresh { setCells c q left with decodeReady := false } q)
    throw .unpackFailed

/-- `llama_memory_seq_cp`: what the target holds.  The cells it had are its own, and those of one
    stream stay beside the source's. -/
def memorySeqCp (src dst : List Token) : List Token :=
  if p.oneStream then
    List.zipWith p.doubled dst src ++ (src.drop dst.length ++ dst.drop src.length)
  else src

/-- `nif_kv_seq_cp`: an empty source is refused, and so is a target whose last position is not
    the source's, once it is wiped. -/
def kvSeqCp (src dst : SeqId) : Nif Smp Unit := do
  if src = dst then throw .badarg
  let c ← get
  if c.kv src = [] then throw .seqCpFailed
  let cells := memorySeqCp p (c.kv src) (c.kv dst)
  if cells.length ≠ (c.kv src).length then
    set (refresh (setCells c dst []) dst)
    throw .seqCpFailed
  set (refresh { setCells c dst cells with decodeReady := false } dst)

/-- `nif_new_context`: nothing is cached, nothing can be sampled, and no sampler is bound to it. -/
def newContext (faults : List (Option Fault)) : Ctx Smp where
  kv := fun _ => []
  rows := []
  perSeq := fun _ => ⟨noLogitsIdx, 0⟩
  decodeReady := false
  chains := fun _ => none
  nextSampler := 0
  faults := faults
  sampled := []

/-! ### Samplers -/

/-- `nif_sampler_new`. -/
def samplerNew (cfg : SamplerCfg) : Nif Smp Ref := do
  let c ← get
  set { c with
    chains := Function.update c.chains c.nextSampler (some (p.newChain cfg))
    nextSampler := c.nextSampler + 1 }
  return c.nextSampler

/-- `nif_sampler_free`. -/
def samplerFree (c : Ctx Smp) (s : Ref) : Ctx Smp :=
  { c with chains := Function.update c.chains s none }

/-- `llama_sampler_sample`: read the row, feed it to the chain.  A row that is not there is read
    outside the buffer. -/
def samplerSample (q : SeqId) (s : Ref) (li : Int) : Nif Smp (Token × OutRow) := do
  let c ← get
  match c.chains s with
  | none => throw .released
  | some chain =>
    let row := rowAt c li
    -- what was sampled from is on record
    set { c with sampled := c.sampled ++ [Sampled.read q (c.kv q) row] }
    match row with
    -- there is no row at the index: the library aborts
    | none => throw .crash
    | some row =>
      let res := p.sample chain.state (p.logits row.cells)
      modify fun c =>
        { c with chains := Function.update c.chains s (some { chain with state := res.2 }) }
      match res.1 with
      | none     => throw .exception
      | some tok => return (tok, row)

end Cells

end Erllama.Native
