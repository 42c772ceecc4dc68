import Erllama.Model.Plain
import Erllama.Native.LlamaBackend

namespace Erllama.Native

open Model

/-!
# The speculator (`erllama_spec_nif.cpp`)

The shim keeps one token vector for each seq, which the library's drafter reads.  A draft call
brings what was committed since the last one and the last token; the vector holds the tokens
before that.

* `Upstream` — the library's speculator.
* `Holder`, `Specs` — a speculator with its vectors, and all that were made.
* `nifSpecNew`, `nifSpecBegin`, `nifSpecDraft`, `nifSpecAccept`, `nifSpecFree` — the calls.
* `withSpeculator` — a backend with these for its speculation callbacks.
* `nifSpecDraft_spec` — a draft call appends its delta to the vector that the drafter is handed.
* `specView` — nothing else of the backend reaches the speculators.
-/

/-- What of `common/speculative.h` the shim calls. -/
structure Upstream (υ : Type) where
  /-- `common_speculative_init`; it may throw, and it may give nothing. -/
  init : SpecCfg → Nat → Option (Option υ)
  /-- `common_speculative_begin`, and whether it came through. -/
  begin : υ → SeqId → List Token → Bool × υ
  /-- `common_speculative_draft` for one seq, with its vector and the last token. -/
  draft : υ → SeqId → List Token → Token → Option (List Token) × υ
  /-- `common_speculative_accept`, and whether it came through. -/
  accept : υ → SeqId → Nat → Bool × υ

/-- `spec_holder`.  The vectors are looked at below `nSeq` only. -/
structure Holder (υ : Type) where
  /-- `none` after an explicit free. -/
  spec : Option υ
  nSeq : Nat
  prompts : SeqId → List Token
  lastDraftLen : SeqId → Nat

/-- A call of `nif_spec_draft`, with the vector that it handed to the drafter, unless it was
    turned down before. -/
structure DraftCall where
  seq : SeqId
  idLast : Token
  vector : Option (List Token)
deriving DecidableEq

/-- The speculators made so far, each under its number, and the draft calls. -/
structure Specs (υ : Type) where
  holders : List (Holder υ)
  calls : List DraftCall

variable {υ : Type}

/-- Another speculator under this number. -/
def Specs.put (s : Specs υ) (ref : Ref) (h : Holder υ) : Specs υ :=
  { s with holders := s.holders.set ref h }

/-- Record a draft call. -/
def Specs.record (s : Specs υ) (call : DraftCall) : Specs υ := { s with calls := s.calls ++ [call] }

/-! ### The calls -/

/-- `enif_get_int` takes it. -/
def fitsInt (n : Nat) : Bool := n < 2 ^ 31

/-- `read_tokens`: whether all of the list could be read, and the vector, which may have got a
    part of it. -/
def readTokens : List Token → List Token → Bool × List Token
  | [], out => (true, out)
  | t :: rest, out => if fitsInt t then readTokens rest (out ++ [t]) else (false, out)

/-- `get_map_int31`, over what the parameter is without it. -/
def int31 (n without : Nat) : Nat := if fitsInt n then n else without

/-- The checks before a call on a seq: the resource, the seq, `spec_lock_live`, the bound. -/
def liveHolder (s : Specs υ) (ref : Ref) (seq : SeqId) : Except NifError (Holder υ × υ) :=
  match s.holders[ref]? with
  | none => .error .badarg
  | some h =>
    if fitsInt seq then
      match h.spec with
      | none => .error .released
      | some u => if seq < h.nSeq then .ok (h, u) else .error .badarg
    else .error .badarg

/-- `spec_init_failed`. -/
def specInitFailed : Reason := .other 14

/-- `nif_spec_new`.  A key that is no 31-bit integer is as good as missing. -/
def nifSpecNew (up : Upstream υ) (s : Specs υ) (cfg : SpecCfg) (nSeq : Nat) :
    Except Reason Ref × Specs υ :=
  -- options that do not fit are replaced by their defaults
  let params : SpecCfg := ⟨int31 cfg.nMatch 24, int31 cfg.nMax 64, int31 cfg.nMin 48⟩
  let seqs := if nSeq < 2 ^ 32 then nSeq else 1
  if params.nMatch < 1 ∨ params.nMax < 1 ∨ seqs < 1 ∨ 256 < seqs then
    (.error NifError.badarg.reason, s)
  else
    match up.init params seqs with
    | none          => (.error NifError.exception.reason, s)
    | some none     => (.error specInitFailed, s)
    | some (some u) =>
      (.ok s.holders.length,
        { s with holders := s.holders ++ [⟨some u, seqs, fun _ => [], fun _ => 0⟩] })

/-- `nif_spec_begin`: the vector of the seq is the prompt. -/
def nifSpecBegin (up : Upstream υ) (s : Specs υ) (ref : Ref) (seq : SeqId) (prompt : List Token) :
    Except NifError Unit × Specs υ :=
  match liveHolder s ref seq with
  | .error e => (.error e, s)
  | .ok (h, u) =>
    -- the vector of the seq is written over
    let read := readTokens prompt []
    let h := { h with prompts := Function.update h.prompts seq read.2 }
    if read.1 then
      let begun := up.begin u seq read.2
      (if begun.1 then .ok () else .error .exception,
        s.put ref { h with
          spec := some begun.2
          lastDraftLen := Function.update h.lastDraftLen seq 0 })
    else (.error .badarg, s.put ref h)

/-- `nif_spec_draft`: append the delta to the vector of the seq and ask for a draft. -/
def nifSpecDraft (up : Upstream υ) (s : Specs υ) (ref : Ref) (seq : SeqId) (idLast : Token)
    (delta : List Token) : Except NifError (List Token) × Specs υ :=
  let refused := s.record ⟨seq, idLast, none⟩
  if fitsInt idLast = false then (.error .badarg, refused)
  else
    match liveHolder s ref seq with
    | .error e => (.error e, refused)
    | .ok (h, u) =>
      -- the tokens are read into the holder's own vector
      let read := readTokens delta (h.prompts seq)
      let h := { h with prompts := Function.update h.prompts seq read.2 }
      -- a token that does not fit leaves the vector with what came before it
      if read.1 then
        let drafted := up.draft u seq read.2 idLast
        let answer :=
          match drafted.1 with
          | some draft => .ok draft
          | none       => .error .exception
        (answer,
          (s.put ref { h with
            spec := some drafted.2
            lastDraftLen := Function.update h.lastDraftLen seq (drafted.1.getD []).length }).record
              ⟨seq, idLast, some read.2⟩)
      else (.error .badarg, refused.put ref h)

/-- `nif_spec_accept`: no more may be accepted than was drafted. -/
def nifSpecAccept (up : Upstream υ) (s : Specs υ) (ref : Ref) (seq : SeqId) (nAcc : Nat) :
    Except NifError Unit × Specs υ :=
  match liveHolder s ref seq with
  | .error e => (.error e, s)
  | .ok (h, u) =>
    -- no more than was drafted
    if h.lastDraftLen seq < nAcc then (.error .badarg, s)
    -- a draft is accepted once
    else if 0 < h.lastDraftLen seq then
      let accepted := up.accept u seq nAcc
      let h := { h with spec := some accepted.2 }
      if accepted.1 then
        (.ok (), s.put ref { h with lastDraftLen := Function.update h.lastDraftLen seq 0 })
      else (.error .exception, s.put ref h)
    else (.ok (), s)

/-- `nif_spec_free`. -/
def nifSpecFree (s : Specs υ) (ref : Ref) : Except NifError Unit × Specs υ :=
  match s.holders[ref]? with
  | none => (.error .badarg, s)
  | some h =>
    if h.spec.isSome then (.ok (), s.put ref { h with spec := none }) else (.error .released, s)

/-! ### The backend -/

variable {σ γ Sid : Type}

/-- A call on the rest of the backend. -/
def onRest {α : Type} (f : σ → α × σ) (x : σ × Specs υ) : α × (σ × Specs υ) :=
  ((f x.1).1, ((f x.1).2, x.2))

/-- The speculation callbacks over the shim.  Whether speculation is supported, and the
    verification of a draft, are the rest of the backend's. -/
def specCallbacks (up : Upstream υ) (cb : SpecCallbacks σ) : SpecCallbacks (σ × Specs υ) where
  supported x := cb.supported x.1
  new x cfg nSeq := ((nifSpecNew up x.2 cfg nSeq).1, (x.1, (nifSpecNew up x.2 cfg nSeq).2))
  begin x ref q prompt :=
    let res := nifSpecBegin up x.2 ref q prompt
    (res.1.mapError NifError.reason, (x.1, res.2))
  draft x ref q last delta :=
    let res := nifSpecDraft up x.2 ref q last delta
    (res.1.mapError NifError.reason, (x.1, res.2))
  accept x ref q n := (x.1, (nifSpecAccept up x.2 ref q n).2)
  free x ref := (x.1, (nifSpecFree x.2 ref).2)
  step x sampler q draft := onRest (cb.step · sampler q draft) x

/-- A backend with the shim's speculator. -/
def withSpeculator (up : Upstream υ) (be : Backend σ) : Backend (σ × Specs υ) where
  tokenize := be.tokenize
  detokenize := be.detokenize
  kvPack x tokens q := be.kvPack x.1 tokens q
  kvUnpack x bin q := onRest (be.kvUnpack · bin q) x
  seqRm := be.seqRm.map fun f x q => (f x.1 q, x.2)
  seqClear := be.seqClear.map fun f x => (f x.1, x.2)
  seqRmLast := be.seqRmLast.map fun f x q n => onRest (f · q n) x
  seqRmLastSeq0 := be.seqRmLastSeq0.map fun f x n => onRest (f · n) x
  seqCp := be.seqCp.map fun f x src dst => onRest (f · src dst) x
  step x ops := onRest (be.step · ops) x
  samplerNew := be.samplerNew.map fun f x cfg => onRest (f · cfg) x
  samplerFree := be.samplerFree.map fun f x ref => (f x.1 ref, x.2)
  thinkingSignature := be.thinkingSignature.map fun f x q observed => f x.1 q observed
  spec := be.spec.map (specCallbacks up)
  media := be.media.map fun cb =>
    { caps := fun x => cb.caps x.1
      prefill := fun x prompt items q special => onRest (cb.prefill · prompt items q special) x }
  verify := be.verify.map fun f x pre cands k => onRest (f · pre cands k) x
  embed := be.embed.map fun f x tokens => onRest (f · tokens) x
  loadAdapter := be.loadAdapter.map fun f x path content => onRest (f · path content) x
  unloadAdapter := be.unloadAdapter.map fun f x ref => onRest (f · ref) x
  applyAdapters := be.applyAdapters.map fun f x adapters => onRest (f · adapters) x
  resetContext := be.resetContext.map fun f x => onRest f x

/-- The process with the shim's speculator. -/
def speculating (up : Upstream υ) (env : Env σ γ) : Env (σ × Specs υ) γ where
  be := withSpeculator up env.be
  cache := env.cache
  sha256 := env.sha256
  cfg := env.cfg

/-! ### What is seen of the speculators -/

/-- The vector of a seq, if a call on it gets that far. -/
def Holder.vector (h : Holder υ) (q : SeqId) : Option (List Token) :=
  if fitsInt q = true ∧ h.spec.isSome = true ∧ q < h.nSeq then some (h.prompts q) else none

/-- The vector of a seq of a speculator. -/
def Specs.vector (s : Specs υ) (ref : Ref) (q : SeqId) : Option (List Token) :=
  s.holders[ref]?.bind (Holder.vector · q)

/-- The draft calls, and the vectors. -/
structure Sight where
  calls : List DraftCall
  vector : Ref → SeqId → Option (List Token)

/-- What is seen of the speculators. -/
def Specs.sight (s : Specs υ) : Sight := ⟨s.calls, s.vector⟩

section Shim

variable {up : Upstream υ} {s : Specs υ} {ref : Ref} {q : SeqId} {h : Holder υ} {u : υ}

/-- The checks let a call through. -/
theorem liveHolder_ok_iff : liveHolder s ref q = .ok (h, u) ↔
    s.holders[ref]? = some h ∧ h.spec = some u ∧ fitsInt q = true ∧ q < h.nSeq := by
  unfold liveHolder
  cases hh : s.holders[ref]? with
  | none => simp
  | some h' =>
    dsimp only
    by_cases hq : fitsInt q = true
    · rw [if_pos hq]
      cases hu : h'.spec with
      | none =>
        simp only [reduceCtorEq, Option.some.injEq, false_iff]
        rintro ⟨rfl, hsome, -⟩
        exact Option.some_ne_none _ (hsome.symm.trans hu)
      | some u' =>
        dsimp only
        by_cases hlt : q < h'.nSeq
        · rw [if_pos hlt]
          constructor
          · intro heq
            cases heq
            exact ⟨rfl, hu, hq, hlt⟩
          · rintro ⟨heq, hsome, -⟩
            cases heq
            rw [hu] at hsome
            cases hsome
            rfl
        · rw [if_neg hlt]
          simp only [reduceCtorEq, Option.some.injEq, false_iff]
          rintro ⟨rfl, -, -, h⟩
          exact hlt h
    · rw [if_neg hq]
      simp [hq]

/-- A call that is let through finds the vector. -/
theorem vector_of_liveHolder (hlive : liveHolder s ref q = .ok (h, u)) :
    s.vector ref q = some (h.prompts q) := by
  obtain ⟨hh, hu, hq, hlt⟩ := liveHolder_ok_iff.mp hlive
  rw [Specs.vector, hh, Option.bind_some, Holder.vector, if_pos ⟨hq, by rw [hu]; rfl, hlt⟩]

/-- Where there is a vector the checks let a call through. -/
theorem liveHolder_of_vector {v : List Token} (hv : s.vector ref q = some v) :
    ∃ h u, liveHolder s ref q = .ok (h, u) ∧ h.prompts q = v := by
  obtain ⟨h, hh, hvec⟩ := Option.bind_eq_some_iff.mp hv
  unfold Holder.vector at hvec
  split at hvec
  case isTrue hok =>
    obtain ⟨u, hu⟩ := Option.isSome_iff_exists.mp hok.2.1
    exact ⟨h, u, liveHolder_ok_iff.mpr ⟨hh, hu, hok.1, hok.2.2⟩, Option.some.inj hvec⟩
  case isFalse => exact nomatch hvec

/-- The vectors after a holder was replaced. -/
theorem vector_put (hh : s.holders[ref]? = some h) (h' : Holder υ) (ref' : Ref) (q' : SeqId) :
    (s.put ref h').vector ref' q' = if ref' = ref then h'.vector q' else s.vector ref' q' := by
  have hlt : ref < s.holders.length := (List.getElem?_eq_some_iff.mp hh).1
  unfold Specs.vector Specs.put
  rw [List.getElem?_set]
  by_cases heq : ref' = ref
  · rw [if_pos heq, if_pos heq.symm, if_pos (heq ▸ hlt)]
    rfl
  · rw [if_neg heq, if_neg (Ne.symm heq)]

/-- One vector of a live holder was replaced. -/
theorem vector_put_update (hlive : liveHolder s ref q = .ok (h, u)) {spec : Option υ}
    (hspec : spec.isSome = true) (v : List Token) (lens : SeqId → Nat) (ref' : Ref) (q' : SeqId) :
    (s.put ref ⟨spec, h.nSeq, Function.update h.prompts q v, lens⟩).vector ref' q' =
      if ref' = ref ∧ q' = q then some v else s.vector ref' q' := by
  obtain ⟨hh, hu, hq, hlt⟩ := liveHolder_ok_iff.mp hlive
  have hsome : h.spec.isSome = true := by
    rw [hu]
    rfl
  rw [vector_put hh]
  by_cases href : ref' = ref
  · subst href
    rw [if_pos rfl, Specs.vector, hh, Option.bind_some]
    unfold Holder.vector
    dsimp only
    rw [hspec, hsome]
    by_cases hseq : q' = q
    · subst hseq
      rw [if_pos ⟨hq, rfl, hlt⟩, if_pos ⟨rfl, rfl⟩, Function.update_self]
    · have hne : ¬ (ref' = ref' ∧ q' = q) := fun h => hseq h.2
      rw [if_neg hne, Function.update_of_ne hseq]
  · rw [if_neg href, if_neg fun h => href h.1]

/-- A call that changes neither vectors nor the draft calls. -/
theorem sight_put_of_same (hlive : liveHolder s ref q = .ok (h, u)) {spec : Option υ}
    (hspec : spec.isSome = true) (lens : SeqId → Nat) :
    (s.put ref ⟨spec, h.nSeq, h.prompts, lens⟩).sight = s.sight := by
  have hsame : (s.put ref ⟨spec, h.nSeq, h.prompts, lens⟩).vector = s.vector := by
    funext ref' q'
    have hput := vector_put_update hlive hspec (h.prompts q) lens ref' q'
    rw [Function.update_eq_self] at hput
    rw [hput]
    split
    case isTrue heq =>
      rw [heq.1, heq.2]
      exact (vector_of_liveHolder hlive).symm
    case isFalse => rfl
  unfold Specs.sight
  rw [hsame]
  rfl

/-- `read_tokens` reads all of a list iff it could. -/
theorem readTokens_eq (tokens out : List Token) :
    (readTokens tokens out).1 = tokens.all fitsInt ∧
      ((readTokens tokens out).1 = true → (readTokens tokens out).2 = out ++ tokens) := by
  induction tokens generalizing out with
  | nil => exact ⟨rfl, fun _ => (List.append_nil out).symm⟩
  | cons t rest ih =>
    unfold readTokens
    rw [List.all_cons]
    by_cases ht : fitsInt t = true
    · obtain ⟨hall, hread⟩ := ih (out ++ [t])
      rw [if_pos ht, ht, Bool.true_and]
      refine ⟨hall, fun hok => ?_⟩
      rw [hread hok, List.append_assoc, List.singleton_append]
    · rw [if_neg ht, Bool.eq_false_iff.mpr ht, Bool.false_and]
      exact ⟨rfl, nofun⟩

variable (up s ref q)

/-- A new speculator calls no draft. -/
theorem nifSpecNew_calls (cfg : SpecCfg) (n : Nat) : (nifSpecNew up s cfg n).2.calls = s.calls := by
  unfold nifSpecNew
  dsimp only
  generalize (if n < 2 ^ 32 then n else 1) = seqs
  split
  · rfl
  · split <;> rfl

/-- Nor does freeing it. -/
theorem nifSpecFree_calls : (nifSpecFree s ref).2.calls = s.calls := by
  unfold nifSpecFree
  split
  · rfl
  · split <;> rfl

/-- What was accepted is seen by the next draft, not before. -/
theorem nifSpecAccept_sight (n : Nat) : (nifSpecAccept up s ref q n).2.sight = s.sight := by
  unfold nifSpecAccept
  split
  case h_1 => rfl
  case h_2 h u hlive =>
    split
    · rfl
    · split
      · dsimp only
        split <;> exact sight_put_of_same hlive rfl _
      · rfl

/-- `nif_spec_begin` touches the vector of its seq alone, which is the prompt afterwards. -/
theorem nifSpecBegin_spec (prompt : List Token) :
    (nifSpecBegin up s ref q prompt).2.calls = s.calls ∧
      (∀ ref' q', ¬ (ref' = ref ∧ q' = q) →
        (nifSpecBegin up s ref q prompt).2.vector ref' q' = s.vector ref' q') ∧
      ((nifSpecBegin up s ref q prompt).1 = .ok () →
        (nifSpecBegin up s ref q prompt).2.vector ref q = some prompt) := by
  unfold nifSpecBegin
  split
  case h_1 => exact ⟨rfl, fun _ _ _ => rfl, nofun⟩
  case h_2 h u hlive =>
    obtain ⟨-, hread⟩ := readTokens_eq prompt []
    have hsome : h.spec.isSome = true := by
      rw [(liveHolder_ok_iff.mp hlive).2.1]
      rfl
    dsimp only
    split
    case isTrue hok =>
      rw [hread hok, List.nil_append]
      refine ⟨rfl, fun ref' q' hne => ?_, fun _ => ?_⟩
      · exact (vector_put_update hlive rfl _ _ ref' q').trans (if_neg hne)
      · exact (vector_put_update hlive rfl _ _ ref q).trans (if_pos ⟨rfl, rfl⟩)
    case isFalse =>
      refine ⟨rfl, fun ref' q' hne => ?_, nofun⟩
      exact (vector_put_update hlive hsome _ _ ref' q').trans (if_neg hne)

variable {s ref q}

/-- **`nif_spec_draft`** touches the vector of its seq alone.  It appends the delta and hands the
    vector to the drafter, unless a token is no `int`. -/
theorem nifSpecDraft_spec {old : List Token} (hold : s.vector ref q = some old) (last : Token)
    (delta : List Token) :
    ∃ vector, (nifSpecDraft up s ref q last delta).2.calls = s.calls ++ [⟨q, last, vector⟩] ∧
      (∀ ref' q', ¬ (ref' = ref ∧ q' = q) →
        (nifSpecDraft up s ref q last delta).2.vector ref' q' = s.vector ref' q') ∧
      (vector = some (old ++ delta) ∧
          (nifSpecDraft up s ref q last delta).2.vector ref q = some (old ++ delta) ∨
        vector = none ∧ (∃ t ∈ last :: delta, fitsInt t = false) ∧
          ∃ e, (nifSpecDraft up s ref q last delta).1 = .error e) := by
  obtain ⟨h, u, hlive, rfl⟩ := liveHolder_of_vector hold
  have hsome : h.spec.isSome = true := by
    rw [(liveHolder_ok_iff.mp hlive).2.1]
    rfl
  unfold nifSpecDraft
  by_cases hlast : fitsInt last = false
  · rw [if_pos hlast]
    exact ⟨none, rfl, fun _ _ _ => rfl, .inr ⟨rfl, ⟨last, List.mem_cons_self, hlast⟩, _, rfl⟩⟩
  · rw [if_neg hlast, hlive]
    obtain ⟨hall, hread⟩ := readTokens_eq delta (h.prompts q)
    dsimp only
    by_cases hok : (readTokens delta (h.prompts q)).1 = true
    · rw [if_pos hok, hread hok]
      refine ⟨_, rfl, fun ref' q' hne => ?_, .inl ⟨rfl, ?_⟩⟩
      · exact (vector_put_update hlive rfl _ _ ref' q').trans (if_neg hne)
      · exact (vector_put_update hlive rfl _ _ ref q).trans (if_pos ⟨rfl, rfl⟩)
    · rw [if_neg hok]
      refine ⟨none, rfl, fun ref' q' hne => ?_, .inr ⟨rfl, ?_, _, rfl⟩⟩
      · exact (vector_put_update (s := s.record _) hlive hsome _ _ ref' q').trans (if_neg hne)
      · rw [hall, List.all_eq_true] at hok
        push Not at hok
        obtain ⟨t, ht, hbad⟩ := hok
        exact ⟨t, List.mem_cons_of_mem last ht, Bool.eq_false_iff.mpr hbad⟩

end Shim

/-! ### The rest of the backend leaves the speculators alone -/

/-- The speculators of a process. -/
def sightOf (d : Data (σ × Specs υ) γ Sid) : Sight := d.sys.ctx.2.sight

/-- What is seen of the speculators, of the whole context. -/
def specView (up : Upstream υ) (env : Env σ γ) : SpecView (speculating up env) Sight where
  view x := x.2.sight
  silent h := by
    induction h with
    | refl => rfl
    | samplerNew hf | samplerFree hf =>
      obtain ⟨f, -, rfl⟩ := Option.map_eq_some_iff.mp hf
      rfl
    | specNew hf | specBegin hf | specDraft hf | specAccept hf | specFree hf => exact nomatch hf
    | trans _ _ ih ih' => exact ih'.trans ih
  seqOps h := by
    induction h with
    | refl | unpack => rfl
    | rm hf | clear _ hf | rmLast hf | rmLastSeq0 _ hf =>
      obtain ⟨f, -, rfl⟩ := Option.map_eq_some_iff.mp hf
      rfl
    | trans _ _ ih ih' => exact ih'.trans ih
  seqCp hf _ _ _ := by
    obtain ⟨f, -, rfl⟩ := Option.map_eq_some_iff.mp hf
    rfl
  step _ _ := rfl
  specStep hcb _ _ _ _ := nomatch hcb
  prefill hcb _ _ _ _ _ := by
    obtain ⟨cb, -, rfl⟩ := Option.map_eq_some_iff.mp hcb
    rfl
  inspect h := by
    cases h with
    | verify hf | embed hf =>
      obtain ⟨f, -, rfl⟩ := Option.map_eq_some_iff.mp hf
      rfl
  verifyDraft hcb _ _ _ _ := by
    obtain ⟨cb, -, rfl⟩ := Option.map_eq_some_iff.mp hcb
    rfl
  accept hcb _ _ _ n := by
    obtain ⟨cb, -, rfl⟩ := Option.map_eq_some_iff.mp hcb
    exact nifSpecAccept_sight up _ _ _ n
  load hf _ _ _ := by
    obtain ⟨f, -, rfl⟩ := Option.map_eq_some_iff.mp hf
    rfl
  unload hf _ _ := by
    obtain ⟨f, -, rfl⟩ := Option.map_eq_some_iff.mp hf
    rfl
  apply hf _ _ := by
    obtain ⟨f, -, rfl⟩ := Option.map_eq_some_iff.mp hf
    rfl
  reset hf _ := by
    obtain ⟨f, -, rfl⟩ := Option.map_eq_some_iff.mp hf
    rfl

end Erllama.Native
