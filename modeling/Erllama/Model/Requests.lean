import Erllama.Lib.Pool
import Erllama.Model.Machine

namespace Erllama.Model

open Lib

/-!
# The request table and the pool of seqs

* the simp set of the process's updates;
* `mem_requests` — the requests the process walks are those of its table;
* `ReqWf` — what holds of every request in the table;
* `pool` — idle list, request table and session map seen as a pool of slots.
-/

variable {σ γ Sid : Type}

/-! ### Fields after an update -/

section Fields

variable (d : Data σ γ Sid) (r : Req Sid) (q : SeqId) (s : Sys σ γ Sid)

@[simp] theorem withSys_sys : (withSys d s).sys = s := rfl
@[simp] theorem withSys_reqTable : (withSys d s).reqTable = d.reqTable := rfl
@[simp] theorem withSys_idleSeqIds : (withSys d s).idleSeqIds = d.idleSeqIds := rfl
@[simp] theorem withSys_sessionSeq : (withSys d s).sessionSeq = d.sessionSeq := rfl
@[simp] theorem withSys_effectiveFp : (withSys d s).effectiveFp = d.effectiveFp := rfl
@[simp] theorem withSys_adapters : (withSys d s).adapters = d.adapters := rfl
@[simp] theorem withSys_pending : (withSys d s).pending = d.pending := rfl
@[simp] theorem withSys_withSys (s' : Sys σ γ Sid) : withSys (withSys d s) s' = withSys d s' := rfl
@[simp] theorem withSys_self : withSys d d.sys = d := rfl
@[simp] theorem putReq_sys : (putReq d r).sys = d.sys := rfl
@[simp] theorem putReq_idleSeqIds : (putReq d r).idleSeqIds = d.idleSeqIds := rfl
@[simp] theorem putReq_sessionSeq : (putReq d r).sessionSeq = d.sessionSeq := rfl
@[simp] theorem putReq_effectiveFp : (putReq d r).effectiveFp = d.effectiveFp := rfl
@[simp] theorem putReq_adapters : (putReq d r).adapters = d.adapters := rfl
@[simp] theorem removeReq_sys : (removeReq d q).sys = d.sys := rfl
@[simp] theorem removeReq_idleSeqIds : (removeReq d q).idleSeqIds = d.idleSeqIds := rfl
@[simp] theorem removeReq_sessionSeq : (removeReq d q).sessionSeq = d.sessionSeq := rfl
@[simp] theorem removeReq_effectiveFp : (removeReq d q).effectiveFp = d.effectiveFp := rfl
@[simp] theorem removeReq_adapters : (removeReq d q).adapters = d.adapters := rfl
@[simp] theorem pushIdle_sys : (pushIdle d q).sys = d.sys := rfl
@[simp] theorem pushIdle_reqTable : (pushIdle d q).reqTable = d.reqTable := rfl
@[simp] theorem pushIdle_sessionSeq : (pushIdle d q).sessionSeq = d.sessionSeq := rfl
@[simp] theorem pushIdle_effectiveFp : (pushIdle d q).effectiveFp = d.effectiveFp := rfl
@[simp] theorem pushIdle_adapters : (pushIdle d q).adapters = d.adapters := rfl

/-- What is put in is found under its seq. -/
theorem lookup_putReq (q : SeqId) :
    (putReq d r).reqTable.lookup q = if q = r.seqId then some r else d.reqTable.lookup q :=
  AList.lookup_insert_ite d.reqTable r.seqId r q

/-- What is taken out is not found any more. -/
theorem lookup_removeReq (q' : SeqId) :
    (removeReq d q).reqTable.lookup q' = if q' = q then none else d.reqTable.lookup q' :=
  AList.lookup_erase_ite d.reqTable q q'

/-- A seq is free iff nothing is found under it. -/
theorem inFlight_eq_false_iff : inFlight d q = false ↔ d.reqTable.lookup q = none :=
  Option.isSome_eq_false_iff.trans Option.isNone_iff_eq_none

end Fields

/-! ### The requests of a table -/

/-- The requests are the entries of the table. -/
theorem mem_requests {t : Table SeqId (Req Sid)} {r : Req Sid} :
    r ∈ requests t ↔ ∃ q, t.lookup q = some r := by
  unfold requests
  rw [List.mem_map]
  constructor
  · rintro ⟨⟨q, r'⟩, hmem, rfl⟩
    exact ⟨q, AList.mem_entries_iff.mp ((List.mem_insertionSort _).mp hmem)⟩
  · rintro ⟨q, hq⟩
    exact ⟨⟨q, r⟩, (List.mem_insertionSort _).mpr (AList.mem_entries_iff.mpr hq), rfl⟩

/-- Every request sits under its own seq. -/
def KeysMatch (t : Table SeqId (Req Sid)) : Prop :=
  ∀ q r, t.lookup q = some r → r.seqId = q

/-- A record is put in under its own seq. -/
theorem KeysMatch.putReq {d : Data σ γ Sid} (h : KeysMatch d.reqTable) (r : Req Sid) :
    KeysMatch (putReq d r).reqTable := by
  intro q r' hr'
  rw [lookup_putReq] at hr'
  split at hr'
  case isTrue heq =>
    cases hr'
    exact heq.symm
  case isFalse => exact h q r' hr'

/-- A request of the table is found under its own seq. -/
theorem lookup_of_mem_requests {t : Table SeqId (Req Sid)} (ht : KeysMatch t) {r : Req Sid}
    (h : r ∈ requests t) : t.lookup r.seqId = some r := by
  obtain ⟨q, hq⟩ := mem_requests.mp h
  rwa [ht q r hq]

/-- The requests of a table have different seqs. -/
theorem requests_seqId_nodup {t : Table SeqId (Req Sid)} (ht : KeysMatch t) :
    ((requests t).map Req.seqId).Nodup := by
  have hperm := List.perm_insertionSort (fun a b : (_ : SeqId) × Req Sid => a.1 ≤ b.1) t.entries
  have hkeys : ((t.entries.insertionSort fun a b => a.1 ≤ b.1).map Sigma.fst).Nodup :=
    (hperm.map Sigma.fst).nodup_iff.mpr t.nodupKeys
  have heq : (requests t).map Req.seqId
      = (t.entries.insertionSort fun a b => a.1 ≤ b.1).map Sigma.fst := by
    unfold requests
    rw [List.map_map]
    refine List.map_congr_left fun p hp => ?_
    exact ht p.1 p.2 (AList.mem_entries_iff.mp (hperm.mem_iff.mp hp))
  rw [heq]
  exact hkeys

/-! ### Well-formed requests -/

/-- What holds of every request in the table.  Media requests have no session, no checkpoint
    ladder, no cursor and no speculation; a speculative request passed the model's gates. -/
structure ReqWf (env : Env σ γ) (r : Req Sid) : Prop where
  media_of_state : r.mediaState.isSome → r.media.isSome
  sessionId_of_media : r.media.isSome → r.sessionId = none
  ladder_of_media : r.media.isSome → r.coldSaveSegments = none
  cursor_of_media : r.media.isSome → r.prefillCursor = none
  spec_of_media : r.media.isSome → r.spec = none
  gates_of_spec : r.spec.isSome → env.cfg.recurrent = false ∧ env.cfg.hybrid = false

/-- The second record is of the same request: its identity, and nothing switched on. -/
structure SameIdent (r r' : Req Sid) : Prop where
  seqId : r'.seqId = r.seqId
  sessionId : r'.sessionId = r.sessionId
  media : r'.media = r.media
  mediaState : r'.mediaState.isSome = r.mediaState.isSome
  requestFp : r'.requestFp = r.requestFp
  spec : r'.spec.isSome → r.spec.isSome

/-- A record has its own identity. -/
theorem SameIdent.refl (r : Req Sid) : SameIdent r r := ⟨rfl, rfl, rfl, rfl, rfl, id⟩

/-- One change of a record after another. -/
theorem SameIdent.trans {r r' r'' : Req Sid} (h : SameIdent r r') (h' : SameIdent r' r'') :
    SameIdent r r'' where
  seqId := h'.seqId.trans h.seqId
  sessionId := h'.sessionId.trans h.sessionId
  media := h'.media.trans h.media
  mediaState := h'.mediaState.trans h.mediaState
  requestFp := h'.requestFp.trans h.requestFp
  spec := fun hs => h.spec (h'.spec hs)

/-- A record of a well-formed request is well formed if a media request still has nothing left
    to prefill. -/
theorem SameIdent.wf {env : Env σ γ} {r r' : Req Sid} (h : SameIdent r r') (hr : ReqWf env r)
    (hmedia : r'.media.isSome → r'.coldSaveSegments = none ∧ r'.prefillCursor = none) :
    ReqWf env r' where
  media_of_state := fun hs => by
    rw [h.media]; exact hr.media_of_state (h.mediaState ▸ hs)
  sessionId_of_media := fun hm => by
    rw [h.sessionId]; exact hr.sessionId_of_media (h.media ▸ hm)
  ladder_of_media := fun hm => (hmedia hm).1
  cursor_of_media := fun hm => (hmedia hm).2
  spec_of_media := fun hm => by
    have hnone := hr.spec_of_media (h.media ▸ hm)
    cases hs : r'.spec with
    | none => rfl
    | some cfg =>
      have hsome := h.spec (by rw [hs]; rfl)
      rw [hnone] at hsome
      exact nomatch hsome
  gates_of_spec := fun hs => hr.gates_of_spec (h.spec hs)

/-- Two records of one request that differ in progress marks, counters and what is held back
    from the caller, but in nothing the KV or a save depends on. -/
structure SameCore (r r' : Req Sid) : Prop extends SameIdent r r' where
  contextTokens : r'.contextTokens = r.contextTokens
  coldSaveSegments : r'.coldSaveSegments = r.coldSaveSegments
  prefillCursor : r'.prefillCursor = r.prefillCursor

/-- A record has its own core. -/
theorem SameCore.refl (r : Req Sid) : SameCore r r := ⟨.refl r, rfl, rfl, rfl⟩

/-- One change of a record after another. -/
theorem SameCore.trans {r r' r'' : Req Sid} (h : SameCore r r') (h' : SameCore r' r'') :
    SameCore r r'' where
  toSameIdent := h.toSameIdent.trans h'.toSameIdent
  contextTokens := h'.contextTokens.trans h.contextTokens
  coldSaveSegments := h'.coldSaveSegments.trans h.coldSaveSegments
  prefillCursor := h'.prefillCursor.trans h.prefillCursor

/-- The same core, as well formed. -/
theorem SameCore.wf {env : Env σ γ} {r r' : Req Sid} (h : SameCore r r') (hr : ReqWf env r) :
    ReqWf env r' :=
  h.toSameIdent.wf hr fun hm => by
    have hm' : r.media.isSome := h.media ▸ hm
    rw [h.coldSaveSegments, h.prefillCursor]
    exact ⟨hr.ladder_of_media hm', hr.cursor_of_media hm'⟩

/-! ### The pool of seqs -/

/-- The process's seqs as a pool: a seq in the request table is busy, and its request's session
    is the key it will be pinned under. -/
def pool (d : Data σ γ Sid) [DecidableEq Sid] : Pool SeqId Sid where
  idle := d.idleSeqIds
  busy := fun q => (d.reqTable.lookup q).map Req.sessionId
  pinned := fun sid => (d.sessionSeq.lookup sid).map Session.seqId

section Pool

variable [DecidableEq Sid] (d : Data σ γ Sid) (r : Req Sid) (q : SeqId)

/-- The system is no part of the pool. -/
@[simp] theorem pool_withSys (s : Sys σ γ Sid) : pool (withSys d s) = pool d := rfl

/-- A request in the table makes its seq busy. -/
theorem pool_putReq :
    pool (putReq d r)
      = { pool d with busy := Function.update (pool d).busy r.seqId (some r.sessionId) } := by
  unfold pool
  congr 1
  funext q
  rw [lookup_putReq, Function.update_apply]
  split <;> simp

/-- A request that leaves frees it. -/
theorem pool_removeReq :
    pool (removeReq d q) = { pool d with busy := Function.update (pool d).busy q none } := by
  unfold pool
  congr 1
  funext q'
  rw [lookup_removeReq, Function.update_apply]
  split <;> simp

/-- A seq is not busy iff no request is on it. -/
theorem pool_busy_eq_none : (pool d).busy q = none ↔ d.reqTable.lookup q = none :=
  Option.map_eq_none_iff

/-- A request's seq is busy for its session. -/
theorem pool_busy_of_lookup {d : Data σ γ Sid} {q : SeqId} {r : Req Sid}
    (h : d.reqTable.lookup q = some r) : (pool d).busy q = some r.sessionId :=
  congrArg (Option.map Req.sessionId) h

/-- A session's seq is pinned for it. -/
theorem pool_pinned_of_lookup {d : Data σ γ Sid} {sid : Sid} {s : Session}
    (h : d.sessionSeq.lookup sid = some s) : (pool d).pinned sid = some s.seqId :=
  congrArg (Option.map Session.seqId) h

/-- Replacing the record of a request by one with its seq and session moves no seq. -/
theorem pool_putReq_of_same {d : Data σ γ Sid} {q : SeqId} {r₀ r : Req Sid}
    (h : d.reqTable.lookup q = some r₀) (hq : r.seqId = q) (hs : r.sessionId = r₀.sessionId) :
    pool (putReq d r) = pool d := by
  have hbusy : (pool d).busy r.seqId = some r.sessionId := by
    rw [hq, hs]; exact pool_busy_of_lookup h
  rw [pool_putReq, ← hbusy, Function.update_eq_self]

end Pool

end Erllama.Model
