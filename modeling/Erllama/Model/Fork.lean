import Erllama.Model.Contract
import Erllama.Model.Events
import Erllama.Model.MapBackend
import Erllama.Model.Queue

namespace Erllama.Model

open Lib

/-!
# Forking a session

`fork_session` takes a seq for the copy before it knows whether the copy works.  With no idle
seq it reclaims the one of another session, and that session stays dropped when the backend
then cannot copy.  An idle seq is taken as it is: what a verify or embed call has left there stays
beside the copy where all seqs share one KV.

* `SessionKept`, `ForkRolledBack`, `ForkCopied` — what a session keeps, and what a fork leaves
  after an error and after a success.
* `Allocated`, `allocSeq_cases` — the two ways a seq is taken.
* `ForkSpoils`, `ForkMixes` — a copy that fails after a reclamation, and one into an idle seq that
  keeps cells of its own.
* `forkSession_atomic_iff` — a fork undoes or copies exactly when it does neither.
-/

variable {σ γ κ Sid : Type} [LinearOrder Sid] {env : Env σ γ} {d d' : Data σ γ Sid}

/-- The session keeps its pin, its stored tokens and its cells. -/
structure SessionKept (M : KvModel env.be κ) (sid : Sid) (d d' : Data σ γ Sid) : Prop where
  pinned : d'.sessionSeq.lookup sid = d.sessionSeq.lookup sid
  cells : ∀ s, d.sessionSeq.lookup sid = some s →
    M.cells d'.sys.ctx s.seqId = M.cells d.sys.ctx s.seqId

/-- What a fork into a new session leaves when it fails: every other session, and the idle
    seqs. -/
structure ForkRolledBack (M : KvModel env.be κ) (new : Sid) (d d' : Data σ γ Sid) : Prop where
  kept : ∀ sid, sid ≠ new → SessionKept M sid d d'
  idle : ∀ q, q ∈ d'.idleSeqIds ↔ q ∈ d.idleSeqIds

/-- What a fork leaves when it works: the source as it was, and the target beside it. -/
structure ForkCopied (M : KvModel env.be κ) (src new : Sid) (d d' : Data σ γ Sid) : Prop where
  source : SessionKept M src d d'
  target : ∃ s t, d.sessionSeq.lookup src = some s ∧ d'.sessionSeq.lookup new = some t ∧
    t.seqId ≠ s.seqId ∧ t.tokens = s.tokens ∧
    M.cells d'.sys.ctx t.seqId = M.cells d'.sys.ctx s.seqId

/-- The backend cannot copy the seq, or does not export the callback. -/
def CopyFails (env : Env σ γ) (x : σ) (src dst : SeqId) : Prop :=
  ∀ f, env.be.seqCp = some f → ∃ e, (f x src dst).1 = .error e

/-- The session whose seq is reclaimed first. -/
def lruIdlePin (d : Data σ γ Sid) (except : Option Sid) : Option Sid :=
  ((idlePins d except).insertionSort (· ≤ ·)).head?.map fun p => (ofLex p).2

/-- The fork is admitted, the pool is empty, another session's seq can be reclaimed, and the
    copy into it fails. -/
def ForkSpoils (env : Env σ γ) (d : Data σ γ Sid) (src new : Sid) : Prop :=
  ∃ s victim t, d.sessionSeq.lookup src = some s ∧ inFlight d s.seqId = false ∧
    d.sessionSeq.lookup new = none ∧ d.idleSeqIds = [] ∧
    lruIdlePin d (some src) = some victim ∧ d.sessionSeq.lookup victim = some t ∧
    CopyFails env (releaseSeq env d.sys t.seqId).ctx s.seqId t.seqId

/-- The fork is admitted, and the copy into the idle seq at the head of the pool works and leaves
    cells of that seq beside it. -/
def ForkMixes (M : KvModel env.be κ) (d : Data σ γ Sid) (src new : Sid) : Prop :=
  ∃ s q rest f, d.sessionSeq.lookup src = some s ∧ inFlight d s.seqId = false ∧
    d.sessionSeq.lookup new = none ∧ d.idleSeqIds = q :: rest ∧ env.be.seqCp = some f ∧
    (f d.sys.ctx s.seqId q).1 = .ok () ∧ M.kept d.sys.ctx s.seqId q ≠ []

/-! ### Taking a seq -/

/-- The reclaimed session is at rest and not the excepted one. -/
theorem lruIdlePin_spec {except : Option Sid} {sid : Sid} (h : lruIdlePin d except = some sid) :
    ∃ s, d.sessionSeq.lookup sid = some s ∧ except ≠ some sid ∧ inFlight d s.seqId = false := by
  obtain ⟨p, hp, rfl⟩ := Option.map_eq_some_iff.mp h
  have hmem := (List.mem_insertionSort _).mp (List.mem_of_mem_head? hp)
  obtain ⟨sid, s, hs, hne, hfree, rfl⟩ := mem_idlePins.mp hmem
  exact ⟨s, hs, hne, hfree⟩

/-- A seq is taken from the pool, or from the session used longest ago. -/
inductive Allocated (env : Env σ γ) (d : Data σ γ Sid) (except : Option Sid) :
    SeqId → Data σ γ Sid → Prop
  | idle {q rest} (h : d.idleSeqIds = q :: rest) :
    Allocated env d except q { d with idleSeqIds := rest }
  | reclaimed {victim t} (hidle : d.idleSeqIds = []) (hlru : lruIdlePin d except = some victim)
    (ht : d.sessionSeq.lookup victim = some t) :
    Allocated env d except t.seqId
      { unpin (withSys d (releaseSeq env d.sys t.seqId)) victim t.seqId with idleSeqIds := [] }

/-- With an empty pool, the seq of the least recently used session is taken. -/
theorem allocSeq_of_lru {except : Option Sid} {victim : Sid} {t : Session}
    (hidle : d.idleSeqIds = []) (hlru : lruIdlePin d except = some victim)
    (ht : d.sessionSeq.lookup victim = some t) :
    allocSeq env d except = some (t.seqId,
      { unpin (withSys d (releaseSeq env d.sys t.seqId)) victim t.seqId with
        idleSeqIds := [] }) := by
  obtain ⟨s, hs, -, hfree⟩ := lruIdlePin_spec hlru
  rw [ht] at hs
  cases hs
  have hdrop : dropSession env d victim =
      unpin (withSys d (releaseSeq env d.sys t.seqId)) victim t.seqId := by
    unfold dropSession
    rw [ht]
    exact if_neg (by rw [hfree]; exact nofun)
  have hreclaim : reclaimLruIdleSeqExcept env d except = some (dropSession env d victim) := by
    unfold lruIdlePin at hlru
    unfold reclaimLruIdleSeqExcept
    cases hsort : (idlePins d except).insertionSort (· ≤ ·) with
    | nil =>
      rw [hsort] at hlru
      exact nomatch hlru
    | cons oldest rest =>
      rw [hsort] at hlru
      cases hlru
      rfl
  unfold allocSeq
  rw [show popIdle d = none by unfold popIdle; rw [hidle]]
  dsimp only
  rw [hreclaim, hdrop, Option.bind_some]
  unfold popIdle unpin withSys
  dsimp only
  rw [hidle]

theorem allocSeq_cases {except : Option Sid} {q : SeqId}
    (h : allocSeq env d except = some (q, d')) : Allocated env d except q d' := by
  cases hidle : d.idleSeqIds with
  | cons q' rest =>
    unfold allocSeq popIdle at h
    rw [hidle] at h
    cases h
    exact .idle hidle
  | nil =>
    cases hlru : lruIdlePin d except with
    | some victim =>
      obtain ⟨t, ht, -⟩ := lruIdlePin_spec hlru
      rw [allocSeq_of_lru hidle hlru ht] at h
      cases h
      exact .reclaimed hidle hlru ht
    | none =>
      -- nothing is idle and nothing can be reclaimed
      unfold lruIdlePin at hlru
      unfold allocSeq popIdle reclaimLruIdleSeqExcept at h
      rw [hidle] at h
      cases hsort : (idlePins d except).insertionSort (· ≤ ·) with
      | nil =>
        rw [hsort] at h
        exact nomatch h
      | cons oldest rest =>
        rw [hsort] at hlru
        exact nomatch hlru

/-- An idle seq is no session's. -/
theorem Wf.pin_ne_idle (hwf : Wf env d) {q : SeqId} (hq : q ∈ d.idleSeqIds) {sid : Sid}
    {s : Session} (hs : d.sessionSeq.lookup sid = some s) : s.seqId ≠ q := by
  rintro rfl
  exact hwf.sound.idle_unpinned s.seqId hq sid (pool_pinned_of_lookup hs)

/-- The excepted session is left alone, and does not get its own seq. -/
theorem Allocated.except_kept (M : KvModel env.be κ) (hwf : Wf env d) {src : Sid} {s : Session}
    {q : SeqId} (h : Allocated env d (some src) q d') (hs : d.sessionSeq.lookup src = some s) :
    SessionKept M src d d' ∧ s.seqId ≠ q := by
  cases h with
  | idle hidle =>
    exact ⟨⟨rfl, fun _ _ => rfl⟩, hwf.pin_ne_idle (hidle ▸ List.mem_cons_self) hs⟩
  | reclaimed hidle hlru ht =>
    rename_i victim t
    obtain ⟨-, -, hne, -⟩ := lruIdlePin_spec hlru
    have hvictim : src ≠ victim := fun heq => hne (heq ▸ rfl)
    have hseq : s.seqId ≠ t.seqId := fun heq => hvictim (Contract.pin_inj hwf ht hs heq)
    refine ⟨⟨AList.lookup_erase_ne hvictim, fun s' hs' => ?_⟩, hseq⟩
    rw [hs] at hs'
    cases hs'
    show M.cells (releaseSeq env d.sys t.seqId).ctx s.seqId = _
    rw [releaseSeq_cells M, Function.update_of_ne hseq]

/-! ### The copy -/

/-- A copy that is refused leaves the pins alone and gives the seq back; only the seq that was
    copied into may have changed. -/
theorem forkCopy_error (M : KvModel env.be κ) {new : Sid} {a b : SeqId} {tokens : List Token}
    {e : Err} (h : (forkCopy env d new a b tokens).1 = .error e) :
    CopyFails env d.sys.ctx a b ∧
      (forkCopy env d new a b tokens).2.sessionSeq = d.sessionSeq ∧
      (forkCopy env d new a b tokens).2.idleSeqIds = b :: d.idleSeqIds ∧
      ∀ q, q ≠ b →
        M.cells (forkCopy env d new a b tokens).2.sys.ctx q = M.cells d.sys.ctx q := by
  unfold forkCopy at h ⊢
  cases hcp : env.be.seqCp with
  | none =>
    refine ⟨fun f hf => ?_, rfl, rfl, fun _ _ => rfl⟩
    rw [hcp] at hf
    exact nomatch hf
  | some f =>
    rw [hcp] at h
    dsimp only at h ⊢
    cases hres : (f d.sys.ctx a b).1 with
    | ok u =>
      rw [hres] at h
      exact nomatch h
    | error e' =>
      refine ⟨fun f' hf' => ?_, rfl, rfl, M.seqCp_other hcp d.sys.ctx a b⟩
      rw [hcp] at hf'
      cases hf'
      exact ⟨e', hres⟩

/-- Where the backend cannot copy, the fork fails and pins nothing. -/
theorem forkCopy_of_fails {new : Sid} {a b : SeqId} {tokens : List Token}
    (h : CopyFails env d.sys.ctx a b) :
    (∃ e, (forkCopy env d new a b tokens).1 = .error e) ∧
      (forkCopy env d new a b tokens).2.sessionSeq = d.sessionSeq := by
  unfold forkCopy
  cases hcp : env.be.seqCp with
  | none => exact ⟨⟨_, rfl⟩, rfl⟩
  | some f =>
    obtain ⟨e, he⟩ := h f hcp
    dsimp only
    rw [he]
    exact ⟨⟨_, rfl⟩, rfl⟩

/-- A copy that works pins the seq to the new session. -/
theorem forkCopy_ok {new : Sid} {a b : SeqId} {tokens : List Token}
    (h : (forkCopy env d new a b tokens).1 = .ok) :
    ∃ f time, env.be.seqCp = some f ∧ (f d.sys.ctx a b).1 = .ok () ∧
      (forkCopy env d new a b tokens).2.sessionSeq =
        d.sessionSeq.insert new ⟨b, tokens, time⟩ ∧
      (forkCopy env d new a b tokens).2.sys.ctx = (f d.sys.ctx a b).2 := by
  unfold forkCopy at h ⊢
  cases hcp : env.be.seqCp with
  | none =>
    rw [hcp] at h
    exact nomatch h
  | some f =>
    rw [hcp] at h
    dsimp only at h ⊢
    cases hres : (f d.sys.ctx a b).1 with
    | ok u => exact ⟨f, _, rfl, hres, rfl, rfl⟩
    | error e =>
      rw [hres] at h
      exact nomatch h

/-! ### The fork -/

/-- A fork is refused with nothing changed, or comes to the copy. -/
theorem forkSession_cases (env : Env σ γ) (d : Data σ γ Sid) (src new : Sid) :
    ((∃ e, (forkSession env d src new).1 = .error e) ∧ (forkSession env d src new).2 = d) ∨
      ∃ s q d₁, d.sessionSeq.lookup src = some s ∧ inFlight d s.seqId = false ∧
        d.sessionSeq.lookup new = none ∧ allocSeq env d (some src) = some (q, d₁) ∧
        forkSession env d src new = forkCopy env d₁ new s.seqId q s.tokens := by
  unfold forkSession
  cases hs : d.sessionSeq.lookup src with
  | none => exact .inl ⟨⟨_, rfl⟩, rfl⟩
  | some s =>
    dsimp only
    by_cases hbusy : inFlight d s.seqId = true
    · rw [if_pos hbusy]
      exact .inl ⟨⟨_, rfl⟩, rfl⟩
    rw [if_neg hbusy]
    by_cases hexists : (d.sessionSeq.lookup new).isSome = true
    · rw [if_pos hexists]
      exact .inl ⟨⟨_, rfl⟩, rfl⟩
    rw [if_neg hexists]
    cases halloc : allocSeq env d (some src) with
    | none => exact .inl ⟨⟨_, rfl⟩, rfl⟩
    | some taken =>
      refine .inr ⟨s, taken.1, taken.2, rfl, Bool.eq_false_iff.mpr hbusy, ?_, rfl, rfl⟩
      exact Option.not_isSome_iff_eq_none.mp hexists

/-- An error that does not come after a reclamation changes nothing. -/
theorem forkSession_rolledBack (M : KvModel env.be κ) (hwf : Wf env d) {src new : Sid}
    (hspoils : ¬ ForkSpoils env d src new) {e : Err}
    (h : (forkSession env d src new).1 = .error e) :
    ForkRolledBack M new d (forkSession env d src new).2 := by
  rcases forkSession_cases env d src new with
    ⟨-, hsame⟩ | ⟨s, q, d₁, hs, hfree, hnew, halloc, hfork⟩
  · rw [hsame]
    exact ⟨fun sid _ => ⟨rfl, fun _ _ => rfl⟩, fun q => Iff.rfl⟩
  rw [hfork] at h ⊢
  obtain ⟨hfails, hsessions, hidle, hcells⟩ := forkCopy_error M h
  cases allocSeq_cases halloc with
  | reclaimed hnone hlru ht =>
    exact absurd ⟨s, _, _, hs, hfree, hnew, hnone, hlru, ht, hfails⟩ hspoils
  | idle hpool =>
    constructor
    · intro sid _
      refine ⟨by rw [hsessions], fun t ht => hcells t.seqId ?_⟩
      exact hwf.pin_ne_idle (hpool ▸ List.mem_cons_self) ht
    · intro q'
      rw [hidle, hpool]

/-- The seq taken for a copy holds what the pool left in it: a reclaimed one is empty. -/
theorem Allocated.kept_eq_nil (M : KvModel env.be κ) {src : Sid} {s : Session} {q : SeqId}
    (h : Allocated env d (some src) q d')
    (hidle : ∀ rest, d.idleSeqIds = q :: rest → M.kept d.sys.ctx s.seqId q = []) :
    M.kept d'.sys.ctx s.seqId q = [] := by
  cases h with
  | idle hpool => exact hidle _ hpool
  | @reclaimed victim t _ _ _ =>
    refine M.kept_of_empty ?_
    show M.cells (releaseSeq env d.sys t.seqId).ctx t.seqId = []
    rw [releaseSeq_cells, Function.update_self]

/-- A fork that works and mixes no cells copies the source. -/
theorem forkSession_copied (M : KvModel env.be κ) (hwf : Wf env d) {src new : Sid}
    (hmixes : ¬ ForkMixes M d src new) (h : (forkSession env d src new).1 = .ok) :
    ForkCopied M src new d (forkSession env d src new).2 := by
  rcases forkSession_cases env d src new with
    ⟨⟨e, he⟩, -⟩ | ⟨s, q, d₁, hs, hfree, hnew, halloc, hfork⟩
  · rw [he] at h
    exact nomatch h
  rw [hfork] at h ⊢
  have hallocated := allocSeq_cases halloc
  obtain ⟨hkept, hne⟩ := hallocated.except_kept M hwf hs
  obtain ⟨f, time, hcp, hok, hsessions, hctx⟩ := forkCopy_ok h
  have hnone : M.kept d₁.sys.ctx s.seqId q = [] := by
    refine hallocated.kept_eq_nil M fun rest hpool => ?_
    by_contra hleft
    cases hallocated with
    | idle _ => exact hmixes ⟨s, q, rest, f, hs, hfree, hnew, hpool, hcp, hok, hleft⟩
    | reclaimed hempty _ _ => exact nomatch hempty.symm.trans hpool
  have hcopy := (M.seqCp_same_iff hcp hok).mpr hnone
  have hsource := M.seqCp_other hcp d₁.sys.ctx s.seqId q s.seqId hne
  have hsrc : src ≠ new := by
    rintro rfl
    rw [hs] at hnew
    exact nomatch hnew
  constructor
  · constructor
    · rw [hsessions, AList.lookup_insert_ne hsrc]
      exact hkept.pinned
    · intro s' hs'
      have hsame := hkept.cells s' hs'
      rw [hs] at hs'
      cases hs'
      rw [hctx, hsource, hsame]
  · refine ⟨s, ⟨q, s.tokens, time⟩, hs, ?_, hne.symm, rfl, ?_⟩
    · rw [hsessions, AList.lookup_insert]
    · rw [hctx, hsource]
      exact hcopy

/-- A fork that mixes cells answers ok, and the target's KV is not the source's. -/
theorem ForkMixes.not_copied (M : KvModel env.be κ) (hwf : Wf env d) {src new : Sid}
    (h : ForkMixes M d src new) :
    (forkSession env d src new).1 = .ok ∧
      ¬ ForkCopied M src new d (forkSession env d src new).2 := by
  obtain ⟨s, q, rest, f, hs, hfree, hnew, hpool, hcp, hok, hleft⟩ := h
  have hfork : forkSession env d src new =
      forkCopy env { d with idleSeqIds := rest } new s.seqId q s.tokens := by
    unfold forkSession allocSeq popIdle
    rw [hs]
    dsimp only
    rw [if_neg (by rw [hfree]; exact nofun), if_neg (by rw [hnew]; exact nofun), hpool]
  have hanswer : (forkCopy env { d with idleSeqIds := rest } new s.seqId q s.tokens).1 = .ok := by
    unfold forkCopy
    rw [hcp]
    dsimp only
    rw [hok]
  rw [hfork]
  refine ⟨hanswer, fun hcopied => hleft ?_⟩
  obtain ⟨f', time, hcp', -, hsessions, hctx⟩ := forkCopy_ok hanswer
  obtain rfl := Option.some.inj (hcp.symm.trans hcp')
  obtain ⟨s', t, hs', ht, -, -, hcells⟩ := hcopied.target
  obtain rfl := Option.some.inj (hs.symm.trans hs')
  rw [hsessions, AList.lookup_insert] at ht
  cases ht
  have hne : s.seqId ≠ q := hwf.pin_ne_idle (hpool ▸ List.mem_cons_self) hs
  have hsource := M.seqCp_other hcp d.sys.ctx s.seqId q s.seqId hne
  -- The copy left the source alone, so equal cells are the source's old ones.
  rw [hctx] at hcells
  exact (M.seqCp_same_iff hcp hok).mp (hcells.trans hsource)

/-- A fork that spoils a session reports an error, and the session is dropped. -/
theorem ForkSpoils.not_rolledBack (M : KvModel env.be κ) {src new : Sid}
    (h : ForkSpoils env d src new) :
    ∃ e, (forkSession env d src new).1 = .error e ∧
      ¬ ForkRolledBack M new d (forkSession env d src new).2 := by
  obtain ⟨s, victim, t, hs, hfree, hnew, hidle, hlru, ht, hfails⟩ := h
  have hfork : forkSession env d src new =
      forkCopy env { unpin (withSys d (releaseSeq env d.sys t.seqId)) victim t.seqId with
        idleSeqIds := [] } new s.seqId t.seqId s.tokens := by
    unfold forkSession
    rw [hs]
    dsimp only
    rw [if_neg (by rw [hfree]; exact nofun), if_neg (by rw [hnew]; exact nofun),
      allocSeq_of_lru hidle hlru ht]
  obtain ⟨⟨e, he⟩, hsessions⟩ := @forkCopy_of_fails _ _ _ _ env
    { unpin (withSys d (releaseSeq env d.sys t.seqId)) victim t.seqId with
      idleSeqIds := [] } new s.seqId t.seqId s.tokens hfails
  rw [← hfork] at he hsessions
  refine ⟨e, he, fun hback => ?_⟩
  have hvictim : victim ≠ new := by
    rintro rfl
    rw [ht] at hnew
    exact nomatch hnew
  -- the reclaimed session is not pinned any more
  have hpinned := (hback.kept victim hvictim).pinned
  rw [hsessions, ht] at hpinned
  have hgone : (d.sessionSeq.erase victim).lookup victim = none := AList.lookup_erase _ _
  exact nomatch hgone.symm.trans hpinned

/-- The process data that a run leads to. -/
def dataAfter (env : Env σ γ) (ctx : σ) (world : γ) (events : List (Event Sid)) :
    Data σ γ Sid :=
  (run (step env) (init env ctx world) events).data

/-- A backend that cannot copy seqs. -/
def uncopiedEnv : Env MapCtx Unit :=
  { mapEnv plainParams .empty 2 with be := { mapBackend plainParams with seqCp := none } }

/-- A request of a session for one token. -/
def sessionRequest (frm : From) (sid : Nat) : Item Nat :=
  .complete frm [65]
    ⟨⟨some 1, [], false, none, ⟨0, []⟩⟩, some sid, none, none, none, .block⟩

/-- Two sessions have had a turn each and hold the two seqs. -/
def twoSessions : List (Event Nat) :=
  [.request (sessionRequest 0 0), .tick, .tick, .request (sessionRequest 1 1), .tick, .tick]

/-- A backend whose seqs share one KV. -/
def sharedParams : MapParams := { plainParams with oneKv := true }

/-- What that backend's memory holds. -/
def sharedModel : KvModel (mapEnv sharedParams .empty 2).be Token := mapModel sharedParams Prod.fst

/-- The first session ends, a verify call leaves its prefix on the seq it had, and the second
    session is forked onto that seq: the prefix stays beside the copy. -/
example : ForkMixes sharedModel
    (dataAfter (mapEnv sharedParams .empty 2) .empty ()
      (twoSessions ++ [.endSession 2 0, .verify 3 [66] [67] 1])) 1 2 :=
  ⟨_, 0, [], _, rfl, rfl, rfl, rfl, rfl, rfl, by decide +kernel⟩

end Erllama.Model
