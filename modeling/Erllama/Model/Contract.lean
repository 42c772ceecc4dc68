import Erllama.Model.Kv

namespace Erllama.Model

open Lib

/-!
# Contracts between the bookkeeping and the KV

A contract says what the process's records claim about the cells of a seq: a request in flight
about its own seq, a session at rest about the pinned one, and every save and pin in the log
about the seq at that moment.  It may also claim that idle seqs are empty.  Its fields are what
each kind of move owes; together they make it an invariant of the process.

* `Contract`, `Contract.Holds` — the claims, and that they are true.
* `Contract.move_holds` — every move keeps them.
* `Contract.run_holds` — so does every run whose events meet the guard.
-/

variable {σ γ Sid : Type} {κ : Type} {env : Env σ γ} {G : Guard σ γ Sid}

/-- What applying one result of a step owes: the record fits the grown cells, and so does what
    it saved. -/
def Owes (env : Env σ γ) (inFlight : Req Sid → List κ → Prop) (entry : Entry σ Sid → Prop)
    (x : σ) (cells : List κ) (op : Op) (res : StepResult) (r : Req Sid) : Prop :=
  ∀ (d : Data σ γ Sid) out, d.sys.ctx = x → stepResult env d r op res = some out →
    inFlight out.1 cells ∧ ∀ e ∈ out.2.log, e ∈ d.sys.log ∨ entry e

/-- A contract under a guard. -/
structure Contract [LinearOrder Sid] (env : Env σ γ) (G : Guard σ γ Sid)
    (M : KvModel env.be κ) where
  /-- What holds of the context, the effective fingerprint and the adapters. -/
  side : σ → Digest → List Adapter → Prop
  /-- What a request's record says about the cells of its seq. -/
  inFlight : Req Sid → List κ → Prop
  /-- What a session's tokens say about the cells of its seq. -/
  stored : List Token → List κ → Prop
  /-- What an entry of the log says about the context it was made in. -/
  entry : Entry σ Sid → Prop
  /-- Whether it says that idle seqs hold no cells. -/
  clean : Prop
  side_move : ∀ {d d' : Data σ γ Sid}, Move env G d d' →
    side d.sys.ctx d.effectiveFp d.adapters → side d'.sys.ctx d'.effectiveFp d'.adapters
  core : ∀ {r r' cs}, SameCore r r' → inFlight r cs → inFlight r' cs
  start : ∀ {d : Data σ γ Sid} {r lookup}, side d.sys.ctx d.effectiveFp d.adapters →
    FreshReq env d r → G.start d r lookup → ∀ prompt,
    inFlight (setupAdmissionPath env d r .normal prompt lookup).1
      (M.cells (setupAdmissionPath env d r .normal prompt lookup).2.ctx r.seqId)
  startMedia : ∀ {d : Data σ γ Sid} {r}, side d.sys.ctx d.effectiveFp d.adapters →
    FreshMedia d r → G.startMedia d r → inFlight r (M.cells d.sys.ctx r.seqId)
  resume : ∀ {d : Data σ γ Sid} {r ts prompt mode}, side d.sys.ctx d.effectiveFp d.adapters →
    FreshReq env d r → G.resume d r → ResumesOn ts prompt mode →
    stored ts (M.cells d.sys.ctx r.seqId) → ∀ lookup,
    inFlight (setupAdmissionPath env d r mode prompt lookup).1
      (M.cells (setupAdmissionPath env d r mode prompt lookup).2.ctx r.seqId)
  results : ∀ {d : Data σ γ Sid} {ops results x pairs}, side d.sys.ctx d.effectiveFp d.adapters →
    (ops.map Prod.fst).Nodup → env.be.step d.sys.ctx ops = (.ok results, x) →
    G.results (withCtx d x) pairs → ∀ {q op res r}, ((q, op), res) ∈ pairs → (q, op) ∈ ops →
    (q, res) ∈ results → d.reqTable.lookup q = some r → r.seqId = q → ReqWf env r →
    inFlight r (M.cells d.sys.ctx q) → Owes env inFlight entry x (M.cells x q) op res r
  commit : ∀ {d d' : Data σ γ Sid} {cb sampler q r draft res x},
    side d.sys.ctx d.effectiveFp d.adapters → env.be.spec = some cb →
    d.reqTable.lookup q = some r → r.seqId = q → ReqWf env r → r.spec.isSome →
    cb.step d.sys.ctx sampler q draft = (.ok res, x) → G.commit (withCtx d x) q res →
    commitSpec env (withCtx d x) q draft res = .stepped d' → inFlight r (M.cells d.sys.ctx q) →
    (∀ r', d'.reqTable.lookup q = some r' → inFlight r' (M.cells d'.sys.ctx q)) ∧
      ∀ e ∈ d'.sys.log, e ∈ d.sys.log ∨ entry e
  prefill : ∀ {d : Data σ γ Sid} {cb r n x}, side d.sys.ctx d.effectiveFp d.adapters →
    env.be.media = some cb → r.media.isSome →
    cb.prefill d.sys.ctx r.mediaPrompt (r.media.getD []) r.seqId r.mediaAddSpecial = (.ok n, x) →
    G.prefill d r → inFlight r (M.cells d.sys.ctx r.seqId) →
    inFlight { r with mediaState := some .done, mediaNTokens := n.1, mediaNPos := n.2 }
      (M.cells x r.seqId)
  save : ∀ {d : Data σ γ Sid} {r c}, inFlight r (M.cells d.sys.ctx r.seqId) → r.media = none →
    CallFor env d r r.contextTokens c → entry (.save c)
  evict : ∀ {d : Data σ γ Sid} {r c}, inFlight r (M.cells d.sys.ctx r.seqId) → G.evict r →
    r.contextTokens ≠ [] → env.cfg.tier ≠ .ram → CallFor env d r r.contextTokens c →
    entry (.save c)
  keep : ∀ {r cs}, inFlight r cs → r.media = none → stored r.contextTokens cs
  pin : ∀ {ts x q}, stored ts (M.cells x q) → entry (.pin ⟨q, ts, x⟩)
  inspect : ∀ {d : Data σ γ Sid} {x}, side d.sys.ctx d.effectiveFp d.adapters →
    Inspects env.be d.sys.ctx x → G.inspect d →
    (∀ r, d.reqTable.lookup 0 = some r → inFlight r (M.cells d.sys.ctx 0) →
      inFlight r (M.cells x 0)) ∧
    ∀ sid s, d.sessionSeq.lookup sid = some s → s.seqId = 0 →
      stored s.tokens (M.cells d.sys.ctx 0) → stored s.tokens (M.cells x 0)
  inspect_clean : ∀ {d : Data σ γ Sid}, clean → G.inspect d → 0 ∉ d.idleSeqIds
  fork : ∀ {d : Data σ γ Sid} {f src dst ts x}, side d.sys.ctx d.effectiveFp d.adapters →
    env.be.seqCp = some f → f d.sys.ctx src dst = (.ok (), x) → G.fork d.sys.ctx src dst →
    (clean → M.cells d.sys.ctx dst = []) → stored ts (M.cells d.sys.ctx src) →
    stored ts (M.cells x dst)

namespace Contract

variable [LinearOrder Sid] {M : KvModel env.be κ} (C : Contract env G M)

/-- The claims of a contract are true of a process. -/
structure Holds (d : Data σ γ Sid) : Prop where
  side : C.side d.sys.ctx d.effectiveFp d.adapters
  requests : ∀ q r, d.reqTable.lookup q = some r → C.inFlight r (M.cells d.sys.ctx q)
  sessions : ∀ sid s, d.sessionSeq.lookup sid = some s → d.reqTable.lookup s.seqId = none →
    C.stored s.tokens (M.cells d.sys.ctx s.seqId)
  idle : C.clean → ∀ q ∈ d.idleSeqIds, M.cells d.sys.ctx q = []
  log : ∀ e ∈ d.sys.log, C.entry e

/-- What a move owes: each claim is an old one about unchanged cells, or true anew. -/
structure Keeps (d d' : Data σ γ Sid) : Prop where
  requests : ∀ q r, d'.reqTable.lookup q = some r →
    (d.reqTable.lookup q = some r ∧ M.cells d'.sys.ctx q = M.cells d.sys.ctx q) ∨
      C.inFlight r (M.cells d'.sys.ctx q)
  sessions : ∀ sid s, d'.sessionSeq.lookup sid = some s → d'.reqTable.lookup s.seqId = none →
    (d.sessionSeq.lookup sid = some s ∧ d.reqTable.lookup s.seqId = none ∧
        M.cells d'.sys.ctx s.seqId = M.cells d.sys.ctx s.seqId) ∨
      C.stored s.tokens (M.cells d'.sys.ctx s.seqId)
  idle : C.clean → ∀ q ∈ d'.idleSeqIds,
    (q ∈ d.idleSeqIds ∧ M.cells d'.sys.ctx q = M.cells d.sys.ctx q) ∨ M.cells d'.sys.ctx q = []
  log : ∀ e ∈ d'.sys.log, e ∈ d.sys.log ∨ C.entry e

variable {C}

/-- What keeps the contract's parts keeps the contract. -/
theorem Keeps.holds {d d' : Data σ γ Sid} (h : C.Keeps d d') (hd : C.Holds d)
    (hside : C.side d'.sys.ctx d'.effectiveFp d'.adapters) : C.Holds d' where
  side := hside
  requests := fun q r hr => by
    rcases h.requests q r hr with ⟨hold, hcells⟩ | hnew
    · rw [hcells]
      exact hd.requests q r hold
    · exact hnew
  sessions := fun sid s hs hfree => by
    rcases h.sessions sid s hs hfree with ⟨hold, hfree', hcells⟩ | hnew
    · rw [hcells]
      exact hd.sessions sid s hold hfree'
    · exact hnew
  idle := fun hclean q hq => by
    rcases h.idle hclean q hq with ⟨hold, hcells⟩ | hnone
    · rw [hcells]
      exact hd.idle hclean q hold
    · exact hnone
  log := fun e he => (h.log e he).elim (hd.log e) id

/-- Nothing a contract speaks of changes. -/
theorem Keeps.of_same {d d' : Data σ γ Sid} (htable : d'.reqTable = d.reqTable)
    (hsessions : d'.sessionSeq = d.sessionSeq) (hidle : d'.idleSeqIds = d.idleSeqIds)
    (hcells : M.cells d'.sys.ctx = M.cells d.sys.ctx) (hlog : d'.sys.log = d.sys.log) :
    C.Keeps d d' where
  requests := fun q r hr => .inl ⟨htable ▸ hr, by rw [hcells]⟩
  sessions := fun sid s hs hfree => .inl ⟨hsessions ▸ hs, htable ▸ hfree, by rw [hcells]⟩
  idle := fun _ q hq => .inl ⟨hidle ▸ hq, by rw [hcells]⟩
  log := fun e he => .inl (hlog ▸ he)

/-! ### The results of a step -/

omit [LinearOrder Sid] in
/-- The pairs of a step are its rows, each with one of the results. -/
theorem pairOpsWithResults_spec {ops : List (SeqId × Op)} {results : List (SeqId × StepResult)}
    {pairs : List ResultPair} (h : pairOpsWithResults ops results = some pairs) :
    pairs.map Prod.fst = ops ∧ ∀ pair ∈ pairs, (pair.1.1, pair.2) ∈ results := by
  unfold pairOpsWithResults at h
  induction ops generalizing pairs with
  | nil =>
    cases h
    exact ⟨rfl, fun _ hmem => nomatch hmem⟩
  | cons op ops ih =>
    rw [List.mapM_cons] at h
    obtain ⟨pair, hpair, h⟩ := Option.bind_eq_some_iff.mp h
    obtain ⟨rest, hrest, h⟩ := Option.bind_eq_some_iff.mp h
    obtain rfl := Option.some.inj h
    obtain ⟨hfst, hmem⟩ := ih hrest
    obtain ⟨res, hres, rfl⟩ := Option.map_eq_some_iff.mp hpair
    refine ⟨by rw [List.map_cons, hfst], ?_⟩
    intro pair' hpair'
    rcases List.mem_cons.mp hpair' with rfl | htail
    · unfold resultFor at hres
      obtain ⟨found, hfind, rfl⟩ := Option.map_eq_some_iff.mp hres
      have hin := List.mem_reverse.mp (List.mem_of_find?_eq_some hfind)
      have hq : found.1 = op.1 := by simpa using List.find?_some hfind
      show (op.1, found.2) ∈ results
      rw [← hq]
      exact hin
    · exact hmem pair' htail

/-- The state after applying the results of a step, as far as it goes. -/
structure Applied (C : Contract env G M) (d : Data σ γ Sid) (res : Bool × Data σ γ Sid) :
    Prop where
  ctx : res.2.sys.ctx = d.sys.ctx
  sessions : res.2.sessionSeq = d.sessionSeq
  table : ∀ q, res.2.reqTable.lookup q = none ↔ d.reqTable.lookup q = none
  log : ∀ e ∈ res.2.sys.log, e ∈ d.sys.log ∨ C.entry e
  requests : res.1 = true → ∀ q r, res.2.reqTable.lookup q = some r →
    C.inFlight r (M.cells d.sys.ctx q)

/-- Applying the results of different seqs one after the other gives each what it is owed. -/
theorem applyStepResults_applied {pairs : List ResultPair}
    (hnodup : (pairs.map fun pair => pair.1.1).Nodup) {d : Data σ γ Sid}
    (hkeys : KeysMatch d.reqTable)
    (hdue : ∀ pair ∈ pairs, ∀ r, d.reqTable.lookup pair.1.1 = some r →
      Owes env C.inFlight C.entry d.sys.ctx (M.cells d.sys.ctx pair.1.1) pair.1.2 pair.2 r)
    (hrest : ∀ q r, q ∉ pairs.map (fun pair => pair.1.1) → d.reqTable.lookup q = some r →
      C.inFlight r (M.cells d.sys.ctx q)) :
    Applied C d (applyStepResults env pairs d) := by
  -- The results are of different requests, so what the others are owed stays.
  induction pairs generalizing d with
  | nil =>
    exact ⟨rfl, rfl, fun _ => Iff.rfl, fun _ => .inl, fun _ q r => hrest q r List.not_mem_nil⟩
  | cons pair pairs ih =>
    obtain ⟨⟨q, op⟩, res⟩ := pair
    rw [List.map_cons, List.nodup_cons] at hnodup
    have hcrash : Applied C d (false, d) :=
      ⟨rfl, rfl, fun _ => Iff.rfl, fun _ => .inl, nofun⟩
    unfold applyStepResults
    split
    case h_1 => exact hcrash
    case h_2 r hr =>
      split
      case h_1 => exact hcrash
      case h_2 r' s hres =>
        have happ := stepResult_applies env d r hres
        have hq : r'.seqId = q := happ.ident.seqId.trans (hkeys q r hr)
        obtain ⟨hfit, hlog⟩ := hdue _ List.mem_cons_self r hr d (r', s) rfl hres
        have hlookup : ∀ q', (putReq (withSys d s) r').reqTable.lookup q'
            = if q' = q then some r' else d.reqTable.lookup q' := by
          intro q'
          rw [lookup_putReq, hq]
          rfl
        have hctx : s.ctx = d.sys.ctx := happ.fires.ctx
        have hne : ∀ {q'}, q' ∈ pairs.map (fun pair => pair.1.1) → q' ≠ q := by
          rintro q' hmem rfl
          exact hnodup.1 hmem
        have hrec := ih (d := putReq (withSys d s) r') hnodup.2 ?_ ?_ ?_
        -- This result and then the rest of them.
        · refine ⟨hrec.ctx.trans hctx, hrec.sessions, ?_, ?_, ?_⟩
          · intro q'
            rw [hrec.table, hlookup]
            split
            case isTrue heq => rw [heq, hr]; simp
            case isFalse => exact Iff.rfl
          · intro e he
            rcases hrec.log e he with hold | hnew
            · exact hlog e hold
            · exact .inr hnew
          · intro hok q' r'' hr''
            have hfinal := hrec.requests hok q' r'' hr''
            rwa [show (putReq (withSys d s) r').sys.ctx = d.sys.ctx from hctx] at hfinal
        · intro q' r'' hr''
          rw [hlookup] at hr''
          split at hr''
          case isTrue heq =>
            cases hr''
            rw [hq, heq]
          case isFalse => exact hkeys q' r'' hr''
        · intro pair hpair r'' hr''
          rw [hlookup, if_neg (hne (List.mem_map_of_mem hpair))] at hr''
          have hdue' := hdue pair (List.mem_cons_of_mem _ hpair) r'' hr''
          rwa [show (putReq (withSys d s) r').sys.ctx = d.sys.ctx from hctx]
        -- Who has no result is left as it was, and this request has had its own.
        · intro q' r'' hnot hr''
          rw [show (putReq (withSys d s) r').sys.ctx = d.sys.ctx from hctx]
          rw [hlookup] at hr''
          split at hr''
          case isTrue heq =>
            cases hr''
            rw [heq]
            exact hfit
          case isFalse heq =>
            refine hrest q' r'' ?_ hr''
            rw [List.map_cons, List.mem_cons]
            exact fun hor => hor.elim heq hnot

/-! ### Moves that put a request in the table -/

omit [LinearOrder Sid] in
/-- A session whose seq is free once `r` is in the table does not hold the seq of `r`. -/
theorem free_of_putReq {d : Data σ γ Sid} {r : Req Sid} {q : SeqId}
    (h : (putReq d r).reqTable.lookup q = none) : q ≠ r.seqId ∧ d.reqTable.lookup q = none := by
  rw [lookup_putReq] at h
  split at h
  · exact nomatch h
  case isFalse hne => exact ⟨hne, h⟩

/-- No request and no session is on an idle seq. -/
theorem idle_apart {d : Data σ γ Sid} (hd : Wf env d) {q : SeqId} (hidle : q ∈ d.idleSeqIds) :
    (∀ q' r, d.reqTable.lookup q' = some r → q' ≠ q) ∧
      ∀ sid s, d.sessionSeq.lookup sid = some s → s.seqId ≠ q := by
  constructor
  · rintro q' r hr rfl
    have hfree := hd.sound.idle_free q' hidle
    rw [pool_busy_of_lookup hr] at hfree
    exact nomatch hfree
  · rintro sid s hs rfl
    exact hd.sound.idle_unpinned s.seqId hidle sid (pool_pinned_of_lookup hs)

/-- The seq of a request in flight is not idle. -/
theorem not_idle_of_request {d : Data σ γ Sid} (hd : Wf env d) {q : SeqId} {r : Req Sid}
    (h : d.reqTable.lookup q = some r) : q ∉ d.idleSeqIds :=
  fun hidle => (idle_apart hd hidle).1 q r h rfl

/-- A record that fits the cells of its seq, with the other seqs and the log untouched. -/
theorem Keeps.of_putReq {d : Data σ γ Sid} {s : Sys σ γ Sid} {r : Req Sid}
    (hbusy : r.seqId ∉ d.idleSeqIds) (hfit : C.inFlight r (M.cells s.ctx r.seqId))
    (hcells : ∀ q ≠ r.seqId, M.cells s.ctx q = M.cells d.sys.ctx q)
    (hlog : ∀ e ∈ s.log, e ∈ d.sys.log ∨ C.entry e) : C.Keeps d (putReq (withSys d s) r) where
  requests := fun q r' hr' => by
    rw [lookup_putReq] at hr'
    split at hr'
    case isTrue heq =>
      cases hr'
      rw [heq]
      exact .inr hfit
    case isFalse hne => exact .inl ⟨hr', hcells q hne⟩
  sessions := fun sid s' hs' hfree => by
    obtain ⟨hne, hfree'⟩ := free_of_putReq hfree
    exact .inl ⟨hs', hfree', hcells s'.seqId hne⟩
  idle := fun _ q hq => .inl ⟨hq, hcells q fun heq => hbusy (heq ▸ hq)⟩
  log := hlog

/-- A move that first takes a seq from the pool. -/
theorem Keeps.of_taken {d d' : Data σ γ Sid} {q : SeqId} {rest : List SeqId}
    (h : C.Keeps { d with idleSeqIds := rest } d') (hidle : d.idleSeqIds = q :: rest) :
    C.Keeps d d' where
  requests := h.requests
  sessions := h.sessions
  idle := fun hclean q' hq' =>
    (h.idle hclean q' hq').imp_left fun hold => ⟨hidle ▸ List.mem_cons_of_mem q hold.1, hold.2⟩
  log := h.log

/-- An admission that puts a fitting record on its seq. -/
theorem Keeps.of_admitOn {d : Data σ γ Sid} {r : Req Sid} {mode : AdmitMode}
    {prompt : List Token} {lookup : LookupOpts} (hbusy : r.seqId ∉ d.idleSeqIds)
    (hfit : C.inFlight (setupAdmissionPath env d r mode prompt lookup).1
      (M.cells (setupAdmissionPath env d r mode prompt lookup).2.ctx r.seqId)) :
    C.Keeps d (admitOn env d r mode prompt lookup) := by
  obtain ⟨hsame, honseq⟩ := setupAdmissionPath_admits env d r mode prompt lookup
  refine Keeps.of_putReq ?_ ?_ ?_ ?_
  · rw [hsame.seqId]
    exact hbusy
  · rw [hsame.seqId]
    exact hfit
  · intro q hne
    rw [hsame.seqId] at hne
    exact honseq.cells_of_ne M hne
  · intro e he
    rw [honseq.log] at he
    exact .inl he

/-! ### Moves on the seq of a request -/

/-- Every session but those on the seq `q` is untouched, and so is every other request; `q` is
    emptied, and may become idle. -/
theorem Keeps.of_removeReq {d d' : Data σ γ Sid} {q : SeqId}
    (htable : ∀ q', d'.reqTable.lookup q' = if q' = q then none else d.reqTable.lookup q')
    (hsessions : ∀ sid s, d'.sessionSeq.lookup sid = some s →
      d.sessionSeq.lookup sid = some s ∧ s.seqId ≠ q)
    (hcells : M.cells d'.sys.ctx = Function.update (M.cells d.sys.ctx) q [])
    (hidle : ∀ q' ∈ d'.idleSeqIds, q' = q ∨ q' ∈ d.idleSeqIds)
    (hlog : ∀ e ∈ d'.sys.log, e ∈ d.sys.log ∨ C.entry e) : C.Keeps d d' where
  requests := fun q' r hr => by
    rw [htable] at hr
    split at hr
    · exact nomatch hr
    case isFalse hne => exact .inl ⟨hr, by rw [hcells, Function.update_of_ne hne]⟩
  sessions := fun sid s hs hfree => by
    obtain ⟨hs', hne⟩ := hsessions sid s hs
    rw [htable, if_neg hne] at hfree
    exact .inl ⟨hs', hfree, by rw [hcells, Function.update_of_ne hne]⟩
  idle := fun _ q' hq' => by
    rw [hcells]
    by_cases hne : q' = q
    · exact .inr (by rw [hne, Function.update_self])
    · exact .inl ⟨(hidle q' hq').resolve_left hne, Function.update_of_ne hne _ _⟩
  log := hlog

/-- No session is pinned to the seq of a request without a session. -/
theorem pin_ne_of_request {d : Data σ γ Sid} (hd : Wf env d) {q : SeqId} {r : Req Sid}
    (h : d.reqTable.lookup q = some r) (hnone : r.sessionId = none) {sid : Sid} {s : Session}
    (hs : d.sessionSeq.lookup sid = some s) : s.seqId ≠ q := by
  rintro rfl
  have hholder := hd.sound.pinned_holder sid s.seqId r.sessionId (pool_pinned_of_lookup hs)
    (pool_busy_of_lookup h)
  rw [hnone] at hholder
  exact nomatch hholder

/-- Only its own session is pinned to the seq of a request. -/
theorem pin_eq_of_request {d : Data σ γ Sid} (hd : Wf env d) {q : SeqId} {r : Req Sid}
    (h : d.reqTable.lookup q = some r) {sid : Sid} {s : Session}
    (hs : d.sessionSeq.lookup sid = some s) (hq : s.seqId = q) : r.sessionId = some sid := by
  subst hq
  exact hd.sound.pinned_holder sid s.seqId r.sessionId (pool_pinned_of_lookup hs)
    (pool_busy_of_lookup h)

/-- Two sessions on one seq are one session. -/
theorem pin_inj {d : Data σ γ Sid} (hd : Wf env d) {sid sid' : Sid} {s s' : Session}
    (hs : d.sessionSeq.lookup sid = some s) (hs' : d.sessionSeq.lookup sid' = some s')
    (hq : s'.seqId = s.seqId) : sid' = sid :=
  hd.sound.pinned_inj sid' sid s.seqId (by rw [← hq]; exact pool_pinned_of_lookup hs')
    (pool_pinned_of_lookup hs)

/-- A media request that fails is removed, and its seq is emptied. -/
theorem failMediaReq_keeps {d : Data σ γ Sid} (hd : Wf env d) {cb : MediaCallbacks σ}
    (hcb : env.be.media = some cb) {q : SeqId} {r : Req Sid}
    (h : d.reqTable.lookup q = some r) (hpending : r.mediaState = some .pending)
    (prompt : Bytes) (items : List (MediaType × Bytes)) (special : Bool) (e : Err) :
    C.Keeps d
      (failMediaReq env (withCtx d (cb.prefill d.sys.ctx prompt items q special).2) r e) := by
  obtain ⟨hq, hwf⟩ := hd.table q r h
  have hnone : r.sessionId = none :=
    hwf.sessionId_of_media (hwf.media_of_state (by rw [hpending]; rfl))
  subst hq
  refine Keeps.of_removeReq (q := r.seqId) ?_ ?_ ?_ ?_ ?_
  · exact lookup_removeReq (withSys d _) r.seqId
  · exact fun sid s hs => ⟨hs, pin_ne_of_request hd h hnone hs⟩
  · show M.cells (failRequest env _ r e).ctx = _
    rw [failRequest_cells]
    funext q'
    by_cases hne : q' = r.seqId
    · rw [hne, Function.update_self, Function.update_self]
    · rw [Function.update_of_ne hne, Function.update_of_ne hne]
      exact M.prefill_other hcb _ _ _ _ _ _ hne
  · exact fun q' hq' => List.mem_cons.mp hq'
  · intro e' he'
    have hlog : (failRequest env
        (withCtx d (cb.prefill d.sys.ctx prompt items r.seqId special).2).sys r e).log
          = d.sys.log := (failRequest_extends _ r e).1
    exact .inl (hlog ▸ he')

/-- The entries of the log after a finish save. -/
theorem finishSave_log {d : Data σ γ Sid} {r : Req Sid}
    (hfit : C.inFlight r (M.cells d.sys.ctx r.seqId)) {e : Entry σ Sid}
    (he : e ∈ (announceFinish env d r).log) : e ∈ d.sys.log ∨ C.entry e := by
  obtain ⟨-, hfires, hmedia⟩ := finishSave_fires env d r
  rw [(announceFinish_quiet d r).log] at he
  cases hm : r.media with
  | some items =>
    rw [hmedia (by rw [hm]; rfl)] at he
    exact .inl he
  | none =>
    rcases hfires.log with hsame | ⟨c, hcall, hone⟩
    · exact .inl (hsame ▸ he)
    · rw [hone, List.mem_append, List.mem_singleton] at he
      rcases he with hold | rfl
      · exact .inl hold
      · exact .inr (C.save hfit hm hcall)

omit [LinearOrder Sid] in
/-- Telling a caller of the end touches no cell. -/
theorem announceFinish_cells (d : Data σ γ Sid) (r : Req Sid) :
    M.cells (announceFinish env d r).ctx = M.cells d.sys.ctx := by
  obtain ⟨-, hfires, -⟩ := finishSave_fires env d r
  rw [(announceFinish_quiet d r).cells M, hfires.ctx]

/-- Pinning a seq whose cells fit the session's tokens. -/
theorem Keeps.of_pin {d d' : Data σ γ Sid} {sid : Sid} {q : SeqId} {tokens : List Token}
    (hfit : C.stored tokens (M.cells d'.sys.ctx q))
    (hrequests : ∀ q' r, d'.reqTable.lookup q' = some r →
      d.reqTable.lookup q' = some r ∧ M.cells d'.sys.ctx q' = M.cells d.sys.ctx q')
    (hsessions : ∀ sid' s, sid' ≠ sid → d'.sessionSeq.lookup sid' = some s →
      d'.reqTable.lookup s.seqId = none → d.sessionSeq.lookup sid' = some s ∧
        d.reqTable.lookup s.seqId = none ∧
          M.cells d'.sys.ctx s.seqId = M.cells d.sys.ctx s.seqId)
    (hidle : ∀ q' ∈ d'.idleSeqIds,
      q' ∈ d.idleSeqIds ∧ M.cells d'.sys.ctx q' = M.cells d.sys.ctx q')
    (hlog : ∀ e ∈ d'.sys.log, e ∈ d.sys.log ∨ C.entry e) :
    C.Keeps d (Model.pin env d' sid q tokens) where
  requests := fun q' r hr => .inl (hrequests q' r hr)
  sessions := fun sid' s hs hfree => by
    have hs' := AList.lookup_insert_ite d'.sessionSeq sid
      ⟨q, tokens, (env.cache.monotonicTime d'.sys.world).1⟩ sid'
    rw [show (Model.pin env d' sid q tokens).sessionSeq.lookup sid' = _ from hs'] at hs
    split at hs
    · cases hs
      exact .inr hfit
    case isFalse hne => exact .inl (hsessions sid' s hne hs hfree)
  idle := fun _ q' hq' => .inl (hidle q' hq')
  log := fun e he => by
    have hlog' : (Model.pin env d' sid q tokens).sys.log
        = d'.sys.log ++ [.pin ⟨q, tokens, d'.sys.ctx⟩] := rfl
    rw [hlog', List.mem_append, List.mem_singleton] at he
    rcases he with hold | rfl
    · exact hlog e hold
    · exact .inr (C.pin hfit)

/-- A request that finishes without a session leaves its seq empty; with one, the session takes
    its context over. -/
theorem finishReq_keeps {d : Data σ γ Sid} (hd : Wf env d) (hC : C.Holds d) {q : SeqId}
    {r : Req Sid} (h : d.reqTable.lookup q = some r) : C.Keeps d (finishReq env d r) := by
  obtain ⟨hq, hwf⟩ := hd.table q r h
  subst hq
  have hfit := hC.requests r.seqId r h
  obtain ⟨hcore, -, -⟩ := finishSave_fires env d r
  have hcells : M.cells (announceFinish env d r).ctx = M.cells d.sys.ctx :=
    announceFinish_cells d r
  have htable := lookup_removeReq (withSys d (announceFinish env d r)) r.seqId
  unfold finishReq releaseOrPinSeq
  rw [hcore.sessionId, hcore.seqId, hcore.contextTokens]
  cases hsid : r.sessionId with
  | none =>
    refine Keeps.of_removeReq (q := r.seqId) htable ?_ ?_ ?_ ?_
    · exact fun sid s hs => ⟨hs, pin_ne_of_request hd h hsid hs⟩
    · show M.cells (releaseSeq env (announceFinish env d r) r.seqId).ctx = _
      rw [releaseSeq_cells, hcells]
    · exact fun q' hq' => List.mem_cons.mp hq'
    · intro e he
      have hlog := (releaseSeq_onSeq env (announceFinish env d r) r.seqId).log
      exact finishSave_log hfit (hlog ▸ he)
  | some sid =>
    have hmedia : r.media = none := by
      cases hm : r.media with
      | none => rfl
      | some items =>
        rw [hwf.sessionId_of_media (by rw [hm]; rfl)] at hsid
        exact nomatch hsid
    refine Keeps.of_pin ?_ ?_ ?_ (fun q' hq' => ⟨hq', congrFun hcells q'⟩)
      fun e he => finishSave_log hfit he
    · show C.stored r.contextTokens (M.cells (announceFinish env d r).ctx r.seqId)
      rw [hcells]
      exact C.keep hfit hmedia
    · intro q' r' hr'
      rw [htable] at hr'
      split at hr'
      · exact nomatch hr'
      · exact ⟨hr', congrFun hcells q'⟩
    · intro sid' s hne hs hfree
      -- A session on the request's seq would be its own.
      have hseq : s.seqId ≠ r.seqId := by
        intro heq
        have hown := pin_eq_of_request hd h hs heq
        rw [hsid] at hown
        exact hne (Option.some.inj hown).symm
      rw [htable, if_neg hseq] at hfree
      exact ⟨hs, hfree, congrFun hcells s.seqId⟩

/-! ### Session operations -/

/-- Forgetting a session and emptying its seq. -/
theorem unpin_keeps {d : Data σ γ Sid} (hd : Wf env d) {sid : Sid} {s : Session}
    (hs : d.sessionSeq.lookup sid = some s) {d' : Data σ γ Sid}
    (htable : ∀ q, d'.reqTable.lookup q = if q = s.seqId then none else d.reqTable.lookup q)
    (hsessions : d'.sessionSeq = d.sessionSeq) (hidle : d'.idleSeqIds = d.idleSeqIds)
    (hcells : M.cells d'.sys.ctx = M.cells d.sys.ctx) (hlog : d'.sys.log = d.sys.log) :
    C.Keeps d (unpin (withSys d' (releaseSeq env d'.sys s.seqId)) sid s.seqId) := by
  refine Keeps.of_removeReq (q := s.seqId) htable ?_ ?_ ?_ ?_
  · intro sid' s' hs'
    have herase := AList.lookup_erase_ite d'.sessionSeq sid sid'
    rw [show (unpin (withSys d' (releaseSeq env d'.sys s.seqId)) sid s.seqId).sessionSeq.lookup
      sid' = _ from herase] at hs'
    split at hs'
    · exact nomatch hs'
    case isFalse hne =>
      rw [hsessions] at hs'
      exact ⟨hs', fun heq => hne (pin_inj hd hs hs' heq)⟩
  · show M.cells (releaseSeq env d'.sys s.seqId).ctx = _
    rw [releaseSeq_cells, hcells]
  · intro q hq
    rw [← hidle]
    exact List.mem_cons.mp hq
  · intro e he
    have hrelease := (releaseSeq_onSeq env d'.sys s.seqId).log
    exact .inl (hlog ▸ hrelease ▸ he)

/-- A reset clears the seq of its session. -/
theorem resetSessionSeq_keeps {d : Data σ γ Sid} (hd : Wf env d) {sid : Sid} {s : Session}
    (hs : d.sessionSeq.lookup sid = some s) : C.Keeps d (resetSessionSeq env d sid).2 := by
  rw [resetSessionSeq_eq hs]
  rcases failInflightForSeq_table env d s.seqId .engineReset with ⟨sys, hquiet, heq⟩ | ⟨hfree, heq⟩
  · rw [heq]
    exact unpin_keeps hd hs (lookup_removeReq (withSys d sys) s.seqId) rfl rfl
      (hquiet.cells M) hquiet.log
  · rw [heq]
    refine unpin_keeps hd hs (fun q => ?_) rfl rfl rfl rfl
    split
    case isTrue hq => rw [hq, hfree]
    case isFalse => rfl

/-- A copy onto an idle seq, pinned to the new session. -/
theorem fork_keeps {d : Data σ γ Sid} (hd : Wf env d) (hC : C.Holds d) {src new : Sid}
    {s : Session} {q : SeqId} {rest : List SeqId} {seqCp} {x : σ}
    (hs : d.sessionSeq.lookup src = some s) (hfree : d.reqTable.lookup s.seqId = none)
    (hidle : d.idleSeqIds = q :: rest) (hcp : env.be.seqCp = some seqCp)
    (hcopy : seqCp d.sys.ctx s.seqId q = (.ok (), x)) (hG : G.fork d.sys.ctx s.seqId q) :
    C.Keeps d (Model.pin env { withCtx d x with idleSeqIds := rest } new q s.tokens) := by
  have hq : q ∈ d.idleSeqIds := hidle ▸ List.mem_cons_self
  obtain ⟨hrequests, hsessions⟩ := idle_apart hd hq
  have hother : ∀ q' ≠ q, M.cells x q' = M.cells d.sys.ctx q' := by
    have hlaw := M.seqCp_other hcp d.sys.ctx s.seqId q
    rwa [hcopy] at hlaw
  -- The pool has no seq twice.
  have hnodup : (q :: rest).Nodup := hidle ▸ hd.sound.idle_nodup
  have hrest : ∀ q' ∈ rest, q' ≠ q := fun q' hq' heq => (List.nodup_cons.mp hnodup).1 (heq ▸ hq')
  refine Keeps.of_pin ?_ ?_ ?_ ?_ fun e he => .inl he
  · show C.stored s.tokens (M.cells x q)
    exact C.fork hC.side hcp hcopy hG (fun hclean => hC.idle hclean q hq)
      (hC.sessions src s hs hfree)
  · exact fun q' r hr => ⟨hr, hother q' (hrequests q' r hr)⟩
  · exact fun sid s' _ hs' hfree' => ⟨hs', hfree', hother s'.seqId (hsessions sid s' hs')⟩
  · exact fun q' hq' => ⟨hidle ▸ List.mem_cons_of_mem q hq', hother q' (hrest q' hq')⟩

/-- Calls that touch an idle seq alone, and leave it empty if it was. -/
theorem Keeps.of_idle {d : Data σ γ Sid} (hd : Wf env d) (hC : C.Holds d) {q : SeqId} {x : σ}
    (hidle : q ∈ d.idleSeqIds) (hcells : ∀ q' ≠ q, M.cells x q' = M.cells d.sys.ctx q')
    (hempty : M.cells d.sys.ctx q = [] → M.cells x q = []) : C.Keeps d (withCtx d x) := by
  obtain ⟨hrequests, hsessions⟩ := idle_apart hd hidle
  refine ⟨?_, ?_, ?_, fun e he => .inl he⟩
  · exact fun q' r hr => .inl ⟨hr, hcells q' (hrequests q' r hr)⟩
  · exact fun sid s hs hfree => .inl ⟨hs, hfree, hcells s.seqId (hsessions sid s hs)⟩
  · intro hclean q' hq'
    by_cases hne : q' = q
    · rw [hne]
      exact .inr (hempty (hC.idle hclean q hidle))
    · exact .inl ⟨hq', hcells q' hne⟩

/-! ### The other moves -/

/-- The results of a step, whose rows are for different seqs. -/
theorem results_keeps {d d' : Data σ γ Sid} (hd : Wf env d) (hC : C.Holds d)
    {ops : List (SeqId × Op)} {results : List (SeqId × StepResult)} {x : σ}
    {pairs : List ResultPair} {ok : Bool} (hops : OpsFit d ops)
    (hstep : env.be.step d.sys.ctx ops = (.ok results, x))
    (hpairs : pairOpsWithResults ops results = some pairs)
    (hG : G.results (withCtx d x) pairs)
    (happ : applyStepResults env pairs (withCtx d x) = (ok, d')) :
    Applied C (withCtx d x) (ok, d') ∧
      ∀ q, q ∉ ops.map Prod.fst → M.cells x q = M.cells d.sys.ctx q := by
  obtain ⟨hfst, hres⟩ := pairOpsWithResults_spec hpairs
  have hother : ∀ q, q ∉ ops.map Prod.fst → M.cells x q = M.cells d.sys.ctx q := by
    have hlaw := M.step_other d.sys.ctx ops results (by rw [hstep])
    rwa [hstep] at hlaw
  have hrows : pairs.map (fun pair => pair.1.1) = ops.map Prod.fst := by
    rw [← hfst, List.map_map]
    rfl
  have happlied : Applied C (withCtx d x) (applyStepResults env pairs (withCtx d x)) := by
    refine applyStepResults_applied (by rw [hrows]; exact hops.nodup) hd.table.keysMatch ?_ ?_
    · rintro ⟨⟨q, op⟩, res⟩ hpair r hr
      obtain ⟨hq, hwf⟩ := hd.table q r hr
      have hop : (q, op) ∈ ops := by
        rw [← hfst]
        exact List.mem_map_of_mem (f := Prod.fst) hpair
      exact C.results hC.side hops.nodup hstep hG hpair hop (hres _ hpair) hr hq hwf
        (hC.requests q r hr)
    · intro q r hnot hr
      rw [hrows] at hnot
      show C.inFlight r (M.cells x q)
      rw [hother q hnot]
      exact hC.requests q r hr
  rw [happ] at happlied
  exact ⟨happlied, hother⟩

/-- A save on the operator's behalf. -/
theorem fireSaveForReq_keeps {d : Data σ γ Sid} (hd : Wf env d) (hC : C.Holds d) {q : SeqId}
    {r : Req Sid} (h : d.reqTable.lookup q = some r) (hG : G.evict r) (reason : SaveReason) :
    C.Keeps d (fireSaveForReq env d reason r) := by
  obtain ⟨rfl, -⟩ := hd.table q r h
  have hfit := hC.requests r.seqId r h
  unfold fireSaveForReq
  split
  case isTrue => exact .of_same rfl rfl rfl rfl rfl
  case isFalse hne =>
    have hcore : SameCore r { creditSave (fireSaveIf env d true reason r.contextTokens r).1 r
        r.contextTokens with lastSaveAt := r.contextTokens.length } :=
      (creditSave_core r _ _).trans ⟨⟨rfl, rfl, rfl, rfl, rfl, id⟩, rfl, rfl, rfl⟩
    obtain ⟨hctx, -⟩ := fireSaveIf_fires env d r true reason r.contextTokens
    refine Keeps.of_putReq ?_ ?_ ?_ ?_
    · rw [hcore.seqId]
      exact not_idle_of_request hd h
    · rw [hctx, hcore.seqId]
      exact C.core hcore hfit
    · intro q _
      rw [hctx]
    · intro e he
      unfold fireSaveIf at he
      split at he
      case isTrue => exact .inl he
      case isFalse hfire =>
        push Not at hfire
        rcases List.mem_append.mp he with hold | hnew
        · exact .inl hold
        · rw [List.mem_singleton.mp hnew]
          exact .inr (C.evict hfit hG hne hfire.2 ⟨reason, r, .refl r, rfl⟩)

omit [LinearOrder Sid] in
variable (M) in
/-- Replacing the adapters touches no cell. -/
theorem changeAdapters_cells (d : Data σ γ Sid) (adapters : List Adapter) (reply : Reply) :
    M.cells (changeAdapters env d adapters reply).2.sys.ctx = M.cells d.sys.ctx := by
  unfold changeAdapters applyAndRecompute
  dsimp only
  cases happly : env.be.applyAdapters with
  | none => rfl
  | some f =>
    have hlaw := M.applyAdapters happly d.sys.ctx (adapters.map fun a => (a.handle, a.scale))
    dsimp only
    cases (f d.sys.ctx (adapters.map fun a => (a.handle, a.scale))).1 <;> exact hlaw

omit [LinearOrder Sid] in
variable (M) in
/-- Nor does loading one. -/
theorem loadAdapter_cells (d : Data σ γ Sid) (path : Path) (file : Option Bytes) :
    M.cells (loadAdapter env d path file).2.sys.ctx = M.cells d.sys.ctx := by
  unfold loadAdapter
  cases hload : env.be.loadAdapter with
  | none => rfl
  | some f =>
    cases file with
    | none => rfl
    | some content =>
      have hlaw := M.loadAdapter hload d.sys.ctx path content
      dsimp only
      cases (f d.sys.ctx path content).1 with
      | ok handle => exact (changeAdapters_cells M (withSys d _) _ _).trans hlaw
      | error e   => exact hlaw

omit [LinearOrder Sid] in
variable (M) in
/-- Nor does unloading one. -/
theorem unloadAdapter_cells (d : Data σ γ Sid) (handle : Ref) :
    M.cells (unloadAdapter env d handle).2.sys.ctx = M.cells d.sys.ctx := by
  unfold unloadAdapter
  cases findAdapter handle d.adapters with
  | none => rfl
  | some found =>
    cases hunload : env.be.unloadAdapter with
    | none => rfl
    | some f =>
      have hlaw := M.unloadAdapter hunload d.sys.ctx handle
      dsimp only
      cases (f d.sys.ctx handle).1 with
      | ok u    => exact (changeAdapters_cells M (withSys d _) _ _).trans hlaw
      | error e => exact hlaw

omit [LinearOrder Sid] in
variable (M) in
/-- Nor does scaling one. -/
theorem setAdapterScale_cells (d : Data σ γ Sid) (handle : Ref) (scale : ℚ) :
    M.cells (setAdapterScale env d handle scale).2.sys.ctx = M.cells d.sys.ctx := by
  unfold setAdapterScale
  cases findAdapter handle d.adapters with
  | none       => rfl
  | some found => exact changeAdapters_cells M d _ _

/-- An adapter operation. -/
theorem Keeps.of_adapterStep {d d' : Data σ γ Sid} (h : AdapterStep d d')
    (hcells : M.cells d'.sys.ctx = M.cells d.sys.ctx) : C.Keeps d d' :=
  .of_same h.reqTable h.sessionSeq h.idleSeqIds hcells h.log

/-- A batch gives each of its requests its result and leaves the other seqs alone. -/
theorem applyStepResults_keeps {d d' : Data σ γ Sid} (hd : Wf env d) (hC : C.Holds d)
    {ops : List (SeqId × Op)} {results : List (SeqId × StepResult)} {x : σ}
    {pairs : List ResultPair} (hops : OpsFit d ops)
    (hstep : env.be.step d.sys.ctx ops = (.ok results, x))
    (hpairs : pairOpsWithResults ops results = some pairs)
    (hG : G.results (withCtx d x) pairs)
    (happ : applyStepResults env pairs (withCtx d x) = (true, d')) : C.Keeps d d' := by
  obtain ⟨happlied, hother⟩ := results_keeps hd hC hops hstep hpairs hG happ
  have hpool := (applyStepResults_refreshes env pairs (d := withCtx d x) hd.table).pool
  rw [happ] at hpool
  have hidle : d'.idleSeqIds = d.idleSeqIds := congrArg Pool.idle hpool
  have hrow : ∀ q, d.reqTable.lookup q = none → M.cells x q = M.cells d.sys.ctx q := by
    intro q hfree
    refine hother q fun hmem => ?_
    obtain ⟨p, hp, rfl⟩ := List.mem_map.mp hmem
    obtain ⟨r, hr⟩ := hops.inTable p hp
    cases hfree.symm.trans hr
  refine ⟨fun q r hr => ?_, fun sid s hs hfree => ?_, fun _ q hq => ?_, happlied.log⟩
  · rw [happlied.ctx]
    exact .inr (happlied.requests rfl q r hr)
  · rw [happlied.ctx]
    rw [happlied.table] at hfree
    rw [happlied.sessions] at hs
    exact .inl ⟨hs, hfree, hrow s.seqId hfree⟩
  · rw [happlied.ctx]
    rw [hidle] at hq
    exact .inl ⟨hq, hrow q ((pool_busy_eq_none d q).mp (hd.sound.idle_free q hq))⟩

/-- A speculative commit gives its request what was accepted and leaves the other seqs alone. -/
theorem commitSpec_keeps {d d' : Data σ γ Sid} (hd : Wf env d) (hC : C.Holds d)
    {cb : SpecCallbacks σ} {sampler : Ref} {q : SeqId} {r : Req Sid} {draft : List Token}
    {res : SpecResult} {x : σ} (hcb : env.be.spec = some cb)
    (h : d.reqTable.lookup q = some r) (hspec : r.spec.isSome)
    (hstep : cb.step d.sys.ctx sampler q draft = (.ok res, x))
    (hG : G.commit (withCtx d x) q res)
    (hcommit : commitSpec env (withCtx d x) q draft res = .stepped d') : C.Keeps d d' := by
  obtain ⟨hq, hwf⟩ := hd.table q r h
  obtain ⟨hfit, hlog⟩ := C.commit hC.side hcb h hq hwf hspec hstep hG hcommit (hC.requests q r h)
  have hframe := commitSpec_frame (M := M) (d := withCtx d x) hd.table.keysMatch hcommit
  have hcells : ∀ q' ≠ q, M.cells d'.sys.ctx q' = M.cells d.sys.ctx q' := by
    intro q' hne
    have hlaw := M.specStep_other hcb d.sys.ctx sampler q draft q' hne
    rw [hstep] at hlaw
    exact (hframe.cells q' hne).trans hlaw
  have hpool := (commitSpec_refreshes (d := withCtx d x) hd.table hcommit).pool
  have hidle : d'.idleSeqIds = d.idleSeqIds := congrArg Pool.idle hpool
  refine ⟨fun q' r' hr' => ?_, fun sid s hs hfree => ?_, fun _ q' hq' => ?_, hlog⟩
  · by_cases hne : q' = q
    · subst hne
      exact .inr (hfit r' hr')
    · rw [hframe.others q' hne] at hr'
      exact .inl ⟨hr', hcells q' hne⟩
  · rw [hframe.sessions] at hs
    have hne : s.seqId ≠ q := by
      intro heq
      rw [heq, hframe.inTable] at hfree
      cases hfree.symm.trans h
    rw [hframe.others s.seqId hne] at hfree
    exact .inl ⟨hs, hfree, hcells s.seqId hne⟩
  · rw [hidle] at hq'
    refine .inl ⟨hq', hcells q' ?_⟩
    rintro rfl
    exact not_idle_of_request hd h hq'

/-- A call that works on seq 0 concerns whoever has it. -/
theorem inspect_keeps {d : Data σ γ Sid} {x : σ} (hC : C.Holds d)
    (h : Inspects env.be d.sys.ctx x) (hG : G.inspect d) : C.Keeps d (withCtx d x) := by
  obtain ⟨hrequest, hsession⟩ := C.inspect hC.side h hG
  refine ⟨fun q r hr => ?_, fun sid s hs hfree => ?_, fun hclean q hq => ?_,
    fun e he => .inl he⟩
  · by_cases hq : q = 0
    · subst hq
      exact .inr (hrequest r hr (hC.requests 0 r hr))
    · exact .inl ⟨hr, M.inspect_other h q hq⟩
  · by_cases hq : s.seqId = 0
    · have hold := hC.sessions sid s hs hfree
      rw [hq] at hold
      show _ ∨ C.stored s.tokens (M.cells x s.seqId)
      rw [hq]
      exact .inr (hsession sid s hs hq hold)
    · exact .inl ⟨hs, hfree, M.inspect_other h s.seqId hq⟩
  · refine .inl ⟨hq, M.inspect_other h q ?_⟩
    rintro rfl
    exact C.inspect_clean hclean hG hq

/-- **Step lemma.** Every move gives each claim what it owes. -/
theorem move_keeps {d d' : Data σ γ Sid} (h : Move env G d d') (hd : Wf env d)
    (hC : C.Holds d) : C.Keeps d d' := by
  cases h with
  | sys h => exact .of_same rfl rfl rfl (h.cells M) h.log
  | other hG spec => exact .of_same rfl rfl rfl rfl rfl
  | @start q rest r lookup hidle hq hr prompt hG =>
    have hnodup : (q :: rest).Nodup := hidle ▸ hd.sound.idle_nodup
    have hbusy : r.seqId ∉ rest := hq ▸ (List.nodup_cons.mp hnodup).1
    have hr' : FreshReq env { d with idleSeqIds := rest } r :=
      ⟨hr.media, hr.mediaState, hr.requestFp, hr.gates, hr.unbegun⟩
    have hfit := C.start (d := { d with idleSeqIds := rest }) hC.side hr' hG prompt
    exact (Keeps.of_admitOn (d := { d with idleSeqIds := rest }) hbusy hfit).of_taken hidle
  | @startMedia q rest r hidle hq hr hG =>
    have hnodup : (q :: rest).Nodup := hidle ▸ hd.sound.idle_nodup
    have hbusy : r.seqId ∉ rest := hq ▸ (List.nodup_cons.mp hnodup).1
    have hr' : FreshMedia { d with idleSeqIds := rest } r :=
      ⟨hr.media, hr.sessionId, hr.coldSaveSegments, hr.prefillCursor, hr.contextTokens, hr.spec,
        hr.requestFp, hr.unbegun⟩
    have hkeeps : C.Keeps { d with idleSeqIds := rest } (putReq { d with idleSeqIds := rest } r) :=
      .of_putReq hbusy (C.startMedia (d := { d with idleSeqIds := rest }) hC.side hr' hG)
        (fun _ _ => rfl) fun e he => .inl he
    exact hkeeps.of_taken hidle
  | @resume sid s r mode prompt hs hfree hq hsid hr hmode lookup hG =>
    have hstored : C.stored s.tokens (M.cells d.sys.ctx r.seqId) := by
      rw [hq]
      exact hC.sessions sid s hs hfree
    have hbusy : r.seqId ∉ d.idleSeqIds :=
      fun hmem => (idle_apart hd hmem).2 sid s hs hq.symm
    exact .of_admitOn hbusy (C.resume hC.side hr hG hmode hstored lookup)
  | @update q r₀ r h hcore hlife =>
    obtain ⟨rfl, -⟩ := hd.table q r₀ h
    refine Keeps.of_putReq (s := d.sys) ?_ ?_ (fun _ _ => rfl) fun e he => .inl he
    · rw [hcore.seqId]
      exact not_idle_of_request hd h
    · rw [hcore.seqId]
      exact C.core hcore (hC.requests r₀.seqId r₀ h)
  | results hops hstep hpairs hG happ =>
    exact applyStepResults_keeps hd hC hops hstep hpairs hG happ
  | spec hcb h hspec hstep hG hcommit => exact commitSpec_keeps hd hC hcb h hspec hstep hG hcommit
  | @mediaDone cb q r n x hcb h hpending hcall hG =>
    obtain ⟨rfl, hwf⟩ := hd.table q r h
    have hmedia : r.media.isSome := hwf.media_of_state (by rw [hpending]; rfl)
    refine Keeps.of_putReq (not_idle_of_request hd h)
      (C.prefill hC.side hcb hmedia hcall hG (hC.requests _ r h)) ?_ fun e he => .inl he
    intro q hne
    have hlaw := M.prefill_other hcb d.sys.ctx r.mediaPrompt (r.media.getD []) r.seqId
      r.mediaAddSpecial q hne
    rwa [hcall] at hlaw
  | @mediaFailed cb q r e x hcb h hpending hcall =>
    have hkeeps := failMediaReq_keeps (C := C) hd hcb h hpending r.mediaPrompt (r.media.getD [])
      r.mediaAddSpecial (.mediaFailed e)
    rwa [hcall] at hkeeps
  | finish h hG => exact finishReq_keeps hd hC h
  | @drop sid s hs hfree =>
    refine unpin_keeps hd hs (fun q => ?_) rfl rfl rfl rfl
    split
    case isTrue hq => rw [hq, hfree]
    case isFalse => rfl
  | fork hs hfree hnew hidle hcp hcopy hG => exact fork_keeps hd hC hs hfree hidle hcp hcopy hG
  | @forkFailed src s q rest seqCp e x hs hidle hcp hcopy =>
    have hlaw := M.seqCp_other hcp d.sys.ctx s.seqId q
    have hfailed := M.seqCp_failed hcp d.sys.ctx s.seqId q e (by rw [hcopy])
    rw [hcopy] at hlaw hfailed
    exact .of_idle hd hC (hidle ▸ List.mem_cons_self : q ∈ d.idleSeqIds) hlaw hfailed
  | reset hs => exact resetSessionSeq_keeps hd hs
  | evict h hG hreason => exact fireSaveForReq_keeps hd hC h hG _
  | load hG => exact .of_adapterStep (loadAdapter_step d _ _) (loadAdapter_cells M d _ _)
  | unload hG => exact .of_adapterStep (unloadAdapter_step d _) (unloadAdapter_cells M d _)
  | scale hG => exact .of_adapterStep (setAdapterScale_step d _ _) (setAdapterScale_cells M d _ _)
  | inspect h hG => exact inspect_keeps hC h hG
  | @recover s f y hlog hout hf hreset hG =>
    have hfresh := M.resetContext hf y () (by rw [hreset])
    rw [hreset] at hfresh
    exact ⟨fun _ _ hr => (nomatch hr), fun _ _ hs => (nomatch hs), fun _ q _ => .inr (hfresh q),
      fun e he => .inl (hlog ▸ he)⟩

/-! ### Runs -/

/-- **Every move keeps the contract**. -/
theorem move_holds {d d' : Data σ γ Sid} (h : Move env G d d') (hd : Wf env d)
    (hC : C.Holds d) : C.Holds d' :=
  (move_keeps h hd hC).holds hC (C.side_move h hC.side)

/-- Any number of moves keeps it. -/
theorem moves_holds {d d' : Data σ γ Sid} (h : Moves env G d d') (hd : Wf env d)
    (hC : C.Holds d) : C.Holds d' := by
  induction h with
  | refl => exact hC
  | tail hmoves hmove ih => exact move_holds hmove (Moves.wf hmoves hd) ih

variable (C) in
/-- What a contract says of a process: its log keeps to it, and, while the process lives, so do
    its requests and sessions. -/
structure HoldsOf (p : Proc σ γ Sid) : Prop where
  live : p.phase ≠ .stopped → C.Holds p.data
  log : ∀ e ∈ p.data.sys.log, C.entry e

/-- Every event keeps it. -/
theorem steps_holds {p p' : Proc σ γ Sid} (h : Steps env G p p') (hp : Wf env p.data)
    (hC : C.Holds p.data) : C.HoldsOf p' := by
  cases h with
  | live hmoves =>
    have hend := moves_holds hmoves hp hC
    exact ⟨fun _ => hend, hend.log⟩
  | halted hmoves hhalt =>
    have hend := moves_holds hmoves hp hC
    refine ⟨fun hlive => absurd rfl hlive, ?_⟩
    cases hhalt with
    | sys h => exact h ▸ hend.log
    | results hops hstep hpairs hG happ =>
      have happlied := (results_keeps (Moves.wf hmoves hp) hend hops hstep hpairs hG happ).1
      exact fun e he => (happlied.log e he).elim (hend.log e) id

/-- **Run lemma.** A contract holds of every process that a run of guarded events reaches. -/
theorem run_holds {ctx : σ} {world : γ} (hside : C.side ctx env.cfg.fingerprint [])
    (hempty : C.clean → ∀ q, M.cells ctx q = []) {events : List (Event Sid)}
    (h : AllSteps (step env) (StepOk env G) (init env ctx world) events) :
    C.HoldsOf (run (step env) (init env ctx world) events) := by
  have hinit : Wf env (init env ctx world : Proc σ γ Sid).data ∧
      C.HoldsOf (init env ctx world : Proc σ γ Sid) :=
    ⟨wf_init ctx world, fun _ => ⟨hside, fun _ _ hr => (nomatch hr), fun _ _ hs => (nomatch hs),
      fun hclean q _ => hempty hclean q, fun _ he => (nomatch he)⟩, fun _ he => (nomatch he)⟩
  have hstep : ∀ (p : Proc σ γ Sid) (e : Event Sid), Wf env p.data ∧ C.HoldsOf p →
      StepOk env G p e → Wf env (step env p e).data ∧ C.HoldsOf (step env p e) := by
    rintro p e ⟨hp, hC⟩ hG
    refine ⟨step_wf hp e, ?_⟩
    by_cases hstopped : p.phase = .stopped
    · rw [show step env p e = p from if_pos hstopped]
      exact hC
    · exact steps_holds (step_steps hp hG) hp (hC.live hstopped)
  exact (AllSteps.invariant (I := fun p => Wf env p.data ∧ C.HoldsOf p) hstep hinit h).2

end Contract

end Erllama.Model
