import Erllama.Model.Events
import Erllama.Model.Restore

namespace Erllama.Model

open Lib

/-!
# The KV behind the backend

What a backend does to the KV of its context, as a map from seqs to lists of cells.  The cells
are of any type: token ids, or the adapters a cell was decoded under.

* `KvModel` — the cells of a context, and what each callback does to them.
* `KvModel.seqCp_same_iff` — a copy is one when nothing of the target is left beside it.
* `RowsSatisfy` — what a row of the cache says about the cells it restores.
* `Restored.cells` — a restore leaves the seq with the cells of the row.
* `setupAdmissionPath_pinned_matches` — after an admission the seq's cells match the context tokens,
  whatever the admission mode and whichever removals and restores fail on the way.
-/

variable {σ γ Sid : Type} {κ : Type}

/-- The cells behind a backend.  It exports `seq_rm` and `seq_rm_last`; a full removal empties
    the seq, a partial one truncates it or is refused and changes nothing, a restore replaces
    it, a fresh context is empty, and every other callback works on the seqs it is given.

    A copy marks the source's cells as the target's too.  Where all seqs share one KV, it does not
    clear the target first, and the cells that only the target had stay beside them. -/
structure KvModel (be : Backend σ) (κ : Type) where
  cells : σ → SeqId → List κ
  payload : Bytes → List κ
  /-- The cells of the second seq that a copy of the first one into it leaves there: none where
      a copy replaces, else those the source does not have. -/
  kept : σ → SeqId → SeqId → List κ
  kept_sublist : ∀ x src dst, (kept x src dst).Sublist (cells x dst)
  silent : ∀ {x y}, Silent be x y → cells y = cells x
  seqRm : ∃ f, be.seqRm = some f ∧ ∀ x q, cells (f x q) = Function.update (cells x) q []
  seqRmLast : ∃ f, be.seqRmLast = some f ∧ ∀ x q n,
    (∀ u, (f x q n).1 = .ok u →
      cells (f x q n).2 = Function.update (cells x) q ((cells x q).take (n - 1))) ∧
    ∀ e, (f x q n).1 = .error e → cells (f x q n).2 = cells x
  kvUnpack : ∀ x bin q u, (be.kvUnpack x bin q).1 = .ok u →
    cells (be.kvUnpack x bin q).2 = Function.update (cells x) q (payload bin)
  kvUnpack_other : ∀ x bin q q', q' ≠ q → cells (be.kvUnpack x bin q).2 q' = cells x q'
  seqCp : ∀ {f}, be.seqCp = some f → ∀ x src dst u, (f x src dst).1 = .ok u →
    (cells (f x src dst).2 dst).Perm (cells x src ++ kept x src dst) ∧
      (kept x src dst = [] → cells (f x src dst).2 dst = cells x src)
  seqCp_failed : ∀ {f}, be.seqCp = some f → ∀ x src dst e, (f x src dst).1 = .error e →
    cells x dst = [] → cells (f x src dst).2 dst = []
  seqCp_other : ∀ {f}, be.seqCp = some f → ∀ x src dst q, q ≠ dst →
    cells (f x src dst).2 q = cells x q
  step_other : ∀ x ops results, (be.step x ops).1 = .ok results → ∀ q, q ∉ ops.map Prod.fst →
    cells (be.step x ops).2 q = cells x q
  specStep_other : ∀ {cb}, be.spec = some cb → ∀ x sampler q draft q', q' ≠ q →
    cells (cb.step x sampler q draft).2 q' = cells x q'
  prefill_other : ∀ {cb}, be.media = some cb → ∀ x prompt items q special q', q' ≠ q →
    cells (cb.prefill x prompt items q special).2 q' = cells x q'
  inspect_other : ∀ {x y}, Inspects be x y → ∀ q, q ≠ 0 → cells y q = cells x q
  loadAdapter : ∀ {f}, be.loadAdapter = some f → ∀ x path content,
    cells (f x path content).2 = cells x
  unloadAdapter : ∀ {f}, be.unloadAdapter = some f → ∀ x handle, cells (f x handle).2 = cells x
  applyAdapters : ∀ {f}, be.applyAdapters = some f → ∀ x pairs, cells (f x pairs).2 = cells x
  resetContext : ∀ {f}, be.resetContext = some f → ∀ x u, (f x).1 = .ok u →
    ∀ q, cells (f x).2 q = []

/-- Nothing is left of an empty target. -/
theorem KvModel.kept_of_empty {be : Backend σ} (M : KvModel be κ) {x : σ} {src dst : SeqId}
    (h : M.cells x dst = []) : M.kept x src dst = [] := by
  have hsub := M.kept_sublist x src dst
  rw [h] at hsub
  exact List.sublist_nil.mp hsub

/-- A copy gives the target the source's cells exactly when nothing of the target is left. -/
theorem KvModel.seqCp_same_iff {be : Backend σ} (M : KvModel be κ) {f} (hf : be.seqCp = some f)
    {x : σ} {src dst : SeqId} {u : Unit} (hok : (f x src dst).1 = .ok u) :
    M.cells (f x src dst).2 dst = M.cells x src ↔ M.kept x src dst = [] := by
  obtain ⟨hperm, hsame⟩ := M.seqCp hf x src dst u hok
  refine ⟨fun heq => ?_, hsame⟩
  have hlen := hperm.length_eq
  rw [heq, List.length_append] at hlen
  exact List.length_eq_zero_iff.mp (by omega)

section Removals

variable {env : Env σ γ} (M : KvModel env.be κ) (s : Sys σ γ Sid) (q : SeqId)

/-- Releasing a seq clears its cells. -/
theorem releaseSeq_cells :
    M.cells (releaseSeq env s q).ctx = Function.update (M.cells s.ctx) q [] := by
  obtain ⟨f, hf, hrm⟩ := M.seqRm
  unfold releaseSeq
  rw [hf]
  exact hrm s.ctx q

/-- So does clearing it. -/
theorem backendSeqClear_cells :
    M.cells (backendSeqClear env s q).ctx = Function.update (M.cells s.ctx) q [] := by
  obtain ⟨f, hf, hrm⟩ := M.seqRm
  unfold backendSeqClear
  rw [hf]
  exact hrm s.ctx q

/-- A partial removal keeps the first `pos` cells, or is refused. -/
theorem backendSeqRmFrom_cells (pos : Nat) :
    (∀ u, (backendSeqRmFrom env s q pos).1 = .ok u →
      M.cells (backendSeqRmFrom env s q pos).2.ctx
        = Function.update (M.cells s.ctx) q ((M.cells s.ctx q).take pos)) ∧
    ∀ e, (backendSeqRmFrom env s q pos).1 = .error e →
      M.cells (backendSeqRmFrom env s q pos).2.ctx = M.cells s.ctx := by
  obtain ⟨f, hf, hrm⟩ := M.seqRmLast
  unfold backendSeqRmFrom
  rw [hf]
  exact hrm s.ctx q (pos + 1)

variable {s q}

/-- Work on one seq leaves the cells of the others. -/
theorem OnSeq.cells_of_ne {s' : Sys σ γ Sid} (h : OnSeq env q s s') {q' : SeqId} (hq : q' ≠ q) :
    M.cells s'.ctx q' = M.cells s.ctx q' := by
  obtain ⟨g, hg, hrm⟩ := M.seqRm
  obtain ⟨k, hk, hrmLast⟩ := M.seqRmLast
  have hctx := h.ctx
  generalize s.ctx = x, s'.ctx = y at hctx
  induction hctx with
  | refl x => rfl
  | @rm f hf x =>
    rw [hg] at hf
    cases hf
    rw [hrm, Function.update_of_ne hq]
  | @clear f hnone hf x =>
    rw [hg] at hnone
    exact nomatch hnone
  | @rmLast f hf x n =>
    rw [hk] at hf
    cases hf
    obtain ⟨hok, herr⟩ := hrmLast x q n
    cases hres : (k x q n).1 with
    | ok u    => rw [hok u hres, Function.update_of_ne hq]
    | error e => rw [herr e hres]
  | @rmLastSeq0 f hnone hf x n =>
    rw [hk] at hnone
    exact nomatch hnone
  | unpack x bin => exact M.kvUnpack_other x bin q q' hq
  | trans _ _ ih ih' => exact ih'.trans ih

/-- A quiet function touches no cell. -/
theorem Quiet.cells {s' : Sys σ γ Sid} (h : Quiet env s s') :
    M.cells s'.ctx = M.cells s.ctx :=
  M.silent h.ctx

/-- Failing a request clears the cells of its seq. -/
theorem failRequest_cells (s : Sys σ γ Sid) (r : Req Sid) (e : Err) :
    M.cells (failRequest env s r e).ctx = Function.update (M.cells s.ctx) r.seqId [] := by
  have hquiet := (notifyFailure_mute s r e).quiet.trans
    (releaseSampler_quiet env (notifyFailure s r e) r)
  unfold failRequest
  rw [releaseSeq_cells, hquiet.cells M]

end Removals

/-! ### Restoring a row -/

/-- Every row that the cache hands out satisfies `P`: its key, the tokens stored with it, and
    the cells its payload restores. -/
def RowsSatisfy (env : Env σ γ) (M : KvModel env.be κ)
    (P : CacheKey → List Token → List κ → Prop) : Prop :=
  ∀ w key holder tier tokensBin w',
    env.cache.checkout w key = (.claimed holder tier tokensBin, w') →
    ∀ bin, (env.cache.load w' key tier).1 = some bin →
      P key (tokensBin.elim [] TokensBin.decode) (M.payload bin)

/-- The seq holds the cells of the row last restored into it, and nothing else. -/
theorem Restored.cells {env : Env σ γ} {M : KvModel env.be κ}
    {P : CacheKey → List Token → List κ → Prop} (hrows : RowsSatisfy env M P) {q : SeqId}
    {key : CacheKey} {tokens : List Token} {s : Sys σ γ Sid}
    (h : Restored env q key tokens s) : P key tokens (M.cells s.ctx q) := by
  obtain ⟨w, holder, tier, tokensBin, w', bin, x, u, hout, hbin, rfl, hunpack⟩ := h.row
  have hcells := M.kvUnpack x bin q u (congrArg Prod.fst hunpack)
  rw [hunpack] at hcells
  rw [hcells, Function.update_self]
  exact hrows w key holder tier tokensBin w' hout bin hbin

/-! ### Admission -/

/-- The common prefix is one. -/
theorem take_commonPrefixLen (xs ys : List Token) :
    xs.take (commonPrefixLen xs ys) = ys.take (commonPrefixLen xs ys) := by
  induction xs generalizing ys with
  | nil => cases ys <;> rfl
  | cons x xs ih =>
    cases ys with
    | nil => rfl
    | cons y ys =>
      unfold commonPrefixLen
      split
      case isTrue heq => rw [List.take_succ_cons, List.take_succ_cons, heq, ih ys]
      case isFalse => rfl

/-- A common prefix is no longer than the second list. -/
theorem commonPrefixLen_le (xs ys : List Token) : commonPrefixLen xs ys ≤ ys.length := by
  induction xs generalizing ys with
  | nil => cases ys <;> exact Nat.zero_le _
  | cons x xs ih =>
    cases ys with
    | nil => exact Nat.zero_le _
    | cons y ys =>
      unfold commonPrefixLen
      split
      · exact Nat.succ_le_succ (ih ys)
      · exact Nat.zero_le _

/-- A relation between context tokens and cells that holds of none of either, and that
    trimming both keeps. -/
structure Trims (R : List Token → List κ → Prop) : Prop where
  nil : R [] []
  take : ∀ {ts cs} (n : Nat), R ts cs → R (ts.take n) (cs.take n)

section Admission

variable {env : Env σ γ} {M : KvModel env.be κ} {R : List Token → List κ → Prop}
  (hR : Trims R) {d : Data σ γ Sid} {r : Req Sid}
include hR

/-- After the cold path the seq is empty, and so is the context. -/
theorem setupCold_matches :
    R (setupCold env d r).1.contextTokens (M.cells (setupCold env d r).2.ctx r.seqId) := by
  show R [] (M.cells (backendSeqClear env d.sys r.seqId).ctx r.seqId)
  rw [backendSeqClear_cells, Function.update_self]
  exact hR.nil

/-- The primer trims context and cells alike, or the request starts cold. -/
theorem resumeFull_matches {context : List Token} (hne : context ≠ []) (kind : HitKind)
    (h : ∀ n ≤ context.length, R (context.take n) ((M.cells d.sys.ctx r.seqId).take n)) :
    R (resumeFull env d r context kind).1.contextTokens
      (M.cells (resumeFull env d r context kind).2.ctx r.seqId) := by
  obtain ⟨hok, -⟩ := backendSeqRmFrom_cells M d.sys r.seqId (context.length - 1)
  have hprimer : warmRestorePrimer env d.sys r.seqId context
      = backendSeqRmFrom env d.sys r.seqId (context.length - 1) := if_neg hne
  unfold resumeFull
  rw [hprimer]
  dsimp only
  split
  case h_1 u htrim =>
    show R context.dropLast _
    rw [hok u htrim, Function.update_self, List.dropLast_eq_take]
    exact h _ (Nat.sub_le _ _)
  case h_2 => exact setupCold_matches hR

/-- After the warm path the seq holds the context, if it was restored so. -/
theorem setupWarm_matches {w : Warm} (h : R w.context (M.cells d.sys.ctx r.seqId)) :
    R (setupWarm env d r w).1.contextTokens (M.cells (setupWarm env d r w).2.ctx r.seqId) := by
  unfold setupWarm
  split
  case isTrue hfull => exact resumeFull_matches hR hfull.2 w.kind fun n _ => hR.take n h
  case isFalse => exact h

/-- A fresh admission: the row it adopts matches, or it starts cold. -/
theorem setupLookup_matches {P : CacheKey → List Token → List κ → Prop}
    (hrows : RowsSatisfy env M P) {parentKey : Option CacheKey}
    (hadopts : ∀ key w cs, Adopts env d r r.promptTokens parentKey key w → P key w.context cs →
      R w.context cs) :
    R (setupLookup env d r parentKey).1.contextTokens
      (M.cells (setupLookup env d r parentKey).2.ctx r.seqId) := by
  unfold setupLookup
  dsimp only
  split
  case h_1 w hfound =>
    obtain ⟨key, hroute, hrestored⟩ := lookupOrResume_adopts hfound
    exact setupWarm_matches hR (hadopts key w _ hroute (hrestored.cells hrows))
  case h_2 => exact setupCold_matches hR

/-- **An admission on a pinned seq** that holds cells matching the stored tokens. -/
theorem setupAdmissionPath_pinned_matches {stored prompt : List Token} {mode : AdmitMode}
    (hmode : ResumesOn stored prompt mode) (opts : LookupOpts)
    (h : R stored (M.cells d.sys.ctx r.seqId)) :
    R (setupAdmissionPath env d r mode prompt opts).1.contextTokens
      (M.cells (setupAdmissionPath env d r mode prompt opts).2.ctx r.seqId) := by
  cases mode with
  | normal => exact hmode.elim
  | sticky tokens =>
    cases hmode
    exact h
  | «continue» tokens =>
    cases hmode
    exact h
  | stickyPartial len =>
    obtain ⟨rfl, hpos⟩ := hmode
    have htake := take_commonPrefixLen stored prompt
    have hle := commonPrefixLen_le stored prompt
    generalize commonPrefixLen stored prompt = len at hpos htake hle
    -- Below `len` the kept prompt is the stored context.
    have hkeep : ∀ n ≤ len,
        R ((prompt.take len).take n) ((M.cells d.sys.ctx r.seqId).take n) := by
      intro n hn
      rw [← htake, List.take_take, Nat.min_eq_left hn]
      exact hR.take n h
    have hlen : (prompt.take len).length = len := List.length_take_of_le hle
    unfold setupAdmissionPath
    dsimp only
    split
    case isTrue =>
      have hne : prompt.take len ≠ [] := by
        intro hnil
        rw [hnil] at hlen
        exact absurd hlen (by rw [List.length_nil]; omega)
      refine resumeFull_matches hR hne .partialHit fun n hn => hkeep n ?_
      rwa [hlen] at hn
    case isFalse =>
      obtain ⟨hok, -⟩ := backendSeqRmFrom_cells M d.sys r.seqId len
      split
      case h_1 u htrim =>
        show R (prompt.take len) _
        rw [hok u htrim, Function.update_self]
        have hall := hkeep len (Nat.le_refl len)
        rwa [List.take_take, Nat.min_self] at hall
      case h_2 => exact setupCold_matches hR

end Admission

/-! ### A speculative commit -/

section Commit

variable {env : Env σ γ} {M : KvModel env.be κ}

/-- What a commit leaves alone: every other seq, the sessions, and that the seq is in flight. -/
structure CommitFrame (M : KvModel env.be κ) (q : SeqId) (d d' : Data σ γ Sid) : Prop where
  sessions : d'.sessionSeq = d.sessionSeq
  others : ∀ q' ≠ q, d'.reqTable.lookup q' = d.reqTable.lookup q'
  cells : ∀ q' ≠ q, M.cells d'.sys.ctx q' = M.cells d.sys.ctx q'
  inTable : d'.reqTable.lookup q = none ↔ d.reqTable.lookup q = none

/-- One function after another. -/
theorem CommitFrame.trans {q : SeqId} {d d' d'' : Data σ γ Sid} (h : CommitFrame M q d d')
    (h' : CommitFrame M q d' d'') : CommitFrame M q d d'' where
  sessions := h'.sessions.trans h.sessions
  others := fun q' hq => (h'.others q' hq).trans (h.others q' hq)
  cells := fun q' hq => (h'.cells q' hq).trans (h.cells q' hq)
  inTable := h'.inTable.trans h.inTable

/-- Another record of the request. -/
theorem commitFrame_putReq {q : SeqId} {d : Data σ γ Sid} {s : Sys σ γ Sid} {r₀ r : Req Sid}
    (h : d.reqTable.lookup q = some r₀) (hq : r.seqId = q)
    (hcells : ∀ q' ≠ q, M.cells s.ctx q' = M.cells d.sys.ctx q') :
    CommitFrame M q d (putReq (withSys d s) r) where
  sessions := rfl
  others := fun q' hne => by
    rw [lookup_putReq, hq, if_neg hne]
    rfl
  cells := hcells
  inTable := by
    rw [lookup_putReq, hq, if_pos rfl, h]
    simp

/-- Committed tokens touch no other seq. -/
theorem applySpecCommitted_frame {q : SeqId} {eog : Bool} (tokens : List Token)
    {d : Data σ γ Sid} (hkeys : KeysMatch d.reqTable) :
    CommitFrame M q d (applySpecCommitted env q eog tokens d).2 ∧
      KeysMatch (applySpecCommitted env q eog tokens d).2.reqTable := by
  have hrefl : CommitFrame M q d d := ⟨rfl, fun _ _ => rfl, fun _ _ => rfl, Iff.rfl⟩
  induction tokens generalizing d with
  | nil => exact ⟨hrefl, hkeys⟩
  | cons tok rest ih =>
    unfold applySpecCommitted
    split
    case h_1 => exact ⟨hrefl, hkeys⟩
    case h_2 r hr =>
      split
      case isTrue => exact ⟨hrefl, hkeys⟩
      case isFalse =>
        have happ := tokenResult_applies env d r tok (if rest = [] then eog else false)
        generalize tokenResult env d r tok (if rest = [] then eog else false) = res at happ
        have hq : res.1.seqId = q := happ.ident.seqId.trans (hkeys q r hr)
        have hstep : CommitFrame M q d (putReq (withSys d res.2) res.1) :=
          commitFrame_putReq hr hq fun q' _ => by rw [happ.fires.ctx]
        have hkeys' : KeysMatch (putReq (withSys d res.2) res.1).reqTable :=
          KeysMatch.putReq (d := withSys d res.2) hkeys res.1
        have hrefl' : CommitFrame M q (putReq (withSys d res.2) res.1)
            (putReq (withSys d res.2) res.1) := ⟨rfl, fun _ _ => rfl, fun _ _ => rfl, Iff.rfl⟩
        obtain ⟨hframe, hend⟩ := ih hkeys' hrefl'
        exact ⟨hstep.trans hframe, hend⟩

/-- Nor does trimming the overshoot. -/
theorem specTrimOvershoot_frame {q : SeqId} (d : Data σ γ Sid) :
    CommitFrame M q d (specTrimOvershoot env d q) := by
  unfold specTrimOvershoot
  split
  case h_1 => exact ⟨rfl, fun _ _ => rfl, fun _ _ => rfl, Iff.rfl⟩
  case h_2 r _ =>
    have htrim := backendSeqRmFrom_onSeq env d.sys q r.contextTokens.length
    exact ⟨rfl, fun _ _ => rfl, fun q' hne => htrim.cells_of_ne M hne, Iff.rfl⟩

/-- Nor does counting drafts. -/
theorem specRecordFeedback_frame {q : SeqId} {d : Data σ γ Sid} (hkeys : KeysMatch d.reqTable)
    (n m : Nat) : CommitFrame M q d (specRecordFeedback env d q n m) := by
  have hquiet := specAccept_quiet env d q m
  unfold specRecordFeedback
  dsimp only
  split
  case h_1 => exact ⟨rfl, fun _ _ => rfl, fun q' _ => by rw [← hquiet.cells M]; rfl, Iff.rfl⟩
  case h_2 r hr =>
    exact commitFrame_putReq (d := d) hr (hkeys q r hr) fun q' _ => by rw [hquiet.cells M]

/-- Committing a speculative step touches no other seq and no other request. -/
theorem commitSpec_frame {q : SeqId} {draft : List Token} {res : SpecResult}
    {d d' : Data σ γ Sid} (hkeys : KeysMatch d.reqTable)
    (h : commitSpec env d q draft res = .stepped d') : CommitFrame M q d d' := by
  have hframe : CommitFrame M q d (applySpecCommitted env q res.eog res.committed d).2 ∧
      KeysMatch (applySpecCommitted env q res.eog res.committed d).2.reqTable :=
    applySpecCommitted_frame res.committed hkeys
  obtain ⟨hcommit, hkeys'⟩ := hframe
  unfold commitSpec at h
  dsimp only at h
  split at h
  case h_1 => exact nomatch h
  case h_2 leftover _ =>
    cases h
    split
    · exact hcommit.trans (specRecordFeedback_frame hkeys' _ _)
    · have htrim : KeysMatch (specTrimOvershoot env
          (applySpecCommitted env q res.eog res.committed d).2 q).reqTable := by
        unfold specTrimOvershoot
        split <;> exact hkeys'
      exact (hcommit.trans (specTrimOvershoot_frame _)).trans (specRecordFeedback_frame htrim _ _)

end Commit

end Erllama.Model
