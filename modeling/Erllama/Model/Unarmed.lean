import Erllama.Model.AdapterMoves
import Erllama.Model.Events

namespace Erllama.Model

/-!
# Events without adapter calls

Only the three adapter calls of a process reach the adapter callbacks of its backend.  To every
other event the process answers as it would over a backend without them (`step_unarmed`), and
there the adapter moves do nothing.

* `Env.unarmed` — the backend with no adapter to load, unload or apply.
* `RecoversBare` — no recovery finds adapters in the process's list.
* `step_framed` — what an event other than the adapter calls does to the adapters.
-/

variable {σ γ Sid : Type}

/-- The same with a backend that cannot load or unload adapters, and fails to apply them. -/
def Env.unarmed (env : Env σ γ) : Env σ γ :=
  { env with be := { env.be with
      loadAdapter := none
      unloadAdapter := none
      applyAdapters := some fun x _ => (.error (.other 0), x) } }

/-- The calls that change the adapters. -/
def IsAdapterCall : Event Sid → Prop
  | .loadAdapter _ _ _ | .unloadAdapter _ _ | .setAdapterScale _ _ _ => True
  | _ => False

/-! ### The same answers -/

section Frame

variable (env : Env σ γ)

/-- The probe of the cache checks no abort flag. -/
theorem probeTextPrefix_unarmed (fp : Digest) (qt : QuantType) (ctxHash : Digest) (bytes : Bytes)
    (lens : List Nat) (w : γ) :
    probeTextPrefix env.unarmed fp qt ctxHash bytes lens w
      = probeTextPrefix env fp qt ctxHash bytes lens w := by
  induction lens generalizing w with
  | nil => rfl
  | cons len lens ih =>
    unfold probeTextPrefix
    dsimp only
    rw [ih]
    rfl

/-- Nor does the search for the suffix. -/
theorem resumeSuffix_unarmed (tokens : List Token) (bytes : Bytes) (n : Nat) :
    resumeSuffix env.unarmed tokens bytes n = resumeSuffix env tokens bytes n := by
  with_unfolding_all rfl

/-- Nor does the longest prefix. -/
theorem tryLongestPrefix_unarmed (d : Data σ γ Sid) (r : Req Sid) (tokens : List Token)
    (bytes : Bytes) :
    tryLongestPrefix env.unarmed d r tokens bytes = tryLongestPrefix env d r tokens bytes := by
  unfold tryLongestPrefix lookupLongestTextPrefix resumeAtPrefix
  simp only [probeTextPrefix_unarmed, resumeSuffix_unarmed]
  rfl

/-- Nor does the whole lookup. -/
theorem lookupOrResume_unarmed (d : Data σ γ Sid) (r : Req Sid) (tokens : List Token)
    (parentKey : Option CacheKey) :
    lookupOrResume env.unarmed d r tokens parentKey = lookupOrResume env d r tokens parentKey := by
  unfold lookupOrResume trySessionResume resumeSessionOrFallthrough
  simp only [tryLongestPrefix_unarmed, resumeSuffix_unarmed]
  rfl

/-- Nor does the start of a request. -/
theorem startPrepared_unarmed (mode : AdmitMode)
    (prepared : Except Err (Prepared Sid) × Data σ γ Sid) :
    startPrepared env.unarmed mode prepared = startPrepared env mode prepared := by
  unfold startPrepared installReq setupAdmissionPath setupLookup
  simp only [lookupOrResume_unarmed]
  rfl

/-- Nor does an embed call. -/
theorem embedEach_unarmed (acc : List (List ℚ)) (lists : List (List Token)) (d : Data σ γ Sid) :
    embedEach env.unarmed acc lists d = embedEach env acc lists d := by
  induction lists generalizing acc d with
  | nil => rfl
  | cons tokens lists ih =>
    unfold embedEach
    simp only [ih]
    rfl

/-- Nor do results. -/
theorem applyStepResults_unarmed (pairs : List ResultPair) (d : Data σ γ Sid) :
    applyStepResults env.unarmed pairs d = applyStepResults env pairs d := by
  induction pairs generalizing d with
  | nil => rfl
  | cons pair pairs ih =>
    unfold applyStepResults
    simp only [ih]
    rfl

/-- Nor do committed tokens. -/
theorem applySpecCommitted_unarmed (q : SeqId) (eog : Bool) (tokens : List Token)
    (d : Data σ γ Sid) :
    applySpecCommitted env.unarmed q eog tokens d = applySpecCommitted env q eog tokens d := by
  induction tokens generalizing d with
  | nil => rfl
  | cons tok rest ih =>
    unfold applySpecCommitted
    simp only [ih]
    rfl

/-- Nor does the body of a tick. -/
theorem tickBody_unarmed (d : Data σ γ Sid) : tickBody env.unarmed d = tickBody env d := by
  unfold tickBody runSpecTick commitSpec stepTickOps finishStep
  simp only [applySpecCommitted_unarmed, applyStepResults_unarmed]
  rfl

variable [LinearOrder Sid]

/-- Nor does the queue. -/
theorem dispatchAdmits_unarmed (items : List (Item Sid)) (d : Data σ γ Sid) :
    dispatchAdmits env.unarmed items d = dispatchAdmits env items d := by
  induction items generalizing d with
  | nil => rfl
  | cons item rest ih =>
    unfold dispatchAdmits startQueued startRequest
    simp only [ih, startPrepared_unarmed]
    rfl

/-- Nor does the tick. -/
theorem stepTick_unarmed (d : Data σ γ Sid) : stepTick env.unarmed d = stepTick env d := by
  unfold stepTick tickAfterStep dispatchPendingAdmits
  simp only [tickBody_unarmed, dispatchAdmits_unarmed]
  rfl

/-- **An event that is no adapter call** does what it does over a backend without adapters. -/
theorem step_unarmed (p : Proc σ γ Sid) {e : Event Sid} (h : ¬ IsAdapterCall e) :
    step env.unarmed p e = step env p e := by
  cases e with
  | loadAdapter => exact absurd trivial h
  | unloadAdapter => exact absurd trivial h
  | setAdapterScale => exact absurd trivial h
  | request item =>
    unfold step handleEvent admitRequest admitNormal startRequest
    simp only [startPrepared_unarmed]
    rfl
  | «continue» frm suffix opts =>
    unfold step handleEvent admitContinue startContinue
    simp only [startPrepared_unarmed]
    rfl
  | embed frm tokens =>
    unfold step handleEvent
    simp only [embedEach_unarmed]
  | embedBatch frm lists =>
    unfold step handleEvent
    simp only [embedEach_unarmed]
  | tick =>
    unfold step handleEvent handleTick
    simp only [stepTick_unarmed]
  | _ => rfl

end Frame

/-! ### What the other events do -/

variable [LinearOrder Sid] {env : Env σ γ} {α : Type}

/-- A recovery of the tick finds no adapters in the list. -/
def RecoversBare (env : Env σ γ) (p : Proc σ γ Sid) : Prop :=
  p.data.sys.ticks ≠ 0 → p.phase = .running → ∀ d e, tickBody env (takeTick p.data) = .recover d e →
    (recoverInPlace env d e).phase = .idle → d.adapters = []

/-- The process's record of the adapters is as before, and so is what is seen of the context,
    unless the context is a fresh one and the record is empty. -/
structure Framed (V : CtxView env.unarmed.be α) (d d' : Data σ γ Sid) : Prop where
  adapters : d'.adapters = d.adapters
  effectiveFp : d'.effectiveFp = d.effectiveFp
  view : V.view d'.sys.ctx = V.view d.sys.ctx ∨ d.adapters = [] ∧
    ∃ f y x, env.be.resetContext = some f ∧ f y = (.ok (), x) ∧ V.view d'.sys.ctx = V.view x

variable (V : CtxView env.unarmed.be α)

omit [LinearOrder Sid] in
/-- The same view. -/
theorem SameView.framed {d d' : Data σ γ Sid} (h : SameView V d d') : Framed V d d' :=
  ⟨h.adapters, h.effectiveFp, .inl h.view⟩

omit [LinearOrder Sid] in
/-- One function after another. -/
theorem Framed.trans {d d' d'' : Data σ γ Sid} (h : Framed V d d') (h' : Framed V d' d'') :
    Framed V d d'' := by
  refine ⟨h'.adapters.trans h.adapters, h'.effectiveFp.trans h.effectiveFp, ?_⟩
  rcases h'.view with hview | ⟨hnil, hfresh⟩
  · rw [hview]
    exact h.view
  · exact .inr ⟨h.adapters.symm.trans hnil, hfresh⟩

/-- The guard on recoveries. -/
def bareGuard : Guard σ γ Sid := { Guard.free with recover := fun adapters => adapters = [] }

/-- **Step lemma.** Over a backend without them the adapter moves change nothing. -/
theorem Move.framed {d d' : Data σ γ Sid} (h : Move env.unarmed bareGuard d d') :
    Framed V d d' := by
  cases h.adapterMove V with
  | same h => exact h.framed V
  | load hG => exact ⟨rfl, rfl, .inl rfl⟩
  | @unload handle hG =>
    unfold unloadAdapter
    cases findAdapter handle d.adapters <;> exact ⟨rfl, rfl, .inl rfl⟩
  | @scale handle scale hG =>
    unfold setAdapterScale
    cases findAdapter handle d.adapters <;> exact ⟨rfl, rfl, .inl rfl⟩
  | recover hf hreset hG => exact ⟨rfl, rfl, .inr ⟨hG, _, _, _, hf, hreset, rfl⟩⟩

/-- Any number of moves. -/
theorem Moves.framed {d d' : Data σ γ Sid} (h : Moves env.unarmed bareGuard d d') :
    Framed V d d' := by
  induction h with
  | refl => exact ⟨rfl, rfl, .inl rfl⟩
  | tail _ hmove ih => exact ih.trans V (hmove.framed V)

/-- A tick that recovers without adapters meets the guard. -/
theorem stepOk_bare {p : Proc σ γ Sid} {e : Event Sid} (h : e = .tick → RecoversBare env p) :
    StepOk env.unarmed bareGuard p e := by
  have hfree : StepOk env.unarmed .free p e := stepOk_free p e
  intro hlive
  cases e with
  | tick =>
    intro hticks hrunning
    obtain ⟨hbody, -, -⟩ := hfree hlive hticks hrunning
    have hopen : (bareGuard : Guard σ γ Sid).Open :=
      ⟨fun _ => trivial, fun _ _ _ => trivial, fun _ _ => trivial, fun _ _ => trivial⟩
    refine ⟨hbody, fun d _ => ⟨.of_forall (fun _ _ => trivial) _ _, hopen.queueOk _⟩, ?_⟩
    intro d e hbody hidle
    rw [tickBody_unarmed] at hbody
    exact h rfl hticks hrunning d e hbody hidle
  | _ => exact hfree hlive

/-- **An event other than the adapter calls** leaves the adapters as they are, or the process
    stops. -/
theorem step_framed {p : Proc σ γ Sid} {e : Event Sid} (hp : Wf env p.data)
    (he : ¬ IsAdapterCall e) (hbare : e = .tick → RecoversBare env p) :
    (step env p e).phase = .stopped ∨ Framed V p.data (step env p e).data := by
  have hcfg : env.unarmed.cfg = env.cfg := rfl
  have hsteps := step_steps (hp.congr hcfg) (stepOk_bare hbare)
  rw [step_unarmed env p he] at hsteps
  generalize step env p e = p' at hsteps ⊢
  cases hsteps with
  | live h => exact .inr (h.framed V)
  | halted h h' => exact .inl rfl

end Erllama.Model
