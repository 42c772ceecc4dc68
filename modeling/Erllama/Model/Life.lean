import Erllama.Model.Effects

namespace Erllama.Model

/-!
# The life of a request

Between its admission and its end the record of a request changes through the results of the
backend, the operator's saves and the marks of cancels, speculation and media, in whatever
order they come and with whatever else the process does in between.

* `Req.scan`, `Req.Unbegun` — the record as its options set it up.
* `Begins` — the record after its admission path: cold, or resumed on a prefix.
* `Story` — what was fed to a request, what it said and what it saved.
* `LifeStep` — one operation on the record, on any state of the process.
* `Life` — any number of them from the admitted record, each under a condition on the past.
* `Life.invariant` — what the first record has and every step keeps; `Life.guarded_or` — a life
  meets a condition, or there is a first step that does not.
-/

variable {σ γ Sid : Type}

/-! ### Before the admission -/

/-- What a scan reads and writes of a record, and the marks of the end. -/
structure Scan where
  stops : List Bytes
  maxLen : Nat
  mode : Mode
  callerPid : Option Pid
  requestRef : Option Ref
  target : Nat
  generated : List Token
  pending : Bytes
  matched : Option Bytes
  logprobs : List LpMap
  finishing : Bool
  cancelled : Bool
  refused : Bool

/-- The scan of a record. -/
def Req.scan (r : Req Sid) : Scan where
  stops := r.stopSequences
  maxLen := r.stopMaxLen
  mode := r.mode
  callerPid := r.callerPid
  requestRef := r.requestRef
  target := r.responseTarget
  generated := r.generated
  pending := r.pendingText
  matched := r.matchedStop
  logprobs := r.logprobsAcc
  finishing := r.finishing
  cancelled := r.cancelPending
  refused := r.thinkingNotEnabled

/-- The scan of a request as its options set it up. -/
def GenOpts.scan (gen : GenOpts) (mode : Mode) (pid : Option Pid) (ref : Option Ref) : Scan where
  stops := stopSequencesFrom gen
  maxLen := stopMaxLenOf (stopSequencesFrom gen)
  mode := mode
  callerPid := pid
  requestRef := ref
  target := gen.responseTokens.getD defaultResponseTokens
  generated := []
  pending := []
  matched := none
  logprobs := []
  finishing := false
  cancelled := false
  refused := false

/-- A record that was prepared from the options of a request, and to which nothing has happened
    yet. -/
structure Req.Unbegun (r : Req Sid) : Prop where
  scan : ∃ gen : GenOpts, r.scan = gen.scan r.mode r.callerPid r.requestRef
  coldSaveSegments : r.coldSaveSegments = none

/-- Another record prepared from the same options. -/
theorem Req.Unbegun.of_scan {r r' : Req Sid} (h : r.Unbegun) (hscan : r'.scan = r.scan)
    (hladder : r'.coldSaveSegments = r.coldSaveSegments) : r'.Unbegun := by
  obtain ⟨gen, hgen⟩ := h.scan
  refine ⟨⟨gen, ?_⟩, hladder.trans h.coldSaveSegments⟩
  have hmode : r'.mode = r.mode := congrArg Scan.mode hscan
  have hpid : r'.callerPid = r.callerPid := congrArg Scan.callerPid hscan
  have href : r'.requestRef = r.requestRef := congrArg Scan.requestRef hscan
  rw [hscan, hgen, hmode, hpid, href]

/-! ### Admission -/

/-- What an admission path makes of a record: a cold prefill, or a context to resume on and what
    of the restored prefix is to be prefilled again. -/
inductive Begins (env : Env σ γ) (r : Req Sid) : Req Sid → Prop
  | cold (d : Data σ γ Sid) (n : Option Nat) :
    Begins env r (setupCold env d { r with prefixCheckpointLen := n }).1
  | resumed (n : Option Nat) (context : List Token) (cursor : Option (List Token))
      (kind : HitKind) {len : Nat} (hlen : len ≤ context.length + (cursor.getD []).length) :
    Begins env r (resumeOn { r with prefixCheckpointLen := n } context cursor kind len)

section Admission

variable (env : Env σ γ) (d : Data σ γ Sid) (r : Req Sid)

/-- The cold path. -/
theorem setupCold_begins : Begins env r (setupCold env d r).1 := .cold d r.prefixCheckpointLen

/-- The path of a full hit: the primer is prefilled again. -/
theorem resumeFull_begins (context : List Token) (kind : HitKind) :
    Begins env r (resumeFull env d r context kind).1 := by
  unfold resumeFull
  dsimp only
  split
  · -- the primer is what was dropped from the context
    refine .resumed r.prefixCheckpointLen _ _ _ ?_
    rw [Option.getD_some, List.length_dropLast, List.length_drop]
    omega
  · exact setupCold_begins env _ r

/-- **Every admission path**. -/
theorem setupAdmissionPath_begins (mode : AdmitMode) (prompt : List Token) (opts : LookupOpts) :
    Begins env r (setupAdmissionPath env d r mode prompt opts).1 := by
  unfold setupAdmissionPath
  cases mode with
  | normal =>
    have hlookup : Begins env { r with prefixCheckpointLen := opts.prefixCheckpointLen }
        (setupLookup env d { r with prefixCheckpointLen := opts.prefixCheckpointLen }
          opts.parentKey).1 := by
      unfold setupLookup
      dsimp only
      split
      case h_1 w _ =>
        unfold setupWarm
        split
        · exact resumeFull_begins env _ _ _ _
        · exact .resumed _ w.context (some w.suffix) w.kind (Nat.le_add_right _ _)
      case h_2 => exact setupCold_begins env _ _
    generalize setupLookup env d { r with prefixCheckpointLen := opts.prefixCheckpointLen }
      opts.parentKey = res at hlookup
    obtain ⟨r₀, s⟩ := res
    cases hlookup with
    | cold d' n => exact .cold d' n
    | resumed n context cursor kind hlen => exact .resumed n context cursor kind hlen
  | sticky stored => exact .resumed r.prefixCheckpointLen _ _ _ (Nat.le_add_right _ _)
  | «continue» stored => exact .resumed r.prefixCheckpointLen _ _ _ (Nat.le_add_right _ _)
  | stickyPartial len =>
    dsimp only
    split
    case isTrue => exact resumeFull_begins env d r _ _
    case isFalse hrest =>
      split
      · refine .resumed r.prefixCheckpointLen _ _ _ ?_
        -- the shared prefix lies inside the prompt
        have hlt : len < prompt.length := by
          by_contra hge
          exact hrest (List.drop_eq_nil_of_le (by omega))
        rw [List.length_take]
        omega
      · exact setupCold_begins env _ r

end Admission

/-! ### Stories -/

/-- What happened to a request: the rows it was in with their results, the messages sent for
    it, and its saves. -/
structure Story (σ Sid : Type) where
  fed : List (Op × StepResult)
  out : List Out
  saves : List (SaveCall σ Sid)

/-- Nothing happened yet. -/
def Story.start : Story σ Sid := ⟨[], [], []⟩

/-- One story after another. -/
def Story.andThen (t t' : Story σ Sid) : Story σ Sid :=
  ⟨t.fed ++ t'.fed, t.out ++ t'.out, t.saves ++ t'.saves⟩

/-- The record without its cancel mark and without what only speculation and media prefills
    touch. -/
def Req.course (r : Req Sid) : Req Sid :=
  { r with
    cancelPending := false
    spec := none
    specPromptLen := 0
    specCursor := 0
    specDrafted := 0
    specAccepted := 0
    mediaState := none
    mediaNTokens := 0
    mediaNPos := 0 }

/-- A row for the request: a decode once nothing is left to prefill, or some of what is left. -/
def RowFor (r : Req Sid) : Op → Prop
  | .decode _      => r.prefillCursor = none
  | .prefill slice => slice ≠ [] ∧ ∃ cursor, r.prefillCursor = some cursor ∧ slice <+: cursor

variable (env : Env σ γ)

/-- One operation on the record of a request. -/
inductive LifeStep (r : Req Sid) : Story σ Sid → Req Sid → Prop
  | rest {r'} (hcourse : r'.course = r.course)
      (hcancel : r.cancelPending = true → r'.cancelPending = true) : LifeStep r .start r'
  | stopped (h : r.cancelPending = true ∨ r.mode = .prefillOnly) :
    LifeStep r .start { r with finishing := true }
  | result {d : Data σ γ Sid} {op res after out saves} (hfin : r.finishing = false)
      (hrow : RowFor r op) (h : stepResult env d r op res = some after)
      (hout : after.2.out = d.sys.out ++ out)
      (hlog : after.2.log = d.sys.log ++ saves.map .save) :
    LifeStep r ⟨[(op, res)], out, saves⟩ after.1
  | committed {d : Data σ γ Sid} {ref tok eog out saves} (hfin : r.finishing = false)
      (hrow : r.prefillCursor = none)
      (hout : (tokenResult env d r tok eog).2.out = d.sys.out ++ out)
      (hlog : (tokenResult env d r tok eog).2.log = d.sys.log ++ saves.map .save) :
    LifeStep r ⟨[(.decode ref, .token tok eog none)], out, saves⟩ (tokenResult env d r tok eog).1
  | saved {d : Data σ γ Sid} {reason saves} (hreason : reason = .evict ∨ reason = .shutdown)
      (hsome : r.contextTokens ≠ [])
      (hlog : (fireSaveIf env d true reason r.contextTokens r).2.log
        = d.sys.log ++ saves.map .save) :
    LifeStep r ⟨[], [], saves⟩
      { creditSave (fireSaveIf env d true reason r.contextTokens r).1 r r.contextTokens with
        lastSaveAt := r.contextTokens.length }

/-- The life of a request from the record `r₀`.  `G` is a condition on each step: the story so
    far, the record before it, and what the step adds. -/
inductive Life (G : Story σ Sid → Req Sid → Story σ Sid → Prop) (r₀ : Req Sid) :
    Story σ Sid → Req Sid → Prop
  | refl : Life G r₀ .start r₀
  | tail {t r t' r'} (h : Life G r₀ t r) (hG : G t r t') (h' : LifeStep env r t' r') :
    Life G r₀ (t.andThen t') r'

/-- No condition. -/
def Story.free : Story σ Sid → Req Sid → Story σ Sid → Prop := fun _ _ _ => True

variable {env}

/-- **Invariant rule.** What holds at admission and is kept by every step that meets the
    condition holds all along. -/
theorem Life.invariant {G : Story σ Sid → Req Sid → Story σ Sid → Prop}
    {I : Story σ Sid → Req Sid → Prop} {r₀ : Req Sid} (h₀ : I .start r₀)
    (hstep : ∀ {t r t' r'}, I t r → G t r t' → LifeStep env r t' r' → I (t.andThen t') r')
    {t : Story σ Sid} {r : Req Sid} (h : Life env G r₀ t r) : I t r := by
  induction h with
  | refl => exact h₀
  | tail _ hG h' ih => exact hstep ih hG h'

/-- A life whose steps need not meet a condition meets it all along, or up to a first step that
    does not. -/
theorem Life.guarded_or (G : Story σ Sid → Req Sid → Story σ Sid → Prop) {r₀ r : Req Sid}
    {t : Story σ Sid} (h : Life env Story.free r₀ t r) :
    Life env G r₀ t r ∨ ∃ t₁ r₁ t₂ r₂, Life env G r₀ t₁ r₁ ∧ LifeStep env r₁ t₂ r₂ ∧
      ¬ G t₁ r₁ t₂ := by
  induction h with
  | refl => exact .inl .refl
  | @tail t r t' r' _ _ hstep ih =>
    rcases ih with hguarded | hbroken
    · by_cases hG : G t r t'
      · exact .inl (hguarded.tail hG hstep)
      · exact .inr ⟨t, r, t', r', hguarded, hstep, hG⟩
    · exact .inr hbroken

end Erllama.Model
