import Erllama.Model.Slots
import Erllama.Native.LlamaBackend
import Erllama.Native.Speculation

namespace Erllama.Native

open Lib

/-!
# Verify and embed calls on live sequences

Both calls decode into seq 0, whoever has it.  `verify/4` removes what it decoded, but counts
from the length of its own prefix and not from what the seq held, and the prefill that follows
is not tracked; `embed/2` leaves its cells where they are.

* `Pushed` — the context after a single-sequence decode.
* `Undecoded`, `Rebuilt` — the calls that leave no cell behind, and those whose restoring happens
  to rebuild what was there.
* `step_untouched_iff` — a call leaves the live seqs alone iff seq 0 is not one of them, or it is
  one of these calls.
* `run_untouched_iff` — so in whole runs.
-/

variable {Row Smp ε : Type} {p : Params Row Smp}

/-! ### One decode -/

/-- The coming decode works. -/
def Decodes (c : Ctx Smp) : Prop := ∀ f, c.faults.head? ≠ some (some f)

/-- What the coming decode keeps of the tokens it is given. -/
def keptOf (c : Ctx Smp) (tokens : List Token) : List Token :=
  match c.faults.head? with
  | some (some f) => tokens.take f.kept
  | _             => tokens

/-- The coming decode fails, and nothing of its batch is kept. -/
def LosesAll (c : Ctx Smp) : Prop := ∃ f, c.faults.head? = some (some f) ∧ f.kept = 0

/-- On a context that decodes, every token gets its cell. -/
theorem Decodes.kept {c : Ctx Smp} (h : Decodes c) (tokens : List Token) :
    keptOf c tokens = tokens := by
  unfold keptOf
  split
  case h_1 f hf => exact absurd hf (h f)
  case h_2 => rfl

/-- A decode keeps nothing iff it loses all. -/
theorem keptOf_eq_nil {c : Ctx Smp} {tokens : List Token} (hne : tokens ≠ []) :
    keptOf c tokens = [] ↔ LosesAll c := by
  unfold keptOf LosesAll
  split
  case h_1 f hf =>
    rw [List.take_eq_nil_iff]
    constructor
    · exact fun h => ⟨f, hf, h.resolve_right hne⟩
    · rintro ⟨f', hf', hkept⟩
      rw [hf] at hf'
      cases hf'
      exact .inl hkept
  case h_2 hnone =>
    refine ⟨fun h => absurd h hne, ?_⟩
    rintro ⟨f, hf, -⟩
    exact absurd hf (hnone f)

/-- The context after tokens were pushed onto a sequence, behind the back of its tracking. -/
structure Pushed (q : SeqId) (tokens : List Token) (c c' : Ctx Smp) : Prop where
  kv : c'.kv = Function.update c.kv q (c.kv q ++ tokens)
  perSeq : c'.perSeq = c.perSeq
  faults : c'.faults = c.faults.tail

/-- The rows of a batch for one seq are appended to its cells. -/
theorem foldl_pushCell {q : SeqId} {batch : List BatchRow} (h : ∀ b ∈ batch, b.seq = q)
    (kv : SeqId → List Token) :
    batch.foldl pushCell kv = Function.update kv q (kv q ++ batch.map BatchRow.token) := by
  induction batch generalizing kv with
  | nil => simp
  | cons b batch ih =>
    have hb := h b List.mem_cons_self
    rw [List.foldl_cons, ih fun b' hb' => h b' (List.mem_cons_of_mem b hb')]
    unfold pushCell
    rw [hb, Function.update_self, Function.update_idem, List.append_assoc]
    rfl

/-- The rows of one sequence, from its end on. -/
structure RowsOf (kv : SeqId → List Token) (q : SeqId) (tokens : List Token)
    (batch : List BatchRow) : Prop where
  seq : ∀ b ∈ batch, b.seq = q
  tokens : batch.map BatchRow.token = tokens
  follows : Follows kv batch = true

/-- The rows of a prefilled slice. -/
theorem sliceRows_rowsOf (q : SeqId) (tokens : List Token) (kv : SeqId → List Token) :
    RowsOf kv q tokens (sliceRows q (kv q).length tokens) := by
  generalize hstart : (kv q).length = start
  induction tokens generalizing kv start with
  | nil => exact ⟨fun b hb => absurd hb List.not_mem_nil, rfl, rfl⟩
  | cons tok tokens ih =>
    obtain ⟨hseq, htokens, hfollows⟩ := ih
      (pushCell kv ⟨tok, start, q, tokens = []⟩) (start + 1) (by simp [pushCell, hstart])
    refine ⟨fun b hb => ?_, ?_, ?_⟩
    · rcases List.mem_cons.mp hb with rfl | hb
      · rfl
      · exact hseq b hb
    · exact congrArg (tok :: ·) htokens
    · simp only [sliceRows, Follows, hstart, beq_self_eq_true, Bool.true_and]
      exact hfollows

/-- The rows of a draft. -/
theorem draftRows_rowsOf (q : SeqId) (tokens : List Token) (kv : SeqId → List Token) :
    RowsOf kv q tokens (draftRows q (kv q).length tokens) := by
  generalize hstart : (kv q).length = start
  induction tokens generalizing kv start with
  | nil => exact ⟨fun b hb => absurd hb List.not_mem_nil, rfl, rfl⟩
  | cons tok tokens ih =>
    obtain ⟨hseq, htokens, hfollows⟩ := ih
      (pushCell kv ⟨tok, start, q, true⟩) (start + 1) (by simp [pushCell, hstart])
    refine ⟨fun b hb => ?_, ?_, ?_⟩
    · rcases List.mem_cons.mp hb with rfl | hb
      · rfl
      · exact hseq b hb
    · exact congrArg (tok :: ·) htokens
    · simp only [draftRows, Follows, hstart, beq_self_eq_true, Bool.true_and]
      exact hfollows

/-- A decode of one sequence's rows: what it keeps is pushed, and it answers iff it works. -/
theorem llamaDecode_pushed {c : Ctx Smp} {q : SeqId} {tokens : List Token}
    {batch : List BatchRow} (h : RowsOf c.kv q tokens batch) :
    Pushed q (keptOf c tokens) c ((llamaDecode batch).on c).2 ∧
      ((((llamaDecode batch).on c).1 = .ok () ∧ Decodes c) ∨
        (∃ e, ((llamaDecode batch).on c).1 = .error e) ∧ ¬ Decodes c) := by
  unfold llamaDecode
  rw [Nif.on_bind_ok (Nif.on_get c)]
  split
  case h_1 f faults hf =>
    have hhead : c.faults.head? = some (some f) := by rw [hf]; rfl
    have hkept : (batch.take f.kept).foldl pushCell c.kv
        = Function.update c.kv q (c.kv q ++ keptOf c tokens) := by
      rw [foldl_pushCell fun b hb => h.seq b (List.mem_of_mem_take hb), List.map_take, h.tokens]
      unfold keptOf
      rw [hhead]
    refine ⟨⟨hkept, rfl, ?_⟩, .inr ⟨⟨_, rfl⟩, fun hworks => hworks f hhead⟩⟩
    rw [hf]
    rfl
  case h_2 hnone =>
    have hworks : Decodes c := by
      intro f hf
      cases hfaults : c.faults with
      | nil =>
        rw [hfaults] at hf
        exact nomatch hf
      | cons head tail =>
        rw [hfaults] at hf
        cases hf
        exact hnone f tail hfaults
    dsimp only
    rw [if_pos h.follows]
    refine ⟨⟨?_, rfl, rfl⟩, .inl ⟨rfl, hworks⟩⟩
    rw [hworks.kept, ← h.tokens]
    exact foldl_pushCell h.seq c.kv

/-! ### Embed -/

/-- The tokens are refused before anything is decoded. -/
def Refused (p : Params Row Smp) (tokens : List Token) : Prop :=
  tokens = [] ∨ checkTokens p tokens ≠ none

/-- An embed call on these tokens leaves no cell behind. -/
def Undecoded (p : Params Row Smp) (c : Ctx Smp) (tokens : List Token) : Prop :=
  Refused p tokens ∨ LosesAll c

/-- An embed call that is refused changes nothing. -/
theorem nifEmbed_refused {c : Ctx Smp} {tokens : List Token} (h : Refused p tokens) :
    ∃ e, (nifEmbed p tokens).on c = (.error e, c) := by
  unfold nifEmbed
  cases tokens with
  | nil => exact ⟨_, rfl⟩
  | cons tok tokens =>
    cases hcheck : checkTokens p (tok :: tokens) with
    | none => exact absurd hcheck (h.resolve_left (List.cons_ne_nil _ _))
    | some e => exact ⟨e, rfl⟩

/-- A decode, and calls that change neither the cells nor the tracking. -/
theorem pushed_bind {α β : Type} {c : Ctx Smp} {tokens : List Token} {x : Nif Smp α}
    {f : α → Nif Smp β} (hx : Pushed 0 tokens c (x.on c).2)
    (hf : ∀ a c', ((f a).on c').2.kv = c'.kv ∧ ((f a).on c').2.perSeq = c'.perSeq ∧
      ((f a).on c').2.faults = c'.faults) : Pushed 0 tokens c ((x >>= f).on c).2 := by
  rw [Nif.on_bind]
  split
  case h_1 a c' heq =>
    rw [heq] at hx
    obtain ⟨hkv, hperSeq, hfaults⟩ := hf a c'
    exact ⟨hkv.trans hx.kv, hperSeq.trans hx.perSeq, hfaults.trans hx.faults⟩
  case h_2 e c' heq =>
    rw [heq] at hx
    exact hx

/-- An embed call leaves what its decode keeps in seq 0. -/
theorem nifEmbed_pushed {c : Ctx Smp} {tokens : List Token} (h : ¬ Refused p tokens) :
    Pushed 0 (keptOf c tokens) c ((nifEmbed p tokens).on c).2 ∧
      ∀ v, ((nifEmbed p tokens).on c).1 = .ok v → Decodes c := by
  obtain ⟨hne, hcheck⟩ := not_or.mp h
  rw [ne_eq, not_not] at hcheck
  obtain ⟨hpushed, hanswer⟩ := llamaDecode_pushed (sliceRows_rowsOf 0 tokens c.kv)
  unfold nifEmbed
  cases tokens with
  | nil => exact absurd rfl hne
  | cons tok tokens =>
    rw [hcheck]
    dsimp only
    have hdecode : (decodeGetOne (tok :: tokens)).on c
        = (llamaDecode (sliceRows 0 (c.kv 0).length (tok :: tokens))).on c :=
      Nif.on_bind_ok (Nif.on_get c)
    refine ⟨pushed_bind (hdecode ▸ hpushed) fun _ c' => ?_, fun v hv => ?_⟩
    · rw [Nif.on_bind_ok (Nif.on_modify _ _), Nif.on_bind_ok (Nif.on_get _)]
      split <;> exact ⟨rfl, rfl, rfl⟩
    · rcases hanswer with ⟨-, hworks⟩ | ⟨⟨e, he⟩, -⟩
      · exact hworks
      · rw [Nif.on_bind, hdecode] at hv
        split at hv
        case h_1 heq =>
          rw [heq] at he
          exact nomatch he
        case h_2 => exact nomatch hv

/-! ### Verify -/

/-- So does a verify call. -/
theorem forwardWithArgmax_refused {c : Ctx Smp} {tokens : List Token} (hne : tokens ≠ [])
    (h : Refused p tokens) : ∃ e, (forwardWithArgmax p tokens).on c = (.error e, c) := by
  unfold forwardWithArgmax
  cases tokens with
  | nil => exact absurd rfl hne
  | cons tok tokens =>
    cases hcheck : checkTokens p (tok :: tokens) with
    | none => exact absurd hcheck (h.resolve_left hne)
    | some e => exact ⟨e, rfl⟩

/-- A failed decode reported as another error. -/
theorem on_rethrow {α : Type} (x : Nif Smp α) (e : NifError) (c : Ctx Smp) :
    (tryCatch x fun _ => throw e : Nif Smp α).on c =
      match x.on c with
      | (.ok a, c')    => (.ok a, c')
      | (.error _, c') => (.error e, c') := by
  unfold Nif.on
  simp only [tryCatch, tryCatchThe, MonadExceptOf.tryCatch, ExceptT.tryCatch, ExceptT.mk, bind,
    StateT.bind]
  cases x c with
  | mk res c₁ => cases res <;> rfl

/-- One that is not refused leaves its cells. -/
theorem forwardWithArgmax_pushed {c : Ctx Smp} {tokens : List Token} (h : ¬ Refused p tokens) :
    Pushed 0 (keptOf c tokens) c ((forwardWithArgmax p tokens).on c).2 ∧
      (((∃ preds, ((forwardWithArgmax p tokens).on c).1 = .ok preds) ∧ Decodes c) ∨
        (∃ e, ((forwardWithArgmax p tokens).on c).1 = .error e) ∧ ¬ Decodes c) := by
  obtain ⟨hne, hcheck⟩ := not_or.mp h
  rw [ne_eq, not_not] at hcheck
  obtain ⟨hpushed, hanswer⟩ := llamaDecode_pushed (draftRows_rowsOf 0 tokens c.kv)
  unfold forwardWithArgmax
  cases tokens with
  | nil => exact absurd rfl hne
  | cons tok tokens =>
    rw [hcheck]
    dsimp only
    rw [Nif.on_bind_ok (Nif.on_get c)]
    generalize llamaDecode (draftRows 0 (c.kv 0).length (tok :: tokens)) = x at hpushed hanswer
    rw [Nif.on_bind, on_rethrow]
    rcases hres : x.on c with ⟨res, c'⟩
    rw [hres] at hpushed hanswer
    cases res with
    | ok u =>
      refine ⟨⟨hpushed.kv, hpushed.perSeq, hpushed.faults⟩, .inl ⟨⟨_, rfl⟩, ?_⟩⟩
      rcases hanswer with ⟨-, hworks⟩ | ⟨⟨e, he⟩, -⟩
      · exact hworks
      · exact nomatch he
    | error e =>
      refine ⟨hpushed, .inr ⟨⟨_, rfl⟩, ?_⟩⟩
      rcases hanswer with ⟨hok, -⟩ | ⟨-, hfails⟩
      · exact nomatch hok
      · exact hfails

/-- What a removal from a position on leaves of the cells. -/
def cutAt (p : Params Row Smp) (cells : List Token) (pos : Nat) : List Token :=
  if pos = 0 ∨ p.removes cells pos then cells.take pos else cells

/-- What trimming a seq leaves. -/
theorem kvSeqRm_ctx (c : Ctx Smp) (q : SeqId) (pos : Nat) :
    ((kvSeqRm p q pos).on c).2
      = refresh { setCells c q (cutAt p (c.kv q) pos) with decodeReady := false } q := by
  unfold kvSeqRm memorySeqRm cutAt
  rw [Nif.on_bind, Nif.on_bind_ok (Nif.on_get c)]
  by_cases hremoves : pos = 0 ∨ p.removes (c.kv q) pos = true
  · rw [if_pos hremoves, if_pos hremoves]
    rfl
  · rw [if_neg hremoves, if_neg hremoves]
    unfold setCells
    rw [Function.update_eq_self]
    rfl

/-- The restoring after a verification: a cut, which resets the tracking, and a prefill, which
    leaves it alone. -/
theorem restoreAfterVerify_spec (c : Ctx Smp) (len : Nat) {last : Token}
    (hcheck : checkTokens p [last] = none) :
    (restoreAfterVerify p c len last).kv
        = Function.update c.kv 0 (cutAt p (c.kv 0) len ++ keptOf c [last]) ∧
      (restoreAfterVerify p c len last).perSeq
        = Function.update c.perSeq 0 ⟨noLogitsIdx, (cutAt p (c.kv 0) len).length⟩ := by
  unfold restoreAfterVerify
  rw [kvSeqRm_ctx]
  generalize hcut : refresh { setCells c 0 (cutAt p (c.kv 0) len) with decodeReady := false } 0 = c₁
  have hkv : c₁.kv = Function.update c.kv 0 (cutAt p (c.kv 0) len) := by
    rw [← hcut]
    rfl
  have hperSeq : c₁.perSeq
      = Function.update c.perSeq 0 ⟨noLogitsIdx, (cutAt p (c.kv 0) len).length⟩ := by
    rw [← hcut]
    simp [refresh, track, setCells]
  have hfaults : c₁.faults = c.faults := by
    rw [← hcut]
    rfl
  have hkept : keptOf c₁ [last] = keptOf c [last] := by
    unfold keptOf
    rw [hfaults]
  have hprefill : Pushed 0 (keptOf c₁ [last]) c₁ ((nifPrefill p [last]).on c₁).2 := by
    unfold nifPrefill
    rw [hcheck]
    dsimp only
    refine pushed_bind ?_ fun _ c' => ⟨rfl, rfl, rfl⟩
    rw [show (decodeGetOne [last]).on c₁
        = (llamaDecode (sliceRows 0 (c₁.kv 0).length [last])).on c₁ from
      Nif.on_bind_ok (Nif.on_get c₁)]
    exact (llamaDecode_pushed (sliceRows_rowsOf 0 [last] c₁.kv)).1
  refine ⟨?_, hprefill.perSeq.trans hperSeq⟩
  rw [hprefill.kv, hkv, Function.update_self, Function.update_idem, hkept]

/-- The restoring of a verify call rebuilds what seq 0 held: the prefix is as long as the KV and
    the prefill is lost, or it is one token shorter and ends in the KV's last token. -/
def Rebuilt (p : Params Row Smp) (c : Ctx Smp) (pre cands : List Token) : Prop :=
  Decodes c ∧ p.removes (c.kv 0 ++ (pre ++ cands)) pre.length = true ∧
    (c.perSeq 0).nextPos = pre.length ∧
    ((c.kv 0).length = pre.length ∧ LosesAll { c with faults := c.faults.tail } ∨
      (c.kv 0).length = pre.length + 1 ∧ (c.kv 0).getLast? = pre.getLast? ∧
        ¬ LosesAll { c with faults := c.faults.tail })

/-- A verify call on this prefix and these candidates leaves seq 0 as it was. -/
def Unmoved (p : Params Row Smp) (c : Ctx Smp) (pre cands : List Token) : Prop :=
  pre = [] ∨ Undecoded p c (pre ++ cands) ∨ Rebuilt p c pre cands

/-- The cells and the tracked position of the sequence are the same. -/
def SameSeq (q : SeqId) (c c' : Ctx Smp) : Prop :=
  c'.kv q = c.kv q ∧ (c'.perSeq q).nextPos = (c.perSeq q).nextPos

/-- The seq of the call is as before iff no cell was pushed. -/
theorem Pushed.sameSeq {q : SeqId} {tokens : List Token} {c c' : Ctx Smp}
    (h : Pushed q tokens c c') : SameSeq q c c' ↔ tokens = [] := by
  unfold SameSeq
  rw [h.kv, h.perSeq, Function.update_self]
  simp

/-- Every other seq is as before. -/
theorem Pushed.sameSeq_of_ne {q q' : SeqId} {tokens : List Token} {c c' : Ctx Smp}
    (h : Pushed q tokens c c') (hne : q' ≠ q) : SameSeq q' c c' := by
  unfold SameSeq
  rw [h.kv, h.perSeq, Function.update_of_ne hne]
  exact ⟨rfl, rfl⟩

/-- What passed the checks passes them token by token. -/
theorem checkTokens_last {tokens : List Token} {last : Token} (hlast : last ∈ tokens)
    (h : checkTokens p tokens = none) : checkTokens p [last] = none := by
  have hlen : 0 < tokens.length := List.length_pos_of_mem hlast
  unfold checkTokens at h ⊢
  split_ifs at h with hvocab hrange hsize hctx hbatch
  rw [if_neg hvocab, if_neg ?_, if_neg hsize, if_neg ?_, if_neg ?_]
  · rw [List.length_singleton]
    omega
  · rw [List.length_singleton]
    omega
  · intro hany
    obtain ⟨tok, htok, hbad⟩ := List.any_eq_true.mp hany
    rw [List.mem_singleton.mp htok] at hbad
    exact hrange (List.any_eq_true.mpr ⟨last, hlast, hbad⟩)

/-- The seq after a verify call whose forward pass was decoded. -/
theorem rebuilt_iff {c c₁ : Ctx Smp} {pre cands : List Token} {last : Token}
    (hlast : pre.getLast? = some last) (hcheck : checkTokens p (pre ++ cands) = none)
    (hworks : Decodes c) (hpushed : Pushed 0 (pre ++ cands) c c₁) :
    SameSeq 0 c (restoreAfterVerify p c₁ pre.length last) ↔ Rebuilt p c pre cands := by
  have hmem : last ∈ pre ++ cands := List.mem_append_left _ (List.mem_of_getLast? hlast)
  have hpos : 0 < pre.length := List.length_pos_of_mem (List.mem_of_getLast? hlast)
  obtain ⟨hkv, hperSeq⟩ := restoreAfterVerify_spec c₁ pre.length
    (checkTokens_last hmem hcheck)
  -- The prefix's last token is decoded again, and either its cell is kept or it is not.
  have hkept : keptOf c₁ [last] = keptOf { c with faults := c.faults.tail } [last] := by
    unfold keptOf
    rw [hpushed.faults]
  unfold SameSeq Rebuilt
  rw [hkv, hperSeq, hkept, hpushed.kv]
  simp only [Function.update_self]
  have hlost := keptOf_eq_nil (c := { c with faults := c.faults.tail }) (List.cons_ne_nil last [])
  generalize hk : keptOf { c with faults := c.faults.tail } [last] = k at hlost ⊢
  have hkcases : k = [] ∨ k = [last] := by
    rw [← hk]
    unfold keptOf
    split
    · rename_i f _
      cases f.kept with
      | zero => exact .inl rfl
      | succ n => exact .inr (by simp)
    · exact .inr rfl
  unfold cutAt
  -- If the removal fails, the cells of the whole call stay.
  by_cases hremoves : p.removes (c.kv 0 ++ (pre ++ cands)) pre.length = true
  · rw [if_pos (.inr hremoves)]
    have hlen : ((c.kv 0 ++ (pre ++ cands)).take pre.length).length = pre.length := by
      rw [List.length_take, List.length_append, List.length_append]
      omega
    rw [hlen]
    -- The lengths say which of the two happened.
    constructor
    · rintro ⟨hcells, hnext⟩
      refine ⟨hworks, hremoves, hnext.symm, ?_⟩
      have hlengths := congrArg List.length hcells
      rw [List.length_append, hlen] at hlengths
      rcases hkcases with rfl | rfl
      · rw [List.length_nil] at hlengths
        exact .inl ⟨by omega, hlost.mp rfl⟩
      · rw [List.length_singleton] at hlengths
        refine .inr ⟨by omega, ?_, fun h => List.cons_ne_nil _ _ (hlost.mpr h)⟩
        rw [← hcells, List.getLast?_append, hlast]
        rfl
    · rintro ⟨-, -, hnext, ⟨hlen', hloses⟩ | ⟨hlen', hends, hkeeps⟩⟩
      · rw [hlost.mpr hloses, List.append_nil]
        exact ⟨List.take_left' hlen', hnext.symm⟩
      · rcases hkcases with rfl | rfl
        · exact absurd (hlost.mp rfl) hkeeps
        · refine ⟨?_, hnext.symm⟩
          rw [List.take_append_of_le_length (by omega)]
          rw [hlast] at hends
          obtain ⟨init, hinit⟩ := List.getLast?_eq_some_iff.mp hends
          rw [hinit, List.length_append, List.length_singleton] at hlen'
          rw [hinit, List.take_left' (by omega)]
  · rw [if_neg (by rintro (h | h); exacts [absurd h (by omega), hremoves h])]
    constructor
    -- the cells are more than before
    · rintro ⟨hcells, -⟩
      have hlengths := congrArg List.length hcells
      simp only [List.length_append] at hlengths
      omega
    · rintro ⟨-, h, -⟩
      exact absurd h hremoves

/-- **A verify call and seq 0.** -/
theorem verify_sameSeq_iff (c : Ctx Smp) (pre cands : List Token) (k : Nat) :
    SameSeq 0 c (verify p c pre cands k).2 ↔ Unmoved p c pre (cands.take k) := by
  unfold verify Unmoved
  generalize cands.take k = cands
  cases hlast : pre.getLast? with
  | none => exact ⟨fun _ => .inl (List.getLast?_eq_none_iff.mp hlast), fun _ => ⟨rfl, rfl⟩⟩
  | some last =>
    have hpre : pre ≠ [] := by
      rintro rfl
      exact nomatch hlast
    have hinput : pre ++ cands ≠ [] := fun h => hpre (List.append_eq_nil_iff.mp h).1
    dsimp only
    by_cases hrefused : Refused p (pre ++ cands)
    · obtain ⟨e, heq⟩ := forwardWithArgmax_refused (c := c) hinput hrefused
      rw [heq]
      exact ⟨fun _ => .inr (.inl (.inl hrefused)), fun _ => ⟨rfl, rfl⟩⟩
    · have hcheck : checkTokens p (pre ++ cands) = none := by
        by_contra hsome
        exact hrefused (.inr hsome)
      obtain ⟨hpushed, ⟨⟨preds, hok⟩, hworks⟩ | ⟨⟨e, herr⟩, hfails⟩⟩ :=
        forwardWithArgmax_pushed (c := c) hrefused
      · rw [hok]
        rw [hworks.kept] at hpushed
        dsimp only
        rw [rebuilt_iff hlast hcheck hworks hpushed]
        refine ⟨fun h => .inr (.inr h), ?_⟩
        rintro (h | (h | ⟨f, hf, -⟩) | h)
        · exact absurd h hpre
        · exact absurd h hrefused
        · exact absurd hf (hworks f)
        · exact h
      · rw [herr]
        dsimp only
        rw [hpushed.sameSeq, keptOf_eq_nil hinput]
        refine ⟨fun h => .inr (.inl (.inr h)), ?_⟩
        rintro (h | (h | h) | h)
        · exact absurd h hpre
        · exact absurd h hrefused
        · exact h
        · exact absurd h.1 hfails

/-- A verify call leaves the other sequences alone. -/
theorem verify_sameSeq_of_ne (c : Ctx Smp) (pre cands : List Token) (k : Nat) {q : SeqId}
    (hq : q ≠ 0) : SameSeq q c (verify p c pre cands k).2 := by
  unfold verify
  generalize cands.take k = cands
  cases hlast : pre.getLast? with
  | none => exact ⟨rfl, rfl⟩
  | some last =>
    have hmem : last ∈ pre := List.mem_of_getLast? hlast
    have hinput : pre ++ cands ≠ [] := List.ne_nil_of_mem (List.mem_append_left cands hmem)
    dsimp only
    by_cases hrefused : Refused p (pre ++ cands)
    · obtain ⟨e, heq⟩ := forwardWithArgmax_refused (c := c) hinput hrefused
      rw [heq]
      exact ⟨rfl, rfl⟩
    · have hcheck : checkTokens p (pre ++ cands) = none := by
        by_contra hsome
        exact hrefused (.inr hsome)
      obtain ⟨hpushed, ⟨⟨preds, hok⟩, -⟩ | ⟨⟨e, herr⟩, -⟩⟩ :=
        forwardWithArgmax_pushed (c := c) hrefused
      · rw [hok]
        obtain ⟨hkv, hperSeq⟩ := restoreAfterVerify_spec
          ((forwardWithArgmax p (pre ++ cands)).on c).2 pre.length
          (checkTokens_last (List.mem_append_left cands hmem) hcheck)
        unfold SameSeq
        dsimp only
        rw [hkv, hperSeq, Function.update_of_ne hq, Function.update_of_ne hq]
        exact hpushed.sameSeq_of_ne hq
      · rw [herr]
        exact hpushed.sameSeq_of_ne hq

/-! ### The process -/

open Model

variable {γ Sid : Type}

/-- The seq belongs to a request in flight or to a session. -/
def Live (d : Data (Llama Smp ε) γ Sid) (q : SeqId) : Prop :=
  d.reqTable.lookup q ≠ none ∨ ∃ s ∈ d.sessionSeq.values, s.seqId = q

/-- The cells and the tracked positions of the live sequences are the same. -/
def Untouched (d d' : Data (Llama Smp ε) γ Sid) : Prop :=
  ∀ q, Live d q → SameSeq q d.sys.ctx.ctx d'.sys.ctx.ctx

/-- An embed call leaves no cell behind: it embeds nothing, or its first list stops it. -/
def Unembedded (p : Params Row Smp) (c : Ctx Smp) : List (List Token) → Prop
  | []          => True
  | tokens :: _ => Undecoded p c tokens

/-- The verify or embed call that the process accepts leaves seq 0 as it was. -/
def Spares (p : Params Row Smp) (s : Proc (Llama Smp ε) γ Sid) : Event Sid → Prop
  | .verify _ pre cands k => s.phase = .idle → Unmoved p s.data.sys.ctx.ctx pre (cands.take k)
  | .embed _ tokens       => s.phase ≠ .stopped → Unembedded p s.data.sys.ctx.ctx [tokens]
  | .embedBatch _ lists   => s.phase ≠ .stopped → Unembedded p s.data.sys.ctx.ctx lists
  | _                     => True

/-- A verify or embed call. -/
def IsInspection : Event Sid → Prop
  | .verify _ _ _ _ => True
  | .embed _ _      => True
  | .embedBatch _ _ => True
  | _               => False

section Process

variable {parts : Parts ε} {env : Env (Llama Smp ε) γ} (hbe : env.be = llamaBackend p parts)
include hbe

/-- What the lists of an embed call leave behind in seq 0. -/
theorem embedEach_pushed (lists : List (List Token)) (acc : List (List ℚ))
    (d : Data (Llama Smp ε) γ Sid) :
    ∃ tokens, (embedEach env acc lists d).2.sys.ctx.ctx.kv
        = Function.update d.sys.ctx.ctx.kv 0 (d.sys.ctx.ctx.kv 0 ++ tokens) ∧
      (embedEach env acc lists d).2.sys.ctx.ctx.perSeq = d.sys.ctx.ctx.perSeq ∧
      (tokens = [] ↔ Unembedded p d.sys.ctx.ctx lists) := by
  induction lists generalizing acc d with
  | nil =>
    refine ⟨[], ?_, rfl, fun _ => trivial, fun _ => rfl⟩
    rw [List.append_nil, Function.update_eq_self]
    rfl
  | cons first rest ih =>
    have hembed : env.be.embed = some fun s tokens => onCtx (nifEmbed p tokens) s := by
      rw [hbe]
      rfl
    unfold embedEach
    rw [hembed]
    dsimp only
    by_cases hrefused : Refused p first
    · obtain ⟨e, heq⟩ := nifEmbed_refused (c := d.sys.ctx.ctx) hrefused
      refine ⟨[], ?_⟩
      unfold onCtx
      rw [heq, List.append_nil, Function.update_eq_self]
      exact ⟨rfl, rfl, fun _ => .inl hrefused, fun _ => rfl⟩
    · obtain ⟨hne, -⟩ := not_or.mp hrefused
      obtain ⟨hpushed, hworks⟩ := nifEmbed_pushed (c := d.sys.ctx.ctx) hrefused
      unfold onCtx
      rcases hres : (nifEmbed p first).on d.sys.ctx.ctx with ⟨res, c⟩
      rw [hres] at hpushed hworks
      cases res with
      | error e =>
        refine ⟨keptOf d.sys.ctx.ctx first, hpushed.kv, hpushed.perSeq, ?_⟩
        rw [keptOf_eq_nil hne]
        exact ⟨.inr, fun h => h.resolve_left hrefused⟩
      | ok v =>
        -- A list that was embedded stays, whatever follows.
        obtain ⟨tokens, hkv, hperSeq, -⟩ := ih (v :: acc)
          (withSys d { d.sys with ctx := { d.sys.ctx with ctx := c } })
        have hall := (hworks v rfl).kept first
        rw [hall] at hpushed
        refine ⟨first ++ tokens, ?_, hperSeq.trans hpushed.perSeq, ?_⟩
        · refine hkv.trans ?_
          show Function.update c.kv 0 (c.kv 0 ++ tokens) = _
          rw [hpushed.kv, Function.update_self, Function.update_idem, List.append_assoc]
        · constructor
          · exact fun h => absurd (List.append_eq_nil_iff.mp h).1 hne
          · rintro (h | ⟨f, hf, -⟩)
            · exact absurd h hrefused
            · exact absurd hf (hworks v rfl f)

/-- Embed calls touch no sequence but 0, and that one iff they decode. -/
theorem embedEach_untouched_iff (lists : List (List Token)) (d : Data (Llama Smp ε) γ Sid) :
    Untouched d (embedEach env [] lists d).2 ↔ (Live d 0 → Unembedded p d.sys.ctx.ctx lists) := by
  obtain ⟨tokens, hkv, hperSeq, hnil⟩ := embedEach_pushed hbe lists [] d
  rw [← hnil]
  unfold Untouched SameSeq
  rw [hkv, hperSeq]
  constructor
  · intro h hlive
    have hcells := (h 0 hlive).1
    rw [Function.update_self] at hcells
    exact List.append_right_eq_self.mp hcells
  · intro h q hlive
    by_cases hq : q = 0
    · subst hq
      rw [h hlive, List.append_nil, Function.update_self]
      exact ⟨rfl, rfl⟩
    · rw [Function.update_of_ne hq]
      exact ⟨rfl, rfl⟩

/-- Verify calls touch no sequence but 0. -/
theorem runVerify_untouched_iff (d : Data (Llama Smp ε) γ Sid) (pre cands : List Token) (k : Nat) :
    Untouched d (runVerify env d pre cands k).2 ↔
      (Live d 0 → Unmoved p d.sys.ctx.ctx pre (cands.take k)) := by
  have hctx : (runVerify env d pre cands k).2.sys.ctx.ctx
      = (verify p d.sys.ctx.ctx pre cands k).2 := by
    unfold runVerify
    rw [show env.be.verify = some fun s pre cands k =>
        ((verify p s.ctx pre cands k).1, { s with ctx := (verify p s.ctx pre cands k).2 }) by
      rw [hbe]; rfl]
    dsimp only
    split <;> rfl
  unfold Untouched
  rw [hctx]
  constructor
  · exact fun h hlive => (verify_sameSeq_iff _ pre cands k).mp (h 0 hlive)
  · intro h q hlive
    by_cases hq : q = 0
    · subst hq
      exact (verify_sameSeq_iff _ pre cands k).mpr (h hlive)
    · exact verify_sameSeq_of_ne _ pre cands k hq

variable [LinearOrder Sid]

/-- **Step lemma.** A call leaves the live sequences alone iff seq 0 is not one of them or the
    call spares it. -/
theorem step_untouched_iff (s : Proc (Llama Smp ε) γ Sid) {e : Event Sid} (h : IsInspection e) :
    Untouched s.data (step env s e).data ↔ (Live s.data 0 → Spares p s e) := by
  by_cases hstopped : s.phase = .stopped
  · rw [show step env s e = s from if_pos hstopped]
    refine ⟨fun _ _ => ?_, fun _ q _ => ⟨rfl, rfl⟩⟩
    cases e with
    | verify frm pre cands k => exact fun hidle => by rw [hstopped] at hidle; exact nomatch hidle
    | embed frm tokens => exact fun hlive => absurd hstopped hlive
    | embedBatch frm lists => exact fun hlive => absurd hstopped hlive
    | _ => exact h.elim
  · rw [show step env s e = handleEvent env s e from if_neg hstopped]
    cases e with
    | embed frm tokens =>
      have hcall := embedEach_untouched_iff hbe [tokens] s.data
      exact hcall.trans ⟨fun h hlive _ => h hlive, fun h hlive => h hlive hstopped⟩
    | embedBatch frm lists =>
      have hcall := embedEach_untouched_iff hbe lists s.data
      exact hcall.trans ⟨fun h hlive _ => h hlive, fun h hlive => h hlive hstopped⟩
    | verify frm pre cands k =>
      unfold handleEvent Spares
      dsimp only
      split
      case isTrue hidle =>
        have hcall := runVerify_untouched_iff hbe s.data pre cands k
        exact hcall.trans ⟨fun h hlive _ => h hlive, fun h hlive => h hlive hidle⟩
      case isFalse hbusy =>
        exact ⟨fun _ _ hidle => absurd hidle hbusy, fun _ q _ => ⟨rfl, rfl⟩⟩
    | _ => exact h.elim

end Process

/-! ### Runs -/

/-- The process over the llama.cpp backend. -/
def llamaEnv (p : Params Row Smp) (parts : Parts ε) (cache : CacheClient γ)
    (sha256 : Bytes → Digest) (cfg : Config) : Env (Llama Smp ε) γ where
  be := llamaBackend p parts
  cache := cache
  sha256 := sha256
  cfg := cfg

/-- A verify or embed call leaves the live sequences alone. -/
def LeavesLive [LinearOrder Sid] (env : Env (Llama Smp ε) γ) (s : Proc (Llama Smp ε) γ Sid)
    (e : Event Sid) : Prop :=
  IsInspection e → Untouched s.data (step env s e).data

/-- Seq 0 is not live, or the call spares it. -/
def SparesLive (p : Params Row Smp) (s : Proc (Llama Smp ε) γ Sid) (e : Event Sid) : Prop :=
  IsInspection e → Live s.data 0 → Spares p s e

/-- **Run theorem.** The verify and embed calls of a run leave the live sequences alone iff each
    finds seq 0 unused or spares it. -/
theorem run_untouched_iff [LinearOrder Sid] (p : Params Row Smp) (parts : Parts ε)
    (cache : CacheClient γ) (sha256 : Bytes → Digest) (cfg : Config) (ctx : Llama Smp ε)
    (world : γ) (events : List (Event Sid)) :
    let env := llamaEnv p parts cache sha256 cfg
    AllSteps (step env) (LeavesLive env) (init env ctx world) events ↔
      AllSteps (step env) (SparesLive p) (init env ctx world) events := by
  refine allSteps_congr (fun s e => ?_) _ events
  exact forall_congr' fun hcall => step_untouched_iff rfl s hcall

/-- Parts that do nothing. -/
def plainParts : Parts Unit where
  tokenize bytes := bytes.map UInt8.toNat
  detokenize := mapDetokenize
  thinkingSignature _ := []
  thinkingStart := []
  thinkingEnd := []
  mediaCaps := none
  specNew s _ := (.ok 0, s)
  specBegin s _ _ _ := (.ok (), s)
  specDraft s _ _ _ _ := (.ok [], s)
  specAccept s _ _ _ := s
  specFree s _ := s
  adapterLoad s _ _ := (.ok 0, s)
  adapterFree s _ := (.ok (), s)
  setAdapters s _ := (.ok (), s)
  newContext s := (.ok (), s)

/-- A small model in a process with one seq and no cached rows. -/
def countingEnv : Env (Llama Nat Unit) Unit :=
  llamaEnv countingParams plainParts (mapCache .empty) shortHash
    (mapEnv plainParams .empty 1).cfg

/-- Its start. -/
def countingProc : Proc (Llama Nat Unit) Unit Nat := init countingEnv ⟨newContext [], ()⟩ ()

/-- The first turn of a session runs to its end and pins seq 0. -/
def firstTurn : List (Event Nat) := [.request (shortRequest 0), .tick, .tick]

/-- The session's KV has two tokens and position 2.  A caller verifies, and its second token is
    another one, and the session's next turn decodes at position 1. -/
theorem firstTurn_touched :
    ¬ AllSteps (step countingEnv) (LeavesLive countingEnv) countingProc
      (firstTurn ++ [.verify 1 [65] [9] 1]) := by
  intro h
  have hlive : Live (run (step countingEnv) countingProc firstTurn).data 0 :=
    .inr (by decide +kernel)
  have hpos := (h.mid trivial 0 hlive).2
  exact absurd hpos (by decide +kernel)

end Erllama.Native
