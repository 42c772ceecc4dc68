import Erllama.Lib.Occurrence
import Erllama.Model.Finish
import Erllama.Model.MapBackend
import Erllama.Model.Notices

namespace Erllama.Model

open Lib

/-!
# Scanning for stop strings

A request with stop strings looks for them in what it generates, token by token.  A streaming
request sends all but a tail that may be the start of a match, and searches that tail and the
next chunk only.

* `binaryMatch_some`, `binaryMatch_none` — the search finds the leftmost match, and there the
  longest stop string.
* `chunks` — the text of the generated tokens, one chunk for each; `textOf` — the text sent.
* `Scans` — what one step of a life does to the scan.
* `Scanned` — the invariant of a streaming request.
* `life_streams` — whatever the chunks, what was sent is what is before the first match.
-/

variable {σ γ Sid : Type}

/-! ### The search -/

section Search

variable {stops : List Bytes} {buf : Bytes}

/-- A maximum over a list is one of its members, or what it started from. -/
theorem foldl_max_spec (l : List Nat) :
    l.foldl max 0 ∈ 0 :: l ∧ ∀ n ∈ 0 :: l, n ≤ l.foldl max 0 :=
  List.max?_eq_some_iff.mp List.max?_cons'

/-- Every stop string is at most as long as the longest. -/
theorem le_stopMaxLenOf {stop : Bytes} (h : stop ∈ stops) : stop.length ≤ stopMaxLenOf stops :=
  (foldl_max_spec _).2 _ (List.mem_cons_of_mem 0 (List.mem_map_of_mem h))

/-- The longest stop at a position is as long as any other there. -/
theorem le_stopLenAt {stop : Bytes} (h : stop ∈ stops) (hhere : stop <+: buf) :
    stop.length ≤ stopLenAt stops buf :=
  (foldl_max_spec _).2 _ (List.mem_cons_of_mem 0
    (List.mem_map_of_mem (List.mem_filter.mpr ⟨h, decide_eq_true hhere⟩)))

/-- A length that is not zero is that of a stop string at the head. -/
theorem of_stopLenAt (h : stopLenAt stops buf ≠ 0) :
    ∃ stop ∈ stops, stop <+: buf ∧ stop.length = stopLenAt stops buf := by
  unfold stopLenAt at h ⊢
  rcases List.mem_cons.mp (foldl_max_spec
    ((stops.filter fun stop => stop <+: buf).map List.length)).1 with hzero | hmem
  · exact absurd hzero h
  · obtain ⟨stop, hstop, hlen⟩ := List.mem_map.mp hmem
    obtain ⟨hin, hhere⟩ := List.mem_filter.mp hstop
    exact ⟨stop, hin, of_decide_eq_true hhere, hlen⟩

variable (hstops : ∀ stop ∈ stops, stop ≠ [])

include hstops

/-- Nothing at the head is no stop string at the head. -/
theorem stopLenAt_eq_zero : stopLenAt stops buf = 0 ↔ ∀ stop ∈ stops, ¬ stop <+: buf := by
  constructor
  · intro h stop hstop hhere
    have hle := le_stopLenAt hstop hhere
    exact hstops stop hstop (List.length_eq_zero_iff.mp (by omega))
  · intro h
    by_contra hne
    obtain ⟨stop, hstop, hhere, -⟩ := of_stopLenAt hne
    exact h stop hstop hhere

/-- No match is found iff there is none. -/
theorem binaryMatch_none : binaryMatch stops buf = none ↔ Free stops buf := by
  induction buf with
  | nil => exact iff_of_true rfl (.nil hstops)
  | cons b buf ih =>
    unfold binaryMatch
    split
    case isFalse hne =>
      refine iff_of_false nofun fun hfree => hne ?_
      exact (stopLenAt_eq_zero hstops).mpr (hfree 0)
    case isTrue hzero =>
      rw [Option.map_eq_none_iff, ih]
      have hhead := (stopLenAt_eq_zero hstops).mp hzero
      constructor
      · refine fun hfree => Free.of_drop (n := 1) ?_ hfree
        intro i hi stop hstop
        obtain rfl : i = 0 := by omega
        exact hhead stop hstop
      · exact fun hfree => hfree.drop 1

/-- **The search finds the leftmost match**, and there the longest stop string. -/
theorem binaryMatch_some {pos len : Nat} (h : binaryMatch stops buf = some (pos, len)) :
    Leftmost stops buf pos ((buf.drop pos).take len) := by
  induction buf generalizing pos with
  | nil => exact nomatch h
  | cons b buf ih =>
    unfold binaryMatch at h
    split at h
    case isTrue hzero =>
      obtain ⟨⟨pos', len'⟩, hfound, heq⟩ := Option.map_eq_some_iff.mp h
      cases heq
      have hhead := (stopLenAt_eq_zero hstops).mp hzero
      have hrest : Leftmost stops (b :: buf) (1 + pos') ((buf.drop pos').take len') := by
        refine .of_drop ?_ (ih hfound)
        intro i hi stop hstop
        obtain rfl : i = 0 := by omega
        exact hhead stop hstop
      rw [Nat.add_comm] at hrest
      exact hrest
    case isFalse hne =>
      cases h
      obtain ⟨stop, hstop, hhere, hlen⟩ := of_stopLenAt hne
      have htake : (b :: buf).take (stopLenAt stops (b :: buf)) = stop := by
        rw [← hlen]
        exact (List.prefix_iff_eq_take.mp hhere).symm
      rw [List.drop_zero, htake]
      refine ⟨hstop, hhere, fun i hi => absurd hi (Nat.not_lt_zero i),
        fun stop' hstop' hhere' => ?_⟩
      rw [hlen]
      exact le_stopLenAt hstop' hhere'

end Search

/-! ### Texts -/

/-- The text of tokens rendered one by one. -/
def chunks (env : Env σ γ) (tokens : List Token) : Bytes :=
  tokens.flatMap fun tok => env.be.detokenize [tok]

/-- The text among messages. -/
def textOf (out : List Out) : Bytes :=
  out.flatMap fun o => match o with
    | .send _ _ (.token text) => text
    | _                       => []

/-- The logprobs among messages. -/
def logprobsOf (out : List Out) : List LpMap :=
  out.filterMap fun o => match o with
    | .send _ _ (.logprobs m) => some m
    | _                       => none

/-- The text of two lists of tokens. -/
theorem chunks_append (env : Env σ γ) (ts ts' : List Token) :
    chunks env (ts ++ ts') = chunks env ts ++ chunks env ts' := List.flatMap_append

/-- The text of one token. -/
theorem chunks_singleton (env : Env σ γ) (tok : Token) :
    chunks env [tok] = env.be.detokenize [tok] := List.flatMap_singleton _ _

/-- The text of two lists of messages. -/
theorem textOf_append (out out' : List Out) : textOf (out ++ out') = textOf out ++ textOf out' :=
  List.flatMap_append

/-- The logprobs of two lists of messages. -/
theorem logprobsOf_append (out out' : List Out) :
    logprobsOf (out ++ out') = logprobsOf out ++ logprobsOf out' := List.filterMap_append

/-- A stream is sent its events. -/
theorem sendStream_out (s : Sys σ γ Sid) (r : Req Sid) (ev : StreamEvent) :
    (sendStream s r ev).out = s.out ++ noticesTo r.stream [ev] := by
  unfold sendStream
  cases hstream : r.stream with
  | none => exact (List.append_nil _).symm
  | some p => rfl

/-- A token is sent as its text to a stream, and to nobody without one. -/
theorem emitToken_out (s : Sys σ γ Sid) (r : Req Sid) (text : Bytes) (tok : Token) :
    ∃ out, (emitToken s r text tok).out = s.out ++ out ∧
      textOf out = (if r.stream.isSome then text else []) ∧ logprobsOf out = [] := by
  unfold emitToken
  dsimp only
  cases hstream : r.stream with
  | none =>
    refine ⟨[], ?_, rfl, rfl⟩
    rw [sendStream_out, hstream]
    split
    · rfl
    · rw [sendStream_out, hstream, List.append_assoc]
      rfl
  | some p =>
    by_cases htext : text = []
    · refine ⟨[.send p.1 p.2 (.tokenId tok)], ?_, htext.symm, rfl⟩
      rw [if_pos htext, sendStream_out, hstream]
      rfl
    · refine ⟨[.send p.1 p.2 (.token text), .send p.1 p.2 (.tokenId tok)], ?_, ?_, rfl⟩
      · rw [if_neg htext, sendStream_out, sendStream_out, hstream, List.append_assoc]
        rfl
      · exact List.append_nil text

/-! ### One chunk -/

/-- What the scan of a chunk reads: the stop strings, whether text is sent, and what is held
    back or matched so far. -/
structure Window where
  stops : List Bytes
  maxLen : Nat
  mode : Mode
  stream : Option (Pid × Ref)
  pending : Bytes
  matched : Option Bytes

/-- The window of a record. -/
def Req.window (r : Req Sid) : Window where
  stops := r.stopSequences
  maxLen := r.stopMaxLen
  mode := r.mode
  stream := r.stream
  pending := r.pendingText
  matched := r.matchedStop

/-- What is sent to a stream, if there is one. -/
def Window.sends (w : Window) (text : Bytes) : Bytes := if w.stream.isSome then text else []

/-- What a chunk does to a scan: the text that is sent for it, the match, and what is held back
    then. -/
inductive Takes (w : Window) (chunk : Bytes) : Bytes → Option Bytes → Bytes → Prop
  | plain (hstops : w.stops = []) : Takes w chunk (w.sends chunk) w.matched w.pending
  | hit {pos len} (hstops : w.stops ≠ [])
      (hmatch : binaryMatch w.stops (w.pending ++ chunk) = some (pos, len)) :
    Takes w chunk (w.sends ((w.pending ++ chunk).take pos))
      (some (((w.pending ++ chunk).drop pos).take len)) []
  | hold {n} (hstops : w.stops ≠ []) (hmode : w.mode = .streaming)
      (hmatch : binaryMatch w.stops (w.pending ++ chunk) = none)
      (hn : n = (w.pending ++ chunk).length - (w.maxLen - 1)) :
    Takes w chunk (w.sends ((w.pending ++ chunk).take n)) w.matched ((w.pending ++ chunk).drop n)
  | keep (hstops : w.stops ≠ []) (hmode : w.mode ≠ .streaming)
      (hmatch : binaryMatch w.stops (w.pending ++ chunk) = none) :
    Takes w chunk [] w.matched (w.pending ++ chunk)

/-- **`req_stream_emit/3`** scans one chunk and changes nothing else. -/
theorem reqStreamEmit_takes (env : Env σ γ) (s : Sys σ γ Sid) (r : Req Sid) (tok : Token) :
    ∃ out matched pending, (reqStreamEmit env s r tok).1 =
        { r with matchedStop := matched, pendingText := pending } ∧
      (reqStreamEmit env s r tok).2.out = s.out ++ out ∧ logprobsOf out = [] ∧
      Takes r.window (env.be.detokenize [tok]) (textOf out) matched pending := by
  unfold reqStreamEmit
  dsimp only
  by_cases hstops : r.stopSequences = []
  case pos =>
    rw [if_pos hstops]
    obtain ⟨out, hout, htext, hlp⟩ := emitToken_out s r (env.be.detokenize [tok]) tok
    exact ⟨out, _, _, rfl, hout, hlp, htext ▸ .plain hstops⟩
  case neg =>
    rw [if_neg hstops]
    cases hmatch : binaryMatch r.stopSequences (r.pendingText ++ env.be.detokenize [tok]) with
    | some found =>
      obtain ⟨pos, len⟩ := found
      obtain ⟨out, hout, htext, hlp⟩ := emitToken_out s r
        ((r.pendingText ++ env.be.detokenize [tok]).take pos) tok
      exact ⟨out, _, _, rfl, hout, hlp, htext ▸ .hit hstops hmatch⟩
    | none =>
      by_cases hmode : r.mode = .streaming
      case pos =>
        dsimp only
        rw [if_pos hmode]
        obtain ⟨out, hout, htext, hlp⟩ := emitToken_out s r
          ((r.pendingText ++ env.be.detokenize [tok]).take
            ((r.pendingText ++ env.be.detokenize [tok]).length - (r.stopMaxLen - 1))) tok
        exact ⟨out, _, _, rfl, hout, hlp, htext ▸ .hold hstops hmode hmatch rfl⟩
      case neg =>
        dsimp only
        rw [if_neg hmode]
        exact ⟨[], _, _, rfl, (List.append_nil _).symm, rfl, .keep hstops hmode hmatch⟩

/-! ### One step of a life -/

/-- The stream of the request, from its scan. -/
def Scan.stream (x : Scan) : Option (Pid × Ref) :=
  match x.mode, x.callerPid, x.requestRef with
  | .streaming, some pid, some ref => some (pid, ref)
  | _, _, _                        => none

/-- What ends a request other than its tokens: a cancel, a prefill that is all there is to do,
    or thinking that was not asked for. -/
def Req.Disturbed (r : Req Sid) : Prop :=
  r.cancelPending = true ∨ r.mode = .prefillOnly ∨ r.thinkingNotEnabled = true

/-- The system after messages without text or logprobs. -/
def Wordless (s s' : Sys σ γ Sid) : Prop :=
  ∃ out, s'.out = s.out ++ out ∧ textOf out = [] ∧ logprobsOf out = []

/-- Nothing was said. -/
theorem Wordless.refl (s : Sys σ γ Sid) : Wordless s s := ⟨[], (List.append_nil _).symm, rfl, rfl⟩

/-- Nor by one function after another. -/
theorem Wordless.trans {s s' s'' : Sys σ γ Sid} (h : Wordless s s') (h' : Wordless s' s'') :
    Wordless s s'' := by
  obtain ⟨out, hout, htext, hlp⟩ := h
  obtain ⟨out', hout', htext', hlp'⟩ := h'
  refine ⟨out ++ out', by rw [hout', hout, List.append_assoc], ?_, ?_⟩
  · rw [textOf_append, htext, htext']
    rfl
  · rw [logprobsOf_append, hlp, hlp']
    rfl

/-- A function that sends nothing says nothing. -/
theorem SameMail.wordless {s s' : Sys σ γ Sid} (h : SameMail s s') : Wordless s s' :=
  ⟨[], by rw [h.out, List.append_nil], rfl, rfl⟩

/-- Events that are neither text nor logprobs. -/
theorem sendStream_wordless (s : Sys σ γ Sid) (r : Req Sid) {ev : StreamEvent}
    (htext : ∀ pid ref, textOf [.send pid ref ev] = [])
    (hlp : ∀ pid ref, logprobsOf [.send pid ref ev] = []) :
    Wordless s (sendStream s r ev) := by
  refine ⟨noticesTo r.stream [ev], sendStream_out s r ev, ?_⟩
  cases r.stream with
  | none => exact ⟨rfl, rfl⟩
  | some p => exact ⟨htext p.1 p.2, hlp p.1 p.2⟩

section Steps

variable (env : Env σ γ) (d : Data σ γ Sid) (s : Sys σ γ Sid) (r : Req Sid)

/-- A save does not touch the scan. -/
theorem creditSave_scan (fired : Bool) (tokens : List Token) :
    (creditSave fired r tokens).scan = r.scan := by
  cases fired <;> rfl

/-- Nor does the continued save. -/
theorem maybeFireContinuedForReq_scan : (maybeFireContinuedForReq env d r).1.scan = r.scan := by
  unfold maybeFireContinuedForReq
  split
  · rfl
  · dsimp only
    split
    · exact creditSave_scan r _ _
    · rfl

/-- Nor does a prefilled slice. -/
theorem prefilledResult_scan (slice : List Token) :
    (prefilledResult env d r slice).1.scan = r.scan := by
  unfold prefilledResult
  dsimp only
  split
  · unfold maybeFireColdSave
    split
    · rfl
    · rfl
    · dsimp only
      split
      · unfold fireAgentPrefixSave
        dsimp only
        split <;> rfl
      · exact creditSave_scan _ _ _
  · rfl

/-- A prefilled slice says nothing. -/
theorem prefilledResult_wordless (slice : List Token) :
    Wordless d.sys (prefilledResult env d r slice).2 := by
  unfold prefilledResult
  dsimp only
  split
  · exact (maybeFireColdSave_mail env d _).1.wordless
  · exact .refl _

/-- The end of the thinking says nothing. -/
theorem reqThinkingEnd_scan :
    (reqThinkingEnd env s r).1.scan = r.scan ∧ Wordless s (reqThinkingEnd env s r).2 := by
  unfold reqThinkingEnd
  split
  · exact ⟨rfl, .refl s⟩
  · exact ⟨rfl, sendStream_wordless s r (fun _ _ => rfl) fun _ _ => rfl⟩

/-- Nor does the cap on it. -/
theorem maybeCapThinking_scan :
    (maybeCapThinking env s r).1.scan = r.scan ∧ Wordless s (maybeCapThinking env s r).2 := by
  unfold maybeCapThinking
  split
  · exact ⟨rfl, .refl s⟩
  · split
    · exact ⟨rfl, .refl s⟩
    · exact ⟨rfl, sendStream_wordless s r (fun _ _ => rfl) fun _ _ => rfl⟩

/-- A thinking token is no part of the text; one that was not asked for ends the request. -/
theorem reqThinkingEmit_scan (tok : Token) :
    ((reqThinkingEmit env s r tok).1.scan = r.scan ∨
        (reqThinkingEmit env s r tok).1.scan =
          { r.scan with finishing := true, refused := true }) ∧
      Wordless s (reqThinkingEmit env s r tok).2 := by
  unfold reqThinkingEmit
  split
  · refine ⟨.inr rfl, ?_⟩
    unfold failThinkingDisabled
    split
    · exact ⟨[_, _], List.append_assoc s.out [_] [_], rfl, rfl⟩
    · exact .refl s
  · split
    · dsimp only
      split
      · exact ⟨.inl rfl, .refl s⟩
      · have hsent := sendStream_wordless s
          { r with thinkingBytes := r.thinkingBytes ++ env.be.detokenize [tok] }
          (fun _ _ => rfl : ∀ pid ref, textOf [.send pid ref
            (.thinking (env.be.detokenize [tok]))] = []) fun _ _ => rfl
        obtain ⟨hscan, hcap⟩ := maybeCapThinking_scan env
          (sendStream s { r with thinkingBytes := r.thinkingBytes ++ env.be.detokenize [tok] }
            (.thinking (env.be.detokenize [tok])))
          { r with
            thinkingBytes := r.thinkingBytes ++ env.be.detokenize [tok]
            thinkingCount := r.thinkingCount + 1 }
        exact ⟨.inl hscan, hsent.trans hcap⟩
    · exact ⟨.inl rfl, .refl s⟩

end Steps

/-- The tokens among results, with their end marks and logprobs. -/
def sampledOf (fed : List (Op × StepResult)) : List (Token × Bool × Option LpPayload) :=
  fed.filterMap fun row => match row.2 with
    | .token tok eog lp => some (tok, eog, lp)
    | _                 => none

/-- The logprobs that come with a token. -/
def lpMaps (tok : Token) (lp : Option LpPayload) : List LpMap :=
  lp.toList.map fun p => ⟨tok, p.sampled, p.top⟩

/-- What one step of a life does to the scan of a request: nothing but marks, or one token. -/
inductive Scans (env : Env σ γ) (r : Req Sid) (t : Story σ Sid) (r' : Req Sid) : Prop
  | silent {f c n} (hscan : r'.scan = { r.scan with finishing := f, cancelled := c, refused := n })
      (hfin : f = r.finishing ∨ f = true ∧ r'.Disturbed) (hdist : r.Disturbed → r'.Disturbed)
      (hrefused : n = r.thinkingNotEnabled ∨ ∃ op tok, t.fed = [(op, .thinkingToken tok)])
      (hfed : sampledOf t.fed = []) (htext : textOf t.out = []) (hlp : logprobsOf t.out = [])
  | token {tok eog lp matched pending logprobs f} (hgoes : r.finishing = false)
      (htakes : Takes r.window (env.be.detokenize [tok]) (textOf t.out) matched pending)
      (hscan : r'.scan = { r.scan with
        generated := r.generated ++ [tok]
        matched := matched
        pending := pending
        logprobs := logprobs
        finishing := f })
      (hfin : f = true ↔ eog = true ∨ r.responseTarget ≤ (r.generated ++ [tok]).length ∨
        matched.isSome = true)
      (hfed : sampledOf t.fed = [(tok, eog, lp)] ∨ ∃ op, t.fed = [(op, .thinkingToken tok)])
      (hstandard : r.mode = .standard → logprobs = lpMaps tok lp ++ r.logprobsAcc)
      (hstream : r.stream.isSome = true → logprobsOf t.out = lpMaps tok lp)

/-- A request stays disturbed. -/
theorem Req.Disturbed.of_scan {r r' : Req Sid} (h : r.Disturbed)
    (hcancel : r.cancelPending = true → r'.cancelPending = true) (hmode : r'.mode = r.mode)
    (hrefused : r.thinkingNotEnabled = true → r'.thinkingNotEnabled = true) : r'.Disturbed := by
  rcases h with h | h | h
  · exact .inl (hcancel h)
  · exact .inr (.inl (hmode.trans h))
  · exact .inr (.inr (hrefused h))

section Token

variable {env : Env σ γ} {d : Data σ γ Sid} {r : Req Sid} {tok : Token} {eog : Bool}

/-- The `token` clause: one chunk is scanned, and the request is done or goes on. -/
theorem tokenResult_takes (env : Env σ γ) (d : Data σ γ Sid) {r : Req Sid} (tok : Token)
    (eog : Bool) (hgoes : r.finishing = false) :
    ∃ out matched pending f, (tokenResult env d r tok eog).1.scan =
        { r.scan with
          generated := r.generated ++ [tok]
          matched := matched
          pending := pending
          finishing := f } ∧
      (tokenResult env d r tok eog).2.out = d.sys.out ++ out ∧ logprobsOf out = [] ∧
      Takes r.window (env.be.detokenize [tok]) (textOf out) matched pending ∧
      (f = true ↔ eog = true ∨ r.responseTarget ≤ (r.generated ++ [tok]).length ∨
        matched.isSome = true) := by
  obtain ⟨out, matched, pending, hrec, hout, hlp, htakes⟩ :=
    reqStreamEmit_takes env d.sys (reqAppendToken r tok) tok
  unfold tokenResult
  dsimp only
  generalize reqStreamEmit env d.sys (reqAppendToken r tok) tok = emitted at hrec hout ⊢
  obtain ⟨r₁, s₁⟩ := emitted
  dsimp only at hrec hout ⊢
  subst hrec
  split
  case isTrue hdone =>
    exact ⟨out, matched, pending, true, rfl, hout, hlp, htakes, iff_of_true rfl hdone⟩
  case isFalse hnot =>
    refine ⟨out, matched, pending, false, ?_, ?_, hlp, htakes, iff_of_false nofun hnot⟩
    · rw [maybeFireContinuedForReq_scan, ← hgoes]
      rfl
    · rw [(maybeFireContinuedForReq_mail env _ _).1.out]
      exact hout

/-- One token: its text is scanned with what was held back. -/
theorem tokenResult_scans {t : Story σ Sid} (hgoes : r.finishing = false)
    (hfed : sampledOf t.fed = [(tok, eog, none)] ∨
      eog = false ∧ ∃ op, t.fed = [(op, .thinkingToken tok)])
    (hout : (tokenResult env d r tok eog).2.out = d.sys.out ++ t.out) :
    Scans env r t (tokenResult env d r tok eog).1 := by
  obtain ⟨out, matched, pending, f, hscan, hsent, hlp, htakes, hfin⟩ :=
    tokenResult_takes env d tok eog hgoes
  obtain rfl : t.out = out := List.append_cancel_left (hout.symm.trans hsent)
  exact .token hgoes htakes hscan hfin (hfed.imp_right And.right) (fun _ => rfl)
    fun _ => hlp

/-- A stream has the streaming mode. -/
theorem not_stream {r : Req Sid} (hmode : r.mode ≠ .streaming) : ¬ r.stream.isSome = true := by
  unfold Req.stream
  split
  case h_1 h _ _ => exact absurd h hmode
  case h_2 => exact Bool.false_ne_true

/-- A logprobs payload goes to the stream or to the accumulator. -/
theorem reqLogprobs_delivers (s : Sys σ γ Sid) (r : Req Sid) (tok : Token) (p : LpPayload) :
    ∃ logprobs out, (reqLogprobs s r ⟨tok, p.sampled, p.top⟩).1
        = { r with logprobsAcc := logprobs } ∧
      (reqLogprobs s r ⟨tok, p.sampled, p.top⟩).2.out = s.out ++ out ∧ textOf out = [] ∧
      (r.mode = .standard → logprobs = lpMaps tok (some p) ++ r.logprobsAcc) ∧
      (r.stream.isSome = true → logprobsOf out = lpMaps tok (some p)) := by
  unfold reqLogprobs
  split
  case h_1 hmode =>
    refine ⟨r.logprobsAcc, noticesTo r.stream [.logprobs ⟨tok, p.sampled, p.top⟩], rfl,
      sendStream_out _ _ _, ?_, fun h => (by rw [hmode] at h; exact nomatch h), ?_⟩
    · cases r.stream <;> rfl
    · intro hsome
      obtain ⟨x, hx⟩ := Option.isSome_iff_exists.mp hsome
      rw [hx]
      rfl
  case h_2 hmode =>
    refine ⟨_, [], rfl, (List.append_nil _).symm, rfl, fun _ => rfl, fun hsome => ?_⟩
    exact absurd hsome (not_stream (by rw [hmode]; exact nofun))
  case h_3 hmode =>
    refine ⟨r.logprobsAcc, [], rfl, (List.append_nil _).symm, rfl,
      fun h => (by rw [hmode] at h; exact nomatch h), fun hsome => ?_⟩
    exact absurd hsome (not_stream (by rw [hmode]; exact nofun))

/-- The same with a logprobs payload, which goes its own way. -/
theorem tokenLpResult_scans {t : Story σ Sid} {lp : Option LpPayload} (hgoes : r.finishing = false)
    (hfed : sampledOf t.fed = [(tok, eog, lp)])
    (hout : (tokenLpResult env d r tok eog lp).2.out = d.sys.out ++ t.out) :
    Scans env r t (tokenLpResult env d r tok eog lp).1 := by
  cases lp with
  | none => exact tokenResult_scans hgoes (.inl hfed) hout
  | some p =>
    unfold tokenLpResult at hout ⊢
    dsimp only at hout ⊢
    obtain ⟨logprobs, outl, hrec, houtl, htextl, hstandard, hstream⟩ :=
      reqLogprobs_delivers d.sys r tok p
    generalize reqLogprobs d.sys r ⟨tok, p.sampled, p.top⟩ = delivered at hrec houtl hout ⊢
    obtain ⟨r₁, s₁⟩ := delivered
    dsimp only at hrec houtl hout ⊢
    subst hrec
    obtain ⟨out, matched, pending, f, hscan, hsent, hlp, htakes, hfin⟩ :=
      tokenResult_takes env (withSys d s₁) (r := { r with logprobsAcc := logprobs }) tok eog hgoes
    have hwhole : t.out = outl ++ out := by
      have heq : d.sys.out ++ t.out = d.sys.out ++ (outl ++ out) := by
        rw [← hout, hsent, ← List.append_assoc, ← houtl]
        rfl
      exact List.append_cancel_left heq
    have htext : textOf t.out = textOf out := by
      rw [hwhole, textOf_append, htextl, List.nil_append]
    rw [← htext] at htakes
    refine .token hgoes htakes hscan hfin (.inl hfed) hstandard fun hsome => ?_
    rw [hwhole, logprobsOf_append, hlp, List.append_nil]
    exact hstream hsome

/-- A function that says nothing sent no text. -/
theorem Wordless.said {s s' : Sys σ γ Sid} {out : List Out} (h : Wordless s s')
    (hout : s'.out = s.out ++ out) : textOf out = [] ∧ logprobsOf out = [] := by
  obtain ⟨out', hout', hsaid⟩ := h
  obtain rfl : out = out' := List.append_cancel_left (hout.symm.trans hout')
  exact hsaid

/-- The same scan, and nothing said. -/
theorem scans_of_same {t : Story σ Sid} {r' : Req Sid} (hscan : r'.scan = r.scan)
    (hfed : sampledOf t.fed = []) (htext : textOf t.out = []) (hlp : logprobsOf t.out = []) :
    Scans env r t r' := by
  refine .silent hscan (.inl rfl) (fun h => h.of_scan ?_ ?_ ?_) (.inl rfl) hfed htext hlp
  · exact (congrArg Scan.cancelled hscan).trans
  · exact congrArg Scan.mode hscan
  · exact (congrArg Scan.refused hscan).trans

/-- **What a step of a life does** to the scan. -/
theorem LifeStep.scans {t : Story σ Sid} {r' : Req Sid} (h : LifeStep env r t r') :
    Scans env r t r' := by
  cases h with
  | @rest r' hcourse hcancel =>
    have hfield : ∀ {β} (f : Req Sid → β), (∀ r, f r.course = f r) → f r' = f r :=
      fun f hf => by rw [← hf r', ← hf r, hcourse]
    have hscan : r'.scan = { r.scan with cancelled := r'.cancelPending } :=
      hfield (fun r₁ => { r₁.scan with cancelled := r'.cancelPending }) fun _ => rfl
    refine .silent hscan (.inl rfl) (fun h => h.of_scan hcancel ?_ ?_) (.inl rfl) rfl rfl rfl
    · exact hfield Req.mode fun _ => rfl
    · exact (hfield Req.thinkingNotEnabled fun _ => rfl).trans
  | stopped h =>
    refine .silent rfl (.inr ⟨rfl, ?_⟩) (fun h => h) (.inl rfl) rfl rfl rfl
    rcases h with h | h
    · exact .inl h
    · exact .inr (.inl h)
  | @result d op res after out saves hfin hrow hres hout hlog =>
    unfold stepResult at hres
    split at hres
    case h_1 slice =>
      cases hres
      obtain ⟨htext, hlp⟩ := (prefilledResult_wordless env d r slice).said hout
      exact scans_of_same (prefilledResult_scan env d r slice) rfl htext hlp
    case h_2 ref tok eog lp =>
      cases hres
      exact tokenLpResult_scans hfin rfl hout
    case h_3 ref tok =>
      split at hres
      · cases hres
        exact tokenResult_scans hfin (.inr ⟨rfl, _, rfl⟩) hout
      · cases hres
        obtain ⟨hscan, hwords⟩ := reqThinkingEmit_scan env d.sys r tok
        obtain ⟨htext, hlp⟩ := hwords.said hout
        rcases hscan with hscan | hscan
        · exact scans_of_same hscan rfl htext hlp
        · have hrefused := congrArg Scan.refused hscan
          exact .silent hscan (.inr ⟨rfl, .inr (.inr hrefused)⟩) (fun _ => .inr (.inr hrefused))
            (.inr ⟨_, tok, rfl⟩) rfl htext hlp
    case h_4 ref =>
      cases hres
      obtain ⟨hscan, hwords⟩ := reqThinkingEnd_scan env d.sys r
      obtain ⟨htext, hlp⟩ := hwords.said hout
      exact scans_of_same hscan rfl htext hlp
    case h_5 => exact nomatch hres
  | committed hfin hrow hout hlog => exact tokenResult_scans hfin (.inl rfl) hout
  | @saved d reason saves hreason hsome hlog =>
    refine scans_of_same ?_ rfl rfl rfl
    cases (fireSaveIf env d true reason r.contextTokens r).1 <;> rfl

end Token

/-! ### Whole lives -/

/-- An admission path leaves the scan as it was prepared. -/
theorem Begins.scan {env : Env σ γ} {r r₀ : Req Sid} (h : Begins env r r₀) : r₀.scan = r.scan := by
  cases h <;> rfl

/-- No stop string is empty. -/
theorem ne_nil_of_mem_stops {gen : GenOpts} {stop : Bytes} (h : stop ∈ stopSequencesFrom gen) :
    stop ≠ [] := of_decide_eq_true (List.mem_filter.mp h).2

/-- A match that was found at the last of the generated tokens, and what was sent before it. -/
def FoundAt (env : Env σ γ) (stops : List Bytes) (generated : List Token) (sent p : Bytes) :
    Prop :=
  ∃ init tok pos, generated = init ++ [tok] ∧ Free stops (chunks env init) ∧
    Leftmost stops (chunks env generated) pos p ∧ sent = (chunks env generated).take pos

/-- The scan of a streaming request: it searches, and holds back what may start a match; or it
    has found one, and is done. -/
structure Scanned (env : Env σ γ) (stops : List Bytes) (dest : Pid × Ref) (t : Story σ Sid)
    (r : Req Sid) : Prop where
  given : r.stopSequences = stops
  longest : r.stopMaxLen = stopMaxLenOf stops
  live : r.stream = some dest
  searching : r.matchedStop = none →
    Held stops (stopMaxLenOf stops - 1) (chunks env r.generated) (textOf t.out) r.pendingText
  found : ∀ p, r.matchedStop = some p → r.finishing = true ∧ r.pendingText = [] ∧
    FoundAt env stops r.generated (textOf t.out) p

section Lives

variable {env : Env σ γ} {stops : List Bytes} {dest : Pid × Ref} {t t' : Story σ Sid}
  {r r' : Req Sid}

/-- **Step lemma.** -/
theorem Scans.scanned (h : Scans env r t' r') (hstops : ∀ stop ∈ stops, stop ≠ [])
    (hr : Scanned env stops dest t r) : Scanned env stops dest (t.andThen t') r' := by
  obtain ⟨hstopsEq, hmaxLen, hstream, hsearching, hfound⟩ := hr
  have hlen : ∀ stop ∈ stops, stop.length ≤ stopMaxLenOf stops - 1 + 1 := by
    intro stop hstop
    have hle := le_stopMaxLenOf hstop
    omega
  have hout : textOf (t.andThen t').out = textOf t.out ++ textOf t'.out := textOf_append _ _
  cases h with
  -- Only marks changed: the text and what was sent are as before.
  | @silent f c n hscan hfin hdist hrefused hfed htext hlp =>
    have hgen : r'.generated = r.generated := congrArg Scan.generated hscan
    have hpending : r'.pendingText = r.pendingText := congrArg Scan.pending hscan
    have hmatched : r'.matchedStop = r.matchedStop := congrArg Scan.matched hscan
    rw [htext, List.append_nil] at hout
    constructor
    · exact (congrArg Scan.stops hscan).trans hstopsEq
    · exact (congrArg Scan.maxLen hscan).trans hmaxLen
    · rwa [show r'.stream = r.stream from congrArg Scan.stream hscan]
    · rwa [hmatched, hgen, hpending, hout]
    · intro p hp
      obtain ⟨hdone, hnil, hat⟩ := hfound p (hmatched ▸ hp)
      refine ⟨?_, hpending.trans hnil, by rwa [hgen, hout]⟩
      rw [show r'.finishing = f from congrArg Scan.finishing hscan]
      rcases hfin with rfl | ⟨rfl, -⟩
      · exact hdone
      · rfl
  | @token tok eog lp matched pending logprobs f hgoes htakes hscan hfin hfed hstandard hlps =>
    -- the request was still searching
    have hnone : r.matchedStop = none := by
      cases hm : r.matchedStop with
      | none => rfl
      | some p =>
        rw [(hfound p hm).1] at hgoes
        exact nomatch hgoes
    have hheld := hsearching hnone
    have hgen : r'.generated = r.generated ++ [tok] := congrArg Scan.generated hscan
    have hpending : r'.pendingText = pending := congrArg Scan.pending hscan
    have hmatched : r'.matchedStop = matched := congrArg Scan.matched hscan
    -- One more chunk is behind the text, and the window is on what was held back.
    have hchunks : chunks env r'.generated = chunks env r.generated ++ env.be.detokenize [tok] := by
      rw [hgen, chunks_append, chunks_singleton]
    have hstreaming : r.mode = .streaming := by
      by_contra hmode
      exact not_stream hmode (by rw [hstream]; rfl)
    have hsends : ∀ text, r.window.sends text = text := fun text =>
      if_pos (show r.stream.isSome = true by rw [hstream]; rfl)
    have hrest : (matched = none → Held stops (stopMaxLenOf stops - 1) (chunks env r'.generated)
          (textOf t.out ++ textOf t'.out) pending) ∧
        ∀ p, matched = some p → pending = [] ∧ FoundAt env stops r'.generated
          (textOf t.out ++ textOf t'.out) p := by
      rw [hchunks]
      generalize textOf t'.out = text at htakes
      cases htakes with
      | plain hnil =>
        -- without stop strings nothing is held back
        have hempty : stops = [] := hstopsEq.symm.trans hnil
        subst hempty
        rw [hsends]
        refine ⟨fun _ => ?_, fun p hp => absurd (hnone.symm.trans hp) nofun⟩
        obtain ⟨-, hsent, hpend⟩ := hheld
        have hall : (chunks env r.generated).length - (stopMaxLenOf [] - 1)
            = (chunks env r.generated).length := rfl
        rw [hall, List.take_length] at hsent
        rw [hall, List.drop_length] at hpend
        refine ⟨fun _ p hp => absurd hp List.not_mem_nil, ?_, ?_⟩
        · rw [hsent]
          exact (List.take_length).symm
        · rw [show r.window.pending = [] from hpend]
          exact (List.drop_length).symm
      | @hit pos len hne hmatch =>
        rw [hsends]
        refine ⟨nofun, fun p hp => ⟨rfl, ?_⟩⟩
        cases hp
        rw [show r.window.stops = stops from hstopsEq] at hmatch
        obtain ⟨hleft, hsent⟩ := hheld.hit hlen (binaryMatch_some hstops hmatch)
        rw [← hchunks] at hleft hsent
        exact ⟨r.generated, tok, _, hgen, hheld.free, hleft, hsent⟩
      | @hold n hne hmode hmatch hn =>
        rw [hsends, hn, show r.window.maxLen = stopMaxLenOf stops from hmaxLen]
        refine ⟨fun _ => ?_, fun p hp => absurd (hnone.symm.trans hp) nofun⟩
        rw [show r.window.stops = stops from hstopsEq] at hmatch
        exact hheld.miss hlen ((binaryMatch_none hstops).mp hmatch)
      | keep hne hmode hmatch => exact absurd hstreaming hmode
    constructor
    · exact (congrArg Scan.stops hscan).trans hstopsEq
    · exact (congrArg Scan.maxLen hscan).trans hmaxLen
    · rwa [show r'.stream = r.stream from congrArg Scan.stream hscan]
    · rw [hmatched, hpending, hout]
      exact hrest.1
    · intro p hp
      rw [hmatched] at hp
      rw [hpending, hout]
      refine ⟨?_, hrest.2 p hp⟩
      rw [show r'.finishing = f from congrArg Scan.finishing hscan]
      exact hfin.mpr (.inr (.inr (by rw [hp]; rfl)))

/-- The invariant at admission. -/
theorem scanned_start {gen : GenOpts} {pid : Pid} {ref : Ref} {r₀ : Req Sid}
    (h : r₀.scan = gen.scan .streaming (some pid) (some ref)) :
    Scanned env (stopSequencesFrom gen) (pid, ref) (.start : Story σ Sid) r₀ := by
  have hgen : r₀.generated = [] := congrArg Scan.generated h
  have hpending : r₀.pendingText = [] := congrArg Scan.pending h
  have hmatched : r₀.matchedStop = none := congrArg Scan.matched h
  constructor
  · exact congrArg Scan.stops h
  · exact congrArg Scan.maxLen h
  · exact congrArg Scan.stream h
  · intro _
    rw [hgen, hpending]
    exact .start (fun stop hstop => ne_nil_of_mem_stops hstop) _
  · intro p hp
    rw [hmatched] at hp
    exact nomatch hp

/-- **Invariant.** What was sent and what is held back make up the text all along. -/
theorem life_scanned {gen : GenOpts} {pid : Pid} {ref : Ref} {r₀ : Req Sid}
    (h₀ : r₀.scan = gen.scan .streaming (some pid) (some ref))
    (hlife : Life env Story.free r₀ t r) : Scanned env (stopSequencesFrom gen) (pid, ref) t r :=
  hlife.invariant (scanned_start h₀) fun hr _ hstep =>
    hstep.scans.scanned (fun _ hstop => ne_nil_of_mem_stops hstop) hr

end Lives

/-! ### The end -/

section Finish

variable (env : Env σ γ)

/-- The save at the end does not touch the scan. -/
theorem finishSave_scan (d : Data σ γ Sid) (r : Req Sid) :
    (finishSave env d r).2.1.scan = r.scan := by
  unfold finishSave
  dsimp only
  split <;> rfl

/-- The end of a stream: what was held back, and the stats. -/
def closing (pid : Pid) (ref : Ref) (pending : Bytes) (stats : Stats) : List Out :=
  (if pending = [] then [] else [.send pid ref (.token pending)]) ++
    [.unregister ref, .send pid ref (.done stats)]

/-- The end of a stream brings what was held back. -/
theorem textOf_closing (pid : Pid) (ref : Ref) (pending : Bytes) (stats : Stats) :
    textOf (closing pid ref pending stats) = pending := by
  unfold closing
  rw [textOf_append]
  by_cases hnil : pending = []
  · rw [if_pos hnil, hnil]
    rfl
  · rw [if_neg hnil]
    show (pending ++ []) ++ [] = pending
    rw [List.append_nil, List.append_nil]

/-- It ends with the done message. -/
theorem done_mem_closing (pid : Pid) (ref : Ref) (pending : Bytes) (stats : Stats) :
    .send pid ref (.done stats) ∈ closing pid ref pending stats :=
  List.mem_append_right _ (List.mem_cons_of_mem _ List.mem_cons_self)

/-- The end of a stream is its closing messages, with the stop it was cut at. -/
theorem announceFinish_stream (d : Data σ γ Sid) {r : Req Sid} {pid : Pid} {ref : Ref}
    (hstream : r.stream = some (pid, ref)) (hrefused : r.thinkingNotEnabled = false) :
    ∃ stats, (announceFinish env d r).out = d.sys.out ++ closing pid ref r.pendingText stats ∧
      stats.generated = r.generated ∧ stats.finishReason = finishReasonOf r ∧
      stats.stopSequence = r.matchedStop := by
  have hscan := finishSave_scan env d r
  have hmail := (finishSave_mail env d r).1.out
  unfold announceFinish
  dsimp only
  rw [(releaseSampler_mail env _ _).out, ← hmail]
  generalize finishSave env d r = saved at hscan
  obtain ⟨key, r₁, s⟩ := saved
  dsimp only at hscan ⊢
  have hstream₁ : r₁.stream = some (pid, ref) := (congrArg Scan.stream hscan).trans hstream
  have hmode : r₁.mode = .streaming := by
    by_contra hmode
    exact not_stream hmode (by rw [hstream₁]; rfl)
  have hpending : r₁.pendingText = r.pendingText := congrArg Scan.pending hscan
  refine ⟨buildStatsForReq (finishReasonOf r) key r₁, ?_, congrArg Scan.generated hscan, rfl,
    congrArg Scan.matched hscan⟩
  unfold finishAction sendDoneForReq closing
  rw [hmode, show r₁.thinkingNotEnabled = false from (congrArg Scan.refused hscan).trans hrefused,
    hstream₁, ← hpending]
  by_cases hnil : r₁.pendingText = []
  · simp [Sys.emit, hnil]
  · simp [Sys.emit, hnil]

end Finish

/-- The end of the stream, unless an error ended it before: the text it still brings, and the
    stop string it reports. -/
def Closes (env : Env σ γ) (r : Req Sid) (pid : Pid) (ref : Ref) (text : Bytes)
    (stop : Option Bytes) : Prop :=
  r.thinkingNotEnabled = false → ∀ d : Data σ γ Sid, ∃ out stats,
    (announceFinish env d r).out = d.sys.out ++ out ∧ textOf out = text ∧
      .send pid ref (.done stats) ∈ out ∧ stats.stopSequence = stop

/-- **A stream is cut at the first stop string**, however its text is cut into chunks.  With a
    match, it was found at the first token at which there is one, what was sent is what is
    before it, and nothing follows.  Without one, what was sent is before any match that may
    still come, and the end brings the rest. -/
theorem life_streams {env : Env σ γ} {gen : GenOpts} {pid : Pid} {ref : Ref} {r₀ r : Req Sid}
    {t : Story σ Sid} (h₀ : r₀.scan = gen.scan .streaming (some pid) (some ref))
    (hlife : Life env Story.free r₀ t r) :
    (∀ pos p, Leftmost (stopSequencesFrom gen) (chunks env r.generated) pos p →
      (∃ init tok, r.generated = init ++ [tok] ∧ Free (stopSequencesFrom gen) (chunks env init)) ∧
      r.finishing = true ∧ textOf t.out = (chunks env r.generated).take pos ∧
      Closes env r pid ref [] (some p)) ∧
    (Free (stopSequencesFrom gen) (chunks env r.generated) →
      (∀ c pos p, Leftmost (stopSequencesFrom gen) (chunks env r.generated ++ c) pos p →
        textOf t.out <+: (chunks env r.generated ++ c).take pos) ∧
      ∃ tail, textOf t.out ++ tail = chunks env r.generated ∧ Closes env r pid ref tail none) := by
  obtain ⟨-, -, hlive, hsearching, hfound⟩ := life_scanned h₀ hlife
  have hlen : ∀ stop ∈ stopSequencesFrom gen,
      stop.length ≤ stopMaxLenOf (stopSequencesFrom gen) - 1 + 1 := by
    intro stop hstop
    have hle := le_stopMaxLenOf hstop
    omega
  have hcloses : Closes env r pid ref r.pendingText r.matchedStop := by
    intro hrefused d
    obtain ⟨stats, hout, -, -, hstop⟩ := announceFinish_stream env d hlive hrefused
    exact ⟨_, stats, hout, textOf_closing _ _ _ _, done_mem_closing _ _ _ _, hstop⟩
  constructor
  · intro pos p hleft
    cases hm : r.matchedStop with
    | none => exact absurd (hsearching hm).free hleft.not_free
    | some p' =>
      obtain ⟨hdone, hnil, init, tok, pos', hgen, hfree, hleft', hsent⟩ := hfound p' hm
      obtain ⟨rfl, rfl⟩ := hleft'.unique hleft
      rw [hm, hnil] at hcloses
      exact ⟨⟨init, tok, hgen, hfree⟩, hdone, hsent, hcloses⟩
  · intro hfree
    cases hm : r.matchedStop with
    | some p =>
      obtain ⟨-, -, -, -, pos, -, -, hleft, -⟩ := hfound p hm
      exact absurd hfree hleft.not_free
    | none =>
      have hheld := hsearching hm
      rw [hm] at hcloses
      exact ⟨fun c pos p hleft => hheld.sent_prefix hlen hleft, _, hheld.append_eq, hcloses⟩

/-- A stream that stops at "ab", on a seq that holds its prompt. -/
def stopStart : Req Nat :=
  (setupAdmissionPath (mapEnv plainParams .empty 1) (mapProc plainParams .empty 1).data
    (streamingReq (generatingReq (mapProc plainParams .empty 1).data 0 .streaming
      ⟨some 9, [[97, 98]], false, none, ⟨0, []⟩⟩ [1] (some 0)) 5 6)
    (.sticky [1]) [1] ⟨none, none⟩).1

/-- A token for a request that decodes. -/
theorem Life.token {r₀ r : Req Nat} {t : Story MapCtx Nat} {env : Env MapCtx Unit}
    (h : Life env Story.free r₀ t r) (d : Data MapCtx Unit Nat) (tok : Token)
    (hfin : r.finishing = false) (hcursor : r.prefillCursor = none) :
    ∃ t', Life env Story.free r₀ t' (tokenResult env d r tok false).1 ∧
      t'.fed = t.fed ++ [(.decode 0, .token tok false none)] := by
  have hrow : RowFor r (.decode 0) := hcursor
  have hres : stepResult env d r (.decode 0) (.token tok false none)
      = some (tokenResult env d r tok false) := rfl
  obtain ⟨out, saves, -, -, hstep⟩ := stepResult_lifeStep hfin hrow hres
  exact ⟨_, h.tail trivial hstep, rfl⟩

/-- The tokens x, a and b: the match spans two chunks, and x was sent. -/
theorem stopStart_streams :
    ∃ t r, Life (mapEnv plainParams .empty 1) Story.free stopStart t r ∧
      r.generated = [120, 97, 98] ∧ textOf t.out = [120] ∧
      Closes (mapEnv plainParams .empty 1) r 5 6 [] (some [97, 98]) := by
  have h₀ : Life (mapEnv plainParams .empty 1) Story.free stopStart _ _ := .refl
  obtain ⟨t₁, h₁, -⟩ := h₀.token (mapProc plainParams .empty 1).data 120 rfl rfl
  obtain ⟨t₂, h₂, -⟩ := h₁.token (mapProc plainParams .empty 1).data 97 (by decide +kernel)
    (by decide +kernel)
  obtain ⟨t₃, h₃, -⟩ := h₂.token (mapProc plainParams .empty 1).data 98 (by decide +kernel)
    (by decide +kernel)
  generalize hr : (tokenResult (mapEnv plainParams .empty 1) (mapProc plainParams .empty 1).data
    _ 98 false).1 = r at h₃
  have hgen : r.generated = [120, 97, 98] := by
    rw [← hr]
    decide +kernel
  have hleft :
      Leftmost [[97, 98]] (chunks (mapEnv plainParams .empty 1) r.generated) 1 [97, 98] := by
    rw [hgen]
    exact binaryMatch_some (by decide) (by decide +kernel : _ = some (1, 2))
  have hscan : stopStart.scan
      = GenOpts.scan ⟨some 9, [[97, 98]], false, none, ⟨0, []⟩⟩ .streaming (some 5) (some 6) := rfl
  obtain ⟨-, -, hsent, hcloses⟩ := (life_streams hscan h₃).1 1 [97, 98] hleft
  refine ⟨t₃, r, h₃, hgen, ?_, hcloses⟩
  rw [hsent, hgen]
  decide +kernel

end Erllama.Model
