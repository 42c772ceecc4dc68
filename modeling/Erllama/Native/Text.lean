import Erllama.Lib.Ownership
import Erllama.Native.Grammar

namespace Erllama.Native.Text

open Lib.Ownership

/-!
# Text and tokens (`erllama_nif_tokens.c`, `erllama_tokenize_grow`)

Texts are tokenised into a buffer that is grown once, and tokens rendered piece by piece into one
that is grown as needed.  Allocations and library calls may fail at any point.

* `Buf`, `TextVocab` — the buffers, with their capacities, and what the library computes.
* `nifTokenize`, `nifDetokenize` — the two calls.
* `tokensOf`, `textOf` — what they are to answer.
* `nifDetokenize_answers`, `nifTokenize_answers` — they answer it, or an error where something
  failed; nothing is written beyond a buffer, and no buffer is left.
* `nifDetokenize_append` — rendering is a homomorphism, up to the bound on the length of a list.
-/

/-- A buffer and what was written to it. -/
inductive Buf where
  | tokens (cap : Nat) (toks : List Token)
  | bytes (cap : Nat) (data : Bytes)
deriving DecidableEq

/-- A program over buffers. -/
abbrev TextCall := Owner Buf

/-- The errors of the calls. -/
inductive TextError where
  | badarg | oom | tooLarge | invalidToken | released | exception | tokenizeFailed
deriving DecidableEq

/-- What the library computes: the pieces are without special tokens, which render as nothing. -/
structure TextVocab where
  nTokens : Nat
  piece : Token → Bytes
  tokenize : Bytes → Bool → Bool → List Token

/-- `ERLLAMA_MAX_TOKENS`. -/
def maxTokens : Nat := 16 * 1024 * 1024

/-- `ERLLAMA_MAX_TOKEN_TEXT`. -/
def maxTokenText : Nat := 64 * 1024 * 1024

/-! ### Token lists -/

/-- The loop of `read_token_list`; an element is `none` if it is no C integer. -/
def parseTokens : List (Option Int) → Except TextError (List Token)
  | []             => .ok []
  | none :: _      => .error .badarg
  | some v :: rest =>
    if v < 0 then .error .invalidToken
    else (parseTokens rest).map (v.toNat :: ·)

/-- `read_token_list`: an empty list gets no buffer. -/
def readTokenList (list : List (Option Int)) :
    TextCall (Except TextError (Option Loc × List Token)) := do
  if maxTokens < list.length then return .error .tooLarge
  else if list = [] then return .ok (none, [])
  else
    match ← perform (.alloc (.tokens list.length [])) with
    | none      => return .error .oom
    | some toks =>
      match parseTokens list with
      | .error e =>
        perform (.free toks)
        return .error e
      | .ok ts   => return .ok (some toks, ts)

/-! ### Rendering -/

/-- `erllama_safe_token_to_piece` for one of the tokens in the buffer: the size of the piece,
    negative if there is not enough room for it; `none` if the library threw. -/
def tokenToPiece (v : TextVocab) (toks : Loc) (t : Token) (room : Nat) : TextCall (Option Int) := do
  let _ ← perform (.read toks)
  if ← perform .test then
    return some (if room < (v.piece t).length then -(v.piece t).length else (v.piece t).length)
  else return none

/-- `memcpy` behind what is used. -/
def Buf.copyTo (used : Nat) (piece : Bytes) : Buf → Option Buf
  | .bytes cap data =>
    if used ≤ data.length ∧ used + piece.length ≤ cap then
      some (.bytes cap (data.take used ++ piece))
    else none
  | .tokens .. => none

/-- `enif_realloc`. -/
def Buf.grow (cap : Nat) : Buf → Option Buf
  | .bytes _ data => some (.bytes cap data)
  | .tokens ..    => none

/-- A pointer that may be null is freed unless it is. -/
def freeOpt : Option Loc → TextCall Unit
  | none   => return ()
  | some l => perform (.free l)

/-- Room for `got` more bytes: the new capacity, or `none` if there is no memory. -/
def makeRoom (out : Loc) (used cap got : Nat) : TextCall (Option Nat) := do
  if cap < used + got then
    if ← perform (.alter out (Buf.grow ((used + got) * 2 + 16))) then
      return some ((used + got) * 2 + 16)
    else return none
  else return some cap

/-- The end of the loop's body: the piece is copied behind what is used. -/
def appendPiece (out : Loc) (grown : Option Loc) (piece : Bytes) (used cap : Nat) :
    TextCall (Except TextError (Nat × Nat)) := do
  match ← makeRoom out used cap piece.length with
  -- the output may not grow any more
  | none =>
    freeOpt grown
    return .error .oom
  | some cap =>
    perform (.write out (Buf.copyTo used piece))
    freeOpt grown
    return .ok (used + piece.length, cap)

/-- A piece that does not fit the small buffer gets one of its own, up to a megabyte. -/
def largePiece (v : TextVocab) (toks out : Loc) (t : Token) (need used cap : Nat) :
    TextCall (Except TextError (Nat × Nat)) := do
  -- no piece is longer than 1 MiB
  if 2 ^ 20 < need then return .error .invalidToken
  else
    match ← perform (.alloc (.bytes need [])) with
    | none       => return .error .oom
    | some grown =>
      match ← tokenToPiece v toks t need with
      | none     =>
        perform (.free grown)
        return .error .invalidToken
      | some got =>
        if got < 0 then
          perform (.free grown)
          return .error .invalidToken
        else
          perform (.write grown (Buf.copyTo 0 (v.piece t)))
          appendPiece out (some grown) (v.piece t) used cap

/-- The body of the loop. -/
def onePiece (v : TextVocab) (toks out : Loc) (t : Token) (used cap : Nat) :
    TextCall (Except TextError (Nat × Nat)) := do
  match ← tokenToPiece v toks t 256 with
  | none     => return .error .invalidToken
  | some got =>
    if got < 0 then largePiece v toks out t (-got).toNat used cap
    else appendPiece out none (v.piece t) used cap

/-- The loop: how much of the buffer is used at its end. -/
def pieces (v : TextVocab) (toks out : Loc) :
    List Token → Nat → Nat → TextCall (Except TextError Nat)
  | [], used, _        => return .ok used
  | t :: ts, used, cap => do
    match ← onePiece v toks out t used cap with
    | .error e         => return .error e
    | .ok (used, cap)  => pieces v toks out ts used cap

/-- `erllama_bin_from`: the bytes that are used, in an Erlang binary. -/
def binFrom (out : Loc) (used : Nat) : TextCall (Except TextError Bytes) := do
  let buf ← perform (.read out)
  let made ← perform .test
  perform (.free out)
  match made, buf with
  | true, some (.bytes _ data) => return .ok (data.take used)
  | _, _                       => return .error .oom

/-- `erllama_empty_bin`. -/
def emptyBin : TextCall (Except TextError Bytes) := do
  if ← perform .test then return .ok [] else return .error .oom

/-- The part of `nif_detokenize` that has a vocabulary and its tokens. -/
def render (v : TextVocab) (toks : Loc) (ts : List Token) : TextCall (Except TextError Bytes) := do
  -- every token is checked before the first is rendered
  if v.nTokens = 0 ∨ ts.any (v.nTokens ≤ ·) then
    perform (.free toks)
    return .error .invalidToken
  else if 2 ^ 24 < ts.length then
    perform (.free toks)
    return .error .tooLarge
  else
    match ← perform (.alloc (.bytes (ts.length * 32 + 16) [])) with
    | none =>
      perform (.free toks)
      return .error .oom
    | some out =>
      let res ← pieces v toks out ts 0 (ts.length * 32 + 16)
      perform (.free toks)
      match res with
      | .error e =>
        perform (.free out)
        return .error e
      | .ok used => binFrom out used

/-- `nif_detokenize`, on a model that is live or not, with the vocabulary if the lookup of it
    works. -/
def nifDetokenize (live : Bool) (v : Option TextVocab) (list : List (Option Int)) :
    TextCall (Except TextError Bytes) := do
  match ← readTokenList list with
  | .error e            => return .error e
  | .ok (none, _)       => emptyBin
  | .ok (some toks, ts) =>
    if !live then
      perform (.free toks)
      return .error .released
    else
      match v with
      | none =>
        perform (.free toks)
        return .error .exception
      | some v => render v toks ts

/-! ### Tokenising -/

/-- The tokens are written to the buffer if there is room for them. -/
def Buf.fill (ts : List Token) : Buf → Option Buf
  | .tokens cap _ => some (.tokens cap (if cap < ts.length then [] else ts))
  | .bytes ..     => none

/-- `erllama_safe_tokenize`: how many tokens there are, negative if there is not enough room;
    `none` if the library threw. -/
def safeTokenize (v : TextVocab) (buf : Loc) (room : Nat) (text : Bytes)
    (addSpecial parseSpecial : Bool) : TextCall (Option Int) := do
  let ts := v.tokenize text addSpecial parseSpecial
  if ← perform (.alter buf (Buf.fill ts)) then
    return some (if room < ts.length then -ts.length else ts.length)
  else return none

/-- The end of `erllama_tokenize_grow`. -/
def checkTokens (buf : Loc) : Option Int → TextCall (Except TextError (Loc × Nat))
  | none => do
    perform (.free buf)
    return .error .exception
  | some n => do
    if n < 0 then
      perform (.free buf)
      return .error .tokenizeFailed
    else if (maxTokens : Int) < n then
      perform (.free buf)
      return .error .tooLarge
    else return .ok (buf, n.toNat)

/-- `erllama_tokenize_grow`. -/
def tokenizeGrow (v : TextVocab) (text : Bytes) (addSpecial parseSpecial : Bool) :
    TextCall (Except TextError (Loc × Nat)) := do
  let nMax := max (text.length + 8) 16
  match ← perform (.alloc (.tokens nMax [])) with
  | none     => return .error .oom
  | some buf =>
    match ← safeTokenize v buf nMax text addSpecial parseSpecial with
    | none   => checkTokens buf none
    | some n =>
      -- a buffer that is too small: the library says how many tokens there are
      if n < 0 then
        if (maxTokens : Int) < -n then
          perform (.free buf)
          return .error .tooLarge
        else
          perform (.free buf)
          match ← perform (.alloc (.tokens (-n).toNat [])) with
          | none     => return .error .oom
          | some buf =>
            checkTokens buf (← safeTokenize v buf (-n).toNat text addSpecial parseSpecial)
      else checkTokens buf (some n)

/-- `nif_tokenize`. -/
def nifTokenize (live : Bool) (v : Option TextVocab) (text : Bytes)
    (addSpecial parseSpecial : Bool) : TextCall (Except TextError (List Token)) := do
  if maxTokenText < text.length then return .error .tooLarge
  else if !live then return .error .released
  else
    match v with
    | none   => return .error .exception
    | some v =>
      match ← tokenizeGrow v text addSpecial parseSpecial with
      | .error e      => return .error e
      | .ok (buf, n) =>
        let toks ← perform (.read buf)
        perform (.free buf)
        match toks with
        | some (.tokens _ ts) => return .ok (ts.take n)
        | _                   => return .error .exception

/-! ### What the calls are to answer -/

/-- The pieces of the tokens, one after the other. -/
def textOf (live : Bool) (v : Option TextVocab) (list : List (Option Int)) :
    Except TextError Bytes :=
  if maxTokens < list.length then .error .tooLarge
  else if list = [] then .ok []
  else
    match parseTokens list with
    | .error e => .error e
    | .ok ts =>
      if !live then .error .released
      else
        match v with
        | none   => .error .exception
        | some v =>
          if v.nTokens = 0 ∨ ts.any (v.nTokens ≤ ·) then .error .invalidToken
          else if ts.any (fun t => 2 ^ 20 < (v.piece t).length) then .error .invalidToken
          else .ok (ts.flatMap v.piece)

/-- The tokens of the text, if they are not too many. -/
def tokensOf (live : Bool) (v : Option TextVocab) (text : Bytes) (addSpecial parseSpecial : Bool) :
    Except TextError (List Token) :=
  if maxTokenText < text.length then .error .tooLarge
  else if !live then .error .released
  else
    match v with
    | none   => .error .exception
    | some v =>
      -- the tokens are counted after they are made
      if maxTokens < (v.tokenize text addSpecial parseSpecial).length then .error .tooLarge
      else .ok (v.tokenize text addSpecial parseSpecial)

/-- The answer is this one, or an error if something failed. -/
def Answers {α : Type} (may : Prop) (spec res : Except TextError α) : Prop :=
  res = spec ∨ may ∧ ∃ e, res = .error e

variable {α : Type} {may : Prop} {spec : Except TextError α} {v : TextVocab} {toks out : Loc}
  {t : Token} {ts : List Token} {cap used : Nat} {data piece : Bytes} {m : Multiset (Loc × Buf)}

/-- An answer of memory running out, where it may. -/
theorem Answers.failed {e : TextError} (h : may) : Answers may spec (.error e) := .inr ⟨h, e, rfl⟩

/-! ### Rendering -/

/-- What is live in the loop: the tokens and the bytes so far. -/
def Live (toks out : Loc) (c : Nat) (ts : List Token) (cap : Nat) (data : Bytes)
    (m : Multiset (Loc × Buf)) : Multiset (Loc × Buf) :=
  (toks, .tokens c ts) ::ₘ (out, .bytes cap data) ::ₘ m

/-- After one piece: its bytes were added, or there was an error. -/
def Added (may : Prop) (v : TextVocab) (t : Token) (toks out : Loc) (c : Nat) (ts : List Token)
    (data : Bytes) (m : Multiset (Loc × Buf)) (res : Except TextError (Nat × Nat))
    (m' : Multiset (Loc × Buf)) : Prop :=
  match res with
  | .ok (used, cap) => (v.piece t).length ≤ 2 ^ 20 ∧ used = (data ++ v.piece t).length ∧
      used ≤ cap ∧ m' = Live toks out c ts cap (data ++ v.piece t) m
  | .error e => (may ∨ e = .invalidToken ∧ 2 ^ 20 < (v.piece t).length) ∧
      ∃ cap, m' = Live toks out c ts cap data m

/-- Room for the piece, or none and the buffer as it was. -/
theorem makeRoom_owns :
    OwnsIf may ((out, .bytes cap data) ::ₘ m) (makeRoom out data.length cap piece.length)
      (fun res m' => match res with
        | some cap' => data.length + piece.length ≤ cap' ∧ m' = (out, .bytes cap' data) ::ₘ m
        | none      => may ∧ m' = (out, .bytes cap data) ::ₘ m) := by
  unfold makeRoom
  by_cases hroom : cap < data.length + piece.length
  · rw [if_pos hroom]
    refine OwnsIf.alter rfl (fun hmay => OwnsIf.ret ⟨hmay, rfl⟩) (OwnsIf.ret ⟨by omega, rfl⟩)
  · rw [if_neg hroom]
    exact OwnsIf.ret ⟨by omega, rfl⟩

/-- The copy stays within the buffer. -/
theorem copyTo_used (h : data.length + piece.length ≤ cap) :
    Buf.copyTo data.length piece (.bytes cap data) = some (.bytes cap (data ++ piece)) := by
  have hcopy : Buf.copyTo data.length piece (.bytes cap data) =
      some (.bytes cap (data.take data.length ++ piece)) := if_pos ⟨le_rfl, h⟩
  rw [hcopy, List.take_length]

/-- A buffer of its own is freed. -/
theorem freeOpt_owns {grown : Option Loc} {g : Multiset (Loc × Buf)}
    (hg : grown = none ∧ g = 0 ∨ ∃ l b, grown = some l ∧ g = {(l, b)}) :
    OwnsIf may (g + m) (freeOpt grown) (fun _ m' => m' = m) := by
  rcases hg with ⟨rfl, rfl⟩ | ⟨l, b, rfl, rfl⟩
  · exact OwnsIf.ret (zero_add m)
  · rw [Multiset.singleton_add]
    exact OwnsIf.free (OwnsIf.ret rfl)

/-- The piece is appended, whether or not it was read into a buffer of its own. -/
theorem appendPiece_owns {grown : Option Loc} {g : Multiset (Loc × Buf)}
    (hg : grown = none ∧ g = 0 ∨ ∃ l b, grown = some l ∧ g = {(l, b)}) :
    OwnsIf may ((out, .bytes cap data) ::ₘ (g + m)) (appendPiece out grown piece data.length cap)
      (fun res m' => match res with
        | .ok (used, cap') => used = (data ++ piece).length ∧ used ≤ cap' ∧
            m' = (out, .bytes cap' (data ++ piece)) ::ₘ m
        | .error _ => may ∧ m' = (out, .bytes cap data) ::ₘ m) := by
  refine OwnsIf.bind makeRoom_owns fun res m' hm => ?_
  cases res with
  | none =>
    obtain ⟨hmay, rfl⟩ := hm
    rw [← Multiset.add_cons]
    refine OwnsIf.bind (p := freeOpt grown) (freeOpt_owns hg) fun _ m' hm => ?_
    exact OwnsIf.ret ⟨hmay, hm⟩
  | some cap' =>
    obtain ⟨hroom, rfl⟩ := hm
    refine OwnsIf.write (copyTo_used hroom) ?_
    rw [← Multiset.add_cons]
    refine OwnsIf.bind (p := freeOpt grown) (freeOpt_owns hg) fun _ m' hm => ?_
    exact OwnsIf.ret ⟨List.length_append.symm, hroom, hm⟩

/-- The piece of a token fits the room, or its length comes back negated. -/
theorem tokenToPiece_owns {c room : Nat} :
    OwnsIf may ((toks, .tokens c ts) ::ₘ m) (tokenToPiece v toks t room) (fun res m' =>
      m' = (toks, .tokens c ts) ::ₘ m ∧ match res with
        | none   => may
        | some got => got = if room < (v.piece t).length then -((v.piece t).length : Int)
            else (v.piece t).length) := by
  refine OwnsIf.read (OwnsIf.test (fun hmay => OwnsIf.ret ⟨rfl, hmay⟩) (OwnsIf.ret ⟨rfl, ?_⟩))
  rfl

/-- A piece that does not fit the small buffer. -/
theorem largePiece_owns {c : Nat} :
    OwnsIf may (Live toks out c ts cap data m)
      (largePiece v toks out t (v.piece t).length data.length cap)
      (Added may v t toks out c ts data m) := by
  unfold largePiece
  by_cases hbig : 2 ^ 20 < (v.piece t).length
  · rw [if_pos hbig]
    exact OwnsIf.ret ⟨.inr ⟨rfl, hbig⟩, cap, rfl⟩
  rw [if_neg hbig]
  refine OwnsIf.alloc (fun hmay => OwnsIf.ret ⟨.inl hmay, cap, rfl⟩) fun grown => ?_
  unfold Live
  rw [Multiset.cons_swap]
  refine OwnsIf.bind (p := tokenToPiece v toks t _) tokenToPiece_owns fun got m' hm => ?_
  obtain ⟨rfl, hgot⟩ := hm
  rw [Multiset.cons_swap]
  cases got with
  | none => exact OwnsIf.free (OwnsIf.ret ⟨.inl hgot, cap, rfl⟩)
  | some got =>
    replace hgot : got = if (v.piece t).length < (v.piece t).length then _ else _ := hgot
    rw [if_neg (lt_irrefl _)] at hgot
    subst hgot
    show OwnsIf may _ (if ((v.piece t).length : Int) < 0 then _ else _) _
    rw [if_neg (Int.not_lt.mpr (Int.natCast_nonneg _))]
    have hcopy : Buf.copyTo 0 (v.piece t) (.bytes (v.piece t).length []) =
        some (.bytes (v.piece t).length (v.piece t)) :=
      @copyTo_used _ [] (v.piece t) (Nat.zero_add _).le
    refine OwnsIf.write hcopy ?_
    · refine OwnsIf.of_eq (m := (out, .bytes cap data) ::ₘ ({(grown, .bytes (v.piece t).length
        (v.piece t))} + ((toks, .tokens c ts) ::ₘ m))) ?_ ?_
      · refine (appendPiece_owns (.inr ⟨grown, _, rfl, rfl⟩)).mono fun res m' hm => ?_
        cases res with
        | error e =>
          obtain ⟨hmay, rfl⟩ := hm
          exact ⟨.inl hmay, cap, Multiset.cons_swap _ _ _⟩
        | ok x =>
          obtain ⟨hused, hle, rfl⟩ := hm
          exact ⟨Nat.not_lt.mp hbig, hused, hle, Multiset.cons_swap _ _ _⟩
      · simp only [← Multiset.singleton_add]
        abel

/-- One token's piece is appended. -/
theorem onePiece_owns {c : Nat} :
    OwnsIf may (Live toks out c ts cap data m) (onePiece v toks out t data.length cap)
      (Added may v t toks out c ts data m) := by
  refine OwnsIf.bind tokenToPiece_owns fun got m' hm => ?_
  obtain ⟨rfl, hgot⟩ := hm
  cases got with
  | none => exact OwnsIf.ret ⟨.inl hgot, cap, rfl⟩
  | some got =>
    replace hgot : got = if 256 < (v.piece t).length then _ else _ := hgot
    by_cases hsmall : 256 < (v.piece t).length
    · rw [if_pos hsmall] at hgot
      have hneg : got < 0 := by omega
      have hneed : (-got).toNat = (v.piece t).length := by omega
      show OwnsIf may _ (if got < 0 then _ else _) _
      rw [if_pos hneg, hneed]
      exact largePiece_owns
    · rw [if_neg hsmall] at hgot
      have hpos : ¬ got < 0 := by omega
      show OwnsIf may _ (if got < 0 then _ else _) _
      rw [if_neg hpos]
      refine OwnsIf.of_eq (m := (out, .bytes cap data) ::ₘ (0 + ((toks, .tokens c ts) ::ₘ m))) ?_ ?_
      · refine (appendPiece_owns (.inl ⟨rfl, rfl⟩)).mono fun res m' hm => ?_
        cases res with
        | error e =>
          obtain ⟨hmay, rfl⟩ := hm
          exact ⟨.inl hmay, cap, Multiset.cons_swap _ _ _⟩
        | ok x =>
          obtain ⟨hused, hle, rfl⟩ := hm
          exact ⟨by omega, hused, hle, Multiset.cons_swap _ _ _⟩
      · rw [zero_add, Multiset.cons_swap]

/-- The text is copied into the answer, and the buffer freed. -/
theorem binFrom_owns (spec : Except TextError Bytes) (h : spec = .ok data) :
    OwnsIf may ((out, .bytes cap data) ::ₘ m) (binFrom out data.length)
      (fun res m' => m' = m ∧ Answers may spec res) := by
  refine OwnsIf.read (OwnsIf.test (fun hmay => ?_) ?_)
  · exact OwnsIf.free (OwnsIf.ret ⟨rfl, .failed hmay⟩)
  · refine OwnsIf.free (OwnsIf.ret ⟨rfl, .inl ?_⟩)
    rw [h]
    exact congrArg Except.ok List.take_length

/-- The loop adds the pieces of the tokens, unless one is too large. -/
theorem pieces_owns {c : Nat} (rest : List Token) :
    OwnsIf may (Live toks out c ts cap data m) (pieces v toks out rest data.length cap)
      (fun res m' => match res with
        | .ok used => (∀ t ∈ rest, (v.piece t).length ≤ 2 ^ 20) ∧
            used = (data ++ rest.flatMap v.piece).length ∧
            ∃ cap, m' = Live toks out c ts cap (data ++ rest.flatMap v.piece) m
        | .error e => (may ∨ e = .invalidToken ∧ ∃ t ∈ rest, 2 ^ 20 < (v.piece t).length) ∧
            ∃ cap data, m' = Live toks out c ts cap data m) := by
  induction rest generalizing cap data with
  | nil => exact OwnsIf.ret ⟨nofun, by rw [List.flatMap_nil, List.append_nil],
      cap, by rw [List.flatMap_nil, List.append_nil]⟩
  | cons t rest ih =>
    refine OwnsIf.bind onePiece_owns fun res m' hm => ?_
    cases res with
    | error e =>
      obtain ⟨he, cap, rfl⟩ := hm
      refine OwnsIf.ret ⟨he.imp_right fun hbig => ?_, cap, data, rfl⟩
      exact ⟨hbig.1, t, List.mem_cons_self, hbig.2⟩
    | ok x =>
      obtain ⟨used, cap⟩ := x
      obtain ⟨hfits, rfl, -, rfl⟩ := hm
      refine ih.mono fun res m' hm => ?_
      rw [List.append_assoc] at hm
      cases res with
      | error e =>
        obtain ⟨he, hlive⟩ := hm
        refine ⟨he.imp_right fun hbig => ⟨hbig.1, ?_⟩, hlive⟩
        obtain ⟨t', ht', hbig⟩ := hbig.2
        exact ⟨t', List.mem_cons_of_mem _ ht', hbig⟩
      | ok used =>
        obtain ⟨hall, hused, cap, hlive⟩ := hm
        refine ⟨fun t' ht' => ?_, hused, cap, hlive⟩
        rcases List.mem_cons.mp ht' with rfl | ht'
        · exact hfits
        · exact hall t' ht'

/-- What was read of a token list, or why it was not. -/
theorem readTokenList_owns (list : List (Option Int)) :
    OwnsIf may 0 (readTokenList list) (fun res m' => match res with
      | .ok (none, _) => m' = 0 ∧ list = []
      | .ok (some toks, ts) => list ≠ [] ∧ list.length ≤ maxTokens ∧ parseTokens list = .ok ts ∧
          ∃ c, m' = {(toks, .tokens c [])}
      | .error e => m' = 0 ∧ ∀ live v, Answers may (textOf live v list) (.error e)) := by
  unfold readTokenList
  by_cases hmany : maxTokens < list.length
  · rw [if_pos hmany]
    refine OwnsIf.ret ⟨rfl, fun live v => .inl ?_⟩
    unfold textOf
    rw [if_pos hmany]
  rw [if_neg hmany]
  by_cases hnil : list = []
  · rw [if_pos hnil]
    exact OwnsIf.ret ⟨rfl, hnil⟩
  rw [if_neg hnil]
  refine OwnsIf.alloc (fun hmay => OwnsIf.ret ⟨rfl, fun _ _ => .failed hmay⟩) fun toks => ?_
  show OwnsIf may _ (match parseTokens list with | .error _ => _ | .ok _ => _) _
  cases hparse : parseTokens list with
  | error e =>
    refine OwnsIf.free (OwnsIf.ret ⟨rfl, fun live v => .inl ?_⟩)
    unfold textOf
    rw [if_neg hmany, if_neg hnil, hparse]
  | ok ts => exact OwnsIf.ret ⟨hnil, Nat.not_lt.mp hmany, rfl, _, rfl⟩

/-- A list that was read has as many tokens. -/
theorem length_parseTokens {list : List (Option Int)} (h : parseTokens list = .ok ts) :
    ts.length = list.length := by
  induction list generalizing ts with
  | nil =>
    cases h
    rfl
  | cons x list ih =>
    cases x with
    | none => cases h
    | some x =>
      unfold parseTokens at h
      by_cases hneg : x < 0
      · rw [if_pos hneg] at h
        cases h
      · rw [if_neg hneg] at h
        cases hrest : parseTokens list with
        | error e =>
          rw [hrest] at h
          cases h
        | ok rest =>
          rw [hrest] at h
          cases h
          exact congrArg (· + 1) (ih hrest)

/-- What the tokens of a list render as on a live model. -/
theorem textOf_render {list : List (Option Int)} (hmany : ¬ maxTokens < list.length)
    (hnil : list ≠ []) (hparse : parseTokens list = .ok ts) :
    textOf true (some v) list =
      if v.nTokens = 0 ∨ ts.any (v.nTokens ≤ ·) then .error .invalidToken
      else if ts.any (fun t => 2 ^ 20 < (v.piece t).length) then .error .invalidToken
      else .ok (ts.flatMap v.piece) := by
  unfold textOf
  rw [if_neg hmany, if_neg hnil, hparse]
  rfl

/-- The loop over the tokens. -/
theorem render_owns {list : List (Option Int)} {c : Nat} (hmany : list.length ≤ maxTokens)
    (hnil : list ≠ []) (hparse : parseTokens list = .ok ts) :
    OwnsIf may {(toks, .tokens c [])} (render v toks ts)
      (fun res m' => m' = 0 ∧ Answers may (textOf true (some v) list) res) := by
  have htext := textOf_render (v := v) (Nat.not_lt.mpr hmany) hnil hparse
  have hlen := length_parseTokens hparse
  unfold render
  by_cases hvalid : v.nTokens = 0 ∨ ts.any (v.nTokens ≤ ·) = true
  · rw [if_pos hvalid]
    rw [if_pos hvalid] at htext
    exact OwnsIf.free (OwnsIf.ret ⟨rfl, .inl htext.symm⟩)
  rw [if_neg hvalid]
  rw [if_neg hvalid] at htext
  have hmany' : ¬ 2 ^ 24 < ts.length := by
    rw [hlen]
    exact Nat.not_lt.mpr hmany
  rw [if_neg hmany']
  refine OwnsIf.alloc (fun hmay => OwnsIf.free (OwnsIf.ret ⟨rfl, .failed hmay⟩)) fun out => ?_
  refine OwnsIf.of_eq (m := Live toks out c [] (ts.length * 32 + 16) [] 0) ?_
    (Multiset.cons_swap _ _ _)
  refine OwnsIf.bind (p := pieces v toks out ts 0 (ts.length * 32 + 16)) (pieces_owns ts)
    fun res m' hm => ?_
  cases res with
  | error e =>
    obtain ⟨he, cap, data, rfl⟩ := hm
    refine OwnsIf.free (OwnsIf.free (OwnsIf.ret ⟨rfl, ?_⟩))
    rcases he with hmay | ⟨rfl, t, ht, hbig⟩
    · exact .failed hmay
    · have hany : (ts.any fun t => decide (2 ^ 20 < (v.piece t).length)) = true :=
        List.any_eq_true.mpr ⟨t, ht, decide_eq_true hbig⟩
      rw [if_pos hany] at htext
      exact .inl htext.symm
  | ok used =>
    obtain ⟨hall, hused, cap, rfl⟩ := hm
    have hnone : ¬ (ts.any fun t => decide (2 ^ 20 < (v.piece t).length)) = true := by
      rw [List.any_eq_true]
      rintro ⟨t, ht, hbig⟩
      exact absurd (of_decide_eq_true hbig) (Nat.not_lt.mpr (hall t ht))
    rw [if_neg hnone] at htext
    subst hused
    exact OwnsIf.free (binFrom_owns _ htext)

/-- Detokenizing leaves nothing behind. -/
theorem nifDetokenize_owns (live : Bool) (v : Option TextVocab) (list : List (Option Int)) :
    OwnsIf may 0 (nifDetokenize live v list)
      (fun res m' => m' = 0 ∧ Answers may (textOf live v list) res) := by
  refine OwnsIf.bind (readTokenList_owns list) fun res m' hm => ?_
  cases res with
  | error e => exact OwnsIf.ret ⟨hm.1, hm.2 live v⟩
  | ok x =>
    obtain ⟨toks, ts⟩ := x
    cases toks with
    | none =>
      obtain ⟨rfl, rfl⟩ := hm
      exact OwnsIf.test (fun hmay => OwnsIf.ret ⟨rfl, .failed hmay⟩) (OwnsIf.ret ⟨rfl, .inl rfl⟩)
    | some toks =>
      obtain ⟨hnil, hmany, hparse, c, rfl⟩ := hm
      have htext : textOf live v list =
          if !live then .error .released else match v with
            | none   => .error .exception
            | some v => textOf true (some v) list := by
        cases live with
        | false =>
          unfold textOf
          rw [if_neg (Nat.not_lt.mpr hmany), if_neg hnil, hparse]
          rfl
        | true =>
          cases v with
          | none =>
            unfold textOf
            rw [if_neg (Nat.not_lt.mpr hmany), if_neg hnil, hparse]
          | some v => rfl
      rw [htext]
      cases live with
      | false => exact OwnsIf.free (OwnsIf.ret ⟨rfl, .inl rfl⟩)
      | true =>
        cases v with
        | none   => exact OwnsIf.free (OwnsIf.ret ⟨rfl, .inl rfl⟩)
        | some v => exact render_owns hmany hnil hparse

/-! ### Tokenising -/

/-- The buffer with all the tokens, or what went wrong. -/
def Grown (may : Prop) (all : List Token) (res : Except TextError (Loc × Nat))
    (m' : Multiset (Loc × Buf)) : Prop :=
  match res with
  | .ok (buf, n) => all.length ≤ maxTokens ∧ n = all.length ∧
      ∃ cap, m' = {(buf, .tokens cap all)}
  | .error e => m' = 0 ∧ (may ∨ e = .tooLarge ∧ maxTokens < all.length)

/-- The check at the end, on a buffer that all tokens fit in. -/
theorem checkTokens_owns {buf : Loc} {all : List Token} :
    OwnsIf may {(buf, .tokens cap all)} (checkTokens buf (some all.length)) (Grown may all) := by
  have hpos : ¬ (all.length : Int) < 0 := Int.not_lt.mpr (Int.natCast_nonneg _)
  unfold checkTokens
  dsimp only
  rw [if_neg hpos]
  by_cases hmany : maxTokens < all.length
  · rw [if_pos (Int.ofNat_lt.mpr hmany)]
    exact OwnsIf.free (OwnsIf.ret ⟨rfl, .inr ⟨rfl, hmany⟩⟩)
  · rw [if_neg fun h => hmany (Int.ofNat_lt.mp h)]
    exact OwnsIf.ret ⟨Nat.not_lt.mp hmany, rfl, cap, rfl⟩

/-- A buffer that was too small is made again in the size asked for. -/
theorem tokenizeGrow_owns {text : Bytes} {addSpecial parseSpecial : Bool} :
    OwnsIf may 0 (tokenizeGrow v text addSpecial parseSpecial)
      (Grown may (v.tokenize text addSpecial parseSpecial)) := by
  unfold tokenizeGrow safeTokenize
  generalize v.tokenize text addSpecial parseSpecial = all
  dsimp only
  generalize max (text.length + 8) 16 = nMax
  refine OwnsIf.alloc (fun hmay => OwnsIf.ret ⟨rfl, .inl hmay⟩) fun buf => ?_
  refine OwnsIf.alter rfl (fun hmay => OwnsIf.free (OwnsIf.ret ⟨rfl, .inl hmay⟩)) ?_
  by_cases hroom : nMax < all.length
  · rw [if_pos hroom]
    have hneg : (if nMax < all.length then -(all.length : Int) else all.length) < 0 := by
      rw [if_pos hroom]
      omega
    have hneed : -(if nMax < all.length then -(all.length : Int) else all.length) =
        all.length := by
      rw [if_pos hroom, neg_neg]
    show OwnsIf may _ (if _ < (0 : Int) then if (maxTokens : Int) < -_ then _ else _ else _) _
    rw [if_pos hneg, hneed]
    by_cases hmany : maxTokens < all.length
    · rw [if_pos (Int.ofNat_lt.mpr hmany)]
      exact OwnsIf.free (OwnsIf.ret ⟨rfl, .inr ⟨rfl, hmany⟩⟩)
    · rw [if_neg fun h => hmany (Int.ofNat_lt.mp h)]
      refine OwnsIf.free (OwnsIf.alloc (fun hmay => OwnsIf.ret ⟨rfl, .inl hmay⟩) fun buf => ?_)
      refine OwnsIf.alter rfl (fun hmay => OwnsIf.free (OwnsIf.ret ⟨rfl, .inl hmay⟩)) ?_
      rw [Int.toNat_natCast, if_neg (lt_irrefl _)]
      show OwnsIf may _ (checkTokens buf (some (if all.length < all.length then _ else _))) _
      rw [if_neg (lt_irrefl _)]
      exact checkTokens_owns
  · rw [if_neg hroom]
    have hpos : ¬ (if nMax < all.length then -(all.length : Int) else all.length) < 0 := by
      rw [if_neg hroom]
      exact Int.not_lt.mpr (Int.natCast_nonneg _)
    show OwnsIf may _ (if _ < (0 : Int) then _ else checkTokens buf (some _)) _
    rw [if_neg hpos, if_neg hroom]
    exact checkTokens_owns

/-- Tokenizing leaves nothing behind. -/
theorem nifTokenize_owns (live : Bool) (v : Option TextVocab) (text : Bytes)
    (addSpecial parseSpecial : Bool) :
    OwnsIf may 0 (nifTokenize live v text addSpecial parseSpecial)
      (fun res m' => m' = 0 ∧ Answers may (tokensOf live v text addSpecial parseSpecial) res) := by
  unfold nifTokenize tokensOf
  by_cases hlong : maxTokenText < text.length
  · rw [if_pos hlong, if_pos hlong]
    exact OwnsIf.ret ⟨rfl, .inl rfl⟩
  rw [if_neg hlong, if_neg hlong]
  cases live with
  | false => exact OwnsIf.ret ⟨rfl, .inl rfl⟩
  | true =>
    cases v with
    | none => exact OwnsIf.ret ⟨rfl, .inl rfl⟩
    | some v =>
      refine OwnsIf.bind tokenizeGrow_owns fun res m' hm => ?_
      cases res with
      | error e =>
        obtain ⟨rfl, hmay | ⟨rfl, hmany⟩⟩ := hm
        · exact OwnsIf.ret ⟨rfl, .failed hmay⟩
        · exact OwnsIf.ret ⟨rfl, .inl (if_pos hmany).symm⟩
      | ok x =>
        obtain ⟨buf, n⟩ := x
        obtain ⟨hfew, rfl, cap, rfl⟩ := hm
        refine OwnsIf.read (OwnsIf.free (OwnsIf.ret ⟨rfl, .inl ?_⟩))
        refine Eq.trans ?_ (if_neg (Nat.not_lt.mpr hfew)).symm
        exact congrArg Except.ok List.take_length

/-! ### The calls -/

/-- A call under a schedule of failures. -/
def call (fails : Nat → Bool) (p : TextCall α) : α × Store Buf :=
  p.exec (Store.perform fails) 0 Store.init

/-- Whatever fails, the call misuses no buffer and leaves none, and it answers as it is to, or
    with an error; if nothing fails, it answers as it is to. -/
def Faithful (p : TextCall (Except TextError α)) (spec : Except TextError α) : Prop :=
  (∀ fails, (call fails p).2.sound = true ∧ (call fails p).2.live = [] ∧
    ((call fails p).1 = spec ∨ ∃ e, (call fails p).1 = .error e)) ∧
  (call (fun _ => false) p).1 = spec

/-- What owns nothing at its end, under failures or without, is faithful. -/
theorem Faithful.of_owns {p : TextCall (Except TextError α)}
    (h : ∀ may : Prop, OwnsIf may 0 p (fun res m' => m' = 0 ∧ Answers may spec res)) :
    Faithful p spec := by
  constructor
  · intro fails
    obtain ⟨m', hs, rfl, ha⟩ :=
      h True fails (fun hno => absurd trivial hno) 0 Store.init Holds.init
    exact ⟨hs.sound, Multiset.coe_eq_zero _ |>.mp hs.live, ha.imp_right And.right⟩
  · obtain ⟨m', hs, rfl, ha⟩ := h False _ (fun _ _ => rfl) 0 Store.init Holds.init
    exact ha.resolve_right fun hf => hf.1

/-- **Rendering.** `nif_detokenize` answers the pieces of the tokens, one after the other. -/
theorem nifDetokenize_answers (live : Bool) (v : Option TextVocab) (list : List (Option Int)) :
    Faithful (nifDetokenize live v list) (textOf live v list) :=
  .of_owns fun _ => nifDetokenize_owns live v list

/-- **Tokenising.** `nif_tokenize` answers all the tokens of the text, however many calls of the
    library that takes. -/
theorem nifTokenize_answers (live : Bool) (v : Option TextVocab) (text : Bytes)
    (addSpecial parseSpecial : Bool) :
    Faithful (nifTokenize live v text addSpecial parseSpecial)
      (tokensOf live v text addSpecial parseSpecial) :=
  .of_owns fun _ => nifTokenize_owns live v text addSpecial parseSpecial

/-! ### Rendering is a homomorphism -/

/-- All tokens are of the vocabulary, with pieces that are not too large, and the text is that of
    the pieces. -/
def Renders (live : Bool) (v : Option TextVocab) (ts : List Token) (s : Bytes) : Prop :=
  ts = [] ∧ s = [] ∨ live = true ∧ ∃ v', v = some v' ∧
    (∀ t ∈ ts, t < v'.nTokens ∧ (v'.piece t).length ≤ 2 ^ 20) ∧ s = ts.flatMap v'.piece

/-- The two checks of a list that is not empty. -/
theorem valid_iff (hne : ts ≠ []) :
    (∀ t ∈ ts, t < v.nTokens ∧ (v.piece t).length ≤ 2 ^ 20) ↔
      ¬ (v.nTokens = 0 ∨ ts.any (v.nTokens ≤ ·) = true) ∧
        ¬ (ts.any fun t => decide (2 ^ 20 < (v.piece t).length)) = true := by
  obtain ⟨t₀, rest, rfl⟩ := List.exists_cons_of_ne_nil hne
  simp only [List.any_eq_true, decide_eq_true_eq, not_or, not_exists, not_and, Nat.not_le,
    Nat.not_lt]
  constructor
  · intro h
    have hpos : v.nTokens ≠ 0 :=
      Nat.ne_of_gt (Nat.lt_of_le_of_lt (Nat.zero_le _) (h t₀ List.mem_cons_self).1)
    exact ⟨⟨hpos, fun t ht => (h t ht).1⟩, fun t ht => (h t ht).2⟩
  · exact fun h t ht => ⟨h.1.2 t ht, h.2 t ht⟩

/-- A text comes back iff the list is short enough, parses and renders. -/
theorem textOf_ok_iff {live : Bool} {v : Option TextVocab} {list : List (Option Int)}
    {s : Bytes} : textOf live v list = .ok s ↔
      list.length ≤ maxTokens ∧ ∃ ts, parseTokens list = .ok ts ∧ Renders live v ts s := by
  unfold textOf
  -- Too many tokens are refused before the list is read.
  by_cases hmany : maxTokens < list.length
  · rw [if_pos hmany]
    exact ⟨nofun, fun h => absurd h.1 (Nat.not_le.mpr hmany)⟩
  rw [if_neg hmany]
  have hfew := Nat.not_lt.mp hmany
  by_cases hnil : list = []
  · subst hnil
    rw [if_pos rfl]
    constructor
    · intro h
      cases h
      exact ⟨hfew, [], rfl, .inl ⟨rfl, rfl⟩⟩
    · rintro ⟨-, ts, hparse, ⟨-, rfl⟩ | ⟨-, v', -, -, rfl⟩⟩
      · rfl
      · cases hparse
        rfl
  rw [if_neg hnil]
  cases hparse : parseTokens list with
  | error e =>
    constructor
    · rintro ⟨⟩
    · rintro ⟨-, ts, ⟨⟩, -⟩
  | ok ts =>
    -- What is left is to render the tokens: the model must be alive and have a vocabulary.
    have hne : ts ≠ [] := by
      rintro rfl
      exact hnil (List.eq_nil_of_length_eq_zero (length_parseTokens hparse).symm)
    have hsame : (∃ ts', Except.ok (ε := TextError) ts = .ok ts' ∧ Renders live v ts' s) ↔
        Renders live v ts s := by
      constructor
      · rintro ⟨_, ⟨⟩, h⟩
        exact h
      · exact fun h => ⟨ts, rfl, h⟩
    rw [hsame]
    unfold Renders
    cases live with
    | false => simp [hne]
    | true =>
      cases v with
      | none => simp [hne]
      | some v =>
        have hrenders : (ts = [] ∧ s = [] ∨ true = true ∧ ∃ v', some v = some v' ∧
            (∀ t ∈ ts, t < v'.nTokens ∧ (v'.piece t).length ≤ 2 ^ 20) ∧
              s = ts.flatMap v'.piece) ↔
            (∀ t ∈ ts, t < v.nTokens ∧ (v.piece t).length ≤ 2 ^ 20) ∧ s = ts.flatMap v.piece := by
          constructor
          · rintro (⟨rfl, -⟩ | ⟨-, v', ⟨⟩, hall, hs⟩)
            · exact absurd rfl hne
            · exact ⟨hall, hs⟩
          · exact fun h => .inr ⟨rfl, v, rfl, h⟩
        rw [hrenders, valid_iff hne]
        show (if v.nTokens = 0 ∨ ts.any (v.nTokens ≤ ·) = true then Except.error _
          else if ts.any (fun t => decide (2 ^ 20 < (v.piece t).length)) = true then Except.error _
          else Except.ok _) = Except.ok s ↔ _
        -- A token out of range, then a piece that is too large; otherwise the pieces in order.
        by_cases hvocab : v.nTokens = 0 ∨ ts.any (v.nTokens ≤ ·) = true
        · rw [if_pos hvocab]
          exact ⟨nofun, fun h => absurd hvocab h.2.1.1⟩
        rw [if_neg hvocab]
        by_cases hlarge : (ts.any fun t => decide (2 ^ 20 < (v.piece t).length)) = true
        · rw [if_pos hlarge]
          exact ⟨nofun, fun h => absurd hlarge h.2.1.2⟩
        rw [if_neg hlarge]
        constructor
        · rintro ⟨⟩
          exact ⟨hfew, ⟨hvocab, hlarge⟩, rfl⟩
        · rintro ⟨-, -, rfl⟩
          rfl

/-- Reading one token and the rest. -/
theorem parseTokens_cons (c : Int) (list : List (Option Int)) :
    parseTokens (some c :: list) =
      if c < 0 then .error .invalidToken else (parseTokens list).map (c.toNat :: ·) := rfl

/-- Reading goes on where it stopped. -/
theorem parseTokens_append_iff (a b : List (Option Int)) :
    parseTokens (a ++ b) = .ok ts ↔
      ∃ x y, parseTokens a = .ok x ∧ parseTokens b = .ok y ∧ ts = x ++ y := by
  induction a generalizing ts with
  | nil =>
    constructor
    · exact fun h => ⟨[], ts, rfl, h, rfl⟩
    · rintro ⟨_, y, ⟨⟩, hb, rfl⟩
      exact hb
  | cons c a ih =>
    cases c with
    | none =>
      constructor
      · rintro ⟨⟩
      · rintro ⟨_, _, ⟨⟩, -⟩
    | some c =>
      rw [List.cons_append, parseTokens_cons, parseTokens_cons]
      by_cases hneg : c < 0
      · rw [if_pos hneg, if_pos hneg]
        constructor
        · rintro ⟨⟩
        · rintro ⟨_, _, ⟨⟩, -⟩
      rw [if_neg hneg, if_neg hneg]
      constructor
      · intro h
        cases hab : parseTokens (a ++ b) with
        | error e =>
          rw [hab] at h
          cases h
        | ok rest =>
          rw [hab] at h
          cases h
          obtain ⟨x, y, ha, hb, rfl⟩ := ih.mp hab
          rw [ha]
          exact ⟨c.toNat :: x, y, rfl, hb, rfl⟩
      · rintro ⟨x, y, h, hb, rfl⟩
        cases ha : parseTokens a with
        | error e =>
          rw [ha] at h
          cases h
        | ok x' =>
          rw [ha] at h
          cases h
          rw [ih.mpr ⟨x', y, ha, hb, rfl⟩]
          rfl

/-- A list renders piece by piece. -/
theorem renders_append_iff {live : Bool} {v : Option TextVocab} {x y : List Token} {s : Bytes} :
    Renders live v (x ++ y) s ↔ ∃ s₁ s₂, Renders live v x s₁ ∧ Renders live v y s₂ ∧
      s = s₁ ++ s₂ := by
  constructor
  · rintro (⟨hnil, rfl⟩ | ⟨hlive, v', hv, hall, rfl⟩)
    · obtain ⟨rfl, rfl⟩ := List.append_eq_nil_iff.mp hnil
      exact ⟨[], [], .inl ⟨rfl, rfl⟩, .inl ⟨rfl, rfl⟩, rfl⟩
    · refine ⟨_, _, .inr ⟨hlive, v', hv, fun t ht => hall t (List.mem_append_left _ ht), rfl⟩,
        .inr ⟨hlive, v', hv, fun t ht => hall t (List.mem_append_right _ ht), rfl⟩, ?_⟩
      exact List.flatMap_append
  · rintro ⟨s₁, s₂, ⟨rfl, rfl⟩ | ⟨hlive, v', rfl, hx, rfl⟩, hy, rfl⟩
    · exact hy
    · rcases hy with ⟨rfl, rfl⟩ | ⟨-, v'', ⟨⟩, hy, rfl⟩
      · rw [List.append_nil, List.append_nil]
        exact .inr ⟨hlive, v', rfl, hx, rfl⟩
      · refine .inr ⟨hlive, v', rfl, fun t ht => ?_, List.flatMap_append.symm⟩
        rcases List.mem_append.mp ht with ht | ht
        · exact hx t ht
        · exact hy t ht

/-- **Rendering is a homomorphism.** Two lists that are not too long together are rendered one
    after the other exactly where each of them is rendered. -/
theorem nifDetokenize_append (live : Bool) (v : Option TextVocab) (a b : List (Option Int))
    (s : Bytes) :
    (call (fun _ => false) (nifDetokenize live v (a ++ b))).1 = .ok s ↔
      a.length + b.length ≤ maxTokens ∧ ∃ s₁ s₂,
        (call (fun _ => false) (nifDetokenize live v a)).1 = .ok s₁ ∧
        (call (fun _ => false) (nifDetokenize live v b)).1 = .ok s₂ ∧ s = s₁ ++ s₂ := by
  rw [(Faithful.of_owns fun _ => nifDetokenize_owns live v (a ++ b)).2,
    (Faithful.of_owns fun _ => nifDetokenize_owns live v a).2,
    (Faithful.of_owns fun _ => nifDetokenize_owns live v b).2]
  simp only [textOf_ok_iff, List.length_append]
  constructor
  · rintro ⟨hfew, ts, hparse, hrenders⟩
    obtain ⟨x, y, ha, hb, rfl⟩ := (parseTokens_append_iff a b).mp hparse
    obtain ⟨s₁, s₂, hx, hy, rfl⟩ := renders_append_iff.mp hrenders
    exact ⟨hfew, s₁, s₂, ⟨by omega, x, ha, hx⟩, ⟨by omega, y, hb, hy⟩, rfl⟩
  · rintro ⟨hfew, s₁, s₂, ⟨-, x, ha, hx⟩, ⟨-, y, hb, hy⟩, rfl⟩
    exact ⟨hfew, x ++ y, (parseTokens_append_iff a b).mpr ⟨x, y, ha, hb, rfl⟩,
      renders_append_iff.mpr ⟨s₁, s₂, hx, hy, rfl⟩⟩

end Erllama.Native.Text
