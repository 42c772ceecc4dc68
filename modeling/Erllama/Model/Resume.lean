import Erllama.Lib.Bisect
import Erllama.Model.Adoption

namespace Erllama.Model

open Lib

/-!
# The prompt a warm admission decodes

A warm admission decodes the restored tokens and a suffix.  The suffix is found by bisection on
rendered lengths; tokens that render as nothing make several boundaries look the same.

* `lookupOrResume_byteSound` — context and suffix render to the prompt, and the bisection
  misses no boundary.
* `resumeSuffix_exact_iff` — the suffix is the prompt's own tail after the checkpoint iff the
  bisection meets the checkpoint's boundary before the others of its block.
* `lookupOrResume_misaligned_bos` — a suffix that is tokenised again starts with BOS.
-/

variable {σ γ Sid : Type} {env : Env σ γ} {row : CacheKey → RowKey} {d : Data σ γ Sid}
  {r : Req Sid} {tokens : List Token}

/-! ### Rendered lengths -/

/-- The token renders as nothing. -/
def zeroWidth (env : Env σ γ) (t : Token) : Bool := env.be.detokenize [t] = []

/-- The search of the source is a bisection on rendered lengths. -/
theorem splitTokensAtByteFrom_eq (ts : List Token) (target lo hi : Nat) :
    splitTokensAtByteFrom env ts target lo hi =
      (bisect (prefixByteSize env ts) target lo hi).map fun k => ts.drop k := by
  fun_induction splitTokensAtByteFrom env ts target lo hi with
  | case1 lo hi hlt mid size heq =>
    rw [bisect, if_pos hlt]
    dsimp only
    rw [if_pos heq]
    rfl
  | case2 lo hi hlt mid size hne hless ih =>
    conv_rhs => rw [bisect, if_pos hlt]
    dsimp only
    rw [if_neg hne, if_pos hless]
    exact ih
  | case3 lo hi hlt mid size hne hge ih =>
    conv_rhs => rw [bisect, if_pos hlt]
    dsimp only
    rw [if_neg hne, if_neg hge]
    exact ih
  | case4 lo hi hge =>
    rw [bisect, if_neg hge]
    rfl

namespace Renders

variable (h : Renders env)

include h

/-- A text is empty iff each of its tokens renders as nothing. -/
theorem eq_nil_iff (ts : List Token) :
    env.be.detokenize ts = [] ↔ ∀ t ∈ ts, zeroWidth env t = true := by
  induction ts with
  | nil => simp [h.nil]
  | cons t ts ih =>
    rw [show t :: ts = [t] ++ ts from rfl, h, List.append_eq_nil_iff, ih]
    simp [zeroWidth]

/-- The length of a prefix is that of a shorter one and what lies between. -/
theorem length_take_add (ts : List Token) {i j : Nat} (hij : i ≤ j) :
    (env.be.detokenize (ts.take j)).length = (env.be.detokenize (ts.take i)).length +
      (env.be.detokenize ((ts.drop i).take (j - i))).length := by
  have hsplit : ts.take j = ts.take i ++ (ts.drop i).take (j - i) := by
    rw [← List.take_add, Nat.add_sub_cancel' hij]
  rw [hsplit, h, List.length_append]

/-- Rendered lengths do not decrease. -/
theorem size_mono (ts : List Token) : Monotone (Model.prefixByteSize env ts) := by
  intro i j hij
  rw [h.prefixByteSize, h.prefixByteSize, h.length_take_add ts hij]
  exact Nat.le_add_right _ _

/-- Two boundaries look the same iff only tokens that render as nothing lie between them. -/
theorem size_eq_iff (ts : List Token) {i j : Nat} (hij : i ≤ j) :
    Model.prefixByteSize env ts i = Model.prefixByteSize env ts j ↔
      ∀ t ∈ (ts.drop i).take (j - i), zeroWidth env t = true := by
  rw [h.prefixByteSize, h.prefixByteSize, h.length_take_add ts hij, ← h.eq_nil_iff,
    ← List.length_eq_zero_iff]
  omega

/-- The boundary at the end of the prompt. -/
theorem size_length (ts : List Token) :
    Model.prefixByteSize env ts ts.length = (env.be.detokenize ts).length := by
  rw [h.prefixByteSize, List.take_length]

end Renders

/-! ### Tokenizers -/

/-- A tokenizer (`nif_tokenize`) of a text, with `add_special` and `parse_special`: with
    `add_special` BOS comes first, and a text without either has none. -/
structure Vocab where
  tokenize : Bytes → Bool → Bool → List Token
  bos : Token
  bosFirst : ∀ text parseSpecial, (tokenize text true parseSpecial).head? = some bos
  plain : ∀ text, bos ∉ tokenize text false false

/-- `erllama_model_llama:tokenize/2`. -/
def Vocab.backendTokenize (v : Vocab) (text : Bytes) : List Token := v.tokenize text true false

/-! ### Texts -/

/-- Tokenising what is left of the prompt's text and rendering it gives it back. -/
def Retokenises (env : Env σ γ) (tokens : List Token) : Prop :=
  ∀ n, env.be.detokenize (env.be.tokenize ((env.be.detokenize tokens).drop n)) =
    (env.be.detokenize tokens).drop n

/-- **The bisection misses no boundary**: it answers `misaligned` only if the target is none. -/
theorem splitTokensAtByte_none (hrenders : Renders env) {target : Nat}
    (h : splitTokensAtByte env tokens target = none) (k : Nat) (hk : k ≤ tokens.length) :
    (env.be.detokenize (tokens.take k)).length ≠ target := by
  rw [splitTokensAtByte, splitTokensAtByteFrom_eq, Option.map_eq_none_iff] at h
  rw [← hrenders.prefixByteSize]
  exact bisect_none (hrenders.size_mono tokens) h (Nat.zero_le k) (Nat.lt_succ_of_le hk)

/-- **Warm resume is byte-sound.** Whatever the prompt, the cache and the parent key, the
    restored tokens and the suffix of a warm admission render to the prompt's text; the suffix is
    empty only if the restored tokens render to all of it; and the search for the suffix answers
    a token boundary at its target, or that there is none. -/
theorem lookupOrResume_byteSound (hkeyed : RowsKeyed env row) (hrenders : Renders env)
    (hfree : CollisionFree env row d r tokens) (hrows : RowsRender env row d r)
    (hret : Retokenises env tokens) (parentKey : Option CacheKey) :
    (∀ w s, lookupOrResume env d r tokens parentKey = (some w, s) →
      env.be.detokenize w.context ++ env.be.detokenize w.suffix = env.be.detokenize tokens ∧
      (w.suffix = [] → env.be.detokenize w.context = env.be.detokenize tokens)) ∧
    (∀ target suffix, splitTokensAtByte env tokens target = some suffix →
      ∃ k ≤ tokens.length, suffix = tokens.drop k ∧
        (env.be.detokenize (tokens.take k)).length = target) ∧
    ∀ target, splitTokensAtByte env tokens target = none →
      ∀ k ≤ tokens.length, (env.be.detokenize (tokens.take k)).length ≠ target := by
  have hwhole : ∀ w s, lookupOrResume env d r tokens parentKey = (some w, s) →
      env.be.detokenize w.context ++ env.be.detokenize w.suffix = env.be.detokenize tokens := by
    intro w s hlookup
    obtain ⟨hpre, htail⟩ := lookupOrResume_resumesText hkeyed hrenders hfree hrows parentKey
      hlookup
    rcases htail with ⟨-, htail⟩ | htail
    · rw [← hrenders, htail]
    · rw [htail, hret]
      exact List.prefix_append_drop hpre |>.symm
  refine ⟨fun w s hlookup => ⟨hwhole w s hlookup, fun hnil => ?_⟩, ?_, ?_⟩
  · have htext := hwhole w s hlookup
    rwa [hnil, hrenders.nil, List.append_nil] at htext
  · intro target suffix hsplit
    rw [splitTokensAtByte, splitTokensAtByteFrom_eq] at hsplit
    obtain ⟨k, hk, rfl⟩ := Option.map_eq_some_iff.mp hsplit
    obtain ⟨hsize, -, hlt⟩ := bisect_some hk
    rw [hrenders.prefixByteSize] at hsize
    exact ⟨k, Nat.lt_succ_iff.mp hlt, rfl, hsize⟩
  · exact fun target hsplit k hk => splitTokensAtByte_none hrenders hsplit k hk

/-- Tokenising the bytes that are left of a prompt's text and rendering them gives them back. -/
theorem mapEnv_retokenises (p : MapParams) (c : MapCache) (n : Nat) (ts : List Token) :
    Retokenises (mapEnv p c n) ts := by
  have hback : ∀ b : Bytes, mapDetokenize (b.map UInt8.toNat) = b := by
    intro b
    unfold mapDetokenize
    have hall : (b.map UInt8.toNat).filter (· < 256) = b.map UInt8.toNat := by
      rw [List.filter_eq_self]
      intro t ht
      obtain ⟨x, -, rfl⟩ := List.mem_map.mp ht
      exact decide_eq_true x.toNat_lt
    rw [hall, List.map_map]
    exact (List.map_congr_left fun x _ => UInt8.ofNat_toNat).trans (List.map_id b)
  exact fun _ => hback _

/-- Bytes are tokens, token 300 is "AB", and token 301 is BOS. -/
def pairDetokenize (ts : List Token) : Bytes :=
  ts.flatMap fun t => if t = 300 then [65, 66] else if t < 256 then [UInt8.ofNat t] else []

/-- The tokenizer that knows bytes only. -/
def pairVocab : Vocab where
  tokenize text addSpecial _ :=
    if addSpecial then 301 :: text.map UInt8.toNat else text.map UInt8.toNat
  bos := 301
  bosFirst _ _ := rfl
  plain text hmem := by
    obtain ⟨x, -, hx⟩ := List.mem_map.mp hmem
    have hx' : x.toNat = 301 := hx
    have hlt := x.toNat_lt
    omega

/-- The row of the prompt "A", tokens BOS and "A". -/
def halfRow : RowKey := ⟨.fill 1, .f16, .fill 0, [65]⟩

/-- The cache that hands that row out. -/
def halfCache : MapCache := oneRowCache halfRow ⟨[45, 1, 0, 0, 65, 0, 0, 0], by decide⟩

/-- The map backend with this tokenizer. -/
def pairEnv : Env MapCtx Unit :=
  { mapEnv plainParams halfCache 1 with
    be := { mapBackend plainParams with
      tokenize := pairVocab.backendTokenize
      detokenize := pairDetokenize } }

theorem pairEnv_renders : Renders pairEnv := fun _ _ => List.flatMap_append

theorem pairEnv_collisionFree :
    CollisionFree pairEnv (fun _ => halfRow) (mapProc plainParams halfCache 1).data promptA
      [301, 300] :=
  collisionFree_of_list (by decide)

/-- What the cache hands out is the half row. -/
theorem pairEnv_rowsRender :
    RowsRender pairEnv (fun _ => halfRow) (mapProc plainParams halfCache 1).data promptA := by
  intro w key holder tier tokensBin w' hclaimed _
  obtain ⟨-, rfl⟩ := oneRowCache_claimed hclaimed
  rfl

/-- Tokenising with BOS in front does not change the text. -/
theorem pairEnv_retokenises (ts : List Token) : Retokenises pairEnv ts := by
  have hbyte : ∀ x : UInt8, pairDetokenize [x.toNat] = [x] := by
    intro x
    have hx := x.toNat_lt
    have hpair : x.toNat ≠ 300 := by omega
    simp [pairDetokenize, hpair, hx]
  have hback : ∀ b : Bytes, pairDetokenize (b.map UInt8.toNat) = b := by
    intro b
    induction b with
    | nil          => rfl
    | cons x b ih =>
      have hsplit := pairEnv_renders [x.toNat] (b.map UInt8.toNat)
      exact hsplit.trans (congrArg₂ (· ++ ·) (hbyte x) ih)
  exact fun _ => hback _

/-- The prompt BOS, "AB" with the row of BOS, "A" as its parent. -/
theorem halfRow_resumed :
    (lookupOrResume pairEnv (mapProc plainParams halfCache 1).data promptA [301, 300]
      (some (shortHash halfRow.preimage))).1 = some ⟨[301, 65], [301, 66], .partialHit⟩ := by
  decide +kernel

/-- An exact, a partial and a misaligned hit: on the row of the prompt `[300, 65]` the prompt "A"
    has no suffix and the prompt "AB" has "B"; on the row BOS, "A" the prompt BOS, "AB" gets its
    suffix from the tokenizer. -/
theorem lookupOrResume_byteSound_marked :
    mapDetokenize [300, 65] ++ mapDetokenize [] = mapDetokenize [65] ∧
      mapDetokenize [300, 65] ++ mapDetokenize [66] = mapDetokenize [65, 66] ∧
      pairDetokenize [301, 65] ++ pairDetokenize [301, 66] = pairDetokenize [301, 300] := by
  have hpartial : (lookupOrResume (mapEnv plainParams markedCache 1)
      (mapProc plainParams markedCache 1).data promptA [65, 66] none).1 =
        some ⟨[300, 65], [66], .partialHit⟩ := by
    decide +kernel
  refine ⟨?_, ?_, ?_⟩
  · exact (lookupOrResume_byteSound markedCache_keyed (mapEnv_renders _ _ _)
      (collisionFree_of_list (by decide)) markedCache_rowsRender
      (mapEnv_retokenises _ _ _ [65]) none).1
        ⟨[300, 65], [], .exact⟩ _ rfl |>.1
  · exact (lookupOrResume_byteSound markedCache_keyed (mapEnv_renders _ _ _)
      (collisionFree_of_list (by decide)) markedCache_rowsRender
      (mapEnv_retokenises _ _ _ [65, 66]) none).1
        _ _ (Prod.ext hpartial rfl) |>.1
  · have hkeyed : RowsKeyed pairEnv fun _ => halfRow := oneRowCache_keyed halfRow _
    exact (lookupOrResume_byteSound hkeyed pairEnv_renders pairEnv_collisionFree
      pairEnv_rowsRender (pairEnv_retokenises _) _).1 _ _ (Prod.ext halfRow_resumed rfl) |>.1

/-! ### Boundaries that look the same -/

/-- How many tokens before the boundary render as nothing. -/
def runBefore (env : Env σ γ) (ts : List Token) (k : Nat) : Nat :=
  ((ts.take k).reverse.takeWhile (zeroWidth env)).length

/-- How many tokens after the boundary render as nothing. -/
def runAfter (env : Env σ γ) (ts : List Token) (k : Nat) : Nat :=
  ((ts.drop k).takeWhile (zeroWidth env)).length

/-- The boundary that a bisection of all boundaries meets first in the block of those that
    differ from `k` only by tokens that render as nothing. -/
def firstMet (env : Env σ γ) (ts : List Token) (k : Nat) : Option Nat :=
  bisect (side (k - runBefore env ts k) (k + runAfter env ts k)) 1 0 (ts.length + 1)

/-- The boundary `k` is the one its block is left at; when the rest renders as nothing, there
    must be no rest. -/
def MetFirst (env : Env σ γ) (ts : List Token) (k : Nat) : Prop :=
  if (ts.drop k).all (zeroWidth env) then k = ts.length else firstMet env ts k = some k

/-- How far a predicate reaches into a list. -/
theorem le_length_takeWhile_iff {α : Type*} (p : α → Bool) (l : List α) {m : Nat} :
    m ≤ (l.takeWhile p).length ↔ m ≤ l.length ∧ ∀ x ∈ l.take m, p x = true := by
  induction l generalizing m with
  | nil => simp
  | cons x l ih =>
    cases m with
    | zero   => simp
    | succ m =>
      by_cases hx : p x = true
      · rw [List.takeWhile_cons_of_pos hx]
        simp [ih, hx]
      · rw [List.takeWhile_cons_of_neg hx]
        simp [hx]

section Block

variable (hrenders : Renders env) (ts : List Token) {j k : Nat}

include hrenders

/-- **The block of a boundary**: the boundaries at which the prompt's text has the same length. -/
theorem size_eq_iff_block (hj : j ≤ ts.length) (hk : k ≤ ts.length) :
    prefixByteSize env ts j = prefixByteSize env ts k ↔
      k - runBefore env ts k ≤ j ∧ j ≤ k + runAfter env ts k := by
  rcases Nat.le_total j k with hjk | hkj
  · have hrun : k - j ≤ runBefore env ts k ↔
        ∀ t ∈ (ts.drop j).take (k - j), zeroWidth env t = true := by
      have hlen : (ts.take k).length = k := List.length_take_of_le hk
      rw [runBefore, le_length_takeWhile_iff, List.length_reverse, hlen, List.take_reverse, hlen,
        Nat.sub_sub_self hjk, List.drop_take]
      simp only [List.mem_reverse]
      exact and_iff_right (Nat.sub_le k j)
    rw [hrenders.size_eq_iff ts hjk, ← hrun]
    omega
  · have hrun : j - k ≤ runAfter env ts k ↔
        ∀ t ∈ (ts.drop k).take (j - k), zeroWidth env t = true := by
      rw [runAfter, le_length_takeWhile_iff, List.length_drop]
      exact and_iff_right (by omega)
    rw [eq_comm, hrenders.size_eq_iff ts hkj, ← hrun]
    omega

/-- The boundaries before the block are those with a shorter text. -/
theorem size_lt_iff_block (hj : j ≤ ts.length) (hk : k ≤ ts.length) :
    prefixByteSize env ts j < prefixByteSize env ts k ↔ j < k - runBefore env ts k := by
  have hblock := size_eq_iff_block hrenders ts hj hk
  rcases Nat.lt_or_ge j k with hjk | hkj
  · have hle := hrenders.size_mono ts hjk.le
    have hne : prefixByteSize env ts j < prefixByteSize env ts k ↔
        ¬ prefixByteSize env ts j = prefixByteSize env ts k :=
      ⟨fun h => h.ne, fun h => lt_of_le_of_ne hle h⟩
    rw [hne, hblock]
    omega
  · have hle := hrenders.size_mono ts hkj
    constructor
    · intro h
      exact absurd h (not_lt.mpr hle)
    · intro h
      omega

/-- The search for the checkpoint's byte length finds the boundary the block is left at. -/
theorem splitTokensAtByte_boundary (hk : k ≤ ts.length) :
    splitTokensAtByte env ts (prefixByteSize env ts k) =
      (firstMet env ts k).map fun i => ts.drop i := by
  rw [splitTokensAtByte, splitTokensAtByteFrom_eq, firstMet]
  congr 1
  refine bisect_congr fun i _ hi => ?_
  have hi' : i ≤ ts.length := Nat.lt_succ_iff.mp hi
  rw [side_eq_one_iff, side_lt_one_iff]
  exact ⟨size_eq_iff_block hrenders ts hi' hk, size_lt_iff_block hrenders ts hi' hk⟩

/-- The search always meets the block. -/
theorem firstMet_isSome (hk : k ≤ ts.length) : ∃ i ≤ ts.length, firstMet env ts k = some i := by
  cases hmet : bisect (prefixByteSize env ts) (prefixByteSize env ts k) 0 (ts.length + 1) with
  | none   =>
    exact absurd rfl
      (bisect_none (hrenders.size_mono ts) hmet (Nat.zero_le k) (Nat.lt_succ_of_le hk))
  | some i =>
    refine ⟨i, Nat.lt_succ_iff.mp (bisect_some hmet).2.2, ?_⟩
    rw [← hmet, firstMet]
    refine (bisect_congr fun i _ hi => ?_).symm
    have hi' : i ≤ ts.length := Nat.lt_succ_iff.mp hi
    rw [side_eq_one_iff, side_lt_one_iff]
    exact ⟨size_eq_iff_block hrenders ts hi' hk, size_lt_iff_block hrenders ts hi' hk⟩

/-- The rest of a prompt renders as nothing iff the checkpoint has the whole text. -/
theorem rest_zeroWidth_iff (hk : k ≤ ts.length) :
    (ts.drop k).all (zeroWidth env) = true ↔
      (env.be.detokenize ts).length - prefixByteSize env ts k = 0 := by
  have hle := hrenders.size_mono ts hk
  have heq := hrenders.size_eq_iff ts hk
  rw [hrenders.size_length] at hle heq
  have hrest : (ts.drop k).take (ts.length - k) = ts.drop k := by
    rw [List.take_of_length_le]
    rw [List.length_drop]
  rw [hrest] at heq
  rw [List.all_eq_true, ← heq]
  omega

/-- **One checkpoint**: the suffix is the prompt's tail after it iff its boundary is met first. -/
theorem resumeSuffix_boundary_iff (hk : k ≤ ts.length) :
    resumeSuffix env ts (env.be.detokenize ts) (prefixByteSize env ts k) = ts.drop k ↔
      MetFirst env ts k := by
  have hdrop : ∀ i ≤ ts.length, ts.drop i = ts.drop k ↔ i = k := by
    intro i hi
    refine ⟨fun heq => ?_, fun heq => by rw [heq]⟩
    have hlen := congrArg List.length heq
    rw [List.length_drop, List.length_drop] at hlen
    omega
  unfold resumeSuffix MetFirst
  by_cases hrest : (ts.drop k).all (zeroWidth env) = true
  · rw [if_pos hrest, if_pos ((rest_zeroWidth_iff hrenders ts hk).mp hrest), eq_comm,
      List.drop_eq_nil_iff]
    omega
  · obtain ⟨i, hi, hmet⟩ := firstMet_isSome hrenders ts hk
    rw [if_neg hrest, if_neg ((rest_zeroWidth_iff hrenders ts hk).not.mp hrest),
      splitTokensAtByte_boundary hrenders ts hk, hmet, Option.map_some, Option.getD_some,
      hdrop i hi, Option.some.injEq]

end Block

/-- A boundary between two tokens that both render as something is met first. -/
theorem metFirst_of_visible (ts : List Token) {k : Nat} (hk : k ≤ ts.length)
    (hlast : ∀ t ∈ (ts.take k).getLast?, zeroWidth env t = false)
    (hnext : ∀ t ∈ (ts.drop k).head?, zeroWidth env t = false) : MetFirst env ts k := by
  have hbefore : runBefore env ts k = 0 := by
    unfold runBefore
    rw [List.getLast?_eq_head?_reverse] at hlast
    cases hrev : (ts.take k).reverse with
    | nil      => rfl
    | cons t _ =>
      rw [hrev] at hlast
      rw [List.takeWhile_cons_of_neg (by rw [hlast t rfl]; simp)]
      rfl
  have hafter : runAfter env ts k = 0 := by
    unfold runAfter
    cases hdrop : ts.drop k with
    | nil      => rfl
    | cons t _ =>
      rw [hdrop] at hnext
      rw [List.takeWhile_cons_of_neg (by rw [hnext t rfl]; simp)]
      rfl
  unfold MetFirst
  split
  · rename_i hall
    cases hdrop : ts.drop k with
    | nil      =>
      have hle := List.drop_eq_nil_iff.mp hdrop
      omega
    | cons t _ =>
      rw [hdrop] at hall hnext
      rw [List.all_cons, hnext t rfl] at hall
      cases hall
  · unfold firstMet
    rw [hbefore, hafter, Nat.sub_zero, Nat.add_zero]
    cases hmet : bisect (side k k) 1 0 (ts.length + 1) with
    | none   =>
      exact absurd (side_eq_one_iff.mpr ⟨le_rfl, le_rfl⟩)
        (bisect_none (side_mono k k) hmet (Nat.zero_le k) (Nat.lt_succ_of_le hk))
    | some i =>
      have hi := side_eq_one_iff.mp (bisect_some hmet).1
      rw [Option.some.injEq]
      omega

/-- **When warm resume is token-exact.** The restored tokens and the suffix are the prompt's
    tokens iff the checkpoint's boundary is the one that the bisection meets first in its block;
    so every checkpoint of a prompt resumes exactly iff no token of the prompt renders as
    nothing. -/
theorem resumeSuffix_exact_iff (hrenders : Renders env) (tokens : List Token) :
    (∀ checkpoint, checkpoint <+: tokens →
      (checkpoint ++ resumeSuffix env tokens (env.be.detokenize tokens)
          (env.be.detokenize checkpoint).length = tokens ↔
        MetFirst env tokens checkpoint.length)) ∧
    ((∀ checkpoint, checkpoint <+: tokens →
      checkpoint ++ resumeSuffix env tokens (env.be.detokenize tokens)
        (env.be.detokenize checkpoint).length = tokens) ↔
      ∀ t ∈ tokens, zeroWidth env t = false) := by
  have hone : ∀ k ≤ tokens.length, (tokens.take k ++ resumeSuffix env tokens
      (env.be.detokenize tokens) (env.be.detokenize (tokens.take k)).length = tokens ↔
        MetFirst env tokens k) := by
    intro k hk
    rw [← hrenders.prefixByteSize, ← resumeSuffix_boundary_iff hrenders tokens hk]
    conv_lhs => rhs; rw [← List.take_append_drop k tokens]
    exact List.append_right_inj _
  constructor
  · rintro checkpoint hpre
    have htake := List.prefix_iff_eq_take.mp hpre
    have h := hone checkpoint.length hpre.length_le
    rwa [← htake] at h
  · constructor
    · intro hall t ht
      by_contra hzero
      rw [Bool.not_eq_false] at hzero
      obtain ⟨i, hi, rfl⟩ := List.getElem_of_mem ht
      -- the boundaries before and after this token look the same, but their tails differ
      have hsame : prefixByteSize env tokens i = prefixByteSize env tokens (i + 1) := by
        have hbetween : (tokens.drop i).take (i + 1 - i) = [tokens[i]] := by
          rw [Nat.add_sub_cancel_left, List.drop_eq_getElem_cons hi]
          rfl
        rw [hrenders.size_eq_iff tokens (Nat.le_succ i), hbetween]
        simpa using hzero
      have hbefore := (resumeSuffix_boundary_iff hrenders tokens hi.le).mpr
        ((hone i hi.le).mp (hall _ (List.take_prefix i tokens)))
      have hafter := (resumeSuffix_boundary_iff hrenders tokens hi).mpr
        ((hone (i + 1) hi).mp (hall _ (List.take_prefix (i + 1) tokens)))
      rw [hsame, hafter] at hbefore
      have hlen := congrArg List.length hbefore
      rw [List.length_drop, List.length_drop] at hlen
      omega
    · intro hvisible checkpoint hpre
      rw [List.prefix_iff_eq_take.mp hpre, hone _ hpre.length_le]
      refine metFirst_of_visible tokens hpre.length_le (fun t ht => ?_) (fun t ht => ?_)
      · exact hvisible t (List.mem_of_mem_take (List.mem_of_getLast? ht))
      · exact hvisible t (List.mem_of_mem_drop (List.mem_of_head? ht))

/-- The checkpoint ends with a control token: the suffix repeats it. -/
theorem resumeSuffix_repeats :
    [65, 300] <+: [65, 300, 66] ∧
      resumeSuffix (mapEnv plainParams .empty 1) [65, 300, 66] (mapDetokenize [65, 300, 66])
        (mapDetokenize [65, 300]).length = [300, 66] ∧
      [65, 300] ++ resumeSuffix (mapEnv plainParams .empty 1) [65, 300, 66]
        (mapDetokenize [65, 300, 66]) (mapDetokenize [65, 300]).length ≠ [65, 300, 66] := by
  have hsuffix : resumeSuffix (mapEnv plainParams .empty 1) [65, 300, 66]
      (mapDetokenize [65, 300, 66]) (mapDetokenize [65, 300]).length = [300, 66] := by
    decide +kernel
  refine ⟨⟨[66], rfl⟩, hsuffix, ?_⟩
  rw [hsuffix]
  decide

/-- A prompt of text tokens resumes exactly from its checkpoint. -/
theorem resumeSuffix_exact_text :
    [65] ++ resumeSuffix (mapEnv plainParams .empty 1) [65, 66] (mapDetokenize [65, 66])
      (mapDetokenize [65]).length = [65, 66] :=
  (resumeSuffix_exact_iff (mapEnv_renders plainParams .empty 1) [65, 66]).2.mpr (by decide)
    [65] ⟨[66], rfl⟩

/-! ### Suffixes that are tokenised again -/

/-- BOS stands at most at the front. -/
def BosAtFront (bos : Token) (ts : List Token) : Prop := ∀ i, ts[i]? = some bos → i = 0

/-- **A misaligned suffix** is the rest of the text, tokenised. -/
theorem resumeSuffix_misaligned (hrenders : Renders env) {n : Nat}
    (hn : n ≤ (env.be.detokenize tokens).length)
    (hmis : ∀ k ≤ tokens.length, (env.be.detokenize (tokens.take k)).length ≠ n) :
    resumeSuffix env tokens (env.be.detokenize tokens) n =
      env.be.tokenize ((env.be.detokenize tokens).drop n) := by
  have hend := hmis tokens.length le_rfl
  rw [List.take_length] at hend
  have hrest : ¬ (env.be.detokenize tokens).length - n = 0 := by omega
  have hnone : splitTokensAtByte env tokens n = none := by
    rw [splitTokensAtByte, splitTokensAtByteFrom_eq, Option.map_eq_none_iff]
    cases hmet : bisect (prefixByteSize env tokens) n 0 (tokens.length + 1) with
    | none   => rfl
    | some k =>
      obtain ⟨hsize, -, hlt⟩ := bisect_some hmet
      rw [hrenders.prefixByteSize] at hsize
      exact absurd hsize (hmis k (Nat.lt_succ_iff.mp hlt))
  rw [resumeSuffix, if_neg hrest, hnone, Option.getD_none]

/-- **A tokenised suffix is never a continuation.** On every misaligned hit, of a prefix or of
    the parent row, the suffix starts with BOS, so the decoded sequence has BOS after the
    checkpoint. -/
theorem lookupOrResume_misaligned_bos (v : Vocab) (htok : env.be.tokenize = v.backendTokenize)
    (hkeyed : RowsKeyed env row) (hrenders : Renders env)
    (hfree : CollisionFree env row d r tokens) (hrows : RowsRender env row d r)
    (parentKey : Option CacheKey) {w : Warm} {s : Sys σ γ Sid}
    (h : lookupOrResume env d r tokens parentKey = (some w, s)) (hkind : w.kind = .partialHit)
    (hcontext : w.context ≠ [])
    (hmis : ∀ k ≤ tokens.length,
      (env.be.detokenize (tokens.take k)).length ≠ (env.be.detokenize w.context).length) :
    v.bos ∈ w.suffix ∧ ¬ BosAtFront v.bos (w.context ++ w.suffix) := by
  have hsuffix : w.suffix.head? = some v.bos := by
    have hretok : ∀ n ≤ (env.be.detokenize tokens).length,
        (env.be.detokenize w.context).length = n →
        (resumeSuffix env tokens (env.be.detokenize tokens) n).head? = some v.bos := by
      intro n hn hlen
      rw [resumeSuffix_misaligned hrenders hn fun k hk => hlen ▸ hmis k hk, htok]
      exact v.bosFirst _ false
    have hwarm : (lookupOrResume env d r tokens parentKey).1 = some w := by rw [h]
    obtain ⟨key, hadopts, hrestored⟩ := lookupOrResume_adopts hwarm
    have hout := hrestored.handsOut
    obtain ⟨w₀, holder, tier, tokensBin, w₁, -, -, -, hclaimed, -, hctx, -⟩ := hrestored.row
    cases hadopts with
    | exact ts => cases hkind
    | parent ts hparent hpre => exact hretok _ hpre.length_le rfl
    | longest n ts =>
      -- the row's text is the prompt's prefix of `n` bytes, and not the whole prompt
      obtain ⟨hfields, htext⟩ := hkeyed.own_key hfree hout
      have hrow : env.be.detokenize ts = (env.be.detokenize tokens).take n := by
        rw [show ts = tokensBin.elim [] TokensBin.decode from hctx,
          hrows w₀ _ holder tier tokensBin w₁ hclaimed hfields, htext]
      have hend := hmis tokens.length le_rfl
      rw [List.take_length] at hend
      have hlen : (env.be.detokenize ts).length = min n (env.be.detokenize tokens).length := by
        rw [hrow, List.length_take]
      have hlt : n < (env.be.detokenize tokens).length := by
        by_contra hge
        exact hend (hlen.trans (Nat.min_eq_right (Nat.not_lt.mp hge))).symm
      exact hretok n hlt.le (hlen.trans (Nat.min_eq_left hlt.le))
  refine ⟨List.mem_of_head? hsuffix, fun hfront => hcontext ?_⟩
  have hat : (w.context ++ w.suffix)[w.context.length]? = some v.bos := by
    rw [List.getElem?_append_right le_rfl, Nat.sub_self, ← List.head?_eq_getElem?, hsuffix]
  exact List.length_eq_zero_iff.mp (hfront _ hat)

/-- Prompt and row have BOS at the front only, and the rest of the text gets one of its own. -/
theorem halfRow_misaligned :
    BosAtFront 301 [301, 300] ∧ BosAtFront 301 [301, 65] ∧
      ∃ w s, lookupOrResume pairEnv (mapProc plainParams halfCache 1).data promptA [301, 300]
          (some (shortHash halfRow.preimage)) = (some w, s) ∧
        w.kind = .partialHit ∧ w.context = [301, 65] ∧ 301 ∈ w.suffix ∧
        ¬ BosAtFront 301 (w.context ++ w.suffix) := by
  have hfront : ∀ t : Token, t ≠ 301 → BosAtFront 301 [301, t] := by
    intro t ht i hi
    match i with
    | 0     => rfl
    | 1     => exact absurd (Option.some.inj hi) ht
    | _ + 2 => cases hi
  refine ⟨hfront 300 (by decide), hfront 65 (by decide), _, _, Prod.ext halfRow_resumed rfl, rfl,
    rfl, by decide, fun h => ?_⟩
  have hzero : 2 = 0 := h 2 rfl
  cases hzero

/-- The same, as the case of a misaligned hit on a parent row. -/
theorem halfRow_misaligned_bos :
    (301 : Token) ∈ [301, 66] ∧ ¬ BosAtFront 301 ([301, 65] ++ [301, 66]) := by
  have hkeyed : RowsKeyed pairEnv fun _ => halfRow := oneRowCache_keyed halfRow _
  exact lookupOrResume_misaligned_bos pairVocab rfl hkeyed pairEnv_renders
    pairEnv_collisionFree pairEnv_rowsRender _ (Prod.ext halfRow_resumed rfl) rfl (by decide)
    (by decide)

end Erllama.Model
