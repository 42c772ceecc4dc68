import Mathlib.Data.List.Basic
import Mathlib.Logic.Function.Iterate

namespace Erllama.Lib

/-!
# Reflected cyclic redundancy checks

The register of a reflected CRC takes one bit of the message at a time, at its low end.  The
step is linear over exclusive or, and one to one if the polynomial has its top bit, which is
what makes a CRC see every short burst.

* `Crc.shift`, `Crc.feed` — the step of the register, and with a bit of the message.
* `Crc.iterate_shift_eq` — many steps at once, for a table of the low end.
* `Burst` — two words differ in one window.
* `Crc.feeds_ne_of_burst` — a burst that fits in the register changes it.
-/

/-! ### Bursts -/

/-- The words differ, and only inside a window of `k` letters. -/
structure Burst {α : Type*} (k : Nat) (xs ys : List α) : Prop where
  ne : xs ≠ ys
  window : ∃ pre u v post, xs = pre ++ (u ++ post) ∧ ys = pre ++ (v ++ post) ∧
    u.length = v.length ∧ u.length ≤ k

namespace Burst

variable {α : Type*} {k : Nat} {xs ys : List α}

/-- A burst keeps the length. -/
theorem length_eq (h : Burst k xs ys) : xs.length = ys.length := by
  obtain ⟨pre, u, v, post, rfl, rfl, hlen, -⟩ := h.window
  simp only [List.length_append, hlen]

/-- Neither the words nor the window grow. -/
theorem append (h : Burst k xs ys) (zs ws : List α) :
    Burst k (zs ++ (xs ++ ws)) (zs ++ (ys ++ ws)) := by
  refine ⟨fun heq => h.ne (List.append_cancel_right (List.append_cancel_left heq)), ?_⟩
  obtain ⟨pre, u, v, post, rfl, rfl, hlen, hk⟩ := h.window
  exact ⟨zs ++ pre, u, v, post ++ ws, by simp, by simp, hlen, hk⟩

/-- Short words that differ are a burst. -/
theorem of_length (hne : xs ≠ ys) (hlen : xs.length = ys.length) (hk : xs.length ≤ k) :
    Burst k xs ys :=
  ⟨hne, [], xs, ys, [], by simp, by simp, hlen, hk⟩

end Burst

/-! ### The register -/

namespace Crc

variable {w : Nat} (poly : BitVec w)

/-- One step of the register: the bit that falls out adds the polynomial. -/
def shift (c : BitVec w) : BitVec w :=
  if c.getLsbD 0 then poly ^^^ (c >>> 1) else c >>> 1

/-- A bit at the low end of a register. -/
def bit (b : Bool) : BitVec w := (BitVec.ofBool b).setWidth w

/-- A bit of the message, and a step. -/
def feed (c : BitVec w) (b : Bool) : BitVec w := shift poly (c ^^^ bit b)

/-- **The checksum**, bit by bit from a starting value, complemented before and after. -/
def update (crc : BitVec w) (bits : List Bool) : BitVec w := ~~~ bits.foldl (feed poly) (~~~ crc)

/-! ### Linearity -/

/-- One bit of a shifted register. -/
theorem getLsbD_shift (c : BitVec w) (i : Nat) :
    (shift poly c).getLsbD i = ((c.getLsbD 0 && poly.getLsbD i) ^^ c.getLsbD (1 + i)) := by
  unfold shift
  cases c.getLsbD 0 with
  | false => simp
  | true  => simp

/-- The bits of a one-bit word. -/
theorem getLsbD_bit (b : Bool) (i : Nat) :
    (bit b : BitVec w).getLsbD i = (decide (i < w) && (decide (i = 0) && b)) := by
  simp [bit]

/-- The shift is linear. -/
theorem shift_xor (a b : BitVec w) : shift poly (a ^^^ b) = shift poly a ^^^ shift poly b := by
  apply BitVec.eq_of_getLsbD_eq
  intro i _
  simp only [getLsbD_shift, BitVec.getLsbD_xor]
  generalize a.getLsbD (1 + i) = x
  generalize b.getLsbD (1 + i) = y
  cases a.getLsbD 0 <;> cases b.getLsbD 0 <;> cases poly.getLsbD i <;> cases x <;> cases y <;> rfl

/-- So is taking a bit as a word. -/
theorem bit_xor (a b : Bool) : (bit (a ^^ b) : BitVec w) = bit a ^^^ bit b := by
  cases a <;> cases b <;> simp [bit]

/-- So is any number of shifts. -/
theorem iterate_shift_xor (n : Nat) (a b : BitVec w) :
    (shift poly)^[n] (a ^^^ b) = (shift poly)^[n] a ^^^ (shift poly)^[n] b := by
  induction n generalizing a b with
  | zero => rfl
  | succ n ih =>
    rw [Function.iterate_succ_apply, Function.iterate_succ_apply, Function.iterate_succ_apply,
      shift_xor, ih]

/-- The registers of two messages add up to that of their sum. -/
theorem feeds_xor {xs ys : List Bool} (h : xs.length = ys.length) (a b : BitVec w) :
    (List.zipWith (· ^^ ·) xs ys).foldl (feed poly) (a ^^^ b) =
      xs.foldl (feed poly) a ^^^ ys.foldl (feed poly) b := by
  induction xs generalizing ys a b with
  | nil =>
    cases ys with
    | nil => rfl
    | cons y ys => exact nomatch h
  | cons x xs ih =>
    cases ys with
    | nil => exact nomatch h
    | cons y ys =>
      have hstep : feed poly (a ^^^ b) (x ^^ y) = feed poly a x ^^^ feed poly b y := by
        rw [feed, feed, feed, ← shift_xor, bit_xor]
        congr 1
        ac_rfl
      rw [List.zipWith_cons_cons, List.foldl_cons, List.foldl_cons, List.foldl_cons, hstep]
      exact ih (Nat.succ.inj h) _ _

/-! ### Many bits at once -/

/-- Where the low end is clear the register only moves. -/
theorem iterate_shift_of_clear {k : Nat} {c : BitVec w}
    (h : ∀ i < k, c.getLsbD i = false) : (shift poly)^[k] c = c >>> k := by
  induction k with
  | zero => simp
  | succ k ih =>
    rw [Function.iterate_succ_apply', ih fun i hi => h i (by omega), shift]
    have hlow : (c >>> k).getLsbD 0 = false := by simpa using h k (Nat.lt_succ_self k)
    rw [hlow, if_neg Bool.false_ne_true, BitVec.shiftRight_add]

/-- **Steps by a table.**  Of many steps only those of the low end need to be looked up. -/
theorem iterate_shift_eq {k : Nat} {mask : BitVec w}
    (hmask : ∀ i < w, mask.getLsbD i = decide (i < k)) (c : BitVec w) :
    (shift poly)^[k] c = (shift poly)^[k] (c &&& mask) ^^^ (c >>> k) := by
  have hsplit : c = (c &&& mask) ^^^ (c &&& ~~~mask) := by
    apply BitVec.eq_of_getLsbD_eq
    intro i hi
    simp only [BitVec.getLsbD_xor, BitVec.getLsbD_and, BitVec.getLsbD_not, hi, decide_true,
      Bool.true_and]
    cases c.getLsbD i <;> cases mask.getLsbD i <;> rfl
  have hclear : ∀ i < k, (c &&& ~~~mask).getLsbD i = false := by
    intro i hik
    by_cases hi : i < w
    · simp [hmask i hi, hik]
    · simp [hi]
  have hhigh : (c &&& ~~~mask) >>> k = c >>> k := by
    apply BitVec.eq_of_getLsbD_eq
    intro i _
    rw [BitVec.getLsbD_ushiftRight, BitVec.getLsbD_ushiftRight, BitVec.getLsbD_and,
      BitVec.getLsbD_not]
    by_cases hi : k + i < w
    · rw [hmask (k + i) hi]
      simp [hi]
    · simp [BitVec.getLsbD_of_ge c (k + i) (by omega)]
  have hmove := iterate_shift_of_clear poly hclear
  calc (shift poly)^[k] c
      = (shift poly)^[k] ((c &&& mask) ^^^ (c &&& ~~~mask)) := by rw [← hsplit]
    _ = (shift poly)^[k] (c &&& mask) ^^^ (c >>> k) := by rw [iterate_shift_xor, hmove, hhigh]

/-- **Bits together.**  Feeding the low bits of a word is adding the word, then stepping. -/
theorem feeds_range {k : Nat} {x : BitVec w} (hx : ∀ i, k ≤ i → x.getLsbD i = false)
    (c : BitVec w) :
    ((List.range k).map x.getLsbD).foldl (feed poly) c = (shift poly)^[k] (c ^^^ x) := by
  induction k generalizing x c with
  | zero =>
    have hzero : x = 0#w := BitVec.eq_of_getLsbD_eq fun i _ => by simpa using hx i (Nat.zero_le i)
    rw [hzero]
    exact (BitVec.xor_zero).symm
  | succ k ih =>
    -- the first bit, and what the others are once the register has moved
    have hsplit : x = bit (x.getLsbD 0) ^^^ (x >>> 1 <<< 1) := by
      apply BitVec.eq_of_getLsbD_eq
      intro i hi
      rw [BitVec.getLsbD_xor, getLsbD_bit, BitVec.getLsbD_shiftLeft, BitVec.getLsbD_ushiftRight]
      cases i with
      | zero => simp [hi]
      | succ i => simp [hi, Nat.add_comm 1 i]
    have hmove : shift poly (x >>> 1 <<< 1) = x >>> 1 := by
      have hlow : (x >>> 1 <<< 1).getLsbD 0 = false := by simp
      unfold shift
      rw [hlow, if_neg Bool.false_ne_true]
      apply BitVec.eq_of_getLsbD_eq
      intro i hi
      simp only [BitVec.getLsbD_ushiftRight, BitVec.getLsbD_shiftLeft]
      by_cases hlast : 1 + i < w
      · simp [hlast]
      · simp [hlast, BitVec.getLsbD_of_ge x (1 + i) (by omega)]
    have hstep : shift poly (c ^^^ x) = feed poly c (x.getLsbD 0) ^^^ (x >>> 1) := by
      have hassoc : c ^^^ x = (c ^^^ bit (x.getLsbD 0)) ^^^ (x >>> 1 <<< 1) := by
        rw [BitVec.xor_assoc, ← hsplit]
      rw [hassoc, shift_xor, hmove]
      rfl
    have htail : (List.range (k + 1)).map x.getLsbD =
        x.getLsbD 0 :: (List.range k).map (x >>> 1).getLsbD := by
      rw [List.range_succ_eq_map, List.map_cons, List.map_map]
      congr 1
      apply List.map_congr_left
      intro i _
      simp [Nat.add_comm 1 i]
    rw [htail, List.foldl_cons, Function.iterate_succ_apply, hstep]
    refine ih (fun i hi => ?_) _
    rw [BitVec.getLsbD_ushiftRight]
    exact hx (1 + i) (by omega)

/-! ### Bursts -/

section Burst

variable {poly} (htop : poly.getLsbD (w - 1) = true)

include htop

/-- A register that a short message clears held the message. -/
theorem getLsbD_of_feeds_eq_zero {bits : List Bool} (hlen : bits.length ≤ w) {c : BitVec w}
    (h : bits.foldl (feed poly) c = 0#w) : ∀ i < w, c.getLsbD i = bits.getD i false := by
  induction bits generalizing c with
  | nil =>
    intro i _
    rw [show c = 0#w from h]
    simp
  | cons b bits ih =>
    rw [List.length_cons] at hlen
    have hnext := ih (by omega) h
    have hbit : ∀ i, (feed poly c b).getLsbD i =
        (((c.getLsbD 0 ^^ b) && poly.getLsbD i) ^^ c.getLsbD (1 + i)) := by
      intro i
      rw [feed, getLsbD_shift, BitVec.getLsbD_xor, BitVec.getLsbD_xor, getLsbD_bit, getLsbD_bit]
      have hpos : 0 < w := by omega
      simp [hpos]
    -- the top bit of the register tells what fell out
    have hout : (c.getLsbD 0 ^^ b) = false := by
      have htopbit := hnext (w - 1) (by omega)
      rw [hbit, htop, BitVec.getLsbD_of_ge c (1 + (w - 1)) (by omega)] at htopbit
      rw [List.getD_eq_getElem?_getD, List.getElem?_eq_none (by omega)] at htopbit
      simpa using htopbit
    intro i hi
    cases i with
    | zero => simpa using hout
    | succ i =>
      have hrest := hnext i (by omega)
      rw [hbit, hout, Nat.add_comm 1 i] at hrest
      simpa using hrest

/-- No register is lost in a shift. -/
theorem shift_injective : Function.Injective (shift poly) := by
  intro a b h
  apply BitVec.eq_of_getLsbD_eq
  intro i hi
  have hzero : [false].foldl (feed poly) (a ^^^ b) = 0#w := by
    have hbit : (bit false : BitVec w) = 0#w := by simp [bit]
    show shift poly (a ^^^ b ^^^ bit false) = 0#w
    rw [hbit, BitVec.xor_zero, shift_xor, h, BitVec.xor_self]
  have hbits := getLsbD_of_feeds_eq_zero htop (by simp only [List.length_singleton]; omega)
    hzero i hi
  rw [BitVec.getLsbD_xor] at hbits
  cases i with
  | zero => simpa using hbits
  | succ i => simpa using hbits

/-- Nor in feeding bits. -/
theorem feeds_injective (bits : List Bool) :
    Function.Injective fun c => bits.foldl (feed poly) c := by
  induction bits with
  | nil => exact fun _ _ h => h
  | cons b bits ih =>
    intro x y h
    have hfeed : feed poly x b = feed poly y b := ih h
    have hxor := shift_injective htop hfeed
    calc x = x ^^^ (bit b ^^^ bit b) := by rw [BitVec.xor_self, BitVec.xor_zero]
      _ = y ^^^ (bit b ^^^ bit b) := by rw [← BitVec.xor_assoc, hxor, BitVec.xor_assoc]
      _ = y := by rw [BitVec.xor_self, BitVec.xor_zero]

/-- **A burst that fits in the register changes it**, whatever comes before and after. -/
theorem feeds_ne_of_burst {xs ys : List Bool} (h : Burst w xs ys) (c : BitVec w) :
    xs.foldl (feed poly) c ≠ ys.foldl (feed poly) c := by
  intro heq
  obtain ⟨pre, u, v, post, hxs, hys, hlen, hw⟩ := h.window
  rw [hxs, hys, List.foldl_append, List.foldl_append, List.foldl_append, List.foldl_append] at heq
  have hwindow := feeds_injective htop post heq
  have hzero : (List.zipWith (· ^^ ·) u v).foldl (feed poly) 0#w = 0#w := by
    have hsum := feeds_xor poly hlen (pre.foldl (feed poly) c) (pre.foldl (feed poly) c)
    rw [hwindow, BitVec.xor_self, BitVec.xor_self] at hsum
    exact hsum
  have hbits := getLsbD_of_feeds_eq_zero htop (by rw [List.length_zipWith]; omega) hzero
  -- so the two windows are the same
  refine h.ne ?_
  rw [hxs, hys]
  congr 2
  refine List.ext_getElem hlen fun i hu hv => ?_
  have hi := hbits i (by omega)
  have hin : i < (List.zipWith (· ^^ ·) u v).length := by
    rw [List.length_zipWith]
    omega
  rw [BitVec.getLsbD_zero, List.getD_eq_getElem?_getD, List.getElem?_eq_getElem hin,
    Option.getD_some, List.getElem_zipWith] at hi
  simpa using hi.symm

/-- **A burst no longer than the register changes it**. -/
theorem update_ne_of_burst {xs ys : List Bool} (h : Burst w xs ys) (crc : BitVec w) :
    update poly crc xs ≠ update poly crc ys := by
  intro heq
  exact feeds_ne_of_burst htop h _ (BitVec.not_inj.mp heq)

end Burst

end Crc

end Erllama.Lib
