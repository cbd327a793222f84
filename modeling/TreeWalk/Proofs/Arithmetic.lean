/-
# Arithmetic of the integers

The operators on numbers compute with integers: what does not fit into 64 bits comes to the only
number that is congruent to it modulo `2 ^ 64` (`Number.Wraps`).  For powers this is an invariant of
squaring, which holds through every overflow of the product and of the base (`powAcc_modEq`); for
shifts it goes across the count where the definition by bits ends (`shiftLeft_modEq`,
`toInt_shiftRight`).  Quotients are truncated, and only one of them does not fit
(`toInt_div_eq_iff`).  The main statements are `power_wraps` and `quotients_and_shifts`.
-/
import Mathlib.Data.Int.ModEq
import Mathlib.Tactic.Lemma
import Mathlib.Tactic.Ring
import TreeWalk.Operators

namespace TreeWalk

namespace Number

/-- The number `n` is what the integer `z` comes to in 64 bits: the only one congruent to it. -/
def Wraps (z : Int) (n : Int64) : Prop := ∀ m : Int64, m.toInt ≡ z [ZMOD 2 ^ 64] ↔ m = n

lemma eq_of_modEq {m n : Int64} (h : m.toInt ≡ n.toInt [ZMOD 2 ^ 64]) : m = n := by
  -- both are between `-2 ^ 63` and `2 ^ 63`, so that no other multiple of `2 ^ 64` is between them
  have hm := m.le_toInt
  have hm' := m.toInt_lt
  have hn := n.le_toInt
  have hn' := n.toInt_lt
  obtain ⟨k, hk⟩ := h.dvd
  exact Int64.toInt_inj.mp (by omega)

lemma Wraps.of_modEq {z : Int} {n : Int64} (h : n.toInt ≡ z [ZMOD 2 ^ 64]) : Wraps z n :=
  fun _ => ⟨fun hm => eq_of_modEq (hm.trans h.symm), fun hm => hm ▸ h⟩

lemma bmod_modEq (z : Int) : z.bmod (2 ^ 64) ≡ z [ZMOD 2 ^ 64] := Int.bmod_emod

lemma toInt_mul_modEq (a b : Int64) : (a * b).toInt ≡ a.toInt * b.toInt [ZMOD 2 ^ 64] := by
  rw [Int64.toInt_mul]
  exact bmod_modEq _

lemma toInt_add_modEq (a b : Int64) : (a + b).toInt ≡ a.toInt + b.toInt [ZMOD 2 ^ 64] := by
  rw [Int64.toInt_add]
  exact bmod_modEq _

/-- The bits of a number, read without the sign, are congruent to it. -/
lemma toNat_modEq_toInt (x : BitVec 64) : (x.toNat : Int) ≡ x.toInt [ZMOD 2 ^ 64] := by
  rw [BitVec.toInt_eq_toNat_bmod]
  exact (bmod_modEq _).symm

/-! ### Powers -/

/-- A power by squaring: one factor is taken off from an odd exponent. -/
lemma mul_pow_half (acc base : Int) (n : Nat) :
    (if n % 2 = 1 then acc * base else acc) * (base * base) ^ (n / 2) = acc * base ^ n := by
  have hsquare : (base * base) ^ (n / 2) = base ^ (2 * (n / 2)) := by rw [pow_mul, sq]
  rw [hsquare]
  split
  · next hodd =>
    have hn : 2 * (n / 2) + 1 = n := by omega
    rw [mul_assoc, ← pow_succ', hn]
  · next heven =>
    have hn : 2 * (n / 2) = n := by omega
    rw [hn]

/-- The invariant of squaring: what has been taken off times the power that is left is congruent to
the whole power. -/
lemma powAcc_modEq (acc base : Int64) (n : Nat) :
    (powAcc acc base n).toInt ≡ acc.toInt * base.toInt ^ n [ZMOD 2 ^ 64] := by
  fun_induction powAcc acc base n with
  | case1 acc base => rw [pow_zero, mul_one]
  | case2 acc base n hn hlt ih =>
    have hacc : (if n % 2 = 1 then acc * base else acc).toInt ≡
        if n % 2 = 1 then acc.toInt * base.toInt else acc.toInt [ZMOD 2 ^ 64] := by
      split
      · exact toInt_mul_modEq acc base
      · exact .rfl
    calc (powAcc (if n % 2 = 1 then acc * base else acc) (base * base) (n / 2)).toInt
      _ ≡ (if n % 2 = 1 then acc * base else acc).toInt * (base * base).toInt ^ (n / 2)
          [ZMOD 2 ^ 64] := ih
      _ ≡ (if n % 2 = 1 then acc.toInt * base.toInt else acc.toInt) *
          (base.toInt * base.toInt) ^ (n / 2) [ZMOD 2 ^ 64] :=
        hacc.mul ((toInt_mul_modEq base base).pow (n / 2))
      _ = acc.toInt * base.toInt ^ n := mul_pow_half _ _ n

lemma pow_modEq (a : Int64) (n : Nat) : (pow a n).toInt ≡ a.toInt ^ n [ZMOD 2 ^ 64] := by
  have h := powAcc_modEq 1 a n
  rwa [Int64.toInt_one, one_mul] at h

lemma pow_zero (a : Int64) : pow a 0 = 1 := by
  rw [pow, powAcc]
  rfl

/-! ### Shifts -/

/-- A number that is not negative is the same without its sign. -/
lemma shiftCount_of_nonneg {b : Int64} (h : 0 ≤ b.toInt) : shiftCount b = b.toInt.toNat := by
  have hb : b.toInt = if 2 * shiftCount b < 2 ^ 64 then (shiftCount b : Int)
      else (shiftCount b : Int) - (2 ^ 64 : Nat) := BitVec.toInt_eq_toNat_cond b.toBitVec
  have hlt : shiftCount b < 2 ^ 64 := b.toBitVec.isLt
  split at hb <;> omega

/-- A count of less than 64 places is taken as it is. -/
lemma smod_of_shiftCount_lt {b : Int64} (h : shiftCount b < 64) :
    b.toBitVec.smod 64 = b.toBitVec := by
  have hb : b.toBitVec.toInt = shiftCount b :=
    BitVec.toInt_eq_toNat_of_lt (by change 2 * shiftCount b < 2 ^ 64; omega)
  refine BitVec.toInt_inj.mp ?_
  rw [BitVec.toInt_smod, hb]
  exact Int.fmod_eq_of_lt (by omega) (by change (shiftCount b : Int) < 64; omega)

lemma shiftLeft_modEq (a b : Int64) :
    (shiftLeft a b).toInt ≡ a.toInt * 2 ^ shiftCount b [ZMOD 2 ^ 64] := by
  unfold shiftLeft
  split
  · next hcount =>
    have hbits : (a <<< b).toBitVec = a.toBitVec <<< shiftCount b := by
      rw [Int64.toBitVec_shiftLeft, smod_of_shiftCount_lt hcount, BitVec.shiftLeft_eq']
      rfl
    rw [← Int64.toInt_toBitVec, hbits, BitVec.toInt_shiftLeft, Nat.shiftLeft_eq, Nat.cast_mul,
      Nat.cast_pow, ← Int64.toInt_toBitVec]
    exact (bmod_modEq _).trans ((toNat_modEq_toInt _).mul_right _)
  · next hcount =>
    -- there are so many factors of two that nothing is left modulo `2 ^ 64`
    have hdvd : (2 : Int) ^ 64 ∣ a.toInt * 2 ^ shiftCount b :=
      Dvd.dvd.mul_left (pow_dvd_pow 2 (Nat.le_of_not_lt hcount)) _
    exact (Int.modEq_zero_iff_dvd.mpr hdvd).symm

lemma toInt_shiftRight (a b : Int64) :
    (shiftRight a b).toInt = a.toInt.fdiv (2 ^ shiftCount b) := by
  have hpos : (0 : Int) < 2 ^ shiftCount b := Int.pow_pos (by decide)
  rw [Int.fdiv_eq_ediv_of_nonneg _ hpos.le]
  unfold shiftRight
  split
  · next hcount =>
    have hbits : (a >>> b).toBitVec = a.toBitVec.sshiftRight (shiftCount b) := by
      rw [Int64.toBitVec_shiftRight, smod_of_shiftCount_lt hcount, BitVec.sshiftRight_eq']
      rfl
    rw [← Int64.toInt_toBitVec, hbits, BitVec.toInt_sshiftRight, Int.shiftRight_eq_div_pow,
      Nat.cast_pow, ← Int64.toInt_toBitVec]
    rfl
  · next hcount =>
    -- the divisor is greater than any number, so that only the sign is left
    have hlarge : (2 : Int) ^ 64 ≤ 2 ^ shiftCount b := by
      exact_mod_cast Nat.pow_le_pow_right (by decide) (Nat.le_of_not_lt hcount)
    have hlow := a.le_toInt
    have hhigh := a.toInt_lt
    split
    · next hneg =>
      have hneg' : a.toInt < 0 := Int64.lt_iff_toInt_lt.mp hneg
      have hdiv : a.toInt / 2 ^ shiftCount b = -1 :=
        ((Int.ediv_emod_unique (r := a.toInt + 2 ^ shiftCount b) hpos).mpr
          ⟨by ring, by omega, by omega⟩).1
      rw [hdiv]
      rfl
    · next hneg =>
      have hneg' : 0 ≤ a.toInt := Int.not_lt.mp fun h => hneg (Int64.lt_iff_toInt_lt.mpr h)
      exact (Int.ediv_eq_zero_of_lt hneg' (by omega)).symm

/-! ### Quotients -/

lemma toInt_div_modEq (a b : Int64) :
    (a / b).toInt ≡ a.toInt.tdiv b.toInt [ZMOD 2 ^ 64] := by
  rw [Int64.toInt_div]
  exact bmod_modEq _

/-- The only quotient that does not fit is that of the least number by the number before zero. -/
lemma toInt_div_eq_iff (a b : Int64) :
    (a / b).toInt = a.toInt.tdiv b.toInt ↔ ¬ (a = Int64.minValue ∧ b = -1) := by
  constructor
  · rintro h ⟨rfl, rfl⟩
    exact absurd h (by decide)
  · intro h
    by_cases ha : a = Int64.minValue
    · exact Int64.toInt_div_of_ne_right a b fun hb => h ⟨ha, hb⟩
    · exact Int64.toInt_div_of_ne_left a b ha

lemma natAbs_toInt_mod_lt (a : Int64) {b : Int64} (hb : b ≠ 0) :
    (a % b).toInt.natAbs < b.toInt.natAbs := by
  have hpos : 0 < b.toInt.natAbs :=
    Int.natAbs_pos.mpr fun h => hb (Int64.toInt_inj.mp h)
  rw [Int64.toInt_mod, Int.natAbs_tmod]
  exact Nat.mod_lt _ hpos

/-- A remainder is zero or has the sign of the number that is divided. -/
lemma sign_toInt_mod (a b : Int64) : a % b = 0 ∨ (a % b).toInt.sign = a.toInt.sign := by
  by_cases hzero : (a % b).toInt = 0
  · exact .inl (Int64.toInt_inj.mp hzero)
  · right
    rw [Int64.toInt_mod] at hzero ⊢
    rcases Int.lt_trichotomy a.toInt 0 with hneg | hnull | hpos
    · have hle := Int.tmod_nonneg b.toInt (Int.neg_nonneg_of_nonpos hneg.le)
      rw [Int.neg_tmod] at hle
      rw [Int.sign_eq_neg_one_of_neg hneg, Int.sign_eq_neg_one_of_neg (by omega)]
    · rw [hnull, Int.zero_tmod]
    · have hle : 0 ≤ a.toInt.tmod b.toInt := Int.tmod_nonneg b.toInt hpos.le
      rw [Int.sign_eq_one_of_pos hpos, Int.sign_eq_one_of_pos (by omega)]

/-- A quotient and its remainder give the number back, also where the quotient does not fit. -/
lemma div_mul_add_mod (a b : Int64) : a / b * b + a % b = a := by
  refine eq_of_modEq ?_
  calc (a / b * b + a % b).toInt
    _ ≡ (a / b * b).toInt + (a % b).toInt [ZMOD 2 ^ 64] := toInt_add_modEq _ _
    _ ≡ a.toInt.tdiv b.toInt * b.toInt + a.toInt.tmod b.toInt [ZMOD 2 ^ 64] := by
      rw [Int64.toInt_mod]
      exact ((toInt_mul_modEq _ _).trans ((toInt_div_modEq a b).mul_right _)).add_right _
    _ = a.toInt := by rw [mul_comm, Int.mul_tdiv_add_tmod]

end Number

/-- The operator has no value for the two numbers: it fails with a `TypeError` of that message. -/
def BinaryOp.Refuses (op : BinaryOp) (a b : Int64) (message : String) : Prop :=
  ∃ fault, op.apply (.number a) (.number b) = .error fault ∧ fault.kind = .typeError ∧
    fault.message = message

open Number

/-- A power is that of the integers, wrapped around, and with zero for the exponent it is one; there
are no powers with a negative exponent. -/
theorem power_wraps (a b : Int64) :
    (0 ≤ b → ∃ n, BinaryOp.pow.apply (.number a) (.number b) = .ok (.number n) ∧
      Wraps (a.toInt ^ b.toInt.toNat) n) ∧
    BinaryOp.pow.apply (.number a) (.number 0) = .ok (.number 1) ∧
    (b < 0 → BinaryOp.pow.Refuses a b "negative exponent") := by
  have hzero := congrArg (fun n => Except.ok (ε := Fault) (Value.number n)) (Number.pow_zero a)
  refine ⟨fun hb => ?_, hzero, fun hb => ?_⟩
  · have hb' : 0 ≤ b.toInt := Int64.le_iff_toInt_le.mp hb
    refine ⟨pow a b.toInt.toNat, ?_, .of_modEq (pow_modEq a _)⟩
    rw [← shiftCount_of_nonneg hb']
    exact if_neg fun h => Int.not_lt.mpr hb' (Int64.lt_iff_toInt_lt.mp h)
  · exact ⟨.negativeExponent, if_pos hb, rfl, rfl⟩

/-- An odd power of a negative number that does not fit, and an exponent that is refused. -/
theorem power_wraps_negative :
    (0 : Int64) ≤ 41 ∧ (-1 : Int64) < 0 ∧
    BinaryOp.pow.apply (.number (-3)) (.number 41) = .ok (.number 420491770248316829) ∧
    BinaryOp.pow.Refuses (-3) (-1) "negative exponent" := by
  obtain ⟨n, hpow, hn⟩ := (power_wraps (-3) 41).1 (by decide)
  obtain rfl : 420491770248316829 = n := (hn _).mp (by decide)
  exact ⟨by decide, by decide, hpow, (power_wraps (-3) (-1)).2.2 (by decide)⟩

/-- Where the divisor is not zero, the quotient is that of the integers, truncated toward zero and
wrapped around, which makes a difference for one pair of numbers only; the remainder is less than
the divisor and has the sign of the number that is divided; and together they give that number back.
To divide by zero is refused.  The right operand of a shift is a count without a sign, and however
great it is, to shift to the left is to multiply with that power of two, wrapped around, and to
shift to the right is to divide by it, rounding down. -/
theorem quotients_and_shifts (a b : Int64) :
    (b ≠ 0 → ∃ q r p,
      BinaryOp.div.apply (.number a) (.number b) = .ok (.number q) ∧
      Wraps (a.toInt.tdiv b.toInt) q ∧
      (q.toInt = a.toInt.tdiv b.toInt ↔ ¬ (a = Int64.minValue ∧ b = -1)) ∧
      BinaryOp.rem.apply (.number a) (.number b) = .ok (.number r) ∧
      r.toInt.natAbs < b.toInt.natAbs ∧ (r = 0 ∨ r.toInt.sign = a.toInt.sign) ∧
      BinaryOp.mul.apply (.number q) (.number b) = .ok (.number p) ∧
      BinaryOp.add.apply (.number p) (.number r) = .ok (.number a)) ∧
    (b = 0 → BinaryOp.div.Refuses a b "divide by zero" ∧
      BinaryOp.rem.Refuses a b "modulo by zero") ∧
    (∃ n, BinaryOp.shl.apply (.number a) (.number b) = .ok (.number n) ∧
      Wraps (a.toInt * 2 ^ b.toUInt64.toNat) n) ∧
    ∃ n, BinaryOp.shr.apply (.number a) (.number b) = .ok (.number n) ∧
      n.toInt = a.toInt.fdiv (2 ^ b.toUInt64.toNat) := by
  refine ⟨fun hb => ⟨a / b, a % b, a / b * b, if_neg hb, .of_modEq (toInt_div_modEq a b),
    toInt_div_eq_iff a b, if_neg hb, natAbs_toInt_mod_lt a hb, sign_toInt_mod a b, rfl, ?_⟩,
    fun hb => ⟨⟨.divideByZero, if_pos hb, rfl, rfl⟩, .moduloByZero, if_pos hb, rfl, rfl⟩,
    ⟨shiftLeft a b, rfl, .of_modEq (shiftLeft_modEq a b)⟩,
    shiftRight a b, rfl, toInt_shiftRight a b⟩
  exact congrArg (fun n => Except.ok (Value.number n)) (div_mul_add_mod a b)

/-- The one quotient that does not fit, and a division that is refused. -/
theorem quotients_and_shifts_least :
    (-1 : Int64) ≠ 0 ∧
    (∃ q, BinaryOp.div.apply (.number Int64.minValue) (.number (-1)) = .ok (.number q) ∧
      q = Int64.minValue ∧ q.toInt ≠ Int64.minValue.toInt.tdiv (-1)) ∧
    BinaryOp.div.Refuses Int64.minValue 0 "divide by zero" := by
  obtain ⟨q, -, -, hdiv, hq, hfits, -⟩ :=
    (quotients_and_shifts Int64.minValue (-1)).1 (by decide)
  refine ⟨by decide, ⟨q, hdiv, ((hq _).mp (by decide)).symm, fun h => ?_⟩,
    ((quotients_and_shifts Int64.minValue 0).2.1 rfl).1⟩
  exact hfits.mp h ⟨rfl, rfl⟩

end TreeWalk
