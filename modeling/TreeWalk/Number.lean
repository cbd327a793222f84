/-
# Whole numbers of 64 bits

Powers and shifts of signed numbers that wrap around.  The other operations are those of `Int64`.
-/
namespace TreeWalk.Number

/-- `acc` times `base` to the power `n`, by squaring: an odd exponent takes one factor off, and half
of an even one stands for the square of the base. -/
def powAcc (acc base : Int64) (n : Nat) : Int64 :=
  if h : n = 0 then acc
  else
    have : n / 2 < n := Nat.div_lt_self (Nat.pos_of_ne_zero h) (by decide)
    powAcc (if n % 2 = 1 then acc * base else acc) (base * base) (n / 2)
termination_by n

/-- `a` to the power `n`. -/
def pow (a : Int64) (n : Nat) : Int64 := powAcc 1 a n

/-- A count of places to shift: the number read without its sign. -/
def shiftCount (b : Int64) : Nat := b.toUInt64.toNat

/-- `a` with its bits moved up; from 64 places on nothing is left. -/
def shiftLeft (a b : Int64) : Int64 := if shiftCount b < 64 then a <<< b else 0

/-- `a` with its bits moved down, the sign filling the free places. -/
def shiftRight (a b : Int64) : Int64 :=
  if shiftCount b < 64 then a >>> b else if a < 0 then -1 else 0

end TreeWalk.Number
