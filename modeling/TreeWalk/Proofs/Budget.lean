/-
# Budgets of steps

The counter of the steps goes on with zero after its largest number, so that a budget is not spent
once and for all: the steps with numbers above the limit are refused, but then steps are granted
again.  That a run does not come so far is a matter of what it pays for a step that is refused.
Where errors are not caught it ends with the first one.  Where they are, each one that is caught was
called for by an expression that took a step before it, and this step was granted.  So a run lives
on a `Budget`, which says where the next refused steps are, and its debt (`Budget.debt`) never gets
as large as their number.
-/
import Mathlib.Algebra.Group.Nat.Defs
import Mathlib.Tactic.ByContra
import Mathlib.Tactic.Lemma
import TreeWalk.Action

namespace TreeWalk

/-- The budget that is left to a run: the numbers of the steps that are refused next, one after
another. -/
structure Budget where
  limit : UInt64
  /-- The steps after this one are refused. -/
  last : Nat
  /-- The number of steps that are refused. -/
  room : Nat
  refused : ∀ n, last < n → n ≤ last + room → limit < .ofNat n
  /-- What a step that is granted pays for: a refused step where errors may be caught, and nothing
  where they may not. -/
  price : Nat
  price_le : price ≤ 1

namespace Budget

variable (B : Budget) {n : Nat} {s : State}

/-- The debt after `n` steps: the refused steps so far, and what the steps that may still be granted
pay for. -/
def debt (n : Nat) : Nat := (n - B.last) + B.price * (B.last - n)

/-- A refused step makes the debt larger by no more than one. -/
lemma debt_succ_le (n : Nat) : B.debt (n + 1) ≤ B.debt n + 1 := by
  have hpaid : B.price * (B.last - (n + 1)) ≤ B.price * (B.last - n) :=
    Nat.mul_le_mul_left _ (by omega)
  unfold debt
  omega

/-- A granted step makes it smaller. -/
lemma debt_succ_add_price (h : n < B.last) : B.debt (n + 1) + B.price = B.debt n := by
  obtain ⟨m, hm⟩ : ∃ m, B.last - n = m + 1 := ⟨B.last - n - 1, by omega⟩
  have hleft : B.last - (n + 1) = m := by omega
  have hspent : n - B.last = 0 ∧ n + 1 - B.last = 0 := by omega
  rw [debt, debt, hleft, hm, hspent.1, hspent.2, Nat.mul_succ]
  omega

/-- As long as the debt is smaller than the room, a step is granted only before the last one. -/
lemma lt_last_of_granted (hdebt : B.debt s.steps < B.room)
    (hgranted : ¬ B.limit < s.ticked.counter) : s.steps < B.last := by
  by_contra hspent
  have hroom : s.steps - B.last ≤ B.debt s.steps := Nat.le_add_right _ _
  exact hgranted (B.refused (s.steps + 1) (by omega) (by omega))

/-- There is a budget with room for a limit, after any number of steps: for a limit that is not the
largest one if errors are not caught, and for one in the lower half if they are. -/
theorem exists_budget (limit : UInt64) (n : Nat) {price : Nat} (hprice : price ≤ 1)
    (hlimit : limit.toNat + 1 < 2 ^ 63 ∨ limit.toNat + 1 < 2 ^ 64 ∧ price = 0) :
    ∃ B : Budget, B.limit = limit ∧ B.price = price ∧ B.debt n < B.room := by
  -- what the counter shows after the next step
  generalize hp : (n + 1) % 2 ^ 64 = p
  by_cases hgranted : p ≤ limit.toNat
  · have hrefused : ∀ m, n + 1 + (limit.toNat - p) < m →
        m ≤ n + 1 + (limit.toNat - p) + (2 ^ 64 - 1 - limit.toNat) → limit < .ofNat m := by
      intro m hlt hle
      rw [UInt64.lt_iff_toNat_lt, UInt64.toNat_ofNat']
      omega
    refine ⟨⟨limit, _, _, hrefused, price, hprice⟩, rfl, rfl, ?_⟩
    have hpaid : price * (n + 1 + (limit.toNat - p) - n) ≤ price * (limit.toNat + 1) :=
      Nat.mul_le_mul_left _ (by omega)
    show n - (n + 1 + (limit.toNat - p)) + price * (n + 1 + (limit.toNat - p) - n) <
      2 ^ 64 - 1 - limit.toNat
    rcases hlimit with hlimit | ⟨hlimit, rfl⟩
    · have hone : price * (limit.toNat + 1) ≤ 1 * (limit.toNat + 1) :=
        Nat.mul_le_mul_right _ hprice
      omega
    · omega
  · have hrefused : ∀ m, n < m → m ≤ n + (2 ^ 64 - p) → limit < .ofNat m := by
      intro m hlt hle
      rw [UInt64.lt_iff_toNat_lt, UInt64.toNat_ofNat']
      omega
    refine ⟨⟨limit, n, _, hrefused, price, hprice⟩, rfl, rfl, ?_⟩
    have hp' : p < 2 ^ 64 := hp ▸ Nat.mod_lt _ (by decide)
    show n - n + price * (n - n) < 2 ^ 64 - p
    rw [Nat.sub_self, Nat.mul_zero]
    omega

end Budget

end TreeWalk
