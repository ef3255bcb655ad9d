import Citizen.Lib.Run
import Mathlib.Algebra.Order.Round
import Mathlib.Tactic.LinearCombination
import Mathlib.Tactic.Ring

/-! `folly::BasicTokenBucket` over exact numbers, and how many tokens one bucket gives out in a
span of time. -/
namespace Citizen.Limits

structure TokenBucket where
  rate_ : Rat
  burstSize_ : Rat
  zeroTime_ : Rat
  deriving DecidableEq, Repr

namespace TokenBucket

def create (genRate burstSize : Rat) : TokenBucket := ⟨genRate,burstSize,0⟩

def available (s : TokenBucket) (nowInSeconds : Rat) : Rat :=
  if nowInSeconds ≤ s.zeroTime_ then 0 else min ((nowInSeconds - s.zeroTime_) * s.rate_) s.burstSize_

def consume (s : TokenBucket) (toConsume nowInSeconds : Rat) : TokenBucket × Bool :=
  if nowInSeconds ≤ s.zeroTime_ then (s,false)
  else
    let tokens := min ((nowInSeconds - s.zeroTime_) * s.rate_) s.burstSize_
    if tokens < toConsume then (s,false)
    else ({ s with zeroTime_ := nowInSeconds - (tokens - toConsume) / s.rate_ },true)

variable {s : TokenBucket} {toConsume now : Rat}

theorem consumeIff (positive : 0 < toConsume) : (s.consume toConsume now).2 = true ↔ toConsume ≤ s.available now := by
  unfold consume available
  split
  · exact ⟨fun given => absurd given Bool.false_ne_true,fun few => absurd positive (not_lt.mpr few)⟩
  · dsimp only
    split
    · rename_i few
      exact ⟨fun given => absurd given Bool.false_ne_true,fun enough => absurd few (not_lt.mpr enough)⟩
    · rename_i enough
      exact ⟨fun _ => not_lt.mp enough,fun _ => rfl⟩

theorem consumeRefused (refused : (s.consume toConsume now).2 = false) : (s.consume toConsume now).1 = s := by
  unfold consume at refused ⊢
  split
  · rfl
  · rename_i later
    rw [if_neg later] at refused
    dsimp only at refused ⊢
    split
    · rfl
    · rename_i enough
      rw [if_neg enough] at refused
      cases refused

theorem consumeRate : (s.consume toConsume now).1.rate_ = s.rate_ := by
  unfold consume
  split
  · rfl
  · dsimp only
    split <;> rfl

theorem consumeBurst : (s.consume toConsume now).1.burstSize_ = s.burstSize_ := by
  unfold consume
  split
  · rfl
  · dsimp only
    split <;> rfl

theorem consumeSmall (small : s.burstSize_ < toConsume) : (s.consume toConsume now).2 = false := by
  unfold consume
  split
  · rfl
  · exact if_pos (lt_of_le_of_lt (min_le_right _ _) small) ▸ rfl

def Paced (s : TokenBucket) (start : Rat) (n : Nat) : Prop :=
  0 < n → (n : Rat) ≤ s.burstSize_ + s.rate_ * (s.zeroTime_ - start)

theorem Paced.consume {start : Rat} {n : Nat} (paced : s.Paced start n) (positive : 0 < s.rate_) (begun : start ≤ now)
    (given : (s.consume 1 now).2 = true) :
    (s.consume 1 now).1.Paced start (n + 1) ∧ (s.consume 1 now).1.zeroTime_ ≤ now := by
  unfold TokenBucket.consume at given ⊢
  split at given
  · cases given
  · rename_i later
    rw [if_neg later]
    dsimp only at given ⊢
    split at given
    · cases given
    · rename_i enough
      rw [if_neg enough]
      generalize tokensIs : min ((now - s.zeroTime_) * s.rate_) s.burstSize_ = tokens at enough ⊢
      have some : 1 ≤ tokens := not_lt.mp enough
      have grown : tokens ≤ (now - s.zeroTime_) * s.rate_ := tokensIs ▸ min_le_left _ _
      have full : tokens ≤ s.burstSize_ := tokensIs ▸ min_le_right _ _
      have back : s.rate_ * ((tokens - 1) / s.rate_) = tokens - 1 := by field_simp
      have elapsed : 0 ≤ s.rate_ * (now - start) := mul_nonneg positive.le (by linarith)
      refine ⟨fun _ => ?_,?_⟩
      · have moved : s.rate_ * (now - (tokens - 1) / s.rate_ - start) = s.rate_ * (now - start) - (tokens - 1) := by
          linear_combination -back
        dsimp only
        rw [moved]
        rcases Nat.eq_zero_or_pos n with rfl | before
        · push_cast
          linarith
        · have bound := paced before
          push_cast
          have split : s.rate_ * (s.zeroTime_ - start) = s.rate_ * (now - start) - (now - s.zeroTime_) * s.rate_ := by ring
          linarith
      · dsimp only
        have some' : 0 ≤ (tokens - 1) / s.rate_ := div_nonneg (by linarith) positive.le
        linarith

end TokenBucket
end Citizen.Limits
