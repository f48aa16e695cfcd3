import Mathlib.Algebra.BigOperators.Group.Finset.Piecewise
import Mathlib.Algebra.Order.BigOperators.Group.Finset

/-! A common reading next to the shares of its members. What somebody takes is added to
the own share, and a member's perhaps to the reading; what is given back comes off both,
and neither goes below zero. The members have at least the reading between them. -/

@[ext] structure Shares (κ : Type*) where
  members : Finset κ
  share : κ → Nat
  reading : Nat

namespace Shares

inductive Move (κ : Type*) where
  | take (key : κ) (counted : Bool)
  | giveBack (key : κ)
  | join (key : κ)
  | clear
  | stay

variable {κ : Type*}

def total (shares : Shares κ) : Nat := ∑ key ∈ shares.members, shares.share key

def Backed (shares : Shares κ) : Prop := shares.reading ≤ shares.total

variable [DecidableEq κ]

def set (shares : Shares κ) (key : κ) (amount : Nat) : Shares κ :=
  { shares with share := Function.update shares.share key amount }

def step (shares : Shares κ) : Move κ → Shares κ
  | .take key counted =>
    { shares.set key (shares.share key + 1) with
      reading := if key ∈ shares.members ∧ counted then shares.reading + 1 else shares.reading }
  | .giveBack key =>
    { shares.set key (shares.share key - 1) with
      reading := if key ∈ shares.members then shares.reading - 1 else shares.reading }
  | .join key => { shares with members := insert key shares.members }
  | .clear => { shares with reading := 0 }
  | .stay => shares

variable {shares : Shares κ} {key : κ}

theorem total_set (member : key ∈ shares.members) (amount : Nat) :
    (shares.set key amount).total + shares.share key = shares.total + amount := by
  have before : shares.total = shares.share key + ∑ other ∈ shares.members \ {key}, shares.share other := by
    rw [total, ← Finset.sum_update_of_mem member, Function.update_eq_self]
  have after : (shares.set key amount).total = amount + ∑ other ∈ shares.members \ {key}, shares.share other :=
    Finset.sum_update_of_mem member _ _
  omega

theorem total_set_of_notMem (stranger : key ∉ shares.members) (amount : Nat) : (shares.set key amount).total = shares.total :=
  Finset.sum_update_of_notMem stranger _ _

theorem total_insert_le : shares.total ≤ { shares with members := insert key shares.members }.total :=
  Finset.sum_le_sum_of_subset (Finset.subset_insert key shares.members)

/-- A move that lowers the total takes as much off the reading, or leaves it at zero. -/
theorem Backed.step (backed : shares.Backed) (move : Move κ) : (shares.step move).Backed := by
  unfold Backed at backed
  cases move with
  | take key counted =>
    change (if key ∈ shares.members ∧ counted then shares.reading + 1 else shares.reading) ≤ (shares.set key _).total
    by_cases member : key ∈ shares.members
    · have grown := total_set member (shares.share key + 1)
      split <;> omega
    · rw [if_neg fun both => member both.1, total_set_of_notMem member]
      exact backed
  | giveBack key =>
    change (if key ∈ shares.members then shares.reading - 1 else shares.reading) ≤ (shares.set key _).total
    by_cases member : key ∈ shares.members
    · have fallen := total_set member (shares.share key - 1)
      rw [if_pos member]
      omega
    · rw [if_neg member, total_set_of_notMem member]
      exact backed
  | join key => exact Nat.le_trans backed total_insert_le
  | clear => exact Nat.zero_le _
  | stay => exact backed

end Shares
