import Mathlib.Data.Nat.ModEq
import Mathlib.Data.Nat.Prime.Basic
import Mathlib.Logic.Function.Basic

/-! # Steps that lose nothing

A step of a hash that can be undone keeps apart whatever it was given apart. So a difference that
enters a fold of such steps in one place is still there at the end. -/

namespace Moniker

variable {α σ : Type}

/-! ## One difference -/

/-- Sequences of one length that hold different values in exactly one place. -/
def DifferInOnePlace (xs ys : List α) : Prop :=
  xs.length = ys.length ∧ ∃! i : Nat, xs[i]? ≠ ys[i]?

theorem DifferInOnePlace.exists_split {xs ys : List α} (h : DifferInOnePlace xs ys) :
    ∃ before x y after, xs = before ++ x :: after ∧ ys = before ++ y :: after ∧ x ≠ y := by
  obtain ⟨hlength, i, hi, honly⟩ := h
  have hsame : ∀ j, j ≠ i → xs[j]? = ys[j]? := by
    intro j hj
    by_contra hne
    exact hj (honly j hne)
  have hx : i < xs.length := by
    by_contra hout
    exact hi (by rw [List.getElem?_eq_none (by omega), List.getElem?_eq_none (by omega)])
  have hy : i < ys.length := hlength ▸ hx
  have hbefore : xs.take i = ys.take i := by
    refine List.ext_getElem? fun j => ?_
    rw [List.getElem?_take, List.getElem?_take]
    split
    · exact hsame j (by omega)
    · rfl
  have hafter : xs.drop (i + 1) = ys.drop (i + 1) := by
    refine List.ext_getElem? fun j => ?_
    rw [List.getElem?_drop, List.getElem?_drop]
    exact hsame (i + 1 + j) (by omega)
  refine ⟨xs.take i, xs[i], ys[i], xs.drop (i + 1), ?_, ?_, ?_⟩
  · rw [List.getElem_cons_drop, List.take_append_drop]
  · rw [hbefore, hafter, List.getElem_cons_drop, List.take_append_drop]
  · simpa [hx, hy] using hi

theorem differInOnePlace_append_cons (before after : List α) {x y : α} (h : x ≠ y) :
    DifferInOnePlace (before ++ x :: after) (before ++ y :: after) := by
  refine ⟨by simp, before.length, by simpa using h, ?_⟩
  intro j hj
  by_contra hne
  refine hj ?_
  rcases Nat.lt_or_gt_of_ne hne with hlt | hgt
  · rw [List.getElem?_append_left hlt, List.getElem?_append_left hlt]
  · obtain ⟨n, rfl⟩ := Nat.exists_eq_add_of_lt hgt
    simp [List.getElem?_append_right, Nat.add_assoc]

/-! ## Folds -/

section Folds

variable {step : σ → α → σ}

/-- A fold can be undone if each of its steps can. -/
theorem foldl_inj (hstep : ∀ x, Function.Injective fun s => step s x) (xs : List α) {s t : σ} :
    xs.foldl step s = xs.foldl step t ↔ s = t := by
  refine ⟨fun h => ?_, fun h => by rw [h]⟩
  induction xs generalizing s t with
  | nil => exact h
  | cons x xs ih => exact hstep x (ih h)

/-- What comes after a difference neither makes it nor takes it away. -/
theorem foldl_append_cons_inj (hstep : ∀ x, Function.Injective fun s => step s x)
    (before after : List α) (x y : α) (s : σ) :
    (before ++ x :: after).foldl step s = (before ++ y :: after).foldl step s ↔
      step (before.foldl step s) x = step (before.foldl step s) y := by
  rw [List.foldl_append, List.foldl_append, List.foldl_cons, List.foldl_cons,
    foldl_inj hstep after]

end Folds

/-! ## Products with odd words -/

namespace Hash

theorem bitVec_mul_left_inj_of_odd {w : Nat} {c x y : BitVec w} (hc : Odd c.toNat) :
    x * c = y * c ↔ x = y := by
  refine ⟨fun h => ?_, fun h => by rw [h]⟩
  have hproduct : x.toNat * c.toNat ≡ y.toNat * c.toNat [MOD 2 ^ w] := by
    have hnat := congrArg BitVec.toNat h
    rwa [BitVec.toNat_mul, BitVec.toNat_mul] at hnat
  have hcoprime : (2 ^ w).gcd c.toNat = 1 := Nat.Coprime.pow_left w hc.coprime_two_left
  have hsame := hproduct.cancel_right_of_coprime hcoprime
  exact BitVec.eq_of_toNat_eq (hsame.eq_of_lt_of_lt x.isLt y.isLt)

theorem mul_left_inj_of_odd {c x y : UInt32} (hc : Odd c.toNat) : x * c = y * c ↔ x = y := by
  rw [← UInt32.toBitVec_inj, UInt32.toBitVec_mul, UInt32.toBitVec_mul,
    bitVec_mul_left_inj_of_odd hc, UInt32.toBitVec_inj]

theorem signed_mul_left_inj_of_odd {c x y : Int32} (hc : Odd c.toBitVec.toNat) :
    x * c = y * c ↔ x = y := by
  rw [← Int32.toBitVec_inj, Int32.toBitVec_mul, Int32.toBitVec_mul,
    bitVec_mul_left_inj_of_odd hc, Int32.toBitVec_inj]

end Hash

end Moniker
