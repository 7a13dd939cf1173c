import RiscvHart.Word.Basic

/-!
# Sparse cells

An endless row of bytes, all zero but finitely many. The cells stand in a binary tree: cell 0 at
the root, the odd places below it on one side and the even ones on the other, each again numbered
from zero. A fresh row takes no room however long the range it stands for, and reading and
writing a place takes as many steps as its number has bits.
-/

namespace RiscvHart

/-- A row of bytes with finitely many that are not zero. -/
inductive Cells where
  | zeros
  | node (first : Byte) (odd even : Cells)

namespace Cells

def get : Cells → Nat → Byte
  | zeros, _ => 0
  | node first _ _, 0 => first
  | node _ odd even, i + 1 => if i % 2 = 0 then odd.get (i / 2) else even.get (i / 2)

def set (cells : Cells) (i : Nat) (b : Byte) : Cells :=
  match i with
  | 0 =>
    match cells with
    | zeros => node b zeros zeros
    | node _ odd even => node b odd even
  | i + 1 =>
    match cells with
    | zeros =>
      if i % 2 = 0 then node 0 (set zeros (i / 2) b) zeros else node 0 zeros (set zeros (i / 2) b)
    | node first odd even =>
      if i % 2 = 0 then node first (set odd (i / 2) b) even else node first odd (set even (i / 2) b)
termination_by i

/-- Keeps the first `n` bytes and clears the rest. -/
def take : Cells → Nat → Cells
  | zeros, _ => zeros
  | node _ _ _, 0 => zeros
  | node first odd even, n + 1 => node first (odd.take ((n + 1) / 2)) (even.take (n / 2))

def write (cells : Cells) (i : Nat) : List Byte → Cells
  | [] => cells
  | b :: rest => (cells.set i b).write (i + 1) rest

def read (cells : Cells) (i n : Nat) : List Byte := (List.range' i n).map cells.get

@[simp] theorem get_zeros (i : Nat) : zeros.get i = 0 := rfl

theorem get_set (cells : Cells) (i j : Nat) (b : Byte) :
    (cells.set i b).get j = if j = i then b else cells.get j := by
  fun_induction set cells i b generalizing j with
  | case1 | case2 => cases j <;> simp [get]
  | case3 i hi ih | case5 i first odd even hi ih =>
    cases j with
    | zero => simp [get]
    | succ j =>
      simp only [get, ih]
      by_cases hj : j % 2 = 0
      · have same : j / 2 = i / 2 ↔ j = i := by omega
        simp [hj, same]
      · have other : j ≠ i := by omega
        simp [hj, other]
  | case4 i hi ih | case6 i first odd even hi ih =>
    cases j with
    | zero => simp [get]
    | succ j =>
      simp only [get, ih]
      by_cases hj : j % 2 = 0
      · have other : j ≠ i := by omega
        simp [hj, other]
      · have same : j / 2 = i / 2 ↔ j = i := by omega
        simp [hj, same]

theorem get_take (cells : Cells) (n i : Nat) :
    (cells.take n).get i = if i < n then cells.get i else 0 := by
  fun_induction take cells n generalizing i with
  | case1 => simp
  | case2 => simp
  | case3 first odd even n ihOdd ihEven =>
    cases i with
    | zero => simp [get]
    | succ i =>
      simp only [get, ihOdd, ihEven]
      by_cases hi : i % 2 = 0
      · have low : i / 2 < (n + 1) / 2 ↔ i + 1 < n + 1 := by omega
        simp only [hi, low, if_true]
      · have low : i / 2 < n / 2 ↔ i + 1 < n + 1 := by omega
        simp only [hi, low, if_false]

theorem get_write (cells : Cells) (i : Nat) (bs : List Byte) (j : Nat) :
    (cells.write i bs).get j =
      if h : i ≤ j ∧ j - i < bs.length then bs[j - i] else cells.get j := by
  induction bs generalizing cells i with
  | nil => simp [write]
  | cons b rest ih =>
    rw [write, ih]
    by_cases hj : j = i
    · subst hj
      rw [dif_neg (fun h => by omega), get_set, if_pos rfl, dif_pos ⟨Nat.le_refl _, by simp⟩]
      simp
    · rw [get_set, if_neg hj]
      by_cases hij : i < j
      · have hs : j - i = (j - (i + 1)) + 1 := by omega
        by_cases hlen : j - (i + 1) < rest.length
        · rw [dif_pos ⟨hij, hlen⟩, dif_pos ⟨by omega, by simp; omega⟩, List.getElem_cons,
            dif_neg (by omega)]
          rfl
        · rw [dif_neg (fun h => hlen h.2), dif_neg (fun h => hlen (by simp at h; omega))]
      · rw [dif_neg (fun h => hij h.1), dif_neg (fun h => by omega)]

@[simp] theorem length_read (cells : Cells) (i n : Nat) : (cells.read i n).length = n := by
  simp [read]

theorem getElem_read (cells : Cells) (i n k : Nat) (h : k < (cells.read i n).length) :
    (cells.read i n)[k] = cells.get (i + k) := by simp [read]

end Cells

end RiscvHart
