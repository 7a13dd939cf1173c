import RiscvHart.Memory.Basic
import Mathlib.Algebra.Order.BigOperators.Group.List
import Mathlib.Algebra.Order.Group.Nat
import Mathlib.Algebra.Ring.Nat
import Mathlib.Order.Interval.Finset.Nat

/-!
# Lists of regions that lie apart

Memory keeps its regions from the highest to the lowest, and no two of them meet. A search in
such a list may stop at the first region that starts low enough: these lemmas say why, and which
changes of the list keep it so.
-/

namespace RiscvHart.Region

/-- One region starts above another, and not before the end of it. -/
def Above (hi lo : Region) : Prop :=
  lo.base.toNat < hi.base.toNat ∧ lo.finish ≤ hi.base.toNat

theorem Above.base_ne {hi lo : Region} (h : hi.Above lo) : hi.base ≠ lo.base := by
  intro heq
  rw [Above, heq] at h
  exact Nat.lt_irrefl _ h.1

theorem base_le_finish (r : Region) : r.base.toNat ≤ r.finish := Nat.le_add_right _ _

variable {rs : List Region} {r s : Region}

/-! ## Searching -/

theorem eq_or_above_of_mem (hrs : rs.Pairwise Above) (hr : r ∈ rs) (hs : s ∈ rs) :
    r = s ∨ r.Above s ∨ s.Above r := by
  induction rs with
  | nil => simp at hr
  | cons t rest ih =>
    rw [List.pairwise_cons] at hrs
    rcases List.mem_cons.mp hr with hrt | hrest
    · subst hrt
      rcases List.mem_cons.mp hs with rfl | hrest
      · exact Or.inl rfl
      · exact Or.inr (Or.inl (hrs.1 s hrest))
    · rcases List.mem_cons.mp hs with rfl | hrest'
      · exact Or.inr (Or.inr (hrs.1 r hrest))
      · exact ih hrs.2 hrest hrest'

theorem eq_of_mem_of_base_eq (hrs : rs.Pairwise Above) (hr : r ∈ rs) (hs : s ∈ rs)
    (hbase : r.base = s.base) : r = s := by
  rcases eq_or_above_of_mem hrs hr hs with heq | habove | habove
  · exact heq
  · exact absurd hbase habove.base_ne
  · exact absurd hbase.symm habove.base_ne

theorem find?_base_of_mem (hrs : rs.Pairwise Above) (hr : r ∈ rs) :
    rs.find? (fun s => s.base = r.base) = some r := by
  cases hfind : rs.find? fun s => s.base = r.base with
  | none => simpa using List.find?_eq_none.mp hfind r hr
  | some s =>
    have hbase : s.base = r.base := by simpa using List.find?_some hfind
    rw [eq_of_mem_of_base_eq hrs (List.mem_of_find?_eq_some hfind) hr hbase]

/-- The first region that starts low enough is the one that holds an address, if any does. -/
theorem find?_below_of_mem {a : Nat} (hrs : rs.Pairwise Above) (hr : r ∈ rs)
    (hlow : r.base.toNat ≤ a) (hhigh : a < r.finish) :
    rs.find? (fun s => s.base.toNat ≤ a) = some r := by
  induction rs with
  | nil => simp at hr
  | cons s rest ih =>
    rw [List.pairwise_cons] at hrs
    rcases List.mem_cons.mp hr with rfl | hrest
    · rw [List.find?_cons_of_pos]
      simpa using hlow
    · have habove := (hrs.1 r hrest).2
      rw [List.find?_cons_of_neg]
      · exact ih hrs.2 hrest
      · simp only [decide_eq_true_eq]
        omega

/-- Of the regions that start below a bound only the first has to be looked at to know whether
one of them ends above an address. -/
theorem find?_below_ends_above_iff {a bound : Nat} (hrs : rs.Pairwise Above) :
    (∃ r, rs.find? (fun s => s.base.toNat < bound) = some r ∧ a < r.finish) ↔
      ∃ r ∈ rs, r.base.toNat < bound ∧ a < r.finish := by
  induction rs with
  | nil => simp
  | cons s rest ih =>
    rw [List.pairwise_cons] at hrs
    by_cases hs : s.base.toNat < bound
    · rw [List.find?_cons_of_pos (by simpa using hs)]
      constructor
      · rintro ⟨r, hr, hend⟩
        cases hr
        exact ⟨s, List.mem_cons_self, hs, hend⟩
      · rintro ⟨r, hr, -, hend⟩
        refine ⟨s, rfl, ?_⟩
        rcases List.mem_cons.mp hr with rfl | hrest
        · exact hend
        · have habove := (hrs.1 r hrest).2
          have hle := s.base_le_finish
          omega
    · rw [List.find?_cons_of_neg (by simpa using hs), ih hrs.2]
      constructor
      · rintro ⟨r, hr, h⟩
        exact ⟨r, List.mem_cons_of_mem _ hr, h⟩
      · rintro ⟨r, hr, hbound, hend⟩
        rcases List.mem_cons.mp hr with rfl | hrest
        · exact absurd hbound hs
        · exact ⟨r, hrest, hbound, hend⟩

/-! ## Changing the list -/

theorem mem_insertRegion (hrs : rs.Pairwise Above) :
    s ∈ Memory.insertRegion r rs ↔ s = r ∨ (s ∈ rs ∧ s.base ≠ r.base) := by
  induction rs with
  | nil => simp [Memory.insertRegion]
  | cons t rest ih =>
    rw [List.pairwise_cons] at hrs
    unfold Memory.insertRegion
    split
    · next hlow =>
      have hkeep : ∀ u ∈ t :: rest, u.base ≠ r.base := by
        intro u hu heq
        rcases List.mem_cons.mp hu with rfl | hu
        · exact absurd hlow (by rw [heq]; exact Nat.lt_irrefl _)
        · have habove := (hrs.1 u hu).1
          rw [heq] at habove
          omega
      rw [List.mem_cons]
      exact or_congr_right ⟨fun h => ⟨h, hkeep s h⟩, fun h => h.1⟩
    · next hhigh =>
      split
      · next heq =>
        have hkeep : ∀ u ∈ rest, u.base ≠ r.base := fun u hu h =>
          (hrs.1 u hu).base_ne (heq.trans h.symm)
        simp only [List.mem_cons]
        refine or_congr_right ⟨fun h => ⟨Or.inr h, hkeep s h⟩, ?_⟩
        rintro ⟨rfl | h, hne⟩
        · exact absurd heq hne
        · exact h
      · next hne =>
        rw [List.mem_cons, ih hrs.2, List.mem_cons]
        constructor
        · rintro (rfl | rfl | ⟨hs, hbase⟩)
          · exact Or.inr ⟨Or.inl rfl, hne⟩
          · exact Or.inl rfl
          · exact Or.inr ⟨Or.inr hs, hbase⟩
        · rintro (rfl | ⟨rfl | hs, hbase⟩)
          · exact Or.inr (Or.inl rfl)
          · exact Or.inl rfl
          · exact Or.inr (Or.inr ⟨hs, hbase⟩)

theorem pairwise_insertRegion (hrs : rs.Pairwise Above)
    (hapart : ∀ s ∈ rs, s.base ≠ r.base → r.Above s ∨ s.Above r) :
    (Memory.insertRegion r rs).Pairwise Above := by
  induction rs with
  | nil => simp [Memory.insertRegion]
  | cons t rest ih =>
    rw [List.pairwise_cons] at hrs
    have hrest := fun s hs => hapart s (List.mem_cons_of_mem _ hs)
    unfold Memory.insertRegion
    split
    · next hlow =>
      have hfirst : r.Above t := by
        rcases hapart t List.mem_cons_self (fun h => absurd hlow (by rw [h]; omega)) with h | h
        · exact h
        · exact absurd h.1 (by omega)
      refine List.pairwise_cons.mpr ⟨?_, List.pairwise_cons.mpr hrs⟩
      intro u hu
      rcases List.mem_cons.mp hu with rfl | hu
      · exact hfirst
      · have hle := t.base_le_finish
        have hlt := hfirst.2
        have hut := hrs.1 u hu
        exact ⟨by have := hut.1; omega, by have := hut.2; omega⟩
    · next hhigh =>
      split
      · next heq =>
        refine List.pairwise_cons.mpr ⟨?_, hrs.2⟩
        intro u hu
        have hut := hrs.1 u hu
        rw [Above, heq] at hut
        exact hut
      · next hne =>
        refine List.pairwise_cons.mpr ⟨?_, ih hrs.2 hrest⟩
        intro u hu
        rcases (mem_insertRegion hrs.2).mp hu with rfl | ⟨hu, -⟩
        · rcases hapart t List.mem_cons_self hne with h | h
          · exact absurd h.1 (by omega)
          · exact h
        · exact hrs.1 u hu

def total (rs : List Region) : Nat := (rs.map Region.size).sum

@[simp] theorem total_nil : total [] = 0 := rfl

@[simp] theorem total_cons (r : Region) (rs : List Region) :
    total (r :: rs) = r.size + total rs := by
  simp [total]

theorem size_le_total (hr : r ∈ rs) : r.size ≤ total rs :=
  List.le_sum_of_mem (List.mem_map_of_mem hr)

/-- There are no more addresses in regions than the regions have bytes. -/
theorem card_le_total (addrs : Finset Nat)
    (h : ∀ a ∈ addrs, ∃ r ∈ rs, r.base.toNat ≤ a ∧ a < r.finish) : addrs.card ≤ total rs := by
  induction rs generalizing addrs with
  | nil =>
    have hempty : addrs = ∅ := Finset.eq_empty_of_forall_notMem fun a ha => by
      obtain ⟨r, hr, -⟩ := h a ha
      exact List.not_mem_nil hr
    rw [hempty, Finset.card_empty, total_nil]
  | cons t rest ih =>
    -- The addresses in the first region are no more than it has bytes; the others
    -- lie in the rest.
    have hfirst : (addrs.filter fun a => t.base.toNat ≤ a ∧ a < t.finish).card ≤ t.size := by
      have hsub : (addrs.filter fun a => t.base.toNat ≤ a ∧ a < t.finish) ⊆
          Finset.Ico t.base.toNat t.finish := fun a ha =>
        Finset.mem_Ico.mpr (Finset.mem_filter.mp ha).2
      calc (addrs.filter fun a => t.base.toNat ≤ a ∧ a < t.finish).card
          ≤ (Finset.Ico t.base.toNat t.finish).card := Finset.card_le_card hsub
        _ = t.size := by rw [Nat.card_Ico, finish, Nat.add_sub_cancel_left]
    have hothers : (addrs.filter fun a => ¬(t.base.toNat ≤ a ∧ a < t.finish)).card ≤
        total rest := by
      refine ih _ fun a ha => ?_
      obtain ⟨hmem, hout⟩ := Finset.mem_filter.mp ha
      obtain ⟨r, hr, hin⟩ := h a hmem
      rcases List.mem_cons.mp hr with rfl | hr
      · exact absurd hin hout
      · exact ⟨r, hr, hin⟩
    have hsplit := Finset.card_filter_add_card_filter_not (s := addrs)
      fun a => t.base.toNat ≤ a ∧ a < t.finish
    rw [total_cons]
    omega

/-- A region that takes the place of one without bytes adds all of its own. -/
theorem total_insertRegion (hempty : ∀ s ∈ rs, s.base = r.base → s.size = 0) :
    total (Memory.insertRegion r rs) = total rs + r.size := by
  induction rs with
  | nil => simp [Memory.insertRegion]
  | cons t rest ih =>
    have hrest := ih fun s hs => hempty s (List.mem_cons_of_mem _ hs)
    unfold Memory.insertRegion
    split
    · rw [total_cons]
      omega
    · split
      · next heq =>
        have ht := hempty t List.mem_cons_self heq
        simp only [total_cons, ht]
        omega
      · simp only [total_cons, hrest]
        omega

variable {f : Region → Region}

theorem mem_replace (hrs : rs.Pairwise Above) (hr : r ∈ rs) :
    (s ∈ rs.map fun t => if t.base = r.base then f t else t) ↔
      s = f r ∨ (s ∈ rs ∧ s.base ≠ r.base) := by
  rw [List.mem_map]
  constructor
  · rintro ⟨t, ht, rfl⟩
    by_cases hbase : t.base = r.base
    · rw [if_pos hbase, eq_of_mem_of_base_eq hrs ht hr hbase]
      exact Or.inl rfl
    · rw [if_neg hbase]
      exact Or.inr ⟨ht, hbase⟩
  · rintro (rfl | ⟨hs, hbase⟩)
    · exact ⟨r, hr, if_pos rfl⟩
    · exact ⟨s, hs, if_neg hbase⟩

theorem pairwise_replace (hrs : rs.Pairwise Above) (hr : r ∈ rs) (hbase : (f r).base = r.base)
    (hfit : ∀ s ∈ rs, r.base.toNat < s.base.toNat → (f r).finish ≤ s.base.toNat) :
    (rs.map fun t => if t.base = r.base then f t else t).Pairwise Above := by
  rw [List.pairwise_map]
  refine hrs.imp_of_mem fun {hi lo} hhi hlo habove => ?_
  by_cases hlow : lo.base = r.base
  · have hhigh : hi.base ≠ r.base := fun h => habove.base_ne (h.trans hlow.symm)
    have hlt : r.base.toNat < hi.base.toNat := hlow ▸ habove.1
    rw [if_neg hhigh, if_pos hlow, eq_of_mem_of_base_eq hrs hlo hr hlow]
    exact ⟨by rw [hbase]; exact hlt, hfit hi hhi hlt⟩
  · rw [if_neg hlow]
    by_cases hhigh : hi.base = r.base
    · rw [if_pos hhigh, eq_of_mem_of_base_eq hrs hhi hr hhigh, Above, hbase, ← hhigh]
      exact habove
    · rw [if_neg hhigh]
      exact habove

theorem map_replace_of_forall_ne {base : Word} (hne : ∀ s ∈ rs, s.base ≠ base) :
    (rs.map fun t => if t.base = base then f t else t) = rs := by
  conv_rhs => rw [← List.map_id rs]
  exact List.map_congr_left fun s hs => if_neg (hne s hs)

theorem total_replace (hrs : rs.Pairwise Above) (hr : r ∈ rs) :
    total (rs.map fun t => if t.base = r.base then f t else t) + r.size =
      total rs + (f r).size := by
  induction rs with
  | nil => simp at hr
  | cons t rest ih =>
    rw [List.pairwise_cons] at hrs
    rcases List.mem_cons.mp hr with rfl | hrest
    · have hkeep := map_replace_of_forall_ne (f := f) fun s hs => (hrs.1 s hs).base_ne.symm
      rw [List.map_cons, hkeep, if_pos rfl, total_cons, total_cons]
      omega
    · have hne : t.base ≠ r.base := (hrs.1 r hrest).base_ne
      have hrec := ih hrs.2 hrest
      rw [List.map_cons, if_neg hne, total_cons, total_cons]
      omega

theorem total_remove (hrs : rs.Pairwise Above) (hr : r ∈ rs) :
    total (rs.filter fun t => t.base ≠ r.base) + r.size = total rs := by
  induction rs with
  | nil => simp at hr
  | cons t rest ih =>
    rw [List.pairwise_cons] at hrs
    rcases List.mem_cons.mp hr with rfl | hrest
    · have hkeep : (rest.filter fun s => s.base ≠ r.base) = rest :=
        List.filter_eq_self.mpr fun s hs => by simpa using (hrs.1 s hs).base_ne.symm
      rw [List.filter_cons_of_neg (by simp), hkeep, total_cons]
      omega
    · have hne : t.base ≠ r.base := (hrs.1 r hrest).base_ne
      have hrec := ih hrs.2 hrest
      rw [List.filter_cons_of_pos (by simpa using hne), total_cons, total_cons]
      omega

end RiscvHart.Region
