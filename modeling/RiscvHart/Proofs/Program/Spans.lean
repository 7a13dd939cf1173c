import RiscvHart.Program.Span
import Mathlib.Algebra.Order.Group.Nat
import Mathlib.Data.List.Permutation

/-!
# Joined spans

Joining spans changes neither the addresses that they have together nor where they end, and each
of the spans lies in one of those that come out.
-/

namespace RiscvHart.Span

variable {s t : Span} {ss : List Span} {addr : Word} {a size : Nat}

def Has (s : Span) (a : Nat) : Prop := s.start ≤ a ∧ a < s.finish

instance (s : Span) (a : Nat) : Decidable (s.Has a) := inferInstanceAs (Decidable (_ ∧ _))

def Inside (s t : Span) : Prop := t.start ≤ s.start ∧ s.finish ≤ t.finish

def InOrder (ss : List Span) : Prop := ss.Pairwise fun s t => s.start ≤ t.start

theorem Inside.refl (s : Span) : s.Inside s := ⟨Nat.le_refl _, Nat.le_refl _⟩

theorem Inside.trans {u : Span} (hst : s.Inside t) (htu : t.Inside u) : s.Inside u :=
  ⟨Nat.le_trans htu.1 hst.1, Nat.le_trans hst.2 htu.2⟩

/-- A span with the one after it, which it meets or touches. -/
theorem InOrder.merge {rest : List Span} (h : InOrder (s :: t :: rest)) :
    InOrder (⟨s.start, max s.finish t.finish⟩ :: rest) := by
  obtain ⟨hs, hrest⟩ := List.pairwise_cons.mp h
  exact List.pairwise_cons.mpr
    ⟨fun u hu => hs u (List.mem_cons_of_mem t hu), (List.pairwise_cons.mp hrest).2⟩

theorem InOrder.start_le {rest : List Span} (h : InOrder (s :: t :: rest)) : s.start ≤ t.start :=
  (List.pairwise_cons.mp h).1 t List.mem_cons_self

theorem has_merge_iff (hle : s.start ≤ t.start) (hmeet : t.start ≤ s.finish) :
    Has ⟨s.start, max s.finish t.finish⟩ a ↔ s.Has a ∨ t.Has a := by
  simp only [Has]
  omega

theorem exists_joinSorted_has_iff (h : InOrder ss) :
    (∃ s ∈ joinSorted ss, s.Has a) ↔ ∃ s ∈ ss, s.Has a := by
  induction ss using joinSorted.induct with
  | case1 => rw [joinSorted]
  | case2 s => rw [joinSorted]
  | case3 s t rest hmeet ih =>
    rw [joinSorted, if_pos hmeet, ih h.merge]
    simp only [List.exists_mem_cons_iff, has_merge_iff h.start_le hmeet, or_assoc]
  | case4 s t rest hapart ih =>
    rw [joinSorted, if_neg hapart, List.exists_mem_cons_iff, ih (List.pairwise_cons.mp h).2]
    simp only [List.exists_mem_cons_iff]

theorem exists_inside_joinSorted (h : InOrder ss) (hs : s ∈ ss) :
    ∃ t ∈ joinSorted ss, s.Inside t := by
  induction ss using joinSorted.induct generalizing s with
  | case1 => exact absurd hs List.not_mem_nil
  | case2 u =>
    rw [List.mem_singleton] at hs
    rw [joinSorted, hs]
    exact ⟨u, List.mem_singleton_self u, Inside.refl u⟩
  | case3 u t rest hmeet ih =>
    rw [joinSorted, if_pos hmeet]
    have hu : u.Inside ⟨u.start, max u.finish t.finish⟩ := ⟨Nat.le_refl _, Nat.le_max_left _ _⟩
    have ht : t.Inside ⟨u.start, max u.finish t.finish⟩ := ⟨h.start_le, Nat.le_max_right _ _⟩
    obtain ⟨v, hv, hin⟩ := ih h.merge List.mem_cons_self
    rcases List.mem_cons.mp hs with rfl | hs
    · exact ⟨v, hv, hu.trans hin⟩
    rcases List.mem_cons.mp hs with rfl | hs
    · exact ⟨v, hv, ht.trans hin⟩
    · exact ih h.merge (List.mem_cons_of_mem _ hs)
  | case4 u t rest hapart ih =>
    rw [joinSorted, if_neg hapart]
    rcases List.mem_cons.mp hs with rfl | hs
    · exact ⟨s, List.mem_cons_self, Inside.refl s⟩
    · obtain ⟨v, hv, hin⟩ := ih (List.pairwise_cons.mp h).2 hs
      exact ⟨v, List.mem_cons_of_mem u hv, hin⟩

/-- A joined span starts with one of those that it was joined from, and ends with one. -/
theorem ends_of_mem_joinSorted (ht : t ∈ joinSorted ss) :
    (∃ s ∈ ss, s.start = t.start ∧ s.finish ≤ t.finish) ∧ ∃ s ∈ ss, s.finish = t.finish := by
  induction ss using joinSorted.induct with
  | case1 =>
    rw [joinSorted] at ht
    exact absurd ht List.not_mem_nil
  | case2 s =>
    rw [joinSorted, List.mem_singleton] at ht
    subst ht
    exact ⟨⟨t, List.mem_singleton_self t, rfl, Nat.le_refl _⟩, t, List.mem_singleton_self t, rfl⟩
  | case3 s u rest hmeet ih =>
    rw [joinSorted, if_pos hmeet] at ht
    have hmax := Nat.le_max_left s.finish u.finish
    obtain ⟨⟨v, hv, hstart, hle⟩, w, hw, hfinish⟩ := ih ht
    constructor
    · rcases List.mem_cons.mp hv with rfl | hv
      · exact ⟨s, List.mem_cons_self, hstart, Nat.le_trans hmax hle⟩
      · exact ⟨v, by simp [hv], hstart, hle⟩
    · rcases List.mem_cons.mp hw with rfl | hw
      · rcases Nat.le_total u.finish s.finish with h | h
        · exact ⟨s, by simp, (Nat.max_eq_left h).symm.trans hfinish⟩
        · exact ⟨u, by simp, (Nat.max_eq_right h).symm.trans hfinish⟩
      · exact ⟨w, by simp [hw], hfinish⟩
  | case4 s u rest hapart ih =>
    rw [joinSorted, if_neg hapart] at ht
    rcases List.mem_cons.mp ht with rfl | ht
    · exact ⟨⟨t, List.mem_cons_self, rfl, Nat.le_refl _⟩, t, List.mem_cons_self, rfl⟩
    · obtain ⟨⟨v, hv, hstart⟩, w, hw, hfinish⟩ := ih ht
      exact ⟨⟨v, List.mem_cons_of_mem s hv, hstart⟩, w, List.mem_cons_of_mem s hw, hfinish⟩

theorem inOrder_mergeSort (ss : List Span) : InOrder (ss.mergeSort before) := by
  have hsorted : (ss.mergeSort before).Pairwise fun s t => before s t = true := by
    refine List.pairwise_mergeSort (fun s t u hst htu => ?_) (fun s t => ?_) ss
    all_goals simp only [before, Bool.or_eq_true, Bool.and_eq_true, decide_eq_true_eq] at *
    all_goals omega
  refine hsorted.imp fun {s t} h => ?_
  simp only [before, Bool.or_eq_true, Bool.and_eq_true, decide_eq_true_eq] at h
  omega

theorem exists_join_has_iff : (∃ s ∈ join ss, s.Has a) ↔ ∃ s ∈ ss, s.Has a := by
  rw [join, exists_joinSorted_has_iff (inOrder_mergeSort ss)]
  simp only [List.mem_mergeSort]

theorem exists_inside_join (hs : s ∈ ss) : ∃ t ∈ join ss, s.Inside t :=
  exists_inside_joinSorted (inOrder_mergeSort ss) (List.mem_mergeSort.mpr hs)

theorem ends_of_mem_join (ht : t ∈ join ss) :
    (∃ s ∈ ss, s.start = t.start ∧ s.finish ≤ t.finish) ∧ ∃ s ∈ ss, s.finish = t.finish := by
  have hends := ends_of_mem_joinSorted ht
  simpa only [List.mem_mergeSort] using hends

/-- A span that can be mapped: it has addresses, and it ends where an address can stand. -/
structure Mappable (s : Span) : Prop where
  pos : s.start < s.finish
  limit : s.finish < addressLimit

theorem Mappable.toNat_start (h : s.Mappable) :
    (BitVec.ofNat 64 s.start : Word).toNat = s.start := by
  have hlimit : s.finish < 2 ^ 64 := h.limit
  have hpos := h.pos
  rw [BitVec.toNat_ofNat]
  omega

theorem mappable_of_mem_join (h : ∀ s ∈ ss, s.Mappable) (ht : t ∈ join ss) : t.Mappable := by
  obtain ⟨⟨s, hs, hstart, hle⟩, u, hu, hfinish⟩ := ends_of_mem_join ht
  have hpos := (h s hs).pos
  exact ⟨by omega, hfinish ▸ (h u hu).limit⟩

theorem pages?_eq : pages? addr size =
    if (addr.toNat + size + 4095) / 4096 * 4096 < addressLimit then
      some ⟨addr.toNat / 4096 * 4096, (addr.toNat + size + 4095) / 4096 * 4096⟩
    else none := rfl

theorem pages?_eq_some_iff : pages? addr size = some s ↔
    s.start = addr.toNat / 4096 * 4096 ∧ s.finish = (addr.toNat + size + 4095) / 4096 * 4096 ∧
      s.finish < addressLimit := by
  rw [pages?_eq, Option.ite_none_right_eq_some, Option.some_inj]
  constructor
  · rintro ⟨hfits, rfl⟩
    exact ⟨rfl, rfl, hfits⟩
  · rintro ⟨hstart, hfinish, hfits⟩
    exact ⟨hfinish ▸ hfits, by rw [← hstart, ← hfinish]⟩

theorem mappable_of_pages? (h : pages? addr size = some s) (hpos : 0 < size) : s.Mappable := by
  obtain ⟨hstart, hfinish, hfits⟩ := pages?_eq_some_iff.mp h
  exact ⟨by omega, hfits⟩

end RiscvHart.Span
