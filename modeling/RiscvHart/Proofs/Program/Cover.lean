import RiscvHart.Proofs.Program.Spans
import Mathlib.Data.List.Pairwise

/-!
# The coarsest cover

Spans that neither meet nor touch are determined by the addresses that they have together, and
every span of such addresses lies in one of them. Joining gives spans of this kind, so what it
gives depends on the addresses alone.
-/

namespace RiscvHart.Span

variable {s t u : Span} {ss ts us : List Span} {a : Nat}

/-- Spans in order, each with an address, and with an address between any two of them
that neither has. -/
structure Separate (ts : List Span) : Prop where
  pos : ∀ t ∈ ts, t.start < t.finish
  apart : ts.Pairwise fun s t => s.finish < t.start

def SameAddresses (ss ts : List Span) : Prop := ∀ a, (∃ s ∈ ss, s.Has a) ↔ ∃ t ∈ ts, t.Has a

theorem Inside.antisymm (hst : s.Inside t) (hts : t.Inside s) : s = t := by
  cases s
  cases t
  simp only [Inside] at hst hts
  rw [Span.mk.injEq]
  omega

theorem has_start (h : s.start < s.finish) : s.Has s.start := ⟨Nat.le_refl _, h⟩

/-- Spans that neither meet nor touch. -/
def Apart (s t : Span) : Prop := s.finish < t.start ∨ t.finish < s.start

instance : Std.Symm Apart := ⟨fun _ _ => Or.symm⟩

namespace Separate

/-- Two of the spans that reach the same address, or end at it, are one. -/
theorem eq_of_reached (h : Separate ts) (hs : s ∈ ts) (ht : t ∈ ts) (hsa : s.start ≤ a)
    (has : a ≤ s.finish) (hta : t.start ≤ a) (hat : a ≤ t.finish) : s = t := by
  by_contra hne
  have hapart : ts.Pairwise Apart := h.apart.imp Or.inl
  rcases hapart.forall hs ht hne with hlt | hlt <;> omega

/-- A span of addresses that separate spans have lies in one of them. It cannot go on behind that
one, whose end is an address of none. -/
theorem existsUnique_inside (h : Separate ts) (hpos : u.start < u.finish)
    (hu : ∀ a, u.Has a → ∃ t ∈ ts, t.Has a) : ∃! t, t ∈ ts ∧ u.Inside t := by
  obtain ⟨t, ht, hstart⟩ := hu u.start (has_start hpos)
  have hfinish : u.finish ≤ t.finish := by
    by_contra hlonger
    have hlt := hstart.2
    obtain ⟨v, hv, hend⟩ := hu t.finish ⟨by omega, by omega⟩
    have hvt : v = t :=
      h.eq_of_reached hv ht hend.1 hend.2.le (h.pos t ht).le (Nat.le_refl _)
    rw [hvt] at hend
    exact absurd hend.2 (Nat.lt_irrefl _)
  refine ⟨t, ⟨ht, hstart.1, hfinish⟩, ?_⟩
  rintro v ⟨hv, hin⟩
  have hle : u.start ≤ v.finish := hpos.le.trans hin.2
  exact h.eq_of_reached hv ht hin.1 hle hstart.1 hstart.2.le

theorem mem_of_sameAddresses (hts : Separate ts) (hus : Separate us) (h : SameAddresses ts us)
    (ht : t ∈ ts) : t ∈ us := by
  obtain ⟨u, ⟨hu, htu⟩, -⟩ :=
    hus.existsUnique_inside (hts.pos t ht) fun a ha => (h a).mp ⟨t, ht, ha⟩
  obtain ⟨v, ⟨hv, huv⟩, -⟩ :=
    hts.existsUnique_inside (hus.pos u hu) fun a ha => (h a).mpr ⟨u, hu, ha⟩
  have hstart := has_start (hts.pos t ht)
  have htv := htu.trans huv
  have heq : v = t := by
    apply hts.eq_of_reached hv ht htv.1 _ (Nat.le_refl _) hstart.2.le
    exact hstart.2.le.trans htv.2
  rw [heq] at huv
  rwa [htu.antisymm huv]

theorem nodup (h : Separate ts) : ts.Nodup := by
  apply h.apart.imp_of_mem
  rintro s t hs - hlt rfl
  have hpos := h.pos s hs
  omega

/-- Separate spans with the same addresses are the same spans in the same order. -/
theorem eq_of_sameAddresses (hts : Separate ts) (hus : Separate us) (h : SameAddresses ts us) :
    ts = us := by
  have hmem : ∀ t, t ∈ ts ↔ t ∈ us := fun t =>
    ⟨hts.mem_of_sameAddresses hus h, hus.mem_of_sameAddresses hts fun a => (h a).symm⟩
  have hperm : ts.Perm us := (List.perm_ext_iff_of_nodup hts.nodup hus.nodup).mpr hmem
  apply List.Perm.eq_of_pairwise _ hts.apart hus.apart hperm
  intro s t hs ht hst hts'
  have hspos := hts.pos s hs
  have htpos := hus.pos t ht
  omega

end Separate

/-! ## Joined spans are separate -/

theorem apart_joinSorted (h : InOrder ss) :
    (joinSorted ss).Pairwise fun s t => s.finish < t.start := by
  induction ss using joinSorted.induct with
  | case1 =>
    rw [joinSorted]
    exact List.Pairwise.nil
  | case2 s =>
    rw [joinSorted]
    exact List.pairwise_singleton _ _
  | case3 s t rest hmeet ih =>
    rw [joinSorted, if_pos hmeet]
    exact ih h.merge
  | case4 s t rest hapart ih =>
    have hrest : InOrder (t :: rest) := (List.pairwise_cons.mp h).2
    rw [joinSorted, if_neg hapart, List.pairwise_cons]
    refine ⟨fun u hu => ?_, ih hrest⟩
    -- What follows starts where one of the later spans starts, and none of them before `t`.
    obtain ⟨⟨v, hv, hstart, -⟩, -⟩ := ends_of_mem_joinSorted hu
    have hle : t.start ≤ v.start := by
      rcases List.mem_cons.mp hv with rfl | hv
      · exact Nat.le_refl _
      · exact (List.pairwise_cons.mp hrest).1 v hv
    omega

theorem separate_join (h : ∀ s ∈ ss, s.start < s.finish) : Separate (join ss) where
  pos t ht := by
    obtain ⟨⟨s, hs, hstart, hle⟩, -⟩ := ends_of_mem_join ht
    have hpos := h s hs
    omega
  apart := apart_joinSorted (inOrder_mergeSort ss)

theorem sameAddresses_join (ss : List Span) : SameAddresses (join ss) ss :=
  fun _ => exists_join_has_iff

/-- What it means that `ts` covers the addresses of `ss` in as few spans as there can be: every
span of these addresses, those of `ss` among them, lies in one span of `ts`. -/
structure CoarsestCover (ss ts : List Span) : Prop where
  separate : Separate ts
  same : SameAddresses ts ss
  inside : ∀ s ∈ ss, ∃! t, t ∈ ts ∧ s.Inside t
  coarsest : ∀ u : Span, u.start < u.finish → (∀ a, u.Has a → ∃ s ∈ ss, s.Has a) →
    ∃! t, t ∈ ts ∧ u.Inside t

theorem coarsestCover_of_separate (h : Separate ts) (hsame : SameAddresses ts ss)
    (hss : ∀ s ∈ ss, s.start < s.finish) : CoarsestCover ss ts where
  separate := h
  same := hsame
  inside s hs := h.existsUnique_inside (hss s hs) fun a ha => (hsame a).mpr ⟨s, hs, ha⟩
  coarsest _ hpos hu := h.existsUnique_inside hpos fun a ha => (hsame a).mpr (hu a ha)

/-- Joining computes the one coarsest cover: it is determined by the addresses of the spans, so
their order, overlaps and repetitions have no influence on it. -/
theorem coarsestCover_join (h : ∀ s ∈ ss, s.start < s.finish) :
    CoarsestCover ss (join ss) ∧ (∀ ts, CoarsestCover ss ts → ts = join ss) ∧
      ∀ ts : List Span, (∀ t ∈ ts, t.start < t.finish) →
        (join ts = join ss ↔ SameAddresses ts ss) := by
  have hcover := coarsestCover_of_separate (separate_join h) (sameAddresses_join ss) h
  refine ⟨hcover, fun ts hts => ?_, fun ts hts => ⟨fun heq a => ?_, fun hsame => ?_⟩⟩
  · apply hts.separate.eq_of_sameAddresses hcover.separate
    exact fun a => (hts.same a).trans (hcover.same a).symm
  · rw [← exists_join_has_iff, heq, exists_join_has_iff]
  · apply (separate_join hts).eq_of_sameAddresses hcover.separate
    intro a
    calc (∃ t ∈ join ts, t.Has a)
      _ ↔ ∃ t ∈ ts, t.Has a := exists_join_has_iff
      _ ↔ ∃ s ∈ ss, s.Has a := hsame a
      _ ↔ ∃ s ∈ join ss, s.Has a := exists_join_has_iff.symm

def overlapping : List Span :=
  [⟨0x5000, 0x6000⟩, ⟨0x1000, 0x4000⟩, ⟨0x2000, 0x3000⟩, ⟨0x8000, 0x9000⟩, ⟨0x4000, 0x5000⟩,
    ⟨0x1000, 0x4000⟩]

theorem join_overlapping : join overlapping = [⟨0x1000, 0x6000⟩, ⟨0x8000, 0x9000⟩] := by
  cbv

theorem coarsestCover_join_overlapping : (∀ s ∈ overlapping, s.start < s.finish) ∧
    CoarsestCover overlapping [⟨0x1000, 0x6000⟩, ⟨0x8000, 0x9000⟩] ∧
    join [⟨0x8000, 0x9000⟩, ⟨0x1000, 0x6000⟩] = join overlapping := by
  have hpos : ∀ s ∈ overlapping, s.start < s.finish := by decide
  have hsame : SameAddresses [⟨0x8000, 0x9000⟩, ⟨0x1000, 0x6000⟩] overlapping := by
    intro a
    simp only [overlapping, List.exists_mem_cons_iff, List.not_mem_nil, false_and, exists_false,
      or_false, Has]
    omega
  have hjoin := coarsestCover_join hpos
  refine ⟨hpos, ?_, (hjoin.2.2 _ (by decide)).mpr hsame⟩
  rw [← join_overlapping]
  exact hjoin.1

end RiscvHart.Span
