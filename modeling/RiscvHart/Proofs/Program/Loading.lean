import RiscvHart.Proofs.Kernel.Reachable
import RiscvHart.Proofs.Memory.Persistence
import RiscvHart.Proofs.Program.Spans

/-!
# What loading makes of memory

The spans of a program are mapped one after the other, which changes nothing but the addresses in
them. Then its segments are written, which never fails: each of them lies in one of the spans.
-/

namespace RiscvHart

namespace Segment

variable {s : Segment} {segments : List Segment} {pages : List Span} {p : Span} {a : Word}

def byte? (s : Segment) (a : Word) : Option Byte :=
  if a.Within s.vaddr s.data.length then s.data[a.toNat - s.vaddr.toNat]? else none

def OnPages (s : Segment) (a : Word) : Prop :=
  s.vaddr.toNat / 4096 * 4096 ≤ a.toNat ∧ a.toNat < (s.vaddr.toNat + s.memSize + 4095) / 4096 * 4096

structure Sized (s : Segment) : Prop where
  pos : 0 < s.memSize
  fits : s.data.length ≤ s.memSize

theorem Sized.onPages (h : s.Sized) {b : Byte} (hb : s.byte? a = some b) : s.OnPages a := by
  rw [byte?, Option.ite_none_right_eq_some] at hb
  obtain ⟨⟨hlow, hhigh⟩, -⟩ := hb
  have hfits := h.fits
  exact ⟨by omega, by omega⟩

theorem findSome?_byte?_eq_none (hsized : ∀ s ∈ segments, s.Sized)
    (ha : ¬∃ s ∈ segments, s.OnPages a) : segments.findSome? (·.byte? a) = none := by
  refine List.findSome?_eq_none_iff.mpr fun s hs => Option.eq_none_iff_forall_ne_some.mpr ?_
  exact fun b hb => ha ⟨s, hs, (hsized s hs).onPages hb⟩

theorem pages_eq_ok_iff : s.pages = .ok p ↔ Span.pages? s.vaddr s.memSize = some p := by
  unfold pages
  split
  · next q hq => rw [hq, Option.some_inj, Except.ok.injEq]
  · next hnone =>
    rw [hnone]
    exact ⟨nofun, nofun⟩

theorem has_iff_onPages (h : Span.pages? s.vaddr s.memSize = some p) :
    p.Has a.toNat ↔ s.OnPages a := by
  obtain ⟨hstart, hfinish, -⟩ := Span.pages?_eq_some_iff.mp h
  rw [Span.Has, OnPages, hstart, hfinish]

def PagesAre (segments : List Segment) (pages : List Span) : Prop :=
  List.Forall₂ (fun s p => Span.pages? s.vaddr s.memSize = some p) segments pages

theorem mapM_pages_eq_ok_iff :
    segments.mapM Segment.pages = .ok pages ↔ PagesAre segments pages := by
  induction segments generalizing pages with
  | nil =>
    rw [List.mapM_nil, PagesAre, List.forall₂_nil_left_iff]
    exact ⟨fun h => by cases h; rfl, fun h => by rw [h]; rfl⟩
  | cons s rest ih =>
    rw [List.mapM_cons, Except.bind_eq_ok_iff, PagesAre, List.forall₂_cons_left_iff]
    refine exists_congr fun p => ?_
    rw [pages_eq_ok_iff, Except.bind_eq_ok_iff]
    refine ⟨?_, ?_⟩
    · rintro ⟨hp, ps, hps, heq⟩
      cases heq
      exact ⟨ps, hp, ih.mp hps, rfl⟩
    · rintro ⟨ps, hp, hps, rfl⟩
      exact ⟨hp, ps, ih.mpr hps, rfl⟩

theorem PagesAre.exists_pages (h : PagesAre segments pages) (hs : s ∈ segments) :
    ∃ p ∈ pages, Span.pages? s.vaddr s.memSize = some p := by
  induction h with
  | nil => exact absurd hs List.not_mem_nil
  | cons hp _ ih =>
    rcases List.mem_cons.mp hs with rfl | hs
    · exact ⟨_, List.mem_cons_self, hp⟩
    · obtain ⟨q, hq, hpages⟩ := ih hs
      exact ⟨q, List.mem_cons_of_mem _ hq, hpages⟩

theorem PagesAre.exists_segment (h : PagesAre segments pages) (hp : p ∈ pages) :
    ∃ s ∈ segments, Span.pages? s.vaddr s.memSize = some p := by
  induction h with
  | nil => exact absurd hp List.not_mem_nil
  | cons hs _ ih =>
    rcases List.mem_cons.mp hp with rfl | hp
    · exact ⟨_, List.mem_cons_self, hs⟩
    · obtain ⟨q, hq, hpages⟩ := ih hp
      exact ⟨q, List.mem_cons_of_mem _ hq, hpages⟩

theorem PagesAre.exists_has_iff (h : PagesAre segments pages) :
    (∃ p ∈ Span.join pages, p.Has a.toNat) ↔ ∃ s ∈ segments, s.OnPages a := by
  rw [Span.exists_join_has_iff]
  constructor
  · rintro ⟨p, hp, ha⟩
    obtain ⟨s, hs, hpages⟩ := h.exists_segment hp
    exact ⟨s, hs, (has_iff_onPages hpages).mp ha⟩
  · rintro ⟨s, hs, ha⟩
    obtain ⟨p, hp, hpages⟩ := h.exists_pages hs
    exact ⟨p, hp, (has_iff_onPages hpages).mpr ha⟩

theorem PagesAre.mappable (h : PagesAre segments pages) (hsized : ∀ s ∈ segments, s.Sized)
    (hp : p ∈ Span.join pages) : p.Mappable := by
  refine Span.mappable_of_mem_join (fun q hq => ?_) hp
  obtain ⟨s, hs, hpages⟩ := h.exists_segment hq
  exact Span.mappable_of_pages? hpages (hsized s hs).pos

end Segment

namespace Memory

variable {m m' m₁ after : Memory} {addr a : Word} {size : Nat} {r : Region} {s : Span}
  {spans : List Span} {bs : List Byte} {x : Executable} {image : Image}

/-! ## Regions that outlast a load -/

/-- Each region of `m` is one of `m'`, or it has no bytes and one with bytes has its place. -/
def Outlasts (m m' : Memory) : Prop :=
  ∀ r ∈ m.regions, r ∈ m'.regions ∨ r.size = 0 ∧ ∃ s ∈ m'.regions, s.base = r.base ∧ 0 < s.size

namespace Outlasts

theorem refl (m : Memory) : m.Outlasts m := fun _ hr => Or.inl hr

theorem mem (h : m.Outlasts m') (hr : r ∈ m.regions) (hfull : 0 < r.size) : r ∈ m'.regions := by
  rcases h r hr with hmem | ⟨hempty, -⟩
  · exact hmem
  · omega

theorem trans (h : m.Outlasts m₁) (h' : m₁.Outlasts m') : m.Outlasts m' := by
  intro r hr
  rcases h r hr with hmem | ⟨hempty, s, hs, hbase, hfull⟩
  · exact h' r hmem
  · exact Or.inr ⟨hempty, s, h'.mem hs hfull, hbase, hfull⟩

theorem byteMap (h : m.Outlasts m') (hwell : m'.WellFormed) {b : Byte} (hb : m.byteMap a = some b) :
    m'.byteMap a = some b :=
  hwell.byteMap_of_regions_kept (fun _ => h.mem) hb

end Outlasts

theorem WellFormed.zeros_mem_of_allocate (h : m.WellFormed) (hpos : 0 < size)
    (hok : m.allocate addr size = .ok m') : .zeros addr size ∈ m'.regions := by
  rcases allocate_cases hok with ⟨hzero, -⟩ | ⟨-, -, -, -, -, rfl⟩
  · omega
  · exact (Region.mem_insertRegion h.apart).mpr (Or.inl rfl)

theorem WellFormed.outlasts_allocate (h : m.WellFormed) (hok : m.allocate addr size = .ok m') :
    m.Outlasts m' := by
  intro r hr
  rcases allocate_cases hok with ⟨-, rfl⟩ | ⟨hpos, -, -, -, -, rfl⟩
  · exact Or.inl hr
  have hmem := fun t => Region.mem_insertRegion (r := .zeros addr size) (s := t) h.apart
  by_cases hbase : r.base = addr
  · have hempty : ¬0 < r.size := fun hfull => h.base_ne_of_allocate hpos hok hr hfull hbase
    exact Or.inr ⟨by omega, .zeros addr size, (hmem _).mpr (Or.inl rfl), hbase.symm, hpos⟩
  · exact Or.inl ((hmem r).mpr (Or.inr ⟨hr, hbase⟩))

/-- A write where nothing was mapped before. -/
theorem Outlasts.fill (h : m.Outlasts m₁) (hwell : m₁.WellFormed) (hok : m₁.fill addr bs = .ok m')
    (hnew : 0 < bs.length → m.byteMap addr = none) : m.Outlasts m' := by
  intro r hr
  rcases h r hr with hmem | ⟨hempty, s, hs, hbase, hfull⟩
  · refine Or.inl (hwell.mem_of_fill hok hmem fun hpos => ?_)
    exact byteMap_eq_none_iff.mp (hnew hpos) r hr
  · obtain ⟨t, ht, hbase', hsize'⟩ := exists_region_of_layout_eq (frame_fill hok).1 hs
    exact Or.inr ⟨hempty, t, ht, hbase'.trans hbase, hsize' ▸ hfull⟩

/-! ## Spans -/

theorem mapSpans_cons (m : Memory) (s : Span) (rest : List Span)
    (hok : m.allocate (BitVec.ofNat 64 s.start) s.size = .ok m₁) :
    (m.mapSpans (s :: rest)).1 = (m₁.mapSpans rest).1 ∧
      (m.mapSpans (s :: rest)).2.2 = (m₁.mapSpans rest).2.2 := by
  rw [mapSpans, hok]
  exact ⟨rfl, rfl⟩

theorem WellFormed.mapSpans (h : m.WellFormed) (spans : List Span) :
    (m.mapSpans spans).1.WellFormed :=
  (Budgeted.mapSpans ⟨h, rfl⟩ spans).toWellFormed

/-- However far the mapping of spans gets, it leaves what was mapped before alone. -/
theorem WellFormed.outlasts_mapSpans (h : m.WellFormed) (spans : List Span) :
    m.Outlasts (m.mapSpans spans).1 := by
  induction spans generalizing m with
  | nil => exact Outlasts.refl m
  | cons s rest ih =>
    unfold Memory.mapSpans
    split
    · exact Outlasts.refl m
    · next mapped hok => exact (h.outlasts_allocate hok).trans (ih (h.allocate hok))

/-- The spans have been mapped, and nothing else has changed. -/
structure SpansMapped (m after : Memory) (spans : List Span) : Prop where
  free : ∀ a : Word, (∃ s ∈ spans, s.Has a.toNat) → m.byteMap a = none
  zero : ∀ a : Word, (∃ s ∈ spans, s.Has a.toNat) → after.byteMap a = some 0
  rest : ∀ a : Word, (¬∃ s ∈ spans, s.Has a.toNat) → after.byteMap a = m.byteMap a
  region : ∀ s ∈ spans, ∃ r ∈ after.regions, r.base.toNat = s.start ∧ r.finish = s.finish

theorem WellFormed.byteMap_allocate_span (h : m.WellFormed) (hs : s.Mappable)
    (hok : m.allocate (BitVec.ofNat 64 s.start) s.size = .ok m') (a : Word) :
    (s.Has a.toNat → m.byteMap a = none) ∧
      m'.byteMap a = if s.Has a.toNat then some 0 else m.byteMap a := by
  have hpos := hs.pos
  have hin : a.Within (BitVec.ofNat 64 s.start) s.size ↔ s.Has a.toNat := by
    rw [Word.Within, hs.toNat_start, Span.size, Span.Has]
    omega
  obtain ⟨hfree, hbyte⟩ := h.byteMap_allocate hok a
  exact ⟨fun ha => hfree (hin.mpr ha), hbyte.trans (if_congr hin rfl rfl)⟩

theorem SpansMapped.cons (h : m.WellFormed) (hs : s.Mappable)
    (hok : m.allocate (BitVec.ofNat 64 s.start) s.size = .ok m₁)
    (hrest : m₁.SpansMapped after spans) (hkept : m₁.Outlasts after) :
    m.SpansMapped after (s :: spans) := by
  have hone := h.byteMap_allocate_span hs hok
  -- What the first span has is mapped when the others are, so they do not have it.
  have hfirst : ∀ a : Word, s.Has a.toNat →
      m₁.byteMap a = some 0 ∧ ¬∃ t ∈ spans, t.Has a.toNat := by
    intro a ha
    have hzero : m₁.byteMap a = some 0 := by rw [(hone a).2, if_pos ha]
    refine ⟨hzero, fun hlater => ?_⟩
    rw [hrest.free a hlater] at hzero
    cases hzero
  have hlater : ∀ a : Word, (∃ t ∈ spans, t.Has a.toNat) → m₁.byteMap a = m.byteMap a := by
    intro a ha
    rw [(hone a).2, if_neg]
    exact fun hin => (hfirst a hin).2 ha
  constructor
  · intro a ha
    rcases (List.exists_mem_cons_iff ..).mp ha with ha | ha
    · exact (hone a).1 ha
    · rw [← hlater a ha, hrest.free a ha]
  · intro a ha
    rcases (List.exists_mem_cons_iff ..).mp ha with ha | ha
    · rw [hrest.rest a (hfirst a ha).2, (hfirst a ha).1]
    · exact hrest.zero a ha
  · intro a ha
    rw [List.exists_mem_cons_iff, not_or] at ha
    rw [hrest.rest a ha.2, (hone a).2, if_neg ha.1]
  · intro t ht
    rcases List.mem_cons.mp ht with rfl | ht
    · have hfull : 0 < t.size := Nat.sub_pos_of_lt hs.pos
      refine ⟨_, hkept.mem (h.zeros_mem_of_allocate hfull hok) hfull, hs.toNat_start, ?_⟩
      show (BitVec.ofNat 64 t.start : Word).toNat + t.size = t.finish
      rw [hs.toNat_start, Span.size]
      exact Nat.add_sub_of_le (Nat.le_of_lt hs.pos)
    · exact hrest.region t ht

theorem WellFormed.spansMapped (h : m.WellFormed) (hspans : ∀ s ∈ spans, s.Mappable)
    (hok : (m.mapSpans spans).2.2 = none) : m.SpansMapped (m.mapSpans spans).1 spans := by
  induction spans generalizing m with
  | nil =>
    have hnone : ∀ {P : Span → Prop}, ¬∃ s ∈ ([] : List Span), P s := fun ⟨_, hs, _⟩ =>
      absurd hs List.not_mem_nil
    exact ⟨fun _ ha => absurd ha hnone, fun _ ha => absurd ha hnone, fun _ _ => rfl,
      fun _ hs => absurd hs List.not_mem_nil⟩
  | cons s rest ih =>
    cases hfirst : m.allocate (BitVec.ofNat 64 s.start) s.size with
    | error e =>
      rw [Memory.mapSpans, hfirst] at hok
      cases hok
    | ok m₁ =>
      obtain ⟨hmemory, herror⟩ := mapSpans_cons m s rest hfirst
      have h₁ := h.allocate hfirst
      have hrest := ih h₁ (fun t ht => hspans t (List.mem_cons_of_mem s ht)) (herror.symm.trans hok)
      rw [hmemory]
      exact hrest.cons h (hspans s List.mem_cons_self) hfirst (h₁.outlasts_mapSpans rest)

/-! ## Segments -/

theorem byteMap_fill_segment {s : Segment} (h : m.WellFormed) (hok : m.fill s.vaddr s.data = .ok m')
    (a : Word) : m'.byteMap a = (s.byte? a).or (m.byteMap a) := by
  rw [h.byteMap_fill hok, Segment.byte?]
  split
  · next ha =>
    have hhigh := ha.2
    have hlow := ha.1
    rw [List.getElem?_eq_getElem (by omega)]
    rfl
  · rfl

/-- Segments that are mapped are written without fail. Where they meet the last one is seen. -/
theorem WellFormed.writeSegments {segments : List Segment} (h : m₁.WellFormed)
    (hmapped : ∀ s ∈ segments, m₁.Mapped s.vaddr s.data.length) (hkept : m.Outlasts m₁)
    (hnew : ∀ s ∈ segments, m.byteMap s.vaddr = none) :
    ∃ after, m₁.writeSegments segments = (after, none) ∧ after.WellFormed ∧
      after.layout = m₁.layout ∧ m.Outlasts after ∧
      ∀ a, after.byteMap a = (segments.reverse.findSome? (·.byte? a)).or (m₁.byteMap a) := by
  induction segments generalizing m₁ with
  | nil => exact ⟨m₁, rfl, h, rfl, hkept, fun _ => rfl⟩
  | cons s rest ih =>
    obtain ⟨m₂, hfill⟩ := (h.bounded_fill s.vaddr s.data).ok_of_mapped
      (hmapped s List.mem_cons_self)
    have hlayout := (frame_fill hfill).1
    obtain ⟨after, hrun, hwell, hlayout', hkept', hbytes⟩ := ih (h.fill hfill)
      (fun t ht => (mapped_iff_of_layout_eq hlayout).mpr (hmapped t (List.mem_cons_of_mem s ht)))
      (hkept.fill h hfill fun _ => hnew s List.mem_cons_self)
      (fun t ht => hnew t (List.mem_cons_of_mem s ht))
    refine ⟨after, ?_, hwell, hlayout'.trans hlayout, hkept', fun a => ?_⟩
    · rw [Memory.writeSegments, hfill]
      exact hrun
    · rw [hbytes, byteMap_fill_segment h hfill, List.reverse_cons, List.findSome?_append,
        List.findSome?_singleton, Option.or_assoc]

/-- Each segment lies in the region of the span that its pages were joined to. -/
theorem SpansMapped.exists_covers {segments : List Segment} {pages : List Span} {s : Segment}
    (h : m.SpansMapped after (Span.join pages)) (hpages : Segment.PagesAre segments pages)
    (hs : s ∈ segments) : ∃ r ∈ after.regions, r.Covers s.vaddr s.memSize := by
  obtain ⟨p, hp, hround⟩ := hpages.exists_pages hs
  obtain ⟨q, hq, hlow, hhigh⟩ := Span.exists_inside_join hp
  obtain ⟨r, hr, hstart, hend⟩ := h.region q hq
  obtain ⟨hstart', hfinish', -⟩ := Span.pages?_eq_some_iff.mp hround
  exact ⟨r, hr, by omega, by omega⟩

/-- The segments are in memory, and nothing else has changed. -/
structure Loaded (m after : Memory) (segments : List Segment) : Prop where
  covered : ∀ s ∈ segments, ∃ r ∈ after.regions, r.Covers s.vaddr s.memSize
  pages : ∀ a, (∃ s ∈ segments, s.OnPages a) ↔ m.byteMap a = none ∧ after.byteMap a ≠ none
  bytes : ∀ a, m.byteMap a = none → after.byteMap a ≠ none →
    after.byteMap a = some ((segments.reverse.findSome? (·.byte? a)).getD 0)
  wellFormed : after.WellFormed
  kept : m.Outlasts after

/-- Once the spans are mapped nothing more can fail. -/
theorem WellFormed.loaded {segments : List Segment} {pages : List Span} (h : m.WellFormed)
    (hpages : Segment.PagesAre segments pages) (hsized : ∀ s ∈ segments, s.Sized)
    (hok : (m.mapSpans (Span.join pages)).2.2 = none) :
    ∃ after, (m.mapSpans (Span.join pages)).1.writeSegments segments = (after, none) ∧
      m.Loaded after segments := by
  have hspans := h.spansMapped (fun s hs => hpages.mappable hsized hs) hok
  have h₁ := h.mapSpans (Span.join pages)
  have hkept := h.outlasts_mapSpans (Span.join pages)
  generalize (m.mapSpans (Span.join pages)).1 = m₁ at *
  have hnew : ∀ s ∈ segments, m.byteMap s.vaddr = none := by
    intro s hs
    have hpos := (hsized s hs).pos
    exact hspans.free _ (hpages.exists_has_iff.mpr ⟨s, hs, by omega, by omega⟩)
  have hmapped : ∀ s ∈ segments, m₁.Mapped s.vaddr s.data.length := by
    intro s hs
    have hfits := (hsized s hs).fits
    obtain ⟨r, hr, hstart, hend⟩ := hspans.exists_covers hpages hs
    exact Or.inr ⟨r, hr, hstart, by omega⟩
  obtain ⟨after, hrun, hwell, hlayout, hkept', hbytes⟩ := h₁.writeSegments hmapped hkept hnew
  -- Outside the spans no segment has a byte.
  have hout : ∀ a, (¬∃ s ∈ segments, s.OnPages a) → after.byteMap a = m.byteMap a := by
    intro a ha
    have hnone : segments.reverse.findSome? (·.byte? a) = none :=
      Segment.findSome?_byte?_eq_none (by simpa using hsized) (by simpa using ha)
    rw [hbytes, hnone, Option.none_or]
    exact hspans.rest a (mt hpages.exists_has_iff.mp ha)
  have hin : ∀ a, (∃ s ∈ segments, s.OnPages a) →
      after.byteMap a = some ((segments.reverse.findSome? (·.byte? a)).getD 0) := by
    intro a ha
    rw [hbytes, hspans.zero a (hpages.exists_has_iff.mpr ha), Option.or_some]
  refine ⟨after, hrun, fun s hs => ?_, fun a => ⟨fun ha => ⟨?_, ?_⟩, ?_⟩, fun a hfree hmem => ?_,
    hwell, hkept'⟩
  · obtain ⟨r, hr, hstart, hend⟩ := hspans.exists_covers hpages hs
    obtain ⟨t, ht, hbase, hsize⟩ := exists_region_of_layout_eq hlayout hr
    refine ⟨t, ht, ?_⟩
    rw [Region.Covers, Region.finish, hbase, hsize]
    exact ⟨hstart, hend⟩
  · exact hspans.free a (hpages.exists_has_iff.mpr ha)
  · rw [hin a ha]
    exact Option.some_ne_none _
  · rintro ⟨hfree, hmem⟩
    by_contra ha
    exact hmem ((hout a ha).trans hfree)
  · by_contra hne
    exact hmem ((hout a (mt (hin a) hne)).trans hfree)

/-! ## The outcomes of a load -/

/-- A load stops at a segment that does not fit, with nothing changed; or it stops at a span that
cannot be mapped; or it puts all segments into memory. -/
theorem WellFormed.loadExecutable_cases (h : m.WellFormed) (hsized : ∀ s ∈ x.segments, s.Sized) :
    (∃ e, (m.loadExecutable x).result = .error (.error e) ∧ (m.loadExecutable x).memory = m ∧
      ¬∃ pages, Segment.PagesAre x.segments pages) ∨
    ∃ pages, Segment.PagesAre x.segments pages ∧
      ((∃ e, (m.mapSpans (Span.join pages)).2.2 = some e ∧
          (m.loadExecutable x).result = .error (.error (.memory e)) ∧
          (m.loadExecutable x).memory = (m.mapSpans (Span.join pages)).1) ∨
        (m.mapSpans (Span.join pages)).2.2 = none ∧
          (m.loadExecutable x).result = .ok ⟨x.entry, x.segments.map Segment.place⟩ ∧
          m.Loaded (m.loadExecutable x).memory x.segments) := by
  cases hmap : x.segments.mapM Segment.pages with
  | error e =>
    have hload : m.loadExecutable x = ⟨m, [], .error (.error e)⟩ := by rw [loadExecutable, hmap]
    refine Or.inl ⟨e, by rw [hload], by rw [hload], ?_⟩
    rintro ⟨pages, hpages⟩
    rw [Segment.mapM_pages_eq_ok_iff.mpr hpages] at hmap
    cases hmap
  | ok pages =>
    have hpages := Segment.mapM_pages_eq_ok_iff.mp hmap
    refine Or.inr ⟨pages, hpages, ?_⟩
    rcases hrun : m.mapSpans (Span.join pages) with ⟨after, spans, failed⟩
    cases failed with
    | some e =>
      have hload : m.loadExecutable x = ⟨after, spans, .error (.error (.memory e))⟩ := by
        rw [loadExecutable, hmap]
        dsimp only
        rw [hrun]
      exact Or.inl ⟨e, rfl, by rw [hload], by rw [hload]⟩
    | none =>
      obtain ⟨written, hwrite, hloaded⟩ := h.loaded hpages hsized (by rw [hrun])
      rw [hrun] at hwrite
      have hload : m.loadExecutable x =
          ⟨written, spans, .ok ⟨x.entry, x.segments.map Segment.place⟩⟩ := by
        rw [loadExecutable, hmap]
        dsimp only
        rw [hrun]
        dsimp only
        rw [hwrite]
      exact Or.inr ⟨rfl, by rw [hload], by rw [hload]; exact hloaded⟩

end Memory

end RiscvHart
