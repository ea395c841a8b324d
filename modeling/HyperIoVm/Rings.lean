import HyperIoVm.Data.Span
import HyperIoVm.Vhost

/-!
# Which rings are accepted

`RingsValid` says, over numbers that do not wrap, what a guest may configure. The validation
of `configure_vhost` accepts exactly that, and leaves the areas of the service's address space
that the guest's areas are mapped to.
-/

namespace HyperIoVm

open Data

/-- The guest memory of the client. -/
def MemoryInfo.span (m : MemoryInfo) : Span := ⟨m.guestBase.toNat, m.length.toNat⟩

/-! ## What a guest may configure -/

namespace Queue

variable (q : Queue)

/-- The areas of a ring of `q.size` entries: descriptors, available and used. -/
def descriptorArea : Span := ⟨q.descriptor.toNat, 16 * q.size.toNat⟩
def availableArea : Span := ⟨q.available.toNat, 6 + 2 * q.size.toNat⟩
def usedArea : Span := ⟨q.used.toNat, 6 + 8 * q.size.toNat⟩

/-- The areas in the order of the validation. -/
def areas : List Span := [q.descriptorArea, q.availableArea, q.usedArea]

/-- The record of a queue that is not configured. -/
def Absent (required i : Nat) : Prop := required ≤ i ∧ q = .zero

/-- What a configured queue states of itself, apart from where its areas lie. -/
structure Formed : Prop where
  size : q.size.toNat.isPowerOfTwo
  bound : q.size.toNat ≤ 128
  reserved : q.reserved = 0
  descriptor : 16 ∣ q.descriptor.toNat
  available : 2 ∣ q.available.toNat
  used : 4 ∣ q.used.toNat

/-- The places of a queue's areas among those of all queues; a queue without entries has three
empty ones. -/
def slots : List (Option Span) :=
  if q.size = 0 then List.replicate 3 none else q.areas.map some

variable {q} {required i : Nat}

theorem Formed.pos (h : q.Formed) : 0 < q.size.toNat := Nat.pos_of_isPowerOfTwo h.size

theorem Formed.size_ne (h : q.Formed) : q.size ≠ 0 := by
  intro hsize
  have hpos := h.pos
  rw [hsize] at hpos
  exact absurd hpos (by decide)

theorem Absent.slots (h : q.Absent required i) : q.slots = List.replicate 3 none := by
  rw [Queue.slots, h.2]
  exact if_pos rfl

@[simp] theorem length_slots : q.slots.length = 3 := by
  rw [Queue.slots]
  split <;> rfl

end Queue

/-- Every queue is absent, where it may be, or formed with its areas inside the guest's memory;
and the areas of the configured queues are pairwise apart. -/
structure RingsValid (region : MemoryInfo) (required : Nat) (queues : List Queue) : Prop where
  each : ∀ (i : Nat) (q : Queue), queues[i]? = some q →
    q.Absent required i ∨ q.Formed ∧ ∀ s ∈ q.areas, s.Within region.span
  apart : ((queues.filter (·.size ≠ 0)).flatMap Queue.areas).Pairwise Span.Apart

/-- The areas of the configured queues are the spans in all slots. -/
theorem reduceOption_slots (queues : List Queue) :
    (queues.flatMap Queue.slots).reduceOption =
      (queues.filter (·.size ≠ 0)).flatMap Queue.areas := by
  induction queues with
  | nil => rfl
  | cons q queues ih =>
    rw [List.flatMap_cons, List.reduceOption_append, ih, Queue.slots]
    by_cases hsize : q.size = 0
    · rw [if_pos hsize, List.reduceOption_replicate_none, List.nil_append,
        List.filter_cons_of_neg (by simpa using hsize)]
    · rw [if_neg hsize, List.filter_cons_of_pos (by simpa using hsize), List.flatMap_cons]
      rfl

/-- The rings are valid when every queue is absent or formed, and all slots can be placed. -/
theorem ringsValid_iff {region : MemoryInfo} {required : Nat} {queues : List Queue} :
    RingsValid region required queues ↔
      (∀ (i : Nat) (q : Queue), queues[i]? = some q → q.Absent required i ∨ q.Formed) ∧
        Span.Placed region.span (queues.flatMap Queue.slots) := by
  rw [Span.Placed, reduceOption_slots]
  constructor
  · intro h
    refine ⟨fun i q hq => (h.each i q hq).imp_right And.left, fun s hs => ?_, h.apart⟩
    obtain ⟨q, hq, hs⟩ := List.mem_flatMap.mp hs
    obtain ⟨hmem, hsize⟩ := List.mem_filter.mp hq
    obtain ⟨i, hi⟩ := List.mem_iff_getElem?.mp hmem
    obtain habsent | hformed := h.each i q hi
    · rw [habsent.2] at hsize
      exact absurd hsize (by decide)
    · exact hformed.2 s hs
  · intro h
    obtain ⟨heach, hwithin, hapart⟩ := h
    refine ⟨fun i q hq => (heach i q hq).imp_right fun hformed => ⟨hformed, fun s hs => ?_⟩, hapart⟩
    have hmem : q ∈ queues.filter (·.size ≠ 0) :=
      List.mem_filter.mpr ⟨List.mem_of_getElem? hq, by simpa using hformed.size_ne⟩
    exact hwithin s (List.mem_flatMap.mpr ⟨q, hmem, hs⟩)

/-! ## Areas of the service's address space -/

/-- Where a slot lies in the service's memory; an empty slot is the zero area. -/
def Backend.hostArea (b : Backend) : Option Span → Area
  | none => ⟨0, 0⟩
  | some s =>
    let host := s.move b.region.guestBase.toNat b.memoryAddress.toNat
    ⟨.ofNat host.start, .ofNat host.stop⟩

variable {b : Backend} {gpa bytes alignment address : UInt64} {s t : Span}
variable {slots : List (Option Span)} {areas : List Area} {i required : Nat}

/-- `queue_address` accepts the aligned areas inside the region, and translates their start. -/
theorem queueAddress_eq_some :
    queueAddress b gpa bytes alignment = some address ↔
      alignment.toNat ∣ gpa.toNat ∧ (⟨gpa.toNat, bytes.toNat⟩ : Span).Within b.region.span ∧
        address = b.memoryAddress + (gpa - b.region.guestBase) := by
  have haligned : gpa % alignment = 0 ↔ alignment.toNat ∣ gpa.toNat := by
    rw [← UInt64.toNat_inj, UInt64.toNat_mod, Nat.dvd_iff_mod_eq_zero]
    rfl
  have hwithin : (⟨gpa.toNat, bytes.toNat⟩ : Span).Within b.region.span ↔
      ¬ gpa < b.region.guestBase ∧ ¬ bytes > b.region.length ∧
        ¬ gpa - b.region.guestBase > b.region.length - bytes := by
    simp only [Span.Within, Span.stop, MemoryInfo.span, UInt64.not_lt, UInt64.le_iff_toNat_le,
      gt_iff_lt]
    constructor
    · intro h
      obtain ⟨hlow, hhigh⟩ := h
      have hbytes : bytes.toNat ≤ b.region.length.toNat := by omega
      refine ⟨hlow, hbytes, ?_⟩
      rw [UInt64.toNat_sub_of_le _ _ (UInt64.le_iff_toNat_le.mpr hlow),
        UInt64.toNat_sub_of_le _ _ (UInt64.le_iff_toNat_le.mpr hbytes)]
      omega
    · intro h
      obtain ⟨hlow, hbytes, hoffset⟩ := h
      rw [UInt64.toNat_sub_of_le _ _ (UInt64.le_iff_toNat_le.mpr hlow),
        UInt64.toNat_sub_of_le _ _ (UInt64.le_iff_toNat_le.mpr hbytes)] at hoffset
      omega
  rw [queueAddress, hwithin, ← haligned]
  simp only [Bool.or_eq_true, decide_eq_true_eq, bne_iff_ne, ne_eq, ite_eq_iff, reduceCtorEq,
    and_false, false_or, Option.some.injEq, not_or, not_not]
  tauto

/-- The area validated for an area of the region is the one its slot is mapped to. -/
theorem hostArea_some (h : (⟨gpa.toNat, bytes.toNat⟩ : Span).Within b.region.span) :
    b.hostArea (some ⟨gpa.toNat, bytes.toNat⟩) =
      ⟨b.memoryAddress + (gpa - b.region.guestBase),
        b.memoryAddress + (gpa - b.region.guestBase) + bytes⟩ := by
  have hbase : b.region.guestBase ≤ gpa := UInt64.le_iff_toNat_le.mpr h.1
  have hstart : UInt64.ofNat (b.memoryAddress.toNat + (gpa.toNat - b.region.guestBase.toNat)) =
      b.memoryAddress + (gpa - b.region.guestBase) := by
    rw [← UInt64.toNat_sub_of_le _ _ hbase, UInt64.ofNat_add, UInt64.ofNat_toNat,
      UInt64.ofNat_toNat]
  simp only [Backend.hostArea, Span.move, Span.stop, UInt64.ofNat_add _ bytes.toNat, hstart,
    UInt64.ofNat_toNat]

theorem toNat_mul_size {n : UInt32} {a : UInt64} (h : a.toNat * n.toNat < 2 ^ 64) :
    (a * n.toUInt64).toNat = a.toNat * n.toNat := by
  rw [UInt64.toNat_mul, UInt32.toNat_toUInt64, Nat.mod_eq_of_lt h]

/-- The length of an area, as the service computes it from the size of a queue. -/
theorem toNat_add_mul_size {n : UInt32} {a c : UInt64} (h : c.toNat + a.toNat * n.toNat < 2 ^ 64) :
    (c + a * n.toUInt64).toNat = c.toNat + a.toNat * n.toNat := by
  rw [UInt64.toNat_add, toNat_mul_size (by omega), Nat.mod_eq_of_lt h]

/-- The test of `configure_vhost` for an optional queue that is not configured. -/
theorem absent_iff {q : Queue} : q.Absent required i ↔
    (q.size == 0 && i ≥ required && q.reserved == 0 && q.descriptor == 0 && q.available == 0 &&
      q.used == 0) = true := by
  obtain ⟨size, reserved, descriptor, available, used⟩ := q
  simp only [Queue.Absent, Queue.zero, Queue.mk.injEq, Bool.and_eq_true, beq_iff_eq,
    decide_eq_true_eq, ge_iff_le]
  tauto

theorem size_ne_of_isPowerOfTwo {n : UInt32} (h : n.toNat.isPowerOfTwo) : n ≠ 0 := by
  intro hn
  rw [hn] at h
  exact Nat.not_isPowerOfTwo_zero h

/-- The test of `configure_vhost` for the sizes it rejects. -/
theorem bounds_iff {q : Queue} :
    (q.size == 0 || q.size > 128 || q.size &&& (q.size - 1) != 0 || q.reserved != 0) = true ↔
      ¬ (q.size.toNat.isPowerOfTwo ∧ q.size.toNat ≤ 128 ∧ q.reserved = 0) := by
  by_cases hzero : q.size = 0
  · have hnot : ¬ q.size.toNat.isPowerOfTwo := fun h => size_ne_of_isPowerOfTwo h hzero
    exact ⟨fun _ h => hnot h.1, fun _ => by simp [hzero]⟩
  · have hne : q.size.toNat ≠ 0 := fun h => hzero (UInt32.toNat_inj.mp h)
    have hone : 1 ≤ q.size := UInt32.le_iff_toNat_le.mpr (Nat.one_le_iff_ne_zero.mpr hne)
    have hpower : q.size &&& (q.size - 1) = 0 ↔ q.size.toNat.isPowerOfTwo := by
      rw [← UInt32.toNat_inj, UInt32.toNat_and, UInt32.toNat_sub_of_le _ _ hone]
      exact Nat.and_sub_one_eq_zero_iff_isPowerOfTwo hne
    have hbound : q.size > 128 ↔ ¬ q.size.toNat ≤ 128 := by
      rw [gt_iff_lt, UInt32.lt_iff_toNat_lt, not_le]
      rfl
    simp only [Bool.or_eq_true, beq_iff_eq, decide_eq_true_eq, bne_iff_ne, ne_eq, hpower, hbound,
      hzero, false_or]
    tauto

/-- The memory of the client ends below the end of the service's address space. -/
def Backend.MapsBelow (b : Backend) : Prop :=
  b.memoryAddress.toNat + b.region.length.toNat < 2 ^ 64

section Mapped

variable (hmapped : b.MapsBelow)

include hmapped

/-- The addresses of a host area do not wrap, and lie in the mapping. -/
theorem hostArea_toNat (h : s.Within b.region.span) :
    (b.hostArea (some s)).start.toNat =
        b.memoryAddress.toNat + (s.start - b.region.guestBase.toNat) ∧
      (b.hostArea (some s)).stop.toNat = (b.hostArea (some s)).start.toNat + s.length ∧
        (b.hostArea (some s)).stop.toNat ≤ b.memoryAddress.toNat + b.region.length.toNat := by
  have hin := h.move b.memoryAddress.toNat
  simp only [Span.Within, Span.stop, Span.move] at hin
  simp only [Backend.MapsBelow] at hmapped
  have hstop : (b.hostArea (some s)).stop.toNat =
      b.memoryAddress.toNat + (s.start - b.region.guestBase.toNat) + s.length :=
    UInt64.toNat_ofNat_of_lt' (by simp only [Span.stop, Span.move, UInt64.size]; omega)
  have hstart : (b.hostArea (some s)).start.toNat =
      b.memoryAddress.toNat + (s.start - b.region.guestBase.toNat) :=
    UInt64.toNat_ofNat_of_lt' (by simp only [Span.move, UInt64.size]; omega)
  exact ⟨hstart, by rw [hstart, hstop], by rw [hstop]; exact hin.2⟩

/-- Two host areas overlap when the areas of the guest's they stand for do. -/
theorem hostArea_overlap (hs : s.Within b.region.span) (ht : t.Within b.region.span) :
    ((b.hostArea (some s)).start < (b.hostArea (some t)).stop ∧
      (b.hostArea (some t)).start < (b.hostArea (some s)).stop) ↔ ¬ t.Apart s := by
  obtain ⟨hstart, hstop, -⟩ := hostArea_toNat hmapped hs
  obtain ⟨hstart', hstop', -⟩ := hostArea_toNat hmapped ht
  have hbase := hs.1
  have hbase' := ht.1
  simp only [MemoryInfo.span] at hbase hbase'
  rw [UInt64.lt_iff_toNat_lt, UInt64.lt_iff_toNat_lt, hstop, hstop', hstart, hstart']
  simp only [Span.Apart, Span.stop]
  omega

/-- An area is accepted when it is aligned and can be placed beside the ones before it. -/
theorem validateArea_eq_some (hslots : Span.Placed b.region.span slots) :
    validateArea b gpa bytes alignment (slots.map b.hostArea) = some areas ↔
      alignment.toNat ∣ gpa.toNat ∧
        Span.Placed b.region.span (slots ++ [some ⟨gpa.toNat, bytes.toNat⟩]) ∧
          areas = (slots ++ [some (⟨gpa.toNat, bytes.toNat⟩ : Span)]).map b.hostArea := by
  rw [Span.placed_concat]
  by_cases haccept : alignment.toNat ∣ gpa.toNat ∧
      (⟨gpa.toNat, bytes.toNat⟩ : Span).Within b.region.span
  · obtain ⟨haligned, hwithin⟩ := haccept
    have haddress := queueAddress_eq_some.mpr ⟨haligned, hwithin, rfl⟩
    have harea := hostArea_some hwithin
    have hoverlap : (∀ old ∈ slots.map b.hostArea,
        ¬ ((b.hostArea (some ⟨gpa.toNat, bytes.toNat⟩)).start < old.stop ∧
          old.start < (b.hostArea (some ⟨gpa.toNat, bytes.toNat⟩)).stop)) ↔
        ∀ t, some t ∈ slots → t.Apart ⟨gpa.toNat, bytes.toNat⟩ := by
      constructor
      · intro h t ht
        by_contra hapart
        exact h _ (List.mem_map_of_mem ht)
          ((hostArea_overlap hmapped hwithin (hslots.within ht)).mpr hapart)
      · intro h old hold
        obtain ⟨slot, hslot, rfl⟩ := List.mem_map.mp hold
        cases slot with
        | none => exact fun hmeet => UInt64.not_lt_zero hmeet.1
        | some t =>
          exact fun hmeet =>
            (hostArea_overlap hmapped hwithin (hslots.within hslot)).mp hmeet (h t hslot)
    rw [harea] at hoverlap
    simp only [validateArea, haddress, List.map_append, List.map_cons, List.map_nil, harea,
      ite_eq_iff, reduceCtorEq, and_false, false_or, List.any_eq_true, Bool.and_eq_true,
      decide_eq_true_eq, not_exists, not_and, Option.some.injEq]
    simp only [not_and] at hoverlap
    rw [hoverlap, eq_comm (a := areas)]
    tauto
  · have hnone : queueAddress b gpa bytes alignment = none := by
      rw [Option.eq_none_iff_forall_ne_some]
      intro address haddress
      obtain ⟨haligned, hwithin, -⟩ := queueAddress_eq_some.mp haddress
      exact haccept ⟨haligned, hwithin⟩
    simp only [validateArea, hnone]
    tauto

/-- The three parts of a configured queue, one after the other. -/
theorem validateAreas_eq_some {q : Queue} (hformed : q.size.toNat ≤ 128)
    (hslots : Span.Placed b.region.span slots) :
    ((validateArea b q.descriptor (16 * q.size.toUInt64) 16 (slots.map b.hostArea)).bind
        fun areas => (validateArea b q.available (6 + 2 * q.size.toUInt64) 2 areas).bind
          fun areas => validateArea b q.used (6 + 8 * q.size.toUInt64) 4 areas) = some areas ↔
      (16 ∣ q.descriptor.toNat ∧ 2 ∣ q.available.toNat ∧ 4 ∣ q.used.toNat) ∧
        Span.Placed b.region.span (slots ++ q.areas.map some) ∧
          areas = (slots ++ q.areas.map some).map b.hostArea := by
  have hdescriptor : (16 * q.size.toUInt64).toNat = 16 * q.size.toNat :=
    toNat_mul_size (show 16 * q.size.toNat < 2 ^ 64 by omega)
  have havailable : (6 + 2 * q.size.toUInt64).toNat = 6 + 2 * q.size.toNat :=
    toNat_add_mul_size (a := 2) (c := 6) (show 6 + 2 * q.size.toNat < 2 ^ 64 by omega)
  have hused : (6 + 8 * q.size.toUInt64).toNat = 6 + 8 * q.size.toNat :=
    toNat_add_mul_size (a := 8) (c := 6) (show 6 + 8 * q.size.toNat < 2 ^ 64 by omega)
  have hareas : slots ++ q.areas.map some = slots ++ [some q.descriptorArea] ++
      [some q.availableArea] ++ [some q.usedArea] := by
    simp [Queue.areas]
  rw [hareas, Option.bind_eq_some_iff]
  constructor
  · intro ⟨areas₁, h₁, hrest⟩
    rw [validateArea_eq_some hmapped hslots, hdescriptor] at h₁
    obtain ⟨haligned₁, hplaced₁, rfl⟩ := h₁
    obtain ⟨areas₂, h₂, h₃⟩ := Option.bind_eq_some_iff.mp hrest
    rw [validateArea_eq_some hmapped hplaced₁, havailable] at h₂
    obtain ⟨haligned₂, hplaced₂, rfl⟩ := h₂
    rw [validateArea_eq_some hmapped hplaced₂, hused] at h₃
    exact ⟨⟨haligned₁, haligned₂, h₃.1⟩, h₃.2⟩
  · intro ⟨⟨haligned₁, haligned₂, haligned₃⟩, hplaced, hareas⟩
    refine ⟨_, (validateArea_eq_some hmapped hslots).mpr ⟨haligned₁, ?_, rfl⟩,
      Option.bind_eq_some_iff.mpr ⟨_, (validateArea_eq_some hmapped ?_).mpr
        ⟨haligned₂, ?_, rfl⟩, (validateArea_eq_some hmapped ?_).mpr ⟨haligned₃, ?_, ?_⟩⟩⟩
    all_goals simp only [hdescriptor, havailable, hused]
    · exact hplaced.left.left
    · exact hplaced.left.left
    · exact hplaced.left
    · exact hplaced.left
    · exact hplaced
    · exact hareas

/-- A queue is accepted when it is absent or formed, and its areas can be placed. -/
theorem validateQueue_eq_some {q : Queue} (hslots : Span.Placed b.region.span slots) :
    validateQueue b required i q (slots.map b.hostArea) = some areas ↔
      (q.Absent required i ∨ q.Formed) ∧ Span.Placed b.region.span (slots ++ q.slots) ∧
        areas = (slots ++ q.slots).map b.hostArea := by
  rw [validateQueue]
  by_cases habsent : q.Absent required i
  · rw [if_pos (absent_iff.mp habsent), habsent.slots, Span.placed_append_none, Option.some_inj,
      List.map_append, eq_comm]
    exact ⟨fun h => ⟨.inl habsent, hslots, h⟩, fun h => h.2.2⟩
  · rw [if_neg (mt absent_iff.mpr habsent)]
    by_cases hbounds : q.size.toNat.isPowerOfTwo ∧ q.size.toNat ≤ 128 ∧ q.reserved = 0
    · have hsize : q.size ≠ 0 := size_ne_of_isPowerOfTwo hbounds.1
      rw [if_neg (fun h => bounds_iff.mp h hbounds),
        show q.slots = q.areas.map some from if_neg hsize,
        validateAreas_eq_some hmapped hbounds.2.1 hslots]
      refine and_congr_left' ⟨fun h => .inr ?_, fun h => ?_⟩
      · exact ⟨hbounds.1, hbounds.2.1, hbounds.2.2, h.1, h.2.1, h.2.2⟩
      · have hformed := h.resolve_left habsent
        exact ⟨hformed.descriptor, hformed.available, hformed.used⟩
    · rw [if_pos (bounds_iff.mpr hbounds)]
      refine ⟨fun h => (by cases h), fun h => absurd (h.1.resolve_left habsent) fun hformed => ?_⟩
      exact hbounds ⟨hformed.size, hformed.bound, hformed.reserved⟩

/-- The loop accepts when every queue is absent or formed, and all areas can be placed. -/
theorem validateQueues_eq_some {queues : List Queue} (hslots : Span.Placed b.region.span slots) :
    validateQueues b required i queues (slots.map b.hostArea) = some areas ↔
      (∀ (j : Nat) (q : Queue), queues[j]? = some q → q.Absent required (i + j) ∨ q.Formed) ∧
        Span.Placed b.region.span (slots ++ queues.flatMap Queue.slots) ∧
          areas = (slots ++ queues.flatMap Queue.slots).map b.hostArea := by
  induction queues generalizing i slots with
  | nil => simp [validateQueues, hslots, eq_comm]
  | cons q queues ih =>
    rw [validateQueues, Option.bind_eq_some_iff, List.flatMap_cons, ← List.append_assoc]
    constructor
    · intro ⟨areas₁, h₁, hrest⟩
      obtain ⟨hq, hplaced, rfl⟩ := (validateQueue_eq_some hmapped hslots).mp h₁
      obtain ⟨hqueues, hrest⟩ := (ih hplaced).mp hrest
      refine ⟨fun j q' hj => ?_, hrest⟩
      cases j with
      | zero => obtain rfl := Option.some_inj.mp hj; exact hq
      | succ j =>
        rw [show i + (j + 1) = i + 1 + j by omega]
        exact hqueues j q' hj
    · intro ⟨hqueues, hplaced, hareas⟩
      refine ⟨_, (validateQueue_eq_some hmapped hslots).mpr ⟨hqueues 0 q rfl, hplaced.left, rfl⟩,
        (ih hplaced.left).mpr ⟨fun j q' hj => ?_, hplaced, hareas⟩⟩
      rw [show i + 1 + j = i + (j + 1) by omega]
      exact hqueues (j + 1) q' hj

/-- The validation of `configure_vhost` accepts exactly the valid rings, and its areas are those
the guest's areas are mapped to. -/
theorem validateQueues_iff {queues : List Queue} :
    validateQueues b required 0 queues [] = some areas ↔
      RingsValid b.region required queues ∧
        areas = (queues.flatMap Queue.slots).map b.hostArea := by
  rw [ringsValid_iff, and_assoc, ← List.map_nil (f := b.hostArea),
    validateQueues_eq_some hmapped Span.Placed.nil]
  simp only [List.nil_append, Nat.zero_add]

end Mapped

end HyperIoVm
