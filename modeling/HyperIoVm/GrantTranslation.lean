import HyperIoVm.GrantMapping

/-!
# A scatter grant, from the extents to the pages of the client

`prepare_memory` and the guest-memory driver run against one device: the walk over the extents that
the host reports, their expansion into an array of pages, the admission of the array in the kernel
and the loop that maps it. What the client sees at an offset is the page behind the one extent that
covers it, and a request that is not answered OK maps nothing.
-/

namespace HyperIoVm

open Effects Routine MemoryDriver MemorySystem Data

/-! ## What a grant is -/

/-- The extents tile the grant, and the granule of each of its pages lies in the aperture. -/
structure Admissible (start stop : UInt64) (length : Nat) (extents : List Extent) : Prop where
  tiled : Tiled extents length
  aperture : ∀ k < length / 4096, ∀ e ∈ extents, e.Covers (4096 * k) →
    InAperture start stop (e.address (4096 * k))

/-- The area maps the grant: page `k` of it is the page behind the extent that covers it. -/
structure Translates (extents : List Extent) (length : Nat) (area : MemoryArea) : Prop where
  pgoff : area.pgoff = 0
  count : area.frames.length = length / 4096
  covered : ∀ k < length / 4096, ∃! e, e ∈ extents ∧ e.Covers (4096 * k)
  frame : ∀ k < length / 4096, ∀ e ∈ extents, e.Covers (4096 * k) →
    area.frames[k]?.map UInt64.toNat = some (e.address (4096 * k) / 4096) ∧
      e.address (4096 * k) % 4096 = 0 ∧ e.address (4096 * k) + 4096 ≤ 2 ^ 64

/-- How a request ends: everything is mapped as the extents say, or nothing is mapped. -/
structure GrantEnds (start stop : UInt64) (areas : List MemoryArea) (length : Nat) (r : Status)
    (b : Backend) (s : MemoryDevice) (es : List (Event Mm)) : Prop where
  unmapped : r ≠ .ok → s.areas ⊆ areas
  admitted : insertions es ≠ [] → Admissible start stop length (reported es)
  mapped : r = .ok → Admissible start stop length (reported es) ∧ ∃ area, s.areas = [area] ∧
    b.memory = some area.start ∧ Translates (reported es) length area ∧
    insertions es = placedPages area.start area.frames

section Grant

variable {start stop : UInt64} {areas : List MemoryArea} {path : String} {b : Backend}
  {s : MemoryDevice} {es : List (Event Mm)} {held : Held}

theorem grantEnds_of_nothing {start' stop' : UInt64} {areas' : List MemoryArea} {length : Nat}
    {r : Status} {es' : List (Event Mm)} (h : NothingMapped start' stop' areas' es s es')
    (hareas : areas' ⊆ areas)
    (hes : insertions es = [] ∨ Admissible start stop length (reported es)) (hr : r ≠ .ok) :
    GrantEnds start stop areas length r b s es' := by
  obtain ⟨-, hwithin, hreported, hinsertions⟩ := h
  refine ⟨fun _ => List.Subset.trans hwithin hareas, fun hne => ?_, fun h => absurd h hr⟩
  rw [hreported]
  refine hes.resolve_left fun hnil => hne ?_
  rw [hinsertions, hnil]

/-- The pages of the array, and the extents they were expanded from. -/
theorem Tiled.pages {extents : List Extent} {length : Nat} {pages : List UInt64}
    (h : Tiled extents length) (hlength : length < 2 ^ 64)
    (hpages : pages = expanded extents (List.replicate (length / 4096) 0)) :
    pages.length = length / 4096 ∧ ∀ k (hk : k < pages.length), ∀ e ∈ extents,
      e.Covers (4096 * k) → pages[k].toNat = e.address (4096 * k) := by
  have hstores := h.stores_fst hlength
  have hvalues : pages = (stores extents).map Prod.snd := by
    rw [hpages]
    exact h.expanded_eq hlength List.length_replicate
  have hcount : (stores extents).length = length / 4096 := by
    rw [← List.length_map (f := Prod.fst), hstores, List.length_range]
  refine ⟨by rw [hvalues, List.length_map, hcount], fun k hk e he hcovers => ?_⟩
  subst hvalues
  have hk' : k < (stores extents).length := by simpa using hk
  have hindex : (stores extents)[k].1 = k := by
    have hget : ((stores extents).map Prod.fst)[k]? = (List.range (length / 4096))[k]? := by
      rw [hstores]
    rw [List.getElem?_map, List.getElem?_eq_getElem hk', List.getElem?_range (by omega)] at hget
    exact Option.some.inj hget
  rw [List.getElem_map]
  refine h.stored hlength (k := k) ?_ he hcovers
  have hmem := List.getElem_mem hk'
  rwa [← Prod.mk.eta (p := (stores extents)[k]), hindex] at hmem

/-! ## The walk over the extents -/

/-- Neither the backend nor the device changes while the host reports extents. -/
theorem extent_reports (route : Option Fd) (index : UInt64) :
    ((extent route index).layered (overMemory path)).wp (.history Mm) (fun r st es' =>
      st = (b, s) ∧ insertions es' = insertions es ∧ reported es' = reported es ++ r.toList)
      (b, s) es := by
  cases route with
  | none => exact ⟨rfl, rfl, (List.append_nil _).symm⟩
  | some fd =>
    refine (wp_layered_perform (h := overMemory path) (.extent fd index)).mpr ?_
    refine wp_linux trivial fun (r : Option Extent) _ => ?_
    refine ⟨rfl, ?_, ?_⟩
    · exact (insertions_concat es _).trans (List.append_nil _)
    · exact reported_concat es _

/-- The walk has come to `cursor`: the extents so far tile the bytes below it, and the array holds
their expansion. -/
structure Walked (initial : List UInt64) (cursor : UInt64) (pages : List UInt64)
    (es : List (Event Mm)) : Prop where
  tiles : ExtentsTile 0 (reported es) cursor.toNat
  paged : ∀ e ∈ reported es, e.Paged
  pages : pages = expanded (reported es) initial

theorem Walked.next {initial pages : List UInt64} {cursor total : UInt64} {e : Extent}
    {es' : List (Event Mm)} (h : Walked initial cursor pages es)
    (hvalid : hyperIoExtentValid cursor total e.aliasAddr e.offset e.length = true)
    (hreported : reported es' = reported es ++ [e]) :
    Walked initial (cursor + e.length) (storeExtent pages cursor e) es' := by
  obtain ⟨hpaged, hcontinues⟩ := extentValid hvalid
  obtain ⟨hoffset, hpos, hinside⟩ := hcontinues
  have htotal := total.toNat_lt
  have hcursor : (cursor + e.length).toNat = cursor.toNat + e.length.toNat := by
    rw [UInt64.toNat_add, Nat.mod_eq_of_lt (by omega)]
  refine ⟨?_, fun e' he' => ?_, ?_⟩
  · rw [hreported, hcursor]
    exact h.tiles.concat hoffset hpos
  · rw [hreported] at he'
    rcases List.mem_append.mp he' with he' | he'
    · exact h.paged e' he'
    · rw [List.mem_singleton.mp he']
      exact hpaged
  · rw [hreported, expanded_concat, ← h.pages, UInt64.toNat_inj.mp hoffset]

/-- The walk inserts nothing, and what it accepts is tiled and expanded. -/
theorem walkExtents_walks (route : Option Fd) (total : UInt64) (initial : List UInt64)
    (rounds : Nat) (index cursor : UInt64) (pages : List UInt64)
    (h : Walked initial cursor pages es) :
    ((walkExtents route total rounds index cursor pages).layered (overMemory path)).wp
      (.history Mm) (fun r st es' => st = (b, s) ∧ insertions es' = insertions es ∧
        ∀ walk, r = some walk → Walked initial walk.1 walk.2 es') (b, s) es := by
  induction rounds generalizing index cursor pages es with
  | zero =>
    refine ⟨rfl, rfl, fun walk hwalk => ?_⟩
    rw [← Option.some.inj hwalk]
    exact h
  | succ rounds ih =>
    rw [walkExtents, wp_layered_bind]
    refine wp_mono (extent_reports route index) fun r st es' hpost => ?_
    obtain ⟨rfl, hinsertions, hreported⟩ := hpost
    cases r with
    | none => exact ⟨rfl, hinsertions, by simp⟩
    | some e =>
      dsimp only
      rw [wp_layered_ite]
      split
      next => exact ⟨rfl, hinsertions, by simp⟩
      next hvalid =>
        rw [Bool.not_eq_true', Bool.not_eq_false] at hvalid
        refine wp_mono (ih _ _ _ (h.next hvalid hreported)) fun r st es'' hpost => ?_
        exact ⟨hpost.1, hpost.2.1.trans hinsertions, hpost.2.2⟩

/-! ## The mapping -/

/-- The array that the service hands to the kernel, expanded from the extents. -/
structure Handed (prepare : MemoryPrepare) (es : List (Event Mm)) (pages : List UInt64) : Prop where
  array : prepare.pages = some pages
  tiled : Tiled (reported es) prepare.length.toNat
  filled : pages = expanded (reported es) (List.replicate (prepare.length.toNat / 4096) 0)

variable {prepare : MemoryPrepare} {pages : List UInt64}

/-- The kernel has copied in the whole array. -/
theorem Handed.aliases (h : Handed prepare es pages)
    (hlength : prepare.length.toNat = 4096 * prepare.aliases.length) :
    prepare.aliases = pages := by
  have hcount := (h.tiled.pages prepare.length.toNat_lt h.filled).1
  rw [MemoryPrepare.aliases, h.array, Option.getD_some] at hlength ⊢
  exact (List.take_prefix _ _).eq_of_length (by omega)

/-- The address behind a page of the grant, as it stands in the array. -/
theorem Handed.page (h : Handed prepare es pages) {k : Nat} (hk : k < prepare.length.toNat / 4096)
    {e : Extent} (he : e ∈ reported es) (hcovers : e.Covers (4096 * k)) :
    ∃ page, pages[k]? = some page ∧ page.toNat = e.address (4096 * k) := by
  obtain ⟨hcount, hpages⟩ := h.tiled.pages prepare.length.toNat_lt h.filled
  have hk' : k < pages.length := hcount ▸ hk
  exact ⟨pages[k], List.getElem?_eq_getElem hk', hpages k hk' e he hcovers⟩

theorem Handed.admissible (h : Handed prepare es pages) {fd : Fd}
    (hgrant : GrantHeld prepare fd start stop s) :
    Admissible start stop prepare.length.toNat (reported es) := by
  refine ⟨h.tiled, fun k hk e he hcovers => ?_⟩
  obtain ⟨page, hget, hpage⟩ := h.page hk he hcovers
  rw [← hpage]
  refine hgrant.aperture page ?_
  rw [h.aliases hgrant.length]
  exact List.mem_of_getElem? hget

theorem Handed.translates (h : Handed prepare es pages) {fd : Fd}
    (hgrant : GrantHeld prepare fd start stop s) (address : UInt64) :
    Translates (reported es) prepare.length.toNat
      ⟨address, 0, prepare.aliases.map fun (address : UInt64) => address >>> 12⟩ := by
  have hadmissible := h.admissible hgrant
  refine ⟨rfl, ?_, fun k hk => h.tiled.existsUnique hk, fun k hk e he hcovers => ?_⟩
  · have hlength := hgrant.length
    rw [List.length_map]
    omega
  · obtain ⟨page, hget, hpage⟩ := h.page hk he hcovers
    have haligned := (hadmissible.aperture k hk e he hcovers).aligned
    have hlt := page.toNat_lt
    refine ⟨?_, haligned, by omega⟩
    rw [h.aliases hgrant.length, List.getElem?_map, hget, Option.map_some, Option.map_some, ← hpage,
      UInt64.toNat_shiftRight, Nat.shiftRight_eq_div_pow]
    rfl

theorem mapMemory_ends (hpath : b.memoryPath = path) (hlife : Lifetime s held)
    (haperture : s.memory.HasAperture start stop) (hhanded : Handed prepare es pages)
    (hinsertions : insertions es = []) :
    ((mapMemory prepare).layered (overMemory path)).wp (.history Mm) (fun r st es' =>
      GrantEnds start stop s.areas prepare.length.toNat r st.1 st.2 es') (b, s) es := by
  -- a failure from here on leaves nothing mapped
  have hrollback {b' : Backend} {s' : MemoryDevice} {es' : List (Event Mm)}
      (h : NothingMapped start stop s.areas es s' es') :
      (rollbackMemory.layered (overMemory path)).wp (.history Mm) (fun r st es' =>
        GrantEnds start stop s.areas prepare.length.toNat r st.1 st.2 es') (b', s') es' :=
    wp_mono (rollbackMemory_unmapped h) fun _ _ _ hpost =>
      grantEnds_of_nothing hpost.1 (List.Subset.refl _) (.inl hinsertions) hpost.2
  have hstart : NothingMapped start stop s.areas es s es :=
    ⟨haperture, List.Subset.refl _, Quiet.refl _⟩
  have hpath' : b.diagnostic.memoryPath = path := by
    rw [← hpath, Backend.diagnostic]
    split <;> rfl
  rw [mapMemory, wp_layered_bind, diagnostic, wp_layered_modify, wp_layered_bind, wp_layered_get,
    wp_layered_bind]
  refine (wp_layered_perform (h := overMemory path) (.openNode (.memory _))).mpr ?_
  rw [hpath']
  show (memoryCall path (.openNode (.memory path))).wp _ _ _ _
  have hopens : (memoryCall path (.openNode (.memory path))).wp (.free Mm)
      (fun (r : Except Errno Fd) s' _ => ∀ fd, r = .ok fd → s'.Opened fd) s () := by
    rw [memoryCall_openMemory]
    exact openMemory_opens hlife path
  refine wp_mono (wp_and_free (plain_unmapped path rfl s es hstart) hopens) ?_
  intro (r : Except Errno Fd) s' es' hpost
  obtain ⟨hnothing, hopened⟩ := hpost
  -- the device of the memory does not open
  cases r with
  | error e => exact hrollback hnothing
  | ok fd =>
    have hopened := hopened fd rfl
    dsimp only
    rw [wp_layered_bind, wp_layered_modify, wp_layered_bind, wp_layered_modify, wp_layered_bind]
    refine (wp_layered_perform (h := overMemory path) (.memoryInfo fd)).mpr ?_
    have hinfo : (memoryCall path (.memoryInfo fd)).wp (.free Mm) (fun _ s'' _ => s'' = s') s' () :=
      (wp_onFile hopened).mpr infoFile_state
    refine wp_mono (wp_and_free (plain_unmapped path rfl s' es' hnothing) hinfo) ?_
    intro (r : Option MemoryInfo) s'' es'' hpost
    obtain ⟨hinformed, rfl⟩ := hpost
    -- it does not say what it can map
    cases r with
    | none => exact hrollback hinformed
    | some window =>
      dsimp only
      rw [wp_layered_ite]
      split
      · -- the grant does not lie in its window
        exact hrollback hinformed
      rw [wp_layered_bind]
      refine (wp_layered_perform (h := overMemory path) (.ioctl fd (.memoryPrepare prepare))).mpr ?_
      have hprepare : (memoryCall path (.ioctl fd (.memoryPrepare prepare))).wp (.free Mm)
          (fun (r : Outcome) s' _ => r = .ok → GrantHeld prepare fd start stop s') s'' () :=
        (wp_onFile hopened).mpr (prepareFile_grants hopened hinformed.1)
      refine wp_mono (wp_and_free (plain_unmapped path rfl s'' es'' hinformed) hprepare) ?_
      intro (r : Outcome) s3 es3 hpost
      obtain ⟨hprepared, hgrant⟩ := hpost
      rw [wp_layered_ite]
      -- it is not prepared
      split
      · exact hrollback hprepared
      rename_i hok
      have hgrant := hgrant <| by
        cases r with
        | ok => rfl
        | failed => exact absurd rfl hok
      have hadmissible := hhanded.admissible hgrant
      rw [wp_layered_bind, wp_layered_modify, wp_layered_bind]
      refine (wp_layered_perform (h := overMemory path) (.mmap fd prepare.length)).mpr ?_
      refine (wp_onFile hgrant.opened).mpr ?_
      have hlength := hgrant.length
      refine wp_mono (mapFile_maps hgrant.opened hgrant.pfns (by rw [List.length_map]; omega)) ?_
      intro r s4 es4 hpost
      obtain ⟨hreported, hnone, hsome⟩ := hpost
      rw [hprepared.2.2.1] at hreported
      -- not mapped, after the grant was found to be admissible
      cases r with
      | none =>
        have hempty : NothingMapped s4.memory.apertureStart s4.memory.apertureEnd [] es4 s4 es4 :=
          ⟨⟨rfl, rfl⟩, List.subset_nil.mpr (hnone rfl), Quiet.refl _⟩
        refine wp_mono (rollbackMemory_unmapped hempty) fun _ _ _ hpost => ?_
        exact grantEnds_of_nothing hpost.1 (List.nil_subset _) (.inr (hreported ▸ hadmissible))
          hpost.2
      -- mapped: every page of the grant is where its extent says
      | some address =>
        obtain ⟨hareas, hpages⟩ := hsome address rfl
        dsimp only
        rw [wp_layered_bind, wp_layered_modify, wp_layered_bind, wp_layered_modify, wp_layered_pure]
        rw [hprepared.2.2.2, hinsertions, List.nil_append] at hpages
        refine ⟨fun h => absurd rfl h, fun _ => hreported ▸ hadmissible, fun _ => ?_⟩
        refine ⟨hreported ▸ hadmissible, _, hareas, rfl, ?_, hpages⟩
        rw [hreported]
        exact hhanded.translates hgrant address

/-! ## The request -/

theorem linux_quiet {c : Call} (hc : (MmCall.linux c).quiet = true) :
    (MemorySystem.linux c).wp (.history Mm) (fun _ s' es' => s' = s ∧ Quiet es es') s es :=
  wp_linux trivial fun _ _ => ⟨rfl, (Quiet.refl es).concat hc⟩

theorem ioAdmit_quiet (route : Option Fd) (admission : Admission) :
    ((ioAdmit route admission).layered (overMemory path)).wp (.history Mm)
      (fun _ st es' => st = (b, s) ∧ Quiet es es') (b, s) es := by
  cases route with
  | none => exact ⟨rfl, Quiet.refl es⟩
  | some fd =>
    refine (wp_layered_perform (h := overMemory path) (.ioAdmit fd admission)).mpr ?_
    refine wp_mono (linux_quiet rfl) fun r s' es' hpost => ?_
    exact ⟨congrArg (b, ·) hpost.1, hpost.2⟩

/-- A request that is given up before anything is mapped. -/
theorem rollbackMemory_ends {length : Nat} {b' : Backend} {es' : List (Event Mm)}
    (haperture : s.memory.HasAperture start stop) (hinsertions : insertions es' = []) :
    (rollbackMemory.layered (overMemory path)).wp (.history Mm) (fun r st es' =>
      GrantEnds start stop s.areas length r st.1 st.2 es') (b', s) es' := by
  have hstart : NothingMapped start stop s.areas es' s es' :=
    ⟨haperture, List.Subset.refl _, Quiet.refl _⟩
  refine wp_mono (rollbackMemory_unmapped hstart) fun _ _ _ hpost => ?_
  exact grantEnds_of_nothing hpost.1 (List.Subset.refl _) (.inl hinsertions) hpost.2

theorem refused_ends {length : Nat} {r : Status} (haperture : s.memory.HasAperture start stop)
    (hinsertions : insertions es = []) (hr : r ≠ .ok) :
    GrantEnds start stop s.areas length r b s es :=
  grantEnds_of_nothing ⟨haperture, List.Subset.refl _, Quiet.refl es⟩ (List.Subset.refl _)
    (.inl hinsertions) hr

theorem grantMemory_ends (hpath : b.memoryPath = path) (hlife : Lifetime s held)
    (haperture : s.memory.HasAperture start stop) :
    ((grantMemory prepare).layered (overMemory path)).wp (.history Mm) (fun r st es' =>
      GrantEnds start stop s.areas prepare.length.toNat r st.1 st.2 es') (b, s) [] := by
  rw [grantMemory, wp_layered_bind, wp_layered_get, wp_layered_bind]
  refine wp_mono (ioAdmit_quiet _ _) fun r st es hpost => ?_
  obtain ⟨rfl, hadmitted⟩ := hpost
  -- it is not admitted
  cases r with
  | none => exact refused_ends haperture hadmitted.2 (by simp)
  | some extentCount =>
    dsimp only
    rw [wp_layered_bind, wp_layered_modify, wp_layered_bind]
    refine (wp_layered_perform (h := overMemory path) (.calloc _)).mpr ?_
    refine wp_mono (linux_quiet rfl) fun (r : Outcome) s' es' hpost => ?_
    obtain ⟨rfl, hallocated⟩ := hpost
    have hquiet := hadmitted.trans hallocated
    rw [wp_layered_ite]
    -- there is no memory for the addresses
    split
    · exact rollbackMemory_ends haperture hquiet.2
    have hstart : Walked (List.replicate (prepare.length / 4096).toNat 0) 0
        (List.replicate (prepare.length / 4096).toNat 0) es' := by
      refine ⟨?_, ?_, ?_⟩
      · rw [hquiet.1]
        rfl
      · rw [hquiet.1]
        exact fun _ h => absurd h List.not_mem_nil
      · rw [hquiet.1]
        rfl
    rw [wp_layered_bind]
    refine wp_mono (walkExtents_walks _ _ _ _ _ _ _ hstart) fun r st es'' hpost => ?_
    obtain ⟨rfl, hinsertions, hwalked⟩ := hpost
    have hinsertions := hinsertions.trans hquiet.2
    -- an extent is not what was promised
    cases r with
    | none => exact rollbackMemory_ends haperture hinsertions
    | some walk =>
      have hwalk := hwalked walk rfl
      dsimp only
      rw [wp_layered_ite]
      -- the extents do not tile the grant
      split
      · exact rollbackMemory_ends haperture hinsertions
      rename_i hcursor
      rw [ne_eq, not_not] at hcursor
      have htiles := hwalk.tiles
      have hpages := hwalk.pages
      rw [hcursor] at htiles
      rw [UInt64.toNat_div] at hpages
      exact mapMemory_ends hpath hlife haperture ⟨rfl, ⟨htiles, hwalk.paged⟩, hpages⟩ hinsertions

theorem prepareMemory_ends (request : PrepareMemory) (htoken : request.token ≠ 0)
    (hlife : Lifetime s held) (haperture : s.memory.HasAperture start stop) :
    ((prepareMemory request).layered (overMemory b.memoryPath)).wp (.history Mm) (fun r st es' =>
      GrantEnds start stop s.areas request.length.toNat r st.1 st.2 es') (b, s) [] := by
  rw [prepareMemory, wp_layered_bind, wp_layered_get, wp_layered_ite]
  split
  · exact refused_ends haperture rfl (by simp)
  rw [wp_layered_ite]
  split
  · exact refused_ends haperture rfl (by simp)
  rw [wp_layered_ite]
  split
  · exact refused_ends haperture rfl (by simp)
  exact grantMemory_ends rfl hlife haperture

end Grant

/-- A request to prepare memory, run on the device of the client. -/
def grantRun (env : Environment Mm) (b : Backend) (request : PrepareMemory)
    (now : Point Mm MemoryDevice) : (Status × Backend × MemoryDevice) × List (Event Mm) :=
  ((prepareMemory request).layered (overMemory b.memoryPath)).runAt env ((b, now.1), now.2)

/-- The translation of a scatter grant is exact. At every point of a device's life, whatever extents
the host reports: a request with a token that is answered OK has tiled the length with them, stored
every element of the array once, and mapped at each page of the client the page behind the one
extent that covers it; the driver inserted these pages and no other. Where the extents do not tile
the length, or the granule of a page is not wholly in the aperture, no page was inserted, and
whatever is not answered OK has mapped nothing. -/
theorem scatter_grant_exact (start stop : UInt64) (env : Environment Mm) (steps : List DeviceStep)
    (b : Backend) (request : PrepareMemory) (htoken : request.token ≠ 0) :
    let now := deviceRun start stop env steps
    let run := grantRun env b request now
    let backend := run.1.2.1
    let device := run.1.2.2
    let length := request.length.toNat
    (run.1.1 = .ok → Admissible start stop length (reported run.2) ∧
      (stores (reported run.2)).map Prod.fst = List.range (length / 4096) ∧
      ∃ area, device.areas = [area] ∧ backend.memory = some area.start ∧
        Translates (reported run.2) length area ∧
        insertions run.2 = placedPages area.start area.frames) ∧
    (run.1.1 ≠ .ok → device.areas ⊆ now.1.areas) ∧
    (¬ Admissible start stop length (reported run.2) →
      run.1.1 ≠ .ok ∧ insertions run.2 = [] ∧ device.areas ⊆ now.1.areas) := by
  intro now run backend device length
  have hlife : Lifetime now.1 (granuleRefs.after [] now.2) := deviceRun_lifetime.2
  have haperture : now.1.memory.HasAperture start stop := deviceRun_aperture env steps
  have hends := Program.wp_exec env now.2 (prepareMemory_ends (b := b) request htoken hlife
    haperture) (Contract.history_assumed _ _)
  have hends : GrantEnds start stop now.1.areas length run.1.1 backend device run.2 := by
    have h := hends.2
    rwa [Contract.history_after, List.nil_append] at h
  refine ⟨fun hok => ?_, hends.unmapped, fun hnot => ?_⟩
  · -- granted
    obtain ⟨hadmissible, hmapped⟩ := hends.mapped hok
    exact ⟨hadmissible, hadmissible.tiled.stores_fst request.length.toNat_lt, hmapped⟩
  · -- refused before any page was inserted
    have hrefused : run.1.1 ≠ .ok := fun hok => hnot (hends.mapped hok).1
    refine ⟨hrefused, ?_, hends.unmapped hrefused⟩
    by_contra hne
    exact hnot (hends.admitted hne)

/-! ### Two extents in reverse order -/

/-- A host that reports two extents, the second below the first, and a Linux that refuses nothing
that a preparation asks for. -/
def twoExtents : Environment Mm := fun past c =>
  match c with
  | .linux (.ioAdmit _ _) => some (2 : UInt64)
  | .linux (.extent _ index) =>
    if index = 0 then some ({ aliasAddr := 0x40203000, offset := 0, length := 0x1000 } : Extent)
    else some ({ aliasAddr := 0x40001000, offset := 0x1000, length := 0x2000 } : Extent)
  | .linux (.calloc _) => Outcome.ok
  | .linux (.openNode _) => (.ok 5 : Except Errno Fd)
  | .linux (.mmap _ _) => some (0x70000000 : UInt64)
  | c => kindKernel past c

/-- A client with storage and nothing prepared. -/
def idleBackend : Backend :=
  { managed := true, memoryPath := "/dev/hyper-memory-0", wwpn := "naa.1",
    disk := { notification := some 3 } }

def threePages : PrepareMemory :=
  { guestBase := 0x80000000, length := 0x3000, aliasAddr := 0, token := 7 }

/-- The request, on a device whose aperture are two granules. -/
def twoGranules : (Status × Backend × MemoryDevice) × List (Event Mm) :=
  grantRun twoExtents idleBackend threePages (deviceRun 0x40000000 0x403fffff twoExtents [])

theorem scatter_grant_exact_two : ∃ area : MemoryArea, twoGranules.1.2.2.areas = [area] ∧
    area.frames = [0x40203, 0x40001, 0x40002] := by
  have hok : twoGranules.1.1 = .ok := by
    decide +kernel
  obtain ⟨-, -, area, hareas, -⟩ := (scatter_grant_exact 0x40000000 0x403fffff twoExtents []
    idleBackend threePages (by decide)).1 hok
  refine ⟨area, hareas, ?_⟩
  have hframes : twoGranules.1.2.2.areas.map (·.frames) = [[0x40203, 0x40001, 0x40002]] := by
    decide +kernel
  rw [show twoGranules.1.2.2.areas = [area] from hareas] at hframes
  simpa using hframes

end HyperIoVm
