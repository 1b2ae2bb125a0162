import Tvm.Support.GenericArena

/-!
# Regions of an arena do not overlap

The regions of a page end at its offset, and an offset is only moved up.  A size that wraps moves
it back.
-/

namespace Tvm.Support

open Tvm.Lib

variable {pageAlign : PageAlign}

namespace ArenaRun.Invariant

variable {run : ArenaRun} {used free : List Nat}

theorem head_page (invariant : run.Invariant pageAlign used free) :
    ∃ page ∈ run.pages, page.address ∈ used ∧ run.arena.head = some page.address ∧
      sizeofArenaPageHeader ≤ (run.arena.headers page.address).offset ∧
      (run.arena.headers page.address).offset ≤ page.size := by
  obtain ⟨head, rest, split, headEq⟩ := invariant.linked.head_eq
  have inUse : head ∈ used := split ▸ List.mem_cons_self
  obtain ⟨page, membership, rfl⟩ :=
    invariant.linked.exists_page (List.mem_append_left free inUse)
  have bounds := invariant.linked.offsets page.address inUse
  rw [invariant.linked.sizes page membership] at bounds
  exact ⟨page, membership, inUse, headEq, bounds⟩

theorem disjoint_region (invariant : run.Invariant pageAlign used free) {pages : List Page}
    {page : Page} (known : ∀ other ∈ run.pages, other ∈ pages)
    (apart : ∀ other ∈ pages, page.address ≠ other.address → Disjoint page.bytes other.bytes)
    {region : Region}
    (behind : page.address ∈ used →
      page.address + (run.arena.headers page.address).offset ≤ region.ptr)
    (above : page.address ≤ region.ptr)
    (below : region.ptr + region.size ≤ page.address + page.size) :
    ∀ other ∈ run.regions, Disjoint region.bytes other.bytes := by
  intro other otherMembership
  obtain ⟨place, placeMembership, inUse, header, offset, ends⟩ :=
    invariant.region_page otherMembership
  by_cases same : page.address = place.address
  · have before := behind (same ▸ inUse)
    rw [same] at before
    exact (range_disjoint (offset.trans before)).symm
  · have pages := apart place (known place placeMembership) same
    exact pages.mono (range_subset above below) (range_subset (by omega) ends)

end ArenaRun.Invariant

/-- The room that `Alloc` looks for. -/
structure ElementType.Placed (type : ElementType pageAlign) (page : Page) (offset : Nat) : Prop where
  le : offset ≤ upperAlign offset type.align
  lt : upperAlign offset type.align < offset + type.align
  aligned : type.align ∣ page.address + upperAlign offset type.align
  align_lt : type.align < 2 ^ 31

theorem ElementType.placed (type : ElementType pageAlign) {page : Page}
    (proper : page.Proper pageAlign) {offset : Nat} (fits : offset ≤ page.size) :
    type.Placed page offset := by
  have alignLe := Nat.le_of_dvd pageAlign.pos type.align_dvd
  have alignLt := lt_of_le_of_lt alignLe pageAlign.lt
  have sizeLt := proper.size_lt
  obtain ⟨le, lt, dvd⟩ := upperAlign_spec type.align_pos
    (by omega : offset + type.align < 2 ^ 64)
  exact ⟨le, lt, dvd_add (type.align_dvd.trans proper.aligned) dvd, alignLt⟩

theorem ArenaRun.call_allocate {run : ArenaRun} {type : ElementType pageAlign} {count : Int32}
    {page : Page} {pages : List Page} {result : Nat × GenericArena}
    (allocs : run.arena.alloc page (type.passed count) type.align = some result)
    (pagesEq : (if (run.arena.asked (type.passed count) type.align).isSome then page :: run.pages
      else run.pages) = pages) :
    run.call (.allocate type count page) =
      some ⟨result.2, pages, ⟨result.1, type.requested count, type.align⟩ :: run.regions⟩ := by
  subst pagesEq
  show (run.arena.alloc page (type.passed count) type.align).map _ = _
  rw [allocs]
  rfl

theorem passed_eq_requested {type : ElementType pageAlign} {count : Int32} {offset : Nat}
    (meets : offset + type.requested count < 2 ^ 64) :
    type.passed count = type.requested count := by
  rw [passed_eq, Nat.mod_eq_of_lt (by omega)]

namespace ArenaRun.Invariant

variable {run : ArenaRun} {used free : List Nat}

theorem allocate_fits (invariant : run.Invariant pageAlign used free)
    (type : ElementType pageAlign) {count : Int32} {head : Nat} (page : Page)
    (headEq : run.arena.head = some head)
    (meets : upperAlign (run.arena.headers head).offset type.align + type.requested count < 2 ^ 64)
    (fits : upperAlign (run.arena.headers head).offset type.align + type.requested count ≤
      (run.arena.headers head).size) :
    ∃ after, run.call (.allocate type count page) = some after ∧
      after.Invariant pageAlign used free := by
  obtain ⟨own, membership, inUse, ownHead, header, inside⟩ := invariant.head_page
  obtain rfl : own.address = head := Option.some.inj (ownHead.symm.trans headEq)
  obtain ⟨le, -, aligned, -⟩ := type.placed (invariant.linked.proper own membership) inside
  have sizes := invariant.linked.sizes own membership
  generalize offsetEq : upperAlign (run.arena.headers own.address).offset type.align = offset at *
  have passed := passed_eq_requested meets
  have sum : sizeT (offset + (type.passed count : Nat)) = offset + type.requested count := by
    rw [passed, sizeT_add, Nat.mod_eq_of_lt meets]
  have allocs := GenericArena.alloc_fits headEq (offsetEq ▸ sum ▸ fits) page
  have asked := GenericArena.asked_fits headEq (offsetEq ▸ sum ▸ fits)
  rw [offsetEq, sum] at allocs
  refine ⟨⟨run.arena.setHeader own.address { run.arena.headers own.address with
    offset := offset + type.requested count }, run.pages,
    ⟨own.address + offset, type.requested count, type.align⟩ :: run.regions⟩, ?_, ?_, ?_⟩
  · apply ArenaRun.call_allocate allocs
    rw [asked]
    rfl
  · apply invariant.linked.bump
    · omega
    · exact fits
  · apply invariant.filled.push rfl ?_ aligned ?_ ?_
    · intro address membership
      refine ⟨membership, ?_⟩
      by_cases same : address = own.address
      · subst same
        simp only [GenericArena.setHeader, Function.update_self]
        omega
      · simp only [GenericArena.setHeader, Function.update_of_ne same]
        exact le_rfl
    · refine ⟨own.address, inUse, ?_, ?_⟩
      · show own.address + sizeofArenaPageHeader ≤ own.address + offset
        omega
      · simp only [GenericArena.setHeader, Function.update_self]
        omega
    · apply invariant.disjoint_region (fun _ => id)
      · intro other otherMembership different
        exact invariant.linked.bytes_disjoint membership otherMembership different
      · intro _
        exact Nat.add_le_add_left le own.address
      · exact Nat.le_add_right _ _
      · show own.address + offset + type.requested count ≤ own.address + own.size
        omega

theorem allocate_new (invariant : run.Invariant pageAlign used free)
    (type : ElementType pageAlign) {count : Int32} {head : Nat} {page : Page}
    (granted : run.Granted (.allocate type count page)) (headEq : run.arena.head = some head)
    (meets : upperAlign (run.arena.headers head).offset type.align + type.requested count < 2 ^ 64)
    (full : ¬ upperAlign (run.arena.headers head).offset type.align + type.requested count ≤
      (run.arena.headers head).size) :
    ∃ after used' free', run.call (.allocate type count page) = some after ∧
      after.Invariant pageAlign used' free' := by
  obtain ⟨own, membership, inUse, ownHead, header, inside⟩ := invariant.head_page
  obtain rfl : own.address = head := Option.some.inj (ownHead.symm.trans headEq)
  have proper := invariant.linked.proper own membership
  obtain ⟨le, -, aligned, alignLt⟩ := type.placed proper inside
  have dvd : type.align ∣ upperAlign (run.arena.headers own.address).offset type.align :=
    (Nat.dvd_add_right (type.align_dvd.trans proper.aligned)).mp aligned
  have passed := passed_eq_requested meets
  have fullPassed : ¬ sizeT (upperAlign (run.arena.headers own.address).offset type.align +
      (type.passed count : Nat)) ≤ (run.arena.headers own.address).size := by
    rw [passed, sizeT_add, Nat.mod_eq_of_lt meets]
    exact full
  have fits : sizeofArenaPageHeader ≤ own.size := proper.header_fits
  have small : sizeofArenaPageHeader + type.align < 2 ^ 64 := by
    have sizeLt := proper.size_lt
    omega
  have offsetLe := upperAlign_le type.align_pos small (header.trans le) dvd
  obtain ⟨startLe, -, startDvd⟩ := upperAlign_spec type.align_pos small
  generalize offsetEq : upperAlign sizeofArenaPageHeader type.align = offset at *
  have sum : sizeT (upperAlign sizeofArenaPageHeader type.align + (type.passed count : Nat)) =
      offset + type.requested count := by
    rw [offsetEq, passed, sizeT_add, Nat.mod_eq_of_lt (by omega)]
  obtain ⟨free', holds⟩ := invariant.linked.takePage headEq fullPassed granted sum
  have allocs := GenericArena.alloc_new headEq fullPassed page
  rw [sum, offsetEq] at allocs
  generalize run.arena.takePage page (offset + type.requested count) = taken at *
  obtain ⟨address, arena⟩ := taken
  generalize pagesEq : (if (run.arena.asked (type.passed count) type.align).isSome = true
    then page :: run.pages else run.pages) = pages at *
  have linked := holds.linked.link (Nat.le_add_right_of_le startLe) holds.enough
    (⟨address + offset, type.requested count, type.align⟩ :: run.regions)
  obtain ⟨new, newMembership, newAddress⟩ :=
    linked.exists_page (List.mem_cons_self : address ∈ [] ++ (address :: used ++ free'))
  have outside : address ∉ used := fun known =>
    (List.nodup_cons.mp linked.nodup).1 (List.mem_append_left free' known)
  have enough := holds.enough
  have newSize := holds.linked.sizes new newMembership
  rw [newAddress] at newSize
  refine ⟨_, address :: used, free', ?_, linked, ?_⟩
  · exact ArenaRun.call_allocate allocs pagesEq
  · apply invariant.filled.push rfl ?_ ?_ ?_ ?_
    · intro other known
      refine ⟨List.mem_cons_of_mem address known, ?_⟩
      have different : other ≠ address := ne_of_mem_of_not_mem known outside
      simp only [GenericArena.link, GenericArena.setHeader, Function.update_of_ne different]
      exact (congrArg ArenaPageHeader.offset (holds.kept other known)).ge
    · have newProper := linked.proper new newMembership
      exact dvd_add (newAddress ▸ type.align_dvd.trans newProper.aligned) startDvd
    · refine ⟨address, List.mem_cons_self, ?_, ?_⟩
      · exact Nat.add_le_add_left startLe address
      · simp only [GenericArena.link, GenericArena.setHeader, Function.update_self]
        omega
    · apply invariant.disjoint_region
      · intro other known
        show other ∈ pages
        rw [← pagesEq]
        split
        · exact List.mem_cons_of_mem page known
        · exact known
      · intro other otherMembership different
        exact linked.bytes_disjoint newMembership otherMembership different
      · intro known
        exact absurd (newAddress ▸ known) outside
      · exact newAddress.le.trans (Nat.le_add_right _ _)
      · show address + offset + type.requested count ≤ new.address + new.size
        rw [newAddress, ← newSize]
        exact (Nat.add_assoc _ _ _).le.trans (Nat.add_le_add_left enough address)

theorem call (invariant : run.Invariant pageAlign used free) (call : ArenaCall pageAlign)
    (granted : run.Granted call) (meets : run.Meets call) :
    ∃ after used' free', run.call call = some after ∧ after.Invariant pageAlign used' free' := by
  cases call with
  | allocate type count page =>
    obtain ⟨own, -, -, headEq, -, -⟩ := invariant.head_page
    have small := meets own.address headEq
    by_cases fits : upperAlign (run.arena.headers own.address).offset type.align +
        type.requested count ≤ (run.arena.headers own.address).size
    · obtain ⟨after, calls, kept⟩ := invariant.allocate_fits type page headEq small fits
      exact ⟨after, used, free, calls, kept⟩
    · exact invariant.allocate_new type granted headEq small fits
  | recycleAll =>
    obtain ⟨arena, used', free', recycles, kept⟩ := invariant.recycleAll
    refine ⟨⟨arena, run.pages, []⟩, used', free', ?_, kept⟩
    show run.arena.recycleAll.map (fun arena => (⟨arena, run.pages, []⟩ : ArenaRun)) = _
    rw [recycles]
    rfl

theorem meets_of_keeps (invariant : run.Invariant pageAlign used free)
    {type : ElementType pageAlign} {count : Int32} {page : Page}
    (granted : run.Granted (.allocate type count page))
    (keeps : run.Keeps (.allocate type count page)) : run.Meets (.allocate type count page) := by
  intro head headEq
  obtain ⟨own, membership, -, ownHead, header, inside⟩ := invariant.head_page
  obtain rfl : own.address = head := Option.some.inj (ownHead.symm.trans headEq)
  have proper := invariant.linked.proper own membership
  have sizes := invariant.linked.sizes own membership
  obtain ⟨-, lt, -, alignLt⟩ := type.placed proper inside
  obtain ⟨after, calls, safe⟩ := keeps
  have known : ∀ other ∈ (if (run.arena.asked (type.passed count) type.align).isSome = true
      then page :: run.pages else run.pages), other.Proper pageAlign := by
    cases asks : run.arena.asked (type.passed count) type.align with
    | none => exact invariant.linked.proper
    | some minSize =>
      exact List.forall_mem_cons.mpr ⟨(granted minSize asks).proper, invariant.linked.proper⟩
  have ends : ∀ result, run.arena.alloc page (type.passed count) type.align = some result →
      result.1 + type.requested count < 2 ^ 64 := by
    intro result allocs
    rw [ArenaRun.call_allocate allocs rfl] at calls
    obtain rfl := Option.some.inj calls
    obtain ⟨other, otherMembership, -, below⟩ := safe.inside _ List.mem_cons_self
    exact lt_of_le_of_lt below (known other otherMembership).ends
  by_cases fits : sizeT (upperAlign (run.arena.headers own.address).offset type.align +
      (type.passed count : Nat)) ≤ (run.arena.headers own.address).size
  · have bound := ends _ (GenericArena.alloc_fits headEq fits page)
    omega
  · have bound := ends _ (GenericArena.alloc_new headEq fits page)
    obtain ⟨startLe, -, startDvd⟩ := upperAlign_spec type.align_pos
      (by unfold sizeofArenaPageHeader; omega : sizeofArenaPageHeader + type.align < 2 ^ 64)
    have startPos : 0 < upperAlign sizeofArenaPageHeader type.align := by
      unfold sizeofArenaPageHeader at startLe ⊢
      omega
    -- An aligned offset that is not zero is not below the alignment.
    have alignLe := Nat.le_of_dvd startPos startDvd
    have passed : type.passed count = type.requested count := by
      rw [passed_eq, Nat.mod_eq_of_lt (by omega)]
    rw [passed, sizeT_add, sizes] at fits
    by_contra wraps
    omega

theorem keeps_iff_meets (invariant : run.Invariant pageAlign used free)
    (call : ArenaCall pageAlign) (granted : run.Granted call) : run.Keeps call ↔ run.Meets call := by
  constructor
  · intro keeps
    cases call with
    | allocate type count page => exact invariant.meets_of_keeps granted keeps
    | recycleAll => exact trivial
  · intro meets
    obtain ⟨after, used', free', calls, kept⟩ := invariant.call call granted meets
    exact ⟨after, calls, kept.safe⟩

end ArenaRun.Invariant

theorem ArenaReached.invariant {run : ArenaRun}
    (reached : ArenaReached pageAlign (fun run call => run.Meets call) run) :
    ∃ used free, run.Invariant pageAlign used free := by
  induction reached with
  | construct headers page grants => exact ⟨[page.address], [], construct_invariant headers grants⟩
  | call call _ granted meets calls ih =>
    obtain ⟨used, free, invariant⟩ := ih
    obtain ⟨after, used', free', same, kept⟩ := invariant.call call granted meets
    obtain rfl := Option.some.inj (calls.symm.trans same)
    exact ⟨used', free', kept⟩

/-- In runs whose requests do not wrap the arena is safe, and it stays so after a call if and
only if that one does not wrap either. -/
theorem arena_safe_iff {run : ArenaRun}
    (reached : ArenaReached pageAlign (fun run call => run.Meets call) run) :
    run.Safe ∧ ∀ call : ArenaCall pageAlign, run.Granted call →
      (run.Keeps call ↔ run.Meets call) := by
  obtain ⟨used, free, invariant⟩ := reached.invariant
  exact ⟨invariant.safe, invariant.keeps_iff_meets⟩

def pageAlign1024 : PageAlign := ⟨1024, by decide, by decide⟩

def eightBytes : ElementType pageAlign1024 := ⟨8, 8, by decide, by decide, by decide⟩

def firstPage : Page := ⟨4096, 16384⟩

def firstRun : ArenaRun := .construct (fun _ => ⟨none, 0, 0⟩) firstPage

theorem firstPage_grants : Grants pageAlign1024 [] 1 firstPage where
  enough := by decide
  proper := ⟨by decide, by decide, by decide, by decide⟩
  fresh := fun _ membership => by cases membership

theorem arena_safe_iff_first : firstRun.Safe ∧ ∀ call : ArenaCall pageAlign1024,
    firstRun.Granted call → (firstRun.Keeps call ↔ firstRun.Meets call) :=
  arena_safe_iff (.construct _ firstPage firstPage_grants)

/-- After `allocate_` of −1 elements the next one is put over the header of the page. -/
theorem allocate_over_header : ∃ run : ArenaRun,
    ArenaReached pageAlign1024 (fun _ _ => True) run ∧
      (∃ region ∈ run.regions, ∃ page ∈ run.pages,
        ¬ Disjoint region.bytes (range page.address sizeofArenaPageHeader)) ∧ ¬ run.Safe := by
  obtain ⟨second, secondCalls, third, thirdCalls, asks, regions, pages⟩ : ∃ second,
      firstRun.call (.allocate eightBytes (-1) firstPage) = some second ∧ ∃ third,
        second.call (.allocate eightBytes 1 firstPage) = some third ∧
          (firstRun.arena.asked (eightBytes.passed (-1)) 8 = none ∧
            second.arena.asked (eightBytes.passed 1) 8 = none) ∧
          (⟨4112, 8, 8⟩ : Region) ∈ third.regions ∧ third.pages = [firstPage] := by
    refine ⟨_, rfl, _, rfl, ⟨?_, ?_⟩, ?_, ?_⟩
    · decide
    · decide
    · decide
    · decide
  have granted : firstRun.Granted (.allocate eightBytes (-1) firstPage) := by
    intro minSize asked
    cases asks.1.symm.trans asked
  have grantedSecond : second.Granted (.allocate eightBytes 1 firstPage) := by
    intro minSize asked
    cases asks.2.symm.trans asked
  have firstReached : ArenaReached pageAlign1024 (fun _ _ => True) firstRun :=
    .construct _ firstPage firstPage_grants
  have secondReached := ArenaReached.call _ firstReached granted trivial secondCalls
  have thirdReached := ArenaReached.call _ secondReached grantedSecond trivial thirdCalls
  have pageMembership : firstPage ∈ third.pages := pages ▸ List.mem_singleton_self firstPage
  have common : ¬ Disjoint (Region.bytes ⟨4112, 8, 8⟩)
      (range firstPage.address sizeofArenaPageHeader) := by
    intro disjoint
    have inRegion : 4112 ∈ Region.bytes ⟨4112, 8, 8⟩ := ⟨by decide, by decide⟩
    have inHeader : 4112 ∈ range firstPage.address sizeofArenaPageHeader :=
      ⟨by decide, by decide⟩
    exact Set.disjoint_left.mp disjoint inRegion inHeader
  refine ⟨third, thirdReached, ⟨_, regions, firstPage, pageMembership, common⟩, ?_⟩
  intro safe
  exact common (safe.headers _ regions firstPage pageMembership)

end Tvm.Support
