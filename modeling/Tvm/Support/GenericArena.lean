import Tvm.Lib.Chain
import Tvm.Lib.Tiling

/-!
# The arena

`generic_arena.h` on a machine with 64-bit addresses.  A page begins with its header; what the
headers hold is kept by their addresses.
-/

namespace Tvm.Support

open Tvm.Lib

/-- `next` is `none` for `nullptr`. -/
structure ArenaPageHeader where
  next : Option Nat
  size : Nat
  offset : Nat
  deriving DecidableEq, Repr

def sizeofArenaPageHeader : Nat := 24

structure Page where
  address : Nat
  size : Nat
  deriving DecidableEq, Repr

structure GenericArena where
  head : Option Nat
  tail : Option Nat
  freeList : Option Nat
  headers : Nat → ArenaPageHeader

/-- Numbers of type `size_t` wrap. -/
def sizeT (value : Int) : Nat := (value % 2 ^ 64).toNat

def upperAlign (offset align : Nat) : Nat :=
  sizeT (offset + (align - offset % align) % align)

namespace GenericArena

variable (arena : GenericArena)

def next (address : Nat) : Option Nat := (arena.headers address).next

def setHeader (address : Nat) (header : ArenaPageHeader) : GenericArena :=
  { arena with headers := Function.update arena.headers address header }

/-- The constructor: the first page is allocated eagerly. -/
def construct (headers : Nat → ArenaPageHeader) (page : Page) : GenericArena where
  head := some page.address
  tail := some page.address
  freeList := none
  headers := Function.update headers page.address ⟨none, page.size, sizeofArenaPageHeader⟩

/-- `RecycleAll`; a null pointer is not survived. -/
def recycleAll : Option GenericArena := do
  let head ← arena.head
  let tail ← arena.tail
  let spliced := arena.setHeader tail { arena.headers tail with next := arena.freeList }
  let freed := { spliced with freeList := spliced.next head }
  let reset := freed.setHeader head
    { freed.headers head with next := none, offset := sizeofArenaPageHeader }
  some { reset with tail := some head }

/-- The first page of the free list is large enough, or it is not and a page is allocated. -/
def takePage (page : Page) (minSize : Nat) : Nat × GenericArena :=
  match arena.freeList with
  | some free =>
    if minSize ≤ (arena.headers free).size then
      (free, { arena with freeList := arena.next free })
    else (page.address, arena.setHeader page.address
      { arena.headers page.address with size := page.size, offset := sizeofArenaPageHeader })
  | none => (page.address, arena.setHeader page.address
      { arena.headers page.address with size := page.size, offset := sizeofArenaPageHeader })

/-- `Alloc`, where `page` is what the page allocator returns if it is asked. -/
def alloc (page : Page) (size align : Nat) : Option (Nat × GenericArena) := do
  let head ← arena.head
  let header := arena.headers head
  let offset := upperAlign header.offset align
  if sizeT (offset + size) ≤ header.size then
    some (head + offset, arena.setHeader head { header with offset := sizeT (offset + size) })
  else
    let offset := upperAlign sizeofArenaPageHeader align
    let taken := arena.takePage page (sizeT (offset + size))
    let linked := taken.2.setHeader taken.1
      { taken.2.headers taken.1 with next := some head, offset := sizeT (offset + size) }
    some (taken.1 + offset, { linked with head := some taken.1 })

/-- What `Alloc` asks the page allocator for. -/
def asked (size align : Nat) : Option Nat := do
  let head ← arena.head
  let header := arena.headers head
  if sizeT (upperAlign header.offset align + size) ≤ header.size then none
  else
    let minSize := sizeT (upperAlign sizeofArenaPageHeader align + size)
    match arena.freeList with
    | some free => if minSize ≤ (arena.headers free).size then none else some minSize
    | none => some minSize

/-- `allocate_` for a type of the given size and alignment. -/
def allocate (page : Page) (sizeofT alignofT : Nat) (count : Int32) :
    Option (Nat × GenericArena) :=
  arena.alloc page (sizeT (sizeofT * (sizeT count.toInt : Nat))) alignofT

/-- `FreeAll`: the pages that are given to `deallocate`, in this order. -/
def freeAll (fuel : Nat) : Option (List Nat) := do
  let used ← follow arena.next fuel arena.head
  let free ← follow arena.next fuel arena.freeList
  some (used ++ free)

end GenericArena

end Tvm.Support

/-!
## The pages of an arena

The pages that have been obtained are those of the list in use and those of the free list.  Each
step of `Alloc` and of `RecycleAll` keeps them there.
-/

namespace Tvm.Support

open Tvm.Lib

structure PageAlign where
  value : Nat
  pos : 0 < value
  lt : value < 2 ^ 31

structure ElementType (pageAlign : PageAlign) where
  size : Nat
  align : Nat
  size_lt : size < 2 ^ 64
  align_pos : 0 < align
  align_dvd : align ∣ pageAlign.value

/-- Memory that has been allocated since the last `RecycleAll`. -/
structure Region where
  ptr : Nat
  size : Nat
  align : Nat
  deriving DecidableEq, Repr

structure ArenaRun where
  arena : GenericArena
  /-- All the pages that have been obtained. -/
  pages : List Page
  regions : List Region

/-- `page` is what the page allocator returns if it is asked. -/
inductive ArenaCall (pageAlign : PageAlign) where
  | allocate (type : ElementType pageAlign) (count : Int32) (page : Page)
  | recycleAll

variable {pageAlign : PageAlign}

/-- The size of `count` elements; a negative number of them is converted. -/
def ElementType.requested (type : ElementType pageAlign) (count : Int32) : Nat :=
  if 0 ≤ count.toInt then type.size * count.toInt.toNat
  else sizeT (type.size * (sizeT count.toInt : Nat))

/-- What `Alloc` is called with. -/
def ElementType.passed (type : ElementType pageAlign) (count : Int32) : Nat :=
  sizeT (type.size * (sizeT count.toInt : Nat))

def ArenaRun.construct (headers : Nat → ArenaPageHeader) (page : Page) : ArenaRun :=
  ⟨.construct headers page, [page], []⟩

def ArenaRun.call (run : ArenaRun) : ArenaCall pageAlign → Option ArenaRun
  | .allocate type count page =>
    (run.arena.allocate page type.size type.align count).map fun result =>
      { arena := result.2
        pages := if (run.arena.asked (type.passed count) type.align).isSome then page :: run.pages
          else run.pages
        regions := ⟨result.1, type.requested count, type.align⟩ :: run.regions }
  | .recycleAll => run.arena.recycleAll.map fun arena => ⟨arena, run.pages, []⟩

/-- A page of its own kind, whatever the others are. -/
structure Page.Proper (pageAlign : PageAlign) (page : Page) : Prop where
  header_fits : sizeofArenaPageHeader ≤ page.size
  /-- Differences of addresses in a page have a sign bit. -/
  size_lt : page.size < 2 ^ 63
  ends : page.address + page.size < 2 ^ 64
  aligned : pageAlign.value ∣ page.address

def Page.bytes (page : Page) : Set Nat := range page.address page.size

structure Grants (pageAlign : PageAlign) (pages : List Page) (minSize : Nat) (page : Page) :
    Prop where
  enough : minSize ≤ page.size
  proper : page.Proper pageAlign
  fresh : ∀ other ∈ pages, Disjoint page.bytes other.bytes

/-- The page allocator keeps its promise if it is asked. -/
def ArenaRun.Granted (run : ArenaRun) : ArenaCall pageAlign → Prop
  | .allocate type count page => ∀ minSize,
      run.arena.asked (type.passed count) type.align = some minSize →
        Grants pageAlign run.pages minSize page
  | .recycleAll => True

def Region.bytes (region : Region) : Set Nat := range region.ptr region.size

structure ArenaRun.Safe (run : ArenaRun) : Prop where
  aligned : ∀ region ∈ run.regions, region.align ∣ region.ptr
  disjoint : run.regions.Pairwise fun first second => Disjoint first.bytes second.bytes
  inside : ∀ region ∈ run.regions, ∃ page ∈ run.pages,
    page.address ≤ region.ptr ∧ region.ptr + region.size ≤ page.address + page.size
  headers : ∀ region ∈ run.regions, ∀ page ∈ run.pages,
    Disjoint region.bytes (range page.address sizeofArenaPageHeader)
  /-- Each page is in one of the two lists. -/
  partition : ∃ used free, Chain run.arena.next run.arena.head used ∧
    Chain run.arena.next run.arena.freeList free ∧
      (used ++ free).Perm (run.pages.map Page.address) ∧ (used ++ free).Nodup
  /-- `FreeAll` ends, and releases each page once. -/
  released : ∃ fuel addresses, run.arena.freeAll fuel = some addresses ∧
    addresses.Perm (run.pages.map Page.address) ∧ addresses.Nodup

/-- The call comes back, and the arena is safe. -/
def ArenaRun.Keeps (run : ArenaRun) (call : ArenaCall pageAlign) : Prop :=
  ∃ after, run.call call = some after ∧ after.Safe

/-- The end of the region in the page at the head is a `size_t`. -/
def ArenaRun.Meets (run : ArenaRun) : ArenaCall pageAlign → Prop
  | .allocate type count _ => ∀ head, run.arena.head = some head →
      upperAlign (run.arena.headers head).offset type.align + type.requested count < 2 ^ 64
  | .recycleAll => True

/-- The arenas that calls meeting a condition lead to. -/
inductive ArenaReached (pageAlign : PageAlign)
    (admissible : ArenaRun → ArenaCall pageAlign → Prop) : ArenaRun → Prop where
  | construct (headers : Nat → ArenaPageHeader) (page : Page) : Grants pageAlign [] 1 page →
      ArenaReached pageAlign admissible (.construct headers page)
  | call {run after : ArenaRun} (call : ArenaCall pageAlign) :
      ArenaReached pageAlign admissible run → run.Granted call → admissible run call →
      run.call call = some after → ArenaReached pageAlign admissible after

theorem sizeT_natCast (value : Nat) : sizeT (value : Int) = value % 2 ^ 64 := by
  unfold sizeT
  omega

theorem sizeT_of_lt {value : Nat} (small : value < 2 ^ 64) : sizeT (value : Int) = value := by
  rw [sizeT_natCast, Nat.mod_eq_of_lt small]

theorem sizeT_add (first second : Nat) :
    sizeT ((first : Int) + (second : Int)) = (first + second) % 2 ^ 64 := by
  rw [← Nat.cast_add, sizeT_natCast]

theorem upperAlign_spec {offset align : Nat} (pos : 0 < align) (small : offset + align < 2 ^ 64) :
    offset ≤ upperAlign offset align ∧ upperAlign offset align < offset + align ∧
      align ∣ upperAlign offset align := by
  have rest := Nat.mod_lt offset pos
  have padding := Nat.mod_lt (align - offset % align) pos
  have cast : (offset + ((align : Int) - (offset : Int) % align) % align) =
      ((offset + (align - offset % align) % align : Nat) : Int) := by
    push_cast [Nat.cast_sub rest.le]
    rfl
  have value : upperAlign offset align = offset + (align - offset % align) % align := by
    unfold upperAlign
    rw [cast]
    exact sizeT_of_lt (by omega)
  have whole : align ∣ offset + (align - offset % align) % align := by
    rw [← Nat.modEq_zero_iff_dvd]
    calc offset + (align - offset % align) % align
        ≡ offset % align + (align - offset % align) [MOD align] :=
          Nat.ModEq.add (Nat.mod_modEq offset align).symm (Nat.mod_modEq _ align)
      _ = align := by omega
      _ ≡ 0 [MOD align] := Nat.modEq_zero_iff_dvd.mpr dvd_rfl
  rw [value]
  exact ⟨Nat.le_add_right _ _, by omega, whole⟩

theorem upperAlign_le {offset align above : Nat} (pos : 0 < align)
    (small : offset + align < 2 ^ 64) (le : offset ≤ above) (multiple : align ∣ above) :
    upperAlign offset align ≤ above := by
  obtain ⟨-, below, whole⟩ := upperAlign_spec pos small
  by_contra larger
  have gap : align ∣ upperAlign offset align - above := Nat.dvd_sub whole multiple
  have wide := Nat.le_of_dvd (by omega) gap
  omega

theorem passed_eq (type : ElementType pageAlign) (count : Int32) :
    type.passed count = type.requested count % 2 ^ 64 := by
  unfold ElementType.passed ElementType.requested
  by_cases nonneg : 0 ≤ count.toInt
  · have converted : (sizeT count.toInt : Nat) = count.toInt.toNat := by
      have bound := count.toInt_lt
      unfold sizeT
      omega
    rw [if_pos nonneg, converted]
    exact sizeT_natCast (type.size * count.toInt.toNat)
  · rw [if_neg nonneg, Nat.mod_eq_of_lt]
    unfold sizeT
    omega

theorem Page.Proper.nonempty {page : Page} (proper : page.Proper pageAlign) :
    page.address ∈ page.bytes := by
  have fits := proper.header_fits
  unfold sizeofArenaPageHeader at fits
  exact ⟨le_rfl, by omega⟩

theorem Page.Proper.address_ne {page other : Page} (proper : page.Proper pageAlign)
    (properOther : other.Proper pageAlign) (disjoint : Disjoint page.bytes other.bytes) :
    page.address ≠ other.address := by
  intro same
  refine Set.disjoint_left.mp disjoint proper.nonempty ?_
  rw [same]
  exact properOther.nonempty

structure ArenaRun.Linked (pageAlign : PageAlign) (run : ArenaRun) (held used free : List Nat) :
    Prop where
  chainUsed : Chain run.arena.next run.arena.head used
  chainFree : Chain run.arena.next run.arena.freeList free
  tail : ∃ before last, used = before ++ [last] ∧ run.arena.tail = some last
  partition : (held ++ (used ++ free)).Perm (run.pages.map Page.address)
  sizes : ∀ page ∈ run.pages, (run.arena.headers page.address).size = page.size
  proper : ∀ page ∈ run.pages, page.Proper pageAlign
  apart : run.pages.Pairwise fun page other => Disjoint page.bytes other.bytes
  offsets : ∀ address ∈ used, sizeofArenaPageHeader ≤ (run.arena.headers address).offset ∧
    (run.arena.headers address).offset ≤ (run.arena.headers address).size

/-- The regions lie below the offsets of the pages in use. -/
structure ArenaRun.Filled (run : ArenaRun) (used : List Nat) : Prop where
  aligned : ∀ region ∈ run.regions, region.align ∣ region.ptr
  placed : ∀ region ∈ run.regions, ∃ address ∈ used,
    address + sizeofArenaPageHeader ≤ region.ptr ∧
      region.ptr + region.size ≤ address + (run.arena.headers address).offset
  disjoint : run.regions.Pairwise fun first second => Disjoint first.bytes second.bytes

structure ArenaRun.Invariant (pageAlign : PageAlign) (run : ArenaRun) (used free : List Nat) :
    Prop where
  linked : run.Linked pageAlign [] used free
  filled : run.Filled used

namespace ArenaRun.Linked

variable {run : ArenaRun} {held used free : List Nat}

theorem nodup (linked : run.Linked pageAlign held used free) : (held ++ (used ++ free)).Nodup := by
  rw [linked.partition.nodup_iff]
  refine List.pairwise_map.mpr (linked.apart.imp_of_mem ?_)
  intro page other membership otherMembership disjoint
  exact (linked.proper page membership).address_ne (linked.proper other otherMembership) disjoint

theorem exists_page (linked : run.Linked pageAlign held used free) {address : Nat}
    (membership : address ∈ held ++ (used ++ free)) : ∃ page ∈ run.pages, page.address = address :=
  List.mem_map.mp (linked.partition.mem_iff.mp membership)

theorem bytes_disjoint (linked : run.Linked pageAlign held used free) {page other : Page}
    (membership : page ∈ run.pages) (otherMembership : other ∈ run.pages)
    (different : page.address ≠ other.address) : Disjoint page.bytes other.bytes := by
  have symmetric : Std.Symm fun page other : Page => Disjoint page.bytes other.bytes :=
    ⟨fun _ _ disjoint => disjoint.symm⟩
  exact linked.apart.forall membership otherMembership
    fun same => different (congrArg Page.address same)

theorem head_eq (linked : run.Linked pageAlign held used free) :
    ∃ head rest, used = head :: rest ∧ run.arena.head = some head := by
  obtain ⟨before, last, rfl, -⟩ := linked.tail
  have chain := linked.chainUsed
  cases before with
  | nil => exact ⟨last, [], rfl, chain.1⟩
  | cons first before => exact ⟨first, before ++ [last], rfl, chain.1⟩

end ArenaRun.Linked

namespace ArenaRun.Invariant

variable {run : ArenaRun} {used free : List Nat}

theorem region_page (invariant : run.Invariant pageAlign used free) {region : Region}
    (membership : region ∈ run.regions) : ∃ page ∈ run.pages, page.address ∈ used ∧
      page.address + sizeofArenaPageHeader ≤ region.ptr ∧
      region.ptr + region.size ≤ page.address + (run.arena.headers page.address).offset ∧
      region.ptr + region.size ≤ page.address + page.size := by
  obtain ⟨address, inUse, behind, ends⟩ := invariant.filled.placed region membership
  obtain ⟨page, pageMembership, rfl⟩ :=
    invariant.linked.exists_page (List.mem_append_left free inUse)
  have below := (invariant.linked.offsets page.address inUse).2
  rw [invariant.linked.sizes page pageMembership] at below
  exact ⟨page, pageMembership, inUse, behind, ends, by omega⟩

theorem safe (invariant : run.Invariant pageAlign used free) : run.Safe where
  aligned := invariant.filled.aligned
  disjoint := invariant.filled.disjoint
  inside := by
    intro region membership
    obtain ⟨page, pageMembership, -, behind, -, ends⟩ := invariant.region_page membership
    exact ⟨page, pageMembership, by omega, ends⟩
  headers := by
    intro region membership other otherMembership
    obtain ⟨page, pageMembership, -, behind, -, ends⟩ := invariant.region_page membership
    have fits := (invariant.linked.proper other otherMembership).header_fits
    by_cases same : other.address = page.address
    · rw [same]
      exact (range_disjoint behind).symm
    · have apart := invariant.linked.bytes_disjoint pageMembership otherMembership (Ne.symm same)
      exact apart.mono (range_subset (by omega) ends) (range_subset le_rfl (by omega))
  partition := ⟨used, free, invariant.linked.chainUsed, invariant.linked.chainFree,
    invariant.linked.partition, invariant.linked.nodup⟩
  released := by
    refine ⟨used.length + free.length, used ++ free, ?_, invariant.linked.partition,
      invariant.linked.nodup⟩
    unfold GenericArena.freeAll
    rw [invariant.linked.chainUsed.follow_eq (Nat.le_add_right _ _),
      invariant.linked.chainFree.follow_eq (Nat.le_add_left _ _)]
    rfl

end ArenaRun.Invariant

theorem GenericArena.next_setHeader (arena : GenericArena) (address : Nat)
    (header : ArenaPageHeader) :
    (arena.setHeader address header).next =
      Function.update arena.next address header.next := by
  funext other
  unfold GenericArena.next GenericArena.setHeader
  by_cases same : other = address
  · subst same
    simp only [Function.update_self]
  · simp only [Function.update_of_ne same]

theorem GenericArena.size_setHeader (arena : GenericArena) {address : Nat}
    {header : ArenaPageHeader} (same : header.size = (arena.headers address).size) (other : Nat) :
    ((arena.setHeader address header).headers other).size = (arena.headers other).size := by
  unfold GenericArena.setHeader
  by_cases equal : other = address
  · subst equal
    simpa only [Function.update_self] using same
  · simp only [Function.update_of_ne equal]

theorem construct_invariant (headers : Nat → ArenaPageHeader) {page : Page} {minSize : Nat}
    (grants : Grants pageAlign [] minSize page) :
    (ArenaRun.construct headers page).Invariant pageAlign [page.address] [] where
  linked := {
    chainUsed := by
      refine ⟨rfl, ?_⟩
      show (Function.update headers page.address _ page.address).next = none
      rw [Function.update_self]
    chainFree := rfl
    tail := ⟨[], page.address, rfl, rfl⟩
    partition := List.Perm.refl _
    sizes := by
      intro other membership
      obtain rfl := List.mem_singleton.mp membership
      show (Function.update headers other.address _ other.address).size = other.size
      rw [Function.update_self]
    proper := by
      intro other membership
      obtain rfl := List.mem_singleton.mp membership
      exact grants.proper
    apart := List.pairwise_singleton _ _
    offsets := by
      intro address membership
      obtain rfl := List.mem_singleton.mp membership
      show _ ≤ (Function.update headers page.address _ page.address).offset ∧
        (Function.update headers page.address _ page.address).offset ≤
          (Function.update headers page.address _ page.address).size
      rw [Function.update_self]
      exact ⟨le_rfl, grants.proper.header_fits⟩ }
  filled := {
    aligned := fun _ membership => by cases membership
    placed := fun _ membership => by cases membership
    disjoint := List.Pairwise.nil }

theorem ArenaRun.Invariant.recycleAll {run : ArenaRun} {used free : List Nat}
    (invariant : run.Invariant pageAlign used free) :
    ∃ arena used' free', run.arena.recycleAll = some arena ∧
      ArenaRun.Invariant pageAlign ⟨arena, run.pages, []⟩ used' free' := by
  obtain ⟨head, rest, split, headEq⟩ := invariant.linked.head_eq
  obtain ⟨before, last, snoc, tailEq⟩ := invariant.linked.tail
  have nodup := invariant.linked.nodup
  have chain := invariant.linked.chainUsed
  rw [List.nil_append, snoc, List.append_assoc, List.singleton_append] at nodup
  rw [snoc] at chain
  have outside : last ∉ before := by
    intro membership
    exact (List.nodup_append.mp nodup).2.2 last membership last List.mem_cons_self rfl
  have apart : last ∉ free := (List.nodup_cons.mp (List.nodup_append.mp nodup).2.1).1
  -- Behind the last page in use come the free ones.
  have spliced := chain.splice invariant.linked.chainFree outside apart
  have whole : before ++ last :: free = head :: (rest ++ free) := by
    rw [← List.singleton_append, ← List.append_assoc, ← snoc, split, List.cons_append]
  rw [whole] at spliced nodup
  have headOutside : head ∉ rest ++ free := (List.nodup_cons.mp nodup).1
  let first := run.arena.setHeader last
    { run.arena.headers last with next := run.arena.freeList }
  let second : GenericArena := { first with freeList := first.next head }
  let third := second.setHeader head
    { second.headers head with next := none, offset := sizeofArenaPageHeader }
  have firstNext : first.next = Function.update run.arena.next last run.arena.freeList :=
    run.arena.next_setHeader last _
  have thirdNext : third.next = Function.update first.next head none :=
    second.next_setHeader head _
  have sizes : ∀ address, (third.headers address).size = (run.arena.headers address).size := by
    intro address
    have keptFirst : (first.headers address).size = (run.arena.headers address).size := by
      apply run.arena.size_setHeader
      rfl
    have keptThird : (third.headers address).size = (second.headers address).size := by
      apply second.size_setHeader
      rfl
    exact keptThird.trans keptFirst
  have headHeader : third.headers head =
      { second.headers head with next := none, offset := sizeofArenaPageHeader } :=
    Function.update_self head _ second.headers
  refine ⟨{ third with tail := some head }, [head], rest ++ free, ?_, ?_, ?_⟩
  · unfold GenericArena.recycleAll
    rw [headEq, tailEq]
    rfl
  · refine {
      chainUsed := ⟨headEq, ?_⟩
      chainFree := ?_
      tail := ⟨[], head, rfl, rfl⟩
      partition := ?_
      sizes := fun page membership => (sizes page.address).trans (invariant.linked.sizes page membership)
      proper := invariant.linked.proper
      apart := invariant.linked.apart
      offsets := ?_ }
    · show third.next head = none
      rw [thirdNext, Function.update_self]
    · show Chain third.next (first.next head) (rest ++ free)
      rw [thirdNext, firstNext]
      exact spliced.2.update headOutside none
    · have same := invariant.linked.partition
      rw [split] at same
      exact same
    · intro address membership
      obtain rfl := List.mem_singleton.mp membership
      obtain ⟨page, pageMembership, same⟩ :=
        invariant.linked.exists_page (split ▸ List.mem_cons_self : address ∈ [] ++ (used ++ free))
      show _ ≤ (third.headers address).offset ∧
        (third.headers address).offset ≤ (third.headers address).size
      rw [sizes, headHeader, ← same, invariant.linked.sizes page pageMembership]
      exact ⟨le_rfl, (invariant.linked.proper page pageMembership).header_fits⟩
  · exact {
      aligned := fun _ membership => by cases membership
      placed := fun _ membership => by cases membership
      disjoint := List.Pairwise.nil }

namespace GenericArena

variable {arena : GenericArena} {head size align : Nat}

theorem alloc_fits (headEq : arena.head = some head)
    (fits : sizeT (upperAlign (arena.headers head).offset align + size) ≤
      (arena.headers head).size) (page : Page) :
    arena.alloc page size align = some
      (head + upperAlign (arena.headers head).offset align,
        arena.setHeader head { arena.headers head with
          offset := sizeT (upperAlign (arena.headers head).offset align + size) }) := by
  unfold alloc
  rw [headEq]
  exact if_pos fits

theorem asked_fits (headEq : arena.head = some head)
    (fits : sizeT (upperAlign (arena.headers head).offset align + size) ≤
      (arena.headers head).size) : arena.asked size align = none := by
  unfold asked
  rw [headEq]
  exact if_pos fits

/-- What the second branch of `Alloc` does with a page. -/
def link (arena : GenericArena) (address offset : Nat) : GenericArena :=
  { arena.setHeader address
      { arena.headers address with next := arena.head, offset := offset } with
    head := some address }

theorem takePage_head (page : Page) (minSize : Nat) :
    (arena.takePage page minSize).2.head = arena.head := by
  unfold takePage
  split
  · split <;> rfl
  · rfl

theorem alloc_new (headEq : arena.head = some head)
    (full : ¬ sizeT (upperAlign (arena.headers head).offset align + size) ≤
      (arena.headers head).size) (page : Page) :
    arena.alloc page size align = some
      ((arena.takePage page (sizeT (upperAlign sizeofArenaPageHeader align + size))).1 +
          upperAlign sizeofArenaPageHeader align,
        (arena.takePage page (sizeT (upperAlign sizeofArenaPageHeader align + size))).2.link
          (arena.takePage page (sizeT (upperAlign sizeofArenaPageHeader align + size))).1
          (sizeT (upperAlign sizeofArenaPageHeader align + size))) := by
  unfold alloc link
  rw [takePage_head, headEq]
  exact if_neg full

theorem asked_new (headEq : arena.head = some head)
    (full : ¬ sizeT (upperAlign (arena.headers head).offset align + size) ≤
      (arena.headers head).size) :
    arena.asked size align =
      match arena.freeList with
      | some free =>
        if sizeT (upperAlign sizeofArenaPageHeader align + size) ≤ (arena.headers free).size
          then none
        else some (sizeT (upperAlign sizeofArenaPageHeader align + size))
      | none => some (sizeT (upperAlign sizeofArenaPageHeader align + size)) := by
  unfold asked
  rw [headEq]
  exact if_neg full

end GenericArena

namespace ArenaRun.Linked

variable {run : ArenaRun} {held used free : List Nat}

theorem bump (linked : run.Linked pageAlign held used free) {address offset : Nat}
    (behind : sizeofArenaPageHeader ≤ offset) (fits : offset ≤ (run.arena.headers address).size)
    (regions : List Region) :
    ArenaRun.Linked pageAlign
      ⟨run.arena.setHeader address { run.arena.headers address with offset := offset }, run.pages,
        regions⟩ held used free := by
  have links : (run.arena.setHeader address
      { run.arena.headers address with offset := offset }).next = run.arena.next := by
    rw [GenericArena.next_setHeader]
    exact Function.update_eq_self address run.arena.next
  have sizes : ∀ other, ((run.arena.setHeader address
      { run.arena.headers address with offset := offset }).headers other).size =
        (run.arena.headers other).size := by
    apply run.arena.size_setHeader
    rfl
  refine { linked with chainUsed := ?_, chainFree := ?_, sizes := ?_, offsets := ?_ }
  · exact linked.chainUsed.congr fun other _ => congrFun links other
  · exact linked.chainFree.congr fun other _ => congrFun links other
  · intro page membership
    rw [sizes]
    exact linked.sizes page membership
  · intro other membership
    rw [sizes]
    by_cases same : other = address
    · subst same
      simp only [GenericArena.setHeader, Function.update_self]
      exact ⟨behind, fits⟩
    · simp only [GenericArena.setHeader, Function.update_of_ne same]
      exact linked.offsets other membership

theorem takeFree {first : Nat} (linked : run.Linked pageAlign [] used (first :: free)) :
    ArenaRun.Linked pageAlign
      ⟨{ run.arena with freeList := run.arena.next first }, run.pages, run.regions⟩ [first] used
        free where
  chainUsed := linked.chainUsed
  chainFree := linked.chainFree.2
  tail := linked.tail
  partition := by
    have moved : (first :: (used ++ free)).Perm (used ++ first :: free) := List.perm_middle.symm
    exact moved.trans linked.partition
  sizes := linked.sizes
  proper := linked.proper
  apart := linked.apart
  offsets := linked.offsets

theorem takeFresh (linked : run.Linked pageAlign [] used free) {minSize : Nat} {page : Page}
    (grants : Grants pageAlign run.pages minSize page) :
    ArenaRun.Linked pageAlign
      ⟨run.arena.setHeader page.address { run.arena.headers page.address with
        size := page.size, offset := sizeofArenaPageHeader }, page :: run.pages, run.regions⟩
      [page.address] used free := by
  have links : (run.arena.setHeader page.address { run.arena.headers page.address with
      size := page.size, offset := sizeofArenaPageHeader }).next = run.arena.next := by
    rw [GenericArena.next_setHeader]
    exact Function.update_eq_self page.address run.arena.next
  have different : ∀ other ∈ run.pages, other.address ≠ page.address := fun other membership =>
    (grants.proper.address_ne (linked.proper other membership) (grants.fresh other membership)).symm
  have kept : ∀ other ∈ run.pages, (run.arena.setHeader page.address
      { run.arena.headers page.address with
        size := page.size, offset := sizeofArenaPageHeader }).headers other.address =
          run.arena.headers other.address := fun other membership =>
    Function.update_of_ne (different other membership) _ _
  refine {
    chainUsed := linked.chainUsed.congr fun other _ => congrFun links other
    chainFree := linked.chainFree.congr fun other _ => congrFun links other
    tail := linked.tail
    partition := linked.partition.cons page.address
    sizes := ?_
    proper := List.forall_mem_cons.mpr ⟨grants.proper, linked.proper⟩
    apart := List.pairwise_cons.mpr ⟨grants.fresh, linked.apart⟩
    offsets := ?_ }
  · refine List.forall_mem_cons.mpr ⟨?_, ?_⟩
    · exact congrArg ArenaPageHeader.size (Function.update_self page.address _ run.arena.headers)
    · intro other membership
      rw [kept other membership]
      exact linked.sizes other membership
  · intro address membership
    obtain ⟨other, otherMembership, rfl⟩ :=
      linked.exists_page (List.mem_append_left free membership)
    rw [kept other otherMembership]
    exact linked.offsets other.address membership

theorem link {address offset : Nat} (linked : run.Linked pageAlign [address] used free)
    (behind : sizeofArenaPageHeader ≤ offset) (fits : offset ≤ (run.arena.headers address).size)
    (regions : List Region) :
    ArenaRun.Linked pageAlign ⟨run.arena.link address offset, run.pages, regions⟩ []
      (address :: used) free := by
  have outside : address ∉ used ++ free := (List.nodup_cons.mp linked.nodup).1
  rw [List.mem_append, not_or] at outside
  have links : (run.arena.link address offset).next =
      Function.update run.arena.next address run.arena.head :=
    run.arena.next_setHeader address _
  have sizes : ∀ other, ((run.arena.link address offset).headers other).size =
      (run.arena.headers other).size := by
    apply run.arena.size_setHeader
    rfl
  refine {
    chainUsed := ?_
    chainFree := ?_
    tail := ?_
    partition := linked.partition
    sizes := ?_
    proper := linked.proper
    apart := linked.apart
    offsets := ?_ }
  · show Chain (run.arena.link address offset).next (some address) (address :: used)
    rw [links]
    exact linked.chainUsed.push outside.1
  · show Chain (run.arena.link address offset).next run.arena.freeList free
    rw [links]
    exact linked.chainFree.update outside.2 run.arena.head
  · obtain ⟨before, last, split, tailEq⟩ := linked.tail
    exact ⟨address :: before, last, congrArg (address :: ·) split, tailEq⟩
  · intro page membership
    rw [sizes]
    exact linked.sizes page membership
  · refine List.forall_mem_cons.mpr ⟨?_, ?_⟩
    · rw [sizes]
      simp only [GenericArena.link, GenericArena.setHeader, Function.update_self]
      exact ⟨behind, fits⟩
    · intro other membership
      have different : other ≠ address := ne_of_mem_of_not_mem membership outside.1
      simp only [GenericArena.link, GenericArena.setHeader, Function.update_of_ne different]
      exact linked.offsets other membership

end ArenaRun.Linked

theorem ArenaRun.Filled.push {run after : ArenaRun} {used used' : List Nat} {region : Region}
    (filled : run.Filled used) (regions : after.regions = region :: run.regions)
    (kept : ∀ address ∈ used, address ∈ used' ∧
      (run.arena.headers address).offset ≤ (after.arena.headers address).offset)
    (aligned : region.align ∣ region.ptr)
    (placed : ∃ address ∈ used', address + sizeofArenaPageHeader ≤ region.ptr ∧
      region.ptr + region.size ≤ address + (after.arena.headers address).offset)
    (disjoint : ∀ other ∈ run.regions, Disjoint region.bytes other.bytes) :
    after.Filled used' := by
  refine ⟨?_, ?_, ?_⟩
  · rw [regions]
    exact List.forall_mem_cons.mpr ⟨aligned, filled.aligned⟩
  · rw [regions]
    refine List.forall_mem_cons.mpr ⟨placed, ?_⟩
    intro other membership
    obtain ⟨address, inUse, behind, ends⟩ := filled.placed other membership
    obtain ⟨still, grown⟩ := kept address inUse
    exact ⟨address, still, behind, by omega⟩
  · rw [regions]
    exact List.pairwise_cons.mpr ⟨disjoint, filled.disjoint⟩

/-- A page for `minSize` bytes has been taken, and those in use are as before. -/
structure ArenaRun.Holds (pageAlign : PageAlign) (run : ArenaRun) (pages : List Page)
    (used free : List Nat) (minSize : Nat) (taken : Nat × GenericArena) : Prop where
  linked : ArenaRun.Linked pageAlign ⟨taken.2, pages, run.regions⟩ [taken.1] used free
  enough : minSize ≤ (taken.2.headers taken.1).size
  kept : ∀ address ∈ used, taken.2.headers address = run.arena.headers address

namespace ArenaRun.Linked

variable {run : ArenaRun} {used free : List Nat}

theorem holds_fresh (linked : run.Linked pageAlign [] used free) {minSize : Nat} {page : Page}
    (grants : Grants pageAlign run.pages minSize page) :
    run.Holds pageAlign (page :: run.pages) used free minSize
      (page.address, run.arena.setHeader page.address { run.arena.headers page.address with
        size := page.size, offset := sizeofArenaPageHeader }) where
  linked := linked.takeFresh grants
  enough := by
    simp only [GenericArena.setHeader, Function.update_self]
    exact grants.enough
  kept := by
    intro address membership
    obtain ⟨other, otherMembership, rfl⟩ :=
      linked.exists_page (List.mem_append_left free membership)
    have different := grants.proper.address_ne (linked.proper other otherMembership)
      (grants.fresh other otherMembership)
    exact Function.update_of_ne (Ne.symm different) _ _

theorem takePage (linked : run.Linked pageAlign [] used free) {head size align : Nat} {page : Page}
    (headEq : run.arena.head = some head)
    (full : ¬ sizeT (upperAlign (run.arena.headers head).offset align + size) ≤
      (run.arena.headers head).size)
    (granted : ∀ minSize, run.arena.asked size align = some minSize →
      Grants pageAlign run.pages minSize page) {minSize : Nat}
    (minSizeEq : sizeT (upperAlign sizeofArenaPageHeader align + size) = minSize) :
    ∃ free', run.Holds pageAlign
      (if (run.arena.asked size align).isSome then page :: run.pages else run.pages) used free'
      minSize (run.arena.takePage page minSize) := by
  have asks := GenericArena.asked_new headEq full
  rw [minSizeEq] at asks
  unfold GenericArena.takePage
  cases source : run.arena.freeList with
  | none =>
    rw [source] at asks
    have grants := granted minSize asks
    rw [asks]
    exact ⟨free, linked.holds_fresh grants⟩
  | some first =>
    simp only [source] at asks
    by_cases large : minSize ≤ (run.arena.headers first).size
    · rw [if_pos large] at asks
      rw [asks]
      simp only [if_pos large]
      have chain := linked.chainFree
      rw [source] at chain
      cases free with
      | nil => cases chain
      | cons other free =>
        obtain rfl := Option.some.inj chain.1
        exact ⟨free, linked.takeFree, large, fun _ _ => rfl⟩
    · rw [if_neg large] at asks
      have grants := granted minSize asks
      rw [asks]
      simp only [if_neg large]
      exact ⟨free, linked.holds_fresh grants⟩

end ArenaRun.Linked

end Tvm.Support
