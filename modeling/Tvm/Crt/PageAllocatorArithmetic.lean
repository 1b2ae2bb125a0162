import Tvm.Crt.PageAllocator

/-!
# The sizes of a request

`PageMemoryManager_Allocate` keeps its promise for one request in a manager that any calls have
led to.  The sums and page counts that wrap are the ones of the request itself.
-/

namespace Tvm.Crt

open Tvm.Lib

/-- The request returns a block of at least its size in the page area, or it is refused and
nothing has changed. -/
def Allocates (mgr : MemoryManager) (numBytes : Nat) : Prop :=
  (∃ block next, allocate mgr numBytes = .ok (.ok block, next) ∧
    numBytes ≤ block.npage * mgr.ptable.pageSizeBytes ∧
    range block.outPtr (block.npage * mgr.ptable.pageSizeBytes) ⊆
      range mgr.ptable.memoryPool (mgr.ptable.maxPages * mgr.ptable.pageSizeBytes)) ∨
  allocate mgr numBytes = .ok (.error .platformNoMemory, mgr)

/-- The number of pages is not lost on the way. -/
structure Counted (mgr : MemoryManager) (numBytes : Nat) : Prop where
  /-- Rounding up does not wrap. -/
  size : numBytes + mgr.ptable.pageSizeBytes - 1 < 2 ^ 64
  /-- The free block that the low 32 bits find has all the pages. -/
  found : ∀ idx entry,
    multiMapLowerBound mgr.freeMap (requestedPages mgr.ptable numBytes % 2 ^ 32) = some idx →
      mgr.freeMap.used[idx]? = some entry →
        requestedPages mgr.ptable numBytes ≤ entry.page.numPages
  /-- A fresh block that is within the capacity in 32 bits is so in fact, and the loop of
  `PageTable_Resize` reaches its bound. -/
  fresh :
    multiMapLowerBound mgr.freeMap (requestedPages mgr.ptable numBytes % 2 ^ 32) = none →
      (mgr.ptable.numPages + requestedPages mgr.ptable numBytes) % 2 ^ 32 ≤
          mgr.ptable.maxPages →
        mgr.ptable.numPages + requestedPages mgr.ptable numBytes ≤ mgr.ptable.maxPages ∧
          mgr.ptable.numPages + requestedPages mgr.ptable numBytes < 2 ^ 32
  /-- A block without pages behind the last page finds a place in the translation buffer. -/
  empty :
    multiMapLowerBound mgr.freeMap (requestedPages mgr.ptable numBytes % 2 ^ 32) = none →
      requestedPages mgr.ptable numBytes = 0 → mgr.ptable.numPages = mgr.ptable.maxPages →
        mgr.pmap.entries.length < mgr.pmap.maxPages ∨
          ∃ entry ∈ mgr.pmap.entries, entry.addr =
            mgr.ptable.memoryPool + mgr.ptable.maxPages * mgr.ptable.pageSizeBytes

def Page.Within (pool : Pool) (page : Page) : Prop :=
  page.numPages = 0 ∨
    page.data = pool.memoryPool + page.ptableBegin * pool.pageSizeBytes ∧
      page.ptableBegin + page.numPages ≤ pool.numPages

/-- What holds in a manager that any calls have led to. -/
structure MemoryManager.Sound (pool : Pool) (mgr : MemoryManager) : Prop where
  memoryPool : mgr.ptable.memoryPool = pool.memoryPool
  pageSizeBytes : mgr.ptable.pageSizeBytes = pool.pageSizeBytes
  maxPages : mgr.ptable.maxPages = pool.numPages
  pmapPages : mgr.pmap.maxPages = pool.numPages
  maxEntries : mgr.freeMap.maxEntries = pool.numPages
  numEntries_le : mgr.freeMap.numEntries ≤ mgr.freeMap.maxEntries
  numPages_le : mgr.ptable.numPages ≤ pool.numPages
  /-- Entries that are not in use count as well: a block without pages brings one back. -/
  indexed : ∀ entry ∈ mgr.freeMap.entries, entry.index = entry.page.numPages % 2 ^ 32 ∧
    entry.page.Within pool
  located : ∀ entry ∈ mgr.pmap.entries, entry.page.Within pool ∧
    ∃ start ≤ mgr.ptable.numPages, entry.addr = pool.memoryPool + start * pool.pageSizeBytes
  distinct : (mgr.pmap.entries.map PageEntry.addr).Nodup

variable {pool : Pool} {mgr next : MemoryManager}

theorem create_sound (pool : Pool) : (pageMemoryManagerCreate pool).Sound pool where
  memoryPool := rfl
  pageSizeBytes := rfl
  maxPages := rfl
  pmapPages := rfl
  maxEntries := List.length_replicate
  numEntries_le := Nat.zero_le _
  numPages_le := Nat.zero_le _
  indexed entry membership := by
    obtain rfl := List.eq_of_mem_replicate membership
    exact ⟨rfl, .inl rfl⟩
  located _ membership := by cases membership
  distinct := List.nodup_nil

theorem multiMapErase_subset (map : MultiMap) {idx : Nat} {entry : IndexedEntry}
    (membership : entry ∈ (multiMapErase map idx).entries) : entry ∈ map.entries := by
  rcases List.mem_append.mp membership with front | back
  · exact List.mem_of_mem_take (List.mem_of_mem_eraseIdx front)
  · exact List.mem_of_mem_drop back

theorem lowerBound_lt {map : MultiMap} {npage idx : Nat}
    (found : multiMapLowerBound map npage = some idx) : idx < map.used.length :=
  (List.findIdx?_eq_some_iff_getElem.mp found).1

theorem MemoryManager.Sound.reuse (sound : mgr.Sound pool) {npage idx : Nat} {vleakSize : Int}
    (found : multiMapLowerBound mgr.freeMap npage = some idx) :
    MemoryManager.Sound pool
      { mgr with freeMap := multiMapErase mgr.freeMap idx, vleakSize := vleakSize } where
  memoryPool := sound.memoryPool
  pageSizeBytes := sound.pageSizeBytes
  maxPages := sound.maxPages
  pmapPages := sound.pmapPages
  maxEntries := by
    rw [← sound.maxEntries]
    exact multiMapErase_maxEntries mgr.freeMap sound.numEntries_le (lowerBound_lt found)
  numEntries_le := by
    rw [multiMapErase_maxEntries mgr.freeMap sound.numEntries_le (lowerBound_lt found)]
    exact le_trans (Nat.sub_le _ _) sound.numEntries_le
  numPages_le := sound.numPages_le
  indexed entry membership := sound.indexed entry (multiMapErase_subset mgr.freeMap membership)
  located := sound.located
  distinct := sound.distinct

theorem pageCreate_data (accepted : pool.Accepted) (sound : mgr.Sound pool) (npage : Nat) :
    (pageCreate mgr.ptable.memoryPool mgr.ptable.pageSizeBytes mgr.ptable.numPages npage).data =
      pool.memoryPool + mgr.ptable.numPages * pool.pageSizeBytes := by
  have area := accepted.area
  have le : mgr.ptable.numPages * pool.pageSizeBytes ≤ pool.numPages * pool.pageSizeBytes :=
    Nat.mul_le_mul_right _ sound.numPages_le
  simp only [pageCreate, sound.memoryPool, sound.pageSizeBytes]
  exact Nat.mod_eq_of_lt (by omega)

/-- A table that has been resized has as many pages as it was resized to, and there are as many. -/
theorem resized_le {ptable resized : PageTable} {npage : Nat} (small : npage < 2 ^ 64)
    (fits : ptable.numPages ≤ ptable.maxPages) (within : ptable.maxPages < 2 ^ 64)
    (done : pageTableResize ptable ((ptable.numPages + npage) % 2 ^ 64) = .ok resized) :
    ptable.numPages + npage ≤ ptable.maxPages ∧ ptable.numPages + npage < 2 ^ 32 ∧
      resized = { ptable with numPages := ptable.numPages + npage } := by
  obtain ⟨same, ends⟩ := pageTableResize_ok done
  unfold pageTableResize at done
  split at done
  · cases done
  next grows =>
    split at done
    · cases done
    next room =>
      have sum : (ptable.numPages + npage) % 2 ^ 64 = ptable.numPages + npage := by omega
      rw [sum] at same ends room
      exact ⟨by omega, ends, same⟩

theorem requestedPages_lt (ptable : PageTable) (numBytes : Nat) :
    requestedPages ptable numBytes < 2 ^ 64 := by
  unfold requestedPages
  exact lt_of_le_of_lt (Nat.div_le_self _ _) (Nat.mod_lt _ (Nat.two_pow_pos 64))

theorem tlbSet_cases {tlb stored : TLB} {data : Nat} {page : Page}
    (done : tlbSet tlb data page = .ok stored) :
    stored.maxPages = tlb.maxPages ∧
      ((∀ entry ∈ tlb.entries, entry.addr ≠ data) ∧
          stored.entries = tlb.entries ++ [⟨data, page⟩] ∨
        ∃ idx, ∃ bound : idx < tlb.entries.length, tlb.entries[idx].addr = data ∧
          stored.entries = tlb.entries.set idx ⟨data, page⟩) := by
  unfold tlbSet at done
  split at done
  next missing =>
    split at done
    · obtain rfl := Except.ok.inj done
      refine ⟨rfl, .inl ⟨fun entry membership same => ?_, rfl⟩⟩
      have other := List.findIdx?_eq_none_iff.mp missing entry membership
      simp [same] at other
    · cases done
  next idx found =>
    obtain rfl := Except.ok.inj done
    obtain ⟨bound, here, -⟩ := List.findIdx?_eq_some_iff_getElem.mp found
    exact ⟨rfl, .inr ⟨idx, bound, beq_iff_eq.mp here, rfl⟩⟩

theorem tlbSet_stores {tlb : TLB} {data : Nat} (page : Page)
    (room : tlb.entries.length < tlb.maxPages ∨ ∃ entry ∈ tlb.entries, entry.addr = data) :
    ∃ stored, tlbSet tlb data page = .ok stored := by
  unfold tlbSet
  cases found : tlbFind tlb data with
  | some idx => exact ⟨_, rfl⟩
  | none =>
    rcases room with room | ⟨entry, membership, same⟩
    · exact ⟨_, if_pos room⟩
    · have other := List.findIdx?_eq_none_iff.mp found entry membership
      simp [same] at other

theorem tlbSet_room {tlb stored : TLB} {data : Nat} {page : Page}
    (done : tlbSet tlb data page = .ok stored) :
    tlb.entries.length < tlb.maxPages ∨ ∃ entry ∈ tlb.entries, entry.addr = data := by
  unfold tlbSet at done
  split at done
  · split at done
    next room => exact .inl room
    next => cases done
  next idx found =>
    obtain ⟨bound, here, -⟩ := List.findIdx?_eq_some_iff_getElem.mp found
    exact .inr ⟨_, List.getElem_mem bound, beq_iff_eq.mp here⟩

theorem MemoryManager.Sound.extend (sound : mgr.Sound pool) {npage : Nat} {pmap : TLB}
    {data : Nat} {vleakSize : Int}
    (located : data = pool.memoryPool + mgr.ptable.numPages * pool.pageSizeBytes)
    (fits : mgr.ptable.numPages + npage ≤ mgr.ptable.maxPages)
    (stored : tlbSet mgr.pmap data ⟨mgr.ptable.numPages, npage, data⟩ = .ok pmap) :
    MemoryManager.Sound pool
      { mgr with
        ptable := { mgr.ptable with numPages := mgr.ptable.numPages + npage }
        pmap := pmap
        vleakSize := vleakSize } := by
  obtain ⟨size, entries⟩ := tlbSet_cases stored
  have within : Page.Within pool ⟨mgr.ptable.numPages, npage, data⟩ :=
    .inr ⟨located, sound.maxPages ▸ fits⟩
  have old : ∀ entry ∈ mgr.pmap.entries, entry.page.Within pool ∧
      ∃ start ≤ mgr.ptable.numPages + npage,
        entry.addr = pool.memoryPool + start * pool.pageSizeBytes := by
    intro entry membership
    obtain ⟨inside, start, le, address⟩ := sound.located entry membership
    exact ⟨inside, start, le_trans le (Nat.le_add_right _ _), address⟩
  refine ⟨sound.memoryPool, sound.pageSizeBytes, sound.maxPages, size.trans sound.pmapPages,
    sound.maxEntries, sound.numEntries_le, sound.maxPages ▸ fits, sound.indexed, ?_, ?_⟩
  · intro entry membership
    have new : entry = ⟨data, ⟨mgr.ptable.numPages, npage, data⟩⟩ ∨ entry ∈ mgr.pmap.entries := by
      rcases entries with ⟨-, appended⟩ | ⟨idx, bound, -, written⟩
      · rw [appended] at membership
        exact (List.mem_append.mp membership).symm.imp_left List.mem_singleton.mp
      · rw [written] at membership
        exact (List.mem_or_eq_of_mem_set membership).symm
    rcases new with rfl | older
    · exact ⟨within, mgr.ptable.numPages, Nat.le_add_right _ _, located⟩
    · exact old entry older
  · rcases entries with ⟨fresh, appended⟩ | ⟨idx, bound, same, written⟩
    · rw [appended, List.map_append]
      refine List.Nodup.append sound.distinct (List.nodup_singleton _) ?_
      intro address first second
      obtain ⟨entry, membership, rfl⟩ := List.mem_map.mp first
      exact fresh entry membership (List.mem_singleton.mp second)
    · have addresses : pmap.entries.map PageEntry.addr = mgr.pmap.entries.map PageEntry.addr := by
        rw [written, List.map_set]
        apply List.ext_getElem
        · rw [List.length_set]
        · intro index _ small
          rw [List.getElem_set]
          split
          next here =>
            subst here
            rw [List.getElem_map]
            exact same.symm
          next => rfl
      rw [addresses]
      exact sound.distinct

theorem multiMapInsert_entries {map inserted : MultiMap} {npage : Nat} {page : Page}
    (done : multiMapInsert map npage page = .ok inserted) :
    inserted.numEntries = map.numEntries + 1 ∧ map.numEntries < map.maxEntries ∧
      inserted.maxEntries = map.maxEntries ∧
        ∀ entry ∈ inserted.entries, entry = ⟨npage, page⟩ ∨ entry ∈ map.entries := by
  unfold multiMapInsert at done
  split at done
  · cases done
  next full =>
    split at done
    · obtain rfl := Except.ok.inj done
      refine ⟨rfl, Nat.lt_of_succ_le (Nat.not_lt.mp full), ?_, ?_⟩
      · dsimp only [MultiMap.maxEntries]
        split
        · rfl
        · exact List.length_set
      · intro entry membership
        dsimp only at membership
        split at membership
        · exact .inr membership
        · exact (List.mem_or_eq_of_mem_set membership).symm
    · cases done

theorem MemoryManager.Sound.free (sound : mgr.Sound pool) {ptr : Nat}
    (done : Crt.free mgr ptr = .ok next) : next.Sound pool := by
  obtain ⟨idx, entry, freeMap, found, here, inserted, rfl⟩ := free_ok done
  obtain ⟨count, room, size, entries⟩ := multiMapInsert_entries inserted
  obtain ⟨within, -⟩ := sound.located entry (List.mem_of_getElem? here)
  refine ⟨sound.memoryPool, sound.pageSizeBytes, sound.maxPages, sound.pmapPages,
    size.trans sound.maxEntries, ?_, sound.numPages_le, ?_, sound.located, sound.distinct⟩
  · rw [count, size]
    exact room
  · intro other membership
    rcases entries other membership with rfl | older
    · exact ⟨rfl, within⟩
    · exact sound.indexed other older

theorem MemoryManager.Sound.allocate (sound : mgr.Sound pool) (accepted : pool.Accepted)
    {numBytes : Nat} {result : Except CrtError Block}
    (done : Crt.allocate mgr numBytes = .ok (result, next)) : next.Sound pool := by
  rcases allocate_cases done with ⟨idx, entry, found, -, -, rfl⟩ | ⟨-, rfl⟩ |
    ⟨-, -, page, ptable, pmap, created, resized, stored, -, rfl⟩
  · exact sound.reuse found
  · exact sound
  · have data := pageCreate_data accepted sound (requestedPages mgr.ptable numBytes)
    have area := accepted.area
    have fits : mgr.ptable.numPages ≤ mgr.ptable.maxPages := sound.maxPages ▸ sound.numPages_le
    have small : mgr.ptable.maxPages < 2 ^ 64 := by
      have le := Nat.le_mul_of_pos_right pool.numPages pool.pageSizeBytes_pos
      rw [sound.maxPages]
      omega
    obtain ⟨within, -, rfl⟩ := resized_le (requestedPages_lt _ _) fits small resized
    rw [created] at stored
    exact sound.extend data within stored

theorem Reached.sound {admissible : MemoryManager → Call → Prop} {heap : Heap}
    (accepted : pool.Accepted) (reached : Reached admissible pool heap) :
    heap.mgr.Sound pool := by
  induction reached with
  | create => exact create_sound pool
  | @call heap next call _ _ done ih =>
    cases call with
    | allocate numBytes =>
      simp only [Heap.call] at done
      split at done
      next block mgr allocated =>
        obtain rfl := Except.ok.inj done
        exact ih.allocate accepted allocated
      next error mgr refused =>
        obtain rfl := Except.ok.inj done
        exact ih.allocate accepted refused
      next => cases done
    | free index =>
      simp only [Heap.call] at done
      split at done
      next allocation here =>
        split at done
        next mgr freed =>
          obtain rfl := Except.ok.inj done
          exact ih.free freed
        next => cases done
      next =>
        obtain rfl := Except.ok.inj done
        exact ih

theorem Pool.Accepted.one_more (accepted : pool.Accepted) :
    pool.numPages * pool.pageSizeBytes + pool.pageSizeBytes ≤ 2 ^ 64 := by
  have pages := Nat.div_mul_le_self (pool.memoryPoolSizeBytes - sizeofMemoryManager)
    (pool.pageSizeBytes + (sizeofPage + sizeofPageEntry + sizeofIndexedEntry))
  rw [← Pool.numPages, Nat.mul_add] at pages
  have entries : sizeofPage + sizeofPageEntry + sizeofIndexedEntry = 88 := rfl
  rw [entries] at pages
  have placed := accepted.exists_in_memory
  have page : pool.pageSizeBytes ≤ 2 ^ 30 := by
    rw [Pool.pageSizeBytes, Nat.one_shiftLeft]
    exact Nat.pow_le_pow_right (by decide) (Nat.le_of_lt_succ accepted.page_size)
  by_cases many : pool.pageSizeBytes ≤ pool.numPages * 88
  · omega
  · -- few pages are far from filling the memory
    have few : pool.numPages ≤ 2 ^ 30 := by omega
    have product : pool.numPages * pool.pageSizeBytes ≤ 2 ^ 30 * 2 ^ 30 :=
      Nat.mul_le_mul few page
    omega

/-- A number of pages is enough if and only if rounding up does not wrap and asks for no more. -/
theorem enough_iff (ptable : PageTable) {numBytes npage : Nat}
    (positive : 0 < ptable.pageSizeBytes)
    (bounded : npage * ptable.pageSizeBytes + ptable.pageSizeBytes ≤ 2 ^ 64) :
    numBytes ≤ npage * ptable.pageSizeBytes ↔
      numBytes + ptable.pageSizeBytes - 1 < 2 ^ 64 ∧ requestedPages ptable numBytes ≤ npage := by
  constructor
  · intro enough
    have size : numBytes + ptable.pageSizeBytes - 1 < 2 ^ 64 := by omega
    refine ⟨size, ?_⟩
    rw [requestedPages, Nat.mod_eq_of_lt size]
    apply Nat.le_of_lt_succ
    rw [Nat.div_lt_iff_lt_mul positive, Nat.succ_mul]
    omega
  · rintro ⟨size, few⟩
    exact le_trans (requestedPages_enough ptable positive size) (Nat.mul_le_mul_right _ few)

theorem requestedPages_wrapped {ptable : PageTable} {numBytes : Nat} (small : numBytes < 2 ^ 64)
    (page : ptable.pageSizeBytes ≤ 2 ^ 64)
    (wrapped : ¬numBytes + ptable.pageSizeBytes - 1 < 2 ^ 64) :
    requestedPages ptable numBytes = 0 := by
  unfold requestedPages
  apply Nat.div_eq_of_lt
  omega

theorem MemoryManager.Sound.room (sound : mgr.Sound pool)
    (left : mgr.ptable.numPages < mgr.ptable.maxPages) :
    mgr.pmap.entries.length < mgr.pmap.maxPages ∨ ∃ entry ∈ mgr.pmap.entries,
      entry.addr = pool.memoryPool + mgr.ptable.numPages * pool.pageSizeBytes := by
  by_cases there : ∃ entry ∈ mgr.pmap.entries,
      entry.addr = pool.memoryPool + mgr.ptable.numPages * pool.pageSizeBytes
  · exact .inr there
  · have addresses : mgr.pmap.entries.map PageEntry.addr ⊆
        (List.range mgr.ptable.numPages).map
          fun start => pool.memoryPool + start * pool.pageSizeBytes := by
      intro address membership
      obtain ⟨entry, here, rfl⟩ := List.mem_map.mp membership
      obtain ⟨-, start, le, same⟩ := sound.located entry here
      have less : start < mgr.ptable.numPages := by
        refine lt_of_le_of_ne le ?_
        rintro rfl
        exact there ⟨entry, here, same⟩
      exact List.mem_map.mpr ⟨start, List.mem_range.mpr less, same.symm⟩
    have few := (List.subperm_of_subset sound.distinct addresses).length_le
    rw [List.length_map, List.length_map, List.length_range] at few
    rw [sound.pmapPages, ← sound.maxPages]
    exact .inl (lt_of_le_of_lt few left)

theorem MemoryManager.Sound.positive (sound : mgr.Sound pool) : 0 < mgr.ptable.pageSizeBytes :=
  sound.pageSizeBytes ▸ pool.pageSizeBytes_pos

theorem MemoryManager.Sound.bounded (sound : mgr.Sound pool) (accepted : pool.Accepted)
    {npage : Nat} (le : npage ≤ mgr.ptable.maxPages) :
    npage * mgr.ptable.pageSizeBytes + mgr.ptable.pageSizeBytes ≤ 2 ^ 64 := by
  have oneMore := accepted.one_more
  have product := Nat.mul_le_mul_right pool.pageSizeBytes (sound.maxPages ▸ le)
  rw [sound.pageSizeBytes]
  omega

theorem MemoryManager.Sound.maxPages_lt (sound : mgr.Sound pool) (accepted : pool.Accepted) :
    mgr.ptable.maxPages < 2 ^ 64 := by
  have area := accepted.area
  have le := Nat.le_mul_of_pos_right pool.numPages pool.pageSizeBytes_pos
  have capacity := sound.maxPages
  omega

theorem MemoryManager.Sound.inside (sound : mgr.Sound pool) {page : Page}
    (within : page.Within pool) :
    range page.data (page.numPages * mgr.ptable.pageSizeBytes) ⊆
      range mgr.ptable.memoryPool (mgr.ptable.maxPages * mgr.ptable.pageSizeBytes) := by
  rw [sound.memoryPool, sound.pageSizeBytes, sound.maxPages]
  rcases within with none | ⟨located, fits⟩
  · rw [none, Nat.zero_mul]
    intro address membership
    exact absurd membership.2 (Nat.not_lt.mpr membership.1)
  · have product := Nat.mul_le_mul_right pool.pageSizeBytes fits
    rw [Nat.add_mul] at product
    exact range_subset (by omega) (by omega)

theorem MemoryManager.Sound.allocates_found (sound : mgr.Sound pool) (accepted : pool.Accepted)
    {numBytes idx : Nat}
    (lookup : multiMapLowerBound mgr.freeMap (requestedPages mgr.ptable numBytes % 2 ^ 32) =
      some idx) :
    Allocates mgr numBytes ↔ Counted mgr numBytes := by
  have bound := lowerBound_lt lookup
  have here : mgr.freeMap.used[idx]? = some mgr.freeMap.used[idx] := List.getElem?_eq_getElem bound
  have done : Crt.allocate mgr numBytes =
      .ok (.ok ⟨mgr.freeMap.used[idx].page.data, mgr.freeMap.used[idx].page.ptableBegin,
          mgr.freeMap.used[idx].page.numPages⟩,
        { mgr with freeMap := multiMapErase mgr.freeMap idx, vleakSize := mgr.vleakSize + 1 }) := by
    simp only [Crt.allocate, lookup, here]
  obtain ⟨-, within⟩ := sound.indexed _ (List.mem_of_mem_take (List.getElem_mem bound))
  have few : mgr.freeMap.used[idx].page.numPages ≤ mgr.ptable.maxPages := by
    rw [sound.maxPages]
    rcases within with none | ⟨-, fits⟩
    · omega
    · omega
  have enough : numBytes ≤ mgr.freeMap.used[idx].page.numPages * mgr.ptable.pageSizeBytes ↔ _ :=
    enough_iff mgr.ptable sound.positive (sound.bounded accepted few)
  constructor
  · rintro (⟨block, next, allocated, size, -⟩ | refused)
    · obtain ⟨same, -⟩ := Prod.mk.inj (Except.ok.inj (done.symm.trans allocated))
      obtain rfl := Except.ok.inj same
      obtain ⟨unwrapped, pages⟩ := enough.mp size
      refine ⟨unwrapped, fun other entry again found => ?_, fun missing => ?_, fun missing => ?_⟩
      · obtain rfl := Option.some.inj (lookup.symm.trans again)
        obtain rfl := Option.some.inj (here.symm.trans found)
        exact pages
      · rw [lookup] at missing
        cases missing
      · rw [lookup] at missing
        cases missing
    · rw [done] at refused
      cases (Prod.mk.inj (Except.ok.inj refused)).1
  · intro counted
    have pages := counted.found idx _ lookup here
    exact .inl ⟨_, _, done, enough.mpr ⟨counted.size, pages⟩, sound.inside within⟩

theorem MemoryManager.Sound.counted_of_refused (sound : mgr.Sound pool)
    (accepted : pool.Accepted) {numBytes : Nat} (small : numBytes < 2 ^ 64)
    (lookup : multiMapLowerBound mgr.freeMap (requestedPages mgr.ptable numBytes % 2 ^ 32) = none)
    (refused : mgr.ptable.maxPages <
      (mgr.ptable.numPages + requestedPages mgr.ptable numBytes) % 2 ^ 32) :
    Counted mgr numBytes := by
  have handed : mgr.ptable.numPages ≤ mgr.ptable.maxPages := sound.maxPages ▸ sound.numPages_le
  have some_pages : requestedPages mgr.ptable numBytes ≠ 0 := by
    intro none
    rw [none, Nat.add_zero] at refused
    have le := Nat.mod_le mgr.ptable.numPages (2 ^ 32)
    omega
  refine ⟨?_, fun idx entry found => ?_, fun _ allowed => ?_, fun _ none => ?_⟩
  · by_contra wrapped
    have page := sound.bounded accepted (Nat.zero_le _)
    exact some_pages (requestedPages_wrapped small (by omega) wrapped)
  · rw [lookup] at found
    cases found
  · exact absurd allowed (Nat.not_le.mpr refused)
  · exact absurd none some_pages

theorem MemoryManager.Sound.allocates_fresh (sound : mgr.Sound pool) (accepted : pool.Accepted)
    {numBytes : Nat}
    (lookup : multiMapLowerBound mgr.freeMap (requestedPages mgr.ptable numBytes % 2 ^ 32) = none)
    (allowed : (mgr.ptable.numPages + requestedPages mgr.ptable numBytes) % 2 ^ 32 ≤
      mgr.ptable.maxPages) :
    Allocates mgr numBytes ↔ Counted mgr numBytes := by
  have data := pageCreate_data accepted sound (requestedPages mgr.ptable numBytes)
  have handed : mgr.ptable.numPages ≤ mgr.ptable.maxPages := sound.maxPages ▸ sound.numPages_le
  have wide := sound.maxPages_lt accepted
  constructor
  · rintro (⟨block, next, allocated, size, -⟩ | refused)
    · rcases allocate_cases allocated with ⟨idx, entry, found, -⟩ | ⟨other, -⟩ |
        ⟨-, -, page, ptable, pmap, created, resized, stored, same, -⟩
      · rw [lookup] at found
        cases found
      · cases other
      · obtain rfl := Except.ok.inj same
        obtain ⟨fits, ends, -⟩ := resized_le (requestedPages_lt _ _) handed wide resized
        have bounded := sound.bounded accepted (le_trans (Nat.le_add_left _ _) fits)
        refine ⟨((enough_iff mgr.ptable sound.positive bounded).mp size).1,
          fun idx entry found => ?_, fun _ _ => ⟨fits, ends⟩, fun _ none full => ?_⟩
        · rw [lookup] at found
          cases found
        · have room := tlbSet_room stored
          rw [created, data, full, ← sound.memoryPool, ← sound.pageSizeBytes] at room
          exact room
    · rcases allocate_cases refused with ⟨idx, entry, found, -⟩ | - |
        ⟨-, -, page, ptable, pmap, -, -, -, same, -⟩
      · rw [lookup] at found
        cases found
      · simp only [Crt.allocate, lookup, if_neg (Nat.not_lt.mpr allowed)] at refused
        split at refused
        · cases refused
        · cases refused
        · cases (Prod.mk.inj (Except.ok.inj refused)).1
      · cases same
  · intro counted
    obtain ⟨fits, ends⟩ := counted.fresh lookup allowed
    have resized : pageTableResize mgr.ptable
        ((mgr.ptable.numPages + requestedPages mgr.ptable numBytes) % 2 ^ 64) =
          .ok { mgr.ptable with
            numPages := mgr.ptable.numPages + requestedPages mgr.ptable numBytes } := by
      have sum : (mgr.ptable.numPages + requestedPages mgr.ptable numBytes) % 2 ^ 64 =
          mgr.ptable.numPages + requestedPages mgr.ptable numBytes := by omega
      rw [sum, pageTableResize, if_neg (by omega), if_neg (by omega), if_pos ends]
    have room : mgr.pmap.entries.length < mgr.pmap.maxPages ∨ ∃ entry ∈ mgr.pmap.entries,
        entry.addr = pool.memoryPool + mgr.ptable.numPages * pool.pageSizeBytes := by
      rcases Nat.lt_or_eq_of_le handed with left | full
      · exact sound.room left
      · have empty := counted.empty lookup (by omega) full
        rw [sound.memoryPool, sound.pageSizeBytes, ← full] at empty
        exact empty
    obtain ⟨pmap, stored⟩ := tlbSet_stores (pageCreate mgr.ptable.memoryPool
      mgr.ptable.pageSizeBytes mgr.ptable.numPages (requestedPages mgr.ptable numBytes)) room
    rw [← data] at stored
    have within : Page.Within pool (pageCreate mgr.ptable.memoryPool mgr.ptable.pageSizeBytes
        mgr.ptable.numPages (requestedPages mgr.ptable numBytes)) :=
      .inr ⟨data, sound.maxPages ▸ fits⟩
    have done : Crt.allocate mgr numBytes =
        .ok (.ok ⟨(pageCreate mgr.ptable.memoryPool mgr.ptable.pageSizeBytes mgr.ptable.numPages
              (requestedPages mgr.ptable numBytes)).data, mgr.ptable.numPages,
            requestedPages mgr.ptable numBytes⟩,
          { mgr with
            ptable := { mgr.ptable with
              numPages := mgr.ptable.numPages + requestedPages mgr.ptable numBytes }
            pmap := pmap
            vleakSize := mgr.vleakSize + 1 }) := by
      simp only [Crt.allocate, lookup, if_neg (Nat.not_lt.mpr allowed), resized, stored]
    exact .inl ⟨_, _, done, requestedPages_enough mgr.ptable sound.positive counted.size,
      sound.inside within⟩

/-- After any calls, a request is served as promised if and only if its number of pages is not
lost on the way. -/
theorem allocates_iff_counted (pool : Pool) (accepted : pool.Accepted) (heap : Heap)
    (reached : Reached (fun _ _ => True) pool heap) (numBytes : UInt64) :
    Allocates heap.mgr numBytes.toNat ↔ Counted heap.mgr numBytes.toNat := by
  have sound := reached.sound accepted
  have small : numBytes.toNat < 2 ^ 64 := numBytes.toNat_lt
  cases lookup : multiMapLowerBound heap.mgr.freeMap
      (requestedPages heap.mgr.ptable numBytes.toNat % 2 ^ 32) with
  | some idx => exact sound.allocates_found accepted lookup
  | none =>
    by_cases refused : heap.mgr.ptable.maxPages <
        (heap.mgr.ptable.numPages + requestedPages heap.mgr.ptable numBytes.toNat) % 2 ^ 32
    · have done : Crt.allocate heap.mgr numBytes.toNat = .ok (.error .platformNoMemory, heap.mgr) := by
        simp only [Crt.allocate, lookup, if_pos refused]
      exact ⟨fun _ => sound.counted_of_refused accepted small lookup refused, fun _ => .inr done⟩
    · exact sound.allocates_fresh accepted lookup (Nat.le_of_not_lt refused)

/-- The largest request, in a new manager of two pages. -/
theorem allocates_iff_counted_max :
    Allocates (Heap.create twoPages).mgr (2 ^ 64 - 1) ↔
      Counted (Heap.create twoPages).mgr (2 ^ 64 - 1) :=
  allocates_iff_counted twoPages ⟨by decide, by decide, by decide⟩ _ .create (0 - 1)

/-- The largest request gets a block without pages. -/
theorem allocate_wraps : ¬∀ pool : Pool, pool.Accepted →
    ∀ heap, Reached (fun _ _ => True) pool heap → ∀ numBytes : UInt64,
      Allocates heap.mgr numBytes.toNat := by
  intro allocates
  have done : Crt.allocate (Heap.create twoPages).mgr (0 - 1 : UInt64).toNat =
      .ok (.ok ⟨4096, 0, 0⟩, ⟨1, ⟨4096, 256, 2, 0⟩, ⟨[⟨4096, 0, 0, 4096⟩], 2⟩,
        ⟨[⟨0, 0, 0, 0⟩, ⟨0, 0, 0, 0⟩], 0⟩⟩) := by decide +kernel
  rcases allocates twoPages ⟨by decide, by decide, by decide⟩ _ .create (0 - 1) with
    ⟨block, next, allocated, size, -⟩ | refused
  · obtain ⟨same, -⟩ := Prod.mk.inj (Except.ok.inj (done.symm.trans allocated))
    obtain rfl := Except.ok.inj same
    exact absurd size (by decide)
  · rw [done] at refused
    cases (Prod.mk.inj (Except.ok.inj refused)).1

end Tvm.Crt
