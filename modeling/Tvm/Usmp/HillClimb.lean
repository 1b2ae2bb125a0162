import Tvm.Usmp.Greedy

/-!
# Hill climbing

`hill_climb.cc`.  The random numbers are a sequence that is fixed in advance; whatever the
code does not survive (a fatal error, a division by zero, an index out of range) is `none`.
-/

namespace Tvm.Usmp

structure StrictWeakOrder {α : Type} (less : α → α → Bool) : Prop where
  asymm : ∀ a b, less a b = true → less b a = false
  split : ∀ a b c, less a c = true → less a b = true ∨ less b c = true

/-- What `std::sort` promises: equal elements may come in any order. -/
structure StdSort (α : Type) where
  sort : (α → α → Bool) → List α → List α
  perm : ∀ less list, (sort less list).Perm list
  sorted : ∀ less list, StrictWeakOrder less →
    (sort less list).Pairwise fun a b => less b a = false

theorem StrictWeakOrder.total {α : Type} {less : α → α → Bool} (weak : StrictWeakOrder less) :
    Std.Total fun a b => less b a = false := by
  constructor
  intro a b
  cases before : less b a with
  | false => exact .inl rfl
  | true => exact .inr (weak.asymm b a before)

theorem StrictWeakOrder.trans {α : Type} {less : α → α → Bool} (weak : StrictWeakOrder less) :
    IsTrans α fun a b => less b a = false := by
  constructor
  intro a b c first second
  cases before : less c a with
  | false => rfl
  | true =>
    rcases weak.split c b a before with later | earlier
    · rw [second] at later
      cases later
    · rw [first] at earlier
      cases earlier

/-- Insertion sort does what `std::sort` promises. -/
def insertionSort (α : Type) : StdSort α where
  sort less list := list.insertionSort fun a b => less b a = false
  perm less list := List.perm_insertionSort _ list
  sorted less list weak := by
    have total := weak.total
    have trans := weak.trans
    exact List.pairwise_insertionSort _ list

variable {β γ : Type} [DecidableEq β] [DecidableEq γ]

section

variable (pools : γ → PoolInfo) (buffers : β → BufferInfo β γ) (stdSort : StdSort β)

/-- `pool_allocations[a]->byte_offset->value` of a buffer that has been placed. -/
def placedOffset (plan : Plan β γ) (buffer : β) : Int64 :=
  ((plan buffer).map PoolAllocation.byteOffset).getD 0

/-- The conflicting buffers that have been placed, by their offsets. -/
def placedConflicts (plan : Plan β γ) (buffer : β) : List β :=
  stdSort.sort (fun a b => decide (placedOffset plan a < placedOffset plan b))
    ((buffers buffer).conflicts.filter fun conflict => (plan conflict).isSome)

def avoidConflict (plan : Plan β γ) (sizeBytes : UInt64) (poolOffsets : PoolOffsets γ)
    (conflict : β) : Option (PoolOffsets γ) :=
  match plan conflict with
  | none => some poolOffsets
  | some allocation => do
    let nextOffset ← offsetBehind (buffers conflict) allocation
    let pool := allocation.poolInfo
    match poolOffsets pool with
    | none => some poolOffsets
    | some offset =>
      let valid ← isValidPlacement (pools pool) nextOffset sizeBytes
      if valid then
        if offset < nextOffset ∧ allocation.byteOffset.toUInt64 < offset + sizeBytes then
          some (Function.update poolOffsets pool (some nextOffset))
        else some poolOffsets
      else some (Function.update poolOffsets pool none)

/-- The pool and the offset that `greedy` finds for a buffer. -/
def choosePlacement (plan : Plan β γ) (buffer : β) : Option (γ × UInt64) := do
  let bufInfo := buffers buffer
  let sizeBytes := bufInfo.sizeBytes.toUInt64
  let poolOffsets ← initialCandidates pools sizeBytes bufInfo.poolCandidates fun _ => none
  let poolOffsets ← (placedConflicts buffers stdSort plan buffer).foldlM
    (avoidConflict pools buffers plan sizeBytes) poolOffsets
  let selectedPool ← selectPlacementPool bufInfo poolOffsets
  some (selectedPool, (poolOffsets selectedPool).getD 0)

def placeAmong (plan : Plan β γ) (buffer : β) : Option (Plan β γ) :=
  (choosePlacement pools buffers stdSort plan buffer).map fun chosen =>
    Function.update plan buffer (some ⟨chosen.1, integer chosen.2⟩)

def greedy (bufferInfoVec : List β) : Option (Plan β γ) :=
  bufferInfoVec.foldlM (placeAmong pools buffers stdSort) fun _ => none

def entries (bufferInfoVec : List β) (plan : Plan β γ) : List (β × PoolAllocation γ) :=
  bufferInfoVec.dedup.filterMap fun buffer => (plan buffer).map (Prod.mk buffer)

def highSize (entry : β × PoolAllocation γ) : UInt64 :=
  (entry.2.byteOffset + (buffers entry.1).sizeBytes).toUInt64

def findHighest (allocations : List (β × PoolAllocation γ)) : γ → UInt64 :=
  allocations.foldl (fun poolSizes entry =>
    if poolSizes entry.2.poolInfo ≤ highSize buffers entry then
      Function.update poolSizes entry.2.poolInfo (highSize buffers entry)
    else poolSizes) fun _ => 0

def totalOf (allocations : List (β × PoolAllocation γ)) : UInt64 :=
  ((allocations.map fun entry => entry.2.poolInfo).dedup.map (findHighest buffers allocations)).sum

/-- The first and the second level neighbours that come before. -/
def collectNeighborLists (pos : β → Option Int) (buffer : β) : Option (List β × List β) := do
  let bufPos ← pos buffer
  (buffers buffer).conflicts.foldlM (fun lists c1 => do
    let c1Pos ← pos c1
    let second ← (buffers c1).conflicts.filterM fun c2 => (pos c2).map fun c2Pos => c2Pos < c1Pos
    some (if c1Pos < bufPos then lists.1 ++ [c1] else lists.1, lists.2 ++ second)) ([], [])

structure Climb (β γ : Type) where
  bufferInfoVec : List β
  posMap : β → Option Int
  totalSize : UInt64
  swapI1 : Int
  swapI2 : Int
  resultPoolAllocations : Plan β γ
  poolAllocations : Plan β γ
  /-- How many random numbers have been drawn. -/
  drawn : Nat

/-- What a round leaves behind: the loop is left, or goes on. -/
inductive Turn (β γ : Type) where
  | stop (climb : Climb β γ)
  | next (climb : Climb β γ)

def element (list : List β) (index : Int) : Option β :=
  if index < 0 then none else list[index.toNat]?

def Climb.swapBuffers (climb : Climb β γ) (i1 i2 : Int) : Option (Climb β γ) :=
  if i1 = i2 then some climb
  else do
    let b1 ← element climb.bufferInfoVec i1
    let b2 ← element climb.bufferInfoVec i2
    some { climb with
      bufferInfoVec := (climb.bufferInfoVec.set i1.toNat b2).set i2.toNat b1
      posMap := Function.update (Function.update climb.posMap b1 (some i2)) b2 (some i1) }

variable (random : Nat → Nat)

/-- Whether the new plan is taken, and how many random numbers have been drawn by then. -/
def accepts (attempts : Nat) (totalSize total : UInt64) (drawn : Nat) : Option (Bool × Nat) :=
  if totalSize = 0 ∨ total < totalSize then some (true, drawn)
  else if total = 0 ∨ UInt64.ofNat attempts = 0 then none
  else
    let chance := (50 * (total - totalSize) / total / UInt64.ofNat attempts).toUInt32.toInt32
    some (((random drawn % 100 : Nat) : Int) < chance.toInt, drawn + 1)

/-- The round up to the point where the plan has been taken or rolled back. -/
def Climb.judge (climb : Climb β γ) (memoryPressure : UInt64) (attempts : Nat) :
    Option (Turn β γ) := do
  let planned ← greedy pools buffers stdSort climb.bufferInfoVec
  let total := totalOf buffers (entries climb.bufferInfoVec planned)
  let verdict ← accepts random attempts climb.totalSize total climb.drawn
  if verdict.1 then
    let taken := { climb with
      resultPoolAllocations := planned
      poolAllocations := planned
      totalSize := total
      drawn := verdict.2 }
    some (if total ≤ memoryPressure then .stop taken else .next taken)
  else
    let rolled ← { climb with drawn := verdict.2 }.swapBuffers climb.swapI2 climb.swapI1
    some (.next rolled)

/-- A random element; a remainder by zero does not return. -/
def draw (list : List β) (drawn : Nat) : Option β :=
  list[random drawn % list.length]?

/-- The loop that looks for the second buffer, in at most `tries` rounds. -/
def pickOther (first second : List β) (swapBuf1 : β) : Nat → Nat → Option (β × Nat)
  | 0, _ => none
  | tries + 1, drawn => do
    let fromSecond : Bool := second ≠ [] ∧ (first = [] ∨ 25 < random drawn % 100)
    let used := if second ≠ [] ∧ first ≠ [] then drawn + 1 else drawn
    let swapBuf2 ← if fromSecond then draw random second used else draw random first used
    if second.length < 2 ∧ first.length < 2 then some (swapBuf2, used + 1)
    else if swapBuf2 = swapBuf1 then pickOther first second swapBuf1 tries (used + 1)
    else some (swapBuf2, used + 1)

/-- The rest of the round: two buffers below a highest one change places. -/
def Climb.shuffle (climb : Climb β γ) (tries : Nat) : Option (Climb β γ) := do
  let allocations := entries climb.bufferInfoVec climb.poolAllocations
  let poolSizes := findHighest buffers allocations
  let position := fun buffer => (climb.posMap buffer).getD (-1)
  let byPosition := stdSort.sort fun a b => decide (position a < position b)
  let maxPoolBuf := byPosition ((allocations.filter fun entry =>
    poolSizes entry.2.poolInfo = highSize buffers entry).map Prod.fst)
  let node ← draw random maxPoolBuf climb.drawn
  let lists ← collectNeighborLists buffers climb.posMap node
  let firstLevel := byPosition lists.1
  let secondLevel := byPosition lists.2
  if firstLevel = [] then some { climb with drawn := climb.drawn + 1 }
  else
    let swapBuf1 ← draw random firstLevel (climb.drawn + 1)
    let other ← pickOther random firstLevel secondLevel swapBuf1 tries (climb.drawn + 2)
    if swapBuf1 = other.1 then some { climb with drawn := other.2 }
    else
      let swapI1 ← climb.posMap swapBuf1
      let swapI2 ← climb.posMap other.1
      { climb with swapI1 := swapI1, swapI2 := swapI2, drawn := other.2 }.swapBuffers swapI1 swapI2

def Climb.attempt (climb : Climb β γ) (memoryPressure : UInt64) (tries attempts : Nat) :
    Option (Turn β γ) := do
  match ← climb.judge pools buffers stdSort random memoryPressure attempts with
  | .stop climb => some (.stop climb)
  | .next climb => (climb.shuffle buffers stdSort random tries).map .next

def Climb.run (memoryPressure : UInt64) (tries : Nat) :
    Nat → Nat → Climb β γ → Option (Climb β γ)
  | 0, _, climb => some climb
  | remaining + 1, attempts, climb => do
    match ← climb.attempt pools buffers stdSort random memoryPressure tries attempts with
    | .stop climb => some climb
    | .next climb => Climb.run memoryPressure tries remaining (attempts + 1) climb

def maxAttempts : Nat := 500

def sortVector (bufferInfoArr : List β) : List β :=
  stdSort.sort (fun a b => sizeLess (buffers a) (buffers b)) bufferInfoArr

def positions (bufferInfoVec : List β) (buffer : β) : Option Int :=
  (bufferInfoVec.zipIdx.reverse.find? fun indexed => indexed.1 = buffer).map fun indexed =>
    (indexed.2 : Int)

def Climb.start (bufferInfoArr : List β) : Climb β γ :=
  let bufferInfoVec := sortVector buffers stdSort bufferInfoArr
  { bufferInfoVec := bufferInfoVec
    posMap := positions bufferInfoVec
    totalSize := 0
    swapI1 := -1
    swapI2 := -1
    resultPoolAllocations := fun _ => none
    poolAllocations := fun _ => none
    drawn := 0 }

/-- The plan, if the loop that looks for a second buffer never takes more than `tries`
rounds. -/
def hillClimb (memoryPressure : UInt64) (tries : Nat) (bufferInfoArr : List β) :
    Option (Plan β γ) :=
  if bufferInfoArr.any fun buffer => (buffers buffer).poolCandidates.isEmpty then none
  else ((Climb.start buffers stdSort bufferInfoArr).run pools buffers stdSort random memoryPressure
    tries maxAttempts 0).map Climb.resultPoolAllocations

end

end Tvm.Usmp
