import Mathlib

/-!
# The launcher of parallel jobs

`ParallelLauncher::Init` of `thread_pool.cc` over every sequence of launches.  `none` is a size that
is no 32-bit integer, or a store outside of the counters.
-/

namespace Tvm.Runtime

def kSyncStride : Nat := 16

def intLimit : Nat := 2 ^ 31

abbrev Message := List UInt8

inductive SyncHandle where
  | null
  | syncCounter
  deriving DecidableEq

structure ParallelGroupEnv where
  syncHandle : SyncHandle
  numTask : Nat
  deriving DecidableEq

/-- A `ParallelLauncher`.  A counter has no value before the first store to it, and there is none
where `sync_counter_` is null. -/
structure ParallelLauncher where
  numPending : Int
  hasError : Bool
  env : ParallelGroupEnv
  syncCounter : List (Option Int)
  parErrors : List Message
  deriving DecidableEq

namespace ParallelLauncher

def new : ParallelLauncher where
  numPending := 0
  hasError := false
  env := ⟨.null, 0⟩
  syncCounter := []
  parErrors := []

/-- The product of 32-bit integers, where it is one. -/
def strided (n : Nat) : Option Nat :=
  if n * kSyncStride < intLimit then some (n * kSyncStride) else none

def storeZeros : Nat → Nat → List (Option Int) → Option (List (Option Int))
  | 0, _, counters => some counters
  | count + 1, i, counters => do
      let place ← strided i
      if place < counters.length then storeZeros count (i + 1) (counters.set place (some 0)) else none

/-- The part of `Init` that makes room. -/
def reshape (launcher : ParallelLauncher) (numTask : Nat) (needSync : Bool) :
    Option ParallelLauncher :=
  if numTask > launcher.parErrors.length then
    if numTask + 1 < intLimit then do
      let launcher := { launcher with
        parErrors := launcher.parErrors ++ List.replicate (numTask + 1 - launcher.parErrors.length) [] }
      if needSync then do
        let size ← strided numTask
        some { launcher with syncCounter := List.replicate size none }
      else some launcher
    else none
  else some launcher

def init (launcher : ParallelLauncher) (numTask : Nat) (needSync : Bool) :
    Option ParallelLauncher := do
  let launcher := { launcher with
    numPending := numTask, env := { launcher.env with numTask := numTask }, hasError := false }
  let launcher ← launcher.reshape numTask needSync
  if needSync then do
    let counters ← storeZeros numTask 0 launcher.syncCounter
    some { launcher with syncCounter := counters, env := ⟨.syncCounter, numTask⟩ }
  else some { launcher with env := ⟨.null, numTask⟩ }

/-- What a launch may rely on after `Init`. -/
structure Initialized (launcher : ParallelLauncher) (numTask : Nat) (needSync : Bool) : Prop where
  counters : needSync = true → launcher.env.syncHandle = .syncCounter ∧
    numTask * kSyncStride ≤ launcher.syncCounter.length ∧
    ∀ i < numTask, launcher.syncCounter[i * kSyncStride]? = some (some 0)
  errors : numTask - 1 < launcher.parErrors.length

/-- There are fewer tasks than errors, or the counters are made anew or are enough. -/
structure Fits (launcher : ParallelLauncher) (numTask : Nat) (needSync : Bool) : Prop where
  errors : numTask > launcher.parErrors.length → numTask + 1 < intLimit
  counters : needSync = true →
    if numTask > launcher.parErrors.length then numTask * kSyncStride < intLimit
    else numTask * kSyncStride ≤ launcher.syncCounter.length

end ParallelLauncher

/-- A call of `Init`, and what the jobs and their caller do until the next one: they set counters
and messages. -/
structure LaunchCall where
  numTask : Nat
  needSync : Bool
  work : ParallelLauncher → ParallelLauncher
  positive : 0 < numTask
  counters : ∀ launcher, (work launcher).syncCounter.length = launcher.syncCounter.length
  errors : ∀ launcher, (work launcher).parErrors.length = launcher.parErrors.length

namespace LaunchCall

open ParallelLauncher

def AllInitialized (launcher : ParallelLauncher) : List LaunchCall → Prop
  | [] => True
  | call :: rest => ∃ next, launcher.init call.numTask call.needSync = some next ∧
      next.Initialized call.numTask call.needSync ∧ AllInitialized (call.work next) rest

def AllFit (launcher : ParallelLauncher) : List LaunchCall → Prop
  | [] => True
  | call :: rest => launcher.Fits call.numTask call.needSync ∧
      ∀ next, launcher.init call.numTask call.needSync = some next → AllFit (call.work next) rest

end LaunchCall

namespace ParallelLauncher

variable {launcher next : ParallelLauncher} {numTask count i : Nat} {needSync : Bool}
  {counters : List (Option Int)}

theorem storeZeros_eq_some (i count : Nat) (counters : List (Option Int))
    (room : (i + count) * kSyncStride ≤ counters.length) (small : counters.length < intLimit) :
    ∃ stored, storeZeros count i counters = some stored ∧ stored.length = counters.length ∧
      (∀ j, i ≤ j → j < i + count → stored[j * kSyncStride]? = some (some 0)) ∧
      ∀ j < i, stored[j * kSyncStride]? = counters[j * kSyncStride]? := by
  have stride : kSyncStride = 16 := rfl
  induction count generalizing i counters with
  | zero => exact ⟨counters, rfl, rfl, fun j above below => by omega, fun _ _ => rfl⟩
  | succ count ih =>
    have inside : i * kSyncStride < counters.length := by
      rw [stride] at room ⊢
      omega
    have place : strided i = some (i * kSyncStride) := if_pos (inside.trans small)
    have moved : i + 1 + count = i + (count + 1) := by omega
    obtain ⟨stored, run, length, zeros, others⟩ := ih (i + 1)
      (counters.set (i * kSyncStride) (some 0)) (by rwa [List.length_set, moved])
      (by rwa [List.length_set])
    refine ⟨stored, ?_, length.trans List.length_set, fun j above below => ?_, fun j before => ?_⟩
    · rw [storeZeros, place]
      change (if i * kSyncStride < counters.length then _ else none) = _
      rw [if_pos inside]
      exact run
    · rcases above.eq_or_lt with rfl | above
      · rw [others i (Nat.lt_succ_self i), List.getElem?_set_self inside]
      · exact zeros j above (by omega)
    · rw [others j (by omega), List.getElem?_set_ne]
      rw [stride]
      omega

theorem strided_eq_some {n size : Nat} (run : strided n = some size) :
    size = n * kSyncStride ∧ n * kSyncStride < intLimit := by
  rw [strided] at run
  split at run
  · cases run
    exact ⟨rfl, ‹_›⟩
  · cases run

theorem reshape_cases (run : launcher.reshape numTask needSync = some next) :
    (numTask ≤ launcher.parErrors.length ∧ next = launcher) ∨
    (numTask > launcher.parErrors.length ∧ numTask + 1 < intLimit ∧
      next.parErrors.length = numTask + 1 ∧
      (needSync = false → next.syncCounter = launcher.syncCounter) ∧
      (needSync = true → numTask * kSyncStride < intLimit ∧
        next.syncCounter.length = numTask * kSyncStride)) := by
  rw [reshape] at run
  split at run
  · rename_i grows
    split at run
    · rename_i fits
      have room : (launcher.parErrors ++
          List.replicate (numTask + 1 - launcher.parErrors.length) []).length = numTask + 1 := by
        rw [List.length_append, List.length_replicate]
        omega
      cases needSync with
      | false =>
        cases run
        exact .inr ⟨grows, fits, room, fun _ => rfl, fun none => by cases none⟩
      | true =>
        obtain ⟨size, isSize, run⟩ := Option.bind_eq_some_iff.mp run
        obtain ⟨rfl, small⟩ := strided_eq_some isSize
        cases run
        exact .inr ⟨grows, fits, room, (fun none => by cases none), fun _ =>
          ⟨small, List.length_replicate⟩⟩
    · cases run
  · rename_i stays
    cases run
    exact .inl ⟨not_lt.mp stays, rfl⟩

theorem Fits.reshape (fits : launcher.Fits numTask needSync) :
    ∃ next, launcher.reshape numTask needSync = some next := by
  rw [ParallelLauncher.reshape]
  split
  · rename_i grows
    rw [if_pos (fits.errors grows)]
    cases needSync with
    | false => exact ⟨_, rfl⟩
    | true =>
      have small := fits.counters rfl
      rw [if_pos grows] at small
      rw [show strided numTask = some (numTask * kSyncStride) from if_pos small]
      exact ⟨_, rfl⟩
  · exact ⟨launcher, rfl⟩

def requested (launcher : ParallelLauncher) (numTask : Nat) : ParallelLauncher :=
  { launcher with
    numPending := numTask, env := { launcher.env with numTask := numTask }, hasError := false }

theorem init_eq_some_iff : launcher.init numTask needSync = some next ↔
    ∃ shaped, (launcher.requested numTask).reshape numTask needSync = some shaped ∧
      if needSync then ∃ counters, storeZeros numTask 0 shaped.syncCounter = some counters ∧
        next = { shaped with syncCounter := counters, env := ⟨.syncCounter, numTask⟩ }
      else next = { shaped with env := ⟨.null, numTask⟩ } := by
  constructor
  · intro run
    obtain ⟨shaped, isShaped, run⟩ := Option.bind_eq_some_iff.mp run
    refine ⟨shaped, isShaped, ?_⟩
    cases needSync with
    | false => exact (Option.some.inj run).symm
    | true =>
      obtain ⟨counters, stored, run⟩ := Option.bind_eq_some_iff.mp run
      exact ⟨counters, stored, (Option.some.inj run).symm⟩
  · rintro ⟨shaped, isShaped, rest⟩
    refine Option.bind_eq_some_iff.mpr ⟨shaped, isShaped, ?_⟩
    cases needSync with
    | false => exact congrArg some rest.symm
    | true =>
      obtain ⟨counters, stored, rfl⟩ := rest
      exact Option.bind_eq_some_iff.mpr ⟨counters, stored, rfl⟩

theorem storeZeros_length {stored : List (Option Int)}
    (run : storeZeros count i counters = some stored) : stored.length = counters.length := by
  induction count generalizing i counters with
  | zero =>
    cases run
    rfl
  | succ count ih =>
    obtain ⟨place, -, run⟩ := Option.bind_eq_some_iff.mp run
    split at run
    · exact (ih run).trans List.length_set
    · cases run

theorem init_initialized_iff (positive : 0 < numTask) (small : launcher.syncCounter.length < intLimit) :
    (∃ next, launcher.init numTask needSync = some next ∧ next.Initialized numTask needSync) ↔
      launcher.Fits numTask needSync := by
  constructor
  · rintro ⟨next, run, initialized⟩
    obtain ⟨shaped, isShaped, rest⟩ := init_eq_some_iff.mp run
    rcases reshape_cases isShaped with ⟨stays, rfl⟩ | ⟨grows, fits, -, -, sized⟩
    · change numTask ≤ launcher.parErrors.length at stays
      refine ⟨fun grows => absurd grows (not_lt.mpr stays), fun sync => ?_⟩
      rw [if_neg (not_lt.mpr stays)]
      subst sync
      obtain ⟨counters, stored, rfl⟩ := rest
      have enough := (initialized.counters rfl).2.1
      exact storeZeros_length stored ▸ enough
    · change numTask > launcher.parErrors.length at grows
      refine ⟨fun _ => fits, fun sync => ?_⟩
      rw [if_pos grows]
      exact (sized sync).1
  · intro fits
    have requested : (launcher.requested numTask).Fits numTask needSync := ⟨fits.errors, fits.counters⟩
    obtain ⟨shaped, isShaped⟩ := requested.reshape
    have errors : numTask - 1 < shaped.parErrors.length := by
      rcases reshape_cases isShaped with ⟨stays, rfl⟩ | ⟨-, -, length, -, -⟩
      · exact (Nat.sub_lt positive one_pos).trans_le stays
      · omega
    cases needSync with
    | false =>
      have run := init_eq_some_iff.mpr ⟨shaped, isShaped, rfl⟩
      exact ⟨_, run, (fun none => by cases none), errors⟩
    | true =>
      have room : numTask * kSyncStride ≤ shaped.syncCounter.length ∧
          shaped.syncCounter.length < intLimit := by
        have enough := fits.counters rfl
        rcases reshape_cases isShaped with ⟨stays, rfl⟩ | ⟨-, -, -, -, sized⟩
        · change numTask ≤ launcher.parErrors.length at stays
          rw [if_neg (not_lt.mpr stays)] at enough
          exact ⟨enough, small⟩
        · rw [(sized rfl).2]
          exact ⟨le_rfl, (sized rfl).1⟩
      obtain ⟨counters, stored, length, zeros, -⟩ := storeZeros_eq_some 0 numTask shaped.syncCounter
        (by rw [Nat.zero_add]; exact room.1) room.2
      have run := init_eq_some_iff.mpr ⟨shaped, isShaped, counters, stored, rfl⟩
      refine ⟨_, run, fun _ => ⟨rfl, ?_, ?_⟩, errors⟩
      · exact room.1.trans_eq length.symm
      · exact fun i below => zeros i (Nat.zero_le i) (by rwa [Nat.zero_add])

theorem init_small (run : launcher.init numTask needSync = some next)
    (small : launcher.syncCounter.length < intLimit) : next.syncCounter.length < intLimit := by
  obtain ⟨shaped, isShaped, rest⟩ := init_eq_some_iff.mp run
  have shapedSmall : shaped.syncCounter.length < intLimit := by
    rcases reshape_cases isShaped with ⟨-, rfl⟩ | ⟨-, -, -, same, sized⟩
    · exact small
    · cases needSync with
      | false =>
        rw [same rfl]
        exact small
      | true =>
        rw [(sized rfl).2]
        exact (sized rfl).1
  cases needSync with
  | false =>
    cases rest
    exact shapedSmall
  | true =>
    obtain ⟨counters, stored, rfl⟩ := rest
    exact (storeZeros_length stored).trans_lt shapedSmall

end ParallelLauncher

namespace LaunchCall

open ParallelLauncher

variable {launcher : ParallelLauncher}

theorem allInitialized_iff_of_small (small : launcher.syncCounter.length < intLimit)
    (calls : List LaunchCall) : AllInitialized launcher calls ↔ AllFit launcher calls := by
  induction calls generalizing launcher with
  | nil => exact Iff.rfl
  | cons call rest ih =>
    have next_small : ∀ next, launcher.init call.numTask call.needSync = some next →
        (call.work next).syncCounter.length < intLimit := by
      intro next run
      rw [call.counters]
      exact init_small run small
    constructor
    · rintro ⟨next, run, initialized, others⟩
      have fits := (init_initialized_iff call.positive small).mp ⟨next, run, initialized⟩
      refine ⟨fits, fun next' run' => ?_⟩
      rw [run] at run'
      cases run'
      exact (ih (next_small next run)).mp others
    · rintro ⟨fits, others⟩
      obtain ⟨next, run, initialized⟩ := (init_initialized_iff call.positive small).mpr fits
      exact ⟨next, run, initialized, (ih (next_small next run)).mpr (others next run)⟩

end LaunchCall

open ParallelLauncher LaunchCall

/-- Over every sequence of calls on one launcher. -/
theorem parallelLauncher_allInitialized_iff (calls : List LaunchCall) :
    AllInitialized .new calls ↔ AllFit .new calls :=
  allInitialized_iff_of_small (by decide) calls

def idleCall (numTask : Nat) (needSync : Bool) (positive : 0 < numTask) : LaunchCall where
  numTask := numTask
  needSync := needSync
  work launcher := launcher
  positive := positive
  counters _ := rfl
  errors _ := rfl

/-- The first call has made room for the messages of the second one, which then gets no counters. -/
theorem init_stores_null :
    ¬AllInitialized .new [idleCall 4 false (by decide), idleCall 4 true (by decide)] := by
  rintro ⟨first, run, -, second, run', -⟩
  have shaped : ParallelLauncher.new.init 4 false = some { ParallelLauncher.new with
      numPending := 4, env := ⟨.null, 4⟩, parErrors := List.replicate 5 [] } := by decide
  rw [show (idleCall 4 false (by decide)).numTask = 4 from rfl] at run
  rw [show (idleCall 4 false (by decide)).needSync = false from rfl, shaped] at run
  cases run
  cases run'

end Tvm.Runtime
