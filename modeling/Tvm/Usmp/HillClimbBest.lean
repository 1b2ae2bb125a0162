import Tvm.Usmp.HillClimbSafety

/-!
# The best plan of a climb

`hill_climb.cc` returns the plan that it has taken last.  By chance it also takes plans that are
worse than the one it has, and what it had is forgotten.
-/

namespace Tvm.Usmp

variable {β γ : Type} [DecidableEq β] [DecidableEq γ]

def raisePool (poolSizes : γ → UInt64) (pool : γ) (size : UInt64) : γ → UInt64 :=
  if poolSizes pool ≤ size then Function.update poolSizes pool size else poolSizes

theorem raisePool_apply (poolSizes : γ → UInt64) (pool other : γ) (size : UInt64) :
    raisePool poolSizes pool size other =
      if other = pool ∧ poolSizes pool ≤ size then size else poolSizes other := by
  unfold raisePool
  by_cases enough : poolSizes pool ≤ size
  · rw [if_pos enough, Function.update_apply]
    simp only [enough, and_true]
  · rw [if_neg enough]
    simp only [enough, and_false, if_false]

theorem raisePool_comm (poolSizes : γ → UInt64) (first second : γ) (firstSize secondSize : UInt64) :
    raisePool (raisePool poolSizes first firstSize) second secondSize =
      raisePool (raisePool poolSizes second secondSize) first firstSize := by
  funext other
  simp only [raisePool_apply]
  by_cases same : first = second
  · subst same
    by_cases here : other = first
    · subst here
      simp only [true_and, UInt64.le_iff_toNat_le]
      split_ifs <;> first | rfl | (apply UInt64.toNat_inj.mp; omega)
    · simp only [here, false_and, if_false]
  · have apart : ¬second = first := fun equal => same equal.symm
    by_cases here : other = first
    · subst here
      simp only [same, apart, false_and, if_false]
    · simp only [here, apart, false_and, if_false]

omit [DecidableEq β] in
theorem findHighest_perm (buffers : β → BufferInfo β γ) {first second : List (β × PoolAllocation γ)}
    (perm : first.Perm second) : findHighest buffers first = findHighest buffers second := by
  unfold findHighest
  refine perm.foldl_eq' (fun entry _ other _ poolSizes => ?_) _
  exact raisePool_comm poolSizes entry.2.poolInfo other.2.poolInfo _ _

omit [DecidableEq β] in
theorem totalOf_perm (buffers : β → BufferInfo β γ) {first second : List (β × PoolAllocation γ)}
    (perm : first.Perm second) : totalOf buffers first = totalOf buffers second := by
  unfold totalOf
  rw [findHighest_perm buffers perm]
  exact ((perm.map _).dedup.map _).sum_eq

omit [DecidableEq γ] in
theorem entries_perm {first second : List β} (perm : first.Perm second) (plan : Plan β γ) :
    (entries first plan).Perm (entries second plan) :=
  perm.dedup.filterMap _

/-- What a call of `HillClimb` depends on. -/
structure Search (β γ : Type) where
  pools : γ → PoolInfo
  buffers : β → BufferInfo β γ
  stdSort : StdSort β
  random : Nat → Nat
  memoryPressure : UInt64
  tries : Nat
  bufferInfoArr : List β

namespace Search

variable (search : Search β γ)

def plan? : Option (Plan β γ) :=
  hillClimb search.pools search.buffers search.stdSort search.random search.memoryPressure
    search.tries search.bufferInfoArr

def before (round : Nat) : Option (Climb β γ) :=
  Climb.before search.pools search.buffers search.stdSort search.random search.memoryPressure
    search.tries search.bufferInfoArr round

def attempt (climb : Climb β γ) (round : Nat) : Option (Turn β γ) :=
  climb.attempt search.pools search.buffers search.stdSort search.random search.memoryPressure
    search.tries round

def planned (climb : Climb β γ) : Option (Plan β γ) :=
  greedy search.pools search.buffers search.stdSort climb.bufferInfoVec

/-- The sum over the pools of the highest byte used. -/
def total (plan : Plan β γ) : UInt64 :=
  totalOf search.buffers (entries search.bufferInfoArr plan)

/-- A plan of the given size is evaluated in the given attempt. -/
def Evaluates (round : Nat) (size : UInt64) : Prop :=
  round < maxAttempts ∧ ∃ climb plan, search.before round = some climb ∧
    search.planned climb = some plan ∧ search.total plan = size

/-- The attempt takes a plan that is worse than the one that there is. -/
def TakesWorse (round : Nat) : Prop :=
  round < maxAttempts ∧ 0 < round ∧ ∃ climb plan drawn, search.before round = some climb ∧
    search.planned climb = some plan ∧ climb.totalSize < search.total plan ∧
      accepts search.random round climb.totalSize (search.total plan) climb.drawn =
        some (true, drawn)

variable {search} {climb : Climb β γ} {turn : Turn β γ} {round : Nat}

theorem accepts_reject {random : Nat → Nat} {attempts : Nat} {totalSize total : UInt64}
    {drawn after : Nat}
    (rejected : accepts random attempts totalSize total drawn = some (false, after)) :
    ¬total < totalSize := by
  intro less
  simp [accepts, less] at rejected

theorem attempt_spec (perm : climb.bufferInfoVec.Perm search.bufferInfoArr)
    (done : search.attempt climb round = some turn) :
    turn.climb.bufferInfoVec.Perm search.bufferInfoArr ∧
      ∃ plan, search.planned climb = some plan ∧
        ((∃ drawn, accepts search.random round climb.totalSize (search.total plan) climb.drawn =
              some (true, drawn) ∧ turn.climb.totalSize = search.total plan ∧
            turn.climb.resultPoolAllocations = plan) ∨
          (∃ drawn, accepts search.random round climb.totalSize (search.total plan) climb.drawn =
              some (false, drawn) ∧ turn.climb.totalSize = climb.totalSize ∧
            turn.climb.resultPoolAllocations = climb.resultPoolAllocations)) := by
  simp only [attempt, Climb.attempt, Option.bind_eq_bind, Option.bind_eq_some_iff] at done
  obtain ⟨judgement, judged, rest⟩ := done
  -- what comes behind the verdict changes places only
  have kept : SameResult judgement.climb turn.climb := by
    split at rest
    next stopped =>
      obtain rfl := Option.some.inj rest
      exact ⟨List.Perm.refl _, rfl, rfl⟩
    next going =>
      obtain ⟨shuffled, done, rfl⟩ := Option.map_eq_some_iff.mp rest
      exact sameResult_shuffle done
  rw [kept.total, kept.result]
  simp only [Climb.judge, Option.bind_eq_bind, Option.bind_eq_some_iff] at judged
  obtain ⟨plan, made, verdict, decided, rest⟩ := judged
  have size : totalOf search.buffers (entries climb.bufferInfoVec plan) = search.total plan :=
    totalOf_perm _ (entries_perm perm plan)
  rw [size] at decided rest
  obtain ⟨verdict, drawn⟩ := verdict
  cases verdict with
  | true =>
    rw [if_pos rfl] at rest
    obtain rfl := Option.some.inj rest
    refine ⟨kept.perm.trans ?_, plan, made, .inl ⟨drawn, decided, ?_, ?_⟩⟩
    · split
      · exact perm
      · exact perm
    · split
      · rfl
      · rfl
    · split
      · rfl
      · rfl
  | false =>
    rw [if_neg Bool.false_ne_true] at rest
    obtain ⟨rolled, swapped, turned⟩ := by simpa only [Option.bind_eq_some_iff] using rest
    obtain rfl := Option.some.inj turned
    have same := sameResult_swapBuffers swapped
    exact ⟨kept.perm.trans (same.perm.trans perm), plan, made,
      .inr ⟨drawn, decided, same.total, same.result⟩⟩

theorem before_succ : search.before (round + 1) = some climb ↔
    ∃ earlier, search.before round = some earlier ∧
      search.attempt earlier round = some (.next climb) := by
  rw [before, Climb.before, Option.bind_eq_bind, Option.bind_eq_some_iff]
  refine exists_congr fun earlier => and_congr_right fun there => ?_
  rw [Option.bind_eq_bind, Option.bind_eq_some_iff]
  constructor
  · rintro ⟨turn, tried, rest⟩
    cases turn with
    | stop _ => cases rest
    | next after =>
      obtain rfl := Option.some.inj rest
      exact tried
  · intro tried
    exact ⟨_, tried, rfl⟩

theorem before_perm (there : search.before round = some climb) :
    climb.bufferInfoVec.Perm search.bufferInfoArr := by
  induction round generalizing climb with
  | zero =>
    obtain rfl := Option.some.inj there
    exact search.stdSort.perm _ _
  | succ round ih =>
    obtain ⟨earlier, start, tried⟩ := before_succ.mp there
    exact (attempt_spec (ih start) tried).1

theorem before_none (there : search.before round = none) {later : Nat} (behind : round ≤ later) :
    search.before later = none := by
  induction behind with
  | refl => exact there
  | step _ ih =>
    cases next : search.before _ with
    | none => rfl
    | some climb =>
      obtain ⟨earlier, start, -⟩ := before_succ.mp next
      rw [ih] at start
      cases start

theorem run_ends {remaining : Nat} {climb last : Climb β γ} (rounds : round + remaining = maxAttempts)
    (some_left : 0 < remaining) (there : search.before round = some climb)
    (done : climb.run search.pools search.buffers search.stdSort search.random
      search.memoryPressure search.tries remaining round = some last) :
    ∃ final start turn, final < maxAttempts ∧ search.before final = some start ∧
      search.attempt start final = some turn ∧ turn.climb = last ∧
        ∀ later < maxAttempts, final < later → search.before later = none := by
  induction remaining generalizing round climb with
  | zero => exact absurd some_left (Nat.lt_irrefl 0)
  | succ remaining ih =>
    rw [Climb.run, Option.bind_eq_bind, Option.bind_eq_some_iff] at done
    obtain ⟨turn, tried, rest⟩ := done
    cases turn with
    | stop stopped =>
      obtain rfl := Option.some.inj rest
      refine ⟨round, climb, .stop stopped, by omega, there, tried, rfl, fun later _ behind => ?_⟩
      refine before_none ?_ behind
      cases next : search.before (round + 1) with
      | none => rfl
      | some after =>
        obtain ⟨earlier, start, went⟩ := before_succ.mp next
        obtain rfl := Option.some.inj (there.symm.trans start)
        cases tried.symm.trans went
    | next after =>
      cases remaining with
      | zero =>
        obtain rfl := Option.some.inj rest
        exact ⟨round, climb, .next after, by omega, there, tried, rfl, fun later _ _ => by omega⟩
      | succ remaining =>
        exact ih (by omega) (Nat.succ_pos _) (before_succ.mpr ⟨climb, there, tried⟩) rest

theorem plan_of_before (candidates : search.bufferInfoArr.any
      (fun buffer => (search.buffers buffer).poolCandidates.isEmpty) = false)
    (bound : round ≤ maxAttempts) (there : search.before round = some climb) :
    search.plan? = (climb.run search.pools search.buffers search.stdSort search.random
      search.memoryPressure search.tries (maxAttempts - round) round).map
        Climb.resultPoolAllocations := by
  induction round generalizing climb with
  | zero =>
    obtain rfl := Option.some.inj there
    rw [plan?, hillClimb, if_neg (by rw [candidates]; exact Bool.false_ne_true)]
    rfl
  | succ round ih =>
    obtain ⟨earlier, start, tried⟩ := before_succ.mp there
    rw [ih (Nat.le_of_succ_le bound) start]
    obtain ⟨remaining, left⟩ := Nat.exists_eq_add_of_lt bound
    have here : maxAttempts - round = remaining + 1 := by omega
    have next : maxAttempts - (round + 1) = remaining := by omega
    have went : earlier.attempt search.pools search.buffers search.stdSort search.random
        search.memoryPressure search.tries round = some (.next climb) := tried
    rw [here, next, Climb.run, went, Option.bind_eq_bind, Option.bind_some]

theorem plan_last {plan : Plan β γ} (returned : search.plan? = some plan) :
    ∃ final start turn, final < maxAttempts ∧ search.before final = some start ∧
      search.attempt start final = some turn ∧ turn.climb.resultPoolAllocations = plan ∧
        ∀ later < maxAttempts, final < later → search.before later = none := by
  unfold plan? hillClimb at returned
  split at returned
  · cases returned
  · obtain ⟨last, ran, rfl⟩ := Option.map_eq_some_iff.mp returned
    obtain ⟨final, start, turn, bound, there, tried, same, none⟩ :=
      run_ends (Nat.zero_add _) (by decide) rfl ran
    exact ⟨final, start, turn, bound, there, tried, by rw [same], none⟩

theorem Evaluates.unique {first second : UInt64} (evaluated : search.Evaluates round first)
    (again : search.Evaluates round second) : first = second := by
  obtain ⟨-, climb, plan, there, made, rfl⟩ := evaluated
  obtain ⟨-, sameClimb, samePlan, thereAgain, madeAgain, rfl⟩ := again
  obtain rfl := Option.some.inj (there.symm.trans thereAgain)
  obtain rfl := Option.some.inj (made.symm.trans madeAgain)
  rfl

/-- Behind `round` attempts the kept plan is that of the attempt `taken`.  It is the best one
from the attempt `since` on, which is the first one or has taken a worse plan. -/
structure Keeps (search : Search β γ) (round taken since : Nat) (size : UInt64)
    (plan : Plan β γ) : Prop where
  taken_lt : taken < round
  made : ∃ climb, search.before taken = some climb ∧ search.planned climb = some plan
  evaluated : search.Evaluates taken size
  total : search.total plan = size
  last : ∀ other < round, search.TakesWorse other → other ≤ taken
  since_lt : since < round
  worse : since = 0 ∨ search.TakesWorse since
  best : ∀ other < round, since ≤ other → ∀ otherSize, search.Evaluates other otherSize →
    size ≤ otherSize

theorem Keeps.restart {plan : Plan β γ} {size : UInt64}
    (made : ∃ climb, search.before round = some climb ∧ search.planned climb = some plan)
    (evaluated : search.Evaluates round size) (total : search.total plan = size) (worse : round = 0 ∨ search.TakesWorse round) :
    Keeps search (round + 1) round round size plan where
  taken_lt := Nat.lt_succ_self round
  made := made
  evaluated := evaluated
  total := total
  last other bound _ := Nat.le_of_lt_succ bound
  since_lt := Nat.lt_succ_self round
  worse := worse
  best other bound since otherSize otherEvaluated := by
    obtain rfl := Nat.le_antisymm (Nat.le_of_lt_succ bound) since
    rw [evaluated.unique otherEvaluated]
    exact UInt64.le_refl _

variable {taken since : Nat} {size : UInt64} {plan : Plan β γ}

theorem Keeps.improve (keeps : Keeps search round taken since size plan) {better : UInt64}
    {new : Plan β γ}
    (made : ∃ climb, search.before round = some climb ∧ search.planned climb = some new)
    (evaluated : search.Evaluates round better) (total : search.total new = better) (le : better ≤ size) :
    Keeps search (round + 1) round since better new where
  taken_lt := Nat.lt_succ_self round
  made := made
  evaluated := evaluated
  total := total
  last other bound _ := Nat.le_of_lt_succ bound
  since_lt := Nat.lt_succ_of_lt keeps.since_lt
  worse := keeps.worse
  best other bound later otherSize otherEvaluated := by
    rcases Nat.lt_or_eq_of_le (Nat.le_of_lt_succ bound) with earlier | rfl
    · exact UInt64.le_trans le (keeps.best other earlier later otherSize otherEvaluated)
    · rw [evaluated.unique otherEvaluated]
      exact UInt64.le_refl _

theorem Keeps.reject (keeps : Keeps search round taken since size plan) {other : UInt64}
    (evaluated : search.Evaluates round other) (le : size ≤ other)
    (refused : ¬search.TakesWorse round) :
    Keeps search (round + 1) taken since size plan where
  taken_lt := Nat.lt_succ_of_lt keeps.taken_lt
  made := keeps.made
  evaluated := keeps.evaluated
  total := keeps.total
  last other bound worse := by
    rcases Nat.lt_or_eq_of_le (Nat.le_of_lt_succ bound) with earlier | rfl
    · exact keeps.last other earlier worse
    · exact absurd worse refused
  since_lt := Nat.lt_succ_of_lt keeps.since_lt
  worse := keeps.worse
  best index bound later otherSize otherEvaluated := by
    rcases Nat.lt_or_eq_of_le (Nat.le_of_lt_succ bound) with earlier | rfl
    · exact keeps.best index earlier later otherSize otherEvaluated
    · rw [← evaluated.unique otherEvaluated]
      exact le

theorem keeps_attempt (bound : round < maxAttempts) (there : search.before round = some climb)
    (keeps : round = 0 ∧ climb.totalSize = 0 ∨
      ∃ taken since, Keeps search round taken since climb.totalSize climb.resultPoolAllocations)
    (done : search.attempt climb round = some turn) :
    ∃ taken since, Keeps search (round + 1) taken since turn.climb.totalSize
      turn.climb.resultPoolAllocations := by
  obtain ⟨-, plan, made, outcome⟩ := attempt_spec (before_perm there) done
  have evaluated : search.Evaluates round (search.total plan) :=
    ⟨bound, climb, plan, there, made, rfl⟩
  have new : ∃ climb, search.before round = some climb ∧ search.planned climb = some plan :=
    ⟨climb, there, made⟩
  rcases outcome with ⟨drawn, accepted, size, result⟩ | ⟨drawn, rejected, size, result⟩
  · rw [size, result]
    rcases keeps with ⟨first, -⟩ | ⟨taken, since, keeps⟩
    · exact ⟨round, round, .restart new evaluated rfl (.inl first)⟩
    · by_cases worse : climb.totalSize < search.total plan
      · have later : 0 < round := Nat.zero_lt_of_lt keeps.taken_lt
        exact ⟨round, round, .restart new evaluated rfl
          (.inr ⟨bound, later, climb, plan, drawn, there, made, worse, accepted⟩)⟩
      · exact ⟨round, since, keeps.improve new evaluated rfl (UInt64.not_lt.mp worse)⟩
  · rw [size, result]
    rcases keeps with ⟨-, zero⟩ | ⟨taken, since, keeps⟩
    · exact absurd zero (accepts_false rejected)
    · refine ⟨taken, since, keeps.reject evaluated (UInt64.not_lt.mp (accepts_reject rejected)) ?_⟩
      rintro ⟨-, -, again, samePlan, drawnAgain, thereAgain, madeAgain, worse, accepted⟩
      obtain rfl := Option.some.inj (there.symm.trans thereAgain)
      obtain rfl := Option.some.inj (made.symm.trans madeAgain)
      cases rejected.symm.trans accepted

theorem keeps_before (bound : round ≤ maxAttempts) (there : search.before round = some climb) :
    round = 0 ∧ climb.totalSize = 0 ∨
      ∃ taken since, Keeps search round taken since climb.totalSize
        climb.resultPoolAllocations := by
  induction round generalizing climb with
  | zero =>
    obtain rfl := Option.some.inj there
    exact .inl ⟨rfl, rfl⟩
  | succ round ih =>
    obtain ⟨earlier, start, tried⟩ := before_succ.mp there
    exact .inr (keeps_attempt bound start (ih (Nat.le_of_succ_le bound) start) tried)

theorem TakesWorse.begins (takes : search.TakesWorse round) :
    round < maxAttempts ∧ (search.before round).isSome := by
  obtain ⟨bound, -, climb, -, -, there, -⟩ := takes
  exact ⟨bound, Option.isSome_iff_exists.mpr ⟨climb, there⟩⟩

theorem planned_of_returned {plan : Plan β γ} (returned : search.plan? = some plan) :
    ∃ taken < maxAttempts, ∃ climb, search.before taken = some climb ∧
      search.planned climb = some plan := by
  obtain ⟨final, start, turn, bound, there, tried, rfl, -⟩ := plan_last returned
  obtain ⟨taken, since, keeps⟩ := keeps_attempt bound there (keeps_before bound.le there) tried
  exact ⟨taken, keeps.evaluated.1, keeps.made⟩

theorem TakesWorse.forgets (takes : search.TakesWorse round) :
    ∃ size, search.Evaluates round size ∧
      ∃ earlier < round, ∃ better < size, search.Evaluates earlier better := by
  obtain ⟨bound, later, climb, plan, -, there, made, worse, -⟩ := takes
  refine ⟨_, ⟨bound, climb, plan, there, made, rfl⟩, ?_⟩
  rcases keeps_before bound.le there with ⟨first, -⟩ | ⟨taken, since, keeps⟩
  · exact absurd first later.ne'
  · exact ⟨taken, keeps.taken_lt, _, worse, keeps.evaluated⟩

/-- Whatever the random numbers: the plan that is returned is the best one that has been
evaluated, if and only if after each attempt that takes a worse plan some attempt makes a plan
that is as good as all those before. -/
theorem hillClimb_best_iff (search : Search β γ) (plan : Plan β γ)
    (returned : search.plan? = some plan) :
    (∀ round size, search.Evaluates round size → search.total plan ≤ size) ↔
      ∀ round, search.TakesWorse round → ∃ later size, round < later ∧
        search.Evaluates later size ∧
          ∀ earlier < round, ∀ other, search.Evaluates earlier other → size ≤ other := by
  obtain ⟨final, start, turn, bound, there, tried, rfl, none⟩ := plan_last returned
  obtain ⟨taken, since, keeps⟩ := keeps_attempt bound there (keeps_before bound.le there) tried
  have within : ∀ round, round < maxAttempts → (search.before round).isSome →
      round < final + 1 := by
    intro round small begins
    by_contra behind
    rw [none round small (by omega)] at begins
    cases begins
  have evaluated : ∀ {round size}, search.Evaluates round size → round < final + 1 := by
    rintro round size ⟨small, climb, -, begins, -⟩
    exact within round small (by rw [begins]; rfl)
  rw [keeps.total]
  constructor
  · intro best round takes
    have before := keeps.last round (within round takes.begins.1 takes.begins.2) takes
    refine ⟨taken, _, lt_of_le_of_ne before ?_, keeps.evaluated, ?_⟩
    · rintro rfl
      obtain ⟨size, here, earlier, -, better, less, evaluatedEarlier⟩ := takes.forgets
      rw [here.unique keeps.evaluated] at less
      exact UInt64.not_lt.mpr (best earlier better evaluatedEarlier) less
    · intro earlier _ other evaluatedEarlier
      exact best earlier other evaluatedEarlier
  · intro recovers round size evaluatedRound
    by_cases later : since ≤ round
    · exact keeps.best round (evaluated evaluatedRound) later size evaluatedRound
    · rcases keeps.worse with zero | takes
      · omega
      · obtain ⟨recovery, good, behind, evaluatedGood, le⟩ := recovers since takes
        have kept := keeps.best recovery (evaluated evaluatedGood) behind.le good evaluatedGood
        exact UInt64.le_trans kept (le round (Nat.lt_of_not_le later) size evaluatedRound)

end Search

/-- Four buffers; the third one is used together with the last one only. -/
def fourBuffers : Fin 4 → BufferInfo (Fin 4) Unit :=
  ![⟨"a", 5, [()], 1, numbered [1, 3]⟩, ⟨"b", 5, [()], 1, numbered [0, 3]⟩,
    ⟨"c", 6, [()], 1, numbered [3]⟩, ⟨"d", 6, [()], 1, numbered [0, 1, 2]⟩]

def fewRandom (index : Nat) : Nat := [99, 1, 0, 30, 0, 99, 1, 99].getD index 31

theorem fewRandom_late {index : Nat} (late : 8 ≤ index) : fewRandom index = 31 :=
  List.getD_eq_default _ _ late

def fourSearch : Search (Fin 4) Unit where
  pools := unrestrictedPool
  buffers := fourBuffers
  stdSort := insertionSort (Fin 4)
  random := fewRandom
  memoryPressure := 0
  tries := 5
  bufferInfoArr := numbered [0, 1, 2, 3]

def fourPlan (a b c d : Int64) : Plan (Fin 4) Unit :=
  ![some ⟨(), a⟩, some ⟨(), b⟩, some ⟨(), c⟩, some ⟨(), d⟩]

def fourPositions (a b c d : Int) : Fin 4 → Option Int := ![some a, some b, some c, some d]

/-- The state in which the search stays for good. -/
def stuckClimb (drawn : Nat) : Climb (Fin 4) Unit where
  bufferInfoVec := numbered [1, 3, 2, 0]
  posMap := fourPositions 3 0 2 1
  totalSize := 17
  swapI1 := 2
  swapI2 := 1
  resultPoolAllocations := fourPlan 12 0 0 6
  poolAllocations := fourPlan 12 0 0 6
  drawn := drawn

theorem accepts_same {random : Nat → Nat} {attempts : Nat} {size : UInt64} {drawn : Nat}
    (nonzero : size ≠ 0) (some_attempts : UInt64.ofNat attempts ≠ 0) :
    accepts random attempts size size drawn = some (false, drawn + 1) := by
  have notLess : ¬size < size := UInt64.lt_irrefl size
  have chance : (50 * (size - size) / size / UInt64.ofNat attempts).toUInt32.toInt32 = 0 := by
    rw [UInt64.sub_self, UInt64.mul_zero, UInt64.zero_div, UInt64.zero_div]
    rfl
  have never : ¬((random drawn % 100 : Nat) : Int) < (0 : Int32).toInt :=
    Int.not_lt.mpr (Int.natCast_nonneg _)
  simp only [accepts, nonzero, some_attempts, notLess, chance, never, or_self, if_false, decide_false]

def rolledClimb (drawn : Nat) : Climb (Fin 4) Unit :=
  { stuckClimb drawn with
    bufferInfoVec := numbered [1, 2, 3, 0]
    posMap := fourPositions 3 0 1 2 }

theorem stuck_rolls (drawn : Nat) :
    (stuckClimb drawn).swapBuffers 1 2 = some (rolledClimb drawn) := by
  have positions : Function.update (Function.update (fourPositions 3 0 2 1) 3 (some 2)) 2 (some 1) =
      fourPositions 3 0 1 2 := by decide
  rw [rolledClimb, ← positions]
  rfl

theorem rolled_shuffle {drawn : Nat} (late : 8 ≤ drawn) :
    (rolledClimb drawn).shuffle fourBuffers (insertionSort (Fin 4)) fewRandom 5 =
      some (stuckClimb (drawn + 4)) := by
  have positions : Function.update (Function.update (fourPositions 3 0 1 2) 3 (some 1)) 2 (some 2) =
      fourPositions 3 0 2 1 := by decide
  have highest : (insertionSort (Fin 4)).sort
      (fun a b => decide ((fourPositions 3 0 1 2 a).getD (-1) < (fourPositions 3 0 1 2 b).getD (-1)))
      (((entries (numbered [1, 2, 3, 0]) (fourPlan 12 0 0 6)).filter fun entry =>
        findHighest fourBuffers (entries (numbered [1, 2, 3, 0]) (fourPlan 12 0 0 6)) entry.2.poolInfo =
          highSize fourBuffers entry).map Prod.fst) = [0] := by decide +kernel
  have neighbours : collectNeighborLists fourBuffers (fourPositions 3 0 1 2) 0 =
      some ([1, 3], [1, 2]) := by decide +kernel
  have sortFirst : (insertionSort (Fin 4)).sort
      (fun a b => decide ((fourPositions 3 0 1 2 a).getD (-1) < (fourPositions 3 0 1 2 b).getD (-1)))
      [1, 3] = [1, 3] := by decide +kernel
  have sortSecond : (insertionSort (Fin 4)).sort
      (fun a b => decide ((fourPositions 3 0 1 2 a).getD (-1) < (fourPositions 3 0 1 2 b).getD (-1)))
      [1, 2] = [1, 2] := by decide +kernel
  have drawNode : draw fewRandom ([0] : List (Fin 4)) drawn = some 0 := by
    rw [draw, fewRandom_late late]
    rfl
  have drawFirst : draw fewRandom ([1, 3] : List (Fin 4)) (drawn + 1) = some 3 := by
    rw [draw, fewRandom_late (by omega)]
    rfl
  have pick : pickOther fewRandom ([1, 3] : List (Fin 4)) [1, 2] 3 5 (drawn + 2) =
      some (2, drawn + 4) := by
    simp [pickOther, draw, fewRandom_late (show 8 ≤ drawn + 2 by omega),
      fewRandom_late (show 8 ≤ drawn + 2 + 1 by omega)]
  unfold Climb.shuffle
  dsimp only [rolledClimb, stuckClimb]
  rw [highest, drawNode, Option.bind_eq_bind, Option.bind_some, neighbours, Option.bind_eq_bind,
    Option.bind_some]
  dsimp only
  rw [sortFirst, sortSecond, if_neg (by decide), drawFirst, Option.bind_eq_bind, Option.bind_some,
    pick, Option.bind_eq_bind, Option.bind_some, ← positions]
  rfl

theorem stuck_attempt {attempts drawn : Nat} (some_attempts : UInt64.ofNat attempts ≠ 0)
    (late : 8 ≤ drawn) :
    fourSearch.attempt (stuckClimb drawn) attempts = some (.next (stuckClimb (drawn + 5))) := by
  have planned : greedy unrestrictedPool fourBuffers (insertionSort (Fin 4))
      (numbered [1, 3, 2, 0]) = some (fourPlan 11 0 11 5) := by decide +kernel
  have size : totalOf fourBuffers (entries (numbered [1, 3, 2, 0]) (fourPlan 11 0 11 5)) = 17 := by
    decide +kernel
  have rejected : accepts fewRandom attempts 17 17 drawn = some (false, drawn + 1) :=
    accepts_same (by decide) some_attempts
  have judged : (stuckClimb drawn).judge unrestrictedPool fourBuffers (insertionSort (Fin 4))
      fewRandom 0 attempts = some (.next (rolledClimb (drawn + 1))) := by
    rw [Climb.judge, Option.bind_eq_bind]
    dsimp only [stuckClimb]
    rw [planned, Option.bind_some, size, Option.bind_eq_bind, rejected, Option.bind_some,
      if_neg Bool.false_ne_true]
    have rolls := stuck_rolls (drawn + 1)
    rw [stuckClimb] at rolls
    rw [rolls]
    rfl
  rw [Search.attempt, Climb.attempt]
  dsimp only [fourSearch]
  rw [judged, Option.bind_eq_bind, Option.bind_some]
  dsimp only
  rw [rolled_shuffle (by omega)]
  rfl

theorem stuck_run {remaining attempts drawn : Nat} (some_attempts : 0 < attempts)
    (bound : attempts + remaining ≤ maxAttempts) (late : 8 ≤ drawn) :
    ((stuckClimb drawn).run fourSearch.pools fourSearch.buffers fourSearch.stdSort
      fourSearch.random fourSearch.memoryPressure fourSearch.tries remaining attempts).map
        Climb.resultPoolAllocations = some (fourPlan 12 0 0 6) := by
  induction remaining generalizing attempts drawn with
  | zero => rfl
  | succ remaining ih =>
    have small : maxAttempts < UInt64.size := by decide
    have nonzero : UInt64.ofNat attempts ≠ 0 := by
      intro zero
      have value := congrArg UInt64.toNat zero
      rw [UInt64.toNat_ofNat_of_lt' (by omega), UInt64.toNat_zero] at value
      exact absurd value some_attempts.ne'
    have went : (stuckClimb drawn).attempt fourSearch.pools fourSearch.buffers fourSearch.stdSort
        fourSearch.random fourSearch.memoryPressure fourSearch.tries attempts =
          some (.next (stuckClimb (drawn + 5))) := stuck_attempt nonzero late
    rw [Climb.run, went, Option.bind_eq_bind, Option.bind_some]
    exact ih (Nat.succ_pos _) (by omega) (by omega)

theorem stuck_before : fourSearch.before 2 = some (stuckClimb 9) := by
  have orders : (fourSearch.before 2).map (fun climb =>
      (climb.bufferInfoVec, climb.posMap, climb.totalSize, climb.drawn)) =
        some (numbered [1, 3, 2, 0], fourPositions 3 0 2 1, 17, 9) := by decide +kernel
  have swaps : (fourSearch.before 2).map (fun climb => (climb.swapI1, climb.swapI2)) =
      some (2, 1) := by decide +kernel
  have kept : (fourSearch.before 2).map Climb.resultPoolAllocations =
      some (fourPlan 12 0 0 6) := by decide +kernel
  have current : (fourSearch.before 2).map Climb.poolAllocations =
      some (fourPlan 12 0 0 6) := by decide +kernel
  obtain ⟨climb, there, order⟩ := Option.map_eq_some_iff.mp orders
  rw [there, Option.map_some, Option.some_inj] at swaps kept current
  rw [there]
  cases climb
  simp only [Prod.mk.injEq] at order swaps
  obtain ⟨rfl, rfl, rfl, rfl⟩ := order
  obtain ⟨rfl, rfl⟩ := swaps
  dsimp only at kept current
  rw [kept, current]
  rfl

theorem four_returned : fourSearch.plan? = some (fourPlan 12 0 0 6) := by
  rw [Search.plan_of_before (by decide) (by decide) stuck_before]
  exact stuck_run (by decide) (by decide) (by decide)

/-- The first plan, of 16 bytes, is lost. -/
theorem hillClimb_loses_best :
    ¬∀ (search : Search (Fin 4) Unit) plan, search.plan? = some plan →
      ∀ round size, search.Evaluates round size → search.total plan ≤ size := by
  intro best
  have first : ((fourSearch.before 0).bind fourSearch.planned).map fourSearch.total =
      some 16 := by decide +kernel
  obtain ⟨plan, made, size⟩ := Option.map_eq_some_iff.mp first
  obtain ⟨climb, there, planned⟩ := Option.bind_eq_some_iff.mp made
  have le := best fourSearch _ four_returned 0 16 ⟨by decide, climb, plan, there, planned, size⟩
  have last : fourSearch.total (fourPlan 12 0 0 6) = 17 := by decide +kernel
  rw [last] at le
  exact absurd le (by decide)

/-- The search of the four buffers, compared. -/
theorem hillClimb_best_iff_four :
    (∀ round size, fourSearch.Evaluates round size →
        fourSearch.total (fourPlan 12 0 0 6) ≤ size) ↔
      ∀ round, fourSearch.TakesWorse round → ∃ later size, round < later ∧
        fourSearch.Evaluates later size ∧
          ∀ earlier < round, ∀ other, fourSearch.Evaluates earlier other → size ≤ other :=
  Search.hillClimb_best_iff fourSearch _ four_returned

end Tvm.Usmp
