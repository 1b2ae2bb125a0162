import Tvm.Pipeline.Executor

/-!
# Rounds of the pipeline

Where every thread is determines how often each of its queues has been pushed into and polled.  A
queue holds what has been pushed and not polled, and the tensor that is pushed as the `k`-th is the
one that the modules compute of the `k`-th inputs.
-/

namespace Tvm.Pipeline

section Trace

variable {α : Type} {trace : List (Event α)} {t t' : Interface} {i i' : Nat} {data : α}
  {found : Nat → α} {set : List (Nat × α)}

theorem pushes_pushed : pushes t (trace ++ [.pushed t' data]) =
    if t' = t then pushes t trace ++ [data] else pushes t trace := by
  rw [pushes, List.filterMap_append]
  split <;> simp_all [pushes]

@[simp] theorem pushes_polled : pushes t (trace ++ [.polled t' data]) = pushes t trace := by
  simp [pushes]

@[simp] theorem pushes_ran : pushes t (trace ++ [.ran i found]) = pushes t trace := by
  simp [pushes]

@[simp] theorem pushes_obtained : pushes t (trace ++ [.obtained set]) = pushes t trace := by
  simp [pushes]

theorem polls_polled : polls t (trace ++ [.polled t' data]) =
    if t' = t then polls t trace ++ [data] else polls t trace := by
  rw [polls, List.filterMap_append]
  split <;> simp_all [polls]

@[simp] theorem polls_pushed : polls t (trace ++ [.pushed t' data]) = polls t trace := by
  simp [polls]

@[simp] theorem polls_ran : polls t (trace ++ [.ran i found]) = polls t trace := by
  simp [polls]

@[simp] theorem polls_obtained : polls t (trace ++ [.obtained set]) = polls t trace := by
  simp [polls]

theorem runsOf_ran : runsOf i (trace ++ [.ran i' found]) =
    if i' = i then runsOf i trace ++ [found] else runsOf i trace := by
  rw [runsOf, List.filterMap_append]
  split <;> simp_all [runsOf]

@[simp] theorem runsOf_pushed : runsOf i (trace ++ [.pushed t data]) = runsOf i trace := by
  simp [runsOf]

@[simp] theorem runsOf_polled : runsOf i (trace ++ [.polled t data]) = runsOf i trace := by
  simp [runsOf]

@[simp] theorem runsOf_obtained : runsOf i (trace ++ [.obtained set]) = runsOf i trace := by
  simp [runsOf]

@[simp] theorem obtained_obtained :
    obtained (trace ++ [.obtained set]) = obtained trace ++ [set] := by
  simp [obtained]

@[simp] theorem obtained_pushed : obtained (trace ++ [.pushed t data]) = obtained trace := by
  simp [obtained]

@[simp] theorem obtained_polled : obtained (trace ++ [.polled t data]) = obtained trace := by
  simp [obtained]

@[simp] theorem obtained_ran : obtained (trace ++ [.ran i found]) = obtained trace := by
  simp [obtained]

theorem getElem?_append_singleton {β : Type} {l : List β} {a b : β} {k : Nat}
    (found : (l ++ [a])[k]? = some b) : l[k]? = some b ∨ k = l.length ∧ b = a := by
  rcases Nat.lt_trichotomy k l.length with before | last | after
  · rw [List.getElem?_append_left before] at found
    exact Or.inl found
  · subst last
    rw [List.getElem?_append_right le_rfl, Nat.sub_self] at found
    cases found
    exact Or.inr ⟨rfl, rfl⟩
  · rw [List.getElem?_eq_none (by rw [List.length_append]; exact after)] at found
    cases found

end Trace

section Invariant

variable {α : Type} (w : Wiring) (modules : Nat → (Nat → α) → Nat → α) (inputs : Nat → Nat → α)
  (base : Interface → α)

def expected (k : Nat) (t : Interface) : α :=
  w.sequential modules base (inputs k) t

/-- The queues hold what has not been polled, and every push is that of its round. -/
structure Channels (trace : List (Event α)) (queue : Interface → SPSCLockFreeQueue α) : Prop where
  queues : ∀ t, ∃ content, (queue t).Holds content ∧ pushes t trace = polls t trace ++ content
  pushed : ∀ t k v, (pushes t trace)[k]? = some v → v = expected w modules inputs base k t

/-- A module waits for the inputs of its next run, except those that have been loaded. -/
def LoadingAt (trace : List (Event α)) (input : Interface → α) (i : Nat) (notifys : List Nat) :
    Prop :=
  (∃ loaded, (w.parentsNotify (some i)).Perm (loaded ++ notifys) ∧
    (∀ j ∈ loaded, j ∈ w.inputQueue (some i) ∧
      (polls (.input i j) trace).length = (runsOf i trace).length + 1 ∧
      input (.input i j) = expected w modules inputs base (runsOf i trace).length (.input i j)) ∧
    ∀ j ∈ w.inputQueue (some i), j ∉ loaded →
      (polls (.input i j) trace).length = (runsOf i trace).length) ∧
  ∀ t ∈ w.targets i, (pushes t.2 trace).length = (runsOf i trace).length

/-- A module forwards the outputs of its last run. -/
def ForwardingAt (trace : List (Event α)) (i : Nat) (pending : List (Interface × α)) : Prop :=
  (∀ j ∈ w.inputQueue (some i), (polls (.input i j) trace).length = (runsOf i trace).length) ∧
  ∃ sent todo, w.targets i = sent ++ todo ∧
    pending = todo.map (fun t =>
      (t.2, expected w modules inputs base ((runsOf i trace).length - 1) t.2)) ∧
    (∀ t ∈ sent, (pushes t.2 trace).length = (runsOf i trace).length) ∧
    ∀ t ∈ todo, (pushes t.2 trace).length + 1 = (runsOf i trace).length

def ModuleAt (trace : List (Event α)) (input : Interface → α) (i : Nat) : Phase α → Prop
  | .loading notifys => LoadingAt w modules inputs base trace input i notifys
  | .polling key notifys | .waiting key notifys =>
    LoadingAt w modules inputs base trace input i (key :: notifys)
  | .forwarding pending => ForwardingAt w modules inputs base trace i pending
  | .notifying t pending =>
    ForwardingAt w modules inputs base trace i pending ∧ ∃ o, (o, t) ∈ w.targets i

/-- What is left to do with an input of the pipeline in this round. -/
def remaining (caller : Caller α) (unset : List Nat) (g : Nat) : List (Nat × Nat) :=
  if g ∈ unset then w.globalChildren g
  else
    match caller with
    | .setting g' pending | .notifying _ g' pending => if g' = g then pending else []
    | _ => []

/-- The inputs of the modules that an input of the pipeline has reached in this round. -/
def GlobalAt (trace : List (Event α)) (st : State α) (g : Nat) : Prop :=
  ∃ reached, w.globalChildren g = reached ++ remaining w st.caller st.unset g ∧
    (∀ child ∈ reached,
      if child.1 = 0 then st.input (.input child.1 child.2) = inputs st.round g
      else (pushes (.input child.1 child.2) trace).length = st.round + 1) ∧
    ∀ child ∈ remaining w st.caller st.unset g, child.1 ≠ 0 →
      (pushes (.input child.1 child.2) trace).length = st.round

def CallerAt (st : State α) : Prop :=
  match st.caller with
  | .setting g _ => g < w.globalInputs ∧ g ∉ st.unset
  | .notifying t g _ => g < w.globalInputs ∧ g ∉ st.unset ∧ (Source.global g, t) ∈ w.edges ∧
      Wiring.queued (Source.global g, t) = true
  | .idle | .fetching _ _ => True

/-- What has been polled of the outputs of the pipeline. -/
def FetchAt (trace : List (Event α)) (queue : Interface → SPSCLockFreeQueue α) :
    Caller α → Prop
  | .fetching pending outputs => ∃ got, w.inputQueue none = got ++ pending ∧
      outputs = got.map (fun g =>
        (g, expected w modules inputs base (obtained trace).length (.output g))) ∧
      (∀ g ∈ got, (polls (.output g) trace).length = (obtained trace).length + 1) ∧
      ∀ g ∈ pending, (polls (.output g) trace).length = (obtained trace).length ∧
        (queue (.output g)).empty = false
  | _ => ∀ g ∈ w.inputQueue none, (polls (.output g) trace).length = (obtained trace).length

structure Invariant (trace : List (Event α)) (st : State α) : Prop where
  initializes : w.Initializes
  channels : Channels w modules inputs base trace st.queue
  ran : ∀ i k found, (runsOf i trace)[k]? = some found →
    found = fun j => expected w modules inputs base k (.input i j)
  outputs : ∀ k set, (obtained trace)[k]? = some set →
    set = (w.inputQueue none).map fun g => (g, expected w modules inputs base k (.output g))
  unfed : ∀ t, (∀ s, (s, t) ∉ w.edges) → st.input t = base t
  threads : ∀ i < w.runtimes, ModuleAt w modules inputs base trace st.input i (st.phase i)
  round : st.round = (runsOf 0 trace).length
  globals : ∀ g < w.globalInputs, GlobalAt w inputs trace st g
  unset : st.unset.Nodup ∧ ∀ g ∈ st.unset, g < w.globalInputs
  caller : CallerAt w st
  fetch : FetchAt w modules inputs base trace st.queue st.caller

section Channels

variable {w modules inputs base} {trace : List (Event α)}
  {queue : Interface → SPSCLockFreeQueue α} {t : Interface} {data : α} {q : SPSCLockFreeQueue α}

theorem push_full (pushed : (queue t).push data = some q) : (queue t).full = false := by
  rw [SPSCLockFreeQueue.push] at pushed
  cases isFull : (queue t).full with
  | false => rfl
  | true =>
    rw [isFull, if_pos rfl] at pushed
    cases pushed

theorem Channels.push (channels : Channels w modules inputs base trace queue)
    (isNext : data = expected w modules inputs base (pushes t trace).length t)
    (pushed : (queue t).push data = some q) :
    Channels w modules inputs base (trace ++ [.pushed t data]) (Function.update queue t q) where
  queues := by
    intro t'
    obtain ⟨content, holds, same⟩ := channels.queues t'
    rw [pushes_pushed, polls_pushed]
    by_cases isTarget : t = t'
    · subst isTarget
      obtain ⟨next, isPush, holds'⟩ := holds.push (push_full pushed) data
      cases pushed.symm.trans isPush
      refine ⟨content ++ [data], ?_, ?_⟩
      · rw [Function.update_self]
        exact holds'
      · rw [if_pos rfl, same, List.append_assoc]
    · refine ⟨content, ?_, ?_⟩
      · rw [Function.update_of_ne (Ne.symm isTarget)]
        exact holds
      · rw [if_neg isTarget]
        exact same
  pushed := by
    intro t' k v found
    rw [pushes_pushed] at found
    split at found
    · rename_i isTarget
      subst isTarget
      rcases getElem?_append_singleton found with earlier | ⟨rfl, rfl⟩
      · exact channels.pushed t k v earlier
      · exact isNext
    · exact channels.pushed t' k v found

theorem Channels.poll (channels : Channels w modules inputs base trace queue)
    (polled : (queue t).poll = some (some data, q)) :
    Channels w modules inputs base (trace ++ [.polled t data]) (Function.update queue t q) ∧
      data = expected w modules inputs base (polls t trace).length t := by
  obtain ⟨content, holds, same⟩ := channels.queues t
  cases content with
  | nil =>
    rw [holds.poll_nil] at polled
    cases polled
  | cons first rest =>
    obtain ⟨next, isPoll, holds'⟩ := holds.poll
    cases polled.symm.trans isPoll
    refine ⟨⟨fun t' => ?_, fun t' k v found => ?_⟩, ?_⟩
    · obtain ⟨content', holds'', same'⟩ := channels.queues t'
      rw [pushes_polled, polls_polled]
      by_cases isSource : t = t'
      · subst isSource
        refine ⟨rest, ?_, ?_⟩
        · rw [Function.update_self]
          exact holds'
        · rw [if_pos rfl, same, List.append_assoc]
          rfl
      · refine ⟨content', ?_, ?_⟩
        · rw [Function.update_of_ne (Ne.symm isSource)]
          exact holds''
        · rw [if_neg isSource]
          exact same'
    · rw [pushes_polled] at found
      exact channels.pushed t' k v found
    · apply channels.pushed
      rw [same, List.getElem?_append_right le_rfl, Nat.sub_self]
      rfl

theorem Channels.poll_some (channels : Channels w modules inputs base trace queue)
    (polled : (queue t).poll = some (none, q)) : False := by
  obtain ⟨content, holds, -⟩ := channels.queues t
  cases content with
  | nil =>
    rw [holds.poll_nil] at polled
    cases polled
  | cons first rest =>
    obtain ⟨next, isPoll, -⟩ := holds.poll
    rw [isPoll] at polled
    cases polled

theorem Channels.other {trace' : List (Event α)}
    (channels : Channels w modules inputs base trace queue)
    (samePushes : ∀ t, pushes t trace' = pushes t trace)
    (samePolls : ∀ t, polls t trace' = polls t trace) :
    Channels w modules inputs base trace' queue where
  queues := by
    intro t
    rw [samePushes, samePolls]
    exact channels.queues t
  pushed := by
    intro t k v found
    rw [samePushes] at found
    exact channels.pushed t k v found

theorem push_empty {content : List α} (holds : (queue t).Holds content)
    (pushed : (queue t).push data = some q) : q.empty = false := by
  obtain ⟨next, isPush, holds'⟩ := holds.push (push_full pushed) data
  cases pushed.symm.trans isPush
  rw [← Bool.not_eq_true, holds'.empty_iff]
  exact List.append_ne_nil_of_right_ne_nil _ (List.cons_ne_nil _ _)

end Channels

section Frames

variable {w modules inputs base} {trace trace' : List (Event α)} {i : Nat}

/-- What the place of a module says about stays the same. -/
structure Unconcerned (trace trace' : List (Event α)) (input input' : Interface → α) (i : Nat) :
    Prop where
  runs : (runsOf i trace').length = (runsOf i trace).length
  polls : ∀ j ∈ w.inputQueue (some i),
    (polls (.input i j) trace').length = (polls (.input i j) trace).length
  pushes : ∀ t ∈ w.targets i, (pushes t.2 trace').length = (pushes t.2 trace).length
  input : ∀ j ∈ w.inputQueue (some i), input' (.input i j) = input (.input i j)

theorem LoadingAt.keep {input input' : Interface → α} {notifys : List Nat}
    (loading : LoadingAt w modules inputs base trace input i notifys)
    (same : Unconcerned (w := w) trace trace' input input' i) :
    LoadingAt w modules inputs base trace' input' i notifys := by
  obtain ⟨⟨loaded, perm, done, missing⟩, sent⟩ := loading
  refine ⟨⟨loaded, perm, fun j member => ?_, fun j isQueue notLoaded => ?_⟩, fun t member => ?_⟩
  · obtain ⟨isQueue, count, value⟩ := done j member
    rw [same.runs, same.polls j isQueue, same.input j isQueue]
    exact ⟨isQueue, count, value⟩
  · rw [same.runs, same.polls j isQueue]
    exact missing j isQueue notLoaded
  · rw [same.runs, same.pushes t member]
    exact sent t member

theorem ForwardingAt.keep {input input' : Interface → α} {pending : List (Interface × α)}
    (forwarding : ForwardingAt w modules inputs base trace i pending)
    (same : Unconcerned (w := w) trace trace' input input' i) :
    ForwardingAt w modules inputs base trace' i pending := by
  obtain ⟨polled, sent, todo, split, values, counted, missing⟩ := forwarding
  have ofSent (t : Nat × Interface) (member : t ∈ sent) : t ∈ w.targets i := by
    rw [split]
    exact List.mem_append_left _ member
  have ofTodo (t : Nat × Interface) (member : t ∈ todo) : t ∈ w.targets i := by
    rw [split]
    exact List.mem_append_right _ member
  refine ⟨fun j isQueue => ?_, sent, todo, split, ?_, fun t member => ?_, fun t member => ?_⟩
  · rw [same.runs, same.polls j isQueue]
    exact polled j isQueue
  · rw [same.runs]
    exact values
  · rw [same.runs, same.pushes t (ofSent t member)]
    exact counted t member
  · rw [same.runs, same.pushes t (ofTodo t member)]
    exact missing t member

theorem ModuleAt.keep {input input' : Interface → α} {phase : Phase α}
    (module_at : ModuleAt w modules inputs base trace input i phase)
    (same : Unconcerned (w := w) trace trace' input input' i) :
    ModuleAt w modules inputs base trace' input' i phase := by
  cases phase with
  | loading notifys => exact LoadingAt.keep module_at same
  | polling key notifys => exact LoadingAt.keep module_at same
  | waiting key notifys => exact LoadingAt.keep module_at same
  | forwarding pending => exact ForwardingAt.keep module_at same
  | notifying t pending => exact ⟨ForwardingAt.keep module_at.1 same, module_at.2⟩

theorem GlobalAt.keep {st st' : State α} {g : Nat} (global : GlobalAt w inputs trace st g)
    (round : st'.round = st.round)
    (same : remaining w st'.caller st'.unset g = remaining w st.caller st.unset g)
    (pushed : ∀ child ∈ w.globalChildren g, child.1 ≠ 0 →
      (pushes (.input child.1 child.2) trace').length =
        (pushes (.input child.1 child.2) trace).length)
    (input : ∀ child ∈ w.globalChildren g, child.1 = 0 →
      st'.input (.input child.1 child.2) = st.input (.input child.1 child.2)) :
    GlobalAt w inputs trace' st' g := by
  obtain ⟨reached, split, done, todo⟩ := global
  rw [GlobalAt, same, round]
  refine ⟨reached, split, fun child member => ?_, fun child member later => ?_⟩
  · have isChild : child ∈ w.globalChildren g := by
      rw [split]
      exact List.mem_append_left _ member
    have earlier := done child member
    by_cases first : child.1 = 0
    · rw [if_pos first] at earlier ⊢
      rw [input child isChild first]
      exact earlier
    · rw [if_neg first] at earlier ⊢
      rw [pushed child isChild first]
      exact earlier
  · have isChild : child ∈ w.globalChildren g := by
      rw [split]
      exact List.mem_append_right _ member
    rw [pushed child isChild later]
    exact todo child member later

theorem FetchAt.keep {queue queue' : Interface → SPSCLockFreeQueue α} {caller : Caller α}
    (fetch : FetchAt w modules inputs base trace queue caller)
    (obtains : (obtained trace').length = (obtained trace).length)
    (polled : ∀ g, (polls (.output g) trace').length = (polls (.output g) trace).length)
    (same : ∀ g, queue' (.output g) = queue (.output g)) :
    FetchAt w modules inputs base trace' queue' caller := by
  cases caller with
  | fetching pending outputs =>
    obtain ⟨got, split, isOutputs, done, todo⟩ := fetch
    refine ⟨got, split, by rw [obtains]; exact isOutputs, fun g member => ?_, fun g member => ?_⟩
    · rw [obtains, polled]
      exact done g member
    · rw [obtains, polled, same]
      exact todo g member
  | idle =>
    intro g member
    rw [obtains, polled]
    exact fetch g member
  | setting g' pending =>
    intro g member
    rw [obtains, polled]
    exact fetch g member
  | notifying t' g' pending =>
    intro g member
    rw [obtains, polled]
    exact fetch g member

theorem FetchAt.push {queue : Interface → SPSCLockFreeQueue α} {caller : Caller α} {t : Interface}
    {data : α} {q : SPSCLockFreeQueue α} (fetch : FetchAt w modules inputs base trace queue caller)
    (channels : Channels w modules inputs base trace queue)
    (pushed : (queue t).push data = some q) :
    FetchAt w modules inputs base (trace ++ [.pushed t data]) (Function.update queue t q)
      caller := by
  cases caller with
  | fetching pending outputs =>
    obtain ⟨got, split, isOutputs, done, todo⟩ := fetch
    refine ⟨got, split, by simpa using isOutputs, by simpa using done, fun g member => ?_⟩
    obtain ⟨count, nonempty⟩ := todo g member
    refine ⟨by simpa using count, ?_⟩
    by_cases same : Interface.output g = t
    · subst same
      obtain ⟨content, holds, -⟩ := channels.queues (.output g)
      rw [Function.update_self]
      exact push_empty holds pushed
    · rw [Function.update_of_ne same]
      exact nonempty
  | idle => simpa [FetchAt] using fetch
  | setting g pending => simpa [FetchAt] using fetch
  | notifying t' g pending => simpa [FetchAt] using fetch

end Frames

end Invariant

end Tvm.Pipeline
