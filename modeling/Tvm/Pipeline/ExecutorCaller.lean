import Tvm.Pipeline.ExecutorThreads

/-!
# Steps of the caller

The caller sets the inputs of the pipeline, runs the first module and takes sets of outputs; each
step keeps the invariant as long as no input of the pipeline finds its queue full.
-/

namespace Tvm.Pipeline

section Caller

variable {α : Type} {w : Wiring} {modules : Nat → (Nat → α) → Nat → α} {inputs : Nat → Nat → α}
  {base : Interface → α} {trace : List (Event α)} {st : State α} {g : Nat}

theorem remaining_unset {caller : Caller α} {unset : List Nat} (isUnset : g ∈ unset) :
    remaining w caller unset g = w.globalChildren g :=
  if_pos isUnset

theorem remaining_idle {unset : List Nat} (isSet : g ∉ unset) :
    remaining w (.idle : Caller α) unset g = [] :=
  if_neg isSet

theorem remaining_setting {pending : List (Nat × Nat)} {unset : List Nat} (isSet : g ∉ unset) :
    remaining w (.setting g pending : Caller α) unset g = pending :=
  (if_neg isSet).trans (if_pos rfl)

theorem remaining_other {pending : List (Nat × Nat)} {unset : List Nat} {g' : Nat}
    (other : g ≠ g') : remaining w (.setting g pending : Caller α) unset g' =
      remaining w (.idle : Caller α) unset g' := by
  by_cases isUnset : g' ∈ unset
  · rw [remaining_unset isUnset, remaining_unset isUnset]
  · rw [remaining_idle isUnset]
    exact (if_neg isUnset).trans (if_neg other)

theorem GlobalAt.of_remaining {rest : List (Nat × Nat)} (reached : List (Nat × Nat))
    (isRest : remaining w st.caller st.unset g = rest) (split : w.globalChildren g = reached ++ rest)
    (done : ∀ child ∈ reached,
      if child.1 = 0 then st.input (.input child.1 child.2) = inputs st.round g
      else (pushes (.input child.1 child.2) trace).length = st.round + 1)
    (todo : ∀ child ∈ rest, child.1 ≠ 0 →
      (pushes (.input child.1 child.2) trace).length = st.round) :
    GlobalAt w inputs trace st g := by
  subst isRest
  exact ⟨reached, split, done, todo⟩

theorem Invariant.recaller (inv : Invariant w modules inputs base trace st) {caller : Caller α}
    {unset : List Nat} (ready : Interface → Bool)
    (same : ∀ g < w.globalInputs, remaining w caller unset g = remaining w st.caller st.unset g)
    (unsetInside : unset.Nodup ∧ ∀ g ∈ unset, g < w.globalInputs)
    (place : CallerAt w { st with caller := caller, unset := unset, dataReady := ready })
    (fetch : FetchAt w modules inputs base trace st.queue caller) :
    Invariant w modules inputs base trace
      { st with caller := caller, unset := unset, dataReady := ready } where
  initializes := inv.initializes
  channels := inv.channels
  ran := inv.ran
  outputs := inv.outputs
  unfed := inv.unfed
  threads := inv.threads
  round := inv.round
  globals := fun g isGlobal =>
    (inv.globals g isGlobal).keep rfl (same g isGlobal) (fun _ _ _ => rfl) fun _ _ _ => rfl
  unset := unsetInside
  caller := place
  fetch := fetch

theorem Invariant.beginSet (inv : Invariant w modules inputs base trace st)
    (idle : st.caller = .idle) (member : g ∈ st.unset) :
    Invariant w modules inputs base trace
      { st with caller := .setting g (w.globalChildren g), unset := st.unset.erase g } := by
  obtain ⟨distinct, inside⟩ := inv.unset
  have removed : g ∉ st.unset.erase g := distinct.not_mem_erase
  have fetch := inv.fetch
  rw [idle] at fetch
  refine inv.recaller st.dataReady (fun g' _ => ?_) ⟨distinct.erase g, fun g' later => ?_⟩
    ⟨inside g member, removed⟩ fetch
  · by_cases same : g = g'
    · subst same
      rw [remaining_setting removed, remaining_unset member]
    · rw [idle, remaining_other same]
      by_cases isUnset : g' ∈ st.unset
      · rw [remaining_unset isUnset,
          remaining_unset ((List.mem_erase_of_ne (Ne.symm same)).mpr isUnset)]
      · rw [remaining_idle isUnset, remaining_idle fun later => isUnset (List.mem_of_mem_erase later)]
  · exact inside g' (List.mem_of_mem_erase later)

theorem Invariant.endSet (inv : Invariant w modules inputs base trace st)
    (setting : st.caller = .setting g []) :
    Invariant w modules inputs base trace { st with caller := .idle } := by
  have fetch := inv.fetch
  rw [setting] at fetch
  refine inv.recaller st.dataReady (fun g' _ => ?_) inv.unset trivial fetch
  rw [setting]
  by_cases same : g = g'
  · subst same
    by_cases isUnset : g ∈ st.unset
    · rw [remaining_unset isUnset, remaining_unset isUnset]
    · rw [remaining_idle isUnset, remaining_setting isUnset]
  · exact (remaining_other same).symm

theorem Invariant.assign (inv : Invariant w modules inputs base trace st) {j : Nat}
    {pending : List (Nat × Nat)} (setting : st.caller = .setting g ((0, j) :: pending)) :
    Invariant w modules inputs base trace
      { st.setInput (.input 0 j) (inputs st.round g) with caller := .setting g pending } := by
  obtain ⟨isGlobal, isSet⟩ : g < w.globalInputs ∧ g ∉ st.unset := by
    have place := inv.caller
    rwa [CallerAt, setting] at place
  obtain ⟨reached, split, done, todo⟩ := inv.globals g isGlobal
  rw [setting, remaining_setting isSet] at split todo
  have edge : (Source.global g, Interface.input 0 j) ∈ w.edges := by
    refine w.global_mem_edges.mpr ⟨isGlobal, (0, j), ?_, rfl⟩
    rw [split]
    exact List.mem_append_right _ List.mem_cons_self
  have distinct := w.globalChildren_nodup isGlobal
  rw [split, List.nodup_middle, List.nodup_cons] at distinct
  have fetch := inv.fetch
  rw [setting] at fetch
  refine ⟨inv.initializes, inv.channels, inv.ran, inv.outputs, fun t unfed => ?_,
    fun i inside => ?_, inv.round, fun g' isGlobal' => ?_, inv.unset, ⟨isGlobal, isSet⟩, fetch⟩
  · refine (Function.update_of_ne ?_ _ _).trans (inv.unfed t unfed)
    rintro rfl
    exact unfed _ edge
  · refine (inv.threads i inside).keep ⟨rfl, fun _ _ => rfl, fun _ _ => rfl, fun k isQueue => ?_⟩
    refine Function.update_of_ne ?_ _ _
    intro same
    cases same
    rw [Wiring.inputQueue, w.feeds_first] at isQueue
    cases isQueue
  · by_cases same : g = g'
    · subst same
      refine GlobalAt.of_remaining (reached ++ [(0, j)]) (remaining_setting isSet) ?_
        (fun child member => ?_) fun child member later => ?_
      · rw [split, List.append_assoc]
        rfl
      · rcases List.mem_append.mp member with earlier | last
        · have before := done child earlier
          by_cases first : child.1 = 0
          · rw [if_pos first] at before ⊢
            refine (Function.update_of_ne ?_ _ _).trans before
            intro isChild
            obtain ⟨k, l⟩ := child
            cases isChild
            exact distinct.1 (List.mem_append_left _ earlier)
          · rw [if_neg first] at before ⊢
            exact before
        · rw [List.mem_singleton.mp last, if_pos rfl]
          exact Function.update_self _ _ _
      · exact todo child (List.mem_cons_of_mem _ member) later
    · refine (inv.globals g' isGlobal').keep rfl ?_ (fun _ _ _ => rfl) fun child member first => ?_
      · rw [setting]
        exact (remaining_other same).trans (remaining_other same).symm
      · refine Function.update_of_ne ?_ _ _
        intro isChild
        have edge' : (Source.global g', Interface.input child.1 child.2) ∈ w.edges :=
          w.global_mem_edges.mpr ⟨isGlobal', child, member, rfl⟩
        rw [isChild] at edge'
        cases w.source_unique edge edge'
        exact same rfl

theorem Invariant.pushInput (inv : Invariant w modules inputs base trace st) {i j : Nat}
    {pending : List (Nat × Nat)} {q : SPSCLockFreeQueue α}
    (setting : st.caller = .setting g ((i, j) :: pending)) (laterModule : i ≠ 0)
    (pushed : (st.queue (.input i j)).push (inputs st.round g) = some q) :
    Invariant w modules inputs base (trace ++ [.pushed (.input i j) (inputs st.round g)])
      { st.setQueue (.input i j) q with caller := .notifying (.input i j) g pending } := by
  obtain ⟨isGlobal, isSet⟩ : g < w.globalInputs ∧ g ∉ st.unset := by
    have place := inv.caller
    rwa [CallerAt, setting] at place
  obtain ⟨reached, split, done, todo⟩ := inv.globals g isGlobal
  rw [setting, remaining_setting isSet] at split todo
  have edge : (Source.global g, Interface.input i j) ∈ w.edges := by
    refine w.global_mem_edges.mpr ⟨isGlobal, (i, j), ?_, rfl⟩
    rw [split]
    exact List.mem_append_right _ List.mem_cons_self
  have count := todo (i, j) List.mem_cons_self laterModule
  have isNext : inputs st.round g =
      expected w modules inputs base (pushes (.input i j) trace).length (.input i j) := by
    rw [expected, w.sequential_global edge, count]
  have distinct := w.globalChildren_nodup isGlobal
  rw [split, List.nodup_middle, List.nodup_cons] at distinct
  have other (child : Nat × Nat) (member : child ∈ reached ++ pending) :
      Interface.input i j ≠ .input child.1 child.2 := by
    intro isChild
    obtain ⟨k, l⟩ := child
    cases isChild
    exact distinct.1 member
  have fetch := inv.fetch
  rw [setting] at fetch
  refine ⟨inv.initializes, inv.channels.push isNext pushed, by simpa using inv.ran,
    by simpa using inv.outputs, inv.unfed, fun i' inside => ?_, ?_, fun g' isGlobal' => ?_,
    inv.unset, ⟨isGlobal, isSet, edge, ?_⟩, fetch.push inv.channels pushed⟩
  · refine (inv.threads i' inside).keep ⟨by simp, by simp, fun t member => ?_, fun _ _ => rfl⟩
    rw [pushes_pushed, if_neg]
    intro same
    have edge' : (Source.module i' t.1, t.2) ∈ w.edges := w.module_mem_edges.mpr ⟨inside, member⟩
    rw [← same] at edge'
    cases w.source_unique edge edge'
  · change st.round = _
    simpa using inv.round
  · by_cases same : g = g'
    · subst same
      refine GlobalAt.of_remaining (reached ++ [(i, j)]) (remaining_setting (α := α) isSet) ?_
        (fun child member => ?_) fun child member later => ?_
      · rw [split, List.append_assoc]
        rfl
      · rw [pushes_pushed]
        rcases List.mem_append.mp member with earlier | last
        · rw [if_neg (other child (List.mem_append_left _ earlier))]
          exact done child earlier
        · rw [List.mem_singleton.mp last, if_neg laterModule, if_pos rfl, List.length_append, count]
          rfl
      · rw [pushes_pushed, if_neg (other child (List.mem_append_right _ member))]
        exact todo child (List.mem_cons_of_mem _ member) later
    · refine (inv.globals g' isGlobal').keep rfl ?_ (fun child member _ => ?_) fun _ _ _ => rfl
      · rw [setting]
        exact (remaining_other (α := α) same).trans (remaining_other same).symm
      · rw [pushes_pushed, if_neg]
        intro isChild
        have edge' : (Source.global g', Interface.input child.1 child.2) ∈ w.edges :=
          w.global_mem_edges.mpr ⟨isGlobal', child, member, rfl⟩
        rw [← isChild] at edge'
        cases w.source_unique edge edge'
        exact same rfl
  · simpa [Wiring.queued, Interface.owner] using laterModule

theorem Invariant.endNotify (inv : Invariant w modules inputs base trace st) {t : Interface}
    {pending : List (Nat × Nat)} (notifying : st.caller = .notifying t g pending)
    (ready : Interface → Bool) :
    Invariant w modules inputs base trace
      { st with caller := .setting g pending, dataReady := ready } := by
  have place := inv.caller
  rw [CallerAt, notifying] at place
  have fetch := inv.fetch
  rw [notifying] at fetch
  refine inv.recaller ready (fun g' _ => ?_) inv.unset ⟨place.1, place.2.1⟩ fetch
  rw [notifying]
  rfl

theorem Invariant.beginFetch (inv : Invariant w modules inputs base trace st)
    (idle : st.caller = .idle) (filled : dataIsReady w st = true) :
    Invariant w modules inputs base trace
      { st with caller := .fetching (w.inputQueue none) [] } := by
  have fetch := inv.fetch
  rw [idle] at fetch
  refine inv.recaller st.dataReady (fun g' _ => ?_) inv.unset trivial
    ⟨[], rfl, rfl, by simp, fun g' member => ⟨fetch g' member, ?_⟩⟩
  · rw [idle]
    rfl
  · have nonempty := List.all_eq_true.mp filled g' member
    rwa [Bool.not_eq_true'] at nonempty

theorem Invariant.fetchOutput (inv : Invariant w modules inputs base trace st)
    {pending : List Nat} {outputs : List (Nat × α)} {data : α} {q : SPSCLockFreeQueue α}
    (fetching : st.caller = .fetching (g :: pending) outputs)
    (polled : (st.queue (.output g)).poll = some (some data, q)) :
    Invariant w modules inputs base (trace ++ [.polled (.output g) data])
      { st.setQueue (.output g) q with caller := .fetching pending (outputs ++ [(g, data)]) } := by
  obtain ⟨channels, isData⟩ := inv.channels.poll polled
  have fetch := inv.fetch
  rw [fetching] at fetch
  obtain ⟨got, split, isOutputs, done, todo⟩ := fetch
  obtain ⟨count, -⟩ := todo g List.mem_cons_self
  have distinct := w.inputQueue_nodup none
  rw [split, List.nodup_middle, List.nodup_cons] at distinct
  have other (g' : Nat) (member : g' ∈ got ++ pending) :
      Interface.output g ≠ .output g' := by
    intro same
    cases same
    exact distinct.1 member
  refine ⟨inv.initializes, channels, by simpa using inv.ran, by simpa using inv.outputs, inv.unfed,
    fun i inside => ?_, ?_, fun g' isGlobal => ?_, inv.unset, trivial,
    got ++ [g], ?_, ?_, fun g' member => ?_, fun g' member => ?_⟩
  · refine (inv.threads i inside).keep ⟨by simp, fun j _ => ?_, by simp, fun _ _ => rfl⟩
    rw [polls_polled, if_neg (by simp)]
  · change st.round = _
    simpa using inv.round
  · refine (inv.globals g' isGlobal).keep rfl ?_ (by simp) fun _ _ _ => rfl
    rw [fetching]
    rfl
  · rw [split, List.append_assoc]
    rfl
  · rw [isOutputs, isData, count, obtained_polled, List.map_append]
    rfl
  · rw [obtained_polled, polls_polled]
    rcases List.mem_append.mp member with earlier | last
    · rw [if_neg (other g' (List.mem_append_left _ earlier))]
      exact done g' earlier
    · rw [List.mem_singleton.mp last, if_pos rfl, List.length_append, count]
      rfl
  · have isOther := other g' (List.mem_append_right _ member)
    obtain ⟨count', nonempty⟩ := todo g' (List.mem_cons_of_mem _ member)
    rw [obtained_polled, polls_polled, if_neg isOther]
    refine ⟨count', ?_⟩
    change (Function.update st.queue (.output g) q (.output g')).empty = false
    rw [Function.update_of_ne isOther.symm]
    exact nonempty

theorem Invariant.endFetch (inv : Invariant w modules inputs base trace st)
    {outputs : List (Nat × α)} (fetching : st.caller = .fetching [] outputs) :
    Invariant w modules inputs base (trace ++ [.obtained outputs])
      { st with caller := .idle } := by
  have fetch := inv.fetch
  rw [fetching] at fetch
  obtain ⟨got, split, isOutputs, done, -⟩ := fetch
  rw [List.append_nil] at split
  refine ⟨inv.initializes, inv.channels.other (by simp) (by simp), by simpa using inv.ran,
    fun k set found => ?_, inv.unfed, fun i inside => ?_, ?_, fun g' isGlobal => ?_, inv.unset,
    trivial, fun g' member => ?_⟩
  · rw [obtained_obtained] at found
    rcases getElem?_append_singleton found with earlier | ⟨rfl, rfl⟩
    · exact inv.outputs k set earlier
    · rw [split]
      exact isOutputs
  · exact (inv.threads i inside).keep ⟨by simp, by simp, by simp, fun _ _ => rfl⟩
  · change st.round = _
    simpa using inv.round
  · refine (inv.globals g' isGlobal).keep rfl ?_ (by simp) fun _ _ _ => rfl
    rw [fetching]
    rfl
  · rw [split] at member
    rw [polls_obtained, obtained_obtained, List.length_append]
    exact done g' member

theorem Invariant.allSet (inv : Invariant w modules inputs base trace st)
    (idle : st.caller = .idle) (unset : st.unset = []) (isGlobal : g < w.globalInputs)
    {child : Nat × Nat} (member : child ∈ w.globalChildren g) :
    if child.1 = 0 then st.input (.input child.1 child.2) = inputs st.round g
    else (pushes (.input child.1 child.2) trace).length = st.round + 1 := by
  obtain ⟨reached, split, done, -⟩ := inv.globals g isGlobal
  have isSet : g ∉ st.unset := by
    rw [unset]
    exact List.not_mem_nil
  rw [idle, remaining_idle isSet, List.append_nil] at split
  rw [split] at member
  exact done child member

theorem Invariant.runFirst (inv : Invariant w modules inputs base trace st)
    (idle : st.caller = .idle) (unset : st.unset = []) {notifys : List Nat}
    (isPhase : st.phase 0 = .loading notifys) :
    Invariant w modules inputs base (trace ++ [.ran 0 fun j => st.input (.input 0 j)])
      (State.setPhase { st with unset := List.range w.globalInputs, round := st.round + 1 } 0
        (.forwarding ((w.targets 0).map fun t =>
          (t.2, modules 0 (fun j => st.input (.input 0 j)) t.1)))) := by
  have loading : LoadingAt w modules inputs base trace st.input 0 notifys :=
    inv.thread w.nonempty isPhase
  have isRound : (fun j => st.input (.input 0 j)) =
      fun j => expected w modules inputs base (runsOf 0 trace).length (.input 0 j) := by
    funext j
    by_cases fed : ∃ s, (s, Interface.input 0 j) ∈ w.edges
    · obtain ⟨s, edge⟩ := fed
      cases s with
      | global g =>
        obtain ⟨isGlobal, child, member, isChild⟩ := w.global_mem_edges.mp edge
        obtain ⟨k, l⟩ := child
        cases isChild
        have reached := inv.allSet idle unset isGlobal member
        rw [if_pos rfl] at reached
        rw [reached, expected, w.sequential_global edge, inv.round]
      | module i o => exact absurd (w.forward i o 0 j edge).1 (Nat.not_lt_zero i)
    · rw [not_exists] at fed
      rw [inv.unfed _ fed]
      exact (w.sequential_unfed fed).symm
  refine ⟨inv.initializes, inv.channels.other (by simp) (by simp), inv.ran_append isRound,
    by simpa using inv.outputs, inv.unfed, fun i inside => ?_, ?_, fun g isGlobal => ?_,
    ⟨List.nodup_range, fun g member => List.mem_range.mp member⟩, ?_,
    inv.fetch.keep (by simp) (by simp) fun _ => rfl⟩
  · by_cases same : i = 0
    · subst same
      simp only [State.setPhase, Function.update_self]
      refine ModuleAt.run inside isRound (fun j isQueue => ?_) loading.2
      rw [Wiring.inputQueue, w.feeds_first] at isQueue
      cases isQueue
    · simp only [State.setPhase, Function.update_of_ne same]
      refine (inv.threads i inside).keep ⟨?_, by simp, by simp, fun _ _ => rfl⟩
      rw [runsOf_ran, if_neg (Ne.symm same)]
  · rw [runsOf_ran, if_pos rfl, List.length_append, ← inv.round]
    rfl
  · refine GlobalAt.of_remaining [] (remaining_unset (List.mem_range.mpr isGlobal)) rfl
      (by simp) fun child member later => ?_
    have reached := inv.allSet idle unset isGlobal member
    rw [if_neg later] at reached
    rw [pushes_ran]
    exact reached
  · rw [CallerAt]
    simp only [State.setPhase, idle]

end Caller

end Tvm.Pipeline
