import Tvm.Pipeline.ExecutorInvariant

/-!
# Steps of the worker threads

A module loads its inputs, runs and forwards its outputs; each step keeps the invariant.
-/

namespace Tvm.Pipeline

section Threads

variable {α : Type} {w : Wiring} {modules : Nat → (Nat → α) → Nat → α} {inputs : Nat → Nat → α}
  {base : Interface → α} {trace : List (Event α)} {st : State α} {i key : Nat}

theorem Invariant.thread (inv : Invariant w modules inputs base trace st) {phase : Phase α}
    (inside : i < w.runtimes) (isPhase : st.phase i = phase) :
    ModuleAt w modules inputs base trace st.input i phase := by
  rw [← isPhase]
  exact inv.threads i inside

theorem Invariant.rephase (inv : Invariant w modules inputs base trace st) (phase : Phase α)
    (place : ModuleAt w modules inputs base trace st.input i phase)
    (ready : Interface → Bool) :
    Invariant w modules inputs base trace
      { st with phase := Function.update st.phase i phase, dataReady := ready } where
  initializes := inv.initializes
  channels := inv.channels
  ran := inv.ran
  outputs := inv.outputs
  unfed := inv.unfed
  threads := by
    intro i' inside'
    by_cases same : i' = i
    · subst same
      simp only [Function.update_self]
      exact place
    · simp only [Function.update_of_ne same]
      exact inv.threads i' inside'
  round := inv.round
  globals := inv.globals
  unset := inv.unset
  caller := inv.caller
  fetch := inv.fetch

theorem LoadingAt.choose {input : Interface → α} {notifys : List Nat} (member : key ∈ notifys)
    (loading : LoadingAt w modules inputs base trace input i notifys) :
    LoadingAt w modules inputs base trace input i (key :: notifys.erase key) := by
  obtain ⟨⟨loaded, perm, rest⟩, sent⟩ := loading
  refine ⟨⟨loaded, perm.trans ?_, rest⟩, sent⟩
  exact (List.perm_cons_erase member).append_left loaded

theorem ForwardingAt.finish (input : Interface → α)
    (forwarding : ForwardingAt w modules inputs base trace i []) :
    LoadingAt w modules inputs base trace input i (w.parentsNotify (some i)) := by
  obtain ⟨polled, sent, todo, split, values, counted, -⟩ := forwarding
  have finished : todo = [] := List.map_eq_nil_iff.mp values.symm
  subst finished
  rw [List.append_nil] at split
  refine ⟨⟨[], List.Perm.refl _, ?_, fun j isQueue _ => polled j isQueue⟩, ?_⟩
  · simp
  · rw [split]
    exact counted

theorem target_unique {i' : Nat} {t t' : Nat × Interface} (inside : i < w.runtimes)
    (inside' : i' < w.runtimes) (member : t ∈ w.targets i) (member' : t' ∈ w.targets i')
    (same : t.2 = t'.2) : i = i' := by
  have edge : (Source.module i t.1, t.2) ∈ w.edges := w.module_mem_edges.mpr ⟨inside, member⟩
  have edge' : (Source.module i' t'.1, t'.2) ∈ w.edges :=
    w.module_mem_edges.mpr ⟨inside', member'⟩
  rw [same] at edge
  exact (Source.module.inj (w.source_unique edge edge')).1

theorem Invariant.push (inv : Invariant w modules inputs base trace st) (inside : i < w.runtimes)
    {t : Interface} {data : α} {pending : List (Interface × α)} {q : SPSCLockFreeQueue α}
    (isPhase : st.phase i = .forwarding ((t, data) :: pending))
    (pushed : (st.queue t).push data = some q) :
    Invariant w modules inputs base (trace ++ [.pushed t data])
      ((st.setQueue t q).setPhase i (.notifying t pending)) := by
  obtain ⟨polled, sent, todo, split, values, counted, missing⟩ := inv.thread inside isPhase
  cases todo with
  | nil => cases values
  | cons target todo =>
    rw [List.map_cons, List.cons.injEq, Prod.mk.injEq] at values
    obtain ⟨⟨rfl, isData⟩, values⟩ := values
    have isTarget : target ∈ w.targets i := by
      rw [split]
      exact List.mem_append_right _ List.mem_cons_self
    have count := missing target List.mem_cons_self
    have distinct := w.targets_nodup inside
    rw [split, List.map_append, List.map_cons, List.nodup_middle, List.nodup_cons,
      ← List.map_append] at distinct
    have other (target' : Nat × Interface) (member : target' ∈ sent ++ todo) :
        target.2 ≠ target'.2 := by
      intro same
      rw [same] at distinct
      exact distinct.1 (List.mem_map_of_mem member)
    have isNext : data = expected w modules inputs base (pushes target.2 trace).length
        target.2 := by
      rw [isData, ← count, Nat.add_sub_cancel]
    have elsewhere (i' : Nat) (inside' : i' < w.runtimes) (different : i' ≠ i) :
        Unconcerned (w := w) trace (trace ++ [.pushed target.2 data]) st.input st.input i' := by
      refine ⟨by simp, fun j _ => by simp, fun target' member => ?_, fun j _ => rfl⟩
      rw [pushes_pushed, if_neg]
      intro same
      exact different (target_unique inside inside' isTarget member same).symm
    refine ⟨inv.initializes, inv.channels.push isNext pushed, ?_, ?_, inv.unfed, fun i' inside' => ?_, ?_,
      fun g isGlobal => ?_, inv.unset, inv.caller, ?_⟩
    · simpa using inv.ran
    · simpa using inv.outputs
    · by_cases same : i' = i
      · subst same
        simp only [State.setPhase, Function.update_self]
        refine ⟨⟨?_, sent ++ [target], todo, ?_, ?_, fun target' member => ?_,
          fun target' member => ?_⟩, target.1, isTarget⟩
        · simpa using polled
        · rw [split, List.append_assoc]
          rfl
        · simpa using values
        · rw [pushes_pushed, runsOf_pushed]
          rcases List.mem_append.mp member with earlier | last
          · rw [if_neg (other target' (List.mem_append_left _ earlier))]
            exact counted target' earlier
          · rw [List.mem_singleton.mp last, if_pos rfl, List.length_append]
            exact count
        · rw [pushes_pushed, runsOf_pushed,
            if_neg (other target' (List.mem_append_right _ member))]
          exact missing target' (List.mem_cons_of_mem _ member)
      · simp only [State.setPhase, Function.update_of_ne same]
        exact (inv.threads i' inside').keep (elsewhere i' inside' same)
    · change st.round = _
      simpa using inv.round
    · refine (inv.globals g isGlobal).keep rfl rfl (fun child member _ => ?_) fun _ _ _ => rfl
      rw [pushes_pushed, if_neg]
      intro same
      have edge : (Source.global g, Interface.input child.1 child.2) ∈ w.edges :=
        w.global_mem_edges.mpr ⟨isGlobal, child, member, rfl⟩
      have edge' : (Source.module i target.1, target.2) ∈ w.edges :=
        w.module_mem_edges.mpr ⟨inside, isTarget⟩
      rw [same] at edge'
      cases w.source_unique edge edge'
    · exact inv.fetch.push inv.channels pushed

theorem Invariant.poll (inv : Invariant w modules inputs base trace st) (inside : i < w.runtimes)
    {notifys : List Nat} {data : α} {q : SPSCLockFreeQueue α}
    (isPhase : st.phase i = .polling key notifys) (isQueue : key ∈ w.inputQueue (some i))
    (polled : (st.queue (.input i key)).poll = some (some data, q)) :
    Invariant w modules inputs base (trace ++ [.polled (.input i key) data])
      (((st.setQueue (.input i key) q).setInput (.input i key) data).setPhase i
        (.loading notifys)) := by
  obtain ⟨channels, isData⟩ := inv.channels.poll polled
  obtain ⟨⟨loaded, perm, done, missing⟩, sent⟩ := inv.thread inside isPhase
  have laterModule : i ≠ 0 := by
    rintro rfl
    rw [Wiring.inputQueue, w.feeds_first] at isQueue
    cases isQueue
  have notLoaded : key ∉ loaded := by
    have distinct := (perm.nodup_iff).mp (inv.initializes (some i))
    rw [List.nodup_middle, List.nodup_cons, List.mem_append, not_or] at distinct
    exact distinct.1.1
  have count := missing key isQueue notLoaded
  have different {j : Nat} (other : key ≠ j) : Interface.input i key ≠ .input i j := by
    intro same
    cases same
    exact other rfl
  refine ⟨inv.initializes, channels, ?_, ?_, fun t unfed => ?_, fun i' inside' => ?_, ?_,
    fun g isGlobal => ?_, inv.unset, inv.caller, ?_⟩
  · simpa using inv.ran
  · simpa using inv.outputs
  · obtain ⟨s, t', edge, -, isOwner, isIndex⟩ := w.mem_inputQueue.mp isQueue
    have fed : t' = .input i key := Interface.eq_of_owner isOwner isIndex
    subst fed
    refine (Function.update_of_ne ?_ _ _).trans (inv.unfed t unfed)
    rintro rfl
    exact unfed s edge
  · by_cases same : i' = i
    · subst same
      simp only [State.setPhase, State.setInput, State.setQueue, Function.update_self]
      refine ⟨⟨loaded ++ [key], ?_, fun j member => ?_, fun j isQueue' missed => ?_⟩, ?_⟩
      · rw [List.append_assoc]
        exact perm
      · rw [polls_polled, runsOf_polled]
        rcases List.mem_append.mp member with earlier | last
        · have other : key ≠ j := fun isKey => notLoaded (isKey ▸ earlier)
          rw [if_neg (different other), Function.update_of_ne (different other).symm]
          exact done j earlier
        · rw [List.mem_singleton.mp last, if_pos rfl, Function.update_self, List.length_append,
            count, isData, count]
          exact ⟨isQueue, rfl, rfl⟩
      · rw [List.mem_append, not_or, List.mem_singleton] at missed
        rw [polls_polled, runsOf_polled, if_neg (different (Ne.symm missed.2))]
        exact missing j isQueue' missed.1
      · simpa using sent
    · simp only [State.setPhase, State.setInput, State.setQueue, Function.update_of_ne same]
      have other (j : Nat) : Interface.input i key ≠ .input i' j := by
        intro isSame
        cases isSame
        exact same rfl
      refine (inv.threads i' inside').keep ⟨by simp, fun j _ => ?_, by simp, fun j _ => ?_⟩
      · rw [polls_polled, if_neg (other j)]
      · exact Function.update_of_ne (other j).symm _ _
  · change st.round = _
    simpa using inv.round
  · refine (inv.globals g isGlobal).keep rfl rfl (by simp) fun child _ first => ?_
    refine Function.update_of_ne ?_ _ _
    intro same
    rw [first] at same
    cases same
    exact laterModule rfl
  · refine inv.fetch.keep (by simp) (fun g => ?_) fun g => ?_
    · rw [polls_polled, if_neg (by simp)]
    · have other : Interface.output g ≠ .input i key := by simp
      change Function.update st.queue (.input i key) q (.output g) = _
      rw [Function.update_of_ne other]

theorem LoadingAt.inputs_eq (initializes : w.Initializes) {input : Interface → α}
    (loading : LoadingAt w modules inputs base trace input i [])
    (unfed : ∀ t, (∀ s, (s, t) ∉ w.edges) → input t = base t) (laterModule : i ≠ 0) :
    (fun j => input (.input i j)) =
      fun j => expected w modules inputs base (runsOf i trace).length (.input i j) := by
  obtain ⟨⟨loaded, perm, done, -⟩, -⟩ := loading
  rw [List.append_nil] at perm
  have all := w.inputQueue_subset initializes fun j member =>
    (done j (perm.subset member)).1
  funext j
  by_cases fed : ∃ s, (s, Interface.input i j) ∈ w.edges
  · obtain ⟨s, edge⟩ := fed
    have isQueued : Wiring.queued (s, Interface.input i j) = true := by
      cases s with
      | global g => simpa [Wiring.queued, Interface.owner] using laterModule
      | module i' o => rfl
    have isQueue : j ∈ w.inputQueue (some i) :=
      w.mem_inputQueue.mpr ⟨s, .input i j, edge, isQueued, rfl, rfl⟩
    exact (done j (perm.subset (all isQueue))).2.2
  · rw [not_exists] at fed
    rw [unfed _ fed]
    exact (w.sequential_unfed fed).symm

theorem ModuleAt.run {found : Nat → α} (inside : i < w.runtimes)
    (isRound : found = fun j => expected w modules inputs base (runsOf i trace).length (.input i j))
    (polled : ∀ j ∈ w.inputQueue (some i),
      (polls (.input i j) trace).length = (runsOf i trace).length + 1)
    (sent : ∀ t ∈ w.targets i, (pushes t.2 trace).length = (runsOf i trace).length) :
    ForwardingAt w modules inputs base (trace ++ [.ran i found]) i
      ((w.targets i).map fun t => (t.2, modules i found t.1)) := by
  refine ⟨fun j isQueue => ?_, [], w.targets i, rfl, ?_, by simp, fun t member => ?_⟩
  · rw [polls_ran, runsOf_ran, if_pos rfl, List.length_append]
    exact polled j isQueue
  · rw [runsOf_ran, if_pos rfl, List.length_append, List.length_singleton, Nat.add_sub_cancel]
    refine List.map_congr_left fun t member => ?_
    have edge : (Source.module i t.1, t.2) ∈ w.edges := w.module_mem_edges.mpr ⟨inside, member⟩
    rw [isRound, expected, w.sequential_module edge]
    rfl
  · rw [pushes_ran, runsOf_ran, if_pos rfl, List.length_append, sent t member]
    rfl

theorem Invariant.ran_append (inv : Invariant w modules inputs base trace st) {found : Nat → α}
    (isRound : found = fun j => expected w modules inputs base (runsOf i trace).length (.input i j))
    (i' k : Nat) (found' : Nat → α)
    (isRun : (runsOf i' (trace ++ [.ran i found]))[k]? = some found') :
    found' = fun j => expected w modules inputs base k (.input i' j) := by
  rw [runsOf_ran] at isRun
  split at isRun
  · rename_i same
    subst same
    rcases getElem?_append_singleton isRun with earlier | ⟨rfl, rfl⟩
    · exact inv.ran i k found' earlier
    · exact isRound
  · exact inv.ran i' k found' isRun

theorem Invariant.runWorker (inv : Invariant w modules inputs base trace st)
    (inside : i < w.runtimes) (laterModule : i ≠ 0) (isPhase : st.phase i = .loading []) :
    Invariant w modules inputs base (trace ++ [.ran i fun j => st.input (.input i j)])
      (st.setPhase i (.forwarding ((w.targets i).map fun t =>
        (t.2, modules i (fun j => st.input (.input i j)) t.1)))) := by
  have loading : LoadingAt w modules inputs base trace st.input i [] := inv.thread inside isPhase
  have isRound := loading.inputs_eq inv.initializes inv.unfed laterModule
  obtain ⟨⟨loaded, perm, done, -⟩, sent⟩ := loading
  rw [List.append_nil] at perm
  have all := w.inputQueue_subset inv.initializes fun j member =>
    (done j (perm.subset member)).1
  refine ⟨inv.initializes, inv.channels.other (by simp) (by simp), inv.ran_append isRound, ?_,
    inv.unfed, fun i' inside' => ?_, ?_, fun g isGlobal => ?_, inv.unset, inv.caller, ?_⟩
  · simpa using inv.outputs
  · by_cases same : i' = i
    · subst same
      simp only [State.setPhase, Function.update_self]
      exact ModuleAt.run inside' isRound
        (fun j isQueue => (done j (perm.subset (all isQueue))).2.1) sent
    · simp only [State.setPhase, Function.update_of_ne same]
      refine (inv.threads i' inside').keep ⟨?_, by simp, by simp, fun _ _ => rfl⟩
      rw [runsOf_ran, if_neg (Ne.symm same)]
  · change st.round = _
    rw [runsOf_ran, if_neg laterModule]
    exact inv.round
  · exact (inv.globals g isGlobal).keep rfl rfl (by simp) fun _ _ _ => rfl
  · exact inv.fetch.keep (by simp) (by simp) fun _ => rfl

end Threads

end Tvm.Pipeline
