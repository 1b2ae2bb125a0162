import Tvm.Rpc.Tracker

/-!
# The tracker neither loses nor grants twice

The history of a tracker is lawful, and its lists are what the history says, in every run in which
no connection fails while it is granted a resource of its own and every connection that closes has
put its resources under the keys that their match keys begin with.
-/

namespace Tvm.Rpc

def Granted (history : List Entry) (value : Resource) : Prop :=
  ∃ key request, .granted key value request ∈ history

/-- Put, not granted, and not closed by a connection that announced its key. -/
def IsFree (history : List Entry) (key : Text) (value : Resource) : Prop :=
  .put key value ∈ history ∧ ¬Granted history value ∧ .closed value.conn true ∉ history

def IsWaiting (history : List Entry) (key : Text) (request : Request) : Prop :=
  .requested key request ∈ history ∧ (∀ value, .granted key value request ∉ history) ∧
    .dropped key request ∉ history

def Allowed (history : List Entry) : Entry → Prop
  | .put _ value => (∀ key other, .put key other ∈ history → other.matchkey ≠ value.matchkey) ∧
      ∀ announced, .closed value.conn announced ∉ history
  | .requested key request =>
    ∀ other, .requested key other ∈ history → other.count < request.count
  | .granted key value request => IsFree history key value ∧ IsWaiting history key request ∧
      ∀ other, IsWaiting history key other → request.Before other
  | .dropped key request => IsWaiting history key request
  | .closed conn _ => ∀ announced, .closed conn announced ∉ history

def Lawful : List Entry → Prop
  | [] => True
  | entry :: history => Allowed history entry ∧ Lawful history

section History

variable {history newer older : List Entry} {key key' : Text} {value other : Resource}
  {request : Request} {entry : Entry}

theorem Lawful.of_append (lawful : Lawful (newer ++ older)) : Lawful older := by
  induction newer with
  | nil => exact lawful
  | cons entry newer ih => exact ih lawful.2

theorem Lawful.allowed (lawful : Lawful (newer ++ entry :: older)) : Allowed older entry :=
  (Lawful.of_append lawful).1

theorem Lawful.put_unique (lawful : Lawful history) (first : .put key value ∈ history)
    (second : .put key' other ∈ history) (same : value.matchkey = other.matchkey) :
    key = key' ∧ value = other := by
  induction history with
  | nil => cases first
  | cons entry history ih =>
    rcases List.mem_cons.mp first with rfl | earlier
    · rcases List.mem_cons.mp second with isSecond | later
      · cases isSecond
        exact ⟨rfl, rfl⟩
      · exact absurd same.symm (lawful.1.1 key' other later)
    · rcases List.mem_cons.mp second with rfl | later
      · exact absurd same (lawful.1.1 key value earlier)
      · exact ih lawful.2 earlier later

theorem Lawful.put_of_granted (lawful : Lawful history)
    (member : .granted key value request ∈ history) : .put key value ∈ history := by
  obtain ⟨newer, older, rfl⟩ := List.append_of_mem member
  exact List.mem_append_right _ (List.mem_cons_of_mem _ lawful.allowed.1.1)

theorem Lawful.requested_of_granted (lawful : Lawful history)
    (member : .granted key value request ∈ history) : .requested key request ∈ history := by
  obtain ⟨newer, older, rfl⟩ := List.append_of_mem member
  exact List.mem_append_right _ (List.mem_cons_of_mem _ lawful.allowed.2.1.1)

def Entry.grants (value : Resource) : Entry → Bool
  | .granted _ other _ => other = value
  | _ => false

def Entry.serves (key : Text) (request : Request) : Entry → Bool
  | .granted key' _ served => key' = key ∧ served = request
  | _ => false

theorem granted_of_grants (grants : entry.grants value = true) (member : entry ∈ history) :
    Granted history value := by
  cases entry with
  | granted key granted request =>
    obtain rfl : granted = value := of_decide_eq_true grants
    exact ⟨key, request, member⟩
  | _ => cases grants

theorem Lawful.grants_le_one (lawful : Lawful history) (value : Resource) :
    (history.filter (Entry.grants value)).length ≤ 1 := by
  induction history with
  | nil => exact Nat.zero_le 1
  | cons entry history ih =>
    by_cases grants : entry.grants value = true
    · have none : history.filter (Entry.grants value) = [] := by
        refine List.filter_eq_nil_iff.mpr fun earlier member already => ?_
        cases entry with
        | granted key granted request =>
          obtain rfl : granted = value := of_decide_eq_true grants
          exact lawful.1.1.2.1 (granted_of_grants already member)
        | _ => cases grants
      rw [List.filter_cons_of_pos grants, none]
      exact le_refl 1
    · rw [List.filter_cons_of_neg grants]
      exact ih lawful.2

theorem Lawful.serves_le_one (lawful : Lawful history) (key : Text) (request : Request) :
    (history.filter (Entry.serves key request)).length ≤ 1 := by
  induction history with
  | nil => exact Nat.zero_le 1
  | cons entry history ih =>
    by_cases serves : entry.serves key request = true
    · have none : history.filter (Entry.serves key request) = [] := by
        refine List.filter_eq_nil_iff.mpr fun earlier member already => ?_
        cases entry with
        | granted key' granted served =>
          obtain ⟨rfl, rfl⟩ := of_decide_eq_true serves
          cases earlier with
          | granted key'' granted' served' =>
            obtain ⟨rfl, rfl⟩ := of_decide_eq_true already
            exact lawful.1.2.1.2.1 granted' member
          | _ => cases already
        | _ => cases serves
      rw [List.filter_cons_of_pos serves, none]
      exact le_refl 1
    · rw [List.filter_cons_of_neg serves]
      exact ih lawful.2

end History

namespace Tracker

variable (st : Tracker) {key key' : Text}

theorem scheduler_setScheduler_self (s : Scheduler) : (st.setScheduler key s).scheduler key = s := by
  rw [scheduler, setScheduler, AList.lookup_insert, Option.getD_some]

theorem scheduler_setScheduler_ne (different : key' ≠ key) (s : Scheduler) :
    (st.setScheduler key s).scheduler key' = st.scheduler key' := by
  rw [scheduler, setScheduler, AList.lookup_insert_ne different, scheduler]

theorem connections_setConnection_self (conn : Nat) (connection : Connection) :
    (st.setConnection conn connection).connections conn = connection :=
  Function.update_self ..

theorem connections_setConnection_ne {conn conn' : Nat} (different : conn' ≠ conn)
    (connection : Connection) :
    (st.setConnection conn connection).connections conn' = st.connections conn' :=
  Function.update_of_ne different ..

/-- There is no resource or no request of a key. -/
def QuietAt (key : Text) : Prop :=
  (st.scheduler key).values = [] ∨ (st.scheduler key).requests = []

def Quiet : Prop :=
  ∀ key, st.QuietAt key

end Tracker

/-- The state is what the history says, with a resource and a request that are being matched and a
resource that its connection does not hold yet. -/
structure Consistent (held : Option (Text × Resource × Request)) (late : Option Resource)
    (st : Tracker) : Prop where
  lawful : Lawful st.history
  free : ∀ key value, IsFree st.history key value ↔
    value ∈ (st.scheduler key).values ∨ ∃ request, held = some (key, value, request)
  valuesOnce : ∀ key, (st.scheduler key).values.Nodup
  waiting : ∀ key request, IsWaiting st.history key request ↔
    request ∈ (st.scheduler key).requests ∨ ∃ value, held = some (key, value, request)
  requestsOnce : ∀ key, (st.scheduler key).requests.Nodup
  sorted : ∀ key, (st.scheduler key).requests.Pairwise Request.Before
  counts : ∀ key request, .requested key request ∈ st.history →
    request.count < (st.scheduler key).requestCnt
  heldFirst : ∀ key value request, held = some (key, value, request) →
    value ∉ (st.scheduler key).values ∧ request ∉ (st.scheduler key).requests ∧
      ∀ other ∈ (st.scheduler key).requests, request.Before other
  pending : ∀ conn matchkey, matchkey ∈ (st.connections conn).pendingMatchkeys ↔
    ∃ key value, .put key value ∈ st.history ∧ value.conn = conn ∧ value.matchkey = matchkey ∧
      ¬Granted st.history value
  own : ∀ conn, ∀ value ∈ (st.connections conn).putValues, value.conn = conn
  puts : ∀ key value, .put key value ∈ st.history →
    value ∈ (st.connections value.conn).putValues ∨ late = some value
  sockets : ∀ conn, (st.connections conn).socket = true ↔
    ∀ announced, .closed conn announced ∉ st.history

/-- Only resources are removed from the lists. -/
structure Removed (gone : Text → Resource → Prop) (st st' : Tracker) : Prop where
  connections : st'.connections = st.connections
  history : st'.history = st.history
  map : ∀ key, key ∈ st'.schedulerMap ↔ key ∈ st.schedulerMap
  requests : ∀ key, (st'.scheduler key).requests = (st.scheduler key).requests
  requestCnt : ∀ key, (st'.scheduler key).requestCnt = (st.scheduler key).requestCnt
  values : ∀ key value, value ∈ (st'.scheduler key).values ↔
    value ∈ (st.scheduler key).values ∧ ¬gone key value
  valuesOnce : ∀ key, (st'.scheduler key).values.Nodup

section Close

variable {schedule : Text → Tracker → Tracker × Bool} {st st' : Tracker}

theorem Removed.quiet {gone : Text → Resource → Prop} (removed : Removed gone st st')
    (quiet : st.Quiet) : st'.Quiet := by
  intro key
  rcases quiet key with values | requests
  · refine Or.inl (List.eq_nil_iff_forall_not_mem.mpr fun value member => ?_)
    have earlier := ((removed.values key value).mp member).1
    rw [values] at earlier
    cases earlier
  · exact Or.inr ((removed.requests key).trans requests)

theorem removed_erase (value : Resource) (once : ∀ key, (st.scheduler key).values.Nodup)
    {key : Text} (inMap : key ∈ st.schedulerMap) :
    Removed (fun key' other => other = value ∧ key' = key) st (st.setScheduler key
      { st.scheduler key with values := (st.scheduler key).values.erase value }) where
  connections := rfl
  history := rfl
  map key' := by
    rw [Tracker.setScheduler, AList.mem_insert, or_iff_right_of_imp]
    rintro rfl
    exact inMap
  requests key' := by
    by_cases same : key' = key
    · rw [same, Tracker.scheduler_setScheduler_self]
    · rw [Tracker.scheduler_setScheduler_ne _ same]
  requestCnt key' := by
    by_cases same : key' = key
    · rw [same, Tracker.scheduler_setScheduler_self]
    · rw [Tracker.scheduler_setScheduler_ne _ same]
  values key' other := by
    by_cases same : key' = key
    · rw [same, Tracker.scheduler_setScheduler_self, (once key).mem_erase_iff, and_comm]
      simp
    · rw [Tracker.scheduler_setScheduler_ne _ same]
      simp [same]
  valuesOnce key' := by
    by_cases same : key' = key
    · rw [same, Tracker.scheduler_setScheduler_self]
      exact (once key).erase _
    · rw [Tracker.scheduler_setScheduler_ne _ same]
      exact once key'

theorem removeValues_removed
    (idle : ∀ key st, Tracker.QuietAt st key → schedule key st = (st, false)) (quiet : st.Quiet)
    (once : ∀ key, (st.scheduler key).values.Nodup) (values : List Resource)
    (inMap : ∀ value ∈ values, rpcKey value.matchkey ∈ st.schedulerMap) :
    ∃ st', removeValues schedule values st = (st', false) ∧
      Removed (fun key value => value ∈ values ∧ rpcKey value.matchkey = key) st st' := by
  induction values generalizing st with
  | nil => exact ⟨st, rfl, rfl, rfl, fun _ => Iff.rfl, fun _ => rfl, fun _ => rfl,
      fun key value => by simp, once⟩
  | cons value rest ih =>
    obtain ⟨first, others⟩ := List.forall_mem_cons.mp inMap
    rw [removeValues, if_pos first]
    by_cases isFree : value ∈ (st.scheduler (rpcKey value.matchkey)).values
    · have erased := removed_erase value once first
      have quietErased := erased.quiet quiet
      obtain ⟨st', removes, removed⟩ := ih quietErased erased.valuesOnce
        fun other member => (erased.map _).mpr (others other member)
      refine ⟨st', ?_, removed.connections.trans erased.connections,
        removed.history.trans erased.history, fun key => (removed.map key).trans (erased.map key),
        fun key => (removed.requests key).trans (erased.requests key),
        fun key => (removed.requestCnt key).trans (erased.requestCnt key), fun key other => ?_,
        removed.valuesOnce⟩
      · simp only [if_pos isFree]
        rw [idle _ _ (quietErased _)]
        exact removes
      · rw [removed.values, erased.values, List.mem_cons]
        constructor
        · rintro ⟨⟨member, different⟩, absent⟩
          refine ⟨member, ?_⟩
          rintro ⟨rfl | inRest, rfl⟩
          · exact different ⟨rfl, rfl⟩
          · exact absent ⟨inRest, rfl⟩
        · rintro ⟨member, absent⟩
          refine ⟨⟨member, ?_⟩, fun later => absent ⟨Or.inr later.1, later.2⟩⟩
          rintro ⟨rfl, rfl⟩
          exact absent ⟨Or.inl rfl, rfl⟩
    · obtain ⟨st', removes, removed⟩ := ih quiet once others
      refine ⟨st', ?_, removed.connections, removed.history, removed.map, removed.requests,
        removed.requestCnt, fun key other => ?_, removed.valuesOnce⟩
      · simp only [if_neg isFree]
        exact removes
      · rw [removed.values, List.mem_cons]
        refine and_congr_right fun member => not_congr ⟨fun both => ⟨Or.inr both.1, both.2⟩, ?_⟩
        rintro ⟨rfl | inRest, rfl⟩
        · exact absurd member isFree
        · exact ⟨inRest, rfl⟩

def KeysMatch (st : Tracker) (conn : Nat) : Prop :=
  ∀ value ∈ (st.connections conn).putValues, rpcKey value.matchkey ∈ st.schedulerMap ∧
    ∀ key, value ∈ (st.scheduler key).values → rpcKey value.matchkey = key

structure ClosedAs (conn : Nat) (st st' : Tracker) : Prop where
  history : st'.history = .closed conn (st.connections conn).announced :: st.history
  self : st'.connections conn = { st.connections conn with socket := false }
  others : ∀ other, other ≠ conn → st'.connections other = st.connections other
  map : ∀ key, key ∈ st'.schedulerMap ↔ key ∈ st.schedulerMap
  requests : ∀ key, (st'.scheduler key).requests = (st.scheduler key).requests
  values : ∀ key, ∀ value ∈ (st'.scheduler key).values, value ∈ (st.scheduler key).values

theorem granted_closed {history : List Entry} {conn : Nat} {announced : Bool} {value : Resource} :
    Granted (.closed conn announced :: history) value ↔ Granted history value := by
  simp [Granted]

theorem isFree_closed {history : List Entry} {conn : Nat} {announced : Bool} {key : Text}
    {value : Resource} : IsFree (.closed conn announced :: history) key value ↔
      IsFree history key value ∧ ¬(announced = true ∧ value.conn = conn) := by
  rw [IsFree, IsFree, granted_closed]
  simp only [List.mem_cons, reduceCtorEq, false_or, Entry.closed.injEq, not_or]
  constructor
  · rintro ⟨put, notGranted, other, notClosed⟩
    exact ⟨⟨put, notGranted, notClosed⟩, fun both => other ⟨both.2, both.1.symm⟩⟩
  · rintro ⟨⟨put, notGranted, notClosed⟩, other⟩
    exact ⟨put, notGranted, fun both => other ⟨both.2.symm, both.1⟩, notClosed⟩

theorem isWaiting_closed {history : List Entry} {conn : Nat} {announced : Bool} {key : Text}
    {request : Request} : IsWaiting (.closed conn announced :: history) key request ↔
      IsWaiting history key request := by
  simp [IsWaiting]

variable {held : Option (Text × Resource × Request)} {late : Option Resource} {conn : Nat}

theorem Consistent.closed (consistent : Consistent held late st)
    (isOpen : (st.connections conn).socket = true) (closed : ClosedAs conn st st')
    (requestCnt : ∀ key, (st'.scheduler key).requestCnt = (st.scheduler key).requestCnt)
    (valuesOnce : ∀ key, (st'.scheduler key).values.Nodup)
    (values : ∀ key, ∀ value ∈ (st.scheduler key).values, value ∈ (st'.scheduler key).values ↔
      ¬((st.connections conn).announced = true ∧ value.conn = conn))
    (heldOther : ∀ key value request, held = some (key, value, request) →
      ¬((st.connections conn).announced = true ∧ value.conn = conn)) :
    Consistent held late st' := by
  have sameMatchkeys (other : Nat) :
      (st'.connections other).pendingMatchkeys = (st.connections other).pendingMatchkeys ∧
        (st'.connections other).putValues = (st.connections other).putValues := by
    by_cases same : other = conn
    · rw [same, closed.self]
      exact ⟨rfl, rfl⟩
    · rw [closed.others other same]
      exact ⟨rfl, rfl⟩
  constructor
  · rw [closed.history]
    exact ⟨(consistent.sockets conn).mp isOpen, consistent.lawful⟩
  · intro key value
    rw [closed.history, isFree_closed, consistent.free]
    constructor
    · rintro ⟨member | ⟨request, isHeld⟩, kept⟩
      · exact Or.inl ((values key value member).mpr kept)
      · exact Or.inr ⟨request, isHeld⟩
    · rintro (member | ⟨request, isHeld⟩)
      · have earlier := closed.values key value member
        exact ⟨Or.inl earlier, (values key value earlier).mp member⟩
      · exact ⟨Or.inr ⟨request, isHeld⟩, heldOther key value request isHeld⟩
  · exact valuesOnce
  · intro key request
    rw [closed.history, isWaiting_closed, closed.requests]
    exact consistent.waiting key request
  · intro key
    rw [closed.requests]
    exact consistent.requestsOnce key
  · intro key
    rw [closed.requests]
    exact consistent.sorted key
  · intro key request member
    rw [closed.history] at member
    rw [requestCnt]
    exact consistent.counts key request (by simpa using member)
  · intro key value request isHeld
    obtain ⟨notFree, notWaiting, first⟩ := consistent.heldFirst key value request isHeld
    rw [closed.requests]
    exact ⟨mt (closed.values key value) notFree, notWaiting, first⟩
  · intro other matchkey
    rw [(sameMatchkeys other).1, consistent.pending, closed.history]
    simp only [List.mem_cons, reduceCtorEq, false_or, granted_closed]
  · intro other value member
    rw [(sameMatchkeys other).2] at member
    exact consistent.own other value member
  · intro key value member
    rw [(sameMatchkeys value.conn).2]
    rw [closed.history] at member
    exact consistent.puts key value (by simpa using member)
  · intro other
    rw [closed.history]
    by_cases same : other = conn
    · rw [same, closed.self]
      refine iff_of_false Bool.false_ne_true fun none => ?_
      exact none _ (List.mem_cons_self ..)
    · rw [closed.others other same, consistent.sockets]
      simp [same]

theorem closeConnection_spec
    (idle : ∀ key st, Tracker.QuietAt st key → schedule key st = (st, false)) (quiet : st.Quiet)
    (consistent : Consistent held late st) (isOpen : (st.connections conn).socket = true)
    (matching : (st.connections conn).announced = true → KeysMatch st conn)
    (heldOther : ∀ key value request, held = some (key, value, request) →
      ¬((st.connections conn).announced = true ∧ value.conn = conn))
    (lateOther : ∀ value, late = some value →
      ¬((st.connections conn).announced = true ∧ value.conn = conn)) :
    ∃ st', closeConnection schedule conn st = (st', false) ∧ ClosedAs conn st st' ∧
      Consistent held late st' ∧ st'.Quiet := by
  rw [closeConnection, if_pos isOpen]
  generalize isMarked : (st.setConnection conn { st.connections conn with socket := false }).log
    (.closed conn (st.connections conn).announced) = marked
  have self : marked.connections conn = { st.connections conn with socket := false } := by
    rw [← isMarked]
    exact st.connections_setConnection_self ..
  have others (other : Nat) (different : other ≠ conn) :
      marked.connections other = st.connections other := by
    rw [← isMarked]
    exact st.connections_setConnection_ne different _
  have history : marked.history = .closed conn (st.connections conn).announced :: st.history := by
    rw [← isMarked]
    rfl
  have map : marked.schedulerMap = st.schedulerMap := by
    rw [← isMarked]
    rfl
  have scheduler (key : Text) : marked.scheduler key = st.scheduler key := by
    rw [Tracker.scheduler, map, Tracker.scheduler]
  have quietMarked : marked.Quiet := by
    intro key
    rw [Tracker.QuietAt, scheduler]
    exact quiet key
  by_cases announced : (st.connections conn).announced = true
  · obtain ⟨st', removes, removed⟩ := removeValues_removed idle quietMarked
      (fun key => scheduler key ▸ consistent.valuesOnce key) (st.connections conn).putValues
      fun value member => map ▸ (matching announced value member).1
    have closed : ClosedAs conn st st' := by
      refine ⟨removed.history.trans history, removed.connections ▸ self, ?_, fun key => ?_,
        fun key => ?_, fun key value member => ?_⟩
      · exact fun other different => removed.connections ▸ others other different
      · rw [removed.map, map]
      · rw [removed.requests, scheduler]
      · have earlier := ((removed.values key value).mp member).1
        rwa [scheduler] at earlier
    refine ⟨st', ?_, closed, consistent.closed isOpen closed (fun key => ?_) removed.valuesOnce
      (fun key value member => ?_) heldOther, removed.quiet quietMarked⟩
    · rw [if_pos announced]
      exact removes
    · rw [removed.requestCnt, scheduler]
    · rw [removed.values, scheduler, and_iff_right member]
      refine not_congr ⟨fun both => ⟨announced, consistent.own conn value both.1⟩, ?_⟩
      rintro ⟨-, rfl⟩
      have isFree := (consistent.free key value).mpr (Or.inl member)
      rcases consistent.puts key value isFree.1 with inPut | isLate
      · exact ⟨inPut, (matching announced value inPut).2 key member⟩
      · exact absurd ⟨announced, rfl⟩ (lateOther value isLate)
  · have closed : ClosedAs conn st marked :=
      ⟨history, self, others, fun key => by rw [map], fun key => by rw [scheduler],
        fun key value member => by rwa [scheduler] at member⟩
    refine ⟨marked, ?_, closed, consistent.closed isOpen closed (fun key => by rw [scheduler])
      (fun key => scheduler key ▸ consistent.valuesOnce key) (fun key value member => ?_) heldOther,
      quietMarked⟩
    · rw [if_neg announced]
    · rw [scheduler]
      exact iff_of_true member fun both => announced both.1

end Close

section Turn

variable {st st' : Tracker} {key : Text} {value : Resource} {request : Request}
  {late : Option Resource}

theorem granted_granted {history : List Entry} {other : Resource} :
    Granted (.granted key value request :: history) other ↔
      other = value ∨ Granted history other := by
  constructor
  · rintro ⟨key', request', member⟩
    rcases List.mem_cons.mp member with same | earlier
    · cases same
      exact Or.inl rfl
    · exact Or.inr ⟨key', request', earlier⟩
  · rintro (rfl | ⟨key', request', earlier⟩)
    · exact ⟨key, request, List.mem_cons_self ..⟩
    · exact ⟨key', request', List.mem_cons_of_mem _ earlier⟩

theorem isFree_granted {history : List Entry} {key' : Text} {other : Resource} :
    IsFree (.granted key value request :: history) key' other ↔
      IsFree history key' other ∧ other ≠ value := by
  rw [IsFree, IsFree, granted_granted]
  simp only [List.mem_cons, reduceCtorEq, false_or, not_or]
  tauto

theorem isWaiting_granted {history : List Entry} {key' : Text} {other : Request} :
    IsWaiting (.granted key value request :: history) key' other ↔
      IsWaiting history key' other ∧ ¬(key' = key ∧ other = request) := by
  simp only [IsWaiting, List.mem_cons, reduceCtorEq, false_or, Entry.granted.injEq, not_or]
  constructor
  · rintro ⟨requested, notGranted, notDropped⟩
    exact ⟨⟨requested, fun value' => (notGranted value').2, notDropped⟩, fun both =>
      (notGranted value).1 ⟨both.1, rfl, both.2⟩⟩
  · rintro ⟨⟨requested, notGranted, notDropped⟩, different⟩
    exact ⟨requested, fun value' => ⟨fun same => different ⟨same.1, same.2.2⟩, notGranted value'⟩,
      notDropped⟩

theorem isFree_dropped {history : List Entry} {key' : Text} {other : Resource} :
    IsFree (.dropped key request :: history) key' other ↔ IsFree history key' other := by
  simp [IsFree, Granted]

theorem isWaiting_dropped {history : List Entry} {key' : Text} {other : Request} :
    IsWaiting (.dropped key request :: history) key' other ↔
      IsWaiting history key' other ∧ ¬(key' = key ∧ other = request) := by
  simp only [IsWaiting, List.mem_cons, reduceCtorEq, false_or, Entry.dropped.injEq, not_or]
  tauto

theorem Consistent.take (consistent : Consistent none late st) {values : List Resource}
    {requests : List Request} (isValues : (st.scheduler key).values = value :: values)
    (isRequests : (st.scheduler key).requests = request :: requests) :
    Consistent (some (key, value, request)) late (st.setScheduler key
      { st.scheduler key with values := values, requests := requests }) := by
  have once := consistent.valuesOnce key
  rw [isValues] at once
  have requestsOnce := consistent.requestsOnce key
  rw [isRequests] at requestsOnce
  have sorted := consistent.sorted key
  rw [isRequests] at sorted
  constructor
  · exact consistent.lawful
  · intro key' other
    refine (consistent.free key' other).trans ?_
    by_cases same : key' = key
    · subst same
      rw [isValues, st.scheduler_setScheduler_self]
      simp [or_comm, eq_comm]
    · rw [st.scheduler_setScheduler_ne same]
      simp [Ne.symm same]
  · intro key'
    by_cases same : key' = key
    · subst same
      rw [st.scheduler_setScheduler_self]
      exact once.of_cons
    · rw [st.scheduler_setScheduler_ne same]
      exact consistent.valuesOnce key'
  · intro key' other
    refine (consistent.waiting key' other).trans ?_
    by_cases same : key' = key
    · subst same
      rw [isRequests, st.scheduler_setScheduler_self]
      simp [or_comm, eq_comm]
    · rw [st.scheduler_setScheduler_ne same]
      simp [Ne.symm same]
  · intro key'
    by_cases same : key' = key
    · subst same
      rw [st.scheduler_setScheduler_self]
      exact requestsOnce.of_cons
    · rw [st.scheduler_setScheduler_ne same]
      exact consistent.requestsOnce key'
  · intro key'
    by_cases same : key' = key
    · subst same
      rw [st.scheduler_setScheduler_self]
      exact sorted.of_cons
    · rw [st.scheduler_setScheduler_ne same]
      exact consistent.sorted key'
  · intro key' other member
    have bound := consistent.counts key' other member
    by_cases same : key' = key
    · subst same
      rwa [st.scheduler_setScheduler_self]
    · rwa [st.scheduler_setScheduler_ne same]
  · intro key' value' request' isHeld
    cases isHeld
    rw [st.scheduler_setScheduler_self]
    exact ⟨(List.nodup_cons.mp once).1, (List.nodup_cons.mp requestsOnce).1,
      (List.pairwise_cons.mp sorted).1⟩
  · exact consistent.pending
  · exact consistent.own
  · exact consistent.puts
  · exact consistent.sockets

theorem Consistent.grant (consistent : Consistent (some (key, value, request)) late st) :
    ∃ st', grant key value request st = (st', false) ∧ Consistent none late st' ∧
      ∀ key, st'.scheduler key = st.scheduler key := by
  have isFree := (consistent.free key value).mpr (Or.inr ⟨request, rfl⟩)
  have isWaiting := (consistent.waiting key request).mpr (Or.inr ⟨value, rfl⟩)
  obtain ⟨notFree, notWaiting, first⟩ := consistent.heldFirst key value request rfl
  have isPending : value.matchkey ∈ (st.connections value.conn).pendingMatchkeys :=
    (consistent.pending _ _).mpr ⟨key, value, isFree.1, rfl, rfl, isFree.2.1⟩
  rw [Rpc.grant]
  simp only [if_pos isPending]
  refine ⟨_, rfl, ?_, fun _ => rfl⟩
  generalize isGranted : (st.setConnection value.conn _).log (.granted key value request) = st'
  have history : st'.history = .granted key value request :: st.history := by
    rw [← isGranted]
    rfl
  have scheduler (key' : Text) : st'.scheduler key' = st.scheduler key' := by
    rw [← isGranted]
    rfl
  have putValues (conn : Nat) :
      (st'.connections conn).putValues = (st.connections conn).putValues ∧
        (st'.connections conn).socket = (st.connections conn).socket := by
    rw [← isGranted]
    by_cases same : conn = value.conn
    · subst same
      rw [Tracker.log, st.connections_setConnection_self]
      exact ⟨rfl, rfl⟩
    · rw [Tracker.log, st.connections_setConnection_ne same]
      exact ⟨rfl, rfl⟩
  constructor
  · rw [history]
    refine ⟨⟨isFree, isWaiting, fun other waits => ?_⟩, consistent.lawful⟩
    rcases (consistent.waiting key other).mp waits with later | ⟨value', same⟩
    · exact first other later
    · cases same
      exact Or.inr ⟨rfl, le_refl _⟩
  · intro key' other
    rw [history, isFree_granted, consistent.free, scheduler]
    constructor
    · rintro ⟨member | ⟨request', isHeld⟩, different⟩
      · exact Or.inl member
      · cases isHeld
        exact absurd rfl different
    · rintro (member | ⟨request', absurd⟩)
      · refine ⟨Or.inl member, ?_⟩
        rintro rfl
        have elsewhere := (consistent.free key' other).mpr (Or.inl member)
        obtain ⟨rfl, -⟩ := consistent.lawful.put_unique isFree.1 elsewhere.1 rfl
        exact notFree member
      · cases absurd
  · intro key'
    rw [scheduler]
    exact consistent.valuesOnce key'
  · intro key' other
    rw [history, isWaiting_granted, consistent.waiting, scheduler]
    constructor
    · rintro ⟨member | ⟨value', isHeld⟩, different⟩
      · exact Or.inl member
      · cases isHeld
        exact absurd ⟨rfl, rfl⟩ different
    · rintro (member | ⟨value', absurd⟩)
      · refine ⟨Or.inl member, ?_⟩
        rintro ⟨rfl, rfl⟩
        exact notWaiting member
      · cases absurd
  · intro key'
    rw [scheduler]
    exact consistent.requestsOnce key'
  · intro key'
    rw [scheduler]
    exact consistent.sorted key'
  · intro key' other member
    rw [history] at member
    rw [scheduler]
    exact consistent.counts key' other (by simpa using member)
  · intro key' value' request' absurd
    cases absurd
  · intro conn matchkey
    have others : (∃ key' other, .put key' other ∈ st'.history ∧ other.conn = conn ∧
        other.matchkey = matchkey ∧ ¬Granted st'.history other) ↔
        matchkey ∈ (st.connections conn).pendingMatchkeys ∧
          ¬(conn = value.conn ∧ matchkey = value.matchkey) := by
      rw [consistent.pending, history]
      simp only [List.mem_cons, reduceCtorEq, false_or, granted_granted, not_or]
      constructor
      · rintro ⟨key', other, put, rfl, rfl, different, notGranted⟩
        refine ⟨⟨key', other, put, rfl, rfl, notGranted⟩, fun both => different ?_⟩
        exact (consistent.lawful.put_unique put isFree.1 both.2).2
      · rintro ⟨⟨key', other, put, rfl, rfl, notGranted⟩, different⟩
        refine ⟨key', other, put, rfl, rfl, ?_, notGranted⟩
        rintro rfl
        exact different ⟨rfl, rfl⟩
    rw [others, ← isGranted]
    by_cases same : conn = value.conn
    · subst same
      rw [Tracker.log, st.connections_setConnection_self, Finset.mem_erase]
      tauto
    · rw [Tracker.log, st.connections_setConnection_ne same]
      tauto
  · intro conn other member
    rw [(putValues conn).1] at member
    exact consistent.own conn other member
  · intro key' other member
    rw [history] at member
    rw [(putValues other.conn).1]
    exact consistent.puts key' other (by simpa using member)
  · intro conn
    rw [(putValues conn).2, consistent.sockets, history]
    simp

theorem Consistent.decline (consistent : Consistent (some (key, value, request)) late st) :
    Consistent none late (decline key value request st) := by
  have isWaiting := (consistent.waiting key request).mpr (Or.inr ⟨value, rfl⟩)
  obtain ⟨notFree, notWaiting, first⟩ := consistent.heldFirst key value request rfl
  have self : (Rpc.decline key value request st).scheduler key =
      { st.scheduler key with values := (st.scheduler key).values ++ [value] } :=
    st.scheduler_setScheduler_self ..
  have others (key' : Text) (different : key' ≠ key) :
      (Rpc.decline key value request st).scheduler key' = st.scheduler key' :=
    st.scheduler_setScheduler_ne different _
  have history : (Rpc.decline key value request st).history =
      .dropped key request :: st.history := rfl
  constructor
  · exact ⟨isWaiting, consistent.lawful⟩
  · intro key' other
    rw [history, isFree_dropped, consistent.free]
    by_cases same : key' = key
    · subst same
      rw [self]
      simp [eq_comm]
    · rw [others key' same]
      simp [Ne.symm same]
  · intro key'
    by_cases same : key' = key
    · subst same
      rw [self]
      exact List.nodup_append'.mpr ⟨consistent.valuesOnce key', List.nodup_singleton _,
        List.disjoint_singleton.mpr notFree⟩
    · rw [others key' same]
      exact consistent.valuesOnce key'
  · intro key' other
    rw [history, isWaiting_dropped, consistent.waiting]
    by_cases same : key' = key
    · subst same
      rw [self]
      constructor
      · rintro ⟨member | ⟨value', isHeld⟩, different⟩
        · exact Or.inl member
        · cases isHeld
          exact absurd ⟨rfl, rfl⟩ different
      · rintro (member | ⟨value', absurd⟩)
        · refine ⟨Or.inl member, ?_⟩
          rintro ⟨-, rfl⟩
          exact notWaiting member
        · cases absurd
    · rw [others key' same]
      simp [same, Ne.symm same]
  · intro key'
    by_cases same : key' = key
    · subst same
      rw [self]
      exact consistent.requestsOnce key'
    · rw [others key' same]
      exact consistent.requestsOnce key'
  · intro key'
    by_cases same : key' = key
    · subst same
      rw [self]
      exact consistent.sorted key'
    · rw [others key' same]
      exact consistent.sorted key'
  · intro key' other member
    rw [history] at member
    have bound := consistent.counts key' other (by simpa using member)
    by_cases same : key' = key
    · subst same
      rwa [self]
    · rwa [others key' same]
  · intro key' value' request' absurd
    cases absurd
  · intro conn matchkey
    refine (consistent.pending conn matchkey).trans ?_
    rw [history]
    simp [Granted]
  · exact consistent.own
  · intro key' other member
    rw [history] at member
    exact consistent.puts key' other (by simpa using member)
  · intro conn
    refine (consistent.sockets conn).trans ?_
    rw [history]
    simp

end Turn

/-- The requests that are offered a resource and whose message then meets a socket error. -/
def failing (socket : Nat → Bool) : List Request → List Request
  | [] => []
  | request :: rest =>
    if socket request.conn then
      match request.send with
      | .sent => []
      | .bodyFails => [request]
      | .lengthFails => request :: failing (Function.update socket request.conn false) rest
    else failing socket rest

/-- No connection that announced its key fails while it is offered a resource of its own, or with
resources that are not where their match keys say. -/
def OffersWell (st : Tracker) (value : Resource) (requests : List Request) : Prop :=
  ∀ request ∈ failing (fun conn => (st.connections conn).socket) requests,
    (st.connections request.conn).announced = true →
      value.conn ≠ request.conn ∧ KeysMatch st request.conn

section Loop

variable {st st' : Tracker} {key : Text} {value : Resource} {request : Request}
  {late : Option Resource}

theorem schedule_idle (fuel : Nat) (key : Text) (st : Tracker) (quiet : st.QuietAt key) :
    schedule fuel key st = (st, false) := by
  cases fuel with
  | zero => rfl
  | succ fuel =>
    rw [schedule]
    split
    · rename_i value values request requests isValues isRequests
      rcases quiet with empty | empty
      · rw [isValues] at empty
        cases empty
      · rw [isRequests] at empty
        cases empty
    · rfl

theorem KeysMatch.mono {conn : Nat} (matching : KeysMatch st conn)
    (putValues : (st'.connections conn).putValues = (st.connections conn).putValues)
    (map : ∀ key, key ∈ st.schedulerMap → key ∈ st'.schedulerMap)
    (values : ∀ key, ∀ value ∈ (st'.scheduler key).values, value ∈ (st.scheduler key).values) :
    KeysMatch st' conn := by
  intro value member
  rw [putValues] at member
  obtain ⟨inMap, place⟩ := matching value member
  exact ⟨map _ inMap, fun key isFree => place key (values key value isFree)⟩

structure Called (request : Request) (st : Tracker) (result : Tracker × Callback) : Prop where
  returns : result.2 ≠ .raises
  requests : ∀ key, (result.1.scheduler key).requests = (st.scheduler key).requests
  values : ∀ key, ∀ value ∈ (result.1.scheduler key).values, value ∈ (st.scheduler key).values
  map : ∀ key, key ∈ result.1.schedulerMap ↔ key ∈ st.schedulerMap
  connections : ∀ conn, (result.1.connections conn).announced = (st.connections conn).announced ∧
    (result.1.connections conn).putValues = (st.connections conn).putValues
  failing : result.2 = .declines → ∀ rest,
    Rpc.failing (fun conn => (result.1.connections conn).socket) rest ⊆
      Rpc.failing (fun conn => (st.connections conn).socket) (request :: rest)

theorem ClosedAs.called {outcome : Callback} (closed : ClosedAs request.conn st st')
    (returns : outcome ≠ .raises)
    (declines : outcome = .declines → (st.connections request.conn).socket = true ∧
      request.send = .lengthFails) : Called request st (st', outcome) := by
  refine ⟨returns, closed.requests, closed.values, closed.map, fun conn => ?_,
    fun isDeclined rest => ?_⟩
  · by_cases same : conn = request.conn
    · rw [same, closed.self]
      exact ⟨rfl, rfl⟩
    · rw [closed.others conn same]
      exact ⟨rfl, rfl⟩
  · obtain ⟨isOpen, fails⟩ := declines isDeclined
    have sockets : (fun conn => (st'.connections conn).socket) =
        Function.update (fun conn => (st.connections conn).socket) request.conn false := by
      funext conn
      by_cases same : conn = request.conn
      · rw [same, closed.self, Function.update_self]
      · rw [closed.others conn same, Function.update_of_ne same]
    rw [sockets, failing, if_pos isOpen, fails]
    exact List.subset_cons_self _ _

theorem callback_spec {schedule : Text → Tracker → Tracker × Bool}
    (idle : ∀ key st, Tracker.QuietAt st key → schedule key st = (st, false))
    (consistent : Consistent (some (key, value, request)) late st) (quiet : st.Quiet)
    {rest : List Request} (offers : OffersWell st value (request :: rest))
    (lateIs : ∀ other, late = some other → other.conn = value.conn) :
    Called request st (callback schedule request st) ∧
      Consistent (some (key, value, request)) late (callback schedule request st).1 ∧
        (callback schedule request st).1.Quiet := by
  have closes (isOpen : (st.connections request.conn).socket = true)
      (fails : request ∈ failing (fun conn => (st.connections conn).socket) (request :: rest)) :
      ∃ st', closeConnection schedule request.conn st = (st', false) ∧
        ClosedAs request.conn st st' ∧ Consistent (some (key, value, request)) late st' ∧
          st'.Quiet := by
    refine closeConnection_spec idle quiet consistent isOpen
      (fun announced => (offers request fails announced).2) ?_ ?_
    · rintro key' value' request' isHeld ⟨announced, same⟩
      cases isHeld
      exact (offers _ fails announced).1 same
    · rintro other isLate ⟨announced, same⟩
      exact (offers request fails announced).1 ((lateIs other isLate).symm.trans same)
  by_cases isOpen : (st.connections request.conn).socket = true
  · rw [callback, if_pos isOpen]
    cases fails : request.send with
    | sent =>
      refine ⟨⟨(fun absurd => by cases absurd), fun _ => rfl, fun _ _ member => member,
        fun _ => Iff.rfl, fun _ => ⟨rfl, rfl⟩, (fun absurd => by cases absurd)⟩, consistent, quiet⟩
    | lengthFails =>
      obtain ⟨st', isClosed, closed, consistent', quiet'⟩ := closes isOpen (by
        rw [failing, if_pos isOpen, fails]
        exact List.mem_cons_self ..)
      simp only [isClosed]
      exact ⟨closed.called (by decide) fun _ => ⟨isOpen, fails⟩, consistent', quiet'⟩
    | bodyFails =>
      obtain ⟨st', isClosed, closed, consistent', quiet'⟩ := closes isOpen (by
        rw [failing, if_pos isOpen, fails]
        exact List.mem_cons_self ..)
      simp only [isClosed]
      exact ⟨closed.called (by decide) (fun absurd => by cases absurd), consistent', quiet'⟩
  · rw [callback, if_neg isOpen]
    refine ⟨⟨(fun absurd => by cases absurd), fun _ => rfl, fun _ _ member => member,
      fun _ => Iff.rfl, fun _ => ⟨rfl, rfl⟩, fun _ rest => ?_⟩, consistent, quiet⟩
    rw [failing, if_neg isOpen]
    exact List.Subset.refl _

theorem Consistent.idle (consistent : Consistent none late st)
    (others : ∀ key', key' ≠ key → st.QuietAt key') (quiet : st.QuietAt key) (fuel : Nat) :
    (schedule fuel key st).2 = false ∧ Consistent none late (schedule fuel key st).1 ∧
      (schedule fuel key st).1.Quiet := by
  rw [schedule_idle fuel key st quiet]
  refine ⟨rfl, consistent, fun key' => ?_⟩
  by_cases same : key' = key
  · exact same ▸ quiet
  · exact others key' same

theorem schedule_spec (key : Text) (fuel : Nat) (st : Tracker) (consistent : Consistent none late st)
    (others : ∀ key', key' ≠ key → st.QuietAt key')
    (small : (st.scheduler key).values.length ≤ 1 ∨ (st.scheduler key).requests.length ≤ 1)
    (enough : (st.scheduler key).requests.length ≤ fuel)
    (lateIs : ∀ other, late = some other → ∀ value ∈ (st.scheduler key).values,
      other.conn = value.conn)
    (offers : ∀ value, (st.scheduler key).values.head? = some value →
      OffersWell st value (st.scheduler key).requests) :
    (schedule fuel key st).2 = false ∧ Consistent none late (schedule fuel key st).1 ∧
      (schedule fuel key st).1.Quiet := by
  induction fuel generalizing st with
  | zero =>
    have none := List.eq_nil_of_length_eq_zero (Nat.le_zero.mp enough)
    exact consistent.idle others (Or.inr none) 0
  | succ fuel ih =>
    cases isValues : (st.scheduler key).values with
    | nil => exact consistent.idle others (Or.inl isValues) _
    | cons value values =>
      cases isRequests : (st.scheduler key).requests with
      | nil => exact consistent.idle others (Or.inr isRequests) _
      | cons request requests =>
        rw [isValues, isRequests] at small offers
        rw [isRequests] at enough
        have offersFirst := offers value rfl
        have lateFirst (other : Resource) (isLate : late = some other) :
            other.conn = value.conn :=
          lateIs other isLate value (isValues ▸ List.mem_cons_self ..)
        have taken := consistent.take isValues isRequests
        obtain ⟨st₁, isTaken⟩ : ∃ st₁, st.setScheduler key
          { st.scheduler key with values := values, requests := requests } = st₁ := ⟨_, rfl⟩
        rw [isTaken] at taken
        rw [schedule, isValues, isRequests]
        simp only [isTaken]
        have self : st₁.scheduler key =
            { st.scheduler key with values := values, requests := requests } := by
          rw [← isTaken, st.scheduler_setScheduler_self]
        have elsewhere (key' : Text) (different : key' ≠ key) :
            st₁.scheduler key' = st.scheduler key' := by
          rw [← isTaken, st.scheduler_setScheduler_ne different]
        have fewer (key' : Text) (other : Resource)
            (member : other ∈ (st₁.scheduler key').values) :
            other ∈ (st.scheduler key').values := by
          by_cases same : key' = key
          · subst same
            rw [self] at member
            rw [isValues]
            exact List.mem_cons_of_mem _ member
          · rwa [elsewhere key' same] at member
        have connections : st₁.connections = st.connections := by
          rw [← isTaken]
          rfl
        have quiet₁ : st₁.Quiet := by
          intro key'
          by_cases same : key' = key
          · subst same
            rw [Tracker.QuietAt, self]
            refine small.imp (fun one => ?_) fun one => ?_
            · exact List.eq_nil_of_length_eq_zero (Nat.le_zero.mp (Nat.le_of_succ_le_succ one))
            · exact List.eq_nil_of_length_eq_zero (Nat.le_zero.mp (Nat.le_of_succ_le_succ one))
          · rw [Tracker.QuietAt, elsewhere key' same]
            exact others key' same
        have inMap (key' : Text) (member : key' ∈ st.schedulerMap) :
            key' ∈ st₁.schedulerMap := by
          rw [← isTaken, Tracker.setScheduler, AList.mem_insert]
          exact Or.inr member
        have offers₁ : OffersWell st₁ value (request :: requests) := by
          rw [OffersWell, connections]
          intro other fails announced
          obtain ⟨different, matching⟩ := offersFirst other fails announced
          exact ⟨different, matching.mono (by rw [connections]) inMap fewer⟩
        obtain ⟨called, consistent₂, quiet₂⟩ := callback_spec (schedule_idle fuel) taken quiet₁
          offers₁ lateFirst
        generalize callback (schedule fuel) request st₁ = result at called consistent₂ quiet₂ ⊢
        obtain ⟨st₂, outcome⟩ := result
        cases outcome with
        | raises => exact absurd rfl called.returns
        | accepts =>
          obtain ⟨st₃, isGranted, consistent₃, same⟩ := consistent₂.grant
          have quiet₃ : st₃.Quiet := by
            intro key'
            rw [Tracker.QuietAt, same key']
            exact quiet₂ key'
          simp only [isGranted]
          rw [if_neg Bool.false_ne_true, schedule_idle fuel key st₃ (quiet₃ key)]
          exact ⟨rfl, consistent₃, quiet₃⟩
        | declines =>
          have declined : (decline key value request st₂).scheduler key =
              { st₂.scheduler key with values := (st₂.scheduler key).values ++ [value] } :=
            st₂.scheduler_setScheduler_self ..
          have declinedElsewhere (key' : Text) (different : key' ≠ key) :
              (decline key value request st₂).scheduler key' = st₂.scheduler key' :=
            st₂.scheduler_setScheduler_ne different _
          have requests₂ : (st₂.scheduler key).requests = requests := by
            rw [called.requests, self]
          have values₂ (one : values = []) : (st₂.scheduler key).values = [] := by
            refine List.eq_nil_iff_forall_not_mem.mpr fun other member => ?_
            have earlier := called.values key other member
            rw [self, one] at earlier
            cases earlier
          refine ih _ consistent₂.decline (fun key' different => ?_) ?_ ?_ ?_
            ?_
          · rw [Tracker.QuietAt, declinedElsewhere key' different]
            exact quiet₂ key'
          · rw [declined, requests₂]
            refine small.imp (fun one => ?_) fun one => Nat.le_of_succ_le one
            have none : values = [] :=
              List.eq_nil_of_length_eq_zero (Nat.le_zero.mp (Nat.le_of_succ_le_succ one))
            rw [values₂ none]
            exact le_refl 1
          · rw [declined, requests₂]
            exact Nat.le_of_succ_le_succ enough
          · intro other isLate value' member
            rw [declined] at member
            rcases List.mem_append.mp member with earlier | isValue
            · exact lateIs other isLate value' (fewer key value' (called.values key value'
                earlier))
            · rw [List.mem_singleton.mp isValue]
              exact lateFirst other isLate
          · intro value' isFirst
            rw [declined] at isFirst ⊢
            rw [requests₂]
            rcases small with one | one
            · have none : values = [] :=
                List.eq_nil_of_length_eq_zero (Nat.le_zero.mp (Nat.le_of_succ_le_succ one))
              rw [values₂ none] at isFirst
              cases isFirst
              intro other fails announced
              obtain ⟨announced₂, putValues₂⟩ := called.connections other.conn
              rw [connections] at announced₂ putValues₂
              have earlier := called.failing rfl requests fails
              rw [connections] at earlier
              obtain ⟨different, matching⟩ := offersFirst other earlier
                (announced₂ ▸ announced)
              refine ⟨different, matching.mono putValues₂ (fun key' member => ?_)
                fun key' value' member => ?_⟩
              · rw [decline, Tracker.log, Tracker.setScheduler, AList.mem_insert]
                exact Or.inr ((called.map key').mpr (inMap key' member))
              · by_cases same : key' = key
                · subst same
                  rw [declined, values₂ none] at member
                  rw [List.mem_singleton.mp member, isValues]
                  exact List.mem_cons_self ..
                · rw [declinedElsewhere key' same] at member
                  exact fewer key' value' (called.values key' value' member)
            · have none : requests = [] :=
                List.eq_nil_of_length_eq_zero (Nat.le_zero.mp (Nat.le_of_succ_le_succ one))
              rw [none]
              exact fun other absurd => by cases absurd

end Loop

/-- A message of an open connection; a match key is new. -/
def Tracker.Admits (st : Tracker) (event : Event) : Prop :=
  (st.connections event.conn).socket = true ∧
    ∀ conn key addr port matchkey, event = .put conn key addr port matchkey →
      ∀ key' value, .put key' value ∈ st.history → value.matchkey ≠ matchkey

/-- No connection that announced its key closes while a resource of its own is offered to it, and
none closes with resources that are not where their match keys say. -/
def Tracker.ClosesWell (st : Tracker) : Event → Prop
  | .announce _ => True
  | .put conn key addr port matchkey =>
    OffersWell st ⟨conn, addr, port, matchkey⟩ (st.scheduler key).requests
  | .request conn key priority send =>
    ∀ value, (st.scheduler key).values.head? = some value →
      OffersWell st value [⟨priority, (st.scheduler key).requestCnt, conn, send⟩]
  | .close conn => (st.connections conn).announced = true → KeysMatch st conn

theorem Request.before_total (a b : Request) : a.Before b ∨ b.Before a := by
  unfold Request.Before
  omega

theorem Request.before_trans (a b c : Request) (first : a.Before b) (second : b.Before c) :
    a.Before c := by
  unfold Request.Before at *
  omega

instance : Std.Total Request.Before := ⟨Request.before_total⟩

instance : IsTrans Request Request.Before := ⟨Request.before_trans⟩

section Step

variable {st : Tracker}

theorem Tracker.requests_le_pendingRequests (st : Tracker) (key : Text) :
    (st.scheduler key).requests.length ≤ st.pendingRequests := by
  rw [scheduler, pendingRequests]
  cases found : st.schedulerMap.lookup key with
  | none => exact Nat.zero_le _
  | some s =>
    have member := AList.mem_lookup_iff.mp (Option.mem_def.mpr found)
    exact List.single_le_sum (fun _ _ => Nat.zero_le _) _
      (List.mem_map_of_mem (f := fun entry : Sigma fun _ : Text => Scheduler =>
        entry.2.requests.length) member)

def Good (st : Tracker) : Prop :=
  Consistent none none st ∧ st.Quiet

theorem Good.announce (good : Good st) (conn : Nat) : Good (st.step (.announce conn)) := by
  obtain ⟨consistent, quiet⟩ := good
  have same (other : Nat) :
      ((st.step (.announce conn)).connections other).pendingMatchkeys =
        (st.connections other).pendingMatchkeys ∧
      ((st.step (.announce conn)).connections other).putValues = (st.connections other).putValues ∧
      ((st.step (.announce conn)).connections other).socket = (st.connections other).socket := by
    by_cases isSame : other = conn
    · subst isSame
      rw [Tracker.step, st.connections_setConnection_self]
      exact ⟨rfl, rfl, rfl⟩
    · rw [Tracker.step, st.connections_setConnection_ne isSame]
      exact ⟨rfl, rfl, rfl⟩
  refine ⟨⟨consistent.lawful, consistent.free, consistent.valuesOnce, consistent.waiting,
    consistent.requestsOnce, consistent.sorted, consistent.counts, consistent.heldFirst,
    fun other => ?_, fun other => ?_, fun key value => ?_, fun other => ?_⟩, quiet⟩
  · rw [(same other).1]
    exact consistent.pending other
  · rw [(same other).2.1]
    exact consistent.own other
  · rw [(same value.conn).2.1]
    exact consistent.puts key value
  · rw [(same other).2.2]
    exact consistent.sockets other

theorem Good.close (good : Good st) {conn : Nat} (admits : st.Admits (.close conn))
    (closes : st.ClosesWell (.close conn)) : Good (st.step (.close conn)) := by
  have isOpen : (st.connections conn).socket = true := admits.1
  obtain ⟨st', isClosed, -, consistent, quiet⟩ := closeConnection_spec
    (schedule_idle st.pendingRequests) good.2 good.1 isOpen closes
    (fun _ _ _ absurd => by cases absurd) (fun _ absurd => by cases absurd)
  rw [Tracker.step, isClosed]
  exact ⟨consistent, quiet⟩

theorem Consistent.requested (consistent : Consistent none none st) (key : Text) (priority : Int)
    (conn : Nat) (send : SendResult) : Consistent none none ((st.setScheduler key
      { st.scheduler key with
        requestCnt := (st.scheduler key).requestCnt + 1
        requests := (st.scheduler key).requests.orderedInsert Request.Before
          ⟨priority, (st.scheduler key).requestCnt, conn, send⟩ }).log
            (.requested key ⟨priority, (st.scheduler key).requestCnt, conn, send⟩)) := by
  generalize isRequest : (⟨priority, (st.scheduler key).requestCnt, conn, send⟩ : Request) = request
  have count : request.count = (st.scheduler key).requestCnt := by rw [← isRequest]
  generalize isNext : Tracker.log _ _ = next
  have history : next.history = .requested key request :: st.history := by
    rw [← isNext]
    rfl
  have connections : next.connections = st.connections := by
    rw [← isNext]
    rfl
  have self : next.scheduler key = { st.scheduler key with
      requestCnt := (st.scheduler key).requestCnt + 1
      requests := (st.scheduler key).requests.orderedInsert Request.Before request } := by
    rw [← isNext]
    exact st.scheduler_setScheduler_self ..
  have elsewhere (key' : Text) (different : key' ≠ key) :
      next.scheduler key' = st.scheduler key' := by
    rw [← isNext]
    exact st.scheduler_setScheduler_ne different _
  have values (key' : Text) : (next.scheduler key').values = (st.scheduler key').values := by
    by_cases same : key' = key
    · rw [same, self]
    · rw [elsewhere key' same]
  have new : .requested key request ∉ st.history := fun member =>
    absurd (consistent.counts key request member) (by rw [count]; exact lt_irrefl _)
  have notWaiting : request ∉ (st.scheduler key).requests := fun member =>
    new ((consistent.waiting key request).mpr (Or.inl member)).1
  constructor
  · rw [history]
    exact ⟨fun other member => count ▸ consistent.counts key other member, consistent.lawful⟩
  · intro key' value
    rw [history, values, ← consistent.free]
    simp [IsFree, Granted]
  · intro key'
    rw [values]
    exact consistent.valuesOnce key'
  · intro key' other
    have fresh : IsWaiting (.requested key request :: st.history) key' other ↔
        (key' = key ∧ other = request) ∨ IsWaiting st.history key' other := by
      simp only [IsWaiting, List.mem_cons, reduceCtorEq, false_or, Entry.requested.injEq]
      constructor
      · rintro ⟨same | requested, rest⟩
        · exact Or.inl same
        · exact Or.inr ⟨requested, rest⟩
      · rintro (⟨rfl, rfl⟩ | ⟨requested, rest⟩)
        · refine ⟨Or.inl ⟨rfl, rfl⟩, fun value granted => new ?_, fun dropped => new ?_⟩
          · exact consistent.lawful.requested_of_granted granted
          · obtain ⟨newer, older, split⟩ := List.append_of_mem dropped
            have waits : IsWaiting older key' other := (split ▸ consistent.lawful).allowed
            rw [split]
            exact List.mem_append_right _ (List.mem_cons_of_mem _ waits.1)
        · exact ⟨Or.inr requested, rest⟩
    rw [history, fresh, consistent.waiting]
    by_cases same : key' = key
    · subst same
      rw [self, List.mem_orderedInsert]
      simp
    · rw [elsewhere key' same]
      simp [same]
  · intro key'
    by_cases same : key' = key
    · subst same
      rw [self]
      exact (List.perm_orderedInsert _ _ _).nodup_iff.mpr
        (List.nodup_cons.mpr ⟨notWaiting, consistent.requestsOnce key'⟩)
    · rw [elsewhere key' same]
      exact consistent.requestsOnce key'
  · intro key'
    by_cases same : key' = key
    · subst same
      rw [self]
      exact (consistent.sorted key').orderedInsert _ _
    · rw [elsewhere key' same]
      exact consistent.sorted key'
  · intro key' other member
    rw [history] at member
    rcases List.mem_cons.mp member with same | earlier
    · cases same
      rw [self, count]
      exact Nat.lt_succ_self _
    · have bound := consistent.counts key' other earlier
      by_cases same : key' = key
      · subst same
        rw [self]
        exact Nat.lt_succ_of_lt bound
      · rwa [elsewhere key' same]
  · intro key' value request' absurd
    cases absurd
  · intro other matchkey
    rw [connections, consistent.pending, history]
    simp [Granted]
  · rw [connections]
    exact consistent.own
  · intro key' value member
    rw [history] at member
    rw [connections]
    exact consistent.puts key' value (by simpa using member)
  · intro other
    rw [connections, consistent.sockets, history]
    simp

theorem Good.request (good : Good st) {conn : Nat} {key : Text} {priority : Int} {send : SendResult}
    (closes : st.ClosesWell (.request conn key priority send)) :
    Good (st.step (.request conn key priority send)) := by
  obtain ⟨consistent, quiet⟩ := good
  have requested := consistent.requested key priority conn send
  rw [Tracker.step, Tracker.request]
  generalize isNext : Tracker.log _ _ = next at requested ⊢
  have connections : next.connections = st.connections := by
    rw [← isNext]
    rfl
  have self : next.scheduler key = { st.scheduler key with
      requestCnt := (st.scheduler key).requestCnt + 1
      requests := (st.scheduler key).requests.orderedInsert Request.Before
        ⟨priority, (st.scheduler key).requestCnt, conn, send⟩ } := by
    rw [← isNext]
    exact st.scheduler_setScheduler_self ..
  have elsewhere (key' : Text) (different : key' ≠ key) :
      next.scheduler key' = st.scheduler key' := by
    rw [← isNext]
    exact st.scheduler_setScheduler_ne different _
  have others (key' : Text) (different : key' ≠ key) : next.QuietAt key' := by
    rw [Tracker.QuietAt, elsewhere key' different]
    exact quiet key'
  rcases quiet key with none | none
  · have quietNext : next.QuietAt key := Or.inl (by rw [self, none])
    exact (requested.idle others quietNext _).2
  · rw [none, List.orderedInsert_nil] at self
    refine (schedule_spec key _ next requested others (Or.inr ?_)
      (next.requests_le_pendingRequests key) (fun _ absurd => by cases absurd) ?_).2
    · rw [self]
      exact le_refl 1
    · intro value isFirst
      rw [self] at isFirst ⊢
      rw [OffersWell, connections]
      intro other fails announced
      obtain ⟨different, matching⟩ := closes value isFirst other fails announced
      refine ⟨different, matching.mono (by rw [connections]) (fun key' member => ?_)
        fun key' value' member => ?_⟩
      · rw [← isNext, Tracker.log, Tracker.setScheduler, AList.mem_insert]
        exact Or.inr member
      · by_cases same : key' = key
        · subst same
          rwa [self] at member
        · rwa [elsewhere key' same] at member

/-- A resource that has just come is at the end of its list. -/
def Tracker.place (st : Tracker) (key : Text) (value : Resource) : Tracker :=
  ((st.setConnection value.conn
    { st.connections value.conn with
      pendingMatchkeys := insert value.matchkey (st.connections value.conn).pendingMatchkeys }).log
        (.put key value)).setScheduler key
          { st.scheduler key with values := (st.scheduler key).values ++ [value] }

theorem Consistent.placed (consistent : Consistent none none st) (key : Text) (value : Resource)
    (isOpen : (st.connections value.conn).socket = true)
    (new : ∀ key' other, .put key' other ∈ st.history → other.matchkey ≠ value.matchkey) :
    Consistent none (some value) (st.place key value) := by
  rw [Tracker.place]
  generalize isNext : Tracker.setScheduler _ _ _ = next
  have history : next.history = .put key value :: st.history := by
    rw [← isNext]
    rfl
  have self : next.scheduler key =
      { st.scheduler key with values := (st.scheduler key).values ++ [value] } := by
    rw [← isNext]
    exact Tracker.scheduler_setScheduler_self ..
  have elsewhere (key' : Text) (different : key' ≠ key) :
      next.scheduler key' = st.scheduler key' := by
    rw [← isNext]
    exact Tracker.scheduler_setScheduler_ne _ different _
  have connection (conn : Nat) :
      (next.connections conn).putValues = (st.connections conn).putValues ∧
      (next.connections conn).socket = (st.connections conn).socket ∧
      ∀ matchkey, matchkey ∈ (next.connections conn).pendingMatchkeys ↔
        (conn = value.conn ∧ matchkey = value.matchkey) ∨
          matchkey ∈ (st.connections conn).pendingMatchkeys := by
    rw [← isNext, Tracker.setScheduler, Tracker.log]
    by_cases same : conn = value.conn
    · subst same
      rw [st.connections_setConnection_self]
      exact ⟨rfl, rfl, fun matchkey => by simp⟩
    · rw [st.connections_setConnection_ne same]
      exact ⟨rfl, rfl, fun matchkey => by simp [same]⟩
  have notGranted : ¬Granted st.history value := by
    rintro ⟨key', request, granted⟩
    exact new key' value (consistent.lawful.put_of_granted granted) rfl
  have notClosed := (consistent.sockets value.conn).mp isOpen
  have granted (other : Resource) :
      Granted (.put key value :: st.history) other ↔ Granted st.history other := by
    simp [Granted]
  constructor
  · rw [history]
    exact ⟨⟨new, notClosed⟩, consistent.lawful⟩
  · intro key' other
    have fresh : IsFree (.put key value :: st.history) key' other ↔
        (key' = key ∧ other = value) ∨ IsFree st.history key' other := by
      rw [IsFree, IsFree, granted]
      simp only [List.mem_cons, reduceCtorEq, false_or, Entry.put.injEq]
      constructor
      · rintro ⟨same | put, rest⟩
        · exact Or.inl same
        · exact Or.inr ⟨put, rest⟩
      · rintro (⟨rfl, rfl⟩ | ⟨put, rest⟩)
        · exact ⟨Or.inl ⟨rfl, rfl⟩, notGranted, notClosed true⟩
        · exact ⟨Or.inr put, rest⟩
    rw [history, fresh, consistent.free]
    by_cases same : key' = key
    · subst same
      rw [self]
      simp [or_comm]
    · rw [elsewhere key' same]
      simp [same]
  · intro key'
    by_cases same : key' = key
    · subst same
      rw [self]
      refine List.nodup_append'.mpr ⟨consistent.valuesOnce key', List.nodup_singleton _, ?_⟩
      refine List.disjoint_singleton.mpr fun member => ?_
      exact new key' value ((consistent.free key' value).mpr (Or.inl member)).1 rfl
    · rw [elsewhere key' same]
      exact consistent.valuesOnce key'
  · intro key' request
    have waits : IsWaiting (.put key value :: st.history) key' request ↔
        IsWaiting st.history key' request := by
      simp [IsWaiting]
    rw [history, waits, consistent.waiting]
    by_cases same : key' = key
    · subst same
      rw [self]
    · rw [elsewhere key' same]
  · intro key'
    by_cases same : key' = key
    · subst same
      rw [self]
      exact consistent.requestsOnce key'
    · rw [elsewhere key' same]
      exact consistent.requestsOnce key'
  · intro key'
    by_cases same : key' = key
    · subst same
      rw [self]
      exact consistent.sorted key'
    · rw [elsewhere key' same]
      exact consistent.sorted key'
  · intro key' request member
    rw [history] at member
    have bound := consistent.counts key' request (by simpa using member)
    by_cases same : key' = key
    · subst same
      rwa [self]
    · rwa [elsewhere key' same]
  · intro key' value' request' absurd
    cases absurd
  · intro conn matchkey
    rw [(connection conn).2.2, consistent.pending, history]
    constructor
    · rintro (⟨rfl, rfl⟩ | ⟨key', other, put, rfl, rfl, others⟩)
      · exact ⟨key, value, List.mem_cons_self .., rfl, rfl, (granted value).not.mpr notGranted⟩
      · exact ⟨key', other, List.mem_cons_of_mem _ put, rfl, rfl, (granted other).not.mpr others⟩
    · rintro ⟨key', other, put, rfl, rfl, others⟩
      rcases List.mem_cons.mp put with same | earlier
      · cases same
        exact Or.inl ⟨rfl, rfl⟩
      · exact Or.inr ⟨key', other, earlier, rfl, rfl, (granted other).not.mp others⟩
  · intro conn
    rw [(connection conn).1]
    exact consistent.own conn
  · intro key' other member
    rw [(connection other.conn).1]
    rw [history] at member
    rcases List.mem_cons.mp member with same | earlier
    · cases same
      exact Or.inr rfl
    · exact (consistent.puts key' other earlier).imp_right fun absurd => by cases absurd
  · intro conn
    rw [(connection conn).2.1, consistent.sockets, history]
    simp

theorem Consistent.hold {value : Resource} (consistent : Consistent none (some value) st) :
    Consistent none none (st.setConnection value.conn { st.connections value.conn with
      putValues := (st.connections value.conn).putValues ++ [value] }) := by
  generalize isNext : Tracker.setConnection _ _ _ = next
  have connection (conn : Nat) :
      (next.connections conn).pendingMatchkeys = (st.connections conn).pendingMatchkeys ∧
      (next.connections conn).socket = (st.connections conn).socket ∧
      ∀ other, other ∈ (next.connections conn).putValues ↔
        other ∈ (st.connections conn).putValues ∨ conn = value.conn ∧ other = value := by
    rw [← isNext]
    by_cases same : conn = value.conn
    · subst same
      rw [st.connections_setConnection_self]
      exact ⟨rfl, rfl, fun other => by simp⟩
    · rw [st.connections_setConnection_ne same]
      exact ⟨rfl, rfl, fun other => by simp [same]⟩
  have history : next.history = st.history := by
    rw [← isNext]
    rfl
  have scheduler : next.scheduler = st.scheduler := by
    rw [← isNext]
    rfl
  constructor
  · rw [history]
    exact consistent.lawful
  · rw [history, scheduler]
    exact consistent.free
  · rw [scheduler]
    exact consistent.valuesOnce
  · rw [history, scheduler]
    exact consistent.waiting
  · rw [scheduler]
    exact consistent.requestsOnce
  · rw [scheduler]
    exact consistent.sorted
  · rw [history, scheduler]
    exact consistent.counts
  · rw [scheduler]
    exact consistent.heldFirst
  · intro conn
    rw [history, (connection conn).1]
    exact consistent.pending conn
  · intro conn other member
    rcases ((connection conn).2.2 other).mp member with earlier | ⟨rfl, rfl⟩
    · exact consistent.own conn other earlier
    · rfl
  · intro key other member
    rw [history] at member
    refine Or.inl (((connection other.conn).2.2 other).mpr ?_)
    rcases consistent.puts key other member with earlier | isLate
    · exact Or.inl earlier
    · cases isLate
      exact Or.inr ⟨rfl, rfl⟩
  · intro conn
    rw [history, (connection conn).2.1]
    exact consistent.sockets conn

theorem Good.put (good : Good st) {conn : Nat} {key addr matchkey : Text} {port : Nat}
    (admits : st.Admits (.put conn key addr port matchkey))
    (closes : st.ClosesWell (.put conn key addr port matchkey)) :
    Good (st.step (.put conn key addr port matchkey)) := by
  obtain ⟨consistent, quiet⟩ := good
  have placed := consistent.placed key ⟨conn, addr, port, matchkey⟩ admits.1
    (admits.2 conn key addr port matchkey rfl)
  have stepIs : st.step (.put conn key addr port matchkey) =
      let next := st.place key ⟨conn, addr, port, matchkey⟩
      let placed := schedule next.pendingRequests key next
      if placed.2 then placed.1
      else placed.1.setConnection conn { placed.1.connections conn with
        putValues := (placed.1.connections conn).putValues ++ [⟨conn, addr, port, matchkey⟩] } := rfl
  rw [stepIs]
  generalize isNext : st.place key ⟨conn, addr, port, matchkey⟩ = next at placed ⊢
  have self : next.scheduler key = { st.scheduler key with
      values := (st.scheduler key).values ++ [⟨conn, addr, port, matchkey⟩] } := by
    rw [← isNext]
    exact Tracker.scheduler_setScheduler_self ..
  have elsewhere (key' : Text) (different : key' ≠ key) :
      next.scheduler key' = st.scheduler key' := by
    rw [← isNext]
    exact Tracker.scheduler_setScheduler_ne _ different _
  have others (key' : Text) (different : key' ≠ key) : next.QuietAt key' := by
    rw [Tracker.QuietAt, elsewhere key' different]
    exact quiet key'
  have connection (other : Nat) :
      (next.connections other).putValues = (st.connections other).putValues ∧
      (next.connections other).socket = (st.connections other).socket ∧
      (next.connections other).announced = (st.connections other).announced := by
    rw [← isNext, Tracker.place, Tracker.setScheduler, Tracker.log]
    by_cases same : other = conn
    · subst same
      rw [st.connections_setConnection_self]
      exact ⟨rfl, rfl, rfl⟩
    · rw [st.connections_setConnection_ne same]
      exact ⟨rfl, rfl, rfl⟩
  have scheduled : (schedule next.pendingRequests key next).2 = false ∧
      Consistent none (some ⟨conn, addr, port, matchkey⟩)
        (schedule next.pendingRequests key next).1 ∧
          (schedule next.pendingRequests key next).1.Quiet := by
    rcases quiet key with none | none
    · rw [none, List.nil_append] at self
      refine schedule_spec key _ next placed others (Or.inl ?_)
        (next.requests_le_pendingRequests key) ?_ ?_
      · rw [self]
        exact le_refl 1
      · intro other isLate value member
        cases isLate
        rw [self] at member
        rw [List.mem_singleton.mp member]
      · intro value isFirst
        rw [self] at isFirst ⊢
        cases isFirst
        have sockets : (fun other => (next.connections other).socket) =
            fun other => (st.connections other).socket :=
          funext fun other => (connection other).2.1
        rw [OffersWell, sockets]
        intro request fails announced
        rw [(connection request.conn).2.2] at announced
        obtain ⟨different, matching⟩ := closes request fails announced
        refine ⟨different, fun value member => ?_⟩
        rw [(connection request.conn).1] at member
        obtain ⟨inMap, place⟩ := matching value member
        refine ⟨?_, fun key' isFree => ?_⟩
        · rw [← isNext, Tracker.place, Tracker.setScheduler, AList.mem_insert]
          exact Or.inr inMap
        · by_cases same : key' = key
          · subst same
            rw [self] at isFree
            have isValue := List.mem_singleton.mp isFree
            have isOwn := consistent.own request.conn value member
            rw [isValue] at isOwn
            exact absurd isOwn different
          · rw [elsewhere key' same] at isFree
            exact place key' isFree
    · have quietNext : next.QuietAt key := Or.inr (by rw [self, none])
      exact placed.idle others quietNext _
  obtain ⟨returns, consistent', quiet'⟩ := scheduled
  simp only [returns, Bool.false_eq_true, if_false]
  exact ⟨consistent'.hold, quiet'⟩

theorem Good.step (good : Good st) {event : Event} (admits : st.Admits event)
    (closes : st.ClosesWell event) : Good (st.step event) := by
  cases event with
  | announce conn => exact good.announce conn
  | put conn key addr port matchkey => exact good.put admits closes
  | request conn key priority send => exact good.request closes
  | close conn => exact good.close admits closes

theorem good_initial : Good Tracker.initial := by
  refine ⟨⟨trivial, fun key value => ?_, fun key => List.nodup_nil, fun key request => ?_,
    fun key => List.nodup_nil, fun key => List.Pairwise.nil, fun key request absurd => ?_,
    fun key value request absurd => ?_, fun conn matchkey => ?_, fun conn value absurd => ?_,
    fun key value absurd => ?_, fun conn => ?_⟩, fun key => Or.inl rfl⟩
  · refine iff_of_false (fun isFree => ?_) ?_
    · cases isFree.1
    · rintro (absurd | ⟨request, absurd⟩)
      · cases absurd
      · cases absurd
  · refine iff_of_false (fun waits => ?_) ?_
    · cases waits.1
    · rintro (absurd | ⟨value, absurd⟩)
      · cases absurd
      · cases absurd
  · cases absurd
  · cases absurd
  · refine iff_of_false (Finset.notMem_empty _) ?_
    rintro ⟨key, value, absurd, -⟩
    cases absurd
  · cases absurd
  · cases absurd
  · exact iff_of_true rfl fun announced absurd => by cases absurd

end Step

def AdmittedFrom (st : Tracker) : List Event → Prop
  | [] => True
  | event :: rest => st.Admits event ∧ AdmittedFrom (st.step event) rest

/-- Every event of a run meets the condition. -/
def ClosesWellFrom (st : Tracker) : List Event → Prop
  | [] => True
  | event :: rest => st.ClosesWell event ∧ ClosesWellFrom (st.step event) rest

structure TrackerSafe (st : Tracker) : Prop where
  /-- A resource that is not granted and whose connection is open is in one list, once. -/
  kept : ∀ key value, .put key value ∈ st.history → (st.connections value.conn).socket = true →
    ¬Granted st.history value → (st.scheduler key).values.count value = 1 ∧
      ∀ key', key' ≠ key → value ∉ (st.scheduler key').values
  grantedOnce : ∀ value, (st.history.filter (Entry.grants value)).length ≤ 1
  servedOnce : ∀ key request, (st.history.filter (Entry.serves key request)).length ≤ 1
  /-- A request is granted a resource before all that wait then. -/
  inOrder : ∀ newer key value request older,
    st.history = newer ++ .granted key value request :: older →
      IsWaiting older key request ∧ ∀ other, IsWaiting older key other → request.Before other
  idle : ∀ key, (st.scheduler key).values = [] ∨ ∀ request, ¬IsWaiting st.history key request
  pending : ∀ conn matchkey, matchkey ∈ (st.connections conn).pendingMatchkeys ↔
    ∃ key value, .put key value ∈ st.history ∧ value.conn = conn ∧ value.matchkey = matchkey ∧
      ¬Granted st.history value
  /-- Nothing is granted after its connection, having announced its key, has closed. -/
  gone : ∀ newer key value request older,
    st.history = newer ++ .granted key value request :: older → .closed value.conn true ∉ older

theorem Good.safe {st : Tracker} (good : Good st) : TrackerSafe st := by
  obtain ⟨consistent, quiet⟩ := good
  have free (key : Text) (value : Resource) :
      IsFree st.history key value ↔ value ∈ (st.scheduler key).values :=
    (consistent.free key value).trans (or_iff_left (by simp))
  refine ⟨fun key value put isOpen notGranted => ?_, consistent.lawful.grants_le_one,
    consistent.lawful.serves_le_one, fun newer key value request older split => ?_, fun key => ?_,
    consistent.pending, fun newer key value request older split => ?_⟩
  · have isFree : IsFree st.history key value :=
      ⟨put, notGranted, (consistent.sockets value.conn).mp isOpen true⟩
    refine ⟨List.count_eq_one_of_mem (consistent.valuesOnce key) ((free key value).mp isFree),
      fun key' different member => different ?_⟩
    have elsewhere := (free key' value).mpr member
    exact (consistent.lawful.put_unique elsewhere.1 put rfl).1
  · have allowed := (split ▸ consistent.lawful : Lawful (newer ++ _)).allowed
    exact allowed.2
  · refine (quiet key).imp_right fun none request waits => ?_
    rcases (consistent.waiting key request).mp waits with member | ⟨value, absurd⟩
    · rw [none] at member
      cases member
    · cases absurd
  · have allowed := (split ▸ consistent.lawful : Lawful (newer ++ _)).allowed
    exact allowed.1.2.2

theorem good_run {st : Tracker} (good : Good st) : ∀ events, AdmittedFrom st events →
    ClosesWellFrom st events → Good (events.foldl Tracker.step st)
  | [], _, _ => good
  | _ :: rest, ⟨admits, admitted⟩, ⟨closes, later⟩ =>
    good_run (good.step admits closes) rest admitted later

/-- The tracker is safe after every run that meets the condition. -/
theorem tracker_safe (events : List Event) (admitted : AdmittedFrom Tracker.initial events)
    (closes : ClosesWellFrom Tracker.initial events) : TrackerSafe (Tracker.run events) :=
  (good_run good_initial events admitted closes).safe

/-- A server puts a resource; the first client is gone when it is granted, the second gets it. -/
def sampleRun : List Event :=
  [.announce 0, .put 0 ['a'] [] 9090 ['a', ':', '1'], .request 1 ['a'] 5 .lengthFails,
    .request 2 ['a'] 0 .sent]

theorem tracker_safe_sample : TrackerSafe (Tracker.run sampleRun) ∧
    Granted (Tracker.run sampleRun).history ⟨0, [], 9090, ['a', ':', '1']⟩ := by
  refine ⟨tracker_safe sampleRun ?_ ?_, ['a'], ⟨0, 1, 2, .sent⟩, by decide⟩
  · refine ⟨⟨rfl, fun conn key addr port matchkey absurd => by cases absurd⟩, ⟨rfl, ?_⟩,
      ⟨rfl, fun conn key addr port matchkey absurd => by cases absurd⟩,
      ⟨rfl, fun conn key addr port matchkey absurd => by cases absurd⟩, trivial⟩
    exact fun conn key addr port matchkey _ key' value absurd => by cases absurd
  · refine ⟨trivial, fun request absurd => ?_, fun value _ request fails announced => ?_,
      fun value _ request absurd => ?_, trivial⟩
    · cases absurd
    · have isRequest := List.mem_singleton.mp fails
      rw [isRequest] at announced
      cases announced
    · cases absurd

/-- A key with a colon: a resource of a connection that has closed is granted. -/
def colonRun : List Event :=
  [.announce 0, .put 0 ['a', ':', 'b'] [] 9090 ['a', ':', 'b', ':', '1'], .close 0,
    .request 1 ['a', ':', 'b'] 0 .sent]

theorem tracker_grants_closed : AdmittedFrom Tracker.initial colonRun ∧
    ¬TrackerSafe (Tracker.run colonRun) := by
  constructor
  · refine ⟨⟨rfl, fun conn key addr port matchkey absurd => by cases absurd⟩, ⟨rfl, ?_⟩,
      ⟨rfl, fun conn key addr port matchkey absurd => by cases absurd⟩,
      ⟨rfl, fun conn key addr port matchkey absurd => by cases absurd⟩, trivial⟩
    exact fun conn key addr port matchkey _ key' value absurd => by cases absurd
  · intro safe
    have history : (Tracker.run colonRun).history =
        [] ++ .granted ['a', ':', 'b'] ⟨0, [], 9090, ['a', ':', 'b', ':', '1']⟩ ⟨0, 0, 1, .sent⟩ ::
          [.requested ['a', ':', 'b'] ⟨0, 0, 1, .sent⟩, .closed 0 true,
            .put ['a', ':', 'b'] ⟨0, [], 9090, ['a', ':', 'b', ':', '1']⟩] := by decide
    exact safe.gone _ _ _ _ _ history (by decide)

end Tvm.Rpc
