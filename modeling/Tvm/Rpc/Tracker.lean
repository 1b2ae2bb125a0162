import Mathlib

/-!
# The RPC tracker

`PriorityScheduler`, `TCPEventHandler` and `TrackerServerHandler` of `tracker.py` with the socket of
`tornado_util.py`.  The heap of requests is a sorted list.  The history is kept for the statements
only.
-/

namespace Tvm.Rpc

abbrev Text := List Char

/-- A value of a scheduler; the connection is known by a number. -/
structure Resource where
  conn : Nat
  addr : Text
  port : Nat
  matchkey : Text
  deriving DecidableEq, Repr

/-- Which message that grants a resource meets a socket error: none, the length or the body. -/
inductive SendResult where
  | sent
  | lengthFails
  | bodyFails
  deriving DecidableEq, Repr

/-- An item of the heap, with the connection of its callback and what becomes of the message. -/
structure Request where
  priority : Int
  count : Nat
  conn : Nat
  send : SendResult
  deriving DecidableEq, Repr

/-- The order of the heap: the tuples `(-priority, count)`. -/
def Request.Before (a b : Request) : Prop :=
  a.priority > b.priority ∨ a.priority = b.priority ∧ a.count ≤ b.count

instance : DecidableRel Request.Before := fun _ _ =>
  inferInstanceAs (Decidable (_ ∨ _))

structure Scheduler where
  requestCnt : Nat
  values : List Resource
  requests : List Request
  deriving DecidableEq, Repr

def createScheduler : Scheduler :=
  ⟨0, [], []⟩

/-- What a connection holds; `announced` says that its information has a key. -/
structure Connection where
  socket : Bool
  announced : Bool
  pendingMatchkeys : Finset Text
  putValues : List Resource

inductive Entry where
  | put (key : Text) (value : Resource)
  | requested (key : Text) (request : Request)
  | granted (key : Text) (value : Resource) (request : Request)
  | dropped (key : Text) (request : Request)
  | closed (conn : Nat) (announced : Bool)
  deriving DecidableEq, Repr

/-- `TrackerServerHandler` with its connections; the newest entry of the history comes first. -/
structure Tracker where
  schedulerMap : AList fun _ : Text => Scheduler
  connections : Nat → Connection
  history : List Entry

namespace Tracker

variable (st : Tracker)

def scheduler (key : Text) : Scheduler :=
  (st.schedulerMap.lookup key).getD createScheduler

def setScheduler (key : Text) (scheduler : Scheduler) : Tracker :=
  { st with schedulerMap := st.schedulerMap.insert key scheduler }

def setConnection (conn : Nat) (connection : Connection) : Tracker :=
  { st with connections := Function.update st.connections conn connection }

def log (entry : Entry) : Tracker :=
  { st with history := entry :: st.history }

def pendingRequests : Nat :=
  (st.schedulerMap.entries.map fun entry => entry.2.requests.length).sum

end Tracker

/-- `key.split(":")[0]`. -/
def rpcKey (matchkey : Text) : Text :=
  matchkey.takeWhile (· ≠ ':')

section Close

variable (schedule : Text → Tracker → Tracker × Bool)

/-- The loop of `TrackerServerHandler.close`; the flag says that an exception is raised. -/
def removeValues : List Resource → Tracker → Tracker × Bool
  | [], st => (st, false)
  | value :: rest, st =>
    if rpcKey value.matchkey ∈ st.schedulerMap then
      let scheduler := st.scheduler (rpcKey value.matchkey)
      if value ∈ scheduler.values then
        let removed := schedule (rpcKey value.matchkey) (st.setScheduler (rpcKey value.matchkey)
          { scheduler with values := scheduler.values.erase value })
        if removed.2 then removed else removeValues rest removed.1
      else removeValues rest st
    else (st, true)

/-- `TCPHandler.close` with `TrackerServerHandler.close`. -/
def closeConnection (conn : Nat) (st : Tracker) : Tracker × Bool :=
  let connection := st.connections conn
  if connection.socket then
    let closed := (st.setConnection conn { connection with socket := false }).log
      (.closed conn connection.announced)
    if connection.announced then removeValues schedule connection.putValues closed
    else (closed, false)
  else (st, false)

inductive Callback where
  | accepts
  | declines
  | raises
  deriving DecidableEq

def callback (request : Request) (st : Tracker) : Tracker × Callback :=
  if (st.connections request.conn).socket then
    match request.send with
    | .sent => (st, .accepts)
    | .lengthFails =>
      let closed := closeConnection schedule request.conn st
      (closed.1, if closed.2 then .raises else .declines)
    | .bodyFails =>
      let closed := closeConnection schedule request.conn st
      (closed.1, if closed.2 then .raises else .accepts)
  else (st, .declines)

end Close

/-- A resource is granted; `set.remove` raises where the match key is missing. -/
def grant (key : Text) (value : Resource) (request : Request) (st : Tracker) : Tracker × Bool :=
  let connection := st.connections value.conn
  if value.matchkey ∈ connection.pendingMatchkeys then
    ((st.setConnection value.conn
      { connection with pendingMatchkeys := connection.pendingMatchkeys.erase value.matchkey }).log
        (.granted key value request), false)
  else (st, true)

/-- A resource goes back to the end of its list. -/
def decline (key : Text) (value : Resource) (request : Request) (st : Tracker) : Tracker :=
  (st.setScheduler key
    { st.scheduler key with values := (st.scheduler key).values ++ [value] }).log
      (.dropped key request)

/-- `_schedule`; every turn takes a request, so at most as many turns as there are requests. -/
def schedule : Nat → Text → Tracker → Tracker × Bool
  | 0, _, st => (st, false)
  | fuel + 1, key, st =>
    match (st.scheduler key).values, (st.scheduler key).requests with
    | value :: values, request :: requests =>
      let taken := st.setScheduler key
        { st.scheduler key with values := values, requests := requests }
      let called := callback (schedule fuel) request taken
      match called.2 with
      | .raises => (called.1, true)
      | .accepts =>
        let granted := grant key value request called.1
        if granted.2 then granted else schedule fuel key granted.1
      | .declines => schedule fuel key (decline key value request called.1)
    | _, _ => (st, false)

inductive Event where
  | announce (conn : Nat)
  | put (conn : Nat) (key : Text) (addr : Text) (port : Nat) (matchkey : Text)
  | request (conn : Nat) (key : Text) (priority : Int) (send : SendResult)
  | close (conn : Nat)
  deriving DecidableEq, Repr

def Event.conn : Event → Nat
  | .announce conn | .put conn .. | .request conn .. | .close conn => conn

namespace Tracker

/-- `TrackerServerHandler.put` after the match key is pending. -/
def put (st : Tracker) (key : Text) (value : Resource) : Tracker × Bool :=
  let scheduler := st.scheduler key
  let added := st.setScheduler key { scheduler with values := scheduler.values ++ [value] }
  schedule added.pendingRequests key added

/-- `TrackerServerHandler.request`. -/
def request (st : Tracker) (key : Text) (conn : Nat) (priority : Int) (send : SendResult) :
    Tracker × Bool :=
  let scheduler := st.scheduler key
  let request : Request := ⟨priority, scheduler.requestCnt, conn, send⟩
  let added := (st.setScheduler key
    { scheduler with
      requestCnt := scheduler.requestCnt + 1
      requests := scheduler.requests.orderedInsert Request.Before request }).log
        (.requested key request)
  schedule added.pendingRequests key added

/-- `call_handler` and `on_close`. -/
def step (st : Tracker) : Event → Tracker
  | .announce conn => st.setConnection conn { st.connections conn with announced := true }
  | .put conn key addr port matchkey =>
    let value : Resource := ⟨conn, addr, port, matchkey⟩
    let connection := st.connections conn
    let pending := (st.setConnection conn
      { connection with pendingMatchkeys := insert matchkey connection.pendingMatchkeys }).log
        (.put key value)
    let placed := pending.put key value
    if placed.2 then placed.1
    else
      let connection := placed.1.connections conn
      placed.1.setConnection conn
        { connection with putValues := connection.putValues ++ [value] }
  | .request conn key priority send => (st.request key conn priority send).1
  | .close conn => (closeConnection (schedule st.pendingRequests) conn st).1

/-- No schedulers, and connections that have done nothing. -/
def initial : Tracker where
  schedulerMap := ∅
  connections _ := ⟨true, false, ∅, []⟩
  history := []

def run (events : List Event) : Tracker :=
  events.foldl step initial

end Tracker

end Tvm.Rpc
