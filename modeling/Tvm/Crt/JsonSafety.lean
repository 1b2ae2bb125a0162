import Tvm.Crt.JsonLoop

/-!
# Where the JSON reader stays inside its buffers

Runs of calls on any string are safe exactly where every call finds in the text the end of what it
reads, and room in its buffer and in the stacks.
-/

namespace Tvm.Crt

open Tvm.Lib

abbrev OutBuffer := {buffer : Bytes // buffer ≠ []}

inductive JsonCall where
  | readString (outStr : OutBuffer)
  | nextObjectItem (outKey : OutBuffer)
  | nextArrayItem
  | arrayLength
  | beginObject
  | beginArray
  | readInteger

/-- `JSONReader_Create` with memory for its stack and for its copy of the string, which ends at its
first NUL. -/
def JSONReader.create (is : Bytes) : JSONReader where
  isptr := is.takeWhile (· ≠ 0) ++ [0]
  lineCountR := 0
  lineCountN := 0
  scopeCounter := ⟨[], 200⟩

/-- A call, with as much fuel as the text that is left needs. -/
def JsonCall.exec (platform : PlatformMemory) (reader : JSONReader) : JsonCall → JsonRead JSONReader
  | .readString outStr => do
      let (_, reader) ← reader.readString (some outStr.val) outStr.val.length
      .ok reader
  | .nextObjectItem outKey => do
      let (_, _, reader) ← reader.nextObjectItem (some outKey.val) outKey.val.length
      .ok reader
  | .nextArrayItem => do
      let (_, reader) ← reader.nextArrayItem
      .ok reader
  | .arrayLength => do
      let (reader, _, _) ← reader.arrayLength platform (2 * reader.isptr.length + 1)
      .ok reader
  | .beginObject => reader.beginObject
  | .beginArray => reader.beginArray
  | .readInteger => do
      let (_, reader) ← reader.readInteger
      .ok reader

def JsonCall.Fits (platform : PlatformMemory) (text : Bytes) (scope : List Nat) : JsonCall → Prop
  | .readString outStr => ∃ rest, passString (behindStored (outStr.val.length - 1)) text = some rest
  | .nextObjectItem outKey => ∃ counter outer, scope = counter :: outer ∧
      ∃ item, memberSeparator (behindStored (outKey.val.length - 1)) counter text = some item
  | .nextArrayItem => ∃ counter outer, scope = counter :: outer ∧
      ∃ item, separator ItemType.array.closing counter text = some item
  | .arrayLength => ∃ counter outer, scope = counter :: outer ∧
      (platform.allocates = true → ∃ count rounds rest,
        ItemsEnd .array (min (200 - scope.length) 10) counter text count rounds rest)
  | .beginObject | .beginArray => (∃ item, visible text = some item) ∧ scope.length < 200
  | .readInteger => ∃ number, (JSONReader.strtol text).toOption = some number

/-- Between two calls the reader is at some text, in at most 200 scopes. -/
def JSONReader.Bounded (reader : JSONReader) : Prop :=
  ∃ text scope, reader.At text scope ∧ scope.length ≤ 200

section Calls

open LengthState JSONReader

variable {platform : PlatformMemory} {reader : JSONReader} {text : Bytes} {scope : List Nat}

/-- A call that agrees with a function of the text. -/
theorem call_fits {β : Type} {call : JsonRead JSONReader} {expected : Option β}
    (place : β → Bytes × List Nat)
    (agrees : Agrees (fun next b => next.At (place b).1 (place b).2) call expected)
    (bounded : ∀ b, expected = some b → (place b).2.length ≤ 200) :
    ((∃ next, call = .ok next) ↔ ∃ b, expected = some b) ∧
      ∀ next, call = .ok next → next.Bounded := by
  refine ⟨agrees.ok_iff, fun next run => ?_⟩
  obtain ⟨b, isSome, at_next⟩ := agrees.of_ok run
  exact ⟨_, _, at_next, bounded b isSome⟩

theorem scopesBehind_le {counter : Nat} {outer : List Nat} (next : Bool) :
    (scopesBehind counter outer next).length ≤ outer.length + 1 := by
  cases next with
  | true => exact le_rfl
  | false => exact Nat.le_succ outer.length

theorem begin_fits (at_text : reader.At text scope) :
    ((∃ next, reader.begin = .ok next) ↔
        (∃ item, visible text = some item) ∧ scope.length < 200) ∧
      ∀ next, reader.begin = .ok next → next.Bounded := by
  have opens {rest : Bytes} : (visible text >>= fun item =>
      if scope.length < 200 then some item.2 else none) = some rest ↔
        (∃ ch, visible text = some (ch, rest)) ∧ scope.length < 200 := by
    constructor
    · intro found
      obtain ⟨⟨ch, rest'⟩, isVisible, found⟩ := Option.bind_eq_some_iff.mp found
      obtain ⟨room, same⟩ := Option.ite_none_right_eq_some.mp found
      cases same
      exact ⟨⟨ch, isVisible⟩, room⟩
    · rintro ⟨⟨ch, isVisible⟩, room⟩
      rw [isVisible]
      exact if_pos room
  obtain ⟨iff, next⟩ := call_fits (fun rest => (rest, 0 :: scope)) at_text.begin_agrees
    fun rest found => (opens.mp found).2
  refine ⟨iff.trans ⟨?_, ?_⟩, next⟩
  · rintro ⟨rest, found⟩
    obtain ⟨⟨ch, isVisible⟩, room⟩ := opens.mp found
    exact ⟨⟨_, isVisible⟩, room⟩
  · rintro ⟨⟨item, isVisible⟩, room⟩
    exact ⟨item.2, opens.mpr ⟨⟨item.1, isVisible⟩, room⟩⟩

/-- Without a scope there is no next item. -/
theorem hasNext_empty (at_text : reader.At text []) (closing : UInt8) :
    reader.hasNext closing = .error .scopeStack := by
  rw [JSONReader.hasNext, at_text.scopeCounter]
  rfl

/-- A call is safe exactly where it fits, and a safe one leaves the reader bounded. -/
theorem JsonCall.exec_fits (platform : PlatformMemory) (at_text : reader.At text scope)
    (bounded : scope.length ≤ 200) (call : JsonCall) : ((∃ next, call.exec platform reader = .ok next) ↔
        call.Fits platform text scope) ∧
      ∀ next, call.exec platform reader = .ok next → next.Bounded := by
  cases call with
  | readString outStr =>
    exact call_fits (fun rest => (rest, scope)) ((at_text.stores outStr.2).map
      fun result rest at_rest => ⟨result.2, rfl, at_rest⟩) fun _ _ => bounded
  | nextObjectItem outKey =>
    cases scope with
    | nil =>
      have fails : (JsonCall.nextObjectItem outKey).exec platform reader = .error .scopeStack := by
        rw [JsonCall.exec, JSONReader.nextObjectItem, hasNext_empty at_text]
        rfl
      rw [fails]
      exact ⟨iff_of_false nofun nofun, nofun⟩
    | cons counter outer =>
      obtain ⟨iff, next⟩ := call_fits
        (fun item => (item.2, scopesBehind counter outer item.1))
        ((at_text.nextObjectItem_agrees fun reader text scope at_text =>
          at_text.stores outKey.2).map fun result item lands => ⟨result.2.2, rfl, lands.2⟩)
        fun item _ => (scopesBehind_le item.1).trans bounded
      refine ⟨iff.trans ⟨fun item => ⟨counter, outer, rfl, item⟩, ?_⟩, next⟩
      rintro ⟨counter', outer', same, item⟩
      cases same
      exact item
  | nextArrayItem =>
    cases scope with
    | nil =>
      have fails : JsonCall.nextArrayItem.exec platform reader = .error .scopeStack := by
        rw [JsonCall.exec, JSONReader.nextArrayItem, hasNext_empty at_text]
        rfl
      rw [fails]
      exact ⟨iff_of_false nofun nofun, nofun⟩
    | cons counter outer =>
      obtain ⟨iff, next⟩ := call_fits
        (fun item => (item.2, scopesBehind counter outer item.1))
        (at_text.nextArrayItem_agrees.map fun result item lands => ⟨result.2, rfl, lands.2⟩)
        fun item _ => (scopesBehind_le item.1).trans bounded
      refine ⟨iff.trans ⟨fun item => ⟨counter, outer, rfl, item⟩, ?_⟩, next⟩
      rintro ⟨counter', outer', same, item⟩
      cases same
      exact item
  | arrayLength =>
    refine ⟨⟨fun ⟨next, run⟩ => ?_, ?_⟩, fun next run => ?_⟩
    · obtain ⟨result, returns, -⟩ := exists_of_bind run
      obtain ⟨-, counter, outer, rfl, ends⟩ := at_text.arrayLength_ends returns
      exact ⟨counter, outer, rfl, ends⟩
    · rintro ⟨counter, outer, rfl, ends⟩
      by_cases allocates : platform.allocates = true
      · obtain ⟨count, rounds, rest, ends⟩ := ends allocates
        have enough : rounds < 2 * reader.isptr.length + 1 := by
          have bound := ends.rounds_le
          rw [at_text.isptr]
          split at bound <;> omega
        refine ⟨reader, ?_⟩
        rw [JsonCall.exec, at_text.arrayLength_eq bounded allocates ends enough]
        rfl
      · refine ⟨reader, ?_⟩
        rw [JsonCall.exec, JSONReader.arrayLength, at_text.scopeCounter]
        change (if platform.allocates then _ else _) >>= _ = _
        rw [if_neg allocates]
        rfl
    · obtain ⟨result, returns, same⟩ := exists_of_bind run
      cases same
      exact ⟨text, scope, (at_text.arrayLength_ends returns).1, bounded⟩
  | beginObject => exact begin_fits at_text
  | beginArray => exact begin_fits at_text
  | readInteger =>
    exact call_fits (fun number => (number.2, scope)) (at_text.readInteger_agrees.map
      fun result number at_rest => ⟨result.2, rfl, at_rest⟩) fun _ _ => bounded

end Calls

def runCalls (platform : PlatformMemory) (calls : List JsonCall) (reader : JSONReader) :
    JsonRead JSONReader :=
  calls.foldlM (JsonCall.exec platform) reader

def AllFit (platform : PlatformMemory) : List JsonCall → JSONReader → Prop
  | [], _ => True
  | call :: calls, reader => call.Fits platform reader.isptr reader.scopeCounter.data ∧
      ∀ next, call.exec platform reader = .ok next → AllFit platform calls next

theorem runCalls_fit {platform : PlatformMemory} {reader : JSONReader} (bounded : reader.Bounded)
    (calls : List JsonCall) : (∃ final, runCalls platform calls reader = .ok final) ↔
      AllFit platform calls reader := by
  induction calls generalizing reader with
  | nil => exact iff_of_true ⟨reader, rfl⟩ trivial
  | cons call calls ih =>
    obtain ⟨text, scope, at_text, within⟩ := bounded
    obtain ⟨fits, keeps⟩ := call.exec_fits platform at_text within
    rw [AllFit, at_text.isptr, at_text.scopeCounter, ← fits]
    constructor
    · rintro ⟨final, runs⟩
      obtain ⟨next, run, runs⟩ := exists_of_bind runs
      refine ⟨⟨next, run⟩, fun next' run' => ?_⟩
      cases run.symm.trans run'
      exact (ih (keeps next run)).mp ⟨final, runs⟩
    · rintro ⟨⟨next, run⟩, others⟩
      obtain ⟨final, runs⟩ := (ih (keeps next run)).mpr (others next run)
      refine ⟨final, ?_⟩
      rw [runCalls, List.foldlM_cons, run]
      exact runs

/-- Whatever the string is, a run of calls on it ends without a fault exactly where every call finds
the end of what it reads in the text, room in its buffer for a NUL, and room in the stacks. -/
theorem jsonReader_safe_iff (platform : PlatformMemory) (is : Bytes) (calls : List JsonCall) :
    (∃ final, runCalls platform calls (JSONReader.create is) = .ok final) ↔
      AllFit platform calls (JSONReader.create is) :=
  runCalls_fit ⟨_, [], ⟨rfl, rfl⟩, Nat.zero_le 200⟩ calls

/-- A string without its closing quote, and one byte for the character of a string and for its
NUL. -/
theorem jsonReader_leaves_buffers :
    runCalls .ample [.readString ⟨List.replicate 8 0, by decide⟩]
      (JSONReader.create [quoteByte, 97]) = .error .readBehindNul ∧
    runCalls .ample [.readString ⟨[0], by decide⟩]
      (JSONReader.create [quoteByte, 97, quoteByte]) = .error .storeOutside :=
  ⟨by decide +kernel, by decide +kernel⟩

end Tvm.Crt
