import Tvm.Crt.JsonReader
import Tvm.Lib.Agrees

/-!
# The texts of the JSON reader

Where the calls of the reader go in a text, well-formed or not, in terms of the text alone.  A function
of the text has no result where the call reads behind the text or stores what it has no room for.
-/

namespace Tvm.Crt

open Tvm.Lib

/-- The first character that is no white space, and the text behind it. -/
def visible : Bytes → Option (UInt8 × Bytes)
  | [] => none
  | ch :: rest => if isSpace ch then visible rest else some (ch, rest)

abbrev EndsLine (ch : UInt8) : Prop :=
  ch = eofByte ∨ ch = returnByte ∨ ch = newlineByte

/-- The text behind a string that is discarded.  There is none where the text ends first, and where
an escape would be stored. -/
def behindDiscarded : Bytes → Option Bytes
  | [] => none
  | ch :: rest =>
    if ch = backslashByte then
      match rest with
      | [] => none
      | sch :: rest => if unescapeByte sch = none then behindDiscarded rest else none
    else if ch = quoteByte ∨ EndsLine ch then some rest
    else behindDiscarded rest

/-- The text behind a string of which at most `room` bytes are stored.  Without room only a quote and
an unknown escape are passed. -/
def behindStored : Nat → Bytes → Option Bytes
  | _, [] => none
  | room, ch :: rest =>
    if ch = backslashByte then
      match rest with
      | [] => none
      | sch :: rest =>
        if unescapeByte sch = none then if room = 0 then some rest else behindStored room rest
        else if room = 0 then none
        else if room = 1 then some rest
        else behindStored (room - 1) rest
    else if ch = quoteByte then some rest
    else if room = 0 then none
    else if room = 1 ∨ EndsLine ch then some rest
    else behindStored (room - 1) rest

/-- The text behind a string that starts behind white space.  The first character is not looked at. -/
def passString (behind : Bytes → Option Bytes) (text : Bytes) : Option Bytes := do
  let (_, rest) ← visible text
  behind rest

/-- Whether there is a next item in a scope that counts `counter` items, and the text behind the comma
or behind the closing byte. -/
def separator (closing : UInt8) (counter : Nat) (text : Bytes) : Option (Bool × Bytes) := do
  let (ch, rest) ← visible text
  if counter ≠ 0 then some (!(ch = eofByte || ch = closing), rest)
  else if ch = closing then some (false, rest)
  else some (true, ch :: rest)

/-- The same for a member, whose key and colon are passed too. -/
def memberSeparator (behindKey : Bytes → Option Bytes) (counter : Nat) (text : Bytes) :
    Option (Bool × Bytes) := do
  let (next, text) ← separator ItemType.object.closing counter text
  if next then do
    let behind ← passString behindKey text
    let (_, value) ← visible behind
    some (true, value)
  else some (false, text)

def itemSeparator : ItemType → Nat → Bytes → Option (Bool × Bytes)
  | .array => separator ItemType.array.closing
  | .object => memberSeparator behindDiscarded

/-- Which container starts at a value, if one does, and the text behind its opening byte or behind the
value. -/
def valueStart (text : Bytes) : Option (Option ItemType × Bytes) := do
  let (ch, rest) ← visible text
  if ch = quoteByte then do
    let behind ← behindDiscarded rest
    some (none, behind)
  else if ch = ItemType.array.opening then some (some .array, rest)
  else if ch = ItemType.object.opening then some (some .object, rest)
  else do
    let (_, behind) ← (JSONReader.strtol (ch :: rest)).toOption
    some (none, behind)

/-- The same where a container can be entered only if there is room. -/
def valueIn (free : Prop) [Decidable free] (text : Bytes) : Option (Option ItemType × Bytes) := do
  let (inner, rest) ← valueStart text
  if inner = none ∨ free then some (inner, rest) else none

theorem valueIn_eq_some {free : Prop} [Decidable free] {text rest : Bytes}
    {inner : Option ItemType} : valueIn free text = some (inner, rest) ↔
      valueStart text = some (inner, rest) ∧ (inner = none ∨ free) := by
  constructor
  · intro found
    obtain ⟨⟨inner', rest'⟩, starts, found⟩ := Option.bind_eq_some_iff.mp found
    obtain ⟨admitted, same⟩ := Option.ite_none_right_eq_some.mp found
    cases same
    exact ⟨starts, admitted⟩
  · rintro ⟨starts, admitted⟩
    rw [valueIn, starts]
    exact if_pos admitted

/-- `text` has the rest of a container whose items so far are `counter`, with at most `room` containers
in each other, and `rest` is behind it.  There are `count` items, which take `rounds` rounds. -/
inductive ItemsEnd : ItemType → Nat → Nat → Bytes → Nat → Nat → Bytes → Prop where
  | closing {type : ItemType} {room counter : Nat} {text rest : Bytes}
      (closes : itemSeparator type counter text = some (false, rest)) :
      ItemsEnd type room counter text 0 0 rest
  | token {type : ItemType} {room counter count rounds : Nat} {text value behind rest : Bytes}
      (starts : itemSeparator type counter text = some (true, value))
      (token : valueStart value = some (none, behind))
      (others : ItemsEnd type room ((counter + 1) % 2 ^ 32) behind count rounds rest) :
      ItemsEnd type room counter text (count + 1) (rounds + 1) rest
  | container {type inner : ItemType} {room counter count innerCount rounds innerRounds : Nat}
      {text value inside behind rest : Bytes}
      (starts : itemSeparator type counter text = some (true, value))
      (opens : valueStart value = some (some inner, inside))
      (items : ItemsEnd inner room 0 inside innerCount innerRounds behind)
      (others : ItemsEnd type (room + 1) ((counter + 1) % 2 ^ 32) behind count rounds rest) :
      ItemsEnd type (room + 1) counter text (count + 1) (innerRounds + rounds + 2) rest

theorem visible_lt {text rest : Bytes} {ch : UInt8} (found : visible text = some (ch, rest)) :
    rest.length < text.length := by
  fun_induction visible text with
  | case1 => cases found
  | case2 _ text _ ih => exact (ih found).trans (Nat.lt_succ_self text.length)
  | case3 _ text =>
    cases found
    exact Nat.lt_succ_self rest.length

theorem behindDiscarded_le {text rest : Bytes} (behind : behindDiscarded text = some rest) :
    rest.length ≤ text.length := by
  fun_induction behindDiscarded text with
  | case1 | case2 | case4 => cases behind
  | case3 _ text _ ih => exact (ih behind).trans (Nat.le_add_right text.length 2)
  | case5 =>
    cases behind
    exact Nat.le_succ rest.length
  | case6 _ text _ _ ih => exact (ih behind).trans (Nat.le_succ text.length)

theorem separator_le {closing : UInt8} {counter : Nat} {text rest : Bytes} {next : Bool}
    (found : separator closing counter text = some (next, rest)) :
    rest.length + (if next ∧ counter = 0 then 0 else 1) ≤ text.length := by
  obtain ⟨⟨ch, behind⟩, isVisible, found⟩ := Option.bind_eq_some_iff.mp found
  have shorter := visible_lt isVisible
  dsimp only at found
  split at found
  · rename_i later
    cases found
    rw [if_neg fun all => later all.2]
    exact shorter
  · split at found
    · cases found
      rw [if_neg fun all => Bool.false_ne_true all.1]
      exact shorter
    · rename_i first _
      cases found
      rw [if_pos ⟨rfl, not_not.mp first⟩]
      exact shorter

theorem itemSeparator_le {type : ItemType} {counter : Nat} {text rest : Bytes} {next : Bool}
    (found : itemSeparator type counter text = some (next, rest)) :
    rest.length + (if next ∧ counter = 0 then 0 else 1) ≤ text.length := by
  cases type with
  | array => exact separator_le found
  | object =>
    obtain ⟨⟨next', behind⟩, separates, found⟩ := Option.bind_eq_some_iff.mp found
    have shorter := separator_le separates
    cases next' with
    | false =>
      cases found
      exact shorter
    | true =>
      obtain ⟨named, key, found⟩ := Option.bind_eq_some_iff.mp found
      obtain ⟨⟨quote, inside⟩, opens, key⟩ := Option.bind_eq_some_iff.mp key
      obtain ⟨⟨colon, value⟩, isColon, found⟩ := Option.bind_eq_some_iff.mp found
      cases found
      have first := visible_lt opens
      have second := behindDiscarded_le key
      have third := visible_lt isColon
      omega

theorem skipSpaces_le {text start : Bytes} (skips : JSONReader.skipSpaces text = .ok start) :
    start.length ≤ text.length := by
  fun_induction JSONReader.skipSpaces text with
  | case1 => cases skips
  | case2 _ text _ ih => exact (ih skips).trans (Nat.le_succ text.length)
  | case3 =>
    cases skips
    exact le_rfl

theorem spanSign_le {text start : Bytes} {negative : Bool}
    (signed : JSONReader.spanSign text = .ok (negative, start)) : start.length ≤ text.length := by
  cases text with
  | nil => cases signed
  | cons ch rest =>
    rw [JSONReader.spanSign] at signed
    split at signed
    · cases signed
      exact Nat.le_succ start.length
    · split at signed
      · cases signed
        exact Nat.le_succ start.length
      · cases signed
        exact le_rfl

theorem spanDigits_le {text digits behind : Bytes}
    (spans : JSONReader.spanDigits text = .ok (digits, behind)) : behind.length ≤ text.length := by
  fun_induction JSONReader.spanDigits text generalizing digits with
  | case1 => cases spans
  | case2 ch text _ ih =>
    obtain ⟨⟨digits', behind'⟩, inner, spans⟩ := exists_of_bind spans
    cases spans
    exact (ih inner).trans (Nat.le_succ text.length)
  | case3 =>
    cases spans
    exact le_rfl

/-- An item takes a round, and so does the item behind it at the same place only where the counter is
zero. -/
theorem itemSeparator_step {type : ItemType} {counter : Nat} {text value : Bytes}
    (found : itemSeparator type counter text = some (true, value)) :
    2 * value.length + 1 + (if (counter + 1) % 2 ^ 32 = 0 then 1 else 0) ≤
      2 * text.length + (if counter = 0 then 1 else 0) := by
  have shorter := itemSeparator_le found
  by_cases first : counter = 0
  · subst first
    rw [if_pos ⟨rfl, rfl⟩] at shorter
    rw [if_neg (by decide), if_pos rfl]
    omega
  · rw [if_neg fun all => first all.2] at shorter
    rw [if_neg first]
    split <;> omega

theorem strtol_le {text behind : Bytes} {value : Int}
    (number : JSONReader.strtol text = .ok (value, behind)) : behind.length ≤ text.length := by
  obtain ⟨start, skips, number⟩ := exists_of_bind number
  obtain ⟨⟨negative, unsigned⟩, signed, number⟩ := exists_of_bind number
  obtain ⟨⟨digits, behind'⟩, spans, number⟩ := exists_of_bind number
  dsimp only at number
  split at number
  · cases number
    exact le_rfl
  · cases number
    exact (spanDigits_le spans).trans ((spanSign_le signed).trans (skipSpaces_le skips))

theorem valueStart_le {inner : Option ItemType} {text rest : Bytes}
    (starts : valueStart text = some (inner, rest)) :
    rest.length + (if inner = none then 0 else 1) ≤ text.length := by
  obtain ⟨⟨ch, behind⟩, isVisible, starts⟩ := Option.bind_eq_some_iff.mp starts
  have shorter := visible_lt isVisible
  dsimp only at starts
  split at starts
  · obtain ⟨after, discarded, starts⟩ := Option.bind_eq_some_iff.mp starts
    cases starts
    exact (behindDiscarded_le discarded).trans shorter.le
  · split at starts
    · cases starts
      exact shorter
    · split at starts
      · cases starts
        exact shorter
      · obtain ⟨⟨value, after⟩, number, starts⟩ := Option.bind_eq_some_iff.mp starts
        cases starts
        cases result : JSONReader.strtol (ch :: behind) with
        | error fault =>
          rw [result] at number
          cases number
        | ok pair =>
          rw [result] at number
          cases number
          exact (strtol_le result).trans shorter

/-- The rounds are no more than the text has room for. -/
theorem ItemsEnd.rounds_le {type : ItemType} {room counter count rounds : Nat} {text rest : Bytes}
    (ends : ItemsEnd type room counter text count rounds rest) :
    rounds + 1 + 2 * rest.length ≤ 2 * text.length + (if counter = 0 then 1 else 0) := by
  induction ends with
  | closing closes =>
    have shorter := itemSeparator_le closes
    rw [if_neg fun all => Bool.false_ne_true all.1] at shorter
    omega
  | token starts token others ih =>
    have progress := itemSeparator_step starts
    have shorter := valueStart_le token
    rw [if_pos rfl] at shorter
    omega
  | container starts opens items others innerHypothesis ih =>
    have progress := itemSeparator_step starts
    have shorter := valueStart_le opens
    rw [if_neg (Option.some_ne_none _)] at shorter
    rw [if_pos rfl] at innerHypothesis
    omega

structure JSONReader.At (reader : JSONReader) (text : Bytes) (scope : List Nat) : Prop where
  isptr : reader.isptr = text
  scopeCounter : reader.scopeCounter = ⟨scope, 200⟩

namespace JSONReader

variable {reader : JSONReader} {text : Bytes} {scope outer : List Nat} {counter : Nat}

/-- The reader is at the text that there is. -/
def Lands {α : Type} (scope : List Nat) (result : α × JSONReader) (expected : α × Bytes) : Prop :=
  result.1 = expected.1 ∧ result.2.At expected.2 scope

theorem At.nextNonSpace_agrees (at_text : reader.At text scope) :
    Agrees (Lands scope) reader.nextNonSpace (visible text) := by
  obtain ⟨isText, isScope⟩ := at_text
  rw [JSONReader.nextNonSpace, isText]
  clear isText
  induction text generalizing reader with
  | nil => trivial
  | cons ch rest ih =>
    rw [nextNonSpaceFrom, visible]
    split
    · exact ih isScope
    · exact ⟨rfl, rfl, isScope⟩

theorem At.peekNextNonSpace_agrees (at_text : reader.At text scope) :
    Agrees (fun result expected => result.1 = expected.1 ∧
      result.2.At (expected.1 :: expected.2) scope) reader.peekNextNonSpace (visible text) := by
  obtain ⟨isText, isScope⟩ := at_text
  rw [JSONReader.peekNextNonSpace, isText]
  induction text generalizing reader with
  | nil => trivial
  | cons ch rest ih =>
    rw [peekNextNonSpaceFrom, visible]
    split
    · exact ih rfl isScope
    · exact ⟨rfl, isText, isScope⟩

theorem At.countItem (at_text : reader.At text (counter :: outer)) :
    ∃ next, reader.countItem = .ok next ∧ next.At text ((counter + 1) % 2 ^ 32 :: outer) := by
  refine ⟨{ reader with scopeCounter := ⟨(counter + 1) % 2 ^ 32 :: outer, 200⟩ }, ?_,
    at_text.isptr, rfl⟩
  rw [JSONReader.countItem, at_text.scopeCounter]
  rfl

theorem At.leaveScope (at_text : reader.At text (counter :: outer)) :
    ∃ next, reader.leaveScope = .ok next ∧ next.At text outer := by
  refine ⟨{ reader with scopeCounter := ⟨outer, 200⟩ }, ?_, at_text.isptr, rfl⟩
  rw [JSONReader.leaveScope, at_text.scopeCounter]
  rfl

theorem At.hasNext_agrees (type : ItemType) (at_text : reader.At text (counter :: outer)) :
    Agrees (Lands (counter :: outer)) (reader.hasNext type.closing)
      (separator type.closing counter text) := by
  rw [hasNext, at_text.scopeCounter, separator]
  change Agrees _ (if counter ≠ 0 then _ else _) _
  by_cases first : counter = 0
  · rw [if_neg (not_not.mpr first)]
    refine at_text.peekNextNonSpace_agrees.bind ?_
    rintro ⟨ch, next⟩ ⟨ch', rest⟩ ⟨rfl, at_next⟩
    dsimp only
    rw [if_neg (not_not.mpr first)]
    by_cases closes : ch = type.closing
    · rw [if_pos closes, if_pos closes, nextChar, at_next.isptr]
      exact ⟨rfl, rfl, at_next.scopeCounter⟩
    · rw [if_neg closes, if_neg closes]
      exact ⟨rfl, at_next⟩
  · rw [if_pos first]
    refine at_text.nextNonSpace_agrees.bind ?_
    rintro ⟨ch, next⟩ ⟨ch', rest⟩ ⟨rfl, at_next⟩
    dsimp only
    rw [if_pos first]
    exact ⟨rfl, at_next⟩

def scopesBehind (counter : Nat) (outer : List Nat) (next : Bool) : List Nat :=
  if next then (counter + 1) % 2 ^ 32 :: outer else outer

theorem At.nextArrayItem_agrees (at_text : reader.At text (counter :: outer)) :
    Agrees (fun result expected => Lands (scopesBehind counter outer expected.1) result expected)
      reader.nextArrayItem (separator ItemType.array.closing counter text) := by
  refine (at_text.hasNext_agrees .array).map ?_
  rintro ⟨next, middle⟩ ⟨next', rest⟩ ⟨rfl, at_rest⟩
  cases next with
  | true =>
    obtain ⟨counted, count, at_counted⟩ := at_rest.countItem
    refine ⟨(true, counted), ?_, rfl, at_counted⟩
    change middle.countItem.bind _ = _
    rw [count]
    rfl
  | false =>
    obtain ⟨left, leave, at_left⟩ := at_rest.leaveScope
    refine ⟨(false, left), ?_, rfl, at_left⟩
    change middle.leaveScope.bind _ = _
    rw [leave]
    rfl

/-- A member, whose key is read as `behindKey` says. -/
theorem At.nextObjectItem_agrees {outKey : Option Bytes} {outKeySize : Nat}
    {behindKey : Bytes → Option Bytes}
    (reads : ∀ (reader : JSONReader) (text : Bytes) (scope : List Nat), reader.At text scope →
      Agrees (fun result rest => result.2.At rest scope) (reader.readString outKey outKeySize)
        (passString behindKey text))
    (at_text : reader.At text (counter :: outer)) :
    Agrees (fun result expected =>
        Lands (scopesBehind counter outer expected.1) (result.1, result.2.2) expected)
      (reader.nextObjectItem outKey outKeySize) (memberSeparator behindKey counter text) := by
  refine (at_text.hasNext_agrees .object).bind ?_
  rintro ⟨next, middle⟩ ⟨next', rest⟩ ⟨rfl, at_rest⟩
  cases next with
  | true =>
    obtain ⟨counted, count, at_counted⟩ := at_rest.countItem
    change Agrees _ (middle.countItem.bind _) _
    rw [count]
    refine (reads counted rest _ at_counted).bind ?_
    rintro ⟨key, named⟩ behind at_behind
    refine (at_behind.nextNonSpace_agrees).bind ?_
    rintro ⟨ch, colon⟩ ⟨ch', value⟩ ⟨rfl, at_value⟩
    exact ⟨rfl, at_value⟩
  | false =>
    obtain ⟨left, leave, at_left⟩ := at_rest.leaveScope
    change Agrees _ (middle.leaveScope.bind _) _
    rw [leave]
    exact ⟨rfl, at_left⟩

theorem discard_goes {outStrSize : Nat} (size : outStrSize = 0 ∨ outStrSize = 1024) :
    0 ≠ lastOf outStrSize := by
  rcases size with rfl | rfl
  · decide
  · decide

theorem readStringFrom_discards {outStrSize : Nat} (size : outStrSize = 0 ∨ outStrSize = 1024)
    (text : Bytes) : Agrees (fun result rest => result = (rest, ⟨none, 0⟩))
      (readStringFrom outStrSize text ⟨none, 0⟩) (behindDiscarded text) := by
  have unlimited := discard_goes size
  fun_induction behindDiscarded text with
  | case1 =>
    rw [readStringFrom, if_pos (.inr rfl)]
    trivial
  | case2 =>
    rw [readStringFrom.eq_def]
    dsimp only
    rw [if_pos (.inr rfl), if_pos rfl]
    trivial
  | case3 sch rest unknown ih =>
    have passed : StringOutput.storeEscape ⟨none, 0⟩ sch = .ok ⟨none, 0⟩ := by
      rw [StringOutput.storeEscape, unknown]
    rw [readStringFrom.eq_def]
    dsimp only
    rw [if_pos (.inr rfl), if_pos rfl, passed]
    change Agrees _ (if 0 = lastOf outStrSize then _ else _) _
    rw [if_neg unlimited]
    exact ih
  | case4 sch rest known =>
    obtain ⟨byte, isByte⟩ := Option.ne_none_iff_exists'.mp known
    have stored : StringOutput.storeEscape ⟨none, 0⟩ sch = .error .storeNull := by
      rw [StringOutput.storeEscape, isByte]
      rfl
    rw [readStringFrom.eq_def]
    dsimp only
    rw [if_pos (.inr rfl), if_pos rfl, stored]
    trivial
  | case5 ch rest plain stops =>
    rw [readStringFrom.eq_def]
    dsimp only
    rw [if_pos (.inr rfl), if_neg plain]
    split
    · rfl
    · rename_i notQuote
      change Agrees _ (if 0 = lastOf outStrSize then _ else _) _
      rw [if_neg unlimited, if_pos (stops.resolve_left notQuote)]
      rfl
  | case6 ch rest plain goesOn ih =>
    obtain ⟨notQuote, notEnd⟩ := not_or.mp goesOn
    rw [readStringFrom.eq_def]
    dsimp only
    rw [if_pos (.inr rfl), if_neg plain, if_neg notQuote]
    change Agrees _ (if 0 = lastOf outStrSize then _ else _) _
    rw [if_neg unlimited, if_neg notEnd]
    exact ih

/-- What `JSONReader_ReadString` does behind its loop. -/
def finishString (reader : JSONReader) (result : Bytes × StringOutput) :
    JsonRead (Option Bytes × JSONReader) :=
  let reader := { reader with isptr := result.1 }
  if result.2.outStr = none then .ok (none, reader)
  else do
    let output ← result.2.store 0
    .ok (output.outStr, reader)

theorem finishString_ok (reader : JSONReader) {buffer : Bytes} {stored : Nat}
    (inside : stored < buffer.length) (rest : Bytes) :
    ∃ out, finishString reader (rest, ⟨some buffer, stored⟩) =
      .ok (out, { reader with isptr := rest }) := by
  refine ⟨some (buffer.set stored 0), ?_⟩
  rw [finishString, if_neg (Option.some_ne_none _), StringOutput.store]
  dsimp only
  rw [if_pos inside]
  rfl

theorem finishString_outside {buffer : Bytes} {stored : Nat} (outside : buffer.length ≤ stored)
    (rest : Bytes) : finishString reader (rest, ⟨some buffer, stored⟩) = .error .storeOutside := by
  rw [finishString, if_neg (Option.some_ne_none _), StringOutput.store]
  dsimp only
  rw [if_neg (not_lt.mpr outside)]
  rfl

/-- The loop behind a byte that is stored, which may end the line. -/
theorem finishString_stored (reader : JSONReader) {size : Nat} {buffer : Bytes} {stored room : Nat}
    (isSize : buffer.length = size) (isRoom : stored + room + 1 = size) (ends : Prop)
    [Decidable ends] (rest : Bytes)
    (later : ∀ more, room = more + 1 → Agrees (fun result rest =>
        result.2 = { reader with isptr := rest })
      (readStringFrom size rest ⟨some buffer, stored + 1⟩ >>= reader.finishString)
      (behindStored more rest)) :
    Agrees (fun result rest => result.2 = { reader with isptr := rest })
      ((if stored + 1 = lastOf size then .ok (rest, ⟨some buffer, stored + 1⟩)
        else if ends then .ok (rest, ⟨some buffer, stored + 1⟩)
        else readStringFrom size rest ⟨some buffer, stored + 1⟩) >>= reader.finishString)
      (if room = 0 then none else if room = 1 ∨ ends then some rest
        else behindStored (room - 1) rest) := by
  have last : lastOf size = size - 1 := if_neg (by omega)
  have finished (inside : stored + 1 < size) : Agrees
      (fun result rest => result.2 = { reader with isptr := rest })
      (reader.finishString (rest, ⟨some buffer, stored + 1⟩)) (some rest) := by
    obtain ⟨out, ok⟩ := finishString_ok reader (isSize.symm ▸ inside) rest
    rw [ok]
    rfl
  rw [last]
  by_cases full : room = 0
  -- the byte is stored, but not the NUL behind it
  · have outside : reader.finishString (rest, ⟨some buffer, stored + 1⟩) = .error .storeOutside :=
      finishString_outside (by omega) rest
    have stopped : readStringFrom size rest ⟨some buffer, stored + 1⟩ =
        .ok (rest, ⟨some buffer, stored + 1⟩) := by
      have stops : ¬StringOutput.Goes ⟨some buffer, stored + 1⟩ size := by
        rintro (inside | null)
        · have inside : stored + 1 < size := inside
          omega
        · cases null
      cases rest with
      | nil => rw [readStringFrom, if_neg stops]
      | cons ch rest =>
        rw [readStringFrom.eq_def]
        exact if_neg stops
    rw [if_neg (show ¬stored + 1 = size - 1 by omega), stopped, ite_self, if_pos full]
    change Agrees _ (reader.finishString (rest, ⟨some buffer, stored + 1⟩)) _
    rw [outside]
    trivial
  · by_cases one : room = 1
    · rw [if_pos (show stored + 1 = size - 1 by omega), if_neg full, if_pos (Or.inl one)]
      exact finished (by omega)
    · rw [if_neg (show ¬stored + 1 = size - 1 by omega), if_neg full]
      by_cases endsHere : ends
      · rw [if_pos endsHere, if_pos (Or.inr endsHere)]
        exact finished (by omega)
      · rw [if_neg endsHere, if_neg (not_or.mpr ⟨one, endsHere⟩)]
        exact later (room - 1) (by omega)

theorem readStringFrom_stores {size : Nat} (reader : JSONReader) {buffer : Bytes}
    {stored room : Nat} (isSize : buffer.length = size) (isRoom : stored + room + 1 = size)
    (text : Bytes) :
    Agrees (fun result rest => result.2 = { reader with isptr := rest })
      (readStringFrom size text ⟨some buffer, stored⟩ >>= reader.finishString)
      (behindStored room text) := by
  have inside : stored < size := by omega
  have goes : StringOutput.Goes ⟨some buffer, stored⟩ size := .inl inside
  have store (byte : UInt8) : StringOutput.store ⟨some buffer, stored⟩ byte =
      .ok ⟨some (buffer.set stored byte), stored + 1⟩ :=
    if_pos (isSize.symm ▸ inside)
  have isSize' (byte : UInt8) : (buffer.set stored byte).length = size :=
    (List.length_set).trans isSize
  have later (byte : UInt8) (rest : Bytes) (shorter : rest.length < text.length) (more : Nat)
      (isMore : room = more + 1) :=
    readStringFrom_stores reader (isSize' byte) (by omega : stored + 1 + more + 1 = size) rest
  cases text with
  | nil =>
    rw [readStringFrom, if_pos goes]
    trivial
  | cons ch rest =>
    rw [readStringFrom.eq_def, behindStored.eq_def]
    dsimp only
    rw [if_pos goes]
    by_cases escape : ch = backslashByte
    · rw [if_pos escape, if_pos escape]
      cases rest with
      | nil => trivial
      | cons sch rest =>
        by_cases unknown : unescapeByte sch = none
        · have passed : StringOutput.storeEscape ⟨some buffer, stored⟩ sch =
              .ok ⟨some buffer, stored⟩ := by
            rw [StringOutput.storeEscape, unknown]
          have last : lastOf size = size - 1 := if_neg (by omega)
          dsimp only
          rw [if_pos unknown, passed]
          change Agrees _ ((if stored = lastOf size then _ else _) >>= _) _
          rw [last]
          by_cases full : room = 0
          · obtain ⟨out, ok⟩ := finishString_ok reader (isSize.symm ▸ inside : stored < _) rest
            rw [if_pos (show stored = size - 1 by omega), if_pos full]
            change Agrees _ (reader.finishString (rest, ⟨some buffer, stored⟩)) _
            rw [ok]
            rfl
          · rw [if_neg (show ¬stored = size - 1 by omega), if_neg full]
            exact readStringFrom_stores reader isSize isRoom rest
        · obtain ⟨byte, isByte⟩ := Option.ne_none_iff_exists'.mp unknown
          have escaped : StringOutput.storeEscape ⟨some buffer, stored⟩ sch =
              .ok ⟨some (buffer.set stored byte), stored + 1⟩ := by
            rw [StringOutput.storeEscape, isByte]
            exact store byte
          have step := finishString_stored reader (isSize' byte) isRoom False rest
            (later byte rest (by rw [List.length_cons, List.length_cons]; omega))
          simp only [or_false, if_false] at step
          dsimp only
          rw [if_neg unknown, escaped]
          exact step
    · rw [if_neg escape, if_neg escape]
      by_cases quote : ch = quoteByte
      · obtain ⟨out, ok⟩ := finishString_ok reader (isSize.symm ▸ inside : stored < _) rest
        rw [if_pos quote, if_pos quote]
        change Agrees _ (reader.finishString (rest, ⟨some buffer, stored⟩)) _
        rw [ok]
        rfl
      · rw [if_neg quote, if_neg quote, StringOutput.storePlain, if_neg (Option.some_ne_none buffer),
          store]
        exact finishString_stored reader (isSize' ch) isRoom (EndsLine ch) rest
          (later ch rest (by rw [List.length_cons]; omega))
termination_by text.length

theorem At.discards {outStrSize : Nat} (size : outStrSize = 0 ∨ outStrSize = 1024)
    (at_text : reader.At text scope) : Agrees (fun result rest => result.2.At rest scope)
      (reader.readString none outStrSize) (passString behindDiscarded text) := by
  refine at_text.nextNonSpace_agrees.bind ?_
  rintro ⟨ch, opened⟩ ⟨ch', rest⟩ ⟨rfl, at_rest⟩
  dsimp only
  rw [at_rest.isptr]
  refine (readStringFrom_discards size rest).map ?_
  rintro _ behind rfl
  exact ⟨_, rfl, rfl, at_rest.scopeCounter⟩

theorem At.stores {buffer : Bytes} (nonempty : buffer ≠ []) (at_text : reader.At text scope) :
    Agrees (fun result rest => result.2.At rest scope)
      (reader.readString (some buffer) buffer.length)
      (passString (behindStored (buffer.length - 1)) text) := by
  refine at_text.nextNonSpace_agrees.bind ?_
  rintro ⟨ch, opened⟩ ⟨ch', rest⟩ ⟨rfl, at_rest⟩
  have positive := List.length_pos_iff.mpr nonempty
  have loop := readStringFrom_stores opened (rfl : buffer.length = _)
    (by omega : 0 + (buffer.length - 1) + 1 = buffer.length) rest
  dsimp only
  rw [at_rest.isptr]
  refine loop.mono fun result behind same => ?_
  rw [same]
  exact ⟨rfl, at_rest.scopeCounter⟩

theorem At.readInteger_agrees (at_text : reader.At text scope) :
    Agrees (fun result expected => result.2.At expected.2 scope) reader.readInteger
      (strtol text).toOption := by
  rw [JSONReader.readInteger, at_text.isptr]
  cases strtol text with
  | error fault => trivial
  | ok result => exact ⟨rfl, at_text.scopeCounter⟩

theorem At.begin_agrees (at_text : reader.At text scope) :
    Agrees (fun next rest => next.At rest (0 :: scope)) reader.begin (do
      let (_, rest) ← visible text
      if scope.length < 200 then some rest else none) := by
  refine at_text.nextNonSpace_agrees.bind ?_
  rintro ⟨ch, opened⟩ ⟨ch', rest⟩ ⟨rfl, at_rest⟩
  dsimp only
  rw [at_rest.scopeCounter, ScopeSeq.push]
  dsimp only
  split
  · exact ⟨at_rest.isptr, rfl⟩
  · trivial

theorem At.nextItem_agrees (type : ItemType) (at_text : reader.At text (counter :: outer)) :
    Agrees (fun result expected => Lands (scopesBehind counter outer expected.1) result expected)
      (LengthState.nextItem reader type) (itemSeparator type counter text) := by
  cases type with
  | array => exact at_text.nextArrayItem_agrees
  | object =>
    refine (at_text.nextObjectItem_agrees fun reader text scope at_text =>
      at_text.discards (.inl rfl)).map ?_
    rintro ⟨hasItem, key, next⟩ expected lands
    exact ⟨(hasItem, next), rfl, lands⟩

end JSONReader

end Tvm.Crt
