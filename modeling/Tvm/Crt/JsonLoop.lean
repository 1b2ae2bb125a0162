import Tvm.Crt.JsonText

/-!
# The loop over an array

The rounds of `JSONReader_ArrayLength` follow the rest of a container in the text, and the loop ends
without a fault only where the text has one.
-/

namespace Tvm.Crt

open Tvm.Lib

namespace LengthState

open JSONReader

structure Stands (st : LengthState) (text : Bytes) (scope : List Nat) (type : ItemType)
    (scopes : List ItemType) (n : Nat) : Prop where
  reader : st.reader.At text scope
  scopes : st.scopes = ⟨scopes, 10⟩
  jsonItemType : st.jsonItemType = type
  numElements : st.numElements = n

variable {st : LengthState} {text rest : Bytes} {scope outer : List Nat} {type : ItemType}
  {scopes : List ItemType} {n counter room : Nat}

def counted (type : ItemType) (scopes : List ItemType) : Nat :=
  if type = .array ∧ scopes = [] then 1 else 0

theorem Stands.step_item (stands : st.Stands text scope type scopes n) {next : JSONReader}
    (run : nextItem st.reader type = .ok (true, next)) (at_next : next.At rest outer) :
    ∃ middle : LengthState, st.step = middle.stepValue.map (true, ·) ∧
      middle.Stands rest outer type scopes (n + counted type scopes) := by
  refine ⟨⟨next, ⟨scopes, 10⟩, type, n + counted type scopes⟩, ?_, at_next, rfl, rfl, rfl⟩
  obtain ⟨reader, seq, itemType, elements⟩ := st
  obtain ⟨-, rfl, rfl, rfl⟩ := stands
  have isCounted : (if itemType = .array ∧ scopes = [] ∧ true = true then elements + 1 else elements) =
      elements + counted itemType scopes := by
    rw [counted]
    by_cases outermost : itemType = .array ∧ scopes = []
    · rw [if_pos outermost, if_pos ⟨outermost.1, outermost.2, rfl⟩]
    · rw [if_neg outermost, if_neg fun all => outermost ⟨all.1, all.2.1⟩]
      rfl
  rw [step, run, ← isCounted]
  rfl

theorem Stands.step_leave {outermost : ItemType} {others : List ItemType}
    (stands : st.Stands text scope type (outermost :: others) n) {next : JSONReader}
    (run : nextItem st.reader type = .ok (false, next)) (at_rest : next.At rest outer) :
    ∃ following, st.step = .ok (true, following) ∧
      following.Stands rest outer outermost others n := by
  obtain ⟨reader, seq, itemType, elements⟩ := st
  obtain ⟨-, rfl, rfl, rfl⟩ := stands
  have notItem : ¬(itemType = .array ∧ outermost :: others = [] ∧ false = true) :=
    fun all => Bool.false_ne_true all.2.2
  refine ⟨⟨next, ⟨others, 10⟩, outermost,
    if itemType = .array ∧ outermost :: others = [] ∧ false = true then elements + 1 else elements⟩,
    ?_, at_rest, rfl, rfl, if_neg notItem⟩
  rw [step, run]
  rfl

theorem Stands.step_stop (stands : st.Stands text scope type [] n) {next : JSONReader}
    (run : nextItem st.reader type = .ok (false, next)) (at_rest : next.At rest outer) :
    ∃ final, st.step = .ok (false, final) ∧ final.Stands rest outer type [] n := by
  obtain ⟨reader, seq, itemType, elements⟩ := st
  obtain ⟨-, rfl, rfl, rfl⟩ := stands
  have notItem : ¬(itemType = .array ∧ [] = ([] : List ItemType) ∧ false = true) :=
    fun all => Bool.false_ne_true all.2.2
  refine ⟨⟨next, ⟨[], 10⟩, itemType,
    if itemType = .array ∧ [] = ([] : List ItemType) ∧ false = true then elements + 1 else elements⟩,
    ?_, at_rest, rfl, rfl, if_neg notItem⟩
  rw [step, run]
  rfl

/-- A container is entered where both stacks have room for it. -/
theorem Stands.stepValue_agrees (stands : st.Stands text scope type scopes n) :
    Agrees (fun next expected => match expected.1 with
        | none => next.Stands expected.2 scope type scopes n
        | some inner => next.Stands expected.2 (0 :: scope) inner (type :: scopes) n)
      st.stepValue (valueIn (scope.length < 200 ∧ scopes.length < 10) text) := by
  obtain ⟨at_text, isScopes, isType, isNumber⟩ := stands
  rw [stepValue, valueIn, valueStart, bind_assoc]
  refine at_text.peekNextNonSpace_agrees.bind ?_
  rintro ⟨c, there⟩ ⟨c', rest⟩ ⟨rfl, at_there⟩
  change there.At (c :: rest) scope at at_there
  have enters (inner : ItemType) (is : c = inner.opening) :
      Agrees (fun next expected => match expected.1 with
          | none => next.Stands expected.2 scope type scopes n
          | some inner => next.Stands expected.2 (0 :: scope) inner (type :: scopes) n)
        (do
          let reader ← there.begin
          let scopes ← st.scopes.push st.jsonItemType
          .ok { st with reader := reader, scopes := scopes, jsonItemType := inner })
        (if some inner = none ∨ scope.length < 200 ∧ scopes.length < 10 then some (some inner, rest)
          else none) := by
    have opened : Agrees (fun next rest => next.At rest (0 :: scope)) there.begin
        (if scope.length < 200 then some rest else none) := by
      have begins := at_there.begin_agrees
      subst is
      cases inner <;> exact begins
    rw [isScopes, isType, ScopeSeq.push]
    dsimp only
    by_cases room : scope.length < 200
    · rw [if_pos room] at opened
      obtain ⟨next, begun, at_rest⟩ := opened.of_some rfl
      rw [begun]
      by_cases shallow : scopes.length < 10
      · rw [if_pos shallow, if_pos (Or.inr ⟨room, shallow⟩)]
        exact ⟨at_rest, rfl, rfl, isNumber⟩
      · rw [if_neg shallow, if_neg (not_or.mpr ⟨Option.some_ne_none inner, fun both => shallow both.2⟩)]
        trivial
    · rw [if_neg room] at opened
      rw [if_neg (not_or.mpr ⟨Option.some_ne_none inner, fun both => room both.1⟩)]
      cases begun : there.begin with
      | error fault => trivial
      | ok next =>
        rw [begun] at opened
        exact opened.elim
  have token (rest : Bytes) (next : JSONReader) (at_rest : next.At rest scope) :
      LengthState.Stands { st with reader := next } rest scope type scopes n :=
    ⟨at_rest, isScopes, isType, isNumber⟩
  dsimp only
  by_cases quote : c = quoteByte
  · rw [if_pos quote, if_pos quote, bind_assoc]
    subst quote
    have discards : Agrees (fun result rest => result.2.At rest scope) (there.readString none 1024)
        (behindDiscarded rest) := at_there.discards (.inr rfl)
    exact discards.bind fun result behind at_behind => token behind result.2 at_behind
  · rw [if_neg quote, if_neg quote]
    by_cases array : c = ItemType.array.opening
    · rw [if_pos array, if_pos array]
      exact enters .array array
    · rw [if_neg array, if_neg array]
      by_cases object : c = ItemType.object.opening
      · rw [if_pos object, if_pos object]
        exact enters .object object
      · rw [if_neg object, if_neg object, bind_assoc]
        exact at_there.readInteger_agrees.bind fun result expected at_behind =>
          token expected.2 result.2 at_behind

theorem Stands.step_value {value : Bytes} (stands : st.Stands text (counter :: outer) type scopes n)
    (starts : itemSeparator type counter text = some (true, value)) :
    ∃ middle : LengthState, st.step = middle.stepValue >>= (fun next => .ok (true, next)) ∧
      middle.Stands value ((counter + 1) % 2 ^ 32 :: outer) type scopes
        (n + counted type scopes) := by
  obtain ⟨⟨hasItem, next⟩, run, same, at_value⟩ :=
    (stands.reader.nextItem_agrees type).of_some starts
  cases same
  obtain ⟨middle, isStep, stands_middle⟩ := stands.step_item run at_value
  refine ⟨middle, isStep.trans ?_, stands_middle⟩
  cases middle.stepValue <;> rfl

inductive Reaches : LengthState → Nat → LengthState → Prop where
  | refl (st : LengthState) : Reaches st 0 st
  | next {st middle final : LengthState} {k : Nat} (step : st.step = .ok (true, middle))
      (rest : Reaches middle k final) : Reaches st (k + 1) final

theorem Reaches.trans {middle final : LengthState} {k l : Nat} (first : Reaches st k middle)
    (second : Reaches middle l final) : Reaches st (k + l) final := by
  induction first with
  | refl st => rwa [Nat.zero_add]
  | next step _ ih =>
    rw [Nat.add_right_comm]
    exact .next step (ih second)

theorem Reaches.loop {final : LengthState} {k : Nat} (reaches : Reaches st k final) (fuel : Nat) :
    loop (k + fuel) st = loop fuel final := by
  induction reaches with
  | refl st => rw [Nat.zero_add]
  | next step _ ih =>
    rw [Nat.add_right_comm, LengthState.loop, step]
    exact ih

theorem counted_nested (inner outermost : ItemType) (scopes : List ItemType) :
    counted inner (outermost :: scopes) = 0 :=
  if_neg fun both => List.cons_ne_nil outermost scopes both.2

theorem counted_succ (n k c : Nat) : n + c + k * c = n + (k + 1) * c := by
  ring

/-- The room in the two stacks for containers in the one that is read. -/
def freeScopes (outer : List Nat) (scopes : List ItemType) : Nat :=
  min (200 - (outer.length + 1)) (10 - scopes.length)

/-- The loop reaches the end of the container. -/
theorem Stands.reaches_end {count rounds : Nat}
    (ends : ItemsEnd type room counter text count rounds rest)
    (stands : st.Stands text (counter :: outer) type scopes n)
    (isRoom : room = freeScopes outer scopes) :
    ∃ (last : LengthState) (text' : Bytes) (scope' : List Nat) (next : JSONReader),
      Reaches st rounds last ∧
      last.Stands text' scope' type scopes (n + count * counted type scopes) ∧
      nextItem last.reader type = .ok (false, next) ∧ next.At rest outer := by
  induction ends generalizing st outer scopes n with
  | closing closes =>
    obtain ⟨⟨hasItem, next⟩, run, same, at_rest⟩ :=
      (stands.reader.nextItem_agrees _).of_some closes
    cases same
    rw [Nat.zero_mul]
    exact ⟨st, _, _, next, .refl st, stands, run, at_rest⟩
  | token starts token others ih =>
    obtain ⟨middle, isStep, stands_value⟩ := stands.step_value starts
    obtain ⟨next, valued, stands_next⟩ :=
      stands_value.stepValue_agrees.of_some (valueIn_eq_some.mpr ⟨token, .inl rfl⟩)
    rw [valued] at isStep
    obtain ⟨last, text', scope', closed, reaches, stands_last, run, at_rest⟩ :=
      ih stands_next isRoom
    rw [counted_succ] at stands_last
    exact ⟨last, text', scope', closed, .next isStep reaches, stands_last, run, at_rest⟩
  | container starts opens items others innerHypothesis ih =>
    have free : outer.length + 1 < 200 ∧ scopes.length < 10 := by
      rw [freeScopes] at isRoom
      omega
    obtain ⟨middle, isStep, stands_value⟩ := stands.step_value starts
    obtain ⟨next, valued, stands_next⟩ :=
      stands_value.stepValue_agrees.of_some (valueIn_eq_some.mpr ⟨opens, .inr free⟩)
    rw [valued] at isStep
    obtain ⟨last, text', scope', closed, reaches, stands_last, run, at_behind⟩ :=
      innerHypothesis stands_next (by
        rw [freeScopes] at isRoom ⊢
        rw [List.length_cons, List.length_cons]
        omega)
    rw [counted_nested, Nat.mul_zero, Nat.add_zero] at stands_last
    obtain ⟨left, leaves, stands_left⟩ := stands_last.step_leave run at_behind
    obtain ⟨last', text'', scope'', closed', reaches', stands_last', run', at_rest⟩ :=
      ih stands_left isRoom
    rw [counted_succ] at stands_last'
    exact ⟨last', text'', scope'', closed', .next isStep (reaches.trans (.next leaves reaches')),
      stands_last', run', at_rest⟩

/-- A loop that ends finds the end of the container, and goes on in the container around it. -/
theorem Stands.ends_of_loop (fuel : Nat) {final : LengthState}
    (stands : st.Stands text (counter :: outer) type scopes n) (stops : loop fuel st = .ok final) :
    ∃ count rounds rest,
      ItemsEnd type (freeScopes outer scopes) counter text count rounds rest ∧
      (scopes = [] → final.reader.scopeCounter = ⟨outer, 200⟩) ∧
      ∀ outermost others, scopes = outermost :: others → ∃ fuel' < fuel,
        ∃ (following : LengthState) (m : Nat), following.Stands rest outer outermost others m ∧
          loop fuel' following = .ok final := by
  induction fuel using Nat.strong_induction_on generalizing st text counter outer type scopes n with
  | _ fuel ih =>
    cases fuel with
    | zero => cases stops
    | succ fuel =>
      obtain ⟨⟨another, after⟩, isStep, stops⟩ := exists_of_bind stops
      obtain ⟨⟨hasItem, next⟩, run, -⟩ := exists_of_bind isStep
      rw [stands.jsonItemType] at run
      obtain ⟨⟨hasItem', value⟩, separates, same, at_value⟩ :=
        (stands.reader.nextItem_agrees type).of_ok run
      cases same
      cases hasItem with
      | false =>
        refine ⟨0, 0, value, .closing separates, fun none => ?_, fun outermost others isScopes => ?_⟩
        · subst none
          obtain ⟨last, step, stands_last⟩ := stands.step_stop run at_value
          cases step.symm.trans isStep
          cases stops
          exact stands_last.reader.scopeCounter
        · subst isScopes
          obtain ⟨following, step, stands_following⟩ := stands.step_leave run at_value
          cases step.symm.trans isStep
          exact ⟨fuel, Nat.lt_succ_self fuel, after, n, stands_following, stops⟩
      | true =>
        obtain ⟨middle, step, stands_middle⟩ := stands.step_value separates
        obtain ⟨next', valued, step⟩ := exists_of_bind (step.symm.trans isStep)
        cases step
        obtain ⟨⟨inner, inside⟩, starts, related⟩ := stands_middle.stepValue_agrees.of_ok valued
        obtain ⟨starts, admitted⟩ := valueIn_eq_some.mp starts
        cases inner with
        | none =>
          obtain ⟨count, rounds, rest, ends, last, around⟩ :=
            ih fuel (Nat.lt_succ_self fuel) related stops
          refine ⟨count + 1, rounds + 1, rest, .token separates starts ends, last,
            fun outermost others isScopes => ?_⟩
          obtain ⟨fuel', less, goesOn⟩ := around outermost others isScopes
          exact ⟨fuel', less.trans (Nat.lt_succ_self fuel), goesOn⟩
        | some inner =>
          have free := admitted.resolve_left (Option.some_ne_none inner)
          obtain ⟨_, rounds, behind, items, -, around⟩ := ih fuel (Nat.lt_succ_self fuel) related stops
          obtain ⟨fuel', less, following, m', stands_following, goesOn⟩ := around type scopes rfl
          obtain ⟨count, rounds', rest, ends, last, around⟩ :=
            ih fuel' (less.trans (Nat.lt_succ_self fuel)) stands_following goesOn
          have room : freeScopes outer scopes =
              freeScopes ((counter + 1) % 2 ^ 32 :: outer) (type :: scopes) + 1 := by
            rw [freeScopes, freeScopes, List.length_cons, List.length_cons]
            rw [List.length_cons] at free
            omega
          rw [room] at ends ⊢
          refine ⟨count + 1, rounds + rounds' + 2, rest, .container separates starts items ends, last,
            fun outermost others isScopes => ?_⟩
          obtain ⟨fuel'', less', goesOn⟩ := around outermost others isScopes
          exact ⟨fuel'', less'.trans (less.trans (Nat.lt_succ_self fuel)), goesOn⟩

end LengthState

section Call

open LengthState

variable {platform : PlatformMemory} {reader : JSONReader} {text rest : Bytes} {scope outer : List Nat}
  {counter count rounds fuel : Nat}

theorem JSONReader.At.stands (at_text : reader.At text scope) :
    Stands ⟨reader, ⟨[], 10⟩, .array, 0⟩ text scope .array [] 0 :=
  ⟨at_text, rfl, rfl, rfl⟩

theorem JSONReader.At.arrayLength_eq (at_text : reader.At text (counter :: outer))
    (bounded : outer.length < 200) (allocates : platform.allocates = true)
    (ends : ItemsEnd .array (freeScopes outer []) counter text count rounds rest)
    (enough : rounds < fuel) : reader.arrayLength platform fuel =
      .ok (reader, if platform.frees then 0 else -1, some count) := by
  obtain ⟨last, text', scope', next, reaches, stands_last, run, at_rest⟩ :=
    at_text.stands.reaches_end ends rfl
  obtain ⟨final, stops, stands_final⟩ := stands_last.step_stop run at_rest
  obtain ⟨left, rfl⟩ := Nat.exists_eq_add_of_lt enough
  have loops : loop (rounds + left + 1) ⟨reader, ⟨[], 10⟩, .array, 0⟩ = .ok final := by
    rw [Nat.add_assoc, reaches.loop, LengthState.loop, stops]
    rfl
  have pushed : final.reader.scopeCounter.push counter = .ok ⟨counter :: outer, 200⟩ := by
    rw [stands_final.reader.scopeCounter]
    exact if_pos bounded
  have total : final.numElements = count := by
    rw [stands_final.numElements, counted, if_pos ⟨rfl, rfl⟩, Nat.zero_add, Nat.mul_one]
  rw [JSONReader.arrayLength, at_text.scopeCounter]
  change (if platform.allocates then _ else _) = _
  rw [if_pos allocates, loops]
  change (final.reader.scopeCounter.push counter).bind _ = _
  rw [pushed, ← total, ← at_text.scopeCounter]
  rfl

theorem JSONReader.At.arrayLength_ends {result : JSONReader × Int × Option Nat}
    (at_text : reader.At text scope) (run : reader.arrayLength platform fuel = .ok result) :
    result.1.At text scope ∧ ∃ counter outer, scope = counter :: outer ∧
      (platform.allocates = true → ∃ count rounds rest,
        ItemsEnd .array (freeScopes outer []) counter text count rounds rest) := by
  obtain ⟨counter, isTop, run⟩ := exists_of_bind run
  rw [at_text.scopeCounter] at isTop
  cases scope with
  | nil => cases isTop
  | cons top outer =>
    cases isTop
    split at run
    · obtain ⟨final, loops, run⟩ := exists_of_bind run
      obtain ⟨pushed, push, run⟩ := exists_of_bind run
      obtain ⟨count, rounds, rest, ends, last, -⟩ := at_text.stands.ends_of_loop fuel loops
      rw [last rfl, ScopeSeq.push] at push
      split at push
      · cases push
        cases run
        exact ⟨⟨at_text.isptr, rfl⟩, counter, outer, rfl, fun _ => ⟨count, rounds, rest, ends⟩⟩
      · cases push
    · rename_i refuses
      cases run
      exact ⟨at_text, counter, outer, rfl, fun allocates => absurd allocates refuses⟩

end Call

end Tvm.Crt
