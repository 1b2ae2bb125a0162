import Tvm.Crt.JsonLoop

/-!
# The length of a well-formed array

What `JSONReader_ArrayLength` makes of a text of strings, integers, arrays and objects with white
space between them: by induction over the text, the reader divides it into just these items.
-/

namespace Tvm.Crt

open Tvm.Lib

abbrev Spaces := {bytes : Bytes // ∀ b ∈ bytes, isSpace b = true}

structure PlainByte where
  byte : UInt8
  printable : 32 ≤ byte.toNat
  notQuote : byte ≠ quoteByte
  notBackslash : byte ≠ backslashByte
  notEof : byte ≠ eofByte

inductive Escape where
  | carriageReturn
  | newline
  | backslash
  | tab
  | quote
  deriving DecidableEq

def Escape.byte : Escape → UInt8
  | .carriageReturn => 114
  | .newline => 110
  | .backslash => backslashByte
  | .tab => 116
  | .quote => quoteByte

inductive StringChar where
  | plain (byte : PlainByte)
  | escape (known : Escape)

def StringChar.text : StringChar → Bytes
  | .plain byte => [byte.byte]
  | .escape known => [backslashByte, known.byte]

def StringChar.isPlain : StringChar → Bool
  | .plain _ => true
  | .escape _ => false

def stringBody (chars : List StringChar) : Bytes := chars.flatMap StringChar.text

def stringText (chars : List StringChar) : Bytes := quoteByte :: (stringBody chars ++ [quoteByte])

structure IntegerText where
  negative : Bool
  digits : Bytes
  nonempty : digits ≠ []
  areDigits : ∀ b ∈ digits, isDigit b = true

def IntegerText.text (number : IntegerText) : Bytes :=
  if number.negative then 45 :: number.digits else number.digits

/-- What is before a value: the key of a member of an object. -/
inductive JsonPlace : ItemType → Type where
  | item (before : Spaces) : JsonPlace .array
  | member (beforeKey : Spaces) (key : List StringChar) (behindKey before : Spaces) : JsonPlace .object

namespace JsonPlace

def text : {type : ItemType} → JsonPlace type → Bytes
  | _, .item before => before
  | _, .member beforeKey key behindKey before =>
    beforeKey.val ++ (stringText key ++ (behindKey.val ++ colonByte :: before.val))

def plain : {type : ItemType} → JsonPlace type → Bool
  | _, .item _ => true
  | _, .member _ key _ _ => key.all StringChar.isPlain

end JsonPlace

/-- The items of a container from one of them to the closing byte. -/
inductive JsonItems : ItemType → Type where
  | nil {type : ItemType} (before : Spaces) : JsonItems type
  | string {type : ItemType} (place : JsonPlace type) (chars : List StringChar) (behind : Spaces)
      (rest : JsonItems type) : JsonItems type
  | integer {type : ItemType} (place : JsonPlace type) (number : IntegerText) (behind : Spaces)
      (rest : JsonItems type) : JsonItems type
  | container {type : ItemType} (place : JsonPlace type) (inner : ItemType) (items : JsonItems inner)
      (behind : Spaces) (rest : JsonItems type) : JsonItems type

def commaText (first : Bool) : Bytes := if first then [] else [commaByte]

namespace JsonItems

def text : {type : ItemType} → Bool → JsonItems type → Bytes
  | type, _, .nil before => before.val ++ [type.closing]
  | _, first, .string place chars behind rest =>
    commaText first ++ (place.text ++ (stringText chars ++ (behind.val ++ rest.text false)))
  | _, first, .integer place number behind rest =>
    commaText first ++ (place.text ++ (number.text ++ (behind.val ++ rest.text false)))
  | _, first, .container place inner items behind rest =>
    commaText first ++ (place.text ++
      (inner.opening :: (items.text true ++ (behind.val ++ rest.text false))))

def count : {type : ItemType} → JsonItems type → Nat
  | _, .nil _ => 0
  | _, .string _ _ _ rest | _, .integer _ _ _ rest | _, .container _ _ _ _ rest => rest.count + 1

def depth : {type : ItemType} → JsonItems type → Nat
  | _, .nil _ => 0
  | _, .string _ _ _ rest | _, .integer _ _ _ rest => rest.depth
  | _, .container _ _ items _ rest => max (items.depth + 1) rest.depth

/-- No string and no key has an escape. -/
def plain : {type : ItemType} → JsonItems type → Bool
  | _, .nil _ => true
  | _, .string place chars _ rest => place.plain && chars.all StringChar.isPlain && rest.plain
  | _, .integer place _ _ rest => place.plain && rest.plain
  | _, .container place _ items _ rest => place.plain && items.plain && rest.plain

/-- The items of every container that is nested in these can be counted in 32 bits. -/
def Counted : {type : ItemType} → JsonItems type → Prop
  | _, .nil _ => True
  | _, .string _ _ _ rest | _, .integer _ _ _ rest => rest.Counted
  | _, .container _ _ items _ rest => items.count ≤ 2 ^ 32 ∧ items.Counted ∧ rest.Counted

/-- The rounds of the loop up to the closing byte. -/
def steps : {type : ItemType} → JsonItems type → Nat
  | _, .nil _ => 0
  | _, .string _ _ _ rest | _, .integer _ _ _ rest => rest.steps + 1
  | _, .container _ _ items _ rest => items.steps + rest.steps + 2

theorem text_behind {type : ItemType} (items : JsonItems type) {counter : Nat}
    (small : counter + 1 + items.count ≤ 2 ^ 32) :
    items.text false = items.text (decide ((counter + 1) % 2 ^ 32 = 0)) := by
  have later : items.count ≠ 0 → (counter + 1) % 2 ^ 32 ≠ 0 := by omega
  cases items with
  | nil before => rfl
  | string place chars behind rest => rw [decide_eq_false (later (Nat.succ_ne_zero _))]
  | integer place number behind rest => rw [decide_eq_false (later (Nat.succ_ne_zero _))]
  | container place inner items behind rest => rw [decide_eq_false (later (Nat.succ_ne_zero _))]

end JsonItems

section Tokens

open JSONReader

variable {type : ItemType} {rest : Bytes} {ch : UInt8} {counter : Nat} {lead behind : Spaces}

def noSpaces : Spaces := ⟨[], fun _ is => absurd is List.not_mem_nil⟩

@[simp]
theorem visible_append (spaces : Spaces) (text : Bytes) :
    visible (spaces.val ++ text) = visible text := by
  obtain ⟨spaces, blank⟩ := spaces
  induction spaces with
  | nil => rfl
  | cons b spaces ih =>
    obtain ⟨isBlank, others⟩ := List.forall_mem_cons.mp blank
    change visible (b :: (spaces ++ text)) = _
    rw [visible, isBlank]
    exact ih others

theorem visible_cons (notSpace : isSpace ch = false) (rest : Bytes) :
    visible (ch :: rest) = some (ch, rest) := by
  rw [visible, notSpace]
  rfl

theorem behindDiscarded_string (chars : List StringChar) :
    behindDiscarded (stringBody chars ++ quoteByte :: rest) =
      if chars.all StringChar.isPlain then some rest else none := by
  induction chars with
  | nil =>
    change behindDiscarded (quoteByte :: rest) = _
    rw [behindDiscarded.eq_def]
    rfl
  | cons char chars ih =>
    cases char with
    | escape known =>
      change behindDiscarded
        (backslashByte :: known.byte :: (stringBody chars ++ quoteByte :: rest)) = _
      rw [behindDiscarded.eq_def]
      cases known <;> rfl
    | plain byte =>
      have goesOn : ¬(byte.byte = quoteByte ∨ EndsLine byte.byte) := by
        have printable := byte.printable
        rintro (isQuote | isEof | isReturn | isNewline)
        · exact byte.notQuote isQuote
        · exact byte.notEof isEof
        · rw [isReturn] at printable
          exact absurd printable (by decide)
        · rw [isNewline] at printable
          exact absurd printable (by decide)
      change behindDiscarded (byte.byte :: (stringBody chars ++ quoteByte :: rest)) = _
      rw [behindDiscarded.eq_def]
      dsimp only
      rw [if_neg byte.notBackslash, if_neg goesOn, ih]
      rfl

theorem stringText_append (chars : List StringChar) (rest : Bytes) :
    stringText chars ++ rest = quoteByte :: (stringBody chars ++ quoteByte :: rest) := by
  rw [stringText, List.cons_append, List.append_assoc]
  rfl

theorem text_number (number : IntegerText) : ∃ v more, number.text = v :: more ∧
    (v = 45 ∨ isDigit v = true) := by
  rw [IntegerText.text]
  cases isNegative : number.negative with
  | true => exact ⟨45, number.digits, rfl, .inl rfl⟩
  | false =>
    obtain ⟨v, more, isDigits⟩ := List.exists_cons_of_ne_nil number.nonempty
    exact ⟨v, more, isDigits, .inr (number.areDigits v (isDigits ▸ List.mem_cons_self))⟩

theorem spanDigits_append {digits : Bytes} (areDigits : ∀ b ∈ digits, isDigit b = true)
    (ends : isDigit ch = false) : spanDigits (digits ++ ch :: rest) = .ok (digits, ch :: rest) := by
  induction digits with
  | nil =>
    rw [List.nil_append, spanDigits, ends]
    rfl
  | cons b digits ih =>
    obtain ⟨digit, others⟩ := List.forall_mem_cons.mp areDigits
    rw [List.cons_append, spanDigits, digit, if_pos rfl, ih others]
    rfl

theorem strtol_number (number : IntegerText) (rest : Bytes) (ends : isDigit ch = false) :
    ∃ value, strtol (number.text ++ ch :: rest) = .ok (value, ch :: rest) := by
  have digits : spanDigits (number.digits ++ ch :: rest) = _ := spanDigits_append number.areDigits ends
  obtain ⟨v, more, isText, starts⟩ := text_number number
  have visible : isSpace v = false := by
    rcases starts with rfl | digit
    · rfl
    · exact isSpace_of_isDigit digit
  have start : skipSpaces (number.text ++ ch :: rest) = .ok (number.text ++ ch :: rest) := by
    rw [isText, List.cons_append, skipSpaces, visible]
    rfl
  have sign : spanSign (number.text ++ ch :: rest) =
      .ok (number.negative, number.digits ++ ch :: rest) := by
    rw [IntegerText.text] at isText ⊢
    cases isNegative : number.negative with
    | true => rfl
    | false =>
      rw [isNegative] at isText
      have isDigits : number.digits = v :: more := isText
      obtain rfl | digit := starts
      · exact absurd (number.areDigits 45 (isDigits ▸ List.mem_cons_self)) (by decide)
      · have notMinus : v ≠ 45 := fun same => by rw [same] at digit; cases digit
        have notPlus : v ≠ 43 := fun same => by rw [same] at digit; cases digit
        change spanSign (number.digits ++ ch :: rest) = _
        rw [isDigits, List.cons_append, spanSign, if_neg notMinus,
          if_neg notPlus]
  refine ⟨clampLong (if number.negative then -(ofDigitBytes number.digits : Int)
    else ofDigitBytes number.digits), ?_⟩
  rw [strtol, start]
  change (spanSign (number.text ++ ch :: rest)).bind _ = _
  rw [sign]
  change (spanDigits (number.digits ++ ch :: rest)).bind _ = _
  rw [digits]
  change (if number.digits = [] then _ else _) = _
  rw [if_neg number.nonempty]

theorem isSpace_closing (type : ItemType) : isSpace type.closing = false := by
  cases type <;> rfl

theorem separator_item (counter : Nat) (lead before : Spaces) (rest : Bytes)
    (notSpace : isSpace ch = false) (item : ch ≠ type.closing) :
    ∃ behind : Spaces, separator type.closing counter
      (lead.val ++ (commaText (decide (counter = 0)) ++ (before.val ++ ch :: rest))) =
        some (true, behind.val ++ ch :: rest) := by
  rw [separator, visible_append]
  by_cases first : counter = 0
  · refine ⟨noSpaces, ?_⟩
    rw [decide_eq_true first]
    change (visible (before.val ++ ch :: rest)).bind _ = _
    rw [visible_append, visible_cons notSpace]
    change (if counter ≠ 0 then _ else _) = _
    rw [if_neg (not_not.mpr first), if_neg item]
    rfl
  · refine ⟨before, ?_⟩
    rw [decide_eq_false first]
    change (if counter ≠ 0 then _ else _) = _
    rw [if_pos first]
    cases type <;> rfl

theorem separator_closing (before : Spaces) :
    separator type.closing counter (lead.val ++ (before.val ++ type.closing :: rest)) =
      some (false, rest) := by
  rw [separator, visible_append, visible_append, visible_cons (isSpace_closing type)]
  change (if counter ≠ 0 then _ else _) = _
  split
  · rw [decide_eq_true rfl, Bool.or_true]
    rfl
  · exact if_pos rfl

theorem itemSeparator_closing (before : Spaces) :
    itemSeparator type counter (lead.val ++ (before.val ++ type.closing :: rest)) =
      some (false, rest) := by
  cases type with
  | array => exact separator_closing before
  | object =>
    rw [itemSeparator, memberSeparator, separator_closing]
    rfl

theorem member_text_append (beforeKey : Spaces) (key : List StringChar) (behindKey before : Spaces)
    (tail : Bytes) : JsonPlace.text (.member beforeKey key behindKey before) ++ tail =
      beforeKey.val ++ quoteByte :: (stringBody key ++ quoteByte :: (behindKey.val ++
        colonByte :: (before.val ++ tail))) := by
  rw [JsonPlace.text, List.append_assoc, List.append_assoc, List.append_assoc, stringText_append]
  rfl

theorem passString_string (chars : List StringChar) :
    passString behindDiscarded (lead.val ++ quoteByte :: (stringBody chars ++ quoteByte :: rest)) =
      if chars.all StringChar.isPlain then some rest else none := by
  rw [passString, visible_append, visible_cons rfl]
  exact behindDiscarded_string chars

theorem stringText_ne_closing (type : ItemType) : quoteByte ≠ type.closing := by
  cases type <;> decide

theorem itemSeparator_item (place : JsonPlace type) (counter : Nat) (lead : Spaces) (rest : Bytes)
    (notSpace : isSpace ch = false) (item : ch ≠ type.closing) : ∃ behind : Spaces,
    itemSeparator type counter
      (lead.val ++ (commaText (decide (counter = 0)) ++ (place.text ++ ch :: rest))) =
        if place.plain then some (true, behind.val ++ ch :: rest) else none := by
  cases place with
  | item before => exact separator_item counter lead before rest notSpace item
  | member beforeKey key behindKey before =>
    have quote : quoteByte ≠ ItemType.object.closing := by decide
    obtain ⟨behind, found⟩ := separator_item counter lead beforeKey
      (stringBody key ++ quoteByte :: (behindKey.val ++ colonByte :: (before.val ++ ch :: rest)))
      rfl quote
    refine ⟨before, ?_⟩
    rw [itemSeparator, memberSeparator, member_text_append, found]
    change (passString behindDiscarded _).bind _ = _
    rw [passString_string]
    change _ = if key.all StringChar.isPlain then _ else none
    split
    · change (visible (behindKey.val ++ colonByte :: (before.val ++ ch :: rest))).bind _ = _
      rw [visible_append, visible_cons rfl]
      rfl
    · rfl

theorem ends_number (rest : Bytes) (behind : Spaces) (items : JsonItems type) : ∃ ch tail,
    behind.val ++ (items.text false ++ rest) = ch :: tail ∧ isDigit ch = false := by
  have space : ∀ {b : UInt8}, isSpace b = true → isDigit b = false := by
    intro b isBlank
    by_contra digit
    rw [Bool.not_eq_false] at digit
    exact Bool.false_ne_true ((isSpace_of_isDigit digit).symm.trans isBlank)
  obtain ⟨bytes, blank⟩ := behind
  cases bytes with
  | cons b bytes => exact ⟨b, _, rfl, space (blank b List.mem_cons_self)⟩
  | nil =>
    cases items with
    | nil before =>
      obtain ⟨bytes, blank⟩ := before
      cases bytes with
      | nil =>
        refine ⟨type.closing, rest, rfl, ?_⟩
        cases type <;> rfl
      | cons b bytes => exact ⟨b, _, rfl, space (blank b List.mem_cons_self)⟩
    | string place chars behind others => exact ⟨commaByte, _, rfl, rfl⟩
    | integer place number behind others => exact ⟨commaByte, _, rfl, rfl⟩
    | container place inner items behind others => exact ⟨commaByte, _, rfl, rfl⟩

theorem opening_visible (inner : ItemType) : isSpace inner.opening = false := by
  cases inner <;> rfl

theorem opening_ne_closing (inner type : ItemType) : inner.opening ≠ type.closing := by
  cases inner <;> cases type <;> decide

theorem text_number_starts {v : UInt8} (starts : v = 45 ∨ isDigit v = true) (type : ItemType) :
    isSpace v = false ∧ v ≠ type.closing := by
  rcases starts with rfl | digit
  · refine ⟨rfl, ?_⟩
    cases type <;> decide
  · refine ⟨isSpace_of_isDigit digit, ?_⟩
    rintro rfl
    cases type <;> cases digit

/-- A number does not start with a byte that is neither a digit nor its sign. -/
theorem ne_of_starts {v b : UInt8} (starts : v = 45 ∨ isDigit v = true) (notSign : b ≠ 45)
    (notDigit : isDigit b = false) : v ≠ b := by
  rintro rfl
  rcases starts with rfl | digit
  · exact notSign rfl
  · exact Bool.false_ne_true (notDigit.symm.trans digit)

theorem valueStart_string (chars : List StringChar) (lead : Spaces) (rest : Bytes) :
    valueStart (lead.val ++ quoteByte :: (stringBody chars ++ quoteByte :: rest)) =
      if chars.all StringChar.isPlain then some (none, rest) else none := by
  rw [valueStart, visible_append, visible_cons rfl]
  change (behindDiscarded _).bind _ = _
  rw [behindDiscarded_string]
  split <;> rfl

theorem valueStart_integer (number : IntegerText) (lead : Spaces) (rest : Bytes)
    (ends : isDigit ch = false) :
    valueStart (lead.val ++ (number.text ++ ch :: rest)) = some (none, ch :: rest) := by
  obtain ⟨value, parses⟩ := strtol_number number rest ends
  obtain ⟨v, more, isText, starts⟩ := text_number number
  have notSpace := (text_number_starts starts .array).1
  rw [valueStart, visible_append]
  rw [isText, List.cons_append] at parses ⊢
  rw [visible_cons notSpace]
  change (if v = quoteByte then _ else _) = _
  rw [if_neg (ne_of_starts starts (by decide) rfl), if_neg (ne_of_starts starts (by decide) rfl),
    if_neg (ne_of_starts starts (by decide) rfl), parses]
  rfl

theorem valueStart_container (inner : ItemType) (lead : Spaces) (rest : Bytes) :
    valueStart (lead.val ++ inner.opening :: rest) = some (some inner, rest) := by
  rw [valueStart, visible_append]
  cases inner <;> rfl

section Texts

variable (first : Bool) (place : JsonPlace type) (behind : Spaces) (others : JsonItems type)
  (tail : Bytes)

theorem text_nil (before : Spaces) : (JsonItems.nil before : JsonItems type).text first ++ tail =
    before.val ++ type.closing :: tail := by
  rw [JsonItems.text, List.append_assoc]
  rfl

theorem text_string (chars : List StringChar) :
    (JsonItems.string place chars behind others).text first ++ tail =
      commaText first ++ (place.text ++ quoteByte :: (stringBody chars ++ quoteByte ::
        (behind.val ++ (others.text false ++ tail)))) := by
  simp only [JsonItems.text, List.append_assoc, List.cons_append, stringText_append]

theorem text_integer (number : IntegerText) :
    (JsonItems.integer place number behind others).text first ++ tail =
      commaText first ++
        (place.text ++ (number.text ++ (behind.val ++ (others.text false ++ tail)))) := by
  simp only [JsonItems.text, List.append_assoc]

theorem text_container {inner : ItemType} (items : JsonItems inner) :
    (JsonItems.container place inner items behind others).text first ++ tail =
      commaText first ++ (place.text ++ (inner.opening :: (items.text true ++
        (behind.val ++ (others.text false ++ tail))))) := by
  simp only [JsonItems.text, List.append_assoc, List.cons_append]

end Texts

end Tokens

namespace ItemsEnd

variable {type inner : ItemType} {room counter n rounds : Nat} {text value behind rest : Bytes}
  {p q : Prop} [Decidable p] [Decidable q]

theorem behind_token (ends : ItemsEnd type room counter text n rounds rest)
    (separates : itemSeparator type counter text = if p then some (true, value) else none)
    (begins : valueStart value = if q then some (none, behind) else none) :
    p ∧ q ∧ ∃ n' rounds', ItemsEnd type room ((counter + 1) % 2 ^ 32) behind n' rounds' rest := by
  cases ends with
  | closing closes =>
    obtain ⟨-, same⟩ := Option.ite_none_right_eq_some.mp (separates.symm.trans closes)
    cases same
  | token starts token others =>
    obtain ⟨left, same⟩ := Option.ite_none_right_eq_some.mp (separates.symm.trans starts)
    cases same
    obtain ⟨right, same⟩ := Option.ite_none_right_eq_some.mp (begins.symm.trans token)
    cases same
    exact ⟨left, right, _, _, others⟩
  | container starts opens =>
    obtain ⟨-, same⟩ := Option.ite_none_right_eq_some.mp (separates.symm.trans starts)
    cases same
    obtain ⟨-, same⟩ := Option.ite_none_right_eq_some.mp (begins.symm.trans opens)
    cases same

theorem behind_container (ends : ItemsEnd type room counter text n rounds rest)
    (separates : itemSeparator type counter text = if p then some (true, value) else none)
    (begins : valueStart value = some (some inner, behind)) :
    p ∧ ∃ left, room = left + 1 ∧ ∃ innerCount innerRounds middle n' rounds',
      ItemsEnd inner left 0 behind innerCount innerRounds middle ∧
      ItemsEnd type (left + 1) ((counter + 1) % 2 ^ 32) middle n' rounds' rest := by
  cases ends with
  | closing closes =>
    obtain ⟨-, same⟩ := Option.ite_none_right_eq_some.mp (separates.symm.trans closes)
    cases same
  | token starts token =>
    obtain ⟨-, same⟩ := Option.ite_none_right_eq_some.mp (separates.symm.trans starts)
    cases same
    cases begins.symm.trans token
  | container starts opens items others =>
    obtain ⟨holds, same⟩ := Option.ite_none_right_eq_some.mp (separates.symm.trans starts)
    cases same
    cases begins.symm.trans opens
    exact ⟨holds, _, rfl, _, _, _, _, _, items, others⟩

end ItemsEnd

namespace JsonItems

open JSONReader

theorem ends {type : ItemType} (items : JsonItems type) (room counter : Nat) (lead : Spaces)
    (tail : Bytes) (small : counter + items.count ≤ 2 ^ 32) (isCounted : items.Counted)
    (isPlain : items.plain = true) (shallow : items.depth ≤ room) :
    ItemsEnd type room counter (lead.val ++ (items.text (decide (counter = 0)) ++ tail))
      items.count items.steps tail := by
  induction items generalizing room counter lead tail with
  | nil before =>
    rw [text_nil]
    exact .closing (itemSeparator_closing before)
  | string place chars behind others ih =>
    rw [plain, Bool.and_eq_true, Bool.and_eq_true] at isPlain
    rw [count, ← Nat.add_assoc, Nat.add_right_comm] at small
    obtain ⟨before, starts⟩ := itemSeparator_item place counter lead
      (stringBody chars ++ quoteByte :: (behind.val ++ (others.text false ++ tail))) rfl
      (stringText_ne_closing _)
    rw [if_pos isPlain.1.1] at starts
    have token := valueStart_string chars before (behind.val ++ (others.text false ++ tail))
    rw [if_pos isPlain.1.2] at token
    rw [text_string]
    refine .token starts token ?_
    rw [text_behind others small]
    exact ih _ _ behind tail ((Nat.add_le_add_right (Nat.mod_le _ _) _).trans small) isCounted
      isPlain.2 shallow
  | integer place number behind others ih =>
    rw [plain, Bool.and_eq_true] at isPlain
    rw [count, ← Nat.add_assoc, Nat.add_right_comm] at small
    obtain ⟨v, more, isText, begins⟩ := text_number number
    obtain ⟨notSpace, notClosing⟩ := text_number_starts begins _
    obtain ⟨before, starts⟩ := itemSeparator_item place counter lead
      (more ++ (behind.val ++ (others.text false ++ tail))) notSpace notClosing
    rw [if_pos isPlain.1, ← List.cons_append, ← isText] at starts
    obtain ⟨ch, after, isBehind, notDigit⟩ := ends_number tail behind others
    have token := valueStart_integer number before after notDigit
    rw [← isBehind] at token
    rw [text_integer]
    refine .token starts token ?_
    rw [text_behind others small]
    exact ih _ _ behind tail ((Nat.add_le_add_right (Nat.mod_le _ _) _).trans small) isCounted
      isPlain.2 shallow
  | container place inner items behind others innerHypothesis ih =>
    rw [plain, Bool.and_eq_true, Bool.and_eq_true] at isPlain
    rw [count, ← Nat.add_assoc, Nat.add_right_comm] at small
    obtain ⟨innerSmall, innerCounted, othersCounted⟩ := isCounted
    obtain ⟨innerShallow, othersShallow⟩ := max_le_iff.mp shallow
    obtain ⟨left, rfl⟩ := Nat.exists_eq_add_of_lt innerShallow
    obtain ⟨before, starts⟩ := itemSeparator_item place counter lead
      (items.text true ++ (behind.val ++ (others.text false ++ tail)))
      (opening_visible inner) (opening_ne_closing inner _)
    rw [if_pos isPlain.1.1] at starts
    rw [text_container]
    have inside := innerHypothesis (items.depth + left) 0 noSpaces
      (behind.val ++ (others.text false ++ tail)) (by omega) innerCounted isPlain.1.2
      (Nat.le_add_right _ left)
    refine .container starts (valueStart_container inner before _) inside ?_
    rw [text_behind others small]
    exact ih _ _ behind tail ((Nat.add_le_add_right (Nat.mod_le _ _) _).trans small) othersCounted
      isPlain.2 othersShallow

theorem of_ends {type : ItemType} (items : JsonItems type) {room counter n rounds : Nat}
    (lead : Spaces) {tail rest : Bytes} (small : counter + items.count ≤ 2 ^ 32)
    (isCounted : items.Counted)
    (ends : ItemsEnd type room counter
      (lead.val ++ (items.text (decide (counter = 0)) ++ tail)) n rounds rest) :
    rest = tail ∧ items.plain = true ∧ items.depth ≤ room := by
  induction items generalizing room counter n rounds lead tail rest with
  | nil before =>
    rw [text_nil] at ends
    cases ends with
    | closing found =>
      cases (itemSeparator_closing before).symm.trans found
      exact ⟨rfl, rfl, Nat.zero_le room⟩
    | token starts => cases (itemSeparator_closing before).symm.trans starts
    | container starts => cases (itemSeparator_closing before).symm.trans starts
  | string place chars behind others ih =>
    rw [count, ← Nat.add_assoc, Nat.add_right_comm] at small
    obtain ⟨before, separates⟩ := itemSeparator_item place counter lead
      (stringBody chars ++ quoteByte :: (behind.val ++ (others.text false ++ tail))) rfl
      (stringText_ne_closing _)
    rw [text_string] at ends
    obtain ⟨placePlain, charsPlain, _, _, next⟩ := ends.behind_token separates
      (valueStart_string chars before _)
    rw [text_behind others small] at next
    obtain ⟨isRest, othersPlain, shallow⟩ :=
      ih behind ((Nat.add_le_add_right (Nat.mod_le _ _) _).trans small) isCounted next
    refine ⟨isRest, ?_, shallow⟩
    rw [plain, placePlain, charsPlain, othersPlain]
    rfl
  | integer place number behind others ih =>
    rw [count, ← Nat.add_assoc, Nat.add_right_comm] at small
    obtain ⟨v, more, isText, starts⟩ := text_number number
    obtain ⟨notSpace, notClosing⟩ := text_number_starts starts _
    obtain ⟨before, separates⟩ := itemSeparator_item place counter lead
      (more ++ (behind.val ++ (others.text false ++ tail))) notSpace notClosing
    rw [← List.cons_append, ← isText] at separates
    obtain ⟨ch, after, isBehind, notDigit⟩ := ends_number tail behind others
    have begins := valueStart_integer number before after notDigit
    rw [← isBehind] at begins
    rw [text_integer] at ends
    obtain ⟨placePlain, -, _, _, next⟩ := ends.behind_token (q := True) separates begins
    rw [text_behind others small] at next
    obtain ⟨isRest, othersPlain, shallow⟩ :=
      ih behind ((Nat.add_le_add_right (Nat.mod_le _ _) _).trans small) isCounted next
    refine ⟨isRest, ?_, shallow⟩
    rw [plain, placePlain, othersPlain]
    rfl
  | container place inner items behind others innerHypothesis ih =>
    rw [count, ← Nat.add_assoc, Nat.add_right_comm] at small
    obtain ⟨innerSmall, innerCounted, othersCounted⟩ := isCounted
    obtain ⟨before, separates⟩ := itemSeparator_item place counter lead
      (items.text true ++ (behind.val ++ (others.text false ++ tail)))
      (opening_visible inner) (opening_ne_closing inner _)
    rw [text_container] at ends
    obtain ⟨placePlain, left, rfl, _, _, _, _, _, inside, next⟩ :=
      ends.behind_container separates (valueStart_container inner before _)
    obtain ⟨rfl, innerPlain, innerShallow⟩ := innerHypothesis noSpaces (by omega) innerCounted inside
    rw [text_behind others small] at next
    obtain ⟨isRest, othersPlain, shallow⟩ :=
      ih behind ((Nat.add_le_add_right (Nat.mod_le _ _) _).trans small) othersCounted next
    refine ⟨isRest, ?_, max_le (Nat.succ_le_succ innerShallow) shallow⟩
    rw [plain, placePlain, innerPlain, othersPlain]
    rfl

end JsonItems

theorem JsonItems.steps_lt {type : ItemType} (items : JsonItems type) (first : Bool) :
    items.steps < (items.text first).length := by
  induction items generalizing first with
  | nil before =>
    rw [JsonItems.text, List.length_append]
    exact Nat.lt_add_left _ Nat.one_pos
  | string place chars behind others ih =>
    have later := ih false
    simp only [JsonItems.text, JsonItems.steps, stringText, List.length_append, List.length_cons]
    omega
  | integer place number behind others ih =>
    have later := ih false
    obtain ⟨v, more, isText, -⟩ := text_number number
    simp only [JsonItems.text, JsonItems.steps, isText, List.length_append, List.length_cons]
    omega
  | container place inner items behind others innerHypothesis ih =>
    have inside := innerHypothesis true
    have later := ih false
    simp only [JsonItems.text, JsonItems.steps, List.length_append, List.length_cons]
    omega

/-- At the start of an array, the call counts its items and leaves the reader as it was where no string
and no key of it has an escape and its containers are at most ten deep; otherwise it stores through a
null pointer or behind its stack. -/
theorem jsonReader_arrayLength_iff {reader : JSONReader} {items : JsonItems .array} {rest : Bytes}
    {outer : List Nat} (at_items : reader.At (items.text true ++ rest) (0 :: outer))
    (small : items.count ≤ 2 ^ 32) (isCounted : items.Counted)
    (admits : outer.length + 1 + items.depth ≤ 200) :
    (∀ fuel ≥ (items.text true).length,
      reader.arrayLength .ample fuel = .ok (reader, 0, some items.count)) ↔
      items.plain = true ∧ items.depth ≤ 10 := by
  have bounded : outer.length < 200 := by omega
  have isFree : LengthState.freeScopes outer [] = min (200 - (outer.length + 1)) 10 := rfl
  constructor
  · intro counts
    obtain ⟨-, _, _, same, isEnd⟩ := at_items.arrayLength_ends (counts _ le_rfl)
    cases same
    obtain ⟨_, _, _, ends⟩ := isEnd rfl
    obtain ⟨-, isPlain, shallow⟩ :=
      items.of_ends noSpaces ((Nat.zero_add _).trans_le small) isCounted ends
    exact ⟨isPlain, shallow.trans (isFree.trans_le (min_le_right _ 10))⟩
  · rintro ⟨isPlain, shallow⟩ fuel enough
    have ends := items.ends (LengthState.freeScopes outer []) 0 noSpaces rest
      ((Nat.zero_add _).trans_le small) isCounted isPlain (by omega)
    exact at_items.arrayLength_eq bounded rfl ends ((items.steps_lt true).trans_le enough)

def readerAt (items : JsonItems .array) : JSONReader where
  isptr := items.text true ++ [0]
  lineCountR := 0
  lineCountN := 0
  scopeCounter := ⟨[0], 200⟩

def mixedItems : JsonItems .array :=
  .integer (.item noSpaces) ⟨false, [55], List.cons_ne_nil 55 [], by decide +kernel⟩ noSpaces
    (.container (.item ⟨[32], by decide +kernel⟩) .object
      (.container (.member noSpaces [.plain ⟨97, by decide, by decide, by decide, by decide⟩] noSpaces
        noSpaces) .array (.nil noSpaces) noSpaces (.nil noSpaces))
      noSpaces (.nil noSpaces))

theorem jsonReader_arrayLength_mixed :
    (readerAt mixedItems).arrayLength .ample 20 = .ok (readerAt mixedItems, 0, some 2) := by
  have at_items : (readerAt mixedItems).At (mixedItems.text true ++ [0]) [0] := ⟨rfl, rfl⟩
  have small : mixedItems.count ≤ 2 ^ 32 := by decide +kernel
  have isCounted : mixedItems.Counted :=
    ⟨by decide +kernel, ⟨by decide +kernel, trivial, trivial⟩, trivial⟩
  have holds := (jsonReader_arrayLength_iff at_items small isCounted (by decide)).mpr ⟨rfl, by decide⟩
  exact holds 20 (by decide)

def escapedItems : JsonItems .array :=
  .string (.item noSpaces) [.escape .newline] noSpaces (.nil noSpaces)

def nestedItems : Nat → JsonItems .array
  | 0 => .nil noSpaces
  | n + 1 => .container (.item noSpaces) .array (nestedItems n) noSpaces (.nil noSpaces)

/-- An escape is stored through the null pointer, and the eleventh scope behind the stack. -/
theorem arrayLength_stores_outside :
    ¬(∀ fuel ≥ (escapedItems.text true).length,
      (readerAt escapedItems).arrayLength .ample fuel = .ok (readerAt escapedItems, 0, some 1)) ∧
    ¬∀ fuel ≥ ((nestedItems 11).text true).length,
      (readerAt (nestedItems 11)).arrayLength .ample fuel = .ok (readerAt (nestedItems 11), 0, some 1) := by
  constructor
  · intro counts
    have stored : (readerAt escapedItems).arrayLength .ample 10 = .error .storeNull := by decide +kernel
    cases stored.symm.trans (counts 10 (by decide))
  · intro counts
    have stored : (readerAt (nestedItems 11)).arrayLength .ample 30 = .error .scopeStack := by
      decide +kernel
    cases stored.symm.trans (counts 30 (by decide))

end Tvm.Crt
