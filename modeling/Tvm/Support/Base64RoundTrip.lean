import Tvm.Support.Base64Reading

/-!
# Round trips through base 64

However the data is written and read, the reads return it in order.
-/

namespace Tvm.Support

open Tvm.Lib

variable {delivery : Delivery} {behind : List UInt8}

namespace Base64InStream

variable {strm : Base64InStream} {rest : List UInt8}

/-- The bytes that the stream has still to return: what it has kept, and the data ahead. -/
def Left (behind : List UInt8) (strm : Base64InStream) (rest : List UInt8) : Prop :=
  ∃ data, rest = strm.kept ++ data ∧ strm.numPrev ≤ 2 ∧
    strm.Ahead (base64Alphabet.encode data ++ behind)

theorem encode_cons (a : UInt8) (data : List UInt8) :
    ∃ chars, base64Alphabet.encode (a :: data) = encodeChar (a.toNat / 4) :: chars := by
  match data with
  | [] => exact ⟨_, rfl⟩
  | [b] => exact ⟨_, rfl⟩
  | b :: c :: data => exact ⟨_, rfl⟩

/-- The stream stands at the end or at a space if and only if there is no data ahead. -/
theorem stops_iff {data : List UInt8} (ends : Base64Read.Ends behind)
    (ahead : strm.Ahead (base64Alphabet.encode data ++ behind)) :
    strm.tempCh = EOF ∨ isspace strm.tempCh = true ↔ data = [] := by
  rw [ahead.first]
  cases data with
  | nil =>
    refine iff_of_true ?_ rfl
    cases behind with
    | nil => exact .inl rfl
    | cons c rest => exact .inr (ends c rfl)
  | cons a data =>
    obtain ⟨chars, isChars⟩ := encode_cons a data
    have bound := a.toNat_lt
    obtain ⟨notEnd, notSpace, -⟩ := encodeChar_inside (show a.toNat / 4 < 64 by omega)
    rw [isChars]
    refine iff_of_false ?_ (List.cons_ne_nil a data)
    rintro (isEnd | isSpace)
    · exact notEnd isEnd
    · rw [List.cons_append] at isSpace
      dsimp only at isSpace
      rw [notSpace] at isSpace
      cases isSpace

theorem Left.isEOF_iff (ends : Base64Read.Ends behind) (left : strm.Left behind rest) :
    strm.isEOF = true ↔ rest = [] := by
  obtain ⟨data, rfl, atMost, ahead⟩ := left
  unfold isEOF
  rw [decide_eq_true_iff, stops_iff ends ahead, List.append_eq_nil_iff, ← length_kept atMost,
    List.length_eq_zero_iff]

end Base64InStream

namespace Base64Read

variable {state : Base64Read} {data : List UInt8}

open Base64InStream

theorem loop_of_full (fuel : ℕ) (full : state.tlen = 0) : state.loop delivery fuel = some state := by
  cases fuel with
  | zero => rfl
  | succ fuel => rw [loop, if_neg fun goes => goes.1 full]

theorem loop_spec (delivery : Delivery) (ends : Ends behind) (fuel : ℕ) (enough : state.tlen ≤ fuel)
    (noneKept : state.strm.numPrev = 0)
    (ahead : state.strm.Ahead (base64Alphabet.encode data ++ behind)) :
    ∃ after, state.loop delivery fuel = some after ∧
      after.out = state.out ++ data.take state.tlen ∧
        after.tlen = state.tlen - data.length ∧
          after.strm.Left behind (data.drop state.tlen) := by
  have nothingKept : state.strm.kept = [] := by
    unfold kept
    rw [noneKept, List.take_zero]
  have stays (nothing : data.take state.tlen = []) (same : data.drop state.tlen = data)
      (left : state.tlen = state.tlen - data.length) :
      state.out = state.out ++ data.take state.tlen ∧ state.tlen = state.tlen - data.length ∧
        state.strm.Left behind (data.drop state.tlen) := by
    rw [nothing, same, List.append_nil]
    refine ⟨rfl, left, data, ?_, by omega, ahead⟩
    rw [nothingKept, List.nil_append]
  induction fuel generalizing state data with
  | zero =>
    have zero := Nat.le_zero.mp enough
    exact ⟨state, rfl, stays (by rw [zero, List.take_zero]) (by rw [zero, List.drop_zero])
      (by rw [zero, Nat.zero_sub])⟩
  | succ fuel ih =>
    rw [loop]
    by_cases goes : state.tlen ≠ 0 ∧ state.strm.tempCh ≠ EOF ∧ ¬isspace state.strm.tempCh
    · rw [if_pos goes]
      have some_data : data ≠ [] := by
        intro empty
        rcases (stops_iff ends ahead).mpr empty with isEnd | isSpace
        · exact goes.2.1 isEnd
        · exact goes.2.2 isSpace
      have isTaken : Taken state.out state.tlen [] state := by
        refine ⟨?_, ?_, (Nat.sub_zero _).symm, by omega⟩
        · rw [List.take_nil, List.append_nil]
        · rw [nothingKept, List.drop_nil]
      obtain ⟨next, continues, isNext, nextTaken, nextAhead, stops⟩ :=
        quantum_spec delivery ends some_data isTaken goes.1 ahead
      rw [isNext, Option.bind_some]
      have split := List.take_append_drop 3 data
      have some_taken : 0 < (data.take 3).length := by
        rw [List.length_take]
        have positive := List.length_pos_iff.mpr some_data
        omega
      generalize data.take 3 = front at *
      generalize data.drop 3 = back at *
      subst split
      obtain ⟨out, isKept, tlen, atMost⟩ := nextTaken
      rw [List.take_append, List.drop_append, List.length_append, ← List.append_assoc, ← out,
        ← isKept, ← Nat.sub_sub, ← tlen]
      cases continues with
      | false =>
        obtain rfl := stops rfl
        refine ⟨next, rfl, ?_, ?_, [], ?_, atMost, nextAhead⟩
        · rw [List.take_nil, List.append_nil]
        · rfl
        · rw [List.drop_nil]
      | true =>
        dsimp only
        rw [if_pos rfl]
        by_cases full : next.tlen = 0
        · refine ⟨next, loop_of_full fuel full, ?_, ?_, back, ?_, atMost, nextAhead⟩
          · rw [full, List.take_zero, List.append_nil]
          · rw [full, Nat.zero_sub]
          · rw [full, List.drop_zero]
        · have nextNone : next.strm.kept = [] := by
            rw [isKept]
            exact List.drop_eq_nil_of_le (by omega)
          have number : next.strm.numPrev = 0 := by
            rw [← length_kept atMost, nextNone]
            rfl
          rw [nextNone, List.nil_append]
          refine ih (by omega) number nextAhead nextNone ?_
          intro nothing same left
          rw [nothing, same, List.append_nil]
          refine ⟨rfl, left, back, ?_, atMost, nextAhead⟩
          rw [nextNone, List.nil_append]
    · rw [if_neg goes]
      refine ⟨state, rfl, ?_⟩
      by_cases full : state.tlen = 0
      · exact stays (by rw [full, List.take_zero]) (by rw [full, List.drop_zero])
          (by rw [full, Nat.zero_sub])
      · have empty : data = [] := by
          apply (stops_iff ends ahead).mp
          by_contra inside
          rw [not_or] at inside
          exact goes ⟨full, inside⟩
        subst empty
        exact stays List.take_nil List.drop_nil rfl

end Base64Read

namespace Base64InStream

variable {strm : Base64InStream} {rest : List UInt8}

theorem read_rest (delivery : Delivery) (state : Base64Read) {data : List UInt8} {size : ℕ}
    (ends : Base64Read.Ends behind) (noneKept : state.strm.numPrev = 0)
    (fits : state.out.length ≤ size) (tlen : state.tlen = size - state.out.length)
    (ahead : state.strm.Ahead (base64Alphabet.encode data ++ behind)) :
    ∃ after, (if state.tlen = 0 then some (size, state.out, state.strm)
      else (state.loop delivery state.tlen).map fun after =>
        (size - after.tlen, after.out, after.strm)) =
          some (min size (state.out ++ data).length, (state.out ++ data).take size, after) ∧
      after.Left behind ((state.out ++ data).drop size) := by
  by_cases full : state.tlen = 0
  · have exact_size : size = state.out.length := by omega
    rw [if_pos full, exact_size, List.take_left, List.drop_left, List.length_append,
      Nat.min_eq_left (Nat.le_add_right _ _)]
    refine ⟨state.strm, rfl, data, ?_, by omega, ahead⟩
    unfold kept
    rw [noneKept, List.take_zero, List.nil_append]
  · obtain ⟨after, loops, out, left, afterLeft⟩ :=
      Base64Read.loop_spec delivery ends state.tlen le_rfl noneKept ahead
    rw [if_neg full, loops, Option.map_some, out, left, List.take_append, List.drop_append,
      List.take_of_length_le fits, List.drop_eq_nil_of_le fits, List.nil_append, ← tlen,
      List.length_append]
    refine ⟨after.strm, ?_, afterLeft⟩
    have returned : size - (state.tlen - data.length) =
        min size (state.out.length + data.length) := by omega
    rw [returned]

theorem Left.read (delivery : Delivery) (ends : Base64Read.Ends behind)
    (left : strm.Left behind rest) (size : ℕ) :
    ∃ after, strm.read delivery size = some (min size rest.length, rest.take size, after) ∧
      after.Left behind (rest.drop size) := by
  unfold Base64InStream.read
  by_cases zero : size = 0
  · rw [if_pos zero, zero, Nat.zero_min, List.take_zero]
    exact ⟨strm, rfl, left⟩
  · rw [if_neg zero]
    obtain ⟨data, rfl, atMost, ahead⟩ := left
    have stands (other : Base64InStream) (same : other.reader = strm.reader)
        (sameCh : other.tempCh = strm.tempCh) :
        other.Ahead (base64Alphabet.encode data ++ behind) := by
      refine ⟨?_, sameCh.trans ahead.first, ?_⟩
      · rw [same]
        exact ahead.valid
      · rw [same]
        exact ahead.pending
    have number : strm.numPrev = 0 ∨ strm.numPrev = 1 ∨ strm.numPrev = 2 := by omega
    unfold Base64Read.readPrev kept
    rcases number with none | one | two
    · simp only [none, List.take_zero]
      exact read_rest delivery ⟨strm, size, []⟩ ends none (Nat.zero_le _) rfl ahead
    · simp only [one]
      exact read_rest delivery ⟨{ strm with numPrev := 0 }, size - 1, [strm.bufPrev.1]⟩ ends rfl
        (Nat.pos_of_ne_zero zero) rfl (stands _ rfl rfl)
    · simp only [two]
      by_cases both : 2 ≤ size
      · rw [if_pos both]
        exact read_rest delivery
          ⟨{ strm with numPrev := 0 }, size - 2, [strm.bufPrev.1, strm.bufPrev.2]⟩ ends rfl both rfl (stands _ rfl rfl)
      · obtain rfl : size = 1 := by omega
        rw [if_neg both]
        exact ⟨_, rfl, data, rfl, Nat.le_succ 1, stands _ rfl rfl⟩

theorem Left.reads (delivery : Delivery) (ends : Base64Read.Ends behind)
    (left : strm.Left behind rest) (sizes : List ℕ) :
    ∃ after, strm.reads delivery sizes = some (rest.take sizes.sum, after) ∧
      after.Left behind (rest.drop sizes.sum) := by
  induction sizes generalizing strm rest with
  | nil => exact ⟨strm, by rw [List.sum_nil, List.take_zero]; rfl, left⟩
  | cons size sizes ih =>
    obtain ⟨next, reads, nextLeft⟩ := left.read delivery ends size
    obtain ⟨after, others, afterLeft⟩ := ih nextLeft
    refine ⟨after, ?_, ?_⟩
    · rw [Base64InStream.reads, reads, Option.bind_eq_bind, Option.bind_some]
      dsimp only
      rw [others, List.sum_cons, List.take_add]
      rfl
    · rw [List.sum_cons, ← List.drop_drop]
      exact afterLeft

theorem skipSpaces_spec (delivery : Delivery) (strm : Base64InStream) {chars : List UInt8}
    {fuel : ℕ} (valid : strm.reader.Valid)
    (pending : strm.reader.pending = chars) (enough : chars.length < fuel)
    (none : strm.numPrev = 0) :
    (strm.skipSpaces delivery fuel).Ahead
        (chars.dropWhile fun c => isspace (charToInt c)) ∧
      (strm.skipSpaces delivery fuel).numPrev = 0 := by
  induction fuel generalizing strm chars with
  | zero => cases enough
  | succ fuel ih =>
    have ahead := ahead_next delivery valid pending
    rw [skipSpaces]
    cases chars with
    | nil =>
      have first : (strm.next delivery).tempCh = EOF := ahead.first
      rw [first, if_neg (by decide), List.dropWhile_nil]
      exact ⟨ahead, none⟩
    | cons c rest =>
      have first : (strm.next delivery).tempCh = charToInt c := ahead.first
      rw [first, List.dropWhile_cons]
      by_cases space : isspace (charToInt c) = true
      · rw [if_pos space, if_pos space]
        exact ih _ ahead.valid ahead.pending (Nat.lt_of_succ_lt_succ enough)
          none
      · rw [if_neg space, if_neg space]
        exact ⟨ahead, none⟩

theorem initPosition_left (delivery : Delivery) (data : List UInt8) {endch : Option UInt8}
    (space : ∀ c ∈ endch, isspace (charToInt c) = true) :
    ∃ behind, Base64Read.Ends behind ∧
      ((Base64InStream.new (base64Alphabet.encode data ++ endch.toList)).initPosition
        delivery).Left behind data := by
  obtain ⟨valid, pending⟩ := StreamBufferReader.valid_new
    (base64Alphabet.encode data ++ endch.toList)
  have positioned (start : Base64InStream) (isValid : start.reader.Valid)
      (none : start.numPrev = 0) :
      (start.initPosition delivery).Ahead
          (start.reader.pending.dropWhile fun c => isspace (charToInt c)) ∧
        (start.initPosition delivery).numPrev = 0 :=
    skipSpaces_spec delivery start isValid rfl (Nat.lt_succ_self _) none
  obtain ⟨ahead, none⟩ := positioned (.new (base64Alphabet.encode data ++ endch.toList)) valid rfl
  rw [show (Base64InStream.new (base64Alphabet.encode data ++ endch.toList)).reader.pending =
    base64Alphabet.encode data ++ endch.toList from pending] at ahead
  generalize (Base64InStream.new (base64Alphabet.encode data ++ endch.toList)).initPosition
    delivery = strm at ahead none ⊢
  have left {behind : List UInt8}
      (isAhead : (base64Alphabet.encode data ++ endch.toList).dropWhile
        (fun c => isspace (charToInt c)) = base64Alphabet.encode data ++ behind) :
      strm.Left behind data := by
    rw [isAhead] at ahead
    refine ⟨data, ?_, by omega, ahead⟩
    unfold kept
    rw [none, List.take_zero, List.nil_append]
  cases data with
  | nil =>
    refine ⟨[], fun c isFirst => (by cases isFirst), left ?_⟩
    cases endch with
    | none => rfl
    | some ch =>
      have isSpace := space ch rfl
      change [ch].dropWhile _ = []
      rw [List.dropWhile_cons, if_pos isSpace, List.dropWhile_nil]
  | cons a data =>
    refine ⟨endch.toList, ?_, left ?_⟩
    · intro c isFirst
      cases endch with
      | none => cases isFirst
      | some ch =>
        rw [← Option.some.inj isFirst]
        exact space ch rfl
    · obtain ⟨chars, isChars⟩ := encode_cons a data
      have bound := a.toNat_lt
      have notSpace := (encodeChar_inside (show a.toNat / 4 < 64 by omega)).2.1
      rw [isChars, List.cons_append, List.dropWhile_cons, notSpace, if_neg Bool.false_ne_true]

end Base64InStream

/-- Reads of any sizes return the data that has been written in any parts, in order; a read behind
them returns what is left, and the stream is at its end when nothing is. -/
theorem base64_round_trip (delivery : Delivery) (writes : List (List UInt8))
    (endch : Option UInt8) (space : ∀ c ∈ endch, isspace (charToInt c) = true)
    (sizes : List ℕ) (size : ℕ) :
    ∃ strm after,
      ((Base64InStream.new (encodeWrites writes endch)).initPosition delivery).reads delivery
        sizes = some (writes.flatten.take sizes.sum, strm) ∧
      (strm.isEOF = true ↔ writes.flatten.length ≤ sizes.sum) ∧
      strm.read delivery size = some (min size (writes.flatten.length - sizes.sum),
        (writes.flatten.drop sizes.sum).take size, after) := by
  rw [encodeWrites_eq]
  obtain ⟨behind, ends, left⟩ := Base64InStream.initPosition_left delivery writes.flatten space
  obtain ⟨strm, reads, strmLeft⟩ := left.reads delivery ends sizes
  obtain ⟨after, read, -⟩ := strmLeft.read delivery ends size
  refine ⟨strm, after, reads, ?_, ?_⟩
  · rw [strmLeft.isEOF_iff ends, List.drop_eq_nil_iff]
  · rw [read, List.length_drop]

def byteByByte : Delivery where
  count rest size := min 1 (min size rest.length)
  le_size _ _ := (Nat.min_le_right _ _).trans (Nat.min_le_left _ _)
  le_rest _ _ := (Nat.min_le_right _ _).trans (Nat.min_le_right _ _)
  some_byte _ _ some_rest positive :=
    Nat.lt_min.mpr ⟨Nat.one_pos, Nat.lt_min.mpr ⟨positive, List.length_pos_iff.mpr some_rest⟩⟩

theorem base64_round_trip_five : ∃ strm after,
    ((Base64InStream.new (encodeWrites [[1, 2], [3, 4, 5]] (some 10))).initPosition
      byteByByte).reads byteByByte [1, 3] = some ([1, 2, 3, 4], strm) ∧
    (strm.isEOF = true ↔ 5 ≤ 4) ∧
    strm.read byteByByte 7 = some (1, [5], after) :=
  base64_round_trip byteByByte [[1, 2], [3, 4, 5]] (some 10)
    (fun c isEnd => (by cases isEnd; decide)) [1, 3] 7

end Tvm.Support
