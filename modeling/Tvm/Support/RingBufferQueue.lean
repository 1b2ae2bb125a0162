import Mathlib.Data.List.PeriodicityLemma
import Tvm.Lib.Ring
import Tvm.Support.RingBuffer

/-!
# The ring buffer as a queue of bytes

What a ring buffer holds are the `bytesAvailable` cells of its ring from `headPtr` on.  Each
operation is described by what it does to them; a run of operations then reads out what was
written, in order, as long as the ring that `Reserve` grows has room for the part that has
wrapped round.
-/

namespace Tvm.Support

open Tvm.Lib

@[simp] theorem ok_bind {α β : Type} (x : α) (next : α → Except Fault β) :
    (Except.ok x >>= next) = next x := rfl

@[simp] theorem error_bind {α β : Type} (fault : Fault) (next : α → Except Fault β) :
    (Except.error fault >>= next) = Except.error fault := rfl

@[simp] theorem pure_eq_ok {α : Type} (x : α) : (pure x : Except Fault α) = Except.ok x := rfl

namespace RingBuffer

def contents (buffer : RingBuffer) : Bytes :=
  around buffer.ring buffer.size buffer.headPtr buffer.bytesAvailable

structure Valid (buffer : RingBuffer) : Prop where
  head : buffer.headPtr < buffer.size
  available : buffer.bytesAvailable ≤ buffer.size

@[simp] theorem contents_length (buffer : RingBuffer) :
    buffer.contents.length = buffer.bytesAvailable := by
  simp [contents]

theorem empty_valid : empty.Valid :=
  ⟨Nat.zero_lt_succ _, Nat.zero_le _⟩

variable {buffer next : RingBuffer} {n : Nat}

theorem copyOut_eq (buffer : RingBuffer) (offset size : Nat)
    (inside : offset + size ≤ buffer.size) :
    buffer.copyOut offset size = .ok (load buffer.ring offset size) :=
  if_pos inside

theorem copyIn_eq (buffer : RingBuffer) (offset : Nat) (data : Bytes)
    (inside : offset + data.length ≤ buffer.size) :
    buffer.copyIn offset data = .ok { buffer with ring := store buffer.ring offset data } :=
  if_pos inside

theorem copyIn_outside {offset : Nat} {data : Bytes}
    (outside : buffer.size < offset + data.length) :
    buffer.copyIn offset data = .error .outOfRing :=
  if_neg (Nat.not_le.mpr outside)

theorem copies_eq (valid : buffer.Valid) {size : Nat} (enough : size ≤ buffer.bytesAvailable) :
    load buffer.ring buffer.headPtr (min size (buffer.size - buffer.headPtr)) ++
        load buffer.ring 0 (size - min size (buffer.size - buffer.headPtr)) =
      buffer.contents.take size := by
  rw [contents, take_around _ _ _ enough]
  exact (around_eq_loads valid.head (enough.trans valid.available)).symm

theorem read_eq (valid : buffer.Valid) {size : Nat} (enough : size ≤ buffer.bytesAvailable) :
    buffer.read size = .ok (buffer.contents.take size,
      { buffer with
        headPtr := (buffer.headPtr + size) % buffer.size
        bytesAvailable := buffer.bytesAvailable - size }) := by
  have head := valid.head
  have available := valid.available
  have first := copyOut_eq buffer buffer.headPtr (min size (buffer.size - buffer.headPtr)) (by omega)
  have second := copyOut_eq buffer 0 (size - min size (buffer.size - buffer.headPtr)) (by omega)
  rw [read, if_neg (Nat.not_lt.mpr enough), ← copies_eq valid enough]
  simp only [first, second, ok_bind, pure_eq_ok]
  split_ifs with wraps
  · rfl
  · have none_left : size - min size (buffer.size - buffer.headPtr) = 0 := by omega
    rw [none_left, load]

theorem read_contents (valid : buffer.Valid) {size : Nat} (enough : size ≤ buffer.bytesAvailable)
    {data : Bytes} (done : buffer.read size = .ok (data, next)) :
    data = buffer.contents.take size ∧ next.contents = buffer.contents.drop size ∧ next.Valid := by
  rw [read_eq valid enough] at done
  obtain ⟨rfl, rfl⟩ := Prod.mk.inj (Except.ok.inj done)
  refine ⟨rfl, ?_, ?_, ?_⟩
  · simp only [contents]
    rw [around_mod, drop_around _ _ _ enough]
  · exact Nat.mod_lt _ (Nat.zero_lt_of_lt valid.head)
  · exact (Nat.sub_le _ _).trans valid.available

theorem le_grownSize (n : Nat) : n ≤ grownSize n := by
  unfold grownSize
  omega

/-- The ring that is asked for has room for the content laid out from the head on. -/
def GrowthFits (buffer : RingBuffer) (n : Nat) : Prop :=
  buffer.size < n → buffer.headPtr + buffer.bytesAvailable ≤ grownSize n

instance (buffer : RingBuffer) (n : Nat) : Decidable (buffer.GrowthFits n) :=
  inferInstanceAs (Decidable (_ → _))

/-- The ring has room for `n` bytes, and holds what it held before. -/
structure Reserved (buffer : RingBuffer) (n : Nat) (next : RingBuffer) : Prop where
  valid : next.Valid
  contents_eq : next.contents = buffer.contents
  room : n ≤ next.size

theorem Reserved.available (reserved : buffer.Reserved n next) :
    next.bytesAvailable = buffer.bytesAvailable := by
  rw [← contents_length, reserved.contents_eq, contents_length]

@[simp] theorem resize_ring_below (newSize : Nat) {a : Nat} (below : a < buffer.size) :
    (buffer.resize newSize).ring a = buffer.ring a :=
  store_outside (.inl below)

theorem grow_reserved (valid : buffer.Valid) (larger : buffer.size < n)
    (fits : buffer.headPtr + buffer.bytesAvailable ≤ grownSize n) :
    ∃ next, buffer.grow n = .ok next ∧ buffer.Reserved n next := by
  have head := valid.head
  have available := valid.available
  have enough := le_grownSize n
  unfold grow
  simp only
  split_ifs with wraps
  · -- the content was in two parts, and is in one part afterwards
    have overflow : load (buffer.resize (grownSize n)).ring 0
        (buffer.headPtr + buffer.bytesAvailable - buffer.size) =
        load buffer.ring 0 (buffer.headPtr + buffer.bytesAvailable - buffer.size) :=
      load_congr fun a _ upper => resize_ring_below _ (by omega)
    have source := copyOut_eq (buffer.resize (grownSize n)) 0
      (buffer.headPtr + buffer.bytesAvailable - buffer.size) (by simp only [resize]; omega)
    rw [overflow] at source
    have target := copyIn_eq (buffer.resize (grownSize n)) buffer.size
      (load buffer.ring 0 (buffer.headPtr + buffer.bytesAvailable - buffer.size))
      (by simp only [resize, load_length]; omega)
    have moved := load_store_same (buffer.resize (grownSize n)).ring buffer.size
      (load buffer.ring 0 (buffer.headPtr + buffer.bytesAvailable - buffer.size))
    rw [load_length] at moved
    refine ⟨_, by rw [source, ok_bind, target], ⟨?_, ?_⟩, ?_, enough⟩
    · exact lt_of_lt_of_le (head.trans larger) enough
    · exact (available.trans larger.le).trans enough
    · apply (around_eq_load fits).trans
      refine load_unwrapped head available ?_ moved
      intro a _ below
      exact (store_outside (.inl below)).trans (resize_ring_below _ below)
  · refine ⟨_, rfl, ⟨?_, ?_⟩, ?_, enough⟩
    · exact lt_of_lt_of_le (head.trans larger) enough
    · exact (available.trans larger.le).trans enough
    · have straight : buffer.headPtr + buffer.bytesAvailable - buffer.size = 0 := by omega
      apply (around_eq_load fits).trans
      apply load_unwrapped head available
      · intro a _ below
        exact resize_ring_below _ below
      · rw [straight]
        rfl

theorem grow_outOfRing (valid : buffer.Valid) (larger : buffer.size < n)
    (overflows : grownSize n < buffer.headPtr + buffer.bytesAvailable) :
    buffer.grow n = .error .outOfRing := by
  have head := valid.head
  have available := valid.available
  have enough := le_grownSize n
  have source := copyOut_eq (buffer.resize (grownSize n)) 0
    (buffer.headPtr + buffer.bytesAvailable - buffer.size) (by simp only [resize]; omega)
  unfold grow
  simp only
  rw [if_pos (by omega), source, ok_bind]
  apply copyIn_outside
  simp only [resize, load_length]
  omega

theorem moveToHead_eq (valid : buffer.Valid) :
    ∃ moved, buffer.moveToHead = .ok moved ∧ moved.size = buffer.size ∧
      moved.bytesAvailable = buffer.bytesAvailable ∧
      load moved.ring 0 buffer.bytesAvailable = buffer.contents := by
  unfold moveToHead
  split_ifs with stored
  · have whole : buffer.contents.take buffer.bytesAvailable = buffer.contents :=
      List.take_of_length_le (contents_length buffer).le
    have moved := load_store_same buffer.ring 0 buffer.contents
    rw [contents_length] at moved
    simp only [read_eq valid le_rfl, ok_bind, whole]
    rw [copyIn_eq _ _ _ (by simpa using valid.available)]
    exact ⟨_, rfl, rfl, rfl, moved⟩
  · have nothing : buffer.bytesAvailable = 0 := not_not.mp stored
    refine ⟨buffer, rfl, rfl, rfl, ?_⟩
    rw [contents, nothing, around_zero, load]

theorem shrink_reserved (valid : buffer.Valid) :
    ∃ next, buffer.shrink n = .ok next ∧ buffer.Reserved n next := by
  have available := valid.available
  obtain ⟨moved, done, size_eq, available_eq, held⟩ := moveToHead_eq valid
  rw [shrink, done, ok_bind]
  refine ⟨_, rfl, ⟨?_, ?_⟩, ?_, ?_⟩
  · apply lt_of_lt_of_le (Nat.zero_lt_succ _ : 0 < kInitCapacity)
    exact (le_max_left _ _).trans (le_max_left _ _)
  · exact le_max_right _ _
  · have inside : 0 + moved.bytesAvailable ≤ max (max kInitCapacity n) moved.bytesAvailable := by
      rw [Nat.zero_add]
      exact le_max_right _ _
    apply (around_eq_load inside).trans
    rw [available_eq, ← held]
    exact load_congr fun a _ upper => resize_ring_below _ (by omega)
  · exact (le_max_right _ _).trans (le_max_left _ _)

theorem reserve_reserved (valid : buffer.Valid) (fits : buffer.GrowthFits n) :
    ∃ next, buffer.reserve n = .ok next ∧ buffer.Reserved n next := by
  unfold reserve
  split_ifs with larger smaller
  · exact grow_reserved valid larger (fits larger)
  · exact shrink_reserved valid
  · exact ⟨buffer, rfl, valid, rfl, Nat.not_lt.mp larger⟩

theorem reserve_outOfRing (valid : buffer.Valid) (overflows : ¬ buffer.GrowthFits n) :
    buffer.reserve n = .error .outOfRing := by
  obtain ⟨larger, past⟩ := Classical.not_imp.mp overflows
  rw [reserve, if_pos larger]
  exact grow_outOfRing valid larger (Nat.not_le.mp past)

theorem put_contents (position : Nat) (data : Bytes) (valid : buffer.Valid)
    (room : buffer.bytesAvailable + data.length ≤ buffer.size)
    (behind : position = buffer.headPtr + buffer.bytesAvailable ∨
      position + buffer.size = buffer.headPtr + buffer.bytesAvailable)
    (fits : position + data.length ≤ buffer.size)
    (put : next = { buffer with
      ring := store buffer.ring position data
      bytesAvailable := buffer.bytesAvailable + data.length }) :
    next.contents = buffer.contents ++ data ∧ next.Valid := by
  subst put
  exact ⟨around_store valid.head room behind fits, valid.head, room⟩

theorem copyBehind_contents (valid : buffer.Valid) {data : Bytes}
    (room : buffer.bytesAvailable + data.length ≤ buffer.size) :
    ∃ copied, buffer.copyBehind data = .ok copied ∧
      { copied with bytesAvailable := copied.bytesAvailable + data.length }.contents =
        buffer.contents ++ data ∧
      { copied with bytesAvailable := copied.bytesAvailable + data.length }.Valid := by
  have head := valid.head
  unfold copyBehind
  by_cases past : buffer.size ≤ buffer.headPtr + buffer.bytesAvailable
  · rw [if_pos past]
    have fits : buffer.headPtr + buffer.bytesAvailable - buffer.size + data.length ≤ buffer.size := by
      omega
    exact ⟨_, copyIn_eq _ _ _ fits, put_contents _ _ valid room (.inr (by omega)) fits rfl⟩
  · rw [if_neg past]
    obtain ⟨ncopy, ncopy_eq⟩ :
        ∃ ncopy, ncopy = min (buffer.size - (buffer.headPtr + buffer.bytesAvailable)) data.length :=
      ⟨_, rfl⟩
    simp only [← ncopy_eq]
    have taken : (data.take ncopy).length = ncopy := by
      rw [List.length_take]
      omega
    have firstFits : buffer.headPtr + buffer.bytesAvailable + (data.take ncopy).length ≤
        buffer.size := by
      omega
    rw [copyIn_eq _ _ _ firstFits, ok_bind]
    have first := put_contents _ (data.take ncopy) valid (by omega) (.inl rfl) firstFits rfl
    split_ifs with wraps
    · have dropped : (data.drop ncopy).length = data.length - ncopy := List.length_drop
      have secondFits : 0 + (data.drop ncopy).length ≤ buffer.size := by omega
      refine ⟨_, copyIn_eq _ _ _ (by simpa using secondFits), ?_⟩
      have second := put_contents 0 (data.drop ncopy) first.2
        (by simp only; omega) (.inr (by simp only; omega)) (by simpa using secondFits) rfl
      have total : buffer.bytesAvailable + (data.take ncopy).length + (data.drop ncopy).length =
          buffer.bytesAvailable + data.length := by omega
      rw [first.1, List.append_assoc, List.take_append_drop] at second
      simpa only [total] using second
    · have whole : data.take ncopy = data := List.take_of_length_le (by omega)
      rw [whole] at first ⊢
      exact ⟨_, rfl, first⟩

theorem write_contents (valid : buffer.Valid) {data : Bytes}
    (fits : buffer.GrowthFits (buffer.bytesAvailable + data.length)) :
    ∃ next, buffer.write data = .ok next ∧ next.contents = buffer.contents ++ data ∧
      next.Valid := by
  obtain ⟨middle, done, reserved⟩ := reserve_reserved valid fits
  have room : middle.bytesAvailable + data.length ≤ middle.size := by
    rw [reserved.available]
    exact reserved.room
  obtain ⟨copied, copy_done, appended, copied_valid⟩ := copyBehind_contents reserved.valid room
  rw [reserved.contents_eq] at appended
  rw [write, done, ok_bind, copy_done]
  exact ⟨_, rfl, appended, copied_valid⟩

theorem receive_eq {frecv : Receiver} {call offset nbytes : Nat}
    (inside : offset + nbytes ≤ buffer.size) :
    buffer.receive frecv call offset nbytes = .ok (frecv.recv call nbytes,
      { buffer with
        ring := store buffer.ring offset (frecv.recv call nbytes)
        bytesAvailable := buffer.bytesAvailable + (frecv.recv call nbytes).length }) :=
  if_pos inside

theorem receiveBehind_contents (valid : buffer.Valid) (frecv : Receiver) {maxBytes : Nat}
    (room : buffer.bytesAvailable + maxBytes ≤ buffer.size) :
    ∃ data next, buffer.receiveBehind frecv maxBytes = .ok (data.length, data, next) ∧
      next.contents = buffer.contents ++ data ∧ next.Valid := by
  have head := valid.head
  unfold receiveBehind
  by_cases past : buffer.size ≤ buffer.headPtr + buffer.bytesAvailable
  · rw [if_pos past]
    have bounded := frecv.bounded 0 maxBytes
    rw [receive_eq (by omega), ok_bind]
    have only := put_contents (buffer.headPtr + buffer.bytesAvailable - buffer.size)
      (frecv.recv 0 maxBytes) valid (by omega)
      (.inr (by omega)) (by omega) rfl
    exact ⟨_, _, rfl, only⟩
  · rw [if_neg past]
    obtain ⟨ncopy, ncopy_eq⟩ :
        ∃ ncopy, ncopy = min (buffer.size - (buffer.headPtr + buffer.bytesAvailable)) maxBytes :=
      ⟨_, rfl⟩
    simp only [← ncopy_eq]
    have bounded := frecv.bounded 0 ncopy
    rw [receive_eq (by omega), ok_bind]
    have first := put_contents _ (frecv.recv 0 ncopy) valid (by omega) (.inl rfl) (by omega) rfl
    split_ifs with wraps
    · have bounded2 := frecv.bounded 1 (maxBytes - ncopy)
      rw [receive_eq (by simp only; omega), ok_bind]
      have filled : (frecv.recv 0 ncopy).length = ncopy := wraps.1
      have second := put_contents 0 (frecv.recv 1 (maxBytes - ncopy)) first.2
        (by simp only; omega) (.inr (by simp only; omega)) (by simp only; omega) rfl
      rw [first.1, List.append_assoc] at second
      exact ⟨_, _, by rw [List.length_append]; rfl, second⟩
    · exact ⟨_, _, rfl, first⟩

theorem writeWithCallback_contents (valid : buffer.Valid) (frecv : Receiver) {maxBytes : Nat}
    (fits : buffer.GrowthFits (buffer.bytesAvailable + maxBytes)) :
    ∃ data next, buffer.writeWithCallback frecv maxBytes = .ok (data.length, data, next) ∧
      next.contents = buffer.contents ++ data ∧ next.Valid := by
  obtain ⟨middle, done, reserved⟩ := reserve_reserved valid fits
  have room : middle.bytesAvailable + maxBytes ≤ middle.size := by
    rw [reserved.available]
    exact reserved.room
  obtain ⟨data, next, received, appended⟩ := receiveBehind_contents reserved.valid frecv room
  rw [reserved.contents_eq] at appended
  exact ⟨data, next, by rw [writeWithCallback, done, ok_bind, received], appended⟩

/-- What the send function is offered first: the content up to the end of the ring. -/
def firstOffer (buffer : RingBuffer) (maxBytes : Nat) : Bytes :=
  buffer.contents.take
    (min (min maxBytes buffer.bytesAvailable) (buffer.size - buffer.headPtr))

/-- What it is offered after that: the content that has wrapped round. -/
def secondOffer (buffer : RingBuffer) (maxBytes : Nat) : Bytes :=
  (buffer.contents.take (min maxBytes buffer.bytesAvailable)).drop
    (min (min maxBytes buffer.bytesAvailable) (buffer.size - buffer.headPtr))

/-- How many bytes of two offers the send function accepts. -/
def accepted (fsend : Sender) (first second : Bytes) : Nat :=
  if fsend.send 0 first = first.length ∧ second ≠ [] then
    fsend.send 0 first + fsend.send 1 second
  else fsend.send 0 first

def taken (buffer : RingBuffer) (fsend : Sender) (maxBytes : Nat) : Nat :=
  accepted fsend (buffer.firstOffer maxBytes) (buffer.secondOffer maxBytes)

/-- The send function gets the bytes at the front, and they leave the content. -/
def Dequeues (buffer : RingBuffer) (fsend : Sender) (maxBytes : Nat) : Prop :=
  ∃ nsend sent next, buffer.readWithCallback fsend maxBytes = .ok (nsend, sent, next) ∧
    sent.length = nsend ∧ sent = buffer.contents.take nsend ∧
      next.contents = buffer.contents.drop nsend

theorem readWithCallback_eq (valid : buffer.Valid) (fsend : Sender) {maxBytes : Nat}
    (asked : 0 < maxBytes) (stored : 0 < buffer.bytesAvailable) :
    buffer.taken fsend maxBytes ≤ buffer.bytesAvailable ∧
      buffer.readWithCallback fsend maxBytes =
        .ok (buffer.taken fsend maxBytes,
          buffer.contents.take (buffer.taken fsend maxBytes),
          { buffer with
            bytesAvailable := buffer.bytesAvailable - buffer.taken fsend maxBytes }) := by
  have head := valid.head
  have available := valid.available
  obtain ⟨size, size_eq⟩ : ∃ size, size = min maxBytes buffer.bytesAvailable := ⟨_, rfl⟩
  obtain ⟨ncopy, ncopy_eq⟩ : ∃ ncopy, ncopy = min size (buffer.size - buffer.headPtr) := ⟨_, rfl⟩
  have enough : size ≤ buffer.bytesAvailable := by omega
  have both := copies_eq valid enough
  rw [← ncopy_eq] at both
  have first : load buffer.ring buffer.headPtr ncopy = buffer.firstOffer maxBytes := by
    have front := congrArg (List.take ncopy) both
    rw [List.take_left' (load_length _ _ _), List.take_take, Nat.min_eq_left (by omega)] at front
    rw [front, firstOffer, ncopy_eq, size_eq]
  have second : load buffer.ring 0 (size - ncopy) = buffer.secondOffer maxBytes := by
    have back := congrArg (List.drop ncopy) both
    rw [List.drop_left' (load_length _ _ _)] at back
    rw [back, secondOffer, ncopy_eq, size_eq]
  have firstLength : (buffer.firstOffer maxBytes).length = ncopy := by
    rw [← first, load_length]
  have secondLength : (buffer.secondOffer maxBytes).length = size - ncopy := by
    rw [← second, load_length]
  have firstBound := fsend.bounded 0 (buffer.firstOffer maxBytes)
  have secondBound := fsend.bounded 1 (buffer.secondOffer maxBytes)
  have joined : buffer.firstOffer maxBytes ++ buffer.secondOffer maxBytes =
      buffer.contents.take size := by
    rw [← first, ← second, both]
  have more : buffer.secondOffer maxBytes ≠ [] ↔ ncopy < size := by
    rw [← List.length_pos_iff, secondLength]
    omega
  unfold readWithCallback taken accepted
  have asking : size ≠ 0 := by omega
  simp only [← size_eq]
  rw [if_neg asking]
  simp only [← ncopy_eq, copyOut_eq buffer buffer.headPtr ncopy (by omega), ok_bind, first,
    copyOut_eq buffer 0 (size - ncopy) (by omega), second, more, firstLength]
  by_cases whole : fsend.send 0 (buffer.firstOffer maxBytes) = ncopy ∧ ncopy < size
  · rw [if_pos whole, if_pos ⟨whole.1.symm, whole.2⟩]
    have sent : buffer.contents.take (ncopy + fsend.send 1 (buffer.secondOffer maxBytes)) =
        buffer.firstOffer maxBytes ++
          (buffer.secondOffer maxBytes).take (fsend.send 1 (buffer.secondOffer maxBytes)) := by
      have within : ncopy + fsend.send 1 (buffer.secondOffer maxBytes) ≤ size := by omega
      rw [← Nat.min_eq_left within, ← List.take_take, ← joined, List.take_append, firstLength,
        Nat.add_sub_cancel_left, List.take_of_length_le (by omega)]
    have all : (buffer.firstOffer maxBytes).take ncopy = buffer.firstOffer maxBytes :=
      List.take_of_length_le firstLength.le
    refine ⟨by omega, ?_⟩
    rw [whole.1, sent, all, Nat.sub_sub, pure_eq_ok]
  · rw [if_neg whole, if_neg fun both => whole ⟨both.1.symm, both.2⟩]
    have sent : buffer.contents.take (fsend.send 0 (buffer.firstOffer maxBytes)) =
        (buffer.firstOffer maxBytes).take (fsend.send 0 (buffer.firstOffer maxBytes)) := by
      have front : buffer.firstOffer maxBytes = buffer.contents.take ncopy := by
        rw [firstOffer, ← size_eq, ← ncopy_eq]
      conv_rhs => rw [front, List.take_take, ← front]
      rw [Nat.min_eq_left (by omega)]
    refine ⟨by omega, ?_⟩
    rw [sent, pure_eq_ok]

theorem readWithCallback_contents (buffer : RingBuffer) (fsend : Sender) (maxBytes : Nat) :
    { buffer with
      bytesAvailable := buffer.bytesAvailable - buffer.taken fsend maxBytes }.contents =
      buffer.contents.take (buffer.bytesAvailable - buffer.taken fsend maxBytes) :=
  (take_around _ _ _ (Nat.sub_le _ _)).symm

theorem take_eq_drop_iff (bytes : Bytes) (count : Nat) :
    bytes.take (bytes.length - count) = bytes.drop count ↔ bytes.HasPeriod count := by
  rw [List.hasPeriod_iff_getElem?]
  constructor
  · intro same i small
    have here := congrArg (fun rest => rest[i]?) same
    simp only [List.getElem?_take_of_lt small, List.getElem?_drop] at here
    rw [here, Nat.add_comm]
  · intro periodic
    apply List.ext_getElem?
    intro i
    rw [List.getElem?_drop, Nat.add_comm]
    rcases Nat.lt_or_ge i (bytes.length - count) with small | large
    · rw [List.getElem?_take_of_lt small, periodic i small]
    · rw [List.getElem?_take_eq_none large, List.getElem?_eq_none (by omega)]

/-- The send function gets the front of the queue, but the head stays where it is: the queue
is right afterwards only where its bytes repeat with the number of accepted bytes, as they do
when the function accepts nothing or everything. -/
theorem readWithCallback_dequeues_iff (valid : buffer.Valid) (fsend : Sender) (maxBytes : Nat)
    (asked : 0 < maxBytes) (stored : 0 < buffer.bytesAvailable) :
    buffer.Dequeues fsend maxBytes ↔ buffer.contents.HasPeriod (buffer.taken fsend maxBytes) := by
  obtain ⟨within, done⟩ := readWithCallback_eq valid fsend asked stored
  have left := readWithCallback_contents buffer fsend maxBytes
  have periodic := take_eq_drop_iff buffer.contents (buffer.taken fsend maxBytes)
  rw [contents_length] at periodic
  rw [← periodic]
  constructor
  · rintro ⟨nsend, sent, next, done', _, _, dropped⟩
    rw [done] at done'
    obtain ⟨rfl, rfl, rfl⟩ : _ ∧ _ ∧ _ := by simpa using Except.ok.inj done'
    rw [← left, dropped]
  · intro same
    refine ⟨_, _, _, done, ?_, rfl, left.trans same⟩
    rw [List.length_take, contents_length]
    exact Nat.min_eq_left within

def twoBytes : RingBuffer :=
  { empty with ring := store empty.ring 0 [1, 2], bytesAvailable := 2 }

def oneByte : Sender where
  send _ data := min 1 data.length
  bounded _ _ := min_le_right _ _

theorem readWithCallback_dequeues_none :
    twoBytes.Dequeues ⟨fun _ _ => 0, fun _ _ => Nat.zero_le _⟩ 2 :=
  (readWithCallback_dequeues_iff ⟨by decide, by decide⟩ _ 2 (by decide) (by decide)).mpr
    (List.hasPeriod_zero _)

/-- The byte that was sent is still at the front, and the other one is lost. -/
theorem readWithCallback_keeps_sent : ¬ twoBytes.Dequeues oneByte 2 := by
  rintro ⟨nsend, sent, next, done, _, _, dropped⟩
  have ran : (twoBytes.readWithCallback oneByte 2).map
      (fun result => (result.1, result.2.2.contents)) = .ok (1, [1]) := rfl
  have held : twoBytes.contents = [1, 2] := rfl
  rw [done] at ran
  obtain ⟨rfl, kept⟩ := Prod.mk.inj (Except.ok.inj ran)
  rw [dropped, held] at kept
  cases kept

end RingBuffer

end Tvm.Support
