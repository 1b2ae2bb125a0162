import Mathlib.Data.List.Infix
import Tvm.Lib.Tiling
import Tvm.MinRpc.PackedSeqRoundTrip
import Tvm.MinRpc.RemoteCopy

/-!
# Remote copies are exact up to the byte offset

The blocks of a copy tile it, and the packet of a block is as long as its length field
promises.  The session starts counting at 0 in the remote tensor, wherever the descriptor
points.
-/

namespace Tvm.MinRpc

open Tvm.Lib

def requestBody (code : Int32) (arr : DLTensor) (nbytes : UInt64) : Bytes :=
  Layout.i32.encode code ++ (tensorBytes arr ++ Layout.u64.encode nbytes)

theorem copyToRemotePacket_ok (fromBytes : Bytes) (to_ : DLTensor) (nbytes : UInt64)
    (noStrides : to_.strides = none) :
    copyToRemotePacket fromBytes to_ nbytes [] = .ok ()
      (Layout.u64.encode (remoteCopyCalculatePacketOverheadSize to_ + nbytes) ++
        (requestBody kCopyToRemote to_ nbytes ++ Layout.u8.encodeArray fromBytes)) := by
  have fed := streamChannel_fed
  unfold copyToRemotePacket
  rw [bind_ok (fed.put _ _ _), bind_ok (fed.put _ _ _), bind_ok (sendDLTensor_ok fed _ _ noStrides),
    bind_ok (fed.put _ _ _), fed.putArray]
  simp only [requestBody, List.nil_append, List.append_assoc]

theorem copyFromRemotePacket_ok (from_ : DLTensor) (nbytes : UInt64)
    (noStrides : from_.strides = none) :
    copyFromRemotePacket from_ nbytes [] = .ok ()
      (Layout.u64.encode (remoteCopyCalculatePacketOverheadSize from_) ++
        requestBody kCopyFromRemote from_ nbytes) := by
  have fed := streamChannel_fed
  unfold copyFromRemotePacket
  rw [bind_ok (fed.put _ _ _), bind_ok (fed.put _ _ _), bind_ok (sendDLTensor_ok fed _ _ noStrides),
    fed.put]
  simp only [requestBody, List.nil_append, List.append_assoc]

theorem encodeArray_u8 (bytes : Bytes) : (Layout.u8.encodeArray bytes).length = bytes.length := by
  rw [Layout.encodeArray_length]
  exact Nat.one_mul _

theorem tensorBytes_length (arr : DLTensor) : (tensorBytes arr).length = 32 + 8 * arr.shape.length := by
  simp only [tensorBytes, List.length_append, Layout.encode_length, Layout.encodeArray_length]
  simp only [Layout.u64, Layout.u32, Layout.i32, Layout.i64, Layout.cast, Layout.ofNumber,
    dlDeviceLayout, dlDataTypeLayout, Layout.prod, Layout.u8, Layout.u16]
  omega

theorem overhead_toNat (arr : DLTensor) :
    (remoteCopyCalculatePacketOverheadSize arr).toNat = 44 + 8 * arr.shape.length := by
  have rank := arr.rank_lt
  rw [remoteCopyCalculatePacketOverheadSize, DLTensor.ndim, toSize_ofNat rank]
  simp only [UInt64.toNat_add, UInt64.toNat_mul, UInt64.toNat_ofNat', UInt64.reduceToNat]
  omega

theorem requestBody_length (code : Int32) (arr : DLTensor) (nbytes : UInt64) :
    (requestBody code arr nbytes).length = (remoteCopyCalculatePacketOverheadSize arr).toNat := by
  rw [overhead_toNat]
  simp only [requestBody, List.length_append, Layout.encode_length, tensorBytes_length]
  simp only [Layout.u64, Layout.u32, Layout.i32, Layout.cast, Layout.ofNumber]
  omega

theorem request_copyToRemote (server : MinRPCServer) (fromBytes : Bytes) (to_ : DLTensor)
    (nbytes : UInt64) (noStrides : to_.strides = none) (size : fromBytes.length = nbytes.toNat)
    (small : (remoteCopyCalculatePacketOverheadSize to_).toNat + nbytes.toNat < 2 ^ 64) :
    request server (copyToRemotePacket fromBytes to_ nbytes) =
      .ok (server.copyToRemote to_ fromBytes, .returnVoid) := by
  have nonzero : remoteCopyCalculatePacketOverheadSize to_ + nbytes ≠ 0 := by
    intro zero
    have value := congrArg UInt64.toNat zero
    rw [UInt64.toNat_add, Nat.mod_eq_of_lt small, overhead_toNat] at value
    simp at value
  have received : processOnePacket server
      (Layout.u64.encode (remoteCopyCalculatePacketOverheadSize to_ + nbytes) ++
        (requestBody kCopyToRemote to_ nbytes ++ Layout.u8.encodeArray fromBytes)) =
      .ok (some (server.copyToRemote to_ fromBytes, .returnVoid)) [] := by
    have data := readArray_encodeArray Layout.u8 fromBytes [] size
    rw [List.append_nil] at data
    unfold processOnePacket
    rw [requestBody, List.append_assoc, List.append_assoc,
      bind_ok (read_encode _ _ _), if_neg nonzero, bind_ok (read_encode _ _ _),
      if_neg (by decide), if_pos rfl]
    have handled : handleCopyToRemote server (tensorBytes to_ ++ (Layout.u64.encode nbytes ++
        Layout.u8.encodeArray fromBytes)) = .ok (server.copyToRemote to_ fromBytes, .returnVoid) [] := by
      unfold handleCopyToRemote
      rw [bind_ok (receiveDLTensor_tensorBytes _ _ noStrides), bind_ok (read_encode _ _ _),
        bind_ok data]
      rfl
    rw [bind_ok handled]
    rfl
  rw [request, copyToRemotePacket_ok fromBytes to_ nbytes noStrides]
  simp only [received]

theorem request_copyFromRemote (server : MinRPCServer) (from_ : DLTensor) (nbytes : UInt64)
    (noStrides : from_.strides = none) :
    request server (copyFromRemotePacket from_ nbytes) =
      .ok (server, .copyAck (server.copyFromRemote from_ nbytes.toNat)) := by
  have nonzero : remoteCopyCalculatePacketOverheadSize from_ ≠ 0 := by
    intro zero
    have value := congrArg UInt64.toNat zero
    rw [overhead_toNat] at value
    simp at value
  have received : processOnePacket server
      (Layout.u64.encode (remoteCopyCalculatePacketOverheadSize from_) ++
        requestBody kCopyFromRemote from_ nbytes) =
      .ok (some (server, .copyAck (server.copyFromRemote from_ nbytes.toNat))) [] := by
    have number := read_encode Layout.u64 nbytes []
    rw [List.append_nil] at number
    have handled : handleCopyFromRemote server (tensorBytes from_ ++ Layout.u64.encode nbytes) =
        .ok (server, .copyAck (server.copyFromRemote from_ nbytes.toNat)) [] := by
      unfold handleCopyFromRemote
      rw [bind_ok (receiveDLTensor_tensorBytes _ _ noStrides), bind_ok number]
      rfl
    unfold processOnePacket
    rw [requestBody, bind_ok (read_encode _ _ _), if_neg nonzero, bind_ok (read_encode _ _ _),
      if_pos rfl, bind_ok handled]
    rfl
  rw [request, copyFromRemotePacket_ok from_ nbytes noStrides]
  simp only [received]

theorem copyFromRemote_length (server : MinRPCServer) (arr : DLTensor) (numBytes : Nat) :
    (server.copyFromRemote arr numBytes).length = numBytes := by
  unfold MinRPCServer.copyFromRemote
  split <;> exact load_length _ _ _

theorem not_lt_dataSize {arr : DLTensor} {nbytes : UInt64}
    (within : arr.byteOffset.toNat + nbytes.toNat ≤ (getDataSize arr).toNat) :
    ¬getDataSize arr < arr.byteOffset + nbytes := by
  have size := (getDataSize arr).toNat_lt
  rw [UInt64.lt_iff_toNat_lt, UInt64.toNat_add, Nat.mod_eq_of_lt (lt_of_le_of_lt within size)]
  exact not_lt.mpr within

theorem endpointCopyToRemote_ok (server : MinRPCServer) (fromBytes : Bytes) (to_ : DLTensor)
    (nbytes : UInt64) (noStrides : to_.strides = none) (size : fromBytes.length = nbytes.toNat)
    (small : (remoteCopyCalculatePacketOverheadSize to_).toNat + nbytes.toNat < 2 ^ 64)
    (within : to_.byteOffset.toNat + nbytes.toNat ≤ (getDataSize to_).toNat) :
    endpointCopyToRemote server fromBytes to_ nbytes = .ok (server.copyToRemote to_ fromBytes) := by
  rw [endpointCopyToRemote, if_neg (not_lt_dataSize within),
    request_copyToRemote server fromBytes to_ nbytes noStrides size small]

theorem endpointCopyFromRemote_ok (server : MinRPCServer) (from_ : DLTensor) (nbytes : UInt64)
    (noStrides : from_.strides = none)
    (within : from_.byteOffset.toNat + nbytes.toNat ≤ (getDataSize from_).toNat) :
    endpointCopyFromRemote server from_ nbytes = .ok (server.copyFromRemote from_ nbytes.toNat) := by
  rw [endpointCopyFromRemote, if_neg (not_lt_dataSize within),
    request_copyFromRemote server from_ nbytes noStrides]
  have whole := List.take_length (l := server.copyFromRemote from_ nbytes.toNat)
  rw [copyFromRemote_length] at whole
  simp only [whole]

def BlocksTile (start : Nat) (blocks : List Block) (stop : Nat) : Prop :=
  Tiles (fun block => block.offset.toNat) (fun block => block.size.toNat) start blocks stop

theorem BlocksTile.cons {start stop : Nat} {block : Block} {blocks : List Block}
    (tiles : BlocksTile start (block :: blocks) stop) :
    block.offset.toNat = start ∧ BlocksTile (start + block.size.toNat) blocks stop :=
  ⟨tiles.1, tiles.2.2⟩

theorem block_toNat {blockCount : Nat} {blockSize nbytes : UInt64}
    (inside : blockCount * blockSize.toNat ≤ nbytes.toNat) :
    (UInt64.ofNat blockCount * blockSize).toNat = blockCount * blockSize.toNat := by
  have small := lt_of_le_of_lt inside nbytes.toNat_lt
  rw [UInt64.toNat_mul, UInt64.toNat_ofNat', Nat.mod_mul_mod, Nat.mod_eq_of_lt small]

theorem wholeBlocks_tile {blockSize : UInt64} (nbytes : UInt64) (positive : 0 < blockSize.toNat)
    (count : Nat)
    (inside : count * blockSize.toNat ≤ nbytes.toNat) :
    BlocksTile 0 ((List.range count).map fun blockCount =>
      ⟨UInt64.ofNat blockCount * blockSize, blockSize⟩) (count * blockSize.toNat) := by
  induction count with
  | zero => exact (Nat.zero_mul _).symm
  | succ count ih =>
    have before : count * blockSize.toNat ≤ nbytes.toNat :=
      le_trans (Nat.mul_le_mul_right _ (Nat.le_succ count)) inside
    rw [List.range_succ, List.map_append, Nat.succ_mul]
    exact (ih before).snoc (block_toNat before) positive

theorem copyBlocks_tile (nbytes : UInt64) {blockSize : UInt64} (positive : 0 < blockSize.toNat) :
    BlocksTile 0 (copyBlocks nbytes blockSize) nbytes.toNat := by
  have division := Nat.div_add_mod' nbytes.toNat blockSize.toNat
  have whole := wholeBlocks_tile nbytes positive (nbytes / blockSize).toNat
    (by rw [UInt64.toNat_div]; exact Nat.div_mul_le_self _ _)
  rw [UInt64.toNat_div] at whole
  simp only [copyBlocks]
  by_cases remainder : nbytes % blockSize = 0
  · have none : nbytes.toNat % blockSize.toNat = 0 := by
      rw [← UInt64.toNat_mod, remainder]
      rfl
    rw [if_neg (not_not.mpr remainder), List.append_nil, UInt64.toNat_div]
    rw [none, Nat.add_zero] at division
    rwa [division] at whole
  · have some : (nbytes % blockSize).toNat ≠ 0 := fun zero => remainder (UInt64.toNat.inj zero)
    have start : (nbytes / blockSize * blockSize).toNat = nbytes.toNat / blockSize.toNat * blockSize.toNat := by
      rw [UInt64.toNat_mul, UInt64.toNat_div]
      exact Nat.mod_eq_of_lt (lt_of_le_of_lt (Nat.div_mul_le_self _ _) nbytes.toNat_lt)
    rw [if_pos remainder, UInt64.toNat_div]
    have tiles := whole.snoc (x := ⟨nbytes / blockSize * blockSize, nbytes % blockSize⟩) start
      (Nat.pos_of_ne_zero some)
    rwa [UInt64.toNat_mod, division] at tiles

theorem copyBlocks_size_le {nbytes blockSize : UInt64} (positive : 0 < blockSize.toNat) {block : Block}
    (membership : block ∈ copyBlocks nbytes blockSize) : block.size.toNat ≤ blockSize.toNat := by
  rcases List.mem_append.mp membership with whole | remainder
  · obtain ⟨-, -, rfl⟩ := List.mem_map.mp whole
    exact le_rfl
  · split at remainder
    · obtain rfl := List.mem_singleton.mp remainder
      rw [UInt64.toNat_mod]
      exact (Nat.mod_lt _ positive).le
    · cases remainder

theorem BlocksTile.head {blocks : List Block} {stop : Nat} (tiles : BlocksTile 0 blocks stop)
    (nonempty : stop ≠ 0) : ∃ first rest, blocks = first :: rest ∧ first.offset.toNat = 0 ∧
      0 < first.size.toNat ∧ ∀ block ∈ rest, 0 < block.offset.toNat := by
  cases blocks with
  | nil => exact absurd tiles.symm nonempty
  | cons first rest =>
    obtain ⟨here, positive, later⟩ := tiles
    refine ⟨first, rest, rfl, here, positive, fun block membership => ?_⟩
    have above := (later.bounds membership).1
    omega

theorem copyBlocks_single {nbytes blockSize : UInt64} (nonempty : nbytes ≠ 0)
    (fits : nbytes ≤ blockSize) : copyBlocks nbytes blockSize = [⟨0, nbytes⟩] := by
  by_cases same : nbytes = blockSize
  · subst same
    have positive : 0 < nbytes.toNat :=
      Nat.pos_of_ne_zero fun zero => nonempty (UInt64.toNat.inj zero)
    have one : nbytes / nbytes = 1 :=
      UInt64.toNat.inj (by rw [UInt64.toNat_div, Nat.div_self positive]; rfl)
    have none : nbytes % nbytes = 0 :=
      UInt64.toNat.inj (by rw [UInt64.toNat_mod, Nat.mod_self]; rfl)
    simp [copyBlocks, one, none]
  · have less := UInt64.lt_of_le_of_ne fits same
    have zero : nbytes / blockSize = 0 :=
      UInt64.toNat.inj (by rw [UInt64.toNat_div, Nat.div_eq_of_lt (UInt64.lt_iff_toNat_lt.mp less)]; rfl)
    have all : nbytes % blockSize = nbytes :=
      UInt64.toNat.inj (by rw [UInt64.toNat_mod, Nat.mod_eq_of_lt (UInt64.lt_iff_toNat_lt.mp less)])
    simp [copyBlocks, zero, all, nonempty]

theorem foldlM_ok {α β ε : Type} {f : β → α → Except ε β} {g : β → α → β} {xs : List α}
    (ok : ∀ s, ∀ x ∈ xs, f s x = .ok (g s x)) (s : β) : xs.foldlM f s = .ok (xs.foldl g s) := by
  induction xs generalizing s with
  | nil => rfl
  | cons x xs ih =>
    obtain ⟨first, later⟩ : f s x = .ok (g s x) ∧ _ :=
      ⟨ok s x List.mem_cons_self, fun s y membership => ok s y (List.mem_cons_of_mem x membership)⟩
    rw [List.foldlM_cons, first, List.foldl_cons]
    exact ih later (g s x)

section

variable {tensor : DLTensor} {nbytes rpcMaxSize : UInt64}

abbrev sessionBlocks (tensor : DLTensor) (nbytes rpcMaxSize : UInt64) : List Block :=
  copyBlocks nbytes (rpcMaxSize - remoteCopyCalculatePacketOverheadSize tensor)

theorem blockSize_toNat (larger : remoteCopyCalculatePacketOverheadSize tensor < rpcMaxSize) :
    (rpcMaxSize - remoteCopyCalculatePacketOverheadSize tensor).toNat =
      rpcMaxSize.toNat - (remoteCopyCalculatePacketOverheadSize tensor).toNat :=
  UInt64.toNat_sub_of_le _ _ (UInt64.le_of_lt larger)

theorem sessionBlocks_tile (tensor : DLTensor) (nbytes : UInt64) {rpcMaxSize : UInt64}
    (larger : remoteCopyCalculatePacketOverheadSize tensor < rpcMaxSize) :
    BlocksTile 0 (sessionBlocks tensor nbytes rpcMaxSize) nbytes.toNat := by
  apply copyBlocks_tile
  rw [blockSize_toNat larger]
  exact Nat.sub_pos_of_lt (UInt64.lt_iff_toNat_lt.mp larger)

theorem sessionBlocks_size_le (larger : remoteCopyCalculatePacketOverheadSize tensor < rpcMaxSize)
    {block : Block} (membership : block ∈ sessionBlocks tensor nbytes rpcMaxSize) :
    (remoteCopyCalculatePacketOverheadSize tensor).toNat + block.size.toNat ≤ rpcMaxSize.toNat := by
  have less := UInt64.lt_iff_toNat_lt.mp larger
  have size := blockSize_toNat larger
  have le := copyBlocks_size_le (by omega) membership
  omega

theorem overhead_atBlock (tensor : DLTensor) (block : Block) :
    remoteCopyCalculatePacketOverheadSize (tensor.atBlock block) =
      remoteCopyCalculatePacketOverheadSize tensor := rfl

theorem sessionCopyToRemote_eq (server : MinRPCServer) (client : Memory) (localFromBytes : Nat)
    (noStrides : tensor.strides = none)
    (within : tensor.byteOffset.toNat + nbytes.toNat ≤ (getDataSize tensor).toNat)
    (larger : remoteCopyCalculatePacketOverheadSize tensor < rpcMaxSize) :
    sessionCopyToRemote server client localFromBytes tensor nbytes rpcMaxSize =
      .ok ((sessionBlocks tensor nbytes rpcMaxSize).foldl (fun server block =>
        server.copyToRemote (tensor.atBlock block)
          (load client (localFromBytes + block.offset.toNat) block.size.toNat)) server) := by
  rw [sessionCopyToRemote, if_neg (UInt64.not_le.mpr larger)]
  refine foldlM_ok (fun server block membership => ?_) server
  have bounds := (sessionBlocks_tile tensor nbytes larger).bounds membership
  have size := sessionBlocks_size_le larger membership
  refine endpointCopyToRemote_ok server _ (tensor.atBlock block) block.size noStrides
    (load_length _ _ _) (lt_of_le_of_lt size rpcMaxSize.toNat_lt) ?_
  exact le_trans bounds.2.2 (le_trans (Nat.le_add_left _ _) within)

theorem sessionCopyFromRemote_eq (server : MinRPCServer) (client : Memory) (localToBytes : Nat)
    (noStrides : tensor.strides = none)
    (within : tensor.byteOffset.toNat + nbytes.toNat ≤ (getDataSize tensor).toNat)
    (larger : remoteCopyCalculatePacketOverheadSize tensor < rpcMaxSize) :
    sessionCopyFromRemote server client tensor localToBytes nbytes rpcMaxSize =
      .ok ((sessionBlocks tensor nbytes rpcMaxSize).foldl (fun client block =>
        store client (localToBytes + block.offset.toNat)
          (load (server.memory tensor.device) (tensor.data.toNat + block.offset.toNat)
            block.size.toNat)) client) := by
  rw [sessionCopyFromRemote, if_neg (UInt64.not_le.mpr larger)]
  refine foldlM_ok (fun client block membership => ?_) client
  have inside : block.offset.toNat + block.size.toNat ≤ (getDataSize tensor).toNat :=
    le_trans ((sessionBlocks_tile tensor nbytes larger).bounds membership).2.2
      (le_trans (Nat.le_add_left _ _) within)
  have copied : server.copyFromRemote (tensor.atBlock block) block.size.toNat =
      load (server.memory tensor.device) (tensor.data.toNat + block.offset.toNat) block.size.toNat := by
    unfold MinRPCServer.copyFromRemote
    split
    · rfl
    · have enough : block.size.toNat ≤ (getDataSize tensor).toNat := le_trans (Nat.le_add_left _ _) inside
      have whole := load_append (server.memory tensor.device) (tensor.data.toNat + block.offset.toNat)
        block.size.toNat ((getDataSize tensor).toNat - block.size.toNat)
      rw [Nat.add_sub_cancel' enough] at whole
      change load (store server.arena 0 (load (server.memory tensor.device)
        (tensor.data.toNat + block.offset.toNat) (getDataSize tensor).toNat)) 0 block.size.toNat = _
      rw [load_store_front _ _ _ (by rw [load_length]; exact enough), whole,
        List.take_left' (load_length _ _ _)]
  rw [endpointCopyFromRemote_ok server (tensor.atBlock block) block.size noStrides inside, copied]
  rfl

end

namespace MinRPCServer

theorem memory_write (server : MinRPCServer) (device : DLDevice) (address : Nat) (bytes : Bytes) :
    (server.write device address bytes).memory device = store (server.memory device) address bytes := by
  unfold write memory
  split
  · rfl
  · exact Function.update_self _ _ _

theorem arena_write (server : MinRPCServer) (device : DLDevice) (address : Nat) (bytes : Bytes) :
    (server.write device address bytes).arena = server.arena := by
  unfold write
  split <;> rfl

theorem write_nil (server : MinRPCServer) (device : DLDevice) (address : Nat) :
    server.write device address [] = server := by
  unfold write
  split
  · rfl
  · rw [store, Function.update_eq_self]

theorem write_write (server : MinRPCServer) (device : DLDevice) (address : Nat) (first second : Bytes) :
    (server.write device address first).write device (address + first.length) second =
      server.write device address (first ++ second) := by
  unfold write
  split
  · rw [store_append]
  · simp only [store_append, Function.update_self, Function.update_idem]

def payload (server : MinRPCServer) (arr : DLTensor) (data : Bytes) : Bytes :=
  if arr.device.deviceType = kDLCPU then data
  else load (store server.arena 0 data) 0 (getDataSize arr).toNat

theorem copyToRemote_eq (server : MinRPCServer) (arr : DLTensor) (data : Bytes) :
    server.copyToRemote arr data = server.write arr.device arr.address (server.payload arr data) := by
  unfold copyToRemote payload
  split <;> rfl

end MinRPCServer

theorem foldl_write {blocks : List Block} {start stop : Nat} (tiles : BlocksTile start blocks stop)
    (server : MinRPCServer) (device : DLDevice) (address : Nat) (client : Memory) (base : Nat) :
    blocks.foldl (fun server block => server.write device (address + block.offset.toNat)
        (load client (base + block.offset.toNat) block.size.toNat)) server =
      server.write device (address + start) (load client (base + start) (stop - start)) := by
  induction blocks generalizing start server with
  | nil =>
    obtain rfl : start = stop := tiles
    rw [Nat.sub_self]
    exact (server.write_nil device _).symm
  | cons block blocks ih =>
    obtain ⟨here, later⟩ := tiles.cons
    have rest : start + block.size.toNat ≤ stop := later.le
    have split := load_append client (base + start) block.size.toNat (stop - (start + block.size.toNat))
    have joined := server.write_write device (address + start) (load client (base + start) block.size.toNat)
      (load client (base + start + block.size.toNat) (stop - (start + block.size.toNat)))
    rw [load_length] at joined
    have total : block.size.toNat + (stop - (start + block.size.toNat)) = stop - start := by omega
    rw [List.foldl_cons, ih later, here, ← total, split, ← joined, Nat.add_assoc, Nat.add_assoc]

theorem foldl_store {blocks : List Block} {start stop : Nat} (tiles : BlocksTile start blocks stop)
    (client : Memory) (base : Nat) (remote : Memory) (address : Nat) :
    blocks.foldl (fun client block => store client (base + block.offset.toNat)
        (load remote (address + block.offset.toNat) block.size.toNat)) client =
      store client (base + start) (load remote (address + start) (stop - start)) := by
  induction blocks generalizing start client with
  | nil =>
    obtain rfl : start = stop := tiles
    rw [Nat.sub_self]
    rfl
  | cons block blocks ih =>
    obtain ⟨here, later⟩ := tiles.cons
    have rest : start + block.size.toNat ≤ stop := later.le
    have split := load_append remote (address + start) block.size.toNat (stop - (start + block.size.toNat))
    have joined := store_append client (base + start) (load remote (address + start) block.size.toNat)
      (load remote (address + start + block.size.toNat) (stop - (start + block.size.toNat)))
    rw [load_length] at joined
    have total : block.size.toNat + (stop - (start + block.size.toNat)) = stop - start := by omega
    rw [List.foldl_cons, ih later, here, ← total, split, joined, Nat.add_assoc, Nat.add_assoc]

theorem payload_of_whole (server : MinRPCServer) {arr : DLTensor} {data : Bytes}
    (whole : data.length = (getDataSize arr).toNat) : server.payload arr data = data := by
  unfold MinRPCServer.payload
  split
  · rfl
  · rw [← whole, load_store_same]

theorem payload_length (server : MinRPCServer) {arr : DLTensor} {data : Bytes}
    (inside : data.length ≤ (getDataSize arr).toNat) :
    data.length ≤ (server.payload arr data).length := by
  unfold MinRPCServer.payload
  split
  · exact le_rfl
  · rwa [load_length]

theorem payload_getElem (server : MinRPCServer) {arr : DLTensor} {data : Bytes} {i : Nat}
    (inside : i < (server.payload arr data).length) (known : i < data.length) :
    (server.payload arr data)[i] = data[i] := by
  unfold MinRPCServer.payload
  split
  · rfl
  · rw [load_getElem, store_inside known]

theorem arena_copyToRemote (server : MinRPCServer) (arr : DLTensor) (data : Bytes) :
    (server.copyToRemote arr data).arena = server.arena := by
  rw [MinRPCServer.copyToRemote_eq, MinRPCServer.arena_write]

theorem memory_copyToRemote (server : MinRPCServer) (tensor : DLTensor) (block : Block) (data : Bytes) :
    (server.copyToRemote (tensor.atBlock block) data).memory tensor.device =
      store (server.memory tensor.device) (tensor.data.toNat + block.offset.toNat)
        (server.payload (tensor.atBlock block) data) := by
  rw [MinRPCServer.copyToRemote_eq]
  exact MinRPCServer.memory_write server tensor.device _ _

abbrev copyBlocksToRemote (tensor : DLTensor) (client : Memory) (blocks : List Block)
    (server : MinRPCServer) : MinRPCServer :=
  blocks.foldl (fun server block => server.copyToRemote (tensor.atBlock block)
    (load client (0 + block.offset.toNat) block.size.toNat)) server

theorem arena_copyBlocksToRemote (tensor : DLTensor) (client : Memory) (blocks : List Block) (server : MinRPCServer) :
    (copyBlocksToRemote tensor client blocks server).arena = server.arena := by
  induction blocks generalizing server with
  | nil => rfl
  | cons block blocks ih => exact (ih _).trans (arena_copyToRemote server _ _)

theorem memory_copyBlocksToRemote (tensor : DLTensor) (client : Memory) {blocks : List Block}
    (behind : ∀ block ∈ blocks, 0 < block.offset.toNat) (server : MinRPCServer) :
    (copyBlocksToRemote tensor client blocks server).memory tensor.device tensor.data.toNat =
      server.memory tensor.device tensor.data.toNat := by
  induction blocks generalizing server with
  | nil => rfl
  | cons block blocks ih =>
    obtain ⟨first, later⟩ := List.forall_mem_cons.mp behind
    refine (ih later _).trans ?_
    rw [memory_copyToRemote, store_outside (.inl (Nat.lt_add_of_pos_right first))]

/-- A server whose memory is 0 and whose arena holds `b` everywhere. -/
def blankServer (b : UInt8) : MinRPCServer := ⟨fun _ => 0, fun _ _ => 0, fun _ => b⟩

theorem memory_blankServer (b : UInt8) (device : DLDevice) :
    (blankServer b).memory device = fun _ => 0 := by
  unfold MinRPCServer.memory
  split <;> rfl

/-- The copy ends with the local bytes at the address of the tensor, and nothing else changed. -/
def CopiesToRemote (tensor : DLTensor) (nbytes rpcMaxSize : UInt64) : Prop :=
  ∀ (server : MinRPCServer) (client : Memory) (localFromBytes : Nat),
    sessionCopyToRemote server client localFromBytes tensor nbytes rpcMaxSize =
      .ok (server.write tensor.device tensor.address (load client localFromBytes nbytes.toNat))

/-- The copy ends with the bytes of the tensor in the local memory, and nothing else changed. -/
def CopiesFromRemote (tensor : DLTensor) (nbytes rpcMaxSize : UInt64) : Prop :=
  ∀ (server : MinRPCServer) (client : Memory) (localToBytes : Nat),
    sessionCopyFromRemote server client tensor localToBytes nbytes rpcMaxSize =
      .ok (store client localToBytes (load (server.memory tensor.device) tensor.address nbytes.toNat))

/-- The shape is copied as a whole on other devices than the CPU. -/
def OneWholeBlock (tensor : DLTensor) (nbytes rpcMaxSize : UInt64) : Prop :=
  nbytes = getDataSize tensor ∧ nbytes ≤ rpcMaxSize - remoteCopyCalculatePacketOverheadSize tensor

section

variable {tensor : DLTensor} {nbytes rpcMaxSize : UInt64} (noStrides : tensor.strides = none)
  (within : tensor.byteOffset.toNat + nbytes.toNat ≤ (getDataSize tensor).toNat)
  (larger : remoteCopyCalculatePacketOverheadSize tensor < rpcMaxSize)

include noStrides within larger

theorem copiesFromRemote_of_start (start : nbytes = 0 ∨ tensor.byteOffset = 0) : CopiesFromRemote tensor nbytes rpcMaxSize := by
  intro server client localToBytes
  have copied := foldl_store (sessionBlocks_tile tensor nbytes larger) client
    localToBytes (server.memory tensor.device) tensor.data.toNat
  rw [sessionCopyFromRemote_eq server client localToBytes noStrides within larger, copied]
  rcases start with rfl | zero
  · rfl
  · rw [DLTensor.address, zero]
    rfl

theorem start_of_copiesFromRemote (copies : CopiesFromRemote tensor nbytes rpcMaxSize) : nbytes = 0 ∨ tensor.byteOffset = 0 := by
  by_contra neither
  obtain ⟨some, offset⟩ := not_or.mp neither
  have positive : nbytes.toNat ≠ 0 := fun zero => some (UInt64.toNat.inj zero)
  have moved : tensor.byteOffset.toNat ≠ 0 := fun zero => offset (UInt64.toNat.inj zero)
  -- a remote memory with one byte that is set, at the start of the tensor
  let remote : Memory := fun a => if a = tensor.data.toNat then 1 else 0
  let server : MinRPCServer := ⟨remote, fun _ => remote, fun _ => 0⟩
  have memory : server.memory tensor.device = remote := by
    unfold MinRPCServer.memory
    split <;> rfl
  have copied := copies server (fun _ => 0) 0
  have tiled := foldl_store (sessionBlocks_tile tensor nbytes larger)
    (fun _ => 0) 0 (server.memory tensor.device) tensor.data.toNat
  rw [sessionCopyFromRemote_eq server _ 0 noStrides within larger, tiled] at copied
  have first := congrFun (Except.ok.inj copied) 0
  obtain ⟨count, isCount⟩ := Nat.exists_eq_succ_of_ne_zero positive
  rw [memory, Nat.sub_zero, isCount] at first
  simp only [load, store, Nat.add_zero] at first
  rw [store_outside (.inl Nat.zero_lt_one), store_outside (.inl Nat.zero_lt_one)] at first
  simp [remote, DLTensor.address, moved] at first

theorem copiesToRemote_of_start (start : nbytes = 0 ∨ tensor.byteOffset = 0 ∧
      (tensor.device.deviceType = kDLCPU ∨ OneWholeBlock tensor nbytes rpcMaxSize)) :
    CopiesToRemote tensor nbytes rpcMaxSize := by
  intro server client localFromBytes
  rw [sessionCopyToRemote_eq server client localFromBytes noStrides within larger]
  by_cases none : nbytes = 0
  · subst none
    have empty : sessionBlocks tensor 0 rpcMaxSize = [] := by simp [sessionBlocks, copyBlocks]
    rw [empty]
    exact congrArg Except.ok (server.write_nil tensor.device _).symm
  obtain ⟨zero, device⟩ := start.resolve_left none
  have address : tensor.address = tensor.data.toNat := by
    rw [DLTensor.address, zero]
    rfl
  rcases device with cpu | ⟨whole, fits⟩
  · have copied := foldl_write (sessionBlocks_tile tensor nbytes larger) server
      tensor.device tensor.data.toNat client localFromBytes
    have direct : ∀ (server : MinRPCServer) (block : Block),
        server.copyToRemote (tensor.atBlock block)
            (load client (localFromBytes + block.offset.toNat) block.size.toNat) =
          server.write tensor.device (tensor.data.toNat + block.offset.toNat)
            (load client (localFromBytes + block.offset.toNat) block.size.toNat) := by
      intro server block
      rw [MinRPCServer.copyToRemote, if_pos (show (tensor.atBlock block).device.deviceType = kDLCPU from cpu)]
      rfl
    simp only [direct, copied, address, Nat.add_zero, Nat.sub_zero]
  · have single : sessionBlocks tensor nbytes rpcMaxSize = [⟨0, nbytes⟩] := copyBlocks_single none fits
    have size : (load client (localFromBytes + 0) nbytes.toNat).length =
        (getDataSize (tensor.atBlock ⟨0, nbytes⟩)).toNat :=
      (load_length _ _ _).trans (congrArg UInt64.toNat whole)
    rw [single, List.foldl_cons, List.foldl_nil, MinRPCServer.copyToRemote_eq, address]
    exact congrArg (fun bytes => Except.ok (server.write tensor.device tensor.data.toNat bytes))
      (payload_of_whole server size)

theorem byteOffset_of_copiesToRemote (copies : CopiesToRemote tensor nbytes rpcMaxSize) (some : nbytes.toNat ≠ 0) :
    tensor.byteOffset = 0 := by
  by_contra offset
  have moved : tensor.byteOffset.toNat ≠ 0 := fun zero => offset (UInt64.toNat.inj zero)
  obtain ⟨first, rest, split, here, nonempty, behind⟩ :=
    (sessionBlocks_tile tensor nbytes larger).head some
  have bounds := (sessionBlocks_tile tensor nbytes larger).bounds
    (split ▸ List.mem_cons_self)
  have copied := copies (blankServer 0) (fun _ => 1) 0
  rw [sessionCopyToRemote_eq _ _ 0 noStrides within larger, split] at copied
  have memory := congrArg (fun server => server.memory tensor.device tensor.data.toNat)
    (Except.ok.inj copied)
  have bytes := load_length (fun _ => 1) (0 + first.offset.toNat) first.size.toNat
  set data := load (fun _ => 1) (0 + first.offset.toNat) first.size.toNat with isData
  have reached := memory_copyBlocksToRemote tensor (fun _ => 1) behind
    ((blankServer 0).copyToRemote (tensor.atBlock first) data)
  have known : 0 < data.length := bytes.symm ▸ nonempty
  have inside : 0 < ((blankServer 0).payload (tensor.atBlock first) data).length :=
    lt_of_lt_of_le known (payload_length _ (le_trans (le_of_eq bytes)
      (le_trans (le_trans (Nat.le_add_left _ _) bounds.2.2) (le_trans (Nat.le_add_left _ _) within))))
  have one : store ((blankServer 0).memory tensor.device) tensor.data.toNat
      ((blankServer 0).payload (tensor.atBlock first) data) tensor.data.toNat = 1 := by
    have value : store ((blankServer 0).memory tensor.device) tensor.data.toNat
        ((blankServer 0).payload (tensor.atBlock first) data) (tensor.data.toNat + 0) = _ :=
      store_inside inside
    rw [Nat.add_zero, payload_getElem _ inside known] at value
    rw [value]
    exact load_getElem known
  rw [memory_copyToRemote, here, Nat.add_zero, one] at reached
  have zero : ((blankServer 0).write tensor.device tensor.address
      (load (fun _ => 1) 0 nbytes.toNat)).memory tensor.device tensor.data.toNat = 0 := by
    rw [MinRPCServer.memory_write, memory_blankServer]
    exact store_outside (.inl (Nat.lt_add_of_pos_right (Nat.pos_of_ne_zero moved)))
  have contradiction : (1 : UInt8) = 0 := (reached.symm.trans memory).trans zero
  exact absurd contradiction (by decide)

theorem oneWholeBlock_of_copiesToRemote (copies : CopiesToRemote tensor nbytes rpcMaxSize) (some : nbytes.toNat ≠ 0)
    (start : tensor.byteOffset = 0) (other : tensor.device.deviceType ≠ kDLCPU) :
    OneWholeBlock tensor nbytes rpcMaxSize := by
  have tiles := sessionBlocks_tile tensor nbytes larger
  obtain ⟨init, last, split⟩ : ∃ init last, sessionBlocks tensor nbytes rpcMaxSize = init ++ [last] := by
    rcases List.eq_nil_or_concat (sessionBlocks tensor nbytes rpcMaxSize) with empty | ⟨init, last, split⟩
    · rw [empty] at tiles
      exact absurd tiles.symm some
    · exact ⟨init, last, by rw [split, List.concat_eq_append]⟩
  have isLast : last ∈ sessionBlocks tensor nbytes rpcMaxSize := by
    rw [split]
    exact List.mem_append_right _ List.mem_cons_self
  have bounds := tiles.bounds isLast
  have size := sessionBlocks_size_le larger isLast
  rw [split] at tiles
  have stop := Tiles.last tiles
  by_contra not
  have short : last.size.toNat < (getDataSize tensor).toNat := by
    by_contra long
    have whole : last.size.toNat = nbytes.toNat := by omega
    refine not ⟨UInt64.toNat.inj (by omega), UInt64.le_iff_toNat_le.mpr ?_⟩
    rw [blockSize_toNat larger]
    omega
  have copied := copies (blankServer 1) (fun _ => 0) 0
  rw [sessionCopyToRemote_eq _ _ 0 noStrides within larger, split, List.foldl_append] at copied
  have memory := congrArg
    (fun server => server.memory tensor.device (tensor.data.toNat + last.offset.toNat + last.size.toNat))
    (Except.ok.inj copied)
  have zero : ((blankServer 1).write tensor.device tensor.address
      (load (fun _ => 0) 0 nbytes.toNat)).memory tensor.device
        (tensor.data.toNat + last.offset.toNat + last.size.toNat) = 0 := by
    rw [MinRPCServer.memory_write, memory_blankServer, DLTensor.address, start]
    refine store_outside (.inr ?_)
    have stops : last.offset.toNat + last.size.toNat = nbytes.toNat := stop
    rw [load_length, UInt64.toNat_zero]
    omega
  have arena := arena_copyBlocksToRemote tensor (fun _ => 0) init (blankServer 1)
  set before := copyBlocksToRemote tensor (fun _ => 0) init (blankServer 1) with isBefore
  set data := load (fun _ => 0) (0 + last.offset.toNat) last.size.toNat with isData
  have bytes : data.length = last.size.toNat := load_length _ _ _
  have payload : before.payload (tensor.atBlock last) data =
      load (store before.arena 0 data) 0 (getDataSize tensor).toNat := by
    rw [MinRPCServer.payload]
    exact if_neg other
  have one : (before.copyToRemote (tensor.atBlock last) data).memory tensor.device
      (tensor.data.toNat + last.offset.toNat + last.size.toNat) = 1 := by
    have inside : last.size.toNat < (before.payload (tensor.atBlock last) data).length := by
      rwa [payload, load_length]
    rw [memory_copyToRemote, store_inside inside]
    simp only [payload, load_getElem]
    rw [arena, store_outside (.inr (by omega))]
    rfl
  have contradiction : (1 : UInt8) = 0 := (one.symm.trans memory).trans zero
  exact absurd contradiction (by decide)

end

section

variable {tensor : DLTensor} {nbytes rpcMaxSize : UInt64}

/-- The packet of a request, behind a length that counts it. -/
def SizedPacket (packet : SendM Bytes Unit) (rpcMaxSize : UInt64) : Prop :=
  ∃ body : Bytes, packet [] = .ok () (Layout.u64.encode (UInt64.ofNat body.length) ++ body) ∧
    body.length ≤ rpcMaxSize.toNat

theorem copyToRemotePacket_sized (noStrides : tensor.strides = none)
    (larger : remoteCopyCalculatePacketOverheadSize tensor < rpcMaxSize) {block : Block}
    (membership : block ∈ sessionBlocks tensor nbytes rpcMaxSize) {data : Bytes}
    (size : data.length = block.size.toNat) :
    SizedPacket (copyToRemotePacket data (tensor.atBlock block) block.size) rpcMaxSize := by
  have fits := sessionBlocks_size_le larger membership
  have length : (requestBody kCopyToRemote (tensor.atBlock block) block.size ++
      Layout.u8.encodeArray data).length =
      (remoteCopyCalculatePacketOverheadSize tensor).toNat + block.size.toNat := by
    rw [List.length_append, requestBody_length, encodeArray_u8, size, overhead_atBlock]
  refine ⟨_, ?_, length.trans_le fits⟩
  rw [copyToRemotePacket_ok data (tensor.atBlock block) block.size noStrides, length, UInt64.ofNat_add,
    UInt64.ofNat_toNat, UInt64.ofNat_toNat, overhead_atBlock]

theorem copyFromRemotePacket_sized (noStrides : tensor.strides = none)
    (larger : remoteCopyCalculatePacketOverheadSize tensor < rpcMaxSize) (block : Block) :
    SizedPacket (copyFromRemotePacket (tensor.atBlock block) block.size) rpcMaxSize := by
  have length : (requestBody kCopyFromRemote (tensor.atBlock block) block.size).length =
      (remoteCopyCalculatePacketOverheadSize tensor).toNat := by
    rw [requestBody_length, overhead_atBlock]
  refine ⟨_, ?_, length.trans_le (UInt64.lt_iff_toNat_lt.mp larger).le⟩
  rw [copyFromRemotePacket_ok (tensor.atBlock block) block.size noStrides, length, UInt64.ofNat_toNat,
    overhead_atBlock]

end

/-- Four bytes at the address 100 of the CPU, from `byteOffset` on. -/
def fourBytes (byteOffset : UInt64) : DLTensor :=
  ⟨100, ⟨kDLCPU, 0⟩, ⟨1, 8, 1⟩, [4], none, byteOffset, by decide⟩

end Tvm.MinRpc
