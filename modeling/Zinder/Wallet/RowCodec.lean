import Zinder.Wallet.Rows

/-!
# Zinder.Wallet.RowCodec

The row codecs of the wallet projection are exact: a decoder accepts a row when the record it returns
encodes to that row, and only then. The ordered keys compare like the coordinates they are made of.

Every reader is described by the bytes it finds at its offset (`FieldAt`), so that a decoder that
walks through a record says what the whole record is.
-/

namespace Zinder.Wallet

open ByteFields List

/-! ## Fields -/

section Fields

variable {width offset : Nat} {encoded : Bytes} {field : String}

theorem fixedArray_eq_ok {a : FixedBytes width} :
    fixedArray width encoded field = .ok a ↔ a.bytes = encoded := by
  unfold fixedArray
  split
  case isTrue h =>
    rw [Except.ok.injEq, FixedBytes.ext_iff]
    exact eq_comm
  case isFalse h =>
    refine ⟨fun hok => (by cases hok), fun heq => (h ?_).elim⟩
    rw [← heq, a.length_eq]

theorem arrayAt_eq_ok (hwidth : 0 < width) {a : FixedBytes width} :
    arrayAt width encoded offset field = .ok a ↔ FieldAt encoded offset a.bytes := by
  rw [fieldAt_iff_slice, a.length_eq]
  unfold arrayAt
  split
  case isTrue h =>
    rw [fixedArray_eq_ok]
    exact eq_comm
  case isFalse h =>
    refine ⟨fun hok => (by cases hok), fun heq => (h ?_).elim⟩
    have hfield : FieldAt encoded offset a.bytes := by rw [fieldAt_iff_slice, a.length_eq, heq]
    have hle := hfield.le_length (by rw [a.length_eq]; exact hwidth)
    rwa [a.length_eq] at hle

theorem encodedLen_eq_ok {len : Nat} {count : U32} :
    encodedLen len field = .ok count ↔ count.val = len := by
  unfold encodedLen
  split
  case isTrue h =>
    rw [Except.ok.injEq, Fin.ext_iff]
    exact eq_comm
  case isFalse h =>
    refine ⟨fun hok => (by cases hok), fun heq => (h ?_).elim⟩
    rw [← heq]
    exact count.isLt

@[simp] theorem length_u32Bytes (n : U32) : (u32Bytes n).length = 4 := BigEndian.length_toBytes _ _

@[simp] theorem length_u64Bytes (n : U64) : (u64Bytes n).length = 8 := BigEndian.length_toBytes _ _

@[simp] theorem u32Bytes_u32OfBytes (a : FixedBytes 4) : u32Bytes (u32OfBytes a) = a.bytes :=
  BigEndian.toBytes_ofBytes a.length_eq

@[simp] theorem u64Bytes_u64OfBytes (a : FixedBytes 8) : u64Bytes (u64OfBytes a) = a.bytes :=
  BigEndian.toBytes_ofBytes a.length_eq

def u32Array (n : U32) : FixedBytes 4 := ⟨u32Bytes n, length_u32Bytes n⟩

def u64Array (n : U64) : FixedBytes 8 := ⟨u64Bytes n, length_u64Bytes n⟩

def bytes32Array (hash : Bytes32) : FixedBytes 32 := ⟨hash.bytes, hash.length_eq⟩

@[simp] theorem u32OfBytes_u32Array (n : U32) : u32OfBytes (u32Array n) = n :=
  Fin.ext (BigEndian.ofBytes_toBytes_of_lt n.isLt)

@[simp] theorem u64OfBytes_u64Array (n : U64) : u64OfBytes (u64Array n) = n :=
  Fin.ext (BigEndian.ofBytes_toBytes_of_lt n.isLt)

theorem u32OfBytes_eq {a : FixedBytes 4} {n : U32} (h : a.bytes = u32Bytes n) :
    u32OfBytes a = n := by
  rw [show a = u32Array n from FixedBytes.ext h, u32OfBytes_u32Array]

@[simp] theorem bytes32OfArray_bytes32Array (hash : Bytes32) :
    bytes32OfArray (bytes32Array hash) = hash := rfl

end Fields

/-! ## Outputs -/

section Outputs

@[simp] theorem WalletOutpointKey.new_outpoint (key : WalletOutpointKey) :
    WalletOutpointKey.new key.outpoint = key := by
  refine FixedBytes.ext ?_
  simp only [WalletOutpointKey.new, WalletOutpointKey.outpoint, u32Bytes_u32OfBytes]
  rw [slice_append_slice rfl, slice_eq_self key.length_eq]

@[simp] theorem WalletOutpointKey.outpoint_new (outpoint : TransparentOutPoint) :
    (WalletOutpointKey.new outpoint).outpoint = outpoint := by
  obtain ⟨id, index⟩ := outpoint
  simp only [WalletOutpointKey.new, WalletOutpointKey.outpoint,
    slice_append_left id.length_eq, slice_append_right (Nat.le_of_eq id.length_eq), id.length_eq,
    Nat.sub_self, slice_eq_self (length_u32Bytes index)]
  exact congrArg _ (u32OfBytes_u32Array index)

variable {key : WalletOutpointKey} {encoded : Bytes}

theorem WalletUnspentOutput.decodeValue_eq_ok {output : WalletUnspentOutput} :
    WalletUnspentOutput.decodeValue key encoded = .ok output ↔
      WalletOutpointKey.new output.outpoint = key ∧ output.encodeValue = .ok encoded := by
  simp only [WalletUnspentOutput.decodeValue, WalletUnspentOutput.encodeValue,
    WalletUnspentOutput.new, bind_eq_ok, rejectIf_eq_ok, arrayAt_eq_ok (show 0 < 4 by decide),
    arrayAt_eq_ok (show 0 < 8 by decide), arrayAt_eq_ok (show 0 < 32 by decide), Nat.not_lt, not_not,
    encodedLen_eq_ok, Except.ok.injEq, dif_pos]
  constructor
  · rintro ⟨_, -, scriptLen, hscriptLen, _, hlength, address, haddress, value, hvalue, txIndex, htxIndex,
      height, hheight, hash, hhash, rfl⟩
    refine ⟨WalletOutpointKey.new_outpoint key, u32OfBytes scriptLen, ?_, Eq.symm ?_⟩
    · rw [length_drop, hlength, Nat.add_sub_cancel_left]
    · rw [eq_iff_fieldAt]
      simp only [fieldAt_append, bytes32OfArray, WalletBlockId.height_new, WalletBlockId.hash_new,
        u32Bytes_u32OfBytes, u64Bytes_u64OfBytes, FixedBytes.length_eq, length_append, length_drop]
      refine ⟨⟨haddress, hvalue, hheight, hhash, htxIndex, hscriptLen, fieldAt_drop _ _⟩, ?_⟩
      rw [hlength, unspentOutputFixedValueLen]
      omega
  · rintro ⟨rfl, scriptLen, hscript, rfl⟩
    set encoded := output.addressScriptHash.bytes ++ _ with hencoded
    have hlength : encoded.length = unspentOutputFixedValueLen + scriptLen.val := by
      simp [encoded, Bytes32.length_eq, hscript, unspentOutputFixedValueLen]
      omega
    rw [eq_iff_fieldAt] at hencoded
    simp only [fieldAt_append, length_u32Bytes, length_u64Bytes, Bytes32.length_eq] at hencoded
    obtain ⟨⟨haddress, hvalue, hheight, hhash, htxIndex, hscriptLen, hbytes⟩, -⟩ := hencoded
    refine ⟨(), by omega, u32Array scriptLen, hscriptLen, (), by simpa using hlength,
      bytes32Array output.addressScriptHash, haddress, u64Array output.valueZat, hvalue,
      u32Array output.createdAt.txIndexInBlock, htxIndex,
      u32Array output.createdAt.block.height, hheight,
      bytes32Array output.createdAt.block.hash, hhash, ?_⟩
    have hscriptBytes : output.scriptPubKey = encoded.drop unspentOutputFixedValueLen := by
      refine hbytes.eq_of_length ?_
      rw [length_drop, hlength, hscript]
      exact (Nat.add_sub_cancel_left ..).symm
    simp only [WalletOutpointKey.outpoint_new, bytes32OfArray_bytes32Array, u32OfBytes_u32Array,
      u64OfBytes_u64Array, WalletBlockId.new_height_hash, ← hscriptBytes, output.creator]

theorem WalletUnspentOutput.length_of_encodeValue {output : WalletUnspentOutput} {bytes : Bytes}
    (h : output.encodeValue = .ok bytes) :
    bytes.length = unspentOutputFixedValueLen + output.scriptPubKey.length ∧
      ∃ scriptLen : U32, scriptLen.val = output.scriptPubKey.length ∧
        FieldAt bytes 80 (u32Bytes scriptLen) := by
  simp only [WalletUnspentOutput.encodeValue, bind_eq_ok, encodedLen_eq_ok, Except.ok.injEq] at h
  obtain ⟨scriptLen, hscript, hbytes⟩ := h
  have hall := eq_iff_fieldAt.mp hbytes.symm
  simp only [fieldAt_append, length_u32Bytes, length_u64Bytes, Bytes32.length_eq] at hall
  obtain ⟨⟨-, -, -, -, -, hscriptLen, -⟩, hlength⟩ := hall
  refine ⟨?_, scriptLen, hscript, hscriptLen⟩
  rw [← hlength]
  simp only [length_append, length_u32Bytes, length_u64Bytes, Bytes32.length_eq,
    unspentOutputFixedValueLen]
  omega

theorem WalletSpentOutput.decodeValue_eq_ok {spent : WalletSpentOutput} :
    WalletSpentOutput.decodeValue key encoded = .ok spent ↔
      WalletOutpointKey.new spent.output.outpoint = key ∧ spent.encodeValue = .ok encoded := by
  simp only [WalletSpentOutput.decodeValue, WalletSpentOutput.encodeValue, bind_eq_ok, rejectIf_eq_ok,
    arrayAt_eq_ok (show 0 < 4 by decide), arrayAt_eq_ok (show 0 < 32 by decide), Nat.not_lt, not_not,
    WalletUnspentOutput.decodeValue_eq_ok, Except.ok.injEq]
  constructor
  · rintro ⟨_, -, scriptLen, -, _, hlength, output, ⟨hkey, hvalue⟩, id, hid, txIndex, htxIndex, height,
      hheight, hash, hhash, inputIndex, hinput, rfl⟩
    refine ⟨hkey, _, hvalue, ?_⟩
    generalize hunspent : unspentOutputFixedValueLen + (u32OfBytes scriptLen).val = unspentLen at *
    have htake : (encoded.take unspentLen).length = unspentLen := by
      rw [length_take, hlength]
      omega
    refine Eq.symm (eq_iff_fieldAt.mpr ?_)
    simp only [fieldAt_append, bytes32OfArray, WalletBlockId.height_new, WalletBlockId.hash_new,
      u32Bytes_u32OfBytes, FixedBytes.length_eq, length_append, htake, Nat.zero_add]
    refine ⟨⟨?_, hid, hinput, htxIndex, hheight, hhash⟩, ?_⟩
    · exact take_prefix _ _
    · rw [hlength, spentOutputTrailerLen]
  · rintro ⟨hkey, bytes, hvalue, rfl⟩
    obtain ⟨hunspent, scriptLen, hscript, hscriptLen⟩ :=
      WalletUnspentOutput.length_of_encodeValue hvalue
    set encoded := bytes ++ _ with hencoded
    have htake : encoded.take bytes.length = bytes := take_left
    have hlength : encoded.length = bytes.length + spentOutputTrailerLen := by
      simp [encoded, Bytes32.length_eq, spentOutputTrailerLen]
    rw [eq_iff_fieldAt] at hencoded
    simp only [fieldAt_append, length_u32Bytes, Bytes32.length_eq, Nat.zero_add] at hencoded
    obtain ⟨⟨hbytes, hid, hinput, htxIndex, hheight, hhash⟩, -⟩ := hencoded
    have hunspentLen : unspentOutputFixedValueLen + (u32OfBytes (u32Array scriptLen)).val =
        bytes.length := by
      rw [u32OfBytes_u32Array, hscript, hunspent]
    refine ⟨(), by omega, u32Array scriptLen, hscriptLen.append _, (), ?_⟩
    rw [hunspentLen, htake]
    exact ⟨hlength, spent.output, ⟨hkey, hvalue⟩, bytes32Array spent.spentAt.transactionId, hid,
      u32Array spent.spentAt.txIndexInBlock, htxIndex, u32Array spent.spentAt.block.height, hheight,
      bytes32Array spent.spentAt.block.hash, hhash, u32Array spent.inputIndex, hinput, by simp⟩

end Outputs

/-! ## Address keys -/

section AddressKeys

theorem bytes32_inj {a b : Bytes32} : a.bytes = b.bytes ↔ a = b := by
  obtain ⟨a, ha⟩ := a
  obtain ⟨b, hb⟩ := b
  simp

theorem u32Bytes_inj {m n : U32} : u32Bytes m = u32Bytes n ↔ m = n := by
  rw [u32Bytes, u32Bytes, BigEndian.toBytes_inj m.isLt n.isLt, Fin.ext_iff]

theorem u32Bytes_lt {m n : U32} : u32Bytes m < u32Bytes n ↔ m < n := by
  rw [u32Bytes, u32Bytes, BigEndian.toBytes_lt_toBytes m.isLt n.isLt, Fin.lt_def]

namespace WalletAddressUnspentOutputKey

theorem ofParts_parts (key : WalletAddressUnspentOutputKey) :
    ofParts (addressScriptHash key) (creationHeight key) (outpoint key) = key := by
  refine FixedBytes.ext ?_
  simp only [ofParts, addressScriptHash, creationHeight, outpoint, u32Bytes_u32OfBytes]
  rw [slice_append_slice rfl, slice_append_slice rfl, slice_append_slice rfl,
    slice_eq_self key.length_eq]

theorem parts_ofParts (address : TransparentAddressScriptHash) (height : U32)
    (output : TransparentOutPoint) :
    addressScriptHash (ofParts address height output) = address ∧
    creationHeight (ofParts address height output) = height ∧
    outpoint (ofParts address height output) = output := by
  obtain ⟨id, index⟩ := output
  have hfields : FieldAt (ofParts address height ⟨id, index⟩).bytes 0
      (address.bytes ++ (u32Bytes height ++ (id.bytes ++ u32Bytes index))) := prefix_refl _
  simp only [fieldAt_append, length_u32Bytes, Bytes32.length_eq] at hfields
  simp only [fieldAt_iff_slice, length_u32Bytes, Bytes32.length_eq] at hfields
  obtain ⟨haddress, hheight, hid, hindex⟩ := hfields
  refine ⟨bytes32_inj.mp haddress, u32OfBytes_eq hheight, ?_⟩
  exact congrArg₂ TransparentOutPoint.mk (bytes32_inj.mp hid) (u32OfBytes_eq hindex)

/-- The byte order of the keys is the order by address, then height, then transaction and output. -/
theorem ofParts_lt {address address' : TransparentAddressScriptHash} {height height' : U32}
    {output output' : TransparentOutPoint} :
    ofParts address height output < ofParts address' height' output' ↔
      address.bytes < address'.bytes ∨ address = address' ∧ (height < height' ∨ height = height' ∧
        (output.transactionId.bytes < output'.transactionId.bytes ∨
          output.transactionId = output'.transactionId ∧
            output.outputIndex < output'.outputIndex)) := by
  rw [FixedBytes.lt_def]
  simp only [ofParts]
  rw [BigEndian.append_lt_append (by simp only [Bytes32.length_eq]), BigEndian.append_lt_append
    (by simp only [length_u32Bytes]), BigEndian.append_lt_append (by simp only [Bytes32.length_eq]),
    u32Bytes_lt, u32Bytes_lt, u32Bytes_inj, bytes32_inj, bytes32_inj]

end WalletAddressUnspentOutputKey

namespace WalletAddressTransactionKey

theorem new_parts (key : WalletAddressTransactionKey) :
    new (addressScriptHash key) (blockHeight key) (txIndexInBlock key) = key := by
  refine FixedBytes.ext ?_
  simp only [new, addressScriptHash, blockHeight, txIndexInBlock, u32Bytes_u32OfBytes]
  rw [slice_append_slice rfl, slice_append_slice rfl, slice_eq_self key.length_eq]

theorem parts_new (address : TransparentAddressScriptHash) (height index : U32) :
    addressScriptHash (new address height index) = address ∧
    blockHeight (new address height index) = height ∧
    txIndexInBlock (new address height index) = index := by
  have hfields : FieldAt (new address height index).bytes 0
      (address.bytes ++ (u32Bytes height ++ u32Bytes index)) := prefix_refl _
  simp only [fieldAt_append, length_u32Bytes, Bytes32.length_eq] at hfields
  simp only [fieldAt_iff_slice, length_u32Bytes, Bytes32.length_eq] at hfields
  obtain ⟨haddress, hheight, hindex⟩ := hfields
  exact ⟨bytes32_inj.mp haddress, u32OfBytes_eq hheight, u32OfBytes_eq hindex⟩

/-- The byte order of the keys is the order by address, then height, then transaction position. -/
theorem new_lt {address address' : TransparentAddressScriptHash}
    {height height' index index' : U32} :
    new address height index < new address' height' index' ↔
      address.bytes < address'.bytes ∨
        address = address' ∧ (height < height' ∨ height = height' ∧ index < index') := by
  rw [FixedBytes.lt_def]
  simp only [new]
  rw [BigEndian.append_lt_append (by simp only [Bytes32.length_eq]), BigEndian.append_lt_append
    (by simp only [length_u32Bytes]), u32Bytes_lt, u32Bytes_lt, u32Bytes_inj, bytes32_inj]

end WalletAddressTransactionKey

theorem WalletAddressTransaction.decodeValue_eq_ok {key : WalletAddressTransactionKey}
    {encoded : Bytes} {row : WalletAddressTransaction} :
    WalletAddressTransaction.decodeValue key encoded = .ok row ↔
      row.key = key ∧ row.encodeValue = encoded := by
  simp only [WalletAddressTransaction.decodeValue, bind_eq_ok, fixedArray_eq_ok, Except.ok.injEq,
    WalletAddressTransaction.encodeValue]
  constructor
  · rintro ⟨a, rfl, rfl⟩
    exact ⟨rfl, by rw [slice_append_slice rfl, slice_eq_self a.length_eq]⟩
  · rintro ⟨rfl, rfl⟩
    refine ⟨⟨_, by simp [Bytes32.length_eq]⟩, rfl, ?_⟩
    simp only [slice_append_left row.transactionId.length_eq,
      slice_append_right (Nat.le_of_eq row.transactionId.length_eq), Bytes32.length_eq, Nat.sub_self,
      slice_eq_self row.blockHash.length_eq]

theorem WalletAddressBalance.decode_eq_ok {key encoded : Bytes} {balance : WalletAddressBalance} :
    WalletAddressBalance.decode key encoded = .ok balance ↔
      balance.encodeKey = key ∧ balance.encodeValue = encoded := by
  simp only [WalletAddressBalance.decode, bind_eq_ok, fixedArray_eq_ok, Except.ok.injEq,
    WalletAddressBalance.encodeKey, WalletAddressBalance.encodeValue]
  constructor
  · rintro ⟨address, rfl, value, rfl, rfl⟩
    exact ⟨rfl, u64Bytes_u64OfBytes value⟩
  · rintro ⟨rfl, rfl⟩
    exact ⟨bytes32Array balance.addressScriptHash, rfl, u64Array balance.balanceZat, rfl, by simp⟩

end AddressKeys

/-! ## Undo records -/

section Undo

variable {encoded : Bytes} {offset next : Nat} {field : String}

@[simp] theorem length_encodeSourceSequenceDigest (digest : SourceSequenceDigest) :
    (encodeSourceSequenceDigest digest).length = 42 := by
  simp [encodeSourceSequenceDigest, Bytes32.length_eq]

theorem decodeSourceSequenceDigest_eq_ok {digest : SourceSequenceDigest} :
    decodeSourceSequenceDigest encoded offset field = .ok (digest, next) ↔
      FieldAt encoded offset (encodeSourceSequenceDigest digest) ∧ next = offset + 42 := by
  simp only [decodeSourceSequenceDigest, encodeSourceSequenceDigest, bind_eq_ok, rejectIf_eq_ok,
    arrayAt_eq_ok (show 0 < 2 by decide), arrayAt_eq_ok (show 0 < 8 by decide),
    arrayAt_eq_ok (show 0 < 32 by decide), not_not, fieldAt_append, BigEndian.length_toBytes,
    length_u64Bytes, Except.ok.injEq, Prod.mk.injEq]
  constructor
  · rintro ⟨version, hversion, _, hone, count, hcount, bytes, hbytes, rfl, rfl⟩
    refine ⟨⟨?_, ?_, hbytes⟩, rfl⟩
    · rwa [← hone, FixedBytes.toNat, BigEndian.toBytes_ofBytes version.length_eq]
    · rwa [u64Bytes_u64OfBytes]
  · rintro ⟨⟨hversion, hcount, hbytes⟩, rfl⟩
    exact ⟨FixedBytes.ofNat 2 sequenceDigestVersion, hversion, (),
      FixedBytes.toNat_ofNat (by decide), u64Array digest.blockCount, hcount,
      bytes32Array digest.bytes, hbytes, by simp, rfl⟩

variable {width : Nat} {keys : List (FixedBytes width)}

theorem length_of_mem_map_bytes : ∀ bytes ∈ keys.map FixedBytes.bytes, bytes.length = width := by
  intro bytes hmem
  obtain ⟨key, -, rfl⟩ := mem_map.mp hmem
  exact key.length_eq

theorem length_map_bytes (keys : List (FixedBytes width)) :
    (keys.map FixedBytes.bytes).flatten.length = keys.length * width := by
  rw [length_flatten length_of_mem_map_bytes, length_map]

theorem length_encodeKeyList (count : U32) (keys : List (FixedBytes width)) :
    (WalletReorgUndo.encodeKeyList count keys).length = 4 + keys.length * width := by
  rw [WalletReorgUndo.encodeKeyList, length_append, length_u32Bytes, length_map_bytes]

section

variable {decodeKey : Bytes → Checked (FixedBytes width)}
  (hkey : ∀ bytes key, decodeKey bytes = .ok key ↔ key.bytes = bytes)
include hkey

theorem collect_eq_ok_of_bytes {fields : List Bytes} :
    collect decodeKey fields = .ok keys ↔ keys.map FixedBytes.bytes = fields := by
  rw [collect_eq_ok]
  simp only [hkey]
  induction fields generalizing keys with
  | nil => cases keys <;> simp
  | cons field fields ih =>
    cases keys with
    | nil => simp
    | cons key keys => simp [ih]

theorem decodeKeyList_eq_ok :
    decodeKeyList width decodeKey encoded offset field = .ok (keys, next) ↔
      keys.IsChain (· < ·) ∧ ∃ count : U32, count.val = keys.length ∧
        FieldAt encoded offset (WalletReorgUndo.encodeKeyList count keys) ∧
        next = offset + (WalletReorgUndo.encodeKeyList count keys).length := by
  simp only [decodeKeyList, decodeCount, WalletReorgUndo.encodeKeyList, validateStrictKeyOrder,
    bind_eq_ok, rejectIf_eq_ok, arrayAt_eq_ok (show 0 < 4 by decide), collect_eq_ok_of_bytes hkey,
    not_not, Nat.not_lt, fieldAt_append, length_u32Bytes, length_append, length_map_bytes,
    Except.ok.injEq, Prod.mk.injEq]
  constructor
  · rintro ⟨⟨count, offset'⟩, ⟨a, ha, hcount⟩, _, hle, keys', hbytes, _, hchain, rfl, rfl⟩
    obtain ⟨rfl, rfl⟩ : (u32OfBytes a).val = count ∧ offset + 4 = offset' := by simpa using hcount
    have hslice : (slice encoded (offset + 4) ((u32OfBytes a).val * width)).length =
        (u32OfBytes a).val * width := length_slice hle
    have hlength : (u32OfBytes a).val = keys'.length := by
      have := congrArg List.length hbytes
      simpa using this.symm
    refine ⟨hchain, u32OfBytes a, hlength, ⟨?_, ?_⟩, ?_⟩
    · rwa [u32Bytes_u32OfBytes]
    · rw [hbytes, flatten_chunks hslice]
      exact take_prefix _ _
    · rw [hlength, Nat.add_assoc]
  · rintro ⟨hchain, count, hcount, ⟨hhead, hfields⟩, rfl⟩
    have hle : offset + 4 + keys.length * width ≤ encoded.length := by
      have hall := (fieldAt_append.mpr ⟨hhead, by rwa [length_u32Bytes]⟩).le_length (by simp)
      rw [length_append, length_u32Bytes, length_map_bytes] at hall
      omega
    have hslice : slice encoded (offset + 4) (keys.length * width) =
        (keys.map FixedBytes.bytes).flatten := by
      rw [← length_map_bytes keys]
      exact fieldAt_iff_slice.mp hfields
    refine ⟨(count.val, offset + 4), ⟨u32Array count, hhead, by simp⟩, (), ?_, keys, ?_, (), hchain,
      rfl, ?_⟩
    · rwa [hcount]
    · rw [hcount, hslice]
      rw [← length_map FixedBytes.bytes, chunks_flatten length_of_mem_map_bytes]
    · rw [hcount, Nat.add_assoc]

end

theorem decodeOutpointList_eq_ok {keys : List WalletOutpointKey} :
    decodeOutpointList encoded offset field = .ok (keys, next) ↔
      keys.IsChain (· < ·) ∧ ∃ count : U32, count.val = keys.length ∧
        FieldAt encoded offset (WalletReorgUndo.encodeKeyList count keys) ∧
        next = offset + (WalletReorgUndo.encodeKeyList count keys).length :=
  decodeKeyList_eq_ok fun _ _ => fixedArray_eq_ok

theorem decodeAddressTransactionList_eq_ok {keys : List WalletAddressTransactionKey} :
    decodeAddressTransactionList encoded offset field = .ok (keys, next) ↔
      keys.IsChain (· < ·) ∧ ∃ count : U32, count.val = keys.length ∧
        FieldAt encoded offset (WalletReorgUndo.encodeKeyList count keys) ∧
        next = offset + (WalletReorgUndo.encodeKeyList count keys).length :=
  decodeKeyList_eq_ok fun _ _ => fixedArray_eq_ok

theorem WalletReorgUndo.decode_eq_ok {key : Bytes} {undo : WalletReorgUndo} :
    WalletReorgUndo.decode key encoded = .ok undo ↔
      undo.encodeKey = key ∧ undo.encodeValue = .ok encoded := by
  simp only [WalletReorgUndo.decode, WalletReorgUndo.encodeValue, validateSourceSequenceBounds,
    validateStrictKeyOrder, bind_eq_ok, rejectIf_eq_ok, fixedArray_eq_ok,
    arrayAt_eq_ok (show 0 < 32 by decide), Nat.not_lt, not_not, encodedLen_eq_ok]
  constructor
  · rintro ⟨height, rfl, _, -, hash, hhash, parent, hparent, ⟨before, _⟩, hbefore, ⟨after, _⟩, hafter,
      ⟨created, _⟩, hcreated, ⟨spent, _⟩, hspent, ⟨transactions, _⟩, htransactions, _, hend, _, hcount,
      hundo⟩
    cases hundo
    simp only [decodeSourceSequenceDigest_eq_ok] at hbefore hafter
    obtain ⟨hbefore, rfl⟩ := hbefore
    obtain ⟨hafter, rfl⟩ := hafter
    simp only [decodeOutpointList_eq_ok] at hcreated hspent
    simp only [decodeAddressTransactionList_eq_ok] at htransactions
    obtain ⟨hcreatedOrder, createdCount, hcreatedCount, hcreated, rfl⟩ := hcreated
    obtain ⟨hspentOrder, spentCount, hspentCount, hspent, rfl⟩ := hspent
    obtain ⟨htransactionsOrder, transactionCount, htransactionCount, htransactions, rfl⟩ :=
      htransactions
    refine ⟨u32Bytes_u32OfBytes height, (), hcount, (), hcreatedOrder, (), hspentOrder, (),
      htransactionsOrder, createdCount, hcreatedCount, spentCount, hspentCount, transactionCount,
      htransactionCount, congrArg _ (Eq.symm (eq_iff_fieldAt.mpr ?_))⟩
    simp only [fieldAt_append, bytes32OfArray, WalletBlockId.hash_new, FixedBytes.length_eq,
      length_encodeSourceSequenceDigest, length_append, Nat.zero_add]
    refine ⟨⟨hhash, hparent, hbefore, hafter, hcreated, hspent, htransactions⟩, ?_⟩
    rw [← hend]
    omega
  · rintro ⟨rfl, _, hcount, _, hcreatedOrder, _, hspentOrder, _, htransactionsOrder, createdCount,
      hcreatedCount, spentCount, hspentCount, transactionCount, htransactionCount, hencoded⟩
    rw [Except.ok.injEq, eq_comm, eq_iff_fieldAt] at hencoded
    simp only [fieldAt_append, Bytes32.length_eq, length_encodeSourceSequenceDigest,
      length_append, Nat.zero_add] at hencoded
    obtain ⟨⟨hhash, hparent, hbefore, hafter, hcreated, hspent, htransactions⟩, hlength⟩ := hencoded
    refine ⟨u32Array undo.block.height, rfl, (), ?_, bytes32Array undo.block.hash, hhash,
      bytes32Array undo.parentHash, hparent, _, decodeSourceSequenceDigest_eq_ok.mpr ⟨hbefore, rfl⟩, _,
      decodeSourceSequenceDigest_eq_ok.mpr ⟨hafter, rfl⟩, _, decodeOutpointList_eq_ok.mpr
        ⟨hcreatedOrder, createdCount, hcreatedCount, hcreated, rfl⟩, _, decodeOutpointList_eq_ok.mpr
        ⟨hspentOrder, spentCount, hspentCount, hspent, rfl⟩, _, decodeAddressTransactionList_eq_ok.mpr
        ⟨htransactionsOrder, transactionCount, htransactionCount, htransactions, rfl⟩, (), ?_, (),
      hcount, ?_⟩
    · rw [← hlength, reorgUndoFixedValueLen]
      simp only [length_encodeKeyList]
      omega
    · rw [← hlength]
      dsimp only
      omega
    · simp

end Undo

/-! ## Canonical rows -/

/-- The wallet rows are canonical. A key decodes to the key it was made as and is made of the
coordinates it decodes to; a row is accepted when the record read from it encodes to that row, and only
then; and the two address keys compare like their coordinates. -/
structure CanonicalWalletRows : Prop where
  outpointKey_new : ∀ outpoint, WalletOutpointKey.decode (WalletOutpointKey.new outpoint).bytes =
    .ok (WalletOutpointKey.new outpoint) ∧ (WalletOutpointKey.new outpoint).outpoint = outpoint
  outpointKey_decode : ∀ bytes key, WalletOutpointKey.decode bytes = .ok key →
    (WalletOutpointKey.new key.outpoint).bytes = bytes
  unspentOutput : ∀ key value output, WalletUnspentOutput.decodeValue key value = .ok output ↔
    WalletOutpointKey.new output.outpoint = key ∧ output.encodeValue = .ok value
  spentOutput : ∀ key value spent, WalletSpentOutput.decodeValue key value = .ok spent ↔
    WalletOutpointKey.new spent.output.outpoint = key ∧ spent.encodeValue = .ok value
  addressUnspentOutputKey_new : ∀ output : WalletUnspentOutput, ∃ key,
    WalletAddressUnspentOutputKey.decode (WalletAddressUnspentOutputKey.new output).bytes = .ok key ∧
    WalletAddressUnspentOutputKey.addressScriptHash key = output.addressScriptHash ∧
    WalletAddressUnspentOutputKey.creationHeight key = output.createdAt.block.height ∧
    WalletAddressUnspentOutputKey.outpoint key = output.outpoint
  addressUnspentOutputKey_decode : ∀ bytes key,
    WalletAddressUnspentOutputKey.decode bytes = .ok key →
    (WalletAddressUnspentOutputKey.ofParts (WalletAddressUnspentOutputKey.addressScriptHash key)
      (WalletAddressUnspentOutputKey.creationHeight key)
      (WalletAddressUnspentOutputKey.outpoint key)).bytes = bytes
  addressTransactionKey_new : ∀ address height index, ∃ key,
    WalletAddressTransactionKey.decode (WalletAddressTransactionKey.new address height index).bytes =
      .ok key ∧
    WalletAddressTransactionKey.addressScriptHash key = address ∧
    WalletAddressTransactionKey.blockHeight key = height ∧
    WalletAddressTransactionKey.txIndexInBlock key = index
  addressTransactionKey_decode : ∀ bytes key, WalletAddressTransactionKey.decode bytes = .ok key →
    (WalletAddressTransactionKey.new (WalletAddressTransactionKey.addressScriptHash key)
      (WalletAddressTransactionKey.blockHeight key)
      (WalletAddressTransactionKey.txIndexInBlock key)).bytes = bytes
  addressTransaction : ∀ key value row, WalletAddressTransaction.decodeValue key value = .ok row ↔
    row.key = key ∧ row.encodeValue = value
  addressBalance : ∀ key value balance, WalletAddressBalance.decode key value = .ok balance ↔
    balance.encodeKey = key ∧ balance.encodeValue = value
  reorgUndo : ∀ key value undo, WalletReorgUndo.decode key value = .ok undo ↔
    undo.encodeKey = key ∧ undo.encodeValue = .ok value
  addressUnspentOutputKey_lt : ∀ a b : WalletUnspentOutput,
    WalletAddressUnspentOutputKey.new a < WalletAddressUnspentOutputKey.new b ↔
      a.addressScriptHash.bytes < b.addressScriptHash.bytes ∨
      a.addressScriptHash = b.addressScriptHash ∧
        (a.createdAt.block.height < b.createdAt.block.height ∨
        a.createdAt.block.height = b.createdAt.block.height ∧
          (a.outpoint.transactionId.bytes < b.outpoint.transactionId.bytes ∨
          a.outpoint.transactionId = b.outpoint.transactionId ∧
            a.outpoint.outputIndex < b.outpoint.outputIndex))
  addressTransactionKey_lt :
    ∀ (a b : TransparentAddressScriptHash) (height height' index index' : U32),
    WalletAddressTransactionKey.new a height index < WalletAddressTransactionKey.new b height' index' ↔
      a.bytes < b.bytes ∨ a = b ∧ (height < height' ∨ height = height' ∧ index < index')

theorem wallet_rows_canonical : CanonicalWalletRows where
  outpointKey_new outpoint := ⟨fixedArray_eq_ok.mpr rfl, WalletOutpointKey.outpoint_new outpoint⟩
  outpointKey_decode bytes key hdecode := by
    rw [WalletOutpointKey.new_outpoint]
    exact fixedArray_eq_ok.mp hdecode
  unspentOutput _ _ _ := WalletUnspentOutput.decodeValue_eq_ok
  spentOutput _ _ _ := WalletSpentOutput.decodeValue_eq_ok
  addressUnspentOutputKey_new output :=
    ⟨_, fixedArray_eq_ok.mpr rfl, WalletAddressUnspentOutputKey.parts_ofParts _ _ _⟩
  addressUnspentOutputKey_decode bytes key hdecode := by
    rw [WalletAddressUnspentOutputKey.ofParts_parts]
    exact fixedArray_eq_ok.mp hdecode
  addressTransactionKey_new address height index :=
    ⟨_, fixedArray_eq_ok.mpr rfl, WalletAddressTransactionKey.parts_new _ _ _⟩
  addressTransactionKey_decode bytes key hdecode := by
    rw [WalletAddressTransactionKey.new_parts]
    exact fixedArray_eq_ok.mp hdecode
  addressTransaction _ _ _ := WalletAddressTransaction.decodeValue_eq_ok
  addressBalance _ _ _ := WalletAddressBalance.decode_eq_ok
  reorgUndo _ _ _ := WalletReorgUndo.decode_eq_ok
  addressUnspentOutputKey_lt _ _ := WalletAddressUnspentOutputKey.ofParts_lt
  addressTransactionKey_lt _ _ _ _ _ _ := WalletAddressTransactionKey.new_lt

section Sample

private def sampleOutpoint : TransparentOutPoint := ⟨repeatedByte 17, 258⟩

private def sampleTouch : WalletAddressTransactionKey :=
  WalletAddressTransactionKey.new (repeatedByte 34) 7 0

private def sampleUndo : WalletReorgUndo :=
  ⟨.new 7 (repeatedByte 51), repeatedByte 52, ⟨6, repeatedByte 1⟩,
    ⟨7, repeatedByte 2⟩, [WalletOutpointKey.new sampleOutpoint], [], [sampleTouch]⟩

/-- The undo record of a block that created one output, written and read back. -/
theorem wallet_rows_canonical_undo :
    ∃ value, sampleUndo.encodeValue = .ok value ∧
      WalletReorgUndo.decode sampleUndo.encodeKey value = .ok sampleUndo := by
  have hvalue : sampleUndo.encodeValue.toOption.isSome = true := by decide +kernel
  obtain ⟨value, hvalue⟩ := Option.isSome_iff_exists.mp hvalue
  have hok := toOption_eq_some.mp hvalue
  exact ⟨value, hok, (wallet_rows_canonical.reorgUndo _ _ _).mpr ⟨rfl, hok⟩⟩

end Sample

end Zinder.Wallet
