import AxonCore.Lib.Codec

/-! # The stored format of an output

    `KVStorableValue` writes the block ID, the slot in which the output was booked, and the output
    and its proof, each behind its length.  `kvStorableLoad` reads the four parts back.

    `ReadRawOutputBytesByOutputIDWithoutLocking` takes a part of the value without decoding it.  Its
    offset is the one of an older layout: it skips the block ID and two numbers of 64 bits, where
    there are two of 32 bits now, and it returns all that follows.  So it misses the first eight
    bytes of the output and adds the proof. -/

namespace AxonCore.UtxoLedger

open AxonCore.Lib List

/-! ## Section 1: Writing and reading -/

abbrev Bytes := List UInt8

/-- The number of values of 32 bits. -/
def uint32Size : Nat := 4294967296

/-- The four bytes of a number, the lowest first. -/
def writeUint32 (n : Nat) : Bytes :=
  [UInt8.ofNat n, UInt8.ofNat (n / 256), UInt8.ofNat (n / 65536), UInt8.ofNat (n / 16777216)]

def readUint32 : Reader UInt8 Nat
  | a :: b :: c :: d :: rest =>
    some (a.toNat + 256 * b.toNat + 65536 * c.toNat + 16777216 * d.toNat, rest)
  | _ => none

/-- `stream.WriteBytesWithSize`; bytes whose length does not fit are an error before anything is
    written, and the error is ignored. -/
def writeBytesWithSize (bytes : Bytes) : Bytes :=
  if bytes.length < uint32Size then writeUint32 bytes.length ++ bytes else []

def readBytes (n : Nat) : Reader UInt8 Bytes := fun bs =>
  if n ≤ bs.length then some (bs.take n, bs.drop n) else none

def readBytesWithSize : Reader UInt8 Bytes := fun bs =>
  (readUint32 bs).bind fun (n, rest) => readBytes n rest

def blockIDLength : Nat := 36

structure BlockID where
  bytes : Bytes
  length : bytes.length = blockIDLength

/-- The stored part of an `Output`. -/
structure StoredOutput where
  blockID : BlockID
  slotBooked : UInt32
  encodedOutput : Bytes
  encodedProof : Bytes

/-- `KVStorableValue`. -/
def StoredOutput.kvStorableValue (o : StoredOutput) : Bytes :=
  o.blockID.bytes ++ writeUint32 o.slotBooked.toNat ++ writeBytesWithSize o.encodedOutput ++
    writeBytesWithSize o.encodedProof

/-- `kvStorableLoad`. -/
def kvStorableLoad (value : Bytes) : Option StoredOutput :=
  if h : blockIDLength ≤ value.length then
    (readUint32 (value.drop blockIDLength)).bind fun (slotBooked, rest) =>
      (readBytesWithSize rest).bind fun (encodedOutput, rest) =>
        (readBytesWithSize rest).map fun (encodedProof, _) =>
          ⟨⟨value.take blockIDLength, by rw [length_take, Nat.min_eq_left h]⟩,
            UInt32.ofNat slotBooked, encodedOutput, encodedProof⟩
  else none

inductive ReadError where
  | keyNotFound
  /-- "invalid UTXO output length". -/
  | invalidLength
  deriving DecidableEq

/-- `ReadRawOutputBytesByOutputIDWithoutLocking`. -/
def readRawOutputBytes {OutputID : Type} (store : OutputID → Option Bytes) (outputID : OutputID) :
    Except ReadError Bytes :=
  match store outputID with
  | none => .error .keyNotFound
  | some value =>
    let offset := blockIDLength + 8 + 8
    if value.length ≤ offset then .error .invalidLength else .ok (value.drop offset)

/-! ## Section 2: The two decoders -/

theorem readUint32_writeUint32 {n : Nat} (h : n < uint32Size) (rest : Bytes) :
    readUint32 (writeUint32 n ++ rest) = some (n, rest) := by
  unfold uint32Size at h
  simp only [writeUint32, readUint32, cons_append, nil_append, UInt8.toNat_ofNat']
  congr 2
  omega

theorem readBytesWithSize_write {bytes : Bytes} (h : bytes.length < uint32Size) (rest : Bytes) :
    readBytesWithSize (writeBytesWithSize bytes ++ rest) = some (bytes, rest) := by
  unfold readBytesWithSize writeBytesWithSize readBytes
  rw [if_pos h, append_assoc, readUint32_writeUint32 h]
  simp

theorem StoredOutput.kvStorableLoad_value (o : StoredOutput)
    (houtput : o.encodedOutput.length < uint32Size) (hproof : o.encodedProof.length < uint32Size) :
    kvStorableLoad o.kvStorableValue = some o := by
  have hvalue : o.kvStorableValue = o.blockID.bytes ++ (writeUint32 o.slotBooked.toNat ++
      (writeBytesWithSize o.encodedOutput ++ writeBytesWithSize o.encodedProof)) := by
    simp only [kvStorableValue, append_assoc]
  have hlength : blockIDLength ≤ o.kvStorableValue.length := by
    simp [kvStorableValue, o.blockID.length]
  have hlast := readBytesWithSize_write hproof []
  rw [append_nil] at hlast
  unfold kvStorableLoad
  rw [dif_pos hlength]
  simp only [hvalue, drop_left' o.blockID.length, take_left' o.blockID.length,
    readUint32_writeUint32 (show o.slotBooked.toNat < uint32Size from o.slotBooked.toNat_lt),
    readBytesWithSize_write houtput, hlast, Option.bind_some, Option.map_some, UInt32.ofNat_toNat]

/-- For an output that was stored, the decoder gives it back, and the raw bytes are those of the
    output exactly if the proof has four bytes and the output repeats what follows it. -/
theorem readRawOutputBytes_eq_iff {OutputID : Type} (store : OutputID → Option Bytes)
    (outputID : OutputID) (o : StoredOutput) (houtput : o.encodedOutput.length < uint32Size)
    (hproof : o.encodedProof.length < uint32Size)
    (hstored : store outputID = some o.kvStorableValue) :
    (store outputID).bind kvStorableLoad = some o ∧
      (readRawOutputBytes store outputID = .ok o.encodedOutput ↔
        o.encodedProof.length = 4 ∧ o.encodedOutput ≠ [] ∧
          (o.encodedOutput ++ writeUint32 4 ++ o.encodedProof).drop 8 = o.encodedOutput) := by
  refine ⟨by rw [hstored]; exact o.kvStorableLoad_value houtput hproof, ?_⟩
  -- the output starts after 44 bytes
  obtain ⟨header, hheader, hvalue⟩ : ∃ header : Bytes, header.length = 44 ∧ o.kvStorableValue =
      header ++ (o.encodedOutput ++ writeUint32 o.encodedProof.length ++ o.encodedProof) := by
    refine ⟨o.blockID.bytes ++ writeUint32 o.slotBooked.toNat ++ writeUint32 o.encodedOutput.length,
      by simp [o.blockID.length, writeUint32, blockIDLength], ?_⟩
    simp [StoredOutput.kvStorableValue, writeBytesWithSize, houtput, hproof]
  have hdrop : o.kvStorableValue.drop 52 =
      (o.encodedOutput ++ writeUint32 o.encodedProof.length ++ o.encodedProof).drop 8 := by
    rw [hvalue, show 52 = header.length + 8 by omega, drop_length_add_append]
  have hlength : o.kvStorableValue.length =
      48 + o.encodedOutput.length + o.encodedProof.length := by
    simp [hvalue, hheader, writeUint32]
    omega
  have hread : readRawOutputBytes store outputID = if o.kvStorableValue.length ≤ 52 then
      .error .invalidLength else .ok (o.kvStorableValue.drop 52) := by
    unfold readRawOutputBytes
    rw [hstored]
    rfl
  rw [hread, hlength, hdrop]
  constructor
  · intro h
    split_ifs at h with hlong
    · have heq := Except.ok.inj h
      have hlen := congrArg List.length heq
      simp only [length_drop, length_append, writeUint32, length_cons, length_nil] at hlen
      have hfour : o.encodedProof.length = 4 := by omega
      refine ⟨hfour, ?_, hfour ▸ heq⟩
      -- an empty output with such a proof is found to be too short
      intro hnil
      rw [hnil, length_nil] at hlong
      omega
  · rintro ⟨hfour, hne, heq⟩
    have hpos := length_pos_iff.mpr hne
    rw [if_neg (by omega), hfour, heq]

def emptyBlockID : BlockID := ⟨replicate blockIDLength 0, rfl⟩

/-- The two agree on an output of one byte that is also the last one of its proof. -/
theorem readRawOutputBytes_eq_of_repeated :
    readRawOutputBytes (fun _ : Unit => some
      (StoredOutput.mk emptyBlockID 1 [7] [0, 0, 0, 7]).kvStorableValue) () = .ok [7] :=
  (readRawOutputBytes_eq_iff _ () ⟨emptyBlockID, 1, [7], [0, 0, 0, 7]⟩ (by decide) (by decide)
    rfl).2.mpr (by decide)

/-- Of an output of ten bytes the last two are returned, with the length of the proof and the
    proof behind them. -/
theorem readRawOutputBytes_misses_start :
    let o : StoredOutput := ⟨emptyBlockID, 1, [1, 2, 3, 4, 5, 6, 7, 8, 9, 10], [20, 21]⟩
    kvStorableLoad o.kvStorableValue = some o ∧
      readRawOutputBytes (fun _ : Unit => some o.kvStorableValue) () =
        .ok [9, 10, 2, 0, 0, 0, 20, 21] :=
  ⟨StoredOutput.kvStorableLoad_value _ (by decide) (by decide), rfl⟩

end AxonCore.UtxoLedger
