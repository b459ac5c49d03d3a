import SculkProtocol.Utility.WireCodecs

/-!
# Prefixes

The functions of the stream that can be given to `readArray`, `readMap` and `readVariant` for what
stands before the elements: those that read a value of an integer type. Each recognises a language
(`PrefixFunction.recognises`).
-/

namespace SculkProtocol

open Decoder BinaryStream ReadOnlyBinaryStream

/-- `std::byteswap` -/
def byteswap (v : Int32) : Int32 :=
  (UInt32.ofNat (fromLittleEndian (littleEndian 4 v.toUInt32.toNat).reverse)).toInt32

theorem byteswap_byteswap (v : Int32) : byteswap (byteswap v) = v := by
  have hlt : fromLittleEndian (littleEndian 4 v.toUInt32.toNat).reverse < 2 ^ 32 := by
    have h := fromLittleEndian_lt (littleEndian 4 v.toUInt32.toNat).reverse
    rwa [List.length_reverse, littleEndian_length] at h
  have hbytes : littleEndian 4 (fromLittleEndian (littleEndian 4 v.toUInt32.toNat).reverse) =
      (littleEndian 4 v.toUInt32.toNat).reverse := by
    have h := littleEndian_fromLittleEndian (littleEndian 4 v.toUInt32.toNat).reverse
    rwa [List.length_reverse, littleEndian_length] at h
  rw [byteswap, byteswap, UInt32.toUInt32_toInt32, UInt32.toNat_ofNat_of_lt' hlt, hbytes,
    List.reverse_reverse, fromLittleEndian_littleEndian v.toUInt32.toNat_lt, UInt32.ofNat_toNat,
    Int32.toInt32_toUInt32]

def BinaryStream.writeSignedBigEndianInt (value : Int32) : Bytes :=
  writeSignedInt (byteswap value).toUInt32

def ReadOnlyBinaryStream.readSignedBigEndianInt : StreamRead Int32 := do
  let value ← mapError (fun _ => "ReadOnlyBinaryStream::readSignedBigEndianInt failed")
    readSignedInt
  pure (byteswap value)

theorem recognises_readSignedBigEndianInt : Recognises readSignedBigEndianInt fun bs v =>
    ∃ value, (bs.length = 4 ∧ value = (ofLittleEndian bs).toInt32) ∧ v = byteswap value :=
  recognises_readSignedInt.mapError.bind_pure

theorem accepts_readSignedBigEndianInt (v : Int32) :
    Accepts readSignedBigEndianInt (writeSignedBigEndianInt v) v := by
  have hread : Accepts readSignedInt (writeSignedBigEndianInt v) (byteswap v) :=
    fun s rest hs hrest => readSignedInt_write hs.1 hrest
  have hswap : Accepts readSignedBigEndianInt (writeSignedBigEndianInt v) (byteswap (byteswap v)) :=
    hread.mapError.bind_pure
  rwa [byteswap_byteswap] at hswap

/-- The functions of the stream that read a value of an integer type. -/
inductive PrefixFunction
  | readBool
  | readByte
  | readSignedChar
  | readUnsignedShort
  | readSignedShort
  | readUnsignedInt
  | readSignedInt
  | readSignedBigEndianInt
  | readUnsignedInt64
  | readSignedInt64
  | readUnsignedVarInt
  | readUnsignedVarInt64
  | readVarInt
  | readVarInt64

namespace PrefixFunction

def toPrefix : PrefixFunction → Prefix
  | readBool =>
    Prefix.ofCodec ⟨1, false, by decide, by decide⟩ BitVec.ofBool (fun v => v.getLsbD 0) (by decide)
      writeBool ReadOnlyBinaryStream.readBool accepts_readBool
  | readByte => Prefix.byte
  | readSignedChar => Prefix.signedChar
  | readUnsignedShort => Prefix.unsignedShort
  | readSignedShort => Prefix.signedShort
  | readUnsignedInt => Prefix.unsignedInt
  | readSignedInt => Prefix.signedInt
  | readSignedBigEndianInt =>
    Prefix.ofCodec Prefix.signedInt.toIntegral Int32.toBitVec Int32.ofBitVec (fun _ => rfl)
      writeSignedBigEndianInt ReadOnlyBinaryStream.readSignedBigEndianInt
        accepts_readSignedBigEndianInt
  | readUnsignedInt64 => Prefix.unsignedInt64
  | readSignedInt64 => Prefix.signedInt64
  | readUnsignedVarInt => Prefix.unsignedVarInt
  | readUnsignedVarInt64 => Prefix.unsignedVarInt64
  | readVarInt => Prefix.varInt
  | readVarInt64 => Prefix.varInt64

theorem recognises : ∀ f : PrefixFunction, Recognises f.toPrefix.read (Accepts f.toPrefix.read)
  | readBool => recognises_readBool.bind_pure.of_accepted
  | readByte => recognises_readByte.bind_pure.of_accepted
  | readSignedChar => (recognises_scalar Scalar.int8).bind_pure.of_accepted
  | readUnsignedShort => (recognises_scalar Scalar.uint16).bind_pure.of_accepted
  | readSignedShort => (recognises_scalar Scalar.int16).bind_pure.of_accepted
  | readUnsignedInt => (recognises_scalar Scalar.uint32).bind_pure.of_accepted
  | readSignedInt => recognises_readSignedInt.bind_pure.of_accepted
  | readSignedBigEndianInt => recognises_readSignedBigEndianInt.bind_pure.of_accepted
  | readUnsignedInt64 => (recognises_scalar Scalar.uint64).bind_pure.of_accepted
  | readSignedInt64 => (recognises_scalar Scalar.int64).bind_pure.of_accepted
  | readUnsignedVarInt => recognises_readUnsignedVarInt.bind_pure.of_accepted
  | readUnsignedVarInt64 => recognises_readUnsignedVarInt64.bind_pure.of_accepted
  | readVarInt => recognises_readVarInt.bind_pure.of_accepted
  | readVarInt64 => recognises_readVarInt64.bind_pure.of_accepted

end PrefixFunction

end SculkProtocol
