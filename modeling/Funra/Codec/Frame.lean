import Funra.Codec.Basic

/-!
# Headers on the wire

The packed header reads back as the structure it was written from (`ofHeaderBytes_headerBytes`), so
that what the decoder sees of an encoded message is one equation for each field
(`ntohHeader_htonHeader`). All fields survive the two conversions but `reserve0`, whose low half comes
back as its high half.

`Frame` is a frame in host terms. Its length field is not free: it counts the payload.
-/

namespace Funra

open CInt Mem Endian

@[simp] theorem headerBytes_length {m : RipcDataDefault} (h : m.magic.length = 3) :
    (headerBytes m).length = 32 := by
  simp [headerBytes, h]

theorem ofHeaderBytes_headerBytes {m : RipcDataDefault} (h : m.magic.length = 3) (rest : Obj) :
    ofHeaderBytes (headerBytes m ++ rest) = { m with data := none } := by
  obtain ⟨version, magic, len, cmd, sid, crc, reserve0, data⟩ := m
  obtain ⟨m0, m1, m2, rfl⟩ : ∃ m0 m1 m2, magic = [m0, m1, m2] := by
    match magic, h with
    | [m0, m1, m2], _ => exact ⟨m0, m1, m2, rfl⟩
  have hl : ofHeaderBytes (headerBytes ⟨version, [m0, m1, m2], len, cmd, sid, crc, reserve0, data⟩ ++
      rest) = ofHeaderBytes ([version.toUInt8, m0, m1, m2] ++ (leBytes 4 len.toNat ++
      (leBytes 4 cmd.toUInt32.toNat ++ (leBytes 8 sid.toNat ++ (leBytes 4 crc.toUInt32.toNat ++
      (leBytes 8 reserve0.toNat ++ rest)))))) := by
    simp [headerBytes]
  rw [hl, ofHeaderBytes]
  simp only [window_skip_append, window_head_append, leBytes_length, List.length_cons,
    List.length_nil, Nat.reduceAdd, Nat.reduceSub, Nat.reduceLeDiff, ofNat_leBytes32,
    ofNat_leBytes64]
  simp [window, UInt8.toInt8]

/-! ### Frames -/

/-- A frame in host byte order. -/
structure Frame where
  version : Int8
  cmd : Int32
  sid : UInt64
  crc : Int32
  reserve0 : UInt64
  payload : Obj
  length_lt : 32 + payload.length < 2147483648
  deriving DecidableEq

namespace Frame

/-- The message a decoder yields for the frame. -/
def host (f : Frame) : RipcDataDefault where
  version := f.version
  magic := ripcHeadDefaultMagic
  len := UInt32.ofNat (24 + f.payload.length)
  cmd := f.cmd
  sid := f.sid
  crc := f.crc
  reserve0 := f.reserve0
  data := some f.payload

/-- The header as it stands in memory on the wire side. -/
def wire (f : Frame) : RipcDataDefault where
  version := f.version
  magic := ripcHeadDefaultMagic
  len := htonl (UInt32.ofNat (24 + f.payload.length))
  cmd := (htonl f.cmd.toUInt32).toInt32
  sid := htonll f.sid
  crc := (htonl f.crc.toUInt32).toInt32
  reserve0 := htonll f.reserve0
  data := none

def bytes (f : Frame) : Obj := headerBytes f.wire ++ f.payload

@[simp] theorem headerBytes_wire_length (f : Frame) : (headerBytes f.wire).length = 32 :=
  headerBytes_length rfl

@[simp] theorem bytes_length (f : Frame) : f.bytes.length = 32 + f.payload.length := by
  simp [bytes]

theorem ntohHeader_wire (f : Frame) : ntohHeader f.wire = { f.host with data := none } := by
  simp [ntohHeader, wire, host, ntohl, htonl, ntohll, htonll]

/-- The decoder reads a frame's header back, whatever follows it. -/
theorem ntohHeader_bytes (f : Frame) (rest : Obj) :
    ntohHeader (ofHeaderBytes (headerBytes f.wire ++ rest)) = { f.host with data := none } := by
  rw [ofHeaderBytes_headerBytes rfl, ← ntohHeader_wire]
  rfl

theorem requireLenOf_host (f : Frame) : requireLenOf f.host = f.payload.length := by
  have := f.length_lt
  simp only [requireLenOf, host, transLen]
  rw [UInt32.toNat_ofNat_of_lt' (by simp [UInt32.size]; omega), uint32_of_range (by omega) (by omega),
    int32_of_range (by omega) (by omega)]
  omega

end Frame

/-- A frame with one byte of payload. -/
def byteFrame : Frame where
  version := 0
  cmd := 7
  sid := 1
  crc := 0
  reserve0 := 0
  payload := [0x41]
  length_lt := by decide

/-- A frame with three bytes of payload. -/
def textFrame : Frame where
  version := 1
  cmd := 8
  sid := 2
  crc := 5
  reserve0 := 0
  payload := [0x61, 0x62, 0x63]
  length_lt := by decide

/-! ### What the encoder puts on the wire -/

/-- The frame of an encoded message. Of `reserve0` only the low half is sent, as the high half. -/
def encodedFrame (m : RipcDataDefault) (dsId : UInt64) (payload : Obj)
    (h : 32 + payload.length < 2147483648) : Frame where
  version := 0
  cmd := m.cmd
  sid := dsId
  crc := m.crc
  reserve0 := UInt64.ofNat (m.reserve0.toUInt32.toNat * 4294967296)
  payload := payload
  length_lt := h

theorem htonl_reserve0 (r : UInt64) :
    (htonl r.toUInt32).toUInt64 = htonll (UInt64.ofNat (r.toUInt32.toNat * 4294967296)) := by
  have hlt : r.toUInt32.toNat < 256 ^ 4 := r.toUInt32.toNat_lt
  have hwide := swap_swap_wide (n := 4) (k := 4) hlt
  have hmul : r.toUInt32.toNat * 4294967296 < 2 ^ 64 := by omega
  rw [← UInt64.toNat_inj, htonl, htonll, swap64_toNat, UInt32.toNat_toUInt64, swap32_toNat,
    UInt64.toNat_ofNat_of_lt' hmul, show (4294967296 : Nat) = 256 ^ 4 from rfl, ← hwide, swap_swap]
  exact lt_of_lt_of_le (swap_lt 4 _) (by decide)

theorem headerBytes_htonHeader (m : RipcDataDefault) (dsId : UInt64) (payload : Obj)
    (h : 32 + payload.length < 2147483648) :
    headerBytes (htonHeader m dsId payload.length) =
      headerBytes (encodedFrame m dsId payload h).wire := by
  have hlen : UInt32.ofInt (int32 (transLen + payload.length)) =
      UInt32.ofNat (24 + payload.length) := by
    rw [transLen, int32_of_range (by omega) (by omega), UInt32.ofInt]
    congr 1
    omega
  simp only [headerBytes, htonHeader, Frame.wire, encodedFrame, hlen, htonl_reserve0]

/-- `reserve0` comes back only when it is zero. -/
theorem encodedFrame_reserve0 (m : RipcDataDefault) (dsId : UInt64) (payload : Obj)
    (h : 32 + payload.length < 2147483648) :
    (encodedFrame m dsId payload h).reserve0 = m.reserve0 ↔ m.reserve0 = 0 := by
  have hlt := m.reserve0.toNat_lt
  have hmul : m.reserve0.toUInt32.toNat * 4294967296 < 2 ^ 64 := by
    have := m.reserve0.toUInt32.toNat_lt
    omega
  rw [encodedFrame, ← UInt64.toNat_inj, ← UInt64.toNat_inj, UInt64.toNat_ofNat_of_lt' hmul,
    UInt64.toNat_toUInt32, UInt64.toNat_zero]
  omega

end Funra
