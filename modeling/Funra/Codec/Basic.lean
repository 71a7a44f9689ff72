import Funra.Lib.Endian
import Funra.Lib.Except
import Funra.Rbuffer.Basic

/-!
# `rcodec_default`: messages, the encoder and the decoder

`rcodec_default.c` on a little-endian host, with the parts of `ripc.h` it uses. A frame on the wire is
the 32 packed header bytes of `ripc_data_default_t` in network order, then the payload.

* `encodeProcess` converts the message in place, writes header and payload into `write_buff` and calls
  the next handler; its four failure exits undo the writes through `Rbuffer.readExt`.
* `decodeProcess` commits the bytes a transport has put into `read_cache`, takes frames off it round
  by round (`decodeIter`), and tidies the buffer in `decodeOnAfter`. What it does outside the buffer
  is listed as events: the frames it accepts and, for a session, its reply and the stop command.

Two parameters stand for code outside: `next` is the code of the next handler, `malloc` says for which
sizes an allocation succeeds.
-/

namespace Funra

open CInt Mem Endian

/-! ## `ripc.h` -/

inductive RipcDataSourceType
  | unknown | server | client | peer | session | mix
  deriving DecidableEq, Repr

inductive RipcState
  | unknown | init | readyPending | ready | start | stop | disconnect | closed | error | full
  | timeout | uninit
  deriving DecidableEq, Repr

structure RipcDataSource where
  dsId : UInt64
  dsType : RipcDataSourceType
  state : RipcState
  readCache : Rbuffer
  writeBuff : Rbuffer
  deriving DecidableEq, Repr

def rcodeErrOk : Int := 0
def rcodeErrIpcConnect : Int := 12002
def rcodeErrIpcTimeout : Int := 12003
def rcodeErrIpcDisconnect : Int := 12004
def rcodeErrIpcMagic : Int := 12010
def rcodeErrIpcCacheFull : Int := 12011

/-! ## The message -/

def ripcHeadDefaultMagic : Obj := [0x52, 0x61, 0x79]

/-- `full_head_len`, `header_len`: 1 + 3 + 4 + 4 + 8 + 4 + 8. -/
def headerLen : Int := 32

/-- `trans_len`, `data_head_len`: 4 + 8 + 4 + 8. -/
def transLen : Int := 24

def ripcDataDefaultLenMax : Int := 2048000

/-- `data` holds the bytes that can be read through the pointer, `none` for `NULL`. -/
structure RipcDataDefault where
  version : Int8
  magic : Obj
  len : UInt32
  cmd : Int32
  sid : UInt64
  crc : Int32
  reserve0 : UInt64
  data : Option Obj
  deriving DecidableEq

def htonl (x : UInt32) : UInt32 := swap32 x
def ntohl (x : UInt32) : UInt32 := swap32 x
def htonll (x : UInt64) : UInt64 := swap64 x
def ntohll (x : UInt64) : UInt64 := swap64 x

/-- The first 32 bytes of the packed structure. -/
def headerBytes (m : RipcDataDefault) : Obj :=
  m.version.toUInt8 :: m.magic ++ leBytes 4 m.len.toNat ++ leBytes 4 m.cmd.toUInt32.toNat ++
    leBytes 8 m.sid.toNat ++ leBytes 4 m.crc.toUInt32.toNat ++ leBytes 8 m.reserve0.toNat

/-- The structure whose first 32 bytes are `bytes`. -/
def ofHeaderBytes (bytes : Obj) : RipcDataDefault where
  version := (bytes.headD 0).toInt8
  magic := window bytes 1 3
  len := UInt32.ofNat (ofLeBytes (window bytes 4 4))
  cmd := (UInt32.ofNat (ofLeBytes (window bytes 8 4))).toInt32
  sid := UInt64.ofNat (ofLeBytes (window bytes 12 8))
  crc := (UInt32.ofNat (ofLeBytes (window bytes 20 4))).toInt32
  reserve0 := UInt64.ofNat (ofLeBytes (window bytes 24 8))
  data := none

/-- The decoder's conversion of all header fields. -/
def ntohHeader (m : RipcDataDefault) : RipcDataDefault :=
  { m with
    len := ntohl m.len
    cmd := (ntohl m.cmd.toUInt32).toInt32
    sid := ntohll m.sid
    crc := (ntohl m.crc.toUInt32).toInt32
    reserve0 := ntohll m.reserve0 }

/-! ## The encoder -/

/-- The code of `handler->next->process`, `none` when there is no next handler. A next handler is
taken to leave the buffers and the message alone. -/
abbrev NextHandler := Option Int

/-- A buffer is rewound when everything in it has been read. -/
def rewindEmpty (d : Rbuffer) : Except Fault (Int × Rbuffer) :=
  if d.size = 0 then d.rewind else .ok (0, d)

/-- `len + header_len` is an unsigned 32-bit sum, and the comparison with it is unsigned. -/
def encodeOnBefore (ds : RipcDataSource) (m : RipcDataDefault) :
    Except Fault (Int × RipcDataSource) := do
  let (_, wb) ← rewindEmpty ds.writeBuff
  let ds := { ds with writeBuff := wb }
  if uint32 wb.left < uint32 (m.len.toNat + headerLen) then return (rcodeErrIpcCacheFull, ds)
  return (rcodeErrOk, ds)

/-- `payload_len`, an `int`. -/
def payloadLenOf (m : RipcDataDefault) : Int := int32 m.len.toNat

/-- The conversion in place; `htonl` narrows the 64-bit `reserve0`. -/
def htonHeader (m : RipcDataDefault) (dsId : UInt64) (payloadLen : Int) : RipcDataDefault :=
  { m with
    version := 0
    magic := ripcHeadDefaultMagic
    len := htonl (UInt32.ofInt (int32 (transLen + payloadLen)))
    cmd := (htonl m.cmd.toUInt32).toInt32
    sid := htonll dsId
    crc := (htonl m.crc.toUInt32).toInt32
    reserve0 := (htonl m.reserve0.toUInt32).toUInt64 }

def encodeOnAfter (next : NextHandler) : Int :=
  match next with
  | some code => code
  | none => rcodeErrOk

def encodeProcess (next : NextHandler) (ds : RipcDataSource) (m : RipcDataDefault) :
    Except Fault (Int × RipcDataSource × RipcDataDefault) := do
  let (code, ds) ← encodeOnBefore ds m
  if code ≠ rcodeErrOk then return (code, ds, m)
  let payloadLen := payloadLenOf m
  let m := htonHeader m ds.dsId payloadLen
  let (writeLen, wb) ← ds.writeBuff.write (some (headerBytes m)) headerLen
  if writeLen ≠ headerLen then
    return (rcodeErrIpcCacheFull, { ds with writeBuff := wb.readExt (-writeLen) }, ntohHeader m)
  let (writeLen, wb) ← wb.write m.data payloadLen
  if writeLen ≠ payloadLen then
    let wb := wb.readExt (-writeLen - headerLen)
    return (rcodeErrIpcCacheFull, { ds with writeBuff := wb }, m)
  let code := encodeOnAfter next
  if code ≠ rcodeErrOk then
    return (code, { ds with writeBuff := wb.readExt (-writeLen - headerLen) }, m)
  return (code, { ds with writeBuff := wb }, m)

/-! ## The decoder -/

/-- What `decode_process` does outside `read_cache`. -/
inductive DecodeEvent
  | frame (m : RipcDataDefault)
  | send (cmd : Int32) (data : Obj)
  | stop
  deriving DecidableEq

def decodeOnBefore (ds : RipcDataSource) (rawLen : UInt32) : RipcDataSource :=
  { ds with readCache := ds.readCache.writeExt rawLen.toNat }

/-- How a round of the loop ends: `break`, the return on a wrong magic, or the next round. -/
inductive DecodeOutcome
  | halt (d : Rbuffer)
  | badMagic (d : Rbuffer)
  | accept (d : Rbuffer) (m : RipcDataDefault)

/-- A round: the payload size it passes on, when it gets that far, and how it ends. -/
structure DecodeIter where
  requireLen : Option Int
  outcome : Except Fault DecodeOutcome

/-- `ipc_data.len - data_head_len`, stored in an `int`. -/
def requireLenOf (m : RipcDataDefault) : Int := int32 (uint32 (m.len.toNat - transLen))

/-- The second half of a round: allocate `requireLen + 1` bytes, read the payload, terminate it. -/
def decodePayload (malloc : Nat → Bool) (d : Rbuffer) (m : RipcDataDefault) (requireLen : Int) :
    Except Fault DecodeOutcome := do
  let room := sizeT (int32 (requireLen + 1))
  let val := if malloc room then some room else none
  let (readLen, payload, d) ← d.read val requireLen
  if readLen ≠ requireLen then return .halt (d.readExt (-readLen))
  -- `ipc_data.data[require_len] = rstr_end`
  match val with
  | none => throw .nullDeref
  | some room =>
    if requireLen < 0 ∨ (room : Int) ≤ requireLen then throw .outOfBounds
    return .accept d { m with data := some payload }

/-- The header goes to `ipc_data`, a structure of 32 header bytes and a pointer. -/
def decodeIter (malloc : Nat → Bool) (d : Rbuffer) : DecodeIter :=
  match d.read (some 40) headerLen with
  | .error f => ⟨none, .error f⟩
  | .ok (readLen, bytes, d) =>
    if readLen ≠ headerLen then ⟨none, .ok (.halt (d.readExt (-readLen)))⟩
    else if (ofHeaderBytes bytes).magic ≠ ripcHeadDefaultMagic then ⟨none, .ok (.badMagic d.clear)⟩
    else
      let m := ntohHeader (ofHeaderBytes bytes)
      ⟨some (requireLenOf m), decodePayload malloc d m (requireLenOf m)⟩

/-- The reply of a session to a message, and the stop command. -/
def sessionEvents (m : RipcDataDefault) : List DecodeEvent :=
  let text := (m.data.getD []).takeWhile (· ≠ 0)
  .send 101 (text ++ " - server response.".toUTF8.toList) ::
    if m.cmd = 999 then [.stop] else []

def frameEvents (dsType : RipcDataSourceType) (m : RipcDataDefault) : List DecodeEvent :=
  .frame m :: if dsType = .session then sessionEvents m else []

/-- The loop: the return code of a wrong magic, the buffer and the events. -/
def decodeLoop (malloc : Nat → Bool) (dsType : RipcDataSourceType) :
    Nat → Rbuffer → Except Fault (Option Int × Rbuffer × List DecodeEvent)
  | 0, _ => .error .outOfFuel
  | fuel + 1, d => do
    match ← (decodeIter malloc d).outcome with
    | .halt d => return (none, d, [])
    | .badMagic d => return (some rcodeErrIpcMagic, d, [])
    | .accept d m =>
      let (code, d, events) ← decodeLoop malloc dsType fuel d
      return (code, d, frameEvents dsType m ++ events)

/-- A drained or more than half used buffer is rewound. -/
def rewindUsed (d : Rbuffer) : Except Fault (Int × Rbuffer) :=
  if d.size = 0 ∨ d.left < d.capacity / 2 then d.rewind else .ok (0, d)

def decodeOnAfter (next : NextHandler) (ds : RipcDataSource) :
    Except Fault (Int × RipcDataSource) := do
  let (_, rc) ← rewindUsed ds.readCache
  let ds := { ds with readCache := rc }
  if rc.left < 1 ∨ rc.left > rc.capacity then return (rcodeErrIpcCacheFull, ds)
  match next with
  | some code => return (code, ds)
  | none => return (rcodeErrOk, ds)

/-- A round takes at least the header, so `size` rounds and the last one are enough. -/
def decodeProcess (malloc : Nat → Bool) (next : NextHandler) (ds : RipcDataSource)
    (rawLen : UInt32) : Except Fault (Int × RipcDataSource × List DecodeEvent) := do
  let ds := decodeOnBefore ds rawLen
  let (code, rc, events) ← decodeLoop malloc ds.dsType (ds.readCache.size.toNat + 1) ds.readCache
  let ds := { ds with readCache := rc }
  match code with
  | some code => return (code, ds, events)
  | none =>
    let (code, ds) ← decodeOnAfter next ds
    return (code, ds, events)

end Funra
