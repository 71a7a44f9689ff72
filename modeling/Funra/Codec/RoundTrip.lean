import Funra.Codec.Append
import Funra.Codec.Feed

/-!
# Decode undoes encode

The bytes that a successful encode appends are those of one frame (`appended_bytes`), and a decoder with
a drained buffer accepts that frame. Every field comes back but `reserve0`, which the encoder converts
with the 32-bit `htonl` and the decoder with the 64-bit `ntohll`: it comes back exactly when it is zero
(`roundTrips_iff`).
-/

namespace Funra

open CInt Mem Endian

/-- Decoding `sent` yields one frame, with the fields of the message `m` as it was before encoding. -/
def RoundTrips (malloc : Nat → Bool) (next : NextHandler) (peer : RipcDataSource) (dsId : UInt64)
    (m : RipcDataDefault) (sent : Obj) : Prop :=
  ∃ code peer' events f, feed malloc next peer sent = .ok (code, peer', events) ∧
    acceptedFrames events = [f] ∧ f.cmd = m.cmd ∧ f.crc = m.crc ∧ f.reserve0 = m.reserve0 ∧
    f.data = some ((payloadBytes m).take m.len.toNat) ∧ f.sid = dsId ∧
    f.len.toNat = 24 + m.len.toNat

/-- What a successful encode has put behind the bytes that were pending. -/
def appendedBytes (ds ds' : RipcDataSource) : Obj :=
  ds'.writeBuff.unread.drop ds.writeBuff.unread.length

/-- The appended bytes are those of one frame. -/
theorem appended_bytes {next : NextHandler} {ds ds' : RipcDataSource} {m m' : RipcDataDefault}
    (h : ds.writeBuff.Wf) (hrun : encodeProcess next ds m = .ok (rcodeErrOk, ds', m')) :
    ∃ hlt : 32 + ((payloadBytes m).take m.len.toNat).length < 2147483648,
      ((payloadBytes m).take m.len.toNat).length = m.len.toNat ∧ appendedBytes ds ds' =
        (encodedFrame m ds.dsId ((payloadBytes m).take m.len.toNat) hlt).bytes := by
  obtain ⟨-, hlen, hle, wb, rfl, hwf, hun⟩ := encodeProcess_ok next h hrun
  have hplen : ((payloadBytes m).take m.len.toNat).length = m.len.toNat := by
    rw [List.length_take]
    omega
  have hsize := hwf.length_unread
  have hl := hwf.left_nonneg
  have hcap := hwf.size_add_left
  have hlt := hwf.capacity_lt
  rw [hun, List.length_append, List.length_append, sentHeader_length, hplen] at hsize
  refine ⟨by omega, hplen, ?_⟩
  have hheader : sentHeader ds m =
      headerBytes (htonHeader m ds.dsId ((payloadBytes m).take m.len.toNat).length) := by
    rw [sentHeader, hlen, hplen]
  simp only [appendedBytes, hun]
  rw [List.drop_left' rfl, hheader, headerBytes_htonHeader m ds.dsId _ (by omega)]
  rfl

/-- Exactly when the message comes back from the bytes its encoding has appended. -/
theorem roundTrips_iff (malloc : Nat → Bool) (next next' : NextHandler) (ds ds' peer : RipcDataSource)
    (m m' : RipcDataDefault) (h : ds.writeBuff.Wf)
    (hrun : encodeProcess next ds m = .ok (rcodeErrOk, ds', m')) (hpeer : peer.readCache.Wf)
    (hempty : peer.readCache.size = 0) (hfit : 32 + m.len.toNat < peer.readCache.left)
    (hm : malloc (m.len.toNat + 1) = true) :
    RoundTrips malloc next' peer ds.dsId m (appendedBytes ds ds') ↔ m.reserve0 = 0 := by
  obtain ⟨hlt, hplen, hbytes⟩ := appended_bytes h hrun
  obtain ⟨f, hf⟩ : ∃ f, encodedFrame m ds.dsId ((payloadBytes m).take m.len.toNat) hlt = f := ⟨_, rfl⟩
  have hpay : f.payload = (payloadBytes m).take m.len.toNat := by rw [← hf]; rfl
  have hreserve := encodedFrame_reserve0 m ds.dsId ((payloadBytes m).take m.len.toNat) hlt
  obtain ⟨code, rc, events, hcall, -, -, -, -, hacc⟩ := @feed_frames malloc peer
    next' [f] hpeer hempty
    (by rw [framesBytes_cons, framesBytes_nil, List.append_nil, Frame.bytes_length, hpay, hplen]; omega)
    (fun g hg => by rw [List.mem_singleton.mp hg, hpay, hplen]; exact hm)
  rw [framesBytes_cons, framesBytes_nil, List.append_nil, ← hf, ← hbytes] at hcall
  rw [hf] at hreserve
  constructor
  · rintro ⟨code', peer', events', g, hcall', hacc', -, -, hres, -⟩
    rw [hcall] at hcall'
    cases hcall'
    rw [hacc] at hacc'
    obtain rfl : f.host = g := by simpa using hacc'
    exact hreserve.mp hres
  · intro hzero
    refine ⟨code, _, events, f.host, hcall, hacc, ?_, ?_, hreserve.mpr hzero, ?_, ?_, ?_⟩
    · rw [← hf]; rfl
    · rw [← hf]; rfl
    · rw [← hpay]; rfl
    · rw [← hf]; rfl
    · have hlen := m.len.toNat_lt
      simp only [Frame.host, hpay, hplen]
      rw [UInt32.toNat_ofNat_of_lt' (by simp only [UInt32.size]; omega)]

/-- A message with one byte of payload, and a value in the reserved field. -/
def byteMessage (reserve0 : UInt64) : RipcDataDefault :=
  ⟨0, [], 1, 7, 0, 0, reserve0, some [0x41]⟩

theorem encodeProcess_byteMessage (reserve0 : UInt64) : ∃ ds' m',
    encodeProcess none (freshSource 1 64) (byteMessage reserve0) = .ok (rcodeErrOk, ds', m') := by
  have hlen : payloadLenOf (byteMessage 0) = 1 := by decide
  refine encodeProcess_succeeds none (freshSource_wf 1 (by decide)) ?_ ?_
    (payloadRequest_pos rfl (hlen.symm ▸ by decide) (hlen.symm ▸ by decide)) rfl
  · have hspace : ¬ RefusedBySpace (freshSource 1 64).writeBuff (byteMessage 0) := by decide
    exact hspace
  · have hroom : 32 + payloadLenOf (byteMessage 0) ≤ (freshSource 1 64).writeBuff.room := by decide
    exact hroom

theorem roundTrips_iff_byte :
    ∃ ds' m', encodeProcess none (freshSource 1 64) (byteMessage 0) = .ok (rcodeErrOk, ds', m') ∧
      (RoundTrips (fun n => n ≤ 65536) none (freshSource 2 64) 1 (byteMessage 0)
        (appendedBytes (freshSource 1 64) ds') ↔ (byteMessage 0).reserve0 = 0) := by
  obtain ⟨ds', m', hrun⟩ := encodeProcess_byteMessage 0
  exact ⟨ds', m', hrun, roundTrips_iff _ none none (freshSource 1 64) ds' (freshSource 2 64) _ m'
    (freshSource_wf 1 (by decide)) hrun (freshSource_wf 2 (by decide)) rfl (by decide) (by decide)⟩

/-- `reserve0 = 1` comes back as 2^32. -/
theorem roundTrips_reserve0_one :
    ∃ ds' m', encodeProcess none (freshSource 1 64) (byteMessage 1) = .ok (rcodeErrOk, ds', m') ∧
      ¬ RoundTrips (fun n => n ≤ 65536) none (freshSource 2 64) 1 (byteMessage 1)
        (appendedBytes (freshSource 1 64) ds') := by
  obtain ⟨ds', m', hrun⟩ := encodeProcess_byteMessage 1
  refine ⟨ds', m', hrun, ?_⟩
  obtain ⟨hlt, hplen, hbytes⟩ := appended_bytes (freshSource_wf 1 (by decide)) hrun
  have hone : (encodedFrame (byteMessage 1) 1 _ hlt).payload.length = 1 := hplen
  rintro ⟨code, peer', events, f, hcall, hacc, -, -, hres, -⟩
  obtain ⟨code', rc, events', hcall', -, -, -, -, hacc'⟩ := @feed_frames (fun n => n ≤ 65536)
    (freshSource 2 64) none [encodedFrame (byteMessage 1) 1 _ hlt]
    (freshSource_wf 2 (by decide)) rfl
    (by rw [framesBytes_cons, framesBytes_nil, List.append_nil, Frame.bytes_length, hone]; decide)
    (fun f hf => by rw [List.mem_singleton.mp hf, hone]; decide)
  rw [framesBytes_cons, framesBytes_nil, List.append_nil] at hcall'
  rw [hbytes] at hcall
  cases hcall.symm.trans hcall'
  rw [hacc] at hacc'
  obtain rfl : f = (encodedFrame (byteMessage 1) 1 _ hlt).host := by
    simpa using hacc'
  exact absurd ((encodedFrame_reserve0 _ 1 _ hlt).mp hres) (by decide)

end Funra
