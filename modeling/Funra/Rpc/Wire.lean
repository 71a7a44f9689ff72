import Funra.Lib.Endian
import Funra.Lib.Mem
import Funra.Rpc.Closures

/-!
# RPC messages on the wire

A request is a header of three words and the packed message, a response one of four words. Both sides collect what
they read and take a message out of it when all of it is there; what is behind it stays.

The messages themselves are those of a library: `RpcService` is what the two sides use of it.
-/

namespace Funra

open Mem Endian

/-- A service: how many methods it has, the types of their messages, and how messages are checked, packed and
unpacked. -/
structure RpcService (M : Type) where
  nMethods : Nat
  input : Nat → Nat
  output : Nat → Nat
  check : M → Bool
  pack : M → Obj
  unpack : Nat → Obj → Option M

/-- `ProtobufC_RPC_Payload` -/
structure RpcPayload (M : Type) where
  methodIndex : Nat
  requestId : Nat
  message : Option M

/-- What came of reading a message. `noDescriptor` is the failure of `get_descriptor`. -/
inductive RpcDeserialized (M : Type)
  | incomplete
  | noDescriptor
  | failed
  | success (payload : RpcPayload M) (rest : Obj)

def statusCodeSuccess : Nat := 0
def statusCodeServiceFailed : Nat := 1

def word (inBuffer : Obj) (off : Nat) : Nat := ofLeBytes (window inBuffer off 4)

def requestBytes (methodIndex requestId : Nat) (packed : Obj) : Obj :=
  leBytes 4 methodIndex ++ leBytes 4 packed.length ++ leBytes 4 requestId ++ packed

def responseBytes (statusCode methodIndex requestId : Nat) (packed : Obj) : Obj :=
  leBytes 4 statusCode ++ leBytes 4 methodIndex ++ leBytes 4 packed.length ++ leBytes 4 requestId ++ packed

section codec

variable {M : Type} (svc : RpcService M)

/-- The bytes appended to `out_buffer`: none when the message does not pass its check. -/
def clientSerialize (payload : RpcPayload M) : Obj :=
  match payload.message.filter svc.check with
  | none => []
  | some m => requestBytes payload.methodIndex payload.requestId (svc.pack m)

/-- A message that is missing or does not pass its check is reported in the status code. -/
def serverSerialize (payload : RpcPayload M) : Obj :=
  match payload.message.filter svc.check with
  | none => responseBytes statusCodeServiceFailed payload.methodIndex payload.requestId []
  | some m => responseBytes statusCodeSuccess payload.methodIndex payload.requestId (svc.pack m)

/-- The type of the message is that of the request; a response without a message must be empty. -/
def clientDeserialize (getDescriptor : Nat → Option Nat) (inBuffer : Obj) : Except RpcFault (RpcDeserialized M) :=
  if inBuffer.length < 16 then .ok .incomplete
  else
    let statusCode := word inBuffer 0
    let methodIndex := word inBuffer 4
    let messageLength := word inBuffer 8
    let requestId := word inBuffer 12
    if 16 + messageLength > inBuffer.length then .ok .incomplete
    else if statusCode = statusCodeSuccess then
      match getDescriptor requestId with
      | none => .ok .noDescriptor
      | some desc =>
        match svc.unpack desc (window inBuffer 16 messageLength) with
        | none => .ok .failed
        | some m => .ok (.success ⟨methodIndex, requestId, some m⟩ (inBuffer.drop (16 + messageLength)))
    else if messageLength ≠ 0 then .error .assertion
    else .ok (.success ⟨methodIndex, requestId, none⟩ (inBuffer.drop 16))

/-- `get_rcvd_message_descriptor` of the server knows the methods there are. -/
def serverDeserialize (inBuffer : Obj) : RpcDeserialized M :=
  if inBuffer.length < 12 then .incomplete
  else
    let methodIndex := word inBuffer 0
    let messageLength := word inBuffer 4
    let requestId := word inBuffer 8
    if inBuffer.length < 12 + messageLength then .incomplete
    else if methodIndex ≥ svc.nMethods then .noDescriptor
    else
      match svc.unpack (svc.input methodIndex) (window inBuffer 12 messageLength) with
      | none => .failed
      | some m => .success ⟨methodIndex, requestId, some m⟩ (inBuffer.drop (12 + messageLength))

end codec

/-! ### Headers -/

section headers

variable {M : Type} {svc : RpcService M} {a b : Obj} {off i j k n : Nat}

theorem word_append (h : off + 4 ≤ a.length) : word (a ++ b) off = word a off := by
  unfold word window
  rw [List.drop_append_of_le_length (by omega), List.take_append_of_le_length (by rw [List.length_drop]; omega)]

theorem word_skip (h : a.length ≤ off) : word (a ++ b) off = word b (off - a.length) := by
  unfold word
  rw [window_skip_append a b off 4 h]

theorem word_leBytes (h : n < 4294967296) : word (leBytes 4 n ++ b) 0 = n := by
  unfold word
  rw [window_head_append _ _ _ (leBytes_length 4 n), ofLeBytes_leBytes]
  exact Nat.mod_eq_of_lt h

@[simp] theorem requestBytes_length (packed : Obj) : (requestBytes i j packed).length = 12 + packed.length := by
  simp only [requestBytes, List.length_append, leBytes_length]

@[simp] theorem responseBytes_length (packed : Obj) : (responseBytes k i j packed).length = 16 + packed.length := by
  simp only [responseBytes, List.length_append, leBytes_length]

/-- The words of a request and what is behind them. -/
theorem requestBytes_words (hi : i < 4294967296) (hj : j < 4294967296) (hlen : a.length < 4294967296) :
    word (requestBytes i j a ++ b) 0 = i ∧ word (requestBytes i j a ++ b) 4 = a.length ∧
      word (requestBytes i j a ++ b) 8 = j ∧ window (requestBytes i j a ++ b) 12 a.length = a ∧
      (requestBytes i j a ++ b).drop (12 + a.length) = b := by
  have hdrop : (requestBytes i j a ++ b).drop (12 + a.length) = b := List.drop_left' (requestBytes_length a)
  refine ⟨?_, ?_, ?_, ?_, hdrop⟩
  all_goals simp only [requestBytes, List.append_assoc]
  · exact word_leBytes hi
  · rw [word_skip (by rw [leBytes_length]), leBytes_length]
    exact word_leBytes hlen
  · rw [word_skip (by rw [leBytes_length]; decide), leBytes_length, word_skip (by rw [leBytes_length]), leBytes_length]
    exact word_leBytes hj
  · rw [window_skip_append _ _ _ _ (by rw [leBytes_length]; decide), leBytes_length,
      window_skip_append _ _ _ _ (by rw [leBytes_length]; decide), leBytes_length,
      window_skip_append _ _ _ _ (by rw [leBytes_length]), leBytes_length]
    exact window_head_append a b a.length rfl

theorem responseBytes_words (hk : k < 4294967296) (hi : i < 4294967296) (hj : j < 4294967296)
    (hlen : a.length < 4294967296) :
    word (responseBytes k i j a ++ b) 0 = k ∧ word (responseBytes k i j a ++ b) 4 = i ∧
      word (responseBytes k i j a ++ b) 8 = a.length ∧ word (responseBytes k i j a ++ b) 12 = j ∧
      window (responseBytes k i j a ++ b) 16 a.length = a ∧ (responseBytes k i j a ++ b).drop (16 + a.length) = b := by
  have hdrop : (responseBytes k i j a ++ b).drop (16 + a.length) = b := List.drop_left' (responseBytes_length a)
  have hsplit : responseBytes k i j a ++ b =
      leBytes 4 k ++ (leBytes 4 i ++ (leBytes 4 a.length ++ (leBytes 4 j ++ (a ++ b)))) := by
    simp only [responseBytes, List.append_assoc]
  refine ⟨?_, ?_, ?_, ?_, ?_, hdrop⟩
  all_goals rw [hsplit]
  · exact word_leBytes hk
  · rw [word_skip (by rw [leBytes_length]), leBytes_length]
    exact word_leBytes hi
  · rw [word_skip (by rw [leBytes_length]; decide), leBytes_length, word_skip (by rw [leBytes_length]), leBytes_length]
    exact word_leBytes hlen
  · rw [word_skip (by rw [leBytes_length]; decide), leBytes_length, word_skip (by rw [leBytes_length]; decide),
      leBytes_length, word_skip (by rw [leBytes_length]), leBytes_length]
    exact word_leBytes hj
  · rw [window_skip_append _ _ _ _ (by rw [leBytes_length]; decide), leBytes_length,
      window_skip_append _ _ _ _ (by rw [leBytes_length]; decide), leBytes_length,
      window_skip_append _ _ _ _ (by rw [leBytes_length]; decide), leBytes_length,
      window_skip_append _ _ _ _ (by rw [leBytes_length]), leBytes_length]
    exact window_head_append a b a.length rfl

/-! ### Messages at the front of a buffer -/

theorem serverDeserialize_request (hi : i < 4294967296) (hj : j < 4294967296) (hlen : a.length < 4294967296) :
    serverDeserialize svc (requestBytes i j a ++ b) =
      if i ≥ svc.nMethods then .noDescriptor
      else match svc.unpack (svc.input i) a with
        | none => .failed
        | some m => .success ⟨i, j, some m⟩ b := by
  obtain ⟨h0, h4, h8, hpacked, hrest⟩ := requestBytes_words (b := b) hi hj hlen
  have hsize : (requestBytes i j a ++ b).length = 12 + a.length + b.length := by
    rw [List.length_append, requestBytes_length]
  unfold serverDeserialize
  simp only [h0, h4, h8, hpacked, hrest]
  rw [if_neg (by omega), if_neg (by omega)]

/-- Part of a request is left where it is. -/
theorem serverDeserialize_part {part t : Obj} (hi : i < 4294967296) (hj : j < 4294967296)
    (hlen : a.length < 4294967296) (heq : part ++ t = requestBytes i j a ++ b) (hlt : part.length < 12 + a.length) :
    serverDeserialize svc part = .incomplete := by
  obtain ⟨-, h4, -, -, -⟩ := requestBytes_words (b := b) hi hj hlen
  unfold serverDeserialize
  split
  · rfl
  · have hword : word part 4 = a.length := by
      rw [← word_append (b := t) (by omega), heq]
      exact h4
    simp only [hword]
    exact if_pos hlt

theorem clientDeserialize_success {getDescriptor : Nat → Option Nat} (hi : i < 4294967296) (hj : j < 4294967296)
    (hlen : a.length < 4294967296) :
    clientDeserialize svc getDescriptor (responseBytes statusCodeSuccess i j a ++ b) =
      match getDescriptor j with
      | none => .ok .noDescriptor
      | some desc => match svc.unpack desc a with
        | none => .ok .failed
        | some m => .ok (.success ⟨i, j, some m⟩ b) := by
  obtain ⟨h0, h4, h8, h12, hpacked, hrest⟩ := responseBytes_words (k := statusCodeSuccess) (b := b) (by decide) hi hj hlen
  have hsize : (responseBytes statusCodeSuccess i j a ++ b).length = 16 + a.length + b.length := by
    rw [List.length_append, responseBytes_length]
  unfold clientDeserialize
  simp only [h0, h4, h8, h12, hpacked, hrest]
  rw [if_neg (by omega), if_neg (by omega), if_pos trivial]

theorem clientDeserialize_noMessage {getDescriptor : Nat → Option Nat} (hk : k < 4294967296) (hne : k ≠ statusCodeSuccess)
    (hi : i < 4294967296) (hj : j < 4294967296) :
    clientDeserialize svc getDescriptor (responseBytes k i j [] ++ b) = .ok (.success ⟨i, j, none⟩ b) := by
  obtain ⟨h0, h4, h8, h12, -, hrest⟩ := responseBytes_words (a := []) (b := b) hk hi hj (by decide)
  have hsize : (responseBytes k i j [] ++ b).length = 16 + 0 + b.length := by
    rw [List.length_append, responseBytes_length]
    rfl
  unfold clientDeserialize
  simp only [h0, h4, h8, h12, List.length_nil]
  rw [if_neg (by omega), if_neg (by omega), if_neg hne, if_neg (by decide)]
  exact congrArg (fun rest => Except.ok (RpcDeserialized.success ⟨i, j, none⟩ rest)) hrest

/-- Part of a response is left where it is. -/
theorem clientDeserialize_part {getDescriptor : Nat → Option Nat} {part t : Obj} (hk : k < 4294967296)
    (hi : i < 4294967296) (hj : j < 4294967296) (hlen : a.length < 4294967296)
    (heq : part ++ t = responseBytes k i j a ++ b) (hlt : part.length < 16 + a.length) :
    clientDeserialize svc getDescriptor part = .ok .incomplete := by
  obtain ⟨-, -, h8, -, -, -⟩ := responseBytes_words (b := b) hk hi hj hlen
  unfold clientDeserialize
  split
  · rfl
  · have hword : word part 8 = a.length := by
      rw [← word_append (b := t) (by omega), heq]
      exact h8
    simp only [hword]
    exact if_pos hlt

/-- What is in front of `f ++ rest`: a part of `f`, or `f` and a part of `rest`. -/
theorem front_cases {part t f rest : Obj} (heq : part ++ t = f ++ rest) :
    part.length < f.length ∨ ∃ part', part = f ++ part' ∧ part' ++ t = rest := by
  by_cases hlt : part.length < f.length
  · exact .inl hlt
  · refine .inr ⟨part.drop f.length, ?_, ?_⟩
    · have htake := congrArg (List.take f.length) heq
      rw [List.take_append_of_le_length (by omega), List.take_left' rfl] at htake
      conv_lhs => rw [← List.take_append_drop f.length part, htake]
    · have hdrop := congrArg (List.drop f.length) heq
      rwa [List.drop_append_of_le_length (by omega), List.drop_left' rfl] at hdrop

end headers

end Funra
