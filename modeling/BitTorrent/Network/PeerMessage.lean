import BitTorrent.Library.BigEndian
import BitTorrent.Utils.Text

/-! # The messages of the peer wire protocol

`PeerMessage` of `network/peer_message.rs` with its encoder and its decoder.
-/

namespace BitTorrent

open BigEndian List

/-- The hashes that a hash message is about (BEP 52). -/
structure HashControl where
  piecesRoot : Hash UInt8
  baseLayer : UInt32
  index : UInt32
  length : UInt32
  proofLayers : UInt32
deriving DecidableEq

inductive PeerMessage where
  | keepAlive
  | choke
  | unchoke
  | interested
  | notInterested
  | have_ (index : UInt32)
  | bitfield (bits : Bytes)
  | request (index begin_ length : UInt32)
  | piece (index begin_ : UInt32) (block : Bytes)
  | cancel (index begin_ length : UInt32)
  | port (number : UInt16)
  | extended (extId : UInt8) (payload : Bytes)
  | suggest (index : UInt32)
  | haveAll
  | haveNone
  | reject (index begin_ length : UInt32)
  | allowedFast (index : UInt32)
  | hashRequest (control : HashControl)
  | hashes (control : HashControl) (nodes : Bytes)
  | hashReject (control : HashControl)
deriving DecidableEq

section Numbers

def u32Bytes (value : UInt32) : Bytes := toBytes 4 value.toNat

/-- A length `as u32`, of which the high bytes are lost. -/
def lengthBytes (length : Nat) : Bytes := toBytes 4 length

def u32At (bytes : Bytes) (offset : Nat) : UInt32 := UInt32.ofNat (fromBytes ((bytes.drop offset).take 4))

@[simp] theorem u32Bytes_length (value : UInt32) : (u32Bytes value).length = 4 := toBytes_length _ _

@[simp] theorem lengthBytes_length (length : Nat) : (lengthBytes length).length = 4 := toBytes_length _ _

theorem u32At_append {front : Bytes} {offset : Nat} (start : front.length = offset) (value : UInt32) (rest : Bytes) :
    u32At (front ++ (u32Bytes value ++ rest)) offset = value := by
  have part : ((front ++ (u32Bytes value ++ rest)).drop offset).take 4 = u32Bytes value := by
    rw [drop_left' start, take_left' (u32Bytes_length value)]
  rw [u32At, part, u32Bytes, fromBytes_toBytes (UInt32.toNat_lt value), UInt32.ofNat_toNat]

theorem u32Bytes_append_drop {bytes : Bytes} {offset : Nat} (inside : offset + 4 ≤ bytes.length) :
    u32Bytes (u32At bytes offset) ++ bytes.drop (offset + 4) = bytes.drop offset := by
  have four : ((bytes.drop offset).take 4).length = 4 := by
    rw [length_take, length_drop]
    omega
  have small := fromBytes_lt ((bytes.drop offset).take 4)
  have back := toBytes_fromBytes ((bytes.drop offset).take 4)
  rw [four] at small back
  rw [u32Bytes, u32At, UInt32.toNat_ofNat_of_lt' small, back, ← drop_drop, take_append_drop]

theorem u32Bytes_last {bytes : Bytes} {offset : Nat} (ends : bytes.length = offset + 4) :
    u32Bytes (u32At bytes offset) = bytes.drop offset := by
  rw [← u32Bytes_append_drop ends.ge, drop_eq_nil_of_le ends.le, append_nil]

end Numbers

namespace PeerMessage

section Encoding

def encodeSingleU32 (messageId : UInt8) (value : UInt32) : Bytes := lengthBytes 5 ++ messageId :: u32Bytes value

def encodeTripleU32 (messageId : UInt8) (v1 v2 v3 : UInt32) : Bytes :=
  lengthBytes (1 + 12) ++ messageId :: (u32Bytes v1 ++ (u32Bytes v2 ++ u32Bytes v3))

def controlBytes (control : HashControl) : Bytes :=
  control.piecesRoot.toList ++ (u32Bytes control.baseLayer ++
    (u32Bytes control.index ++ (u32Bytes control.length ++ u32Bytes control.proofLayers)))

def encodeHashControl (messageId : UInt8) (control : HashControl) : Bytes :=
  lengthBytes 49 ++ messageId :: controlBytes control

def encode : PeerMessage → Bytes
  | keepAlive => [0, 0, 0, 0]
  | choke => [0, 0, 0, 1, 0]
  | unchoke => [0, 0, 0, 1, 1]
  | interested => [0, 0, 0, 1, 2]
  | notInterested => [0, 0, 0, 1, 3]
  | have_ index => encodeSingleU32 4 index
  | bitfield bits => lengthBytes (1 + bits.length) ++ 5 :: bits
  | request index begin_ length => encodeTripleU32 6 index begin_ length
  | piece index begin_ block => lengthBytes (1 + 8 + block.length) ++ 7 :: (u32Bytes index ++ (u32Bytes begin_ ++ block))
  | cancel index begin_ length => encodeTripleU32 8 index begin_ length
  | port number => lengthBytes 3 ++ 9 :: toBytes 2 number.toNat
  | extended extId payload => lengthBytes (1 + 1 + payload.length) ++ 20 :: extId :: payload
  | suggest index => encodeSingleU32 13 index
  | haveAll => [0, 0, 0, 1, 14]
  | haveNone => [0, 0, 0, 1, 15]
  | reject index begin_ length => encodeTripleU32 16 index begin_ length
  | allowedFast index => encodeSingleU32 17 index
  | hashRequest control => encodeHashControl 21 control
  | hashes control nodes => lengthBytes (1 + 32 + 16 + nodes.length) ++ 22 :: (controlBytes control ++ nodes)
  | hashReject control => encodeHashControl 23 control

end Encoding

section Decoding

def decodeSingleU32 (payload : Bytes) (name : String) : Result UInt32 :=
  if payload.length ≠ 4 then .error (.parse ("Invalid " ++ name ++ " payload length"))
  else .ok (u32At payload 0)

def decodeTripleU32 (payload : Bytes) : Result (UInt32 × UInt32 × UInt32) :=
  if payload.length ≠ 12 then .error (.parse "Invalid message payload length")
  else .ok (u32At payload 0, u32At payload 4, u32At payload 8)

def decodeHashControl (payload : Bytes) (name : String) : Result HashControl :=
  if sized : payload.length ≠ 48 then .error (.parse ("Invalid " ++ name ++ " payload length"))
  else .ok {
    piecesRoot := ⟨payload.take 32, by rw [length_take]; omega⟩
    baseLayer := u32At payload 32
    index := u32At payload 36
    length := u32At payload 40
    proofLayers := u32At payload 44 }

/-- A message without its length prefix. -/
def decode : Bytes → Result PeerMessage
  | [] => .ok keepAlive
  | messageId :: payload =>
    match messageId.toNat with
    | 0 => .ok choke
    | 1 => .ok unchoke
    | 2 => .ok interested
    | 3 => .ok notInterested
    | 4 => (decodeSingleU32 payload "HAVE").map have_
    | 5 => .ok (bitfield payload)
    | 6 => (decodeTripleU32 payload).map fun values => request values.1 values.2.1 values.2.2
    | 7 =>
      if payload.length < 8 then .error (.parse "Invalid PIECE payload length")
      else .ok (piece (u32At payload 0) (u32At payload 4) (payload.drop 8))
    | 8 => (decodeTripleU32 payload).map fun values => cancel values.1 values.2.1 values.2.2
    | 9 =>
      if payload.length ≠ 2 then .error (.parse "Invalid PORT payload length")
      else .ok (port (UInt16.ofNat (fromBytes payload)))
    | 20 =>
      match payload with
      | [] => .error (.parse "Invalid EXTENDED payload length")
      | extId :: rest => .ok (extended extId rest)
    | 13 => (decodeSingleU32 payload "SUGGEST").map suggest
    | 14 => .ok haveAll
    | 15 => .ok haveNone
    | 16 => (decodeTripleU32 payload).map fun values => reject values.1 values.2.1 values.2.2
    | 17 => (decodeSingleU32 payload "ALLOWED FAST").map allowedFast
    | 21 => (decodeHashControl payload "HASH_REQUEST").map hashRequest
    | 22 =>
      if payload.length < 48 ∨ (payload.length - 48) % 32 ≠ 0 then .error (.parse "Invalid HASHES payload length")
      else (decodeHashControl (payload.take 48) "HASHES").map (hashes · (payload.drop 48))
    | 23 => (decodeHashControl payload "HASH_REJECT").map hashReject
    | _ => .error (.parse "Unknown peer message ID")

end Decoding

/-- The message behind the length prefix. -/
def body : PeerMessage → Bytes
  | keepAlive => []
  | choke => [0]
  | unchoke => [1]
  | interested => [2]
  | notInterested => [3]
  | have_ index => 4 :: u32Bytes index
  | bitfield bits => 5 :: bits
  | request index begin_ length => 6 :: (u32Bytes index ++ (u32Bytes begin_ ++ u32Bytes length))
  | piece index begin_ block => 7 :: (u32Bytes index ++ (u32Bytes begin_ ++ block))
  | cancel index begin_ length => 8 :: (u32Bytes index ++ (u32Bytes begin_ ++ u32Bytes length))
  | port number => 9 :: toBytes 2 number.toNat
  | extended extId payload => 20 :: extId :: payload
  | suggest index => 13 :: u32Bytes index
  | haveAll => [14]
  | haveNone => [15]
  | reject index begin_ length => 16 :: (u32Bytes index ++ (u32Bytes begin_ ++ u32Bytes length))
  | allowedFast index => 17 :: u32Bytes index
  | hashRequest control => 21 :: controlBytes control
  | hashes control nodes => 22 :: (controlBytes control ++ nodes)
  | hashReject control => 23 :: controlBytes control

section Codec

@[simp] theorem controlBytes_length (control : HashControl) : (controlBytes control).length = 48 := by
  simp [controlBytes]

theorem encode_eq (message : PeerMessage) : message.encode = lengthBytes message.body.length ++ message.body := by
  have framed : ∀ {length : Nat} {body : Bytes}, length = body.length →
      lengthBytes length ++ body = lengthBytes body.length ++ body := by
    intro length body same
    rw [same]
  cases message with
  | bitfield bits => exact framed (Nat.add_comm _ _)
  | piece index begin_ block =>
    refine framed ?_
    simp only [length_cons, length_append, u32Bytes_length]
    omega
  | extended extId payload => exact framed (Nat.add_comm _ _)
  | hashes control nodes =>
    refine framed ?_
    simp only [length_cons, length_append, controlBytes_length]
    omega
  | hashRequest control =>
    refine framed ?_
    rw [length_cons, controlBytes_length]
  | hashReject control =>
    refine framed ?_
    rw [length_cons, controlBytes_length]
  | _ => rfl

theorem encode_length (message : PeerMessage) : message.encode.length = 4 + message.body.length := by
  rw [encode_eq, length_append, lengthBytes_length]

theorem decodeSingleU32_u32Bytes (value : UInt32) (name : String) : decodeSingleU32 (u32Bytes value) name = .ok value := by
  have found := @u32At_append [] 0 rfl value []
  rw [nil_append, append_nil] at found
  rw [decodeSingleU32, if_neg (by simp), found]

theorem decodeTripleU32_u32Bytes (v1 v2 v3 : UInt32) :
    decodeTripleU32 (u32Bytes v1 ++ (u32Bytes v2 ++ u32Bytes v3)) = .ok (v1, v2, v3) := by
  have first := @u32At_append [] 0 rfl v1 (u32Bytes v2 ++ u32Bytes v3)
  have second := u32At_append (u32Bytes_length v1) v2 (u32Bytes v3)
  have third := @u32At_append (u32Bytes v1 ++ u32Bytes v2) 8 (by simp) v3 []
  rw [nil_append] at first
  rw [append_nil, append_assoc] at third
  rw [decodeTripleU32, if_neg (by simp), first, second, third]

theorem decodeHashControl_controlBytes (control : HashControl) (name : String) :
    decodeHashControl (controlBytes control) name = .ok control := by
  obtain ⟨piecesRoot, baseLayer, index, length, proofLayers⟩ := control
  have root : piecesRoot.toList.length = 32 := piecesRoot.toList_length
  have one := u32At_append root baseLayer (u32Bytes index ++ (u32Bytes length ++ u32Bytes proofLayers))
  have two := @u32At_append (piecesRoot.toList ++ u32Bytes baseLayer) 36 (by simp) index
    (u32Bytes length ++ u32Bytes proofLayers)
  have three := @u32At_append (piecesRoot.toList ++ (u32Bytes baseLayer ++ u32Bytes index)) 40 (by simp) length
    (u32Bytes proofLayers)
  have four := @u32At_append (piecesRoot.toList ++ (u32Bytes baseLayer ++ (u32Bytes index ++ u32Bytes length))) 44
    (by simp) proofLayers []
  simp only [append_assoc, append_nil] at two three four
  rw [decodeHashControl, dif_neg (by simp)]
  simp only [controlBytes, one, two, three, four, take_left' root]
  rfl

def WholeHashes : PeerMessage → Prop
  | hashes _ nodes => 32 ∣ nodes.length
  | _ => True

/-- The block of a message is no longer than a block of a piece. -/
def BlockFits : PeerMessage → Prop
  | piece _ _ block => block.length ≤ blockSize
  | _ => True

theorem decode_hashes (payload : Bytes) : decode (22 :: payload) =
    if payload.length < 48 ∨ (payload.length - 48) % 32 ≠ 0 then .error (.parse "Invalid HASHES payload length")
    else (decodeHashControl (payload.take 48) "HASHES").map (hashes · (payload.drop 48)) := rfl

theorem decode_body {message : PeerMessage} (whole : message.WholeHashes) : decode message.body = .ok message := by
  cases message with
  | have_ index => exact congrArg (Except.map have_) (decodeSingleU32_u32Bytes index "HAVE")
  | suggest index => exact congrArg (Except.map suggest) (decodeSingleU32_u32Bytes index "SUGGEST")
  | allowedFast index => exact congrArg (Except.map allowedFast) (decodeSingleU32_u32Bytes index "ALLOWED FAST")
  | request index begin_ length =>
    exact congrArg (Except.map fun values => request values.1 values.2.1 values.2.2)
      (decodeTripleU32_u32Bytes index begin_ length)
  | cancel index begin_ length =>
    exact congrArg (Except.map fun values => cancel values.1 values.2.1 values.2.2)
      (decodeTripleU32_u32Bytes index begin_ length)
  | reject index begin_ length =>
    exact congrArg (Except.map fun values => reject values.1 values.2.1 values.2.2)
      (decodeTripleU32_u32Bytes index begin_ length)
  | hashRequest control =>
    exact congrArg (Except.map hashRequest) (decodeHashControl_controlBytes control "HASH_REQUEST")
  | hashReject control =>
    exact congrArg (Except.map hashReject) (decodeHashControl_controlBytes control "HASH_REJECT")
  | piece index begin_ block =>
    have first := @u32At_append [] 0 rfl index (u32Bytes begin_ ++ block)
    have second := u32At_append (u32Bytes_length index) begin_ block
    have rest : (u32Bytes index ++ (u32Bytes begin_ ++ block)).drop 8 = block := by
      rw [← append_assoc]
      exact drop_left' (by simp)
    rw [nil_append] at first
    have long : ¬(u32Bytes index ++ (u32Bytes begin_ ++ block)).length < 8 := by
      simp only [length_append, u32Bytes_length]
      omega
    have reads : ∀ payload : Bytes, decode (7 :: payload) =
        if payload.length < 8 then .error (.parse "Invalid PIECE payload length")
        else .ok (piece (u32At payload 0) (u32At payload 4) (payload.drop 8)) := fun _ => rfl
    rw [body, reads, if_neg long, first, second, rest]
  | port number =>
    have back : fromBytes (toBytes 2 number.toNat) = number.toNat :=
      fromBytes_toBytes (UInt16.toNat_lt number)
    have two : ¬(toBytes 2 number.toNat).length ≠ 2 := not_not.mpr (toBytes_length _ _)
    have reads : ∀ payload : Bytes, decode (9 :: payload) =
        if payload.length ≠ 2 then .error (.parse "Invalid PORT payload length")
        else .ok (port (UInt16.ofNat (fromBytes payload))) := fun _ => rfl
    rw [body, reads, if_neg two, back, UInt16.ofNat_toNat]
  | hashes control nodes =>
    have size : (controlBytes control ++ nodes).length = 48 + nodes.length := by simp
    have sized : ¬((controlBytes control ++ nodes).length < 48 ∨ ((controlBytes control ++ nodes).length - 48) % 32 ≠ 0) := by
      have multiple : 32 ∣ nodes.length := whole
      omega
    rw [body, decode_hashes, if_neg sized, take_left' (controlBytes_length control),
      drop_left' (controlBytes_length control), decodeHashControl_controlBytes]
    rfl
  | _ => rfl

section Accepted

variable {payload : Bytes}

theorem decodeSingleU32_eq_ok {name : String} {value : UInt32} (decoded : decodeSingleU32 payload name = .ok value) :
    u32Bytes value = payload := by
  rw [decodeSingleU32] at decoded
  obtain ⟨sized, decoded⟩ := guard_eq_ok.mp decoded
  cases decoded
  rw [u32Bytes_last (not_not.mp sized), drop_zero]

theorem decodeTripleU32_eq_ok {values : UInt32 × UInt32 × UInt32} (decoded : decodeTripleU32 payload = .ok values) :
    u32Bytes values.1 ++ (u32Bytes values.2.1 ++ u32Bytes values.2.2) = payload := by
  rw [decodeTripleU32] at decoded
  obtain ⟨sized, decoded⟩ := guard_eq_ok.mp decoded
  cases decoded
  rw [u32Bytes_last (not_not.mp sized), u32Bytes_append_drop (by omega), u32Bytes_append_drop (by omega), drop_zero]

theorem decodeHashControl_eq_ok {name : String} {control : HashControl}
    (decoded : decodeHashControl payload name = .ok control) : controlBytes control = payload := by
  rw [decodeHashControl] at decoded
  split at decoded
  case isTrue => cases decoded
  case isFalse sized =>
    cases decoded
    simp only [controlBytes]
    rw [u32Bytes_last (not_not.mp sized), u32Bytes_append_drop (by omega), u32Bytes_append_drop (by omega),
      u32Bytes_append_drop (by omega)]
    exact take_append_drop 32 payload

/-- The messages of one byte. -/
def IsControl (messageId : UInt8) : Prop := messageId.toNat ∈ [0, 1, 2, 3, 14, 15]

instance (messageId : UInt8) : Decidable (IsControl messageId) := inferInstanceAs (Decidable (_ ∈ _))

/-- Apart from what stands behind a message of one byte, the decoder leaves nothing out. -/
theorem body_of_decode {messageId : UInt8} {message : PeerMessage} (decoded : decode (messageId :: payload) = .ok message)
    (single : IsControl messageId → payload = []) : message.body = messageId :: payload := by
  have known : ∀ value : Nat, messageId.toNat = value → messageId = UInt8.ofNat value := by
    intro value same
    rw [← same, UInt8.ofNat_toNat]
  have bare : ∀ value : Nat, messageId.toNat = value → value ∈ [0, 1, 2, 3, 14, 15] →
      messageId :: payload = [UInt8.ofNat value] := by
    intro value same control
    have listed : IsControl messageId := by
      rw [IsControl, same]
      exact control
    rw [single listed, known value same]
  unfold decode at decoded
  dsimp only at decoded
  split at decoded
  case h_1 id =>
    cases decoded
    exact (bare 0 id (by decide)).symm
  case h_2 id =>
    cases decoded
    exact (bare 1 id (by decide)).symm
  case h_3 id =>
    cases decoded
    exact (bare 2 id (by decide)).symm
  case h_4 id =>
    cases decoded
    exact (bare 3 id (by decide)).symm
  case h_5 id =>
    obtain ⟨value, read, rfl⟩ := map_eq_ok.mp decoded
    rw [known 4 id, body, decodeSingleU32_eq_ok read]
    rfl
  case h_6 id =>
    cases decoded
    rw [known 5 id]
    rfl
  case h_7 id =>
    obtain ⟨values, read, rfl⟩ := map_eq_ok.mp decoded
    rw [known 6 id, body, decodeTripleU32_eq_ok read]
    rfl
  case h_8 id =>
    obtain ⟨sized, decoded⟩ := guard_eq_ok.mp decoded
    cases decoded
    rw [known 7 id, body, u32Bytes_append_drop (by omega), u32Bytes_append_drop (by omega), drop_zero]
    rfl
  case h_9 id =>
    obtain ⟨values, read, rfl⟩ := map_eq_ok.mp decoded
    rw [known 8 id, body, decodeTripleU32_eq_ok read]
    rfl
  case h_10 id =>
    obtain ⟨sized, decoded⟩ := guard_eq_ok.mp decoded
    cases decoded
    have small := fromBytes_lt payload
    have back := toBytes_fromBytes payload
    rw [not_not.mp sized] at small back
    rw [known 9 id, body, UInt16.toNat_ofNat_of_lt' small, back]
    rfl
  case h_11 id =>
    split at decoded
    case h_1 => cases decoded
    case h_2 =>
      cases decoded
      rw [known 20 id]
      rfl
  case h_12 id =>
    obtain ⟨value, read, rfl⟩ := map_eq_ok.mp decoded
    rw [known 13 id, body, decodeSingleU32_eq_ok read]
    rfl
  case h_13 id =>
    cases decoded
    exact (bare 14 id (by decide)).symm
  case h_14 id =>
    cases decoded
    exact (bare 15 id (by decide)).symm
  case h_15 id =>
    obtain ⟨values, read, rfl⟩ := map_eq_ok.mp decoded
    rw [known 16 id, body, decodeTripleU32_eq_ok read]
    rfl
  case h_16 id =>
    obtain ⟨value, read, rfl⟩ := map_eq_ok.mp decoded
    rw [known 17 id, body, decodeSingleU32_eq_ok read]
    rfl
  case h_17 id =>
    obtain ⟨control, read, rfl⟩ := map_eq_ok.mp decoded
    rw [known 21 id, body, decodeHashControl_eq_ok read]
    rfl
  case h_18 id =>
    obtain ⟨sized, decoded⟩ := guard_eq_ok.mp decoded
    obtain ⟨control, read, rfl⟩ := map_eq_ok.mp decoded
    rw [known 22 id, body, decodeHashControl_eq_ok read, take_append_drop]
    rfl
  case h_19 id =>
    obtain ⟨control, read, rfl⟩ := map_eq_ok.mp decoded
    rw [known 23 id, body, decodeHashControl_eq_ok read]
    rfl
  case h_20 => cases decoded

end Accepted

end Codec

end PeerMessage

end BitTorrent
