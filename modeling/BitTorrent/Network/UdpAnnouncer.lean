import BitTorrent.Network.Announce
import BitTorrent.Network.CompactPeers

/-! # Announces over UDP

`UdpAnnouncer` of `network/announcer.rs` and the helpers of `utils/util.rs` for numbers, against
BEP 15.  A read past the end of a reply is a panic.
-/

namespace BitTorrent

open Chunks BigEndian List

variable {α : Type}

def packU32 (value : UInt32) : Bytes := toBytes 4 value.toNat

def packU64 (value : UInt64) : Bytes := toBytes 8 value.toNat

/-- A number of `width` bytes, if the buffer has them. -/
def unpack (width : Nat) (buffer : Bytes) (offset : Nat) : Option Nat :=
  if offset + width ≤ buffer.length then some (fromBytes (slice buffer offset width)) else none

def unpackU32 (buffer : Bytes) (offset : Nat) : Option Nat := unpack 4 buffer offset

def unpackU64 (buffer : Bytes) (offset : Nat) : Option Nat := unpack 8 buffer offset

namespace TrackerAnnounceContext

variable (tracker : TrackerAnnounceContext)

def peers (endpoints : List (Text × UInt16)) : List PeerDetails :=
  endpoints.map fun endpoint => ⟨tracker.infoHash, none, endpoint.1, endpoint.2⟩

def getCompactPeerList (bytes : Bytes) (offset : Nat) : List PeerDetails :=
  tracker.peers ((decodeCompactIpv4Peers bytes offset).filter fun endpoint => endpoint.1 ≠ tracker.ip)

def getCompactIpv6PeerList (bytes : Bytes) (offset : Nat) : List PeerDetails :=
  tracker.peers ((decodeCompactIpv6Peers bytes offset).filter fun endpoint =>
    endpoint.1 ≠ tracker.ip ∧ some endpoint.1 ≠ tracker.ipv6)

end TrackerAnnounceContext

namespace UdpAnnouncer

section Requests

def buildAnnouncePacket (connectionId : UInt64) (tracker : TrackerAnnounceContext) (transactionId : UInt32) : Bytes :=
  packU64 connectionId ++ packU32 1 ++ packU32 transactionId ++ tracker.infoHash ++ utf8 tracker.peerId ++
    packU64 tracker.downloaded ++ packU64 tracker.left ++ packU64 tracker.uploaded ++ packU32 tracker.event.code ++
    packU32 0 ++ packU32 0 ++ packU32 tracker.numWanted.toUInt32 ++ toBytes 2 tracker.port.toNat

end Requests

section Replies

/-- The start that the three readers share: the transaction id is compared, then the action is read. -/
def checkReply (mismatch : String) (transactionId : UInt32) (reply : Bytes) (next : Nat → Outcome α) :
    Outcome α :=
  match unpackU32 reply 4 with
  | none => .panic
  | some transaction =>
    if transactionId.toNat ≠ transaction then .err (.parse mismatch)
    else
      match unpackU32 reply 0 with
      | none => .panic
      | some action => next action

/-- The three numbers behind the action and the transaction id. -/
def headerNumbers (reply : Bytes) : Option (Nat × Nat × Nat) := do
  let first ← unpackU32 reply 8
  let second ← unpackU32 reply 12
  let third ← unpackU32 reply 16
  return (first, second, third)

/-- How the answer to `connect` is read, to the connection id. -/
def connectReply (transactionId : UInt32) (reply : Bytes) : Outcome UInt64 :=
  checkReply "UDP tracker transaction ID mismatch" transactionId reply fun action =>
    if action = 0 then
      match unpackU64 reply 8 with
      | none => .panic
      | some connectionId => .ok (UInt64.ofNat connectionId)
    else if action = 3 then .err (.parse ("UDP connect error: " ++ String.ofList (fromUtf8Lossy (reply.drop 8))))
    else .err (.parse "Invalid UDP connect response")

/-- The peers of an announce, whose addresses are of the kind that the socket or the length tells. -/
def announcedPeers (tracker : TrackerAnnounceContext) (isIpv6Socket : Bool) (reply : Bytes) : List PeerDetails :=
  let peersBytesLen := reply.length - 20
  if isIpv6Socket = true ∧ peersBytesLen % 18 = 0 ∨
      0 < peersBytesLen ∧ peersBytesLen % 18 = 0 ∧ peersBytesLen % 6 ≠ 0 then
    tracker.getCompactIpv6PeerList reply 20
  else tracker.getCompactPeerList reply 20

/-- How the answer to `announce` is read. -/
def announceReply (tracker : TrackerAnnounceContext) (isIpv6Socket : Bool) (transactionId : UInt32) (reply : Bytes) :
    Outcome AnnounceResponse :=
  checkReply "UDP announce transaction ID mismatch" transactionId reply fun action =>
    if action = 1 then
      match headerNumbers reply with
      | some (interval, incomplete, complete) =>
        .ok { interval, incomplete, complete, peerList := announcedPeers tracker isIpv6Socket reply }
      | none => .panic
    else if action = 3 then .ok { failure := true, statusMessage := fromUtf8Lossy (reply.drop 8) }
    else .err (.parse "Invalid UDP announce response action")

/-- How the answer to `scrape` is read. -/
def scrapeReply (transactionId : UInt32) (reply : Bytes) : Outcome ScrapeResponse :=
  checkReply "UDP scrape transaction ID mismatch" transactionId reply fun action =>
    if action = 2 then
      if reply.length < 20 then .err (.parse "UDP scrape response too short")
      else
        match headerNumbers reply with
        | some (complete, downloaded, incomplete) => .ok ⟨complete, downloaded, incomplete⟩
        | none => .panic
    else if action = 3 then .err (.parse (String.ofList (fromUtf8Lossy (reply.drop 8))))
    else .err (.parse "Invalid UDP scrape response action")

end Replies

section Layout

/-- The fields of an announce request of BEP 15, without the address, the key and the wanted number
of peers. -/
structure Request where
  connectionId : Nat
  action : Nat
  transactionId : Nat
  infoHash : Bytes
  peerId : Bytes
  downloaded : Nat
  left : Nat
  uploaded : Nat
  event : Nat
  port : Nat
deriving DecidableEq

/-- How a tracker reads an announce request. -/
def readRequest (packet : Bytes) : Option Request :=
  let number offset width := fromBytes (slice packet offset width)
  if packet.length = 98 then
    some
      { connectionId := number 0 8
        action := number 8 4
        transactionId := number 12 4
        infoHash := slice packet 16 20
        peerId := slice packet 36 20
        downloaded := number 56 8
        left := number 64 8
        uploaded := number 72 8
        event := number 80 4
        port := number 96 2 }
  else none

/-- The codes of BEP 15. -/
def eventCode : TrackerEvent → Nat
  | .none => 0
  | .completed => 1
  | .started => 2
  | .stopped => 3

/-- What a tracker should read. -/
def intended (connectionId : UInt64) (tracker : TrackerAnnounceContext) (transactionId : UInt32) : Request where
  connectionId := connectionId.toNat
  action := 1
  transactionId := transactionId.toNat
  infoHash := tracker.infoHash.take 20
  peerId := utf8 tracker.peerId
  downloaded := tracker.downloaded.toNat
  left := tracker.left.toNat
  uploaded := tracker.uploaded.toNat
  event := eventCode tracker.event
  port := tracker.port.toNat

variable {connectionId : UInt64} {tracker : TrackerAnnounceContext} {transactionId : UInt32}

@[simp]
theorem packU32_length (value : UInt32) : (packU32 value).length = 4 := toBytes_length 4 _

@[simp]
theorem packU64_length (value : UInt64) : (packU64 value).length = 8 := toBytes_length 8 _

theorem fromBytes_packU32 (value : UInt32) : fromBytes (packU32 value) = value.toNat :=
  fromBytes_toBytes value.toNat_lt

theorem fromBytes_packU64 (value : UInt64) : fromBytes (packU64 value) = value.toNat :=
  fromBytes_toBytes value.toNat_lt

theorem buildAnnouncePacket_length :
    (buildAnnouncePacket connectionId tracker transactionId).length =
      58 + tracker.infoHash.length + (utf8 tracker.peerId).length := by
  simp [buildAnnouncePacket]
  omega

/-- The parts of the packet, in their order. -/
def announceParts (connectionId : UInt64) (tracker : TrackerAnnounceContext) (transactionId : UInt32) : List Bytes :=
  [packU64 connectionId, packU32 1, packU32 transactionId, tracker.infoHash, utf8 tracker.peerId,
    packU64 tracker.downloaded, packU64 tracker.left, packU64 tracker.uploaded, packU32 tracker.event.code,
    packU32 0, packU32 0, packU32 tracker.numWanted.toUInt32, toBytes 2 tracker.port.toNat]

theorem buildAnnouncePacket_eq :
    buildAnnouncePacket connectionId tracker transactionId = (announceParts connectionId tracker transactionId).flatten := by
  simp [buildAnnouncePacket, announceParts]

theorem readRequest_of_lengths (hash : tracker.infoHash.length = 20) (peer : (utf8 tracker.peerId).length = 20) :
    readRequest (buildAnnouncePacket connectionId tracker transactionId) =
      some { intended connectionId tracker transactionId with event := tracker.event.code.toNat } := by
  have size : (buildAnnouncePacket connectionId tracker transactionId).length = 98 := by
    rw [buildAnnouncePacket_length, hash, peer]
  have part := @slice_flatten _ (announceParts connectionId tracker transactionId)
  rw [← buildAnnouncePacket_eq, announceParts] at part
  have connection := @part 0 _ rfl
  have action := @part 1 _ rfl
  have transaction := @part 2 _ rfl
  have infoHash := @part 3 _ rfl
  have peerId := @part 4 _ rfl
  have downloaded := @part 5 _ rfl
  have left := @part 6 _ rfl
  have uploaded := @part 7 _ rfl
  have event := @part 8 _ rfl
  have port := @part 12 _ rfl
  simp only [take_zero, take_succ_cons, map_cons, map_nil, sum_cons, sum_nil, packU32_length,
    packU64_length, toBytes_length, hash, peer, Nat.reduceAdd]
    at connection action transaction infoHash peerId downloaded left uploaded event port
  rw [readRequest, if_pos size]
  simp only [connection, action, transaction, infoHash, peerId, downloaded, left, uploaded, event, port,
    fromBytes_packU32, fromBytes_packU64, intended, take_of_length_le hash.le,
    fromBytes_toBytes (show tracker.port.toNat < 256 ^ 2 from tracker.port.toNat_lt)]
  rfl

theorem code_eq_eventCode (event : TrackerEvent) : event.code.toNat = eventCode event ↔ event = .none := by
  cases event <;> decide

/-- The request is that of BEP 15 exactly without an event and with both identifiers of twenty bytes. -/
theorem announce_bep15_iff (connectionId : UInt64) (tracker : TrackerAnnounceContext) (transactionId : UInt32) :
    ((buildAnnouncePacket connectionId tracker transactionId).length = 98 ∧
        readRequest (buildAnnouncePacket connectionId tracker transactionId) =
          some (intended connectionId tracker transactionId)) ↔
      tracker.event = .none ∧ tracker.infoHash.length = 20 ∧ (utf8 tracker.peerId).length = 20 := by
  constructor
  · intro follows
    obtain ⟨size, read⟩ := follows
    have total := @buildAnnouncePacket_length connectionId tracker transactionId
    have fields := read
    rw [readRequest, if_pos size, Option.some.injEq] at fields
    have hash := congrArg (fun request => request.infoHash.length) fields
    have peer := congrArg (fun request => request.peerId.length) fields
    simp only [intended, slice_length, size, length_take] at hash peer
    have lengths : tracker.infoHash.length = 20 ∧ (utf8 tracker.peerId).length = 20 := by omega
    rw [readRequest_of_lengths lengths.1 lengths.2, Option.some.injEq] at read
    have event := congrArg Request.event read
    exact ⟨(code_eq_eventCode tracker.event).mp event, lengths⟩
  · intro plain
    obtain ⟨event, hash, peer⟩ := plain
    rw [buildAnnouncePacket_length, readRequest_of_lengths hash peer, hash, peer,
      (code_eq_eventCode tracker.event).mpr event]
    exact ⟨rfl, rfl⟩

def sampleTracker (event : TrackerEvent) (infoHash : Bytes) : TrackerAnnounceContext where
  infoHash := infoHash
  peerId := text "-AZ1000-123456789012"
  port := 6881
  ip := text "10.0.0.1"
  compact := true
  noPeerId := false
  key := none
  trackerId := none
  numWanted := 50
  trackerUrl := text "udp://tracker:80"
  event := event
  interval := 2000
  minInterval := 0
  downloaded := 1
  uploaded := 2
  left := 3
  ipv6 := none

/-- A torrent that has started announces itself as completed, one that has stopped as started and one
that is completed as stopped.  With a hash of 32 bytes the request is too long. -/
theorem announce_misread :
    (readRequest (buildAnnouncePacket 5 (sampleTracker .started (replicate 20 9)) 7)).map Request.event =
        some (eventCode .completed) ∧
      (readRequest (buildAnnouncePacket 5 (sampleTracker .stopped (replicate 20 9)) 7)).map Request.event =
        some (eventCode .started) ∧
      (readRequest (buildAnnouncePacket 5 (sampleTracker .completed (replicate 20 9)) 7)).map Request.event =
        some (eventCode .stopped) ∧
      (buildAnnouncePacket 5 (sampleTracker .none (replicate 32 9)) 7).length = 110 := by
  decide +kernel

end Layout

section Untrusted

variable {transactionId : UInt32} {reply : Bytes} {header action : Nat}

/-- The reply has this action and the transaction id of the request. -/
def Answers (transactionId : UInt32) (action : Nat) (reply : Bytes) : Prop :=
  unpackU32 reply 0 = some action ∧ unpackU32 reply 4 = some transactionId.toNat

/-- The reading returns, and accepts only an answer to the request with a whole header. -/
def Guarded (outcome : Outcome α) (transactionId : UInt32) (action header : Nat) (reply : Bytes) : Prop :=
  outcome ≠ .panic ∧ ∀ value, outcome = .ok value → Answers transactionId action reply ∧ header ≤ reply.length

theorem unpack_of_le {width offset : Nat} (fits : offset + width ≤ reply.length) :
    unpack width reply offset = some (fromBytes (slice reply offset width)) := if_pos fits

theorem unpack_of_lt {width offset : Nat} (short : reply.length < offset + width) : unpack width reply offset = none :=
  if_neg (Nat.not_le.mpr short)

theorem headerNumbers_of_le (long : 20 ≤ reply.length) : ∃ numbers, headerNumbers reply = some numbers := by
  have first : unpackU32 reply 8 = some _ := unpack_of_le (by omega)
  have second : unpackU32 reply 12 = some _ := unpack_of_le (by omega)
  have third : unpackU32 reply 16 = some _ := unpack_of_le long
  exact ⟨_, by rw [headerNumbers, first, second, third]; rfl⟩

theorem headerNumbers_of_lt (short : reply.length < 20) : headerNumbers reply = none := by
  have third : unpackU32 reply 16 = none := unpack_of_lt short
  rw [headerNumbers, third]
  cases unpackU32 reply 8 <;> cases unpackU32 reply 12 <;> rfl

theorem guarded_err {reason : BitTorrentError} :
    Guarded (Outcome.err reason : Outcome α) transactionId action header reply :=
  ⟨(nomatch ·), fun _ impossible => (nomatch impossible)⟩

theorem not_guarded_panic : ¬Guarded (Outcome.panic : Outcome α) transactionId action header reply :=
  fun guarded => guarded.1 rfl

theorem guarded_ok_iff {value : α} :
    Guarded (.ok value) transactionId action header reply ↔
      Answers transactionId action reply ∧ header ≤ reply.length := by
  simp [Guarded]

/-- The shared start is safe on eight bytes, and hands on only what answers the request. -/
theorem checkReply_guarded_iff {mismatch : String} {next : Nat → Outcome α} {expected : Nat} :
    Guarded (checkReply mismatch transactionId reply next) transactionId expected header reply ↔
      8 ≤ reply.length ∧
        ∀ action, Answers transactionId action reply → Guarded (next action) transactionId expected header reply := by
  rw [checkReply]
  rcases Nat.lt_or_ge reply.length 8 with short | long
  · have missing : unpackU32 reply 4 = none := unpack_of_lt short
    rw [missing]
    exact iff_of_false not_guarded_panic fun whole => absurd whole.1 (Nat.not_le.mpr short)
  · obtain ⟨action, first⟩ : ∃ action, unpackU32 reply 0 = some action :=
      ⟨_, unpack_of_le (show 0 + 4 ≤ reply.length by omega)⟩
    obtain ⟨transaction, second⟩ : ∃ transaction, unpackU32 reply 4 = some transaction := ⟨_, unpack_of_le long⟩
    simp only [Answers, first, second, Option.some.injEq, and_iff_right long]
    by_cases same : transactionId.toNat = transaction
    · simp [same]
    · rw [if_pos same]
      exact iff_of_true guarded_err fun _ answers => absurd answers.2.symm same

theorem connectReply_guarded_iff :
    Guarded (connectReply transactionId reply) transactionId 0 16 reply ↔
      8 ≤ reply.length ∧ (Answers transactionId 0 reply → 16 ≤ reply.length) := by
  rw [connectReply, checkReply_guarded_iff]
  refine and_congr_right fun _ => ?_
  constructor
  · intro guarded answers
    have accepts := guarded 0 answers
    by_contra short
    have missing : unpackU64 reply 8 = none := unpack_of_lt (Nat.not_le.mp short)
    rw [missing] at accepts
    exact not_guarded_panic accepts
  · intro whole action answers
    split
    case isTrue zero =>
      cases zero
      have read : unpackU64 reply 8 = some _ := unpack_of_le (whole answers)
      rw [read]
      exact guarded_ok_iff.mpr ⟨answers, whole answers⟩
    case isFalse => split <;> exact guarded_err

theorem announceReply_guarded_iff {tracker : TrackerAnnounceContext} {isIpv6Socket : Bool} :
    Guarded (announceReply tracker isIpv6Socket transactionId reply) transactionId 1 20 reply ↔
      8 ≤ reply.length ∧ (Answers transactionId 1 reply → 20 ≤ reply.length) ∧ ¬Answers transactionId 3 reply := by
  rw [announceReply, checkReply_guarded_iff]
  refine and_congr_right fun _ => ?_
  constructor
  · intro guarded
    constructor
    · intro answers
      have accepts := guarded 1 answers
      by_contra short
      rw [headerNumbers_of_lt (Nat.not_le.mp short)] at accepts
      exact not_guarded_panic accepts
    · intro answers
      have accepts := guarded 3 answers
      rw [if_neg (by decide), if_pos rfl, guarded_ok_iff] at accepts
      exact absurd (Option.some.inj (answers.1.symm.trans accepts.1.1)) (by decide)
  · intro whole action answers
    split
    case isTrue one =>
      cases one
      obtain ⟨numbers, read⟩ := headerNumbers_of_le (whole.1 answers)
      rw [read]
      exact guarded_ok_iff.mpr ⟨answers, whole.1 answers⟩
    case isFalse =>
      split
      case isTrue three =>
        cases three
        exact absurd answers whole.2
      case isFalse => exact guarded_err

theorem scrapeReply_guarded_iff :
    Guarded (scrapeReply transactionId reply) transactionId 2 20 reply ↔ 8 ≤ reply.length := by
  rw [scrapeReply, checkReply_guarded_iff]
  refine and_iff_left fun action answers => ?_
  split
  case isTrue two =>
    cases two
    split
    case isTrue => exact guarded_err
    case isFalse long =>
      obtain ⟨numbers, read⟩ := headerNumbers_of_le (Nat.not_lt.mp long)
      rw [read]
      exact guarded_ok_iff.mpr ⟨answers, Nat.not_lt.mp long⟩
  case isFalse => split <;> exact guarded_err

/-- When the reading of each reply returns, and accepts only what it should. -/
theorem replies_guarded_iff (tracker : TrackerAnnounceContext) (isIpv6Socket : Bool) (transactionId : UInt32)
    (reply : Bytes) :
    (Guarded (connectReply transactionId reply) transactionId 0 16 reply ↔
        8 ≤ reply.length ∧ (Answers transactionId 0 reply → 16 ≤ reply.length)) ∧
      (Guarded (announceReply tracker isIpv6Socket transactionId reply) transactionId 1 20 reply ↔
        8 ≤ reply.length ∧ (Answers transactionId 1 reply → 20 ≤ reply.length) ∧ ¬Answers transactionId 3 reply) ∧
      (Guarded (scrapeReply transactionId reply) transactionId 2 20 reply ↔ 8 ≤ reply.length) :=
  ⟨connectReply_guarded_iff, announceReply_guarded_iff, scrapeReply_guarded_iff⟩

/-- An empty datagram is a panic for all three, a short answer one for two of them, and an error
reply is accepted by the announce. -/
theorem replies_panic :
    connectReply 7 [] = .panic ∧ announceReply (sampleTracker .none []) false 7 [] = .panic ∧ scrapeReply 7 [] = .panic ∧
      connectReply 7 (packU32 0 ++ packU32 7) = .panic ∧
      announceReply (sampleTracker .none []) false 7 (packU32 1 ++ packU32 7) = .panic ∧
      announceReply (sampleTracker .none []) false 7 (packU32 3 ++ packU32 7) = .ok { failure := true } := by
  decide +kernel

end Untrusted

end UdpAnnouncer

end BitTorrent
