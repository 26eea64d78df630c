import BitTorrent.Core.HashAnswers
import BitTorrent.Network.PeerNetwork
import BitTorrent.Network.Pex
import BitTorrent.Session.Availability

/-! # What one client sends and another one reads

The messages that the client sends of its own accord or in answer to a peer, against the limits of
its own reader.
-/

namespace BitTorrent

open Bencode Chunks PeerNetwork PeerMessage List UInt32

/-- The buffer of `run_peer_loop`. -/
def readBufferLen : Nat := 131072

variable {payload : Bytes}

namespace PeerMessage

variable {message : PeerMessage} {control : HashControl} {begin_ index : UInt32}

/-- Another client reads the message, in whatever parts it comes. -/
def Understood (message : PeerMessage) : Prop :=
  ∀ rest script, (∀ event ∈ script, ReadEvent.Delivers event) → message.encode.length ≤ script.length →
    ∃ left, readMessage readBufferLen ⟨message.encode ++ rest, script⟩ = some (.ok message, ⟨rest, left⟩)

theorem understood_iff : message.Understood ↔
    message.body.length ≤ maxWireMessageLen ∧ message.BlockFits ∧ message.WholeHashes := by
  constructor
  · intro understood
    have delivers : ∀ event ∈ replicate message.encode.length (ReadEvent.ready 1), event.Delivers := by
      intro event member
      rw [eq_of_mem_replicate member]
      exact Nat.zero_lt_one
    obtain ⟨left, ran⟩ := understood [] _ delivers length_replicate.ge
    rcases (readMessage_eq_ok ran).2 with rfl | ⟨short, accepted⟩
    · exact ⟨Nat.zero_le _, trivial, trivial⟩
    · exact ⟨short, fits_of_accept accepted⟩
  · rintro ⟨short, block, whole⟩ rest script delivers enough
    exact readMessage_delivered short (short.trans (by decide)) block whole delivers enough

theorem understood_bitfield {bits : Bytes} : (bitfield bits).Understood ↔ bits.length < maxWireMessageLen := by
  rw [understood_iff]
  exact ⟨And.left, fun short => ⟨short, trivial, trivial⟩⟩

theorem understood_piece {block : Bytes} : (piece index begin_ block).Understood ↔ block.length ≤ blockSize := by
  rw [understood_iff]
  refine ⟨fun fits => fits.2.1, fun short => ⟨?_, short, trivial⟩⟩
  have limit : blockSize + 9 ≤ maxWireMessageLen := by decide
  simp only [body, length_cons, length_append, u32Bytes_length]
  omega

theorem understood_extended {extId : UInt8} :
    (extended extId payload).Understood ↔ payload.length + 2 ≤ maxWireMessageLen := by
  rw [understood_iff]
  exact ⟨And.left, fun short => ⟨short, trivial, trivial⟩⟩

theorem understood_hashes {nodes : Bytes} {number : Nat} (whole : nodes.length = 32 * number) :
    (hashes control nodes).Understood ↔ number ≤ 1022 := by
  have limit : maxWireMessageLen = 32768 := rfl
  rw [understood_iff]
  simp only [body, length_cons, length_append, controlBytes_length, whole]
  exact ⟨fun fits => by omega, fun few => ⟨by omega, trivial, number, whole⟩⟩

theorem understood_reject {length : UInt32} : (reject index begin_ length).Understood := by
  refine understood_iff.mpr ⟨?_, trivial, trivial⟩
  simp only [body, length_cons, length_append, u32Bytes_length]
  decide

theorem understood_hashReject : (hashReject control).Understood := by
  refine understood_iff.mpr ⟨?_, trivial, trivial⟩
  rw [body, length_cons, controlBytes_length]
  decide

end PeerMessage

/-- The message that `run_peer_loop` makes of an action. -/
def PeerAction.message : PeerAction → PeerMessage
  | .sendPiece index begin_ block => .piece (ofNat index) (ofNat begin_) block
  | .sendReject index begin_ length => .reject (ofNat index) (ofNat begin_) (ofNat length)
  | .broadcastCancel index begin_ length _ => .cancel (ofNat index) (ofNat begin_) (ofNat length)
  | .sendExtended extId payload => .extended (UInt8.ofNat extId) payload

/-- What makes the client send something to a peer.  The metadata is a `Vec`, whose length is a
`usize`. -/
inductive Occasion (σ : Type) where
  | announcement (kind : Announcement) (supportsFastExtension : Bool) (context : TorrentContext)
  | request (peer : Peer) (context : TorrentContext) (state : σ) (message : RequestMessage)
  | hashRequest (service : HashService) (order : List Nat) (control : HashControl)
  | extended (peer : MagnetPeer) (context : MagnetContext) (extId : Nat) (payload : Bytes)
      (representable : ∀ metadata, context.infoDictBytes = some metadata → metadata.length < u64Size)
  | exchange (extId : UInt8) (settings : PexSettings) (swarm : List SwarmPeer) (sentPeers : List (Text × UInt16))
      (excludeIp : Option Text)

namespace Occasion

variable {σ : Type} (store : ByteStore σ) (sha256 : Bytes → Hash UInt8)
  (generateAllowedFastSet : Nat → Nat → Bytes → String → List Nat)
  (parseIpv4Octets : Text → Option (List.Vector UInt8 4)) (parseIpv6Octets : Text → Option (List.Vector UInt8 16))

def hashAnswer (control : HashControl) : Except Unit Bytes → PeerMessage
  | .ok nodes => .hashes control nodes
  | .error _ => .hashReject control

def emitted : Occasion σ → List PeerMessage
  | announcement kind supportsFastExtension context => (context.availability kind supportsFastExtension).toList
  | request peer context state message =>
    (peer.handleRequest store.toBlockStorage generateAllowedFastSet context state message).2.2.2.map PeerAction.message
  | hashRequest service order control =>
    [hashAnswer control (service.handleHashRequest sha256 order control.piecesRoot control.baseLayer.toNat
      control.index.toNat control.length.toNat control.proofLayers.toNat).2]
  | extended peer context extId payload _ => (context.handleExtended peer extId payload).2.2.map PeerAction.message
  | exchange extId settings swarm sentPeers excludeIp =>
    let (message, _) := PexMessage.generatePexMessage settings swarm sentPeers excludeIp
    if message.isEmpty then [] else [.extended extId (message.encode parseIpv4Octets parseIpv6Octets)]

def sendsBitfield (kind : Announcement) (supportsFastExtension : Bool) (context : TorrentContext) : Bool :=
  !context.hidesPieces kind && decide (context.numberOfPieces ≠ 0) &&
    (!supportsFastExtension || !context.announcesSeed && !context.announcesEmpty)

/-- A request that is served: the piece may be uploaded, and the storage has the bytes. -/
def serves (peer : Peer) (context : TorrentContext) (state : σ) (request : RequestMessage) : Bool :=
  peer.canServe generateAllowedFastSet context request.index.toNat &&
    (store.readBlock state (request.index.toNat * context.pieceLength + request.begin_.toNat)
      (replicate request.length.toNat 0)).2.isOk

/-- The sizes that the reader of another client allows. -/
def WithinLimits : Occasion σ → Prop
  | announcement kind supportsFastExtension context =>
    sendsBitfield kind supportsFastExtension context = true →
      context.bits.bitfield.length < maxWireMessageLen
  | request peer context state message =>
    serves store generateAllowedFastSet peer context state message = true → message.length.toNat ≤ blockSize
  | hashRequest service order control =>
    ∀ layers, service.answeringLayers sha256 order control.piecesRoot control.baseLayer.toNat control.index.toNat
        control.length.toNat = some layers →
      answerSize layers control.baseLayer.toNat control.length.toNat control.proofLayers.toNat ≤ 1022
  | extended .. => True
  | exchange .. => True

section Sizes

variable {store sha256 generateAllowedFastSet parseIpv4Octets parseIpv6Octets}

theorem bitfield_understood (context : TorrentContext) :
    (∀ message ∈ context.bitfieldMessage.toList, message.Understood) ↔
      context.bits.bitfield.length < maxWireMessageLen := by
  rw [TorrentContext.bitfieldMessage]
  split
  case isTrue empty =>
    rw [empty]
    exact ⟨fun _ => by decide, fun _ _ member => (not_mem_nil member).elim⟩
  case isFalse => rw [Option.toList_some, forall_mem_singleton, understood_bitfield]

theorem announcement_understood (kind : Announcement) (supportsFastExtension : Bool) (context : TorrentContext) :
    (∀ message ∈ (context.availability kind supportsFastExtension).toList, message.Understood) ↔
      (sendsBitfield kind supportsFastExtension context = true →
        context.bits.bitfield.length < maxWireMessageLen) := by
  have short : haveAll.Understood ∧ haveNone.Understood :=
    ⟨understood_iff.mpr ⟨by decide, trivial, trivial⟩,
      understood_iff.mpr ⟨by decide, trivial, trivial⟩⟩
  rw [TorrentContext.availability, sendsBitfield]
  cases hidden : context.hidesPieces kind with
  | true => exact ⟨fun _ sends => absurd sends Bool.false_ne_true, fun _ _ member => (not_mem_nil member).elim⟩
  | false =>
    by_cases none : context.numberOfPieces = 0
    · rw [if_pos (.inr none), decide_eq_false (not_not.mpr none)]
      exact ⟨fun _ sends => absurd sends Bool.false_ne_true, fun _ _ member => (not_mem_nil member).elim⟩
    · rw [if_neg (not_or.mpr ⟨Bool.false_ne_true, none⟩), decide_eq_true none]
      cases supportsFastExtension with
      | false => exact (bitfield_understood context).trans ⟨fun fits _ => fits, fun fits => fits rfl⟩
      | true =>
        cases context.announcesSeed with
        | true => exact ⟨fun _ sends => absurd sends Bool.false_ne_true, fun _ => forall_mem_singleton.mpr short.1⟩
        | false =>
          cases context.announcesEmpty with
          | true => exact ⟨fun _ sends => absurd sends Bool.false_ne_true, fun _ => forall_mem_singleton.mpr short.2⟩
          | false => exact (bitfield_understood context).trans ⟨fun fits _ => fits, fun fits => fits rfl⟩

theorem rejection_understood (peer : Peer) (request : RequestMessage) :
    ∀ message ∈ (peer.rejection request).map PeerAction.message, message.Understood := by
  rw [Peer.rejection]
  split
  case isTrue => exact forall_mem_singleton.mpr understood_reject
  case isFalse => exact fun _ member => (not_mem_nil member).elim

theorem request_understood (peer : Peer) (context : TorrentContext) (state : σ) (request : RequestMessage) :
    (∀ message ∈ (peer.handleRequest store.toBlockStorage generateAllowedFastSet context state request).2.2.2.map
        PeerAction.message, message.Understood) ↔
      (serves store generateAllowedFastSet peer context state request = true → request.length.toNat ≤ blockSize) := by
  have refused := rejection_understood peer request
  rw [Peer.handleRequest, serves]
  cases peer.canServe generateAllowedFastSet context request.index.toNat with
  | false => exact ⟨fun _ sends => absurd sends Bool.false_ne_true, fun _ => refused⟩
  | true =>
    rcases read : store.readBlock state (request.index.toNat * context.pieceLength + request.begin_.toNat)
      (replicate request.length.toNat 0) with ⟨after, reason | ⟨count, block⟩⟩
    · exact ⟨fun _ sends => absurd sends Bool.false_ne_true, fun _ => refused⟩
    · have size : block.length = request.length.toNat := by
        rw [store.read_ok read, FlatStore.read_length, length_replicate]
      refine forall_mem_singleton.trans (understood_piece.trans ?_)
      rw [size]
      exact ⟨fun fits _ => fits, fun fits => fits rfl⟩

theorem hashRequest_understood (service : HashService) (order : List Nat) (control : HashControl) :
    (∀ message ∈ [hashAnswer control (service.handleHashRequest sha256 order control.piecesRoot
        control.baseLayer.toNat control.index.toNat control.length.toNat control.proofLayers.toNat).2],
        message.Understood) ↔
      ∀ layers, service.answeringLayers sha256 order control.piecesRoot control.baseLayer.toNat control.index.toNat
          control.length.toNat = some layers →
        answerSize layers control.baseLayer.toNat control.length.toNat control.proofLayers.toNat ≤ 1022 := by
  have size := @HashService.handleHashRequest_size sha256 service order control.piecesRoot control.baseLayer.toNat
    control.index.toNat control.length.toNat control.proofLayers.toNat
  rw [forall_mem_singleton]
  cases answering : service.answeringLayers sha256 order control.piecesRoot control.baseLayer.toNat
      control.index.toNat control.length.toNat with
  | none =>
    rw [answering] at size
    rw [show _ = Except.error () from size]
    exact ⟨fun _ _ found => (nomatch found), fun _ => understood_hashReject⟩
  | some layers =>
    rw [answering] at size
    obtain ⟨response, answered, whole⟩ := size
    rw [answered]
    refine (understood_hashes whole).trans ⟨?_, fun fits => fits layers rfl⟩
    rintro fits _ ⟨⟩
    exact fits

theorem ascii_append (left right : String) : ascii (left ++ right) = ascii left ++ ascii right := by
  rw [ascii, String.toList_append, map_append]
  rfl

theorem ascii_toString_length {value digits : Nat} (positive : 0 < digits) (small : value < 10 ^ digits) :
    (ascii (toString value)).length ≤ digits := by
  rw [ascii, length_map, Nat.toString_eq_repr, Nat.toList_repr]
  exact (Nat.length_toDigits_le_iff (by decide) positive).mpr small

variable {context : MagnetContext} {peer : MagnetPeer} {action : PeerAction}

theorem answerRequest_length {piece : Nat}
    (representable : ∀ metadata, context.infoDictBytes = some metadata → metadata.length < u64Size)
    (small : piece < u32Size) (member : action ∈ context.answerRequest peer piece) :
    ∃ extId payload, action = .sendExtended extId payload ∧ payload.length ≤ metadataBlock + 69 := by
  have number : (ascii (toString piece)).length ≤ 10 := ascii_toString_length (by decide) (small.trans (by decide))
  rw [MagnetContext.answerRequest] at member
  split at member
  case h_1 =>
    refine ⟨_, _, mem_singleton.mp member, ?_⟩
    simp only [ascii_append, length_append]
    have texts : (ascii "d8:msg_typei2e5:piecei").length = 22 ∧ (ascii "ee").length = 2 := by decide
    omega
  case h_2 metadata known =>
    split at member
    case isFalse => exact (not_mem_nil member).elim
    case isTrue =>
      have total : (ascii (toString metadata.length)).length ≤ 20 :=
        ascii_toString_length (by decide) ((representable metadata known).trans (by decide))
      have sliced : (Chunks.slice metadata (piece * metadataBlock) metadataBlock).length ≤ metadataBlock :=
        (Chunks.slice_length _ _ _).trans_le (Nat.min_le_left _ _)
      have texts : (ascii "d8:msg_typei1e5:piecei").length = 22 ∧ (ascii "e10:total_sizei").length = 15 ∧
        (ascii "ee").length = 2 := by decide
      refine ⟨_, _, mem_singleton.mp member, ?_⟩
      simp only [ascii_append, length_append]
      omega

theorem answer_of_metadataMessage (member : action ∈ (context.handleMetadataMessage peer payload).2.2) :
    ∃ piece < u32Size, action ∈ context.answerRequest peer piece := by
  rw [MagnetContext.handleMetadataMessage] at member
  split at member
  case h_1 => exact (not_mem_nil member).elim
  case h_2 node consumed _ =>
    split at member
    case h_1 => exact (not_mem_nil member).elim
    case h_2 => exact (not_mem_nil member).elim
    case h_3 piece _ asked => exact ⟨piece, BNode.unsignedAt_lt asked, member⟩
    case h_4 => exact (not_mem_nil member).elim

theorem extended_understood {extId : Nat}
    (representable : ∀ metadata, context.infoDictBytes = some metadata → metadata.length < u64Size) :
    ∀ message ∈ (context.handleExtended peer extId payload).2.2.map PeerAction.message, message.Understood := by
  intro message member
  obtain ⟨action, taken, rfl⟩ := mem_map.mp member
  rw [MagnetContext.handleExtended] at taken
  split at taken
  case isTrue => exact (not_mem_nil taken).elim
  case isFalse =>
    split at taken
    case isFalse => exact (not_mem_nil taken).elim
    case isTrue =>
      obtain ⟨piece, small, answered⟩ := answer_of_metadataMessage taken
      obtain ⟨answerId, answer, rfl, short⟩ := answerRequest_length representable small answered
      exact understood_extended.mpr ((Nat.add_le_add_right short 2).trans (by decide))

theorem exchange_understood (extId : UInt8) (settings : PexSettings) (swarm : List SwarmPeer)
    (sentPeers : List (Text × UInt16)) (excludeIp : Option Text) :
    ∀ message ∈ emitted store sha256 generateAllowedFastSet parseIpv4Octets parseIpv6Octets
      (.exchange extId settings swarm sentPeers excludeIp), message.Understood := by
  have limited := PexMessage.limited_generate settings swarm sentPeers excludeIp
  rw [emitted]
  dsimp only
  split
  case isTrue => exact fun _ member => (not_mem_nil member).elim
  case isFalse =>
    exact forall_mem_singleton.mpr
      (understood_extended.mpr ((Nat.add_le_add_right limited.encode_length 2).trans (by decide)))

end Sizes

/-- Another client reads all that is sent, unless a bit field, the block that was asked for or a
proof is larger than its reader allows. -/
theorem understood_iff_withinLimits (occasion : Occasion σ) :
    (∀ message ∈ occasion.emitted store sha256 generateAllowedFastSet parseIpv4Octets parseIpv6Octets,
        message.Understood) ↔
      occasion.WithinLimits store sha256 generateAllowedFastSet := by
  cases occasion with
  | announcement kind supportsFastExtension context =>
    exact announcement_understood kind supportsFastExtension context
  | request peer context state message => exact request_understood peer context state message
  | hashRequest service order control => exact hashRequest_understood service order control
  | extended peer context extId payload representable =>
    exact ⟨fun _ => trivial, fun _ => extended_understood representable⟩
  | exchange extId settings swarm sentPeers excludeIp =>
    exact ⟨fun _ => trivial, fun _ => exchange_understood extId settings swarm sentPeers excludeIp⟩

/-- A piece of 32 KiB that is asked for at once. -/
def wholePiece : Occasion FaultyBytes :=
  .request ⟨"203.0.113.7", false, false, 0, 0, 0, [], [], []⟩
    ((TorrentContext.blank 32768 1 ⟨false, false, false⟩).markPieceLocal 0 true) ⟨fun _ => 0, []⟩ ⟨0, 0, 32768⟩

theorem wholePiece_not_understood :
    ¬∀ message ∈ wholePiece.emitted faultyStore (fun _ => zeroHash) (fun _ _ _ _ => []) (fun _ => none) fun _ => none,
      message.Understood := by
  intro understood
  have short := (request_understood _ _ _ _).mp understood (by decide +kernel)
  exact absurd short (by decide)

end Occasion

end BitTorrent
