import BitTorrent.Core.ProcessBlock

/-! # The messages that move blocks

The `Piece` and `Request` arms of `handle_peer_message` in `network/peer.rs`.  The clock of
the reservations and the latency profiler it feeds, the log and the listeners are left out.
-/

namespace BitTorrent

/-- What the two arms read or write of a peer. -/
structure Peer where
  ip : String
  amChoking : Bool
  supportsFastExtension : Bool
  outstandingRequestsCount : Nat
  bytesDownloadedInInterval : Nat
  bytesUploadedInInterval : Nat
  reservedBlocks : List (Nat × Nat)
  suggestedPieces : List Nat
  allowedFastPieces : List Nat

inductive PeerAction where
  | sendPiece (index begin_ : Nat) (block : Bytes)
  | sendReject (index begin_ length : Nat)
  | broadcastCancel (index begin_ length : Nat) (blockIndex : Option Nat)
  | sendExtended (extId : Nat) (payload : Bytes)
deriving DecidableEq

structure RequestMessage where
  index : UInt32
  begin_ : UInt32
  length : UInt32

namespace Peer

variable {σ : Type} (storage : BlockStorage σ) (digests : Digests)

section Upload

-- `generate_allowed_fast_set` of `utils/util.rs`: count, number of pieces, info hash, address
variable (generateAllowedFastSet : Nat → Nat → Bytes → String → List Nat) (peer : Peer)

def isPeerAllowedFast (context : TorrentContext) (piece : Nat) : Bool :=
  if !peer.supportsFastExtension || context.numberOfPieces = 0 then false
  else (generateAllowedFastSet 10 context.numberOfPieces context.infoHash peer.ip).contains piece

def canServe (context : TorrentContext) (index : Nat) : Bool :=
  (!peer.amChoking ||
      (peer.supportsFastExtension && peer.isPeerAllowedFast generateAllowedFastSet context index)) &&
    context.isPieceLocal index && context.canUploadPieceToPeer peer.ip index

/-- The refusal that only a peer with the fast extension is told. -/
def rejection (request : RequestMessage) : List PeerAction :=
  if peer.supportsFastExtension then
    [.sendReject request.index.toNat request.begin_.toNat request.length.toNat]
  else []

/-- The `Request` arm.  The count that `read_block` returns is not looked at. -/
def handleRequest (context : TorrentContext) (state : σ) (request : RequestMessage) :
    Peer × TorrentContext × σ × List PeerAction :=
  let index := request.index.toNat
  let begin_ := request.begin_.toNat
  let length := request.length.toNat
  if peer.canServe generateAllowedFastSet context index then
    match storage.readBlock state (index * context.pieceLength + begin_) (List.replicate length 0) with
    | (state, .ok (_, block)) =>
      ({ peer with bytesUploadedInInterval := peer.bytesUploadedInInterval + length },
        { context with totalBytesUploaded := (context.totalBytesUploaded + length) % u64Size },
        state, [.sendPiece index begin_ block])
    | (state, .error _) => (peer, context, state, peer.rejection request)
  else (peer, context, state, peer.rejection request)

end Upload

end Peer

end BitTorrent
