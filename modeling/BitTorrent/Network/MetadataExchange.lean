import BitTorrent.Library.Runs
import BitTorrent.Network.Peer
import BitTorrent.Utils.Bencode

/-! # Fetching the metadata of a magnet link

The extension handshake and the `ut_metadata` messages of `network/peer.rs`, and
`handle_magnet_bootstrap` of `session/worker.rs`.  Of the context and of a peer only what
these read or write is modelled; peer exchange and hole punching do not touch it.
-/

namespace BitTorrent

open Bencode Chunks Runs

def metadataBlock : Nat := 16384

/-- Times are in seconds. -/
structure MagnetContext where
  infoHash : Bytes
  metadataSize : Option Nat
  metadataPieces : Std.TreeMap Nat Bytes
  requestedMetadataPieces : Std.TreeMap Nat Nat
  infoDictBytes : Option Bytes
  metadataRequestTimeoutSecs : Nat

structure MagnetPeer where
  supportsExtensions : Bool
  extensionIds : Bytes → Option Nat
  metadataSize : Option Nat

namespace MagnetContext

def new (infoHash : Bytes) (metadataRequestTimeoutSecs : Nat) : MagnetContext where
  infoHash
  metadataSize := none
  metadataPieces := ∅
  requestedMetadataPieces := ∅
  infoDictBytes := none
  metadataRequestTimeoutSecs

section Messages

/-- One entry of the `m` dictionary of a handshake. -/
def registerExtension (ids : Bytes → Option Nat) (entry : Bytes × BNode) : Bytes → Option Nat :=
  match entry.2.asNumberBytes.bind (parseUnsigned 256) with
  | some id => if ByteArray.validateUTF8 ⟨entry.1.toArray⟩ then Function.update ids entry.1 (some id) else ids
  | none => ids

def adoptSize (peer : MagnetPeer) (context : MagnetContext) (size : Option Nat) : MagnetPeer × MagnetContext :=
  match size with
  | some size => ({ peer with metadataSize := some size }, { context with metadataSize := some size })
  | none => (peer, context)

def handleHandshake (peer : MagnetPeer) (context : MagnetContext) (payload : Bytes) : MagnetPeer × MagnetContext :=
  match decodePartial payload with
  | .error _ => (peer, context)
  | .ok (node, _) =>
    let peer :=
      match node.dictGet (ascii "m") with
      | some (.dictionary entries) =>
        { peer with extensionIds := entries.foldl registerExtension peer.extensionIds }
      | _ => peer
    let sizeNode := (node.dictGet (ascii "metadata_size")).or
      ((node.dictGet (ascii "m")).bind fun m => m.dictGet (ascii "metadata_size"))
    adoptSize peer context ((sizeNode.bind BNode.asNumberBytes).bind (parseUnsigned u64Size))

/-- The bytes of a data message that are kept. -/
def expectedLength (context : MagnetContext) (piece : Nat) : Nat :=
  match context.metadataSize with
  | some total =>
    if piece * metadataBlock < total then min (total - piece * metadataBlock) metadataBlock else metadataBlock
  | none => metadataBlock

def metadataExtId (peer : MagnetPeer) : Nat := (peer.extensionIds (ascii "ut_metadata")).getD 1

/-- The answer to a request: the piece, a rejection while the metadata is not known, or nothing
beyond its end. -/
def answerRequest (peer : MagnetPeer) (context : MagnetContext) (piece : Nat) : List PeerAction :=
  match context.infoDictBytes with
  | none =>
    [.sendExtended (metadataExtId peer) (ascii ("d8:msg_typei2e5:piecei" ++ toString piece ++ "ee"))]
  | some metadata =>
    if piece * metadataBlock < metadata.length then
      let header := ascii ("d8:msg_typei1e5:piecei" ++ toString piece ++ "e10:total_sizei" ++
        toString metadata.length ++ "ee")
      [.sendExtended (metadataExtId peer) (header ++ slice metadata (piece * metadataBlock) metadataBlock)]
    else []

def handleMetadataMessage (peer : MagnetPeer) (context : MagnetContext) (payload : Bytes) :
    MagnetPeer × MagnetContext × List PeerAction :=
  match decodePartial payload with
  | .error _ => (peer, context, [])
  | .ok (node, consumed) =>
    match node.unsignedAt (ascii "msg_type") 256, node.unsignedAt (ascii "piece") u32Size with
    | some 1, some piece =>
      let sizeNode := (node.dictGet (ascii "total_size")).or (node.dictGet (ascii "metadata_size"))
      let (peer, context) := adoptSize peer context
        ((sizeNode.bind BNode.asNumberBytes).bind (parseUnsigned u64Size))
      let pieceBytes := (payload.drop consumed).take (context.expectedLength piece)
      (peer, { context with metadataPieces := context.metadataPieces.insert piece pieceBytes }, [])
    | some 2, some piece =>
      (peer, { context with
        requestedMetadataPieces := context.requestedMetadataPieces.erase piece }, [])
    | some 0, some piece => (peer, context, context.answerRequest peer piece)
    | _, _ => (peer, context, [])

def handleExtended (peer : MagnetPeer) (context : MagnetContext) (extId : Nat) (payload : Bytes) :
    MagnetPeer × MagnetContext × List PeerAction :=
  if extId = 0 then
    let (peer, context) := context.handleHandshake peer payload
    (peer, context, [])
  else if extId = 1 ∨ peer.extensionIds (ascii "ut_metadata") = some extId then
    context.handleMetadataMessage peer payload
  else (peer, context, [])

end Messages

section Bootstrap

variable (digests : Digests)

/-- `(size + 16383) / 16384` in `usize`. -/
def numPieces (size : Nat) : Nat := (size + 16383) % u64Size / metadataBlock

variable (context : MagnetContext)

def isRequested (now piece : Nat) : Bool :=
  match context.requestedMetadataPieces[piece]? with
  | some asked => decide (now - asked < max context.metadataRequestTimeoutSecs 1)
  | none => false

/-- The piece may be asked for: it is neither there nor on its way. -/
def isOpen (now piece : Nat) : Bool :=
  !context.metadataPieces.contains piece && !context.isRequested now piece

def requestPiece (peer : MagnetPeer) (context : MagnetContext) (now : Nat) : Option (Nat × Nat) :=
  if peer.supportsExtensions then
    (peer.extensionIds (ascii "ut_metadata")).bind fun extId =>
      match context.metadataSize with
      | some size =>
        if 0 < numPieces size ∧ context.isOpen now 0 then some (0, extId)
        else ((List.range (numPieces size % u32Size)).find? (context.isOpen now)).map fun piece => (piece, extId)
      | none => if context.isOpen now 0 then some (0, extId) else none
  else none

def matchesHash (infoHash assembled : Bytes) : Bool :=
  if infoHash.length = 32 then decide ((digests.sha256 assembled).toList = infoHash)
  else decide ((digests.sha1 assembled).toList = infoHash)

def assemble (size : Nat) : Bytes :=
  ((List.range (numPieces size % u32Size)).flatMap fun piece =>
    (context.metadataPieces[piece]?).getD []).take size

/-- What one round of the bootstrap did: the request it sent, the bytes it tried to switch to,
and whether the peer loop ends. -/
structure Bootstrapped where
  context : MagnetContext
  sent : Option (Nat × Bytes)
  tried : Option Bytes
  outcome : Outcome Bool

/-- The second half: switch to the metadata when all its pieces are there.  The outcome of
`transition_from_metadata`, which parses the bytes and sets up the files, is a parameter.
Reserving more than half of the address space is a panic. -/
def tryTransition (transitionFromMetadata : Bytes → Result Unit) (context : MagnetContext)
    (sent : Option (Nat × Bytes)) : Bootstrapped :=
  match context.metadataSize with
  | none => ⟨context, sent, none, .ok false⟩
  | some size =>
    if context.metadataPieces.size = numPieces size ∧ context.infoDictBytes = none then
      if 2 ^ 63 ≤ size then ⟨context, sent, none, .panic⟩
      else
        let assembled := context.assemble size
        if matchesHash digests context.infoHash assembled then
          match transitionFromMetadata assembled with
          | .ok () => ⟨{ context with infoDictBytes := some assembled }, sent, some assembled, .ok false⟩
          | .error _ => ⟨context, sent, some assembled, .ok true⟩
        else
          ⟨{ context with metadataPieces := ∅, requestedMetadataPieces := ∅ }, sent, none, .ok false⟩
    else ⟨context, sent, none, .ok false⟩

/-- `delivered` tells whether a request that is sent reaches the socket. -/
def handleMagnetBootstrap (transitionFromMetadata : Bytes → Result Unit) (peer : MagnetPeer)
    (context : MagnetContext) (now : Nat) (delivered : Bool) : Bootstrapped :=
  match context.requestPiece peer now with
  | none => context.tryTransition digests transitionFromMetadata none
  | some (piece, extId) =>
    let context := { context with
      requestedMetadataPieces := context.requestedMetadataPieces.insert piece now }
    let sent := some (extId, ascii ("d8:msg_typei0e5:piecei" ++ toString piece ++ "ee"))
    if delivered then context.tryTransition digests transitionFromMetadata sent
    else ⟨context, sent, none, .ok true⟩

end Bootstrap

end MagnetContext

/-- A magnet link with all the peers it has met. -/
structure MagnetSwarm where
  context : MagnetContext
  peers : String → MagnetPeer

inductive MagnetEvent where
  | extended (ip : String) (extId : Nat) (payload : Bytes)
  | bootstrap (transitionFromMetadata : Bytes → Result Unit) (ip : String) (now : Nat)
      (delivered : Bool)

def MagnetSwarm.step (digests : Digests) (swarm : MagnetSwarm) : MagnetEvent → MagnetSwarm
  | .extended ip extId payload =>
    let (peer, context, _) := swarm.context.handleExtended (swarm.peers ip) extId payload
    { context, peers := Function.update swarm.peers ip peer }
  | .bootstrap transitionFromMetadata ip now delivered =>
    { swarm with
      context := (swarm.context.handleMagnetBootstrap digests transitionFromMetadata (swarm.peers ip) now
        delivered).context }

end BitTorrent
