import BitTorrent.Utils.Hex

/-! # Announces

The types of `network/tracker.rs` that the announcers share, and `network/peer_details.rs`.
-/

namespace BitTorrent

structure PeerDetails where
  infoHash : Bytes
  peerId : Option Text
  ip : Text
  port : UInt16
deriving DecidableEq

inductive TrackerEvent where
  | none
  | started
  | stopped
  | completed
deriving DecidableEq

def TrackerEvent.asStr : TrackerEvent → Text
  | none => []
  | started => text "started"
  | stopped => text "stopped"
  | completed => text "completed"

/-- `event as u32`, the position of the variant. -/
def TrackerEvent.code : TrackerEvent → UInt32
  | none => 0
  | started => 1
  | stopped => 2
  | completed => 3

structure AnnounceResponse where
  announceCount : Nat := 0
  failure : Bool := false
  statusMessage : Text := []
  interval : Nat := 2000
  minInterval : Nat := 0
  trackerId : Option Text := none
  complete : Nat := 0
  incomplete : Nat := 0
  peerList : List PeerDetails := []
deriving DecidableEq

structure ScrapeResponse where
  complete : Nat
  downloaded : Nat
  incomplete : Nat
deriving DecidableEq

/-- What an announce is made of, without the client that sends it. -/
structure TrackerAnnounceContext where
  infoHash : Bytes
  peerId : Text
  port : UInt16
  ip : Text
  compact : Bool
  noPeerId : Bool
  key : Option Text
  trackerId : Option Text
  numWanted : UInt64
  trackerUrl : Text
  event : TrackerEvent
  interval : Nat
  minInterval : Nat
  downloaded : UInt64
  uploaded : UInt64
  left : UInt64
  ipv6 : Option Text

end BitTorrent
