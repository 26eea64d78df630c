import BitTorrent.Library.Chunks
import BitTorrent.Utils.IpText

/-! # Compact lists of endpoints

Addresses and ports one after the other, as trackers, peers and nodes exchange them.
-/

namespace BitTorrent

open Chunks BigEndian List

/-- An address of four or sixteen octets and a port. -/
abbrev Endpoint (size : Nat) := List.Vector UInt8 size × UInt16

namespace Endpoint

variable {size : Nat}

def toChunk (endpoint : Endpoint size) : List.Vector UInt8 (size + 2) :=
  ⟨endpoint.1.toList ++ toBytes 2 endpoint.2.toNat, by simp⟩

def ofChunk (chunk : List.Vector UInt8 (size + 2)) : Endpoint size :=
  (⟨chunk.toList.take size, by simp⟩, UInt16.ofNat (fromBytes (chunk.toList.drop size)))

theorem ofChunk_toChunk (endpoint : Endpoint size) : ofChunk endpoint.toChunk = endpoint := by
  obtain ⟨octets, port⟩ := endpoint
  have front : (octets.toList ++ toBytes 2 port.toNat).take size = octets.toList :=
    take_left' octets.toList_length
  have back : (octets.toList ++ toBytes 2 port.toNat).drop size = toBytes 2 port.toNat :=
    drop_left' octets.toList_length
  simp only [ofChunk, toChunk, List.Vector.toList_mk, front, back,
    fromBytes_toBytes (show port.toNat < 256 ^ 2 from port.toNat_lt), UInt16.ofNat_toNat]
  rfl

def compact (endpoints : List (Endpoint size)) : Bytes := endpoints.flatMap fun endpoint => endpoint.toChunk.toList

/-- The endpoints of a compact list.  Bytes that do not make a whole entry are left. -/
def ofCompact (size : Nat) (bytes : Bytes) : List (Endpoint size) := (chunksExact (size + 2) bytes).map ofChunk

theorem ofCompact_compact (endpoints : List (Endpoint size)) : ofCompact size (compact endpoints) = endpoints := by
  have parts : compact endpoints = ((endpoints.map toChunk).map List.Vector.toList).flatten := by
    rw [compact, map_map, flatMap_def]
    rfl
  have inverse : ofChunk ∘ toChunk = (id : Endpoint size → Endpoint size) := funext ofChunk_toChunk
  rw [ofCompact, parts, chunksExact_flatten (Nat.succ_pos _), map_map, inverse, map_id]

end Endpoint

open Endpoint IpText

def decodeCompactIpv4Peers (peers : Bytes) (offset : Nat) : List (Text × UInt16) :=
  (ofCompact 4 (peers.drop offset)).map fun endpoint => (ipv4Text endpoint.1, endpoint.2)

def decodeCompactIpv6Peers (peers : Bytes) (offset : Nat) : List (Text × UInt16) :=
  (ofCompact 16 (peers.drop offset)).map fun endpoint => (ipv6Text endpoint.1, endpoint.2)

end BitTorrent
