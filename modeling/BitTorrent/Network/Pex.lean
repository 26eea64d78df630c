import BitTorrent.Library.BigEndian
import BitTorrent.Utils.BencodeGrammar

/-! # Peer exchange

`network/pex.rs` and `generate_pex_message` of `core/torrent_context.rs`.  The parsers of addresses
are parameters.  The swarm comes in the order in which the hash map gives it.
-/

namespace BitTorrent

open Bencode List

structure PexPeer where
  ip : Text
  port : UInt16
  flags : UInt8

structure PexMessage where
  addedV4 : List PexPeer
  droppedV4 : List (Text × UInt16)
  addedV6 : List PexPeer
  droppedV6 : List (Text × UInt16)

/-- `PeerDetails::is_ipv6`. -/
def isIpv6 (ip : Text) : Bool := ip.contains ':' && !(text "webrtc:").isPrefixOf ip

/-- What the exchange reads of a connected peer; one that is busy is passed over. -/
structure SwarmPeer where
  ip : Text
  port : UInt16
  isSeed : Bool
  lockFree : Bool

structure PexSettings where
  enablePex : Bool
  isPrivate : Bool
  enableIpv6 : Bool

namespace PexMessage

def isEmpty (message : PexMessage) : Bool :=
  message.addedV4.isEmpty && message.droppedV4.isEmpty && message.addedV6.isEmpty && message.droppedV6.isEmpty

section Encoding

variable (parseIpv4Octets : Text → Option (List.Vector UInt8 4)) (parseIpv6Octets : Text → Option (List.Vector UInt8 16))

/-- Addresses and ports, without the addresses that cannot be parsed. -/
def compactPeers {size : Nat} (parseOctets : Text → Option (List.Vector UInt8 size)) (peers : List (Text × UInt16)) :
    Bytes :=
  peers.flatMap fun peer =>
    match parseOctets peer.1 with
    | some octets => octets.toList ++ BigEndian.toBytes 2 peer.2.toNat
    | none => []

def compactAdded {size : Nat} (parseOctets : Text → Option (List.Vector UInt8 size)) (peers : List PexPeer) : Bytes :=
  compactPeers parseOctets (peers.map fun peer => (peer.ip, peer.port))

def addedFlags {size : Nat} (parseOctets : Text → Option (List.Vector UInt8 size)) (peers : List PexPeer) : Bytes :=
  peers.filterMap fun peer => (parseOctets peer.ip).map fun _ => peer.flags

/-- An entry that is left out when it is empty. -/
def optional (key : String) (bytes : Bytes) : Entries :=
  if bytes = [] then [] else [(ascii key, .string bytes)]

def entries (message : PexMessage) : Entries :=
  [(ascii "added", .string (compactAdded parseIpv4Octets message.addedV4))] ++
    optional "added.f" (addedFlags parseIpv4Octets message.addedV4) ++
    optional "added6" (compactAdded parseIpv6Octets message.addedV6) ++
    optional "added6.f" (addedFlags parseIpv6Octets message.addedV6) ++
    [(ascii "dropped", .string (compactPeers parseIpv4Octets message.droppedV4))] ++
    optional "dropped6" (compactPeers parseIpv6Octets message.droppedV6)

def encode (message : PexMessage) : Bytes :=
  Bencode.encode (.dictionary (message.entries parseIpv4Octets parseIpv6Octets))

end Encoding

/-- The first candidates, divided by their kind of address, until there is no room. -/
def divide {α : Type} (enableIpv6 : Bool) (ip : α → Text) : Nat → List α → List α × List α
  | _, [] => ([], [])
  | room, candidate :: candidates =>
    if room = 0 then ([], [])
    else if isIpv6 (ip candidate) then
      if enableIpv6 then
        let (v4, v6) := divide enableIpv6 ip (room - 1) candidates
        (v4, candidate :: v6)
      else divide enableIpv6 ip room candidates
    else
      let (v4, v6) := divide enableIpv6 ip (room - 1) candidates
      (candidate :: v4, v6)

/-- The flag for an outgoing connection is always there. -/
def pexFlags (isSeed : Bool) : UInt8 := (if isSeed then 0x02 else 0) ||| 0x10

def generatePexMessage (settings : PexSettings) (swarm : List SwarmPeer) (sentPeers : List (Text × UInt16))
    (excludeIp : Option Text) : PexMessage × List (Text × UInt16) :=
  if !settings.enablePex || settings.isPrivate then (⟨[], [], [], []⟩, [])
  else
    let seen := swarm.filter fun peer => decide (some peer.ip ≠ excludeIp) && peer.lockFree
    let newlySent := seen.map fun peer => (peer.ip, peer.port)
    let added := (seen.filter fun peer => decide (peer.ip ∉ sentPeers.map Prod.fst)).map fun peer =>
      (⟨peer.ip, peer.port, pexFlags peer.isSeed⟩ : PexPeer)
    let dropped := sentPeers.filter fun peer => decide (peer.1 ∉ newlySent.map Prod.fst)
    let (addedV4, addedV6) := divide settings.enableIpv6 PexPeer.ip 50 added
    let (droppedV4, droppedV6) := divide settings.enableIpv6 Prod.fst 50 dropped
    (⟨addedV4, droppedV4, addedV6, droppedV6⟩, newlySent)

section Size

variable {parseIpv4Octets : Text → Option (List.Vector UInt8 4)} {parseIpv6Octets : Text → Option (List.Vector UInt8 16)}
  {size : Nat} {parseOctets : Text → Option (List.Vector UInt8 size)}
  {entry : Bytes × BNode} {message : PexMessage} {bytes : Bytes}

theorem length_flatMap_le {α β : Type} {write : α → List β} {items : List α} {most : Nat}
    (each : ∀ item ∈ items, (write item).length ≤ most) : (items.flatMap write).length ≤ items.length * most := by
  rw [length_flatMap]
  refine (sum_le_card_nsmul _ most ?_).trans_eq (by rw [length_map, smul_eq_mul])
  intro length member
  obtain ⟨item, listed, rfl⟩ := mem_map.mp member
  exact each item listed

theorem compactPeers_length (peers : List (Text × UInt16)) :
    (compactPeers parseOctets peers).length ≤ peers.length * (size + 2) := by
  apply length_flatMap_le
  intro peer _
  split
  case h_1 octets _ => rw [length_append, octets.toList_length, BigEndian.toBytes_length]
  case h_2 => exact Nat.zero_le _

theorem divide_perm {α : Type} (enableIpv6 : Bool) (ip : α → Text) (room : Nat) (candidates : List α) :
    ((divide enableIpv6 ip room candidates).1 ++ (divide enableIpv6 ip room candidates).2).Perm
      ((candidates.filter fun candidate => !isIpv6 (ip candidate) || enableIpv6).take room) := by
  induction candidates generalizing room with
  | nil => simp [divide]
  | cons candidate candidates ih =>
    cases room with
    | zero => simp [divide]
    | succ room =>
      rw [divide, if_neg (Nat.succ_ne_zero room)]
      cases v6 : isIpv6 (ip candidate) with
      | false => simpa [v6] using ih room
      | true =>
        cases enableIpv6 with
        | false => simpa [v6] using ih (room + 1)
        | true => simpa [v6] using perm_middle.trans ((ih room).cons candidate)

theorem divide_length {α : Type} (enableIpv6 : Bool) (ip : α → Text) (room : Nat) (candidates : List α) :
    (divide enableIpv6 ip room candidates).1.length ≤ room ∧ (divide enableIpv6 ip room candidates).2.length ≤ room := by
  have size := (divide_perm enableIpv6 ip room candidates).length_eq
  rw [length_append, length_take] at size
  omega

theorem encodeString_length_le (short : bytes.length < 1000) :
    (encodeString bytes).length ≤ bytes.length + 4 := by
  have digits := decimal_length_le (by decide) (show bytes.length < 10 ^ 3 from short)
  rw [encodeString, length_append, length_cons]
  omega

/-- At most fifty peers of each kind. -/
structure Limited (message : PexMessage) : Prop where
  addedV4 : message.addedV4.length ≤ 50
  droppedV4 : message.droppedV4.length ≤ 50
  addedV6 : message.addedV6.length ≤ 50
  droppedV6 : message.droppedV6.length ≤ 50

theorem limited_generate (settings : PexSettings) (swarm : List SwarmPeer) (sentPeers : List (Text × UInt16))
    (excludeIp : Option Text) : (generatePexMessage settings swarm sentPeers excludeIp).1.Limited := by
  rw [generatePexMessage]
  split
  case isTrue => exact ⟨Nat.zero_le _, Nat.zero_le _, Nat.zero_le _, Nat.zero_le _⟩
  case isFalse =>
    exact ⟨(divide_length _ _ _ _).1, (divide_length _ _ _ _).1, (divide_length _ _ _ _).2, (divide_length _ _ _ _).2⟩

theorem encodePair_length_le {key : String} (shortKey : (ascii key).length ≤ 8)
    (short : bytes.length ≤ 900) : (encodePair (ascii key, .string bytes)).length ≤ 1000 := by
  have keyLength := @encodeString_length_le (ascii key) (by omega)
  have valueLength := @encodeString_length_le bytes (by omega)
  rw [encodePair, length_append, Bencode.encode]
  dsimp only
  omega

theorem mem_optional {key : String} (member : entry ∈ optional key bytes) : entry = (ascii key, .string bytes) := by
  rw [optional] at member
  split at member
  case isTrue => cases member
  case isFalse => exact mem_singleton.mp member

theorem optional_length (key : String) (bytes : Bytes) : (optional key bytes).length ≤ 1 := by
  rw [optional]
  split
  case isTrue => exact Nat.zero_le _
  case isFalse => exact le_rfl

theorem entries_length (message : PexMessage) : (message.entries parseIpv4Octets parseIpv6Octets).length ≤ 6 := by
  have flags := optional_length "added.f" (addedFlags parseIpv4Octets message.addedV4)
  have added6 := optional_length "added6" (compactAdded parseIpv6Octets message.addedV6)
  have flags6 := optional_length "added6.f" (addedFlags parseIpv6Octets message.addedV6)
  have dropped6 := optional_length "dropped6" (compactPeers parseIpv6Octets message.droppedV6)
  simp only [entries, length_append, length_singleton]
  omega

theorem Limited.entry_length (limited : message.Limited)
    (member : entry ∈ message.entries parseIpv4Octets parseIpv6Octets) : (encodePair entry).length ≤ 1000 := by
  obtain ⟨addedV4, droppedV4, addedV6, droppedV6⟩ := limited
  have added := @compactPeers_length 4 parseIpv4Octets (message.addedV4.map fun peer => (peer.ip, peer.port))
  have flags := length_filterMap_le (fun peer => (parseIpv4Octets peer.ip).map fun _ => peer.flags) message.addedV4
  have added6 := @compactPeers_length 16 parseIpv6Octets (message.addedV6.map fun peer => (peer.ip, peer.port))
  have flags6 := length_filterMap_le (fun peer => (parseIpv6Octets peer.ip).map fun _ => peer.flags) message.addedV6
  have dropped := @compactPeers_length 4 parseIpv4Octets message.droppedV4
  have dropped6 := @compactPeers_length 16 parseIpv6Octets message.droppedV6
  rw [length_map] at added added6
  simp only [entries, mem_append, mem_singleton] at member
  rcases member with ((((rfl | member) | member) | member) | rfl) | member
  · exact encodePair_length_le (by decide) (by rw [compactAdded]; omega)
  · rw [mem_optional member]
    exact encodePair_length_le (by decide) (by rw [addedFlags]; omega)
  · rw [mem_optional member]
    exact encodePair_length_le (by decide) (by rw [compactAdded]; omega)
  · rw [mem_optional member]
    exact encodePair_length_le (by decide) (by rw [addedFlags]; omega)
  · exact encodePair_length_le (by decide) (by omega)
  · rw [mem_optional member]
    exact encodePair_length_le (by decide) (by omega)

theorem Limited.encode_length (limited : message.Limited) :
    (message.encode parseIpv4Octets parseIpv6Octets).length ≤ 6002 := by
  have body : ((sortByKey (message.entries parseIpv4Octets parseIpv6Octets)).flatMap encodePair).length ≤
      (sortByKey (message.entries parseIpv4Octets parseIpv6Octets)).length * 1000 :=
    length_flatMap_le fun entry member => limited.entry_length (mem_sortByKey.mp member)
  have number : (sortByKey (message.entries parseIpv4Octets parseIpv6Octets)).length ≤ 6 :=
    (length_insertionSort _ _).trans_le message.entries_length
  rw [encode, encode_dictionary, length_append, length_cons, length_singleton]
  omega

end Size

end PexMessage

end BitTorrent
