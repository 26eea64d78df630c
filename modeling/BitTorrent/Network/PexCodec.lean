import BitTorrent.Network.CompactPeers
import BitTorrent.Network.Pex
import BitTorrent.Utils.BencodeRoundTrip
import BitTorrent.Utils.TokenRuns

/-! # Writing and reading messages of the peer exchange

`PexMessage::decode` of `network/pex.rs` and the parsers of addresses that `encode` is used with.  The
info hash that `decode` copies into every peer is left out.
-/

namespace BitTorrent

open Bencode BNode IpText Endpoint List

def parseIpv4Octets (ip : Text) : Option Ipv4Addr := parseIpv4 (trim ip)

def parseIpv6Octets (ip : Text) : Option Ipv6Addr :=
  parseIpv6 (((trim ip).dropWhile (· == '[')).reverse.dropWhile (· == ']')).reverse

namespace PexMessage

def stringAt (node : BNode) (key : String) : Option Bytes := (node.dictGet (ascii key)).bind asString

def readDropped {size : Nat} (write : List.Vector UInt8 size → Text) (node : BNode) (key : String) :
    List (Text × UInt16) :=
  match stringAt node key with
  | some bytes => (ofCompact size bytes).map fun endpoint => (write endpoint.1, endpoint.2)
  | none => []

/-- Each peer has the flags of its own position, or none. -/
def readAdded {size : Nat} (write : List.Vector UInt8 size → Text) (node : BNode) (key flagsKey : String) : List PexPeer :=
  match stringAt node key with
  | some bytes => (ofCompact size bytes).zipIdx.map fun (endpoint, index) =>
    ⟨write endpoint.1, endpoint.2, ((stringAt node flagsKey).bind fun flags => flags[index]?).getD 0⟩
  | none => []

def decode (payload : Bytes) : Result PexMessage := do
  let node ← Bencode.decode payload
  return {
    addedV4 := readAdded ipv4Text node "added" "added.f"
    droppedV4 := readDropped ipv4Text node "dropped"
    addedV6 := readAdded ipv6Text node "added6" "added6.f"
    droppedV6 := readDropped ipv6Text node "dropped6" }

variable {key : String}

section Lists

variable {size : Nat} {parse : Text → Option (List.Vector UInt8 size)} {write : List.Vector UInt8 size → Text}

/-- The endpoints of peers whose addresses can be parsed. -/
def endpoints (parse : Text → Option (List.Vector UInt8 size)) (peers : List (Text × UInt16)) : List (Endpoint size) :=
  peers.filterMap fun peer => (parse peer.1).map fun octets => (octets, peer.2)

/-- The same of added peers, with their flags. -/
def flagged (parse : Text → Option (List.Vector UInt8 size)) (peers : List PexPeer) : List (Endpoint size × UInt8) :=
  peers.filterMap fun peer => (parse peer.ip).map fun octets => ((octets, peer.port), peer.flags)

theorem compactPeers_eq (peers : List (Text × UInt16)) : compactPeers parse peers = compact (endpoints parse peers) := by
  induction peers with
  | nil => rfl
  | cons peer peers ih =>
    rw [compactPeers] at ih
    rw [compactPeers, endpoints, flatMap_cons, ih, filterMap_cons]
    cases parse peer.1 <;> rfl

theorem compactAdded_eq (peers : List PexPeer) : compactAdded parse peers = compact ((flagged parse peers).map Prod.fst) := by
  rw [compactAdded, compactPeers_eq, endpoints, filterMap_map, flagged, map_filterMap]
  simp [Function.comp_def]

theorem addedFlags_eq (peers : List PexPeer) : addedFlags parse peers = (flagged parse peers).map Prod.snd := by
  rw [addedFlags, flagged, map_filterMap]
  simp [Function.comp_def]

theorem ofCompact_nil : ofCompact size [] = [] := @ofCompact_compact size []

theorem readDropped_eq {node : BNode} {known : List (Endpoint size)}
    (found : (stringAt node key).getD [] = compact known) :
    readDropped write node key = known.map fun endpoint => (write endpoint.1, endpoint.2) := by
  have same := ofCompact_compact known
  rw [← found] at same
  rw [readDropped, ← same]
  cases stringAt node key with
  | some bytes => rfl
  | none => rw [Option.getD_none, ofCompact_nil, map_nil]

theorem readAdded_eq {node : BNode} {flagsKey : String} {known : List (Endpoint size × UInt8)}
    (found : (stringAt node key).getD [] = compact (known.map Prod.fst))
    (flags : (stringAt node flagsKey).getD [] = known.map Prod.snd) :
    readAdded write node key flagsKey = known.map fun peer => ⟨write peer.1.1, peer.1.2, peer.2⟩ := by
  have same := ofCompact_compact (known.map Prod.fst)
  have flag : ∀ index : Nat,
      ((stringAt node flagsKey).bind fun flags : Bytes => flags[index]?) = (known.map Prod.snd)[index]? := by
    intro index
    rw [← flags]
    cases stringAt node flagsKey <;> simp
  have aligned : ((known.map Prod.fst).zipIdx.map fun (endpoint, index) =>
      (⟨write endpoint.1, endpoint.2, ((known.map Prod.snd)[index]?).getD 0⟩ : PexPeer)) =
        known.map fun peer => ⟨write peer.1.1, peer.1.2, peer.2⟩ := by
    apply ext_getElem
    · simp
    · intro index _ inside
      have bound : index < known.length := by simpa using inside
      simp [getElem?_eq_getElem bound]
  rw [← found] at same
  rw [readAdded]
  simp only [flag]
  rw [← aligned, ← same]
  cases stringAt node key with
  | some bytes => rfl
  | none => rw [Option.getD_none, ofCompact_nil, zipIdx_nil, map_nil]

end Lists

section Codec

variable {message : PexMessage} {other : String} {bytes : Bytes}

def node (message : PexMessage) : BNode := .dictionary (sortByKey (message.entries parseIpv4Octets parseIpv6Octets))

theorem find_other (differ : ascii key ≠ ascii other) :
    [(ascii key, BNode.string bytes)].find? (fun entry => entry.1 == ascii other) = none := by
  rw [find?_singleton, if_neg (by simpa using differ)]

theorem find_optional (differ : ascii key ≠ ascii other) :
    (optional key bytes).find? (fun entry => entry.1 == ascii other) = none := by
  rw [optional]
  split
  case isTrue => rfl
  case isFalse => exact find_other differ

theorem find_same (key : String) (bytes : Bytes) :
    [(ascii key, BNode.string bytes)].find? (fun entry => entry.1 == ascii key) = some (ascii key, .string bytes) := by
  rw [find?_singleton, if_pos (beq_self_eq_true _)]

theorem string_optional (key : String) (bytes : Bytes) :
    ((((optional key bytes).find? (fun entry => entry.1 == ascii key)).map Prod.snd).bind asString).getD [] = bytes := by
  rw [optional]
  split
  case isTrue empty => exact empty.symm
  case isFalse =>
    rw [find_same]
    rfl

theorem strings_node (message : PexMessage) :
    (stringAt message.node "added").getD [] = compactAdded parseIpv4Octets message.addedV4 ∧
      (stringAt message.node "added.f").getD [] = addedFlags parseIpv4Octets message.addedV4 ∧
      (stringAt message.node "added6").getD [] = compactAdded parseIpv6Octets message.addedV6 ∧
      (stringAt message.node "added6.f").getD [] = addedFlags parseIpv6Octets message.addedV6 ∧
      (stringAt message.node "dropped").getD [] = compactPeers parseIpv4Octets message.droppedV4 ∧
      (stringAt message.node "dropped6").getD [] = compactPeers parseIpv6Octets message.droppedV6 := by
  simp only [stringAt, node, dictGet_sortByKey]
  simp only [dictGet, entries, find?_append]
  simp (disch := decide) only [find_other, find_optional, find_same, Option.none_or, Option.or_none, string_optional]
  exact ⟨rfl, trivial, trivial, trivial, rfl, trivial⟩

/-- The lists fit into strings that the decoder takes. -/
structure Sendable (message : PexMessage) : Prop where
  addedV4 : (flagged parseIpv4Octets message.addedV4).length * 6 ≤ maxStringLen
  droppedV4 : (endpoints parseIpv4Octets message.droppedV4).length * 6 ≤ maxStringLen
  addedV6 : (flagged parseIpv6Octets message.addedV6).length * 18 ≤ maxStringLen
  droppedV6 : (endpoints parseIpv6Octets message.droppedV6).length * 18 ≤ maxStringLen

theorem compact_length {size : Nat} (known : List (Endpoint size)) : (compact known).length = known.length * (size + 2) := by
  simp [compact, length_flatMap]

theorem mem_entries {entry : Bytes × BNode} (member : entry ∈ message.entries parseIpv4Octets parseIpv6Octets) :
    ∃ (key : String) (bytes : Bytes), entry = (ascii key, .string bytes) ∧ (ascii key).length ≤ 8 ∧
      (message.Sendable → bytes.length ≤ maxStringLen) := by
  simp only [entries, mem_append, mem_singleton] at member
  rcases member with ((((same | member) | member) | member) | same) | member
  case inl.inl.inl.inl.inl =>
    refine ⟨_, _, same, by decide, fun sendable => ?_⟩
    rw [compactAdded_eq, compact_length, length_map]
    exact sendable.addedV4
  case inl.inr =>
    refine ⟨_, _, same, by decide, fun sendable => ?_⟩
    rw [compactPeers_eq, compact_length]
    exact sendable.droppedV4
  case inr =>
    refine ⟨_, _, mem_optional member, by decide, fun sendable => ?_⟩
    rw [compactPeers_eq, compact_length]
    exact sendable.droppedV6
  case inl.inl.inl.inl.inr =>
    refine ⟨_, _, mem_optional member, by decide, fun sendable => ?_⟩
    rw [addedFlags_eq, length_map]
    exact (Nat.le_mul_of_pos_right _ (by decide)).trans sendable.addedV4
  case inl.inl.inl.inr =>
    refine ⟨_, _, mem_optional member, by decide, fun sendable => ?_⟩
    rw [compactAdded_eq, compact_length, length_map]
    exact sendable.addedV6
  case inl.inl.inr =>
    refine ⟨_, _, mem_optional member, by decide, fun sendable => ?_⟩
    rw [addedFlags_eq, length_map]
    exact (Nat.le_mul_of_pos_right _ (by decide)).trans sendable.addedV6

theorem encode_eq (message : PexMessage) : message.encode parseIpv4Octets parseIpv6Octets = spell message.node := by
  have pairs : ∀ entry ∈ sortByKey (message.entries parseIpv4Octets parseIpv6Octets), encodePair entry = spellPair entry := by
    intro entry member
    obtain ⟨key, bytes, rfl, _⟩ := mem_entries (mem_sortByKey.mp member)
    rw [encodePair, spellPair, Bencode.encode, spell]
  rw [encode, encode_dictionary, node, spell_dictionary, flatMap_congr pairs]

theorem delimited_node (message : PexMessage) : Delimited message.node := by
  refine .dictionary fun entry member => ?_
  obtain ⟨key, bytes, rfl, _⟩ := mem_entries (mem_sortByKey.mp member)
  exact .string bytes

theorem Sendable.proper (sendable : message.Sendable) : Proper maxDepth message.node := by
  intro entry member
  obtain ⟨key, bytes, rfl, shortKey, short⟩ := mem_entries (mem_sortByKey.mp member)
  exact ⟨shortKey.trans (by decide), short sendable⟩

theorem string_length {node : BNode} (good : node.fits = true) :
    ((stringAt node key).getD []).length ≤ maxStringLen := by
  cases found : stringAt node key with
  | none => exact Nat.zero_le _
  | some bytes =>
    obtain ⟨value, inside, string⟩ := Option.bind_eq_some_iff.mp found
    cases node with
    | dictionary entries =>
      cases value with
      | string _ =>
        cases string
        exact fits_string_iff.mp (fits_of_dictGet good inside)
      | _ => cases string
    | _ => cases inside

theorem sendable_of_decode {read : BNode} (decoded : Bencode.decode (spell message.node) = .ok read) : message.Sendable := by
  have good := fits_of_decode (delimited_node message) decoded
  obtain ⟨added, _, added6, _, dropped, dropped6⟩ := strings_node message
  have shortAdded := @string_length "added" _ good
  have shortDropped := @string_length "dropped" _ good
  have shortAdded6 := @string_length "added6" _ good
  have shortDropped6 := @string_length "dropped6" _ good
  rw [added, compactAdded_eq, compact_length, length_map] at shortAdded
  rw [dropped, compactPeers_eq, compact_length] at shortDropped
  rw [added6, compactAdded_eq, compact_length, length_map] at shortAdded6
  rw [dropped6, compactPeers_eq, compact_length] at shortDropped6
  exact ⟨shortAdded, shortDropped, shortAdded6, shortDropped6⟩

/-- The peers whose addresses can be parsed, in the same order and with the same flags; the addresses are
spelled as the standard library writes them. -/
def restored (message : PexMessage) : PexMessage where
  addedV4 := (flagged parseIpv4Octets message.addedV4).map fun peer => ⟨ipv4Text peer.1.1, peer.1.2, peer.2⟩
  droppedV4 := (endpoints parseIpv4Octets message.droppedV4).map fun endpoint => (ipv4Text endpoint.1, endpoint.2)
  addedV6 := (flagged parseIpv6Octets message.addedV6).map fun peer => ⟨ipv6Text peer.1.1, peer.1.2, peer.2⟩
  droppedV6 := (endpoints parseIpv6Octets message.droppedV6).map fun endpoint => (ipv6Text endpoint.1, endpoint.2)

/-- What is written is read again with its endpoints and flags, exactly if the lists are not too long. -/
theorem decode_encode_iff (message : PexMessage) :
    decode (message.encode parseIpv4Octets parseIpv6Octets) = .ok message.restored ↔ message.Sendable := by
  rw [encode_eq]
  constructor
  · intro decoded
    rw [decode, bind_eq_ok] at decoded
    obtain ⟨node, decoded, _⟩ := decoded
    exact sendable_of_decode decoded
  · intro sendable
    obtain ⟨added, flags, added6, flags6, dropped, dropped6⟩ := strings_node message
    rw [compactAdded_eq] at added added6
    rw [addedFlags_eq] at flags flags6
    rw [compactPeers_eq] at dropped dropped6
    rw [decode, decode_spell sendable.proper, restored, ← readAdded_eq added flags, ← readAdded_eq added6 flags6,
      ← readDropped_eq dropped, ← readDropped_eq dropped6]
    rfl

/-- The same peer many times. -/
def crowd (count : Nat) : PexMessage := ⟨replicate count ⟨text "1.2.3.4", 6881, 2⟩, [], [], []⟩

theorem flagged_crowd (count : Nat) : (flagged parseIpv4Octets (crowd count).addedV4).length = count := by
  have octets : (parseIpv4Octets (text "1.2.3.4")).isSome = true := by decide
  obtain ⟨address, parsed⟩ := Option.isSome_iff_exists.mp octets
  simp [flagged, crowd, parsed]

theorem crowd_refused : (decode ((crowd 2796203).encode parseIpv4Octets parseIpv6Octets)).isOk = false := by
  rw [Bool.eq_false_iff]
  intro accepted
  obtain ⟨read, decoded⟩ := exists_of_isOk accepted
  rw [encode_eq, decode, bind_eq_ok] at decoded
  obtain ⟨node, decoded, _⟩ := decoded
  have limit := (sendable_of_decode decoded).addedV4
  rw [flagged_crowd] at limit
  exact absurd limit (by decide)

end Codec

end PexMessage

end BitTorrent
