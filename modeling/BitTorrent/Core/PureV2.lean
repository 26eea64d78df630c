import BitTorrent.Core.MagnetRoundTrip
import BitTorrent.Core.OpenedTorrent
import BitTorrent.Core.ReadBack
import BitTorrent.Network.MetadataIntegrity

/-! # Torrents that are only v2

How far a v2 torrent gets, as a file and as a magnet link.  Its hash has 32 bytes in the parsed file
and 20 in a link, and it has no `pieces`.
-/

namespace BitTorrent

open Bencode MetaInfoFile MagnetLink Digests TorrentBuilder TorrentContext

def peerIdLength : Nat := 20

/-- `handshake_encode` of `network/peer_message.rs`. -/
def handshakeEncode (infoHash peerId : Bytes) : Result Bytes :=
  if infoHash.length ≠ hashLength then .error (.parse "Info hash must be 20 bytes")
  else if peerId.length ≠ peerIdLength then .error (.parse "Peer ID must be 20 bytes")
  else
    -- the extension protocol (BEP 10) and the fast extension (BEP 6)
    let reserved : Bytes := [0, 0, 0, 0, 0, 0x10, 0, 0x04]
    .ok (19 :: ascii "BitTorrent protocol" ++ reserved ++ infoHash ++ peerId)

section Files

variable {digests : Digests} {builder : TorrentBuilder} {bytes : Bytes} {file : MetaInfoFile}
  {canonicalDownload : Bytes} {seeding : Bool} {config : SessionConfig} {verificationPool : HashVerificationPool}
  {context : TorrentContext}

section

variable (built : builder.buildV2 digests = .ok bytes) (parsed : parse digests (.fromBytes bytes) = .ok file)
include built parsed

theorem readBack_of_buildV2 : ∃ fileTree, builder.ReadBack digests fileTree .v2 file := by
  obtain ⟨_, fileTree, layers, tree, written⟩ := buildV2_eq_ok built
  rw [written] at parsed
  exact ⟨fileTree, @TorrentBuilder.readBack_of_parse digests builder fileTree layers .v2 file
    (addAllToTree_named FileTreeNode.named_empty tree) parsed⟩

theorem ofMetaInfo_of_buildV2 :
    ofMetaInfo file canonicalDownload seeding config verificationPool ≠ .ok context := by
  intro opened
  obtain ⟨fileTree, back⟩ := readBack_of_buildV2 built parsed
  obtain ⟨_, _, pieces, _, _, _, known, _⟩ := ofMetaInfo_eq_ok opened
  obtain ⟨_, _, known⟩ := bind_eq_ok.mp known
  rw [field_eq_ok, back.pieces] at known
  cases known

end

/-- The bytes of a v2 torrent are parsed and opened, and its peers get a handshake. -/
def UsableV2 (digests : Digests) (canonicalDownload : Bytes) (seeding : Bool) (config : SessionConfig)
    (verificationPool : HashVerificationPool) (peerId bytes : Bytes) : Prop :=
  ∃ file context packet, parse digests (.fromBytes bytes) = .ok file ∧
    ofMetaInfo file canonicalDownload seeding config verificationPool = .ok context ∧
    handshakeEncode context.infoHash peerId = .ok packet

end Files

section Links

theorem parseBase32Hash_length {hash : Text} {bytes : Bytes} (read : parseBase32Hash hash = some bytes) :
    bytes.length = 20 := by
  rw [parseBase32Hash] at read
  obtain ⟨_, read⟩ := Option.ite_none_left_eq_some.mp read
  split at read
  case h_1 =>
    split at read
    case isTrue size =>
      cases read
      exact size
    case isFalse => cases read
  case h_2 => cases read

/-- The v1 hash of a query has 20 bytes. -/
def MagnetQuery.Sized (query : MagnetQuery) : Prop := ∀ hash, query.v1InfoHash = some hash → hash.length = 20

variable {query next : MagnetQuery}

theorem MagnetQuery.Sized.exactTopic {value : Text} (sized : query.Sized)
    (ran : query.exactTopic value = .ok next) : next.Sized := by
  rw [MagnetQuery.exactTopic] at ran
  split at ran
  case isTrue =>
    dsimp only at ran
    split at ran
    case h_1 bytes read =>
      cases ran
      intro hash known
      cases known
      rcases Option.or_eq_some_iff.mp read with hex | ⟨_, base32⟩
      · rw [parseHexHashExact] at hex
        split at hex
        case isTrue => cases hex
        case isFalse even => exact hexPairs_length (not_not.mp even) hex
      · exact parseBase32Hash_length base32
    case h_2 => cases ran
  case isFalse =>
    split at ran
    case isTrue =>
      dsimp only at ran
      split at ran
      case h_1 =>
        cases ran
        exact sized
      case h_2 => cases ran
    case isFalse =>
      cases ran
      exact sized

theorem MagnetQuery.Sized.setParameter {key value : Text} (sized : query.Sized)
    (ran : query.setParameter key value = .ok next) : next.Sized := by
  rw [MagnetQuery.setParameter] at ran
  by_cases empty : value = []
  · rw [if_pos empty] at ran
    cases ran
    exact sized
  rw [if_neg empty] at ran
  by_cases topic : key = text "xt"
  · rw [if_pos topic] at ran
    exact sized.exactTopic ran
  rw [if_neg topic] at ran
  -- no other parameter sets a hash
  repeat
    split at ran
    · cases ran
      exact sized
  cases ran
  exact sized

theorem MagnetQuery.Sized.parameters {last : MagnetQuery} {parameters : List Text} (sized : query.Sized)
    (ran : parameters.foldlM MagnetQuery.parseParameter query = .ok last) : last.Sized := by
  induction parameters generalizing query with
  | nil =>
    cases ran
    exact sized
  | cons parameter parameters ih =>
    obtain ⟨next, first, rest⟩ := bind_eq_ok.mp ran
    exact ih (sized.setParameter first) rest

variable {uri : Text} {link : MagnetLink}

theorem MagnetLink.parse_length (parsed : parse uri = .ok link) : link.infoHash.length = 20 := by
  rw [parse] at parsed
  split at parsed
  case isTrue =>
    obtain ⟨query, ran, parsed⟩ := bind_eq_ok.mp parsed
    have sized : MagnetQuery.empty.Sized := by intro _ known; cases known
    split at parsed
    case h_1 known =>
      cases parsed
      exact sized.parameters ran _ known
    case h_2 v2 _ _ =>
      cases parsed
      exact (List.length_take).trans (by rw [v2.toList_length]; rfl)
    case h_3 => cases parsed
  case isFalse => cases parsed

/-- `is_v2_only`. -/
def MagnetLink.isV2Only (link : MagnetLink) : Bool := link.v2InfoHash.isSome && !link.isHybrid

end Links

open MagnetContext

variable {digests : Digests} {builder : TorrentBuilder} {bytes : Bytes} {uri : Text} {link : MagnetLink} {v2 : Hash UInt8}
  {swarm : MagnetSwarm} {info : Bytes}

/-- A v2 torrent that was built is never usable.  Metadata with the hash of a v2 link passes exactly
if its SHA-1 happens to start the SHA-256. -/
theorem pureV2_iff (built : builder.buildV2 digests = .ok bytes) (parsed : parse uri = .ok link)
    (only : link.isV2Only = true) (known : link.v2InfoHash = some v2) (reached : swarm.Reached digests link.infoHash)
    (held : HoldsMetadata info swarm.context) (noStrays : NoStrays info swarm.context) (hash : digests.sha256 info = v2)
    (canonicalDownload : Bytes) (seeding : Bool) (config : SessionConfig) (verificationPool : HashVerificationPool)
    (peerId : Bytes) (transitionFromMetadata : Bytes → Result Unit) (ip : String) (now : Nat)
    (delivered : Bool) :
    ¬UsableV2 digests canonicalDownload seeding config verificationPool peerId bytes ∧
      ((swarm.context.handleMagnetBootstrap digests transitionFromMetadata (swarm.peers ip) now delivered).tried =
        some info ↔ (digests.sha1 info).toList = (digests.sha256 info).toList.take 20) := by
  constructor
  · intro usable
    obtain ⟨file, context, packet, read, opened, _⟩ := usable
    exact ofMetaInfo_of_buildV2 built read opened
  · have short : link.infoHash.length ≠ 32 := by
      rw [parse_length parsed]
      decide
    rw [isV2Only, Bool.and_eq_true, Bool.not_eq_true'] at only
    rw [held.tried_iff reached.sound noStrays, matchesHash, if_neg short, decide_eq_true_eq,
      ← take_v2InfoHash (parse_length parsed) known only.2, hash]

namespace PureV2Example

open MagnetExample

def single : TorrentBuilder := (new (text "t")).addFile (text "a") [7]

/-- A v2 link to the empty dictionary. -/
def linkUri (digests : Digests) : Text := text "magnet:?xt=urn:btmh:1220" ++ toHex (digests.sha256 emptyInfo).toList

/-- The swarm of the link after a peer has sent the dictionary. -/
def received (digests : Digests) : MagnetSwarm :=
  MagnetSwarm.step digests
    ⟨MagnetContext.new ((digests.sha256 emptyInfo).toList.take 20) 30, fun _ => ⟨true, fun _ => none, none⟩⟩ honest

/-- Hashes of which one does not start the other. -/
def differing : Digests where
  sha1 _ := List.Vector.replicate 20 1
  sha256 _ := List.Vector.replicate 32 2

theorem received_held (digests : Digests) (waiting : (received digests).context.infoDictBytes = none)
    (size : (received digests).context.metadataSize = some emptyInfo.length)
    (first : (received digests).context.metadataPieces[0]? = some emptyInfo)
    (keys : ∀ piece ∈ (received digests).context.metadataPieces.keys, piece < pieceCount emptyInfo.length) :
    HoldsMetadata emptyInfo (received digests).context ∧ NoStrays emptyInfo (received digests).context :=
  ⟨holdsMetadata_of_first waiting size first, noStrays_of_keys (by decide) keys⟩

theorem received_link (digests : Digests) (shown : ((parse (linkUri digests)).map fun link =>
    (link.isV2Only, link.infoHash, link.v2InfoHash)).toOption =
      some (true, (digests.sha256 emptyInfo).toList.take 20, some (digests.sha256 emptyInfo))) :
    ∃ link, parse (linkUri digests) = .ok link ∧ link.isV2Only = true ∧
      link.v2InfoHash = some (digests.sha256 emptyInfo) ∧ (received digests).Reached digests link.infoHash := by
  obtain ⟨link, parsed, fields⟩ := map_eq_ok.mp (eq_ok_of_toOption shown)
  obtain ⟨only, rest⟩ := Prod.mk.inj fields
  obtain ⟨short, known⟩ := Prod.mk.inj rest
  exact ⟨link, parsed, only, known, short ▸ ⟨30, _, Runs.Reaches.refl.next _ trivial⟩⟩

end PureV2Example

open PureV2Example MagnetExample
open TorrentContext (defaultConfig noPool)

/-- Under hashes that are all zero the metadata of the link passes. -/
theorem pureV2_zero : ∃ bytes, single.buildV2 zero = .ok bytes ∧
    ¬UsableV2 zero (ascii "/d") false defaultConfig noPool (List.replicate 20 0) bytes ∧
    ((received zero).context.handleMagnetBootstrap zero (fun _ => .ok ())
      ((received zero).peers "10.0.0.1") 60 true).tried = some emptyInfo := by
  obtain ⟨link, parsed, only, known, reached⟩ := received_link zero (by decide +kernel)
  obtain ⟨held, noStrays⟩ := received_held zero (by decide +kernel) (by decide +kernel) (by decide +kernel)
    (by decide +kernel)
  have both := pureV2_iff (show single.buildV2 zero = .ok _ from rfl) parsed only known reached held noStrays rfl
    (ascii "/d") false defaultConfig noPool (List.replicate 20 0) (fun _ => .ok ()) "10.0.0.1" 60 true
  exact ⟨_, rfl, both.1, both.2.mpr rfl⟩

/-- A v2 torrent that is built and parsed and not opened, and a v2 link whose metadata is refused. -/
theorem pureV2_unusable : ∃ bytes file link, single.buildV2 differing = .ok bytes ∧
    parse differing (.fromBytes bytes) = .ok file ∧
    (∀ context, ofMetaInfo file (ascii "/d") false defaultConfig noPool ≠ .ok context) ∧
    parse (linkUri differing) = .ok link ∧ link.isV2Only = true ∧
    link.v2InfoHash = some (differing.sha256 emptyInfo) ∧ (received differing).Reached differing link.infoHash ∧
    HoldsMetadata emptyInfo (received differing).context ∧ NoStrays emptyInfo (received differing).context ∧
    ((received differing).context.handleMagnetBootstrap differing (fun _ => .ok ())
      ((received differing).peers "10.0.0.1") 60 true).tried = none := by
  obtain ⟨link, parsed, only, known, reached⟩ := received_link differing (by decide +kernel)
  obtain ⟨held, noStrays⟩ := received_held differing (by decide +kernel) (by decide +kernel) (by decide +kernel)
    (by decide +kernel)
  have built : single.buildV2 differing = .ok (encode (.dictionary (single.writtenRoot differing
      (.directory [(text "a", .file 1 (fileRoot differing [7]))]) [] .v2))) := rfl
  obtain ⟨file, read⟩ := exists_of_isOk (show (parse differing (.fromBytes (encode (.dictionary
    (single.writtenRoot differing (.directory [(text "a", .file 1 (fileRoot differing [7]))]) [] .v2))))).isOk =
      true by decide +kernel)
  refine ⟨_, file, link, built, read, fun _ => ofMetaInfo_of_buildV2 built read, parsed, only, known, reached, held,
    noStrays, ?_⟩
  decide +kernel

end BitTorrent
