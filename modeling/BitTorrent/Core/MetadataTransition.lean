import BitTorrent.Core.RootReading
import BitTorrent.Network.MetadataIntegrity
import BitTorrent.Utils.BencodeRoundTrip
import BitTorrent.Utils.Hex

/-! # From the metadata of a magnet link to a torrent

`transition_from_metadata` of `core/torrent_context.rs`.  The metadata is decoded and written into
a torrent file again, and the encoder sorts the keys that the decoder has left in their order.
-/

namespace BitTorrent

open Bencode BNode MetaInfoFile MagnetContext List

/-- What the context of a magnet link knows before the switch. -/
structure MagnetSource where
  infoHash : Bytes
  trackerUrl : Text
  trackerUrls : List Text
  fileName : Text

/-- What the context of a magnet link has after the switch, and the torrent file that was saved. -/
structure SwitchedTorrent where
  fileName : Text
  webSeeds : List Text
  isPrivate : Bool
  pieceLength : Nat
  piecesInfoHash : Bytes
  filesToDownload : Files
  totalBytesToDownload : Nat
  infoDictBytes : Bytes
  torrentFilename : Text
  torrentBytes : Bytes

/-- What the switch asks of the disk. -/
structure TransitionDisk where
  createLocalTorrentStructure : Files → Result Unit
  createTorrentBitfield : SwitchedTorrent → Result Unit

namespace MagnetSource

def announce (source : MagnetSource) : Text :=
  if source.trackerUrl ≠ [] then source.trackerUrl
  else source.trackerUrls.headD (text "http://tracker.openbittorrent.com:80/announce")

def rootNode (source : MagnetSource) (info : BNode) : BNode :=
  .dictionary [(ascii "announce", .string (utf8 source.announce)), (ascii "info", info)]

section Transition

variable (digests : Digests) (parseUrl : UrlParser) (currentDirectory canonicalDownload : Bytes)
  (disk : TransitionDisk)

/-- Whether the torrent file reaches the disk does not matter to the outcome. -/
def transitionFromMetadata (source : MagnetSource) (infoDictBytes : Bytes) :
    Result SwitchedTorrent := do
  let (infoNode, _) ← decodePartial infoDictBytes
  let torrentBytes := encode (source.rootNode infoNode)
  let file ← parse digests (.fromBytes torrentBytes)
  file.validate parseUrl currentDirectory
  let pieceLength ← file.getPieceLength
  let piecesInfoHash ← file.getPiecesInfoHash
  let (totalBytesToDownload, filesToDownload) ← file.localFilesToDownloadList canonicalDownload
  disk.createLocalTorrentStructure filesToDownload
  let name := file.getName.toOption.getD []
  let switched : SwitchedTorrent := {
    fileName := if trim name = [] then source.fileName else name
    webSeeds := file.getWebSeeds
    isPrivate := file.isPrivate
    pieceLength
    piecesInfoHash
    filesToDownload
    totalBytesToDownload
    infoDictBytes
    torrentFilename := toHex source.infoHash ++ text ".torrent"
    torrentBytes }
  disk.createTorrentBitfield switched
  return switched

end Transition

variable {digests : Digests} {parseUrl : UrlParser} {currentDirectory canonicalDownload : Bytes}
  {disk : TransitionDisk} {source : MagnetSource} {infoDictBytes : Bytes} {switched : SwitchedTorrent}
  {file : MetaInfoFile} {infoNode : BNode} {pieces : Bytes}

theorem transitionFromMetadata_eq_ok
    (done : transitionFromMetadata digests parseUrl currentDirectory canonicalDownload disk source infoDictBytes =
      .ok switched) :
    ∃ infoNode count file, decodePartial infoDictBytes = .ok (infoNode, count) ∧
      switched.torrentBytes = encode (source.rootNode infoNode) ∧
      parse digests (.fromBytes switched.torrentBytes) = .ok file ∧
      file.getPiecesInfoHash = .ok switched.piecesInfoHash ∧ switched.webSeeds = file.getWebSeeds := by
  obtain ⟨⟨infoNode, count⟩, decoded, done⟩ := bind_eq_ok.mp done
  obtain ⟨file, parsed, done⟩ := bind_eq_ok.mp done
  obtain ⟨_, _, done⟩ := bind_eq_ok.mp done
  obtain ⟨_, _, done⟩ := bind_eq_ok.mp done
  obtain ⟨pieces, known, done⟩ := bind_eq_ok.mp done
  obtain ⟨_, _, done⟩ := bind_eq_ok.mp done
  obtain ⟨_, _, done⟩ := bind_eq_ok.mp done
  obtain ⟨_, _, done⟩ := bind_eq_ok.mp done
  cases done
  exact ⟨infoNode, count, file, decoded, rfl, parsed, known, rfl⟩

/-- The entries that the torrent file spells. -/
def writtenEntries (source : MagnetSource) (infoNode : BNode) : Entries :=
  [(ascii "announce", .string (utf8 source.announce)), (ascii "info", sortKeys infoNode)]

theorem encode_rootNode (infoNode : BNode) :
    encode (source.rootNode infoNode) = spell (.dictionary (source.writtenEntries infoNode)) := by
  rw [encode_eq_spell]
  rfl

theorem writtenEntries_delimited {depth : Nat} {infoNode : BNode} (proper : Proper depth infoNode) :
    ∀ entry ∈ source.writtenEntries infoNode, Delimited entry.2 :=
  forall_mem_cons.mpr ⟨.string _, forall_mem_singleton.mpr (delimited_of_proper (proper_sortKeys proper))⟩

theorem writtenEntries_whole (infoNode : BNode) : ∀ entry ∈ source.writtenEntries infoNode, readsWhole entry = true :=
  forall_mem_cons.mpr
    ⟨rfl, forall_mem_singleton.mpr (readsWhole_of_ne _ (by decide) (by decide))⟩

theorem isV2_isHybrid (known : file.getPiecesInfoHash = .ok pieces) : (file.isV2 && !file.isHybrid) = false := by
  obtain ⟨_, _, known⟩ := bind_eq_ok.mp known
  rw [field_eq_ok] at known
  rw [isHybrid, known]
  cases file.isV2 with
  | false => rfl
  | true => rfl

theorem saved_infoHash {depth : Nat} (proper : Proper depth infoNode)
    (parsed : parse digests (.fromBytes (encode (source.rootNode infoNode))) = .ok file)
    (known : file.getPiecesInfoHash = .ok pieces) : file.getInfoHash = .ok (digests.sha1 (encode infoNode)).toList := by
  have done : file.requireParsed = .ok () := if_pos (parse_parsed parsed)
  rw [encode_rootNode, ← append_nil (spell _)] at parsed
  have delimited := @writtenEntries_delimited source depth infoNode proper
  have whole := @writtenEntries_whole source infoNode
  have member : (ascii "info", sortKeys infoNode) ∈ source.writtenEntries infoNode := mem_cons_of_mem _ mem_cons_self
  generalize entriesEq : source.writtenEntries infoNode = entries at parsed delimited whole member
  obtain ⟨info, shape⟩ := info_of_parse delimited whole parsed member
  obtain ⟨depth, rootProper⟩ := exists_proper_of_fits (.dictionary delimited)
    (fits_of_parse delimited whole parsed)
  rw [writtenEntries, shape] at entriesEq
  subst entriesEq
  have hashes : HashesOf digests file (spell (.dictionary info)) := by
    refine (@MetaInfoFile.parse_reads_spell digests file depth [] [(ascii "announce", .string (utf8 source.announce))] [] info
      rootProper.succ ?_ ?_ parsed).hashesOf
    · rw [append_nil, forall_mem_singleton]
      exact show ascii "announce" ≠ ascii "info" by decide
    · rw [append_nil, forall_mem_singleton]
      rfl
  have hash := hashes.infoHash
  rw [isV2_isHybrid known, if_neg Bool.false_ne_true, ← shape, ← encode_eq_spell, ← field_eq_ok] at hash
  rw [getInfoHash, done]
  exact hash

/-- Metadata that is one value, with its keys in order and nothing behind it. -/
def Canonical (bytes : Bytes) : Prop := ∃ node, decode bytes = .ok node ∧ KeysOrdered node

theorem encode_eq_iff_canonical {count : Nat} (decoded : decodePartial infoDictBytes = .ok (infoNode, count)) :
    encode infoNode = infoDictBytes ↔ Canonical infoDictBytes := by
  obtain ⟨inside, member⟩ := decodePartial_eq_ok_iff.mp decoded
  obtain ⟨proper, spelled⟩ := (renders_word maxDepth _ _).mp member
  constructor
  · intro same
    have complete : decode infoDictBytes = .ok (sortKeys infoNode) := by
      rw [← same]
      exact decode_sortKeys proper
    have again := decode_iff_decodePartial.mp complete
    rw [decoded] at again
    have unchanged : infoNode = sortKeys infoNode := (Prod.mk.inj (Except.ok.inj again)).1
    rw [← unchanged] at complete
    exact ⟨infoNode, complete, (encode_eq_iff_keysOrdered complete).mp same⟩
  · intro canonical
    obtain ⟨node, complete, ordered⟩ := canonical
    have again := decode_iff_decodePartial.mp complete
    rw [decoded] at again
    cases again
    exact (encode_eq_iff_keysOrdered complete).mpr ordered

/-- Encoding the metadata again gives other bytes with the same hash. -/
def Collides (digests : Digests) (bytes : Bytes) : Prop :=
  ∃ node count, decodePartial bytes = .ok (node, count) ∧ encode node ≠ bytes ∧
    digests.sha1 (encode node) = digests.sha1 bytes

/-- Parsing the saved torrent gives the info hash of the link. -/
def SameIdentity (digests : Digests) (source : MagnetSource) (switched : SwitchedTorrent) : Prop :=
  ∃ file, parse digests (.fromBytes switched.torrentBytes) = .ok file ∧
    file.getInfoHash = .ok source.infoHash

/-- The torrent that is saved for metadata with the right hash has the identity of the link exactly
for canonical metadata, collisions of the hash apart. -/
theorem sameIdentity_iff {swarm : MagnetSwarm} {ip : String} {now : Nat} {delivered : Bool}
    (reached : swarm.Reached digests source.infoHash) (short : source.infoHash.length = hashLength)
    (verified : (swarm.context.handleMagnetBootstrap digests
      (fun bytes => (transitionFromMetadata digests parseUrl currentDirectory canonicalDownload disk source bytes).map
        fun _ => ()) (swarm.peers ip) now delivered).tried = some infoDictBytes)
    (done : transitionFromMetadata digests parseUrl currentDirectory canonicalDownload disk source infoDictBytes =
      .ok switched) :
    SameIdentity digests source switched ↔ Canonical infoDictBytes ∨ Collides digests infoDictBytes := by
  have matching := (handleMagnetBootstrap_sound reached.sound).matching infoDictBytes verified
  have notLong : source.infoHash.length ≠ 32 := by
    rw [short]
    decide
  rw [matchesHash, if_neg notLong, decide_eq_true_eq] at matching
  obtain ⟨infoNode, count, file, decoded, written, parsed, known, _⟩ := transitionFromMetadata_eq_ok done
  obtain ⟨_, member⟩ := decodePartial_eq_ok_iff.mp decoded
  obtain ⟨proper, _⟩ := (renders_word maxDepth _ _).mp member
  rw [written] at parsed
  have hash := saved_infoHash proper parsed known
  have identity : SameIdentity digests source switched ↔
      digests.sha1 (encode infoNode) = digests.sha1 infoDictBytes := by
    rw [SameIdentity, written]
    constructor
    · intro same
      obtain ⟨again, reparsed, found⟩ := same
      cases parsed.symm.trans reparsed
      rw [hash, ← matching] at found
      exact Vector.eq _ _ (Except.ok.inj found)
    · intro same
      refine ⟨file, parsed, ?_⟩
      rw [hash, same, matching]
  rw [identity, ← encode_eq_iff_canonical decoded]
  constructor
  · intro same
    by_cases unchanged : encode infoNode = infoDictBytes
    · exact .inl unchanged
    · exact .inr ⟨infoNode, count, decoded, unchanged, same⟩
  · intro sound
    rcases sound with unchanged | ⟨node, consumed, again, _, same⟩
    · rw [unchanged]
    · cases decoded.symm.trans again
      exact same

/-- Metadata of one file. -/
def oneFile : Bytes :=
  ascii "d6:lengthi1e4:name1:a12:piece lengthi1e6:pieces20:01234567890123456789e"

def readyDisk : TransitionDisk := ⟨fun _ => .ok (), fun _ => .ok ()⟩

/-- A link to some metadata, under hashes that only see how long it is. -/
def linkTo (metadata : Bytes) : MagnetSource :=
  ⟨(lengthDigests.sha1 metadata).toList, text "u", [], []⟩

/-- The swarm of the link after one peer has sent the metadata. -/
def sent (metadata : Bytes) : MagnetSwarm :=
  MagnetSwarm.step lengthDigests
    ⟨new (linkTo metadata).infoHash 30, fun _ => ⟨true, fun _ => none, none⟩⟩
    (.extended "10.0.0.1" 1 (ascii ("d8:msg_typei1e5:piecei0e10:total_sizei" ++ toString metadata.length ++ "ee") ++ metadata))

def switchTo (metadata bytes : Bytes) : Result SwitchedTorrent :=
  transitionFromMetadata lengthDigests (fun _ => .ok ()) (ascii "/") (ascii "/d") readyDisk (linkTo metadata)
    bytes

theorem sent_reached (metadata : Bytes) :
    (sent metadata).Reached lengthDigests (linkTo metadata).infoHash :=
  ⟨30, _, Runs.Reaches.refl.next _ trivial⟩

/-- The round in which the swarm switches to the metadata. -/
def switching (metadata : Bytes) : Bootstrapped :=
  (sent metadata).context.handleMagnetBootstrap lengthDigests
    (fun bytes => (switchTo metadata bytes).map fun _ => ()) ((sent metadata).peers "10.0.0.1") 60 true

theorem oneFile_switched : (switching oneFile).tried = some oneFile ∧ (switchTo oneFile oneFile).isOk = true := by
  decide +kernel

theorem oneFile_canonical : Canonical oneFile := by
  have decoded : ∃ node, decodePartial oneFile = .ok (node, 71) ∧ encode node = oneFile := ⟨_, rfl, by decide +kernel⟩
  obtain ⟨node, decoded, same⟩ := decoded
  exact (encode_eq_iff_canonical decoded).mp same

theorem oneFile_identity : ∃ switched, (switching oneFile).tried = some oneFile ∧
    switchTo oneFile oneFile = .ok switched ∧ SameIdentity lengthDigests (linkTo oneFile) switched := by
  obtain ⟨verified, switches⟩ := oneFile_switched
  obtain ⟨switched, done⟩ := exists_of_isOk switches
  refine ⟨switched, verified, done, ?_⟩
  exact (sameIdentity_iff (sent_reached oneFile) rfl verified done).mpr (.inl oneFile_canonical)

/-- The same metadata with a byte behind it. -/
def trailingByte : Bytes := oneFile ++ [120]

theorem trailingByte_switched : (switching trailingByte).tried = some trailingByte ∧
    ((switchTo trailingByte trailingByte).bind fun switched =>
      (parse lengthDigests (.fromBytes switched.torrentBytes)).bind fun file =>
        file.getInfoHash).toOption = some (replicate 20 71) := by
  decide +kernel

/-- The saved torrent has another info hash than the link. -/
theorem trailingByte_identity_lost : ∃ switched file, (switching trailingByte).tried = some trailingByte ∧
    switchTo trailingByte trailingByte = .ok switched ∧
    parse lengthDigests (.fromBytes switched.torrentBytes) = .ok file ∧
    file.getInfoHash = .ok (replicate 20 71) ∧ (linkTo trailingByte).infoHash = replicate 20 72 := by
  obtain ⟨verified, outcome⟩ := trailingByte_switched
  obtain ⟨switched, done, outcome⟩ := bind_eq_ok.mp (eq_ok_of_toOption outcome)
  obtain ⟨file, parsed, hash⟩ := bind_eq_ok.mp outcome
  exact ⟨switched, file, verified, done, parsed, hash, rfl⟩

end MagnetSource

end BitTorrent
