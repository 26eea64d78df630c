import BitTorrent.Core.Magnet
import BitTorrent.Core.PathContainment
import BitTorrent.Core.TorrentBuilder

/-! # Upgrading torrents

`TorrentUpgrader` of `core/torrent_upgrader.rs`, which builds a torrent again in another format from
the files that are on disk.
-/

namespace BitTorrent

open MetaInfoFile

/-- What is seen of the file system. -/
structure FileSystem where
  present : Bytes → Bool
  canonicalize : Bytes → Result Bytes
  read : Bytes → Result Bytes

namespace FileSystem

variable (disk : FileSystem)

def canonicalDownload (downloadPath : Bytes) : Result Bytes :=
  if disk.present downloadPath then disk.canonicalize downloadPath else .ok downloadPath

/-- `local_files_to_download_list`, from a path that need not be canonical. -/
def localFiles (file : MetaInfoFile) (downloadPath : Bytes) :
    Result (Nat × Files) := do
  file.requireParsed
  let canonicalDownload ← disk.canonicalDownload downloadPath
  file.localFilesToDownloadList canonicalDownload

/-- Where the content of a file is looked for. -/
def contentPath (dataDir : Bytes) (details : FileDetails UInt8) : Bytes :=
  let directPath := details.path
  let candidatePath := joinPath dataDir (utf8 details.torrentPath.toList)
  if disk.present directPath then directPath
  else if disk.present candidatePath then candidatePath
  else directPath

def readContent (dataDir : Bytes) (details : FileDetails UInt8) : Result (Text × Bytes) :=
  let fullPath := disk.contentPath dataDir details
  if disk.present fullPath then do
    let data ← disk.read fullPath
    return (details.torrentPath.toList, data)
  else .error (.io ("Content file missing on disk: " ++ String.ofList (fromUtf8Lossy fullPath)))

end FileSystem

structure TorrentUpgradeReport where
  name : Text
  format : TorrentExportFormat
  totalSize : Nat
  pieceLength : Nat
  v1InfoHash : Option Text
  v2InfoHash : Option Text
  v2TruncatedInfoHash : Option Text
  filePiecesRoots : List (String × Text)
  pieceLayersCount : Nat
  magnetUri : Text

namespace TorrentUpgrader

/-- `urlEncode` is `urlencoding::encode`. -/
def generateMagnetUri (urlEncode : Text → Text) (name : Text) (v1InfoHash v2InfoHash : Option Text) (trackers : List Text) :
    Text :=
  text "magnet:?" ++ ['&'].intercalate
    ((v1InfoHash.map (text "xt=urn:btih:" ++ ·)).toList ++ (v2InfoHash.map (text "xt=urn:btmh:1220" ++ ·)).toList ++
      [text "dn=" ++ urlEncode name] ++ trackers.map (text "tr=" ++ urlEncode ·))

/-- A length is doubled until it is as long as the pieces. -/
def doubled (pieceLen : Nat) : Nat → Nat → Nat
  | 0, validLen => validLen
  | rounds + 1, validLen => if validLen < pieceLen then doubled pieceLen rounds (2 * validLen) else validLen

/-- The pieces of v2 have a power of two as length, of 16 KiB at least; a length of `u32` takes less
rounds than it has bits. -/
def upgradedLength (pieceLen : Nat) (target : TorrentExportFormat) : Nat :=
  if target ≠ .v1 ∧ (pieceLen < blockSize ∨ !isPowerOfTwo pieceLen) then doubled pieceLen 32 blockSize else pieceLen

def withSources (metainfo : MetaInfoFile) (builder : TorrentBuilder) : TorrentBuilder :=
  let builder :=
    match metainfo.getComment with
    | some comment => builder.withComment comment
    | none => builder
  let builder :=
    match metainfo.getTrackerUrls, metainfo.getTracker with
    | .ok trackers, _ => builder.withTrackers trackers
    | .error _, .ok primary => builder.withTracker primary
    | .error _, .error _ => builder
  metainfo.getWebSeeds.foldl .webSeed builder

def upgradedName (metainfo : MetaInfoFile) : Text := metainfo.getName.toOption.getD (text "untitled")

/-- The builder of the torrent that is written. -/
def upgradedBuilder (metainfo : MetaInfoFile) (filesData : List (Text × Bytes)) (target : TorrentExportFormat) :
    TorrentBuilder :=
  let pieceLen := upgradedLength (metainfo.getPieceLength.toOption.getD (64 * 1024)) target
  let builder := ((TorrentBuilder.new (upgradedName metainfo)).withPieceLength pieceLen).withPrivate metainfo.isPrivate
  filesData.foldl (fun builder file => builder.addFile file.1 file.2) (withSources metainfo builder)

/-- What is reported of the torrent that was written. -/
def report (urlEncode : Text → Text) (disk : FileSystem) (generated : MetaInfoFile) (name : Text)
    (pieceLength : Nat) (filesData : List (Text × Bytes)) (target : TorrentExportFormat) : TorrentUpgradeReport :=
  let v1InfoHash := if target = .v2 then none else generated.getV1InfoHash.toOption.map toHex
  let v2InfoHash := if target = .v1 then none else generated.getV2InfoHash.toOption.map toHex
  let files := ((disk.localFiles generated (ascii ".")).toOption.map Prod.snd).getD []
  { name
    format := target
    totalSize := filesData.foldl (fun total file => (total + file.2.length) % u64Size) 0
    pieceLength
    v1InfoHash
    v2InfoHash
    v2TruncatedInfoHash := v2InfoHash.map (List.take 40)
    filePiecesRoots := files.filterMap fun details =>
      details.piecesRoot.map fun root => (details.torrentPath, toHex root.toList)
    pieceLayersCount := (generated.pieceLayers.map Prod.fst).dedup.length
    magnetUri := generateMagnetUri urlEncode name v1InfoHash v2InfoHash (generated.getTrackerUrls.toOption.getD []) }

def upgradeMetainfo (urlEncode : Text → Text) (digests : Digests) (disk : FileSystem) (metainfo : MetaInfoFile)
    (filesData : List (Text × Bytes)) (target : TorrentExportFormat) : Outcome (Bytes × TorrentUpgradeReport) :=
  if filesData = [] then .err (.parse "Cannot upgrade torrent with no files")
  else
    let builder := upgradedBuilder metainfo filesData target
    match builder.build digests target with
    | .err reason => .err reason
    | .panic => .panic
    | .ok torrentBytes =>
      match parse digests (.fromBytes torrentBytes) with
      | .error reason => .err reason
      | .ok generated =>
        .ok (torrentBytes, report urlEncode disk generated (upgradedName metainfo) builder.pieceLength filesData target)

/-- The torrent, its files and their content. -/
def loadContent (digests : Digests) (disk : FileSystem) (torrentPath dataDir : Bytes) :
    Result (MetaInfoFile × List (Text × Bytes)) := do
  let torrent ← disk.read torrentPath
  let metainfo ← parse digests (.fromBytes torrent)
  let (_, details) ← disk.localFiles metainfo dataDir
  let filesData ← details.mapM (disk.readContent dataDir)
  return (metainfo, filesData)

def upgradeFromFile (urlEncode : Text → Text) (digests : Digests) (disk : FileSystem) (torrentPath dataDir : Bytes)
    (target : TorrentExportFormat) : Outcome (Bytes × TorrentUpgradeReport) :=
  match loadContent digests disk torrentPath dataDir with
  | .error reason => .err reason
  | .ok (metainfo, filesData) => upgradeMetainfo urlEncode digests disk metainfo filesData target

end TorrentUpgrader

end BitTorrent
