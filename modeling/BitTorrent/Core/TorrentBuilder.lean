import BitTorrent.Core.FileTree
import BitTorrent.Core.Merkle

/-! # Building torrents

`TorrentBuilder` of `core/torrent_builder.rs` with `build_v1`, `build_v2` and `build_hybrid`.
-/

namespace BitTorrent

open Bencode Chunks

/-- Piece layers under their roots. -/
abbrev LayerMap := List (Bytes × Bytes)

/-- Every way to add a file turns backslashes into slashes. -/
structure TorrentBuilder where
  name : Text
  pieceLength : Nat
  trackers : List Text
  webSeeds : List Text
  comment : Option Text
  isPrivate : Bool
  isMultiFile : Bool
  files : List (Text × Bytes)
  slashed : ∀ file ∈ files, '\\' ∉ file.1

/-- A file of the v1 list; a pad file has no pieces root. -/
structure V1File where
  segments : List Text
  content : Bytes
  piecesRoot : Option (Hash UInt8)

def V1File.toBNode (file : V1File) : BNode :=
  let length := (ascii "length", BNode.number (decimal file.content.length))
  let path := (ascii "path", BNode.list (file.segments.map fun segment => .string (utf8 segment)))
  match file.piecesRoot with
  | some root => .dictionary (sortByKey [length, path, (ascii "pieces root", .string root.toList)])
  | none => .dictionary [(ascii "attr", .string (ascii "p")), length, path]

namespace TorrentBuilder

def new (name : Text) : TorrentBuilder where
  name
  pieceLength := 64 * 1024
  trackers := []
  webSeeds := []
  comment := none
  isPrivate := false
  isMultiFile := false
  files := []
  slashed := by simp

variable (builder : TorrentBuilder)

def withPieceLength (pieceLength : Nat) : TorrentBuilder :=
  { builder with pieceLength }

def multiFile (isMultiFile : Bool) : TorrentBuilder :=
  { builder with isMultiFile }

def withTrackers (trackers : List Text) : TorrentBuilder := { builder with trackers }

def withTracker (url : Text) : TorrentBuilder :=
  { builder with trackers := builder.trackers ++ [url] }

def webSeed (url : Text) : TorrentBuilder :=
  { builder with webSeeds := builder.webSeeds ++ [url] }

def withComment (comment : Text) : TorrentBuilder := { builder with comment := some comment }

def withPrivate (isPrivate : Bool) : TorrentBuilder := { builder with isPrivate }

def addFile (path : Text) (data : Bytes) : TorrentBuilder :=
  { builder with
    files := builder.files ++ [(forwardSlashes path, data)]
    slashed := by
      intro file member
      rcases List.mem_append.mp member with old | new
      · exact builder.slashed file old
      · cases List.mem_singleton.mp new
        exact backslash_not_mem_forwardSlashes path }

def validatePieceLength : Result Unit :=
  if builder.pieceLength < blockSize ∨ !isPowerOfTwo builder.pieceLength then
    .error (.parse "Piece length for BitTorrent v2 must be a power of two and at least 16 KiB")
  else if builder.files = [] then .error (.parse "Torrent must contain at least one file")
  else .ok ()

/-- The nonempty segments of a path. -/
def pathSegments (path : Text) : List Text := (path.splitOn '/').filter (· ≠ [])

section Build

variable (digests : Digests)

def fileRoot (data : Bytes) : Hash UInt8 := (MerkleTree.fromBytes digests.sha256 data).root

/-- One round of `build_v2_file_tree_and_layers`. -/
def addToTree (pieceLength : Nat) (state : FileTreeNode × LayerMap) (file : Text × Bytes) :
    Outcome (FileTreeNode × LayerMap) :=
  let tree := MerkleTree.fromBytes digests.sha256 file.2
  let layers : Result LayerMap :=
    if pieceLength < file.2.length then
      (tree.pieceLayer pieceLength).map fun hashes =>
        insertEntry tree.root.toList (hashes.flatMap List.Vector.toList) state.2
    else .ok state.2
  match layers with
  | .error reason => .err reason
  | .ok layers =>
    if pathSegments file.1 = [] then .ok (state.1, layers)
    else
      match state.1.insertFile file.2.length tree.root (pathSegments file.1) with
      | none => .panic
      | some root => .ok (root, layers)

def addAllToTree (pieceLength : Nat) :
    List (Text × Bytes) → FileTreeNode × LayerMap → Outcome (FileTreeNode × LayerMap)
  | [], state => .ok state
  | file :: files, state =>
    match addToTree digests pieceLength state file with
    | .ok state => addAllToTree pieceLength files state
    | .err reason => .err reason
    | .panic => .panic

variable (builder : TorrentBuilder)

def buildV2FileTreeAndLayers : Outcome (FileTreeNode × LayerMap) :=
  addAllToTree digests builder.pieceLength builder.files (.directory [], [])

def isSingleFile : Bool :=
  match builder.files with
  | [file] => !builder.isMultiFile && decide ('/' ∉ file.1)
  | _ => false

/-- Bytes that fill the last piece of a file. -/
def padLength (data : Bytes) : Nat :=
  if 0 < data.length % builder.pieceLength ∧ !builder.isSingleFile then
    builder.pieceLength - data.length % builder.pieceLength
  else 0

def padFile (length : Nat) : V1File where
  segments := [text ".pad", numeral length]
  content := List.replicate length 0
  piecesRoot := none

/-- The entry of a file and of its pad file. -/
def v1Entries (file : Text × Bytes) : List V1File :=
  { segments := pathSegments file.1, content := file.2, piecesRoot := some (fileRoot digests file.2) } ::
    if 0 < builder.padLength file.2 then [padFile (builder.padLength file.2)] else []

def v1Files : List V1File := builder.files.flatMap (v1Entries digests builder)

def alignedStream : Bytes := (builder.v1Files digests).flatMap V1File.content

def v1Pieces : Bytes :=
  (chunks builder.pieceLength (builder.alignedStream digests)).flatMap fun chunk => (digests.sha1 chunk).toList

def treeFields (fileTree : FileTreeNode) : Entries :=
  [(ascii "file tree", fileTree.toBNode), (ascii "meta version", .number (decimal 2))]

def nameFields : Entries :=
  [(ascii "name", .string (utf8 builder.name)), (ascii "piece length", .number (decimal builder.pieceLength))]

/-- A single file has its length here, and several files are listed. -/
def v1Fields (pieces : Bytes) (items : List BNode) : Entries :=
  [(ascii "pieces", .string pieces),
    if builder.isSingleFile then (ascii "length", .number (decimal (builder.files.headD ([], [])).2.length))
    else (ascii "files", .list items)]

def privateFields : Entries :=
  if builder.isPrivate then [(ascii "private", .number (decimal 1))] else []

def infoEntries (fileTree : FileTreeNode) : Entries :=
  treeFields fileTree ++ builder.nameFields ++
    builder.v1Fields (builder.v1Pieces digests) ((builder.v1Files digests).map V1File.toBNode) ++ builder.privateFields

def announceEntry : Bytes × BNode :=
  (ascii "announce", .string (utf8 (builder.trackers.headD (text "http://tracker.example.com/announce"))))

def tierEntries : Entries :=
  if 1 < builder.trackers.length then
    [(ascii "announce-list", .list (builder.trackers.map fun url => .list [.string (utf8 url)]))]
  else []

def commentEntries : Entries :=
  (builder.comment.map fun comment => (ascii "comment", BNode.string (utf8 comment))).toList

def layerEntries (layers : LayerMap) : Entries :=
  if layers = [] then []
  else [(ascii "piece layers", .dictionary (layers.map fun layer => (layer.1, .string layer.2)))]

def rootEntries (fileTree : FileTreeNode) (layers : LayerMap) : Entries :=
  [builder.announceEntry] ++ builder.tierEntries ++ builder.commentEntries ++
    [(ascii "info", .dictionary (sortByKey (builder.infoEntries digests fileTree)))] ++ layerEntries layers

/-- Both formats with a file tree check the piece length and build the tree first. -/
def withTree (finish : FileTreeNode → LayerMap → Outcome Bytes) : Outcome Bytes :=
  match builder.validatePieceLength with
  | .error reason => .err reason
  | .ok () =>
    match builder.buildV2FileTreeAndLayers digests with
    | .err reason => .err reason
    | .panic => .panic
    | .ok (fileTree, layers) => finish fileTree layers

/-- A vector of more than half of the address space cannot be built. -/
def buildHybrid : Outcome Bytes :=
  builder.withTree digests fun fileTree layers =>
    if 2 ^ 63 ≤ (builder.alignedStream digests).length then .panic
    else .ok (encode (.dictionary (sortByKey (builder.rootEntries digests fileTree layers))))

/-- An item of the `files` of a v1 torrent. -/
def plainItem (file : Text × Bytes) : BNode :=
  .dictionary [(ascii "length", .number (decimal file.2.length)),
    (ascii "path", .list ((pathSegments file.1).map fun segment => .string (utf8 segment)))]

def totalStream : Bytes := builder.files.flatMap Prod.snd

def plainPieces : Bytes :=
  (chunks builder.pieceLength builder.totalStream).flatMap fun chunk => (digests.sha1 chunk).toList

def plainInfo : Entries :=
  builder.nameFields ++ builder.v1Fields (builder.plainPieces digests) (builder.files.map plainItem) ++
    builder.privateFields

def plainRoot : Entries :=
  [builder.announceEntry] ++ builder.commentEntries ++
    [(ascii "info", .dictionary (sortByKey (builder.plainInfo digests)))]

/-- Pieces of no bytes cannot be cut off. -/
def buildV1 : Outcome Bytes :=
  if builder.files = [] then .err (.parse "Torrent must contain at least one file")
  else if builder.pieceLength = 0 ∨ 2 ^ 63 ≤ builder.totalStream.length then .panic
  else .ok (encode (.dictionary (sortByKey (builder.plainRoot digests))))

def treeInfo (fileTree : FileTreeNode) : Entries :=
  treeFields fileTree ++ builder.nameFields ++ builder.privateFields

def seedEntries : Entries :=
  if builder.webSeeds = [] then []
  else [(ascii "url-list", .list (builder.webSeeds.map fun url => .string (utf8 url)))]

def treeRoot (fileTree : FileTreeNode) (layers : LayerMap) : Entries :=
  [builder.announceEntry] ++ builder.tierEntries ++ builder.seedEntries ++ builder.commentEntries ++
    [(ascii "info", .dictionary (sortByKey (builder.treeInfo fileTree)))] ++ layerEntries layers

def buildV2 : Outcome Bytes :=
  builder.withTree digests fun fileTree layers =>
    .ok (encode (.dictionary (sortByKey (builder.treeRoot fileTree layers))))

end Build

end TorrentBuilder

/-- The format that `torrent_upgrader.rs` asks for. -/
inductive TorrentExportFormat where
  | v1
  | v2
  | hybrid
deriving DecidableEq, Repr

def TorrentBuilder.build (digests : Digests) (builder : TorrentBuilder) : TorrentExportFormat → Outcome Bytes
  | .v1 => builder.buildV1 digests
  | .v2 => builder.buildV2 digests
  | .hybrid => builder.buildHybrid digests

end BitTorrent
