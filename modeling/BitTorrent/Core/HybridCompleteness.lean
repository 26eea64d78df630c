import BitTorrent.Core.HybridLayout
import BitTorrent.Core.MerkleProofs
import BitTorrent.Core.OpenedTorrent

/-! # Downloading a hybrid torrent

Which blocks of the v1 stream of a torrent of `build_hybrid` its own context accepts, whatever
true Merkle data is registered.
-/

namespace BitTorrent

open Bencode Chunks MerkleTree TorrentContext V2State MetaInfoFile List Function

section Verification

variable {β : Type} [DecidableEq β] [ByteValue β] (sha256 : List β → Hash β)

/-- What `verify_v2_block` asks of a block once it has found the file. -/
def AcceptsBlock (v2 : V2State β) (fileIdx : Nat) (file : FileDetails β) (fileBlockIdx : Nat)
    (blockData : List β) : Prop :=
  match v2.fileMerkleTrees fileIdx, file.piecesRoot with
  | some tree, _ => tree.verifyBlock sha256 fileBlockIdx blockData = true
  | none, none => True
  | none, some root =>
    match v2.fileMerkleProofs (fileIdx, fileBlockIdx) with
    | some proof => proof.verify sha256 blockData root = true
    | none =>
      if file.length ≤ blockSize then sha256 blockData = root
      else ∀ leaf, v2.cachedLeaf root fileBlockIdx = some leaf → sha256 blockData = leaf

theorem verifyV2Block_eq_ok_iff {files : List (FileDetails β)} {pieceLength pieceNumber blockIndex fileIdx : Nat}
    {file : FileDetails β} (v2 : V2State β) (blockData : List β)
    (found : files.zipIdx.find? (fun entry => entry.1.spans (pieceNumber * pieceLength + blockIndex * blockSize)) =
      some (file, fileIdx)) :
    verifyV2Block sha256 files pieceLength v2 pieceNumber blockIndex blockData = .ok () ↔
      AcceptsBlock sha256 v2 fileIdx file
        ((pieceNumber * pieceLength + blockIndex * blockSize - file.offset) / blockSize) blockData := by
  simp only [verifyV2Block, found, AcceptsBlock]
  generalize (pieceNumber * pieceLength + blockIndex * blockSize - file.offset) / blockSize = fileBlockIdx
  cases v2.fileMerkleTrees fileIdx with
  | some tree => simp
  | none =>
    cases file.piecesRoot with
    | none => simp
    | some root =>
      cases v2.fileMerkleProofs (fileIdx, fileBlockIdx) with
      | some proof => simp
      | none =>
        by_cases short : file.length ≤ blockSize
        · simp [short]
        · cases cached : v2.cachedLeaf root fileBlockIdx with
          | none => simp [short, cached]
          | some leaf => simp [short, cached]

end Verification

namespace MerkleTree

variable {β : Type} [Zero β] (sha256 : List β → Hash β) {data : List β}

/-- The leaf hashes of a file with their padding. -/
def leafLayer (data : List β) : List (Hash β) := (fromBytes sha256 data).layers.headD []

theorem fromBytes_root_short (nonempty : data ≠ []) (short : data.length ≤ blockSize) :
    (fromBytes sha256 data).root = sha256 data := by
  have positive := length_pos_iff.mpr nonempty
  have one : (data.length + blockSize - 1) / blockSize = 1 := by
    rw [blockSize] at short ⊢
    omega
  have whole : slice data (0 * blockSize) blockSize = data := by
    rw [slice, Nat.zero_mul, drop_zero, take_of_length_le short]
  rw [fromBytes_eq sha256 nonempty, chunks, one, range_one, map_singleton, whole, map_singleton]
  rfl

theorem slice_short {block : Nat} (inside : block < (fromBytes sha256 data).numBlocks)
    (short : data.length ≤ blockSize) : slice data (block * blockSize) blockSize = data := by
  have first : block = 0 := by
    rw [fromBytes_numBlocks, blockSize] at inside
    rw [blockSize] at short
    omega
  rw [first, slice, Nat.zero_mul, drop_zero, take_of_length_le short]

theorem leafLayer_getElem? {block : Nat} (inside : block < (fromBytes sha256 data).numBlocks) :
    (leafLayer sha256 data)[block]? = some (sha256 (slice data (block * blockSize) blockSize)) := by
  rw [← fromBytes_blockHash sha256 inside, blockHash, if_pos inside, leafLayer]
  cases (fromBytes sha256 data).layers with
  | nil => rfl
  | cons layer upper => rfl

end MerkleTree

namespace TorrentBuilder

variable {digests : Digests} {builder : TorrentBuilder} {v2 : V2State UInt8} {index block : Nat} {entry : V1File}

/-- Only Merkle data of the files of the torrent has been registered, pad files included. -/
structure TrueRegistrations (digests : Digests) (builder : TorrentBuilder) (v2 : V2State UInt8) : Prop where
  trees : ∀ index tree, v2.fileMerkleTrees index = some tree →
    ∃ entry, (builder.v1Files digests)[index]? = some entry ∧
      tree = fromBytes digests.sha256 entry.content
  proofs : ∀ index block proof, v2.fileMerkleProofs (index, block) = some proof →
    ∃ entry, (builder.v1Files digests)[index]? = some entry ∧
      (fromBytes digests.sha256 entry.content).proof block = some proof
  leaves : ∀ root chunkIndex hashes, ((root, 0, chunkIndex), hashes) ∈ v2.verifiedV2Hashes →
    ∃ file ∈ builder.files, fileRoot digests file.2 = root ∧
      ∃ count, hashes = slice (leafLayer digests.sha256 file.2) chunkIndex count

theorem trueRegistrations_empty : TrueRegistrations digests builder .empty where
  trees _ _ known := nomatch known
  proofs _ _ _ known := nomatch known
  leaves _ _ _ member := nomatch member

theorem trueRegistrations_tree (known : (builder.v1Files digests)[index]? = some entry) :
    TrueRegistrations digests builder
      (empty.registerFileMerkleTree index (fromBytes digests.sha256 entry.content)) where
  trees other tree found := by
    by_cases same : other = index
    · simp only [registerFileMerkleTree, same, update_self] at found
      cases found
      exact ⟨entry, same ▸ known, rfl⟩
    · simp only [registerFileMerkleTree, update_of_ne same] at found
      cases found
  proofs _ _ _ known := nomatch known
  leaves _ _ _ member := nomatch member

theorem trueRegistrations_proof {proof : MerkleProof UInt8} (known : (builder.v1Files digests)[index]? = some entry)
    (valid : (fromBytes digests.sha256 entry.content).proof block = some proof)
    (place : proof.blockIndex = block) :
    TrueRegistrations digests builder (empty.registerMerkleProof index proof) where
  trees _ _ known := nomatch known
  proofs other otherBlock found registered := by
    by_cases same : (other, otherBlock) = (index, proof.blockIndex)
    · simp only [registerMerkleProof, same, update_self] at registered
      cases registered
      cases same
      exact ⟨entry, known, place ▸ valid⟩
    · simp only [registerMerkleProof, update_of_ne same] at registered
      cases registered
  leaves _ _ _ member := nomatch member

/-- The answer to a request for all leaf hashes of a file. -/
def cacheLeaves (digests : Digests) (file : Text × Bytes) : V2State UInt8 :=
  { empty with
    verifiedV2Hashes := [((fileRoot digests file.2, 0, 0), leafLayer digests.sha256 file.2)] }

theorem trueRegistrations_leaves {file : Text × Bytes} (member : file ∈ builder.files) :
    TrueRegistrations digests builder (cacheLeaves digests file) where
  trees _ _ known := nomatch known
  proofs _ _ _ known := nomatch known
  leaves root chunkIndex hashes cached := by
    cases mem_singleton.mp cached
    refine ⟨file, member, rfl, (leafLayer digests.sha256 file.2).length, ?_⟩
    rw [slice, drop_zero, take_length]

/-- What makes a block of an entry acceptable: on the wire it hashes like the entry's own block,
and the pieces root of the entry stands for no other content. -/
structure BlockAgrees (digests : Digests) (builder : TorrentBuilder) (entry : V1File) (root : Option (Hash UInt8))
    (block : Nat) (wire : Bytes) : Prop where
  hash : digests.sha256 wire = digests.sha256 (slice entry.content (block * blockSize) blockSize)
  own : ∀ hash ∈ root, hash = fileRoot digests entry.content
  leaves : blockSize < entry.content.length → ∀ hash ∈ root, ∀ file ∈ builder.files, fileRoot digests file.2 = hash →
    ∀ leaf ∈ (leafLayer digests.sha256 file.2)[block]?, leaf = digests.sha256 wire

variable {details : FileDetails UInt8} {wire : Bytes} {root : Hash UInt8}

theorem cachedLeaf_true (registered : TrueRegistrations digests builder v2) {leaf : Hash UInt8}
    (cached : v2.cachedLeaf root block = some leaf) :
    ∃ file ∈ builder.files, fileRoot digests file.2 = root ∧
      (leafLayer digests.sha256 file.2)[block]? = some leaf := by
  obtain ⟨⟨⟨entryRoot, baseLayer, chunkIndex⟩, hashes⟩, member, held⟩ := exists_of_findSome?_eq_some cached
  rw [entryLeaf] at held
  split at held
  case isTrue fits =>
    obtain ⟨rfl, rfl, below⟩ := fits
    obtain ⟨file, known, same, count, rfl⟩ := registered.leaves _ _ _ member
    refine ⟨file, known, same, ?_⟩
    rw [slice, getElem?_take, getElem?_drop, Nat.add_sub_cancel' below] at held
    split at held
    case isTrue => exact held
    case isFalse => cases held
  case isFalse => cases held

theorem acceptsBlock_of_agrees (registered : TrueRegistrations digests builder v2)
    (known : (builder.v1Files digests)[index]? = some entry) (length : details.length = entry.content.length)
    (inside : block < (fromBytes digests.sha256 entry.content).numBlocks)
    (agrees : BlockAgrees digests builder entry details.piecesRoot block wire) :
    AcceptsBlock digests.sha256 v2 index details block wire := by
  obtain ⟨hash, own, leaves⟩ := agrees
  rw [AcceptsBlock]
  cases tree : v2.fileMerkleTrees index with
  | some found =>
    obtain ⟨other, same, rfl⟩ := registered.trees index found tree
    cases known.symm.trans same
    exact (fromBytes_verifyBlock digests.sha256 inside wire).mpr hash
  | none =>
    cases rooted : details.piecesRoot with
    | none => trivial
    | some root =>
      have same := own root rooted
      cases proven : v2.fileMerkleProofs (index, block) with
      | some proof =>
        obtain ⟨other, listed, valid⟩ := registered.proofs index block proof proven
        cases known.symm.trans listed
        obtain ⟨_, found, climbed⟩ := fromBytes_proof digests.sha256 inside
        cases found.symm.trans valid
        rw [← hash] at climbed
        exact decide_eq_true (climbed.trans same.symm)
      | none =>
        dsimp only
        split
        case isTrue short =>
          rw [length] at short
          have nonempty := ne_nil_of_block
            (fromBytes_numBlocks digests.sha256 entry.content ▸ inside)
          rw [hash, slice_short digests.sha256 inside short, same]
          exact (fromBytes_root_short digests.sha256 nonempty short).symm
        case isFalse long =>
          intro leaf cached
          obtain ⟨file, added, sameRoot, found⟩ := cachedLeaf_true registered cached
          rw [length] at long
          exact (leaves (Nat.lt_of_not_le long) root rooted file added sameRoot leaf found).symm

theorem agrees_of_acceptsBlock (known : (builder.v1Files digests)[index]? = some entry)
    (length : details.length = entry.content.length)
    (inside : block < (fromBytes digests.sha256 entry.content).numBlocks)
    (accepts : ∀ v2, TrueRegistrations digests builder v2 → AcceptsBlock digests.sha256 v2 index details block wire) :
    BlockAgrees digests builder entry details.piecesRoot block wire := by
  have hash : digests.sha256 wire = digests.sha256 (slice entry.content (block * blockSize) blockSize) := by
    have accepted := accepts _ (trueRegistrations_tree known)
    simp only [AcceptsBlock, registerFileMerkleTree, update_self] at accepted
    exact (fromBytes_verifyBlock digests.sha256 inside wire).mp accepted
  obtain ⟨proof, valid, climbed⟩ := fromBytes_proof digests.sha256 inside
  have place : proof.blockIndex = block := by
    cases (Option.ite_none_left_eq_some.mp valid).2
    rfl
  have own : ∀ root ∈ details.piecesRoot, root = fileRoot digests entry.content := by
    intro root rooted
    have accepted := accepts _ (trueRegistrations_proof known valid place)
    simp only [AcceptsBlock, registerMerkleProof, empty, Option.mem_def.mp rooted, place,
      update_self] at accepted
    rw [← hash] at climbed
    exact (of_decide_eq_true accepted).symm.trans climbed
  refine ⟨hash, own, ?_⟩
  intro long root rooted file added sameRoot leaf found
  have accepted := accepts _ (trueRegistrations_leaves added)
  have cached : (cacheLeaves digests file).cachedLeaf root block = some leaf := by
    simp [cacheLeaves, cachedLeaf, entryLeaf, sameRoot, Option.mem_def.mp found]
  simp only [AcceptsBlock, cacheLeaves, empty, Option.mem_def.mp rooted, length,
    if_neg (Nat.not_le_of_lt long)] at accepted
  exact (accepted leaf cached).symm

section Download

variable {bytes : Bytes} {file : MetaInfoFile} {canonicalDownload : Bytes} {seeding : Bool} {config : SessionConfig}
  {pool : HashVerificationPool} {context : TorrentContext}

/-- The block of the v1 stream with a piece and a number in it. -/
def wireBlock (digests : Digests) (builder : TorrentBuilder) (piece block : Nat) : Bytes :=
  slice (builder.alignedStream digests) (piece * builder.pieceLength + block * blockSize) blockSize

/-- Every block of the v1 stream is accepted, under any true registrations. -/
def Downloads (digests : Digests) (builder : TorrentBuilder) (context : TorrentContext) : Prop :=
  ∀ v2, TrueRegistrations digests builder v2 → ∀ piece block, block * blockSize < builder.pieceLength →
    piece * builder.pieceLength + block * blockSize < (builder.alignedStream digests).length →
    verifyV2Block digests.sha256 context.filesToDownload context.pieceLength v2 piece block
      (wireBlock digests builder piece block) = .ok ()

/-- A block of the v1 stream agrees with the entry in which it starts. -/
def WireAgrees (digests : Digests) (builder : TorrentBuilder) (index : Nat) (entry : V1File) (piece block : Nat) : Prop :=
  BlockAgrees digests builder entry (assignedRoot digests builder (treeLeaves digests builder) index entry)
    ((piece * builder.pieceLength + block * blockSize - startOf digests builder index) / blockSize)
    (wireBlock digests builder piece block)

def BlocksAgree (digests : Digests) (builder : TorrentBuilder) : Prop :=
  ∀ index entry piece block, (builder.v1Files digests)[index]? = some entry → block * blockSize < builder.pieceLength →
    startOf digests builder index ≤ piece * builder.pieceLength + block * blockSize →
    piece * builder.pieceLength + block * blockSize < startOf digests builder index + entry.content.length →
    WireAgrees digests builder index entry piece block

section Opened

variable (nulFree : builder.NulFree) (built : builder.buildHybrid digests = .ok bytes)
  (parsed : parse digests (.fromBytes bytes) = .ok file)
  (opened : ofMetaInfo file canonicalDownload seeding config pool = .ok context)
include nulFree built parsed opened

theorem verifyV2Block_iff_agrees {piece : Nat} (known : (builder.v1Files digests)[index]? = some entry)
    (lower : startOf digests builder index ≤ piece * builder.pieceLength + block * blockSize)
    (upper : piece * builder.pieceLength + block * blockSize < startOf digests builder index + entry.content.length) :
    (∀ v2, TrueRegistrations digests builder v2 →
      verifyV2Block digests.sha256 context.filesToDownload context.pieceLength v2 piece block
        (wireBlock digests builder piece block) = .ok ()) ↔
      WireAgrees digests builder index entry piece block := by
  obtain ⟨total, _, _, listed, size, _⟩ := ofMetaInfo_eq_ok opened
  have same := getPieceLength_eq built parsed size
  obtain ⟨details, search, length, offset, root⟩ := find_entry nulFree built parsed listed known lower upper
  have inside : (piece * builder.pieceLength + block * blockSize - startOf digests builder index) / blockSize <
      (fromBytes digests.sha256 entry.content).numBlocks := by
    rw [fromBytes_numBlocks, blockSize] at *
    omega
  rw [← same] at search
  have verdict (v2 : V2State UInt8) := verifyV2Block_eq_ok_iff digests.sha256 v2
    (wireBlock digests builder piece block) search
  rw [offset, same] at verdict
  rw [WireAgrees, ← root]
  constructor
  · intro accepted
    apply agrees_of_acceptsBlock known length inside
    intro v2 registered
    rw [← verdict, ← same]
    exact accepted v2 registered
  · intro agrees v2 registered
    rw [same, verdict]
    exact acceptsBlock_of_agrees registered known length inside agrees

/-- A hybrid torrent can be downloaded exactly when its blocks agree with its files. -/
theorem downloads_iff_blocksAgree : Downloads digests builder context ↔ BlocksAgree digests builder := by
  constructor
  · intro downloads index entry piece block known small lower upper
    apply (verifyV2Block_iff_agrees nulFree built parsed opened known lower upper).mp
    intro v2 registered
    exact downloads v2 registered piece block small (upper.trans_le (startOf_add_le known))
  · intro agree v2 registered piece block small within
    rw [alignedStream_length] at within
    obtain ⟨index, entry, known, lower, upper⟩ := exists_entry within
    exact (verifyV2Block_iff_agrees nulFree built parsed opened known lower upper).mpr
      (agree index entry piece block known small lower upper) v2 registered

end Opened

theorem blockSize_dvd_pieceLength (valid : builder.validatePieceLength = .ok ()) : blockSize ∣ builder.pieceLength := by
  obtain ⟨large, power, _⟩ := validatePieceLength_eq_ok valid
  obtain ⟨levels, same⟩ := (isPowerOfTwo_iff (Nat.lt_of_lt_of_le blockSize_pos large)).mp power
  have size : blockSize = 2 ^ 14 := rfl
  rw [same, size] at large ⊢
  exact Nat.pow_dvd_pow 2 ((Nat.pow_le_pow_iff_right (by decide)).mp large)

theorem blocksAgree_single (valid : builder.validatePieceLength = .ok ()) (single : builder.isSingleFile = true) :
    BlocksAgree digests builder := by
  intro index entry piece block known _ _ upper
  obtain ⟨added, shape⟩ := isSingleFile_files single
  have files : builder.v1Files digests = [realEntry digests added] := v1Files_single single shape
  have stream : builder.alignedStream digests = added.2 := by
    rw [alignedStream, files, flatMap_singleton]
    rfl
  rw [files] at known
  cases index with
  | succ index => cases known
  | zero =>
    cases known
    have start : startOf digests builder 0 = 0 := rfl
    have aligned : (piece * builder.pieceLength + block * blockSize) / blockSize * blockSize =
        piece * builder.pieceLength + block * blockSize :=
      Nat.div_mul_cancel
        (Nat.dvd_add ((blockSize_dvd_pieceLength valid).mul_left piece) (Nat.dvd_mul_left blockSize block))
    rw [start, Nat.zero_add] at upper
    rw [WireAgrees, start, Nat.sub_zero]
    constructor
    · rw [aligned, wireBlock, stream]
      rfl
    · intro root assigned
      rw [assignedRoot] at assigned
      obtain ⟨_, assigned⟩ := Option.ite_none_left_eq_some.mp assigned
      rw [shape, rootUnder_cons, realEntry, if_pos rfl] at assigned
      cases assigned
      rfl
    · intro _ root _ file member _ leaf found
      rw [shape, mem_singleton] at member
      have inside : (piece * builder.pieceLength + block * blockSize) / blockSize <
          (fromBytes digests.sha256 added.2).numBlocks := by
        have bound : piece * builder.pieceLength + block * blockSize < added.2.length := upper
        rw [fromBytes_numBlocks, blockSize] at *
        omega
      rw [member, leafLayer_getElem? digests.sha256 inside, aligned] at found
      cases found
      rw [wireBlock, stream]

end Download

end TorrentBuilder

namespace HybridExample

open TorrentBuilder

def config : SessionConfig := ⟨false, false, false⟩

def pool : HashVerificationPool := ⟨0, 0, none, []⟩

/-- All strings alike, or strings of one byte told from all others. -/
def digests (telling : Bool) : Digests where
  sha1 _ := List.Vector.replicate 20 0
  sha256 bytes :=
    match bytes with
    | [_] => zeroHash
    | _ => List.Vector.replicate 32 (if telling then 1 else 0)

def padded : TorrentBuilder :=
  (((TorrentBuilder.new (text "t")).withPieceLength 16384).addFile (text "a") [7]).addFile (text "b") [8]

def tree : FileTreeNode := .directory [(text "a", .file 1 zeroHash), (text "b", .file 1 zeroHash)]

variable (telling : Bool)

theorem padded_tree : padded.buildV2FileTreeAndLayers (digests telling) = .ok (tree, []) := by rfl

theorem padded_v1Files : padded.v1Files (digests telling) =
    [realEntry (digests telling) (text "a", [7]), padFile 16383,
      realEntry (digests telling) (text "b", [8]), padFile 16383] := by
  rfl

theorem padded_stream : padded.alignedStream (digests telling) =
    7 :: (replicate 16383 0 ++ 8 :: replicate 16383 0) := by
  rw [alignedStream, padded_v1Files, flatMap_cons, flatMap_cons, flatMap_cons, flatMap_singleton, realEntry, realEntry,
    padFile, singleton_append, singleton_append]

theorem padded_length : (padded.alignedStream (digests telling)).length = 32768 := by
  rw [padded_stream, length_cons, length_append, length_cons, length_replicate]

theorem padded_pieces : padded.v1Pieces (digests telling) = replicate 40 0 := by
  have two : (32768 + 16384 - 1) / 16384 = 2 := by decide
  have size : padded.pieceLength = 16384 := rfl
  rw [v1Pieces, chunks, padded_length, size, two]
  rfl

def padItem : BNode := .dictionary [(ascii "attr", .string (ascii "p")), (ascii "length", .number (decimal 16383)),
  (ascii "path", .list [.string (utf8 (text ".pad")), .string (utf8 (numeral 16383))])]

def oneByteItem (name : Text) : BNode := .dictionary [(ascii "length", .number (decimal 1)),
  (ascii "path", .list [.string (utf8 name)]), (ascii "pieces root", .string (replicate 32 0))]

def paddedInfo : Entries :=
  [(ascii "file tree", tree.toBNode), (ascii "meta version", .number (decimal 2)),
    (ascii "name", .string (utf8 (text "t"))), (ascii "piece length", .number (decimal 16384)),
    (ascii "pieces", .string (replicate 40 0)),
    (ascii "files", .list [oneByteItem (text "a"), padItem, oneByteItem (text "b"), padItem])]

theorem padded_infoEntries : padded.infoEntries (digests telling) tree = paddedInfo := by
  rw [infoEntries, v1Fields, padded_pieces, padded_v1Files]
  have pad : (padFile 16383).toBNode = padItem := by
    rw [V1File.toBNode, padFile, length_replicate]
    rfl
  rw [map_cons, map_cons, map_cons, map_singleton, pad]
  rfl

def paddedRoot : Entries :=
  [(ascii "announce", .string (ascii "http://tracker.example.com/announce")),
   (ascii "info", .dictionary (sortByKey paddedInfo))]

theorem padded_built : padded.buildHybrid (digests telling) = .ok (encode (.dictionary (sortByKey paddedRoot))) := by
  have root : padded.rootEntries (digests telling) tree [] = paddedRoot := by
    rw [rootEntries, padded_infoEntries]
    rfl
  have valid : padded.validatePieceLength = .ok () := by rfl
  rw [buildHybrid, withTree, valid, padded_tree]
  simp only [root]
  rw [if_neg]
  rw [padded_length]
  decide

theorem padded_opened : ∃ file context,
    parse (digests telling) (.fromBytes (encode (.dictionary (sortByKey paddedRoot)))) = .ok file ∧
      ofMetaInfo file (ascii "/d") false config pool = .ok context := by
  have good : ((parse (digests telling) (.fromBytes (encode (.dictionary (sortByKey paddedRoot))))).bind fun file =>
      ofMetaInfo file (ascii "/d") false config pool).isOk = true := by
    cases telling <;> decide +kernel
  obtain ⟨context, ran⟩ := exists_of_isOk good
  obtain ⟨file, opened⟩ := bind_eq_ok.mp ran
  exact ⟨file, context, opened⟩

theorem padded_nulFree : padded.NulFree := by
  rw [NulFree, padded]
  decide

/-- Where all strings have one hash, every block agrees, also those of the pad files. -/
theorem padded_agree : BlocksAgree (digests false) padded := by
  have constant (bytes : Bytes) : (digests false).sha256 bytes = zeroHash := by
    simp only [digests]
    split <;> rfl
  intro index entry piece block known _ _ _
  rw [padded_v1Files] at known
  have pad : (padFile 16383).content ≠ [] ∧ (padFile 16383).content.length ≤ blockSize := by
    rw [padFile, length_replicate]
    exact ⟨cons_ne_nil _ _, by decide⟩
  have settled : (entry.content ≠ [] ∧ entry.content.length ≤ blockSize) ∧
      ∀ hash ∈ assignedRoot (digests false) padded (tree.leaves []) index entry, hash = zeroHash := by
    rcases index with _ | _ | _ | _ | index <;> cases known
    · exact ⟨⟨cons_ne_nil _ _, by decide⟩, fun hash given => (Option.some.inj given).symm⟩
    · exact ⟨pad, fun hash given => (Option.some.inj given).symm⟩
    · exact ⟨⟨cons_ne_nil _ _, by decide⟩, fun hash given => (Option.some.inj given).symm⟩
    · exact ⟨pad, fun hash given => by cases given⟩
  obtain ⟨short, rooted⟩ := settled
  rw [WireAgrees, treeLeaves, padded_tree]
  constructor
  · rw [constant, constant]
  · intro hash given
    rw [rooted hash given, fileRoot, fromBytes_root_short _ short.1 short.2, constant]
  · intro long
    omega

theorem downloads_padded : ∃ bytes file context, padded.buildHybrid (digests false) = .ok bytes ∧
    parse (digests false) (.fromBytes bytes) = .ok file ∧
    ofMetaInfo file (ascii "/d") false config pool = .ok context ∧
    Downloads (digests false) padded context := by
  obtain ⟨file, context, parsed, opened⟩ := padded_opened false
  exact ⟨_, file, context, padded_built false, parsed, opened,
    (downloads_iff_blocksAgree padded_nulFree (padded_built false) parsed opened).mpr padded_agree⟩

theorem padded_hash : (digests true).sha256 (wireBlock (digests true) padded 0 0) = List.Vector.replicate 32 1 := by
  have wire : wireBlock (digests true) padded 0 0 = 7 :: 0 :: replicate 16382 0 := by
    rw [wireBlock, padded_stream, Nat.zero_mul, Nat.zero_mul, Nat.zero_add, ← cons_append]
    exact @slice_append_middle _ [] (7 :: replicate 16383 0) _ 0 _ rfl (by rw [length_cons, length_replicate]; rfl)
  rw [wire]
  rfl

/-- The one byte of the file comes with the zeros of its pad file, and the pieces root is the hash
of the byte alone. -/
theorem padded_block_refused : ∃ bytes file context, padded.buildHybrid (digests true) = .ok bytes ∧
    parse (digests true) (.fromBytes bytes) = .ok file ∧
    ofMetaInfo file (ascii "/d") false config pool = .ok context ∧
    TrueRegistrations (digests true) padded .empty ∧ 0 * blockSize < padded.pieceLength ∧
    0 * padded.pieceLength + 0 * blockSize < (padded.alignedStream (digests true)).length ∧
    verifyV2Block (digests true).sha256 context.filesToDownload context.pieceLength .empty 0 0
      (wireBlock (digests true) padded 0 0) ≠ .ok () := by
  obtain ⟨file, context, parsed, opened⟩ := padded_opened true
  obtain ⟨total, _, _, listed, size, _⟩ := ofMetaInfo_eq_ok opened
  have known : (padded.v1Files (digests true))[0]? = some (realEntry (digests true) (text "a", [7])) := by
    rw [padded_v1Files]
    rfl
  refine ⟨_, file, context, padded_built true, parsed, opened, trueRegistrations_empty, by decide, ?_, ?_⟩
  · rw [padded_length]
    decide
  · obtain ⟨details, search, length, _, root⟩ :=
      find_entry padded_nulFree (padded_built true) parsed listed known (Nat.zero_le 0) (by decide)
    have found : context.filesToDownload.zipIdx.find?
        (fun entry => entry.1.spans (0 * context.pieceLength + 0 * blockSize)) = some (details, 0) := by
      rw [Nat.zero_mul, Nat.zero_mul]
      exact search
    have rooted : details.piecesRoot = some zeroHash := root
    have short : details.length ≤ blockSize := by
      rw [length]
      decide
    rw [ne_eq, verifyV2Block_eq_ok_iff (digests true).sha256 _ _ found]
    simp only [AcceptsBlock, empty, rooted, if_pos short, padded_hash]
    decide

end HybridExample

end BitTorrent
