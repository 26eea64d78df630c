import BitTorrent.Core.PieceLayers
import BitTorrent.Core.V2Verification
import BitTorrent.Library.Runs
import BitTorrent.Storage.LayersCoherence

/-! # Answering hash requests from trees, the cache and piece layers

The part of `core/torrent_context.rs` that registers trees and piece layers and answers
`hash_request` messages.  Layers that are rebuilt from a piece layer have the pieces at the bottom,
those of a tree the blocks, and both are kept under the root of the file.
-/

namespace BitTorrent

open MerkleTree List

structure HashService where
  v2 : V2State UInt8
  filesToDownload : Files
  pieceLayers : Hash UInt8 → Option (List (Hash UInt8))
  cacheEnabled : Bool
  cache : PieceLayersDiskCache

namespace HashService

variable (sha256 : Bytes → Hash UInt8)

/-- What a new context does over the directory of layer files, with the piece layers of its metainfo. -/
def new (disk : LayerFiles) (maxMemoryMb : Nat) (cacheEnabled : Bool) (filesToDownload : Files)
    (pieceLayers : List (Hash UInt8 × List (Hash UInt8))) : HashService where
  v2 := .empty
  filesToDownload
  pieceLayers root := (pieceLayers.find? fun entry => entry.1 = root).map Prod.snd
  cacheEnabled
  cache :=
    if cacheEnabled then
      pieceLayers.foldl (fun cache entry => (cache.savePieceLayer sha256 entry.1 entry.2).1) (.new disk maxMemoryMb)
    else .new disk maxMemoryMb

variable (service : HashService)

def registerFileMerkleTree (fileIndex : Nat) (tree : MerkleTree UInt8) : HashService :=
  { service with
    v2 := service.v2.registerFileMerkleTree fileIndex tree
    cache := if service.cacheEnabled then (service.cache.saveLayers sha256 tree.root tree.layers).1 else service.cache }

def registerPieceLayer (piecesRoot : Hash UInt8) (layer : List (Hash UInt8)) : HashService :=
  { service with
    pieceLayers := Function.update service.pieceLayers piecesRoot (some layer)
    cache := if service.cacheEnabled then (service.cache.savePieceLayer sha256 piecesRoot layer).1 else service.cache }

/-- The first answer of a registered tree with the root, and then of one that stands under the
index of a file with the root.  `order` is the order in which the hash map gives its keys. -/
def registeredResponse (order : List Nat) (piecesRoot : Hash UInt8)
    (baseLayer index length proofLayers : Nat) : Option Bytes :=
  (order.findSome? fun fileIndex =>
    (service.v2.fileMerkleTrees fileIndex).bind fun tree =>
      if tree.root = piecesRoot then tree.generateHashesResponse baseLayer index length proofLayers else none) <|>
  service.filesToDownload.zipIdx.findSome? fun entry =>
    if entry.1.piecesRoot = some piecesRoot then
      (service.v2.fileMerkleTrees entry.2).bind fun tree =>
        tree.generateHashesResponse baseLayer index length proofLayers
    else none

def cachedResponse (piecesRoot : Hash UInt8) (baseLayer index length proofLayers : Nat) :
    HashService × Option Bytes :=
  if service.cacheEnabled then
    let (cache, response) := service.cache.serveHashRequest sha256 piecesRoot baseLayer index length proofLayers
    ({ service with cache }, response)
  else (service, none)

def savedPieceLayer (piecesRoot : Hash UInt8) (pieceLayer : List (Hash UInt8)) : HashService :=
  if service.cacheEnabled then
    { service with cache := (service.cache.savePieceLayer sha256 piecesRoot pieceLayer).1 }
  else service

def handleHashRequest (order : List Nat) (piecesRoot : Hash UInt8)
    (baseLayer index length proofLayers : Nat) : HashService × Except Unit Bytes :=
  match service.registeredResponse order piecesRoot baseLayer index length proofLayers with
  | some response => (service, .ok response)
  | none =>
    match service.cachedResponse sha256 piecesRoot baseLayer index length proofLayers with
    | (service, some response) => (service, .ok response)
    | (service, none) =>
      match service.pieceLayers piecesRoot with
      | none => (service, .error ())
      | some pieceLayer =>
        match (service.savedPieceLayer sha256 piecesRoot pieceLayer).cachedResponse sha256 piecesRoot
            baseLayer index length proofLayers with
        | (service, some response) => (service, .ok response)
        | (service, none) =>
          let (reconstructed, calcRoot) := reconstructTreeFromPieceLayer sha256 pieceLayer
          if calcRoot = piecesRoot then
            match generateHashesResponseFromLayers reconstructed baseLayer index length proofLayers with
            | some response => (service, .ok response)
            | none => (service, .error ())
          else (service, .error ())

/-- What can happen to the service.  `restart` is a new context over the same directory. -/
inductive Event where
  | registerTree (fileIndex : Nat) (tree : MerkleTree UInt8)
  | registerLayer (piecesRoot : Hash UInt8) (layer : List (Hash UInt8))
  | request (order : List Nat) (piecesRoot : Hash UInt8) (baseLayer index length proofLayers : Nat)
  | reload (piecesRoot : Hash UInt8)
  | remove (piecesRoot : Hash UInt8)
  | prune (entries : List (Hash UInt8)) (maxFiles maxBytes : Nat)
  | clear (entries : List (Hash UInt8))
  | restart (maxMemoryMb : Nat) (cacheEnabled : Bool) (pieceLayers : List (Hash UInt8 × List (Hash UInt8)))

def step : Event → HashService
  | .registerTree fileIndex tree => service.registerFileMerkleTree sha256 fileIndex tree
  | .registerLayer piecesRoot layer => service.registerPieceLayer sha256 piecesRoot layer
  | .request order piecesRoot baseLayer index length proofLayers =>
    (service.handleHashRequest sha256 order piecesRoot baseLayer index length proofLayers).1
  | .reload piecesRoot => { service with cache := (service.cache.loadLayers sha256 piecesRoot).1 }
  | .remove piecesRoot => { service with cache := service.cache.remove piecesRoot }
  | .prune entries maxFiles maxBytes => { service with cache := service.cache.prune entries maxFiles maxBytes }
  | .clear entries => { service with cache := service.cache.clear entries }
  | .restart maxMemoryMb cacheEnabled pieceLayers =>
    new sha256 service.cache.disk maxMemoryMb cacheEnabled service.filesToDownload pieceLayers

end HashService

section Response

variable {β : Type} [Zero β]

theorem hashesResponse_single (root : Hash β) (baseLayer index length proofLayers : Nat) :
    hashesResponse [[root]] baseLayer index length proofLayers = none := by
  rw [hashesResponse]
  split
  case isTrue => rfl
  case isFalse valid =>
    split
    case isTrue => rfl
    case isFalse =>
      split
      case h_1 => rfl
      case h_2 layer known =>
        have single : layer = [root] := mem_singleton.mp (mem_of_getElem? known)
        rw [if_pos]
        rw [single, length_singleton]
        omega

end Response

variable {layer : List (Hash UInt8)} {bytes : Bytes} {pieceLength : Nat}

namespace MerkleTree

/-- Layers that answer requests only as the tree does: its own, or its root alone. -/
def Layered (tree : MerkleTree UInt8) (layers : Layers) : Prop :=
  layers = tree.layers ∨ layers = [[tree.root]]

variable {sha256 : Bytes → Hash UInt8} {tree : MerkleTree UInt8} {layers : Layers} {data : Bytes}

theorem Layered.response {baseLayer index length proofLayers : Nat} (layered : tree.Layered layers)
    (answer : generateHashesResponseFromLayers layers baseLayer index length proofLayers = some bytes) :
    tree.generateHashesResponse baseLayer index length proofLayers = some bytes := by
  rcases layered with rfl | rfl
  · exact answer
  · rw [generateHashesResponseFromLayers, hashesResponse_single] at answer
    cases answer

theorem Layered.format (small : nextPowerOfTwo ((data.length + blockSize - 1) / blockSize) < 2 ^ 32)
    (layered : (fromBytes sha256 data).Layered layers) :
    layers.length < 2 ^ 32 ∧ ∀ layer ∈ layers, layer.length < 2 ^ 32 := by
  rcases layered with rfl | rfl
  · by_cases empty : data = []
    · rw [empty]
      exact ⟨Nat.two_pow_pos 32, fun layer member => nomatch member⟩
    · rw [nextPowerOfTwo, ← leaves_length sha256] at small
      have height := (Nat.pow_lt_pow_iff_right (a := 2) (by decide)).mp small
      rw [fromBytes_eq sha256 empty, fromLeafHashes_layers sha256 (leaves_ne_nil sha256 empty)]
      refine ⟨by rw [length_map, length_range]; omega, ?_⟩
      intro layer member
      obtain ⟨level, range, rfl⟩ := mem_map.mp member
      have inside : level ≤ Nat.clog 2 ((Chunks.chunks blockSize data).map sha256).length :=
        Nat.lt_succ_iff.mp (mem_range.mp range)
      rw [HashTree.layer_length _ _ _ (padLeaves_length _) inside]
      exact (Nat.pow_le_pow_right (by decide) (Nat.sub_le _ _)).trans_lt small
  · have one : 1 < 2 ^ 32 := by decide
    refine ⟨one, fun layer member => ?_⟩
    rw [mem_singleton.mp member]
    exact one

/-- A piece layer of single blocks, or of a single piece, leads back to layers of the tree. -/
theorem layered_pieceLayer (known : (fromBytes sha256 data).pieceLayer pieceLength = .ok layer)
    (plain : pieceLength = blockSize ∨ data.length ≤ pieceLength) :
    (fromBytes sha256 data).Layered (reconstructTreeFromPieceLayer sha256 layer).1 := by
  have valid : blockSize ≤ pieceLength ∧ isPowerOfTwo pieceLength = true := by
    by_contra invalid
    rw [pieceLayer, if_pos] at known
    · cases known
    · rw [Bool.not_eq_true', ← Bool.not_eq_true, ← Nat.not_le]
      exact Decidable.not_and_iff_or_not.mp invalid
  obtain ⟨large, power⟩ := valid
  by_cases empty : data = []
  · rw [empty] at known ⊢
    rw [pieceLayer, if_neg (by rw [power]; simpa using large)] at known
    cases known
    exact .inr rfl
  · have leaves := leaves_ne_nil sha256 empty
    have count := leaves_length sha256 data
    rw [fromBytes_eq sha256 empty, fromLeafHashes_pieceLayer sha256 large power leaves, Except.ok.injEq] at known
    rw [fromBytes_eq sha256 empty, Layered]
    rcases plain with blocks | single
    · left
      have bottom : Nat.log 2 (pieceLength / blockSize) = 0 := by
        rw [blocks, Nat.div_self blockSize_pos, Nat.log_one_right]
      rw [bottom, if_pos (Nat.zero_le _), HashTree.layer_zero, blocks, ← count, padLeaves, take_left] at known
      rw [← known, reconstructTreeFromPieceLayer_eq sha256 _ data.length]
    · right
      have root : layer = [rootOfHashes sha256 ((Chunks.chunks blockSize data).map sha256)] := by
        split at known
        case isFalse => exact known.symm
        case isTrue inside =>
          have few : (data.length + blockSize - 1) / blockSize ≤ 2 ^ Nat.log 2 (pieceLength / blockSize) := by
            rw [Chunks.ceil_le_iff blockSize_pos, ← pieceLength_eq large power]
            exact single
          rw [← count] at few
          have top : Nat.log 2 (pieceLength / blockSize) = Nat.clog 2 ((Chunks.chunks blockSize data).map sha256).length :=
            inside.antisymm ((Nat.clog_le_iff_le_pow (by decide)).mpr few)
          have bytes := length_pos_of_ne_nil empty
          have one : 1 ≤ (data.length + pieceLength - 1) / pieceLength :=
            Nat.div_pos (by omega) (blockSize_pos.trans_le large)
          rw [top, rootOfHashes_top sha256 leaves, take_of_length_le one] at known
          exact known.symm
      rw [root, fromLeafHashes_root_eq]
      rfl

end MerkleTree

namespace HashService

variable (sha256 : Bytes → Hash UInt8)

/-- An event that gives the root of `tree` only the tree itself and its true piece layers. -/
def Truthful (tree : MerkleTree UInt8) (pieceLength : Nat) (service : HashService) : Event → Prop
  | .registerTree fileIndex other =>
    other.root = tree.root ∨ (∃ file, service.filesToDownload[fileIndex]? = some file ∧ file.piecesRoot = some tree.root) →
      other = tree
  | .registerLayer piecesRoot layer => piecesRoot = tree.root → tree.pieceLayer pieceLength = .ok layer
  | .restart _ _ pieceLayers => ∀ layer, (tree.root, layer) ∈ pieceLayers → tree.pieceLayer pieceLength = .ok layer
  | _ => True

/-- Whatever the service has for the root answers as the tree does. -/
structure Faithful (tree : MerkleTree UInt8) (service : HashService) : Prop where
  trees : ∀ fileIndex other, service.v2.fileMerkleTrees fileIndex = some other →
    other.root = tree.root ∨ (∃ file, service.filesToDownload[fileIndex]? = some file ∧ file.piecesRoot = some tree.root) →
    other = tree
  layers : ∀ layer, service.pieceLayers tree.root = some layer →
    tree.Layered (reconstructTreeFromPieceLayer sha256 layer).1
  cache : service.cache.Holds sha256 tree.Layered tree.root

variable {sha256} {tree : MerkleTree UInt8} {service : HashService}
  {baseLayer index length proofLayers : Nat}
  {pieceLayers : List (Hash UInt8 × List (Hash UInt8))} {cache : PieceLayersDiskCache} {piecesRoot : Hash UInt8}
  {order : List Nat}

section

variable (faithful : Faithful sha256 tree service)
include faithful

theorem Faithful.registeredResponse
    (answer : service.registeredResponse order tree.root baseLayer index length proofLayers = some bytes) :
    tree.generateHashesResponse baseLayer index length proofLayers = some bytes := by
  rw [HashService.registeredResponse, Option.orElse_eq_some] at answer
  rcases answer with first | ⟨-, second⟩
  · obtain ⟨fileIndex, -, found⟩ := exists_of_findSome?_eq_some first
    obtain ⟨other, known, answer⟩ := Option.bind_eq_some_iff.mp found
    split at answer
    case isTrue same =>
      cases faithful.trees fileIndex other known (.inl same)
      exact answer
    case isFalse => cases answer
  · obtain ⟨⟨file, fileIndex⟩, member, found⟩ := exists_of_findSome?_eq_some second
    split at found
    case isTrue same =>
      obtain ⟨other, known, answer⟩ := Option.bind_eq_some_iff.mp found
      have place := mk_mem_zipIdx_iff_getElem?.mp member
      cases faithful.trees fileIndex other known (.inr ⟨file, place, same⟩)
      exact answer
    case isFalse => cases found

/-- Good layers of the root survive the file format. -/
def Storable (tree : MerkleTree UInt8) : Prop :=
  ∀ layers, tree.Layered layers → layers.length < 2 ^ 32 ∧ ∀ layer ∈ layers, layer.length < 2 ^ 32

theorem Faithful.withCache
    (holds : cache.Holds sha256 tree.Layered tree.root) : Faithful sha256 tree { service with cache } where
  trees := faithful.trees
  layers := faithful.layers
  cache := holds

theorem Faithful.cachedResponse (storable : Storable tree) {piecesRoot : Hash UInt8} :
    Faithful sha256 tree (service.cachedResponse sha256 piecesRoot baseLayer index length proofLayers).1 ∧
      (piecesRoot = tree.root → ∀ bytes,
        (service.cachedResponse sha256 piecesRoot baseLayer index length proofLayers).2 = some bytes →
        tree.generateHashesResponse baseLayer index length proofLayers = some bytes) := by
  rw [HashService.cachedResponse]
  split
  case isTrue =>
    obtain ⟨holds, good⟩ := @PieceLayersDiskCache.Holds.serveHashRequest _ _ _ piecesRoot _ faithful.cache storable
      baseLayer index length proofLayers
    refine ⟨faithful.withCache holds, ?_⟩
    intro same bytes answer
    obtain ⟨layers, layered, answer⟩ := good same.symm bytes answer
    exact layered.response answer
  case isFalse => exact ⟨faithful, fun _ _ answer => nomatch answer⟩

theorem Faithful.savedPieceLayer (known : service.pieceLayers piecesRoot = some layer) :
    Faithful sha256 tree (service.savedPieceLayer sha256 piecesRoot layer) := by
  rw [HashService.savedPieceLayer]
  split
  case isTrue =>
    refine faithful.withCache (faithful.cache.saveLayers ?_)
    rintro rfl
    exact faithful.layers layer known
  case isFalse => exact faithful

/-- A request leaves the service faithful, and an answer for the root is the one of the tree. -/
theorem Faithful.handleHashRequest (storable : Storable tree) :
    Faithful sha256 tree (service.handleHashRequest sha256 order piecesRoot baseLayer index length proofLayers).1 ∧
      (piecesRoot = tree.root → ∀ bytes,
        (service.handleHashRequest sha256 order piecesRoot baseLayer index length proofLayers).2 = .ok bytes →
        tree.generateHashesResponse baseLayer index length proofLayers = some bytes) := by
  rw [HashService.handleHashRequest]
  split
  case h_1 response registered =>
    refine ⟨faithful, ?_⟩
    rintro rfl bytes answer
    cases answer
    exact faithful.registeredResponse registered
  case h_2 =>
    have first := @Faithful.cachedResponse _ _ _ baseLayer index length proofLayers faithful storable piecesRoot
    split
    case h_1 after response cached =>
      rw [cached] at first
      refine ⟨first.1, ?_⟩
      intro same bytes answer
      cases answer
      exact first.2 same response rfl
    case h_2 after cached =>
      rw [cached] at first
      have kept := first.1
      split
      case h_1 => exact ⟨kept, fun _ _ answer => nomatch answer⟩
      case h_2 layer known =>
        have second := @Faithful.cachedResponse _ _ _ baseLayer index length proofLayers (kept.savedPieceLayer known)
          storable piecesRoot
        split
        case h_1 last response again =>
          rw [again] at second
          refine ⟨second.1, ?_⟩
          intro same bytes answer
          cases answer
          exact second.2 same response rfl
        case h_2 last again =>
          rw [again] at second
          have final := second.1
          dsimp only
          split
          case isTrue =>
            split
            case h_1 response generated =>
              refine ⟨final, ?_⟩
              rintro rfl bytes answer
              cases answer
              exact (kept.layers layer known).response generated
            case h_2 => exact ⟨final, fun _ _ answer => nomatch answer⟩
          case isFalse => exact ⟨final, fun _ _ answer => nomatch answer⟩

omit faithful in
theorem holds_savePieceLayers (holds : cache.Holds sha256 tree.Layered tree.root)
    (good : ∀ layer, (tree.root, layer) ∈ pieceLayers → tree.Layered (reconstructTreeFromPieceLayer sha256 layer).1) :
    (pieceLayers.foldl (fun cache entry => (cache.savePieceLayer sha256 entry.1 entry.2).1) cache).Holds sha256
      tree.Layered tree.root := by
  induction pieceLayers generalizing cache with
  | nil => exact holds
  | cons entry rest ih =>
    obtain ⟨root, layer⟩ := entry
    refine ih (holds.saveLayers ?_) fun layer member => good layer (mem_cons_of_mem _ member)
    rintro rfl
    exact good layer mem_cons_self

omit faithful in
theorem Faithful.new {disk : LayerFiles} {maxMemoryMb : Nat} {cacheEnabled : Bool}
    {filesToDownload : Files} (stored : ∀ bytes, disk.files tree.root = some bytes →
      ∃ layers, tree.Layered layers ∧ bytes = encodeLayers sha256 tree.root layers)
    (good : ∀ layer, (tree.root, layer) ∈ pieceLayers → tree.Layered (reconstructTreeFromPieceLayer sha256 layer).1) :
    Faithful sha256 tree (HashService.new sha256 disk maxMemoryMb cacheEnabled filesToDownload pieceLayers) where
  trees _ _ known := nomatch known
  layers layer known := by
    obtain ⟨⟨root, found⟩, first, rfl⟩ := Option.map_eq_some_iff.mp known
    have same := find?_some first
    rw [decide_eq_true_eq] at same
    cases same
    exact good found (mem_of_find?_eq_some first)
  cache := by
    have fresh : (PieceLayersDiskCache.new disk maxMemoryMb).Holds sha256 tree.Layered tree.root :=
      ⟨fun _ known => (nomatch known), stored⟩
    rw [HashService.new]
    split
    case isTrue => exact holds_savePieceLayers fresh good
    case isFalse => exact fresh

theorem Faithful.step (storable : Storable tree) (plain : ∀ layer, tree.pieceLayer pieceLength = .ok layer →
      tree.Layered (reconstructTreeFromPieceLayer sha256 layer).1)
    (event : Event) (truthful : Truthful tree pieceLength service event) :
    Faithful sha256 tree (service.step sha256 event) := by
  cases event with
  | registerTree fileIndex other =>
    refine ⟨?_, faithful.layers, ?_⟩
    · intro place found known named
      rcases of_update_eq_some known with ⟨rfl, same⟩ | old
      · cases same
        exact truthful named
      · exact faithful.trees place found old named
    · rw [HashService.step, registerFileMerkleTree]
      split
      case isTrue =>
        refine faithful.cache.saveLayers fun same => ?_
        rw [truthful (.inl same.symm)]
        exact .inl rfl
      case isFalse => exact faithful.cache
  | registerLayer piecesRoot layer =>
    have good (same : tree.root = piecesRoot) := plain layer (truthful same.symm)
    refine ⟨faithful.trees, ?_, ?_⟩
    · intro found known
      rcases of_update_eq_some known with ⟨same, value⟩ | old
      · cases value
        exact good same
      · exact faithful.layers found old
    · rw [HashService.step, registerPieceLayer]
      split
      case isTrue => exact faithful.cache.saveLayers good
      case isFalse => exact faithful.cache
  | request order piecesRoot baseLayer index length proofLayers =>
    exact (faithful.handleHashRequest storable).1
  | reload piecesRoot => exact faithful.withCache (faithful.cache.loadLayers storable).1
  | remove piecesRoot => exact faithful.withCache faithful.cache.remove
  | prune entries maxFiles maxBytes => exact faithful.withCache (faithful.cache.prune entries maxFiles maxBytes)
  | clear entries => exact faithful.withCache (faithful.cache.clear entries)
  | restart maxMemoryMb cacheEnabled pieceLayers =>
    exact .new faithful.cache.disk fun layer member => plain layer (truthful layer member)

end

/-- In a run in which every piece layer of the file is one of single blocks or of a single piece,
an answer for its root is the one of its tree, wherever it comes from. -/
theorem handleHashRequest_answers {data : Bytes} {pieceLength : Nat}
    (small : nextPowerOfTwo ((data.length + blockSize - 1) / blockSize) < 2 ^ 32)
    (plain : pieceLength = blockSize ∨ data.length ≤ pieceLength) {disk : LayerFiles}
    (fresh : disk.files (fromBytes sha256 data).root = none) {maxMemoryMb : Nat} {cacheEnabled : Bool}
    {filesToDownload : Files} {pieceLayers : List (Hash UInt8 × List (Hash UInt8))}
    (named : ∀ layer, ((fromBytes sha256 data).root, layer) ∈ pieceLayers →
      (fromBytes sha256 data).pieceLayer pieceLength = .ok layer)
    (run : Runs.Reaches (step sha256) (Truthful (fromBytes sha256 data) pieceLength)
      (HashService.new sha256 disk maxMemoryMb cacheEnabled filesToDownload pieceLayers) service)
    {order : List Nat} {bytes : Bytes}
    (answered : (service.handleHashRequest sha256 order (fromBytes sha256 data).root baseLayer index length
      proofLayers).2 = .ok bytes) :
    (fromBytes sha256 data).generateHashesResponse baseLayer index length proofLayers = some bytes := by
  have storable : Storable (fromBytes sha256 data) := fun _ layered => layered.format small
  have layered (layer : List (Hash UInt8))
      (known : (fromBytes sha256 data).pieceLayer pieceLength = .ok layer) :=
    layered_pieceLayer known plain
  have faithful := run.invariant (Faithful sha256 (fromBytes sha256 data))
    (.new (fun bytes known => by rw [fresh] at known; cases known) fun layer member => layered layer (named layer member))
    fun _ event faithful truthful => faithful.step storable layered event truthful
  exact (faithful.handleHashRequest storable).2 rfl bytes answered

end HashService

section Example

/-- Two hashes together hash to ones, every other string to zeros. -/
def pairHash (bytes : Bytes) : Hash UInt8 :=
  if bytes.length = 64 then List.Vector.replicate 32 1 else zeroHash

def zeroFile (length : Nat) : Bytes := replicate length 0

theorem zeroFile_tree : fromBytes pairHash (zeroFile 65536) =
    fromLeafHashes pairHash (replicate 4 zeroHash) 65536 := by
  have size : (zeroFile 65536).length = 65536 := length_replicate
  have blocks : (Chunks.chunks blockSize (zeroFile 65536)).map pairHash = replicate 4 zeroHash := by
    refine eq_replicate_iff.mpr ⟨?_, ?_⟩
    · rw [leaves_length, size]
      rfl
    · intro hash member
      obtain ⟨block, chunk, rfl⟩ := mem_map.mp member
      obtain ⟨index, range, rfl⟩ := mem_map.mp chunk
      rw [pairHash, if_neg]
      rw [Chunks.slice_length, size, blockSize]
      omega
  rw [fromBytes_eq _ (ne_nil_of_length_pos (by rw [size]; decide)), blocks, size]

theorem handleHashRequest_answers_registered :
    (fromBytes pairHash (zeroFile 65536)).generateHashesResponse 0 0 2 0 = some (replicate 64 0) := by
  have small : nextPowerOfTwo (((zeroFile 65536).length + blockSize - 1) / blockSize) < 2 ^ 32 := by
    rw [zeroFile, length_replicate]
    decide +kernel
  have answered : (((HashService.new pairHash ⟨fun _ => none, []⟩ 1 true [] []).step pairHash
      (.registerTree 0 (fromBytes pairHash (zeroFile 65536)))).handleHashRequest pairHash [0]
      (fromBytes pairHash (zeroFile 65536)).root 0 0 2 0).2 = .ok (replicate 64 0) := by
    rw [zeroFile_tree]
    decide +kernel
  refine HashService.handleHashRequest_answers small (.inl rfl) rfl (fun _ member => absurd member not_mem_nil)
    (.next .refl _ ?_) answered
  exact fun _ => rfl

/-- A file of four blocks in two pieces.  Once its piece layer is registered, the two piece hashes
are sent for a request of the first two leaf hashes. -/
theorem pieceLayer_sent_as_leaves :
    ∃ layer, (fromBytes pairHash (zeroFile 65536)).pieceLayer 32768 = .ok layer ∧
      ∃ bytes, (((HashService.new pairHash ⟨fun _ => none, []⟩ 1 true [] []).registerPieceLayer pairHash
          (fromBytes pairHash (zeroFile 65536)).root layer).handleHashRequest pairHash []
          (fromBytes pairHash (zeroFile 65536)).root 0 0 2 0).2 = .ok bytes ∧
        (fromBytes pairHash (zeroFile 65536)).generateHashesResponse 0 0 2 0 ≠ some bytes := by
  rw [zeroFile_tree]
  refine ⟨replicate 2 (List.Vector.replicate 32 1), by decide +kernel, replicate 64 1, by decide +kernel,
    by decide +kernel⟩

end Example

end BitTorrent
