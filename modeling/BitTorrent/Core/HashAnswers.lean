import BitTorrent.Core.HashService

/-! # Which layers answer a hash request

`handle_hash_request` asks one stack of layers after the other.  The first that covers the request
answers it, and the size of the answer depends on the height of that stack.
-/

namespace BitTorrent

open List

section Stack

variable {β : Type} [Zero β] {layers : List (List (Hash β))} {baseLayer index length proofLayers : Nat}

/-- The stack has the hashes that are asked for. -/
def Covers (layers : List (List (Hash β))) (baseLayer index length : Nat) : Bool :=
  decide (2 ≤ length) && isPowerOfTwo length && decide (index % length = 0) &&
    (layers[baseLayer]?).any fun layer => decide (index + length ≤ layer.length)

/-- The hashes of an answer: those asked for, and the uncles that the stack has of those asked for. -/
def answerSize (layers : List (List (Hash β))) (baseLayer length proofLayers : Nat) : Nat :=
  length + min (proofLayers - (Nat.log 2 length - 1)) (layers.length - 1 - (baseLayer + Nat.log 2 length))

theorem uncleHashes_length (layers : List (List (Hash β))) (maxUncles curLayer index : Nat) :
    (uncleHashes layers maxUncles curLayer index).length = min maxUncles (layers.length - 1 - curLayer) := by
  induction maxUncles generalizing curLayer index with
  | zero => rw [uncleHashes, length_nil, Nat.zero_min]
  | succ maxUncles ih =>
    rw [uncleHashes]
    split
    case isTrue inside =>
      rw [length_cons, ih]
      omega
    case isFalse outside =>
      rw [length_nil]
      omega

theorem hashesResponse_of_covers (covers : Covers layers baseLayer index length = true) :
    ∃ response, hashesResponse layers baseLayer index length proofLayers = some response ∧
      response.length = 32 * answerSize layers baseLayer length proofLayers := by
  simp only [Covers, Bool.and_eq_true, decide_eq_true_eq] at covers
  obtain ⟨⟨⟨two, power⟩, aligned⟩, stored⟩ := covers
  obtain ⟨layer, known, long⟩ := (Option.any_eq_true _ _).mp stored
  have inside : ¬layer.length < index + length := Nat.not_lt.mpr (of_decide_eq_true long)
  have valid : ¬(length < 2 ∨ (!isPowerOfTwo length) = true) := by
    rw [power]
    exact not_or.mpr ⟨Nat.not_lt.mpr two, Bool.false_ne_true⟩
  rw [hashesResponse, if_neg valid, if_neg (not_not.mpr aligned), known]
  dsimp only
  rw [if_neg inside]
  refine ⟨_, rfl, ?_⟩
  rw [Chunks.flatMap_toList_length, length_append, uncleHashes_length, Chunks.slice_length,
    Nat.min_eq_left (by omega), answerSize, Nat.mul_comm]

theorem hashesResponse_of_not_covers (covers : Covers layers baseLayer index length = false) :
    hashesResponse layers baseLayer index length proofLayers = none := by
  rw [hashesResponse]
  split
  case isTrue => rfl
  case isFalse valid =>
    obtain ⟨two, power⟩ := not_or.mp valid
    rw [Bool.not_eq_true', Bool.not_eq_false] at power
    split
    case isTrue => rfl
    case isFalse aligned =>
      cases known : layers[baseLayer]? with
      | none => rfl
      | some layer =>
        rw [Covers, known, power, decide_eq_true (Nat.not_lt.mp two), decide_eq_true (not_not.mp aligned)] at covers
        exact if_pos (Nat.not_le.mp (of_decide_eq_false covers))

end Stack

namespace HashService

variable (sha256 : Bytes → Hash UInt8) (service : HashService)

/-- The trees under the root, and then those under the index of a file with the root. -/
def registeredLayers (order : List Nat) (piecesRoot : Hash UInt8) : List Layers :=
  (order.filterMap fun fileIndex =>
    (service.v2.fileMerkleTrees fileIndex).bind fun tree => if tree.root = piecesRoot then some tree.layers else none) ++
  service.filesToDownload.zipIdx.filterMap fun entry =>
    if entry.1.piecesRoot = some piecesRoot then (service.v2.fileMerkleTrees entry.2).map MerkleTree.layers else none

def cachedLayers (piecesRoot : Hash UInt8) : List Layers :=
  if service.cacheEnabled then
    match service.cache.loadLayers sha256 piecesRoot with
    | (_, .ok (some layers)) => [layers]
    | _ => []
  else []

/-- The service after the cache has been asked. -/
def asked (piecesRoot : Hash UInt8) : HashService :=
  if service.cacheEnabled then { service with cache := (service.cache.loadLayers sha256 piecesRoot).1 } else service

/-- The piece layer, from the cache it is saved in and then as it is. -/
def pieceLayerLayers (piecesRoot : Hash UInt8) : List Layers :=
  match service.pieceLayers piecesRoot with
  | none => []
  | some pieceLayer =>
    (service.savedPieceLayer sha256 piecesRoot pieceLayer).cachedLayers sha256 piecesRoot ++
      let (reconstructed, calcRoot) := reconstructTreeFromPieceLayer sha256 pieceLayer
      if calcRoot = piecesRoot then [reconstructed] else []

/-- The stacks that are asked for an answer, in turn. -/
def layersInTurn (order : List Nat) (piecesRoot : Hash UInt8) : List Layers :=
  service.registeredLayers order piecesRoot ++ (service.cachedLayers sha256 piecesRoot ++
    (service.asked sha256 piecesRoot).pieceLayerLayers sha256 piecesRoot)

def answeringLayers (order : List Nat) (piecesRoot : Hash UInt8) (baseLayer index length : Nat) : Option Layers :=
  (service.layersInTurn sha256 order piecesRoot).find? fun layers => Covers layers baseLayer index length

variable {sha256} {service : HashService} {order : List Nat} {piecesRoot : Hash UInt8}
  {baseLayer index length proofLayers : Nat}

theorem findSome?_filterMap {α β γ : Type} (read : β → Option γ) (choose : α → Option β) (items : List α) :
    (items.filterMap choose).findSome? read = items.findSome? fun item => (choose item).bind read := by
  rw [← head?_filterMap, ← head?_filterMap, filterMap_filterMap]

theorem registeredResponse_eq :
    service.registeredResponse order piecesRoot baseLayer index length proofLayers =
      (service.registeredLayers order piecesRoot).findSome? fun layers =>
        hashesResponse layers baseLayer index length proofLayers := by
  rw [registeredResponse, registeredLayers, findSome?_append, findSome?_filterMap, findSome?_filterMap,
    Option.orElse_eq_orElse, Option.orElse_eq_or]
  congr 2
  · funext fileIndex
    cases service.v2.fileMerkleTrees fileIndex with
    | none => rfl
    | some tree =>
      dsimp only [Option.bind]
      split <;> rfl
  · funext entry
    split
    case isTrue => cases service.v2.fileMerkleTrees entry.2 <;> rfl
    case isFalse => rfl

theorem cachedResponse_eq :
    service.cachedResponse sha256 piecesRoot baseLayer index length proofLayers =
      (service.asked sha256 piecesRoot, (service.cachedLayers sha256 piecesRoot).findSome? fun layers =>
        hashesResponse layers baseLayer index length proofLayers) := by
  rw [cachedResponse, asked, cachedLayers]
  split
  case isFalse => rfl
  case isTrue =>
    rw [PieceLayersDiskCache.serveHashRequest]
    rcases service.cache.loadLayers sha256 piecesRoot with ⟨cache, reason | none | layers⟩
    · rfl
    · rfl
    · exact Prod.ext rfl findSome?_singleton.symm

theorem handleHashRequest_eq :
    (service.handleHashRequest sha256 order piecesRoot baseLayer index length proofLayers).2 =
      match (service.layersInTurn sha256 order piecesRoot).findSome? fun layers =>
        hashesResponse layers baseLayer index length proofLayers with
      | some response => .ok response
      | none => .error () := by
  rw [handleHashRequest, registeredResponse_eq, layersInTurn, findSome?_append]
  cases (service.registeredLayers order piecesRoot).findSome? _ with
  | some response => rfl
  | none =>
    rw [cachedResponse_eq, Option.none_or, findSome?_append]
    cases (service.cachedLayers sha256 piecesRoot).findSome? _ with
    | some response => rfl
    | none =>
      rw [Option.none_or, pieceLayerLayers]
      dsimp only
      cases (service.asked sha256 piecesRoot).pieceLayers piecesRoot with
      | none => rfl
      | some pieceLayer =>
        dsimp only
        rw [cachedResponse_eq, findSome?_append]
        cases findSome? _ (cachedLayers sha256 _ piecesRoot) with
        | some response => rfl
        | none =>
          dsimp only
          split
          case isTrue =>
            rw [findSome?_singleton, generateHashesResponseFromLayers]
            cases hashesResponse (reconstructTreeFromPieceLayer sha256 pieceLayer).1 baseLayer index length
              proofLayers <;> rfl
          case isFalse => rfl

theorem handleHashRequest_size :
    match service.answeringLayers sha256 order piecesRoot baseLayer index length with
    | some layers =>
      ∃ response, (service.handleHashRequest sha256 order piecesRoot baseLayer index length proofLayers).2 =
        .ok response ∧ response.length = 32 * answerSize layers baseLayer length proofLayers
    | none => (service.handleHashRequest sha256 order piecesRoot baseLayer index length proofLayers).2 = .error () := by
  rw [handleHashRequest_eq, answeringLayers]
  split
  case h_1 layers found =>
    obtain ⟨covers, before, after, turn, others⟩ := find?_eq_some_iff_append.mp found
    obtain ⟨response, answered, size⟩ := @hashesResponse_of_covers _ _ layers baseLayer index length proofLayers covers
    have first : (service.layersInTurn sha256 order piecesRoot).findSome? (fun layers =>
        hashesResponse layers baseLayer index length proofLayers) = some response := by
      refine findSome?_eq_some_iff.mpr ⟨before, layers, after, turn, answered, ?_⟩
      intro other member
      exact hashesResponse_of_not_covers ((Bool.not_eq_true' _).mp (others other member))
    exact ⟨response, by rw [first], size⟩
  case h_2 missing =>
    have silent : (service.layersInTurn sha256 order piecesRoot).findSome? (fun layers =>
        hashesResponse layers baseLayer index length proofLayers) = none := by
      refine findSome?_eq_none_iff.mpr ?_
      intro layers member
      exact hashesResponse_of_not_covers ((Bool.not_eq_true _).mp (find?_eq_none.mp missing layers member))
    rw [silent]

end HashService

end BitTorrent
