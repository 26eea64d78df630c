import BitTorrent.Basic
import BitTorrent.Library.BigEndian
import BitTorrent.Library.Chunks

/-! # Layer files

The `.layers` files of `storage/piece_layers_cache.rs`: a header, the layers from the leaves up, and
a SHA-256 checksum.  Counts are cut to 32 bits when they are written.
-/

namespace BitTorrent

open BigEndian Chunks
open List hiding Vector

abbrev Layers := List (List (Hash UInt8))

def bt2lMagic : Bytes := [0x42, 0x54, 0x32, 0x4c]

def bt2lVersion : Nat := 1

section Format

variable (sha256 : Bytes → Hash UInt8)

def encodeLayer (index : Nat) (layer : List (Hash UInt8)) : Bytes :=
  toBytes 4 index ++ toBytes 4 layer.length ++ layer.flatMap List.Vector.toList

def encodeHeader (piecesRoot : Hash UInt8) (layers : Layers) : Bytes :=
  bt2lMagic ++ toBytes 2 bt2lVersion ++ [0, 0] ++ piecesRoot.toList ++ toBytes 4 layers.length ++
    toBytes 8 (layers.map length).sum

def encodeLayers (piecesRoot : Hash UInt8) (layers : Layers) : Bytes :=
  let buf := encodeHeader piecesRoot layers ++ layers.zipIdx.flatMap fun entry => encodeLayer entry.2 entry.1
  buf ++ (sha256 buf).toList

/-- The layers of a payload from `rest` on. -/
def decodeBodies : Nat → Bytes → Result Layers
  | 0, _ => .ok []
  | numLayers + 1, rest =>
    if rest.length < 8 then .error (.parse "Unexpected EOF reading layer header")
    else
      let hashCount := fromBytes (slice rest 4 4)
      let body := rest.drop 8
      if body.length < hashCount * 32 then .error (.parse "Unexpected EOF reading layer hashes")
      else
        match decodeBodies numLayers (body.drop (hashCount * 32)) with
        | .error reason => .error reason
        | .ok layers => .ok (chunksExact 32 (body.take (hashCount * 32)) :: layers)

def decodeLayers (data : Bytes) : Result (Hash UInt8 × Layers) :=
  if short : data.length < 52 + 32 then
    .error (.parse "Layer cache payload smaller than minimum header size")
  else
    let payload := data.take (data.length - 32)
    if data.drop (data.length - 32) ≠ (sha256 payload).toList then
      .error (.parse "Layer cache file integrity checksum mismatch")
    else if data.take 4 ≠ bt2lMagic then .error (.parse "Invalid BT2L layer cache magic header")
    else
      let version := fromBytes (slice data 4 2)
      if version ≠ bt2lVersion then .error (.parse s!"Unsupported BT2L layer cache version: {version}")
      else
        let piecesRoot : Hash UInt8 := ⟨slice data 8 32, by rw [slice_length]; omega⟩
        match decodeBodies (fromBytes (slice data 40 4)) (payload.drop 52) with
        | .error reason => .error reason
        | .ok layers => .ok (piecesRoot, layers)

end Format

theorem decodeBodies_encode {layers : Layers} (small : ∀ layer ∈ layers, layer.length < 2 ^ 32) (first : Nat)
    (rest : Bytes) :
    decodeBodies layers.length (((layers.zipIdx first).flatMap fun entry => encodeLayer entry.2 entry.1) ++ rest) =
      .ok layers := by
  induction layers generalizing first with
  | nil => rfl
  | cons layer layers ih =>
    have below := ih (fun other member => small other (mem_cons_of_mem _ member)) (first + 1)
    have size := flatMap_toList_length layer
    have four (value : Nat) := toBytes_length 4 value
    rw [zipIdx_cons, flatMap_cons, append_assoc, encodeLayer, append_assoc, append_assoc, length_cons, decodeBodies]
    generalize ((layers.zipIdx (first + 1)).flatMap fun entry => encodeLayer entry.2 entry.1) ++ rest = tail at below ⊢
    have count : fromBytes (toBytes 4 layer.length) = layer.length := fromBytes_toBytes (small layer mem_cons_self)
    have body : (toBytes 4 first ++ (toBytes 4 layer.length ++ (layer.flatMap List.Vector.toList ++ tail))).drop 8 =
        layer.flatMap List.Vector.toList ++ tail := by
      rw [← append_assoc, drop_left' (by rw [length_append, four, four])]
    rw [if_neg (by simp; omega), slice_append_middle (four _) (four _), count, body]
    rw [if_neg (by rw [length_append, size]; omega), drop_left' size, take_left' size, below,
      flatMap_def, chunksExact_flatten (by decide)]

theorem encodeHeader_fields (piecesRoot : Hash UInt8) (layers : Layers) (rest : Bytes) :
    (encodeHeader piecesRoot layers ++ rest).take 4 = bt2lMagic ∧
      slice (encodeHeader piecesRoot layers ++ rest) 4 2 = toBytes 2 bt2lVersion ∧
      slice (encodeHeader piecesRoot layers ++ rest) 8 32 = piecesRoot.toList ∧
      slice (encodeHeader piecesRoot layers ++ rest) 40 4 = toBytes 4 layers.length := by
  let parts := [bt2lMagic, toBytes 2 bt2lVersion, [0, 0], piecesRoot.toList, toBytes 4 layers.length,
    toBytes 8 (layers.map length).sum ++ rest]
  have whole : encodeHeader piecesRoot layers ++ rest = parts.flatten := by simp [parts, encodeHeader]
  rw [whole]
  refine ⟨rfl, ?_, ?_, ?_⟩
  · simpa [parts, bt2lMagic] using @slice_flatten _ parts 1 _ rfl
  · simpa [parts, bt2lMagic] using @slice_flatten _ parts 3 _ rfl
  · simpa [parts, bt2lMagic] using @slice_flatten _ parts 4 _ rfl

theorem encodeHeader_length (piecesRoot : Hash UInt8) (layers : Layers) :
    (encodeHeader piecesRoot layers).length = 52 := by
  simp [encodeHeader, bt2lMagic]

theorem decodeLayers_encode (sha256 : Bytes → Hash UInt8) (piecesRoot : Hash UInt8) {layers : Layers}
    (few : layers.length < 2 ^ 32) (small : ∀ layer ∈ layers, layer.length < 2 ^ 32) :
    decodeLayers sha256 (encodeLayers sha256 piecesRoot layers) = .ok (piecesRoot, layers) := by
  rw [encodeLayers]
  generalize bodiesEq : (layers.zipIdx.flatMap fun entry => encodeLayer entry.2 entry.1) = bodies
  generalize bufEq : encodeHeader piecesRoot layers ++ bodies = buf
  have fields := encodeHeader_fields piecesRoot layers (bodies ++ (sha256 buf).toList)
  rw [← append_assoc, bufEq] at fields
  obtain ⟨magic, version, root, count⟩ := fields
  have header := encodeHeader_length piecesRoot layers
  have long : 52 ≤ buf.length := by
    rw [← bufEq, length_append, header]
    exact Nat.le_add_right _ _
  have length : (buf ++ (sha256 buf).toList).length - 32 = buf.length := by
    rw [length_append, List.Vector.toList_length, Nat.add_sub_cancel]
  have body : buf.drop 52 = bodies := by rw [← bufEq, drop_left' header]
  have layersBack := decodeBodies_encode small 0 []
  rw [append_nil, bodiesEq] at layersBack
  rw [decodeLayers, dif_neg (by rw [length_append, List.Vector.toList_length]; omega)]
  simp only [length, take_left', drop_left', magic, version, root, count, body,
    fromBytes_toBytes (show bt2lVersion < 256 ^ 2 by decide), fromBytes_toBytes (show layers.length < 256 ^ 4 from few),
    layersBack, ne_eq, not_true_eq_false, if_false]
  rfl

section Integrity

variable {sha256 : Bytes → Hash UInt8}

def layerPayload (data : Bytes) : Bytes := data.take (data.length - 32)

def layerChecksum (data : Bytes) : Bytes := data.drop (data.length - 32)

theorem encodeLayers_checksum (piecesRoot : Hash UInt8) (layers : Layers) :
    52 + 32 ≤ (encodeLayers sha256 piecesRoot layers).length ∧
      layerChecksum (encodeLayers sha256 piecesRoot layers) =
        (sha256 (layerPayload (encodeLayers sha256 piecesRoot layers))).toList := by
  simp only [encodeLayers, layerChecksum, layerPayload, length_append, List.Vector.toList_length, Nat.add_sub_cancel]
  rw [take_left' length_append, drop_left' length_append]
  have header := encodeHeader_length piecesRoot layers
  exact ⟨by omega, rfl⟩

/-- No function on all byte strings into 32 bytes is injective, so that is only asked of the two
payloads. -/
theorem layerFiles_roundTrip (piecesRoot : Hash UInt8) {layers : Layers} (few : layers.length < 2 ^ 32)
    (small : ∀ layer ∈ layers, layer.length < 2 ^ 32) :
    decodeLayers sha256 (encodeLayers sha256 piecesRoot layers) = .ok (piecesRoot, layers) ∧
      (∀ otherRoot (otherLayers : Layers), otherLayers.length < 2 ^ 32 →
        (∀ layer ∈ otherLayers, layer.length < 2 ^ 32) →
        encodeLayers sha256 otherRoot otherLayers = encodeLayers sha256 piecesRoot layers →
        (otherRoot, otherLayers) = (piecesRoot, layers)) ∧
      ∀ data, data.length = (encodeLayers sha256 piecesRoot layers).length →
        data ≠ encodeLayers sha256 piecesRoot layers →
        layerPayload data = layerPayload (encodeLayers sha256 piecesRoot layers) ∨
          layerChecksum data = layerChecksum (encodeLayers sha256 piecesRoot layers) →
        Set.InjOn sha256 {layerPayload data, layerPayload (encodeLayers sha256 piecesRoot layers)} →
        decodeLayers sha256 data = .error (.parse "Layer cache file integrity checksum mismatch") := by
  have decoded := decodeLayers_encode sha256 piecesRoot few small
  refine ⟨decoded, ?_, ?_⟩
  · intro otherRoot otherLayers otherFew otherSmall same
    have otherDecoded := decodeLayers_encode sha256 otherRoot otherFew otherSmall
    rw [same, decoded] at otherDecoded
    exact (Except.ok.inj otherDecoded).symm
  · intro data length changed part injective
    obtain ⟨long, sound⟩ := @encodeLayers_checksum sha256 piecesRoot layers
    rw [decodeLayers, dif_neg (by omega)]
    refine if_pos fun accepted => changed ?_
    have payload : layerPayload data = layerPayload (encodeLayers sha256 piecesRoot layers) := by
      refine part.elim id fun same => injective (.inl rfl) (.inr rfl) (Subtype.ext ?_)
      exact accepted.symm.trans (same.trans sound)
    have checksum : layerChecksum data = layerChecksum (encodeLayers sha256 piecesRoot layers) := by
      rw [sound, ← payload]
      exact accepted
    rw [← take_append_drop (data.length - 32) data]
    exact (congrArg₂ _ payload checksum).trans (take_append_drop _ _)

def sumSha256 (bytes : Bytes) : Hash UInt8 := .replicate 32 bytes.sum

def twoLayers : Layers := [[.replicate 32 1, .replicate 32 2], [.replicate 32 3]]

/-- One byte of the second hash is another. -/
def corruptedLayers : Bytes := (encodeLayers sumSha256 zeroHash twoLayers).set 100 9

theorem layerFiles_roundTrip_twoLayers :
    decodeLayers sumSha256 (encodeLayers sumSha256 zeroHash twoLayers) = .ok (zeroHash, twoLayers) ∧
      decodeLayers sumSha256 corruptedLayers = .error (.parse "Layer cache file integrity checksum mismatch") := by
  obtain ⟨read, _, refused⟩ := @layerFiles_roundTrip sumSha256 zeroHash twoLayers (by decide) (by decide)
  refine ⟨read, refused corruptedLayers length_set (by decide +kernel) (.inr (by decide +kernel)) ?_⟩
  exact Set.injOn_pair.mpr fun same => absurd same (by decide +kernel)

end Integrity

end BitTorrent
