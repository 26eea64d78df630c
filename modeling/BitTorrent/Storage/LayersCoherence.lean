import BitTorrent.Storage.PieceLayersCache

/-! # What the cache holds for one root

Layers reach a root only by a call that names it, so a property of all layers that are saved for a
root is a property of what the cache finds for it, in memory and in the file.
-/

namespace BitTorrent

open LayerFiles

theorem of_update_eq_some {κ α : Type} [DecidableEq κ] {map : κ → Option α} {key place : κ} {value : Option α} {found : α}
    (known : Function.update map key value place = some found) :
    place = key ∧ value = some found ∨ map place = some found := by
  rw [Function.update_apply] at known
  split at known
  case isTrue same => exact .inl ⟨same, known⟩
  case isFalse => exact .inr known

namespace MemoryTier

variable {tier : MemoryTier} {root other : Hash UInt8} {layers found : Layers}

theorem drop_layersByRoot (known : (tier.drop other).layersByRoot root = some found) :
    tier.layersByRoot root = some found := by
  rw [drop] at known
  split at known
  case h_1 =>
    rcases of_update_eq_some known with ⟨-, absent⟩ | kept
    · cases absent
    · exact kept
  case h_2 => exact known

theorem evict_layersByRoot {needed : Nat} {order : List (Hash UInt8)}
    (known : (tier.evict needed order).layersByRoot root = some found) : tier.layersByRoot root = some found := by
  induction order generalizing tier with
  | nil => exact known
  | cons oldest order ih =>
    rw [evict] at known
    split at known
    case isTrue => exact drop_layersByRoot (ih known)
    case isFalse => exact known

theorem insert_layersByRoot (known : (tier.insert other layers).layersByRoot root = some found) :
    root = other ∧ found = layers ∨ tier.layersByRoot root = some found := by
  rcases of_update_eq_some known with ⟨same, value⟩ | kept
  · exact .inl ⟨same, (Option.some.inj value).symm⟩
  · right
    apply evict_layersByRoot
    split at kept
    case h_1 => exact kept
    case h_2 => exact kept

theorem get_eq (tier : MemoryTier) (root : Hash UInt8) :
    (tier.get root).1.layersByRoot = tier.layersByRoot ∧ (tier.get root).2 = tier.layersByRoot root := by
  rw [get]
  split
  case h_1 layers known => exact ⟨rfl, known.symm⟩
  case h_2 absent => exact ⟨rfl, absent.symm⟩

end MemoryTier

namespace LayerFiles

variable {disk after : LayerFiles} {root other : Hash UInt8} {bytes found : Bytes}

theorem attempt_files {fault : Option String} (attempted : disk.attempt = (after, fault)) : after.files = disk.files := by
  have same := congrArg (fun result => result.1.files) attempted
  exact same.symm

theorem write_files {written : Result Unit} (done : disk.write other bytes = (after, written))
    (known : after.files root = some found) : root = other ∧ found = bytes ∨ disk.files root = some found := by
  rw [write] at done
  split at done
  case h_1 reached message attempted =>
    cases done
    rw [attempt_files attempted] at known
    exact .inr known
  case h_2 reached attempted =>
    cases done
    rw [attempt_files attempted] at known
    rcases of_update_eq_some known with ⟨same, value⟩ | kept
    · exact .inl ⟨same, (Option.some.inj value).symm⟩
    · exact .inr kept

theorem read_files {got : Result Bytes} (done : disk.read bytes = (after, got)) :
    after.files = disk.files ∧ ∀ data, got = .ok data → data = bytes := by
  rw [read] at done
  split at done
  case h_1 reached message attempted =>
    cases done
    exact ⟨attempt_files attempted, fun data failed => nomatch failed⟩
  case h_2 reached attempted =>
    cases done
    exact ⟨attempt_files attempted, fun data same => (Except.ok.inj same).symm⟩

theorem removeFile_files (known : (disk.removeFile other).files root = some found) : disk.files root = some found := by
  rw [removeFile] at known
  split at known
  case h_1 reached message attempted => rwa [attempt_files attempted] at known
  case h_2 reached attempted =>
    rw [attempt_files attempted] at known
    rcases of_update_eq_some known with ⟨-, absent⟩ | kept
    · cases absent
    · exact kept

end LayerFiles

namespace PieceLayersDiskCache

variable (sha256 : Bytes → Hash UInt8)

/-- All layers that the cache has for a root are good ones. -/
structure Holds (good : Layers → Prop) (root : Hash UInt8) (cache : PieceLayersDiskCache) : Prop where
  memory : ∀ layers, cache.memoryTier.layersByRoot root = some layers → good layers
  disk : ∀ bytes, cache.disk.files root = some bytes → ∃ layers, good layers ∧ bytes = encodeLayers sha256 root layers

variable {sha256} {good : Layers → Prop} {root other : Hash UInt8} {cache : PieceLayersDiskCache} {layers : Layers}
  {entries : List (Hash UInt8)} {found : Bytes} {disk : LayerFiles}

section

variable (holds : Holds sha256 good root cache)
include holds

theorem Holds.anti {after : PieceLayersDiskCache}
    (memory : ∀ found, after.memoryTier.layersByRoot root = some found → cache.memoryTier.layersByRoot root = some found)
    (disk : ∀ found, after.disk.files root = some found → cache.disk.files root = some found) :
    Holds sha256 good root after where
  memory found known := holds.memory found (memory found known)
  disk found known := holds.disk found (disk found known)

theorem Holds.saveLayers (fine : root = other → good layers) :
    Holds sha256 good root (cache.saveLayers sha256 other layers).1 := by
  rw [PieceLayersDiskCache.saveLayers]
  split
  case isTrue => exact holds
  case isFalse =>
    constructor
    · intro found known
      rcases MemoryTier.insert_layersByRoot known with ⟨same, rfl⟩ | kept
      · exact fine same
      · exact holds.memory found kept
    · intro found known
      rcases write_files rfl known with ⟨same, bytes⟩ | kept
      · cases same
        exact ⟨layers, fine rfl, bytes⟩
      · exact holds.disk found kept

theorem Holds.remove : Holds sha256 good root (cache.remove other) := by
  refine holds.anti (fun found known => MemoryTier.drop_layersByRoot known) ?_
  intro found known
  rw [PieceLayersDiskCache.remove] at known
  split at known
  case isTrue => exact removeFile_files known
  case isFalse => exact known

end

theorem pruneLoop_files {maxFiles maxBytes totalCount pruned totalSize : Nat}
    (known : (pruneLoop disk maxFiles maxBytes totalCount entries pruned totalSize).files root = some found) :
    disk.files root = some found := by
  induction entries generalizing disk pruned totalSize with
  | nil => exact known
  | cons entry entries ih =>
    rw [pruneLoop] at known
    split at known
    case isTrue => exact removeFile_files (ih known)
    case isFalse => exact known

section

variable (holds : Holds sha256 good root cache)
include holds

theorem Holds.prune (entries : List (Hash UInt8)) (maxFiles maxBytes : Nat) :
    Holds sha256 good root (cache.prune entries maxFiles maxBytes) :=
  holds.anti (fun _ known => known) fun _ known => pruneLoop_files known

omit holds in
theorem removeAll_files
    (known : (entries.foldl removeFile disk).files root = some found) : disk.files root = some found := by
  induction entries generalizing disk with
  | nil => exact known
  | cons entry entries ih => exact removeFile_files (ih known)

theorem Holds.clear (entries : List (Hash UInt8)) : Holds sha256 good root (cache.clear entries) :=
  holds.anti (fun _ known => nomatch known) fun _ known => removeAll_files known

theorem Holds.loadLayers
    (format : ∀ layers, good layers → layers.length < 2 ^ 32 ∧ ∀ layer ∈ layers, layer.length < 2 ^ 32) :
    Holds sha256 good root (cache.loadLayers sha256 other).1 ∧
      (root = other → ∀ layers, (cache.loadLayers sha256 other).2 = .ok (some layers) → good layers) := by
  rw [PieceLayersDiskCache.loadLayers]
  obtain ⟨kept, got⟩ := MemoryTier.get_eq cache.memoryTier other
  split
  case h_1 memoryTier layers hit =>
    rw [hit] at kept got
    refine ⟨holds.anti (fun found known => kept ▸ known) fun _ known => known, ?_⟩
    intro same found loaded
    cases loaded
    cases same
    exact holds.memory layers got.symm
  case h_2 =>
    split
    case h_1 => exact ⟨holds, fun _ _ loaded => nomatch loaded⟩
    case h_2 bytes stored =>
      split
      case h_1 disk reason failed =>
        have files := (read_files failed).1
        exact ⟨holds.anti (fun _ known => known) fun found known => files ▸ known, fun _ _ loaded => nomatch loaded⟩
      case h_2 disk data done =>
        obtain ⟨files, whole⟩ := read_files done
        cases whole data rfl
        have same : Holds sha256 good root { cache with disk } :=
          holds.anti (fun _ known => known) fun found known => files ▸ known
        split
        case h_1 => exact ⟨same, fun _ _ loaded => nomatch loaded⟩
        case h_2 fileRoot layers decoded =>
          split
          case isTrue => exact ⟨same, fun _ _ loaded => nomatch loaded⟩
          case isFalse =>
            have fine (asked : root = other) : good layers := by
              cases asked
              obtain ⟨saved, goodSaved, bytesEq⟩ := holds.disk _ stored
              obtain ⟨few, small⟩ := format saved goodSaved
              rw [bytesEq, decodeLayers_encode sha256 root few small] at decoded
              cases decoded
              exact goodSaved
            refine ⟨⟨?_, same.disk⟩, ?_⟩
            · intro found known
              rcases MemoryTier.insert_layersByRoot known with ⟨asked, rfl⟩ | old
              · exact fine asked
              · exact holds.memory found old
            · intro asked found loaded
              cases loaded
              exact fine asked

theorem Holds.serveHashRequest
    (format : ∀ layers, good layers → layers.length < 2 ^ 32 ∧ ∀ layer ∈ layers, layer.length < 2 ^ 32)
    (baseLayer index length proofLayers : Nat) :
    Holds sha256 good root (cache.serveHashRequest sha256 other baseLayer index length proofLayers).1 ∧
      (root = other → ∀ bytes, (cache.serveHashRequest sha256 other baseLayer index length proofLayers).2 = some bytes →
        ∃ layers, good layers ∧ generateHashesResponseFromLayers layers baseLayer index length proofLayers = some bytes) := by
  obtain ⟨kept, fine⟩ := @Holds.loadLayers _ _ _ other _ holds format
  rw [PieceLayersDiskCache.serveHashRequest]
  split
  case h_1 after layers loaded =>
    rw [loaded] at kept fine
    exact ⟨kept, fun asked bytes answer => ⟨layers, fine asked layers rfl, answer⟩⟩
  case h_2 after result none loaded =>
    rw [loaded] at kept
    exact ⟨kept, fun _ _ answer => nomatch answer⟩

end

end PieceLayersDiskCache

end BitTorrent
