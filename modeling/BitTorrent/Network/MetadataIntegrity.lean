import BitTorrent.Library.MapWeight
import BitTorrent.Network.MetadataExchange

/-! # Integrity of the metadata of a magnet link

Whatever the peers of a swarm send, the metadata a context switches to hashes to the info hash
of the link.  Once the true metadata is there the switch happens unless the entries are
miscounted: they are compared with the number of pieces, and a peer may have stored an entry
past the last piece.
-/

namespace BitTorrent

namespace MagnetContext

open Chunks MapWeight List Std.TreeMap

variable {digests : Digests} {context : MagnetContext} {peer : MagnetPeer} {infoHash info : Bytes}
  {transitionFromMetadata : Bytes → Result Unit} {now : Nat} {delivered : Bool} {piece : Nat}
  {digests : Digests}

/-- What no message and no round of the bootstrap can break. -/
structure Sound (digests : Digests) (infoHash : Bytes) (context : MagnetContext) : Prop where
  link : context.infoHash = infoHash
  matching : ∀ bytes, context.infoDictBytes = some bytes → matchesHash digests infoHash bytes
  indices : ∀ piece ∈ context.metadataPieces, piece < u32Size

theorem new_sound (timeout : Nat) : Sound digests infoHash (new infoHash timeout) where
  link := rfl
  matching _ known := nomatch known
  indices _ member := absurd member not_mem_emptyc

section

variable (sound : Sound digests infoHash context)
include sound

theorem Sound.withSize (size : Option Nat) : Sound digests infoHash { context with metadataSize := size } :=
  ⟨sound.link, sound.matching, sound.indices⟩

theorem Sound.withRequested (requested : Std.TreeMap Nat Nat) :
    Sound digests infoHash { context with requestedMetadataPieces := requested } :=
  ⟨sound.link, sound.matching, sound.indices⟩

theorem Sound.withPiece (inRange : piece < u32Size) (bytes : Bytes) :
    Sound digests infoHash { context with metadataPieces := context.metadataPieces.insert piece bytes } where
  link := sound.link
  matching := sound.matching
  indices other member := by
    rcases mem_insert.mp member with same | old
    · rwa [← Nat.compare_eq_eq.mp same]
    · exact sound.indices other old

theorem adoptSize_sound (size : Option Nat) : Sound digests infoHash (adoptSize peer context size).2 := by
  cases size with
  | none => exact sound
  | some size => exact sound.withSize (some size)

theorem handleMetadataMessage_sound (payload : Bytes) :
    Sound digests infoHash (context.handleMetadataMessage peer payload).2.1 := by
  simp only [handleMetadataMessage]
  split
  case h_1 => exact sound
  case h_2 node consumed _ =>
    split
    case h_1 piece _ parsed =>
      exact (adoptSize_sound sound _).withPiece (BNode.unsignedAt_lt parsed) _
    case h_2 => exact sound.withRequested _
    case h_3 => exact sound
    case h_4 => exact sound

theorem handleExtended_sound (extId : Nat) (payload : Bytes) :
    Sound digests infoHash (context.handleExtended peer extId payload).2.1 := by
  simp only [handleExtended]
  split
  case isTrue =>
    simp only [handleHandshake]
    split
    case h_1 => exact sound
    case h_2 => exact adoptSize_sound sound _
  case isFalse =>
    split
    case isTrue => exact handleMetadataMessage_sound sound payload
    case isFalse => exact sound

/-- The bytes a round of the bootstrap switches to, and the metadata it leaves behind. -/
structure TransitionsSound (digests : Digests) (infoHash : Bytes) (result : Bootstrapped) : Prop where
  context : Sound digests infoHash result.context
  matching : ∀ bytes, result.tried = some bytes → matchesHash digests infoHash bytes

theorem tryTransition_sound (sent : Option (Nat × Bytes)) :
    TransitionsSound digests infoHash (context.tryTransition digests transitionFromMetadata sent) := by
  simp only [tryTransition]
  split
  case h_1 => exact ⟨sound, fun _ tried => nomatch tried⟩
  case h_2 size _ =>
    split
    case isFalse => exact ⟨sound, fun _ tried => nomatch tried⟩
    case isTrue =>
      split
      case isTrue => exact ⟨sound, fun _ tried => nomatch tried⟩
      case isFalse =>
        split
        case isFalse =>
          exact ⟨⟨sound.link, sound.matching, fun _ member => absurd member not_mem_emptyc⟩,
            fun _ tried => nomatch tried⟩
        case isTrue passed =>
          have matching : ∀ bytes, some (context.assemble size) = some bytes →
              matchesHash digests infoHash bytes := by
            intro bytes same
            cases same
            rwa [sound.link] at passed
          split
          case h_1 => exact ⟨⟨sound.link, matching, sound.indices⟩, matching⟩
          case h_2 => exact ⟨sound, matching⟩

theorem handleMagnetBootstrap_sound :
    TransitionsSound digests infoHash
      (context.handleMagnetBootstrap digests transitionFromMetadata peer now delivered) := by
  simp only [handleMagnetBootstrap]
  split
  case h_1 => exact tryTransition_sound sound none
  case h_2 =>
    split
    case isTrue => exact tryTransition_sound (sound.withRequested _) _
    case isFalse => exact ⟨sound.withRequested _, fun _ tried => nomatch tried⟩

end

def pieceCount (size : Nat) : Nat := (size + 16383) / metadataBlock

/-- The context waits for its metadata, knows how long it is and has all of it. -/
structure HoldsMetadata (info : Bytes) (context : MagnetContext) : Prop where
  waiting : context.infoDictBytes = none
  size : context.metadataSize = some info.length
  pieces : ∀ piece < pieceCount info.length,
    context.metadataPieces[piece]? = some (slice info (piece * metadataBlock) metadataBlock)

/-- No entry lies past the last piece, and the number of pieces fits in 32 bits. -/
structure NoStrays (info : Bytes) (context : MagnetContext) : Prop where
  inside : ∀ piece ∈ context.metadataPieces, piece < pieceCount info.length
  representable : pieceCount info.length < u32Size

/-- The round switches to `info`, and has switched unless the files could not be set up. -/
structure TransitionsTo (transitionFromMetadata : Bytes → Result Unit) (info : Bytes)
    (result : Bootstrapped) : Prop where
  tried : result.tried = some info
  switched : transitionFromMetadata info = .ok () → result.context.infoDictBytes = some info

section HeldMetadata

variable (sound : Sound digests infoHash context) (held : HoldsMetadata info context)
include held

theorem HoldsMetadata.mem (inside : piece < pieceCount info.length) : piece ∈ context.metadataPieces := by
  rw [mem_iff_isSome_getElem?, held.pieces piece inside]
  rfl

theorem HoldsMetadata.not_open (inside : piece < pieceCount info.length) : context.isOpen now piece = false := by
  simp [isOpen, contains_iff_mem.mpr (held.mem inside)]

include sound

theorem HoldsMetadata.pieceCount_le : pieceCount info.length ≤ u32Size := by
  by_contra many
  exact Nat.lt_irrefl _ (sound.indices u32Size (held.mem (Nat.lt_of_not_le many)))

theorem HoldsMetadata.length_le : info.length ≤ 2 ^ 46 := by
  have few := held.pieceCount_le sound
  simp only [pieceCount, metadataBlock, u32Size] at few
  omega

theorem HoldsMetadata.numPieces_eq : numPieces info.length = pieceCount info.length := by
  have short := held.length_le sound
  rw [numPieces, pieceCount, Nat.mod_eq_of_lt (by simp only [u64Size]; omega)]

theorem HoldsMetadata.requestPiece_none : context.requestPiece peer now = none := by
  have count := held.numPieces_eq sound
  simp only [requestPiece, held.size, count]
  split
  case isFalse => rfl
  case isTrue =>
    cases peer.extensionIds (ascii "ut_metadata") with
    | none => rfl
    | some extId =>
      have closed : ¬(0 < pieceCount info.length ∧ context.isOpen now 0 = true) := by
        rintro ⟨positive, isOpen⟩
        rw [held.not_open positive] at isOpen
        contradiction
      have nothing : (range (pieceCount info.length % u32Size)).find? (context.isOpen now) = none := by
        rw [find?_eq_none]
        intro piece member
        have inside := (mem_range.mp member).trans_le (Nat.mod_le _ _)
        simp [held.not_open inside]
      simp [closed, nothing]

theorem HoldsMetadata.size_eq_iff_inside :
    context.metadataPieces.size = numPieces info.length ↔
      ∀ piece ∈ context.metadataPieces, piece < pieceCount info.length := by
  rw [held.numPieces_eq sound]
  exact MapWeight.size_eq_iff fun piece inside => held.mem inside

theorem HoldsMetadata.assemble_eq (representable : pieceCount info.length < u32Size) :
    context.assemble info.length = info := by
  have chunks : ((range (pieceCount info.length)).flatMap fun piece =>
      (context.metadataPieces[piece]?).getD []) = info.take (pieceCount info.length * metadataBlock) := by
    rw [← flatMap_slice]
    apply flatMap_congr
    intro piece member
    rw [held.pieces piece (mem_range.mp member), Option.getD_some]
  have enough : info.length ≤ pieceCount info.length * metadataBlock := by
    simp only [pieceCount, metadataBlock]
    omega
  rw [assemble, held.numPieces_eq sound, Nat.mod_eq_of_lt representable, chunks,
    take_of_length_le enough, take_length]

theorem HoldsMetadata.handleMagnetBootstrap_eq :
    context.handleMagnetBootstrap digests transitionFromMetadata peer now delivered =
      context.tryTransition digests transitionFromMetadata none := by
  simp only [handleMagnetBootstrap, held.requestPiece_none sound]

/-- With the metadata held, a round succeeds unless the entries are miscounted. -/
theorem HoldsMetadata.transitionsTo_iff (matching : matchesHash digests infoHash info)
    (unique : ∀ bytes, matchesHash digests infoHash bytes → bytes = info) :
    TransitionsTo transitionFromMetadata info
        (context.handleMagnetBootstrap digests transitionFromMetadata peer now delivered) ↔
      NoStrays info context := by
  have small : ¬2 ^ 63 ≤ info.length := by
    have short := held.length_le sound
    omega
  rw [held.handleMagnetBootstrap_eq sound]
  simp only [tryTransition, held.size, small, if_false, sound.link]
  by_cases inside : ∀ piece ∈ context.metadataPieces, piece < pieceCount info.length
  · rw [if_pos ⟨(held.size_eq_iff_inside sound).mpr inside, held.waiting⟩]
    rcases Nat.lt_or_eq_of_le (held.pieceCount_le sound) with representable | wrapped
    · have goal : NoStrays info context := ⟨inside, representable⟩
      rw [held.assemble_eq sound representable, if_pos matching]
      cases set : transitionFromMetadata info with
      | ok _ => exact ⟨fun _ => goal, fun _ => ⟨rfl, fun _ => rfl⟩⟩
      | error reason => exact ⟨fun _ => goal, fun _ => ⟨rfl, fun fine => by rw [set] at fine; contradiction⟩⟩
    · -- no piece is read when their number is truncated to zero
      have mismatch : ¬matchesHash digests infoHash [] := by
        intro passed
        rw [← unique [] passed] at wrapped
        contradiction
      rw [assemble, held.numPieces_eq sound, wrapped, Nat.mod_self, range_zero, flatMap_nil, take_nil, if_neg mismatch]
      constructor
      · intro transitions
        cases transitions.tried
      · intro noStrays
        exact absurd wrapped (Nat.ne_of_lt noStrays.representable)
  · rw [if_neg fun complete => inside ((held.size_eq_iff_inside sound).mp complete.1)]
    constructor
    · intro transitions
      cases transitions.tried
    · intro noStrays
      exact absurd noStrays.inside inside

/-- With the metadata held and nothing else, a round switches to it if its hash is the right one. -/
theorem HoldsMetadata.tried_iff (noStrays : NoStrays info context) :
    (context.handleMagnetBootstrap digests transitionFromMetadata peer now delivered).tried = some info ↔
      matchesHash digests infoHash info = true := by
  have small : ¬2 ^ 63 ≤ info.length := by
    have short := held.length_le sound
    omega
  rw [held.handleMagnetBootstrap_eq sound]
  simp only [tryTransition, held.size, small, if_false, sound.link]
  rw [if_pos ⟨(held.size_eq_iff_inside sound).mpr noStrays.inside, held.waiting⟩,
    held.assemble_eq sound noStrays.representable]
  split
  case isTrue matching =>
    cases transitionFromMetadata info with
    | ok _ => exact ⟨fun _ => matching, fun _ => rfl⟩
    | error reason => exact ⟨fun _ => matching, fun _ => rfl⟩
  case isFalse mismatch => exact ⟨fun tried => (nomatch tried), fun matching => absurd matching mismatch⟩

end HeldMetadata

end MagnetContext

open MagnetContext Runs

variable {swarm : MagnetSwarm}

theorem MagnetSwarm.step_sound {infoHash : Bytes} (sound : Sound digests infoHash swarm.context) (event : MagnetEvent) :
    Sound digests infoHash (swarm.step digests event).context := by
  cases event with
  | extended ip extId payload => exact handleExtended_sound sound extId payload
  | bootstrap transitionFromMetadata ip now delivered => exact (handleMagnetBootstrap_sound sound).context

/-- Any events, in any order, from a fresh link and any peers. -/
def MagnetSwarm.Reached (digests : Digests) (infoHash : Bytes) (swarm : MagnetSwarm) : Prop :=
  ∃ timeout peers, Reaches (MagnetSwarm.step digests) (fun _ _ => True)
    ⟨MagnetContext.new infoHash timeout, peers⟩ swarm

theorem MagnetSwarm.Reached.sound {infoHash : Bytes} (reached : swarm.Reached digests infoHash) :
    Sound digests infoHash swarm.context := by
  obtain ⟨timeout, peers, run⟩ := reached
  apply run.invariant (fun state => Sound digests infoHash state.context)
  · exact new_sound timeout
  · intro state event sound _
    exact step_sound sound event

/-- A context only ever switches to bytes with the right hash.  Once it holds the metadata the
next round switches, whoever it talks to, exactly when no entry lies past the last piece. -/
theorem MagnetSwarm.metadata_integrity {digests : Digests} {infoHash : Bytes} {swarm : MagnetSwarm}
    (reached : swarm.Reached digests infoHash)
    (transitionFromMetadata : Bytes → Result Unit) (ip : String) (now : Nat) (delivered : Bool) :
    let result := swarm.context.handleMagnetBootstrap digests transitionFromMetadata (swarm.peers ip) now delivered
    (∀ bytes, swarm.context.infoDictBytes = some bytes → matchesHash digests infoHash bytes) ∧
      (∀ bytes, result.tried = some bytes → matchesHash digests infoHash bytes) ∧
      ∀ info, (∀ bytes, matchesHash digests infoHash bytes ↔ bytes = info) →
        HoldsMetadata info swarm.context →
        (TransitionsTo transitionFromMetadata info result ↔ NoStrays info swarm.context) := by
  refine ⟨reached.sound.matching, (handleMagnetBootstrap_sound reached.sound).matching, ?_⟩
  intro info injective held
  exact held.transitionsTo_iff reached.sound ((injective info).mpr rfl) fun bytes => (injective bytes).mp

namespace MagnetExample

/-- Digests that single out one metadata. -/
def marking (info : Bytes) : Digests where
  sha1 bytes := if bytes = info then List.Vector.replicate 20 1 else List.Vector.replicate 20 0
  sha256 _ := zeroHash

def marked : Bytes := List.replicate 20 1

theorem matchesHash_marking (info bytes : Bytes) : matchesHash (marking info) marked bytes ↔ bytes = info := by
  by_cases same : bytes = info
  · simp [same, matchesHash, marking, marked, List.Vector.toList, List.Vector.replicate]
  · simp [same, matchesHash, marking, marked, List.Vector.toList, List.Vector.replicate]

def fresh : MagnetSwarm := ⟨MagnetContext.new marked 30, fun _ => ⟨true, fun _ => none, none⟩⟩

theorem fresh_reached (digests : Digests) : fresh.Reached digests marked := ⟨30, _, .refl⟩

theorem step_reached (reached : swarm.Reached digests marked) (event : MagnetEvent) :
    (swarm.step digests event).Reached digests marked := by
  obtain ⟨timeout, peers, run⟩ := reached
  exact ⟨timeout, peers, run.next event trivial⟩

theorem noStrays_of_keys {info : Bytes} {context : MagnetContext} (few : pieceCount info.length < u32Size)
    (keys : ∀ piece ∈ context.metadataPieces.keys, piece < pieceCount info.length) : NoStrays info context :=
  ⟨fun piece member => keys piece (Std.TreeMap.mem_keys.mpr member), few⟩

/-- Metadata of two pieces. -/
def longInfo : Bytes := List.replicate 16384 100 ++ [101]

theorem longInfo_length : longInfo.length = 16385 := by
  rw [longInfo, List.length_append, List.length_replicate, List.length_singleton]

def longPart (ip piece : String) (bytes : Bytes) : MagnetEvent :=
  .extended ip 1 (ascii ("d8:msg_typei1e5:piecei" ++ piece ++ "e10:total_sizei16385ee") ++ bytes)

/-- The swarm after wrong bytes for the first piece, the second piece and the first one. -/
def exchanged : MagnetSwarm :=
  ((fresh.step (marking longInfo) (longPart "10.0.0.2" "0" [7])).step (marking longInfo)
    (longPart "10.0.0.3" "1" [101])).step (marking longInfo) (longPart "10.0.0.1" "0" (List.replicate 16384 100))

theorem exchanged_held : HoldsMetadata longInfo exchanged.context := by
  have first : (exchanged.context.metadataPieces[0]?.any fun bytes => bytes == List.replicate 16384 100) = true := by
    decide +kernel
  have second : exchanged.context.metadataPieces[1]? = some [101] := by decide +kernel
  refine ⟨by decide +kernel, longInfo_length ▸ by decide +kernel, ?_⟩
  intro piece inside
  rw [longInfo_length, show pieceCount 16385 = 2 by decide] at inside
  obtain rfl | rfl : piece = 0 ∨ piece = 1 := by omega
  · obtain ⟨bytes, known, same⟩ := (Option.any_eq_true _ _).mp first
    rw [known, eq_of_beq same, longInfo, Nat.zero_mul]
    exact congrArg some (List.take_left' List.length_replicate).symm
  · rw [second, longInfo, Nat.one_mul, Chunks.slice, metadataBlock, List.drop_left' List.length_replicate]
    rfl

end MagnetExample

open MagnetExample

theorem MagnetSwarm.metadata_integrity_two_pieces :
    TransitionsTo (fun _ => .ok ()) longInfo
      (exchanged.context.handleMagnetBootstrap (marking longInfo) (fun _ => .ok ()) (exchanged.peers "10.0.0.1") 60 true) := by
  have reached : exchanged.Reached (marking longInfo) marked :=
    step_reached (step_reached (step_reached (fresh_reached _) _) _) _
  have integrity := MagnetSwarm.metadata_integrity reached (fun _ => .ok ()) "10.0.0.1" 60 true
  refine (integrity.2.2 longInfo (matchesHash_marking longInfo) exchanged_held).mpr ?_
  refine noStrays_of_keys ?_ ?_ <;> rw [longInfo_length]
  · decide
  · decide +kernel

namespace MagnetExample

/-- The empty dictionary as metadata. -/
def emptyInfo : Bytes := ascii "de"

def honest : MagnetEvent := .extended "10.0.0.1" 1 (ascii "d8:msg_typei1e5:piecei0e10:total_sizei2eede")

def hostile : MagnetEvent := .extended "10.0.0.2" 1 (ascii "d8:msg_typei1e5:piecei7eex")

theorem pieceCount_emptyInfo : pieceCount emptyInfo.length = 1 := by decide

theorem holdsMetadata_of_first {context : MagnetContext} (waiting : context.infoDictBytes = none)
    (size : context.metadataSize = some emptyInfo.length)
    (first : context.metadataPieces[0]? = some emptyInfo) : HoldsMetadata emptyInfo context := by
  refine ⟨waiting, size, ?_⟩
  intro piece inside
  rw [pieceCount_emptyInfo, Nat.lt_one_iff] at inside
  rw [inside, first]
  decide

end MagnetExample

/-- All the metadata is there, and one entry too many keeps the context from switching to it. -/
theorem MagnetSwarm.stray_piece_blocks_metadata :
    ∃ swarm : MagnetSwarm, swarm.Reached (marking emptyInfo) marked ∧
      (∀ bytes, matchesHash (marking emptyInfo) marked bytes ↔ bytes = emptyInfo) ∧
      HoldsMetadata emptyInfo swarm.context ∧
      ∀ (transitionFromMetadata : Bytes → Result Unit) (ip : String) (now : Nat)
        (delivered : Bool),
        (swarm.context.handleMagnetBootstrap (marking emptyInfo) transitionFromMetadata (swarm.peers ip) now
          delivered).tried = none := by
  have reached := step_reached (step_reached (fresh_reached (marking emptyInfo)) honest) hostile
  have held : HoldsMetadata emptyInfo ((fresh.step (marking emptyInfo) honest).step (marking emptyInfo) hostile).context :=
    holdsMetadata_of_first (by decide +kernel) (by decide +kernel) (by decide +kernel)
  have two : ((fresh.step (marking emptyInfo) honest).step (marking emptyInfo) hostile).context.metadataPieces.size = 2 := by
    decide +kernel
  refine ⟨_, reached, matchesHash_marking emptyInfo, held, ?_⟩
  intro transitionFromMetadata ip now delivered
  rw [held.handleMagnetBootstrap_eq reached.sound]
  simp only [tryTransition, held.size]
  rw [if_neg]
  rintro ⟨counted, _⟩
  rw [two] at counted
  contradiction

end BitTorrent
