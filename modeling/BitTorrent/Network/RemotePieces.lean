import BitTorrent.Core.BitField
import BitTorrent.Network.PeerMessage

/-! # The pieces of a remote peer

What `network/peer.rs` keeps about the pieces of the other side, against what the other side has said.
-/

namespace BitTorrent

open List Function

structure RemotePieces where
  peerIsSeed : Bool
  remotePieceBitfield : Bytes
  numberOfMissingPieces : Nat
deriving DecidableEq

namespace RemotePieces

variable (remote : RemotePieces)

def initBitfield (numberOfPieces bitfieldLen : Nat) : RemotePieces :=
  if remote.peerIsSeed then
    { remote with numberOfMissingPieces := 0, remotePieceBitfield := replicate bitfieldLen 0xFF }
  else
    { remote with numberOfMissingPieces := numberOfPieces, remotePieceBitfield := replicate bitfieldLen 0 }

/-- A new peer that is linked to a context. -/
def new (numberOfPieces bitfieldLen : Nat) : RemotePieces := initBitfield ⟨false, [], 0⟩ numberOfPieces bitfieldLen

def isPieceOnRemotePeer (piece : Nat) : Bool :=
  remote.peerIsSeed || bitSet remote.remotePieceBitfield piece

/-- `resize` with zeros up to the byte of the piece. -/
def resized (bits : Bytes) (piece : Nat) : Bytes :=
  if bits.length ≤ piece / 8 then bits ++ replicate (piece / 8 + 1 - bits.length) 0 else bits

def setPieceOnRemotePeer (piece : Nat) : RemotePieces :=
  let bits := resized remote.remotePieceBitfield piece
  if bitSet bits piece then { remote with remotePieceBitfield := bits }
  else
    { remote with
      remotePieceBitfield := putBit bits piece true
      numberOfMissingPieces := remote.numberOfMissingPieces - 1 }

def countOnes (byte : UInt8) : Nat := (range 8).countP byte.toNat.testBit

def setRemoteBitfield (bitfield : Bytes) : RemotePieces :=
  { remote with
    remotePieceBitfield := bitfield
    numberOfMissingPieces := remote.numberOfMissingPieces - (bitfield.map countOnes).sum }

/-- `fill`, or a new vector when the length is another one than that of the context. -/
def filled (bits : Bytes) (contextLen : Nat) (byte : UInt8) : Bytes :=
  if bits.length ≠ contextLen then replicate contextLen byte else bits.map fun _ => byte

/-- The arms of `handle_peer_message` that change what is known of the remote pieces. -/
def receive (numberOfPieces bitfieldLen : Nat) (remote : RemotePieces) : PeerMessage → RemotePieces
  | .have_ index => remote.setPieceOnRemotePeer index.toNat
  | .bitfield bits => remote.setRemoteBitfield bits
  | .haveAll => ⟨true, filled remote.remotePieceBitfield bitfieldLen 0xFF, 0⟩
  | .haveNone => ⟨false, filled remote.remotePieceBitfield bitfieldLen 0, numberOfPieces⟩
  | _ => remote

/-- What a peer has said after one more message: `Have` adds a piece, the others speak of all. -/
def announced (known : Nat → Bool) : PeerMessage → Nat → Bool
  | .have_ index => update known index.toNat true
  | .bitfield bits => bitSet bits
  | .haveAll => fun _ => true
  | .haveNone => fun _ => false
  | _ => known

/-- The bits of a peer that is not taken for a seed are those that it announced. -/
def Tracks (known : Nat → Bool) : Prop :=
  remote.peerIsSeed = false → ∀ piece, bitSet remote.remotePieceBitfield piece = known piece

variable {remote : RemotePieces} {known : Nat → Bool} {bits : Bytes} {piece numberOfPieces bitfieldLen : Nat}

theorem bitSet_append_zeros (bits : Bytes) (count piece : Nat) :
    bitSet (bits ++ replicate count 0) piece = bitSet bits piece := by
  by_cases within : piece / 8 < bits.length
  · rw [bitSet, bitSet, getElem?_append_left within]
  · have zeros := @bitSet_replicate_zero (8 * (piece / 8 - bits.length) + piece % 8) count
    have byte : (8 * (piece / 8 - bits.length) + piece % 8) / 8 = piece / 8 - bits.length := by omega
    have mask : bitMask (8 * (piece / 8 - bits.length) + piece % 8) = bitMask piece := by
      rw [← bitMask_mod, ← bitMask_mod piece]
      congr 1
      omega
    rw [bitSet, byte, mask] at zeros
    rw [bitSet_of_length_le (Nat.not_lt.mp within), bitSet, getElem?_append_right (Nat.not_lt.mp within), zeros]

theorem bitSet_resized (bits : Bytes) (piece other : Nat) : bitSet (resized bits piece) other = bitSet bits other := by
  rw [resized]
  split
  case isTrue => exact bitSet_append_zeros bits _ other
  case isFalse => rfl

theorem resized_length (bits : Bytes) (piece : Nat) : (resized bits piece).length = max bits.length (piece / 8 + 1) := by
  rw [resized]
  split
  case isTrue =>
    rw [length_append, length_replicate]
    omega
  case isFalse long => exact (max_eq_left (Nat.not_le.mp long)).symm

theorem setPieceOnRemotePeer_bit (remote : RemotePieces) (piece other : Nat) :
    bitSet (remote.setPieceOnRemotePeer piece).remotePieceBitfield other =
      update (bitSet remote.remotePieceBitfield) piece true other := by
  rw [setPieceOnRemotePeer]
  split
  case isTrue there =>
    rw [bitSet_resized] at there ⊢
    rw [← there, update_eq_self]
  case isFalse =>
    by_cases same : other = piece
    · rw [same, update_self]
      exact bitSet_putBit_self (by rw [resized_length]; exact Nat.le_max_right _ _)
    · rw [update_of_ne same]
      exact (bitSet_putBit_other (Ne.symm same)).trans (bitSet_resized _ _ _)

theorem setPieceOnRemotePeer_seed (remote : RemotePieces) (piece : Nat) :
    (remote.setPieceOnRemotePeer piece).peerIsSeed = remote.peerIsSeed := by
  rw [setPieceOnRemotePeer]
  split <;> rfl

theorem filled_eq (bits : Bytes) (contextLen : Nat) (byte : UInt8) :
    filled bits contextLen byte = replicate contextLen byte := by
  rw [filled]
  split
  case isTrue => rfl
  case isFalse same => rw [map_const', not_not.mp same]

theorem Tracks.receive (tracks : remote.Tracks known) (message : PeerMessage) :
    (remote.receive numberOfPieces bitfieldLen message).Tracks (announced known message) := by
  cases message with
  | have_ index =>
    intro leech other
    have same := tracks ((setPieceOnRemotePeer_seed remote index.toNat).symm.trans leech)
    have bits := setPieceOnRemotePeer_bit remote index.toNat other
    rw [funext same] at bits
    exact bits
  | bitfield bits => exact fun _ _ => rfl
  | haveAll => exact fun leech => (nomatch leech)
  | haveNone => exact fun _ piece => (congrArg (bitSet · piece) (filled_eq ..)).trans (bitSet_replicate_zero _)
  | _ => exact tracks

theorem tracks_new : (new numberOfPieces bitfieldLen).Tracks fun _ => false :=
  fun _ _ => bitSet_replicate_zero _

/-- Setting the length anew keeps what was announced: everything of a seed, and of others what has
the new length already, or nothing. -/
def Outlasts (remote : RemotePieces) (known : Nat → Bool) (numberOfPieces : Nat) : Prop :=
  if remote.peerIsSeed then ∀ piece < numberOfPieces, known piece = true
  else remote.remotePieceBitfield.length = (numberOfPieces + 7) / 8 ∨ ∀ piece < numberOfPieces, known piece = false

/-- The loop of `transition_from_metadata` over the peers. -/
def resync (remote : RemotePieces) (numberOfPieces bitfieldLen : Nat) : RemotePieces :=
  if remote.remotePieceBitfield.length ≠ bitfieldLen then remote.initBitfield numberOfPieces bitfieldLen else remote

theorem isPieceOnRemotePeer_resync_seed (seed : remote.peerIsSeed = true) :
    (remote.resync numberOfPieces bitfieldLen).isPieceOnRemotePeer piece = true := by
  rw [resync, initBitfield, if_pos seed]
  split
  case isTrue => rw [isPieceOnRemotePeer, seed, Bool.true_or]
  case isFalse => rw [isPieceOnRemotePeer, seed, Bool.true_or]

theorem Tracks.resync_iff (tracks : remote.Tracks known) :
    (∀ piece < numberOfPieces,
        (remote.resync numberOfPieces ((numberOfPieces + 7) / 8)).isPieceOnRemotePeer piece = known piece) ↔
      remote.Outlasts known numberOfPieces := by
  rw [Outlasts]
  split
  case isTrue seed =>
    simp only [isPieceOnRemotePeer_resync_seed seed]
    exact ⟨fun kept piece below => (kept piece below).symm, fun all piece below => (all piece below).symm⟩
  case isFalse notSeed =>
    have leech : remote.peerIsSeed = false := (Bool.not_eq_true _).mp notSeed
    by_cases long : remote.remotePieceBitfield.length = (numberOfPieces + 7) / 8
    · rw [resync, if_neg (not_not.mpr long)]
      refine ⟨fun _ => .inl long, fun _ piece _ => ?_⟩
      rw [isPieceOnRemotePeer, leech, Bool.false_or, tracks leech]
    · have cleared : ∀ piece, (remote.resync numberOfPieces ((numberOfPieces + 7) / 8)).isPieceOnRemotePeer piece =
          false := by
        intro piece
        rw [resync, if_pos long, initBitfield, if_neg notSeed, isPieceOnRemotePeer, leech, Bool.false_or]
        exact bitSet_replicate_zero _
      simp only [cleared, long, false_or]
      exact ⟨fun kept piece below => (kept piece below).symm, fun none piece below => (none piece below).symm⟩

end RemotePieces

end BitTorrent
