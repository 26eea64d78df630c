import Mathlib.Data.Vector.Basic
import Mathlib.Data.UInt

/-! # Constants, bytes and errors

`constants.rs` and `error.rs`.  Machine integers are natural numbers; where the
code can wrap or overflow the bound is written out.
-/

namespace BitTorrent

/-- Size of a wire block and of a leaf block of a Merkle tree. -/
def blockSize : Nat := 16384

def hashLength : Nat := 20

def u32Size : Nat := 2 ^ 32

def u64Size : Nat := 2 ^ 64

abbrev Bytes := List UInt8

/-- A 32-byte SHA-256 digest over bytes of type `β`. -/
abbrev Hash (β : Type) := List.Vector β 32

def toHash (bytes : Bytes) : Option (Hash UInt8) :=
  if fits : bytes.length = 32 then some ⟨bytes, fits⟩ else none

theorem toHash_toList (hash : Hash UInt8) : toHash hash.toList = some hash :=
  dif_pos hash.toList_length

/-- The all-zero digest that pads Merkle layers. -/
def zeroHash {β : Type} [Zero β] : Hash β := List.Vector.replicate 32 0

inductive BencodeError where
  | unexpectedEnd
  | invalidDigit
  | unterminatedInteger
  | invalidIntegerFormat
  | invalidStringLength
  | stringTooLong
  | integerTooLong
  | trailingBytes
  | nestingDepthExceeded
  | invalidByte (byte : UInt8)
  | custom (message : String)
deriving DecidableEq, Repr

inductive BitTorrentError where
  | io (message : String)
  | bencode (reason : BencodeError)
  | missingField (field : String)
  | parse (message : String)
  | notParsed (message : String)
  | protocol (message : String)
  | lockPoisoned
  | messageTooLarge (length : Nat)
  | pieceHashMismatch (piece : Nat)
  | storage (path reason : String)
  | tracker (message : String)
  | protocolViolation (peer reason : String)
  | sessionClosed
deriving DecidableEq, Repr

abbrev Result := Except BitTorrentError

/-- Who has sent each block of a piece. -/
abbrev BlockSources := List (Option String)

def BencodeError.display : BencodeError → String
  | unexpectedEnd => "Unexpected end of input"
  | invalidDigit => "Invalid integer digit"
  | unterminatedInteger => "Unterminated integer"
  | invalidIntegerFormat => "Invalid integer format"
  | invalidStringLength => "Invalid string length"
  | stringTooLong => "String length exceeds safe limit"
  | integerTooLong => "Integer representation is too long"
  | trailingBytes => "Trailing bytes after parsing"
  | nestingDepthExceeded => "Nesting depth limit exceeded"
  | invalidByte byte => s!"Unexpected byte: {byte}"
  | custom message => message

def BitTorrentError.display : BitTorrentError → String
  | io message => s!"I/O error: {message}"
  | bencode reason => "Invalid Bencode: " ++ reason.display
  | missingField field => s!"Missing field: {field}"
  | parse message => s!"Parse error: {message}"
  | notParsed message => s!"BitTorrent Error: {message}"
  | protocol message => s!"Protocol error: {message}"
  | lockPoisoned => "Lock was poisoned by a panicked thread"
  | messageTooLarge length => s!"Wire message length {length} exceeds allowed threshold"
  | pieceHashMismatch piece => s!"Piece {piece} hash verification failed"
  | storage path reason => s!"Storage failure on '{path}': {reason}"
  | tracker message => s!"Tracker error: {message}"
  | protocolViolation peer reason => s!"Protocol violation from peer {peer}: {reason}"
  | sessionClosed => "Torrent session is closed"

inductive Outcome (α : Type) where
  | ok (value : α)
  | err (reason : BitTorrentError)
  | panic
deriving DecidableEq

def Outcome.map {α β : Type} (next : α → β) : Outcome α → Outcome β
  | ok value => ok (next value)
  | err reason => err reason
  | panic => panic

theorem Outcome.map_eq_panic {α β : Type} {next : α → β} {outcome : Outcome α} :
    outcome.map next = .panic ↔ outcome = .panic := by
  cases outcome <;> simp [Outcome.map]

/-- The hash functions, of which nothing is assumed. -/
structure Digests where
  sha1 : Bytes → List.Vector UInt8 20
  sha256 : Bytes → Hash UInt8

/-- Every byte string hashes to zero. -/
def Digests.zero : Digests where
  sha1 _ := List.Vector.replicate 20 0
  sha256 _ := zeroHash

theorem blockSize_pos : 0 < blockSize := by decide

section Results

variable {ε α β : Type} {result : Except ε α} {value : β}

theorem bind_eq_ok {next : α → Except ε β} :
    (result >>= next) = .ok value ↔ ∃ found, result = .ok found ∧ next found = .ok value := by
  cases result with
  | error reason => simp [bind, Except.bind]
  | ok found => simp [bind, Except.bind]

theorem map_eq_ok {next : α → β} : result.map next = .ok value ↔ ∃ found, result = .ok found ∧ next found = value := by
  cases result with
  | error reason => simp [Except.map]
  | ok found => simp [Except.map]

theorem guard_eq_ok {refused : Prop} [Decidable refused] {reason : ε} {found : α} :
    (if refused then .error reason else result) = .ok found ↔ ¬refused ∧ result = .ok found := by
  split
  case isTrue bad => simp [bad]
  case isFalse good => simp [good]

theorem exists_of_isOk (good : result.isOk = true) : ∃ value, result = .ok value := by
  cases result with
  | ok value => exact ⟨value, rfl⟩
  | error reason => cases good

theorem eq_ok_of_toOption {found : α} (good : result.toOption = some found) : result = .ok found := by
  cases result with
  | ok value => rw [Option.some.inj good]
  | error reason => cases good

end Results

end BitTorrent
