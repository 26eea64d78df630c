import BitTorrent.Basic
import BitTorrent.Library.FlatStore

/-! # Block storage

`utils/io_traits.rs`.  A storage is a record of its operations over an explicit state.
`read_block` gets the caller's buffer and gives it back filled, with the count it returns.
-/

namespace BitTorrent

open FlatStore

structure BlockStorage (σ : Type) where
  readBlock : σ → Nat → Bytes → σ × Result (Nat × Bytes)
  writeBlock : σ → Nat → Bytes → σ × Result Unit
  flush : σ → σ × Result Unit
  discardRange : σ → Nat → Nat → σ

/-- A storage that holds one flat run of bytes.  Any operation may fail; a failed write
may have changed any part of its own range, and nothing else. -/
structure ByteStore (σ : Type) extends BlockStorage σ where
  content : σ → Nat → UInt8
  write_ok : ∀ {state after : σ} {start : Nat} {data : Bytes},
    writeBlock state start data = (after, .ok ()) →
    content after = write (content state) start data
  write_error : ∀ {state after : σ} {start : Nat} {data : Bytes} {reason : BitTorrentError},
    writeBlock state start data = (after, .error reason) →
    ∀ position, ¬ Extent.Covers (start, data) position → content after position = content state position
  read_ok : ∀ {state after : σ} {start count : Nat} {buffer bytes : Bytes},
    readBlock state start buffer = (after, .ok (count, bytes)) →
    bytes = read (content state) start buffer.length
  read_content : ∀ {state : σ} {start : Nat} {buffer : Bytes},
    content (readBlock state start buffer).1 = content state

/-- A flat store in which `flush` is invisible and `discardRange` stays inside its range. -/
structure SteadyStore (σ : Type) extends ByteStore σ where
  flush_content : ∀ {state : σ}, content (flush state).1 = content state
  discard_outside : ∀ {state : σ} {start length position : Nat},
    ¬ (start ≤ position ∧ position < start + length) →
    content (discardRange state start length) position = content state position

/-- A flat store with a list that tells which of the coming writes fail. -/
structure FaultyBytes where
  content : Nat → UInt8
  failures : List Bool

def faultyStore : ByteStore FaultyBytes where
  readBlock state start buffer := (state, .ok (buffer.length, read state.content start buffer.length))
  writeBlock state start data :=
    if state.failures.headD false then
      ({ state with failures := state.failures.tail }, .error (.io "write failed"))
    else ({ content := write state.content start data, failures := state.failures.tail }, .ok ())
  flush state := (state, .ok ())
  discardRange state _ _ := state
  content := FaultyBytes.content
  write_ok written := by
    split at written <;> cases written
    rfl
  write_error written position _ := by
    split at written <;> cases written
    rfl
  read_ok done := by
    cases done
    rfl
  read_content := rfl

def faultySteadyStore : SteadyStore FaultyBytes where
  toByteStore := faultyStore
  flush_content := rfl
  discard_outside _ := rfl

end BitTorrent
