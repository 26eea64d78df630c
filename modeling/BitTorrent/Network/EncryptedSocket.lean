import Mathlib.Logic.Function.Basic
import BitTorrent.Network.Mse
import BitTorrent.Network.PeerNetwork

/-! # Encrypted sockets

`EncryptedSocket` of `network/peer_network.rs`, and a connection between two of them.  Every write of the
inner socket takes the whole buffer; a read takes what the event says.
-/

namespace BitTorrent

open Rc4 Function

inductive Side where
  | left
  | right
deriving DecidableEq

def Side.other : Side → Side
  | left => right
  | right => left

theorem Side.other_ne : ∀ side : Side, side.other ≠ side := by
  intro side
  cases side <;> decide

structure EncryptedSocket where
  rc4Encrypt : Rc4
  rc4Decrypt : Rc4

namespace EncryptedSocket

variable (socket : EncryptedSocket)

/-- `read`, on what the inner socket gave. -/
def read : Except ReadError Bytes → Except ReadError Bytes × EncryptedSocket
  | .error reason => (.error reason, socket)
  | .ok buf =>
    if buf.length > 0 then
      let (decrypted, rc4) := socket.rc4Decrypt.encrypt buf
      (.ok decrypted, { socket with rc4Decrypt := rc4 })
    else (.ok buf, socket)

/-- The bytes a call of `read` leaves its caller. -/
def bytesRead : Except ReadError Bytes → Bytes
  | .error _ => []
  | .ok buf => buf

/-- `write`: what the inner socket is given. -/
def write (buf : Bytes) : Bytes × EncryptedSocket :=
  let (encrypted, rc4) := socket.rc4Encrypt.encrypt buf
  (encrypted, { socket with rc4Encrypt := rc4 })

-- Without bytes the cipher does not move, so the branch makes no difference.
theorem read_ok (buf : Bytes) : socket.read (.ok buf) =
      (.ok (socket.rc4Decrypt.encrypt buf).1, { socket with rc4Decrypt := (socket.rc4Decrypt.encrypt buf).2 }) := by
  cases buf <;> rfl

end EncryptedSocket

/-- The sockets of the two sides, the bytes on their way from each, what each has written and what its
reads have given. -/
structure Connection where
  sockets : Side → EncryptedSocket
  wires : Side → Bytes
  written : Side → Bytes
  returned : Side → Bytes

inductive SocketCall where
  | write (side : Side) (buf : Bytes)
  | read (side : Side) (event : ReadEvent)

namespace Connection

open StreamCipher (Channel)

def start (sockets : Side → EncryptedSocket) : Connection := ⟨sockets, fun _ => [], fun _ => [], fun _ => []⟩

/-- The inner socket of a side, which reads from the other side's wire. -/
def innerRead (wire : Bytes) : ReadEvent → Except ReadError Bytes × Bytes
  | .ready count => (.ok (wire.take count), wire.drop count)
  | .failure kind => (.error (.io kind), wire)

variable (connection : Connection)

def step : SocketCall → Connection
  | .write side buf =>
    let (encrypted, socket) := (connection.sockets side).write buf
    { connection with
      sockets := update connection.sockets side socket
      wires := update connection.wires side (connection.wires side ++ encrypted)
      written := update connection.written side (connection.written side ++ buf) }
  | .read side event =>
    let (inner, wire) := innerRead (connection.wires side.other) event
    let (result, socket) := (connection.sockets side).read inner
    { connection with
      sockets := update connection.sockets side socket
      wires := update connection.wires side.other wire
      returned := update connection.returned side (connection.returned side ++ EncryptedSocket.bytesRead result) }

def run (calls : List SocketCall) : Connection := calls.foldl step connection

/-- The bytes that go from a side to the other. -/
def direction (side : Side) : Channel Rc4 UInt8 where
  sender := (connection.sockets side).rc4Encrypt
  wire := connection.wires side
  receiver := (connection.sockets side.other).rc4Decrypt
  sent := connection.written side
  received := connection.returned side.other

variable {connection : Connection} {side : Side}

theorem direction_write (writer : Side) (buf : Bytes) :
    (connection.step (.write writer buf)).direction side =
      if side = writer then (connection.direction side).send cipher buf else connection.direction side := by
  by_cases same : side = writer
  · subst same
    simp [direction, step, EncryptedSocket.write, Channel.send, encrypt_eq_process, side.other_ne]
  · by_cases peer : side.other = writer
    · subst peer
      simp [direction, step, EncryptedSocket.write, side.other_ne.symm]
    · simp [direction, step, same, peer]

theorem direction_failure (reader : Side) (kind : IoErrorKind) :
    (connection.step (.read reader (.failure kind))).direction side = connection.direction side := by
  simp [direction, step, innerRead, EncryptedSocket.read, EncryptedSocket.bytesRead]

theorem direction_ready (reader : Side) (count : Nat) :
    (connection.step (.read reader (.ready count))).direction side =
      if side = reader.other then (connection.direction side).receive cipher count else connection.direction side := by
  cases reader <;> cases side <;>
    simp [direction, step, innerRead, EncryptedSocket.read_ok, EncryptedSocket.bytesRead, Channel.receive, Side.other,
      encrypt_eq_process, update]

theorem InStep.step {rc4 : Rc4} (inStep : Channel.InStep cipher rc4 (connection.direction side)) (call : SocketCall) :
    Channel.InStep cipher rc4 ((connection.step call).direction side) := by
  cases call with
  | write writer buf =>
    rw [direction_write]
    split
    case isTrue => exact inStep.send buf
    case isFalse => exact inStep
  | read reader event =>
    cases event with
    | failure kind => rwa [direction_failure]
    | ready count =>
      rw [direction_ready]
      split
      case isTrue => exact inStep.receive count
      case isFalse => exact inStep

theorem InStep.run {rc4 : Rc4} (inStep : Channel.InStep cipher rc4 (connection.direction side))
    (calls : List SocketCall) : Channel.InStep cipher rc4 ((connection.run calls).direction side) := by
  induction calls generalizing connection with
  | nil => exact inStep
  | cons call calls ih => exact ih (InStep.step inStep call)

/-- A side reads what the other has written, in the same order, and nothing is missing once the wire is
empty; the ciphers and the wire depend on the bytes and not on the calls that carried them. -/
theorem run_inStep {key : Bytes} (nonempty : key ≠ []) :
    ∃ rc4, new key = .ok rc4 ∧ rc4.IsPermutation ∧
      ∀ (sockets : Side → EncryptedSocket) (side : Side) (calls : List SocketCall),
        (sockets side).rc4Encrypt = rc4 → (sockets side.other).rc4Decrypt = rc4 →
        let after := (start sockets).run calls
        after.returned side.other <+: after.written side ∧
          (after.wires side = [] → after.returned side.other = after.written side) ∧
          after.wires side = (rc4.encrypt (after.written side)).1.drop (after.returned side.other).length ∧
          (after.sockets side).rc4Encrypt = (rc4.encrypt (after.written side)).2 ∧
          (after.sockets side.other).rc4Decrypt = (rc4.encrypt (after.returned side.other)).2 ∧
          (after.sockets side).rc4Encrypt.IsPermutation ∧ (after.sockets side.other).rc4Decrypt.IsPermutation := by
  obtain ⟨rc4, made, permutation⟩ := new_eq_ok nonempty
  refine ⟨rc4, made, permutation, fun sockets side calls writes reads => ?_⟩
  have begins : (start sockets).direction side = .start rc4 rc4 := by
    rw [direction, start, writes, reads, Channel.start]
  have inStep := InStep.run (begins ▸ Channel.InStep.start rc4) calls
  have sender := inStep.sender
  have receiver := inStep.receiver
  have wire := inStep.wire_eq
  rw [← encrypt_eq_process] at sender receiver wire
  have sends := encrypt_isPermutation permutation (((start sockets).run calls).written side)
  have receives := encrypt_isPermutation permutation (((start sockets).run calls).returned side.other)
  exact ⟨inStep.received_prefix, inStep.received_eq, wire, sender, receiver,
    (congrArg IsPermutation sender).mpr sends, (congrArg IsPermutation receiver).mpr receives⟩

theorem run_inStep_twoWrites :
    ∃ rc4, new [7] = .ok rc4 ∧
      ((start fun _ => ⟨rc4, rc4⟩).run
        [.write .left [1, 2], .read .right (.ready 1), .write .left [3], .read .right (.failure .wouldBlock),
          .write .right [9], .read .right (.ready 5)]).returned .right = [1, 2, 3] := by
  obtain ⟨rc4, made, _, inStep⟩ := run_inStep (List.cons_ne_nil 7 [])
  refine ⟨rc4, made, ((inStep (fun _ => ⟨rc4, rc4⟩) .left _ rfl rfl).2.1 ?_).trans ?_⟩
  · apply List.eq_nil_of_length_eq_zero
    simp [run, step, start, innerRead, EncryptedSocket.read, EncryptedSocket.write,
      encrypt_eq_process, Side.other]
  · simp [run, step, start]

end Connection

end BitTorrent
