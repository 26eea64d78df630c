import Mathlib.Data.List.Basic

/-! # Stream ciphers

A generator gives one key a step, and each letter of a text is mixed with the next key.  A channel is a
queue between a sender and a receiver that each have a generator of their own.
-/

structure StreamCipher (S A : Type) where
  next : S → A × S
  mix : A → A → A
  mix_mix : ∀ letter key, mix (mix letter key) key = letter

namespace StreamCipher

open List

variable {S A : Type} (cipher : StreamCipher S A)

/-- Mixes a text with the keys of a state, and gives the state behind them. -/
def process : S → List A → List A × S
  | state, [] => ([], state)
  | state, letter :: rest =>
    let (done, final) := process (cipher.next state).2 rest
    (cipher.mix letter (cipher.next state).1 :: done, final)

@[simp]
theorem process_nil (state : S) : cipher.process state [] = ([], state) := rfl

theorem process_cons (state : S) (letter : A) (rest : List A) :
    cipher.process state (letter :: rest) =
      (cipher.mix letter (cipher.next state).1 :: (cipher.process (cipher.next state).2 rest).1,
        (cipher.process (cipher.next state).2 rest).2) := rfl

theorem process_append (state : S) (front back : List A) :
    cipher.process state (front ++ back) =
      ((cipher.process state front).1 ++ (cipher.process (cipher.process state front).2 back).1,
        (cipher.process (cipher.process state front).2 back).2) := by
  induction front generalizing state with
  | nil => rfl
  | cons letter front ih => rw [cons_append, process_cons, ih, process_cons, cons_append]

@[simp]
theorem process_length (state : S) (letters : List A) : (cipher.process state letters).1.length = letters.length := by
  induction letters generalizing state with
  | nil => rfl
  | cons letter letters ih => rw [process_cons, length_cons, length_cons, ih]

theorem process_state {first second : List A} (same : first.length = second.length) (state : S) :
    (cipher.process state first).2 = (cipher.process state second).2 := by
  induction first generalizing second state with
  | nil => rw [eq_nil_of_length_eq_zero same.symm]
  | cons letter first ih =>
    cases second with
    | nil => cases same
    | cons other second =>
      exact ih (Nat.succ.inj same) _

theorem process_process (state : S) (letters : List A) :
    (cipher.process state (cipher.process state letters).1).1 = letters := by
  induction letters generalizing state with
  | nil => rfl
  | cons letter letters ih => rw [process_cons, process_cons, cipher.mix_mix, ih]

theorem process_invariant {holds : S → Prop} (kept : ∀ state, holds state → holds (cipher.next state).2) {state : S}
    (initially : holds state) (letters : List A) : holds (cipher.process state letters).2 := by
  induction letters generalizing state with
  | nil => exact initially
  | cons letter letters ih => exact ih (kept state initially)

/-- The sender's and the receiver's state, what is on its way, and what was sent and received. -/
@[ext]
structure Channel (S A : Type) where
  sender : S
  wire : List A
  receiver : S
  sent : List A
  received : List A

namespace Channel

def start (sender receiver : S) : Channel S A := ⟨sender, [], receiver, [], []⟩

def send (channel : Channel S A) (letters : List A) : Channel S A :=
  { channel with
    sender := (cipher.process channel.sender letters).2
    wire := channel.wire ++ (cipher.process channel.sender letters).1
    sent := channel.sent ++ letters }

def receive (channel : Channel S A) (count : Nat) : Channel S A :=
  { channel with
    wire := channel.wire.drop count
    receiver := (cipher.process channel.receiver (channel.wire.take count)).2
    received := channel.received ++ (cipher.process channel.receiver (channel.wire.take count)).1 }

/-- The sender is behind all that was sent and the receiver behind all that was received, which with the
decoded wire is what was sent. -/
structure InStep (state : S) (channel : Channel S A) : Prop where
  sender : channel.sender = (cipher.process state channel.sent).2
  receiver : channel.receiver = (cipher.process state channel.received).2
  complete : channel.received ++ (cipher.process channel.receiver channel.wire).1 = channel.sent

variable {cipher} {state : S} {channel : Channel S A}

theorem InStep.start (state : S) : InStep cipher state (.start state state) := ⟨rfl, rfl, rfl⟩

section

variable (inStep : InStep cipher state channel)
include inStep

theorem InStep.meet : (cipher.process channel.receiver channel.wire).2 = channel.sender := by
  have same : channel.wire.length = (cipher.process channel.receiver channel.wire).1.length := by simp
  rw [cipher.process_state same, inStep.sender, ← inStep.complete, process_append, ← inStep.receiver]

theorem InStep.send (letters : List A) : InStep cipher state (channel.send cipher letters) where
  sender := by rw [Channel.send, process_append, ← inStep.sender]
  receiver := inStep.receiver
  complete := by
    rw [Channel.send, process_append, ← append_assoc, inStep.complete, inStep.meet, process_process]

theorem InStep.receive (count : Nat) : InStep cipher state (channel.receive cipher count) where
  sender := inStep.sender
  receiver := by
    have same : (channel.wire.take count).length = (cipher.process channel.receiver (channel.wire.take count)).1.length := by
      simp
    rw [Channel.receive, process_append, ← inStep.receiver, cipher.process_state same]
  complete := by
    have whole := cipher.process_append channel.receiver (channel.wire.take count) (channel.wire.drop count)
    rw [take_append_drop] at whole
    have decoded := congrArg (fun pair => channel.received ++ pair.1) whole
    exact (append_assoc _ _ _).trans (decoded.symm.trans inStep.complete)

theorem InStep.received_prefix : channel.received <+: channel.sent :=
  ⟨_, inStep.complete⟩

theorem InStep.received_eq (drained : channel.wire = []) : channel.received = channel.sent := by
  have complete := inStep.complete
  rw [drained, process_nil, append_nil] at complete
  exact complete

/-- The wire holds the rest of what one call on all of the text would give. -/
theorem InStep.wire_eq : channel.wire = (cipher.process state channel.sent).1.drop channel.received.length := by
  have front := cipher.process_length state channel.received
  rw [← inStep.complete, process_append, ← inStep.receiver, process_process, drop_left' front]

end

end Channel

end StreamCipher
