import BitTorrent.Network.PeerNetwork

/-! # Framing

A connection on which messages were written back to back, read by a caller that goes on after a
timeout as `run_peer_loop` does.  The prefix reader gives up after sixteen failures in a row with the
error of the socket, which the caller takes for an idle connection; the bytes of the prefix that were
read by then are gone.
-/

namespace BitTorrent.PeerNetwork

open List

/-- The messages that a row of calls returns, and the socket behind them. -/
inductive Reads (bufferLen : Nat) : Socket → List PeerMessage → Socket → Prop
  | start (socket : Socket) : Reads bufferLen socket [] socket
  | message {socket next after : Socket} {message : PeerMessage} {messages : List PeerMessage}
      (read : readMessage bufferLen socket = some (.ok message, next)) (rest : Reads bufferLen next messages after) :
      Reads bufferLen socket (message :: messages) after
  | retry {socket next after : Socket} {reason : ReadError} {messages : List PeerMessage}
      (read : readMessage bufferLen socket = some (.error reason, next)) (retried : reason.isRetried = true)
      (rest : Reads bufferLen next messages after) : Reads bufferLen socket messages after

def wire (messages : List PeerMessage) : Bytes := messages.flatMap PeerMessage.encode

theorem wire_cons (message : PeerMessage) (rest : List PeerMessage) :
    wire (message :: rest) = lengthBytes message.body.length ++ (message.body ++ wire rest) := by
  rw [wire, flatMap_cons, PeerMessage.encode_eq, append_assoc]
  rfl

/-- What is returned are the messages that were written, in their order, and a call that is repeated
has read nothing. -/
def KeepsFraming (bufferLen : Nat) (messages : List PeerMessage) (script : List ReadEvent) : Prop :=
  ∀ returned socket, Reads bufferLen ⟨wire messages, script⟩ returned socket →
    returned <+: messages ∧
      ∀ reason next, readMessage bufferLen socket = some (.error reason, next) → reason.isRetried = true →
        next.stream = socket.stream

section Delivery

/-- How far the delivery has come: the bytes of the first message that are read, and the failures
since then. -/
structure Cursor where
  messages : List PeerMessage
  offset : Nat
  failures : Nat

inductive Progress where
  | going (cursor : Cursor)
  | ended
  | lost

def announced (message : PeerMessage) : Nat := message.body.length % 2 ^ 32

/-- What the announced part of a message is taken for. -/
def received (bufferLen : Nat) (message : PeerMessage) : Result PeerMessage :=
  if announced message = 0 then .ok .keepAlive else accept bufferLen (message.body.take (announced message))

/-- The end of the part that is read next. -/
def Cursor.limit (message : PeerMessage) (offset : Nat) : Nat := if offset < 4 then 4 else 4 + announced message

def Cursor.arrive (bufferLen : Nat) (message : PeerMessage) (rest : List PeerMessage) (offset : Nat) : Progress :=
  if offset < 4 then .going ⟨message :: rest, offset, 0⟩
  else if announce bufferLen (announced message) ≠ .ok () then .ended
  else if offset < 4 + announced message then .going ⟨message :: rest, offset, 0⟩
  else
    match received bufferLen message with
    | .error _ => .ended
    | .ok taken => if taken = message then .going ⟨rest, 0, 0⟩ else .lost

/-- Framing is lost when a prefix is given up in the middle with an error that is retried, or when a
part of a message whose length does not fit into the prefix is taken for another message. -/
def Cursor.step (bufferLen : Nat) : Cursor → ReadEvent → Progress
  | ⟨[], _, _⟩, .ready _ => .ended
  | ⟨message :: rest, offset, _⟩, .ready count =>
    if count = 0 then .ended else arrive bufferLen message rest (offset + min count (limit message offset - offset))
  | ⟨messages, offset, failures⟩, .failure kind =>
    if kind.isTimeoutOrWouldblock = false then .ended
    else if offset = 0 then .going ⟨messages, 0, 0⟩
    else if failures < 15 then .going ⟨messages, offset, failures + 1⟩
    else if offset < 4 then .lost
    else .ended

def Progress.loses (bufferLen : Nat) : Progress → List ReadEvent → Bool
  | lost, _ => true
  | ended, _ => false
  | going _, [] => false
  | going cursor, event :: script => loses bufferLen (cursor.step bufferLen event) script

theorem Progress.loses_lost (bufferLen : Nat) (script : List ReadEvent) : loses bufferLen lost script = true := by
  cases script <;> rfl

theorem Progress.loses_ended (bufferLen : Nat) (script : List ReadEvent) : loses bufferLen ended script = false := by
  cases script <;> rfl

def losesFraming (bufferLen : Nat) (messages : List PeerMessage) (script : List ReadEvent) : Bool :=
  Progress.loses bufferLen (.going ⟨messages, 0, 0⟩) script

end Delivery

open Progress FillPolicy

variable {left : List ReadEvent}

section Outcome

section

variable (bufferLen : Nat) (messages : List PeerMessage) (bound : Nat)

/-- What a call can do, and what that means for the framing.  The script that is left is shorter than
the bound. -/
inductive Outcome : Bool → ReadOutcome PeerMessage → Prop
  | waiting : Outcome false none
  | received {message : PeerMessage} {rest : List PeerMessage} {left : List ReadEvent} (next : messages = message :: rest)
      (shorter : left.length < bound) :
      Outcome (losesFraming bufferLen rest left) (some (.ok message, ⟨wire rest, left⟩))
  | wrong {message : PeerMessage} {after : Socket} (other : ∀ rest, messages ≠ message :: rest) :
      Outcome true (some (.ok message, after))
  | failed {reason : ReadError} {after : Socket} (final : reason.isRetried = false) :
      Outcome false (some (.error reason, after))
  | again {reason : ReadError} {left : List ReadEvent} (retried : reason.isRetried = true) (shorter : left.length < bound) :
      Outcome (losesFraming bufferLen messages left) (some (.error reason, ⟨wire messages, left⟩))
  | torn {reason : ReadError} {after : Socket} (retried : reason.isRetried = true) (part : after.stream ≠ wire messages) :
      Outcome true (some (.error reason, after))

end

variable {bufferLen : Nat} {message : PeerMessage} {rest : List PeerMessage}

theorem fromBytes_lengthBytes_body (message : PeerMessage) :
    BigEndian.fromBytes (lengthBytes message.body.length) = announced message := BigEndian.fromBytes_toBytes_mod _ _

theorem announced_le (message : PeerMessage) : announced message ≤ message.body.length := Nat.mod_le _ _

theorem announced_of_received (same : received bufferLen message = .ok message) :
    announced message = message.body.length := by
  rw [received] at same
  split at same
  case isTrue zero =>
    cases same
    exact zero
  case isFalse long =>
    have nonempty : message.body.take (announced message) ≠ [] := by
      have le := announced_le message
      rw [← length_pos_iff, length_take]
      omega
    have whole := congrArg List.length (body_of_accept nonempty same)
    rw [length_take] at whole
    have le := announced_le message
    omega

variable {script : List ReadEvent} {policy : FillPolicy} {retries total : Nat} {behind : Bytes}

theorem fill_word {word : Bytes} {offset count : Nat}
    (sized : word.length = total) (positive : 0 < count) (inside : offset < total) :
    policy.fill total (.ready count :: script) (word.drop offset ++ behind) (word.take offset) retries =
      policy.fill total script (word.drop (offset + min count (total - offset)) ++ behind)
        (word.take (offset + min count (total - offset))) 0 := by
  rw [policy.fill_part total positive (by rw [length_drop]; omega)
    (by rw [length_take, length_drop]; omega), length_drop, sized, drop_drop, ← take_add]

theorem fill_word_done {word : Bytes} (sized : word.length = total) :
    policy.fill total script (word.drop total ++ behind) (word.take total) retries = some (.ok word, ⟨behind, script⟩) := by
  subst sized
  rw [take_length, drop_length, policy.fill_done word.length (Nat.le_refl _), nil_append]

theorem fill_zero {stream filled : Bytes} (short : filled.length < total) :
    policy.fill total (.ready 0 :: script) stream filled retries = some (.error policy.eof, ⟨stream, script⟩) := by
  rw [policy.fill_ready total short]
  rw [Nat.zero_min, take_zero, if_pos rfl]

theorem finish_outcome {bound : Nat} (shorter : left.length < bound)
    (allowed : announce bufferLen (announced message) = .ok ()) :
    Outcome bufferLen (message :: rest) bound
      (loses bufferLen (Cursor.arrive bufferLen message rest (4 + announced message)) left)
      (some ((received bufferLen message).mapError .failed,
        ⟨message.body.drop (announced message) ++ wire rest, left⟩)) := by
  rw [Cursor.arrive, if_neg (by omega), if_neg (not_not.mpr allowed), if_neg (Nat.lt_irrefl _)]
  cases taken : received bufferLen message with
  | error reason =>
    rw [loses_ended]
    exact .failed rfl
  | ok other =>
    dsimp only
    by_cases same : other = message
    · subst same
      rw [if_pos rfl, announced_of_received taken, drop_length, nil_append]
      exact .received rfl shorter
    · rw [if_neg same, loses_lost]
      refine .wrong ?_
      intro messages equal
      exact same (cons.inj equal).1.symm

theorem body_outcome {bound offset : Nat} (bounded : script.length ≤ bound)
    (allowed : announce bufferLen (announced message) = .ok ()) (inside : offset < announced message) :
    let word := message.body.take (announced message)
    Outcome bufferLen (message :: rest) bound
      (loses bufferLen (.going ⟨message :: rest, 4 + offset, retries⟩) script)
      (ReadOutcome.andThen
        ((payload (announced message)).fill (announced message) script
          (word.drop offset ++ (message.body.drop (announced message) ++ wire rest)) (word.take offset) retries)
        fun body socket => some ((accept bufferLen body).mapError .failed, socket)) := by
  intro word
  have sized : word.length = announced message := length_take_of_le (announced_le message)
  induction script generalizing offset retries with
  | nil =>
    rw [fill_nil _ _ (by rw [length_take]; omega)]
    exact .waiting
  | cons event script ih =>
    have fewer : script.length < bound := bounded
    have short : (word.take offset).length < announced message := by
      rw [length_take]
      omega
    cases event with
    | ready count =>
      rcases Nat.eq_zero_or_pos count with rfl | positive
      · rw [fill_zero short, loses, Cursor.step, if_pos rfl, loses_ended]
        exact .failed rfl
      · have limit : Cursor.limit message (4 + offset) - (4 + offset) = announced message - offset := by
          rw [Cursor.limit, if_neg (by omega)]
          omega
        rw [fill_word sized positive inside, loses, Cursor.step, if_neg (by omega), limit, Nat.add_assoc]
        rcases Nat.lt_or_ge (offset + min count (announced message - offset)) (announced message) with within | full
        · rw [Cursor.arrive, if_neg (by omega), if_neg (not_not.mpr allowed), if_pos (by omega)]
          exact ih (Nat.le_of_lt fewer) within
        · have last : offset + min count (announced message - offset) = announced message := by omega
          have taken : received bufferLen message = accept bufferLen word := if_neg (by omega)
          rw [last, fill_word_done sized, ReadOutcome.andThen, ← taken]
          exact finish_outcome fewer allowed
    | failure kind =>
      rw [fill_failure _ _ short, loses, Cursor.step]
      cases temporary : kind.isTimeoutOrWouldblock with
      | false =>
        rw [if_neg (fun retried => ne_true_of_eq_false temporary (payload_retries.mp retried).1), if_pos rfl,
          loses_ended]
        exact .failed rfl
      | true =>
        rw [if_neg (by decide), if_neg (by omega)]
        by_cases few : retries < 15
        · rw [if_pos few, if_pos (payload_retries.mpr ⟨temporary, few⟩)]
          exact ih (Nat.le_of_lt fewer) inside
        · rw [if_neg few, if_neg (by omega), if_neg (fun retried => few (payload_retries.mp retried).2),
            loses_ended]
          exact .failed rfl

theorem readBody_outcome {bound : Nat} (shorter : left.length < bound) :
    Outcome bufferLen (message :: rest) bound (loses bufferLen (Cursor.arrive bufferLen message rest 4) left)
      (readBody bufferLen (announced message) ⟨message.body ++ wire rest, left⟩) := by
  by_cases zero : announced message = 0
  · have finished := @finish_outcome left bufferLen message rest bound shorter
      (announce_eq_ok.mpr (by rw [zero]; exact ⟨Nat.zero_le _, Nat.zero_le _⟩))
    rw [received, if_pos zero, zero, Nat.add_zero, drop_zero] at finished
    rw [readBody, if_pos zero]
    exact finished
  · rw [readBody, if_neg zero, Cursor.arrive, if_neg (by decide)]
    cases allowed : announce bufferLen (announced message) with
    | error reason =>
      rw [if_pos (by intro same; cases same), loses_ended]
      exact .failed rfl
    | ok _ =>
      have whole : message.body ++ wire rest = (message.body.take (announced message)).drop 0 ++
          (message.body.drop (announced message) ++ wire rest) := by
        rw [drop_zero, ← append_assoc, take_append_drop]
      rw [if_neg (not_not.mpr rfl), if_pos (by omega)]
      rw [whole]
      exact body_outcome (Nat.le_of_lt shorter) allowed (Nat.pos_of_ne_zero zero)

theorem prefix_outcome {bound offset : Nat} (bounded : script.length ≤ bound) (inside : offset < 4) :
    let word := lengthBytes message.body.length
    Outcome bufferLen (message :: rest) bound
      (loses bufferLen (.going ⟨message :: rest, offset, retries⟩) script)
      (ReadOutcome.andThen
        (FillPolicy.exact.fill 4 script (word.drop offset ++ (message.body ++ wire rest)) (word.take offset) retries)
        fun lengthBuf socket => readBody bufferLen (BigEndian.fromBytes lengthBuf) socket) := by
  intro word
  have sized : word.length = 4 := lengthBytes_length _
  induction script generalizing offset retries with
  | nil =>
    rw [fill_nil _ _ (by rw [length_take]; omega)]
    exact .waiting
  | cons event script ih =>
    have fewer : script.length < bound := bounded
    have length : (word.take offset).length = offset := length_take_of_le (by omega)
    have short : (word.take offset).length < 4 := by omega
    cases event with
    | ready count =>
      rcases Nat.eq_zero_or_pos count with rfl | positive
      · rw [fill_zero short, loses, Cursor.step, if_pos rfl, loses_ended]
        exact .failed rfl
      · rw [fill_word sized positive inside, loses, Cursor.step, if_neg (by omega), Cursor.limit,
          if_pos inside]
        rcases Nat.lt_or_ge (offset + min count (4 - offset)) 4 with within | full
        · rw [Cursor.arrive, if_pos within]
          exact ih (Nat.le_of_lt fewer) within
        · have last : offset + min count (4 - offset) = 4 := by omega
          rw [last, fill_word_done sized, ReadOutcome.andThen, fromBytes_lengthBytes_body]
          exact readBody_outcome fewer
    | failure kind =>
      rw [fill_failure _ _ short, loses, Cursor.step]
      cases temporary : kind.isTimeoutOrWouldblock with
      | false =>
        rw [if_neg (fun retried => ne_true_of_eq_false temporary (exact_retries.mp retried).1), if_pos rfl,
          loses_ended]
        exact .failed temporary
      | true =>
        rw [if_neg (by decide), length]
        rcases Nat.eq_zero_or_pos offset with rfl | started
        · rw [if_pos rfl, if_neg (fun retried => Nat.lt_irrefl 0 (exact_retries.mp retried).2.1),
            drop_zero, ← wire_cons]
          exact .again temporary fewer
        · rw [if_neg (by omega)]
          by_cases few : retries < 15
          · rw [if_pos few, if_pos (exact_retries.mpr ⟨temporary, started, few⟩)]
            exact ih (Nat.le_of_lt fewer) inside
          · rw [if_neg few, if_pos inside, if_neg (fun retried => few (exact_retries.mp retried).2.2),
              loses_lost]
            refine .torn temporary ?_
            intro same
            have lengths := congrArg List.length same
            simp only [wire, flatMap_cons, length_append, length_drop, PeerMessage.encode_length] at lengths
            omega

theorem readMessage_outcome (messages : List PeerMessage) (script : List ReadEvent) :
    Outcome bufferLen messages script.length (losesFraming bufferLen messages script)
      (readMessage bufferLen ⟨wire messages, script⟩) := by
  cases messages with
  | cons message rest =>
    have ran := @prefix_outcome bufferLen message rest script 0 script.length 0 (Nat.le_refl _) (by decide)
    dsimp only at ran
    rw [drop_zero, ← wire_cons] at ran
    exact ran
  | nil =>
    cases script with
    | nil => exact .waiting
    | cons event script =>
      cases event with
      | ready count =>
        rw [losesFraming, loses, Cursor.step, loses_ended, readMessage,
          fill_ready _ _ (by decide)]
        rw [wire, flatMap_nil, take_nil, if_pos rfl]
        exact .failed rfl
      | failure kind =>
        rw [losesFraming, loses, Cursor.step, readMessage, fill_failure _ _ (by decide),
          length_nil, if_neg (fun retried => Nat.lt_irrefl 0 (exact_retries.mp retried).2.1)]
        cases temporary : kind.isTimeoutOrWouldblock with
        | false =>
          rw [if_pos rfl, loses_ended]
          exact .failed temporary
        | true =>
          exact .again temporary (Nat.lt_succ_self _)

end Outcome

section Runs

variable {bufferLen : Nat} {messages : List PeerMessage} {script : List ReadEvent}

theorem keepsFraming_received {message : PeerMessage} {rest : List PeerMessage}
    (read : readMessage bufferLen ⟨wire (message :: rest), script⟩ = some (.ok message, ⟨wire rest, left⟩)) :
    KeepsFraming bufferLen (message :: rest) script ↔ KeepsFraming bufferLen rest left := by
  constructor
  · intro keeps returned socket run
    obtain ⟨part, same⟩ := keeps (message :: returned) socket (.message read run)
    exact ⟨(cons_prefix_cons.mp part).2, same⟩
  · intro keeps returned socket run
    cases run with
    | start =>
      refine ⟨List.nil_prefix, fun reason next failed => ?_⟩
      rw [read] at failed
      cases failed
    | message again run =>
      rw [read] at again
      cases again
      obtain ⟨part, same⟩ := keeps _ _ run
      exact ⟨cons_prefix_cons.mpr ⟨rfl, part⟩, same⟩
    | retry failed =>
      rw [read] at failed
      cases failed

theorem keepsFraming_again {reason : ReadError} (retried : reason.isRetried = true)
    (read : readMessage bufferLen ⟨wire messages, script⟩ = some (.error reason, ⟨wire messages, left⟩)) :
    KeepsFraming bufferLen messages script ↔ KeepsFraming bufferLen messages left := by
  constructor
  · intro keeps returned socket run
    exact keeps returned socket (.retry read retried run)
  · intro keeps returned socket run
    cases run with
    | start =>
      refine ⟨List.nil_prefix, fun reason next failed _ => ?_⟩
      rw [read] at failed
      cases failed
      rfl
    | message returned =>
      rw [read] at returned
      cases returned
    | retry failed _ run =>
      rw [read] at failed
      cases failed
      exact keeps _ _ run

/-- Nothing is read behind an error that is not retried, or while the socket is waiting. -/
theorem keepsFraming_stopped (stopped : ∀ result next, readMessage bufferLen ⟨wire messages, script⟩ = some (result, next) →
      ∃ reason, result = .error reason ∧ reason.isRetried = false) : KeepsFraming bufferLen messages script := by
  have final {reason : ReadError} {next : Socket}
      (failed : readMessage bufferLen ⟨wire messages, script⟩ = some (.error reason, next)) : ¬reason.isRetried = true := by
    obtain ⟨_, same, final⟩ := stopped _ _ failed
    cases same
    exact ne_true_of_eq_false final
  intro returned socket run
  cases run with
  | start => exact ⟨List.nil_prefix, fun reason next failed retried => absurd retried (final failed)⟩
  | message read =>
    obtain ⟨_, same, _⟩ := stopped _ _ read
    cases same
  | retry failed retried => exact absurd retried (final failed)

/-- Framing is kept as long as no prefix is given up in the middle. -/
theorem keepsFraming_iff (bufferLen : Nat) (messages : List PeerMessage) (script : List ReadEvent) :
    KeepsFraming bufferLen messages script ↔ losesFraming bufferLen messages script = false := by
  generalize size : script.length = bound
  induction bound using Nat.strong_induction_on generalizing messages script with
  | h bound ih =>
    have outcome := @readMessage_outcome bufferLen messages script
    generalize read : readMessage bufferLen ⟨wire messages, script⟩ = result at outcome
    generalize judged : losesFraming bufferLen messages script = loses at outcome
    cases outcome with
    | waiting =>
      refine iff_of_true (keepsFraming_stopped fun result next returned => ?_) rfl
      rw [read] at returned
      cases returned
    | received next shorter =>
      subst next
      rw [keepsFraming_received read]
      exact ih _ (by omega) _ _ rfl
    | wrong other =>
      refine iff_of_false (fun keeps => ?_) (by decide)
      obtain ⟨⟨rest, same⟩, _⟩ := keeps _ _ (.message read (.start _))
      exact other rest same.symm
    | failed final =>
      refine iff_of_true (keepsFraming_stopped fun result next returned => ?_) rfl
      rw [read] at returned
      cases returned
      exact ⟨_, rfl, final⟩
    | again retried shorter =>
      rw [keepsFraming_again retried read]
      exact ih _ (by omega) _ _ rfl
    | torn retried part =>
      refine iff_of_false (fun keeps => ?_) (by decide)
      exact part ((keeps [] _ (.start _)).2 _ _ read retried)

/-- Three bytes of a prefix and sixteen timeouts: behind a keep-alive and a bitfield a choke is read
that nobody sent. -/
theorem keepAlive_torn :
    ∃ socket, Reads 131072
      ⟨wire [.keepAlive, .bitfield (replicate 255 0)],
        .ready 3 :: (replicate 16 (.failure .timedOut) ++ [.ready 4, .ready 1])⟩ [.choke] socket ∧
      ¬[PeerMessage.choke] <+: [.keepAlive, .bitfield (replicate 255 0)] := by
  have torn : readMessage 131072
      ⟨wire [.keepAlive, .bitfield (replicate 255 0)],
        .ready 3 :: (replicate 16 (.failure .timedOut) ++ [.ready 4, .ready 1])⟩ =
      some (.error (.io .timedOut), ⟨0 :: wire [.bitfield (replicate 255 0)], [.ready 4, .ready 1]⟩) := by
    decide +kernel
  have wrong : readMessage 131072 ⟨0 :: wire [.bitfield (replicate 255 0)], [.ready 4, .ready 1]⟩ =
      some (.ok .choke, ⟨5 :: replicate 255 0, []⟩) := by
    decide +kernel
  exact ⟨_, .retry torn rfl (.message wrong (.start _)), by decide⟩

end Runs

end BitTorrent.PeerNetwork
