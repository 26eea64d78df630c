import BitTorrent.Network.PeerMessage

/-! # Reading messages from a socket

`read_exact` and `read_message` of `network/peer_network.rs`.  A socket holds the bytes that are still
to be read and a script of what each read meets: some bytes, or an error.  A read beyond the script
waits for ever.  The pauses between retries are left out.
-/

namespace BitTorrent

open PeerMessage BigEndian List

inductive IoErrorKind where
  | wouldBlock
  | timedOut
  | other (message : String)
deriving DecidableEq

namespace IoErrorKind

def isTimeoutOrWouldblock : IoErrorKind → Bool
  | wouldBlock => true
  | timedOut => true
  | other _ => false

def display : IoErrorKind → String
  | wouldBlock => "Resource temporarily unavailable (os error 11)"
  | timedOut => "timed out"
  | other message => message

end IoErrorKind

/-- The errors of `read_message`; only those of the socket have a kind. -/
inductive ReadError where
  | io (kind : IoErrorKind)
  | failed (reason : BitTorrentError)
deriving DecidableEq

/-- Whether `run_peer_loop` goes on after an error. -/
def ReadError.isRetried : ReadError → Bool
  | io kind => kind.isTimeoutOrWouldblock
  | failed _ => false

inductive ReadEvent where
  | ready (count : Nat)
  | failure (kind : IoErrorKind)
deriving DecidableEq

structure Socket where
  stream : Bytes
  script : List ReadEvent
deriving DecidableEq

/-- What a read gives and the socket behind it, or nothing while the socket is waiting. -/
abbrev ReadOutcome (α : Type) := Option (Except ReadError α × Socket)

/-- An error ends the read. -/
def ReadOutcome.andThen {α β : Type} (outcome : ReadOutcome α) (next : α → Socket → ReadOutcome β) : ReadOutcome β :=
  match outcome with
  | none => none
  | some (.error reason, socket) => some (.error reason, socket)
  | some (.ok value, socket) => next value socket

variable {after : Socket}

theorem ReadOutcome.andThen_eq_ok {α β : Type} {outcome : ReadOutcome α} {next : α → Socket → ReadOutcome β} {value : β}
    (ran : outcome.andThen next = some (.ok value, after)) :
    ∃ read socket, outcome = some (.ok read, socket) ∧ next read socket = some (.ok value, after) := by
  rw [andThen.eq_def] at ran
  split at ran
  case h_1 => cases ran
  case h_2 => cases ran
  case h_3 read socket => exact ⟨read, socket, rfl, ran⟩

/-- How the two loops that fill a buffer differ: whether a failure before the first byte is retried,
and the errors in which they end. -/
structure FillPolicy where
  retriesAtStart : Bool
  eof : ReadError
  gaveUp : Nat → IoErrorKind → ReadError

variable {kind : IoErrorKind} {length : Nat}

namespace FillPolicy

def retries (policy : FillPolicy) (offset retries : Nat) (kind : IoErrorKind) : Bool :=
  kind.isTimeoutOrWouldblock && (policy.retriesAtStart || decide (0 < offset)) && decide (retries < 15)

/-- The loop that fills a buffer of `total` bytes, of which some are there already. -/
def fill (policy : FillPolicy) (total : Nat) : List ReadEvent → Bytes → Bytes → Nat →
    ReadOutcome Bytes
  | script, stream, filled, retries =>
    if total ≤ filled.length then some (.ok filled, ⟨stream, script⟩)
    else
      match script with
      | [] => none
      | .ready count :: script =>
        let part := stream.take (min count (total - filled.length))
        if part = [] then some (.error policy.eof, ⟨stream, script⟩)
        else policy.fill total script (stream.drop part.length) (filled ++ part) 0
      | .failure kind :: script =>
        if policy.retries filled.length retries kind then policy.fill total script stream filled (retries + 1)
        else some (.error (policy.gaveUp filled.length kind), ⟨stream, script⟩)

/-- `read_exact` hands on the error of the socket. -/
def exact : FillPolicy where
  retriesAtStart := false
  eof := .failed (.parse "Unexpected EOF reading socket")
  gaveUp _ kind := .io kind

/-- The loop over the rest of a message. -/
def payload (length : Nat) : FillPolicy where
  retriesAtStart := true
  eof := .failed (.parse "Unexpected EOF reading message payload")
  gaveUp offset kind := .failed (.parse ("Failed to read full message payload (got " ++ toString offset ++ " of " ++
    toString length ++ " bytes): " ++ kind.display))

theorem exact_retries {offset retries : Nat} :
    exact.retries offset retries kind = true ↔ kind.isTimeoutOrWouldblock = true ∧ 0 < offset ∧ retries < 15 := by
  simp [FillPolicy.retries, exact, and_assoc]

theorem payload_retries {offset retries : Nat} :
    (payload length).retries offset retries kind = true ↔ kind.isTimeoutOrWouldblock = true ∧ retries < 15 := by
  simp [FillPolicy.retries, payload]

end FillPolicy

section Fill

variable (policy : FillPolicy) (total : Nat)

variable {script : List ReadEvent} {stream filled : Bytes} {retries : Nat}

theorem FillPolicy.fill_done (full : total ≤ filled.length) :
    policy.fill total script stream filled retries = some (.ok filled, ⟨stream, script⟩) := by
  unfold fill
  rw [if_pos full]

theorem FillPolicy.fill_nil (short : filled.length < total) : policy.fill total [] stream filled retries = none := by
  unfold fill
  rw [if_neg (Nat.not_le.mpr short)]

theorem FillPolicy.fill_ready {count : Nat} (short : filled.length < total) :
    policy.fill total (.ready count :: script) stream filled retries =
      let part := stream.take (min count (total - filled.length))
      if part = [] then some (.error policy.eof, ⟨stream, script⟩)
      else policy.fill total script (stream.drop part.length) (filled ++ part) 0 := by
  rw [fill, if_neg (Nat.not_le.mpr short)]

theorem FillPolicy.fill_failure (short : filled.length < total) :
    policy.fill total (.failure kind :: script) stream filled retries =
      if policy.retries filled.length retries kind then policy.fill total script stream filled (retries + 1)
      else some (.error (policy.gaveUp filled.length kind), ⟨stream, script⟩) := by
  rw [fill, if_neg (Nat.not_le.mpr short)]

theorem FillPolicy.fill_part {count : Nat} {front rest : Bytes}
    (positive : 0 < count) (more : 0 < front.length) (missing : filled.length + front.length = total) :
    policy.fill total (.ready count :: script) (front ++ rest) filled retries =
      policy.fill total script (front.drop (min count front.length) ++ rest)
        (filled ++ front.take (min count front.length)) 0 := by
  have limit : total - filled.length = front.length := by omega
  have part : (front ++ rest).take (min count front.length) = front.take (min count front.length) :=
    take_append_of_le_length (Nat.min_le_right _ _)
  have sized : (front.take (min count front.length)).length = min count front.length := by
    rw [length_take, Nat.min_eq_left (Nat.min_le_right _ _)]
  have brought : front.take (min count front.length) ≠ [] := by
    rw [← length_pos_iff, sized]
    omega
  rw [policy.fill_ready total (by omega), limit]
  rw [part, if_neg brought, sized, drop_append_of_le_length (Nat.min_le_right _ _)]

theorem FillPolicy.fill_eq_ok {script : List ReadEvent} {stream filled bytes : Bytes} {retries : Nat} {after : Socket}
    (fits : filled.length ≤ total) (ran : policy.fill total script stream filled retries = some (.ok bytes, after)) :
    bytes.length = total ∧ bytes ++ after.stream = filled ++ stream := by
  fun_induction policy.fill total script stream filled retries with
  | case1 script stream filled retries full =>
    cases ran
    exact ⟨Nat.le_antisymm fits full, rfl⟩
  | case2 => cases ran
  | case3 => cases ran
  | case4 stream filled retries short count script part brought ih =>
    obtain ⟨sized, same⟩ := ih (by simp only [part, length_append, length_take]; omega) ran
    refine ⟨sized, same.trans ?_⟩
    rw [append_assoc, ← prefix_append_drop (List.take_prefix _ stream)]
  | case5 stream filled retries short kind script retried ih => exact ih fits ran
  | case6 => cases ran

/-- A read that brings something. -/
def ReadEvent.Delivers : ReadEvent → Prop
  | ready count => 0 < count
  | failure _ => False

theorem FillPolicy.fill_delivered {script : List ReadEvent} {front rest filled : Bytes} {retries : Nat}
    (delivers : ∀ event ∈ script, event.Delivers) (enough : front.length ≤ script.length)
    (fits : filled.length + front.length = total) :
    ∃ used left, script = used ++ left ∧ used.length ≤ front.length ∧
      policy.fill total script (front ++ rest) filled retries = some (.ok (filled ++ front), ⟨rest, left⟩) := by
  induction script generalizing front filled retries with
  | nil =>
    have none : front = [] := eq_nil_of_length_eq_zero (Nat.le_zero.mp enough)
    subst none
    refine ⟨[], [], rfl, Nat.le_refl _, ?_⟩
    rw [policy.fill_done total (Nat.le_of_eq fits.symm), append_nil, nil_append]
  | cons event script ih =>
    rcases Nat.eq_zero_or_pos front.length with empty | more
    · have none : front = [] := eq_nil_of_length_eq_zero empty
      subst none
      refine ⟨[], event :: script, rfl, Nat.le_refl _, ?_⟩
      rw [policy.fill_done total (Nat.le_of_eq fits.symm), append_nil, nil_append]
    · have here := delivers event mem_cons_self
      cases event with
      | failure kind => cases here
      | ready count =>
        obtain ⟨used, left, split, short, ran⟩ := @ih (front.drop (min count front.length))
          (filled ++ front.take (min count front.length)) 0
          (fun event listed => delivers event (mem_cons_of_mem _ listed))
          (by
            have positive : 0 < count := here
            simp only [length_cons, length_drop] at enough ⊢
            omega)
          (by simp only [length_append, length_take, length_drop]; omega)
        refine ⟨.ready count :: used, left, by rw [split, cons_append], ?_, ?_⟩
        · have positive : 0 < count := here
          simp only [length_cons, length_drop] at short ⊢
          omega
        · rw [policy.fill_part total here more fits, ran, append_assoc, take_append_drop]

end Fill

namespace PeerNetwork

def maxWireMessageLen : Nat := 32 * 1024

/-- The lengths that are allowed for an id. -/
def checkLength (bufferLen id length : Nat) : Result Unit :=
  match id with
  | 0 | 1 | 2 | 3 | 14 | 15 =>
    if length ≠ 1 then
      .error (.parse ("Invalid length " ++ toString length ++ " for control message ID " ++ toString id))
    else .ok ()
  | 4 | 13 | 17 =>
    if length ≠ 5 then .error (.parse ("Invalid length " ++ toString length ++ " for ID " ++ toString id)) else .ok ()
  | 6 | 8 | 16 =>
    if length ≠ 13 then .error (.parse ("Invalid length " ++ toString length ++ " for ID " ++ toString id)) else .ok ()
  | 9 => if length ≠ 3 then .error (.parse ("Invalid length " ++ toString length ++ " for Port ID")) else .ok ()
  | 7 =>
    if length < 9 ∨ 16384 + 9 < length then
      .error (.parse ("Invalid length " ++ toString length ++ " for Piece ID"))
    else .ok ()
  | _ =>
    if bufferLen < length then .error (.parse ("Message length " ++ toString length ++ " exceeds buffer size"))
    else .ok ()

/-- What is done with a message that was read, of which the first byte is the id. -/
def accept (bufferLen : Nat) (body : Bytes) : Result PeerMessage := do
  checkLength bufferLen (body.headD 0).toNat body.length
  decode body

/-- The limits on the length that a prefix announces. -/
def announce (bufferLen length : Nat) : Result Unit :=
  if maxWireMessageLen < length then .error (.messageTooLarge length)
  else if bufferLen < length then
    .error (.parse ("Message length " ++ toString length ++ " exceeds read buffer size " ++ toString bufferLen))
  else .ok ()

/-- The part of `read_message` behind the prefix. -/
def readBody (bufferLen length : Nat) (socket : Socket) : ReadOutcome PeerMessage :=
  if length = 0 then some (.ok .keepAlive, socket)
  else
    match announce bufferLen length with
    | .error reason => some (.error (.failed reason), socket)
    | .ok () =>
      ReadOutcome.andThen ((FillPolicy.payload length).fill length socket.script socket.stream [] 0)
        fun body socket => some ((accept bufferLen body).mapError .failed, socket)

def readMessage (bufferLen : Nat) (socket : Socket) : ReadOutcome PeerMessage :=
  ReadOutcome.andThen (FillPolicy.exact.fill 4 socket.script socket.stream [] 0) fun lengthBuf socket =>
    readBody bufferLen (fromBytes lengthBuf) socket

section Codec

variable {bufferLen : Nat} {message : PeerMessage} {socket : Socket}

section

variable (nonempty : message ≠ .keepAlive)
include nonempty

theorem checkLength_body (fits : message.body.length ≤ bufferLen)
    (block : message.BlockFits) : checkLength bufferLen (message.body.headD 0).toNat message.body.length = .ok () := by
  have other : ¬bufferLen < message.body.length := Nat.not_lt.mpr fits
  cases message with
  | keepAlive => exact absurd rfl nonempty
  | piece index begin_ bytes =>
    have small : bytes.length ≤ 16384 := block
    refine if_neg ?_
    simp only [body, length_cons, length_append, u32Bytes_length]
    omega
  | bitfield bits => exact if_neg other
  | extended extId payload => exact if_neg other
  | hashRequest control => exact if_neg other
  | hashes control nodes => exact if_neg other
  | hashReject control => exact if_neg other
  | _ => rfl

theorem body_ne_nil : message.body ≠ [] := by
  cases message with
  | keepAlive => exact absurd rfl nonempty
  | _ => exact cons_ne_nil _ _

end

theorem checkLength_control {messageId : UInt8} (control : IsControl messageId)
    (checked : checkLength bufferLen messageId.toNat length = .ok ()) : length = 1 := by
  rw [IsControl] at control
  generalize messageId.toNat = id at control checked
  simp only [mem_cons, not_mem_nil, or_false] at control
  rcases control with rfl | rfl | rfl | rfl | rfl | rfl <;> exact not_not.mp (guard_eq_ok.mp checked).1

theorem body_of_accept {bytes : Bytes} (nonempty : bytes ≠ []) (accepted : accept bufferLen bytes = .ok message) :
    message.body = bytes := by
  obtain ⟨⟨⟩, checked, decoded⟩ := bind_eq_ok.mp accepted
  cases bytes with
  | nil => exact absurd rfl nonempty
  | cons messageId payload =>
    refine body_of_decode decoded fun control => ?_
    exact eq_nil_of_length_eq_zero (Nat.succ.inj (checkLength_control control checked))

theorem announce_eq_ok : announce bufferLen length = .ok () ↔ length ≤ maxWireMessageLen ∧ length ≤ bufferLen := by
  rw [announce, guard_eq_ok, guard_eq_ok]
  simp only [not_lt, and_true]

section

variable (ran : readMessage bufferLen socket = some (.ok message, after))
include ran

theorem readMessage_eq_ok : socket.stream = message.encode ++ after.stream ∧
      (message = .keepAlive ∨ message.body.length ≤ maxWireMessageLen ∧ accept bufferLen message.body = .ok message) := by
  obtain ⟨lengthBuf, behind, read, ran⟩ := ReadOutcome.andThen_eq_ok ran
  obtain ⟨four, front⟩ := @FillPolicy.fill_eq_ok .exact 4 _ _ [] _ _ _ (Nat.zero_le 4) read
  have written : toBytes 4 (fromBytes lengthBuf) = lengthBuf := by
    rw [← four, toBytes_fromBytes]
  rw [nil_append] at front
  rw [readBody] at ran
  split at ran
  case isTrue zero =>
    cases ran
    rw [zero] at written
    rw [← front, ← written]
    exact ⟨rfl, .inl rfl⟩
  case isFalse long =>
    split at ran
    case h_1 => cases ran
    case h_2 announced =>
      obtain ⟨bytes, ahead, filled, ran⟩ := ReadOutcome.andThen_eq_ok ran
      obtain ⟨sized, back⟩ := @FillPolicy.fill_eq_ok (.payload _) _ _ _ [] _ _ _ (Nat.zero_le _) filled
      rw [nil_append] at back
      cases accepted : accept bufferLen bytes with
      | error reason =>
        rw [accepted] at ran
        cases ran
      | ok received =>
        rw [accepted] at ran
        cases ran
        have same := body_of_accept (length_pos_iff.mp (by omega)) accepted
        refine ⟨?_, .inr ⟨?_, ?_⟩⟩
        · rw [← front, ← back, encode_eq, same, lengthBytes, sized, written, append_assoc]
        · rw [same, sized]
          exact (announce_eq_ok.mp announced).1
        · rw [same, accepted]

theorem stream_of_readMessage : socket.stream = message.encode ++ after.stream :=
  (readMessage_eq_ok ran).1

end

theorem fits_of_accept (accepted : accept bufferLen message.body = .ok message) :
    message.BlockFits ∧ message.WholeHashes := by
  obtain ⟨⟨⟩, checked, decoded⟩ := bind_eq_ok.mp accepted
  cases message with
  | piece index begin_ block =>
    have limit := (guard_eq_ok.mp checked).1
    simp only [body, length_cons, length_append, u32Bytes_length] at limit
    have short : block.length ≤ 16384 := by omega
    exact ⟨short, trivial⟩
  | hashes control nodes =>
    rw [body, decode_hashes] at decoded
    obtain ⟨whole, decoded⟩ := guard_eq_ok.mp decoded
    simp only [length_append, controlBytes_length] at whole
    have multiple : 32 ∣ nodes.length := by omega
    exact ⟨trivial, multiple⟩
  | _ => exact ⟨trivial, trivial⟩

/-- The prefix of a message gives its length, unless that does not fit into the prefix. -/
theorem fromBytes_lengthBytes (fits : length < 2 ^ 32) :
    fromBytes (lengthBytes length) = length := fromBytes_toBytes fits

theorem readMessage_delivered {rest : Bytes} {script : List ReadEvent} (short : message.body.length ≤ maxWireMessageLen)
    (fits : message.body.length ≤ bufferLen) (block : message.BlockFits) (whole : message.WholeHashes)
    (delivers : ∀ event ∈ script, event.Delivers) (enough : message.encode.length ≤ script.length) :
    ∃ left, readMessage bufferLen ⟨message.encode ++ rest, script⟩ = some (.ok message, ⟨rest, left⟩) := by
  have small : message.body.length < 2 ^ 32 := Nat.lt_of_le_of_lt short (by decide)
  rw [encode_length] at enough
  obtain ⟨used, left, split, few, ran⟩ := @FillPolicy.fill_delivered .exact 4 script (lengthBytes message.body.length)
    (message.body ++ rest) [] 0 delivers (by rw [lengthBytes_length]; omega) (by rw [lengthBytes_length]; rfl)
  rw [lengthBytes_length] at few
  rw [nil_append] at ran
  rw [readMessage, encode_eq, append_assoc, ran, ReadOutcome.andThen, fromBytes_lengthBytes small,
    readBody]
  by_cases keep : message = .keepAlive
  · subst keep
    exact ⟨left, rfl⟩
  · have long : message.body.length ≠ 0 := fun zero => body_ne_nil keep (eq_nil_of_length_eq_zero zero)
    have many : message.body.length ≤ left.length := by
      have total := congrArg length split
      rw [length_append] at total
      omega
    obtain ⟨used', left', split', few', ran'⟩ := @FillPolicy.fill_delivered (.payload message.body.length)
      message.body.length left message.body rest [] 0
      (fun event listed => delivers event (split ▸ mem_append_right _ listed)) many (Nat.zero_add _)
    rw [if_neg long, announce_eq_ok.mpr ⟨short, fits⟩]
    rw [ran', ReadOutcome.andThen, nil_append, accept, checkLength_body keep fits block, decode_body whole]
    exact ⟨left', rfl⟩

/-- The reader undoes the encoder: a message within the limits is read from what was written for it,
whatever the parts in which it comes, and what is read as a message is what the encoder writes for it. -/
theorem readMessage_encode (bufferLen : Nat) :
    (∀ (message : PeerMessage) (rest : Bytes) (script : List ReadEvent),
      message.body.length ≤ maxWireMessageLen → message.body.length ≤ bufferLen → message.BlockFits →
      message.WholeHashes → (∀ event ∈ script, event.Delivers) → message.encode.length ≤ script.length →
      fromBytes (message.encode.take 4) = message.body.length ∧
        message.encode.drop 4 = message.body ∧
        ∃ left, readMessage bufferLen ⟨message.encode ++ rest, script⟩ = some (.ok message, ⟨rest, left⟩)) ∧
    ∀ (socket after : Socket) (message : PeerMessage), readMessage bufferLen socket = some (.ok message, after) →
      socket.stream = message.encode ++ after.stream := by
  refine ⟨?_, fun socket after message ran => stream_of_readMessage ran⟩
  intro message rest script short fits block whole delivers enough
  have small : message.body.length < 2 ^ 32 := Nat.lt_of_le_of_lt short (by decide)
  have front := lengthBytes_length message.body.length
  rw [encode_eq message, take_left' front, drop_left' front, ← encode_eq]
  exact ⟨fromBytes_lengthBytes small, rfl, readMessage_delivered short fits block whole delivers enough⟩

/-- A message with one hash. -/
def oneHash : PeerMessage := .hashes ⟨⟨replicate 32 7, rfl⟩, 0, 0, 2, 1⟩ (replicate 32 9)

theorem oneHash_read :
    fromBytes (oneHash.encode.take 4) = oneHash.body.length ∧ oneHash.encode.drop 4 = oneHash.body ∧
      ∃ left, readMessage 131072 ⟨oneHash.encode ++ [1, 2], replicate 90 (.ready 5)⟩ =
        some (.ok oneHash, ⟨[1, 2], left⟩) := by
  refine (readMessage_encode 131072).1 oneHash [1, 2] (replicate 90 (.ready 5)) (by decide) (by decide) trivial
    (Nat.dvd_refl 32) ?_ (by decide)
  intro event listed
  rw [eq_of_mem_replicate listed]
  exact Nat.succ_pos 4

/-- A message with a part of a hash is written and not read again. -/
theorem raggedHashes_refused :
    let message : PeerMessage := .hashes ⟨⟨replicate 32 7, rfl⟩, 0, 0, 2, 1⟩ [9]
    message.body.length ≤ maxWireMessageLen ∧ message.BlockFits ∧
      readMessage 131072 ⟨message.encode, [.ready 4, .ready 50]⟩ =
        some (.error (.failed (.parse "Invalid HASHES payload length")), ⟨[], []⟩) := by
  refine ⟨by decide, trivial, by decide +kernel⟩

end Codec

end PeerNetwork

end BitTorrent
