import BitTorrent.Storage.TorrentStream

/-! # What a stream reads

A call of `read` goes through the pieces one by one.  The rounds of its loop are described by the
offsets at which they start, and a call is wrong only when the storage fails after the first round.
-/

namespace BitTorrent

open FlatStore List

namespace TorrentContext

/-- A file in the pieces of a torrent: no piece is longer than the piece length, and none ends before
its part of the file does.  Offsets are 64 bits wide and piece numbers 32. -/
structure Lays (context : TorrentContext) (file : FileDetails UInt8) : Prop where
  positive : 0 < context.pieceLength
  representable : file.offset + file.length < u64Size
  few : file.offset + file.length ≤ u32Size * context.pieceLength
  short : ∀ piece, context.getPieceLength piece ≤ context.pieceLength
  covers : ∀ piece, min ((piece + 1) * context.pieceLength) (file.offset + file.length) ≤
    piece * context.pieceLength + context.getPieceLength piece

end TorrentContext

namespace TorrentStream

/-- The same for the stream of a file. -/
structure Lies (stream : TorrentStream) (lengths : Nat → Nat) : Prop where
  positive : 0 < stream.pieceLength
  few : stream.endOffset ≤ u32Size * stream.pieceLength
  short : ∀ piece, lengths piece ≤ stream.pieceLength
  covers : ∀ piece, min ((piece + 1) * stream.pieceLength) stream.endOffset ≤
    piece * stream.pieceLength + lengths piece

/-- All bytes of a read are in local pieces. -/
def Touch.Local (pieceLength : Nat) (touch : Touch) : Prop :=
  ∀ position, touch.offset ≤ position → position < touch.offset + touch.length →
    touch.context.isPieceLocal (position / pieceLength) = true

/-- Pieces stay local and keep their lengths during a call, and the storage gives bytes of the
torrent where they are local.  It may give fewer than it is asked for, and it may fail. -/
structure Faithful (content : Nat → UInt8) (lengths : Nat → Nat) (pieceLength : Nat) (env : ReadEnvironment) :
    Prop where
  checked : ∀ round piece, (env.atCheck round).isPieceLocal piece = true → (env.atRead round).isPieceLocal piece = true
  polled : ∀ poll ∈ env.firstPoll :: env.laterPolls, ∀ piece, poll.isPieceLocal piece = true →
    (env.atRead 0).isPieceLocal piece = true
  lengths : ∀ round piece, (env.atRead round).getPieceLength piece = lengths piece
  reads : ∀ {round offset length bytes}, env.readBlock round offset length = .ok bytes →
    Touch.Local pieceLength ⟨env.atRead round, offset, length⟩ → 0 < length →
    bytes ≠ [] ∧ bytes.length ≤ length ∧ bytes = FlatStore.read content offset bytes.length

/-- A read is right: it gives bytes of the file at the position and moves behind them, gives nothing
only at the end or for an empty buffer, reads local pieces only, and does not move when it fails. -/
structure ReadsRight (content : Nat → UInt8) (stream : TorrentStream) (bufLen : Nat) (reading : Reading) : Prop where
  touched : ∀ touch ∈ reading.touched, Touch.Local stream.pieceLength touch
  ok : ∀ {bytes}, reading.result = .ok bytes →
    bytes = FlatStore.read content (stream.startOffset + stream.position) bytes.length ∧ bytes.length ≤ bufLen ∧
      reading.stream.position = stream.position + bytes.length ∧
      if bytes = [] then bufLen = 0 ∨ stream.totalLen ≤ stream.position
      else stream.position + bytes.length ≤ stream.totalLen
  error : ∀ {reason}, reading.result = .error reason → reading.stream.position = stream.position

section Rounds

variable (env : ReadEnvironment) (stream : TorrentStream) (stop : Nat)

def roundPiece (round : Nat) : Nat := (stream.startOffset + stream.position) / stream.pieceLength + round

/-- Where a round of the loop starts: at the position, and then at the start of each further piece. -/
def chunkStart (round : Nat) : Nat :=
  if round = 0 then stream.startOffset + stream.position else stream.roundPiece round * stream.pieceLength

def chunkLength (round : Nat) : Nat := min (stream.chunkStart (round + 1)) stop - stream.chunkStart round

/-- The piece of a round, of which only the first is waited for. -/
def awaited (round : Nat) : Except StreamError Bool :=
  awaitPiece env round stream (stream.roundPiece round) (decide (round = 0))

def Available (round : Nat) : Prop := stream.awaited env round = .ok true

/-- What the storage gives of the chunk of a round. -/
def chunkRead (round : Nat) : Result Bytes :=
  env.readBlock round (stream.chunkStart round) (stream.chunkLength stop round)

/-- The round reads all of its chunk. -/
def ReadWhole (round : Nat) : Prop :=
  stream.Available env round ∧ ∃ bytes,
    stream.chunkRead env stop round = .ok bytes ∧ bytes.length = stream.chunkLength stop round

/-- The storage fails in a round after rounds that have read their chunks. -/
def FailsFrom (first : Nat) : Prop :=
  ∃ round, first ≤ round ∧ 0 < round ∧ stream.chunkStart round < stop ∧
    (∀ earlier, first ≤ earlier → earlier < round → stream.ReadWhole env stop earlier) ∧ stream.Available env round ∧
    ∃ reason, stream.chunkRead env stop round = .error reason

/-- The storage fails after the call has moved the position. -/
def FailsLate (bufLen : Nat) : Prop :=
  stream.FailsFrom env (stream.startOffset + stream.position + min bufLen (stream.totalLen - stream.position)) 0

def chunkTouch (round : Nat) : Touch := ⟨env.atRead round, stream.chunkStart round, stream.chunkLength stop round⟩

end Rounds

variable {env : ReadEnvironment} {stream current : TorrentStream} {stop round fuel bufLen : Nat} {content : Nat → UInt8}
  {lengths : Nat → Nat} {gathered : Bytes} {other : TorrentStream} {piece : Nat}

theorem waitForPiece_congr (same : other.zeroTimeout = stream.zeroTimeout) (piece : Nat)
    (poll : TorrentContext) (later : List TorrentContext) :
    other.waitForPiece piece poll later = stream.waitForPiece piece poll later := by
  induction later generalizing poll with
  | nil => rw [waitForPiece, waitForPiece, same]
  | cons next later ih =>
    rw [waitForPiece, waitForPiece, same]
    simp only [ih]

theorem waitForPiece_ok {poll : TorrentContext} {later : List TorrentContext}
    (done : stream.waitForPiece piece poll later = .ok ()) : ∃ seen ∈ poll :: later, seen.isPieceLocal piece = true := by
  induction later generalizing poll with
  | nil =>
    rw [waitForPiece] at done
    split at done
    case isTrue there => exact ⟨poll, mem_cons_self, there⟩
    case isFalse => split at done <;> [cases done; split at done <;> cases done]
  | cons next later ih =>
    rw [waitForPiece] at done
    split at done
    case isTrue there => exact ⟨poll, mem_cons_self, there⟩
    case isFalse =>
      obtain ⟨_, done⟩ := guard_eq_ok.mp done
      obtain ⟨_, done⟩ := guard_eq_ok.mp done
      obtain ⟨seen, member, there⟩ := ih done
      exact ⟨seen, mem_cons_of_mem _ member, there⟩

theorem Faithful.local_of_await {pieceLength : Nat} (faithful : Faithful content lengths pieceLength env)
    (there : awaitPiece env round stream piece (decide (round = 0)) = .ok true) :
    (env.atRead round).isPieceLocal piece = true := by
  rw [awaitPiece] at there
  split at there
  case isTrue found => exact faithful.checked round piece found
  case isFalse =>
    split at there
    case isTrue => cases there
    case isFalse first =>
      rw [Bool.not_eq_true', Bool.not_eq_false, decide_eq_true_eq] at first
      rw [first]
      cases waited : stream.waitForPiece piece env.firstPoll env.laterPolls with
      | error reason =>
        rw [waited] at there
        cases there
      | ok done =>
        obtain ⟨seen, member, found⟩ := waitForPiece_ok waited
        exact faithful.polled seen member piece found

section Chunks

theorem chunkStart_succ (stream : TorrentStream) (round : Nat) : stream.chunkStart (round + 1) =
    stream.roundPiece round * stream.pieceLength + stream.pieceLength := by
  rw [chunkStart, if_neg (Nat.succ_ne_zero round), roundPiece, roundPiece, ← Nat.add_assoc, Nat.succ_mul]

theorem chunkStart_bounds (stream : TorrentStream) (positive : 0 < stream.pieceLength) (round : Nat) :
    stream.roundPiece round * stream.pieceLength ≤ stream.chunkStart round ∧
      stream.chunkStart round < stream.chunkStart (round + 1) := by
  rw [chunkStart_succ, chunkStart, roundPiece]
  split
  case isTrue first =>
    have division := Nat.div_add_mod' (stream.startOffset + stream.position) stream.pieceLength
    have remainder := Nat.mod_lt (stream.startOffset + stream.position) positive
    rw [first, Nat.add_zero]
    omega
  case isFalse => omega

theorem chunkStart_le {later : Nat} (stream : TorrentStream) (positive : 0 < stream.pieceLength) (order : round ≤ later) :
    stream.chunkStart round ≤ stream.chunkStart later :=
  monotone_nat_of_le_succ (fun round => (chunkStart_bounds stream positive round).2.le) order

theorem chunkStart_div (positive : 0 < stream.pieceLength) (round : Nat) :
    stream.chunkStart round / stream.pieceLength = stream.roundPiece round := by
  obtain ⟨lower, upper⟩ := chunkStart_bounds stream positive round
  rw [chunkStart_succ] at upper
  refine Nat.div_eq_of_lt_le lower ?_
  rw [Nat.succ_mul]
  exact upper

theorem not_failsFrom_of_stop (positive : 0 < stream.pieceLength) (reached : stop ≤ stream.chunkStart round) :
    ¬stream.FailsFrom env stop round := by
  rintro ⟨failing, order, _, inside, _⟩
  have later := chunkStart_le stream positive order
  omega

theorem failsFrom_of_not_whole (short : ¬stream.ReadWhole env stop round) (fails : stream.FailsFrom env stop round) :
    0 < round ∧ stream.Available env round ∧
      ∃ reason, stream.chunkRead env stop round = .error reason := by
  obtain ⟨failing, order, late, _, whole, available, failed⟩ := fails
  obtain rfl | after := Nat.eq_or_lt_of_le order
  · exact ⟨late, available, failed⟩
  · exact absurd (whole round le_rfl after) short

theorem failsFrom_succ (whole : stream.ReadWhole env stop round) :
    stream.FailsFrom env stop (round + 1) ↔ stream.FailsFrom env stop round := by
  constructor
  · rintro ⟨failing, order, late, inside, earlier, available, failed⟩
    refine ⟨failing, Nat.le_of_succ_le order, late, inside, ?_, available, failed⟩
    intro other after before
    obtain rfl | later := Nat.eq_or_lt_of_le after
    · exact whole
    · exact earlier other later before
  · rintro ⟨failing, order, late, inside, earlier, available, reason, failed⟩
    have later : round + 1 ≤ failing := by
      refine Nat.lt_of_le_of_ne order ?_
      rintro rfl
      obtain ⟨_, bytes, read, _⟩ := whole
      cases failed.symm.trans read
    exact ⟨failing, later, late, inside, fun other after => earlier other (Nat.le_of_succ_le after), available, reason, failed⟩

end Chunks

section Loop

/-- Where the loop is before a round. -/
structure AtRound (content : Nat → UInt8) (stream : TorrentStream) (stop : Nat) (current : TorrentStream) (round : Nat)
    (gathered : Bytes) : Prop where
  startOffset : current.startOffset = stream.startOffset
  pieceLength : current.pieceLength = stream.pieceLength
  zeroTimeout : current.zeroTimeout = stream.zeroTimeout
  position : current.position = stream.position + gathered.length
  offset : stream.startOffset + current.position = min (stream.chunkStart round) stop
  fresh : gathered.isEmpty = decide (round = 0)
  bytes : gathered = FlatStore.read content (stream.startOffset + stream.position) gathered.length

theorem awaitPiece_congr (same : other.zeroTimeout = stream.zeroTimeout) (piece : Nat)
    (fresh : Bool) : awaitPiece env round other piece fresh = awaitPiece env round stream piece fresh := by
  rw [awaitPiece, awaitPiece, waitForPiece_congr same]

variable {bytes : Bytes} {reason : StreamError}

/-- How the loop ends, from some round on. -/
structure Ends (content : Nat → UInt8) (env : ReadEnvironment) (stream : TorrentStream) (stop round : Nat)
    (reading : Reading) : Prop where
  touched : ∀ touch ∈ reading.touched, Touch.Local stream.pieceLength touch
  ok : ∀ {bytes}, reading.result = .ok bytes →
    bytes = FlatStore.read content (stream.startOffset + stream.position) bytes.length ∧ bytes ≠ [] ∧
      stream.startOffset + stream.position + bytes.length ≤ stop ∧
      reading.stream.position = stream.position + bytes.length ∧ ¬stream.FailsFrom env stop round
  error : ∀ {reason}, reading.result = .error reason →
    (reading.stream.position = stream.position ↔ ¬stream.FailsFrom env stop round)

theorem ends_ok {touched : List Touch} {all : Bytes}
    (bytes : all = FlatStore.read content (stream.startOffset + stream.position) all.length) (some_ : all ≠ [])
    (within : stream.startOffset + stream.position + all.length ≤ stop)
    (position : current.position = stream.position + all.length) (harmless : ¬stream.FailsFrom env stop round)
    (near : ∀ touch ∈ touched, Touch.Local stream.pieceLength touch) :
    Ends content env stream stop round ⟨current, touched, .ok all⟩ where
  touched := near
  ok := by
    rintro _ ⟨⟩
    exact ⟨bytes, some_, within, position, harmless⟩
  error := by
    rintro _ ⟨⟩

theorem Ends.before {reading : Reading} {touch : Touch} (ends : Ends content env stream stop (round + 1) reading)
    (whole : stream.ReadWhole env stop round) (near : Touch.Local stream.pieceLength touch) :
    Ends content env stream stop round { reading with touched := touch :: reading.touched } where
  touched := forall_mem_cons.mpr ⟨near, ends.touched⟩
  ok := by
    intro bytes result
    rw [← failsFrom_succ whole]
    exact ends.ok result
  error := by
    intro reason result
    rw [← failsFrom_succ whole]
    exact ends.error result

theorem awaitPiece_fresh : awaitPiece env round stream piece true ≠ .ok false := by
  rw [awaitPiece]
  split
  case isTrue => exact fun same => nomatch same
  case isFalse =>
    cases stream.waitForPiece piece env.firstPoll env.laterPolls with
    | error reason => exact fun same => nomatch same
    | ok done => exact fun same => nomatch same

theorem awaitPiece_later : awaitPiece env round stream piece false ≠ .error reason := by
  rw [awaitPiece]
  split
  case isTrue => exact fun same => nomatch same
  case isFalse => exact fun same => nomatch same

theorem touch_local (positive : 0 < stream.pieceLength) (faithful : Faithful content lengths stream.pieceLength env)
    (available : stream.Available env round) :
    Touch.Local stream.pieceLength (stream.chunkTouch env stop round) := by
  intro position lower upper
  have piece : position / stream.pieceLength = stream.roundPiece round := by
    obtain ⟨first, _⟩ := chunkStart_bounds stream positive round
    have next := chunkStart_succ stream round
    simp only [chunkTouch, chunkLength] at upper
    refine Nat.div_eq_of_lt_le (first.trans lower) ?_
    rw [Nat.succ_mul]
    omega
  rw [piece]
  exact faithful.local_of_await available

section

variable (at_ : AtRound content stream stop current round gathered)
include at_

theorem AtRound.start_of_more (more : stream.startOffset + current.position < stop) :
    stream.startOffset + current.position = stream.chunkStart round := by
  have offset := at_.offset
  omega

theorem AtRound.readRound_eq (lies : stream.Lies lengths)
    (faithful : Faithful content lengths stream.pieceLength env) (inside : stop ≤ stream.endOffset)
    (more : stream.startOffset + current.position < stop) :
    readRound env round current (stop - (stream.startOffset + current.position)) gathered.isEmpty =
      match stream.awaited env round with
      | .error reason => .refused reason
      | .ok false => .stopped
      | .ok true =>
        match stream.chunkRead env stop round with
        | .error reason => .failed (stream.chunkLength stop round) reason
        | .ok bytes => .got (stream.chunkLength stop round) bytes := by
  have positive := lies.positive
  have start := at_.start_of_more more
  have pieceIs : current.currentPiece = stream.roundPiece round := by
    have small : stream.chunkStart round / stream.pieceLength < u32Size :=
      (Nat.div_lt_iff_lt_mul positive).mpr (start ▸ more.trans_le (inside.trans lies.few))
    rw [currentPiece, at_.pieceLength, if_pos positive, pieceOf, at_.pieceLength, at_.startOffset, start,
      Nat.mod_eq_of_lt small, chunkStart_div positive]
  obtain ⟨lower, upper⟩ := chunkStart_bounds stream positive round
  have next := chunkStart_succ stream round
  rw [awaited]
  generalize stream.roundPiece round = piece at pieceIs lower next ⊢
  have covers := lies.covers piece
  have short := lies.short piece
  rw [Nat.succ_mul] at covers
  rw [readRound, pieceIs, awaitPiece_congr at_.zeroTimeout, at_.fresh, at_.startOffset, start, at_.pieceLength,
    faithful.lengths]
  have remaining : lengths piece - (stream.chunkStart round - piece * stream.pieceLength) ≠ 0 := by omega
  have chunk : min (stop - stream.chunkStart round) (lengths piece - (stream.chunkStart round - piece * stream.pieceLength)) =
      stream.chunkLength stop round := by
    rw [chunkLength]
    omega
  rewrite [if_neg remaining, chunk]
  rfl

theorem AtRound.setCursor (piece : Nat) : AtRound content stream stop (current.setCursor piece) round gathered :=
  ⟨at_.startOffset, at_.pieceLength, at_.zeroTimeout, at_.position, at_.offset, at_.fresh, at_.bytes⟩

theorem AtRound.bytes_append (more : stream.startOffset + current.position < stop)
    (read : bytes = FlatStore.read content (stream.chunkStart round) bytes.length) :
    gathered ++ bytes =
      FlatStore.read content (stream.startOffset + stream.position) (gathered ++ bytes).length := by
  have start := at_.start_of_more more
  rw [at_.position, ← Nat.add_assoc] at start
  rw [length_append, FlatStore.read_add, ← at_.bytes, start, ← read]

theorem AtRound.next (positive : 0 < stream.pieceLength) (more : stream.startOffset + current.position < stop)
    (whole : bytes.length = stream.chunkLength stop round)
    (read : bytes = FlatStore.read content (stream.chunkStart round) bytes.length) :
    AtRound content stream stop { current with position := current.position + bytes.length } (round + 1)
      (gathered ++ bytes) := by
  have start := at_.start_of_more more
  have order := (chunkStart_bounds stream positive round).2
  rw [chunkLength] at whole
  constructor
  case startOffset => exact at_.startOffset
  case pieceLength => exact at_.pieceLength
  case zeroTimeout => exact at_.zeroTimeout
  case position => rw [at_.position, length_append, Nat.add_assoc]
  case offset =>
    dsimp only
    omega
  case fresh =>
    refine isEmpty_eq_false_iff.mpr (append_ne_nil_of_right_ne_nil _ (ne_nil_of_length_pos ?_))
    omega
  case bytes => exact at_.bytes_append more read

theorem AtRound.stops (some_ : gathered ≠ []) (harmless : ¬stream.FailsFrom env stop round) :
    Ends content env stream stop round ⟨current, [], .ok gathered⟩ := by
  have offset := at_.offset
  have position := at_.position
  exact ends_ok at_.bytes some_ (by omega) position harmless fun _ member => (nomatch member)

theorem AtRound.fails {touched : List Touch} (late : stream.FailsFrom env stop round ↔ round ≠ 0)
    (near : ∀ touch ∈ touched, Touch.Local stream.pieceLength touch) :
    Ends content env stream stop round ⟨current, touched, .error reason⟩ where
  touched := near
  ok := by
    rintro _ ⟨⟩
  error := by
    rintro _ ⟨⟩
    have fresh := at_.fresh
    rw [late, not_not]
    rw [at_.position, Nat.add_eq_left, length_eq_zero_iff, ← List.isEmpty_iff, fresh, decide_eq_true_eq]

theorem AtRound.ends_of_reached (positive : 0 < stream.pieceLength) (any : stream.startOffset + stream.position < stop)
    (reached : stop ≤ stream.startOffset + current.position) :
    Ends content env stream stop round ⟨current, [], .ok gathered⟩ := by
  have offset := at_.offset
  have position := at_.position
  have some_ : gathered ≠ [] := ne_nil_of_length_pos (by omega)
  exact at_.stops some_ (not_failsFrom_of_stop positive (by omega))

/-- A piece that does not come: only the first round waits, and nothing was read before it. -/
theorem AtRound.refused_ends (awaited : stream.awaited env round = .error reason) :
    Ends content env stream stop round ⟨current, [], .error reason⟩ := by
  have first : round = 0 := by
    by_contra later
    rw [TorrentStream.awaited, decide_eq_false later] at awaited
    exact awaitPiece_later awaited
  refine at_.fails ⟨fun fails => ?_, fun late => absurd first late⟩ fun _ member => (nomatch member)
  have short : ¬stream.ReadWhole env stop round := fun whole => nomatch awaited.symm.trans whole.1
  exact (failsFrom_of_not_whole short fails).1.ne'

theorem AtRound.missing_ends (awaited : stream.awaited env round = .ok false) :
    Ends content env stream stop round ⟨current, [], .ok gathered⟩ := by
  have later : round ≠ 0 := by
    intro first
    rw [TorrentStream.awaited, decide_eq_true first] at awaited
    exact awaitPiece_fresh awaited
  have some_ : gathered ≠ [] := by
    have fresh := at_.fresh
    rw [decide_eq_false later, isEmpty_eq_false_iff] at fresh
    exact fresh
  refine at_.stops some_ ?_
  intro fails
  have short : ¬stream.ReadWhole env stop round := fun whole => nomatch awaited.symm.trans whole.1
  exact nomatch awaited.symm.trans (failsFrom_of_not_whole short fails).2.1

section Storage

variable (more : stream.startOffset + current.position < stop)
  (near : Touch.Local stream.pieceLength (stream.chunkTouch env stop round))
include more near

theorem AtRound.failed_ends {reason : BitTorrentError} (available : stream.Available env round)
    (read : stream.chunkRead env stop round = .error reason) :
    Ends content env stream stop round ⟨current, [stream.chunkTouch env stop round], .error (.other reason)⟩ := by
  have short : ¬stream.ReadWhole env stop round := by
    rintro ⟨_, bytes, done, _⟩
    cases read.symm.trans done
  refine at_.fails ⟨fun fails => (failsFrom_of_not_whole short fails).1.ne', fun late => ?_⟩
    (forall_mem_singleton.mpr near)
  have inside : stream.chunkStart round < stop := at_.start_of_more more ▸ more
  exact ⟨round, le_rfl, Nat.pos_of_ne_zero late, inside, fun earlier after before => by omega, available, reason, read⟩

theorem AtRound.short_ends
    (read : stream.chunkRead env stop round = .ok bytes)
    (some_ : bytes ≠ []) (same : bytes = FlatStore.read content (stream.chunkStart round) bytes.length)
    (short : bytes.length < stream.chunkLength stop round) :
    Ends content env stream stop round
      ⟨{ current with position := current.position + bytes.length },
        [stream.chunkTouch env stop round], .ok (gathered ++ bytes)⟩ := by
  have start := at_.start_of_more more
  have position := at_.position
  refine ends_ok (at_.bytes_append more same) (append_ne_nil_of_right_ne_nil _ some_) ?_ ?_ ?_
    (forall_mem_singleton.mpr near)
  · rw [chunkLength] at short
    rw [length_append]
    omega
  · show current.position + bytes.length = _
    rw [length_append]
    omega
  · intro fails
    have partly : ¬stream.ReadWhole env stop round := by
      rintro ⟨_, all, done, long⟩
      cases read.symm.trans done
      omega
    obtain ⟨_, _, reason, failed⟩ := failsFrom_of_not_whole partly fails
    cases read.symm.trans failed

end Storage

end

theorem AtRound.readLoop_ends (at_ : AtRound content stream stop current round gathered) (lies : stream.Lies lengths)
    (faithful : Faithful content lengths stream.pieceLength env) (inside : stop ≤ stream.endOffset)
    (any : stream.startOffset + stream.position < stop) (enough : stop - (stream.startOffset + current.position) ≤ fuel) :
    Ends content env stream stop round
      (readLoop env (stop - (stream.startOffset + stream.position)) fuel round current gathered) := by
  have positive := lies.positive
  induction fuel generalizing current round gathered with
  | zero => exact at_.ends_of_reached positive any (by omega)
  | succ fuel ih =>
    have position := at_.position
    rw [readLoop]
    split
    case isFalse full => exact at_.ends_of_reached positive any (by omega)
    case isTrue notFull =>
      have more : stream.startOffset + current.position < stop := by omega
      have needed : stop - (stream.startOffset + stream.position) - gathered.length =
          stop - (stream.startOffset + (current.setCursor current.currentPiece).position) := by
        show _ = stop - (stream.startOffset + current.position)
        omega
      have moved := at_.setCursor current.currentPiece
      have start := moved.start_of_more more
      dsimp only
      rw [needed, moved.readRound_eq lies faithful inside more, show (current.setCursor current.currentPiece).startOffset +
        (current.setCursor current.currentPiece).position = stream.chunkStart round by rw [moved.startOffset, start]]
      cases awaited : stream.awaited env round with
      | error reason => exact moved.refused_ends awaited
      | ok there =>
        cases there with
        | false => exact moved.missing_ends awaited
        | true =>
          have near := @touch_local _ _ stop _ _ _ positive faithful awaited
          cases read : stream.chunkRead env stop round with
          | error reason => exact moved.failed_ends more near awaited read
          | ok bytes =>
            have nonempty : 0 < stream.chunkLength stop round := by
              have order := (chunkStart_bounds stream positive round).2
              rw [chunkLength]
              omega
            obtain ⟨some_, few, same⟩ := faithful.reads read near nonempty
            dsimp only
            rw [if_neg some_]
            split
            case isTrue short => exact moved.short_ends more near read some_ same short
            case isFalse long =>
              have whole : bytes.length = stream.chunkLength stop round := by omega
              refine Ends.before ?_ ⟨awaited, bytes, read, whole⟩ near
              refine ih (moved.next positive more whole same) ?_
              show stop - (stream.startOffset + (current.position + bytes.length)) ≤ fuel
              omega

end Loop

section Calls

inductive Call where
  | read (env : ReadEnvironment) (bufLen : Nat)
  | seek (pos : SeekFrom)

def perform (stream : TorrentStream) : Call → TorrentStream
  | .read env bufLen => (read env stream bufLen).stream
  | .seek pos => (stream.seek pos).1

/-- The calls of a sequence, each with the stream that it is made on. -/
def visited (stream : TorrentStream) : List Call → List (TorrentStream × Call)
  | [] => []
  | call :: calls => (stream, call) :: (stream.perform call).visited calls

/-- A call is right.  A `seek` that succeeds returns the new position. -/
def CallRight (content : Nat → UInt8) (stream : TorrentStream) : Call → Prop
  | .read env bufLen => ReadsRight content stream bufLen (read env stream bufLen)
  | .seek pos =>
    match stream.seek pos with
    | (after, .ok newPos) => after.position = newPos
    | (after, .error _) => after.position = stream.position

def CallFailsLate (stream : TorrentStream) : Call → Prop
  | .read env bufLen => stream.FailsLate env bufLen
  | .seek _ => False

def CallFaithful (content : Nat → UInt8) (lengths : Nat → Nat) (pieceLength : Nat) : Call → Prop
  | .read env _ => Faithful content lengths pieceLength env
  | .seek _ => True

theorem followCursor_position : stream.followCursor.position = stream.position := by
  rw [followCursor]
  split <;> rfl

section

variable (lies : stream.Lies lengths) (faithful : Faithful content lengths stream.pieceLength env)
include lies faithful

/-- A call of `read` in the file is right unless the storage fails late. -/
theorem readsRight_iff_of_more (some_ : bufLen ≠ 0) (more : stream.position < stream.totalLen) :
    ReadsRight content stream bufLen (read env stream bufLen) ↔ ¬stream.FailsLate env bufLen := by
  generalize stopEq : stream.startOffset + stream.position + min bufLen (stream.totalLen - stream.position) = stop
  have length : min bufLen (stream.totalLen - stream.position) = stop - (stream.startOffset + stream.position) := by omega
  have inside : stop ≤ stream.endOffset := by
    rw [totalLen] at more stopEq
    omega
  have first : AtRound content stream stop stream 0 [] := by
    refine ⟨rfl, rfl, rfl, rfl, ?_, rfl, rfl⟩
    rw [chunkStart, if_pos rfl]
    omega
  have ends := first.readLoop_ends lies faithful inside (by omega) le_rfl
  rw [FailsLate, stopEq, read, if_neg some_, if_neg (Nat.not_le.mpr more), length]
  dsimp only
  cases ran : readLoop env (stop - (stream.startOffset + stream.position))
      (stop - (stream.startOffset + stream.position)) 0 stream [] with
  | mk after touched result =>
    rw [ran] at ends
    obtain ⟨near, ok, error⟩ := ends
    cases result with
    | ok bytes =>
      obtain ⟨same, nonempty, within, position, harmless⟩ := ok rfl
      refine ⟨fun _ => harmless, fun _ => ⟨near, ?_, fun failed => nomatch failed⟩⟩
      rintro _ ⟨⟩
      rw [if_neg nonempty]
      exact ⟨same, by omega, followCursor_position.trans position, by omega⟩
    | error reason =>
      refine (Iff.intro (fun right => right.error rfl) fun still => ?_).trans (error rfl)
      exact ⟨near, fun done => (nomatch done), fun _ => still⟩

theorem readsRight_iff : ReadsRight content stream bufLen (read env stream bufLen) ↔ ¬stream.FailsLate env bufLen := by
  by_cases ends : bufLen = 0 ∨ stream.totalLen ≤ stream.position
  · have nothing : read env stream bufLen = ⟨stream, [], .ok []⟩ := by
      rw [read]
      split
      case isTrue => rfl
      case isFalse some_ => exact if_pos (ends.resolve_left some_)
    have none : min bufLen (stream.totalLen - stream.position) = 0 := by omega
    have harmless : ¬stream.FailsLate env bufLen := by
      rw [FailsLate, none]
      exact not_failsFrom_of_stop lies.positive (by rw [chunkStart, if_pos rfl, Nat.add_zero])
    refine ⟨fun _ => harmless, fun _ => ?_⟩
    rw [nothing]
    refine ⟨fun _ member => (nomatch member), ?_, fun failed => nomatch failed⟩
    rintro _ ⟨⟩
    exact ⟨rfl, Nat.zero_le _, rfl, ends⟩
  · obtain ⟨some_, more⟩ := not_or.mp ends
    exact readsRight_iff_of_more lies faithful some_ (Nat.not_le.mp more)

end

theorem callRight_iff {call : Call} (lies : stream.Lies lengths)
    (faithful : CallFaithful content lengths stream.pieceLength call) :
    stream.CallRight content call ↔ ¬stream.CallFailsLate call := by
  cases call with
  | read env bufLen => exact readsRight_iff lies faithful
  | seek pos =>
    refine ⟨fun _ => id, fun _ => ?_⟩
    rw [CallRight, seek]
    cases stream.seekTarget pos with
    | error reason => rfl
    | ok newPos => rfl

/-- The part of a stream that no call changes. -/
def Same (before after : TorrentStream) : Prop :=
  after.startOffset = before.startOffset ∧ after.endOffset = before.endOffset ∧ after.pieceLength = before.pieceLength

theorem followCursor_same : Same stream stream.followCursor := by
  rw [followCursor]
  split <;> exact ⟨rfl, rfl, rfl⟩

theorem readLoop_same (env : ReadEnvironment) (maxToRead fuel round : Nat) (stream : TorrentStream)
    (gathered : Bytes) : Same stream (readLoop env maxToRead fuel round stream gathered).stream := by
  induction fuel generalizing round stream gathered with
  | zero => exact ⟨rfl, rfl, rfl⟩
  | succ fuel ih =>
    rw [readLoop]
    split
    case isFalse => exact ⟨rfl, rfl, rfl⟩
    case isTrue =>
      dsimp only
      cases readRound env round (stream.setCursor stream.currentPiece) (maxToRead - gathered.length)
          gathered.isEmpty with
      | refused reason => exact ⟨rfl, rfl, rfl⟩
      | stopped => exact ⟨rfl, rfl, rfl⟩
      | failed chunkSize reason => exact ⟨rfl, rfl, rfl⟩
      | got chunkSize bytes =>
        dsimp only
        split
        case isTrue => exact ⟨rfl, rfl, rfl⟩
        case isFalse =>
          split
          case isTrue => exact ⟨rfl, rfl, rfl⟩
          case isFalse => exact ih (round + 1) _ (gathered ++ bytes)

theorem perform_same (stream : TorrentStream) (call : Call) : Same stream (stream.perform call) := by
  cases call with
  | read env bufLen =>
    rw [perform, read]
    split
    case isTrue => exact ⟨rfl, rfl, rfl⟩
    case isFalse =>
      split
      case isTrue => exact ⟨rfl, rfl, rfl⟩
      case isFalse =>
        dsimp only
        generalize min bufLen (stream.totalLen - stream.position) = toRead
        have same := readLoop_same env toRead toRead 0 stream []
        cases ran : readLoop env toRead toRead 0 stream [] with
        | mk after touched result =>
          rw [ran] at same
          obtain ⟨start, end_, length⟩ := same
          cases result with
          | error reason => exact ⟨start, end_, length⟩
          | ok bytes =>
            obtain ⟨nextStart, nextEnd, nextLength⟩ := @followCursor_same after
            exact ⟨nextStart.trans start, nextEnd.trans end_, nextLength.trans length⟩
  | seek pos =>
    rw [perform, seek]
    cases stream.seekTarget pos with
    | error reason => exact ⟨rfl, rfl, rfl⟩
    | ok newPos => exact @followCursor_same { stream with position := newPos }

theorem Same.lies {after : TorrentStream} (same : Same stream after) (lies : stream.Lies lengths) : after.Lies lengths := by
  obtain ⟨_, end_, length⟩ := same
  refine ⟨?_, ?_, ?_, ?_⟩
  · rw [length]
    exact lies.positive
  · rw [end_, length]
    exact lies.few
  · rw [length]
    exact lies.short
  · rw [end_, length]
    exact lies.covers

theorem lies_of_visited {calls : List Call} {entry : TorrentStream × Call} (lies : stream.Lies lengths)
    (member : entry ∈ stream.visited calls) :
    entry.1.Lies lengths ∧ entry.1.pieceLength = stream.pieceLength ∧ entry.2 ∈ calls := by
  induction calls generalizing stream with
  | nil => cases member
  | cons call calls ih =>
    rcases mem_cons.mp member with rfl | later
    · exact ⟨lies, rfl, mem_cons_self⟩
    · have same := stream.perform_same call
      obtain ⟨there, length, listed⟩ := ih (same.lies lies) later
      exact ⟨there, length.trans same.2.2, mem_cons_of_mem _ listed⟩

theorem lies_of_forFile {context : TorrentContext} {file : FileDetails UInt8} {fileIndex : Nat} {cursorPiece : Option Nat}
    (found : context.filesToDownload[fileIndex]? = some file) (lays : context.Lays file)
    (opened : forFile context fileIndex cursorPiece = .ok stream) :
    stream.Lies context.getPieceLength ∧ stream.pieceLength = context.pieceLength ∧ stream.startOffset = file.offset ∧
      stream.totalLen = file.length ∧ stream.position = 0 := by
  rw [forFile, found] at opened
  cases opened
  have representable := lays.representable
  have ending : min (file.offset + file.length) (u64Size - 1) = file.offset + file.length := by omega
  rw [new, ending]
  obtain ⟨start, end_, length⟩ := @followCursor_same
    ⟨file.offset, file.offset + file.length, 0, context.pieceLength, cursorPiece, false⟩
  refine ⟨Same.lies ⟨start, end_, length⟩ ⟨lays.positive, lays.few, lays.short, lays.covers⟩, length, start, ?_,
    followCursor_position⟩
  rw [totalLen, start, end_]
  exact Nat.add_sub_cancel_left _ _

/-- In every sequence of calls on the stream of a file, the calls are right except where the storage
fails in a later piece of one call. -/
theorem calls_right_iff {context : TorrentContext} {file : FileDetails UInt8} {fileIndex : Nat} {cursorPiece : Option Nat}
    {calls : List Call} (zeroTimeout : Bool) (found : context.filesToDownload[fileIndex]? = some file)
    (lays : context.Lays file) (opened : forFile context fileIndex cursorPiece = .ok stream)
    (faithful : ∀ call ∈ calls, CallFaithful content context.getPieceLength context.pieceLength call) :
    stream.startOffset = file.offset ∧ stream.totalLen = file.length ∧ stream.position = 0 ∧
      ((∀ entry ∈ (stream.withReadTimeout zeroTimeout).visited calls, entry.1.CallRight content entry.2) ↔
        ∀ entry ∈ (stream.withReadTimeout zeroTimeout).visited calls, ¬entry.1.CallFailsLate entry.2) := by
  obtain ⟨lies, length, start, total, position⟩ := lies_of_forFile found lays opened
  refine ⟨start, total, position, forall₂_congr fun entry member => ?_⟩
  have untouched : Same stream (stream.withReadTimeout zeroTimeout) := ⟨rfl, rfl, rfl⟩
  obtain ⟨there, same, listed⟩ := lies_of_visited (untouched.lies lies) member
  refine callRight_iff there ?_
  rw [same]
  exact length ▸ faithful entry.2 listed

/-- A file of two bytes in two pieces that are there. -/
def twoBytes : TorrentContext :=
  { ((TorrentContext.blank 1 2 ⟨false, false, false⟩).markPieceLocal 0 true).markPieceLocal 1 true with
    filesToDownload := [⟨"a", "a", 2, none, 0, none, .normal⟩] }

/-- All bytes are 7, and the storage fails in one round. -/
def failsIn (failing : Nat) : ReadEnvironment where
  atCheck _ := twoBytes
  firstPoll := twoBytes
  laterPolls := []
  atRead _ := twoBytes
  readBlock round _ length := if round = failing then .error (.io "read failed") else .ok (replicate length 7)

theorem twoBytes_length (piece : Nat) : twoBytes.getPieceLength piece = 1 :=
  TorrentContext.getPieceLength_new _ piece

theorem twoBytes_lays : twoBytes.Lays ⟨"a", "a", 2, none, 0, none, .normal⟩ where
  positive := Nat.zero_lt_one
  representable := by decide
  few := by decide
  short piece := (twoBytes_length piece).le
  covers piece := by
    rw [twoBytes_length, show twoBytes.pieceLength = 1 from rfl]
    omega

theorem failsIn_faithful (failing : Nat) : Faithful (fun _ => 7) twoBytes.getPieceLength 1 (failsIn failing) where
  checked _ _ there := there
  polled poll member piece there := by
    rw [mem_singleton.mp member] at there
    exact there
  lengths _ _ := rfl
  reads read _ positive := by
    obtain ⟨_, done⟩ := guard_eq_ok.mp read
    cases done
    refine ⟨ne_nil_of_length_pos (by rw [length_replicate]; exact positive), length_replicate.le, ?_⟩
    rw [FlatStore.read, length_replicate, map_const', length_range]

def twoBytesStream : TorrentStream := new twoBytes 0 2 none

theorem twoBytes_calls :
    forFile twoBytes 0 none = .ok twoBytesStream ∧
    ((∀ entry ∈ (twoBytesStream.withReadTimeout true).visited
        [.read (failsIn 1) 2, .seek (.end_ (-1)), .read (failsIn 1) 2], entry.1.CallRight (fun _ => 7) entry.2) ↔
      ∀ entry ∈ (twoBytesStream.withReadTimeout true).visited
        [.read (failsIn 1) 2, .seek (.end_ (-1)), .read (failsIn 1) 2], ¬entry.1.CallFailsLate entry.2) := by
  have found : twoBytes.filesToDownload[0]? = some ⟨"a", "a", 2, none, 0, none, .normal⟩ := rfl
  have opened : forFile twoBytes 0 none = .ok twoBytesStream := rfl
  refine ⟨opened, (calls_right_iff true found twoBytes_lays opened ?_).2.2.2⟩
  simp only [forall_mem_cons]
  exact ⟨failsIn_faithful 1, trivial, failsIn_faithful 1, fun _ member => nomatch member⟩

/-- A call that fails in the second piece has moved behind the first. -/
theorem secondPiece_fails :
    forFile twoBytes 0 none = .ok twoBytesStream ∧ twoBytesStream.position = 0 ∧
      (read (failsIn 1) twoBytesStream 2).result = .error (.other (.io "read failed")) ∧
      (read (failsIn 1) twoBytesStream 2).stream.position = 1 :=
  ⟨rfl, rfl, rfl, rfl⟩

end Calls

end TorrentStream

end BitTorrent
