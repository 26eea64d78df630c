import BitTorrent.Core.TorrentContext
import BitTorrent.Library.FlatStore

/-! # Streams over the files of a torrent

`storage/stream.rs`.  The context is looked at in each round of the loop of `read` and in each poll of
a wait, and it may have more local pieces each time.  A sum of offsets wraps around.
-/

namespace BitTorrent

open FlatStore

inductive StreamError where
  | connectionAborted
  | wouldBlock (piece : Nat)
  | timedOut (piece : Nat)
  | other (reason : BitTorrentError)
  | invalidInput (message : String)

inductive SeekFrom where
  | start (offset : Nat)
  | current (offset : Int)
  | end_ (offset : Int)

/-- `zeroTimeout` tells whether the read timeout is `Duration::ZERO`. -/
structure TorrentStream where
  startOffset : Nat
  endOffset : Nat
  position : Nat
  pieceLength : Nat
  cursorPiece : Option Nat
  zeroTimeout : Bool

/-- What one call of `read` meets: the context at the check and at the read of each round, the
contexts that the polls of a wait see before the timeout, and what the storage answers. -/
structure ReadEnvironment where
  atCheck : Nat → TorrentContext
  firstPoll : TorrentContext
  laterPolls : List TorrentContext
  atRead : Nat → TorrentContext
  readBlock : Nat → Nat → Nat → Result Bytes

/-- A read of the storage. -/
structure Touch where
  context : TorrentContext
  offset : Nat
  length : Nat

structure Reading where
  stream : TorrentStream
  touched : List Touch
  result : Except StreamError Bytes

namespace TorrentStream

variable (stream : TorrentStream)

def setCursor (piece : Nat) : TorrentStream :=
  { stream with cursorPiece := stream.cursorPiece.map fun _ => piece }

/-- The piece of an offset, `as u32`. -/
def pieceOf (offset : Nat) : Nat := offset / stream.pieceLength % u32Size

/-- The cursor moves only when there is a piece length. -/
def followCursor : TorrentStream :=
  if 0 < stream.pieceLength then
    stream.setCursor (stream.pieceOf ((stream.startOffset + stream.position) % u64Size))
  else stream

def new (context : TorrentContext) (startOffset length : Nat) (cursorPiece : Option Nat) : TorrentStream :=
  followCursor {
    startOffset
    endOffset := min (startOffset + length) (u64Size - 1)
    position := 0
    pieceLength := context.pieceLength
    cursorPiece
    zeroTimeout := false }

def forFile (context : TorrentContext) (fileIndex : Nat) (cursorPiece : Option Nat) :
    Result TorrentStream :=
  match context.filesToDownload[fileIndex]? with
  | none =>
    .error (.parse ("File index " ++ toString fileIndex ++ " out of bounds (total files: " ++
      toString context.filesToDownload.length ++ ")"))
  | some file => .ok (new context file.offset file.length cursorPiece)

def withReadTimeout (zeroTimeout : Bool) : TorrentStream := { stream with zeroTimeout }

def totalLen : Nat := stream.endOffset - stream.startOffset

/-- A wait ends with the last poll that the timeout leaves time for. -/
def waitForPiece (stream : TorrentStream) (piece : Nat) : TorrentContext → List TorrentContext → Except StreamError Unit
  | context, laterPolls =>
    if context.isPieceLocal piece then .ok ()
    else if context.status = .ended then .error .connectionAborted
    else if stream.zeroTimeout then .error (.wouldBlock piece)
    else
      match laterPolls with
      | [] => .error (.timedOut piece)
      | next :: laterPolls => stream.waitForPiece piece next laterPolls

/-- What a round of the loop comes to. -/
inductive Round where
  | refused (reason : StreamError)
  | stopped
  | failed (chunkSize : Nat) (reason : BitTorrentError)
  | got (chunkSize : Nat) (bytes : Bytes)

/-- `false` when the piece is not there and bytes were already read. -/
def awaitPiece (env : ReadEnvironment) (round : Nat) (stream : TorrentStream) (piece : Nat) (fresh : Bool) :
    Except StreamError Bool :=
  if (env.atCheck round).isPieceLocal piece then .ok true
  else if !fresh then .ok false
  else (stream.waitForPiece piece env.firstPoll env.laterPolls).map fun _ => true

def currentPiece : Nat :=
  if 0 < stream.pieceLength then stream.pieceOf (stream.startOffset + stream.position) else 0

/-- The body of the loop, `needed` bytes before its end. -/
def readRound (env : ReadEnvironment) (round : Nat) (stream : TorrentStream) (needed : Nat) (fresh : Bool) : Round :=
  let currentGlobalPos := stream.startOffset + stream.position
  let piece := stream.currentPiece
  match awaitPiece env round stream piece fresh with
  | .error reason => .refused reason
  | .ok false => .stopped
  | .ok true =>
    let pieceOffset := currentGlobalPos - piece * stream.pieceLength
    let pieceRemaining := (env.atRead round).getPieceLength piece - pieceOffset
    if pieceRemaining = 0 then .stopped
    else
      let chunkSize := min needed pieceRemaining
      match env.readBlock round currentGlobalPos chunkSize with
      | .error reason => .failed chunkSize reason
      | .ok bytes => .got chunkSize bytes

/-- Each round but the last reads a byte at least, so that `fuel` is enough at `maxToRead`. -/
def readLoop (env : ReadEnvironment) (maxToRead : Nat) : Nat → Nat → TorrentStream → Bytes → Reading
  | 0, _, stream, gathered => ⟨stream, [], .ok gathered⟩
  | fuel + 1, round, stream, gathered =>
    if gathered.length < maxToRead then
      let stream := stream.setCursor stream.currentPiece
      let touch chunkSize : Touch := ⟨env.atRead round, stream.startOffset + stream.position, chunkSize⟩
      match readRound env round stream (maxToRead - gathered.length) gathered.isEmpty with
      | .refused reason => ⟨stream, [], .error reason⟩
      | .stopped => ⟨stream, [], .ok gathered⟩
      | .failed chunkSize reason => ⟨stream, [touch chunkSize], .error (.other reason)⟩
      | .got chunkSize bytes =>
        if bytes = [] then ⟨stream, [touch chunkSize], .ok gathered⟩
        else
          let advanced := { stream with position := stream.position + bytes.length }
          if bytes.length < chunkSize then ⟨advanced, [touch chunkSize], .ok (gathered ++ bytes)⟩
          else
            let next := readLoop env maxToRead fuel (round + 1) advanced (gathered ++ bytes)
            { next with touched := touch chunkSize :: next.touched }
    else ⟨stream, [], .ok gathered⟩

def read (env : ReadEnvironment) (stream : TorrentStream) (bufLen : Nat) : Reading :=
  if bufLen = 0 then ⟨stream, [], .ok []⟩
  else if stream.totalLen ≤ stream.position then ⟨stream, [], .ok []⟩
  else
    let maxToRead := min bufLen (stream.totalLen - stream.position)
    match readLoop env maxToRead maxToRead 0 stream [] with
    | ⟨stream, touched, .ok bytes⟩ => ⟨stream.followCursor, touched, .ok bytes⟩
    | ⟨stream, touched, .error reason⟩ => ⟨stream, touched, .error reason⟩

/-- The position that a signed offset leads to, in 128 bits and then `as u64`. -/
def target (base : Nat) (offset : Int) : Except StreamError Nat :=
  if (base : Int) + offset < 0 then .error (.invalidInput "Cannot seek to a negative position")
  else .ok (((base : Int) + offset).toNat % u64Size)

def seekTarget : SeekFrom → Except StreamError Nat
  | .start offset => .ok offset
  | .current offset => target stream.position offset
  | .end_ offset => target stream.totalLen offset

def seek (pos : SeekFrom) : TorrentStream × Except StreamError Nat :=
  match stream.seekTarget pos with
  | .error reason => (stream, .error reason)
  | .ok newPos =>
    let moved := followCursor { stream with position := newPos }
    (moved, .ok moved.position)

end TorrentStream

end BitTorrent
