import BitTorrent.Library.Chunks
import BitTorrent.Utils.Text

/-! # Range requests of the streaming server

`stream.rs` and `detect_mime_type` of the clients' shared crate, against RFC 7233.  The writer takes
all that it is given.  A number that leaves its 64 bits is a panic, and so is a read of more bytes
than the buffer has.
-/

namespace BitTorrent

namespace RangeStream

structure ByteRange where
  start : Nat
  end_ : Nat
  isRangeRequest : Bool
deriving DecidableEq

/-- The two sides of the only `-` behind `bytes=`. -/
def rangeParts (header : Text) : Option (Text × Text) :=
  if (text "bytes=").isPrefixOf header then
    match (header.drop 6).splitOn '-' with
    | [first, last] => some (first, last)
    | _ => none
  else none

def parseU64 (part : Text) : Option Nat := parseUnsigned u64Size (utf8 part)

def parseRangeSpec (rangeHeader : Option Text) (totalLen : Nat) : ByteRange :=
  match rangeHeader.bind rangeParts with
  | some (first, last) =>
    { start := (parseU64 first).getD 0
      end_ :=
        if last ≠ [] then ((parseU64 last).map fun end_ => min end_ (totalLen - 1)).getD (totalLen - 1)
        else totalLen - 1
      isRangeRequest := true }
  | none => ⟨0, totalLen - 1, false⟩

def mimeTypes : List (String × String) :=
  [("mp4", "video/mp4"), ("m4v", "video/mp4"), ("mkv", "video/x-matroska"), ("webm", "video/webm"),
    ("avi", "video/x-msvideo"), ("mov", "video/quicktime"), ("mp3", "audio/mpeg"), ("flac", "audio/flac"),
    ("ogg", "audio/ogg"), ("wav", "audio/wav")]

def extension (name : Text) : Option Text :=
  if '.' ∈ name then some (name.reverse.takeWhile (· ≠ '.')).reverse else none

def detectMimeType (name : Text) : Text :=
  let known := (extension name).bind fun ext => mimeTypes.find? fun entry => ext.map Char.toLower = text entry.1
  (known.map fun entry => text entry.2).getD (text "video/mp4")

structure HttpHead where
  status : String
  headers : List (String × Text)

def HttpHead.field (head : HttpHead) (name : String) : Option Text :=
  (head.headers.find? fun header => header.1 = name).map Prod.snd

/-- What was written, and the calls of `on_progress`. -/
structure Served where
  head : HttpHead
  body : Bytes
  progress : List (Nat × Nat)

/-- A reader that can seek: what a read gives in each round, at a position and up to a length. -/
structure Source where
  read : Nat → Nat → Nat → Result Bytes

def bufferSize : Nat := 65536

/-- The loop over the body.  Each round writes a byte at least, so that `fuel` is enough at `remaining`. -/
def copyLoop (source : Source) (end_ : Nat) : Nat → Nat → Nat → Nat → Outcome (Bytes × List (Nat × Nat))
  | 0, _, _, _ => .ok ([], [])
  | fuel + 1, round, position, remaining =>
    if remaining = 0 then .ok ([], [])
    else
      match source.read round position (min bufferSize remaining) with
      | .error _ => .ok ([], [])
      | .ok bytes =>
        if bytes = [] then .ok ([], [])
        else if bufferSize < bytes.length ∨ remaining < bytes.length then .panic
        else
          let remaining := remaining - bytes.length
          match copyLoop source end_ fuel (round + 1) (position + bytes.length) remaining with
          | .ok (body, progress) => .ok (bytes ++ body, (end_ - remaining, bytes.length) :: progress)
          | .err reason => .err reason
          | .panic => .panic

def contentRange (start end_ totalLen : Nat) : Text :=
  text "bytes " ++ numeral start ++ text "-" ++ numeral end_ ++ text "/" ++ numeral totalLen

/-- The headers of both kinds of answers that carry the file. -/
def streamHeaders : List (String × Text) :=
  [("Accept-Ranges", text "bytes"), ("Access-Control-Allow-Origin", text "*"),
    ("Access-Control-Expose-Headers", text "Content-Range, Accept-Ranges, Content-Length"),
    ("Connection", text "keep-alive")]

def streamHead (mimeType : Text) (range : ByteRange) (totalLen contentLen : Nat) : HttpHead :=
  if range.isRangeRequest then
    ⟨"206 Partial Content", [("Content-Type", mimeType),
      ("Content-Range", contentRange range.start range.end_ totalLen),
      ("Content-Length", numeral contentLen)] ++ streamHeaders⟩
  else ⟨"200 OK", [("Content-Type", mimeType), ("Content-Length", numeral totalLen)] ++ streamHeaders⟩

def serveHttpRangeStream (source : Source) (fileName : Text) (totalLen : Nat) (isHead : Bool)
    (rangeHeader : Option Text) : Outcome Served :=
  if totalLen = 0 then .ok ⟨⟨"200 OK", [("Content-Length", text "0")]⟩, [], []⟩
  else
    let range := parseRangeSpec rangeHeader totalLen
    if totalLen ≤ range.start then
      .ok ⟨⟨"416 Range Not Satisfiable",
        [("Content-Range", text "bytes */" ++ numeral totalLen), ("Content-Length", text "0")]⟩, [], []⟩
    else
      let contentLen := range.end_ - range.start + 1
      if u64Size ≤ contentLen then .panic
      else
        let head := streamHead (detectMimeType fileName) range totalLen contentLen
        if isHead then .ok ⟨head, [], []⟩
        else
          match copyLoop source range.end_ contentLen 0 range.start contentLen with
          | .ok (body, progress) => .ok ⟨head, body, (range.start, 0) :: progress⟩
          | .err reason => .err reason
          | .panic => .panic

section Meaning

/-- The ranges of RFC 7233 with one part. -/
inductive RangeSpec where
  | between (first last : Nat)
  | openEnded (first : Nat)
  | suffix (length : Nat)

/-- `1*DIGIT`. -/
def number (part : Text) : Option Nat := decimalValue (utf8 part)

/-- A range whose last position is before its first is not one. -/
def specOf (parts : Text × Text) : Option RangeSpec :=
  if parts.1 = [] then (number parts.2).map .suffix
  else if parts.2 = [] then (number parts.1).map .openEnded
  else
    (number parts.1).bind fun first => (number parts.2).bind fun last =>
      if first ≤ last then some (.between first last) else none

def rangeSpec (header : Text) : Option RangeSpec := (rangeParts header).bind specOf

/-- The first and the last position that a range selects; `none` when it cannot be satisfied. -/
def RangeSpec.selected (size : Nat) : RangeSpec → Option (Nat × Nat)
  | between first last => if first < size then some (first, min last (size - 1)) else none
  | openEnded first => if first < size then some (first, size - 1) else none
  | suffix length => if length = 0 then none else some (size - length, size - 1)

/-- The answer carries a part of the file, and its headers say which. -/
structure Carries (file : Bytes) (isHead : Bool) (served : Served) (start end_ : Nat) : Prop where
  order : start ≤ end_
  inside : end_ < file.length
  body : served.body = if isHead then [] else Chunks.slice file start (end_ + 1 - start)
  contentLength : served.head.field "Content-Length" = some (numeral (end_ + 1 - start))
  contentRange : served.head.status = "206 Partial Content" ∧
      served.head.field "Content-Range" = some (contentRange start end_ file.length) ∨
    served.head.status = "200 OK" ∧ start = 0 ∧ end_ + 1 = file.length

def Unsatisfiable (served : Served) : Prop := served.head.status = "416 Range Not Satisfiable" ∧ served.body = []

structure AnswersRight (file : Bytes) (isHead : Bool) (rangeHeader : Option Text) (served : Served) : Prop where
  sound : Unsatisfiable served ∨ ∃ start end_, Carries file isHead served start end_
  interpreted : ∀ spec, rangeHeader.bind rangeSpec = some spec →
    match spec.selected file.length with
    | none => Unsatisfiable served
    | some (start, end_) => Carries file isHead served start end_

/-- The ranges that are misread: a suffix shorter than the file, a first position of more than 64
bits, and a last position before the first. -/
inductive MisreadParts (first last : Text) (size : Nat) : Prop
  | suffix (length : Nat) (empty : first = []) (read : number last = some length) (short : length < size)
  | wide (position : Nat) (read : number first = some position) (wide : u64Size ≤ position)
      (isRange : last = [] ∨ ∃ stop, number last = some stop ∧ position ≤ stop)
  | backwards (position stop : Nat) (read : parseU64 first = some position) (readLast : parseU64 last = some stop)
      (order : stop < position) (inside : position < size)

/-- No answer is right for an empty file. -/
def Misread (rangeHeader : Option Text) (size : Nat) : Prop :=
  size = 0 ∨ ∃ first last, rangeHeader.bind rangeParts = some (first, last) ∧ MisreadParts first last size

/-- A source that gives the file, in parts of any size. -/
def Delivers (file : Bytes) (source : Source) : Prop :=
  ∀ round position length, 0 < length → position < file.length →
    ∃ bytes, source.read round position length = .ok bytes ∧ bytes ≠ [] ∧ bytes.length ≤ length ∧
      bytes = Chunks.slice file position bytes.length

end Meaning

end RangeStream

end BitTorrent
