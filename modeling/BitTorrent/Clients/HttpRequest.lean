import BitTorrent.Network.Lsd
import BitTorrent.Network.WebTorrent

/-! # Requests of the streaming server

`read_http_request` of `stream.rs` of the clients' shared crate.  The table of capital letters is a
parameter.  The reader gives its bytes and then ends or fails.
-/

namespace BitTorrent

namespace HttpRequest

structure Reader where
  bytes : Bytes
  failure : Option String

structure Request where
  method : Text
  path : Text
  rangeHeader : Option Text
deriving DecidableEq

/-- `split_whitespace`. -/
def splitWhitespace (value : Text) : List Text := (value.splitOnP isWhiteSpace).filter fun word => word ≠ []

def decodeLine (line : Bytes) : Result Text :=
  match fromUtf8 line with
  | some value => .ok value
  | none => .error (.io "stream did not contain valid UTF-8")

/-- `read_line`.  A reader that fails breaks its last line off. -/
def readLine (failure : Option String) (line : Bytes) : Result Text :=
  match failure with
  | none => decodeLine line
  | some reason => if line.getLast? = some 10 then decodeLine line else .error (.io reason)

/-- What a reader without more lines answers. -/
def atEnd {α : Type} (failure : Option String) (value : α) : Outcome α :=
  match failure with
  | some reason => .err (.io reason)
  | none => .ok value

/-- The loop over the headers. -/
def readHeaders (failure : Option String) : List Bytes → Option Text → Outcome (Option Text)
  | [], rangeHeader => atEnd failure rangeHeader
  | line :: rest, rangeHeader =>
    match readLine failure line with
    | .error reason => .err reason
    | .ok headerLine =>
      let trimmed := trim headerLine
      if trimmed = [] then .ok rangeHeader
      else
        match hasName (text "range:") trimmed with
        | none => .panic
        | some false => readHeaders failure rest rangeHeader
        | some true =>
          match splitAtByte trimmed (byteLen (text "range:")) with
          | none => .panic
          | some (_, value) => readHeaders failure rest (some (trim value))

def readHttpRequest (toUppercase : Text → Text) (reader : Reader) : Outcome (Option Request) :=
  match splitInclusive 10 reader.bytes with
  | [] => atEnd reader.failure none
  | line :: rest =>
    match readLine reader.failure line with
    | .error reason => .err reason
    | .ok requestLine =>
      if trim requestLine = [] then .ok none
      else
        match splitWhitespace requestLine with
        | method :: path :: _ =>
          (readHeaders reader.failure rest none).map fun rangeHeader =>
            some ⟨toUppercase method, path, rangeHeader⟩
        | _ => .ok none

/-- The headers that are read: up to an empty line, and none from a line that cannot be read on. -/
def headersOf (failure : Option String) : List Bytes → List Text
  | [] => []
  | line :: rest =>
    match readLine failure line with
    | .error _ => []
    | .ok headerLine => if trim headerLine = [] then [] else trim headerLine :: headersOf failure rest

/-- A request whose headers are read has one with a character across its sixth byte. -/
def RequestCut (reader : Reader) : Prop :=
  ∃ line rest requestLine, splitInclusive 10 reader.bytes = line :: rest ∧
    readLine reader.failure line = .ok requestLine ∧ trim requestLine ≠ [] ∧
    2 ≤ (splitWhitespace requestLine).length ∧ ∃ header ∈ headersOf reader.failure rest, CutsInside header 6

theorem atEnd_ne_panic {α : Type} {failure : Option String} {value : α} : atEnd failure value ≠ .panic := by
  cases failure <;> simp [atEnd]

theorem readHeaders_panic {failure : Option String} {lines : List Bytes} {rangeHeader : Option Text} :
    readHeaders failure lines rangeHeader = .panic ↔ ∃ header ∈ headersOf failure lines, CutsInside header 6 := by
  have size : byteLen (text "range:") = 6 := by decide
  induction lines generalizing rangeHeader with
  | nil => simp [readHeaders, headersOf, atEnd_ne_panic]
  | cons line rest ih =>
    rw [readHeaders, headersOf]
    cases readLine failure line with
    | error reason => simp
    | ok headerLine =>
      dsimp only
      by_cases blank : trim headerLine = []
      · simp [blank]
      · have cuts := @hasName_eq_none (trim headerLine) (text "range:")
        rw [size] at cuts
        rw [if_neg blank, if_neg blank, List.exists_mem_cons_iff, ← cuts]
        cases named : hasName (text "range:") (trim headerLine) with
        | none => simp
        | some found =>
          cases found with
          | false => simp [ih]
          | true =>
            cases cut : splitAtByte (trim headerLine) (byteLen (text "range:")) with
            | none => simp [hasName, cut] at named
            | some parts => simpa using ih

theorem readHttpRequest_panic {toUppercase : Text → Text} {reader : Reader} :
    readHttpRequest toUppercase reader = .panic ↔ RequestCut reader := by
  rw [readHttpRequest, RequestCut]
  cases splitInclusive 10 reader.bytes with
  | nil => simp [atEnd_ne_panic]
  | cons line rest =>
    cases read : readLine reader.failure line with
    | error reason => simp [read]
    | ok requestLine =>
      by_cases blank : trim requestLine = []
      · simp [read, blank]
      · simp only [read, if_neg blank]
        match words : splitWhitespace requestLine with
        | [] => simp [read, words]
        | [_] => simp [read, words]
        | _ :: _ :: _ => simp [read, words, blank, Outcome.map_eq_panic, readHeaders_panic]

end HttpRequest

section Main

open HttpRequest Lsd WebTorrent

/-- The four readers of text from the network return exactly if no character lies across a place
where they cut the text. -/
theorem networkText_returns_iff (toUppercase : Text → Text) (reader : Reader) (infoHash datagram : Bytes) (source : Text)
    (fromStr : Text → Except String WebTorrentAnnounceResponse) (json hex : Text) :
    (readHttpRequest toUppercase reader ≠ .panic ↔ ¬RequestCut reader) ∧
      (hearDatagram infoHash source datagram ≠ .panic ↔ ¬DatagramCut datagram) ∧
      (parseAnnounceResponse fromStr json ≠ .panic ↔ ¬∃ parsed, fromStr json = .ok parsed ∧ PeerIdCut parsed) ∧
      (fromHex hex ≠ .panic ↔ ¬HexCut hex) :=
  ⟨not_congr readHttpRequest_panic, not_congr hearDatagram_panic, not_congr parseAnnounceResponse_panic,
    not_congr fromHex_panic⟩

/-- An accented letter across each of the cuts. -/
theorem networkText_panics :
    readHttpRequest id ⟨utf8 (text "GET / HTTP/1.1\r\nX-Abcé: 1\r\n\r\n"), none⟩ = .panic ∧
      hearDatagram [] (text "10.0.0.1") (utf8 (text "abcdé\r\n")) = .panic ∧
      parseAnnounceResponse (fun _ => .ok ⟨none, none, none, none, some (text "abcdefghijké"), none⟩) [] = .panic ∧
      fromHex (text "aéb") = .panic := by
  decide +kernel

end Main

end BitTorrent
