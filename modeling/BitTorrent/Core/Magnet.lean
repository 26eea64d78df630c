import BitTorrent.Library.RangeRuns
import BitTorrent.Utils.Hex

/-! # Magnet links

`core/magnet.rs`: reading a magnet URI and writing one.  An index is a `usize` of 64 bits.
-/

namespace BitTorrent

structure MagnetLink where
  infoHash : Bytes
  v2InfoHash : Option (Hash UInt8)
  displayName : Option Text
  trackers : List Text
  webSeeds : List Text
  exactSources : List Text
  acceptableSources : List Text
  selectOnly : List Nat
deriving DecidableEq

section Percent

/-- Every byte becomes a character of its own.  A percent sign without two digits behind it stays,
and the two characters behind it are lost. -/
def percentDecodeBytes : Bytes → Text
  | [] => []
  | 37 :: first :: second :: rest =>
    match hexCharsToByte first second with
    | some byte => byteChar byte :: percentDecodeBytes rest
    | none => '%' :: percentDecodeBytes rest
  | [37, _] => ['%']
  | byte :: rest => (if byte = 43 then ' ' else byteChar byte) :: percentDecodeBytes rest

def percentDecode (value : Text) : Text := percentDecodeBytes (utf8 value)

/-- The unreserved characters of RFC 3986. -/
def isUnreserved (byte : UInt8) : Bool :=
  decide (65 ≤ byte ∧ byte ≤ 90) || decide (97 ≤ byte ∧ byte ≤ 122) || decide (48 ≤ byte ∧ byte ≤ 57) ||
    decide (byte = 45 ∨ byte = 95 ∨ byte = 46 ∨ byte = 126)

def percentEncodeByte (byte : UInt8) : Text := if isUnreserved byte then [byteChar byte] else '%' :: hexByte true byte

def percentEncode (value : Text) : Text := (utf8 value).flatMap percentEncodeByte

end Percent

section Hashes

def parseHexHashExact (hex : Text) (byteLen : Nat) : Option Bytes :=
  if (utf8 hex).length ≠ byteLen * 2 then none else hexPairs (utf8 hex)

def base32Value (letter : UInt8) : Option UInt8 :=
  if 65 ≤ letter ∧ letter ≤ 90 then some (letter - 65)
  else if 97 ≤ letter ∧ letter ≤ 122 then some (letter - 97)
  else if 50 ≤ letter ∧ letter ≤ 55 then some (letter - 50 + 26)
  else none

/-- The bytes that are complete, and the bits of the next one. -/
structure Base32State where
  bytes : Bytes
  currentByte : UInt8
  bitsBuffered : Nat

def Base32State.push (state : Base32State) (letter : UInt8) : Option Base32State := do
  let value ← base32Value letter
  let bits := state.bitsBuffered + 5
  if 8 ≤ bits then
    return ⟨state.bytes ++ [state.currentByte ||| (value >>> UInt8.ofNat (bits - 8))],
      UInt8.ofNat (value.toNat * 2 ^ (16 - bits)), bits - 8⟩
  else return ⟨state.bytes, state.currentByte ||| UInt8.ofNat (value.toNat * 2 ^ (8 - bits)), bits⟩

def parseBase32Hash (hash : Text) : Option Bytes :=
  if (utf8 hash).length ≠ 32 then none
  else
    match (utf8 hash).foldlM Base32State.push ⟨[], 0, 0⟩ with
    | some state => if state.bytes.length = 20 then some state.bytes else none
    | none => none

end Hashes

section Selection

/-- `push`, unless the value is there already. -/
def pushNew {α : Type} [DecidableEq α] (values : List α) (value : α) : List α :=
  if value ∈ values then values else values ++ [value]

/-- The indices of one part of a `so` parameter (BEP 53). -/
def selectPart (output : List Nat) (part : Text) : List Nat :=
  let part := trim part
  if part = [] then output
  else if '-' ∈ part then
    match parseUnsigned u64Size (utf8 (trim (part.takeWhile (· ≠ '-')))),
      parseUnsigned u64Size (utf8 (trim ((part.dropWhile (· ≠ '-')).drop 1))) with
    | some first, some last =>
      if first ≤ last then (RangeRuns.numbers (first, last)).foldl pushNew output else output
    | _, _ => output
  else
    match parseUnsigned u64Size (utf8 part) with
    | some index => pushNew output index
    | none => output

def parseBep53SelectOnly (value : Text) (output : List Nat) : List Nat :=
  ((value.splitOn ',').foldl selectPart output).insertionSort (· ≤ ·)

def showRun (run : Nat × Nat) : Text :=
  if run.1 = run.2 then numeral run.1 else numeral run.1 ++ '-' :: numeral run.2

def formatBep53SelectOnly (indices : List Nat) : Text :=
  [','].intercalate ((RangeRuns.runs ((indices.insertionSort (· ≤ ·)).destutter (· ≠ ·))).map showRun)

end Selection

/-- What the parameters of a query have given so far. -/
structure MagnetQuery where
  v1InfoHash : Option Bytes
  v2InfoHash : Option (Hash UInt8)
  displayName : Option Text
  trackers : List Text
  webSeeds : List Text
  exactSources : List Text
  acceptableSources : List Text
  selectOnly : List Nat

namespace MagnetQuery

def empty : MagnetQuery := ⟨none, none, none, [], [], [], [], []⟩

variable (query : MagnetQuery)

def exactTopic (value : Text) : Result MagnetQuery :=
  if (text "urn:btih:").isPrefixOf value then
    let hash := value.drop (text "urn:btih:").length
    match (parseHexHashExact hash 20).or (parseBase32Hash hash) with
    | some bytes => .ok { query with v1InfoHash := some bytes }
    | none => .error (.parse ("Invalid info hash format: " ++ String.ofList hash))
  else if (text "urn:btmh:1220").isPrefixOf value then
    let hash := value.drop (text "urn:btmh:1220").length
    match (parseHexHashExact hash 32).bind toHash with
    | some bytes => .ok { query with v2InfoHash := some bytes }
    | none => .error (.parse ("Invalid v2 info hash format: " ++ String.ofList hash))
  else .ok query

/-- One parameter with its value. -/
def setParameter (key value : Text) : Result MagnetQuery :=
  if value = [] then .ok query
  else if key = text "xt" then query.exactTopic value
  else if key = text "dn" then .ok { query with displayName := some (percentDecode value) }
  else if key = text "tr" then .ok { query with trackers := pushNew query.trackers (percentDecode value) }
  else if key = text "ws" then .ok { query with webSeeds := pushNew query.webSeeds (percentDecode value) }
  else if key = text "xs" then .ok { query with exactSources := pushNew query.exactSources (percentDecode value) }
  else if key = text "as" then
    .ok { query with acceptableSources := pushNew query.acceptableSources (percentDecode value) }
  else if key = text "so" then
    .ok { query with selectOnly := parseBep53SelectOnly (percentDecode value) query.selectOnly }
  else .ok query

def parseParameter (parameter : Text) : Result MagnetQuery :=
  query.setParameter (parameter.takeWhile (· ≠ '=')) ((parameter.dropWhile (· ≠ '=')).drop 1)

end MagnetQuery

namespace MagnetLink

def parse (uri : Text) : Result MagnetLink :=
  if (text "magnet:?").isPrefixOf uri then do
    let query ← ((uri.drop (text "magnet:?").length).splitOn '&').foldlM MagnetQuery.parseParameter .empty
    let infoHash ←
      match query.v1InfoHash, query.v2InfoHash with
      | some v1, _ => .ok v1
      | none, some v2 => .ok (v2.toList.take 20)
      | none, none => .error (.parse "Missing info hash (xt) in magnet link")
    return {
      infoHash
      v2InfoHash := query.v2InfoHash
      displayName := query.displayName
      trackers := query.trackers
      webSeeds := query.webSeeds
      exactSources := query.exactSources
      acceptableSources := query.acceptableSources
      selectOnly := query.selectOnly }
  else .error (.parse "Invalid magnet link prefix")

variable (link : MagnetLink)

def isHybrid : Bool :=
  match link.v2InfoHash with
  | some v2 => decide (link.infoHash.length = 20) && decide (v2.toList.take 20 ≠ link.infoHash)
  | none => false

def isV1Only : Bool := link.v2InfoHash.isNone

/-- The hashes of a link as parameters; the last branch of the code, for a link that is neither v1
nor hybrid and has no v2 hash, is never taken. -/
def topics : List Text :=
  (if link.isV1Only || link.isHybrid then [text "xt=urn:btih:" ++ toHex link.infoHash] else []) ++
    match link.v2InfoHash with
    | some v2 => [text "xt=urn:btmh:1220" ++ toHex v2.toList]
    | none => if !link.isV1Only && !link.isHybrid then [text "xt=urn:btih:" ++ toHex link.infoHash] else []

def encoded (key : String) (value : Text) : Text := text key ++ '=' :: percentEncode value

def selection : List Text :=
  if link.selectOnly = [] ∨ formatBep53SelectOnly link.selectOnly = [] then []
  else [text "so=" ++ formatBep53SelectOnly link.selectOnly]

def parameters : List Text :=
  link.topics ++ (link.displayName.map (encoded "dn")).toList ++ link.trackers.map (encoded "tr") ++
    link.webSeeds.map (encoded "ws") ++ link.exactSources.map (encoded "xs") ++
    link.acceptableSources.map (encoded "as") ++ link.selection

def toUri : Text := text "magnet:?" ++ ['&'].intercalate link.parameters

end MagnetLink

end BitTorrent
