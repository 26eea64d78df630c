import BitTorrent.Core.V2Verification
import BitTorrent.Utils.BencodeTokenizer

/-! # Torrent files

`core/metainfo.rs`: the parser of torrent files and the list of the files to download.  The
dictionary of the parser is a list with the latest entry of a key in front.  Paths are those of
Unix, lists of bytes; of the download directory only its canonical path is known.
-/

namespace BitTorrent

open Bencode List

def custom (message : String) : BitTorrentError := .bencode (.custom message)

structure MetaInfoFile where
  metaInfoData : Bytes
  metaInfoDict : List (Text × Bytes)
  pieceLayers : List (Hash UInt8 × List (Hash UInt8))
  parsed : Bool

/-- The fields of one item of `files`. -/
structure FileFields where
  length : Text
  md5sum : Text
  pathSegments : List Text
  piecesRoot : Option Bytes

def FileFields.empty : FileFields := ⟨[], [], [], none⟩

/-- Path, length and checksum, with a zero character after the first two. -/
def FileFields.entry (fields : FileFields) : Text :=
  (fields.pathSegments.flatMap fun segment => '/' :: segment) ++ '\x00' :: fields.length ++
    '\x00' :: fields.md5sum

/-- Path, length and pieces root of a file of the file tree. -/
abbrev TreeFile := Text × Nat × Bytes

/-- The path under which the pieces root of a file is kept. -/
def normalPath (path : Text) : Text := (forwardSlashes path).dropWhile (· = '/')

def rootPathKey (path : Text) : Text := text "pieces_root_path:" ++ normalPath path

def rootKey (fileNo : Nat) : Text := text "pieces_root_" ++ numeral fileNo

abbrev UrlParser := Text → Except String Unit

namespace MetaInfoFile

def fromBytes (bytes : Bytes) : MetaInfoFile := ⟨bytes, [], [], false⟩

def get (file : MetaInfoFile) (key : Text) : Option Bytes := file.metaInfoDict.lookup key

def insert (file : MetaInfoFile) (key : Text) (value : Bytes) : MetaInfoFile :=
  { file with metaInfoDict := (key, value) :: file.metaInfoDict }

section Values

def stringOrInteger (message : String) : BencodeToken → Result Bytes
  | .string bytes => .ok bytes
  | .integer digits => .ok digits
  | _ => .error (custom message)

/-- The next token has to open a value of the right kind. -/
def expectStart (start : BencodeToken) (message : String) (input : Bytes) : Result Bytes := do
  let (token, input) ← expectToken input
  if token = start then return input else .error (custom message)

theorem expectStart_eq_ok {start : BencodeToken} {message : String} {input after : Bytes}
    (opened : expectStart start message input = .ok after) : nextToken input = some (.ok (start, after)) := by
  rw [expectStart, bind_eq_ok] at opened
  obtain ⟨⟨token, more⟩, read, opened⟩ := opened
  dsimp only at opened
  split at opened
  case isTrue same =>
    cases opened
    rw [same] at read
    exact expectToken_eq_ok.mp read
  case isFalse => cases opened

/-- An entry whose value is kept as it is. -/
def parseField (message : String) (file : MetaInfoFile) (key input : Bytes) :
    Result (MetaInfoFile × Bytes) := do
  let (token, input) ← expectToken input
  let value ← stringOrInteger message token
  return (file.insert (fromUtf8Lossy key) value, input)

def skipEntry (file : MetaInfoFile) (input : Bytes) : Result (MetaInfoFile × Bytes) := do
  let (token, input) ← expectToken input
  let input ← skipValue token input
  return (file, input)

end Values

section FileList

def parsePathSegment (segments : List Text) (token : BencodeToken) (input : Bytes) :
    Result (List Text × Bytes) :=
  match token with
  | .string segment => .ok (segments ++ [fromUtf8Lossy segment], input)
  | _ => .ok (segments, input)

/-- A length or a checksum of the wrong kind is passed over, not skipped as a value. -/
def parseFileField (fields : FileFields) (token : BencodeToken) (input : Bytes) :
    Result (FileFields × Bytes) :=
  match token with
  | .string key => do
      let (value, input) ← expectToken input
      if key = ascii "length" then
        match value with
        | .integer digits | .string digits => return ({ fields with length := fromUtf8Lossy digits }, input)
        | _ => return (fields, input)
      else if key = ascii "pieces root" then
        match value with
        | .string root =>
          if root.length = 32 then return ({ fields with piecesRoot := some root }, input)
          else return (fields, input)
        | _ => return (fields, input)
      else if key = ascii "md5sum" then
        match value with
        | .integer sum | .string sum => return ({ fields with md5sum := fromUtf8Lossy sum }, input)
        | _ => return (fields, input)
      else if key = ascii "path" then
        if value = .listStart then do
          let (segments, input) ← readUntilEnd true parsePathSegment fields.pathSegments input
          return ({ fields with pathSegments := segments }, input)
        else .error (custom "path must be a list")
      else do
        let input ← skipValue value input
        return (fields, input)
  | _ => .error (custom "File dict key is not a string")

def insertRoot (file : MetaInfoFile) (path : Text) (fileNo : Nat) (root : Bytes) : MetaInfoFile :=
  (file.insert (rootPathKey path) root).insert (rootKey fileNo) root

def addFile (file : MetaInfoFile) (fileNo : Nat) (fields : FileFields) : MetaInfoFile :=
  let file :=
    match fields.piecesRoot with
    | some root => file.insertRoot (joinSlash fields.pathSegments) fileNo root
    | none => file
  file.insert (numeral fileNo) (utf8 fields.entry)

def parseFile (state : Nat × MetaInfoFile) (token : BencodeToken) (input : Bytes) :
    Result ((Nat × MetaInfoFile) × Bytes) :=
  if token = .dictStart then do
    let (fields, input) ← readUntilEnd true parseFileField .empty input
    return ((state.1 + 1, state.2.addFile state.1 fields), input)
  else .error (custom "files list item must be a dictionary")

end FileList

section FileTree

def parseTreeProperty (properties : Nat × Bytes) (token : BencodeToken) (input : Bytes) :
    Result ((Nat × Bytes) × Bytes) :=
  match token with
  | .string key => do
      let (value, input) ← expectToken input
      if key = ascii "length" then
        match value with
        | .integer digits => return (((parseUnsigned u64Size digits).getD properties.1, properties.2), input)
        | _ => return (properties, input)
      else if key = ascii "pieces root" then
        match value with
        | .string root => return ((properties.1, root), input)
        | _ => return (properties, input)
      else do
        let input ← skipValue value input
        return (properties, input)
  | _ => .error (custom "File property key must be a string")

/-- One entry of a directory; an empty name holds the properties of a file. -/
def parseTreeEntry (parseDirectory : List Text → List TreeFile → Bytes → Result (List TreeFile × Bytes))
    (path : List Text) (files : List TreeFile) (token : BencodeToken) (input : Bytes) :
    Result (List TreeFile × Bytes) :=
  match token with
  | .string key => do
      let input ← expectStart .dictStart "File tree value must be a dictionary" input
      if key = [] then do
        let ((length, root), input) ← readUntilEnd true parseTreeProperty (0, []) input
        return (files ++ [(joinSlash path, length, root)], input)
      else
        match fromUtf8 key with
        | some segment => parseDirectory (path ++ [segment]) files input
        | none => .error (custom "Invalid UTF-8 directory segment")
  | _ => .error (custom "File tree key must be a string")

/-- The first argument bounds the nesting. -/
def parseFileTree : Nat → List Text → List TreeFile → Bytes → Result (List TreeFile × Bytes)
  | 0, _, _, _ => .error (.bencode .unexpectedEnd)
  | depth + 1, path, files, input =>
    readUntilEnd true (parseTreeEntry (parseFileTree depth) path) files input

def addTreeFile (file : MetaInfoFile) (entry : TreeFile × Nat) : MetaInfoFile :=
  let ((path, length, root), index) := entry
  (file.insertRoot path index root).insert (numeral index) (utf8 ('/' :: path ++ '\x00' :: numeral length))

end FileTree

section Info

def infoFields : List Bytes :=
  [ascii "name", ascii "piece length", ascii "meta version", ascii "private", ascii "pieces", ascii "length",
    ascii "md5sum"]

variable (file : MetaInfoFile)

def parseInfoEntry (token : BencodeToken) (input : Bytes) : Result (MetaInfoFile × Bytes) :=
  match token with
  | .string key =>
    if key ∈ infoFields then parseField "Expected length/md5sum as string or integer" file key input
    else if key = ascii "files" then do
      let input ← expectStart .listStart "files must be a list" input
      let ((_, file), input) ← readUntilEnd true parseFile (0, file) input
      return (file, input)
    else if key = ascii "file tree" then do
      let input ← expectStart .dictStart "file tree must be a dictionary" input
      let (files, input) ← parseFileTree (input.length + 1) [] [] input
      return (files.zipIdx.foldl addTreeFile file, input)
    else skipEntry file input
  | _ => .error (custom "info key is not a string")

def isV2 : Bool :=
  match file.get (text "meta version") with
  | some version => decide (trim (fromUtf8Lossy version) = text "2")
  | none => false

def isHybrid : Bool := file.isV2 && (file.get (text "pieces")).isSome

def addInfoHash (digests : Digests) (file : MetaInfoFile) (raw : Bytes) : MetaInfoFile :=
  let v1Hash := (digests.sha1 raw).toList
  let v2Hash := (digests.sha256 raw).toList
  if file.isHybrid then
    ((file.insert (text "v1 info hash") v1Hash).insert (text "v2 info hash") v2Hash).insert (text "info hash") v1Hash
  else if file.isV2 then
    (file.insert (text "v2 info hash") v2Hash).insert (text "info hash") v2Hash
  else (file.insert (text "v1 info hash") v1Hash).insert (text "info hash") v1Hash

/-- The bytes of the value are cut out first and then read again. -/
def parseInfo (digests : Digests) (file : MetaInfoFile) (input : Bytes) :
    Result (MetaInfoFile × Bytes) := do
  let (token, after) ← expectToken input
  let rest ← skipValue token after
  let raw := input.take (input.length - rest.length)
  let fields ← expectStart .dictStart "info must be a dictionary" raw
  let (file, _) ← readUntilEnd false parseInfoEntry file fields
  return (file.addInfoHash digests raw, rest)

end Info

section Root

def rootFields : List Bytes :=
  [ascii "announce", ascii "comment", ascii "created by", ascii "creation date"]

/-- A URL of a tier of `announce-list`. -/
def parseTierUrl (urls : List Text) (token : BencodeToken) (input : Bytes) :
    Result (List Text × Bytes) :=
  match token with
  | .string url => .ok (urls ++ [fromUtf8Lossy url], input)
  | _ => .error (custom "announce-list url is not a string")

def parseTier (urls : List Text) (token : BencodeToken) (input : Bytes) : Result (List Text × Bytes) :=
  if token = .listStart then readUntilEnd true parseTierUrl urls input
  else .error (custom "announce-list inner element is not a list")

def parseWebSeed (urls : List Text) (token : BencodeToken) (input : Bytes) :
    Result (List Text × Bytes) :=
  match token with
  | .string url => .ok (urls ++ [fromUtf8Lossy url], input)
  | _ => .ok (urls, input)

def joinUrls (urls : List Text) : Bytes := utf8 ([','].intercalate urls)

variable (file : MetaInfoFile)

def addPieceLayer (key layer : Bytes) : MetaInfoFile :=
  match toHash key with
  | some root => { file with pieceLayers := (root, Chunks.chunksExact 32 layer) :: file.pieceLayers }
  | none => file

theorem addPieceLayer_dict (key layer : Bytes) : (file.addPieceLayer key layer).metaInfoDict = file.metaInfoDict := by
  rw [addPieceLayer]
  split
  case h_1 => rfl
  case h_2 => rfl

/-- Stops without an error at the end of the input and at a key or a value that is no string. -/
def parsePieceLayers : Nat → MetaInfoFile → Bytes → Result (MetaInfoFile × Bytes)
  | 0, _, _ => .error (.bencode .unexpectedEnd)
  | rounds + 1, file, input =>
    match nextToken input with
    | none => .ok (file, [])
    | some (.error reason) => .error reason
    | some (.ok (.string key, input)) => do
        let (value, input) ← expectToken input
        match value with
        | .string layer => parsePieceLayers rounds (file.addPieceLayer key layer) input
        | _ => return (file, input)
    | some (.ok (_, input)) => .ok (file, input)

def parseRootEntry (digests : Digests) (file : MetaInfoFile) (token : BencodeToken) (input : Bytes) :
    Result (MetaInfoFile × Bytes) :=
  match token with
  | .string key =>
    if key ∈ rootFields then parseField "Expected string or integer value" file key input
    else if key = ascii "announce-list" then do
      let input ← expectStart .listStart "announce-list is not a list" input
      let (urls, input) ← readUntilEnd true parseTier [] input
      return (file.insert (text "announce-list") (joinUrls urls), input)
    else if key = ascii "url-list" then do
      let (value, input) ← expectToken input
      match value with
      | .string url => return (file.insert (text "url-list") url, input)
      | .listStart => do
          let (urls, input) ← readUntilEnd true parseWebSeed [] input
          return (file.insert (text "url-list") (joinUrls urls), input)
      | _ => .error (custom "url-list must be a string or list")
    else if key = ascii "piece layers" then do
      let (value, input) ← expectToken input
      if value = .dictStart then parsePieceLayers (input.length + 1) file input
      else return (file, input)
    else if key = ascii "info" then file.parseInfo digests input
    else skipEntry file input
  | _ => .error (custom "Torrent root key is not a string")

section Branches

variable {digests : Digests} {file : MetaInfoFile} {input : Bytes}

theorem parseRootEntry_tiers : parseRootEntry digests file (.string (ascii "announce-list")) input = (do
    let input ← expectStart .listStart "announce-list is not a list" input
    let (urls, input) ← readUntilEnd true parseTier [] input
    return (file.insert (text "announce-list") (joinUrls urls), input)) := by
  rw [parseRootEntry, if_neg (by decide), if_pos rfl]

theorem parseRootEntry_urls : parseRootEntry digests file (.string (ascii "url-list")) input = (do
    let (value, input) ← expectToken input
    match value with
    | .string url => return (file.insert (text "url-list") url, input)
    | .listStart => do
        let (urls, input) ← readUntilEnd true parseWebSeed [] input
        return (file.insert (text "url-list") (joinUrls urls), input)
    | _ => .error (custom "url-list must be a string or list")) := by
  rw [parseRootEntry, if_neg (by decide), if_neg (by decide), if_pos rfl]

theorem parseRootEntry_layers : parseRootEntry digests file (.string (ascii "piece layers")) input = (do
    let (value, input) ← expectToken input
    if value = .dictStart then parsePieceLayers (input.length + 1) file input else return (file, input)) := by
  rw [parseRootEntry, if_neg (by decide), if_neg (by decide), if_neg (by decide), if_pos rfl]

theorem parseRootEntry_info :
    parseRootEntry digests file (.string (ascii "info")) input = file.parseInfo digests input := by
  rw [parseRootEntry, if_neg (by decide), if_neg (by decide), if_neg (by decide), if_neg (by decide), if_pos rfl]

end Branches

def require (key field : String) : Result Unit :=
  if (file.get (text key)).isSome then .ok () else .error (.missingField field)

def checkFields : Result Unit := do
  file.require "announce" "announce"
  file.require "name" "name"
  file.require "piece length" "piece length"
  if !file.isV2 then file.require "pieces" "pieces"
  file.require "info hash" "info"

def parse (digests : Digests) (file : MetaInfoFile) : Result MetaInfoFile :=
  match nextToken file.metaInfoData with
  | none => .error (custom "Torrent file root is empty")
  | some (.error reason) => .error reason
  | some (.ok (token, input)) =>
    if token = .dictStart then do
      let (file, _) ← readUntilEnd false (parseRootEntry digests) file input
      file.checkFields
      return { file with parsed := true }
    else .error (custom "Torrent file root is not a dictionary")

theorem parse_exists {digests : Digests} {file read : MetaInfoFile} (ran : parse digests file = .ok read) :
    ∃ input final left, nextToken file.metaInfoData = some (.ok (.dictStart, input)) ∧
      readUntilEnd false (parseRootEntry digests) file input = .ok (final, left) ∧
      read = { final with parsed := true } := by
  rw [parse] at ran
  split at ran
  case h_1 => cases ran
  case h_2 => cases ran
  case h_3 token input found =>
    split at ran
    case isTrue starts =>
      obtain ⟨⟨final, left⟩, loop, ran⟩ := bind_eq_ok.mp ran
      obtain ⟨_, _, ran⟩ := bind_eq_ok.mp ran
      cases ran
      exact ⟨input, final, left, starts ▸ found, loop, rfl⟩
    case isFalse => cases ran

theorem parse_parsed {digests : Digests} {file read : MetaInfoFile} (ran : parse digests file = .ok read) :
    read.parsed = true := by
  obtain ⟨_, _, _, -, -, rfl⟩ := parse_exists ran
  rfl

end Root

section Getters

variable (file : MetaInfoFile)

def requireParsed : Result Unit :=
  if file.parsed then .ok () else .error (.notParsed "File has not been parsed.")

def field (name : String) : Result Bytes :=
  match file.get (text name) with
  | some value => .ok value
  | none => .error (.missingField name)

def getInfoHash : Result Bytes := do
  file.requireParsed
  file.field "info hash"

/-- A hash of the `info` dictionary that must have the length of its kind. -/
def hashField (name : String) (length : Nat) (wrongLength : String) : Result Bytes := do
  file.requireParsed
  let bytes ← file.field name
  if bytes.length = length then return bytes else .error (.parse wrongLength)

def getV1InfoHash : Result Bytes := file.hashField "v1 info hash" 20 "Invalid v1 info hash length"

def getV2InfoHash : Result Bytes := file.hashField "v2 info hash" 32 "Invalid v2 info hash length"

def getPieceLength : Result Nat := do
  file.requireParsed
  let value ← file.field "piece length"
  parseNumber u32Size (utf8 (fromUtf8Lossy value))

def getPiecesInfoHash : Result Bytes := do
  file.requireParsed
  file.field "pieces"

def getTracker : Result Text := do
  file.requireParsed
  let announce ← file.field "announce"
  return fromUtf8Lossy announce

def getName : Result Text := do
  file.requireParsed
  let name ← file.field "name"
  return fromUtf8Lossy name

def getComment : Option Text := (file.get (text "comment")).map fromUtf8Lossy

/-- Whether the torrent is marked as private (BEP 27). -/
def isPrivate : Bool :=
  match file.get (text "private") with
  | some value => decide (trim (fromUtf8Lossy value) = text "1")
  | none => false

/-- The tiers are read back from the text in which they were joined. -/
def getTrackerUrls : Result (List Text) := do
  file.requireParsed
  let announce ← file.field "announce"
  match file.get (text "announce-list") with
  | none => return [fromUtf8Lossy announce]
  | some urls =>
    return ((fromUtf8Lossy urls).splitOn ',').foldl (fun urls entry =>
      if trim entry = [] ∨ trim entry ∈ urls then urls else urls ++ [trim entry]) [fromUtf8Lossy announce]

def getWebSeeds : List Text :=
  match file.get (text "url-list") with
  | none => []
  | some urls => (((fromUtf8Lossy urls).splitOn ',').map trim).filter (· ≠ [])

end Getters

end MetaInfoFile

/-- Whether a file pads the v1 pieces of a hybrid torrent. -/
def FileDetails.isPadFile (details : FileDetails UInt8) : Bool :=
  decide (text "/.pad/" <:+: details.torrentPath.toList) || (text ".pad/").isPrefixOf details.torrentPath.toList

section Paths

/-- Upper case, up to the first dot.  The upper case of a letter outside ASCII never spells a
reserved name. -/
def deviceStem (segment : Text) : Text := (segment.map Char.toUpper).takeWhile (· ≠ '.')

def isReservedName (segment : Text) : Bool :=
  let stem := deviceStem segment
  decide (stem ∈ [text "CON", text "PRN", text "AUX", text "NUL"]) ||
    (decide (stem.take 3 ∈ [text "COM", text "LPT"]) && decide (stem.length = 4) &&
      (stem[3]?).any fun digit => decide ('1' ≤ digit ∧ digit ≤ '9'))

def validateSegment (segment : Text) : Result Unit :=
  if segment = [] then .error (.parse "Torrent file path contains an empty path segment.")
  else if segment = text "." ∨ segment = text ".." then
    .error (.parse "Torrent file path contains invalid relative segments.")
  else if isReservedName segment then
    .error (.parse ("Path contains reserved Windows device name: " ++ String.ofList segment))
  else .ok ()

def validateRelativePath (path : Text) : Result Unit :=
  if path = [] then .error (.parse "Torrent file path cannot be empty.")
  else if '\x00' ∈ path then .error (.parse "Torrent file path cannot contain null bytes.")
  else if path.head? = some '/' ∨ path.head? = some '\\' then
    .error (.parse "Torrent file paths must be relative.")
  else if ':' ∈ path then .error (.parse "Torrent file path contains invalid colon characters.")
  else (path.splitOnP fun letter => letter = '/' ∨ letter = '\\').forM validateSegment

/-- `Path::join`. -/
def joinPath (base path : Bytes) : Bytes :=
  if path.head? = some 47 then path
  else if base = [] ∨ base.getLast? = some 47 then base ++ path
  else base ++ 47 :: path

/-- The components of a path; a leading slash is one of them. -/
def pathComponents (path : Bytes) : List Bytes :=
  let parts := path.splitOn 47
  let lead := if path.head? = some 47 then [ascii "/"] else if parts.head? = some (ascii ".") then [ascii "."] else []
  lead ++ parts.filter fun part => part ≠ [] ∧ part ≠ ascii "."

/-- `Path::starts_with`. -/
def pathStartsWith (path base : Bytes) : Bool := (pathComponents base).isPrefixOf (pathComponents path)

end Paths

namespace MetaInfoFile

variable (file : MetaInfoFile)

/-- The first key that is there, if its value is a hash. -/
def lookupRoot (keys : List Text) : Option (Hash UInt8) := (keys.findSome? file.get).bind toHash

def singleFile (canonicalDownload : Bytes) : Result (Nat × Files) := do
  let nameBytes ← file.field "name"
  let lengthBytes ← file.field "length"
  let name := fromUtf8Lossy nameBytes
  validateRelativePath name
  let length ← parseNumber u64Size (utf8 (fromUtf8Lossy lengthBytes))
  let filePath := joinPath canonicalDownload (utf8 name)
  if pathStartsWith filePath canonicalDownload then
    return (length, [{
      name := String.ofList (fromUtf8Lossy filePath)
      torrentPath := String.ofList (forwardSlashes name)
      length
      md5sum := (file.get (text "md5sum")).map fun sum => String.ofList (fromUtf8Lossy sum)
      offset := 0
      piecesRoot := file.lookupRoot [text "pieces root", rootPathKey name, text "pieces_root_0"] }])
  else .error (.parse "Path traversal detected: file path is outside the download directory.")

/-- The entry under one number, at an offset in the stream. -/
def listedFile (rootName : Text) (directory : Bytes) (entry : Text) (fileNo offset : Nat) :
    Result (FileDetails UInt8) := do
  let parts := entry.splitOn '\x00'
  let trimmedPath := (parts[0]?.getD []).dropWhile fun letter => letter = '/' ∨ letter = '\\'
  validateRelativePath trimmedPath
  let filePath := joinPath directory (utf8 trimmedPath)
  if pathStartsWith filePath directory then do
    let length ← parseNumber u64Size (utf8 (parts[1]?.getD (text "0")))
    let md5sum := parts[2]?.getD []
    return {
      name := String.ofList (fromUtf8Lossy filePath)
      torrentPath := String.ofList (forwardSlashes rootName ++ '/' :: forwardSlashes trimmedPath)
      length
      md5sum := if md5sum = [] then none else some (String.ofList md5sum)
      offset
      piecesRoot := file.lookupRoot [rootPathKey trimmedPath, rootKey fileNo] }
  else .error (.parse "Path traversal detected: file path is outside the torrent root directory.")

/-- The loop over the numbered entries from `fileNo` on; the entries are fewer than the rounds. -/
def listedFiles (rootName : Text) (directory : Bytes) :
    Nat → Nat → Nat → Result (Nat × Files)
  | 0, _, totalBytes => .ok (totalBytes, [])
  | rounds + 1, fileNo, totalBytes =>
    match file.get (numeral fileNo) with
    | none => .ok (totalBytes, [])
    | some entry => do
        let details ← file.listedFile rootName directory (fromUtf8Lossy entry) fileNo totalBytes
        let (totalBytes, rest) ← listedFiles rootName directory rounds (fileNo + 1)
          ((totalBytes + details.length) % u64Size)
        return (totalBytes, details :: rest)

def localFilesToDownloadList (canonicalDownload : Bytes) : Result (Nat × Files) := do
  file.requireParsed
  if (file.get (text "0")).isNone then file.singleFile canonicalDownload
  else do
    let nameBytes ← file.field "name"
    let rootName := fromUtf8Lossy nameBytes
    validateRelativePath rootName
    let directory := joinPath canonicalDownload (utf8 rootName)
    if pathStartsWith directory canonicalDownload then
      file.listedFiles rootName directory (file.metaInfoDict.length + 1) 0 0
    else .error (.parse "Path traversal detected: root directory is outside the download directory.")

section Inversion

variable {file} {canonicalDownload : Bytes} {total : Nat} {files : Files}
  {details : FileDetails UInt8}

theorem field_eq_ok {name : String} {value : Bytes} : file.field name = .ok value ↔ file.get (text name) = some value := by
  rw [field]
  cases file.get (text name) with
  | none => simp
  | some found => simp

theorem singleFile_inv (listed : file.singleFile canonicalDownload = .ok (total, files)) :
    ∃ name length details, file.get (text "name") = some name ∧ file.get (text "length") = some length ∧
      validateRelativePath (fromUtf8Lossy name) = .ok () ∧
      parseUnsigned u64Size (utf8 (fromUtf8Lossy length)) = some total ∧ files = [details] ∧
      details.torrentPath = String.ofList (forwardSlashes (fromUtf8Lossy name)) ∧
      details.name = String.ofList (fromUtf8Lossy (joinPath canonicalDownload (utf8 (fromUtf8Lossy name)))) ∧
      details.length = total ∧ details.offset = 0 ∧
      details.piecesRoot =
        file.lookupRoot [text "pieces root", rootPathKey (fromUtf8Lossy name), text "pieces_root_0"] := by
  rw [singleFile, bind_eq_ok] at listed
  obtain ⟨name, named, listed⟩ := listed
  rw [bind_eq_ok] at listed
  obtain ⟨length, sized, listed⟩ := listed
  dsimp only at listed
  rw [bind_eq_ok] at listed
  obtain ⟨_, valid, listed⟩ := listed
  rw [bind_eq_ok] at listed
  obtain ⟨size, parsed, listed⟩ := listed
  split at listed
  case isTrue =>
    cases listed
    exact ⟨name, length, _, field_eq_ok.mp named, field_eq_ok.mp sized, valid, parseNumber_eq_ok.mp parsed, rfl, rfl, rfl,
      rfl, rfl, rfl⟩
  case isFalse => cases listed

theorem listedFile_inv {entry : Text} {rootName : Text} {directory : Bytes} {fileNo offset : Nat}
    (listed : file.listedFile rootName directory entry fileNo offset = .ok details) :
    ∃ path, path = ((entry.splitOn '\x00')[0]?.getD []).dropWhile (fun letter => decide (letter = '/' ∨ letter = '\\')) ∧
      validateRelativePath path = .ok () ∧
      details.torrentPath = String.ofList (forwardSlashes (rootName ++ '/' :: path)) ∧
      details.name = String.ofList (fromUtf8Lossy (joinPath directory (utf8 path))) ∧
      parseUnsigned u64Size (utf8 ((entry.splitOn '\x00')[1]?.getD (text "0"))) = some details.length ∧
      details.offset = offset ∧ details.piecesRoot = file.lookupRoot [rootPathKey path, rootKey fileNo] := by
  rw [listedFile, bind_eq_ok] at listed
  obtain ⟨_, valid, listed⟩ := listed
  dsimp only at listed
  split at listed
  case isTrue =>
    rw [bind_eq_ok] at listed
    obtain ⟨length, parsed, listed⟩ := listed
    cases listed
    refine ⟨_, rfl, valid, ?_, rfl, parseNumber_eq_ok.mp parsed, rfl, rfl⟩
    rw [forwardSlashes_append]
    rfl
  case isFalse => cases listed

/-- A single file, or a list of files below the directory of the torrent. -/
theorem localFilesToDownloadList_eq_ok (listed : file.localFilesToDownloadList canonicalDownload = .ok (total, files)) :
    file.get (text "0") = none ∧ file.singleFile canonicalDownload = .ok (total, files) ∨
      ∃ name, (file.get (text "0")).isSome ∧ file.get (text "name") = some name ∧
        validateRelativePath (fromUtf8Lossy name) = .ok () ∧
        file.listedFiles (fromUtf8Lossy name) (joinPath canonicalDownload (utf8 (fromUtf8Lossy name)))
          (file.metaInfoDict.length + 1) 0 0 = .ok (total, files) := by
  rw [localFilesToDownloadList, bind_eq_ok] at listed
  obtain ⟨_, _, listed⟩ := listed
  split at listed
  case isTrue absent => exact .inl ⟨Option.isNone_iff_eq_none.mp absent, listed⟩
  case isFalse present =>
    rw [bind_eq_ok] at listed
    obtain ⟨name, known, listed⟩ := listed
    dsimp only at listed
    rw [bind_eq_ok] at listed
    obtain ⟨_, valid, listed⟩ := listed
    split at listed
    case isTrue => exact .inr ⟨name, by simpa [Option.isSome_iff_ne_none] using present, field_eq_ok.mp known, valid, listed⟩
    case isFalse => cases listed

/-- The texts of the numbered entries from `fileNo` on. -/
def entriesFrom (file : MetaInfoFile) : Nat → Nat → List Text
  | 0, _ => []
  | rounds + 1, fileNo =>
    match file.get (numeral fileNo) with
    | none => []
    | some entry => fromUtf8Lossy entry :: entriesFrom file rounds (fileNo + 1)

/-- The run over the numbered entries from a number and an offset on. -/
inductive Listed (file : MetaInfoFile) (rootName : Text) (directory : Bytes) :
    Nat → Nat → List Text → Nat → Files → Prop
  | nil (fileNo offset : Nat) : Listed file rootName directory fileNo offset [] offset []
  | cons {fileNo offset total : Nat} {entry : Text} {entries : List Text} {details : FileDetails UInt8}
      {files : Files}
      (first : file.listedFile rootName directory entry fileNo offset = .ok details)
      (rest : Listed file rootName directory (fileNo + 1) ((offset + details.length) % u64Size) entries total files) :
      Listed file rootName directory fileNo offset (entry :: entries) total (details :: files)

section Runs

variable {rootName : Text} {directory : Bytes} {fileNo offset rounds : Nat} {entries : List Text}

theorem listed_of_listedFiles (done : file.listedFiles rootName directory rounds fileNo offset = .ok (total, files)) :
    Listed file rootName directory fileNo offset (file.entriesFrom rounds fileNo) total files := by
  induction rounds generalizing fileNo offset total files with
  | zero =>
    cases done
    exact .nil _ _
  | succ rounds ih =>
    rw [listedFiles] at done
    rw [entriesFrom]
    cases known : file.get (numeral fileNo) with
    | none =>
      rw [known] at done
      cases done
      exact .nil _ _
    | some entry =>
      rw [known] at done
      obtain ⟨details, first, done⟩ := bind_eq_ok.mp done
      obtain ⟨⟨sum, rest⟩, later, done⟩ := bind_eq_ok.mp done
      cases done
      exact .cons first (ih later)

section

variable (run : Listed file rootName directory fileNo offset entries total files)
include run

theorem Listed.of_mem (member : details ∈ files) :
    ∃ entry fileNo offset, file.listedFile rootName directory entry fileNo offset = .ok details := by
  induction run with
  | nil => cases member
  | cons first _ ih =>
    rcases mem_cons.mp member with rfl | later
    · exact ⟨_, _, _, first⟩
    · exact ih later

theorem Listed.map_eq {γ : Type} {ofEntry : Text → γ} {ofFile : FileDetails UInt8 → γ}
    (same : ∀ entry fileNo offset details, file.listedFile rootName directory entry fileNo offset = .ok details →
      ofFile details = ofEntry entry) : files.map ofFile = entries.map ofEntry := by
  induction run with
  | nil => rfl
  | cons first _ ih => rw [map_cons, map_cons, same _ _ _ _ first, ih]

end

theorem found_succ {entry : Text}
    (found : ∀ index, file.get (numeral (fileNo + index)) = (entry :: entries)[index]?.map utf8) (index : Nat) :
    file.get (numeral (fileNo + 1 + index)) = entries[index]?.map utf8 := by
  have next := found (index + 1)
  rw [getElem?_cons_succ] at next
  rw [← next, Nat.add_assoc, Nat.add_comm 1]

theorem entriesFrom_eq (found : ∀ index, file.get (numeral (fileNo + index)) = entries[index]?.map utf8)
    (enough : entries.length < rounds) : file.entriesFrom rounds fileNo = entries := by
  obtain ⟨more, rfl⟩ := Nat.exists_eq_add_of_lt enough
  have first := found 0
  induction entries generalizing more fileNo with
  | nil =>
    rw [Nat.add_zero, getElem?_nil, Option.map_none] at first
    rw [entriesFrom, first]
  | cons entry entries ih =>
    rw [Nat.add_zero, getElem?_cons_zero, Option.map_some] at first
    have rest := ih (found_succ found) more (by omega) (found_succ found 0)
    rw [entriesFrom, first, length_cons, Nat.add_right_comm _ 1 more]
    dsimp only
    rw [fromUtf8Lossy_utf8, rest]

end Runs

end Inversion

/-- The sum over the numbered entries from `fileNo` on. -/
def listedSize : Nat → Nat → Nat → Nat
  | 0, _, total => total
  | rounds + 1, fileNo, total =>
    match file.get (numeral fileNo) with
    | none => total
    | some entry =>
      let length := (((fromUtf8Lossy entry).splitOn '\x00')[1]?).bind fun value => parseUnsigned u64Size (utf8 value)
      listedSize rounds (fileNo + 1) ((total + length.getD 0) % u64Size)

def getTotalSize : Result Nat := do
  file.requireParsed
  if (file.get (text "0")).isNone then do
    let lengthBytes ← file.field "length"
    parseNumber u64Size (utf8 (fromUtf8Lossy lengthBytes))
  else return file.listedSize (file.metaInfoDict.length + 1) 0 0

section Validation

/-- The check of the piece hashes, of which a v2 torrent need not have any. -/
def validatePieces : Result Unit :=
  if file.isV2 then .ok ()
  else do
    let pieces ← file.getPiecesInfoHash
    if pieces = [] ∨ pieces.length % hashLength ≠ 0 then .error (.parse "Invalid torrent pieces hash length.")
    else .ok ()

/-- `parseUrl` is `Url::parse`, with the text of its error. -/
def validateTracker (parseUrl : UrlParser) : Result Unit := do
  let tracker ← file.getTracker
  if tracker = [] then .ok ()
  else
    match parseUrl tracker with
    | .ok () => .ok ()
    | .error reason => .error (.parse reason)

/-- `currentDirectory` is the canonical path of the directory in which the program runs. -/
def validate (parseUrl : UrlParser) (currentDirectory : Bytes) : Result Unit := do
  file.requireParsed
  let pieceLength ← file.getPieceLength
  if pieceLength = 0 then .error (.parse "Torrent piece length must be greater than zero.")
  else do
    file.validatePieces
    file.validateTracker parseUrl
    let (_, files) ← file.localFilesToDownloadList currentDirectory
    if files = [] then .error (.parse "Torrent contains no file entries.") else .ok ()

end Validation

end MetaInfoFile

end BitTorrent
