import BitTorrent.Core.RootRun

/-! # The info hash

How the parser of torrent files goes through the root dictionary, and which bytes it hashes.  Two
of its branches take the first token of a nested value and then read on inside that value.
-/

namespace BitTorrent

open Bencode BNode List Option

/-- The keys under which the parser keeps the fields of the root. -/
def rootNames : List Text :=
  [text "announce", text "comment", text "created by", text "creation date", text "announce-list", text "url-list"]

namespace MetaInfoFile

variable {digests : Digests} {file file' next : MetaInfoFile} {depth : Nat} {rest rest' : Bytes}
  {name : Text} {key : Bytes}

section Root

theorem lossy_rootField (known : key ∈ rootFields) :
    fromUtf8Lossy key ∈ rootNames ∧ utf8 (fromUtf8Lossy key) = key := by
  simp only [rootFields, mem_cons, not_mem_nil, or_false] at known
  rcases known with rfl | rfl | rfl | rfl
  all_goals
    rw [fromUtf8Lossy_ascii (by decide)]
    decide

theorem get_insert_rootName {key : Text} {bytes : Bytes} (known : key ∈ rootNames) (other : name ∉ rootNames) :
    (file.insert key bytes).get name = file.get name :=
  get_insert_of_ne fun same => other (same ▸ known)

/-- What the parser keeps of a value of the root. -/
def keptValue (key : Bytes) (value : BNode) : Option Bytes :=
  if key ∈ rootFields then value.scalarBytes
  else if key = ascii "announce-list" then (tiers value).map joinUrls
  else webSeeds value

theorem get_foldl_addLayer (name : Text) (layers : Entries) :
    (layers.foldl addLayer file).get name = file.get name := by
  induction layers generalizing file with
  | nil => rfl
  | cons layer layers ih =>
    rw [foldl_cons, ih, get, addLayer, addPieceLayer_dict]
    rfl

/-- What an entry of the root can do: set its own field, leave all fields as they are, or read `info`. -/
inductive RootStep (digests : Digests) (file next : MetaInfoFile) (key : Bytes) (value : BNode) : Prop
  | field (name : Text) (bytes : Bytes) (known : name ∈ rootNames) (own : utf8 name = key)
      (kept : keptValue key value = some bytes) (set : next = file.insert name bytes)
  | other (notInfo : key ≠ ascii "info") (unkept : ∀ name ∈ rootNames, utf8 name ≠ key)
      (same : ∀ name, next.get name = file.get name)
  | info (input raw left : Bytes) (read : MetaInfoFile) (isInfo : key = ascii "info")
      (loop : readUntilEnd false parseInfoEntry file input = .ok (read, left)) (set : next = read.addInfoHash digests raw)

theorem rootEffect_step {entry : Bytes × BNode} (found : rootEffect digests file entry = some next) :
    RootStep digests file next entry.1 entry.2 ∧ (readsWhole entry = true → entry.2.fits = true) := by
  obtain ⟨key, value⟩ := entry
  rw [rootEffect] at found
  dsimp only at found ⊢
  by_cases isField : key ∈ rootFields
  · rw [if_pos isField, ite_none_right_eq_some, map_eq_some_iff] at found
    obtain ⟨fits, bytes, scalar, rfl⟩ := found
    refine ⟨.field _ bytes (lossy_rootField isField).1 (lossy_rootField isField).2 ?_ rfl, fun _ => fits⟩
    rw [keptValue, if_pos isField, scalar]
  rw [if_neg isField] at found
  by_cases isTiers : key = ascii "announce-list"
  · rw [if_pos isTiers, map_eq_some_iff] at found
    obtain ⟨urls, list, rfl⟩ := found
    refine ⟨.field (text "announce-list") (joinUrls urls) (by decide) isTiers.symm ?_ rfl, fun _ => fits_of_tiers list⟩
    rw [keptValue, if_neg isField, if_pos isTiers, list, map_some]
  rw [if_neg isTiers] at found
  by_cases isSeeds : key = ascii "url-list"
  · rw [if_pos isSeeds, map_eq_some_iff] at found
    obtain ⟨urls, list, rfl⟩ := found
    refine ⟨.field (text "url-list") urls (by decide) isSeeds.symm ?_ rfl, fun whole => fits_of_webSeeds (isSeeds ▸ whole) list⟩
    rw [keptValue, if_neg isField, if_neg isTiers, list]
  rw [if_neg isSeeds] at found
  have unkept : ∀ name ∈ rootNames, utf8 name ≠ key := by
    have kinds : ∀ name ∈ rootNames, utf8 name ∈ rootFields ∨ utf8 name = ascii "announce-list" ∨
        utf8 name = ascii "url-list" := by decide
    intro name known same
    rcases kinds name known with one | one | one
    · exact isField (same ▸ one)
    · exact isTiers (same ▸ one)
    · exact isSeeds (same ▸ one)
  by_cases isLayers : key = ascii "piece layers"
  · rw [if_pos isLayers, ite_none_right_eq_some] at found
    obtain ⟨fits, ⟨⟩⟩ := found
    refine ⟨.other ?_ unkept fun name => get_foldl_addLayer name _, fun _ => fits⟩
    rw [isLayers]
    decide
  rw [if_neg isLayers] at found
  by_cases isInfo : key = ascii "info"
  · rw [if_pos isInfo] at found
    cases value with
    | list items => cases found
    | number digits => cases found
    | string bytes => cases found
    | dictionary info =>
      rw [ite_none_right_eq_some, map_eq_some_iff] at found
      obtain ⟨fits, ⟨read, left⟩, done, rfl⟩ := found
      exact ⟨.info _ _ left read isInfo (toOption_eq_some.mp done) rfl, fun _ => fits⟩
  · rw [if_neg isInfo, ite_none_right_eq_some] at found
    obtain ⟨fits, ⟨⟩⟩ := found
    exact ⟨.other isInfo unkept fun _ => rfl, fun _ => fits⟩

theorem fits_of_parse {entries : Entries} (delimited : ∀ entry ∈ entries, Delimited entry.2)
    (whole : ∀ entry ∈ entries, readsWhole entry = true)
    (parsed : parse digests (.fromBytes (spell (.dictionary entries) ++ rest)) = .ok file) :
    (dictionary entries).fits = true := by
  obtain ⟨last, run, _⟩ := run_of_parse delimited whole parsed
  rw [fits_dictionary, List.all_eq_true]
  intro entry member
  obtain ⟨before, after, step⟩ := foldlM_each run entry member
  obtain ⟨short, step⟩ := ite_none_right_eq_some.mp step
  have good := (rootEffect_step step).2 (whole entry member)
  rw [pairFits, Bool.and_eq_true, decide_eq_true_eq]
  exact ⟨short, good⟩

theorem run_other {entries : Entries} (notRoot : name ∉ rootNames)
    (once : ∀ entry ∈ entries, entry.1 ≠ ascii "info")
    (run : entries.foldlM (keyed (rootEffect digests)) file = some next) : next.get name = file.get name := by
  induction entries generalizing file with
  | nil =>
    cases run
    rfl
  | cons entry entries ih =>
    rw [foldlM_cons, bind_eq_bind, bind_eq_some_iff] at run
    obtain ⟨middle, first, rest⟩ := run
    rw [ih (fun other member => once other (mem_cons_of_mem _ member)) rest]
    cases (rootEffect_step (ite_none_right_eq_some.mp first).2).1 with
    | field own bytes known _ _ set =>
      rw [set]
      exact get_insert_rootName known notRoot
    | other _ _ same => exact same name
    | info _ _ _ _ isInfo _ _ => exact absurd isInfo (once entry mem_cons_self)

/-- The fields of a file that come from its `info`, and not from the other values of the root. -/
def ReadsInfo (digests : Digests) (file : MetaInfoFile) (info : Entries) : Prop :=
  ∃ start read left, (∀ name, name ∉ rootNames → start.get name = none) ∧
    readUntilEnd false parseInfoEntry start (info.flatMap spellPair ++ [101]) = .ok (read, left) ∧
    ∀ name, name ∉ rootNames → file.get name = (read.addInfoHash digests (spell (.dictionary info))).get name

variable {before after info : Entries}

theorem run_reads {bytes : Bytes} (once : ∀ entry ∈ before ++ after, entry.1 ≠ ascii "info")
    (run : (before ++ (ascii "info", .dictionary info) :: after).foldlM (keyed (rootEffect digests)) (.fromBytes bytes) =
      some file) : ReadsInfo digests file info := by
  rw [foldlM_append, bind_eq_bind, bind_eq_some_iff] at run
  obtain ⟨start, first, run⟩ := run
  rw [foldlM_cons, bind_eq_bind, bind_eq_some_iff] at run
  obtain ⟨middle, shown, last⟩ := run
  have shown := (ite_none_right_eq_some.mp shown).2
  rw [rootEffect_info_branch, ite_none_right_eq_some, map_eq_some_iff] at shown
  obtain ⟨_, ⟨read, left⟩, loop, rfl⟩ := shown
  refine ⟨start, read, left, ?_, toOption_eq_some.mp loop, ?_⟩
  · intro name notRoot
    rw [run_other notRoot (fun entry member => once entry (mem_append_left _ member)) first]
    rfl
  · intro name notRoot
    exact run_other notRoot (fun entry member => once entry (mem_append_right _ member)) last

/-- How the parser goes through a root dictionary with one `info` whose other values it reads whole. -/
theorem parse_reads_spell
    (proper : Proper (depth + 1) (.dictionary (before ++ (ascii "info", .dictionary info) :: after)))
    (once : ∀ entry ∈ before ++ after, entry.1 ≠ ascii "info")
    (whole : ∀ entry ∈ before ++ after, readsWhole entry = true) (parsed : parse digests
      (.fromBytes (spell (.dictionary (before ++ (ascii "info", .dictionary info) :: after)) ++ rest)) = .ok file) :
    ReadsInfo digests file info := by
  have each : ∀ entry ∈ before ++ (ascii "info", .dictionary info) :: after, readsWhole entry = true := by
    intro entry member
    rcases mem_append.mp member with front | back
    · exact whole entry (mem_append_left _ front)
    · rcases mem_cons.mp back with rfl | back
      · exact readsWhole_of_ne _ (by decide) (by decide)
      · exact whole entry (mem_append_right _ back)
  obtain ⟨last, run, rfl⟩ := run_of_parse (fun entry member => delimited_of_proper (proper entry member).2) each parsed
  have reads : ReadsInfo digests last info := run_reads once run
  exact reads

end Root

section Hashes

def hashNames : List Text := [text "info hash", text "v1 info hash", text "v2 info hash"]

theorem get_addInfoHash_other (raw : Bytes) (notHash : name ∉ hashNames) :
    (file.addInfoHash digests raw).get name = file.get name := by
  have apart : ∀ hash ∈ hashNames, name ≠ hash := fun hash isHash same => notHash (same ▸ isHash)
  exact get_addInfoHash raw (apart _ (by decide)) (apart _ (by decide)) (apart _ (by decide))

/-- All hashes of `info` are those of `raw`. -/
structure HashesOf (digests : Digests) (file : MetaInfoFile) (raw : Bytes) : Prop where
  infoHash : file.get (text "info hash") =
    some (if file.isV2 && !file.isHybrid then (digests.sha256 raw).toList else (digests.sha1 raw).toList)
  v1 : ∀ hash, file.get (text "v1 info hash") = some hash → hash = (digests.sha1 raw).toList
  v2 : ∀ hash, file.get (text "v2 info hash") = some hash → hash = (digests.sha256 raw).toList

def Unhashed (file : MetaInfoFile) : Prop := ∀ key ∈ hashNames, file.get key = none

theorem addFile_eq (file : MetaInfoFile) (fileNo : Nat) (fields : FileFields) :
    file.addFile fileNo fields =
      file.addRecord (⟨joinSlash fields.pathSegments, fields.piecesRoot, fields.entry⟩, fileNo) := rfl

variable {token : BencodeToken} {input : Bytes}

theorem parseFile_get {key : Text} {state state' : Nat × MetaInfoFile}
    (other : ¬FileKey key) (ran : parseFile state token input = .ok (state', rest')) :
    state'.2.get key = state.2.get key := by
  rw [parseFile] at ran
  split at ran
  case isTrue =>
    obtain ⟨⟨fields, left⟩, _, ran⟩ := bind_eq_ok.mp ran
    cases ran
    rw [addFile_eq]
    exact get_addRecord_other other
  case isFalse => cases ran

/-- What an entry of `info` can do, whatever its type: keep a token under its own key, or set keys of files. -/
inductive InfoStep (file file' : MetaInfoFile) : Prop
  | field (key value : Bytes) (token : BencodeToken) (input after : Bytes) (known : key ∈ infoFields)
      (read : expectToken input = .ok (token, after))
      (scalar : stringOrInteger "Expected length/md5sum as string or integer" token = .ok value)
      (set : file' = file.insert (fromUtf8Lossy key) value)
  | other (same : ∀ name, ¬FileKey name → file'.get name = file.get name)

theorem parseInfoEntry_step (ran : parseInfoEntry file token input = .ok (file', rest')) : InfoStep file file' := by
  unfold parseInfoEntry at ran
  split at ran
  case h_1 field =>
    split at ran
    case isTrue known =>
      obtain ⟨⟨token, after⟩, read, ran⟩ := bind_eq_ok.mp ran
      obtain ⟨bytes, scalar, ran⟩ := bind_eq_ok.mp ran
      cases ran
      exact .field field bytes token input _ known read scalar rfl
    case isFalse =>
      refine .other fun name other => ?_
      split at ran
      case isTrue =>
        obtain ⟨_, _, ran⟩ := bind_eq_ok.mp ran
        obtain ⟨⟨⟨count, read⟩, left⟩, loop, ran⟩ := bind_eq_ok.mp ran
        cases ran
        exact untilEnd_keeps (fun state : Nat × MetaInfoFile => state.2.get name = file.get name)
          (fun _ _ _ _ _ same ran => (parseFile_get other ran).trans same) rfl loop
      case isFalse =>
        split at ran
        case isTrue =>
          obtain ⟨_, _, ran⟩ := bind_eq_ok.mp ran
          obtain ⟨⟨leaves, left⟩, _, ran⟩ := bind_eq_ok.mp ran
          cases ran
          rw [foldl_addTreeFile]
          exact get_addRecords_other other
        case isFalse =>
          obtain ⟨_, _, ran⟩ := bind_eq_ok.mp ran
          obtain ⟨_, _, ran⟩ := bind_eq_ok.mp ran
          cases ran
          rfl
  case h_2 => cases ran

theorem parseInfoEntry_get {key : Text} (other : ¬FileKey key)
    (unread : ∀ field ∈ infoFields, key ≠ fromUtf8Lossy field)
    (ran : parseInfoEntry file token input = .ok (file', rest')) : file'.get key = file.get key := by
  cases parseInfoEntry_step ran with
  | field own value _ _ _ known _ _ set =>
    rw [set]
    exact get_insert_of_ne (unread own known)
  | other same => exact same key other

theorem isUtf8_infoField (known : key ∈ infoFields) : utf8 (fromUtf8Lossy key) = key := by
  simp only [infoFields, mem_cons, not_mem_nil, or_false] at known
  rcases known with rfl | rfl | rfl | rfl | rfl | rfl | rfl
  all_goals
    rw [fromUtf8Lossy_ascii (by decide)]
    rfl

theorem lossy_not_mem {names : List Text} (known : key ∈ infoFields)
    (apart : ∀ name ∈ names, utf8 name ∉ infoFields) : fromUtf8Lossy key ∉ names := by
  intro member
  apply apart _ member
  rw [isUtf8_infoField known]
  exact known

theorem Unhashed.parseInfoEntry (unhashed : file.Unhashed)
    (ran : parseInfoEntry file token input = .ok (file', rest')) : file'.Unhashed := by
  have named : ∀ name ∈ hashNames, name ∈ namedKeys := by decide
  intro key known
  rw [parseInfoEntry_get (fun fileKey => fileKey.not_named (named key known)) _ ran]
  · exact unhashed key known
  · intro field isField same
    exact lossy_not_mem isField (by decide) (same ▸ known)

section

variable (version : file'.get (text "meta version") = file.get (text "meta version"))
include version

theorem isV2_congr : file'.isV2 = file.isV2 := by
  rw [isV2, isV2, version]

theorem isHybrid_congr
    (pieces : file'.get (text "pieces") = file.get (text "pieces")) : file'.isHybrid = file.isHybrid := by
  rw [isHybrid, isHybrid, isV2_congr version, pieces]

end

theorem HashesOf.congr {raw : Bytes} (hashes : HashesOf digests file raw)
    (same : ∀ name, name ∉ rootNames → file'.get name = file.get name) : HashesOf digests file' raw := by
  have version := same (text "meta version") (by decide)
  have pieces := same (text "pieces") (by decide)
  constructor
  · rw [same _ (by decide), isV2_congr version, isHybrid_congr version pieces]
    exact hashes.infoHash
  · rw [same _ (by decide)]
    exact hashes.v1
  · rw [same _ (by decide)]
    exact hashes.v2

theorem hashesOf_addInfoHash {raw : Bytes} (unhashed : file.Unhashed) :
    HashesOf digests (file.addInfoHash digests raw) raw := by
  have version : (file.addInfoHash digests raw).get (text "meta version") = file.get (text "meta version") :=
    get_addInfoHash_other raw (by decide)
  have pieces : (file.addInfoHash digests raw).get (text "pieces") = file.get (text "pieces") :=
    get_addInfoHash_other raw (by decide)
  have noV1 : file.get (text "v1 info hash") = none := unhashed _ (by decide)
  have noV2 : file.get (text "v2 info hash") = none := unhashed _ (by decide)
  have v1Both : text "v1 info hash" ≠ text "info hash" := by decide
  have v2Both : text "v2 info hash" ≠ text "info hash" := by decide
  have v1V2 : text "v1 info hash" ≠ text "v2 info hash" := by decide
  constructor
  · rw [isV2_congr version, isHybrid_congr version pieces, addInfoHash]
    cases hybrid : file.isHybrid <;> cases v2 : file.isV2 <;> simp [get_insert_self]
  · intro hash
    rw [addInfoHash]
    cases hybrid : file.isHybrid <;> cases v2 : file.isV2 <;>
      simp [get_insert_self, get_insert_of_ne v1Both, get_insert_of_ne v1V2, noV1, eq_comm]
  · intro hash
    rw [addInfoHash]
    cases hybrid : file.isHybrid <;> cases v2 : file.isV2 <;>
      simp [get_insert_self, get_insert_of_ne v2Both, get_insert_of_ne v1V2.symm, noV2, eq_comm]

theorem ReadsInfo.hashesOf {info : Entries} (reads : ReadsInfo digests file info) :
    HashesOf digests file (spell (.dictionary info)) := by
  obtain ⟨start, read, left, blank, fields, same⟩ := reads
  have unhashed : read.Unhashed := by
    have names : ∀ name ∈ hashNames, name ∉ rootNames := by decide
    exact untilEnd_keeps Unhashed (fun _ _ _ _ _ unhashed ran => unhashed.parseInfoEntry ran)
      (fun name known => blank name (names name known)) fields
  exact (hashesOf_addInfoHash unhashed).congr same

/-- A torrent with one `info` whose other values are read whole: what is hashed is the slice of
the file that encodes the value of `info`. -/
theorem parse_hashes_info {bytes : Bytes} {before after info : Entries}
    (decoded : decode bytes = .ok (.dictionary (before ++ (ascii "info", .dictionary info) :: after)))
    (once : ∀ entry ∈ before ++ after, entry.1 ≠ ascii "info")
    (whole : ∀ entry ∈ before ++ after, readsWhole entry = true)
    (parsed : parse digests (.fromBytes bytes) = .ok file) :
    ∃ raw, decode raw = .ok (.dictionary info) ∧
      bytes = 100 :: (before.flatMap spellPair ++ (encodeString (ascii "info") ++ raw) ++ after.flatMap spellPair ++ [101]) ∧
      HashesOf digests file raw := by
  obtain ⟨proper, rfl⟩ := decode_eq_spell decoded
  have infoProper : Proper 49 (.dictionary info) := (proper (ascii "info", .dictionary info) (by simp)).2
  rw [← append_nil (spell _)] at parsed
  refine ⟨spell (.dictionary info), decode_spell infoProper.succ, ?_, (parse_reads_spell proper once whole parsed).hashesOf⟩
  rw [spell_dictionary]
  simp only [flatMap_append, flatMap_cons, spellPair, append_assoc, cons_append]

/-- Hashes that tell byte strings of different lengths apart. -/
def lengthDigests : Digests where
  sha1 bytes := List.Vector.replicate 20 (UInt8.ofNat bytes.length)
  sha256 bytes := List.Vector.replicate 32 (UInt8.ofNat bytes.length)

def plainInfo : Entries :=
  [(ascii "name", .string (ascii "a")), (ascii "piece length", .number (ascii "1")), (ascii "pieces", .string [])]

def plainTorrent : Bytes :=
  ascii "d8:announce1:u4:infod4:name1:a12:piece lengthi1e6:pieces0:e8:url-listl1:xi1eee"

def plainRoot : Entries :=
  [(ascii "announce", .string (ascii "u"))] ++ (ascii "info", .dictionary plainInfo) ::
    [(ascii "url-list", .list [.string (ascii "x"), .number (ascii "1")])]

theorem plainTorrent_decoded : decode plainTorrent = .ok (.dictionary plainRoot) := by
  rfl

theorem plainTorrent_parsed : (parse lengthDigests (.fromBytes plainTorrent)).isOk = true := by
  decide +kernel

theorem plainTorrent_hashes : ∃ file raw, parse lengthDigests (.fromBytes plainTorrent) = .ok file ∧
    decode raw = .ok (.dictionary plainInfo) ∧ HashesOf lengthDigests file raw := by
  obtain ⟨file, parsed⟩ := exists_of_isOk plainTorrent_parsed
  obtain ⟨raw, decoded, _, hashes⟩ := parse_hashes_info plainTorrent_decoded (by decide) (by decide) parsed
  exact ⟨file, raw, parsed, decoded, hashes⟩

/-- A list under `piece layers` that spells another `info`. -/
def hijackedTorrent : Bytes :=
  ascii "d8:announce1:u4:infod4:name1:a12:piece lengthi1e6:pieces0:e12:piece layersl4:infod4:name1:beee"

def hijackedRoot : Entries :=
  [(ascii "announce", .string (ascii "u"))] ++ (ascii "info", .dictionary plainInfo) ::
    [(ascii "piece layers", .list [.string (ascii "info"), .dictionary [(ascii "name", .string (ascii "b"))]])]

theorem hijackedTorrent_parsed : ((parse lengthDigests (.fromBytes hijackedTorrent)).map fun file =>
    (file.get (text "info hash"), file.isV2)).toOption =
      some (some (lengthDigests.sha1 (ascii "d4:name1:be")).toList, false) := by
  decide +kernel

theorem hijackedTorrent_hashes : decode hijackedTorrent = .ok (.dictionary hijackedRoot) ∧
    ∃ file, parse lengthDigests (.fromBytes hijackedTorrent) = .ok file ∧
      file.get (text "info hash") = some (lengthDigests.sha1 (ascii "d4:name1:be")).toList ∧
      ¬HashesOf lengthDigests file (ascii "d4:name1:a12:piece lengthi1e6:pieces0:e") := by
  refine ⟨rfl, ?_⟩
  obtain ⟨file, parsed, read⟩ := map_eq_ok.mp (eq_ok_of_toOption hijackedTorrent_parsed)
  obtain ⟨hash, version⟩ := Prod.mk.inj read
  refine ⟨file, parsed, hash, fun hashes => ?_⟩
  have other := hashes.infoHash
  rw [hash, version, Bool.false_and, if_neg Bool.false_ne_true] at other
  revert other
  decide

end Hashes

end MetaInfoFile

end BitTorrent
