import BitTorrent.Core.MagnetRoundTrip
import BitTorrent.Network.Announce

/-! # URLs of HTTP trackers

`build_announce_url` of `network/announcer.rs`, against how a query string is read.
-/

namespace BitTorrent

open MagnetLink List

namespace HttpAnnouncer

section Coding

/-- Percent-decoding, to bytes. -/
def decodeBytes : Bytes → Bytes
  | 37 :: first :: second :: rest =>
    match hexCharsToByte first second with
    | some byte => byte :: decodeBytes rest
    | none => 37 :: decodeBytes (first :: second :: rest)
  | byte :: rest => byte :: decodeBytes rest
  | [] => []

/-- A text that stands for these bytes in a query. -/
def Coded (bytes : Bytes) (value : Text) : Prop := decodeBytes (utf8 value) = bytes ∧ '&' ∉ value ∧ '#' ∉ value

instance (bytes : Bytes) (value : Text) : Decidable (Coded bytes value) := inferInstanceAs (Decidable (_ ∧ _))

/-- What is assumed of the crate `urlencoding`: its texts decode to what they were made from and have
no letter that ends a value. -/
structure UrlEncoding where
  encodeBinary : Bytes → Text
  encode : Text → Text
  binary : ∀ bytes, Coded bytes (encodeBinary bytes)
  text : ∀ value, Coded (utf8 value) (encode value)

theorem decodeBytes_plain {byte : UInt8} (other : byte ≠ 37) (rest : Bytes) :
    decodeBytes (byte :: rest) = byte :: decodeBytes rest := by
  rw [decodeBytes.eq_def]
  split
  case h_1 whole => exact absurd (cons.inj whole).1 other
  case h_2 whole =>
    obtain ⟨rfl, rfl⟩ := cons.inj whole
    rfl
  case h_3 whole => cases whole

theorem decodeBytes_encodeByte (byte : UInt8) (rest : Bytes) :
    decodeBytes (utf8 (percentEncodeByte byte) ++ rest) = byte :: decodeBytes rest := by
  rcases utf8_percentEncodeByte byte with ⟨kept, bytes⟩ | ⟨first, second, bytes, digits⟩
  · rw [bytes, singleton_append, decodeBytes_plain (isUnreserved_plain kept).2.1]
  · rw [bytes, cons_append, cons_append, singleton_append, decodeBytes, digits]

theorem coded_percent (bytes : Bytes) : Coded bytes (bytes.flatMap percentEncodeByte) := by
  refine ⟨?_, not_mem_percentEncodeByte (show isUnreserved 38 = false by decide) (by decide) bytes,
    not_mem_percentEncodeByte (show isUnreserved 35 = false by decide) (by decide) bytes⟩
  induction bytes with
  | nil => rfl
  | cons byte bytes ih => rw [flatMap_cons, utf8_append, decodeBytes_encodeByte, ih]

/-- The coding of magnet links is of this kind. -/
def percentEncoding : UrlEncoding where
  encodeBinary bytes := bytes.flatMap percentEncodeByte
  encode := percentEncode
  binary := coded_percent
  text value := coded_percent (utf8 value)

theorem coded_numeral (value : Nat) : Coded (decimal value) (numeral value) := by
  refine ⟨?_, not_mem_numeral (by decide), not_mem_numeral (by decide)⟩
  rw [← decimal]
  have digits := all_eq_true.mp (decimal_all_isDigit value)
  generalize decimal value = bytes at digits
  induction bytes with
  | nil => rfl
  | cons byte bytes ih =>
    obtain ⟨digit, rest⟩ := forall_mem_cons.mp digits
    have plain : byte ≠ 37 := by
      rintro rfl
      cases digit
    rw [decodeBytes_plain plain, ih rest]

end Coding

section Building

def flag (value : Bool) : Text := if value then text "1" else text "0"

variable (coding : UrlEncoding)

/-- A parameter that is left out when it is missing or empty. -/
def optional (key : String) (value : Option Text) : List (String × Text) :=
  match value with
  | some value => if value = [] then [] else [(key, coding.encode value)]
  | none => []

/-- The parameters in the order of the format string, and those that are pushed behind it. -/
def announceTexts (tracker : TrackerAnnounceContext) : List (String × Text) :=
  [("info_hash", coding.encodeBinary tracker.infoHash), ("peer_id", coding.encode tracker.peerId),
    ("port", numeral tracker.port.toNat), ("compact", flag tracker.compact), ("no_peer_id", flag tracker.noPeerId),
    ("uploaded", numeral tracker.uploaded.toNat), ("downloaded", numeral tracker.downloaded.toNat),
    ("left", numeral tracker.left.toNat), ("ip", coding.encode tracker.ip),
    ("key", coding.encode (tracker.key.getD [])), ("numwant", numeral tracker.numWanted.toNat)] ++
    (if tracker.event = .none then [] else [("event", tracker.event.asStr)]) ++
    optional coding "trackerid" tracker.trackerId ++ optional coding "ipv6" tracker.ipv6

def parameterText (parameter : String × Text) : Text := text parameter.1 ++ '=' :: parameter.2

def buildAnnounceUrl (tracker : TrackerAnnounceContext) : Text :=
  tracker.trackerUrl ++ '?' :: ['&'].intercalate ((announceTexts coding tracker).map parameterText)

end Building

section Reading

/-- What stands between the first question mark of a URL and its fragment. -/
def queryOf (url : Text) : Option Text :=
  let base := url.takeWhile fun letter => letter ≠ '#'
  if '?' ∈ base then some ((base.dropWhile fun letter => letter ≠ '?').drop 1) else none

/-- The two sides of the first equals sign, decoded. -/
def readParameter (piece : Text) : Bytes × Bytes :=
  (decodeBytes (utf8 (piece.takeWhile fun letter => letter ≠ '=')),
    decodeBytes (utf8 ((piece.dropWhile fun letter => letter ≠ '=').drop 1)))

def parametersOf (query : Text) : List (Bytes × Bytes) :=
  ((query.splitOn '&').filter fun piece => piece ≠ []).map readParameter

def urlParameters (url : Text) : List (Bytes × Bytes) := (queryOf url).elim [] parametersOf

/-- A parameter that should be there if it has a value that is not empty. -/
def optionalValue (key : String) (value : Option Text) : List (String × Bytes) :=
  match value with
  | some value => if value = [] then [] else [(key, utf8 value)]
  | none => []

def announceParameters (tracker : TrackerAnnounceContext) : List (String × Bytes) :=
  [("info_hash", tracker.infoHash), ("peer_id", utf8 tracker.peerId), ("port", decimal tracker.port.toNat),
    ("compact", utf8 (flag tracker.compact)), ("no_peer_id", utf8 (flag tracker.noPeerId)),
    ("uploaded", decimal tracker.uploaded.toNat), ("downloaded", decimal tracker.downloaded.toNat),
    ("left", decimal tracker.left.toNat), ("ip", utf8 tracker.ip), ("key", utf8 (tracker.key.getD [])),
    ("numwant", decimal tracker.numWanted.toNat)] ++
    (if tracker.event = .none then [] else [("event", utf8 tracker.event.asStr)]) ++
    optionalValue "trackerid" tracker.trackerId ++ optionalValue "ipv6" tracker.ipv6

def meant (parameter : String × Bytes) : Bytes × Bytes := (ascii parameter.1, parameter.2)

end Reading

section Pieces

theorem cutAt {mark : Char} {front : Text} (absent : mark ∉ front) (back : Text) :
    (front ++ mark :: back).takeWhile (fun letter => letter ≠ mark) = front ∧
      (front ++ mark :: back).dropWhile (fun letter => letter ≠ mark) = mark :: back := by
  apply takeWhile_append_stop
  · rw [all_eq_true]
    intro letter member
    refine decide_eq_true fun same => ?_
    rw [same] at member
    exact absent member
  · simp

variable {coding : UrlEncoding} {tracker : TrackerAnnounceContext} {entry : String × Text} {parameter : String × Bytes}
  {entries : List (String × Text)} {parameters : List (String × Bytes)} {key : String}

/-- A key that stands for itself and ends at the equals sign behind it. -/
def PlainKey (key : String) : Prop := Coded (ascii key) (text key) ∧ '=' ∉ text key

instance (key : String) : Decidable (PlainKey key) := inferInstanceAs (Decidable (_ ∧ _))

/-- The text of a parameter in the query. -/
inductive Announces : String × Text → String × Bytes → Prop
  | intro {key : String} {written : Text} {value : Bytes} (plain : PlainKey key) (coded : Coded value written) :
      Announces (key, written) (key, value)

theorem announces_optional {value : Option Text} (plain : PlainKey key) :
    Forall₂ Announces (optional coding key value) (optionalValue key value) := by
  cases value with
  | none => exact .nil
  | some value =>
    rw [optional, optionalValue]
    split
    case isTrue => exact .nil
    case isFalse => exact .cons (.intro plain (coding.text value)) .nil

theorem announces_texts (coding : UrlEncoding) (tracker : TrackerAnnounceContext) :
    Forall₂ Announces (announceTexts coding tracker) (announceParameters tracker) := by
  have number := coded_numeral
  have flags : ∀ value, Coded (utf8 (flag value)) (flag value) := by decide
  have events : ∀ event : TrackerEvent, Coded (utf8 event.asStr) event.asStr := by
    intro event
    cases event <;> decide
  rw [announceTexts, announceParameters]
  refine rel_append (rel_append (rel_append ?_ ?_) (announces_optional (by decide))) (announces_optional (by decide))
  · exact .cons (.intro (by decide) (coding.binary _)) <| .cons (.intro (by decide) (coding.text _)) <|
      .cons (.intro (by decide) (number _)) <| .cons (.intro (by decide) (flags _)) <|
      .cons (.intro (by decide) (flags _)) <| .cons (.intro (by decide) (number _)) <|
      .cons (.intro (by decide) (number _)) <| .cons (.intro (by decide) (number _)) <|
      .cons (.intro (by decide) (coding.text _)) <| .cons (.intro (by decide) (coding.text _)) <|
      .cons (.intro (by decide) (number _)) .nil
  · split
    case isTrue => exact .nil
    case isFalse => exact .cons (.intro (by decide) (events _)) .nil

theorem readParameter_cut {key : Text} (absent : '=' ∉ key) (value : Text) :
    readParameter (key ++ '=' :: value) = (decodeBytes (utf8 key), decodeBytes (utf8 value)) := by
  obtain ⟨front, back⟩ := cutAt absent value
  rw [readParameter, front, back, drop_one, tail_cons]

theorem Announces.read (announces : Announces entry parameter) : readParameter (parameterText entry) = meant parameter := by
  cases announces with
  | intro plain coded => rw [parameterText, readParameter_cut plain.2, plain.1.1, coded.1, meant]

theorem Announces.separators_not_mem (announces : Announces entry parameter) :
    '&' ∉ parameterText entry ∧ '#' ∉ parameterText entry := by
  cases announces with
  | intro plain coded =>
    obtain ⟨⟨_, keyAmpersand, keyHash⟩, _⟩ := plain
    obtain ⟨_, ampersand, hash⟩ := coded
    simp [parameterText, keyAmpersand, keyHash, ampersand, hash]

theorem parameterText_ne_nil (entry : String × Text) : parameterText entry ≠ [] :=
  append_ne_nil_of_right_ne_nil _ (cons_ne_nil _ _)

section

variable (announced : Forall₂ Announces entries parameters)
include announced

theorem separators_not_mem : ∀ entry ∈ entries, '&' ∉ parameterText entry ∧ '#' ∉ parameterText entry := by
  induction announced with
  | nil => exact fun _ member => (not_mem_nil member).elim
  | cons first _ ih =>
    exact forall_mem_cons.mpr ⟨first.separators_not_mem, ih⟩

theorem readPieces_announced :
    ((entries.map parameterText).filter fun piece => piece ≠ []).map readParameter = parameters.map meant := by
  induction announced with
  | nil => rfl
  | cons first _ ih =>
    rw [map_cons, filter_cons, if_pos (decide_eq_true (parameterText_ne_nil _)), map_cons, map_cons, first.read, ih]

theorem hash_not_mem_query : '#' ∉ ['&'].intercalate (entries.map parameterText) := by
  intro member
  rcases mem_intercalate member with same | ⟨piece, known, inside⟩
  · cases same
  · obtain ⟨entry, listed, rfl⟩ := mem_map.mp known
    exact (separators_not_mem announced entry listed).2 inside

end

end Pieces

section Queries

variable {url query more : Text}

theorem queryOf_fragment (fragment : '#' ∈ url) (more : Text) : queryOf (url ++ more) = queryOf url := by
  obtain ⟨front, back, rfl, plain⟩ := eq_append_cons_of_mem fragment
  rw [append_assoc, cons_append, queryOf, queryOf, (cutAt plain back).1, (cutAt plain (back ++ more)).1]

theorem takeWhile_noFragment (noFragment : '#' ∉ url) : url.takeWhile (fun letter => letter ≠ '#') = url := by
  have all := @List.takeWhile_append_of_pos _ (fun letter => decide (letter ≠ '#')) url [] fun letter member =>
    decide_eq_true fun same => noFragment (same ▸ member)
  rwa [takeWhile_nil, append_nil] at all

theorem queryOf_plain (noFragment : '#' ∉ url) :
    queryOf url = if '?' ∈ url then some ((url.dropWhile fun letter => letter ≠ '?').drop 1) else none := by
  rw [queryOf, takeWhile_noFragment noFragment]

theorem queryOf_begin (noQuery : '?' ∉ url) (noFragment : '#' ∉ url) (plain : '#' ∉ query) :
    queryOf (url ++ '?' :: query) = some query := by
  have none : '#' ∉ url ++ '?' :: query := by simp [noFragment, plain]
  rw [queryOf_plain none, if_pos (by simp), (cutAt noQuery query).2]
  rfl

theorem queryOf_missing (noQuery : '?' ∉ url) (noFragment : '#' ∉ url) : queryOf url = none := by
  rw [queryOf_plain noFragment, if_neg noQuery]

theorem queryOf_continue (present : '?' ∈ url) (noFragment : '#' ∉ url) (plain : '#' ∉ more) :
    ∃ query, queryOf url = some query ∧ queryOf (url ++ more) = some (query ++ more) := by
  obtain ⟨front, back, rfl, noQuery⟩ := eq_append_cons_of_mem present
  simp only [mem_append, mem_cons, not_or] at noFragment
  obtain ⟨frontPlain, _, backPlain⟩ := noFragment
  have longer : '#' ∉ back ++ more := by simp [backPlain, plain]
  rw [append_assoc, cons_append]
  exact ⟨back, queryOf_begin noQuery frontPlain backPlain, queryOf_begin noQuery frontPlain longer⟩

theorem parametersOf_last (query : Text) : ∃ (earlier : List (Bytes × Bytes)) (last : Text), '&' ∉ last ∧
    ∀ more, parametersOf (query ++ more) = earlier ++ parametersOf (last ++ more) := by
  by_cases several : '&' ∈ query
  · obtain ⟨back, front, shape, plain⟩ := eq_append_cons_of_mem (mem_reverse.mpr several)
    have ordered : query = front.reverse ++ '&' :: back.reverse := by
      rw [← reverse_reverse query, shape]
      simp
    refine ⟨parametersOf front.reverse, back.reverse, fun member => plain (mem_reverse.mp member), fun more => ?_⟩
    rw [ordered, append_assoc, cons_append, parametersOf, splitOn_append_cons_self, filter_append, map_append,
      parametersOf, parametersOf]
  · exact ⟨[], query, several, fun _ => rfl⟩

end Queries

section Main

theorem splitOn_behind {front : Text} (plainFront : '&' ∉ front) {first : String × Text} {others : List (String × Text)}
    (clean : ∀ entry ∈ first :: others, '&' ∉ parameterText entry) :
    (front ++ ['&'].intercalate ((first :: others).map parameterText)).splitOn '&' =
      (front ++ parameterText first) :: others.map parameterText := by
  have joined : front ++ ['&'].intercalate ((first :: others).map parameterText) =
      ['&'].intercalate ((front ++ parameterText first) :: others.map parameterText) := by
    rw [map_cons, intercalate_cons_flatMap, intercalate_cons_flatMap, append_assoc]
  rw [joined]
  apply splitOn_intercalate
  · intro piece member
    rcases mem_cons.mp member with rfl | later
    · simp [plainFront, clean first mem_cons_self]
    · obtain ⟨entry, known, rfl⟩ := mem_map.mp later
      exact clean entry (mem_cons_of_mem _ known)
  · exact cons_ne_nil _ _

variable {entries : List (String × Text)} {parameters : List (String × Bytes)}

theorem parametersOf_announced {entry : String × Text} {parameter : String × Bytes}
    (announced : Forall₂ Announces (entry :: entries) (parameter :: parameters)) :
    parametersOf (['&'].intercalate ((entry :: entries).map parameterText)) = (parameter :: parameters).map meant := by
  have pieces := splitOn_behind not_mem_nil fun entry member => (separators_not_mem announced entry member).1
  rw [nil_append, nil_append] at pieces
  rw [← readPieces_announced announced, parametersOf, pieces, map_cons]

/-- A second question mark becomes part of the last parameter of the tracker or of the first new key. -/
theorem parametersOf_second_mark {infoHash : Bytes} {written : Text}
    (announced : Forall₂ Announces (("info_hash", written) :: entries) (("info_hash", infoHash) :: parameters))
    (query : Text) :
    parametersOf (query ++ '?' :: ['&'].intercalate ((("info_hash", written) :: entries).map parameterText)) ≠
      parametersOf query ++ (("info_hash", infoHash) :: parameters).map meant := by
  obtain ⟨earlier, last, plainLast, split⟩ := parametersOf_last query
  have clean := fun entry member => (separators_not_mem announced entry member).1
  have alone := split []
  rw [append_nil, append_nil] at alone
  rw [split, alone, append_assoc, append_cons last '?']
  intro same
  have rest := append_cancel_left same
  have later := readPieces_announced (forall₂_cons.mp announced).2
  rw [parametersOf, parametersOf, splitOn_behind (by simp [plainLast]) clean, splitOn_eq_singleton plainLast, filter_cons,
    if_pos (by simp), map_cons, later] at rest
  by_cases empty : last = []
  · cases empty
    have read := readParameter_cut (show '=' ∉ text "?info_hash" by decide) written
    have key : '?' :: text "info_hash" = text "?info_hash" := by decide
    have marked : '?' :: parameterText ("info_hash", written) = text "?info_hash" ++ '=' :: written := by
      rw [parameterText, ← cons_append, key]
    have first := (cons.inj rest).1
    rw [nil_append, singleton_append, marked, read, meant] at first
    have differ : decodeBytes (utf8 (text "?info_hash")) ≠ ascii "info_hash" := by decide
    exact differ (Prod.mk.inj first).1
  · have lengths := congrArg length rest
    simp [empty] at lengths

/-- The parameters of an announce URL are those of the tracker and of the announce exactly if the tracker's
URL has neither a query nor a fragment. -/
theorem announceUrl_iff (coding : UrlEncoding) (tracker : TrackerAnnounceContext) :
    urlParameters (buildAnnounceUrl coding tracker) =
        urlParameters tracker.trackerUrl ++ (announceParameters tracker).map meant ↔
      '?' ∉ tracker.trackerUrl ∧ '#' ∉ tracker.trackerUrl := by
  have announced := announces_texts coding tracker
  have noHash := hash_not_mem_query announced
  rw [buildAnnounceUrl, urlParameters, urlParameters]
  constructor
  · intro same
    have noFragment : '#' ∉ tracker.trackerUrl := by
      intro fragment
      rw [queryOf_fragment fragment, self_eq_append_right] at same
      cases same
    refine ⟨fun present => ?_, noFragment⟩
    obtain ⟨query, found, longer⟩ := queryOf_continue present noFragment
      (show '#' ∉ '?' :: ['&'].intercalate ((announceTexts coding tracker).map parameterText) by simpa using noHash)
    rw [longer, found] at same
    exact parametersOf_second_mark announced query same
  · intro clean
    rw [queryOf_begin clean.1 clean.2 noHash, queryOf_missing clean.1 clean.2]
    exact parametersOf_announced announced

/-- A private tracker with its key in the query of the URL. -/
def passkeyTracker : TrackerAnnounceContext where
  infoHash := [0, 38, 255]
  peerId := text "-AZ1000-123456789012"
  port := 6881
  ip := text "10.0.0.1"
  compact := true
  noPeerId := false
  key := none
  trackerId := none
  numWanted := 50
  trackerUrl := text "http://t/announce?passkey=k"
  event := .started
  interval := 2000
  minInterval := 0
  downloaded := 0
  uploaded := 0
  left := 100
  ipv6 := none

/-- The info hash is lost and the tracker gets another key. -/
theorem passkey_garbled :
    urlParameters passkeyTracker.trackerUrl = [(ascii "passkey", ascii "k")] ∧
      (urlParameters (buildAnnounceUrl percentEncoding passkeyTracker)).head? =
        some (ascii "passkey", ascii "k?info_hash=" ++ [0, 38, 255]) ∧
      ∀ parameter ∈ urlParameters (buildAnnounceUrl percentEncoding passkeyTracker), parameter.1 ≠ ascii "info_hash" := by
  decide +kernel

end Main

end HttpAnnouncer

end BitTorrent
