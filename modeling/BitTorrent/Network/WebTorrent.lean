import BitTorrent.Network.Announce

/-! # Answers of WebTorrent trackers

`parse_announce_response` of `network/webrtc.rs`, and the bridge in which the sockets of peers are
found.  The reader of JSON is a parameter.
-/

namespace BitTorrent

open Function

/-- The fields of an answer that an announce reads. -/
structure WebTorrentAnnounceResponse where
  interval : Option UInt64
  infoHash : Option Text
  complete : Option Nat
  incomplete : Option Nat
  peerId : Option Text
  failureReason : Option Text

namespace WebTorrent

/-- The peer of an answer, named by the first twelve bytes of its id. -/
def answeringPeer (parsed : WebTorrentAnnounceResponse) (peerId : Text) : Option PeerDetails :=
  (splitAtByte peerId (min (byteLen peerId) 12)).map fun parts =>
    { infoHash := (parsed.infoHash.map utf8).getD []
      peerId := some peerId
      ip := text "webrtc:" ++ parts.1
      port := 0 }

def announceResponse (parsed : WebTorrentAnnounceResponse) : AnnounceResponse :=
  { failure := false
    interval := (parsed.interval.getD 120).toNat
    complete := parsed.complete.getD 0
    incomplete := parsed.incomplete.getD 0 }

def parseAnnounceResponse (fromStr : Text → Except String WebTorrentAnnounceResponse) (json : Text) :
    Outcome AnnounceResponse :=
  match fromStr json with
  | .error message => .err (.parse message)
  | .ok parsed =>
    match parsed.failureReason, parsed.peerId with
    | some reason, _ => .ok { failure := true, statusMessage := reason }
    | none, none => .ok (announceResponse parsed)
    | none, some peerId =>
      match answeringPeer parsed peerId with
      | none => .panic
      | some peer => .ok { announceResponse parsed with peerList := [peer] }

/-- An answer that reports no failure names a peer with a character across the twelfth byte. -/
def PeerIdCut (parsed : WebTorrentAnnounceResponse) : Prop :=
  parsed.failureReason = none ∧ ∃ peerId, parsed.peerId = some peerId ∧ CutsInside peerId 12

theorem answeringPeer_eq_none {parsed : WebTorrentAnnounceResponse} {peerId : Text} :
    answeringPeer parsed peerId = none ↔ CutsInside peerId 12 := by
  have whole := splitAtByte_append peerId []
  rw [List.append_nil] at whole
  rw [answeringPeer, Option.map_eq_none_iff, CutsInside]
  rcases Nat.lt_or_ge (byteLen peerId) 12 with short | long
  · rw [Nat.min_eq_left short.le, whole]
    simp [Nat.not_le.mpr short]
  · rw [Nat.min_eq_right long, splitAtByte_eq_none, and_iff_right long]

theorem parseAnnounceResponse_panic {fromStr : Text → Except String WebTorrentAnnounceResponse} {json : Text} :
    parseAnnounceResponse fromStr json = .panic ↔ ∃ parsed, fromStr json = .ok parsed ∧ PeerIdCut parsed := by
  rw [parseAnnounceResponse]
  cases fromStr json with
  | error message => simp
  | ok parsed =>
    simp only [Except.ok.injEq, exists_eq_left', PeerIdCut]
    cases parsed.failureReason with
    | some reason => simp
    | none =>
      cases parsed.peerId with
      | none => simp
      | some peerId =>
        simp only [Option.some.injEq, exists_eq_left', true_and, ← @answeringPeer_eq_none parsed]
        cases answeringPeer parsed peerId <;> simp

section Bridge

structure SdpDescription where
  sdpType : Text
  sdp : Text

structure WebTorrentAnswer where
  offerId : Text
  answer : SdpDescription
  toPeerId : Option Text

def createWebtorrentAnswer (offerId toPeerId : Text) : WebTorrentAnswer :=
  { offerId
    toPeerId := some toPeerId
    answer :=
      { sdpType := text "answer"
        sdp := text "v=0\r\no=- " ++ offerId ++ text (" 2 IN IP4 127.0.0.1\r\ns=-\r\nt=0 0\r\na=group:BUNDLE 0\r\n" ++
          "m=application 9 UDP/DTLS/SCTP webrtc-datachannel\r\nc=IN IP4 127.0.0.1\r\na=sctp-port:5000\r\n") } }

/-- The sockets and the counts of `WebTorrentBridge` that handling an offer or an answer changes. -/
structure WebTorrentBridge (α : Type) where
  pendingOffers : Text → Option α
  activePeers : Text → Option α
  offersReceived : Nat
  answersSent : Nat
  answersReceived : Nat

variable {α : Type} (bridge : WebTorrentBridge α) (offerId remotePeerId : Text)

def handleInboundAnswer : WebTorrentBridge α × Result α :=
  match bridge.pendingOffers offerId with
  | none => (bridge, .error (.protocol ("No matching offer for offer_id: " ++ String.ofList offerId)))
  | some adapter =>
    ({ bridge with
        pendingOffers := update bridge.pendingOffers offerId none
        activePeers := update bridge.activePeers (text "webrtc:" ++ remotePeerId) (some adapter)
        answersReceived := bridge.answersReceived + 1 }, .ok adapter)

/-- The socket is the local one of a new pair. -/
def handleInboundOffer (socket : α) : WebTorrentBridge α × WebTorrentAnswer × α :=
  ({ bridge with
      activePeers := update bridge.activePeers (text "webrtc:" ++ remotePeerId) (some socket)
      offersReceived := bridge.offersReceived + 1
      answersSent := bridge.answersSent + 1 }, createWebtorrentAnswer offerId remotePeerId, socket)

def getPeerSocket (peerIp : Text) : Option α := bridge.activePeers peerIp

/-- The peer of an answer has an address under which the bridge has its socket, however the
connection came about, and no other id has the address. -/
def AddressedAlone (α : Type) (parsed : WebTorrentAnnounceResponse) (peerId : Text) : Prop :=
  ∃ peer, answeringPeer parsed peerId = some peer ∧
    (∀ (bridge : WebTorrentBridge α) offerId socket,
      getPeerSocket (handleInboundOffer bridge offerId peerId socket).1 peer.ip = some socket ∧
        (bridge.pendingOffers offerId = some socket →
          getPeerSocket (handleInboundAnswer bridge offerId peerId).1 peer.ip = some socket)) ∧
    ∀ other otherPeer, answeringPeer parsed other = some otherPeer → otherPeer.ip = peer.ip → other = peerId

end Bridge

variable {parsed : WebTorrentAnnounceResponse} {peerId : Text}

theorem answeringPeer_eq_some {peer : PeerDetails} (found : answeringPeer parsed peerId = some peer) :
    ∃ front back, peerId = front ++ back ∧ byteLen front = min (byteLen peerId) 12 ∧ peer.ip = text "webrtc:" ++ front := by
  obtain ⟨⟨front, back⟩, cut, rfl⟩ := Option.map_eq_some_iff.mp found
  obtain ⟨whole, size⟩ := split_of_splitAtByte cut
  exact ⟨front, back, whole, size, rfl⟩

theorem eq_of_byteLen {front back : Text} (same : byteLen front = byteLen (front ++ back)) : front = front ++ back := by
  cases back with
  | nil => exact (List.append_nil front).symm
  | cons letter back =>
    have positive := Char.utf8Size_pos letter
    rw [byteLen, byteLen, utf8_append, List.length_append, ← byteLen, ← byteLen, byteLen_cons] at same
    omega

/-- The bridge does not cut the ids that it registers, so only an id of less than twelve bytes has an
address of its own. -/
theorem addressedAlone_iff : AddressedAlone α parsed peerId ↔ byteLen peerId < 12 := by
  constructor
  · rintro ⟨peer, found, _, alone⟩
    by_contra long
    obtain ⟨front, back, whole, size, address⟩ := answeringPeer_eq_some found
    rw [Nat.min_eq_right (Nat.not_lt.mp long)] at size
    -- a longer id is cut at the same place
    obtain ⟨other, again, same⟩ : ∃ other, answeringPeer parsed (front ++ (back ++ ['x'])) = some other ∧
        other.ip = text "webrtc:" ++ front := by
      have longer : byteLen front ≤ byteLen (front ++ (back ++ ['x'])) := by
        rw [byteLen, byteLen, utf8_append, List.length_append]
        exact Nat.le_add_right _ _
      rw [answeringPeer, ← size, Nat.min_eq_right longer, splitAtByte_append]
      exact ⟨_, rfl, rfl⟩
    have equal := alone _ other again (same.trans address.symm)
    simp [whole] at equal
  · intro short
    obtain ⟨peer, found⟩ := Option.ne_none_iff_exists'.mp (mt (@answeringPeer_eq_none parsed _).mp fun cut => short.not_ge cut.1)
    obtain ⟨front, back, rfl, size, address⟩ := answeringPeer_eq_some found
    rw [Nat.min_eq_left short.le] at size
    rw [eq_of_byteLen size] at address
    refine ⟨peer, found, fun bridge offerId socket => ?_, ?_⟩
    · rw [address]
      refine ⟨update_self .., fun pending => ?_⟩
      rw [handleInboundAnswer, pending]
      exact update_self ..
    · intro other otherPeer otherFound same
      obtain ⟨otherFront, otherBack, rfl, otherSize, otherAddress⟩ := answeringPeer_eq_some otherFound
      rw [address, otherAddress] at same
      have equal := List.append_cancel_left same
      rw [← equal] at short ⊢
      exact (eq_of_byteLen (by omega)).symm

/-- The answer of a tracker to an announce with a peer id of twenty bytes. -/
def longAnswer : WebTorrentAnnounceResponse where
  interval := none
  infoHash := none
  complete := none
  incomplete := none
  peerId := some (text "-WW0001-abcdefghijkl")
  failureReason := none

/-- The connection of the peer is not found under its address, which another peer has as well. -/
theorem longAnswer_unreachable :
    ∃ peer, parseAnnounceResponse (fun _ => .ok longAnswer) [] = .ok { announceResponse longAnswer with peerList := [peer] } ∧
      getPeerSocket (handleInboundOffer ⟨fun _ => none, fun _ => none, 0, 0, 0⟩ (text "o") (text "-WW0001-abcdefghijkl") ()).1
        peer.ip = none ∧
      ∃ other, answeringPeer longAnswer (text "-WW0001-abcdzzzzzzzz") = some other ∧ other.ip = peer.ip :=
  ⟨_, rfl, by decide +kernel, _, rfl, by decide +kernel⟩

end WebTorrent

end BitTorrent
