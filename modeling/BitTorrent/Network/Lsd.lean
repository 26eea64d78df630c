import BitTorrent.Network.Announce

/-! # Local service discovery

`network/lsd.rs`.
-/

namespace BitTorrent

namespace Lsd

/-- `str::lines`. -/
def lines (value : Text) : List Text :=
  (splitInclusive '\n' value).map fun line =>
    if line.getLast? = some '\n' then
      if line.dropLast.getLast? = some '\r' then line.dropLast.dropLast else line.dropLast
    else line

/-- The part behind the first colon of a line, up to the next one. -/
def fieldValue (line : Text) : Option Text := (line.splitOn ':')[1]?

structure Heard where
  port : Option UInt16
  infohashFound : Bool

def hearPort (line : Text) (heard : Heard) : Heard :=
  match (fieldValue line).bind fun value => parseUnsigned (2 ^ 16) (utf8 (trim value)) with
  | some port => { heard with port := some (UInt16.ofNat port) }
  | none => heard

def hearInfohash (expected line : Text) (heard : Heard) : Heard :=
  if (fieldValue line).any fun value => eqIgnoreAsciiCase (trim value) expected then
    { heard with infohashFound := true }
  else heard

/-- One round of the loop over the lines. -/
def hearLine (expected : Text) (heard : Heard) (line : Text) : Option Heard := do
  let trimmed := trim line
  let isPort ← hasName (text "port:") trimmed
  let heard := if isPort then hearPort trimmed heard else heard
  let isInfohash ← hasName (text "infohash:") trimmed
  return if isInfohash then hearInfohash expected trimmed heard else heard

def bufferLen : Nat := 1024

/-- What the listener makes of a datagram: the peer that it sends on, if there is one. -/
def hearDatagram (infoHash : Bytes) (source : Text) (datagram : Bytes) : Outcome (Option PeerDetails) :=
  match fromUtf8 (datagram.take bufferLen) with
  | none => .ok none
  | some message =>
    match (lines message).foldlM (hearLine (toHex infoHash)) ⟨none, false⟩ with
    | none => .panic
    | some heard =>
      .ok (if heard.infohashFound then heard.port.map fun port => ⟨infoHash, none, source, port⟩ else none)

/-- A line of the datagram has a character across one of the two places where the listener cuts it. -/
def DatagramCut (datagram : Bytes) : Prop :=
  ∃ message, fromUtf8 (datagram.take bufferLen) = some message ∧
    ∃ line ∈ lines message, CutsInside (trim line) 5 ∨ CutsInside (trim line) 9

theorem hearLine_eq_none {expected line : Text} {heard : Heard} :
    hearLine expected heard line = none ↔ CutsInside (trim line) 5 ∨ CutsInside (trim line) 9 := by
  have port : byteLen (text "port:") = 5 := by decide
  have infohash : byteLen (text "infohash:") = 9 := by decide
  rw [← port, ← infohash, ← hasName_eq_none, ← hasName_eq_none, hearLine]
  cases hasName (text "port:") (trim line) with
  | none => simp
  | some isPort => cases hasName (text "infohash:") (trim line) <;> simp

theorem foldlM_eq_none {α β : Type} {step : β → α → Option β} {Bad : α → Prop}
    (fails : ∀ state item, step state item = none ↔ Bad item) (items : List α) (start : β) :
    items.foldlM step start = none ↔ ∃ item ∈ items, Bad item := by
  induction items generalizing start with
  | nil => simp
  | cons item items ih =>
    rw [List.foldlM_cons, List.exists_mem_cons_iff, ← fails start item]
    cases step start item with
    | none => simp
    | some next => simp [ih]

theorem hearDatagram_panic {infoHash datagram : Bytes} {source : Text} :
    hearDatagram infoHash source datagram = .panic ↔ DatagramCut datagram := by
  rw [hearDatagram, DatagramCut]
  cases fromUtf8 (datagram.take bufferLen) with
  | none => simp
  | some message =>
    have fails := foldlM_eq_none (fun heard line => @hearLine_eq_none (toHex infoHash) line heard) (lines message)
      ⟨none, false⟩
    simp only [Option.some.injEq, exists_eq_left', ← fails]
    cases (lines message).foldlM (hearLine (toHex infoHash)) ⟨none, false⟩ <;> simp

end Lsd

end BitTorrent
