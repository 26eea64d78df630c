import BitTorrent.Network.UdpAnnouncer

/-! # Headers of uTP packets

`UtpHeader`, its extensions and `build_sack_bitmask` of `network/utp.rs` (BEP 29).  An index past the
end of a datagram is a panic.
-/

namespace BitTorrent

open Chunks BigEndian List

theorem Outcome.map_eq_ok {α β : Type} {next : α → β} {outcome : Outcome α} {value : β} :
    outcome.map next = .ok value ↔ ∃ found, outcome = .ok found ∧ next found = value := by
  cases outcome <;> simp [Outcome.map]

inductive UtpPacketType where
  | data
  | ack
  | syn
  | reset
  | state
deriving DecidableEq

namespace UtpPacketType

def toU8 : UtpPacketType → UInt8
  | data => 0
  | ack => 1
  | syn => 2
  | reset => 3
  | state => 4

def fromU8 (value : UInt8) : Option UtpPacketType :=
  if value = 0 then some data
  else if value = 1 then some ack
  else if value = 2 then some syn
  else if value = 3 then some reset
  else if value = 4 then some state
  else none

end UtpPacketType

def utpExtSack : UInt8 := 1

inductive UtpExtension where
  | selectiveAck (mask : Bytes)
  | unknown (extensionType : UInt8) (data : Bytes)
deriving DecidableEq

namespace UtpExtension

def extensionType : UtpExtension → UInt8
  | selectiveAck _ => utpExtSack
  | unknown extensionType _ => extensionType

def data : UtpExtension → Bytes
  | selectiveAck mask => mask
  | unknown _ data => data

/-- What the decoder makes of a type and its data. -/
def ofType (extensionType : UInt8) (data : Bytes) : UtpExtension :=
  if extensionType = utpExtSack then selectiveAck data else unknown extensionType data

/-- The type of the first extension, or the given one if there is none. -/
def firstType (absent : UInt8) (extensions : List UtpExtension) : UInt8 :=
  (extensions.head?.map extensionType).getD absent

def encodeAll : List UtpExtension → Bytes
  | [] => []
  | extension :: rest =>
    firstType 0 rest :: UInt8.ofNat extension.data.length :: (extension.data ++ encodeAll rest)

/-- The loop of the decoder over the chain of extensions. -/
def decodeAll (buf : Bytes) (extType : UInt8) (offset : Nat) : Outcome (List UtpExtension) :=
  if extType = 0 then .ok []
  else if _short : buf.length < offset + 2 then .err (.parse "uTP extension header truncated")
  else
    match buf[offset]?, buf[offset + 1]? with
    | some nextExt, some extLen =>
      if buf.length < offset + 2 + extLen.toNat then .err (.parse "uTP extension data truncated")
      else
        (decodeAll buf nextExt (offset + 2 + extLen.toNat)).map
          (ofType extType (slice buf (offset + 2) extLen.toNat) :: ·)
    | _, _ => .panic
termination_by buf.length - offset

end UtpExtension

structure UtpHeader where
  packetType : UtpPacketType
  version : UInt8
  extension : UInt8
  connectionId : UInt16
  timestampUs : UInt32
  timestampDifferenceUs : UInt32
  wndSize : UInt32
  seqNr : UInt16
  ackNr : UInt16
  extensions : List UtpExtension
deriving DecidableEq

namespace UtpHeader

open UtpExtension (firstType encodeAll decodeAll)

def encode (header : UtpHeader) : Bytes :=
  (header.packetType.toU8 <<< 4 ||| header.version &&& 0x0F) :: firstType header.extension header.extensions ::
    (toBytes 2 header.connectionId.toNat ++ (packU32 header.timestampUs ++
      (packU32 header.timestampDifferenceUs ++ (packU32 header.wndSize ++
        (toBytes 2 header.seqNr.toNat ++ (toBytes 2 header.ackNr.toNat ++
          encodeAll header.extensions))))))

def totalHeaderLen (header : UtpHeader) : Nat :=
  20 + (header.extensions.map fun extension => 2 + extension.data.length).sum

/-- The fields of the first twenty bytes behind the first. -/
def readFields (buf : Bytes) (packetType : UtpPacketType) (version : UInt8) : Option UtpHeader := do
  let extension ← buf[1]?
  let connectionId ← unpack 2 buf 2
  let timestampUs ← unpack 4 buf 4
  let timestampDifferenceUs ← unpack 4 buf 8
  let wndSize ← unpack 4 buf 12
  let seqNr ← unpack 2 buf 16
  let ackNr ← unpack 2 buf 18
  return ⟨packetType, version, extension, .ofNat connectionId, .ofNat timestampUs, .ofNat timestampDifferenceUs,
    .ofNat wndSize, .ofNat seqNr, .ofNat ackNr, []⟩

def decode (buf : Bytes) : Outcome UtpHeader :=
  if buf.length < 20 then .err (.parse "uTP header too short")
  else
    match buf[0]? with
    | none => .panic
    | some typeVer =>
      match UtpPacketType.fromU8 (typeVer >>> 4) with
      | none => .err (.parse "Invalid uTP packet type")
      | some packetType =>
        match readFields buf packetType (typeVer &&& 0x0F) with
        | none => .panic
        | some header =>
          (decodeAll buf header.extension 20).map fun extensions => { header with extensions }

end UtpHeader

section Sack

/-- The bit for a packet, if it is behind the missing one and within half of the numbers. -/
def sackOffset (ackNr seq : UInt16) : Option Nat :=
  let diff := seq - ackNr
  if 2 ≤ diff ∧ diff < 32768 then some (diff - 2).toNat else none

def markSack (ackNr : UInt16) (numBytes : Nat) (mask : Bytes) (seq : UInt16) : Bytes :=
  match sackOffset ackNr seq with
  | none => mask
  | some bitOffset =>
    if bitOffset / 8 < numBytes then mask.modify (bitOffset / 8) (· ||| 1 <<< UInt8.ofNat (bitOffset % 8)) else mask

def buildSackBitmask (ackNr : UInt16) (receivedSeqs : List UInt16) : Bytes :=
  match (receivedSeqs.filterMap (sackOffset ackNr)).max? with
  | none => []
  | some maxOffset =>
    let numBytes := max ((maxOffset / 8 + 1 + 3) / 4) 1 * 4
    if numBytes ≤ 32 then (receivedSeqs.foldl (markSack ackNr numBytes) (replicate 32 0)).take numBytes
    else receivedSeqs.foldl (markSack ackNr numBytes) (replicate numBytes 0)

theorem foldl_markSack_length (ackNr : UInt16) (numBytes : Nat) (receivedSeqs : List UInt16) (mask : Bytes) :
    (receivedSeqs.foldl (markSack ackNr numBytes) mask).length = mask.length := by
  induction receivedSeqs generalizing mask with
  | nil => rfl
  | cons seq receivedSeqs ih =>
    rw [foldl_cons, ih, markSack]
    split
    · rfl
    · split
      · rw [length_modify]
      · rfl

/-- The length fits into its byte as long as no packet is more than 2017 behind the acknowledged one. -/
theorem buildSackBitmask_length_le (ackNr : UInt16) (receivedSeqs : List UInt16) :
    (buildSackBitmask ackNr receivedSeqs).length ≤ 255 ↔
      ∀ bitOffset ∈ receivedSeqs.filterMap (sackOffset ackNr), bitOffset < 2016 := by
  rw [buildSackBitmask]
  cases largest : (receivedSeqs.filterMap (sackOffset ackNr)).max? with
  | none => simp [max?_eq_none_iff.mp largest]
  | some maxOffset =>
    obtain ⟨member, bound⟩ := max?_eq_some_iff.mp largest
    have below : (∀ bitOffset ∈ receivedSeqs.filterMap (sackOffset ackNr), bitOffset < 2016) ↔ maxOffset < 2016 :=
      ⟨fun all => all maxOffset member, fun small bitOffset found => (bound bitOffset found).trans_lt small⟩
    rw [below]
    simp only
    split
    case isTrue few =>
      rw [length_take, foldl_markSack_length, length_replicate]
      omega
    case isFalse many =>
      rw [foldl_markSack_length, length_replicate]
      omega

end Sack

namespace UtpExtension

variable {buf : Bytes} {offset : Nat}

theorem decodeAll_ne_panic (extType : UInt8) : decodeAll buf extType offset ≠ .panic := by
  fun_induction decodeAll buf extType offset with
  | case1 => nofun
  | case2 => nofun
  | case3 => nofun
  | case4 _ _ _ _ _ _ _ _ _ ih => rwa [Ne, Outcome.map_eq_panic]
  | case5 extType offset _ long absent =>
    have first : offset < buf.length := by omega
    have second : offset + 1 < buf.length := by omega
    exact absurd (getElem?_eq_getElem second) (absent _ _ (getElem?_eq_getElem first))

theorem decodeAll_eq_ok {extType : UInt8} {extensions : List UtpExtension} :
    decodeAll buf extType offset = .ok extensions ↔
      (extType = 0 ∧ extensions = []) ∨ (extType ≠ 0 ∧ ∃ nextExt extLen tail, buf[offset]? = some nextExt ∧
        buf[offset + 1]? = some extLen ∧ offset + 2 + extLen.toNat ≤ buf.length ∧
        decodeAll buf nextExt (offset + 2 + extLen.toNat) = .ok tail ∧
        ofType extType (slice buf (offset + 2) extLen.toNat) :: tail = extensions) := by
  rw [decodeAll]
  split
  case isTrue zero => simp [zero, eq_comm]
  case isFalse other =>
    split
    case isTrue short =>
      simp only [other, reduceCtorEq, false_and, false_or, ne_eq, not_false_eq_true, true_and, false_iff]
      rintro ⟨nextExt, extLen, tail, -, -, long, -⟩
      omega
    case isFalse long =>
      have first : buf[offset]? = some buf[offset] := getElem?_eq_getElem (by omega)
      have second : buf[offset + 1]? = some buf[offset + 1] := getElem?_eq_getElem (by omega)
      simp only [first, second, other, Option.some.injEq, false_and, false_or, ne_eq, not_false_eq_true, true_and,
        exists_eq_left', exists_and_left]
      split
      case isTrue truncated =>
        simp only [reduceCtorEq, false_iff]
        omega
      case isFalse fits => simp only [Outcome.map_eq_ok, Nat.not_lt.mp fits, true_and]

/-- One extension is written such that it is read back. -/
structure Plain (extension : UtpExtension) : Prop where
  typed : extension.extensionType ≠ 0
  known : ofType extension.extensionType extension.data = extension
  short : extension.data.length ≤ 255

theorem plain_selectiveAck (mask : Bytes) : (selectiveAck mask).Plain ↔ mask.length ≤ 255 := by
  have typed : utpExtSack ≠ 0 := by decide
  exact ⟨Plain.short, fun short => ⟨typed, rfl, short⟩⟩

theorem encodeAll_length (extensions : List UtpExtension) :
    (encodeAll extensions).length = (extensions.map fun extension => 2 + extension.data.length).sum := by
  induction extensions with
  | nil => rfl
  | cons extension rest ih =>
    simp only [encodeAll, length_cons, length_append, map_cons, sum_cons, ih]
    omega

theorem ofType_data (extType : UInt8) (bytes : Bytes) : (ofType extType bytes).data = bytes := by
  rw [ofType]
  split <;> rfl

theorem toNat_ofNat_length {extension : UtpExtension} (short : extension.data.length ≤ 255) :
    (UInt8.ofNat extension.data.length).toNat = extension.data.length := by
  rw [UInt8.toNat_ofNat', Nat.mod_eq_of_lt (Nat.lt_succ_of_le short)]

theorem decodeAll_encodeAll (extensions : List UtpExtension) {front payload : Bytes} (start : front.length = offset) :
    decodeAll (front ++ (encodeAll extensions ++ payload)) (firstType 0 extensions) offset = .ok extensions ↔
      ∀ extension ∈ extensions, extension.Plain := by
  induction extensions generalizing front offset with
  | nil => simp [firstType, decodeAll]
  | cons extension rest ih =>
    let link : Bytes := [firstType 0 rest, UInt8.ofNat extension.data.length]
    have whole : front ++ (encodeAll (extension :: rest) ++ payload) =
        front ++ link ++ (extension.data ++ (encodeAll rest ++ payload)) := by simp [encodeAll, link]
    have linked : (front ++ link).length = offset + 2 := by simp [link, start]
    have passed : (front ++ link ++ extension.data).length = offset + 2 + extension.data.length := by
      rw [length_append, linked]
    have read : slice (front ++ link ++ (extension.data ++ (encodeAll rest ++ payload))) (offset + 2)
        extension.data.length = extension.data := slice_append_middle linked rfl
    have next : (front ++ link ++ (extension.data ++ (encodeAll rest ++ payload)))[offset]? =
        some (firstType 0 rest) := by simp [link, ← start]
    have length : (front ++ link ++ (extension.data ++ (encodeAll rest ++ payload)))[offset + 1]? =
        some (UInt8.ofNat extension.data.length) := by simp [link, ← start]
    have tail := ih passed
    rw [append_assoc (front ++ link)] at tail
    rw [whole, decodeAll_eq_ok, forall_mem_cons, ← tail]
    constructor
    · rintro (⟨-, impossible⟩ | ⟨typed, nextExt, extLen, others, first, second, fits, decoded, same⟩)
      · cases impossible
      · cases next.symm.trans first
        cases length.symm.trans second
        obtain ⟨known, rfl⟩ := cons.inj same
        have data := congrArg UtpExtension.data known
        rw [ofType_data] at data
        -- The data is as long as its length byte says.
        have size := congrArg List.length data
        rw [slice_length] at size
        have byte := (UInt8.ofNat extension.data.length).toNat_lt
        have short : extension.data.length ≤ 255 := by omega
        rw [toNat_ofNat_length short] at decoded
        rw [data] at known
        exact ⟨⟨typed, known, short⟩, decoded⟩
    · rintro ⟨⟨typed, known, short⟩, decoded⟩
      refine .inr ⟨typed, _, _, rest, next, length, ?_, ?_, ?_⟩
      · rw [toNat_ofNat_length short, length_append, linked, length_append]
        omega
      · rw [toNat_ofNat_length short]
        exact decoded
      · rw [toNat_ofNat_length short, read]
        exact congrArg (· :: rest) known

end UtpExtension

namespace UtpHeader

open UtpExtension

variable (header : UtpHeader)

/-- The headers that are read back. -/
structure Writable : Prop where
  version : header.version < 16
  linked : header.extension = firstType 0 header.extensions
  plain : ∀ extension ∈ header.extensions, extension.Plain

theorem encode_length : header.encode.length = header.totalHeaderLen := by
  simp only [encode, totalHeaderLen, length_cons, length_append, packU32, toBytes_length,
    encodeAll_length]
  omega

theorem typeVer_read (packetType : UtpPacketType) (version : UInt8) :
    UtpPacketType.fromU8 ((packetType.toU8 <<< 4 ||| version &&& 0x0F) >>> 4) = some packetType ∧
      (packetType.toU8 <<< 4 ||| version &&& 0x0F) &&& 0x0F = version &&& 0x0F ∧
      (version &&& 0x0F = version ↔ version < 16) := by
  obtain ⟨value, rfl⟩ : ∃ value : Fin 256, version = UInt8.ofFin value := ⟨version.toFin, rfl⟩
  revert value
  cases packetType <;> decide +kernel

theorem unpack_toBytes {front rest : Bytes} {width offset value : Nat} (start : front.length = offset)
    (fits : value < 256 ^ width) : unpack width (front ++ (toBytes width value ++ rest)) offset = some value := by
  rw [UdpAnnouncer.unpack_of_le (by simp [start]), slice_append_middle start (toBytes_length _ _),
    fromBytes_toBytes fits]

theorem readFields_encode (payload : Bytes) (packetType : UtpPacketType) (version : UInt8) :
    readFields (header.encode ++ payload) packetType version =
      some { header with
        packetType, version, extension := firstType header.extension header.extensions, extensions := [] } := by
  let start : Bytes := [header.packetType.toU8 <<< 4 ||| header.version &&& 0x0F,
    firstType header.extension header.extensions]
  let connection := start ++ toBytes 2 header.connectionId.toNat
  let timestamp := connection ++ packU32 header.timestampUs
  let difference := timestamp ++ packU32 header.timestampDifferenceUs
  let window := difference ++ packU32 header.wndSize
  let sequence := window ++ toBytes 2 header.seqNr.toNat
  have extension : (header.encode ++ payload)[1]? = some (firstType header.extension header.extensions) := rfl
  have connectionId : unpack 2 (header.encode ++ payload) 2 = some header.connectionId.toNat :=
    @unpack_toBytes start _ 2 2 _ rfl header.connectionId.toNat_lt
  have timestampUs : unpack 4 (header.encode ++ payload) 4 = some header.timestampUs.toNat :=
    @unpack_toBytes connection _ 4 4 _ rfl header.timestampUs.toNat_lt
  have timestampDifferenceUs : unpack 4 (header.encode ++ payload) 8 = some header.timestampDifferenceUs.toNat :=
    @unpack_toBytes timestamp _ 4 8 _ rfl header.timestampDifferenceUs.toNat_lt
  have wndSize : unpack 4 (header.encode ++ payload) 12 = some header.wndSize.toNat :=
    @unpack_toBytes difference _ 4 12 _ rfl header.wndSize.toNat_lt
  have seqNr : unpack 2 (header.encode ++ payload) 16 = some header.seqNr.toNat :=
    @unpack_toBytes window _ 2 16 _ rfl header.seqNr.toNat_lt
  have ackNr : unpack 2 (header.encode ++ payload) 18 = some header.ackNr.toNat :=
    @unpack_toBytes sequence _ 2 18 _ rfl header.ackNr.toNat_lt
  simp only [readFields, extension, connectionId, timestampUs, timestampDifferenceUs, wndSize, seqNr, ackNr,
    Option.bind_eq_bind, Option.bind_some, UInt16.ofNat_toNat, UInt32.ofNat_toNat, Option.pure_def]

theorem decode_written (payload : Bytes) : decode (header.encode ++ payload) =
      (decodeAll (header.encode ++ payload) (firstType header.extension header.extensions) 20).map fun extensions =>
        { header with
          version := header.version &&& 0x0F, extension := firstType header.extension header.extensions, extensions } := by
  obtain ⟨typed, version, -⟩ := typeVer_read header.packetType header.version
  have first : (header.encode ++ payload)[0]? = some (header.packetType.toU8 <<< 4 ||| header.version &&& 0x0F) := rfl
  have long : ¬(header.encode ++ payload).length < 20 := by
    rw [length_append, encode_length, totalHeaderLen]
    omega
  simp only [decode, if_neg long, first, typed, version, readFields_encode]

theorem decode_eq_ok_iff_writable (payload : Bytes) :
    decode (header.encode ++ payload) = .ok header ↔ header.Writable := by
  have start : (header.encode.take 20).length = 20 := by
    rw [length_take, encode_length, totalHeaderLen, Nat.min_eq_left (Nat.le_add_right _ _)]
  have written : header.encode.take 20 ++ encodeAll header.extensions = header.encode := take_append_drop 20 _
  have chain := @decodeAll_encodeAll 20 header.extensions _ payload start
  rw [← append_assoc, written] at chain
  rw [decode_written, Outcome.map_eq_ok]
  constructor
  · rintro ⟨extensions, decoded, same⟩
    have fields := UtpHeader.mk.inj same
    obtain ⟨-, version, linked, -, -, -, -, -, -, rfl⟩ := fields
    have first : firstType header.extension header.extensions = firstType 0 header.extensions := by
      cases shape : header.extensions with
      | cons extension rest => rfl
      | nil =>
        rw [shape] at decoded
        rcases decodeAll_eq_ok.mp decoded with ⟨zero, -⟩ | ⟨-, _, _, _, -, -, -, -, impossible⟩
        · exact zero
        · cases impossible
    rw [first] at decoded linked
    exact ⟨(typeVer_read header.packetType header.version).2.2.mp version, linked.symm, chain.mp decoded⟩
  · rintro ⟨version, linked, plain⟩
    have first : firstType header.extension header.extensions = header.extension := by
      rw [linked]
      cases header.extensions <;> rfl
    refine ⟨header.extensions, ?_, ?_⟩
    · rw [first, linked]
      exact chain.mpr plain
    · rw [first, (typeVer_read header.packetType header.version).2.2.mpr version]

theorem decode_ne_panic (buf : Bytes) : decode buf ≠ .panic := by
  rw [decode]
  split
  case isTrue => nofun
  case isFalse long =>
    have first : buf[0]? = some buf[0] := getElem?_eq_getElem (by omega)
    simp only [first]
    split
    · nofun
    · rename_i packetType _
      have second : buf[1]? = some buf[1] := getElem?_eq_getElem (by omega)
      have there {width offset : Nat} (inside : offset + width ≤ 20) :
          unpack width buf offset = some (fromBytes (slice buf offset width)) :=
        UdpAnnouncer.unpack_of_le (by omega)
      simp only [readFields, second, there, Nat.reduceAdd, Nat.reduceLeDiff, Option.bind_eq_bind, Option.bind_some,
        Option.pure_def]
      rw [Ne, Outcome.map_eq_panic]
      exact decodeAll_ne_panic _

/-- A header is read back in front of any payload exactly if its version has four bits, its extension field
agrees with its extensions and each of these has a type of its own kind and at most 255 bytes, which a mask has
for packets up to 2017 behind the acknowledged one. -/
theorem header_readBack_iff (header : UtpHeader) (payload : Bytes) :
    (decode (header.encode ++ payload) = .ok header ↔ header.Writable) ∧
      header.encode.length = header.totalHeaderLen ∧
      (header.encode ++ payload).drop header.totalHeaderLen = payload ∧
      (∀ ackNr receivedSeqs, (UtpExtension.selectiveAck (buildSackBitmask ackNr receivedSeqs)).Plain ↔
        ∀ bitOffset ∈ receivedSeqs.filterMap (sackOffset ackNr), bitOffset < 2016) ∧
      ∀ buf, decode buf ≠ .panic := by
  refine ⟨header.decode_eq_ok_iff_writable payload, header.encode_length, drop_left' header.encode_length, ?_,
    decode_ne_panic⟩
  intro ackNr receivedSeqs
  rw [plain_selectiveAck, buildSackBitmask_length_le]

/-- The acknowledgement of one packet that came 2018 numbers early. -/
def farSack : UtpHeader where
  packetType := .state
  version := 1
  extension := utpExtSack
  connectionId := 7
  timestampUs := 0
  timestampDifferenceUs := 0
  wndSize := 1048576
  seqNr := 1
  ackNr := 100
  extensions := [.selectiveAck (buildSackBitmask 100 [2118])]

/-- The mask has 256 bytes, so its length is written as zero. -/
theorem farSack_lost : decode farSack.encode ≠ .ok farSack := by
  intro decoded
  rw [← append_nil farSack.encode] at decoded
  have writable := (decode_eq_ok_iff_writable farSack []).mp decoded
  have plain := writable.plain (.selectiveAck (buildSackBitmask 100 [2118])) mem_cons_self
  have early : sackOffset 100 2118 = some 2016 := by decide +kernel
  have member := mem_filterMap.mpr ⟨2118, mem_singleton_self _, early⟩
  rw [plain_selectiveAck, buildSackBitmask_length_le] at plain
  exact Nat.lt_irrefl _ (plain 2016 member)

end UtpHeader

end BitTorrent
