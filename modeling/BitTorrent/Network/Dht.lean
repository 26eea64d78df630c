import BitTorrent.Core.RootReading
import BitTorrent.Network.PexCodec

/-! # The distributed hash table

The routing table and the listener of `network/dht.rs`.  A node is known by its identifier; an address is the
text that it is printed as.  The lookups and the queries that wait for an answer are left out.
-/

namespace BitTorrent

open Bencode BNode IpText Endpoint List Function
open PexMessage (stringAt)

abbrev NodeId := List.Vector UInt8 20

structure DhtNode where
  id : NodeId
  ip : Text
  port : UInt16
deriving DecidableEq

def xorDistance (left right : NodeId) : Bytes := zipWith (· ^^^ ·) left.toList right.toList

def leadingZeros (byte : UInt8) : Nat := if byte = 0 then 8 else 7 - byte.toNat.log2

def countLeadingZeros : Bytes → Nat
  | [] => 0
  | byte :: rest => if byte = 0 then 8 + countLeadingZeros rest else leadingZeros byte

structure RoutingTable where
  localId : NodeId
  buckets : Fin 160 → List DhtNode

namespace RoutingTable

def new (localId : NodeId) : RoutingTable := ⟨localId, fun _ => []⟩

def bucketIndex (localId id : NodeId) : Fin 160 := ⟨min (countLeadingZeros (xorDistance localId id)) 159, by omega⟩

/-- A node whose identifier is there keeps the address that it was added with. -/
def intoBucket (bucket : List DhtNode) (node : DhtNode) : List DhtNode :=
  match bucket.find? fun known => decide (known.id = node.id) with
  | some active => bucket.eraseP (fun known => decide (known.id = node.id)) ++ [active]
  | none => if bucket.length < 8 then bucket ++ [node] else bucket

variable (table : RoutingTable)

def addNode (node : DhtNode) : RoutingTable :=
  if node.id = table.localId then table
  else
    let index := bucketIndex table.localId node.id
    { table with buckets := update table.buckets index (intoBucket (table.buckets index) node) }

def nodes : List DhtNode := (finRange 160).flatMap table.buckets

def closestNodes (target : NodeId) (count : Nat) : List DhtNode :=
  ((sortByKey (table.nodes.map fun node => (xorDistance node.id target, node))).take count).map Prod.snd

end RoutingTable

/-- An address that is no IPv4 address is written as zeros. -/
def compactNode (node : DhtNode) : Endpoint 24 :=
  (⟨node.id.toList ++ ((parseIpv4 node.ip).getD (List.Vector.replicate 4 0)).toList, by simp⟩, node.port)

def compactNodes (nodes : List DhtNode) : Bytes := compact (nodes.map compactNode)

def parseNodes (size : Nat) (write : List.Vector UInt8 size → Text) (bytes : Bytes) : List DhtNode :=
  (ofCompact (20 + size) bytes).map fun endpoint =>
    ⟨⟨endpoint.1.toList.take 20, by simp⟩, write ⟨endpoint.1.toList.drop 20, by simp⟩, endpoint.2⟩

def parseCompactNodesSlice (bytes : Bytes) : List DhtNode := parseNodes 4 ipv4Text bytes

def parseCompactIpv6NodesSlice (bytes : Bytes) : List DhtNode := parseNodes 16 ipv6Text bytes

def toNodeId (bytes : Bytes) : Option NodeId := if sized : bytes.length = 20 then some ⟨bytes, sized⟩ else none

/-- A string of another length stands for the identifier zero. -/
def targetOf (bytes : Bytes) : NodeId := (toNodeId bytes).getD (List.Vector.replicate 20 0)

/-- What arrives at the socket, from the address that it is sent from. -/
structure Datagram where
  ip : Text
  port : UInt16
  bytes : Bytes

inductive DhtMessage where
  | query (tid name : Bytes) (args : BNode)
  | response (payload : BNode)

/-- The buffer of the listener has 2048 bytes. -/
def Datagram.message (datagram : Datagram) : Option DhtMessage := do
  let node ← (decode (datagram.bytes.take 2048)).toOption
  let kind ← stringAt node "y"
  let tid ← stringAt node "t"
  if kind = ascii "q" then return .query tid (← stringAt node "q") (← node.dictGet (ascii "a"))
  else if kind = ascii "r" then return .response (← node.dictGet (ascii "r"))
  else none

structure AnnouncePeer where
  infoHash : Bytes
  port : Nat
  token : Bytes

/-- The `announce_peer` query of a datagram.  `implied_port` is not read. -/
def Datagram.announce (datagram : Datagram) : Option AnnouncePeer :=
  match datagram.message with
  | some (.query _ name args) =>
    if name = ascii "announce_peer" then do
      let infoHash ← stringAt args "info_hash"
      let digits ← (args.dictGet (ascii "port")).bind asNumberBytes
      let token ← stringAt args "token"
      return ⟨infoHash, (parseUnsigned 65536 digits).getD 0, token⟩
    else none
  | _ => none

/-- The identifier that a `find_node` or `get_peers` query asks for. -/
def wantedOf (name : Bytes) (args : BNode) : Option NodeId :=
  if name = ascii "find_node" then (stringAt args "target").map targetOf
  else if name = ascii "get_peers" then (stringAt args "info_hash").map targetOf
  else none

structure DhtState where
  table : RoutingTable
  peerCache : NodeId → Option (List (Text × Nat))

namespace DhtState

def new (localId : NodeId) : DhtState := ⟨.new localId, fun _ => none⟩

/-- The table with the sender of a message. -/
def learn (table : RoutingTable) (datagram : Datagram) (payload : BNode) : RoutingTable :=
  match (stringAt payload "id").bind toNodeId with
  | some id => table.addNode ⟨id, datagram.ip, datagram.port⟩
  | none => table

def learnNodes (table : RoutingTable) (payload : BNode) : RoutingTable :=
  let known := (((stringAt payload "nodes").map parseCompactNodesSlice).getD []).foldl RoutingTable.addNode table
  (((stringAt payload "nodes6").map parseCompactIpv6NodesSlice).getD []).foldl RoutingTable.addNode known

def encodeCompactPeers (peers : List (Text × Nat)) : List BNode :=
  peers.filterMap fun peer =>
    match parseIpv4 peer.1, parseIpv6 peer.1 with
    | some octets, _ => some (.string (octets.toList ++ BigEndian.toBytes 2 peer.2))
    | none, some octets => some (.string (octets.toList ++ BigEndian.toBytes 2 peer.2))
    | none, none => none

def insertPeer (cache : NodeId → Option (List (Text × Nat))) (infoHash : NodeId) (peer : Text × Nat) :
    NodeId → Option (List (Text × Nat)) :=
  let known := (cache infoHash).getD []
  update cache infoHash (some (if peer ∈ known then known else known ++ [peer]))

section Listener

variable (digests : Digests) (tokenSalt : UInt32)

def tokenFor (ip : Text) : Bytes := (digests.sha1 (utf8 ip ++ BigEndian.toBytes 4 tokenSalt.toNat)).toList

/-- The entry that an announce with the right token stores. -/
def stores (datagram : Datagram) : Option (NodeId × Text × Nat) :=
  datagram.announce.bind fun announce =>
    if announce.token = tokenFor digests tokenSalt datagram.ip ∧ 0 < announce.port then
      some (targetOf announce.infoHash, datagram.ip, announce.port)
    else none

variable (state : DhtState)

/-- The fields of the answer to a query. -/
def answer (datagram : Datagram) (name : Bytes) (args : BNode) : Option Entries :=
  let id := (ascii "id", .string state.table.localId.toList)
  let token := (ascii "token", .string (tokenFor digests tokenSalt datagram.ip))
  let nodes (target : NodeId) := (ascii "nodes", .string (compactNodes (state.table.closestNodes target 8)))
  if name = ascii "ping" then some [id]
  else if name = ascii "find_node" then (wantedOf name args).map fun target => [id, nodes target]
  else if name = ascii "get_peers" then
    (wantedOf name args).map fun target =>
      match state.peerCache target with
      | some peers => [id, token, (ascii "values", .list (encodeCompactPeers peers))]
      | none => [id, nodes target, token]
  else datagram.announce.map fun _ => [id]

/-- The answer, as the tree that is spelled, and the state after a datagram. -/
def handle (datagram : Datagram) : Option BNode × DhtState :=
  match datagram.message with
  | none => (none, state)
  | some (.response payload) => (none, { state with table := learnNodes (learn state.table datagram payload) payload })
  | some (.query tid name args) =>
    let state := { state with table := learn state.table datagram args }
    let peerCache :=
      match stores digests tokenSalt datagram with
      | none => state.peerCache
      | some (infoHash, peer) => insertPeer state.peerCache infoHash peer
    ((state.answer digests tokenSalt datagram name args).map fun fields =>
        .dictionary [(ascii "r", .dictionary fields), (ascii "t", .string tid), (ascii "y", .string (ascii "r"))],
      { state with peerCache })

def run (datagrams : List Datagram) : DhtState :=
  datagrams.foldl (fun state datagram => (state.handle digests tokenSalt datagram).2) state

end Listener

variable {digests : Digests} {tokenSalt : UInt32} {state start : DhtState} {datagram : Datagram} {datagrams : List Datagram}
  {infoHash : NodeId} {peer : Text × Nat}

section Announces

def peers (state : DhtState) (infoHash : NodeId) : List (Text × Nat) := (state.peerCache infoHash).getD []

theorem mem_peers_handle : peer ∈ (state.handle digests tokenSalt datagram).2.peers infoHash ↔
    peer ∈ state.peers infoHash ∨ stores digests tokenSalt datagram = some (infoHash, peer) := by
  have inserted (known : NodeId) (stored : Text × Nat) :
      peer ∈ ((insertPeer state.peerCache known stored) infoHash).getD [] ↔
        peer ∈ state.peers infoHash ∨ (known = infoHash ∧ stored = peer) := by
    by_cases same : infoHash = known
    case pos =>
      subst same
      by_cases listed : stored ∈ (state.peerCache infoHash).getD []
      · simp only [insertPeer, update_self, Option.getD_some, if_pos listed, peers, true_and]
        exact ⟨.inl, fun found => found.elim id fun equal => equal ▸ listed⟩
      · simp [insertPeer, listed, peers, eq_comm]
    case neg => simp [insertPeer, update_of_ne same, peers, Ne.symm same]
  unfold handle
  cases message : datagram.message with
  | none => simp [stores, Datagram.announce, message]
  | some content =>
    cases content with
    | response => simp [stores, Datagram.announce, message, peers]
    | query tid name args =>
      cases stored : stores digests tokenSalt datagram with
      | none => simp [peers]
      | some entry => simpa [peers, Prod.ext_iff] using inserted entry.1 entry.2

/-- The cache of a run has what the announces with the right token have stored. -/
theorem mem_peers_run : peer ∈ (start.run digests tokenSalt datagrams).peers infoHash ↔
    peer ∈ start.peers infoHash ∨ ∃ datagram ∈ datagrams, stores digests tokenSalt datagram = some (infoHash, peer) := by
  induction datagrams generalizing start with
  | nil => simp [run]
  | cons datagram datagrams ih =>
    rw [run, foldl_cons, ← run, ih, mem_peers_handle, or_assoc, exists_mem_cons_iff]

/-- A string in an answer. -/
def stringIn (answer : Option BNode) (key : String) : Option Bytes :=
  (answer.bind fun node => node.dictGet (ascii "r")).bind (stringAt · key)

def asksPeers (datagram : Datagram) : Prop :=
  ∃ tid args, datagram.message = some (.query tid (ascii "get_peers") args) ∧ (stringAt args "info_hash").isSome = true

/-- Some datagram of the run was answered with the token, to this address. -/
def Issued (digests : Digests) (tokenSalt : UInt32) (start : DhtState) (run : List Datagram) (ip : Text) (token : Bytes) : Prop :=
  ∃ before datagram, before ++ [datagram] <+: run ∧ datagram.ip = ip ∧
    stringIn ((start.run digests tokenSalt before).handle digests tokenSalt datagram).1 "token" = some token

def Asked (digests : Digests) (tokenSalt : UInt32) (run : List Datagram) (ip : Text) (token : Bytes) : Prop :=
  token = tokenFor digests tokenSalt ip ∧ ∃ datagram ∈ run, datagram.ip = ip ∧ asksPeers datagram

/-- An `announce_peer` query with the very info hash and port, from the address of the peer. -/
def Announces (issued : Text → Bytes → Prop) (datagram : Datagram) (infoHash : NodeId) (peer : Text × Nat) : Prop :=
  ∃ announce, datagram.announce = some announce ∧ announce.infoHash = infoHash.toList ∧
    (datagram.ip, announce.port) = peer ∧ issued datagram.ip announce.token

/-- Whenever a peer is in the cache, it has announced itself with a token that it was given. -/
def Authenticated (digests : Digests) (tokenSalt : UInt32) (start : DhtState) (datagrams : List Datagram) : Prop :=
  ∀ done, done <+: datagrams → ∀ infoHash, ∀ peer ∈ (start.run digests tokenSalt done).peers infoHash,
    ∃ before datagram, before ++ [datagram] <+: done ∧
      Announces (Issued digests tokenSalt start before) datagram infoHash peer

/-- An announce with the right token whose info hash has another length, or whose token was never asked for, before
the same entry is announced as it should be. -/
def Stray (digests : Digests) (tokenSalt : UInt32) (before : List Datagram) (datagram : Datagram) (infoHash : NodeId)
    (peer : Text × Nat) : Prop :=
  stores digests tokenSalt datagram = some (infoHash, peer) ∧
    ¬Announces (Asked digests tokenSalt before) datagram infoHash peer ∧
    ∀ earlier announced, earlier ++ [announced] <+: before →
      ¬Announces (Asked digests tokenSalt earlier) announced infoHash peer

theorem token_answer {name token : Bytes} {args : BNode} :
    (state.answer digests tokenSalt datagram name args).bind (fun fields => stringAt (.dictionary fields) "token") = some token ↔
      (name = ascii "get_peers" ∧ (stringAt args "info_hash").isSome = true) ∧
        tokenFor digests tokenSalt datagram.ip = token := by
  have skipId (value : BNode) (fields : Entries) :
      stringAt (.dictionary ((ascii "id", value) :: fields)) "token" = stringAt (.dictionary fields) "token" := rfl
  have skipNodes (value : BNode) (fields : Entries) :
      stringAt (.dictionary ((ascii "nodes", value) :: fields)) "token" = stringAt (.dictionary fields) "token" := rfl
  have found (value : Bytes) (fields : Entries) :
      stringAt (.dictionary ((ascii "token", .string value) :: fields)) "token" = some value := rfl
  have missing : stringAt (.dictionary []) "token" = none := rfl
  by_cases asked : name = ascii "get_peers"
  case pos =>
    subst asked
    simp (disch := decide) only [answer, wantedOf, if_neg, if_true]
    cases stringAt args "info_hash" with
    | none => simp
    | some target => cases known : state.peerCache (targetOf target) <;> simp [known, skipId, skipNodes, found]
  case neg =>
    unfold answer
    split
    · simp [skipId, missing, asked]
    · split
      · cases wantedOf name args <;> simp [skipId, skipNodes, missing, asked]
      · cases datagram.announce <;> simp [skipId, missing, asked]

theorem token_handle {token : Bytes} : stringIn (state.handle digests tokenSalt datagram).1 "token" = some token ↔
    asksPeers datagram ∧ tokenFor digests tokenSalt datagram.ip = token := by
  unfold handle asksPeers
  cases message : datagram.message with
  | none => simp [stringIn]
  | some content =>
    cases content with
    | response => simp [stringIn]
    | query tid name args =>
      have asked := @token_answer digests tokenSalt { state with table := learn state.table datagram args } datagram name
        token args
      simpa [stringIn, Option.bind_map, comp_def, Option.bind_assoc, dictGet] using asked

theorem issued_eq (run : List Datagram) : Issued digests tokenSalt start run = Asked digests tokenSalt run := by
  funext ip token
  apply propext
  constructor
  · rintro ⟨before, datagram, part, rfl, carried⟩
    obtain ⟨asks, same⟩ := token_handle.mp carried
    exact ⟨same.symm, datagram, part.subset (mem_append_right _ mem_cons_self), rfl, asks⟩
  · rintro ⟨rfl, datagram, member, rfl, asks⟩
    obtain ⟨before, after, rfl⟩ := append_of_mem member
    exact ⟨before, datagram, ⟨after, by simp⟩, rfl, token_handle.mpr ⟨asks, rfl⟩⟩

/-- Announces are authenticated in exactly the runs without a stray one. -/
theorem authenticated_iff (localId : NodeId) (datagrams : List Datagram) :
    Authenticated digests tokenSalt (.new localId) datagrams ↔
      ∀ before datagram infoHash peer, before ++ [datagram] <+: datagrams →
        ¬Stray digests tokenSalt before datagram infoHash peer := by
  unfold Authenticated
  simp only [issued_eq]
  constructor
  · rintro announced before datagram infoHash peer part ⟨stored, improper, first⟩
    have cached : peer ∈ ((DhtState.new localId).run digests tokenSalt (before ++ [datagram])).peers infoHash :=
      mem_peers_run.mpr (.inr ⟨datagram, mem_append_right _ mem_cons_self, stored⟩)
    obtain ⟨earlier, other, within, proper⟩ := announced _ part infoHash peer cached
    rcases prefix_concat_iff.mp within with same | within
    · obtain ⟨rfl, rfl⟩ := append_singleton_inj.mp same
      exact improper proper
    · exact first earlier other within proper
  · intro clean done part infoHash peer cached
    rcases mem_peers_run.mp cached with start | ⟨datagram, member, stored⟩
    · cases start
    · obtain ⟨before, after, rfl⟩ := append_of_mem member
      have here : before ++ [datagram] <+: before ++ datagram :: after := ⟨after, by simp⟩
      by_contra none
      push Not at none
      exact clean before datagram infoHash peer (here.trans part)
        ⟨stored, none before datagram here, fun earlier other within =>
          none earlier other (within.trans ((prefix_append _ _).trans here))⟩

/-- A peer asks for a token and announces itself with an info hash of two bytes. -/
def shortHash : List Datagram :=
  [⟨text "10.0.0.1", 6881, ascii "d1:ad9:info_hash2:abe1:q9:get_peers1:t1:x1:y1:qe"⟩,
    ⟨text "10.0.0.1", 6881,
      ascii "d1:ad9:info_hash2:ab4:porti6881e5:token20:" ++ replicate 20 12 ++ ascii "e1:q13:announce_peer1:t1:y1:y1:qe"⟩]

/-- The peer is stored under the info hash zero, for which no datagram is an announce. -/
theorem shortHash_stored :
    (text "10.0.0.1", 6881) ∈
        ((DhtState.new (.replicate 20 7)).run MetaInfoFile.lengthDigests 0 shortHash).peers (.replicate 20 0) ∧
      ∀ datagram ∈ shortHash, ∀ issued, ¬Announces issued datagram (.replicate 20 0) (text "10.0.0.1", 6881) := by
  refine ⟨by decide +kernel, ?_⟩
  rintro datagram member issued ⟨announce, known, same, -, -⟩
  have hashes : (shortHash.all fun datagram => datagram.announce.all fun announce => announce.infoHash.length = 2) = true := by
    decide +kernel
  have short := all_eq_true.mp hashes datagram member
  rw [known, Option.all_some, decide_eq_true_eq, same] at short
  cases short

end Announces

end DhtState

end BitTorrent
