import BitTorrent.Network.Dht

/-! # The nodes in the answers of the hash table

The compact form has room for an IPv4 address only, and the listener writes it for every node.
-/

namespace BitTorrent

open Bencode BNode IpText Endpoint RoutingTable Function
open List hiding Vector
open PexMessage (stringAt)

/-- The first elements of a list in strict order are those that have few before them. -/
theorem mem_take_iff_countP {α : Type} {less : α → α → Bool} (irreflexive : ∀ item, less item item = false) {items : List α}
    (sorted : items.Pairwise fun left right => less left right = true ∧ less right left = false) (count : Nat) (item : α) :
    item ∈ items.take count ↔ item ∈ items ∧ items.countP (less · item) < count := by
  induction items generalizing count with
  | nil => simp
  | cons first items ih =>
    obtain ⟨least, sorted⟩ := pairwise_cons.mp sorted
    cases count with
    | zero => simp
    | succ count =>
      rw [take_succ_cons, mem_cons, mem_cons, ih sorted, countP_cons]
      by_cases same : item = first
      case pos =>
        subst same
        have none : items.countP (less · item) = 0 := countP_eq_zero.mpr fun other member => by simp [least other member]
        simp [irreflexive, none]
      case neg =>
        constructor
        · rintro (equal | ⟨member, few⟩)
          · exact absurd equal same
          · exact ⟨.inr member, by simp [(least item member).1, few]⟩
        · rintro ⟨equal | member, few⟩
          · exact absurd equal same
          · simp only [(least item member).1, if_true] at few
            exact .inr ⟨member, by omega⟩

theorem zipWith_xor_injective {left right key : Bytes} (shortLeft : left.length = key.length)
    (shortRight : right.length = key.length) (same : zipWith (· ^^^ ·) left key = zipWith (· ^^^ ·) right key) :
    left = right := by
  induction key generalizing left right with
  | nil => rw [length_eq_zero_iff.mp shortLeft, length_eq_zero_iff.mp shortRight]
  | cons byte key ih =>
    cases left with
    | nil => cases shortLeft
    | cons first left =>
      cases right with
      | nil => cases shortRight
      | cons second right =>
        simp only [zipWith_cons_cons, cons.injEq, UInt8.xor_left_inj] at same
        rw [same.1, ih (Nat.succ.inj shortLeft) (Nat.succ.inj shortRight) same.2]

namespace RoutingTable

variable {table : RoutingTable} {node : DhtNode} {bucket : List DhtNode} {target : NodeId}

/-- Every node is in the bucket of its identifier, and there alone. -/
structure Placed (table : RoutingTable) : Prop where
  index : ∀ index, ∀ node ∈ table.buckets index, bucketIndex table.localId node.id = index
  distinct : ∀ index, ((table.buckets index).map DhtNode.id).Nodup

/-- What adding a node can do to a bucket: it is reordered, or the node joins it at the end. -/
theorem addNode_bucket (table : RoutingTable) (node : DhtNode) (index : Fin 160) :
    ((table.addNode node).buckets index).Perm (table.buckets index) ∨
      (table.addNode node).buckets index = table.buckets index ++ [node] ∧ (table.buckets index).length < 8 ∧
        bucketIndex table.localId node.id = index ∧ node.id ∉ (table.buckets index).map DhtNode.id := by
  unfold addNode
  split
  case isTrue => exact .inl (.refl _)
  case isFalse =>
    dsimp only
    by_cases here : index = bucketIndex table.localId node.id
    · subst here
      rw [update_self, intoBucket]
      split
      case h_1 active found =>
        obtain ⟨matching, front, back, parts, before⟩ := find?_eq_some_iff_append.mp found
        rw [parts, eraseP_append_right _ (by simpa using before), eraseP_cons, matching]
        exact .inl ((perm_append_singleton _ _).trans perm_middle.symm)
      case h_2 missing =>
        split
        case isTrue room => exact .inr ⟨rfl, room, rfl, by simpa using missing⟩
        case isFalse => exact .inl (.refl _)
    · rw [update_of_ne here]
      exact .inl (.refl _)

theorem addNode_localId (table : RoutingTable) (node : DhtNode) : (table.addNode node).localId = table.localId := by
  unfold addNode
  split <;> rfl

theorem Placed.addNode (placed : table.Placed) (node : DhtNode) : (table.addNode node).Placed := by
  constructor <;> intro index <;>
    rcases addNode_bucket table node index with same | ⟨added, _, here, unknown⟩
  · intro known member
    rw [addNode_localId]
    exact placed.index index known (same.mem_iff.mp member)
  · intro known member
    rw [addNode_localId]
    rw [added] at member
    rcases mem_append.mp member with member | member
    · exact placed.index index known member
    · rw [mem_singleton.mp member]
      exact here
  · exact (same.map _).nodup_iff.mpr (placed.distinct index)
  · rw [added, map_append, nodup_append_comm]
    exact nodup_cons.mpr ⟨unknown, placed.distinct index⟩

theorem small_addNode (small : ∀ index, (table.buckets index).length ≤ 8) (node : DhtNode) (index : Fin 160) :
    ((table.addNode node).buckets index).length ≤ 8 := by
  rcases addNode_bucket table node index with same | ⟨added, room, _⟩
  · rw [same.length_eq]
    exact small index
  · rw [added, length_append]
    exact room

theorem mem_addNode {known : DhtNode} (member : known ∈ table.nodes) (node : DhtNode) :
    known ∈ (table.addNode node).nodes := by
  obtain ⟨index, listed, held⟩ := mem_flatMap.mp member
  refine mem_flatMap.mpr ⟨index, listed, ?_⟩
  rcases addNode_bucket table node index with same | ⟨added, _⟩
  · exact same.mem_iff.mpr held
  · rw [added]
    exact mem_append_left _ held

theorem placed_foldl (nodes : List DhtNode) (placed : table.Placed) : (nodes.foldl addNode table).Placed := by
  induction nodes generalizing table with
  | nil => exact placed
  | cons node nodes ih => exact ih (placed.addNode node)

theorem placed_new (localId : NodeId) : (new localId).Placed :=
  ⟨fun _ _ member => (nomatch member), fun _ => nodup_nil⟩

theorem Placed.nodup (placed : table.Placed) : (table.nodes.map DhtNode.id).Nodup := by
  rw [nodes, map_flatMap, nodup_flatMap]
  refine ⟨fun index _ => placed.distinct index, (nodup_finRange 160).imp fun {left right} differ => ?_⟩
  intro id inLeft inRight
  obtain ⟨first, listed, rfl⟩ := mem_map.mp inLeft
  obtain ⟨second, other, same⟩ := mem_map.mp inRight
  exact differ ((placed.index left first listed).symm.trans (same ▸ placed.index right second other))

/-- The node is in the table, and few others are closer to the target. -/
def Nearest (table : RoutingTable) (target : NodeId) (count : Nat) (node : DhtNode) : Prop :=
  node ∈ table.nodes ∧
    table.nodes.countP (fun other => !bytesLE (xorDistance node.id target) (xorDistance other.id target)) < count

theorem mem_closestNodes (placed : table.Placed) (count : Nat) :
    node ∈ table.closestNodes target count ↔ table.Nearest target count node := by
  let entry (node : DhtNode) : Bytes × DhtNode := (xorDistance node.id target, node)
  let less (left right : Bytes × DhtNode) : Bool := !bytesLE right.1 left.1
  have order : (sortByKey (table.nodes.map entry)).Perm (table.nodes.map entry) := perm_insertionSort _ _
  have injective : Function.Injective fun id => xorDistance id target := fun left right same =>
    List.Vector.eq _ _ (zipWith_xor_injective (by simp) (by simp) same)
  have keys : ((sortByKey (table.nodes.map entry)).map Prod.fst).Nodup := by
    rw [(order.map Prod.fst).nodup_iff, map_map]
    have distances := placed.nodup.map injective
    rwa [map_map] at distances
  have strict : (sortByKey (table.nodes.map entry)).Pairwise fun left right =>
      less left right = true ∧ less right left = false := by
    refine ((sortByKey_sorted _).and (pairwise_map.mp keys)).imp fun {left right} ⟨le, differ⟩ => ?_
    have strictly : bytesLE right.1 left.1 = false := Bool.eq_false_iff.mpr fun ge => differ (bytesLE_antisymm le ge)
    simp [less, le, strictly]
  have member : node ∈ table.closestNodes target count ↔ entry node ∈ (sortByKey (table.nodes.map entry)).take count := by
    rw [closestNodes, mem_map]
    constructor
    · rintro ⟨found, taken, rfl⟩
      obtain ⟨other, -, rfl⟩ := mem_map.mp (order.mem_iff.mp (mem_of_mem_take taken))
      exact taken
    · exact fun taken => ⟨_, taken, rfl⟩
  have counted := order.countP_eq (less · (entry node))
  rw [member, mem_take_iff_countP (fun item => by simp [less, bytesLE_refl]) strict, mem_sortByKey]
  rw [counted, countP_map, Nearest]
  simp [entry, less, comp_def]

end RoutingTable

section Answers

/-- What the compact form says of a node. -/
def carried (node : DhtNode) : DhtNode :=
  { node with ip := ipv4Text ((parseIpv4 node.ip).getD (List.Vector.replicate 4 0)) }

theorem parse_compactNodes (nodes : List DhtNode) : parseCompactNodesSlice (compactNodes nodes) = nodes.map carried := by
  have back (node : DhtNode) : (compactNode node).1.toList.take 20 = node.id.toList :=
    take_left' node.id.toList_length
  have rest (node : DhtNode) :
      (compactNode node).1.toList.drop 20 = ((parseIpv4 node.ip).getD (List.Vector.replicate 4 0)).toList :=
    drop_left' node.id.toList_length
  rw [parseCompactNodesSlice, parseNodes, compactNodes, ofCompact_compact, map_map]
  apply map_congr_left
  intro node _
  simp only [comp_apply, back, rest, carried]
  rfl

/-- The address is one that the compact form can carry. -/
def IsIpv4 (ip : Text) : Prop := ∃ address, ip = ipv4Text address

theorem carried_of_isIpv4 {node : DhtNode} (address : IsIpv4 node.ip) : carried node = node := by
  obtain ⟨octets, written⟩ := address
  rw [carried, written, parseIpv4_ipv4Text, Option.getD_some, ← written]

structure Truthful (table : RoutingTable) (target : NodeId) (bytes : Bytes) : Prop where
  listed : ∀ node ∈ parseCompactNodesSlice bytes, node ∈ table.nodes
  complete : ∀ node, table.Nearest target 8 node → IsIpv4 node.ip → node ∈ parseCompactNodesSlice bytes

theorem truthful_iff {table : RoutingTable} {target : NodeId} (placed : table.Placed) :
    Truthful table target (compactNodes (table.closestNodes target 8)) ↔
      ∀ node, table.Nearest target 8 node → IsIpv4 node.ip := by
  constructor
  · rintro ⟨listed, -⟩ node near
    have read : carried node ∈ table.nodes := listed _ (by
      rw [parse_compactNodes]
      exact mem_map_of_mem ((mem_closestNodes placed 8).mpr near))
    -- No other node of the table has this identifier.
    have same : carried node = node := inj_on_of_nodup_map placed.nodup read near.1 rfl
    rw [← same]
    exact ⟨_, rfl⟩
  · intro only
    have exactly : (table.closestNodes target 8).map carried = table.closestNodes target 8 :=
      (map_congr_left fun node member =>
        carried_of_isIpv4 (only node ((mem_closestNodes placed 8).mp member))).trans (map_id' _)
    constructor <;> rw [parse_compactNodes, exactly]
    · exact fun node member => ((mem_closestNodes placed 8).mp member).1
    · exact fun node near _ => (mem_closestNodes placed 8).mpr near

namespace DhtState

variable {digests : Digests} {tokenSalt : UInt32} {state : DhtState} {datagram : Datagram} {tid name bytes : Bytes} {args : BNode}
  {target : NodeId}

theorem placed_learn {table : RoutingTable} (placed : table.Placed) : (learn table datagram args).Placed := by
  unfold learn
  split
  · exact placed.addNode _
  · exact placed

theorem nodes_answer (wanted : wantedOf name args = some target)
    (answered : (state.answer digests tokenSalt datagram name args).bind (fun fields => stringAt (.dictionary fields) "nodes") =
      some bytes) : bytes = compactNodes (state.table.closestNodes target 8) := by
  unfold answer at answered
  rw [wanted] at answered
  have ofWanted : name = ascii "find_node" ∨ name = ascii "get_peers" := by
    by_contra other
    rw [not_or] at other
    rw [wantedOf, if_neg other.1, if_neg other.2] at wanted
    cases wanted
  rcases ofWanted with rfl | rfl
  · exact (Option.some.inj answered).symm
  · simp (disch := decide) only [if_neg, if_true, Option.map_some, Option.bind_some] at answered
    split at answered
    · cases answered
    · exact (Option.some.inj answered).symm

section Traffic

variable {motive : RoutingTable → Prop} (kept : ∀ table, motive table → ∀ node, motive (table.addNode node))
include kept

theorem handle_table (initially : motive state.table) : motive (state.handle digests tokenSalt datagram).2.table := by
  have learned (payload : BNode) : motive (learn state.table datagram payload) := by
    unfold learn
    split
    · exact kept _ initially _
    · exact initially
  have added {table : RoutingTable} (now : motive table) (nodes : List DhtNode) : motive (nodes.foldl addNode table) :=
    List.foldlRecOn nodes _ now fun table now node _ => kept table now node
  unfold handle
  split
  case h_1 => exact initially
  case h_2 payload _ => exact added (added (learned payload) _) _
  case h_3 args _ => exact learned args

theorem run_table (initially : motive state.table) (datagrams : List Datagram) :
    motive (state.run digests tokenSalt datagrams).table :=
  @List.foldlRecOn _ _ (fun state => motive state.table) datagrams _ state initially
    fun _ now _ _ => handle_table kept now

end Traffic

/-- Whatever datagrams arrive, a bucket holds at most eight nodes of its distance, and none is forgotten. -/
theorem run_buckets (digests : Digests) (tokenSalt : UInt32) (localId : NodeId) (before after : List Datagram) :
    let learned := ((new localId).run digests tokenSalt before).table
    let final := ((new localId).run digests tokenSalt (before ++ after)).table
    final.Placed ∧ (∀ index, (final.buckets index).length ≤ 8) ∧ ∀ node ∈ learned.nodes, node ∈ final.nodes := by
  refine ⟨run_table (fun _ placed => placed.addNode) (placed_new localId) _,
    run_table (motive := fun table => ∀ index, (table.buckets index).length ≤ 8) (fun _ => small_addNode)
      (by intro index; exact Nat.zero_le 8) _, ?_⟩
  intro node member
  rw [run, foldl_append]
  exact run_table (motive := fun table => node ∈ table.nodes) (fun _ => mem_addNode) member after

/-- An answer with nodes is truthful exactly if all the nodes that are nearest to its target have IPv4 addresses. -/
theorem answer_truthful_iff {localId : NodeId} {known : List DhtNode}
    (built : state.table = known.foldl addNode (.new localId))
    (query : datagram.message = some (.query tid name args)) (wanted : wantedOf name args = some target)
    (answered : stringIn (state.handle digests tokenSalt datagram).1 "nodes" = some bytes) :
    Truthful (learn state.table datagram args) target bytes ↔
      ∀ node, (learn state.table datagram args).Nearest target 8 node → IsIpv4 node.ip := by
  have placed : state.table.Placed := built ▸ placed_foldl known (placed_new localId)
  rw [handle, query] at answered
  have fields : (({ state with table := learn state.table datagram args } : DhtState).answer digests tokenSalt datagram name
      args).bind (fun fields => stringAt (.dictionary fields) "nodes") = some bytes := by
    simpa [stringIn, Option.bind_map, comp_def, Option.bind_assoc, dictGet] using answered
  rw [nodes_answer wanted fields]
  exact truthful_iff (placed_learn placed)

/-- A node that asks for those at the identifier zero. -/
def asking : DhtNode := ⟨⟨ascii "01234567890123456789", rfl⟩, text "10.0.0.1", 6881⟩

def findZeroArgs : BNode :=
  .dictionary [(ascii "id", .string asking.id.toList), (ascii "target", .string (replicate 20 0))]

def findZero : Datagram :=
  ⟨asking.ip, asking.port,
    ascii "d1:ad2:id20:012345678901234567896:target20:" ++ replicate 20 0 ++ ascii "e1:q9:find_node1:t1:x1:y1:qe"⟩

/-- The listener after it has heard of some nodes. -/
def knowing (known : List DhtNode) : DhtState :=
  ⟨known.foldl addNode (.new (.replicate 20 255)), fun _ => none⟩

def neighbours : List DhtNode := [⟨.replicate 20 1, text "10.0.0.2", 6881⟩, ⟨.replicate 20 2, text "10.0.0.3", 6882⟩]

theorem findZero_truthful :
    Truthful (learn (knowing neighbours).table findZero findZeroArgs) (.replicate 20 0)
      (compactNodes (neighbours ++ [asking])) := by
  refine (@answer_truthful_iff MetaInfoFile.lengthDigests 0 (knowing neighbours) findZero (ascii "x") (ascii "find_node") _
    findZeroArgs (.replicate 20 0) (.replicate 20 255) neighbours rfl rfl rfl (by decide +kernel)).mpr ?_
  rintro node ⟨member, -⟩
  have learned : (learn (knowing neighbours).table findZero findZeroArgs).nodes = neighbours ++ [asking] := by
    decide +kernel
  rw [learned, neighbours, cons_append, singleton_append, mem_cons, mem_pair] at member
  rcases member with rfl | rfl | rfl
  · exact ⟨⟨[10, 0, 0, 2], rfl⟩, rfl⟩
  · exact ⟨⟨[10, 0, 0, 3], rfl⟩, rfl⟩
  · exact ⟨⟨[10, 0, 0, 1], rfl⟩, rfl⟩

/-- A node at the IPv6 address `::1`. -/
def loopback : DhtNode := ⟨.replicate 20 1, ipv6Text ⟨replicate 15 0 ++ [1], rfl⟩, 6881⟩

/-- The answer gives the node another address. -/
theorem loopback_misstated :
    (stringIn ((knowing [loopback]).handle MetaInfoFile.lengthDigests 0 findZero).1 "nodes").map parseCompactNodesSlice =
      some [{ loopback with ip := text "0.0.0.0" }, asking] ∧
    { loopback with ip := text "0.0.0.0" } ∉
      ((knowing [loopback]).handle MetaInfoFile.lengthDigests 0 findZero).2.table.nodes := by
  decide +kernel

end DhtState

end Answers

end BitTorrent
