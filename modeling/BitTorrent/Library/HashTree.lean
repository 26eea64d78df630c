import Mathlib.Data.Nat.Log
import Mathlib.Logic.Function.Iterate
import Mathlib.Logic.Relation
import Mathlib.Data.List.Basic
import Mathlib.Tactic

/-! # Binary hash trees

Layers of a binary hash tree over an arbitrary digest type.  `combine` is the
only thing known about the hash; the soundness lemmas ask that it is injective
in both arguments, the separation lemmas that no digest lies above itself.
-/

namespace HashTree

open List Function

universe u

variable {α : Type u} (combine : α → α → α)
  {leaves right path left : List α} {index level levels : Nat} {node root : α}

/-- The parents of the consecutive pairs of a layer.  An odd last node is dropped. -/
def pairUp : List α → List α
  | left :: right :: rest => combine left right :: pairUp rest
  | _ => []

/-- The layer `level` steps above `leaves`. -/
def layer (leaves : List α) (level : Nat) : List α :=
  (pairUp combine)^[level] leaves

/-- Hash `node` with the siblings on its way up; bit `i` of `index` tells on which
side the node stands at step `i`. -/
def climb : Nat → α → List α → α
  | _, node, [] => node
  | index, node, sibling :: path =>
    climb (index / 2)
      (if index % 2 = 0 then combine node sibling else combine sibling node) path

theorem pairUp_length (nodes : List α) : (pairUp combine nodes).length = nodes.length / 2 := by
  fun_induction pairUp combine nodes with
  | case1 left right rest ih => simp only [length_cons, ih]; omega
  | case2 nodes short =>
    match nodes, short with
    | [], _ => simp
    | [_], _ => simp
    | left :: right :: rest, short => exact (short left right rest rfl).elim

theorem pairUp_drop (nodes : List α) (count : Nat) :
    pairUp combine (nodes.drop (2 * count)) = (pairUp combine nodes).drop count := by
  induction count generalizing nodes with
  | zero => rfl
  | succ count ih =>
    rw [show 2 * (count + 1) = 2 * count + 1 + 1 by omega]
    match nodes with
    | [] => simp [pairUp]
    | [_] => simp [pairUp]
    | left :: right :: rest => simpa [pairUp] using ih rest

theorem pairUp_take (nodes : List α) (count : Nat) :
    pairUp combine (nodes.take (2 * count)) = (pairUp combine nodes).take count := by
  induction count generalizing nodes with
  | zero => simp [pairUp]
  | succ count ih =>
    rw [show 2 * (count + 1) = 2 * count + 1 + 1 by omega]
    match nodes with
    | [] => simp [pairUp]
    | [_] => simp [pairUp]
    | left :: right :: rest => simpa [pairUp] using ih rest

theorem pairUp_replicate (node : α) (count : Nat) :
    pairUp combine (replicate (2 * count) node) =
      replicate count (combine node node) := by
  induction count with
  | zero => rfl
  | succ count ih =>
    rw [show 2 * (count + 1) = 2 * count + 1 + 1 by omega]
    simp [replicate_succ, pairUp, ih]

theorem pairUp_getElem? (nodes : List α) (index : Nat) (inside : 2 * index + 1 < nodes.length) :
    (pairUp combine nodes)[index]? = some (combine nodes[2 * index] nodes[2 * index + 1]) := by
  induction index generalizing nodes with
  | zero =>
    match nodes, inside with
    | left :: right :: rest, _ => rfl
  | succ index ih =>
    match nodes, inside with
    | left :: right :: rest, inside =>
      simp only [length_cons] at inside
      have lifted := ih rest (by omega)
      simpa [pairUp, Nat.mul_add] using lifted

variable {combine}

theorem pairUp_injective (injective : Function.Injective2 combine) :
    ∀ {left right : List α}, left.length = right.length → left.length % 2 = 0 →
      pairUp combine left = pairUp combine right → left = right
  | [], [], _, _, _ => rfl
  | [_], _, _, even, _ => by simp at even
  | a :: b :: left, [], lengths, _, _ => by simp at lengths
  | a :: b :: left, [_], lengths, _, _ => by simp at lengths
  | a :: b :: left, c :: d :: right, lengths, even, same => by
      simp only [length_cons] at lengths even
      simp only [pairUp, cons.injEq] at same
      obtain ⟨headLeft, headRight⟩ := injective same.1
      have tails := pairUp_injective injective (by omega) (by omega) same.2
      rw [headLeft, headRight, tails]
  | [], _ :: _, lengths, _, _ => by simp at lengths

variable (combine)

@[simp] theorem layer_zero (leaves : List α) : layer combine leaves 0 = leaves := rfl

theorem layer_succ (leaves : List α) (level : Nat) :
    layer combine leaves (level + 1) = pairUp combine (layer combine leaves level) :=
  iterate_succ_apply' _ _ _

theorem layer_pairUp (leaves : List α) (level : Nat) :
    layer combine (pairUp combine leaves) level = layer combine leaves (level + 1) :=
  (iterate_succ_apply _ _ _).symm

theorem layer_layer (leaves : List α) (lower upper : Nat) :
    layer combine (layer combine leaves lower) upper = layer combine leaves (lower + upper) := by
  rw [Nat.add_comm, layer, layer, layer, iterate_add_apply]

theorem layer_length (leaves : List α) (height : Nat) (full : leaves.length = 2 ^ height) (inside : level ≤ height) :
    (layer combine leaves level).length = 2 ^ (height - level) := by
  induction level with
  | zero => simpa using full
  | succ level ih =>
    rw [layer_succ, pairUp_length, ih (by omega), show height - level = height - (level + 1) + 1 by omega, Nat.pow_succ]
    omega

theorem layer_getElem? (leaves : List α) (level index : Nat)
    (inside : 2 * index + 1 < (layer combine leaves level).length) :
    (layer combine leaves (level + 1))[index]? =
      some (combine (layer combine leaves level)[2 * index]
        (layer combine leaves level)[2 * index + 1]) := by
  rw [layer_succ]
  exact pairUp_getElem? combine _ index inside

variable {combine}

/-- A path of `path.length` siblings that ends in the root pins its starting node to one
position of one layer: the layer that many steps below the root, at the low bits of
`index`.  The sibling values and the high bits of `index` are the prover's choice. -/
theorem climb_sound (injective : Function.Injective2 combine) {height : Nat}
    (full : leaves.length = 2 ^ height) (top : layer combine leaves height = [root]) (short : path.length ≤ height)
    (climbed : climb combine index node path = root) :
    (layer combine leaves (height - path.length))[index % 2 ^ path.length]? = some node := by
  induction path generalizing index node with
  | nil =>
    simp only [climb] at climbed
    simp [top, climbed, Nat.mod_one]
  | cons sibling path ih =>
    simp only [length_cons] at short ⊢
    have parent := ih (by omega) climbed
    set below := height - (path.length + 1) with belowDef
    have aboveEq : height - path.length = below + 1 := by omega
    have width : (layer combine leaves below).length = 2 ^ (height - below) :=
      layer_length combine leaves height full (by omega)
    have position : index % 2 ^ (path.length + 1) =
        2 * (index / 2 % 2 ^ path.length) + index % 2 := by
      rw [Nat.pow_succ, Nat.mul_comm, Nat.mod_mul]
      omega
    have widthEq : (layer combine leaves below).length = 2 * 2 ^ path.length := by
      rw [width, show height - below = path.length + 1 by omega, Nat.pow_succ, Nat.mul_comm]
    rw [aboveEq, layer_getElem? combine leaves below _ (by omega)] at parent
    have children := Option.some.inj parent
    rw [position]
    -- The parity of the index decides which child of the pinned parent `node` is.
    rcases Nat.mod_two_eq_zero_or_one index with even | odd
    · rw [if_pos even] at children
      rw [even, Nat.add_zero, getElem?_eq_getElem (by omega), (injective children).1]
    · rw [if_neg (by omega)] at children
      rw [odd, getElem?_eq_getElem (by omega), (injective children).2]

/-- A run of `2 ^ levels` nodes that folds to the node at `index` of an upper layer is
the aligned slice of the layer `levels` steps below it. -/
theorem fold_sound (injective : Function.Injective2 combine) {height : Nat}
    (full : leaves.length = 2 ^ height) {bottom : Nat} {nodes : List α} {top : α}
    (inside : bottom + levels ≤ height) (width : nodes.length = 2 ^ levels)
    (folded : layer combine nodes levels = [top])
    (found : (layer combine leaves (bottom + levels))[index]? = some top) :
    nodes = ((layer combine leaves bottom).drop (index * 2 ^ levels)).take (2 ^ levels) := by
  induction levels generalizing bottom nodes with
  | zero =>
    simp only [layer_zero, Nat.add_zero] at folded found
    rw [folded, Nat.pow_zero, Nat.mul_one]
    obtain ⟨bound, value⟩ := List.getElem?_eq_some_iff.mp found
    rw [drop_eq_getElem_cons bound, value]
    rfl
  | succ levels ih =>
    have parents := @ih (bottom + 1) (pairUp combine nodes) (by omega)
      (by rw [pairUp_length, width, Nat.pow_succ]; omega)
      (by rw [layer_pairUp]; exact folded)
      (by rw [show bottom + 1 + levels = bottom + (levels + 1) by omega]; exact found)
    have bound : index < 2 ^ (height - (bottom + (levels + 1))) := by
      have := (List.getElem?_eq_some_iff.mp found).1
      rwa [layer_length combine leaves height full (by omega)] at this
    have room : (index + 1) * 2 ^ (levels + 1) ≤ 2 ^ (height - bottom) := by
      calc (index + 1) * 2 ^ (levels + 1)
          ≤ 2 ^ (height - (bottom + (levels + 1))) * 2 ^ (levels + 1) := by gcongr; omega
        _ = 2 ^ (height - bottom) := by rw [← Nat.pow_add]; congr 1; omega
    rw [layer_succ, ← pairUp_drop, ← pairUp_take,
      show 2 * (index * 2 ^ levels) = index * 2 ^ (levels + 1) by ring,
      show 2 * 2 ^ levels = 2 ^ (levels + 1) by ring] at parents
    refine pairUp_injective injective ?_ (by rw [width, Nat.pow_succ]; omega) parents
    rw [length_take, length_drop, layer_length combine leaves height full (by omega), width]
    rw [Nat.add_mul] at room
    omega

theorem layer_take (nodes : List α) (levels count : Nat) :
    layer combine (nodes.take (count * 2 ^ levels)) levels = (layer combine nodes levels).take count := by
  induction levels generalizing nodes with
  | zero => rw [Nat.pow_zero, Nat.mul_one, layer_zero, layer_zero]
  | succ levels ih =>
    have width : count * 2 ^ (levels + 1) = 2 * (count * 2 ^ levels) := by ring
    rw [← layer_pairUp, width, pairUp_take, ih, layer_pairUp]

theorem layer_drop (nodes : List α) (levels count : Nat) :
    layer combine (nodes.drop (count * 2 ^ levels)) levels = (layer combine nodes levels).drop count := by
  induction levels generalizing nodes with
  | zero => rw [Nat.pow_zero, Nat.mul_one, layer_zero, layer_zero]
  | succ levels ih =>
    have width : count * 2 ^ (levels + 1) = 2 * (count * 2 ^ levels) := by ring
    rw [← layer_pairUp, width, pairUp_drop, ih, layer_pairUp]

theorem layer_append {count : Nat} (aligned : left.length = count * 2 ^ levels) :
    layer combine (left ++ right) levels = layer combine left levels ++ layer combine right levels := by
  have front := @layer_take _ combine (left ++ right) levels count
  have back := @layer_drop _ combine (left ++ right) levels count
  rw [take_left' aligned] at front
  rw [drop_left' aligned] at back
  rw [front, back, take_append_drop]

theorem layer_injective (injective : Function.Injective2 combine) {height : Nat}
    (full : left.length = 2 ^ height) (lengths : left.length = right.length) (inside : level ≤ height)
    (same : layer combine left level = layer combine right level) : left = right := by
  induction level generalizing left right height with
  | zero => exact same
  | succ level ih =>
    obtain ⟨lower, rfl⟩ := Nat.exists_eq_add_of_lt inside
    have halves : (pairUp combine left).length = (pairUp combine right).length := by
      rw [pairUp_length, pairUp_length, lengths]
    have parents : pairUp combine left = pairUp combine right := by
      apply @ih _ _ (level + lower) _ halves (Nat.le_add_right _ _)
      · rwa [layer_pairUp, layer_pairUp]
      · rw [pairUp_length]
        omega
    exact pairUp_injective injective lengths (by omega) parents

theorem getElem?_of_fold {nodes : List α} {top : α}
    (folded : layer combine ((nodes.drop (index * 2 ^ levels)).take (2 ^ levels)) levels = [top]) :
    (layer combine nodes levels)[index]? = some top := by
  have width : 2 ^ levels = 1 * 2 ^ levels := (Nat.one_mul _).symm
  rw [width, layer_take, Nat.one_mul, layer_drop] at folded
  have first := congrArg head? folded
  rwa [head?_take, if_neg (by decide), head?_drop, head?_cons] at first

section Audit

def sibling (index : Nat) : Nat := if index % 2 = 0 then index + 1 else index - 1

variable (combine)

/-- The siblings of `count` nodes on the way up from a node of the layer `level`. -/
def auditPath (blank : α) (leaves : List α) : Nat → Nat → Nat → List α
  | 0, _, _ => []
  | count + 1, level, index =>
    ((layer combine leaves level)[sibling index]?).getD blank ::
      auditPath blank leaves count (level + 1) (index / 2)

theorem layer_parent {height : Nat} (blank : α) (full : leaves.length = 2 ^ height) (inside : level < height)
    (found : (layer combine leaves level)[index]? = some node) :
    (layer combine leaves (level + 1))[index / 2]? =
      some (if index % 2 = 0 then combine node (((layer combine leaves level)[sibling index]?).getD blank)
        else combine (((layer combine leaves level)[sibling index]?).getD blank) node) := by
  obtain ⟨bound, value⟩ := List.getElem?_eq_some_iff.mp found
  have width := layer_length combine leaves height full (Nat.le_of_lt inside)
  have even : (layer combine leaves level).length = 2 * 2 ^ (height - level - 1) := by
    rw [width, ← Nat.pow_succ']
    congr 1
    omega
  rw [layer_getElem? combine leaves level (index / 2) (by omega)]
  rcases Nat.mod_two_eq_zero_or_one index with left | right
  · have position : 2 * (index / 2) = index := by omega
    have next : sibling index = 2 * (index / 2) + 1 := by rw [sibling, if_pos left]; omega
    rw [if_pos left, next, getElem?_eq_getElem (by omega), Option.getD_some]
    simp only [position, value]
  · have position : 2 * (index / 2) + 1 = index := by omega
    have next : sibling index = 2 * (index / 2) := by rw [sibling, if_neg (by omega)]; omega
    rw [if_neg (by omega), next, getElem?_eq_getElem (by omega), Option.getD_some]
    simp only [position, value]

theorem climb_auditPath {height count : Nat} (blank : α)
    (full : leaves.length = 2 ^ height) (inside : level + count ≤ height)
    (found : (layer combine leaves level)[index]? = some node) :
    (layer combine leaves (level + count))[index / 2 ^ count]? =
      some (climb combine index node (auditPath combine blank leaves count level index)) := by
  induction count generalizing level index node with
  | zero => simpa [auditPath, climb] using found
  | succ count ih =>
    have parent := layer_parent combine blank full (by omega) found
    have above := ih (by omega) parent
    rw [Nat.div_div_eq_div_mul, ← Nat.pow_succ', Nat.add_assoc, Nat.add_comm 1] at above
    exact above

theorem climb_root {height : Nat} (blank : α)
    (full : leaves.length = 2 ^ height) (top : layer combine leaves height = [root]) (inside : level ≤ height)
    (found : (layer combine leaves level)[index]? = some node) :
    climb combine index node (auditPath combine blank leaves (height - level) level index) = root := by
  have climbed := climb_auditPath combine blank full (Nat.add_sub_cancel' inside).le found
  have bound := (List.getElem?_eq_some_iff.mp found).1
  rw [layer_length combine leaves height full inside] at bound
  rw [Nat.add_sub_cancel' inside, Nat.div_eq_of_lt bound, top] at climbed
  exact (Option.some.inj climbed).symm

variable {combine}

theorem climb_injective (injective : Function.Injective2 combine) {left right : α}
    (same : climb combine index left path = climb combine index right path) : left = right := by
  induction path generalizing index left right with
  | nil => exact same
  | cons sibling path ih =>
    have parents := ih same
    split at parents
    case isTrue => exact (injective parents).1
    case isFalse => exact (injective parents).2

end Audit

section Loops

variable (combine)

/-- All layers from `nodes` up to the first one with at most one node. -/
def layersFrom : Nat → List α → List (List α)
  | 0, nodes => [nodes]
  | fuel + 1, nodes =>
    if nodes.length ≤ 1 then [nodes] else nodes :: layersFrom fuel (pairUp combine nodes)

/-- The last of the layers that `layersFrom` lists. -/
def reduce : Nat → List α → List α
  | 0, nodes => nodes
  | fuel + 1, nodes => if nodes.length ≤ 1 then nodes else reduce fuel (pairUp combine nodes)

private theorem halves {nodes : List α} {height : Nat} (full : nodes.length = 2 ^ (height + 1)) :
    ¬ nodes.length ≤ 1 ∧ (pairUp combine nodes).length = 2 ^ height := by
  have positive : 0 < 2 ^ height := Nat.two_pow_pos height
  rw [pairUp_length, full, Nat.pow_succ]
  omega

theorem layersFrom_eq_map {nodes : List α} {height fuel : Nat}
    (full : nodes.length = 2 ^ height) (enough : height ≤ fuel) :
    layersFrom combine fuel nodes = (range (height + 1)).map (layer combine nodes) := by
  induction height generalizing fuel nodes with
  | zero => cases fuel <;> simp [layersFrom, full]
  | succ height ih =>
    obtain ⟨fuel, rfl⟩ : ∃ rest, fuel = rest + 1 := ⟨fuel - 1, by omega⟩
    obtain ⟨long, half⟩ := halves combine full
    rw [layersFrom, if_neg long, ih half (by omega)]
    rw [@List.range_succ_eq_map (height + 1)]
    simp [layer_pairUp]

theorem reduce_eq_layer {nodes : List α} {height fuel : Nat}
    (full : nodes.length = 2 ^ height) (enough : height ≤ fuel) :
    reduce combine fuel nodes = layer combine nodes height := by
  induction height generalizing fuel nodes with
  | zero => cases fuel <;> simp [reduce, full]
  | succ height ih =>
    obtain ⟨fuel, rfl⟩ : ∃ rest, fuel = rest + 1 := ⟨fuel - 1, by omega⟩
    obtain ⟨long, half⟩ := halves combine full
    rw [reduce, if_neg long, ih half (by omega), layer_pairUp]

end Loops

section Towers

variable (combine)

/-- The root of the complete tree of the given height whose leaves are all `leaf`. -/
def tower (leaf : α) (height : Nat) : α :=
  (fun node => combine node node)^[height] leaf

theorem tower_succ (leaf : α) (height : Nat) :
    tower combine leaf (height + 1) =
      combine (tower combine leaf height) (tower combine leaf height) :=
  iterate_succ_apply' _ _ _

theorem tower_add (leaf : α) (lower upper : Nat) :
    tower combine (tower combine leaf lower) upper = tower combine leaf (lower + upper) := by
  rw [Nat.add_comm, tower, tower, tower, iterate_add_apply]

theorem layer_replicate_mul (leaf : α) (count level : Nat) :
    layer combine (replicate (count * 2 ^ level) leaf) level = replicate count (tower combine leaf level) := by
  induction level generalizing leaf with
  | zero => rw [Nat.pow_zero, Nat.mul_one]; rfl
  | succ level ih =>
    have width : count * 2 ^ (level + 1) = 2 * (count * 2 ^ level) := by ring
    rw [← layer_pairUp, width, pairUp_replicate, ih]
    rfl

theorem layer_replicate (leaf : α) (height : Nat) (inside : level ≤ height) :
    layer combine (replicate (2 ^ height) leaf) level =
      replicate (2 ^ (height - level)) (tower combine leaf level) := by
  rw [← layer_replicate_mul, ← Nat.pow_add, Nat.sub_add_cancel inside]

/-- The roots of the uniform subtrees that pad a tree of height `low` by `count` levels. -/
def padPath (blank : α) (low count : Nat) : List α :=
  (range' low count).map (tower combine blank)

/-- Padding a full tree on the right hashes its root with uniform subtrees. -/
theorem layer_pad {nodes : List α} {low : Nat} (blank : α) (count : Nat) (full : nodes.length = 2 ^ low)
    (top : layer combine nodes low = [root]) :
    layer combine (nodes ++ replicate (2 ^ (low + count) - 2 ^ low) blank) (low + count) =
      [climb combine 0 root (padPath combine blank low count)] := by
  induction count generalizing nodes low root with
  | zero =>
    rw [Nat.add_zero, Nat.sub_self, replicate_zero, append_nil, top]
    rfl
  | succ count ih =>
    have half : (nodes ++ replicate (2 ^ low) blank).length = 2 ^ (low + 1) := by
      rw [length_append, full, length_replicate, Nat.pow_succ]
      omega
    have parent : layer combine (nodes ++ replicate (2 ^ low) blank) (low + 1) =
        [combine root (tower combine blank low)] := by
      have aligned : nodes.length = 1 * 2 ^ low := by rw [full, Nat.one_mul]
      rw [layer_succ, layer_append aligned, top, layer_replicate combine blank low (Nat.le_refl _), Nat.sub_self]
      rfl
    have grown := ih half parent
    have more : 2 ^ (low + 1) ≤ 2 ^ (low + 1 + count) := Nat.pow_le_pow_right (by decide) (Nat.le_add_right _ _)
    have number : low + (count + 1) = low + 1 + count := by omega
    have split : 2 ^ (low + (count + 1)) - 2 ^ low = 2 ^ low + (2 ^ (low + 1 + count) - 2 ^ (low + 1)) := by
      rw [number]
      omega
    rw [split, replicate_add, ← append_assoc, number, grown]
    rfl

/-- The siblings of a node of a uniform tree, bottom up. -/
def towerPath (leaf : α) (count : Nat) : List α :=
  (range count).map (tower combine leaf)

@[simp] theorem towerPath_length (leaf : α) (count : Nat) : (towerPath combine leaf count).length = count := by
  simp [towerPath]

theorem climb_towerPath (index : Nat) (leaf : α) (count : Nat) :
    climb combine index leaf (towerPath combine leaf count) = tower combine leaf count := by
  induction count generalizing index leaf with
  | zero => rfl
  | succ count ih =>
    have shifted : towerPath combine leaf (count + 1) =
        leaf :: towerPath combine (combine leaf leaf) count := by
      simp only [towerPath, range_succ_eq_map, map_cons, map_map]
      rfl
    rw [shifted, climb, ite_self, ih]
    rfl

/-- `child` is one of the two nodes that `parent` was combined from. -/
def Child (child parent : α) : Prop :=
  ∃ other, parent = combine child other ∨ parent = combine other child

/-- No digest stands below itself, however long the way. -/
def Acyclic : Prop :=
  ∀ node, ¬ Relation.TransGen (Child combine) node node

variable {combine}

theorem climb_above (nonempty : path ≠ []) (index : Nat) (node : α) :
    Relation.TransGen (Child combine) node (climb combine index node path) := by
  induction path generalizing index node with
  | nil => exact absurd rfl nonempty
  | cons sibling path ih =>
    have step : Child combine node (if index % 2 = 0 then combine node sibling else combine sibling node) := by
      split
      case isTrue => exact ⟨sibling, .inl rfl⟩
      case isFalse => exact ⟨sibling, .inr rfl⟩
    cases path with
    | nil => exact .single step
    | cons next path => exact .head step (ih (cons_ne_nil _ _) _ _)

theorem tower_injective (acyclic : Acyclic combine) (leaf : α) : Function.Injective (tower combine leaf) := by
  have distinct {lower upper : Nat} (less : lower < upper) :
      tower combine leaf lower ≠ tower combine leaf upper := by
    intro same
    have cycle := Nat.rel_of_forall_rel_succ_of_lt (Relation.TransGen (Child combine))
      (fun height => .single ⟨_, .inl (tower_succ combine leaf height)⟩) less
    rw [same] at cycle
    exact acyclic _ cycle
  exact .of_lt_imp_ne fun _ _ => distinct

end Towers

end HashTree
