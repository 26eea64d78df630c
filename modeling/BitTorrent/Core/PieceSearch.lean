import BitTorrent.Core.TorrentContext

/-! # Searching for a piece

`StreamingPieceSelector` of `core/selector.rs` and `find_next_missing_piece` of the context.  Both walk
through the pieces from some piece on and then from the first one.
-/

namespace BitTorrent

open List

/-- What a selector asks about the pieces. -/
structure PieceAvailabilityView where
  numberOfPieces : Nat
  isPieceWanted : Nat → Bool
  isPieceLocal : Nat → Bool
  isPieceVerifying : Nat → Bool

structure StreamingPieceSelector where
  cursorPiece : UInt32
  lookaheadWindow : UInt32

namespace StreamingPieceSelector

variable (selector : StreamingPieceSelector) (availability : PieceAvailabilityView) (onRemotePeer : Nat → Bool)

def eligible (piece : Nat) : Bool :=
  availability.isPieceWanted piece && !availability.isPieceLocal piece && !availability.isPieceVerifying piece &&
    onRemotePeer piece

def pieces (first last : Nat) : List Nat := range' first (last - first)

def windowEnd (total : Nat) : Nat :=
  min (min (selector.cursorPiece.toNat + selector.lookaheadWindow.toNat) (u32Size - 1)) total

/-- What the three loops go through. -/
def loops (total : Nat) : List (List Nat) :=
  [pieces selector.cursorPiece.toNat (selector.windowEnd total), pieces (selector.windowEnd total) total,
    pieces 0 (min selector.cursorPiece.toNat total)]

def selectPiece : Option Nat :=
  let total := availability.numberOfPieces % u32Size
  if total = 0 then none
  else (selector.loops total).findSome? fun range => range.find? (eligible availability onRemotePeer)

/-- The pieces from the cursor to the last one, and then those before the cursor. -/
def order (total : Nat) : List Nat :=
  pieces selector.cursorPiece.toNat total ++ pieces 0 (min selector.cursorPiece.toNat total)

variable {selector availability onRemotePeer} {first middle last : Nat}

theorem pieces_append (lower : first ≤ middle) (upper : middle ≤ last) :
    pieces first middle ++ pieces middle last = pieces first last := by
  have start : middle = first + 1 * (middle - first) := by omega
  have whole : middle - first + (last - middle) = last - first := by omega
  rw [pieces, pieces, pieces, ← whole, ← range'_append, ← start]

theorem pieces_eq_nil (empty : last ≤ first) : pieces first last = [] := by
  rw [pieces, Nat.sub_eq_zero_of_le empty, range'_zero]

theorem flatten_loops (selector : StreamingPieceSelector) (total : Nat) :
    (selector.loops total).flatten = selector.order total := by
  have bounded := selector.cursorPiece.toNat_lt
  have size : u32Size = 2 ^ 32 := rfl
  have front : pieces selector.cursorPiece.toNat (selector.windowEnd total) ++
      pieces (selector.windowEnd total) total = pieces selector.cursorPiece.toNat total := by
    rw [windowEnd]
    by_cases inside : selector.cursorPiece.toNat ≤ total
    · exact pieces_append (by omega) (Nat.min_le_right _ _)
    · rw [pieces_eq_nil (by omega), pieces_eq_nil (by omega), pieces_eq_nil (by omega)]
      rfl
  rw [order, ← front, loops, flatten_cons, flatten_cons, flatten_singleton, append_assoc]

theorem order_perm (selector : StreamingPieceSelector) (total : Nat) :
    (selector.order total).Perm (range total) := by
  have whole : pieces 0 (min selector.cursorPiece.toNat total) ++ pieces selector.cursorPiece.toNat total =
      range total := by
    rw [range_eq_range']
    rcases Nat.le_total selector.cursorPiece.toNat total with inside | beyond
    · rw [Nat.min_eq_left inside]
      exact pieces_append (Nat.zero_le _) inside
    · rw [Nat.min_eq_right beyond, pieces_eq_nil beyond, append_nil]
      rfl
  exact perm_append_comm.trans (.of_eq whole)

/-- The selector takes the first eligible piece in the order from the cursor on, in which each piece
stands once. -/
theorem selectPiece_first (few : availability.numberOfPieces < u32Size) :
    selector.selectPiece availability onRemotePeer =
        (selector.order availability.numberOfPieces).find? (eligible availability onRemotePeer) ∧
      (selector.loops availability.numberOfPieces).flatten = selector.order availability.numberOfPieces ∧
      (selector.order availability.numberOfPieces).Perm (range availability.numberOfPieces) ∧
      (selector.selectPiece availability onRemotePeer = none ↔
        ∀ piece < availability.numberOfPieces, eligible availability onRemotePeer piece = false) := by
  have complete := selector.order_perm availability.numberOfPieces
  have found : selector.selectPiece availability onRemotePeer =
      (selector.order availability.numberOfPieces).find? (eligible availability onRemotePeer) := by
    rw [selectPiece, Nat.mod_eq_of_lt few]
    split
    case isTrue none =>
      rw [none] at complete ⊢
      rw [complete.eq_nil]
      rfl
    case isFalse => rw [← flatten_loops, find?_flatten]
  refine ⟨found, flatten_loops selector _, complete, ?_⟩
  rw [found, find?_eq_none]
  simp only [complete.mem_iff, mem_range, Bool.not_eq_true]

/-- A cursor behind the window goes on with the pieces before it. -/
theorem selectPiece_first_wraps :
    (StreamingPieceSelector.mk 2 7).selectPiece ⟨3, fun _ => true, (· == 0), fun _ => false⟩ (· == 1) = some 1 :=
  (selectPiece_first (show 3 < u32Size by decide)).1

/-- The number of pieces is cut to 32 bits. -/
theorem selectPiece_cut :
    (StreamingPieceSelector.mk 0 1).selectPiece ⟨u32Size, fun _ => true, fun _ => false, fun _ => false⟩
        (fun _ => true) = none ∧
      eligible ⟨u32Size, fun _ => true, fun _ => false, fun _ => false⟩ (fun _ => true) 0 = true :=
  ⟨rfl, rfl⟩

end StreamingPieceSelector

section Circle

def circle (count start : Nat) : List Nat := (range' start count).map (· % count)

/-- The loop of the search, for as long as the fuel lasts.  Counting up can overflow, and there may be
no remainder. -/
def findFrom (canFetch : Nat → Bool) (count startPiece : Nat) : Nat → Nat → Option (Outcome (Bool × Nat))
  | 0, _ => none
  | fuel + 1, currentPiece =>
    if canFetch currentPiece then some (.ok (true, currentPiece))
    else if u32Size ≤ currentPiece + 1 ∨ count = 0 then some .panic
    else
      let next := (currentPiece + 1) % count
      if next = startPiece then some (.ok (false, next)) else findFrom canFetch count startPiece fuel next

variable {canFetch : Nat → Bool} {count start fuel : Nat}

theorem findFrom_steps {here steps : Nat} (few : count < u32Size) (positive : 0 < count)
    (apart : ∀ step < steps, (here + step + 1) % count ≠ start) :
    findFrom canFetch count start (steps + fuel) (here % count) =
      (((range' here steps).map (· % count)).find? canFetch).elim
        (findFrom canFetch count start fuel ((here + steps) % count)) fun piece => some (.ok (true, piece)) := by
  induction steps generalizing here with
  | zero => rw [Nat.zero_add]; rfl
  | succ steps ih =>
    have small := Nat.mod_lt here positive
    rw [range'_succ, map_cons, find?_cons, Nat.succ_add, findFrom]
    cases canFetch (here % count) with
    | true => rfl
    | false =>
      have later : ∀ step < steps, (here + 1 + step + 1) % count ≠ start := by
        intro step inside
        rw [Nat.add_right_comm here]
        exact apart (step + 1) (by omega)
      rw [if_neg Bool.false_ne_true, if_neg (by omega)]
      dsimp only
      rw [Nat.mod_add_mod, if_neg (apart 0 (by omega)), ih later, Nat.add_assoc here, Nat.add_comm 1]

theorem findFrom_circle (few : count < u32Size) (inside : start < count) (enough : count ≤ fuel) :
    findFrom canFetch count start fuel start =
      some (.ok (((circle count start).find? canFetch).elim (false, start) fun piece => (true, piece))) := by
  obtain ⟨last, rfl⟩ := Nat.exists_eq_succ_of_ne_zero (Nat.ne_zero_of_lt inside)
  obtain ⟨more, rfl⟩ := Nat.exists_eq_add_of_le enough
  have apart : ∀ step < last, (start + step + 1) % (last + 1) ≠ start := by
    intro step below same
    have between := Nat.sub_mod_eq_zero_of_mod_eq (same.trans (Nat.mod_eq_of_lt inside).symm)
    rw [Nat.mod_eq_of_lt (by omega)] at between
    omega
  have around : ((start + last) % (last + 1) + 1) % (last + 1) = start := by
    rw [Nat.mod_add_mod, Nat.add_assoc, Nat.add_mod_right, Nat.mod_eq_of_lt inside]
  have small : (start + last) % (last + 1) < last + 1 := Nat.mod_lt _ (Nat.zero_lt_succ last)
  have steps := @findFrom_steps canFetch (last + 1) start (1 + more) start last few (Nat.zero_lt_succ last) apart
  rw [Nat.mod_eq_of_lt inside, ← Nat.add_assoc] at steps
  rw [circle, range'_1_concat, map_append, find?_append, map_singleton, steps]
  cases ((range' start last).map (· % (last + 1))).find? canFetch with
  | some piece => rfl
  | none =>
    rw [Option.elim_none, Option.none_or, find?_singleton, Nat.add_comm 1, findFrom]
    cases canFetch ((start + last) % (last + 1)) with
    | true => rfl
    | false =>
      rw [if_neg Bool.false_ne_true, if_neg (by omega)]
      dsimp only
      rw [if_pos around, around]
      rfl

end Circle

namespace TorrentContext

/-- A missing piece that is wanted and that some peer has. -/
def canFetch (context : TorrentContext) (piece : Nat) : Bool :=
  context.isPieceMissing piece && context.isPieceWanted piece &&
    ((context.pieceData[piece]?).map fun info => decide (0 < info.peerCount)).getD false

def findNextMissingPiece (context : TorrentContext) (startPiece : UInt32) (fuel : Nat) :
    Option (Outcome (Bool × Nat)) :=
  if context.numberOfPieces = 0 ∨ context.pieceData = [] then some (.ok (false, 0))
  else findFrom context.canFetch context.pieceCount startPiece.toNat fuel startPiece.toNat

/-- The search ends, and with the first piece of the circle that can be fetched. -/
def FindsNext (context : TorrentContext) (startPiece : UInt32) : Prop :=
  ∃ enough answer, (∀ fuel, enough ≤ fuel → context.findNextMissingPiece startPiece fuel = some (.ok answer)) ∧
    (circle context.numberOfPieces startPiece.toNat).find? context.canFetch = if answer.1 then some answer.2 else none

variable {context : TorrentContext}

theorem canFetch_of_unavailable (unavailable : ∀ info ∈ context.pieceData, info.peerCount = 0) (piece : Nat) :
    context.canFetch piece = false := by
  cases found : context.pieceData[piece]? with
  | none => simp [canFetch, found]
  | some info => simp [canFetch, found, unavailable info (mem_of_getElem? found)]

theorem findsNext_of_empty {startPiece : UInt32} (empty : context.pieceData = []) : context.FindsNext startPiece := by
  refine ⟨0, (false, 0), fun fuel _ => if_pos (.inr empty), find?_eq_none.mpr fun piece _ => ?_⟩
  rw [canFetch_of_unavailable (by simp [empty])]
  exact Bool.false_ne_true

theorem findsNext_of_inside {startPiece : UInt32} (few : context.numberOfPieces < u32Size)
    (inside : startPiece.toNat < context.numberOfPieces) : context.FindsNext startPiece := by
  by_cases empty : context.pieceData = []
  · exact findsNext_of_empty empty
  · have search (fuel : Nat) := @findFrom_circle context.canFetch _ _ fuel few inside
    refine ⟨context.numberOfPieces, _, fun fuel enough => Eq.trans ?_ (search fuel enough), ?_⟩
    · rw [findNextMissingPiece, if_neg (not_or.mpr ⟨by omega, empty⟩), pieceCount, Nat.mod_eq_of_lt few]
    · cases (circle context.numberOfPieces startPiece.toNat).find? context.canFetch with
      | none => rfl
      | some piece => rfl

/-- A search that starts behind the last piece goes on with the piece after its start, and the answer is
right if the first piece that it comes to is the first of the circle. -/
structure FoundBeyond (context : TorrentContext) (startPiece : UInt32) : Prop where
  passed : context.canFetch startPiece.toNat = false
  counts : startPiece.toNat + 1 < u32Size
  same : ∃ steps piece,
    ((range' (startPiece.toNat + 1) steps).map (· % context.numberOfPieces)).find? context.canFetch = some piece ∧
      (circle context.numberOfPieces startPiece.toNat).find? context.canFetch = some piece

section Beyond

variable {startPiece : UInt32} (positive : 0 < context.numberOfPieces) (few : context.numberOfPieces < u32Size)
  (entries : context.pieceData ≠ []) (beyond : context.numberOfPieces ≤ startPiece.toNat)
include positive few entries beyond

theorem findNextMissingPiece_beyond (fuel : Nat) :
    context.findNextMissingPiece startPiece (fuel + 1) =
      if context.canFetch startPiece.toNat then some (.ok (true, startPiece.toNat))
      else if u32Size ≤ startPiece.toNat + 1 then some .panic
      else (((range' (startPiece.toNat + 1) fuel).map (· % context.numberOfPieces)).find? context.canFetch).map
        fun piece => .ok (true, piece) := by
  have apart (piece : Nat) : piece % context.numberOfPieces ≠ startPiece.toNat :=
    ((Nat.mod_lt piece positive).trans_le beyond).ne
  rw [findNextMissingPiece, if_neg (not_or.mpr ⟨by omega, entries⟩), pieceCount, Nat.mod_eq_of_lt few, findFrom]
  dsimp only
  rw [if_neg (apart _), ← Nat.add_zero fuel, findFrom_steps few positive fun _ _ => apart _]
  simp only [positive.ne', or_false, Nat.add_zero]
  cases ((range' (startPiece.toNat + 1) fuel).map (· % context.numberOfPieces)).find? context.canFetch <;> rfl

theorem findsNext_beyond_iff : context.FindsNext startPiece ↔ context.FoundBeyond startPiece := by
  constructor
  case mp =>
    rintro ⟨enough, answer, search, first⟩
    have ran := search (enough + 1) (by omega)
    rw [findNextMissingPiece_beyond positive few entries beyond] at ran
    split at ran
    case isTrue =>
      cases ran
      obtain ⟨place, _, same⟩ := mem_map.mp (mem_of_find?_eq_some first)
      have inside := Nat.mod_lt place positive
      omega
    case isFalse passed =>
      split at ran
      case isTrue => cases ran
      case isFalse counts =>
        obtain ⟨piece, found, same⟩ := Option.map_eq_some_iff.mp ran
        cases same
        exact ⟨Bool.not_eq_true _ ▸ passed, Nat.not_le.mp counts, enough, piece, found, first⟩
  case mpr =>
    rintro ⟨passed, counts, steps, piece, found, first⟩
    refine ⟨steps + 1, (true, piece), fun fuel enough => ?_, first⟩
    obtain ⟨more, rfl⟩ := Nat.exists_eq_add_of_le' enough
    rw [← Nat.add_assoc, findNextMissingPiece_beyond positive few entries beyond, if_neg (ne_true_of_eq_false passed),
      if_neg (Nat.not_le.mpr counts), Nat.add_comm more, ← range'_append_1, map_append, find?_append, found]
    rfl

end Beyond

/-- A search is right exactly when it starts at one of the pieces, or else happens to find the piece
that comes first in the circle. -/
theorem findsNext_iff (startPiece : UInt32) (positive : 0 < context.numberOfPieces)
    (few : context.numberOfPieces < u32Size) :
    context.FindsNext startPiece ↔
      startPiece.toNat < context.numberOfPieces ∨ context.pieceData = [] ∨ context.FoundBeyond startPiece := by
  rcases Nat.lt_or_ge startPiece.toNat context.numberOfPieces with inside | beyond
  · exact iff_of_true (findsNext_of_inside few inside) (.inl inside)
  · rw [or_iff_right (Nat.not_lt.mpr beyond)]
    by_cases empty : context.pieceData = []
    · exact iff_of_true (findsNext_of_empty empty) (.inl empty)
    · rw [or_iff_right empty]
      exact findsNext_beyond_iff positive few empty beyond

/-- Only the first piece is missing, and so many peers have it. -/
def firstOnly (count peerCount : Nat) : TorrentContext :=
  { (blank 1 count ⟨false, false, false⟩).markPieceMissing 0 true with pieceData := [⟨peerCount, 1⟩] }

/-- From behind three pieces the first one is found, which is the only one to fetch. -/
theorem findsNext_behind_three : (firstOnly 3 1).FindsNext 7 :=
  (findsNext_iff 7 (by decide) (by decide)).mpr (.inr (.inr ⟨by decide, by decide, 3, 0, by decide, by decide⟩))

/-- With one piece that no peer has, a search from the second piece comes to no answer. -/
theorem unavailable_one_endless :
    (firstOnly 1 0).numberOfPieces = 1 ∧
      ∀ fuel result, (firstOnly 1 0).findNextMissingPiece 1 fuel ≠ some (.ok result) := by
  refine ⟨rfl, fun fuel result ran => ?_⟩
  cases fuel with
  | zero => cases ran
  | succ fuel =>
    rw [findNextMissingPiece_beyond (by decide) (by decide) (cons_ne_nil _ _) (by decide), if_neg (by decide),
      if_neg (by decide), Option.map_eq_some_iff] at ran
    obtain ⟨piece, found, _⟩ := ran
    have fetched := find?_some found
    rw [canFetch_of_unavailable (by simp [firstOnly])] at fetched
    cases fetched

end TorrentContext

end BitTorrent
