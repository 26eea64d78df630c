import BitTorrent.Core.PieceAssembly

/-! # A piece is verified only when it is whole

Presence is kept for each 16 KiB slot, while a call may carry any number of bytes that fits
in the piece.  In runs whose calls carry whole blocks, a piece that is found complete has
every byte written by a call that marked its block; `marks` remembers those calls.
-/

namespace BitTorrent

open FlatStore Runs PieceBuffer Function

/-- The data of the call that marked each block of a piece under assembly. -/
abbrev Marks := Nat → Nat → Option Bytes

namespace TorrentContext

variable {σ : Type} {digests : Digests}

def PutsBlock (storage : BlockStorage σ) (digests : Digests) (context : TorrentContext) (state : σ)
    (call : BlockCall) : Prop :=
  context.Enters call.piece call.begin_ call.data.length ∧
    ∃ found, (context.receive storage digests state call).2.2 = .ok found

open Classical in
noncomputable def note (storage : BlockStorage σ) (digests : Digests) (context : TorrentContext) (state : σ)
    (marks : Marks) (call : BlockCall) : Marks :=
  if context.PutsBlock storage digests state call then
    update marks call.piece (update (marks call.piece) call.block (some call.data))
  else marks

/-- A piece that was found complete starts anew. -/
def resetMarks (marks : Marks) (piece : Nat) : Outcome (Option BlockSources) → Marks
  | .ok (some _) => update marks piece fun _ => none
  | _ => marks

/-- `process_piece_block`, with the marks carried along. -/
noncomputable def assemblyStep (storage : BlockStorage σ) (digests : Digests)
    (current : TorrentContext × σ × Marks) (call : BlockCall) : TorrentContext × σ × Marks :=
  let next := downloadStep storage digests (current.1, current.2.1) (.block call)
  (next.1, next.2, resetMarks (current.1.note storage digests current.2.1 current.2.2 call) call.piece
    (current.1.receive storage digests current.2.1 call).2.2)

/-- Whenever the call finds its piece complete, each byte of the piece is the byte of the call
that marked its block. -/
def HandsOverWhole (store : ByteStore σ) (digests : Digests) (context : TorrentContext) (state : σ)
    (marks : Marks) (call : BlockCall) : Prop :=
  ∀ after afterState sources,
    context.receive store.toBlockStorage digests state call = (after, afterState, .ok (some sources)) →
    ∀ offset, offset < context.getPieceLength call.piece →
      ∃ data, context.note store.toBlockStorage digests state marks call call.piece (offset / blockSize) = some data ∧
        data[offset % blockSize]? = some (store.content afterState (call.piece * context.pieceLength + offset))

/-- A block that is looked at carries all its bytes. -/
def FullBlock (context : TorrentContext) (call : BlockCall) : Prop :=
  context.Enters call.piece call.begin_ call.data.length →
    call.data.length = min blockSize (context.getPieceLength call.piece - call.begin_)

/-- The bytes of a present block are those of the call that marked it. -/
structure BlockHeld (content : Nat → UInt8) (context : TorrentContext) (piece block : Nat)
    (data : Bytes) : Prop where
  full : data.length = min blockSize (context.getPieceLength piece - block * blockSize)
  stored : read content (piece * context.pieceLength + block * blockSize) data.length = data

def Backed (content : Nat → UInt8) (context : TorrentContext) (marks : Marks) (piece : Nat)
    (buffer : PieceBuffer) : Prop :=
  ∀ block, buffer.isBlockPresent block = true →
    ∃ data, marks piece block = some data ∧ context.BlockHeld content piece block data

structure Assembling (content : Nat → UInt8) (context : TorrentContext) (marks : Marks) : Prop where
  fit : context.BuffersFit
  lengths : ∀ piece, context.getPieceLength piece ≤ context.pieceLength
  backed : ∀ piece buffer, context.pieceBuffers piece = some buffer → context.Backed content marks piece buffer

variable {content base : Nat → UInt8} {context after : TorrentContext} {marks next : Marks} {piece : Nat}
  {buffer : PieceBuffer} {position block other : Nat} {peerIp : String}

theorem Assembling.pieceBuffer (assembling : context.Assembling content marks) (piece : Nat) :
    context.Backed content marks piece (context.pieceBuffer piece) := by
  simp only [TorrentContext.pieceBuffer]
  cases held : context.pieceBuffers piece with
  | some buffer => exact assembling.backed piece buffer held
  | none =>
    intro block present
    rw [Option.getD_none, new_isBlockPresent] at present
    cases present

def InBlock (context : TorrentContext) (piece block position : Nat) : Prop :=
  piece * context.pieceLength + block * blockSize ≤ position ∧
    position < piece * context.pieceLength + block * blockSize + blockSize ∧
    position < piece * context.pieceLength + context.getPieceLength piece

theorem BlockHeld.congr {data : Bytes} (held : context.BlockHeld base piece block data)
    (same : SameTorrent context after)
    (agree : ∀ position, context.InBlock piece block position → content position = base position) :
    after.BlockHeld content piece block data := by
  have full := held.full
  refine ⟨by rw [same.lengths, full], ?_⟩
  rw [same.pieceLength, read_congr fun position lower upper => agree position ⟨lower, ?_, ?_⟩]
  · exact held.stored
  · omega
  · omega

theorem Backed.congr (backed : context.Backed base marks piece buffer) (same : SameTorrent context after)
    (kept : next piece = marks piece)
    (agree : ∀ block, buffer.isBlockPresent block = true → ∀ position, context.InBlock piece block position →
      content position = base position) : after.Backed content next piece buffer := by
  intro block present
  obtain ⟨data, marked, held⟩ := backed block present
  exact ⟨data, by rw [kept, marked], held.congr same (agree block present)⟩

theorem inBlock_other (lengths : ∀ piece, context.getPieceLength piece ≤ context.pieceLength)
    (different : other ≠ piece) (inside : context.InBlock other block position) :
    ¬ (piece * context.pieceLength ≤ position ∧
      position < piece * context.pieceLength + context.getPieceLength piece) := by
  rintro ⟨lower, upper⟩
  obtain ⟨otherLower, _, otherUpper⟩ := inside
  have own := lengths piece
  have others := lengths other
  rcases Nat.lt_or_gt_of_ne different with below | above
  · have gap : (other + 1) * context.pieceLength ≤ piece * context.pieceLength := Nat.mul_le_mul_right _ below
    rw [Nat.add_mul, Nat.one_mul] at gap
    omega
  · have gap : (piece + 1) * context.pieceLength ≤ other * context.pieceLength := Nat.mul_le_mul_right _ above
    rw [Nat.add_mul, Nat.one_mul] at gap
    omega

theorem inBlock_unique {first second : Nat} (left : context.InBlock piece first position)
    (right : context.InBlock piece second position) : first = second := by
  obtain ⟨leftLower, leftUpper, _⟩ := left
  obtain ⟨rightLower, rightUpper, _⟩ := right
  simp only [blockSize] at *
  omega

/-- A block enters: bytes may change in the place of this block, if it is missing. -/
theorem Assembling.enter (assembling : context.Assembling base marks)
    (changes : ∀ position, content position ≠ base position →
      context.InBlock piece block position ∧ (context.pieceBuffer piece).isBlockPresent block = false) :
    (context.entered piece block peerIp).Assembling content marks := by
  have same : SameTorrent context (context.entered piece block peerIp) := ⟨rfl, rfl, rfl, rfl, rfl, rfl, fun _ => rfl⟩
  refine ⟨?_, assembling.lengths, ?_⟩
  · intro other buffer held
    simp only [entered, update_apply] at held
    split at held
    case isTrue sameTable =>
      cases held
      rw [sameTable]
      exact assembling.fit.pieceBuffer piece
    case isFalse => exact assembling.fit other buffer held
  · intro other buffer held
    simp only [entered, update_apply] at held
    split at held
    case isTrue samePiece =>
      cases held
      rw [samePiece]
      refine (assembling.pieceBuffer piece).congr same rfl fun present there position inside => ?_
      by_contra changed
      obtain ⟨own, absent⟩ := changes position changed
      rw [inBlock_unique own inside, there] at absent
      cases absent
    case isFalse different =>
      refine (assembling.backed other buffer held).congr same rfl fun _ _ position inside => ?_
      by_contra changed
      obtain ⟨⟨lower, _, upper⟩, _⟩ := changes position changed
      exact inBlock_other assembling.lengths different inside ⟨by omega, upper⟩

theorem resetMarks_other (different : other ≠ piece)
    (outcome : Outcome (Option BlockSources)) : resetMarks marks piece outcome other = marks other := by
  cases outcome with
  | ok found =>
    cases found with
    | none => rfl
    | some sources => exact update_of_ne different _ _
  | err => rfl
  | panic => rfl

theorem Assembling.settle (assembling : context.Assembling content marks)
    (table : buffer.tableSize = blocksOf (context.getPieceLength piece))
    (others : ∀ other, other ≠ piece → next other = marks other) (backed : context.Backed content next piece buffer) :
    (context.settleBuffer piece buffer).1.Assembling content
      (resetMarks next piece (.ok (context.settleBuffer piece buffer).2)) := by
  have same : SameTorrent context (context.settleBuffer piece buffer).1 := by
    rw [settleBuffer_frame]
    exact ⟨rfl, rfl, rfl, rfl, rfl, rfl, fun _ => rfl⟩
  have held (other : Nat) (kept : PieceBuffer)
      (found : (context.settleBuffer piece buffer).1.pieceBuffers other = some kept) :
      other = piece ∧ buffer.allBlocksThere = false ∧ kept = buffer ∨
        other ≠ piece ∧ context.pieceBuffers other = some kept := by
    rw [settleBuffer_pieceBuffers, update_apply] at found
    split at found
    case isFalse different => exact .inr ⟨different, found⟩
    case isTrue own =>
      split at found <;> cases found
      case isFalse incomplete => exact .inl ⟨own, by simpa using incomplete, rfl⟩
  refine ⟨?_, ?_, ?_⟩
  · intro other kept found
    rw [same.lengths]
    obtain ⟨rfl, _, rfl⟩ | ⟨_, before⟩ := held other kept found
    · exact table
    · exact assembling.fit other kept before
  · intro other
    rw [same.lengths, same.pieceLength]
    exact assembling.lengths other
  · intro other kept found
    obtain ⟨rfl, incomplete, rfl⟩ | ⟨different, before⟩ := held other kept found
    · have unset : resetMarks next other (.ok (context.settleBuffer other kept).2) = next := by
        rw [settleBuffer_complete, incomplete]
        rfl
      rw [unset]
      exact backed.congr same rfl fun _ _ _ _ => rfl
    · refine (assembling.backed other kept before).congr same ?_ fun _ _ _ _ => rfl
      rw [resetMarks_other different, others other different]

section Receive

variable {store : ByteStore σ} {state afterState : σ} {call : BlockCall}
  {outcome : Outcome (Option BlockSources)}

section

variable (full : context.FullBlock call) (enters : context.Enters call.piece call.begin_ call.data.length)
include full enters

theorem covers_inBlock
    (covered : Extent.Covers (call.piece * context.pieceLength + call.block * blockSize, call.data) position) :
    context.InBlock call.piece call.block position := by
  have aligned := enters.admissible.aligned
  have length := full enters
  have start : call.block * blockSize = call.begin_ := Nat.div_mul_cancel (Nat.dvd_of_mod_eq_zero aligned)
  obtain ⟨lower, upper⟩ := covered
  simp only at lower upper
  exact ⟨lower, by omega, by omega⟩

theorem write_changes {result : Result Unit}
    (written : store.writeBlock state (call.piece * context.pieceLength + call.block * blockSize) call.data =
      (afterState, result)) (position : Nat)
    (changed : store.content afterState position ≠ store.content state position) :
    context.InBlock call.piece call.block position ∧
      (context.pieceBuffer call.piece).isBlockPresent call.block = false := by
  refine ⟨?_, enters.absent⟩
  by_contra outside
  have uncovered := fun covered => outside (covers_inBlock full enters covered)
  cases result with
  | error reason => exact changed (store.write_error written position uncovered)
  | ok value =>
    apply changed
    rw [store.write_ok written, write_outside uncovered]

end

theorem note_of_not_puts (unmarked : ¬ context.PutsBlock store.toBlockStorage digests state call) :
    context.note store.toBlockStorage digests state marks call = marks :=
  if_neg unmarked

theorem note_of_not_ok (done : context.receive store.toBlockStorage digests state call = (after, afterState, outcome))
    (failed : ∀ found, outcome ≠ .ok found) : context.note store.toBlockStorage digests state marks call = marks := by
  refine note_of_not_puts ?_
  rintro ⟨_, found, succeeded⟩
  rw [done] at succeeded
  exact failed found succeeded

theorem note_of_not_enters (outside : ¬ context.Enters call.piece call.begin_ call.data.length) :
    context.note store.toBlockStorage digests state marks call = marks :=
  note_of_not_puts fun puts => outside puts.1

/-- The buffer with the new block is backed by the marks with the new call. -/
theorem stored_backed (assembling : context.Assembling (store.content state) marks) (full : context.FullBlock call)
    (enters : context.Enters call.piece call.begin_ call.data.length)
    (written : store.writeBlock state (call.piece * context.pieceLength + call.block * blockSize) call.data =
      (afterState, .ok ())) (added : (context.pieceBuffer call.piece).addBlock call.block call.peerIp = some buffer) :
    context.Backed (store.content afterState)
      (update marks call.piece (update (marks call.piece) call.block (some call.data)))
      call.piece buffer := by
  intro block present
  rw [(addBlock_eq_some added).2.2 block] at present
  rw [update_self]
  by_cases own : block = call.block
  · subst own
    refine ⟨call.data, update_self _ _ _, ?_, ?_⟩
    · rw [full enters, BlockCall.block, Nat.div_mul_cancel (Nat.dvd_of_mod_eq_zero enters.admissible.aligned)]
    · rw [store.write_ok written, read_write]
  · rw [decide_eq_false own, Bool.false_or] at present
    obtain ⟨data, marked, held⟩ := assembling.pieceBuffer call.piece block present
    refine ⟨data, by rw [update_of_ne own, marked], held.congr (SameAssembly.refl _).toSameTorrent ?_⟩
    intro position inside
    by_contra changed
    exact own (inBlock_unique inside (write_changes full enters written position changed).1)

theorem not_enters_of_present
    (there : (context.pieceBuffer call.piece).isBlockPresent (call.begin_ / blockSize) = true) :
    ¬ context.Enters call.piece call.begin_ call.data.length := by
  intro enters
  rw [enters.absent] at there
  cases there

theorem entered_backed (backed : context.Backed content marks piece buffer) :
    (context.entered call.piece block peerIp).Backed content marks piece buffer :=
  backed.congr ⟨rfl, rfl, rfl, rfl, rfl, rfl, fun _ => rfl⟩ rfl fun _ _ _ _ => rfl

section

variable (assembling : context.Assembling (store.content state) marks)
include assembling

theorem receive_assembling (full : context.FullBlock call)
    (done : context.receive store.toBlockStorage digests state call = (after, afterState, outcome)) :
    after.Assembling (store.content afterState)
      (resetMarks (context.note store.toBlockStorage digests state marks call) call.piece outcome) := by
  have unchanged : (context.entered call.piece call.block call.peerIp).Assembling (store.content state) marks :=
    assembling.enter fun position changed => absurd rfl changed
  cases receiveBlock_receipt done with
  | rejected =>
    rw [note_of_not_ok done (by simp)]
    exact assembling
  | ignored dropped =>
    rw [note_of_not_enters]
    · exact assembling
    · intro enters
      rw [admitBlock_of_admissible enters.admissible enters.fresh] at dropped
      cases dropped
  | refused =>
    rw [note_of_not_ok done (by simp)]
    exact unchanged
  | failed enters _ failure =>
    rw [note_of_not_ok done (by simp)]
    exact assembling.enter (write_changes full enters failure)
  | overrun enters _ written =>
    rw [note_of_not_ok done (by simp)]
    exact assembling.enter (write_changes full enters written)
  | present admissible fresh there =>
    rw [note_of_not_enters (not_enters_of_present there)]
    exact unchanged.settle (assembling.fit.pieceBuffer call.piece) (fun _ _ => rfl)
      (entered_backed (assembling.pieceBuffer call.piece))
  | stored enters _ written added =>
    have marked : context.note store.toBlockStorage digests state marks call = _ := if_pos ⟨enters, _, by rw [done]⟩
    have kept : (context.entered call.piece call.block call.peerIp).Assembling _ marks :=
      assembling.enter (write_changes full enters written)
    refine kept.settle ?_ (fun other different => ?_) ?_
    · rw [(addBlock_eq_some added).1]
      exact assembling.fit.pieceBuffer call.piece
    · rw [marked, update_of_ne different]
    · rw [marked]
      exact entered_backed (stored_backed assembling full enters written added)

/-- The buffer that was found complete is backed, and the piece has no buffer afterwards. -/
theorem complete_backed {sources : BlockSources} (full : context.FullBlock call)
    (done : context.receive store.toBlockStorage digests state call = (after, afterState, .ok (some sources))) :
    after.pieceBuffers call.piece = none ∧
      ∃ buffer, buffer.allBlocksThere = true ∧
        buffer.tableSize = blocksOf (context.getPieceLength call.piece) ∧
        context.Backed (store.content afterState) (context.note store.toBlockStorage digests state marks call)
          call.piece buffer := by
  have settled {entered : TorrentContext} {buffer : PieceBuffer}
      (found : some sources = (entered.settleBuffer call.piece buffer).2) :
      buffer.allBlocksThere = true ∧ (entered.settleBuffer call.piece buffer).1.pieceBuffers call.piece = none := by
    rw [settleBuffer_complete] at found
    rw [settleBuffer_pieceBuffers, update_self]
    split at found
    case isTrue all => exact ⟨all, if_pos all⟩
    case isFalse => cases found
  generalize complete : some sources = found at done
  cases receiveBlock_receipt done with
  | ignored => cases complete
  | present admissible fresh there =>
    obtain ⟨all, removed⟩ := settled complete
    refine ⟨removed, _, all, assembling.fit.pieceBuffer call.piece, ?_⟩
    rw [note_of_not_enters (not_enters_of_present there)]
    exact assembling.pieceBuffer call.piece
  | stored enters _ written added =>
    obtain ⟨all, removed⟩ := settled complete
    have marked : context.note store.toBlockStorage digests state marks call = _ := if_pos ⟨enters, _, by rw [done]⟩
    refine ⟨removed, _, all, ?_, ?_⟩
    · rw [(addBlock_eq_some added).1]
      exact assembling.fit.pieceBuffer call.piece
    · rw [marked]
      exact stored_backed assembling full enters written added

theorem handsOverWhole_of_assembling
    (full : context.FullBlock call) : context.HandsOverWhole store digests state marks call := by
  intro after afterState sources done offset inside
  obtain ⟨_, buffer, all, table, backed⟩ := complete_backed assembling full done
  have slot : offset / blockSize < buffer.tableSize := by
    rw [table, blocksOf]
    simp only [blockSize] at inside ⊢
    omega
  obtain ⟨data, marked, held⟩ := backed (offset / blockSize) (allBlocksThere_iff.mp all _ slot)
  refine ⟨data, marked, ?_⟩
  have split : offset / blockSize * blockSize + offset % blockSize = offset := Nat.div_add_mod' offset blockSize
  have rest : offset % blockSize < blockSize := Nat.mod_lt _ blockSize_pos
  have short : offset % blockSize < data.length := by
    rw [held.full]
    omega
  rw [← held.stored, read_getElem? _ _ _ short, Nat.add_assoc, split]

end

end Receive

section Finish

variable {store : SteadyStore σ} {state : σ} {sources : BlockSources}

section

variable (outside : ¬ (piece * context.pieceLength ≤ position ∧
  position < piece * context.pieceLength + context.getPieceLength piece))
include outside

theorem verifySync_content :
    store.content (context.verifySync store.toBlockStorage digests state piece sources).2.1 position =
      store.content state position := by
  have checked := @checkPieceHashStreaming_kept _ _ digests context state (fun next => store.content next = store.content state)
    (fun _ _ _ same => store.read_content.trans same) rfl piece (context.getPieceLength piece)
  rw [← checked]
  simp only [verifySync]
  split
  case h_1 done =>
    rw [done]
    exact congrFun store.flush_content position
  case h_2 done =>
    rw [done]
    exact store.discard_outside outside
  case h_3 done => rw [done]

theorem finishPiece_content :
    store.content (context.finishPiece store.toBlockStorage digests state piece sources).2.1 position =
      store.content state position := by
  simp only [finishPiece]
  split
  case isFalse => exact verifySync_content outside
  case isTrue =>
    split
    case h_1 => rfl
    case h_2 => exact verifySync_content outside

end

theorem finishPiece_assembling (assembling : context.Assembling (store.content state) marks)
    (removed : context.pieceBuffers piece = none) :
    (context.finishPiece store.toBlockStorage digests state piece sources).1.Assembling
      (store.content (context.finishPiece store.toBlockStorage digests state piece sources).2.1) marks := by
  have same : SameAssembly context (context.finishPiece store.toBlockStorage digests state piece sources).1 :=
    finishPiece_same
  refine ⟨same.buffersFit assembling.fit, ?_, ?_⟩
  · intro other
    rw [same.lengths, same.pieceLength]
    exact assembling.lengths other
  · intro other buffer held
    rw [same.pieceBuffers] at held
    have different : other ≠ piece := by
      rintro rfl
      rw [removed] at held
      cases held
    exact (assembling.backed other buffer held).congr same.toSameTorrent rfl fun _ _ position inside =>
      finishPiece_content (inBlock_other assembling.lengths different inside)

theorem assemblyStep_assembling {current : TorrentContext × σ × Marks} {call : BlockCall}
    (assembling : current.1.Assembling (store.content current.2.1) current.2.2) (full : current.1.FullBlock call) :
    let next := assemblyStep store.toBlockStorage digests current call
    next.1.Assembling (store.content next.2.1) next.2.2 := by
  simp only [assemblyStep]
  generalize taken : downloadStep store.toBlockStorage digests (current.1, current.2.1) (.block call) = next
  cases downloadStep_block taken with
  | received done pending =>
    simp only [done]
    exact receive_assembling assembling full done
  | finished done =>
    simp only [done]
    exact finishPiece_assembling (receive_assembling assembling full done)
      (complete_backed assembling full done).1

end Finish

/-- In every run of calls that carry whole blocks, a piece that is handed to verification is
whole. -/
theorem handsOverWhole_of_fullBlocks (store : SteadyStore σ) (digests : Digests) {start context : TorrentContext}
    {startState state : σ} {marks : Marks} {call : BlockCall}
    (fresh : ∀ piece, start.pieceBuffers piece = none)
    (lengths : ∀ piece, start.getPieceLength piece ≤ start.pieceLength)
    (run : Reaches (assemblyStep store.toBlockStorage digests) (fun current call => current.1.FullBlock call)
      (start, startState, fun _ _ => none) (context, state, marks))
    (full : context.FullBlock call) :
    context.HandsOverWhole store.toByteStore digests state marks call := by
  have initially : start.Assembling (store.content startState) fun _ _ => none := by
    refine ⟨?_, lengths, ?_⟩
    · intro piece buffer held
      rw [fresh piece] at held
      cases held
    · intro piece buffer held
      rw [fresh piece] at held
      cases held
  have assembling := run.invariant
    (fun current => current.1.Assembling (store.content current.2.1) current.2.2) initially
    fun _ _ kept allowed => assemblyStep_assembling kept allowed
  exact handsOverWhole_of_assembling assembling full

/-- The context after the first of the two blocks of its piece. -/
noncomputable def firstOfTwo : TorrentContext × FaultyBytes × Marks :=
  assemblyStep faultyStore.toBlockStorage .zero
    (blank 16385 1 ⟨false, false, false⟩, ⟨fun _ => 0, []⟩, fun _ _ => none)
    ⟨0, 0, List.replicate blockSize 7, "203.0.113.7"⟩

theorem handsOverWhole_two_blocks :
    firstOfTwo.1.HandsOverWhole faultyStore .zero firstOfTwo.2.1 firstOfTwo.2.2
      ⟨0, blockSize, [8], "198.51.100.4"⟩ := by
  have run : Reaches (assemblyStep faultySteadyStore.toBlockStorage .zero)
      (fun current call => current.1.FullBlock call) _ firstOfTwo :=
    .next .refl _ fun _ => List.length_replicate.trans (by decide)
  have last : firstOfTwo.1.FullBlock ⟨0, blockSize, [8], "198.51.100.4"⟩ := fun _ => by decide +kernel
  generalize firstOfTwo = held at run last ⊢
  refine handsOverWhole_of_fullBlocks faultySteadyStore .zero (fun _ => rfl) ?_ run last
  intro piece
  rw [blank, getPieceLength_new]
  exact Nat.le_refl _

/-- One byte is enough for the piece of two bytes to be found complete. -/
theorem short_block_handed_over :
    ((blank 2 1 ⟨false, false, false⟩).receive faultyStore.toBlockStorage .zero ⟨fun _ => 0, []⟩
        ⟨0, 0, [7], "203.0.113.7"⟩).2.2 = .ok (some [some "203.0.113.7"]) ∧
      ¬ (blank 2 1 ⟨false, false, false⟩).HandsOverWhole faultyStore .zero ⟨fun _ => 0, []⟩ (fun _ _ => none)
        ⟨0, 0, [7], "203.0.113.7"⟩ := by
  refine ⟨by decide, fun whole => ?_⟩
  obtain ⟨data, marked, missing⟩ := whole _ _ _ rfl 1 (by decide)
  simp only [note] at marked
  split at marked
  case isTrue =>
    cases marked
    cases missing
  case isFalse => cases marked

end TorrentContext

end BitTorrent
