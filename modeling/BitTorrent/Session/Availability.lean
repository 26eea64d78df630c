import BitTorrent.Network.PeerMessage
import BitTorrent.Session.Running

/-! # The first availability message

`perform_handshake` and `run_peer_loop` of `session/worker.rs`: what a peer is told about the local
pieces, after the handshake or after the metadata of a magnet link has arrived.
-/

namespace BitTorrent

open Bencode List

inductive Announcement where
  | handshake
  | bootstrapped
deriving DecidableEq

namespace TorrentContext

variable (context : TorrentContext)

def announcesSeed : Bool :=
  context.isDownloadComplete ||
    (decide (0 < context.numberOfPieces) && (range context.pieceCount).all context.isPieceLocal)

def announcesEmpty : Bool :=
  decide (0 < context.numberOfPieces) && (range context.pieceCount).all fun piece => !context.isPieceLocal piece

def bitfieldMessage : Option PeerMessage :=
  if context.bits.bitfield = [] then none else some (.bitfield context.bits.bitfield)

/-- Super seeding is hidden in the handshake only. -/
def hidesPieces (announcement : Announcement) : Bool :=
  decide (announcement = .handshake) && context.isSuperSeeding

def availability (announcement : Announcement) (supportsFastExtension : Bool) (context : TorrentContext) :
    Option PeerMessage :=
  if context.hidesPieces announcement ∨ context.numberOfPieces = 0 then none
  else if supportsFastExtension then
    if context.announcesSeed then some .haveAll
    else if context.announcesEmpty then some .haveNone
    else context.bitfieldMessage
  else context.bitfieldMessage

/-- A message says of each piece whether it is local. -/
def Denotes (numberOfPieces : Nat) (isLocal : Nat → Bool) : PeerMessage → Prop
  | .haveAll => ∀ piece < numberOfPieces, isLocal piece = true
  | .haveNone => ∀ piece < numberOfPieces, isLocal piece = false
  | .bitfield bits => TidyBits numberOfPieces bits ∧ ∀ piece < numberOfPieces, bitSet bits piece = isLocal piece
  | _ => False

def AnnouncesTruly (announcement : Announcement) (supportsFastExtension : Bool) (context : TorrentContext) : Prop :=
  ∀ message, context.availability announcement supportsFastExtension = some message →
    Denotes context.numberOfPieces context.isPieceLocal message

variable {context : TorrentContext} {announcement : Announcement} {supportsFastExtension : Bool}
  {Resumes : FastResumeData → Prop}

/-- All pieces that are wanted are there, and others are not. -/
def OnlyWanted (context : TorrentContext) : Prop :=
  context.isDownloadComplete = true ∧ ∃ piece < context.numberOfPieces, context.isPieceLocal piece = false

/-- The local pieces are some and not all. -/
def Partly (context : TorrentContext) : Prop :=
  (∃ piece < context.numberOfPieces, context.isPieceLocal piece = true) ∧
    ∃ piece < context.numberOfPieces, context.isPieceLocal piece = false

section

variable (sized : context.Sized)
include sized

theorem Sized.isPieceLocal {piece : Nat} (below : piece < context.numberOfPieces) :
    context.isPieceLocal piece = bitSet context.bits.bitfield piece := by
  have long := sized.long
  rw [TorrentContext.isPieceLocal, if_pos (by omega)]

theorem Sized.all_iff {test : Nat → Bool} :
    (range context.pieceCount).all test = true ↔ ∀ piece < context.numberOfPieces, test piece = true := by
  rw [pieceCount, Nat.mod_eq_of_lt sized.few, all_eq_true]
  simp only [mem_range]

section

variable (any : 0 < context.numberOfPieces)
include any

theorem Sized.announcesSeed_iff : context.announcesSeed = true ↔ context.isDownloadComplete = true ∨
      ∀ piece < context.numberOfPieces, context.isPieceLocal piece = true := by
  rw [announcesSeed, decide_eq_true any, Bool.true_and, Bool.or_eq_true, sized.all_iff]

theorem Sized.announcesEmpty_iff :
    context.announcesEmpty = true ↔ ∀ piece < context.numberOfPieces, context.isPieceLocal piece = false := by
  rw [announcesEmpty, decide_eq_true any, Bool.true_and, sized.all_iff]
  simp only [Bool.not_eq_true']

/-- The bit field that is sent denotes the local pieces when nothing else is in it. -/
theorem Sized.denotes_bitfield :
    (∀ message, context.bitfieldMessage = some message → Denotes context.numberOfPieces context.isPieceLocal message) ↔
      TidyBits context.numberOfPieces context.bits.bitfield := by
  have long := sized.long
  have bits : context.bits.bitfield ≠ [] := ne_nil_of_length_pos (by omega)
  rw [bitfieldMessage, if_neg bits]
  constructor
  · intro denotes
    exact (denotes _ rfl).1
  · rintro tidy message ⟨⟩
    exact ⟨tidy, fun piece below => (sized.isPieceLocal below).symm⟩

theorem Sized.denotes_fast :
    (∀ message, (if context.announcesSeed then some .haveAll else if context.announcesEmpty then some .haveNone
        else context.bitfieldMessage) = some message → Denotes context.numberOfPieces context.isPieceLocal message) ↔
      ¬context.OnlyWanted ∧ (context.Partly → TidyBits context.numberOfPieces context.bits.bitfield) := by
  by_cases seed : context.announcesSeed = true
  · rw [if_pos seed]
    constructor
    · intro denotes
      have all : ∀ piece < context.numberOfPieces, context.isPieceLocal piece = true := denotes _ rfl
      have none : ¬∃ piece < context.numberOfPieces, context.isPieceLocal piece = false := by
        rintro ⟨piece, below, missing⟩
        exact Bool.noConfusion (missing.symm.trans (all piece below))
      exact ⟨fun only => none only.2, fun partly => absurd partly.2 none⟩
    · rintro ⟨wanted, _⟩ message ⟨⟩ piece below
      rcases (sized.announcesSeed_iff any).mp seed with complete | all
      · exact Bool.not_eq_false _ |>.mp fun missing => wanted ⟨complete, piece, below, missing⟩
      · exact all piece below
  · rw [if_neg seed]
    obtain ⟨incomplete, notAll⟩ := not_or.mp (mt (sized.announcesSeed_iff any).mpr seed)
    have wanted : ¬context.OnlyWanted := fun only => incomplete only.1
    by_cases empty : context.announcesEmpty = true
    · rw [if_pos empty]
      have none := (sized.announcesEmpty_iff any).mp empty
      constructor
      · rintro _
        refine ⟨wanted, ?_⟩
        rintro ⟨⟨piece, below, isLocal⟩, _⟩
        exact Bool.noConfusion (isLocal.symm.trans (none piece below))
      · rintro _ message ⟨⟩
        exact none
    · rw [if_neg empty, sized.denotes_bitfield any]
      have notNone := mt (sized.announcesEmpty_iff any).mpr empty
      push Not at notAll notNone
      obtain ⟨absent, absentBelow, missing⟩ := notAll
      obtain ⟨present, presentBelow, isLocal⟩ := notNone
      have partly : context.Partly :=
        ⟨⟨present, presentBelow, Bool.not_eq_false _ |>.mp isLocal⟩, absent, absentBelow, Bool.not_eq_true _ |>.mp missing⟩
      exact ⟨fun tidy => ⟨wanted, fun _ => tidy⟩, fun both => both.2 partly⟩

end

end

/-- What a peer is told is true exactly when the wanted pieces do not pass for all pieces and a
bit field that is sent holds nothing but the local pieces. -/
theorem announcesTruly_iff (running : Running Resumes context) :
    AnnouncesTruly announcement supportsFastExtension context ↔
      (context.hidesPieces announcement = false → 0 < context.numberOfPieces →
        (supportsFastExtension = true →
          ¬context.OnlyWanted ∧ (context.Partly → TidyBits context.numberOfPieces context.bits.bitfield)) ∧
        (supportsFastExtension = false → TidyBits context.numberOfPieces context.bits.bitfield)) := by
  have sized := running.orderly.sized
  rw [AnnouncesTruly, availability]
  by_cases silent : context.hidesPieces announcement = true ∨ context.numberOfPieces = 0
  · rw [if_pos silent]
    constructor
    · intro _ shown any
      rcases silent with hidden | zero
      · exact Bool.noConfusion (shown.symm.trans hidden)
      · exact absurd zero any.ne'
    · rintro _ message ⟨⟩
  · rw [if_neg silent]
    obtain ⟨shown, some⟩ := not_or.mp silent
    have any : 0 < context.numberOfPieces := Nat.pos_of_ne_zero some
    cases supportsFastExtension with
    | true =>
      rw [if_pos rfl, sized.denotes_fast any]
      exact ⟨fun both _ _ => ⟨fun _ => both, fun off => (nomatch off)⟩,
        fun both => (both (Bool.not_eq_true _ |>.mp shown) any).1 rfl⟩
    | false =>
      rw [if_neg Bool.false_ne_true, sized.denotes_bitfield any]
      exact ⟨fun tidy _ _ => ⟨fun on => (nomatch on), fun _ => tidy⟩,
        fun both => (both (Bool.not_eq_true _ |>.mp shown) any).2 rfl⟩

section Examples

/-- Two files of one piece each. -/
def twoFiles : Bytes :=
  ascii "d8:announce0:4:infod5:filesld6:lengthi4e4:pathl1:aeed6:lengthi4e4:pathl1:beee4:name1:t12:piece lengthi4e" ++
    ascii "6:pieces40:0123456789012345678901234567890123456789ee"

/-- The hash that every content has in the examples, for the first of two pieces. -/
theorem firstHash_length : (ascii "01234567890123456789").length = 20 := rfl

def firstHash : Digests := { Digests.zero with sha1 := fun _ => ⟨ascii "01234567890123456789", firstHash_length⟩ }

theorem firstPiece_values : ((acceptTorrent twoFiles).map fun accepted =>
    let context := accepted.2.createTorrentBitfield firstHash [some (ascii "abcd")]
    (context.availability .handshake true, context.isDownloadComplete)).toOption =
      some (some (.bitfield [0x80]), false) := by
  decide +kernel

theorem firstPiece_announced : ∃ context, Running (fun _ => False) context ∧
    context.availability .handshake true = some (.bitfield [0x80]) ∧ AnnouncesTruly .handshake true context := by
  obtain ⟨⟨file, context⟩, accepted, values⟩ := map_eq_ok.mp (eq_ok_of_toOption firstPiece_values)
  obtain ⟨sent, incomplete⟩ := Prod.mk.inj values
  have running := Running.scanned firstHash [some (ascii "abcd")]
    (@Running.opened (fun _ => False) _ _ (openedFrom_of_accept accepted))
  have tidy := running.orderly.tidy fun _ impossible => impossible.elim
  refine ⟨_, running, sent, (announcesTruly_iff running).mpr fun _ _ => ⟨fun _ => ⟨?_, fun _ => tidy⟩, fun _ => tidy⟩⟩
  intro only
  exact Bool.noConfusion (incomplete.symm.trans only.1)

theorem skippedFile_values : ((acceptTorrent twoFiles).bind fun accepted =>
    ((accepted.2.createTorrentBitfield firstHash [some (ascii "abcd")]).setFilePriority 1 .skip).map fun context =>
      (context.availability .handshake true, context.numberOfPieces, context.isPieceLocal 1)).toOption =
      some (some .haveAll, 2, false) := by
  decide +kernel

/-- The second file is skipped: the peer is told that its piece is there. -/
theorem skippedFile_announced : ∃ context, Running (fun _ => False) context ∧
    context.availability .handshake true = some .haveAll ∧ context.numberOfPieces = 2 ∧
    context.isPieceLocal 1 = false ∧ ¬AnnouncesTruly .handshake true context := by
  obtain ⟨⟨file, context⟩, accepted, chosen⟩ := bind_eq_ok.mp (eq_ok_of_toOption skippedFile_values)
  obtain ⟨after, done, values⟩ := map_eq_ok.mp chosen
  obtain ⟨sent, number, missing⟩ := Prod.mk.inj values |>.imp_right Prod.mk.inj
  have running := Running.prioritised done (.scanned firstHash [some (ascii "abcd")]
    (@Running.opened (fun _ => False) _ _ (openedFrom_of_accept accepted)))
  refine ⟨after, running, sent, number, missing, fun truly => ?_⟩
  have all : ∀ piece < after.numberOfPieces, after.isPieceLocal piece = true := truly _ sent
  exact Bool.noConfusion (missing.symm.trans (all 1 (by rw [number]; decide)))

end Examples

end TorrentContext

end BitTorrent
