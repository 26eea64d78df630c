import BitTorrent.Core.MetadataTransition
import BitTorrent.Storage.BitfieldScanner
import BitTorrent.Storage.ResumeSafety

/-! # Contexts of running sessions

The contexts that a session can come to: opened from a torrent or from the metadata of a magnet
link, resumed from a file, and then changed by scans, downloads and choices of files.
-/

namespace BitTorrent

open Bencode FastResumeData List

namespace TorrentContext

/-- `transition_from_metadata` on the fields that the download reads.  The piece store and the
count of missing pieces stay as they are. -/
def switchTo (context : TorrentContext) (switched : SwitchedTorrent) : TorrentContext :=
  let numberOfPieces := switched.piecesInfoHash.length / hashLength
  { context with
    pieceLength := switched.pieceLength
    numberOfPieces
    piecesInfoHash := switched.piecesInfoHash
    filesToDownload := switched.filesToDownload
    totalBytesToDownload := switched.totalBytesToDownload
    pieceData := replicate numberOfPieces ⟨0, switched.pieceLength⟩
    bits := .new numberOfPieces context.bits.missingPiecesCount
    pieceManager := .new numberOfPieces numberOfPieces }

/-- The contexts of a session that may resume from some data. -/
inductive Running (Resumes : FastResumeData → Prop) : TorrentContext → Prop
  | opened {torrent : Bytes} {context : TorrentContext} (fresh : OpenedFrom torrent context) : Running Resumes context
  | switched {digests : Digests} {parseUrl : UrlParser} {currentDirectory canonicalDownload : Bytes}
      {disk : TransitionDisk} {source : MagnetSource} {infoDictBytes : Bytes} {switched : SwitchedTorrent}
      (context : TorrentContext)
      (done : source.transitionFromMetadata digests parseUrl currentDirectory canonicalDownload disk infoDictBytes =
        .ok switched) :
      Running Resumes (context.switchTo switched)
  | resumed {torrent : Bytes} {data : FastResumeData} {context after : TorrentContext}
      (fresh : OpenedFrom torrent context) (allowed : Resumes data) (applied : data.applyToContext context = .ok after) :
      Running Resumes after
  | scanned {context : TorrentContext} (digests : Digests) (files : List (Option Bytes))
      (running : Running Resumes context) : Running Resumes (context.createTorrentBitfield digests files)
  | complete {context : TorrentContext} (running : Running Resumes context) :
      Running Resumes context.fullyDownloadedTorrentBitfield
  | downloaded {σ : Type} {context : TorrentContext} (storage : BlockStorage σ) (digests : Digests) (state : σ)
      (event : DownloadEvent) (concerns : context.Concerns event) (running : Running Resumes context) :
      Running Resumes (downloadStep storage digests (context, state) event).1
  | prioritised {context after : TorrentContext} {fileIndex : Nat} {priority : FilePriority}
      (done : context.setFilePriority fileIndex priority = .ok after) (running : Running Resumes context) :
      Running Resumes after
  | selected {context : TorrentContext} (selectedIndices : List Nat) (running : Running Resumes context) :
      Running Resumes (context.applyBep53FileSelection selectedIndices)
  | set {context : TorrentContext} (status : TorrentStatus) (superSeeding : SuperSeedingState)
      (running : Running Resumes context) : Running Resumes { context with status, superSeeding }

/-- The bit field has a bit for each piece, and the pieces can be counted in 32 bits. -/
structure Sized (context : TorrentContext) : Prop where
  few : context.numberOfPieces < u32Size
  counted : context.numberOfPieces = context.piecesInfoHash.length / hashLength
  long : (context.numberOfPieces + 7) / 8 ≤ context.bits.bitfield.length

/-- A bit field as it goes over the wire. -/
structure TidyBits (numberOfPieces : Nat) (bits : Bytes) : Prop where
  length : bits.length = (numberOfPieces + 7) / 8
  spare : ∀ piece, bitSet bits piece = true → piece < numberOfPieces

variable {before after context : TorrentContext} {Resumes : FastResumeData → Prop}

theorem Marks.bitfield_length (marked : Marks before after) :
    after.bits.bitfield.length = before.bits.bitfield.length := by
  rcases marked.bits with same | ⟨piece, value, _, put⟩
  · rw [same]
  · rw [put, putBit_length]

theorem Sized.marks (sized : before.Sized) (marked : Marks before after) : after.Sized where
  few := marked.numberOfPieces ▸ sized.few
  counted := by
    rw [marked.numberOfPieces, marked.piecesInfoHash]
    exact sized.counted
  long := by
    rw [marked.numberOfPieces, marked.bitfield_length]
    exact sized.long

theorem TidyBits.marks (tidy : TidyBits before.numberOfPieces before.bits.bitfield) (marked : Marks before after) :
    TidyBits after.numberOfPieces after.bits.bitfield := by
  refine ⟨?_, ?_⟩
  · rw [marked.bitfield_length, marked.numberOfPieces, tidy.length]
  · intro piece isSet
    rw [marked.numberOfPieces]
    rcases marked.bits with same | ⟨other, value, inside, put⟩
    · exact tidy.spare piece (same ▸ isSet)
    · rw [put] at isSet
      by_cases apart : other = piece
      · subst apart
        by_cases within : other / 8 < before.bits.bitfield.length
        · rw [bitSet_putBit_self within] at isSet
          exact inside isSet
        · rw [bitSet_of_length_le (by rw [putBit_length]; exact Nat.le_of_not_lt within)] at isSet
          cases isSet
      · rw [bitSet_putBit_other apart] at isSet
        exact tidy.spare piece isSet

theorem tidyBits_zero (numberOfPieces : Nat) : TidyBits numberOfPieces (replicate ((numberOfPieces + 7) / 8) 0) where
  length := length_replicate
  spare := by
    intro piece isSet
    rw [bitSet_replicate_zero] at isSet
    cases isSet

theorem pieces_lt {pieces : Bytes} (short : pieces.length ≤ maxStringLen) : pieces.length / hashLength < u32Size :=
  (Nat.div_le_div_right short).trans_lt (by decide)

theorem OpenedFrom.sized {torrent : Bytes} (fresh : OpenedFrom torrent context) :
    context.Sized ∧ TidyBits context.numberOfPieces context.bits.bitfield := by
  obtain ⟨params, rfl, _, short⟩ := fresh.params
  exact ⟨⟨pieces_lt short, rfl, length_replicate.ge⟩, tidyBits_zero _⟩

theorem switchTo_sized {digests : Digests} {parseUrl : UrlParser}
    {currentDirectory canonicalDownload infoDictBytes : Bytes} {disk : TransitionDisk} {source : MagnetSource}
    {switched : SwitchedTorrent}
    (done : source.transitionFromMetadata digests parseUrl currentDirectory canonicalDownload disk infoDictBytes =
      .ok switched) :
    (context.switchTo switched).Sized ∧
      TidyBits (context.switchTo switched).numberOfPieces (context.switchTo switched).bits.bitfield := by
  obtain ⟨_, _, file, _, _, parsed, known, _⟩ := MagnetSource.transitionFromMetadata_eq_ok done
  obtain ⟨_, _, known⟩ := bind_eq_ok.mp known
  have short := MetaInfoFile.shortPieces_of_parse parsed _ (MetaInfoFile.field_eq_ok.mp known)
  exact ⟨⟨pieces_lt short, rfl, length_replicate.ge⟩, tidyBits_zero _⟩

theorem resumed_bits {torrent : Bytes} {data : FastResumeData} (fresh : OpenedFrom torrent context)
    (applied : data.applyToContext context = .ok after) :
    after.Sized ∧ after.numberOfPieces = data.numPieces ∧ after.bits.bitfield = data.bitfield := by
  obtain ⟨params, isNew, _, _⟩ := fresh.params
  have sized := fresh.sized.1
  obtain ⟨hash, number⟩ := matches_of_applyToContext applied
  rcases applyToContext_run (isNew ▸ length_replicate.ge) sized.few hash number with ⟨_, ran⟩ | ⟨past, state, ran, reached⟩
  · cases ran.symm.trans applied
  · cases ran.symm.trans applied
    obtain ⟨long, _⟩ := passable_iff.mp past
    have counts := @FastResumeData.finishResume_counts data state
    have bits : (data.finishResume state).bits.bitfield = data.bitfield := by
      rw [finishResume_bits]
      exact reached.bitfield
    have pieces := counts.1.trans reached.numberOfPieces
    refine ⟨⟨pieces ▸ sized.few, ?_, ?_⟩, pieces.trans number, bits⟩
    · rw [pieces, counts.2.2, reached.piecesInfoHash]
      exact sized.counted
    · rw [pieces, bits]
      exact long

/-- The bit field of a context of a session.  Only a resume file brings bits behind the last piece, or a bit
field of another length. -/
structure Orderly (Resumes : FastResumeData → Prop) (context : TorrentContext) : Prop where
  sized : context.Sized
  tidy : (∀ data, Resumes data → TidyBits data.numPieces data.bitfield) →
    TidyBits context.numberOfPieces context.bits.bitfield

theorem Orderly.marks (orderly : Orderly Resumes before) (marked : Marks before after) : Orderly Resumes after :=
  ⟨orderly.sized.marks marked, fun resumes => (orderly.tidy resumes).marks marked⟩

theorem Orderly.marksAll (orderly : Orderly Resumes before) (marked : Relation.ReflTransGen Marks before after) :
    Orderly Resumes after := by
  induction marked with
  | refl => exact orderly
  | tail _ marked ih => exact ih.marks marked

theorem Running.orderly (running : Running Resumes context) : Orderly Resumes context := by
  induction running with
  | opened fresh => exact ⟨fresh.sized.1, fun _ => fresh.sized.2⟩
  | switched _ done => exact ⟨(switchTo_sized done).1, fun _ => (switchTo_sized done).2⟩
  | resumed fresh allowed applied =>
    obtain ⟨sized, number, bits⟩ := resumed_bits fresh applied
    refine ⟨sized, fun resumes => ?_⟩
    rw [number, bits]
    exact resumes _ allowed
  | scanned _ _ _ ih => exact ih.marksAll (createTorrentBitfield_marks ih.sized.counted)
  | complete _ ih => exact ih.marksAll fullyDownloadedTorrentBitfield_marks
  | downloaded _ _ _ _ concerns _ ih => exact ih.marks (downloadStep_marks concerns)
  | prioritised done _ ih => exact ih.marks (setFilePriority_same done).marks
  | selected _ _ ih => exact ih.marks applyBep53FileSelection_same.marks
  | set _ _ _ ih => exact ih.marks (SameBits.marks ⟨rfl, rfl, rfl⟩)

end TorrentContext

end BitTorrent
