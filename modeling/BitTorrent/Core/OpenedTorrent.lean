import BitTorrent.Core.FileAliasing
import BitTorrent.Core.TorrentContext

/-! # Opening a torrent

`TorrentContext::new` on a parsed torrent, and what the number of pieces of an opened torrent has
to do with its files.  The pieces come from the length of the hash string, the files from their
own entries, and nothing compares the two.
-/

namespace BitTorrent

open Bencode Chunks FileDetails MetaInfoFile

/-- `TorrentContext::new`. -/
def TorrentContext.ofMetaInfo (file : MetaInfoFile) (canonicalDownload : Bytes) (seeding : Bool)
    (config : SessionConfig) (verificationPool : HashVerificationPool) : Result TorrentContext := do
  let infoHash ← file.getInfoHash
  let trackerUrls ← file.getTrackerUrls
  if trackerUrls = [] then .error (.parse "Torrent contains no tracker URLs.")
  else do
    let (totalBytesToDownload, filesToDownload) ← file.localFilesToDownloadList canonicalDownload
    let pieceLength ← file.getPieceLength
    let piecesInfoHash ← file.getPiecesInfoHash
    return .new {
      infoHash
      pieceLength
      piecesInfoHash
      filesToDownload
      totalBytesToDownload
      seeding
      config
      verificationPool }

namespace TorrentContext

variable {file : MetaInfoFile} {canonicalDownload : Bytes} {seeding : Bool} {config : SessionConfig}
  {verificationPool : HashVerificationPool} {context : TorrentContext}

theorem ofMetaInfo_eq_ok (opened : ofMetaInfo file canonicalDownload seeding config verificationPool = .ok context) :
    ∃ total infoHash pieces, file.localFilesToDownloadList canonicalDownload = .ok (total, context.filesToDownload) ∧
      file.getPieceLength = .ok context.pieceLength ∧ file.getInfoHash = .ok infoHash ∧
      file.getPiecesInfoHash = .ok pieces ∧
      context = .new {
        infoHash
        pieceLength := context.pieceLength
        piecesInfoHash := pieces
        filesToDownload := context.filesToDownload
        totalBytesToDownload := total
        seeding
        config
        verificationPool } := by
  obtain ⟨infoHash, hash, opened⟩ := bind_eq_ok.mp opened
  obtain ⟨_, _, opened⟩ := bind_eq_ok.mp opened
  obtain ⟨_, opened⟩ := guard_eq_ok.mp opened
  obtain ⟨⟨total, files⟩, listed, opened⟩ := bind_eq_ok.mp opened
  obtain ⟨pieceLength, found, opened⟩ := bind_eq_ok.mp opened
  obtain ⟨pieces, known, opened⟩ := bind_eq_ok.mp opened
  cases opened
  exact ⟨total, infoHash, pieces, listed, found, hash, known, rfl⟩

theorem validate_hashes (checked : context.validate = .ok ())
    (counted : context.numberOfPieces = context.piecesInfoHash.length / hashLength) :
    context.piecesInfoHash.length = context.numberOfPieces * hashLength := by
  rw [validate] at checked
  split at checked
  case isTrue none =>
    rw [counted, none]
    rfl
  case isFalse =>
    obtain ⟨_, checked⟩ := guard_eq_ok.mp checked
    obtain ⟨_, checked⟩ := guard_eq_ok.mp checked
    obtain ⟨_, checked⟩ := guard_eq_ok.mp checked
    split at checked
    case isTrue => cases checked
    case isFalse whole => exact Decidable.not_not.mp whole

end TorrentContext

namespace MetaInfoFile

variable {file : MetaInfoFile} {canonicalDownload directory : Bytes} {rootName : Text} {total : Nat}
  {files : Files}

/-- The length in an entry, after the first zero character. -/
def entryLength (entry : Text) : Nat :=
  (parseUnsigned u64Size (utf8 ((entry.splitOn '\x00')[1]?.getD (text "0")))).getD 0

/-- The lengths that a torrent declares for its files. -/
def declaredLengths (file : MetaInfoFile) : List Nat :=
  if (file.get (text "0")).isNone then
    [((file.get (text "length")).bind fun length => parseUnsigned u64Size (utf8 (fromUtf8Lossy length))).getD 0]
  else file.numberedEntries.map entryLength

theorem localFiles_lengths (listed : file.localFilesToDownloadList canonicalDownload = .ok (total, files)) :
    files.map length = file.declaredLengths := by
  rw [declaredLengths]
  rcases localFilesToDownloadList_eq_ok listed with ⟨absent, single⟩ | ⟨name, present, _, _, several⟩
  · obtain ⟨_, length, details, _, known, _, sized, rfl, _, _, same, _⟩ := singleFile_inv single
    simp only [absent, Option.isNone_none, if_true, known, Option.bind_some, sized, Option.getD_some, ← same,
      List.map_singleton]
  · rw [if_neg (by simpa using Option.isSome_iff_ne_none.mp present), numberedEntries]
    refine (listed_of_listedFiles several).map_eq fun entry fileNo offset details found => ?_
    obtain ⟨_, _, _, _, _, sized, _⟩ := listedFile_inv found
    rw [entryLength, sized, Option.getD_some]

end MetaInfoFile

namespace TorrentContext

variable {file : MetaInfoFile} {parseUrl : UrlParser} {canonicalDownload currentDirectory pieces : Bytes}
  {seeding : Bool} {config : SessionConfig} {verificationPool : HashVerificationPool} {context : TorrentContext}
  {pieceLength : Nat}

/-- The pieces of a context are one for each stretch of its payload. -/
def CoversPayload (context : TorrentContext) : Prop :=
  let payload := (context.filesToDownload.map length).sum
  context.numberOfPieces = (payload + context.pieceLength - 1) / context.pieceLength ∧
    Tiles context.numberOfPieces context.pieceLength payload

/-- An accepted torrent has the right number of pieces exactly when its hash string has one hash for
each piece of the declared lengths. -/
theorem coversPayload_iff (valid : file.validate parseUrl currentDirectory = .ok ())
    (size : file.getPieceLength = .ok pieceLength) (hashes : file.getPiecesInfoHash = .ok pieces)
    (opened : ofMetaInfo file canonicalDownload seeding config verificationPool = .ok context)
    (checked : context.validate = .ok ()) :
    context.CoversPayload ↔
      pieces.length = (file.declaredLengths.sum + pieceLength - 1) / pieceLength * hashLength := by
  obtain ⟨total, infoHash, found, listed, known, _, held, shape⟩ := ofMetaInfo_eq_ok opened
  cases hashes.symm.trans held
  have same : pieceLength = context.pieceLength := Except.ok.inj (size.symm.trans known)
  have stored : context.piecesInfoHash = pieces := by rw [shape]; rfl
  have counted : context.numberOfPieces = context.piecesInfoHash.length / hashLength := by rw [shape]; rfl
  have whole := validate_hashes checked counted
  have positive : 0 < context.pieceLength := by
    obtain ⟨_, _, valid⟩ := bind_eq_ok.mp valid
    obtain ⟨found, known, valid⟩ := bind_eq_ok.mp valid
    cases size.symm.trans known
    exact same ▸ Nat.pos_of_ne_zero (guard_eq_ok.mp valid).1
  rw [stored] at whole
  rw [CoversPayload, localFiles_lengths listed, tiles_iff positive, and_self, same, whole]
  exact (Nat.mul_left_inj (by decide)).symm

section Examples

def defaultConfig : SessionConfig := ⟨false, false, false⟩

def noPool : HashVerificationPool := ⟨0, 0, none, []⟩

/-- Parses, validates and opens a torrent and validates the context. -/
def acceptTorrent (bytes : Bytes) : Result (MetaInfoFile × TorrentContext) := do
  let file ← parse Digests.zero (.fromBytes bytes)
  file.validate (fun _ => .ok ()) (ascii "/")
  let context ← ofMetaInfo file (ascii "/d") false defaultConfig noPool
  context.validate
  return (file, context)

theorem acceptTorrent_eq_ok {bytes : Bytes} (accepted : acceptTorrent bytes = .ok (file, context)) :
    parse Digests.zero (.fromBytes bytes) = .ok file ∧
      file.validate (fun _ => .ok ()) (ascii "/") = .ok () ∧
      ofMetaInfo file (ascii "/d") false defaultConfig noPool = .ok context ∧ context.validate = .ok () := by
  obtain ⟨_, parsed, accepted⟩ := bind_eq_ok.mp accepted
  obtain ⟨_, valid, accepted⟩ := bind_eq_ok.mp accepted
  obtain ⟨_, opened, accepted⟩ := bind_eq_ok.mp accepted
  obtain ⟨_, checked, accepted⟩ := bind_eq_ok.mp accepted
  cases accepted
  exact ⟨parsed, valid, opened, checked⟩

theorem apartFiles_accepted : ((acceptTorrent apartFiles).map fun accepted =>
    (accepted.1.getPieceLength.toOption, accepted.1.getPiecesInfoHash.toOption, accepted.1.declaredLengths)).toOption =
      some (some 8, some (ascii "01234567890123456789"), [5, 2]) := by
  decide +kernel

theorem apartFiles_coversPayload : ∃ file context, acceptTorrent apartFiles = .ok (file, context) ∧
    context.CoversPayload := by
  obtain ⟨⟨file, context⟩, accepted, values⟩ := map_eq_ok.mp (eq_ok_of_toOption apartFiles_accepted)
  obtain ⟨_, valid, opened, checked⟩ := acceptTorrent_eq_ok accepted
  obtain ⟨size, hashes, lengths⟩ := Prod.mk.inj values |>.imp_right Prod.mk.inj
  refine ⟨file, context, accepted, (coversPayload_iff valid (eq_ok_of_toOption size) (eq_ok_of_toOption hashes) opened
    checked).mpr ?_⟩
  rw [show file.declaredLengths = _ from lengths]
  decide

/-- Seven bytes in pieces of four bytes, with one hash. -/
def missingPiece : Bytes :=
  ascii "d8:announce0:4:infod6:lengthi7e4:name1:a12:piece lengthi4e6:pieces20:01234567890123456789ee"

theorem missingPiece_accepted : ((acceptTorrent missingPiece).map fun accepted =>
    (accepted.2.numberOfPieces, accepted.2.pieceLength, accepted.2.filesToDownload.map length)).toOption =
      some (1, 4, [7]) := by
  decide +kernel

/-- Accepted, although the last three bytes lie in no piece. -/
theorem missingPiece_uncovered : ∃ file context, acceptTorrent missingPiece = .ok (file, context) ∧
    context.numberOfPieces = 1 ∧ context.pieceLength = 4 ∧ context.filesToDownload.map length = [7] ∧
    ¬context.CoversPayload := by
  obtain ⟨⟨file, context⟩, accepted, values⟩ := map_eq_ok.mp (eq_ok_of_toOption missingPiece_accepted)
  obtain ⟨count, size, lengths⟩ := Prod.mk.inj values |>.imp_right Prod.mk.inj
  refine ⟨file, context, accepted, count, size, lengths, ?_⟩
  intro covers
  have number := covers.1
  rw [show context.numberOfPieces = _ from count, show context.pieceLength = _ from size,
    show context.filesToDownload.map length = _ from lengths] at number
  exact absurd number (by decide)

end Examples

end TorrentContext

end BitTorrent
