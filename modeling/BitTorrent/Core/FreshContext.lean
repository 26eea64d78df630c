import BitTorrent.Core.OpenedTorrent
import BitTorrent.Core.RootReading

/-! # Contexts of parsed torrents

A string of a torrent has at most 16 MiB, whatever else the file holds.  So the number of pieces of
a new context fits into 32 bits, and a loop over `number_of_pieces as u32` sees every piece.
-/

namespace BitTorrent

open Bencode

namespace MetaInfoFile

variable {digests : Digests} {file file' : MetaInfoFile} {token : BencodeToken} {input rest : Bytes}

def ShortPieces (file : MetaInfoFile) : Prop :=
  ∀ pieces, file.get (text "pieces") = some pieces → pieces.length ≤ maxStringLen

theorem ShortPieces.congr (short : file.ShortPieces) (same : file'.get (text "pieces") = file.get (text "pieces")) :
    file'.ShortPieces := by
  rwa [ShortPieces, same]

theorem ShortPieces.insert_rootName {key : Text} {value : Bytes} (short : file.ShortPieces) (known : key ∈ rootNames) :
    (file.insert key value).ShortPieces :=
  short.congr (get_insert_rootName known (by decide))

theorem stringOrInteger_short {message : String} {value : Bytes} (read : expectToken input = .ok (token, rest))
    (scalar : stringOrInteger message token = .ok value) : value.length ≤ maxStringLen := by
  obtain ⟨word, member, _⟩ := tokenWord_of_expectToken read
  cases token with
  | string bytes =>
    cases scalar
    exact tokenWord_short member (.inl rfl)
  | integer digits =>
    cases scalar
    exact tokenWord_short member (.inr rfl)
  | _ => cases scalar

section

variable (short : file.ShortPieces)
include short

theorem ShortPieces.parseInfoEntry (ran : parseInfoEntry file token input = .ok (file', rest)) : file'.ShortPieces := by
  cases parseInfoEntry_step ran with
  | field key value _ _ _ _ read scalar set =>
    intro pieces found
    rw [set] at found
    by_cases own : text "pieces" = fromUtf8Lossy key
    · rw [own, get_insert_self] at found
      cases found
      exact stringOrInteger_short read scalar
    · rw [get_insert_of_ne own] at found
      exact short pieces found
  | other same =>
    have named : text "pieces" ∈ namedKeys := by decide
    exact short.congr (same _ fun fileKey => fileKey.not_named named)

theorem ShortPieces.parsePieceLayers {rounds : Nat}
    (ran : parsePieceLayers rounds file input = .ok (file', rest)) : file'.ShortPieces := by
  induction rounds generalizing file input with
  | zero => cases ran
  | succ rounds ih =>
    rw [MetaInfoFile.parsePieceLayers] at ran
    split at ran
    case h_1 =>
      cases ran
      exact short
    case h_2 => cases ran
    case h_3 key after _ =>
      obtain ⟨⟨value, left⟩, _, ran⟩ := bind_eq_ok.mp ran
      dsimp only at ran
      split at ran
      case h_1 layer =>
        refine ih (short.congr ?_) ran
        rw [get, get, addPieceLayer_dict]
      case h_2 =>
        cases ran
        exact short
    case h_4 =>
      cases ran
      exact short

theorem ShortPieces.parseInfo (ran : file.parseInfo digests input = .ok (file', rest)) : file'.ShortPieces := by
  obtain ⟨_, _, ran⟩ := bind_eq_ok.mp ran
  obtain ⟨_, _, ran⟩ := bind_eq_ok.mp ran
  obtain ⟨_, _, ran⟩ := bind_eq_ok.mp ran
  obtain ⟨⟨read, left⟩, loop, ran⟩ := bind_eq_ok.mp ran
  cases ran
  have kept : read.ShortPieces :=
    untilEnd_keeps ShortPieces (fun _ _ _ _ _ short ran => short.parseInfoEntry ran) short loop
  exact kept.congr (get_addInfoHash _ (by decide) (by decide) (by decide))

theorem ShortPieces.parseRootEntry
    (ran : parseRootEntry digests file token input = .ok (file', rest)) : file'.ShortPieces := by
  unfold MetaInfoFile.parseRootEntry at ran
  split at ran
  case h_2 => cases ran
  case h_1 key =>
    split at ran
    case isTrue isField =>
      obtain ⟨_, _, ran⟩ := bind_eq_ok.mp ran
      obtain ⟨_, _, ran⟩ := bind_eq_ok.mp ran
      cases ran
      exact short.insert_rootName (lossy_rootField isField).1
    case isFalse =>
      split at ran
      case isTrue =>
        obtain ⟨_, _, ran⟩ := bind_eq_ok.mp ran
        obtain ⟨_, _, ran⟩ := bind_eq_ok.mp ran
        cases ran
        exact short.insert_rootName (by decide)
      case isFalse =>
        split at ran
        case isTrue =>
          obtain ⟨_, _, ran⟩ := bind_eq_ok.mp ran
          dsimp only at ran
          split at ran
          case h_1 =>
            cases ran
            exact short.insert_rootName (by decide)
          case h_2 =>
            obtain ⟨_, _, ran⟩ := bind_eq_ok.mp ran
            cases ran
            exact short.insert_rootName (by decide)
          case h_3 => cases ran
        case isFalse =>
          split at ran
          case isTrue =>
            obtain ⟨_, _, ran⟩ := bind_eq_ok.mp ran
            dsimp only at ran
            split at ran
            case isTrue => exact short.parsePieceLayers ran
            case isFalse =>
              cases ran
              exact short
          case isFalse =>
            split at ran
            case isTrue => exact short.parseInfo ran
            case isFalse =>
              obtain ⟨_, _, ran⟩ := bind_eq_ok.mp ran
              obtain ⟨_, _, ran⟩ := bind_eq_ok.mp ran
              cases ran
              exact short

end

theorem shortPieces_of_parse {bytes : Bytes} (parsed : parse digests (.fromBytes bytes) = .ok file) :
    file.ShortPieces := by
  obtain ⟨_, _, _, -, loop, rfl⟩ := parse_exists parsed
  have start : (fromBytes bytes).ShortPieces := by intro pieces found; cases found
  exact untilEnd_keeps ShortPieces (fun _ _ _ _ _ short ran => short.parseRootEntry ran) start loop

end MetaInfoFile

namespace TorrentContext

/-- What a session makes of a torrent file before anything is downloaded or resumed. -/
def OpenedFrom (torrent : Bytes) (context : TorrentContext) : Prop :=
  ∃ digests file canonicalDownload seeding config verificationPool,
    MetaInfoFile.parse digests (.fromBytes torrent) = .ok file ∧
      ofMetaInfo file canonicalDownload seeding config verificationPool = .ok context

variable {torrent : Bytes} {context : TorrentContext}

theorem OpenedFrom.params (fresh : OpenedFrom torrent context) :
    ∃ params : TorrentContextParams, context = .new params ∧ params.pieceLength < u32Size ∧
      params.piecesInfoHash.length ≤ maxStringLen := by
  obtain ⟨digests, file, canonicalDownload, seeding, config, verificationPool, parsed, opened⟩ := fresh
  obtain ⟨total, infoHash, pieces, _, size, _, hashes, shape⟩ := ofMetaInfo_eq_ok opened
  refine ⟨_, shape, ?_, ?_⟩
  · obtain ⟨_, _, size⟩ := bind_eq_ok.mp size
    obtain ⟨_, _, size⟩ := bind_eq_ok.mp size
    exact parseUnsigned_lt (parseNumber_eq_ok.mp size)
  · obtain ⟨_, _, hashes⟩ := bind_eq_ok.mp hashes
    exact MetaInfoFile.shortPieces_of_parse parsed pieces (MetaInfoFile.field_eq_ok.mp hashes)

theorem openedFrom_of_accept {file : MetaInfoFile}
    (accepted : acceptTorrent torrent = .ok (file, context)) : OpenedFrom torrent context := by
  obtain ⟨parsed, _, opened, _⟩ := acceptTorrent_eq_ok accepted
  exact ⟨_, _, _, _, _, _, parsed, opened⟩

end TorrentContext

end BitTorrent
