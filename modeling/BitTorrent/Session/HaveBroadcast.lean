import BitTorrent.Core.PieceAssembly

/-! # The swarm during a download

What the `Have` broadcast in `process_piece_block` and `apply_piece_verification_result` and the
reports of bad peers do to the peers of the swarm.
-/

namespace BitTorrent

open Function

/-- The message has been handed to the network of each peer that was connected and not busy. -/
def SwarmLink.Handed (message : PeerMessage) (before after : String → Option SwarmLink) : Prop :=
  ∀ (ip : String) (peer : SwarmLink) (handed : List PeerMessage),
    before ip = some peer → peer.lockFree = true → peer.network = some handed →
    ∃ (told : SwarmLink) (more : List PeerMessage),
      after ip = some told ∧ told.network = some (handed ++ more) ∧ message ∈ more

namespace TorrentContext

/-- A peer is taken out of the swarm by a report that is its third or a later one, and is otherwise
left as it was. -/
structure Blames (before after : TorrentContext) : Prop where
  scores : ∀ ip, before.badPeerScores ip ≤ after.badPeerScores ip
  swarm : ∀ ip, after.peerSwarm ip =
    if before.badPeerScores ip < after.badPeerScores ip ∧ 3 ≤ after.badPeerScores ip then none
    else before.peerSwarm ip

variable {before between after context : TorrentContext}

theorem Blames.of_same (scores : after.badPeerScores = before.badPeerScores)
    (swarm : after.peerSwarm = before.peerSwarm) : Blames before after := by
  constructor
  case scores => simp [scores]
  case swarm => simp [scores, swarm]

theorem Blames.trans (first : Blames before between) (second : Blames between after) : Blames before after := by
  constructor
  case scores =>
    intro ip
    exact (first.scores ip).trans (second.scores ip)
  case swarm =>
    intro ip
    have earlier := first.scores ip
    have later := second.scores ip
    rw [second.swarm, first.swarm]
    split_ifs <;> first | rfl | omega

theorem reportBadPeer_blames (context : TorrentContext) (ip : String) : Blames context (context.reportBadPeer ip) := by
  have scored : (context.reportBadPeer ip).badPeerScores =
      update context.badPeerScores ip (context.badPeerScores ip + 1) := by
    rw [reportBadPeer]
    split <;> rfl
  have swarm : (context.reportBadPeer ip).peerSwarm =
      if 3 ≤ context.badPeerScores ip + 1 then update context.peerSwarm ip none else context.peerSwarm := by
    rw [reportBadPeer]
    split <;> rfl
  constructor
  case scores =>
    intro other
    rw [scored, update_apply]
    split
    case isTrue same => exact same ▸ Nat.le_succ _
    case isFalse => exact Nat.le_refl _
  case swarm =>
    intro other
    rw [scored, swarm]
    by_cases same : other = ip
    · subst same
      by_cases third : 3 ≤ context.badPeerScores other + 1 <;> simp [third]
    · simp only [update_of_ne same, Nat.lt_irrefl, false_and, if_false]
      split
      case isTrue => exact update_of_ne same _ _
      case isFalse => rfl

theorem reportBadPeers_blames (context : TorrentContext) (ips : List String) :
    Blames context (ips.foldl reportBadPeer context) := by
  induction ips generalizing context with
  | nil => exact .of_same rfl rfl
  | cons ip ips ih => exact (context.reportBadPeer_blames ip).trans (ih _)

variable {σ : Type} {storage : BlockStorage σ} {digests : Digests} {state : σ} {piece : Nat}
  {blockSources : BlockSources}

theorem acceptPiece_blames (storage : BlockStorage σ) (state : σ) (length : Nat) :
    Blames context (context.acceptPiece storage state piece length).1 := by
  have marked : Blames context (context.updateBitfieldStatus piece true length) := by
    simp only [updateBitfieldStatus, setPieceLength]
    split <;> split <;> exact .of_same rfl rfl
  rw [acceptPiece_eq, tryCompleteDownload]
  refine marked.trans ?_
  split <;> exact .of_same rfl rfl

theorem rejectPiece_blames (storage : BlockStorage σ) (state : σ) (length : Nat) :
    Blames context (context.rejectPiece storage state piece length blockSources).1 := by
  have cleared : Blames context (context.clearPieceRequests piece) := .of_same rfl rfl
  exact (cleared.trans (reportBadPeers_blames _ (blockSources.filterMap id))).trans (.of_same rfl rfl)

theorem Finishes.blames {length : Nat} (finishes : Finishes storage context piece length blockSources after) :
    Blames context after := by
  have checked (verifying : Finset Nat) (pool : HashVerificationPool) :
      Blames context (context.underCheck verifying pool) := .of_same rfl rfl
  cases finishes with
  | pending verifying pool => exact checked verifying pool
  | accepted verifying pool state => exact (checked verifying pool).trans (acceptPiece_blames storage state length)
  | rejected verifying pool state => exact (checked verifying pool).trans (rejectPiece_blames storage state length)

theorem downloadStep_blames (current : TorrentContext × σ) (event : DownloadEvent) :
    Blames current.1 (downloadStep storage digests current event).1 := by
  cases event with
  | block call =>
    generalize taken : downloadStep storage digests current (.block call) = next
    cases downloadStep_block taken with
    | received done =>
      rw [receiveBlock_frame done]
      exact .of_same rfl rfl
    | finished done =>
      refine Blames.trans ?_ finishPiece_finishes.blames
      rw [receiveBlock_frame done]
      exact .of_same rfl rfl
  | verdict result => exact (downloadStep_finishes current result).blames

/-- In every run a peer leaves the swarm exactly when it is reported and has three reports or more by
then; the others stay as they are, and none of them is handed a message. -/
theorem run_blames (events : List DownloadEvent) (start : TorrentContext × σ) :
    Blames start.1 (events.foldl (downloadStep storage digests) start).1 := by
  induction events generalizing start with
  | nil => exact .of_same rfl rfl
  | cons event events ih => exact (downloadStep_blames start event).trans (ih _)

/-- A step announces a piece only to a swarm in which nobody can be reached. -/
theorem announced_iff_unreachable (current : TorrentContext × σ) (event : DownloadEvent) (piece : Nat) :
    SwarmLink.Handed (.have_ (UInt32.ofNat piece)) current.1.peerSwarm
        (downloadStep storage digests current event).1.peerSwarm ↔
      ∀ ip peer, current.1.peerSwarm ip = some peer → peer.lockFree = true → peer.network = none := by
  constructor
  · intro handed ip peer found free
    cases connected : peer.network with
    | none => rfl
    | some sent =>
      obtain ⟨told, more, kept, network, listed⟩ := handed ip peer sent found free connected
      rw [(downloadStep_blames current event).swarm, found] at kept
      split at kept <;> cases kept
      have nothing : more = [] := by
        have lengths := congrArg List.length (Option.some.inj (connected.symm.trans network))
        rw [List.length_append] at lengths
        exact List.length_eq_zero_iff.mp (by omega)
      rw [nothing] at listed
      cases listed
  · intro unreachable ip peer sent found free connected
    rw [unreachable ip peer found free] at connected
    cases connected

/-- The step makes the piece local. -/
def MakesLocal (storage : BlockStorage σ) (digests : Digests) (current : TorrentContext × σ) (event : DownloadEvent)
    (piece : Nat) : Prop :=
  current.1.isPieceLocal piece = false ∧ (downloadStep storage digests current event).1.isPieceLocal piece = true

/-- A torrent of one byte, and a swarm of one peer, which can be reached. -/
def oneByte : TorrentContext × FaultyBytes :=
  ({ blank 1 1 ⟨false, false, false⟩ with peerSwarm := fun _ => some ⟨true, true, some []⟩ }, ⟨fun _ => 0, []⟩)

def onlyBlock : DownloadEvent := .block ⟨0, 0, [7], "203.0.113.7"⟩

def onlyVerdict : DownloadEvent := .verdict ⟨0, 1, true, []⟩

/-- The future that was dropped would have handed the message over. -/
theorem idlePeer_not_told :
    (∀ event ∈ [onlyBlock, onlyVerdict],
      MakesLocal faultyStore.toBlockStorage .zero oneByte event 0 ∧
        ¬SwarmLink.Handed (.have_ 0) oneByte.1.peerSwarm
          (downloadStep faultyStore.toBlockStorage .zero oneByte event).1.peerSwarm) ∧
      ((SwarmLink.sendHave 0).await ⟨true, true, some []⟩).1.network = some [.have_ 0] := by
  refine ⟨?_, by decide⟩
  intro event listed
  constructor
  · rcases List.mem_pair.mp listed with rfl | rfl
    · exact ⟨by decide +kernel, by decide +kernel⟩
    · exact ⟨by decide +kernel, by decide +kernel⟩
  · intro told
    obtain ⟨peer, more, kept, network, listed⟩ := told "203.0.113.7" ⟨true, true, some []⟩ [] rfl rfl rfl
    rw [(downloadStep_blames oneByte event).swarm] at kept
    split at kept <;> cases kept
    cases network
    cases listed

end TorrentContext

end BitTorrent
