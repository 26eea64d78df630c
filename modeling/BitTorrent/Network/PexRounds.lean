import BitTorrent.Network.Pex

/-! # Rounds of peer exchange

The map `sent_peers` of `run_peer_loop` against the set a remote peer builds from the messages.
-/

namespace BitTorrent.PexMessage

open List

variable {peer : Text × UInt16}

def added (message : PexMessage) : List (Text × UInt16) :=
  (message.addedV4 ++ message.addedV6).map fun peer => (peer.ip, peer.port)

def dropped (message : PexMessage) : List (Text × UInt16) := message.droppedV4 ++ message.droppedV6

/-- What was sent, as the sender and as the receiver has it. -/
structure View where
  sent : List (Text × UInt16)
  received : List (Text × UInt16)

def View.Exact (view : View) : Prop := ∀ peer, peer ∈ view.received ↔ peer ∈ view.sent

/-- The peers of a list whose address is not in another. -/
def unlisted (peers others : List (Text × UInt16)) : List (Text × UInt16) :=
  peers.filter fun peer => decide (peer.1 ∉ others.map Prod.fst)

section Rounds

variable (settings : PexSettings) (excludeIp : Option Text)

/-- The step of the loop with the swarm of that moment; the loop takes it when the exchange is enabled. -/
def View.round (view : View) (swarm : List SwarmPeer) : View :=
  let (message, newlySent) := generatePexMessage settings swarm view.sent excludeIp
  ⟨newlySent, (view.received.filter fun peer => decide (peer ∉ message.dropped)) ++ message.added⟩

/-- After every round both have the same peers, and none was dropped that is connected. -/
def Follows : View → List (List SwarmPeer) → Prop
  | _, [] => True
  | view, swarm :: swarms =>
    (view.round settings excludeIp swarm).Exact ∧
      (∀ peer ∈ (generatePexMessage settings swarm view.sent excludeIp).1.dropped,
        peer.1 ∉ swarm.map SwarmPeer.ip) ∧
      Follows (view.round settings excludeIp swarm) swarms

def seen (swarm : List SwarmPeer) : List (Text × UInt16) :=
  (swarm.filter fun peer => decide (some peer.ip ≠ excludeIp) && peer.lockFree).map fun peer => (peer.ip, peer.port)

/-- A message has room for all of them. -/
def Fits (peers : List (Text × UInt16)) : Prop :=
  peers.length ≤ 50 ∧ ∀ peer ∈ peers, isIpv6 peer.1 = true → settings.enableIpv6 = true

/-- The changes fit a message, and a peer that was sent and is connected is free and has its port. -/
structure Steady (sent : List (Text × UInt16)) (swarm : List SwarmPeer) : Prop where
  newcomers : Fits settings (unlisted (seen excludeIp swarm) sent)
  gone : Fits settings (unlisted sent (seen excludeIp swarm))
  free : ∀ peer ∈ sent, peer.1 ∈ swarm.map SwarmPeer.ip → peer.1 ∈ (seen excludeIp swarm).map Prod.fst
  ports : ∀ peer ∈ seen excludeIp swarm, peer.1 ∈ sent.map Prod.fst → peer ∈ sent

/-- Every round is steady after what the round before it recorded. -/
def SteadyRun : List (Text × UInt16) → List (List SwarmPeer) → Prop
  | _, [] => True
  | sent, swarm :: swarms => Steady settings excludeIp sent swarm ∧ SteadyRun (seen excludeIp swarm) swarms

/-- The first fifty that can be told. -/
def told (peers : List (Text × UInt16)) : List (Text × UInt16) :=
  (peers.filter fun peer => !isIpv6 peer.1 || settings.enableIpv6).take 50

end Rounds

variable {settings : PexSettings} {excludeIp : Option Text} {peers sent : List (Text × UInt16)}

theorem subset_told_iff (distinct : peers.Nodup) : peers ⊆ told settings peers ↔ Fits settings peers := by
  constructor
  · intro all
    refine ⟨(distinct.subperm all).length_le.trans (length_take_le _ _), fun peer member v6 => ?_⟩
    simpa [v6] using (mem_filter.mp (mem_of_mem_take (all member))).2
  · rintro ⟨few, sendable⟩
    have whole : peers.filter (fun peer => !isIpv6 peer.1 || settings.enableIpv6) = peers := by
      refine filter_eq_self.mpr fun peer member => ?_
      cases v6 : isIpv6 peer.1 with
      | false => rfl
      | true => exact sendable peer member v6
    rw [told, whole, take_of_length_le few]
    exact Subset.refl peers

theorem mem_unlisted {others : List (Text × UInt16)} :
    peer ∈ unlisted peers others ↔ peer ∈ peers ∧ peer.1 ∉ others.map Prod.fst := by
  rw [unlisted, mem_filter, decide_eq_true_eq]

theorem told_subset : told settings peers ⊆ peers := fun _ member => mem_of_mem_filter (mem_of_mem_take member)

section Round

variable {swarm : List SwarmPeer} (runs : (!settings.enablePex || settings.isPrivate) = false)

include runs

theorem generate_sent : (generatePexMessage settings swarm sent excludeIp).2 = seen excludeIp swarm := by
  rw [generatePexMessage, runs]
  rfl

theorem mem_added : peer ∈ (generatePexMessage settings swarm sent excludeIp).1.added ↔
    peer ∈ told settings (unlisted (seen excludeIp swarm) sent) := by
  rw [generatePexMessage, runs, if_neg Bool.false_ne_true, added, ((divide_perm _ _ _ _).map _).mem_iff]
  simp [told, unlisted, seen, map_take, filter_map, Function.comp_def]

theorem mem_dropped : peer ∈ (generatePexMessage settings swarm sent excludeIp).1.dropped ↔
    peer ∈ told settings (unlisted sent (seen excludeIp swarm)) := by
  rw [generatePexMessage, runs, if_neg Bool.false_ne_true]
  exact (divide_perm _ _ _ _).mem_iff

/-- A round that finds both sides in agreement keeps them so when it is steady, and only then. -/
theorem round_iff {view : View} (distinct : ((seen excludeIp swarm).map Prod.fst).Nodup)
    (once : (view.sent.map Prod.fst).Nodup) (agree : view.Exact) :
    ((view.round settings excludeIp swarm).Exact ∧
      ∀ peer ∈ (generatePexMessage settings swarm view.sent excludeIp).1.dropped, peer.1 ∉ swarm.map SwarmPeer.ip) ↔
      Steady settings excludeIp view.sent swarm := by
  have newAll := @subset_told_iff settings (unlisted (seen excludeIp swarm) view.sent) (distinct.of_map.filter _)
  have goneAll := @subset_told_iff settings (unlisted view.sent (seen excludeIp swarm)) (once.of_map.filter _)
  have members : (view.round settings excludeIp swarm).Exact ↔ ∀ peer,
      (peer ∈ view.sent ∧ peer ∉ told settings (unlisted view.sent (seen excludeIp swarm)) ∨
        peer ∈ told settings (unlisted (seen excludeIp swarm) view.sent)) ↔ peer ∈ seen excludeIp swarm := by
    rw [View.Exact, View.round]
    simp only [generate_sent runs, mem_append, mem_filter, decide_eq_true_eq, mem_added runs, mem_dropped runs, agree _]
  simp only [members, mem_dropped runs]
  constructor
  · rintro ⟨agrees, apart⟩
    have gone : unlisted view.sent (seen excludeIp swarm) ⊆
        told settings (unlisted view.sent (seen excludeIp swarm)) := by
      intro peer left
      by_contra missing
      obtain ⟨old, absent⟩ := mem_unlisted.mp left
      exact absent (mem_map_of_mem ((agrees peer).mp (.inl ⟨old, missing⟩)))
    refine ⟨newAll.mp ?_, goneAll.mp gone, ?_, ?_⟩
    · intro peer new
      obtain ⟨inside, absent⟩ := mem_unlisted.mp new
      exact ((agrees peer).mpr inside).resolve_left fun old => absent (mem_map_of_mem old.1)
    · intro peer old connected
      by_contra absent
      exact apart peer (gone (mem_unlisted.mpr ⟨old, absent⟩)) connected
    · intro peer inside listed
      rcases (agrees peer).mpr inside with old | new
      · exact old.1
      · exact absurd listed (mem_unlisted.mp (told_subset new)).2
  · intro steady
    have gone := goneAll.mpr steady.gone
    refine ⟨fun peer => ⟨?_, fun inside => ?_⟩, fun peer left connected => ?_⟩
    · rintro (⟨old, kept⟩ | new)
      · have stays : peer.1 ∈ (seen excludeIp swarm).map Prod.fst := by
          by_contra absent
          exact kept (gone (mem_unlisted.mpr ⟨old, absent⟩))
        obtain ⟨other, inside, same⟩ := mem_map.mp stays
        have port := steady.ports other inside (same ▸ mem_map_of_mem old)
        rwa [← inj_on_of_nodup_map once port old same]
      · exact (mem_unlisted.mp (told_subset new)).1
    · by_cases old : peer.1 ∈ view.sent.map Prod.fst
      · refine .inl ⟨steady.ports peer inside old, fun left => ?_⟩
        exact (mem_unlisted.mp (told_subset left)).2 (mem_map_of_mem inside)
      · exact .inr (newAll.mpr steady.newcomers (mem_unlisted.mpr ⟨inside, old⟩))
    · obtain ⟨old, absent⟩ := mem_unlisted.mp (told_subset left)
      exact absent (steady.free peer old connected)

end Round

/-- Both sides agree after every round, and nobody is dropped who is connected, when every round is
steady, and only then. -/
theorem follows_iff_steadyRun (settings : PexSettings) (excludeIp : Option Text) (swarms : List (List SwarmPeer))
    (runs : (!settings.enablePex || settings.isPrivate) = false)
    (distinct : ∀ swarm ∈ swarms, (swarm.map SwarmPeer.ip).Nodup) :
    Follows settings excludeIp ⟨[], []⟩ swarms ↔ SteadyRun settings excludeIp [] swarms := by
  have run : ∀ view : View, view.Exact → (view.sent.map Prod.fst).Nodup →
      (Follows settings excludeIp view swarms ↔ SteadyRun settings excludeIp view.sent swarms) := by
    induction swarms with
    | nil => exact fun _ _ _ => Iff.rfl
    | cons swarm swarms ih =>
      intro view agree once
      obtain ⟨first, later⟩ := forall_mem_cons.mp distinct
      have addresses : ((seen excludeIp swarm).map Prod.fst).Nodup := by
        rw [seen, map_map]
        exact first.sublist (filter_sublist.map _)
      have after : (view.round settings excludeIp swarm).sent = seen excludeIp swarm := generate_sent runs
      rw [Follows, SteadyRun, ← and_assoc, ← round_iff runs addresses once agree, ← after]
      exact and_congr_right fun round => ih later _ round.1 (by rwa [after])
  exact run ⟨[], []⟩ (fun _ => Iff.rfl) nodup_nil

def home : SwarmPeer := ⟨text "10.0.0.1", 6881, false, true⟩

def guest : SwarmPeer := ⟨text "10.0.0.2", 6882, false, true⟩

/-- A second peer comes, and then the first one goes. -/
theorem follows_coming_and_going :
    Follows ⟨true, false, true⟩ none ⟨[], []⟩ [[home], [home, guest], [guest]] := by
  refine (follows_iff_steadyRun _ _ _ rfl (by decide)).mpr ⟨?_, ?_, ?_, trivial⟩
  all_goals exact ⟨⟨by decide, by decide⟩, ⟨by decide, by decide⟩, by decide, by decide⟩

/-- A peer that is busy in the second round is reported as dropped. -/
theorem not_follows_busy :
    ¬Follows ⟨true, false, true⟩ none ⟨[], []⟩ [[home], [{ home with lockFree := false }]] := by
  rintro ⟨_, _, _, apart, _⟩
  exact apart (text "10.0.0.1", 6881) (by decide) (by decide)

end BitTorrent.PexMessage
