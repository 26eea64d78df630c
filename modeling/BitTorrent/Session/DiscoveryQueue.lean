import BitTorrent.Network.Announce

/-! # The discovery queue

`queue_peer_for_discovery` of `session/manager.rs` while the session takes peers out of the channel.
A call looks at the counter, sends, and counts, and other threads run in between.  Nothing in the
library lowers the counter, so it tells what was sent and not what waits.
-/

namespace BitTorrent

open List

/-- The counters of the manager, the peers of calls that are about to send, the calls that have sent
and not counted, and the channel. -/
structure DiscoveryQueue where
  maxCandidates : Nat
  candidateCount : Nat
  passed : List PeerDetails
  uncounted : Nat
  waiting : List PeerDetails

/-- What happens at once: a call up to its second check, with what `is_peer_dead` has told it, the rest
of one of the calls in two steps, and the consumer. -/
inductive QueueEvent where
  | call (peer : PeerDetails) (dead : Bool)
  | send (index : Nat)
  | count
  | take

namespace DiscoveryQueue

/-- After `set_max_candidates`. -/
def new (maxCandidates : Nat) : DiscoveryQueue := ⟨maxCandidates, 0, [], 0, []⟩

variable (queue : DiscoveryQueue)

def isFull : Bool := decide (queue.maxCandidates ≤ queue.candidateCount)

def step : QueueEvent → DiscoveryQueue
  | .call peer dead => if dead || queue.isFull then queue else { queue with passed := queue.passed ++ [peer] }
  | .send index =>
    match queue.passed[index]? with
    | none => queue
    | some peer =>
      { queue with
        passed := queue.passed.eraseIdx index
        uncounted := queue.uncounted + 1
        waiting := queue.waiting ++ [peer] }
  | .count =>
    if queue.uncounted = 0 then queue
    else { queue with uncounted := queue.uncounted - 1, candidateCount := queue.candidateCount + 1 }
  | .take => { queue with waiting := queue.waiting.tail }

/-- The limit is about the queue: no more peers wait than it allows, and a live peer is refused only
when that many do. -/
def Limited (queue : DiscoveryQueue) : List QueueEvent → Prop
  | [] => queue.waiting.length ≤ queue.maxCandidates
  | event :: events =>
    queue.waiting.length ≤ queue.maxCandidates ∧
      (∀ peer, event = .call peer false → queue.isFull = true → queue.maxCandidates ≤ queue.waiting.length) ∧
      (queue.step event).Limited events

end DiscoveryQueue

def QueueEvent.isLive : QueueEvent → Bool
  | call _ dead => !dead
  | _ => false

namespace DiscoveryQueue

variable {queue : DiscoveryQueue} {event : QueueEvent} {events : List QueueEvent} {calls live : Nat}

/-- Every peer that was let in is about to be sent, uncounted or counted, and what waits was sent. -/
structure Admits (queue : DiscoveryQueue) (calls : Nat) : Prop where
  total : queue.passed.length + queue.uncounted + queue.candidateCount ≤ calls
  sent : queue.waiting.length ≤ queue.uncounted + queue.candidateCount

theorem Admits.step (admits : queue.Admits calls) (event : QueueEvent) :
    (queue.step event).Admits (calls + if event.isLive then 1 else 0) ∧
      (queue.step event).maxCandidates = queue.maxCandidates := by
  obtain ⟨total, sent⟩ := admits
  cases event with
  | call peer dead =>
    rw [DiscoveryQueue.step]
    split
    case isTrue => exact ⟨⟨by omega, sent⟩, rfl⟩
    case isFalse open_ =>
      have alive : dead = false := by simp_all
      refine ⟨⟨?_, sent⟩, rfl⟩
      simp only [alive, QueueEvent.isLive, length_append, length_singleton, Bool.not_false, if_true]
      omega
  | send index =>
    rw [DiscoveryQueue.step]
    split
    case h_1 => exact ⟨⟨by omega, sent⟩, rfl⟩
    case h_2 peer found =>
      have inside := (List.getElem?_eq_some_iff.mp found).1
      refine ⟨⟨?_, ?_⟩, rfl⟩
      · simp only [length_eraseIdx_of_lt inside]
        omega
      · simp only [length_append, length_singleton]
        omega
  | count =>
    rw [DiscoveryQueue.step]
    split
    case isTrue => exact ⟨⟨by omega, sent⟩, rfl⟩
    case isFalse =>
      refine ⟨⟨?_, ?_⟩, rfl⟩
      · simp only
        omega
      · simp only
        omega
  | take =>
    refine ⟨⟨total, ?_⟩, rfl⟩
    simp only [DiscoveryQueue.step, length_tail]
    omega

theorem Admits.limited (admits : queue.Admits calls)
    (few : calls + events.countP QueueEvent.isLive ≤ queue.maxCandidates) : queue.Limited events := by
  induction events generalizing queue calls with
  | nil => exact admits.sent.trans ((Nat.le_add_left _ _).trans ((Nat.add_assoc .. ▸ admits.total).trans few))
  | cons event events ih =>
    obtain ⟨next, same⟩ := admits.step event
    obtain ⟨total, sent⟩ := admits
    rw [countP_cons] at few
    refine ⟨by omega, ?_, ih next (by omega)⟩
    rintro peer rfl full
    have reached := of_decide_eq_true full
    simp only [QueueEvent.isLive, Bool.not_false, if_true] at few
    omega

/-- A peer that is queued and taken before anything else happens. -/
def through (peer : PeerDetails) : List QueueEvent := [.call peer false, .send 0, .count, .take]

/-- Peers that have gone through still count. -/
theorem limited_after_through {maxCandidates sent count : Nat} {peer : PeerDetails}
    (room : sent + count ≤ maxCandidates)
    (limited : Limited ⟨maxCandidates, sent, [], 0, []⟩ ((replicate count (through peer)).flatten ++ events)) :
    Limited ⟨maxCandidates, sent + count, [], 0, []⟩ events := by
  induction count generalizing sent with
  | zero => exact limited
  | succ count ih =>
    have enters : step ⟨maxCandidates, sent, [], 0, []⟩ (.call peer false) = ⟨maxCandidates, sent, [peer], 0, []⟩ := by
      have first : ¬maxCandidates ≤ sent := by omega
      simp [step, isFull, first]
    rw [replicate_succ, flatten_cons, append_assoc] at limited
    obtain ⟨_, _, _, _, _, _, _, _, later⟩ := limited
    rw [enters] at later
    have done := @ih (sent + 1) (by omega) later
    rwa [Nat.add_assoc, Nat.add_comm 1] at done

theorem step_closed (event : QueueEvent) : (new 0).step event = new 0 := by
  cases event with
  | call peer dead => exact if_pos (Bool.or_true dead)
  | _ => rfl

def examplePeer (port : UInt16) : PeerDetails := ⟨[], none, text "10.0.0.1", port⟩

/-- The limit is kept in all schedules of some calls only if there are too few of them to reach it. -/
theorem limited_iff {maxCandidates : Nat} :
    (∀ events : List QueueEvent, events.countP QueueEvent.isLive = live → (new maxCandidates).Limited events) ↔
      maxCandidates = 0 ∨ live ≤ maxCandidates := by
  constructor
  · intro all
    by_contra reached
    obtain ⟨positive, more⟩ := not_or.mp reached
    obtain ⟨further, rfl⟩ := Nat.exists_eq_add_of_lt (Nat.not_le.mp more)
    have limited := all ((replicate maxCandidates (through (examplePeer 1))).flatten ++
      replicate (further + 1) (.call (examplePeer 1) false)) (by
        simp [through, QueueEvent.isLive, countP_flatten, countP_replicate]
        omega)
    have after := limited_after_through (Nat.zero_add _).le limited
    have waiting := after.2.1 (examplePeer 1) rfl (by simp [isFull])
    exact positive (Nat.le_zero.mp waiting)
  · intro few events same
    rcases few with rfl | few
    · clear same
      induction events with
      | nil => exact le_rfl
      | cons event events ih => exact ⟨le_rfl, fun _ _ _ => le_rfl, (step_closed event).symm ▸ ih⟩
    · have start : (new maxCandidates).Admits 0 := ⟨le_rfl, le_rfl⟩
      exact start.limited (by rw [same, Nat.zero_add]; exact few)

/-- With a limit of one, a live peer is refused though nobody waits, and two wait at the same time when
both look at the counter before the first has counted. -/
theorem limit_missed :
    (through (examplePeer 1)).foldl step (new 1) = ⟨1, 1, [], 0, []⟩ ∧ isFull ⟨1, 1, [], 0, []⟩ = true ∧
      ([.call (examplePeer 1) false, .call (examplePeer 2) false, .send 0, .send 0].foldl step (new 1)).waiting =
        [examplePeer 1, examplePeer 2] :=
  ⟨rfl, rfl, rfl⟩

end DiscoveryQueue

end BitTorrent
