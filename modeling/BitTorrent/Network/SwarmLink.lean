import BitTorrent.Network.PeerMessage

/-! # The peers of the swarm

What the download path reads and writes of a peer in `peer_swarm`, and `send_have` of
`network/peer.rs`.  A peer is a lock, which may be taken, and a network, which keeps the messages
that were handed to it.
-/

namespace BitTorrent

/-- The call of an `async fn`: the body runs when the future is driven. -/
structure Future (σ α : Type) where
  body : σ → σ × α

namespace Future

variable {σ α : Type}

/-- `future.await`. -/
def await (future : Future σ α) (state : σ) : σ × α := future.body state

/-- `let _ = future;` drops the future, and nothing has driven it. -/
def discard (_ : Future σ α) (state : σ) : σ := state

end Future

/-- `unchoked` is the event `peer_choking`, which is set when the peer has unchoked us. -/
structure SwarmLink where
  unchoked : Bool
  lockFree : Bool
  network : Option (List PeerMessage)

namespace SwarmLink

def sendMessage (message : PeerMessage) : Future SwarmLink (Result Unit) where
  body peer :=
    match peer.network with
    | none => (peer, .error (.io "No network available"))
    | some handed => ({ peer with network := some (handed ++ [message]) }, .ok ())

def sendHave (pieceIndex : Nat) : Future SwarmLink (Result Unit) :=
  sendMessage (.have_ (UInt32.ofNat pieceIndex))

/-- The loop over the swarm, which passes over a peer whose lock is taken. -/
def broadcastHave (piece : Nat) (swarm : String → Option SwarmLink) (ip : String) : Option SwarmLink :=
  (swarm ip).map fun peer => if peer.lockFree then (sendHave piece).discard peer else peer

theorem broadcastHave_eq (piece : Nat) (swarm : String → Option SwarmLink) : broadcastHave piece swarm = swarm := by
  funext ip
  refine (Option.map_congr fun peer _ => ?_).trans Option.map_id'
  split <;> rfl

end SwarmLink

end BitTorrent
