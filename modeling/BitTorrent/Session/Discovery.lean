import BitTorrent.Core.MetadataTransition
import BitTorrent.Network.PexCodec

/-! # Discovery of peers

The loops that `start_download` of `session/session.rs` starts for local and distributed discovery, the
peer exchange of `session/worker.rs` and `network/peer.rs`, and the switch of a magnet link that tells
whether its torrent is private.  Each event is what one thread does while it holds the context, or
one packet that it sends after it has let go; the events of the threads come in any order.
-/

namespace BitTorrent

/-- What the context has after it has tried to switch to the metadata.  It is set before the pieces on
the disk are looked at, so it stays when that fails. -/
def MagnetSource.adopted (digests : Digests) (parseUrl : UrlParser)
    (currentDirectory canonicalDownload : Bytes) (disk : TransitionDisk) (source : MagnetSource) (bytes : Bytes) :
    Option SwitchedTorrent :=
  if MagnetContext.matchesHash digests source.infoHash bytes then
    (source.transitionFromMetadata digests parseUrl currentDirectory canonicalDownload
      { disk with createTorrentBitfield := fun _ => .ok () } bytes).toOption
  else none

structure DiscoveryConfig where
  dhtEnabled : Bool
  allowPrivateLsd : Bool
  enablePex : Bool
  enableIpv6 : Bool

/-- The loop of the announcer, before it reads the status or before it sends. -/
inductive LsdLoop where
  | checking
  | sending
  | stopped

/-- The loop around `lookup_peers`, which reads the status twenty times after each lookup. -/
inductive DhtLoop where
  | looking
  | polling (left : Nat)
  | stopped

/-- What the worker of a peer keeps for the exchange: the message that it is about to write, and the
peers of a received message that it has not gone through. -/
structure PexWorker where
  sentPeers : List (Text × UInt16)
  outgoing : Option PexMessage
  discovered : List PexPeer

/-- What a torrent that is private must not do. -/
inductive Discovery where
  | lsdAnnounce
  | dhtLookup
  | dhtQuery
  | pexMessage (message : PexMessage)
  | pexPeer (peer : PexPeer)

structure DiscoveryState where
  config : DiscoveryConfig
  isPrivate : Bool
  status : TorrentStatus
  /-- There are neither pieces nor metadata. -/
  bootstrapping : Bool
  lsd : List LsdLoop
  dht : List DhtLoop
  /-- The queries that each lookup may still send. -/
  lookups : List Nat
  workers : List PexWorker

inductive DiscoveryEvent where
  | startDownload (complete lsdBinds dhtBinds : Bool)
  | pause
  | resume (complete : Bool)
  | stop
  | complete
  | connected
  | metadata (worker : Nat) (bytes : Bytes) (kept : Bool)
  | lsd (loop : Nat)
  | dht (loop : Nat) (contextBusy : Bool)
  | lookup (index : Nat)
  | pexBroadcast (worker : Nat) (swarm : List SwarmPeer) (excludeIp : Option Text)
  | pexWrite (worker : Nat)
  | pexReceived (worker : Nat) (payload : Bytes) (amSeed : Bool)
  | pexConnect (worker : Nat) (shouldConnect : Bool)

namespace DiscoveryState

variable (state : DiscoveryState)

def isPexEnabled : Bool := state.config.enablePex && !state.isPrivate

def pexSettings : PexSettings := ⟨state.config.enablePex, state.isPrivate, state.config.enableIpv6⟩

/-- `start_downloading`, which a torrent that seeds is spared. -/
def startStatus (status : TorrentStatus) (complete : Bool) : Option TorrentStatus :=
  match status with
  | .seeding => some .seeding
  | .downloading | .ended => none
  | .initialised | .paused => some (if complete then .seeding else .downloading)

def startDownload (complete lsdBinds dhtBinds : Bool) : DiscoveryState :=
  match startStatus state.status complete with
  | none => state
  | some status =>
    { state with
      status
      lsd := if (!state.isPrivate || state.config.allowPrivateLsd) && lsdBinds then state.lsd ++ [.checking] else state.lsd
      dht := if state.config.dhtEnabled && !state.isPrivate && dhtBinds then state.dht ++ [.looking] else state.dht }

def pexDiscovered (payload : Bytes) (amSeed : Bool) : List PexPeer :=
  if !state.isPexEnabled then []
  else match PexMessage.decode payload with
    | .error _ => []
    | .ok message =>
      (message.addedV4 ++ if state.config.enableIpv6 then message.addedV6 else []).filter fun peer =>
        !(amSeed && peer.flags &&& 0x02 != 0)

def onWorker (index : Nat) (act : PexWorker → Option Discovery × PexWorker) : Option Discovery × DiscoveryState :=
  match state.workers[index]? with
  | none => (none, state)
  | some worker => ((act worker).1, { state with workers := state.workers.set index (act worker).2 })

section Step

variable (adopted : Bytes → Option SwitchedTorrent)

def step (state : DiscoveryState) : DiscoveryEvent → Option Discovery × DiscoveryState
  | .startDownload complete lsdBinds dhtBinds => (none, state.startDownload complete lsdBinds dhtBinds)
  | .pause =>
    (none, if state.status = .downloading ∨ state.status = .seeding then { state with status := .paused } else state)
  | .resume complete =>
    (none, if state.status = .paused then { state with status := if complete then .seeding else .downloading } else state)
  | .stop => (none, { state with status := .ended })
  | .complete => (none, if state.status = .downloading then { state with status := .seeding } else state)
  | .connected => (none, { state with workers := state.workers ++ [⟨[], none, []⟩] })
  | .metadata worker bytes kept =>
    (none,
      if state.bootstrapping = true ∧ state.status = .downloading ∧ worker < state.workers.length then
        match adopted bytes with
        | none => state
        | some torrent =>
          { state with
            isPrivate := torrent.isPrivate
            bootstrapping := torrent.piecesInfoHash.isEmpty && !kept }
      else state)
  | .lsd loop =>
    match state.lsd[loop]? with
    | some .checking =>
      (none, { state with lsd := state.lsd.set loop (if state.status = .ended then .stopped else .sending) })
    | some .sending => (some .lsdAnnounce, { state with lsd := state.lsd.set loop .checking })
    | _ => (none, state)
  | .dht loop contextBusy =>
    match state.dht[loop]? with
    | some .looking | some (.polling 0) =>
      (some .dhtLookup, { state with dht := state.dht.set loop (.polling 20), lookups := state.lookups ++ [20] })
    | some (.polling (left + 1)) =>
      let ends := !contextBusy && (state.status == .ended || state.status == .seeding)
      (none, { state with dht := state.dht.set loop (if ends then .stopped else .polling left) })
    | _ => (none, state)
  | .lookup index =>
    match state.lookups[index]? with
    | some (left + 1) => (some .dhtQuery, { state with lookups := state.lookups.set index left })
    | _ => (none, state)
  | .pexBroadcast index swarm excludeIp =>
    if state.isPexEnabled then
      state.onWorker index fun worker =>
        let (message, newlySent) := PexMessage.generatePexMessage state.pexSettings swarm worker.sentPeers excludeIp
        (none, { worker with sentPeers := newlySent, outgoing := if message.isEmpty then none else some message })
    else (none, state)
  | .pexWrite index =>
    state.onWorker index fun worker => (worker.outgoing.map .pexMessage, { worker with outgoing := none })
  | .pexReceived index payload amSeed =>
    state.onWorker index fun worker =>
      (none, { worker with discovered := worker.discovered ++ state.pexDiscovered payload amSeed })
  | .pexConnect index shouldConnect =>
    state.onWorker index fun worker =>
      (if shouldConnect then worker.discovered.head?.map .pexPeer else none,
        { worker with discovered := worker.discovered.tail })

def run (state : DiscoveryState) (events : List DiscoveryEvent) : DiscoveryState :=
  events.foldl (fun state event => (state.step adopted event).2) state

/-- In no run does the torrent do something that it must not, once it is private. -/
def KeepsPrivate (start : DiscoveryState) : Prop :=
  ∀ events event, (start.run adopted events).isPrivate = true → ((start.run adopted events).step adopted event).1 = none

/-- The torrent becomes private in some run: it has no pieces yet, and some metadata of its hash is private.
A torrent that is private from the start must have lost the flag to other metadata, without pieces, before. -/
def MayTurnPrivate (start : DiscoveryState) : Prop :=
  start.bootstrapping = true ∧ (∃ bytes torrent, adopted bytes = some torrent ∧ torrent.isPrivate = true) ∧
    (start.isPrivate = true →
      ∃ bytes torrent, adopted bytes = some torrent ∧ torrent.isPrivate = false ∧ torrent.piecesInfoHash = [])

end Step

/-- A context of which the session has started nothing. -/
structure Fresh : Prop where
  status : state.status = .initialised ∨ state.status = .seeding
  lsd : state.lsd = []
  dht : state.dht = []
  lookups : state.lookups = []
  workers : state.workers = []

/-- What a private torrent has never started. -/
structure Quiet : Prop where
  lsd : state.lsd = []
  dht : state.dht = []
  lookups : state.lookups = []
  workers : ∀ worker ∈ state.workers, worker.outgoing = none ∧ worker.discovered = []
  withoutLsd : state.config.allowPrivateLsd = false

structure Safe (adopted : Bytes → Option SwitchedTorrent) (state : DiscoveryState) : Prop where
  quiet : state.isPrivate = true → state.Quiet
  settled : state.bootstrapping = true →
    (∀ bytes torrent, adopted bytes = some torrent → torrent.isPrivate = false) ∨
      (state.isPrivate = true ∧
        ∀ bytes torrent, adopted bytes = some torrent → torrent.isPrivate = false → torrent.piecesInfoHash ≠ [])

variable {adopted : Bytes → Option SwitchedTorrent} {state start : DiscoveryState}

theorem step_cases (state : DiscoveryState) (event : DiscoveryEvent) :
    ((state.step adopted event).2.isPrivate = state.isPrivate ∧
      (state.step adopted event).2.bootstrapping = state.bootstrapping) ∨
    ∃ bytes torrent kept, state.bootstrapping = true ∧ adopted bytes = some torrent ∧
      (state.step adopted event).2 =
        { state with isPrivate := torrent.isPrivate, bootstrapping := torrent.piecesInfoHash.isEmpty && !kept } := by
  have same {index : Nat} {act : PexWorker → Option Discovery × PexWorker} :
      (state.onWorker index act).2.isPrivate = state.isPrivate ∧
        (state.onWorker index act).2.bootstrapping = state.bootstrapping := by
    unfold onWorker
    split <;> exact ⟨rfl, rfl⟩
  cases event with
  | metadata worker bytes kept =>
    by_cases ready : state.bootstrapping = true ∧ state.status = .downloading ∧ worker < state.workers.length
    case pos =>
      cases known : adopted bytes with
      | none => exact .inl (by simp [step, known])
      | some torrent => exact .inr ⟨bytes, torrent, kept, ready.1, known, by simp only [step, if_pos ready, known]⟩
    case neg => exact .inl (by simp only [step, if_neg ready, and_self])
  | pexWrite | pexReceived | pexConnect => exact .inl same
  | pexBroadcast =>
    left
    simp only [step]
    split
    · exact same
    · exact ⟨rfl, rfl⟩
  | startDownload =>
    left
    simp only [step, DiscoveryState.startDownload]
    split <;> exact ⟨rfl, rfl⟩
  | stop | connected => exact .inl ⟨rfl, rfl⟩
  | pause | resume | complete | lsd | dht | lookup =>
    left
    simp only [step]
    split <;> exact ⟨rfl, rfl⟩

theorem onWorker_quiet (quiet : state.Quiet) {index : Nat} {act : PexWorker → Option Discovery × PexWorker}
    (silent : ∀ worker, worker.outgoing = none ∧ worker.discovered = [] →
      (act worker).1 = none ∧ (act worker).2.outgoing = none ∧ (act worker).2.discovered = []) :
    (state.onWorker index act).1 = none ∧ (state.onWorker index act).2.Quiet := by
  unfold onWorker
  split
  case h_1 => exact ⟨rfl, quiet⟩
  case h_2 worker found =>
    obtain ⟨nothing, kept⟩ := silent worker (quiet.workers worker (List.mem_of_getElem? found))
    refine ⟨nothing, { quiet with workers := ?_ }⟩
    intro other member
    rcases List.mem_or_eq_of_mem_set member with member | rfl
    · exact quiet.workers other member
    · exact kept

theorem startDownload_quiet (isPrivate : state.isPrivate = true) (quiet : state.Quiet) (complete lsdBinds dhtBinds : Bool) :
    (state.startDownload complete lsdBinds dhtBinds).Quiet := by
  unfold DiscoveryState.startDownload
  split
  · exact quiet
  · exact { quiet with
      lsd := by simp [isPrivate, quiet.withoutLsd, quiet.lsd]
      dht := by simp [isPrivate, quiet.dht] }

/-- A private torrent that has started nothing does nothing, and goes on so. -/
theorem step_quiet (isPrivate : state.isPrivate = true) (quiet : state.Quiet) (event : DiscoveryEvent) :
    (state.step adopted event).1 = none ∧ (state.step adopted event).2.Quiet := by
  cases event with
  | startDownload => exact ⟨rfl, startDownload_quiet isPrivate quiet _ _ _⟩
  | pause | resume | complete =>
    refine ⟨rfl, ?_⟩
    simp only [step]
    split
    · exact { quiet with }
    · exact quiet
  | stop => exact ⟨rfl, { quiet with }⟩
  | connected => exact ⟨rfl, { quiet with workers := List.forall_mem_append.mpr ⟨quiet.workers, by simp⟩ }⟩
  | metadata =>
    refine ⟨rfl, ?_⟩
    simp only [step]
    split
    · split
      · exact quiet
      · exact { quiet with }
    · exact quiet
  | lsd => simp [step, quiet.lsd, quiet]
  | dht => simp [step, quiet.dht, quiet]
  | lookup => simp [step, quiet.lookups, quiet]
  | pexBroadcast => simp [step, isPexEnabled, isPrivate, quiet]
  | pexWrite => exact onWorker_quiet quiet fun worker silent => by simp [silent]
  | pexReceived => exact onWorker_quiet quiet fun worker silent => by simp [silent, pexDiscovered, isPexEnabled, isPrivate]
  | pexConnect => exact onWorker_quiet quiet fun worker silent => by simp [silent]

theorem Safe.step (safe : state.Safe adopted) (event : DiscoveryEvent) : (state.step adopted event).2.Safe adopted := by
  rcases step_cases state event with ⟨samePrivate, sameBootstrapping⟩ | ⟨bytes, torrent, kept, bootstrapping, known, outcome⟩
  · constructor
    · intro isPrivate
      rw [samePrivate] at isPrivate
      exact (step_quiet isPrivate (safe.quiet isPrivate) event).2
    · rw [samePrivate, sameBootstrapping]
      exact safe.settled
  · rw [outcome]
    rcases safe.settled bootstrapping with never | ⟨isPrivate, pieces⟩
    · exact ⟨fun turned => (Bool.false_ne_true ((never bytes torrent known).symm.trans turned)).elim, fun _ => .inl never⟩
    · refine ⟨fun _ => { safe.quiet isPrivate with }, fun still => ?_⟩
      cases turned : torrent.isPrivate with
      | true => exact .inr ⟨rfl, pieces⟩
      | false => simp [pieces bytes torrent known turned] at still

theorem Safe.run (safe : start.Safe adopted) (events : List DiscoveryEvent) : (start.run adopted events).Safe adopted := by
  induction events generalizing start with
  | nil => exact safe
  | cons event events ih => exact ih (safe.step event)

theorem Fresh.safe (fresh : start.Fresh) (withoutLsd : start.isPrivate = true → start.config.allowPrivateLsd = false)
    (stays : ¬start.MayTurnPrivate adopted) : start.Safe adopted := by
  refine ⟨fun isPrivate => ⟨fresh.lsd, fresh.dht, fresh.lookups, by simp [fresh.workers], withoutLsd isPrivate⟩, ?_⟩
  intro bootstrapping
  by_cases never : ∀ bytes torrent, adopted bytes = some torrent → torrent.isPrivate = false
  case pos => exact .inl never
  case neg =>
    have turns : ∃ bytes torrent, adopted bytes = some torrent ∧ torrent.isPrivate = true := by simpa using never
    right
    by_contra open_
    refine stays ⟨bootstrapping, turns, fun isPrivate => ?_⟩
    simpa [isPrivate] using open_

@[simp] theorem run_nil : start.run adopted [] = start := rfl

@[simp] theorem run_cons (event : DiscoveryEvent) (events : List DiscoveryEvent) :
    start.run adopted (event :: events) = (start.step adopted event).2.run adopted events := rfl

theorem run_append (first rest : List DiscoveryEvent) :
    start.run adopted (first ++ rest) = (start.run adopted first).run adopted rest :=
  List.foldl_append

/-- The announcer never asks whether the torrent has become private. -/
theorem not_keepsPrivate {events : List DiscoveryEvent} (isPrivate : (start.run adopted events).isPrivate = true)
    (started : (start.run adopted events).lsd = [.checking]) (running : (start.run adopted events).status = .downloading) :
    ¬start.KeepsPrivate adopted := by
  intro keeps
  have silent := keeps (events ++ [.lsd 0]) (.lsd 0)
  rw [run_append] at silent
  simp [step, started, running, isPrivate] at silent

/-- The start of the download, and its first peer. -/
def opening : List DiscoveryEvent := [.startDownload false true true, .pause, .resume false, .connected]

theorem run_opening (fresh : start.Fresh) :
    (start.run adopted opening).isPrivate = start.isPrivate ∧
      (start.run adopted opening).bootstrapping = start.bootstrapping ∧
      (start.run adopted opening).config = start.config ∧ (start.run adopted opening).status = .downloading ∧
      (start.run adopted opening).workers.length = 1 ∧
      (start.run adopted opening).lsd = if !start.isPrivate || start.config.allowPrivateLsd then [.checking] else [] := by
  rcases fresh.status with status | status <;>
    simp [opening, step, DiscoveryState.startDownload, startStatus, status, fresh.lsd, fresh.workers]

theorem KeepsPrivate.withoutLsd (fresh : start.Fresh) (keeps : start.KeepsPrivate adopted)
    (isPrivate : start.isPrivate = true) : start.config.allowPrivateLsd = false := by
  obtain ⟨samePrivate, -, -, status, -, lsd⟩ := @run_opening adopted start fresh
  by_contra allowed
  refine not_keepsPrivate (samePrivate.trans isPrivate) ?_ status keeps
  rw [lsd, if_pos (by simp [Bool.eq_true_of_not_eq_false allowed])]

theorem KeepsPrivate.stays (fresh : start.Fresh) (keeps : start.KeepsPrivate adopted) : ¬start.MayTurnPrivate adopted := by
  rintro ⟨bootstrapping, ⟨bytes, torrent, known, turned⟩, before⟩
  obtain ⟨samePrivate, sameBootstrapping, sameConfig, status, workers, lsd⟩ := @run_opening adopted start fresh
  rw [bootstrapping] at sameBootstrapping
  cases isPrivate : start.isPrivate with
  | false =>
    apply @not_keepsPrivate adopted start (opening ++ [.metadata 0 bytes true]) _ _ _ keeps <;>
      rw [run_append] <;>
      simp [step, sameBootstrapping, status, workers, known, turned, lsd, isPrivate]
  | true =>
    have withoutLsd := keeps.withoutLsd fresh isPrivate
    obtain ⟨other, lost, otherKnown, cleared, empty⟩ := before isPrivate
    apply @not_keepsPrivate adopted start
        (opening ++ [.metadata 0 other false, .pause, .startDownload false true true, .metadata 0 bytes true]) _ _ _ keeps <;>
      rw [run_append] <;>
      simp [step, DiscoveryState.startDownload, startStatus, sameBootstrapping, status, workers, known, turned, lsd, isPrivate,
        otherKnown, cleared, empty, withoutLsd]

section Privacy

variable {digests : Digests} {parseUrl : UrlParser} {currentDirectory canonicalDownload : Bytes}
  {disk : TransitionDisk} {source : MagnetSource}

/-- Privacy is kept in every run, unless local discovery is allowed to a private torrent or the torrent can turn out to be
private after the session has started. -/
theorem keepsPrivate_iff (fresh : start.Fresh) :
    start.KeepsPrivate (source.adopted digests parseUrl currentDirectory canonicalDownload disk) ↔
      (start.isPrivate = true → start.config.allowPrivateLsd = false) ∧
        ¬start.MayTurnPrivate (source.adopted digests parseUrl currentDirectory canonicalDownload disk) := by
  constructor
  · intro keeps
    exact ⟨keeps.withoutLsd fresh, keeps.stays fresh⟩
  · rintro ⟨withoutLsd, stays⟩ events event isPrivate
    have safe := (fresh.safe withoutLsd stays).run events
    exact (step_quiet isPrivate (safe.quiet isPrivate) event).1

end Privacy

def adoptedBy (metadata : Bytes) : Bytes → Option SwitchedTorrent :=
  (MagnetSource.linkTo metadata).adopted MetaInfoFile.lengthDigests (fun _ => .ok ()) (ascii "/") (ascii "/d")
    MagnetSource.readyDisk

/-- A torrent file that is private. -/
def privateFile : DiscoveryState := ⟨⟨true, false, true, true⟩, true, .initialised, false, [], [], [], []⟩

theorem privateFile_keepsPrivate : privateFile.KeepsPrivate (adoptedBy MagnetSource.oneFile) :=
  (keepsPrivate_iff ⟨.inl rfl, rfl, rfl, rfl, rfl⟩).mpr ⟨fun _ => rfl, fun turns => Bool.false_ne_true turns.1⟩

/-- Metadata that says that the torrent is private. -/
def privateMetadata : Bytes :=
  ascii "d6:lengthi1e4:name1:a12:piece lengthi1e6:pieces20:012345678901234567897:privatei1ee"

/-- The context of a link to that metadata, after a download has started and a peer has sent it. -/
def switchedMagnet : DiscoveryState :=
  (DiscoveryState.mk ⟨true, false, true, true⟩ false .initialised true [] [] [] []).run (adoptedBy privateMetadata)
    [.startDownload false true true, .connected, .metadata 0 privateMetadata true, .lsd 0]

theorem privateMetadata_adopted :
    ((adoptedBy privateMetadata) privateMetadata).map SwitchedTorrent.isPrivate = some true := by
  decide +kernel

/-- The torrent is private, and yet it is announced on the local network. -/
theorem switchedMagnet_announced : switchedMagnet.isPrivate = true ∧
    (switchedMagnet.step (adoptedBy privateMetadata) (.lsd 0)).1 = some .lsdAnnounce := by
  obtain ⟨torrent, known, turned⟩ := Option.map_eq_some_iff.mp privateMetadata_adopted
  simp [switchedMagnet, step, DiscoveryState.startDownload, startStatus, known, turned]

end DiscoveryState

end BitTorrent
