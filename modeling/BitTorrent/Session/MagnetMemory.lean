import BitTorrent.Core.MetadataTransition
import BitTorrent.Core.RootFields
import BitTorrent.Network.RemotePieces

/-! # What a magnet link has learned before its metadata

Web seeds and trackers are added to the context of a magnet link, and peers tell their pieces, while
the number of pieces is not known.  `transition_from_metadata` then sets the web seeds and the bit
fields of the peers anew.  No lock is poisoned.
-/

namespace BitTorrent

open Bencode BNode RemotePieces MetaInfoFile MagnetSource Function

structure MagnetBootstrap where
  source : MagnetSource
  webSeeds : List Text
  numberOfPieces : Nat
  peerSwarm : String → Option RemotePieces

inductive BootstrapEvent where
  | addWebSeed (url : Text)
  | addTrackerUrl (url : Text)
  | join (ip : String)
  | leave (ip : String)
  | receive (ip : String) (message : PeerMessage)

/-- What should be known after some events. -/
structure Learned where
  webSeeds : Set Text
  trackerUrls : Set Text
  pieces : String → Option (Nat → Bool)

def Learned.learn (learned : Learned) : BootstrapEvent → Learned
  | .addWebSeed url => { learned with webSeeds := insert url learned.webSeeds }
  | .addTrackerUrl url => { learned with trackerUrls := insert url learned.trackerUrls }
  | .join ip =>
    if (learned.pieces ip).isSome then learned
    else { learned with pieces := update learned.pieces ip (some fun _ => false) }
  | .leave ip => { learned with pieces := update learned.pieces ip none }
  | .receive ip message =>
    { learned with
      pieces := update learned.pieces ip
        ((learned.pieces ip).map fun known => announced known message) }

/-- What the link itself tells. -/
def Learned.fromLink (trackerUrls : List Text) : Learned := ⟨∅, { url | url ∈ trackerUrls }, fun _ => none⟩

namespace MagnetBootstrap

/-- `new_magnet_bootstrap`. -/
def new (infoHash : Bytes) (trackerUrls : List Text) : MagnetBootstrap where
  source := ⟨infoHash, trackerUrls.headD [], trackerUrls, []⟩
  webSeeds := []
  numberOfPieces := 0
  peerSwarm _ := none

variable (bootstrap : MagnetBootstrap)

def bitfieldLen : Nat := (bootstrap.numberOfPieces + 7) / 8

def addWebSeed (url : Text) : MagnetBootstrap × Bool :=
  if url ∈ bootstrap.webSeeds then (bootstrap, false)
  else ({ bootstrap with webSeeds := bootstrap.webSeeds ++ [url] }, true)

def addTrackerUrl (url : Text) : MagnetBootstrap × Bool :=
  let source := bootstrap.source
  if url ∈ source.trackerUrls then (bootstrap, false)
  else
    ({ bootstrap with
        source := { source with
          trackerUrl := if source.trackerUrl = [] then url else source.trackerUrl
          trackerUrls := source.trackerUrls ++ [url] } }, true)

/-- A peer joins under an address that is not in the swarm. -/
def step : BootstrapEvent → MagnetBootstrap
  | .addWebSeed url => (bootstrap.addWebSeed url).1
  | .addTrackerUrl url => (bootstrap.addTrackerUrl url).1
  | .join ip =>
    if (bootstrap.peerSwarm ip).isSome then bootstrap
    else
      { bootstrap with
        peerSwarm := update bootstrap.peerSwarm ip
          (some (.new bootstrap.numberOfPieces bootstrap.bitfieldLen)) }
  | .leave ip => { bootstrap with peerSwarm := update bootstrap.peerSwarm ip none }
  | .receive ip message =>
    { bootstrap with
      peerSwarm := update bootstrap.peerSwarm ip
        ((bootstrap.peerSwarm ip).map fun remote =>
          remote.receive bootstrap.numberOfPieces bootstrap.bitfieldLen message) }

section Transition

variable (digests : Digests) (parseUrl : UrlParser) (currentDirectory canonicalDownload : Bytes)
  (disk : TransitionDisk)

/-- `transition_from_metadata` on what the link has learned. -/
def transition (bootstrap : MagnetBootstrap) (infoDictBytes : Bytes) : Result MagnetBootstrap := do
  let switched ← bootstrap.source.transitionFromMetadata digests parseUrl currentDirectory canonicalDownload disk
    infoDictBytes
  let numberOfPieces := switched.piecesInfoHash.length / hashLength
  return {
    source := { bootstrap.source with fileName := switched.fileName }
    webSeeds := switched.webSeeds
    numberOfPieces
    peerSwarm ip := (bootstrap.peerSwarm ip).map fun remote => remote.resync numberOfPieces ((numberOfPieces + 7) / 8) }

/-- The piece hashes that the metadata holds. -/
def namedHashes (source : MagnetSource) (infoDictBytes : Bytes) : Result Bytes := do
  let (infoNode, _) ← decodePartial infoDictBytes
  let file ← parse digests (.fromBytes (encode (source.rootNode infoNode)))
  file.getPiecesInfoHash

def namedPieces (source : MagnetSource) (infoDictBytes : Bytes) : Nat :=
  ((namedHashes digests source infoDictBytes).toOption.getD []).length / hashLength

end Transition

/-- Nothing that was learned has been forgotten. -/
structure Keeps (learned : Learned) (after : MagnetBootstrap) : Prop where
  webSeeds : ∀ url ∈ learned.webSeeds, url ∈ after.webSeeds
  trackerUrls : ∀ url ∈ learned.trackerUrls, url ∈ after.source.trackerUrls
  pieces : ∀ ip remote known, after.peerSwarm ip = some remote → learned.pieces ip = some known →
    ∀ piece < after.numberOfPieces, remote.isPieceOnRemotePeer piece = known piece

/-- No web seed has been added, and what each peer announced survives a new length of its bit field. -/
structure Unforgettable (learned : Learned) (bootstrap : MagnetBootstrap) (numberOfPieces : Nat) : Prop where
  webSeeds : learned.webSeeds = ∅
  pieces : ∀ ip remote known, bootstrap.peerSwarm ip = some remote → learned.pieces ip = some known →
    remote.Outlasts known numberOfPieces

/-- The context knows what should be known. -/
structure Represents (learned : Learned) : Prop where
  trackerUrls : ∀ url ∈ learned.trackerUrls, url ∈ bootstrap.source.trackerUrls
  pieces : ∀ ip, Option.Rel Tracks (bootstrap.peerSwarm ip) (learned.pieces ip)

variable {digests : Digests} {parseUrl : UrlParser} {currentDirectory canonicalDownload : Bytes}
  {disk : TransitionDisk} {bootstrap after : MagnetBootstrap} {learned : Learned} {infoDictBytes : Bytes}
  {source : MagnetSource} {file : MetaInfoFile}

theorem rel_update {swarm : String → Option RemotePieces} {pieces : String → Option (Nat → Bool)} {ip : String}
    {remote : Option RemotePieces} {known : Option (Nat → Bool)}
    (same : ∀ ip, Option.Rel Tracks (swarm ip) (pieces ip)) (new : Option.Rel Tracks remote known)
    (other : String) :
    Option.Rel Tracks (update swarm ip remote other) (update pieces ip known other) := by
  by_cases self : other = ip
  · rw [self, update_self, update_self]
    exact new
  · rw [update_of_ne self, update_of_ne self]
    exact same other

theorem Represents.isSome_eq (represents : Represents bootstrap learned) (ip : String) :
    (bootstrap.peerSwarm ip).isSome = (learned.pieces ip).isSome := by
  have rel := represents.pieces ip
  generalize bootstrap.peerSwarm ip = remote at rel ⊢
  generalize learned.pieces ip = known at rel ⊢
  cases rel with
  | some _ => rfl
  | none => rfl

theorem Represents.step (represents : Represents bootstrap learned) (event : BootstrapEvent) :
    Represents (bootstrap.step event) (learned.learn event) := by
  cases event with
  | addWebSeed url =>
    rw [MagnetBootstrap.step, addWebSeed]
    split
    case isTrue => exact ⟨represents.trackerUrls, represents.pieces⟩
    case isFalse => exact ⟨represents.trackerUrls, represents.pieces⟩
  | addTrackerUrl url =>
    rw [MagnetBootstrap.step, addTrackerUrl]
    split
    case isTrue listed =>
      refine ⟨?_, represents.pieces⟩
      rintro other (rfl | member)
      · exact listed
      · exact represents.trackerUrls other member
    case isFalse =>
      refine ⟨?_, represents.pieces⟩
      rintro other (rfl | member)
      · exact List.mem_append_right _ List.mem_cons_self
      · exact List.mem_append_left _ (represents.trackerUrls other member)
  | join ip =>
    rw [MagnetBootstrap.step, Learned.learn, represents.isSome_eq]
    split
    case isTrue => exact represents
    case isFalse => exact ⟨represents.trackerUrls, rel_update represents.pieces (.some tracks_new)⟩
  | leave ip => exact ⟨represents.trackerUrls, rel_update represents.pieces .none⟩
  | receive ip message =>
    refine ⟨represents.trackerUrls, rel_update represents.pieces ?_⟩
    have rel := represents.pieces ip
    generalize bootstrap.peerSwarm ip = remote at rel ⊢
    generalize learned.pieces ip = known at rel ⊢
    cases rel with
    | some tracks => exact .some (tracks.receive message)
    | none => exact .none

theorem represents_run (infoHash : Bytes) (trackerUrls : List Text) (events : List BootstrapEvent) :
    Represents (events.foldl MagnetBootstrap.step (.new infoHash trackerUrls))
      (events.foldl Learned.learn (.fromLink trackerUrls)) := by
  have start : Represents (.new infoHash trackerUrls) (.fromLink trackerUrls) := ⟨fun _ member => member, fun _ => .none⟩
  generalize MagnetBootstrap.new infoHash trackerUrls = bootstrap at start ⊢
  generalize Learned.fromLink trackerUrls = learned at start ⊢
  induction events generalizing bootstrap learned with
  | nil => exact start
  | cons event events ih => exact ih _ _ (start.step event)

theorem saved_webSeeds {depth : Nat} {infoNode : BNode} (proper : Proper depth infoNode)
    (parsed : parse digests (.fromBytes (encode (source.rootNode infoNode))) = .ok file) :
    file.getWebSeeds = [] := by
  rw [encode_rootNode, ← List.append_nil (spell _)] at parsed
  obtain ⟨last, run, rfl⟩ := run_of_parse (writtenEntries_delimited proper)
    (writtenEntries_whole infoNode) parsed
  have distinct : ((source.writtenEntries infoNode).map Prod.fst).Nodup :=
    show [ascii "announce", ascii "info"].Nodup by decide
  have unset : last.get (text "url-list") = none := get_of_run (by decide) distinct run
  have same : ({ last with parsed := true } : MetaInfoFile).get (text "url-list") = none := unset
  rw [getWebSeeds, same]

theorem transition_eq_ok
    (done : bootstrap.transition digests parseUrl currentDirectory canonicalDownload disk infoDictBytes = .ok after) :
    after.webSeeds = [] ∧ after.source.trackerUrls = bootstrap.source.trackerUrls ∧
      after.numberOfPieces = namedPieces digests bootstrap.source infoDictBytes ∧
      ∀ ip, after.peerSwarm ip = (bootstrap.peerSwarm ip).map fun remote =>
        remote.resync after.numberOfPieces ((after.numberOfPieces + 7) / 8) := by
  obtain ⟨switched, ran, done⟩ := bind_eq_ok.mp done
  cases done
  obtain ⟨infoNode, count, file, decoded, written, parsed, known, seeds⟩ := transitionFromMetadata_eq_ok ran
  rw [written] at parsed
  obtain ⟨_, member⟩ := decodePartial_eq_ok_iff.mp decoded
  obtain ⟨proper, _⟩ := (renders_word maxDepth _ _).mp member
  have hashes : namedHashes digests bootstrap.source infoDictBytes = .ok switched.piecesInfoHash :=
    bind_eq_ok.mpr ⟨_, decoded, bind_eq_ok.mpr ⟨file, parsed, known⟩⟩
  refine ⟨seeds.trans (saved_webSeeds proper parsed), rfl, ?_, fun _ => rfl⟩
  rw [namedPieces, hashes]
  rfl

/-- The switch keeps what was learned when no web seed was added and the bit field of each peer
already has its final length, or nothing to lose. -/
theorem keeps_iff_unforgettable (infoHash : Bytes) (trackerUrls : List Text) (events : List BootstrapEvent)
    (reached : events.foldl MagnetBootstrap.step (.new infoHash trackerUrls) = bootstrap)
    (done : bootstrap.transition digests parseUrl currentDirectory canonicalDownload disk infoDictBytes = .ok after) :
    Keeps (events.foldl Learned.learn (.fromLink trackerUrls)) after ↔
      Unforgettable (events.foldl Learned.learn (.fromLink trackerUrls)) bootstrap
        (namedPieces digests bootstrap.source infoDictBytes) := by
  have represents := represents_run infoHash trackerUrls events
  rw [reached] at represents
  generalize events.foldl Learned.learn (.fromLink trackerUrls) = learned at represents ⊢
  obtain ⟨noSeeds, trackers, pieces, swarm⟩ := transition_eq_ok done
  rw [← pieces]
  have tracks : ∀ {ip remote known}, bootstrap.peerSwarm ip = some remote → learned.pieces ip = some known →
      Tracks remote known := by
    intro ip remote known there told
    have rel := represents.pieces ip
    rw [there, told] at rel
    cases rel with
    | some tracks => exact tracks
  constructor
  · intro keeps
    refine ⟨Set.eq_empty_iff_forall_notMem.mpr ?_, ?_⟩
    · intro url member
      have kept := keeps.webSeeds url member
      rw [noSeeds] at kept
      cases kept
    · intro ip remote known there told
      refine (tracks there told).resync_iff.mp fun piece below => ?_
      refine keeps.pieces ip _ known ?_ told piece below
      rw [swarm, there]
      rfl
  · intro unforgettable
    refine ⟨?_, ?_, ?_⟩
    · intro url member
      rw [unforgettable.webSeeds] at member
      cases member
    · intro url member
      rw [trackers]
      exact represents.trackerUrls url member
    · intro ip resynced known there told
      rw [swarm] at there
      obtain ⟨remote, before, rfl⟩ := Option.map_eq_some_iff.mp there
      exact (tracks before told).resync_iff.mpr (unforgettable.pieces ip remote known before told)

/-- The metadata of a file of nine pieces. -/
def ninePieces : Bytes :=
  ascii "d6:lengthi9e4:name1:a12:piece lengthi1e6:pieces180:" ++ List.replicate 180 48 ++ ascii "e"

def afterEvents (events : List BootstrapEvent) : MagnetBootstrap := events.foldl step (new [] [text "u"])

def switchAfter (events : List BootstrapEvent) : Result MagnetBootstrap :=
  (afterEvents events).transition lengthDigests (fun _ => .ok ()) (ascii "/") (ascii "/d")
    readyDisk ninePieces

def seedJoins : List BootstrapEvent := [.join "10.0.0.1", .receive "10.0.0.1" .haveAll]

theorem seedJoins_kept :
    ∃ after, switchAfter seedJoins = .ok after ∧ Keeps (seedJoins.foldl Learned.learn (.fromLink [text "u"])) after := by
  have switches : (switchAfter seedJoins).toOption.isSome = true := by decide +kernel
  obtain ⟨after, found⟩ := Option.isSome_iff_exists.mp switches
  refine ⟨after, toOption_eq_some.mp found, ?_⟩
  refine (keeps_iff_unforgettable [] _ seedJoins rfl (toOption_eq_some.mp found)).mpr ⟨rfl, ?_⟩
  intro ip remote known there told
  by_cases same : ip = "10.0.0.1"
  · subst same
    cases there
    cases told
    exact fun _ _ => rfl
  · have absent : (afterEvents seedJoins).peerSwarm ip = none :=
      (update_of_ne same _ _).trans (update_of_ne same _ _)
    exact nomatch absent.symm.trans there

def leechJoins : List BootstrapEvent :=
  [.addWebSeed (text "http://w/"), .join "10.0.0.1", .receive "10.0.0.1" (.have_ 0)]

/-- The web seed and the first piece of the peer are forgotten. -/
theorem leechJoins_forgotten :
    ∃ after, switchAfter leechJoins = .ok after ∧ after.webSeeds = [] ∧ after.numberOfPieces = 9 ∧
      (after.peerSwarm "10.0.0.1").map (fun remote => remote.isPieceOnRemotePeer 0) = some false ∧
      ¬Keeps (leechJoins.foldl Learned.learn (.fromLink [text "u"])) after := by
  have switches : (switchAfter leechJoins).toOption.map (fun after =>
      (after.webSeeds, after.numberOfPieces, (after.peerSwarm "10.0.0.1").map fun remote => remote.isPieceOnRemotePeer 0)) =
      some ([], 9, some false) := by decide +kernel
  obtain ⟨after, found, results⟩ := Option.map_eq_some_iff.mp switches
  obtain ⟨seeds, others⟩ := Prod.mk.inj results
  obtain ⟨pieces, forgotten⟩ := Prod.mk.inj others
  refine ⟨after, toOption_eq_some.mp found, seeds, pieces, forgotten, ?_⟩
  intro keeps
  have kept := keeps.webSeeds (text "http://w/") (.inl rfl)
  rw [seeds] at kept
  cases kept

end MagnetBootstrap

end BitTorrent
