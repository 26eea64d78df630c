import BitTorrent.Library.Runs
import BitTorrent.Network.Announce

/-! # The tracker and its fallbacks

`Tracker::new`, `announce_with_fallback` and `scrape` of `network/tracker.rs`.  Which URLs an announcer
can be created for is a parameter.  A call over the network may be answered in any way.
-/

namespace BitTorrent

open List

/-- An announcer, known by the URL that it was created for. -/
structure Announcer where
  createdFor : Text
deriving DecidableEq

structure Tracker where
  announcer : Announcer
  trackerUrl : Text
  trackerUrls : List Text
  numWanted : Nat
deriving DecidableEq

/-- A call over the network: the announcer that makes it, and the URL in its context. -/
structure NetworkCall where
  announcer : Announcer
  url : Text
deriving DecidableEq

namespace Tracker

variable (create : Text → Result Unit)

/-- The primary URL of a torrent, or else the first other one for which there is an announcer. -/
def new (primary : Text) (urls : List Text) : Result Tracker :=
  match create primary with
  | .ok _ => .ok ⟨⟨primary⟩, primary, urls, 50⟩
  | .error reason =>
    match urls.find? fun url => decide (url ≠ primary) && (create url).isOk with
    | some url => .ok ⟨⟨url⟩, url, urls, 50⟩
    | none => .error reason

variable (tracker : Tracker)

def call : NetworkCall := ⟨tracker.announcer, tracker.trackerUrl⟩

/-- The next URL of the loop, and whether it is tried: not if no announcer can be created for it. -/
def turnTo (original url : Text) (tracker : Tracker) : Tracker × Bool :=
  let tracker := { tracker with trackerUrl := url }
  if url = original then (tracker, true)
  else if (create url).isOk then ({ tracker with announcer := ⟨url⟩ }, true)
  else (tracker, false)

/-- What differs between an announce and a scrape.  The answers are numbered by the calls before them. -/
structure Exchange (ρ : Type) where
  answers : Nat → Result ρ
  refusal : ρ → Option BitTorrentError
  merge : Option ρ → ρ → ρ
  enough : ρ → Bool

/-- The variables of the loop. -/
structure Progress (ρ : Type) where
  tracker : Tracker
  calls : List NetworkCall
  result : Option ρ
  lastError : Option BitTorrentError

variable {ρ : Type}

/-- The attempts on one URL. -/
def attempts (exchange : Exchange ρ) : Nat → Progress ρ → Progress ρ
  | 0, progress => progress
  | left + 1, progress =>
    let called := { progress with calls := progress.calls ++ [progress.tracker.call] }
    match exchange.answers progress.calls.length with
    | .error reason => attempts exchange left { called with lastError := some reason }
    | .ok response =>
      match exchange.refusal response with
      | some reason => attempts exchange left { called with lastError := some reason }
      | none => { called with result := some (exchange.merge progress.result response) }

/-- The loop over the URLs. -/
def fallback (exchange : Exchange ρ) (create : Text → Result Unit) (original : Text) :
    List Text → Progress ρ → Progress ρ
  | [], progress => progress
  | url :: urls, progress =>
    match progress.tracker.turnTo create original url with
    | (tracker, false) => fallback exchange create original urls { progress with tracker }
    | (tracker, true) =>
      let tried := attempts exchange 3 { progress with tracker }
      if tried.result.any exchange.enough then tried else fallback exchange create original urls tried

/-- New peers behind those that are known. -/
def mergePeers (combined response : AnnounceResponse) : AnnounceResponse :=
  { combined with
    peerList := response.peerList.foldl
      (fun known peer =>
        if known.any fun existing => decide (existing.ip = peer.ip ∧ existing.port = peer.port) then known
        else known ++ [peer]) combined.peerList }

def announceExchange (answers : Nat → Result AnnounceResponse) : Exchange AnnounceResponse where
  answers := answers
  refusal response := if response.failure then some (.parse (String.ofList response.statusMessage)) else none
  merge combined response := (combined.map fun combined => mergePeers combined response).getD response
  enough combined := decide (tracker.numWanted ≤ combined.peerList.length)

def scrapeExchange (answers : Nat → Result ScrapeResponse) : Exchange ScrapeResponse where
  answers := answers
  refusal _ := none
  merge _ response := response
  enough _ := true

/-- The tracker with the calls that it has made. -/
structure History where
  tracker : Tracker
  calls : List NetworkCall

def Progress.history (progress : Progress ρ) : History := ⟨progress.tracker, progress.calls⟩

def Progress.answer (progress : Progress ρ) (unreached : String) : Result ρ :=
  match progress.result with
  | some response => .ok response
  | none => .error (progress.lastError.getD (.parse unreached))

def announceWithFallback (answers : Nat → Result AnnounceResponse)
    (history : History) : History × Result AnnounceResponse :=
  let tracker := history.tracker
  let progress := fallback (announceExchange tracker answers) create tracker.trackerUrl tracker.trackerUrls
    ⟨tracker, history.calls, none, none⟩
  (progress.history, progress.answer "No tracker URLs could be reached.")

/-- In the end, and before each return, the URL is set back. -/
def scrape (answers : Nat → Result ScrapeResponse) (history : History) :
    History × Result ScrapeResponse :=
  let tracker := history.tracker
  let progress := fallback (scrapeExchange answers) create tracker.trackerUrl tracker.trackerUrls
    ⟨tracker, history.calls, none, none⟩
  ({ progress.history with tracker := { progress.tracker with trackerUrl := tracker.trackerUrl } },
    progress.answer "No tracker URLs could be scraped.")

inductive Operation where
  | announce (answers : Nat → Result AnnounceResponse)
  | scrape (answers : Nat → Result ScrapeResponse)

def operate (history : History) : Operation → History
  | .announce answers => (announceWithFallback create answers history).1
  | .scrape answers => (scrape create answers history).1

/-- Every announcer belonged to the URL of its call, and the stored one to the stored URL. -/
structure Matched (history : History) : Prop where
  calls : ∀ call ∈ history.calls, call.announcer.createdFor = call.url
  stored : history.tracker.announcer.createdFor = history.tracker.trackerUrl

/-- All histories of a tracker are matched. -/
def AlwaysMatched : Prop :=
  ∀ history, Runs.Reaches (operate create) (fun _ _ => True) ⟨tracker, []⟩ history → Matched history

section Facts

variable {exchange : Exchange ρ} {create : Text → Result Unit} {original : Text} {urls : List Text}
  {progress : Progress ρ} {tracker : Tracker}

theorem new_matched {primary : Text} (created : new create primary urls = .ok tracker) :
    tracker.announcer.createdFor = tracker.trackerUrl ∧ tracker.trackerUrls = urls := by
  rw [new] at created
  split at created
  case h_1 =>
    cases created
    exact ⟨rfl, rfl⟩
  case h_2 =>
    split at created
    case h_1 =>
      cases created
      exact ⟨rfl, rfl⟩
    case h_2 => cases created

/-- The attempts keep the tracker, and their calls are those of this tracker. -/
theorem attempts_spec (exchange : Exchange ρ) (left : Nat) (progress : Progress ρ) :
    (attempts exchange left progress).tracker = progress.tracker ∧
      ∀ call ∈ (attempts exchange left progress).calls, call ∈ progress.calls ∨ call = progress.tracker.call := by
  induction left generalizing progress with
  | zero => exact ⟨rfl, fun _ => .inl⟩
  | succ left ih =>
    have called : ∀ call ∈ progress.calls ++ [progress.tracker.call],
        call ∈ progress.calls ∨ call = progress.tracker.call := fun call member =>
      (mem_append.mp member).imp_right mem_singleton.mp
    have again : ∀ error, (attempts exchange left ⟨progress.tracker, progress.calls ++ [progress.tracker.call],
        progress.result, error⟩).tracker = progress.tracker ∧ ∀ call ∈ (attempts exchange left ⟨progress.tracker,
          progress.calls ++ [progress.tracker.call], progress.result, error⟩).calls,
        call ∈ progress.calls ∨ call = progress.tracker.call := by
      intro error
      obtain ⟨same, calls⟩ := ih ⟨progress.tracker, progress.calls ++ [progress.tracker.call], progress.result, error⟩
      exact ⟨same, fun call member => (calls call member).elim (called call) .inr⟩
    rw [attempts]
    split
    case h_1 => exact again _
    case h_2 =>
      split
      case h_1 => exact again _
      case h_2 => exact ⟨rfl, called⟩

/-- What a URL does in the loop: it is skipped, or tried with the announcer that is there or with a new
one. -/
theorem fallback_cons (exchange : Exchange ρ) (create : Text → Result Unit) (original url : Text)
    (urls : List Text) (progress : Progress ρ) :
    ∃ tracker : Tracker, tracker.trackerUrl = url ∧ tracker.trackerUrls = progress.tracker.trackerUrls ∧
      ((url ≠ original ∧ (create url).isOk = false ∧ tracker.announcer = progress.tracker.announcer ∧
          fallback exchange create original (url :: urls) progress =
            fallback exchange create original urls { progress with tracker }) ∨
        ((url = original ∧ tracker.announcer = progress.tracker.announcer ∨
            url ≠ original ∧ (create url).isOk = true ∧ tracker.announcer = ⟨url⟩) ∧
          fallback exchange create original (url :: urls) progress =
            if (attempts exchange 3 { progress with tracker }).result.any exchange.enough then
              attempts exchange 3 { progress with tracker }
            else fallback exchange create original urls (attempts exchange 3 { progress with tracker }))) := by
  rw [fallback]
  by_cases same : url = original
  · refine ⟨{ progress.tracker with trackerUrl := url }, rfl, rfl, .inr ⟨.inl ⟨same, rfl⟩, ?_⟩⟩
    rw [turnTo, if_pos same]
  · cases usable : (create url).isOk with
    | false =>
      refine ⟨{ progress.tracker with trackerUrl := url }, rfl, rfl, .inl ⟨same, rfl, rfl, ?_⟩⟩
      rw [turnTo, if_neg same, usable, if_neg Bool.false_ne_true]
    | true =>
      refine ⟨{ progress.tracker with trackerUrl := url, announcer := ⟨url⟩ }, rfl, rfl,
        .inr ⟨.inr ⟨same, rfl, rfl⟩, ?_⟩⟩
      rw [turnTo, if_neg same, usable, if_pos rfl]

/-- There is an announcer for none of the URLs but the stored one, and this is the last of them. -/
structure Settled (create : Text → Result Unit) (original : Text) (urls : List Text) : Prop where
  alone : ∀ url ∈ urls, url ≠ original → (create url).isOk = false
  last : ∀ url ∈ urls.getLast?, url = original

theorem Settled.tail {url : Text} (settled : Settled create original (url :: urls)) : Settled create original urls := by
  refine ⟨fun other member => settled.alone other (mem_cons_of_mem _ member), fun other final => ?_⟩
  cases urls with
  | nil => cases final
  | cons next urls => exact settled.last other final

theorem fallback_settled (settled : Settled create original urls)
    (start : urls = [] → progress.tracker.trackerUrl = original)
    (calls : ∀ call ∈ progress.calls, call.announcer.createdFor = call.url)
    (own : progress.tracker.announcer.createdFor = original) :
    Matched (fallback exchange create original urls progress).history ∧
      (fallback exchange create original urls progress).tracker.trackerUrl = original := by
  induction urls generalizing progress with
  | nil => exact ⟨⟨calls, own.trans (start rfl).symm⟩, start rfl⟩
  | cons url urls ih =>
    obtain ⟨tracker, stored, _, ⟨other, _, announcer, ran⟩ | ⟨tried, ran⟩⟩ :=
      fallback_cons exchange create original url urls progress
    · rw [ran]
      refine ih settled.tail (fun empty => ?_) calls ((congrArg Announcer.createdFor announcer).trans own)
      rw [empty] at settled
      exact absurd (settled.last url rfl) other
    · rcases tried with ⟨same, announcer⟩ | ⟨other, usable, _⟩
      · have owned : tracker.announcer.createdFor = original := (congrArg Announcer.createdFor announcer).trans own
        obtain ⟨kept, made⟩ := attempts_spec exchange 3 { progress with tracker }
        have matched : ∀ call ∈ (attempts exchange 3 { progress with tracker }).calls,
            call.announcer.createdFor = call.url := by
          intro call member
          rcases made call member with earlier | rfl
          · exact calls call earlier
          · exact owned.trans (same.symm.trans stored.symm)
        have url_kept : (attempts exchange 3 { progress with tracker }).tracker.trackerUrl = original := by
          rw [kept]
          exact stored.trans same
        have announcer_kept : (attempts exchange 3 { progress with tracker }).tracker.announcer.createdFor = original := by
          rw [kept]
          exact owned
        rw [ran]
        split
        case isTrue => exact ⟨⟨matched, announcer_kept.trans url_kept.symm⟩, url_kept⟩
        case isFalse => exact ih settled.tail (fun _ => url_kept) matched announcer_kept
      · rw [settled.alone url mem_cons_self other] at usable
        cases usable

theorem fallback_trackerUrls (exchange : Exchange ρ) (create : Text → Result Unit) (original : Text)
    (urls : List Text) (progress : Progress ρ) :
    (fallback exchange create original urls progress).tracker.trackerUrls = progress.tracker.trackerUrls := by
  induction urls generalizing progress with
  | nil => rfl
  | cons url urls ih =>
    obtain ⟨tracker, _, same, ⟨_, _, _, ran⟩ | ⟨_, ran⟩⟩ := fallback_cons exchange create original url urls progress
    · rw [ran, ih]
      exact same
    · have kept := (attempts_spec exchange 3 { progress with tracker }).1
      rw [ran]
      split
      case isTrue => rw [kept]; exact same
      case isFalse => rw [ih, kept]; exact same

theorem attempts_failing (fails : ∀ number, ∃ reason, exchange.answers number = .error reason) (left : Nat)
    (progress : Progress ρ) : (attempts exchange left progress).result = progress.result := by
  induction left generalizing progress with
  | zero => rfl
  | succ left ih =>
    obtain ⟨reason, failed⟩ := fails progress.calls.length
    rw [attempts, failed]
    exact ih _

/-- When all calls fail the loop comes to the last URL, and the announcer of the stored one is left exactly if no other
one was created. -/
theorem fallback_failing (fails : ∀ number, ∃ reason, exchange.answers number = .error reason)
    (nothing : progress.result = none) :
    (fallback exchange create original urls progress).tracker.trackerUrl = urls.getLast?.getD progress.tracker.trackerUrl ∧
      ((fallback exchange create original urls progress).tracker.announcer.createdFor = original ↔
        progress.tracker.announcer.createdFor = original ∧ ∀ url ∈ urls, url ≠ original → (create url).isOk = false) := by
  induction urls generalizing progress with
  | nil => simp [fallback]
  | cons url urls ih =>
    rw [forall_mem_cons, getLast?_cons, Option.getD_some]
    obtain ⟨tracker, stored, _, ⟨_, unusable, announcer, ran⟩ | ⟨tried, ran⟩⟩ :=
      fallback_cons exchange create original url urls progress
    · obtain ⟨reached, left⟩ := @ih { progress with tracker } nothing
      rw [ran, reached, left, announcer, stored]
      simp [unusable]
    · have kept := (attempts_spec exchange 3 { progress with tracker }).1
      have still : (attempts exchange 3 { progress with tracker }).result = none :=
        (attempts_failing fails 3 _).trans nothing
      obtain ⟨reached, left⟩ := ih still
      rw [ran, still, Option.any_none, if_neg Bool.false_ne_true, reached, left, kept, stored]
      rcases tried with ⟨same, announcer⟩ | ⟨other, usable, announcer⟩
      · simp [same, announcer]
      · simp [other, usable, announcer]

theorem operate_settled {history : History} (settled : Settled create original urls)
    (matched : Matched history) (stored : history.tracker.trackerUrl = original)
    (listed : history.tracker.trackerUrls = urls) (operation : Operation) :
    Matched (operate create history operation) ∧ (operate create history operation).tracker.trackerUrl = original ∧
      (operate create history operation).tracker.trackerUrls = urls := by
  cases stored
  cases listed
  cases operation with
  | announce answers =>
    obtain ⟨after, url⟩ := @fallback_settled _ (announceExchange history.tracker answers) create _ _
      ⟨history.tracker, history.calls, none, none⟩ settled (fun _ => rfl) matched.calls matched.stored
    exact ⟨after, url, fallback_trackerUrls _ _ _ _ _⟩
  | scrape answers =>
    obtain ⟨after, url⟩ := @fallback_settled _ (scrapeExchange answers) create _ _
      ⟨history.tracker, history.calls, none, none⟩ settled (fun _ => rfl) matched.calls matched.stored
    exact ⟨⟨after.calls, after.stored.trans url⟩, rfl, fallback_trackerUrls _ _ _ _ _⟩

theorem settled_of_alwaysMatched (own : tracker.announcer.createdFor = tracker.trackerUrl)
    (always : AlwaysMatched create tracker) : Settled create tracker.trackerUrl tracker.trackerUrls := by
  let failed := fun {ρ : Type} (_ : Nat) => (.error (.parse "timed out") : Result ρ)
  have scraped := always _ (Runs.Reaches.refl.next (.scrape failed) trivial)
  have announced := always _ (Runs.Reaches.refl.next (.announce failed) trivial)
  have alone := ((@fallback_failing _ (scrapeExchange failed) create tracker.trackerUrl tracker.trackerUrls
    ⟨tracker, [], none, none⟩ (fun _ => ⟨_, rfl⟩) rfl).2.mp scraped.stored).2
  refine ⟨alone, fun url final => ?_⟩
  obtain ⟨reached, left⟩ := @fallback_failing _ (announceExchange tracker failed) create tracker.trackerUrl
    tracker.trackerUrls ⟨tracker, [], none, none⟩ (fun _ => ⟨_, rfl⟩) rfl
  rw [Option.mem_def.mp final, Option.getD_some] at reached
  exact reached.symm.trans (announced.stored.symm.trans (left.mpr ⟨own, alone⟩))

/-- The announcer always matches exactly if the loops have no other URL to turn to. -/
theorem alwaysMatched_iff {primary : Text} (created : new create primary urls = .ok tracker) :
    AlwaysMatched create tracker ↔ Settled create tracker.trackerUrl urls := by
  obtain ⟨own, listed⟩ := new_matched created
  constructor
  · intro always
    rw [← listed]
    exact settled_of_alwaysMatched own always
  · intro settled history run
    have start : Matched ⟨tracker, []⟩ := ⟨fun _ impossible => absurd impossible not_mem_nil, own⟩
    have kept := run.invariant
      (fun history => Matched history ∧ history.tracker.trackerUrl = tracker.trackerUrl ∧ history.tracker.trackerUrls = urls)
      ⟨start, rfl, listed⟩ fun history operation holds _ =>
        operate_settled settled holds.1 holds.2.1 holds.2.2 operation
    exact kept.1

def httpOnly (url : Text) : Result Unit :=
  if url = text "http://a" then .ok () else .error (.parse "unsupported")

/-- Of two trackers only the second can be spoken to. -/
theorem unusable_tracker_matched :
    AlwaysMatched httpOnly ⟨⟨text "http://a"⟩, text "http://a", [text "wss://b", text "http://a"], 50⟩ := by
  apply (@alwaysMatched_iff httpOnly [text "wss://b", text "http://a"] _ (text "wss://b") (by decide)).mpr
  refine ⟨?_, fun url final => (Option.some.inj final).symm⟩
  rw [forall_mem_cons, forall_mem_singleton]
  exact ⟨fun _ => by decide, fun other => absurd rfl other⟩

/-- With two trackers the second announce calls the second one with the announcer of the first, and a
scrape leaves the announcer of the second one with the URL of the first. -/
theorem two_trackers_mixed :
    let create : Text → Result Unit := fun _ => .ok ()
    let failed : Operation := .announce fun _ => .error (.parse "timed out")
    let start : History := ⟨⟨⟨text "a"⟩, text "a", [text "a", text "b"], 50⟩, []⟩
    let scraped := operate create start (.scrape fun _ => .error (.parse "timed out"))
    (new create (text "a") [text "a", text "b"]).toOption = some start.tracker ∧
      ⟨⟨text "a"⟩, text "b"⟩ ∈ (operate create (operate create start failed) failed).calls ∧
      scraped.tracker.announcer.createdFor = text "b" ∧ scraped.tracker.trackerUrl = text "a" := by
  decide +kernel

end Facts

end Tracker

end BitTorrent
