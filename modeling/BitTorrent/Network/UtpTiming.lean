import BitTorrent.Basic

/-! # Round trip times and base delays of uTP

`update_rtt` and `on_rto_timeout` of the LEDBAT controller and `DelayTracker` in `network/utp.rs`.
-/

namespace BitTorrent

open List Function

/-- The controller, as far as the round trip times go. -/
structure LedbatCongestionController where
  srttUs : Option Nat := none
  rttvarUs : Nat := 250000
  rtoUs : Nat := 1000000

namespace LedbatCongestionController

def minRtoUs : Nat := 500000
def maxRtoUs : Nat := 3000000

def clampRto (rto : Nat) : Nat := max minRtoUs (min rto maxRtoUs)

/-- The value of an arithmetic expression, if it does not overflow. -/
def checked (value : Nat) : Option Nat := if value < u32Size then some value else none

variable (controller : LedbatCongestionController)

def updateRtt (rttSampleUs : Nat) : Option LedbatCongestionController :=
  if rttSampleUs = 0 then some controller
  else match controller.srttUs with
    | none => do
      let rttvarUs := rttSampleUs / 2
      let rto ← checked (rttSampleUs + 4 * rttvarUs)
      return ⟨some rttSampleUs, rttvarUs, clampRto rto⟩
    | some srtt => do
      let diff := (srtt - rttSampleUs) + (rttSampleUs - srtt)
      let rttvarUs := (← checked (3 * controller.rttvarUs + diff)) / 4
      let newSrtt := (← checked (7 * srtt + rttSampleUs)) / 8
      let rto ← checked (newSrtt + 4 * rttvarUs)
      return ⟨some newSrtt, rttvarUs, clampRto rto⟩

def onRtoTimeout : LedbatCongestionController :=
  { controller with rtoUs := min (min (controller.rtoUs * 2) (u32Size - 1)) maxRtoUs }

inductive Event
  | sample (rttSampleUs : UInt32)
  | timeout

def step : Event → Option LedbatCongestionController
  | .sample rttSampleUs => controller.updateRtt rttSampleUs.toNat
  | .timeout => some controller.onRtoTimeout

/-- All samples that count are in a range. -/
def SamplesIn (low high : Nat) (events : List Event) : Prop :=
  ∀ sample, .sample sample ∈ events → sample.toNat ≠ 0 → low ≤ sample.toNat ∧ sample.toNat ≤ high

/-- Nothing overflows, and the estimates are in their bounds. -/
def Estimates (events : List Event) : Prop :=
  ∃ controller, events.foldlM step {} = some controller ∧
    minRtoUs ≤ controller.rtoUs ∧ controller.rtoUs ≤ maxRtoUs ∧
    ∀ srtt ∈ controller.srttUs, ∀ low high, SamplesIn low high events → low ≤ srtt + 7 ∧ srtt ≤ high

structure Within (low high : Nat) (controller : LedbatCongestionController) : Prop where
  rto : minRtoUs ≤ controller.rtoUs ∧ controller.rtoUs ≤ maxRtoUs
  srtt : ∀ srtt ∈ controller.srttUs, low ≤ srtt + 7 ∧ srtt ≤ high ∧ controller.rttvarUs ≤ high

variable {low high : Nat} {controller : LedbatCongestionController}

theorem clampRto_within (rto : Nat) : minRtoUs ≤ clampRto rto ∧ clampRto rto ≤ maxRtoUs :=
  ⟨le_max_left _ _, max_le (by decide) (min_le_right _ _)⟩

theorem checked_of_lt {value : Nat} (fits : value < u32Size) : checked value = some value := if_pos fits

theorem updateRtt_within {sample : Nat} (small : high < 2 ^ 29)
    (inside : sample ≠ 0 → low ≤ sample ∧ sample ≤ high) (within : controller.Within low high) :
    ∃ next, controller.updateRtt sample = some next ∧ next.Within low high := by
  have size : u32Size = 2 ^ 32 := rfl
  rw [updateRtt]
  split
  case isTrue => exact ⟨controller, rfl, within⟩
  case isFalse counts =>
    obtain ⟨least, most⟩ := inside counts
    split
    case h_1 =>
      simp (disch := omega) only [checked_of_lt]
      refine ⟨_, rfl, clampRto_within _, ?_⟩
      rintro _ ⟨⟩
      exact ⟨by omega, most, (Nat.div_le_self _ _).trans most⟩
    case h_2 srtt known =>
      obtain ⟨lower, upper, deviation⟩ := within.srtt srtt known
      simp (disch := omega) only [checked_of_lt, Option.bind_eq_bind, Option.bind_some]
      refine ⟨_, rfl, clampRto_within _, ?_⟩
      rintro _ ⟨⟩
      exact ⟨by omega, by omega, by dsimp only; omega⟩

theorem onRtoTimeout_within (within : controller.Within low high) : controller.onRtoTimeout.Within low high := by
  refine ⟨⟨le_min (le_min ?_ (by decide)) (by decide), min_le_right _ _⟩, within.srtt⟩
  exact within.rto.1.trans (Nat.le_mul_of_pos_right _ (by decide))

theorem run_within {events : List Event} (small : high < 2 ^ 29) (samples : SamplesIn low high events)
    (within : controller.Within low high) :
    ∃ final, events.foldlM step controller = some final ∧ final.Within low high := by
  induction events generalizing controller with
  | nil => exact ⟨controller, rfl, within⟩
  | cons event events ih =>
    have first : ∃ next, controller.step event = some next ∧ next.Within low high := by
      cases event with
      | sample sample => exact updateRtt_within small (samples sample mem_cons_self) within
      | timeout => exact ⟨_, rfl, onRtoTimeout_within within⟩
    obtain ⟨next, stepped, kept⟩ := first
    rw [foldlM_cons, stepped]
    exact ih (fun sample member => samples sample (mem_cons_of_mem _ member)) kept

theorem long_samples_overflow : [.sample 536870912, .sample 536870912].foldlM step {} = none := rfl

/-- The estimates are right for all samples up to a bound exactly when it is less than 2^29
microseconds. -/
theorem estimates_iff (bound : Nat) :
    (∀ events, SamplesIn 0 bound events → Estimates events) ↔ bound < 2 ^ 29 := by
  constructor
  · intro right
    by_contra large
    have sampled : SamplesIn 0 bound [.sample 536870912, .sample 536870912] := by
      rintro sample member _
      simp only [mem_cons, Event.sample.injEq, not_mem_nil, or_false, or_self] at member
      rw [member]
      exact ⟨Nat.zero_le _, Nat.not_lt.mp large⟩
    obtain ⟨_, ran, _⟩ := right _ sampled
    cases long_samples_overflow.symm.trans ran
  · intro small events samples
    have within (low high : Nat) : Within low high {} := ⟨by decide, by simp⟩
    obtain ⟨final, ran, kept⟩ := run_within small samples (within 0 bound)
    refine ⟨final, ran, kept.rto.1, kept.rto.2, fun srtt known low high inside => ?_⟩
    have both : SamplesIn low (min high bound) events := fun sample member counts =>
      ⟨(inside sample member counts).1, le_min (inside sample member counts).2 (samples sample member counts).2⟩
    obtain ⟨_, again, bounded⟩ := run_within ((min_le_right _ _).trans_lt small) both (within low _)
    cases ran.symm.trans again
    exact ⟨(bounded.srtt srtt known).1, (bounded.srtt srtt known).2.1.trans (min_le_left _ _)⟩

/-- Two samples of 2^29 microseconds overflow. -/
theorem not_estimates_long_samples : ¬ Estimates [.sample 536870912, .sample 536870912] := by
  rintro ⟨_, ran, _⟩
  cases long_samples_overflow.symm.trans ran

end LedbatCongestionController

structure DelayBucket where
  minDelay : Nat
  startTimeUs : Nat

def DelayBucket.new (startTimeUs : Nat) : DelayBucket := ⟨u32Size - 1, startTimeUs⟩

structure DelayTracker where
  buckets : Fin 4 → DelayBucket
  currentIdx : Fin 4
  bucketDurationUs : Nat
  lastSampleUs : Nat

namespace DelayTracker

def new (bucketDurationUs : Nat) : DelayTracker := ⟨fun _ => .new 0, 0, bucketDurationUs, 0⟩

def addSample (tracker : DelayTracker) (delayUs nowUs : Nat) : DelayTracker :=
  let cur := tracker.buckets tracker.currentIdx
  if delayUs = 0 then tracker
  else if cur.startTimeUs = 0 then
    { tracker with
      lastSampleUs := delayUs
      buckets := update tracker.buckets tracker.currentIdx ⟨delayUs, nowUs⟩ }
  else if tracker.bucketDurationUs ≤ nowUs - cur.startTimeUs then
    { tracker with
      lastSampleUs := delayUs
      currentIdx := tracker.currentIdx + 1
      buckets := update tracker.buckets (tracker.currentIdx + 1) ⟨delayUs, nowUs⟩ }
  else
    { tracker with
      lastSampleUs := delayUs
      buckets := update tracker.buckets tracker.currentIdx { cur with minDelay := min cur.minDelay delayUs } }

def smaller (least : Nat) (bucket : DelayBucket) : Nat :=
  if 0 < bucket.startTimeUs ∧ bucket.minDelay < least then bucket.minDelay else least

def baseDelay (tracker : DelayTracker) : Nat := ((finRange 4).map tracker.buckets).foldl smaller (u32Size - 1)

/-- All buckets that there have been with the least of their samples, the newest first.  A sample
belongs to the newest one or starts the next; one of zero does not count. -/
def record (duration delay now : Nat) (history : List DelayBucket) : List DelayBucket :=
  if delay = 0 then history
  else match history with
    | [] => [⟨delay, now⟩]
    | newest :: older =>
      if duration ≤ now - newest.startTimeUs then ⟨delay, now⟩ :: newest :: older
      else { newest with minDelay := min newest.minDelay delay } :: older

/-- A tracker that has been given samples, their buckets, and the time of the last one. -/
inductive Sampled (duration : Nat) : DelayTracker → List DelayBucket → Nat → Prop
  | new : Sampled duration (new duration) [] 0
  | sample {tracker : DelayTracker} {history : List DelayBucket} {before delay now : Nat}
      (sampled : Sampled duration tracker history before) (small : delay < u32Size) (begun : 0 < now)
      (later : before ≤ now) :
      Sampled duration (tracker.addSample delay now) (record duration delay now history) now

/-- The least sample of the buckets that started less than four durations ago. -/
def IsBaseDelay (duration : Nat) (history : List DelayBucket) (now base : Nat) : Prop :=
  (∃ bucket ∈ history, now < bucket.startTimeUs + 4 * duration ∧ bucket.minDelay = base) ∧
    ∀ bucket ∈ history, now < bucket.startTimeUs + 4 * duration → base ≤ bucket.minDelay

structure Tracks (duration : Nat) (tracker : DelayTracker) (history : List DelayBucket) (now : Nat) : Prop where
  same : tracker.bucketDurationUs = duration
  ring : ∀ age : Fin 4, tracker.buckets (tracker.currentIdx - age) = history.getD age.val (.new 0)
  spaced : history.Pairwise fun newer older => older.startTimeUs + duration ≤ newer.startTimeUs
  begun : ∀ bucket ∈ history, bucket.startTimeUs ≤ now
  valid : ∀ bucket ∈ history, 0 < bucket.startTimeUs ∧ bucket.minDelay < u32Size

variable {duration delay before now : Nat} {tracker : DelayTracker} {history : List DelayBucket}

theorem ring_facts : ∀ index age : Fin 4, age ≠ 0 →
    index - age ≠ index ∧ index + 1 - age = index - (age - 1) ∧ age.val = (age - 1).val + 1 := by decide

/-- The ring around a bucket that is put in, where the others are shown already. -/
theorem ring_update {buckets : Fin 4 → DelayBucket} {index : Fin 4} {bucket : DelayBucket}
    (older : ∀ age, age ≠ 0 → buckets (index - age) = history.getD (age - 1).val (.new 0)) (age : Fin 4) :
    update buckets index bucket (index - age) = (bucket :: history).getD age.val (.new 0) := by
  by_cases newest : age = 0
  · simp [newest]
  · obtain ⟨away, _, next⟩ := ring_facts index age newest
    rw [update_of_ne away, older age newest, next, getD_cons_succ]

theorem addSample_tracks (tracks : Tracks duration tracker history before) (small : delay < u32Size)
    (positive : 0 < now) (later : before ≤ now) :
    Tracks duration (tracker.addSample delay now) (record duration delay now history) now := by
  obtain ⟨rfl, ring, spaced, started, valid⟩ := tracks
  have begun (bucket : DelayBucket) (listed : bucket ∈ history) : bucket.startTimeUs ≤ now :=
    (started bucket listed).trans later
  have current := ring 0
  rw [sub_zero, Fin.val_zero] at current
  rw [addSample, record.eq_def]
  split
  case isTrue => exact ⟨rfl, ring, spaced, begun, valid⟩
  case isFalse =>
    rw [current]
    cases history with
    | nil =>
      exact ⟨rfl, ring_update fun age _ => ring age, pairwise_singleton _ _, by simp, by simp [positive, small]⟩
    | cons newest older =>
      rw [forall_mem_cons] at valid
      rw [getD_cons_zero, if_neg valid.1.1.ne']
      dsimp only
      split
      case isTrue elapsed =>
        refine ⟨rfl, ring_update fun age other => ?_, pairwise_cons.mpr ⟨fun old listed => ?_, spaced⟩, ?_, ?_⟩
        · rw [(ring_facts _ age other).2.1, ring]
        · have first := begun newest mem_cons_self
          rcases mem_cons.mp listed with rfl | listed
          · dsimp only
            omega
          · have next := (pairwise_cons.mp spaced).1 old listed
            dsimp only
            omega
        · exact forall_mem_cons.mpr ⟨Nat.le_refl now, begun⟩
        · exact forall_mem_cons.mpr ⟨⟨positive, small⟩, forall_mem_cons.mpr valid⟩
      case isFalse =>
        rw [forall_mem_cons] at begun
        refine ⟨rfl, ring_update fun age other => ?_, pairwise_cons.mpr (pairwise_cons.mp spaced),
          forall_mem_cons.mpr begun, ?_⟩
        · rw [ring, (ring_facts 0 age other).2.2, getD_cons_succ]
        · exact forall_mem_cons.mpr ⟨⟨valid.1.1, (min_le_right _ _).trans_lt small⟩, valid.2⟩

theorem Sampled.tracks (sampled : Sampled duration tracker history now) : Tracks duration tracker history now := by
  induction sampled with
  | new => exact ⟨rfl, fun _ => rfl, .nil, by simp, by simp⟩
  | sample _ small begun later ih => exact addSample_tracks ih small begun later

theorem le_foldl_smaller (buckets : List DelayBucket) (least bound : Nat) :
    bound ≤ buckets.foldl smaller least ↔
      bound ≤ least ∧ ∀ bucket ∈ buckets, 0 < bucket.startTimeUs → bound ≤ bucket.minDelay := by
  induction buckets generalizing least with
  | nil => simp
  | cons bucket buckets ih =>
    rw [foldl_cons, ih, forall_mem_cons, ← and_assoc, smaller]
    refine and_congr_left' ?_
    split <;> omega

theorem Tracks.le_baseDelay_iff (tracks : Tracks duration tracker history now) (counted : history ≠ []) (bound : Nat) :
    bound ≤ tracker.baseDelay ↔ ∀ bucket ∈ history.take 4, bound ≤ bucket.minDelay := by
  rw [baseDelay, le_foldl_smaller]
  constructor
  · rintro ⟨_, all⟩ bucket member
    have used := (tracks.valid bucket (mem_of_mem_take member)).1
    obtain ⟨age, inside, rfl⟩ := mem_take_iff_getElem.mp member
    have aged := tracks.ring ⟨age, inside.trans_le (min_le_left _ _)⟩
    rw [getD_eq_getElem?_getD, getElem?_eq_getElem (inside.trans_le (min_le_right _ _))] at aged
    exact all _ (mem_map.mpr ⟨_, mem_finRange _, aged⟩) used
  · intro all
    refine ⟨?_, fun bucket member used => ?_⟩
    · obtain ⟨newest, older, rfl⟩ := exists_cons_of_ne_nil counted
      have small := (tracks.valid newest mem_cons_self).2
      have below := all newest mem_cons_self
      omega
    · obtain ⟨slot, _, rfl⟩ := mem_map.mp member
      have aged := tracks.ring (tracker.currentIdx - slot)
      rw [sub_sub_cancel, getD_eq_getElem?_getD] at aged
      cases found : history[(tracker.currentIdx - slot).val]? with
      | none =>
        rw [aged, found] at used
        cases used
      | some kept =>
        rw [aged, found]
        exact all kept (mem_of_getElem? ((getElem?_take_of_lt (Fin.isLt _)).trans found))

theorem spaced_drop {gap : Nat} (spaced : history.Pairwise fun newer older => older.startTimeUs + duration ≤ newer.startTimeUs)
    (begun : ∀ bucket ∈ history, bucket.startTimeUs + gap ≤ now) (count : Nat) (bucket : DelayBucket)
    (member : bucket ∈ history.drop count) : bucket.startTimeUs + gap + count * duration ≤ now := by
  induction history generalizing gap count with
  | nil => simp at member
  | cons newest older ih =>
    cases count with
    | zero =>
      rw [Nat.zero_mul]
      exact begun bucket member
    | succ count =>
      obtain ⟨next, rest⟩ := pairwise_cons.mp spaced
      have first := begun newest mem_cons_self
      have far := @ih (gap + duration) rest (fun old listed => by have before := next old listed; omega) count member
      rw [Nat.succ_mul]
      omega

/-- The base delay is right exactly when none of the last four buckets that started too long ago has
less than all others. -/
theorem isBaseDelay_iff (sampled : Sampled duration tracker history now) (counted : history ≠ []) :
    IsBaseDelay duration history now tracker.baseDelay ↔
      ∀ old ∈ history.take 4, old.startTimeUs + 4 * duration ≤ now →
        ∃ bucket ∈ history, now < bucket.startTimeUs + 4 * duration ∧ bucket.minDelay ≤ old.minDelay := by
  have tracks := sampled.tracks
  have bounds := tracks.le_baseDelay_iff counted
  have least := (bounds _).mp (Nat.le_refl _)
  have recent (bucket : DelayBucket) (listed : bucket ∈ history)
      (counts : now < bucket.startTimeUs + 4 * duration) : tracker.baseDelay ≤ bucket.minDelay := by
    rw [← take_append_drop 4 history, mem_append] at listed
    rcases listed with kept | gone
    · exact least bucket kept
    · have late := @spaced_drop _ _ _ 0 tracks.spaced tracks.begun 4 bucket gone
      omega
  constructor
  · rintro ⟨⟨bucket, listed, counts, base⟩, _⟩ old kept _
    exact ⟨bucket, listed, counts, base.trans_le (least old kept)⟩
  · refine fun forgets => ⟨?_, recent⟩
    by_contra missed
    have above (bucket : DelayBucket) (listed : bucket ∈ history)
        (counts : now < bucket.startTimeUs + 4 * duration) : tracker.baseDelay < bucket.minDelay :=
      (recent bucket listed counts).lt_of_ne fun same => missed ⟨bucket, listed, counts, same.symm⟩
    refine Nat.lt_irrefl tracker.baseDelay ((bounds _).mpr fun bucket kept => ?_)
    by_cases counts : now < bucket.startTimeUs + 4 * duration
    · exact above bucket (mem_of_mem_take kept) counts
    · obtain ⟨other, listed, counted, lower⟩ := forgets bucket kept (Nat.not_lt.mp counts)
      exact (above other listed counted).trans_le lower

/-- Two samples in buckets of a minute, the second one after an hour. -/
def sampledTwice (delay : Nat) : DelayTracker := ((new 60000000).addSample 5 1).addSample delay 3600000000

theorem sampledTwice_sampled (delay : Nat) (small : delay < u32Size) :
    Sampled 60000000 (sampledTwice delay) (record 60000000 delay 3600000000 [⟨5, 1⟩]) 3600000000 :=
  .sample (@Sampled.sample _ _ _ _ 5 1 .new (by decide) (by decide) (by decide)) small (by decide) (by decide)

/-- The first bucket still counts, but has more than the second. -/
theorem isBaseDelay_lower_sample :
    IsBaseDelay 60000000 [⟨3, 3600000000⟩, ⟨5, 1⟩] 3600000000 (sampledTwice 3).baseDelay :=
  (isBaseDelay_iff (sampledTwice_sampled 3 (by decide)) (by decide)).mpr (by decide)

theorem not_isBaseDelay_after_hour :
    Sampled 60000000 (sampledTwice 7) [⟨7, 3600000000⟩, ⟨5, 1⟩] 3600000000 ∧
      ¬ IsBaseDelay 60000000 [⟨7, 3600000000⟩, ⟨5, 1⟩] 3600000000 (sampledTwice 7).baseDelay :=
  ⟨sampledTwice_sampled 7 (by decide), by unfold IsBaseDelay; decide⟩

end DelayTracker

end BitTorrent
