import BitTorrent.Clients.RangeStream

/-! # Which ranges the streaming server understands

The answer to each header, and the headers for which it is the one that RFC 7233 asks for.
-/

namespace BitTorrent

open Chunks List Option

namespace RangeStream

variable {file : Bytes} {source : Source} {fileName first last : Text} {isHead : Bool} {rangeHeader : Option Text}
  {served : Served} {start end_ size : Nat} {position otherStart otherEnd : Nat}

theorem slice_split {length : Nat} {bytes : Bytes} (few : bytes.length ≤ length)
    (front : bytes = slice file position bytes.length) :
    slice file position length = bytes ++ slice file (position + bytes.length) (length - bytes.length) := by
  obtain ⟨rest, rfl⟩ := Nat.exists_eq_add_of_le few
  rw [Nat.add_sub_cancel_left]
  rw [slice, take_add, drop_drop]
  exact congrArg (· ++ _) front.symm

theorem copyLoop_delivers (delivers : Delivers file source) {fuel : Nat} (round position remaining : Nat)
    (inside : position + remaining ≤ file.length) (enough : remaining ≤ fuel) :
    ∃ progress, copyLoop source end_ fuel round position remaining =
      .ok (slice file position remaining, progress) := by
  induction fuel generalizing round position remaining with
  | zero =>
    have none : remaining = 0 := Nat.le_zero.mp enough
    rw [none]
    exact ⟨[], rfl⟩
  | succ fuel ih =>
    rw [copyLoop]
    split
    case isTrue none =>
      rw [none]
      exact ⟨[], rfl⟩
    case isFalse some_ =>
      obtain ⟨bytes, read, nonempty, few, front⟩ := delivers round position (min bufferSize remaining)
        (Nat.lt_min.mpr ⟨by decide, Nat.pos_of_ne_zero some_⟩) (by omega)
      have short := Nat.le_min.mp few
      have positive := length_pos_of_ne_nil nonempty
      have fits : ¬(bufferSize < bytes.length ∨ remaining < bytes.length) := by omega
      obtain ⟨progress, rest⟩ := ih (round + 1) (position + bytes.length) (remaining - bytes.length)
        (by omega) (by omega)
      rw [read]
      dsimp only
      rw [if_neg nonempty, if_neg fits, rest, slice_split short.2 front]
      exact ⟨_, rfl⟩

theorem parseRangeSpec_end (rangeHeader : Option Text) (size : Nat) : (parseRangeSpec rangeHeader size).end_ ≤ size - 1 := by
  rw [parseRangeSpec]
  split
  case h_2 => exact le_rfl
  case h_1 first last _ =>
    split
    case isFalse => exact le_rfl
    case isTrue =>
      cases parseU64 last with
      | none => exact le_rfl
      | some stop => exact Nat.min_le_right _ _

theorem serve_eq (delivers : Delivers file source) (some_ : file ≠ []) (representable : file.length < u64Size)
    (fileName : Text) (isHead : Bool) (rangeHeader : Option Text) :
    let range := parseRangeSpec rangeHeader file.length
    ∃ served, serveHttpRangeStream source fileName file.length isHead rangeHeader = .ok served ∧
      if file.length ≤ range.start then Unsatisfiable served
      else
        served.head = streamHead (detectMimeType fileName) range file.length (range.end_ - range.start + 1) ∧
          served.body = if isHead then [] else slice file range.start (range.end_ - range.start + 1) := by
  have positive := length_pos_of_ne_nil some_
  have last := parseRangeSpec_end rangeHeader file.length
  rw [serveHttpRangeStream, if_neg positive.ne']
  generalize parseRangeSpec rangeHeader file.length = range at last ⊢
  dsimp only
  split
  case isTrue => exact ⟨_, rfl, rfl, rfl⟩
  case isFalse inside =>
    rw [if_neg (show ¬u64Size ≤ range.end_ - range.start + 1 by omega)]
    cases isHead with
    | true => exact ⟨_, rfl, rfl, rfl⟩
    | false =>
      obtain ⟨progress, copied⟩ := @copyLoop_delivers file source range.end_ delivers _ 0 range.start
        (range.end_ - range.start + 1) (by omega) le_rfl
      rw [copied]
      exact ⟨_, rfl, rfl, rfl⟩

section Headers

theorem numeral_append_cancel {left right : Nat} {letter : Char} {front back : Text}
    (other : decide (48 ≤ letter.toNat ∧ letter.toNat ≤ 57) = false)
    (same : numeral left ++ letter :: front = numeral right ++ letter :: back) : left = right ∧ front = back := by
  have digits : ∀ value, (numeral value).all (fun digit => decide (48 ≤ digit.toNat ∧ digit.toNat ≤ 57)) = true :=
    fun value => all_eq_true.mpr fun digit member => decide_eq_true (numeral_isDigit member)
  have numerals := congrArg (takeWhile fun digit => decide (48 ≤ digit.toNat ∧ digit.toNat ≤ 57)) same
  rw [(takeWhile_append_stop (digits left) other).1, (takeWhile_append_stop (digits right) other).1] at numerals
  rw [numerals, append_cancel_left_eq, cons.injEq] at same
  exact ⟨numeral_injective numerals, same.2⟩

theorem contentRange_injective {total otherTotal : Nat}
    (same : contentRange start end_ total = contentRange otherStart otherEnd otherTotal) :
    start = otherStart ∧ end_ = otherEnd := by
  have shape : ∀ start end_ total, contentRange start end_ total =
      text "bytes " ++ (numeral start ++ '-' :: (numeral end_ ++ '/' :: numeral total)) := by
    intro start end_ total
    rw [contentRange, append_assoc, append_assoc, append_assoc, append_assoc]
    rfl
  rw [shape, shape, append_cancel_left_eq] at same
  obtain ⟨starts, rest⟩ := numeral_append_cancel (by decide) same
  exact ⟨starts, (numeral_append_cancel (by decide) rest).1⟩

theorem field_contentRange {mimeType : Text} {range : ByteRange} {contentLen : Nat} (isRange : range.isRangeRequest = true) :
    (streamHead mimeType range size contentLen).status = "206 Partial Content" ∧
      (streamHead mimeType range size contentLen).field "Content-Range" =
        some (contentRange range.start range.end_ size) ∧
      (streamHead mimeType range size contentLen).field "Content-Length" = some (numeral contentLen) := by
  rw [streamHead, if_pos isRange]
  exact ⟨rfl, rfl, rfl⟩

end Headers

section Parts

/-- The last position of a range, as the code reads it. -/
def lastPosition (last : Text) (size : Nat) : Nat :=
  if last ≠ [] then ((parseU64 last).map fun end_ => min end_ (size - 1)).getD (size - 1) else size - 1

theorem parseRangeSpec_parts (parts : rangeHeader.bind rangeParts = some (first, last)) (size : Nat) :
    parseRangeSpec rangeHeader size = ⟨(parseU64 first).getD 0, lastPosition last size, true⟩ := by
  rw [parseRangeSpec, parts]
  rfl

theorem parseU64_of_number {part : Text} {value : Nat} (read : number part = some value) :
    parseU64 part = if value < u64Size then some value else none := by
  rw [parseU64, parseUnsigned_of_decimalValue u64Size read, filter_some]
  simp only [decide_eq_true_eq]

theorem lastPosition_number {value : Nat} (read : number last = some value) (small : size ≤ u64Size) (some_ : 0 < size) :
    lastPosition last size = min value (size - 1) := by
  have nonempty : last ≠ [] := by
    rintro rfl
    cases read
  rw [lastPosition, if_pos nonempty, parseU64_of_number read]
  split
  case isTrue => rfl
  case isFalse large =>
    rw [map_none, getD_none]
    omega

/-- The answer that carries a range, as the code writes it. -/
structure RangeAnswer (file : Bytes) (isHead : Bool) (fileName : Text) (served : Served) (start end_ : Nat) : Prop where
  inside : start < file.length
  head : served.head = streamHead (detectMimeType fileName) ⟨start, end_, true⟩ file.length (end_ - start + 1)
  body : served.body = if isHead then [] else slice file start (end_ - start + 1)

section

variable (answer : RangeAnswer file isHead fileName served start end_)
include answer

theorem RangeAnswer.not_unsatisfiable : ¬Unsatisfiable served := by
  rintro ⟨status, _⟩
  rw [answer.head, (field_contentRange rfl).1] at status
  exact absurd status (by decide)

theorem RangeAnswer.carries (order : start ≤ end_)
    (last : end_ < file.length) : Carries file isHead served start end_ := by
  have length : end_ - start + 1 = end_ + 1 - start := by omega
  obtain ⟨status, range, contentLength⟩ := @field_contentRange file.length (detectMimeType fileName) ⟨start, end_, true⟩
    (end_ - start + 1) rfl
  refine ⟨order, last, ?_, ?_, .inl ⟨?_, ?_⟩⟩
  · rw [answer.body, length]
  · rw [answer.head, contentLength, length]
  · rw [answer.head, status]
  · rw [answer.head, range]

theorem RangeAnswer.unique
    (carries : Carries file isHead served otherStart otherEnd) : otherStart = start ∧ otherEnd = end_ := by
  obtain ⟨status, range, _⟩ := @field_contentRange file.length (detectMimeType fileName) ⟨start, end_, true⟩
    (end_ - start + 1) rfl
  rcases carries.contentRange with ⟨_, named⟩ | ⟨whole, _⟩
  · rw [answer.head, range] at named
    exact contentRange_injective (some.inj named).symm
  · rw [answer.head, status] at whole
    exact absurd whole (by decide)

end

variable (delivers : Delivers file source) (some_ : file ≠ []) (representable : file.length < u64Size)
  (parts : rangeHeader.bind rangeParts = some (first, last))
include delivers some_ representable parts

theorem serve_parts (fileName : Text) (isHead : Bool) :
    ∃ served, serveHttpRangeStream source fileName file.length isHead rangeHeader = .ok served ∧
      (file.length ≤ (parseU64 first).getD 0 ∧ Unsatisfiable served ∨
        RangeAnswer file isHead fileName served ((parseU64 first).getD 0) (lastPosition last file.length)) := by
  obtain ⟨served, ran, shape⟩ := serve_eq delivers some_ representable fileName isHead rangeHeader
  rw [parseRangeSpec_parts parts] at shape
  refine ⟨served, ran, ?_⟩
  split at shape
  case isTrue beyond => exact .inl ⟨beyond, shape⟩
  case isFalse inside => exact .inr ⟨Nat.not_le.mp inside, shape.1, shape.2⟩

end Parts

section Interpretation

theorem specOf_suffix {length : Nat} (read : number last = some length) : specOf ([], last) = some (.suffix length) := by
  rw [specOf, if_pos rfl, read]
  rfl

theorem specOf_openEnded (read : number first = some position) : specOf (first, []) = some (.openEnded position) := by
  have nonempty : first ≠ [] := by
    rintro rfl
    cases read
  rw [specOf, if_neg nonempty, if_pos rfl, read]
  rfl

theorem specOf_between {stop : Nat} (read : number first = some position) (readLast : number last = some stop)
    (order : position ≤ stop) : specOf (first, last) = some (.between position stop) := by
  have nonempty : first ≠ [] := by
    rintro rfl
    cases read
  have nonemptyLast : last ≠ [] := by
    rintro rfl
    cases readLast
  rw [specOf, if_neg nonempty, if_neg nonemptyLast, read, readLast]
  exact if_pos order

theorem specOf_cases {spec : RangeSpec} (meant : specOf (first, last) = some spec) :
    (∃ length, spec = .suffix length ∧ first = [] ∧ number last = some length) ∨
      (∃ position, spec = .openEnded position ∧ last = [] ∧ number first = some position) ∨
      ∃ position stop, spec = .between position stop ∧ number first = some position ∧ number last = some stop ∧
        position ≤ stop := by
  rw [specOf] at meant
  split at meant
  case isTrue empty =>
    obtain ⟨length, read, rfl⟩ := map_eq_some_iff.mp meant
    exact .inl ⟨length, rfl, empty, read⟩
  case isFalse =>
    split at meant
    case isTrue empty =>
      obtain ⟨position, read, rfl⟩ := map_eq_some_iff.mp meant
      exact .inr (.inl ⟨position, rfl, empty, read⟩)
    case isFalse =>
      obtain ⟨position, read, meant⟩ := bind_eq_some_iff.mp meant
      obtain ⟨stop, readLast, meant⟩ := bind_eq_some_iff.mp meant
      split at meant
      case isTrue order =>
        cases meant
        exact .inr (.inr ⟨position, stop, rfl, read, readLast, order⟩)
      case isFalse => cases meant

theorem bind_rangeSpec (parts : rangeHeader.bind rangeParts = some (first, last)) :
    rangeHeader.bind rangeSpec = specOf (first, last) := by
  rw [← bind_some (first, last) specOf, ← parts, bind_assoc]
  rfl

theorem selected_right {stop : Nat}
    (answer : file.length ≤ position ∧ Unsatisfiable served ∨ RangeAnswer file isHead fileName served position stop)
    (order : position < file.length → position ≤ stop) (inside : stop < file.length) :
    match if position < file.length then some (position, stop) else none with
    | none => Unsatisfiable served
    | some (start, end_) => Carries file isHead served start end_ := by
  rcases answer with ⟨beyond, refused⟩ | given
  · rw [if_neg (Nat.not_lt.mpr beyond)]
    exact refused
  · rw [if_pos given.inside]
    exact given.carries (order given.inside) inside

variable (some_ : file ≠ []) (representable : file.length < u64Size)
  (parts : rangeHeader.bind rangeParts = some (first, last))
  (answer : file.length ≤ (parseU64 first).getD 0 ∧ Unsatisfiable served ∨
    RangeAnswer file isHead fileName served ((parseU64 first).getD 0) (lastPosition last file.length))
include some_ representable parts answer

theorem MisreadParts.not_right (misread : MisreadParts first last file.length) :
    ¬AnswersRight file isHead rangeHeader served := by
  intro right
  have positive := length_pos_of_ne_nil some_
  have meaning : ∀ spec, specOf (first, last) = some spec → rangeHeader.bind rangeSpec = some spec :=
    fun _ meant => (bind_rangeSpec parts).trans meant
  cases misread with
  | suffix length empty read short =>
    subst empty
    have given := answer.resolve_left fun refused => Nat.not_le.mpr positive refused.1
    have asked := right.interpreted _ (meaning _ (specOf_suffix read))
    by_cases none : length = 0
    · rw [RangeSpec.selected, if_pos none] at asked
      exact given.not_unsatisfiable asked
    · rw [RangeSpec.selected, if_neg none] at asked
      have starts := (given.unique asked).1
      have zero : (parseU64 []).getD 0 = 0 := rfl
      omega
  | wide position read wide isRange =>
    have zero : (parseU64 first).getD 0 = 0 := by
      rw [parseU64_of_number read, if_neg (Nat.not_lt.mpr wide)]
      rfl
    have given := answer.resolve_left fun refused => Nat.not_le.mpr positive (zero ▸ refused.1)
    have beyond : ¬position < file.length := by omega
    rcases isRange with rfl | ⟨stop, readLast, order⟩
    · have asked := right.interpreted _ (meaning _ (specOf_openEnded read))
      rw [RangeSpec.selected, if_neg beyond] at asked
      exact given.not_unsatisfiable asked
    · have asked := right.interpreted _ (meaning _ (specOf_between read readLast order))
      rw [RangeSpec.selected, if_neg beyond] at asked
      exact given.not_unsatisfiable asked
  | backwards position stop read readLast order inside =>
    rw [read, getD_some] at answer
    have given := answer.resolve_left fun refused => Nat.not_le.mpr inside refused.1
    rcases right.sound with refused | ⟨start, end_, carries⟩
    · exact given.not_unsatisfiable refused
    · obtain ⟨starts, ends⟩ := given.unique carries
      have nonempty : last ≠ [] := by
        rintro rfl
        cases readLast
      have before : lastPosition last file.length ≤ stop := by
        rw [lastPosition, if_pos nonempty, readLast]
        exact Nat.min_le_left _ _
      have forwards := carries.order
      omega

theorem answersRight_of_not_misread (read : ¬MisreadParts first last file.length) :
    AnswersRight file isHead rangeHeader served := by
  have positive := length_pos_of_ne_nil some_
  have last_ : lastPosition last file.length < file.length := by
    have bound := parseRangeSpec_end rangeHeader file.length
    rw [parseRangeSpec_parts parts] at bound
    dsimp only at bound
    omega
  have forwards : (parseU64 first).getD 0 < file.length → (parseU64 first).getD 0 ≤ lastPosition last file.length := by
    cases readFirst : parseU64 first with
    | none => exact fun _ => Nat.zero_le _
    | some position =>
      intro inside
      rw [lastPosition]
      split
      case isFalse => exact Nat.le_sub_one_of_lt inside
      case isTrue =>
        cases readLast : parseU64 last with
        | none => exact Nat.le_sub_one_of_lt inside
        | some stop =>
          have order : position ≤ stop := by
            by_contra backwards
            exact read (.backwards position stop readFirst readLast (Nat.not_le.mp backwards) inside)
          exact Nat.le_min.mpr ⟨order, Nat.le_sub_one_of_lt inside⟩
  constructor
  case sound =>
    rcases answer with ⟨_, refused⟩ | given
    · exact .inl refused
    · exact .inr ⟨_, _, given.carries (forwards given.inside) last_⟩
  case interpreted =>
    intro spec meant
    rw [bind_rangeSpec parts] at meant
    rcases specOf_cases meant with ⟨length, rfl, rfl, readLast⟩ | ⟨position, rfl, rfl, readFirst⟩ |
      ⟨position, stop, rfl, readFirst, readLast, order⟩
    · have long : file.length ≤ length := by
        by_contra short
        exact read (.suffix length rfl readLast (Nat.not_le.mp short))
      have given := answer.resolve_left fun refused => Nat.not_le.mpr positive refused.1
      have end_ : lastPosition last file.length = file.length - 1 := by
        rw [lastPosition_number readLast representable.le positive]
        omega
      rw [RangeSpec.selected, if_neg (by omega), Nat.sub_eq_zero_of_le long]
      exact end_ ▸ given.carries (Nat.zero_le _) last_
    · have narrow : position < u64Size := by
        by_contra wide
        exact read (.wide position readFirst (Nat.not_lt.mp wide) (.inl rfl))
      rw [parseU64_of_number readFirst, if_pos narrow, getD_some] at answer forwards
      exact selected_right answer forwards last_
    · have narrow : position < u64Size := by
        by_contra wide
        exact read (.wide position readFirst (Nat.not_lt.mp wide) (.inr ⟨stop, readLast, order⟩))
      rw [parseU64_of_number readFirst, if_pos narrow, getD_some] at answer forwards
      have end_ := lastPosition_number readLast representable.le positive
      rw [end_] at answer forwards last_
      exact selected_right answer forwards last_

end Interpretation

theorem answersRight_whole (delivers : Delivers file source) (some_ : file ≠ []) (representable : file.length < u64Size)
    (unread : rangeHeader.bind rangeParts = none) (fileName : Text) (isHead : Bool) :
    ∃ served, serveHttpRangeStream source fileName file.length isHead rangeHeader = .ok served ∧
      AnswersRight file isHead rangeHeader served := by
  have positive := length_pos_of_ne_nil some_
  obtain ⟨served, ran, shape⟩ := serve_eq delivers some_ representable fileName isHead rangeHeader
  have range : parseRangeSpec rangeHeader file.length = ⟨0, file.length - 1, false⟩ := by
    rw [parseRangeSpec, unread]
  have meaningless : rangeHeader.bind rangeSpec = none := by
    rw [← bind_none specOf, ← unread, bind_assoc]
    rfl
  rw [range] at shape
  rw [if_neg (Nat.not_le.mpr positive)] at shape
  obtain ⟨head, body⟩ := shape
  refine ⟨served, ran, .inr ⟨0, file.length - 1, Nat.zero_le _, by omega, ?_, ?_, .inr ⟨?_, rfl, by omega⟩⟩, ?_⟩
  · rw [body]
    rfl
  · rw [head, show file.length - 1 + 1 - 0 = file.length by omega]
    rfl
  · rw [head]
    rfl
  · intro spec meant
    cases meaningless.symm.trans meant

/-- The server answers without a panic, and the answer is the right one exactly for the headers
that are not misread. -/
theorem serve_right_iff (delivers : Delivers file source) (representable : file.length < u64Size) (fileName : Text)
    (isHead : Bool) (rangeHeader : Option Text) :
    ∃ served, serveHttpRangeStream source fileName file.length isHead rangeHeader = .ok served ∧
      (AnswersRight file isHead rangeHeader served ↔ ¬Misread rangeHeader file.length) := by
  by_cases empty : file = []
  · subst empty
    refine ⟨_, rfl, fun right => ?_, fun read => absurd (.inl rfl) read⟩
    rcases right.sound with ⟨status, _⟩ | ⟨_, _, carries⟩
    · exact absurd status (by decide)
    · exact absurd carries.inside (Nat.not_lt_zero _)
  · have positive := length_pos_of_ne_nil empty
    cases parts : rangeHeader.bind rangeParts with
    | none =>
      obtain ⟨served, ran, right⟩ := answersRight_whole delivers empty representable parts fileName isHead
      refine ⟨served, ran, fun _ => ?_, fun _ => right⟩
      rintro (none | ⟨first, last, split, _⟩)
      · exact positive.ne' none
      · cases parts.symm.trans split
    | some both =>
      obtain ⟨first, last⟩ := both
      obtain ⟨served, ran, answer⟩ := serve_parts delivers empty representable parts fileName isHead
      refine ⟨served, ran, fun right => ?_, fun read => ?_⟩
      · rintro (none | ⟨_, _, split, misread⟩)
        · exact positive.ne' none
        · cases parts.symm.trans split
          exact misread.not_right empty representable parts answer right
      · exact answersRight_of_not_misread empty representable parts answer fun misread =>
          read (.inr ⟨first, last, parts, misread⟩)

/-- A source that gives all that it is asked for. -/
def wholeReads (file : Bytes) : Source := ⟨fun _ position length => .ok (slice file position length)⟩

theorem wholeReads_delivers (file : Bytes) : Delivers file (wholeReads file) := by
  intro round position length positive inside
  have size := slice_length file position length
  refine ⟨_, rfl, ne_nil_of_length_pos (by omega), by omega, ?_⟩
  rw [size, slice, slice, ← length_drop, take_eq_take_min]

theorem tenBytes_served :
    ∃ served, serveHttpRangeStream (wholeReads (replicate 10 7)) (text "a.mp4") 10 false (some (text "bytes=2-5")) =
        .ok served ∧
      (AnswersRight (replicate 10 7) false (some (text "bytes=2-5")) served ↔
        ¬Misread (some (text "bytes=2-5")) 10) :=
  serve_right_iff (wholeReads_delivers _) (by decide) (text "a.mp4") false (some (text "bytes=2-5"))

/-- The first bytes are sent for the last ones. -/
theorem suffix_sends_first_bytes :
    ∃ served, serveHttpRangeStream (wholeReads [0, 1, 2, 3, 4]) (text "a.mp4") 5 false (some (text "bytes=-2")) =
        .ok served ∧
      served.body = [0, 1, 2] ∧ served.head.field "Content-Range" = some (text "bytes 0-2/5") ∧
      ¬AnswersRight [0, 1, 2, 3, 4] false (some (text "bytes=-2")) served := by
  refine ⟨_, rfl, rfl, by decide +kernel, fun right => ?_⟩
  have carries := right.interpreted (.suffix 2) rfl
  exact absurd carries.body (by decide)

end RangeStream

end BitTorrent
