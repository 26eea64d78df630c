import BitTorrent.Core.MetaInfo
import Mathlib.Data.List.DropRight

/-! # Lists of URLs in one text

The parser joins the trackers and the web seeds of a torrent with commas and cuts them again at
commas, so that some lists come back changed.
-/

namespace BitTorrent

open List

section Trim

theorem trim_eq (value : Text) : trim value = (value.dropWhile isWhiteSpace).rdropWhile isWhiteSpace := rfl

theorem trim_trim (value : Text) : trim (trim value) = trim value := by
  have left : (trim value).dropWhile isWhiteSpace = trim value := by
    obtain ⟨rest, whole⟩ : trim value <+: value.dropWhile isWhiteSpace := rdropWhile_prefix isWhiteSpace _
    cases shape : trim value with
    | nil => rfl
    | cons letter more =>
      rw [shape] at whole
      refine dropWhile_cons_of_neg ?_
      have head := @List.head?_dropWhile_not Char isWhiteSpace value
      rw [← whole, cons_append, head?_cons] at head
      exact Bool.eq_false_iff.mp head
  rw [trim_eq (trim value), left, trim_eq, rdropWhile_idempotent]

theorem mem_of_mem_trim {value : Text} {letter : Char} (member : letter ∈ trim value) : letter ∈ value := by
  rw [trim, mem_reverse] at member
  exact (dropWhile_sublist _).subset (mem_reverse.mp ((dropWhile_sublist _).subset member))

end Trim

/-- The URLs that the parser finds in a text. -/
def urlParts (url : Text) : List Text := ((url.splitOn ',').map trim).filter (· ≠ [])

/-- One more URL of the list, if it is not there yet. -/
def addUrl (urls : List Text) (url : Text) : List Text := if url ∈ urls then urls else urls ++ [url]

/-- A URL that is found as it was written. -/
structure CleanUrl (url : Text) : Prop where
  nonempty : url ≠ []
  noComma : ',' ∉ url
  trimmed : trim url = url

section Parts

variable {url part : Text} {urls : List Text}

theorem urlParts_clean (clean : CleanUrl url) : urlParts url = [url] := by
  rw [urlParts, splitOn_eq_singleton clean.noComma, map_singleton, clean.trimmed]
  exact filter_cons_of_pos (decide_eq_true clean.nonempty)

theorem clean_of_mem_urlParts (member : part ∈ urlParts url) : CleanUrl part := by
  obtain ⟨inside, nonempty⟩ := mem_filter.mp member
  obtain ⟨piece, cut, rfl⟩ := mem_map.mp inside
  refine ⟨of_decide_eq_true nonempty, ?_, trim_trim piece⟩
  intro comma
  exact (mem_of_mem_splitOn cut (mem_of_mem_trim comma)).2 rfl

theorem flatMap_urlParts (clean : ∀ url ∈ urls, CleanUrl url) : urls.flatMap urlParts = urls := by
  induction urls with
  | nil => rfl
  | cons url urls ih =>
    rw [forall_mem_cons] at clean
    rw [flatMap_cons, urlParts_clean clean.1, ih clean.2, singleton_append]

theorem urlParts_intercalate (nonempty : urls ≠ []) : urlParts ([','].intercalate urls) = urls.flatMap urlParts := by
  induction urls with
  | nil => exact absurd rfl nonempty
  | cons url urls ih =>
    cases urls with
    | nil => rw [intercalate_singleton, flatMap_cons, flatMap_nil, append_nil]
    | cons next others =>
      rw [flatMap_cons, ← ih (cons_ne_nil _ _), intercalate_cons_cons, append_assoc,
        singleton_append, urlParts, splitOn_append_cons_self, map_append, filter_append]
      rfl

theorem flatMap_urlParts_iff : urls.flatMap urlParts = urls ↔ ∀ url ∈ urls, CleanUrl url := by
  refine ⟨?_, flatMap_urlParts⟩
  intro same url member
  rw [← same] at member
  obtain ⟨_, _, inside⟩ := mem_flatMap.mp member
  exact clean_of_mem_urlParts inside

end Parts

section Adding

variable {url first : Text} {urls parts rest : List Text}

theorem mem_foldl_addUrl : url ∈ parts.foldl addUrl urls ↔ url ∈ urls ∨ url ∈ parts := by
  induction parts generalizing urls with
  | nil => simp
  | cons part parts ih =>
    have one : url ∈ addUrl urls part ↔ url ∈ urls ∨ url = part := by
      rw [addUrl]
      split
      case isTrue known => exact ⟨.inl, fun either => either.elim id fun same => same ▸ known⟩
      case isFalse => rw [mem_append, mem_singleton]
    rw [foldl_cons, ih, one, mem_cons, or_assoc]

theorem prefix_foldl_addUrl : urls <+: parts.foldl addUrl urls := by
  induction parts generalizing urls with
  | nil => exact prefix_rfl
  | cons part parts ih =>
    have one : urls <+: addUrl urls part := by
      rw [addUrl]
      split
      case isTrue => exact prefix_rfl
      case isFalse => exact prefix_append _ _
    exact one.trans ih

/-- URLs of a list without repetition are added in its order, those that are there already apart. -/
theorem foldl_addUrl_eq {done todo : List Text} (distinct : (done ++ todo).Nodup) (before : done <+: urls)
    (within : urls <+: done ++ todo) : todo.foldl addUrl urls = done ++ todo := by
  induction todo generalizing done urls with
  | nil =>
    rw [append_nil] at within ⊢
    exact within.eq_of_length_le before.length_le
  | cons next todo ih =>
    obtain ⟨more, rfl⟩ := before
    rw [prefix_append_right_inj] at within
    rw [append_cons] at distinct ⊢
    rw [foldl_cons, addUrl]
    cases more with
    | nil =>
      have absent : next ∉ done := by
        intro known
        rw [append_assoc, singleton_append] at distinct
        exact (nodup_append.mp distinct).2.2 next known next mem_cons_self rfl
      rw [append_nil, if_neg absent]
      exact ih distinct prefix_rfl (prefix_append _ _)
    | cons other more =>
      obtain ⟨rfl, later⟩ := cons_prefix_cons.mp within
      rw [if_pos (mem_append_right _ mem_cons_self), append_cons]
      exact ih distinct (prefix_append _ _) ((prefix_append_right_inj _).mpr later)

/-- The trackers that come back: only the first may be more than one URL. -/
theorem foldl_addUrl_iff (distinct : (first :: rest).Nodup) :
    ((first :: rest).flatMap urlParts).foldl addUrl [first] = first :: rest ↔
      (∀ url ∈ rest, CleanUrl url) ∧ (urlParts first).foldl addUrl [first] <+: first :: rest := by
  constructor
  · intro same
    have clean : ∀ url ∈ rest, CleanUrl url := by
      intro url member
      have found : url ∈ ((first :: rest).flatMap urlParts).foldl addUrl [first] := by
        rw [same]
        exact mem_cons_of_mem _ member
      rcases mem_foldl_addUrl.mp found with start | part
      · rw [mem_singleton] at start
        exact absurd (start ▸ member) (nodup_cons.mp distinct).1
      · obtain ⟨_, _, inside⟩ := mem_flatMap.mp part
        exact clean_of_mem_urlParts inside
    refine ⟨clean, ?_⟩
    rw [flatMap_cons, foldl_append] at same
    exact same ▸ prefix_foldl_addUrl
  · intro kept
    obtain ⟨clean, within⟩ := kept
    rw [flatMap_cons, flatMap_urlParts clean, foldl_append]
    exact @foldl_addUrl_eq _ [first] rest distinct prefix_foldl_addUrl within

end Adding

namespace MetaInfoFile

variable {file : MetaInfoFile} {urls : List Text}

theorem getWebSeeds_joined (nonempty : urls ≠ []) (found : file.get (text "url-list") = some (joinUrls urls)) :
    file.getWebSeeds = urls.flatMap urlParts := by
  rw [getWebSeeds, found, ← urlParts_intercalate nonempty]
  simp only [joinUrls, fromUtf8Lossy_utf8, urlParts]

theorem foldl_splitOn (start : List Text) (value : Text) :
    (value.splitOn ',').foldl (fun urls entry =>
      if trim entry = [] ∨ trim entry ∈ urls then urls else urls ++ [trim entry]) start =
      (urlParts value).foldl addUrl start := by
  rw [urlParts]
  induction value.splitOn ',' generalizing start with
  | nil => rfl
  | cons entry entries ih =>
    rw [foldl_cons, ih, map_cons, filter_cons]
    by_cases empty : trim entry = []
    · rw [if_pos (.inl empty), if_neg (by simp [empty])]
    · rw [if_pos (decide_eq_true empty), foldl_cons, addUrl]
      simp only [empty, false_or]

theorem getTrackerUrls_joined {announce : Text} (parsed : file.parsed = true)
    (announced : file.get (text "announce") = some (utf8 announce)) (nonempty : urls ≠ [])
    (found : file.get (text "announce-list") = some (joinUrls urls)) :
    file.getTrackerUrls = .ok ((urls.flatMap urlParts).foldl addUrl [announce]) := by
  rw [getTrackerUrls, requireParsed, if_pos parsed, field_eq_ok.mpr announced, found]
  simp only [bind, Except.bind, fromUtf8Lossy_utf8, joinUrls, foldl_splitOn, urlParts_intercalate nonempty]
  rfl

theorem getTrackerUrls_single {announce : Text} (parsed : file.parsed = true)
    (announced : file.get (text "announce") = some (utf8 announce)) (absent : file.get (text "announce-list") = none) :
    file.getTrackerUrls = .ok [announce] := by
  rw [getTrackerUrls, requireParsed, if_pos parsed, field_eq_ok.mpr announced, absent]
  simp only [bind, Except.bind, fromUtf8Lossy_utf8]
  rfl

end MetaInfoFile

end BitTorrent
