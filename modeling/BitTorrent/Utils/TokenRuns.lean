import BitTorrent.Utils.BencodeGrammar
import BitTorrent.Utils.BencodeTokenizer
import Mathlib.Logic.Relation

/-! # Runs over the tokens of a tree

When the tokenizer and the loops over tokens succeed on the word of a tree, as an equation: they
fail only on strings and numbers beyond the limits of the tokenizer.
-/

namespace BitTorrent

open Bencode List

namespace BNode

variable {bytes input : Bytes} {depth : Nat} {ι : Type} {word : ι → Bytes}

/-- The token with which a value starts. -/
def token : BNode → BencodeToken
  | .dictionary _ => .dictStart
  | .list _ => .listStart
  | .number digits => .integer digits
  | .string bytes => .string bytes

/-- What follows the first token of a value. -/
def body : BNode → Bytes
  | .dictionary entries => entries.flatMap spellPair ++ [101]
  | .list items => items.flatMap spell ++ [101]
  | _ => []

theorem token_ne_stop (node : BNode) : node.token ≠ .stop := by
  cases node <;> exact fun same => (nomatch same)

end BNode

section Tokens

open Parsing

/-- The words of the tokens. -/
def TokenWord : Language UInt8 BencodeToken := fun word token =>
  match token with
  | .dictStart => word = [100]
  | .listStart => word = [108]
  | .stop => word = [101]
  | .integer digits => ∃ body, IntegerWord body digits ∧ word = 105 :: body
  | .string bytes => StringWord word bytes

theorem tokenWord_of_expectToken {rest : Bytes} {token : BencodeToken} (read : expectToken input = .ok (token, rest)) :
    ∃ word, TokenWord word token ∧ input = word ++ rest := by
  rw [expectToken_eq_ok] at read
  obtain _ | ⟨first, input⟩ := input
  · cases read
  rw [nextToken] at read
  split at read
  case isTrue isDict =>
    cases read
    exact ⟨[100], rfl, by rw [isDict]; rfl⟩
  case isFalse =>
    split at read
    case isTrue isList =>
      cases read
      exact ⟨[108], rfl, by rw [isList]; rfl⟩
    case isFalse =>
      split at read
      case isTrue isStop =>
        cases read
        exact ⟨[101], rfl, by rw [isStop]; rfl⟩
      case isFalse =>
        split at read
        case isTrue isInteger =>
          obtain ⟨⟨digits, left⟩, found, same⟩ := map_eq_ok.mp (Option.some.inj read)
          cases same
          obtain ⟨body, member, rfl⟩ := (reads_readInteger _ _ _).mp found
          exact ⟨105 :: body, ⟨body, member, rfl⟩, by rw [isInteger]; rfl⟩
        case isFalse =>
          split at read
          case isTrue =>
            obtain ⟨⟨bytes, left⟩, found, same⟩ := map_eq_ok.mp (Option.some.inj read)
            cases same
            exact (reads_decodeString _ _ _).mp found
          case isFalse => cases read

section Brackets

variable {input rest : Bytes}

theorem eq_of_nextToken_dictStart (read : nextToken input = some (.ok (.dictStart, rest))) : input = 100 :: rest := by
  obtain ⟨word, member, rfl⟩ := tokenWord_of_expectToken (expectToken_eq_ok.mpr read)
  rw [show word = [100] from member]
  rfl

theorem eq_of_nextToken_listStart (read : nextToken input = some (.ok (.listStart, rest))) : input = 108 :: rest := by
  obtain ⟨word, member, rfl⟩ := tokenWord_of_expectToken (expectToken_eq_ok.mpr read)
  rw [show word = [108] from member]
  rfl

theorem eq_of_nextToken_stop (read : nextToken input = some (.ok (.stop, rest))) : input = 101 :: rest := by
  obtain ⟨word, member, rfl⟩ := tokenWord_of_expectToken (expectToken_eq_ok.mpr read)
  rw [show word = [101] from member]
  rfl

end Brackets

theorem tokenWord_short {word : Bytes} {token : BencodeToken} (member : TokenWord word token)
    (scalar : token = .string bytes ∨ token = .integer bytes) : bytes.length ≤ maxStringLen := by
  rcases scalar with rfl | rfl
  · exact member.1
  · obtain ⟨body, ⟨value, range, rfl, _⟩, _⟩ := member
    exact (parse_integerText range).2.1.trans (by decide)

end Tokens

section Loops

variable {σ : Type} {strict : Bool} {body : σ → BencodeToken → Bytes → Result (σ × Bytes)}
  {rounds : Nat} {state : σ} {result : σ × Bytes}

theorem untilEnd_keeps (Holds : σ → Prop)
    (step : ∀ state token input state' input', Holds state → body state token input = .ok (state', input') → Holds state')
    (start : Holds state) (done : untilEnd strict body rounds state input = .ok result) :
    Holds result.1 := by
  induction rounds generalizing state input with
  | zero => cases done
  | succ rounds ih =>
    rw [untilEnd] at done
    split at done
    case h_1 =>
      obtain ⟨_, done⟩ := guard_eq_ok.mp done
      cases done
      exact start
    case h_2 => cases done
    case h_3 =>
      cases done
      exact start
    case h_4 =>
      rw [bind_eq_ok] at done
      obtain ⟨⟨next, after⟩, ran, done⟩ := done
      exact ih (step _ _ _ _ _ start ran) done

/-- One round of a loop over tokens, after which it goes on. -/
inductive LoopStep (body : σ → BencodeToken → Bytes → Result (σ × Bytes)) : σ × Bytes → σ × Bytes → Prop
  | round {state : σ} {input after : Bytes} {token : BencodeToken} {next : σ × Bytes}
      (read : nextToken input = some (.ok (token, after))) (more : token ≠ .stop)
      (ran : body state token after = .ok next) : LoopStep body (state, input) next

theorem reaches_of_untilEnd (done : untilEnd true body rounds state input = .ok result) :
    Relation.ReflTransGen (LoopStep body) (state, input) (result.1, 101 :: result.2) := by
  induction rounds generalizing state input with
  | zero => cases done
  | succ rounds ih =>
    rw [untilEnd] at done
    split at done
    case h_1 => cases done
    case h_2 => cases done
    case h_3 after found =>
      cases done
      rw [eq_of_nextToken_stop found]
    case h_4 more found =>
      obtain ⟨next, ran, onward⟩ := bind_eq_ok.mp done
      exact .head (.round found more ran) (ih onward)

end Loops

section Success

variable {ε α β : Type}

theorem toOption_bind (result : Except ε α) (next : α → Except ε β) :
    (result >>= next).toOption = result.toOption.bind fun found => (next found).toOption := by
  cases result with
  | error reason => rfl
  | ok found => rfl

theorem toOption_ok (found : α) : (Except.ok found : Except ε α).toOption = some found := rfl

theorem toOption_map (convert : α → β) (result : Except ε α) :
    (result.map convert).toOption = result.toOption.map convert := by
  cases result with
  | error reason => rfl
  | ok found => rfl

theorem toOption_eq_some {result : Except ε α} {found : α} : result.toOption = some found ↔ result = .ok found := by
  cases result with
  | error reason => simp [Except.toOption]
  | ok value => simp [Except.toOption]

end Success

namespace BNode

/-- A number that the tokenizer takes. -/
def numberFits (digits : Bytes) : Bool := (readInteger (digits ++ [101])).isOk

/-- The first token of a value is within the limits. -/
def headFits : BNode → Bool
  | .number digits => numberFits digits
  | .string bytes => decide (bytes.length ≤ maxStringLen)
  | _ => true

mutual

/-- All tokens of a value are within the limits. -/
def fits : BNode → Bool
  | .dictionary entries => fitsEntries entries
  | .list items => fitsItems items
  | .number digits => numberFits digits
  | .string bytes => decide (bytes.length ≤ maxStringLen)

def fitsEntries : Entries → Bool
  | [] => true
  | (key, value) :: entries => decide (key.length ≤ maxStringLen) && fits value && fitsEntries entries

def fitsItems : List BNode → Bool
  | [] => true
  | item :: items => fits item && fitsItems items

end

def pairFits (entry : Bytes × BNode) : Bool := decide (entry.1.length ≤ maxStringLen) && entry.2.fits

theorem fits_dictionary (entries : Entries) : (dictionary entries).fits = entries.all pairFits := by
  rw [fits]
  induction entries with
  | nil => rfl
  | cons entry entries ih => rw [fitsEntries, ih, all_cons, pairFits]

theorem fits_list (items : List BNode) : (list items).fits = items.all fits := by
  rw [fits]
  induction items with
  | nil => rfl
  | cons item items ih => rw [fitsItems, ih, all_cons]

theorem fits_dictionary_iff {entries : Entries} :
    (dictionary entries).fits = true ↔ ∀ entry ∈ entries, entry.1.length ≤ maxStringLen ∧ entry.2.fits = true := by
  simp only [fits_dictionary, all_eq_true, pairFits, Bool.and_eq_true, decide_eq_true_eq]

theorem fits_string_iff : (string bytes).fits = true ↔ bytes.length ≤ maxStringLen := by
  rw [fits, decide_eq_true_eq]

theorem fits_of_dictGet {entries : Entries} {key : Bytes} {value : BNode}
    (good : (dictionary entries).fits = true) (found : (dictionary entries).dictGet key = some value) :
    value.fits = true :=
  (fits_dictionary_iff.mp good _ (mem_of_dictGet found)).2

theorem headFits_of_fits {node : BNode} (fits : node.fits = true) : node.headFits = true := by
  cases node with
  | dictionary entries => rfl
  | list items => rfl
  | number digits => exact fits
  | string bytes => exact fits

/-- A tree whose numbers end where their digits end. -/
inductive Delimited : BNode → Prop
  | number {digits : Bytes} (plain : digits.all isNumberByte = true) : Delimited (.number digits)
  | string (bytes : Bytes) : Delimited (.string bytes)
  | list {items : List BNode} (each : ∀ item ∈ items, Delimited item) : Delimited (.list items)
  | dictionary {entries : Entries} (each : ∀ entry ∈ entries, Delimited entry.2) :
      Delimited (.dictionary entries)

end BNode

open BNode

section Tokens

variable {node : BNode} {rest : Bytes}

theorem readInteger_run {digits : Bytes} (plain : digits.all isNumberByte = true) :
    (readInteger (digits ++ 101 :: rest)).toOption = if numberFits digits then some (digits, rest) else none := by
  have read : ∀ rest, readInteger (digits ++ 101 :: rest) =
      if 20 < digits.length then .error (.bencode .integerTooLong)
      else if digits.isEmpty || (digits.head? == some 48 && decide (1 < digits.length)) ||
          digits.take 2 == [45, 48] || !parsesAsI64 digits then
        .error (.bencode .invalidIntegerFormat)
      else .ok (digits, rest) := by
    intro rest
    obtain ⟨front, back⟩ := @takeWhile_append_stop _ isNumberByte digits 101 rest plain (by decide)
    rw [readInteger, front, back]
    rfl
  rw [numberFits, read, read]
  split
  case isTrue => rfl
  case isFalse =>
    split
    case isTrue => rfl
    case isFalse => rfl

theorem decodeString_run (bytes : Bytes) :
    (decodeString (encodeString bytes ++ rest)).toOption =
      if bytes.length ≤ maxStringLen then some (bytes, rest) else none := by
  split
  case isTrue short => exact toOption_eq_some.mpr (reads_decodeString.run ⟨short, rfl⟩ rest)
  case isFalse long =>
    cases decoded : decodeString (encodeString bytes ++ rest) with
    | error reason => rfl
    | ok read =>
      cases decodeString_encodeString decoded
      obtain ⟨word, ⟨short, _⟩, _⟩ := (reads_decodeString _ _ _).mp decoded
      exact absurd short long

theorem nextToken_encodeString_run (bytes : Bytes) :
    ∃ read, nextToken (encodeString bytes ++ rest) = some read ∧
      read.toOption = if bytes.length ≤ maxStringLen then some (.string bytes, rest) else none := by
  obtain ⟨first, more, shape⟩ := exists_cons_of_ne_nil (decimal_ne_nil bytes.length)
  have digit := decimal_head_isDigit shape
  have whole : encodeString bytes ++ rest = first :: (more ++ 58 :: bytes ++ rest) := by
    simp [encodeString, shape]
  have decoded := @decodeString_run rest bytes
  rw [whole] at decoded ⊢
  refine ⟨_, nextToken_digit digit, ?_⟩
  rw [toOption_map, decoded]
  split
  case isTrue => rfl
  case isFalse => rfl

theorem nextToken_stringWord (short : bytes.length ≤ maxStringLen) :
    nextToken (encodeString bytes ++ rest) = some (.ok (.string bytes, rest)) := by
  obtain ⟨read, found, outcome⟩ := @nextToken_encodeString_run rest bytes
  rw [if_pos short, toOption_eq_some] at outcome
  rw [found, outcome]

theorem nextToken_run (delimited : Delimited node) :
    ∃ read, nextToken (spell node ++ rest) = some read ∧
      read.toOption = if node.headFits then some (node.token, node.body ++ rest) else none := by
  cases delimited with
  | dictionary each =>
    rw [spell_dictionary, cons_append, cons_append, nextToken_dictStart]
    exact ⟨_, rfl, rfl⟩
  | list each =>
    rw [spell_list, cons_append, cons_append, nextToken_listStart]
    exact ⟨_, rfl, rfl⟩
  | string bytes =>
    obtain ⟨read, found, outcome⟩ := @nextToken_encodeString_run rest bytes
    refine ⟨read, found, ?_⟩
    simp only [headFits, decide_eq_true_eq]
    exact outcome
  | @number digits plain =>
    have read := @readInteger_run rest digits plain
    rw [spell, cons_append, cons_append, nextToken, if_neg (by decide), if_neg (by decide),
      if_neg (by decide), if_pos rfl, append_assoc, singleton_append]
    refine ⟨_, rfl, ?_⟩
    rw [toOption_map, read, headFits]
    split
    case isTrue => rfl
    case isFalse => rfl

theorem expectToken_run (delimited : Delimited node) :
    (expectToken (spell node ++ rest)).toOption =
      if node.headFits then some (node.token, node.body ++ rest) else none := by
  obtain ⟨read, found, outcome⟩ := @nextToken_run node rest delimited
  rw [expectToken, found]
  exact outcome

end Tokens

section Limits

theorem numberFits_iff {digits : Bytes} (plain : digits.all isNumberByte = true) :
    numberFits digits = true ↔ ∃ value, IsI64 value ∧ digits = integerText value := by
  have run := @readInteger_run [] digits plain
  constructor
  · intro good
    rw [if_pos good, toOption_eq_some] at run
    obtain ⟨_, ⟨value, range, text, _⟩, _⟩ := (reads_readInteger _ _ _).mp run
    exact ⟨value, range, text⟩
  · intro known
    obtain ⟨value, range, text⟩ := known
    rw [numberFits, (reads_readInteger _ _ _).mpr ⟨digits ++ [101], ⟨value, range, text, rfl⟩, (append_nil _).symm⟩]
    rfl

theorem delimited_of_proper {node : BNode} (proper : Proper depth node) : Delimited node := by
  induction depth generalizing node with
  | zero => cases proper
  | succ depth ih =>
    cases node with
    | number digits =>
      obtain ⟨value, range, rfl⟩ := proper
      exact .number (parse_integerText range).2.2.1
    | string bytes => exact .string bytes
    | list items => exact .list fun item member => ih (proper item member)
    | dictionary entries => exact .dictionary fun entry member => ih (proper entry member).2

theorem Proper.le {more : Nat} {node : BNode} (proper : Proper depth node) (deeper : depth ≤ more) :
    Proper more node := by
  induction deeper with
  | refl => exact proper
  | step _ ih => exact ih.succ

theorem exists_proper {items : List ι} {node : ι → BNode} (each : ∀ item ∈ items, ∃ depth, Proper depth (node item)) :
    ∃ depth, ∀ item ∈ items, Proper depth (node item) := by
  induction items with
  | nil => exact ⟨0, fun _ member => absurd member not_mem_nil⟩
  | cons item items ih =>
    obtain ⟨first, known⟩ := each item mem_cons_self
    obtain ⟨others, below⟩ := ih fun other member => each other (mem_cons_of_mem _ member)
    refine ⟨max first others, forall_mem_cons.mpr ⟨?_, ?_⟩⟩
    · exact Proper.le known (Nat.le_max_left first others)
    · exact fun other member => Proper.le (below other member) (Nat.le_max_right first others)

theorem exists_proper_of_fits {node : BNode} (delimited : Delimited node) (good : node.fits = true) :
    ∃ depth, Proper depth node := by
  induction delimited with
  | number plain => exact ⟨1, (numberFits_iff plain).mp good⟩
  | string bytes =>
    have short : bytes.length ≤ maxStringLen := of_decide_eq_true good
    exact ⟨1, short⟩
  | list each ih =>
    rw [fits_list, all_eq_true] at good
    obtain ⟨depth, below⟩ := exists_proper fun item member => ih item member (good item member)
    exact ⟨depth + 1, below⟩
  | dictionary each ih =>
    rw [fits_dictionary, all_eq_true] at good
    simp only [pairFits, Bool.and_eq_true, decide_eq_true_eq] at good
    obtain ⟨depth, below⟩ := exists_proper fun entry member => ih entry member (good entry member).2
    exact ⟨depth + 1, fun entry member => ⟨(good entry member).1, below entry member⟩⟩

theorem fits_of_proper {node : BNode} (proper : Proper depth node) : node.fits = true := by
  induction depth generalizing node with
  | zero => cases proper
  | succ depth ih =>
    cases node with
    | number digits =>
      obtain ⟨value, range, rfl⟩ := proper
      exact (numberFits_iff (parse_integerText range).2.2.1).mpr ⟨value, range, rfl⟩
    | string bytes => exact decide_eq_true proper
    | list items =>
      rw [fits_list, all_eq_true]
      exact fun item member => ih (proper item member)
    | dictionary entries =>
      rw [fits_dictionary, all_eq_true]
      intro entry member
      rw [pairFits, ih (proper entry member).2, decide_eq_true (proper entry member).1]
      rfl

theorem expectToken_spell {node : BNode} {rest : Bytes} (proper : Proper depth node) :
    expectToken (spell node ++ rest) = .ok (node.token, node.body ++ rest) := by
  rw [← toOption_eq_some, expectToken_run (delimited_of_proper proper), if_pos (headFits_of_fits (fits_of_proper proper))]

end Limits

section Skipping

/-- Bytes with as many tokens as the loop takes rounds for, all within the limits or not. -/
def Passes (good : Bool) (bytes : Bytes) : Prop :=
  ∃ rounds ≤ bytes.length, ∀ more depth rest, 0 < depth →
    (skipNested (rounds + more) depth (bytes ++ rest)).toOption =
      if good then (skipNested more depth rest).toOption else none

theorem passes_nil : Passes true [] :=
  ⟨0, Nat.le_refl 0, fun more depth rest _ => by rw [Nat.zero_add, nil_append, if_pos rfl]⟩

theorem Passes.append {first second : Bool} {left right : Bytes} (one : Passes first left) (two : Passes second right) :
    Passes (first && second) (left ++ right) := by
  obtain ⟨rounds, short, run⟩ := one
  obtain ⟨others, short', run'⟩ := two
  refine ⟨rounds + others, ?_, ?_⟩
  · rw [length_append]
    exact Nat.add_le_add short short'
  · intro more depth rest inside
    rw [append_assoc, Nat.add_assoc, run _ depth _ inside, run' more depth rest inside]
    cases first with
    | false => rfl
    | true => rfl

theorem passes_flatMap {items : List ι} {good : ι → Bool} (each : ∀ item ∈ items, Passes (good item) (word item)) :
    Passes (items.all good) (items.flatMap word) := by
  induction items with
  | nil => exact passes_nil
  | cons item items ih =>
    apply (each item mem_cons_self).append
    exact ih fun other member => each other (mem_cons_of_mem _ member)

theorem skipNested_run {rounds : Nat} :
    (skipNested (rounds + 1) depth input).toOption = (expectToken input).toOption.bind fun read =>
      if depthAfter depth read.1 = 0 then some read.2
      else (skipNested rounds (depthAfter depth read.1) read.2).toOption := by
  rw [skipNested, toOption_bind]
  congr 1
  funext read
  dsimp only
  split
  case isTrue => rfl
  case isFalse => rfl

theorem passes_token {good : Bool} (token : BencodeToken) {word : Bytes} (nonempty : word ≠ [])
    (flat : ∀ depth, depthAfter depth token = depth)
    (reads : ∀ rest, (expectToken (word ++ rest)).toOption = if good then some (token, rest) else none) :
    Passes good word := by
  refine ⟨1, length_pos_iff.mpr nonempty, ?_⟩
  intro more depth rest inside
  rw [Nat.add_comm, skipNested_run, reads]
  cases good with
  | false => rfl
  | true =>
    rw [if_pos rfl, if_pos rfl, Option.bind_some, flat, if_neg (Nat.ne_of_gt inside)]

theorem passes_string (bytes : Bytes) : Passes (decide (bytes.length ≤ maxStringLen)) (encodeString bytes) := by
  exact passes_token (.string bytes) (by simp [encodeString]) (fun _ => rfl) fun rest => expectToken_run (.string bytes)

theorem passes_nested {start : UInt8} {token : BencodeToken} {good : Bool} {inner : Bytes}
    (opens : ∀ rest, expectToken (start :: rest) = .ok (token, rest))
    (deeper : ∀ depth, depthAfter depth token = depth + 1) (passes : Passes good inner) :
    Passes good (start :: inner ++ [101]) := by
  obtain ⟨rounds, short, run⟩ := passes
  refine ⟨rounds + 2, ?_, ?_⟩
  · rw [length_append, length_cons, length_singleton]
    omega
  · intro more depth rest inside
    have order : rounds + 2 + more = rounds + (more + 1) + 1 := by omega
    have closed : depthAfter (depth + 1) .stop = depth := rfl
    rw [append_assoc, cons_append, order, skipNested_run, opens, toOption_ok, Option.bind_some, deeper,
      if_neg (Nat.succ_ne_zero depth), run _ _ _ (Nat.succ_pos depth), skipNested_run, singleton_append,
      expectToken, nextToken_stop]
    cases good with
    | false => rfl
    | true =>
      rw [if_pos rfl, if_pos rfl, toOption_ok, Option.bind_some, closed, if_neg (Nat.ne_of_gt inside)]

variable {node : BNode} {rest : Bytes}

theorem passes_spell (delimited : Delimited node) : Passes node.fits (spell node) := by
  induction delimited with
  | @number digits plain =>
    exact passes_token (.integer digits) (by simp [spell]) (fun _ => rfl) fun rest => expectToken_run (.number plain)
  | string bytes =>
    exact passes_string bytes
  | list each ih =>
    rw [spell_list, fits_list]
    exact passes_nested (fun _ => rfl) (fun _ => rfl) (passes_flatMap ih)
  | dictionary each ih =>
    rw [spell_dictionary, fits_dictionary]
    apply passes_nested (fun _ => rfl) (fun _ => rfl)
    apply passes_flatMap
    intro entry member
    exact (passes_string entry.1).append (ih entry member)

theorem Passes.unique {first second : Bool} (one : Passes first bytes) (two : Passes second bytes) :
    first = second := by
  obtain ⟨rounds, _, run⟩ := one
  obtain ⟨others, _, run'⟩ := two
  have ends : ∀ more, (skipNested (more + 1) 1 [101]).toOption = some [] := fun _ => rfl
  have first' := run (others + 1) 1 [101] Nat.one_pos
  have second' := run' (rounds + 1) 1 [101] Nat.one_pos
  rw [← Nat.add_assoc, Nat.add_comm others, Nat.add_assoc, first', ends, ends] at second'
  cases first <;> cases second <;> simp_all

theorem skipValue_run (delimited : Delimited node) (head : node.headFits = true) :
    (skipValue node.token (node.body ++ rest)).toOption = if node.fits then some rest else none := by
  have nested : ∀ {inner : Bytes} {good : Bool}, Passes good inner →
      (skipValue .listStart (inner ++ [101] ++ rest)).toOption = if good then some rest else none := by
    intro inner good passes
    obtain ⟨rounds, short, run⟩ := passes
    obtain ⟨more, enough⟩ : ∃ more, (inner ++ [101] ++ rest).length + 1 = rounds + (more + 1) := by
      refine ⟨(inner ++ [101] ++ rest).length - rounds, ?_⟩
      rw [length_append, length_append]
      omega
    rw [skipValue, enough, append_assoc, run _ _ _ Nat.one_pos, skipNested_run]
    rfl
  cases delimited with
  | @number digits plain =>
    have good : (number digits).fits = true := head
    rw [if_pos good]
    rfl
  | string bytes =>
    have good : (string bytes).fits = true := head
    rw [if_pos good]
    rfl
  | list each =>
    rw [fits_list]
    exact nested (passes_flatMap fun item member => passes_spell (each item member))
  | dictionary each =>
    rw [fits_dictionary]
    refine nested (passes_flatMap fun entry member => ?_)
    exact (passes_string entry.1).append (passes_spell (each entry member))

theorem skipValue_ok (proper : Proper depth node) : skipValue node.token (node.body ++ rest) = .ok rest := by
  have good := fits_of_proper proper
  rw [← toOption_eq_some, skipValue_run (delimited_of_proper proper) (headFits_of_fits good), if_pos good]

theorem fits_of_decode {other : BNode} (delimited : Delimited node) (decoded : decode (spell node) = .ok other) :
    node.fits = true := by
  obtain ⟨proper, same⟩ := decode_eq_spell decoded
  have passes := passes_spell delimited
  rw [same] at passes
  rw [passes.unique (passes_spell (delimited_of_proper proper)), fits_of_proper proper]

end Skipping

section Loops

variable {σ : Type} {strict : Bool} {body : σ → BencodeToken → Bytes → Result (σ × Bytes)}
  {state : σ} {rest : Bytes}

theorem untilEnd_round {rounds : Nat} {good : Bool} {token : BencodeToken} {after : Bytes} (more : token ≠ .stop)
    (reads : ∃ read, nextToken input = some read ∧ read.toOption = if good then some (token, after) else none) :
    (untilEnd strict body (rounds + 1) state input).toOption =
      if good then (body state token after).toOption.bind fun next =>
        (untilEnd strict body rounds next.1 next.2).toOption
      else none := by
  obtain ⟨read, found, outcome⟩ := reads
  cases read with
  | error reason =>
    cases good with
    | true => cases outcome
    | false => rw [untilEnd, found]; rfl
  | ok read =>
    cases good with
    | false => cases outcome
    | true =>
      cases outcome
      have step : untilEnd strict body (rounds + 1) state input =
          (body state token after >>= fun next => untilEnd strict body rounds next.1 next.2) := by
        rw [untilEnd, found]
        cases token with
        | stop => exact absurd rfl more
        | dictStart => rfl
        | listStart => rfl
        | integer digits => rfl
        | string bytes => rfl
      rw [step, toOption_bind, if_pos rfl]

/-- What an entry does, if its key is within the limits. -/
def keyed (effect : σ → Bytes × BNode → Option σ) (state : σ) (entry : Bytes × BNode) : Option σ :=
  if entry.1.length ≤ maxStringLen then effect state entry else none

variable {entries : Entries} {items : List BNode}

theorem length_le_flatMap {items : List ι} (nonempty : ∀ item ∈ items, word item ≠ []) :
    items.length ≤ (items.flatMap word).length := by
  induction items with
  | nil => exact Nat.le_refl 0
  | cons item items ih =>
    rw [length_cons, flatMap_cons, length_append]
    have first := length_pos_iff.mpr (nonempty item mem_cons_self)
    have others := ih fun other member => nonempty other (mem_cons_of_mem _ member)
    omega

theorem spellPair_ne_nil (entry : Bytes × BNode) : spellPair entry ≠ [] := by
  simp [spellPair, encodeString]

theorem spell_ne_nil (node : BNode) : spell node ≠ [] := by
  cases node <;> simp [spell, encodeString]

theorem readUntilEnd_run {items : List ι} (effect : σ → ι → Option σ) (nonempty : ∀ item ∈ items, word item ≠ [])
    (each : ∀ item ∈ items, ∀ state rounds input, (untilEnd strict body (rounds + 1) state (word item ++ input)).toOption =
      (effect state item).bind fun next => (untilEnd strict body rounds next input).toOption) :
    (readUntilEnd strict body state (items.flatMap word ++ 101 :: rest)).toOption =
      (items.foldlM effect state).map fun state => (state, rest) := by
  obtain ⟨rounds, enough⟩ : ∃ rounds, (items.flatMap word ++ 101 :: rest).length + 1 = items.length + (rounds + 1) := by
    have size := length_le_flatMap nonempty
    refine ⟨(items.flatMap word ++ 101 :: rest).length - items.length, ?_⟩
    rw [length_append]
    omega
  rw [readUntilEnd, enough]
  clear enough nonempty
  induction items generalizing state with
  | nil => rfl
  | cons item items ih =>
    have order : (item :: items).length + (rounds + 1) = items.length + (rounds + 1) + 1 := by
      rw [length_cons]
      omega
    rw [order, flatMap_cons, append_assoc, each item mem_cons_self, foldlM_cons]
    cases effect state item with
    | none => rfl
    | some next => exact ih fun other member => each other (mem_cons_of_mem _ member)

theorem readUntilEnd_entries_run (effect : σ → Bytes × BNode → Option σ) (each : ∀ entry ∈ entries, ∀ state rest,
      (body state (.string entry.1) (spell entry.2 ++ rest)).toOption = (effect state entry).map fun next => (next, rest)) :
    (readUntilEnd strict body state (entries.flatMap spellPair ++ 101 :: rest)).toOption =
      (entries.foldlM (keyed effect) state).map fun state => (state, rest) := by
  refine readUntilEnd_run (keyed effect) (fun entry _ => spellPair_ne_nil entry) fun entry member state rounds input => ?_
  have key := @nextToken_run (.string entry.1) (spell entry.2 ++ input) (.string entry.1)
  rw [spell] at key
  rw [spellPair, append_assoc, untilEnd_round (by simp [token]) key, keyed, headFits]
  simp only [decide_eq_true_eq]
  split
  case isTrue short =>
    change (body state (.string entry.1) (spell entry.2 ++ input)).toOption.bind _ = _
    rw [each entry member, Option.bind_map]
    rfl
  case isFalse => rfl

theorem readUntilEnd_values_run (effect : σ → BNode → Option σ) (delimited : ∀ item ∈ items, Delimited item)
    (each : ∀ item ∈ items, item.headFits = true → ∀ state rest,
      (body state item.token (item.body ++ rest)).toOption = (effect state item).map fun next => (next, rest)) :
    (readUntilEnd strict body state (items.flatMap spell ++ 101 :: rest)).toOption =
      (items.foldlM (fun state (item : BNode) => if item.headFits then effect state item else none) state).map
        fun state => (state, rest) := by
  refine readUntilEnd_run _ (fun item _ => spell_ne_nil item) fun item member state rounds input => ?_
  rw [untilEnd_round item.token_ne_stop (nextToken_run (delimited item member))]
  cases head : item.headFits with
  | false => rfl
  | true =>
    rw [each item member head, if_pos rfl, if_pos rfl, Option.bind_map]
    rfl

theorem foldlM_guard {step : σ → ι → Option σ} {items : List ι} (apply : σ → ι → σ) (good : ι → Bool)
    (each : ∀ item ∈ items, ∀ state, step state item = if good item then some (apply state item) else none) :
    items.foldlM step state = if items.all good then some (items.foldl apply state) else none := by
  induction items generalizing state with
  | nil => rfl
  | cons item items ih =>
    rw [foldlM_cons, each item mem_cons_self, all_cons, foldl_cons]
    cases good item with
    | false => rfl
    | true => exact ih fun other member => each other (mem_cons_of_mem _ member)

/-- A loop over a dictionary whose body does the same with each entry that is good. -/
theorem readUntilEnd_entries_guard (apply : σ → Bytes × BNode → σ)
    (good : Bytes × BNode → Bool) (short : ∀ entry ∈ entries, entry.1.length ≤ maxStringLen)
    (each : ∀ entry ∈ entries, ∀ state rest, (body state (.string entry.1) (spell entry.2 ++ rest)).toOption =
      if good entry then some (apply state entry, rest) else none) :
    (readUntilEnd strict body state (entries.flatMap spellPair ++ 101 :: rest)).toOption =
      if entries.all good then some (entries.foldl apply state, rest) else none := by
  rw [readUntilEnd_entries_run fun state entry => if good entry then some (apply state entry) else none,
    foldlM_guard apply good]
  · exact Option.map_if
  · intro entry member state
    rw [keyed, if_pos (short entry member)]
  · intro entry member state rest
    rw [each entry member, Option.map_if]

theorem readUntilEnd_entries_ok (apply : σ → Bytes × BNode → σ)
    (short : ∀ entry ∈ entries, entry.1.length ≤ maxStringLen)
    (each : ∀ entry ∈ entries, ∀ state rest, body state (.string entry.1) (spell entry.2 ++ rest) =
      .ok (apply state entry, rest)) :
    readUntilEnd strict body state (entries.flatMap spellPair ++ 101 :: rest) = .ok (entries.foldl apply state, rest) := by
  have all : (entries.all fun _ => true) = true := all_eq_true.mpr fun _ _ => rfl
  rw [← toOption_eq_some, readUntilEnd_entries_guard apply (fun _ => true) short, if_pos all]
  intro entry member state rest
  rw [each entry member]
  rfl

/-- A loop over a list whose body does the same with each item that is good. -/
theorem readUntilEnd_values_guard (apply : σ → BNode → σ) (good : BNode → Bool)
    (proper : ∀ item ∈ items, Proper depth item)
    (each : ∀ item ∈ items, ∀ state rest, (body state item.token (item.body ++ rest)).toOption =
      if good item then some (apply state item, rest) else none) :
    (readUntilEnd strict body state (items.flatMap spell ++ 101 :: rest)).toOption =
      if items.all good then some (items.foldl apply state, rest) else none := by
  rw [readUntilEnd_values_run (fun state item => if good item then some (apply state item) else none)
    (fun item member => delimited_of_proper (proper item member)), foldlM_guard apply good]
  · exact Option.map_if
  · intro item member state
    rw [if_pos (headFits_of_fits (fits_of_proper (proper item member)))]
  · intro item member _ state rest
    rw [each item member, Option.map_if]

end Loops

end BitTorrent
