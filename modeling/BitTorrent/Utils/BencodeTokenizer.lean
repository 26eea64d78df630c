import BitTorrent.Utils.Bencode

/-! # Bencode tokens

`utils/bencode_tokenizer.rs`, and the loops over tokens of the torrent parser.  The position of
a tokenizer is the list of the bytes that are left.  A loop reads a token in each round, so it
carries a bound on the rounds, of which the bytes left are enough.
-/

namespace BitTorrent

open Bencode

inductive BencodeToken where
  | dictStart
  | listStart
  | stop
  | integer (digits : Bytes)
  | string (bytes : Bytes)
deriving DecidableEq

/-- Nothing at the end of the input. -/
def nextToken : Bytes → Option (Result (BencodeToken × Bytes))
  | [] => none
  | byte :: input =>
    if byte = 100 then some (.ok (.dictStart, input))
    else if byte = 108 then some (.ok (.listStart, input))
    else if byte = 101 then some (.ok (.stop, input))
    else if byte = 105 then some ((readInteger input).map fun read => (.integer read.1, read.2))
    else if isDigit byte then some ((decodeString (byte :: input)).map fun read => (.string read.1, read.2))
    else some (.error (.bencode (.invalidByte byte)))

/-- The next token, where the input must not end. -/
def expectToken (input : Bytes) : Result (BencodeToken × Bytes) :=
  match nextToken input with
  | none => .error (.bencode .unexpectedEnd)
  | some result => result

def depthAfter (depth : Nat) : BencodeToken → Nat
  | .dictStart | .listStart => depth + 1
  | .stop => depth - 1
  | _ => depth

def skipNested : Nat → Nat → Bytes → Result Bytes
  | 0, _, _ => .error (.bencode .unexpectedEnd)
  | rounds + 1, depth, input => do
      let (token, input) ← expectToken input
      if depthAfter depth token = 0 then return input
      else skipNested rounds (depthAfter depth token) input

/-- Leaves the value that starts with `token` behind. -/
def skipValue (token : BencodeToken) (input : Bytes) : Result Bytes :=
  match token with
  | .dictStart | .listStart => skipNested (input.length + 1) 1 input
  | _ => .ok input

section Loop

variable {σ : Type} (strict : Bool) (body : σ → BencodeToken → Bytes → Result (σ × Bytes))

/-- Runs `body` on each token up to the end token.  A `while let` loop also stops at the end of
the input, where a `loop` fails. -/
def untilEnd : Nat → σ → Bytes → Result (σ × Bytes)
  | 0, _, _ => .error (.bencode .unexpectedEnd)
  | rounds + 1, state, input =>
    match nextToken input with
    | none => if strict then .error (.bencode .unexpectedEnd) else .ok (state, [])
    | some (.error reason) => .error reason
    | some (.ok (.stop, input)) => .ok (state, input)
    | some (.ok (token, input)) => do
        let (state, input) ← body state token input
        untilEnd rounds state input

/-- A loop from the current position on. -/
def readUntilEnd (state : σ) (input : Bytes) : Result (σ × Bytes) :=
  untilEnd strict body (input.length + 1) state input

end Loop

variable {bytes input : Bytes}

section Tokens

variable {rest : Bytes} {result : BencodeToken × Bytes}

@[simp]
theorem nextToken_dictStart : nextToken (100 :: rest) = some (.ok (.dictStart, rest)) := rfl

@[simp]
theorem nextToken_listStart : nextToken (108 :: rest) = some (.ok (.listStart, rest)) := rfl

@[simp]
theorem nextToken_stop : nextToken (101 :: rest) = some (.ok (.stop, rest)) := rfl

theorem nextToken_digit {first : UInt8} (digit : isDigit first = true) :
    nextToken (first :: rest) = some ((decodeString (first :: rest)).map fun read => (.string read.1, read.2)) := by
  have notDict : first ≠ 100 := ne_of_isDigit digit (by decide)
  have notList : first ≠ 108 := ne_of_isDigit digit (by decide)
  have notStop : first ≠ 101 := ne_of_isDigit digit (by decide)
  have notInteger : first ≠ 105 := ne_of_isDigit digit (by decide)
  rw [nextToken, if_neg notDict, if_neg notList, if_neg notStop, if_neg notInteger, if_pos digit]

theorem decodeString_encodeString {read : Bytes × Bytes}
    (decoded : decodeString (encodeString bytes ++ rest) = .ok read) : read = (bytes, rest) := by
  obtain ⟨front, back⟩ := @takeWhile_append_stop _ isDigit (decimal bytes.length) 58 (bytes ++ rest)
    (decimal_all_isDigit _) (by decide)
  rw [encodeString, List.append_assoc, List.cons_append] at decoded
  simp only [decodeString, front, back, decodeString.finish, decimalValue_decimal, Option.getD_some, ne_eq, not_true,
    if_false] at decoded
  obtain ⟨_, decoded⟩ := guard_eq_ok.mp decoded
  obtain ⟨_, decoded⟩ := guard_eq_ok.mp decoded
  obtain ⟨_, decoded⟩ := guard_eq_ok.mp decoded
  obtain ⟨_, decoded⟩ := guard_eq_ok.mp decoded
  cases decoded
  simp

theorem expectToken_eq_ok : expectToken input = .ok result ↔ nextToken input = some (.ok result) := by
  rw [expectToken]
  cases nextToken input with
  | none => simp
  | some read => simp

theorem nextToken_ne_none (nonempty : input ≠ []) : nextToken input ≠ none := by
  cases input with
  | nil => exact absurd rfl nonempty
  | cons byte input =>
    simp only [nextToken]
    repeat' split
    all_goals simp

end Tokens

end BitTorrent
