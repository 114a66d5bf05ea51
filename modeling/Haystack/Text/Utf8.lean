import Haystack.Bytes

/-!
# UTF-8

Strict decoding accepts exactly the byte strings that some text encodes to. Lenient decoding,
for display, puts one replacement character for every longest piece that starts like a character
but does not end as one.
-/

namespace Haystack.Utf8

def encode (text : List Char) : Bytes :=
  text.flatMap String.utf8EncodeChar

/-- What stands at the start of a byte string. -/
inductive Lead where
  /-- A whole character and what follows it. -/
  | char (c : Char) (rest : Bytes)
  /-- The start of a character that does not go on, and what follows it. -/
  | broken (rest : Bytes)

/-- How a first byte goes on: the number of further bytes, the bits it contributes and the range
of the second byte. Overlong forms, surrogates and numbers past the last code point are excluded
by the range of the second byte. -/
structure Shape where
  further : Nat
  bits : Nat
  low : Nat := 0x80
  high : Nat := 0xBF

/-- The shape of a character by its first byte. -/
def shape? (first : Nat) : Option Shape :=
  if first < 0x80 then some { further := 0, bits := first }
  else if first < 0xC2 then none
  else if first < 0xE0 then some { further := 1, bits := first - 0xC0 }
  else if first = 0xE0 then some { further := 2, bits := 0, low := 0xA0 }
  else if first = 0xED then some { further := 2, bits := 0xD, high := 0x9F }
  else if first < 0xF0 then some { further := 2, bits := first - 0xE0 }
  else if first = 0xF0 then some { further := 3, bits := 0, low := 0x90 }
  else if first < 0xF4 then some { further := 3, bits := first - 0xF0 }
  else if first = 0xF4 then some { further := 3, bits := 4, high := 0x8F }
  else none

/-- Takes up to `further` continuation bytes, the first of them between `low` and `high`. -/
def continueWith (further value low high : Nat) (bytes : Bytes) : Lead :=
  match further, bytes with
  | 0, rest => .char (Char.ofNat value) rest
  | _ + 1, [] => .broken []
  | further + 1, byte :: rest =>
    if low ≤ byte.toNat ∧ byte.toNat ≤ high then
      continueWith further (value * 64 + (byte.toNat - 0x80)) 0x80 0xBF rest
    else .broken (byte :: rest)

/-- The lead of a non-empty byte string, given as first byte and rest. -/
def lead (first : UInt8) (rest : Bytes) : Lead :=
  match shape? first.toNat with
  | none => .broken rest
  | some shape => continueWith shape.further shape.bits shape.low shape.high rest

def Lead.rest : Lead → Bytes
  | .char _ rest => rest
  | .broken rest => rest

theorem length_continueWith_le (further value low high : Nat) (bytes : Bytes) :
    (continueWith further value low high bytes).rest.length ≤ bytes.length := by
  induction further generalizing value low high bytes with
  | zero => simp [continueWith, Lead.rest]
  | succ further ih =>
    cases bytes with
    | nil => simp [continueWith, Lead.rest]
    | cons byte rest =>
      simp only [continueWith]
      split
      · exact Nat.le_trans (ih _ _ _ _) (by simp)
      · simp [Lead.rest]

theorem length_lead_le (first : UInt8) (rest : Bytes) :
    (lead first rest).rest.length ≤ rest.length := by
  simp only [lead]
  split
  · simp [Lead.rest]
  · exact length_continueWith_le _ _ _ _ _

/-- Decodes onto the reversed characters read so far, nothing if some piece is broken. -/
def decodeOnto (done : List Char) : Bytes → Option (List Char)
  | [] => some done.reverse
  | first :: rest =>
    have := length_lead_le first rest
    match h : lead first rest with
    | .broken _ => none
    | .char c after =>
      have : after.length ≤ rest.length := by simpa [h, Lead.rest] using this
      decodeOnto (c :: done) after
  termination_by bytes => bytes.length
  decreasing_by simp only [List.length_cons]; omega

/-- The text that the bytes encode, if they are well formed. -/
def decode? (bytes : Bytes) : Option (List Char) :=
  decodeOnto [] bytes

/-- Decodes onto the reversed characters read so far, with a replacement for each broken piece. -/
def displayOnto (done : List Char) : Bytes → List Char
  | [] => done.reverse
  | first :: rest =>
    have := length_lead_le first rest
    match h : lead first rest with
    | .broken after =>
      have : after.length ≤ rest.length := by simpa [h, Lead.rest] using this
      displayOnto ('\uFFFD' :: done) after
    | .char c after =>
      have : after.length ≤ rest.length := by simpa [h, Lead.rest] using this
      displayOnto (c :: done) after
  termination_by bytes => bytes.length
  decreasing_by all_goals simp only [List.length_cons]; omega

/-- The bytes as text for display: each broken piece becomes one replacement character. -/
def display (bytes : Bytes) : String :=
  String.ofList (displayOnto [] bytes)

end Haystack.Utf8
