/-!
# UTF-8

Bytes are decoded strictly: overlong forms, surrogates and code points past U+10FFFF are faults. A
fault covers the bytes that could have begun a character, and at least one.
-/

namespace Kaleidoscope.Text.Utf8

inductive Reason where
  | startByte
  | continuationByte
  | endOfData
  deriving DecidableEq, Repr

structure Fault where
  reason : Reason
  position : Nat
  length : Nat
  byte : UInt8
  deriving DecidableEq, Repr

def Reason.text : Reason → String
  | .startByte => "invalid start byte"
  | .continuationByte => "invalid continuation byte"
  | .endOfData => "unexpected end of data"

def hexByte (byte : UInt8) : String :=
  let n := byte.toNat
  "0x" ++ (Nat.digitChar (n / 16)).toString ++ (Nat.digitChar (n % 16)).toString

def Fault.message (fault : Fault) : String :=
  let place :=
    if fault.length = 1 then
      "byte " ++ hexByte fault.byte ++ " in position " ++ toString fault.position
    else
      "bytes in position " ++ toString fault.position ++ "-" ++
        toString (fault.position + fault.length - 1)
  "'utf-8' codec can't decode " ++ place ++ ": " ++ fault.reason.text

/-- What a first byte announces: its own bits, the number of bytes behind it, and the bounds of the
next one, which rule out overlong forms, surrogates and what is too large. -/
structure Lead where
  bits : Nat
  following : Nat
  low : Nat
  high : Nat
  deriving DecidableEq, Repr

def lead? (byte : UInt8) : Option Lead :=
  let n := byte.toNat
  if n < 0x80 then some ⟨n, 0, 0x80, 0xBF⟩
  else if n < 0xC2 then none
  else if n < 0xE0 then some ⟨n % 0x20, 1, 0x80, 0xBF⟩
  else if n < 0xF0 then
    some ⟨n % 0x10, 2, if n = 0xE0 then 0xA0 else 0x80, if n = 0xED then 0x9F else 0xBF⟩
  else if n < 0xF5 then
    some ⟨n % 0x08, 3, if n = 0xF0 then 0x90 else 0x80, if n = 0xF4 then 0x8F else 0xBF⟩
  else none

/-- Completes a code point by so many bytes, of which the next has its own bounds: the code point and
the bytes left, or the reason and the number of bytes that fitted. -/
def complete (bits fitted low high : Nat) : Nat → List UInt8 → Except (Reason × Nat) (Nat × List UInt8)
  | 0, rest => .ok (bits, rest)
  | _ + 1, [] => .error (.endOfData, fitted)
  | following + 1, byte :: rest =>
    if low ≤ byte.toNat ∧ byte.toNat ≤ high then
      complete (bits * 64 + byte.toNat % 64) (fitted + 1) 0x80 0xBF following rest
    else .error (.continuationByte, fitted)

theorem length_complete_le {bits fitted low high following : Nat} {bytes rest : List UInt8}
    {code : Nat} (h : complete bits fitted low high following bytes = .ok (code, rest)) :
    rest.length ≤ bytes.length := by
  induction following generalizing bits fitted low high bytes with
  | zero => simp only [complete, Except.ok.injEq, Prod.mk.injEq] at h; simp [h.2]
  | succ following ih =>
    cases bytes with
    | nil => simp [complete] at h
    | cons byte bytes =>
      simp only [complete] at h
      split at h
      · exact Nat.le_succ_of_le (ih h)
      · contradiction

/-- Decodes the bytes from a position on, after the characters already found, the latest first. -/
def decodeFrom (position : Nat) (found : List Char) (bytes : List UInt8) :
    Except Fault (List Char) :=
  match bytes with
  | [] => .ok found.reverse
  | byte :: rest =>
    match lead? byte with
    | none => .error ⟨.startByte, position, 1, byte⟩
    | some lead =>
      match _h : complete lead.bits 1 lead.low lead.high lead.following rest with
      | .error (reason, length) => .error ⟨reason, position, length, byte⟩
      | .ok (code, left) =>
        decodeFrom (position + 1 + lead.following) (Char.ofNat code :: found) left
termination_by bytes.length
decreasing_by exact Nat.lt_succ_of_le (length_complete_le _h)

def decode (bytes : List UInt8) : Except Fault String :=
  String.ofList <$> decodeFrom 0 [] bytes

end Kaleidoscope.Text.Utf8
