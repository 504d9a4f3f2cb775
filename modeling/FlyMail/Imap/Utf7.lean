/-
Mailbox names, as IMAP writes them.

Names are in modified UTF-7: ASCII stands for itself, `&` for the beginning of a run of other
characters, which go up to a `-`, as UTF-16 in base64.  An `&` that is meant is written `&-`.
-/
import FlyMail.Lib.Utf8
import FlyMail.Lib.Utf16
import Mathlib.Algebra.Ring.Nat

namespace FlyMail.Imap

def ampersand : UInt8 := 38

def hyphen : UInt8 := 45

/-! ### Base64 -/

def modifiedBase64 : Bytes :=
  Utf8.encode "ABCDEFGHIJKLMNOPQRSTUVWXYZabcdefghijklmnopqrstuvwxyz0123456789+,".toList

def digit (n : Nat) : UInt8 := modifiedBase64.getD n 0

/-- The digits of three bytes, the last ones of which may have been put in. -/
def quantum (b1 b2 b3 : UInt8) (pad : Nat) : Bytes :=
  let val := b1.toNat * 2 ^ 16 + b2.toNat * 2 ^ 8 + b3.toNat
  [digit (val / 2 ^ 18 % 64), digit (val / 2 ^ 12 % 64)] ++
    (if pad < 2 then [digit (val / 2 ^ 6 % 64)] else []) ++
    (if pad < 1 then [digit (val % 64)] else [])

def encodeModifiedBase64 : Bytes → Bytes
  | [] => []
  | [b1] => quantum b1 0 0 1
  | [b1, b2] => quantum b1 b2 0 2
  | b1 :: b2 :: b3 :: rest => quantum b1 b2 b3 0 ++ encodeModifiedBase64 rest

/-- The digits are read one after another; `val` is what has been read of a byte, in `bits`
bits. -/
def decodeDigits : Nat → Nat → Bytes → Option Bytes
  | _, _, [] => some []
  | val, bits, c :: rest =>
      match modifiedBase64.idxOf? c with
      | none => none
      | some b =>
          let val := val * 2 ^ 6 + b
          let bits := bits + 6
          if bits ≥ 8 then
            (decodeDigits (val % 2 ^ (bits - 8)) (bits - 8) rest).map
              fun more => UInt8.ofNat (val / 2 ^ (bits - 8)) :: more
          else decodeDigits val bits rest

def decodeModifiedBase64 (s : Bytes) : Option Bytes := decodeDigits 0 0 s

/-! ### Runs of other characters -/

def unitBytes (u : Nat) : Bytes := [UInt8.ofNat (u / 2 ^ 8), UInt8.ofNat u]

/-- The units that the bytes make up, two by two. -/
def unitsOf : Bytes → List Nat
  | hi :: lo :: rest => (hi.toNat * 2 ^ 8 + lo.toNat) :: unitsOf rest
  | _ => []

def encodeUTF7Sequence (runes : Text) : Bytes :=
  ampersand :: encodeModifiedBase64 ((Utf16.encode runes).flatMap unitBytes) ++ [hyphen]

def decodeUTF7Sequence (s : Bytes) : Option Bytes :=
  match decodeModifiedBase64 s with
  | none => none
  | some b => if b.length % 2 ≠ 0 then none else some (Utf8.encode (Utf16.decode (unitsOf b)))

/-! ### Names -/

def isASCII (c : Char) : Bool := c.toNat ≤ 0x7F

/-- A character of a name that is not part of a run. -/
def encodeASCII (c : Char) : Bytes := if c = '&' then [ampersand, hyphen] else Utf8.encode [c]

def flushRun (run : Text) : Bytes := if run = [] then [] else encodeUTF7Sequence run

/-- The rest of a name, behind a run. -/
def encodeFrom : Text → Text → Bytes
  | run, [] => flushRun run
  | run, c :: rest =>
      if isASCII c then flushRun run ++ (encodeASCII c ++ encodeFrom [] rest)
      else encodeFrom (run ++ [c]) rest

def encodeUTF7 (s : Text) : Bytes := encodeFrom [] s

/-- A name, of which the first bytes are passed over. -/
def decodeFrom : Nat → Bytes → Option Bytes
  | _, [] => some []
  | n + 1, _ :: rest => decodeFrom n rest
  | 0, c :: rest =>
      if c = ampersand ∧ rest ≠ [] then
        if rest.head? = some hyphen then (decodeFrom 1 rest).map fun more => ampersand :: more
        else
          let sequence := rest.takeWhile fun b => b != hyphen
          if sequence.length = rest.length then none
          else
            match decodeUTF7Sequence sequence with
            | none => none
            | some decoded => (decodeFrom (sequence.length + 1) rest).map fun more => decoded ++ more
      else (decodeFrom 0 rest).map fun more => c :: more

def decodeUTF7 (s : Bytes) : Option Bytes := decodeFrom 0 s

end FlyMail.Imap
