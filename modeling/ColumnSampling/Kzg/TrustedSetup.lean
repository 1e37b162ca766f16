import ColumnSampling.Bytes
import ColumnSampling.Json.Form
import ColumnSampling.Json.Parser
import ColumnSampling.Kzg.Backend

/-!
# Trusted setups

A setup is published as a JSON file with three lists of curve points in hexadecimal. It fits the
scheme if the lists have the lengths that blobs of 4096 field elements call for.
-/

namespace ColumnSampling

structure TrustedSetup where
  g1Monomial : List (FixedBytes 48)
  g1Lagrange : List (FixedBytes 48)
  g2Monomial : List (FixedBytes 96)

namespace TrustedSetup

/-- Points in the second group. -/
def g2Points : Nat := 65

/-- A point as hexadecimal text, which may begin with a mark. -/
def point (n : Nat) : JsonForm (FixedBytes n) where
  write b := .text ("0x" ++ Hex.encode b.bytes)
  read
    | .string (.plain s) =>
      let digits := match s.toUTF8.data.toList with
        | 48 :: 120 :: digits => digits
        | digits => digits
      match Hex.decodeList digits with
      | .ok bytes => FixedBytes.ofBytes? ⟨bytes.toArray⟩
      | .error _ => none
    | _ => none

def read (j : Json) : Option TrustedSetup := do
  let field ← JsonForm.fields ["g1_monomial", "g1_lagrange", "g2_monomial"] j
  return { g1Monomial := ← (field "g1_monomial").required (.list (point 48))
           g1Lagrange := ← (field "g1_lagrange").required (.list (point 48))
           g2Monomial := ← (field "g2_monomial").required (.list (point 96)) }

def fits (s : TrustedSetup) : Bool :=
  s.g1Monomial.length = fieldElementsPerBlob && s.g1Lagrange.length = fieldElementsPerBlob &&
    s.g2Monomial.length = g2Points

def load (text : Option String) : Except KzgError TrustedSetup :=
  match text with
  | none => .error (.trustedSetupLoad "Failed to read")
  | some text =>
    match (Json.parse text).bind read with
    | none => .error (.trustedSetupLoad "Failed to parse trusted setup")
    | some setup =>
      if setup.fits then .ok setup else .error (.trustedSetupLoad "Failed to load KZG settings")

end TrustedSetup

end ColumnSampling
