import NativeBindings.Digest.Sha256
import NativeBindings.SymbolSet
import NativeBindings.Text.Utf8

/-!
# Fingerprints

A fingerprint is a hash value of a stream of framed parts. A text is framed by a zero byte behind
it, and data by its length in front.
-/

namespace NativeBindings.Fingerprint

/-- The frame of a text: its bytes and a zero byte. -/
def frameText (s : String) : List UInt8 := Utf8.encode s.toList ++ [0]

/-- The bytes of a number, `n` of them, lowest first. -/
def littleEndian (n value : Nat) : List UInt8 :=
  (List.range n).map fun i => UInt8.ofNat (value / Nat.pow 256 i)

/-- The frame of data: its length in eight bytes, and the data. -/
def frameData (data : List UInt8) : List UInt8 := littleEndian 8 data.length ++ data

/-- The hash value of a stream, in hexadecimal. -/
def full (stream : List UInt8) : String := Sha256.hex (Sha256.digest stream)

/-- The first sixteen digits of the hash value of a stream. -/
def short (stream : List UInt8) : String := String.ofList ((full stream).toList.take 16)

/-- All that determines a generated file. The files have names without directories, so a tree gives
the same stream wherever it lies. -/
structure Inputs where
  /-- The library that the declarations link to. -/
  library : String
  /-- The symbols that are defined. -/
  symbols : SymbolSet
  /-- The names of the sources and their texts, in order. -/
  files : List (String × String)
  deriving DecidableEq

/-- The stream of the inputs of a generated file: three labelled sections. -/
def Inputs.stream (i : Inputs) : List UInt8 :=
  frameText "library" ++ frameText i.library ++
  frameText "symbols" ++ i.symbols.toList.flatMap frameText ++
  frameText "files" ++ i.files.flatMap fun (name, text) =>
    frameText name ++ frameData (Utf8.encode text.toList)

/-- The fingerprint of the inputs of a generated file. -/
def Inputs.fingerprint (i : Inputs) : String := short i.stream

end NativeBindings.Fingerprint
