import IncrementalLint.Text.Utf8

/-!
# Bytes as text

Commands and tools handle bytes. Their texts are strings in which every character stands for the
byte of its number, so that a text of any bytes can be cut, joined and compared like a string.
-/

namespace IncrementalLint.Raw

def ofBytes (bs : ByteArray) : String := String.ofList (bs.toList.map fun b => Char.ofNat b.toNat)

def toBytes (s : String) : ByteArray :=
  s.foldl (fun bs c => bs.push c.toNat.toUInt8) ByteArray.empty

/-- the bytes of a text -/
def ofText (s : String) : String := ofBytes (Utf8.encode s)

/-- the text that bytes write -/
def toText (s : String) : String := Utf8.decodeLossy (toBytes s)

end IncrementalLint.Raw
