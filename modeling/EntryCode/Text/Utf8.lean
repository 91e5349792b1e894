import EntryCode.Word

/-!
Text as bytes in UTF-8.
-/

namespace EntryCode.Text

def utf8 (text : String) : Bytes :=
  text.toUTF8.data.toList.map UInt8.toBitVec

def ofUtf8? (bytes : Bytes) : Option String :=
  String.fromUTF8? ⟨(bytes.map UInt8.ofBitVec).toArray⟩

def lengthFromFirst (b : Byte) : Nat :=
  if b.toNat < 0x80 then 1
  else if b.toNat < 0xe0 then 2
  else if b.toNat < 0xf0 then 3
  else 4

/-- The characters in some bytes. A byte that is part of none stands for U+FFFD. -/
def charsOfUtf8 : Bytes → List Char
  | [] => []
  | b :: rest =>
    let more := lengthFromFirst b - 1
    match (ofUtf8? (b :: rest.take more)).map String.toList with
    | some [c] => c :: charsOfUtf8 (rest.drop more)
    | _ => '\ufffd' :: charsOfUtf8 rest
termination_by bytes => bytes.length

end EntryCode.Text
