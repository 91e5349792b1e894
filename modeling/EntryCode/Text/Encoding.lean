import EntryCode.Text.Utf8

/-!
The encodings in which a text can be kept.
-/

namespace EntryCode.Text

inductive Encoding where
  | utf8
  | utf16le
  | utf16be
  deriving DecidableEq, Repr

namespace Encoding

/-- The units of sixteen bits that stand for a character. -/
def units16 (c : Char) : List (BitVec 16) :=
  let n := c.toNat
  if n < 0x10000 then [BitVec.ofNat 16 n]
  else
    let m := n - 0x10000
    [BitVec.ofNat 16 (0xd800 + m / 0x400), BitVec.ofNat 16 (0xdc00 + m % 0x400)]

def bytes (e : Encoding) (text : String) : Bytes :=
  match e with
  | .utf8 => Text.utf8 text
  | .utf16le => (text.toList.flatMap units16).flatMap (Bytes.ofBits 2)
  | .utf16be => (text.toList.flatMap units16).flatMap fun u => (Bytes.ofBits 2 u).reverse

/-- The character that is kept in place of one. The last two of the first plane have no form of
their own in units of sixteen bits. -/
def keptChar (e : Encoding) (c : Char) : Char :=
  if e ≠ .utf8 ∧ (c.toNat = 0xfffe ∨ c.toNat = 0xffff) then '\ufffd' else c

def kept (e : Encoding) (text : String) : String :=
  text.map e.keptChar

end Encoding

end EntryCode.Text
