import Transclusion.Io

/-!
# Contents

* `Content` : the bytes of a stream, or how reading it fails; `Content.text?` : as a text;
* `Opened` : a content with the path that it was opened from.
-/

namespace Transclusion

/-- The bytes of a stream, or how reading it fails. -/
structure Content where
  bytes : Except IoFault ByteArray

namespace Content

def ofBytes (bytes : ByteArray) : Content := ⟨.ok bytes⟩

def ofText (text : String) : Content := ofBytes text.toUTF8

def unreadable (f : IoFault) : Content := ⟨.error f⟩

def text? (c : Content) : Except IoFault String := do
  match String.fromUTF8? (← c.bytes) with
  | some text => return text
  | none => throw .notUtf8

end Content

structure Opened where
  path : String
  content : Content

end Transclusion
