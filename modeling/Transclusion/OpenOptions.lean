import Transclusion.Args
import Transclusion.Content
import Transclusion.Fault
import Transclusion.Gzip.Reading
import Transclusion.Text.Lower

/-!
# Options of an opening

* `Compression` : whether a stream is packed, perhaps to be inferred from its path;
* `Compression.unpack` : the content under the packing;
* `OpenOptions.check` : mode, compression and encoding of an opening.
-/

namespace Transclusion

inductive Compression where
  | none
  | gzip
  /-- By the ending of the path. -/
  | infer
  deriving DecidableEq, Inhabited

namespace Compression

/-- A compression by its name. The case of ASCII letters does not count. -/
def ofValue : Value → Except Fault Compression
  | .null => .ok none
  | .string s =>
    let lower := Text.toLowerAscii s
    match lower with
    | "none" => .ok none
    | "gzip" | "gz" => .ok gzip
    | "infer" => .ok infer
    | _ => .error (.config (.compressionName lower))
  | other => .error (.config (.compressionShape other))

/-- A path ends in `.gz`, in any case. -/
def isPackedName (path : String) : Bool := ".gz".toList.isSuffixOf (Text.toLowerAscii path).toList

def applies (c : Compression) (path : String) : Bool :=
  match c with
  | none => false
  | gzip => true
  | infer => isPackedName path

/-- The content of a stream, unpacked where that applies. -/
def unpack (c : Compression) (path : String) (content : Content) : Content :=
  if c.applies path then
    match content.bytes with
    | .ok bytes => ⟨(Gzip.decode bytes.toList).map fun l => ⟨l.toArray⟩⟩
    | .error f => .unreadable f
  else content

end Compression

/-! ## All options -/

namespace OpenOptions

/-- The options of every opening, in the order of their positions. -/
def keys : List String := ["mode", "compression", "encoding"]

def isReading (v : Value) : Bool := v.text?.any ["r", "rt", "rb"].contains

def isEncoding (v : Value) : Bool := v.text?.any fun s => ["utf-8", "utf8"].contains (Text.toLowerAscii s)

/-- The compression that an opening asks for, after all its options are checked. `extra` are the
names of further options, which are checked elsewhere. -/
def check (path : String) (args : Args) (extra : List String) : Except Fault Compression := do
  let unknown := args.unknownKeys (keys ++ extra)
  if !unknown.isEmpty then throw (.config (.openKeys path unknown))
  if keys.length < args.positional.length then throw (.config (.openPositions path))
  match args.get? "mode" 0 with
  | some v => if !isReading v then throw (.config (.openMode v))
  | none => pure ()
  match args.get? "encoding" 2 with
  | some v => if !isEncoding v then throw (.config (.encoding v))
  | none => pure ()
  match args.get? "compression" 1 with
  | some v => Compression.ofValue v
  | none => return .none

end OpenOptions
end Transclusion
