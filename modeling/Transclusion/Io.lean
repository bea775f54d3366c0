/-!
# Failed accesses

* `IoKind` : the ways in which an access to a file or stream fails;
* `IoFault` : a kind with its text.
-/

namespace Transclusion

inductive IoKind where
  | notFound
  | permissionDenied
  | isADirectory
  | notADirectory
  | invalidData
  | invalidFilename
  | invalidInput
  | unexpectedEof
  | linkLoop
  | other
  deriving DecidableEq, Inhabited

/-- A failed access with the text of its cause. -/
structure IoFault where
  kind : IoKind
  text : String
  deriving DecidableEq, Inhabited

namespace IoFault

def notFound : IoFault := ⟨.notFound, "No such file or directory (os error 2)"⟩
def isADirectory : IoFault := ⟨.isADirectory, "Is a directory (os error 21)"⟩
def notADirectory : IoFault := ⟨.notADirectory, "Not a directory (os error 20)"⟩
def nameTooLong : IoFault := ⟨.invalidFilename, "File name too long (os error 36)"⟩
def linkLoop : IoFault := ⟨.linkLoop, "Too many levels of symbolic links (os error 40)"⟩
def nulInName : IoFault := ⟨.invalidInput, "file name contained an unexpected NUL byte"⟩
def notUtf8 : IoFault := ⟨.invalidData, "stream did not contain valid UTF-8"⟩
def notGzip : IoFault := ⟨.invalidInput, "invalid gzip header"⟩
def corruptGzip : IoFault := ⟨.invalidInput, "corrupt deflate stream"⟩
def wrongChecksum : IoFault := ⟨.invalidInput, "corrupt gzip stream does not have a matching checksum"⟩
def endsEarly : IoFault := ⟨.unexpectedEof, "unexpected end of file"⟩

end IoFault
end Transclusion
