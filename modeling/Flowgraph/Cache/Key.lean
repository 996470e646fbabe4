import Flowgraph.Analysis
import Flowgraph.Sha256

/-!
# Cache keys

The key under which the analysis of a set of files is kept: a digest of the paths and contents, in
the order of the paths.
-/

namespace Flowgraph.Cache

def utf8 (s : String) : List UInt8 := s.toList.flatMap String.utf8EncodeChar

/-- The bytes that stand for a file: its path and its content, each with a zero behind it. -/
def fileBytes (path content : String) : List UInt8 := utf8 path ++ [0] ++ utf8 content ++ [0]

/-- The bytes that stand for a set of files. -/
def stream (files : Contents) : List UInt8 := files.toList.flatMap fun f => fileBytes f.1 f.2

def key (files : Contents) : String := Sha256.hexDigest (stream files)

end Flowgraph.Cache
