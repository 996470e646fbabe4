import Flowgraph.Extract
import Flowgraph.Syntax.Ecmascript
import Flowgraph.Syntax.Python
import Flowgraph.Syntax.Rust

/-!
# Parsers by grammar

The parsers that the grammars of the languages define. A text that is only half written has another tree
than other parsers may give it: where a body is not closed, there is no function.
-/

namespace Flowgraph

instance grammarParsers : Parsers where
  python := Python.readSource
  javaScript := Ecmascript.readSource .javaScript
  typeScript := Ecmascript.readSource .typeScript
  tsx := Ecmascript.readSource .tsx
  rust := Rust.readSource

end Flowgraph
