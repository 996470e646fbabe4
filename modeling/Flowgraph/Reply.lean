import Flowgraph.Json.Parser
import Flowgraph.Text.Slice

/-!
# Replies of a classifier

Reading the JSON of a reply, which may stand in a fenced block.
-/

namespace Flowgraph.Reply

/-- What opens and closes a fenced block. -/
def fence : List Char := List.replicate 3 '\x60'

/-- The text of a reply without the fences around it. -/
def unfence (raw : List Char) : List Char :=
  let text := Text.trim raw
  let text :=
    match Text.dropLead? (fence ++ ['j', 's', 'o', 'n']) text with
    | some rest => rest
    | none => (Text.dropLead? fence text).getD text
  let text := (Text.dropTail? fence (Text.trimEnd text)).getD text
  Text.trim text

/-- The value in a reply, as `read` reads it. -/
def parse? (read : Json → Option α) (raw : String) : Option α :=
  (Json.parse? (String.ofList (unfence raw.toList))).bind read

end Flowgraph.Reply
