import MockAgents.Lib.Strings
import MockAgents.Lib.Maps
/-!
# Prompt templates

`expandArgs` of `server.go`, which `prompts/get` calls on the texts and the URIs of a prompt.
-/

namespace MockAgents.Mcp

open Lib Lib.Utf8 Lib.Maps

def placeholder (name : Bytes) : Bytes := bytes "\x7b\x7b" ++ name ++ bytes "\x7d\x7d"

/-- `expandArgs`: one replacement after the other, in the order of a loop over the map. -/
def expandArgs (sh : Shuffle) (s : Bytes) (args : AList fun _ : Bytes => Bytes) : Bytes :=
  (sh.list args.entries).foldl (fun s e => Strings.replaceAll s (placeholder e.1) e.2) s

end MockAgents.Mcp
