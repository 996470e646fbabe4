import Flowgraph.Path
import Flowgraph.Text.Pattern

/-!
# Relevance

Which texts are workflow code: those that use a workflow framework, or a client library of a model
together with a call to it.
-/

namespace Flowgraph.Relevance

open Pattern

/-! ## Patterns -/

/-- A word, blanks, and a further word. -/
def spaced (first second : String) : Pattern := all [text first, blanks1, text second]

/-- A `from` import of a module. -/
def fromImport (module : String) : Pattern :=
  all [text "from", blanks1, text module, blanks1, text "import"]

def openingParenthesis (name : String) : Pattern := all [text name, blanks, text "("]

def quoted (module : String) : Pattern := all [oneOf "'\"", text module]

/-- An import on one line whose module starts with `module` between quotes. -/
def importOf (module : String) : Pattern :=
  all [text "import", blanks1, many (noneOf "\n"), text "from", blanks1, quoted module]

def importFrom (module : String) : Pattern := .seq (importOf module) (oneOf "'\"")

def fromQuoted (module : String) : Pattern :=
  all [text "from", blanks1, quoted module, oneOf "'\""]

/-- The signs of a client library of a model. -/
def clientPatterns : List Pattern :=
  [fromImport "openai", spaced "import" "openai", openingParenthesis "OpenAI", importFrom "openai",
    fromImport "anthropic", spaced "import" "anthropic", openingParenthesis "Anthropic",
    importFrom "@anthropic-ai/sdk", spaced "import" "google.generativeai", text "genai.configure",
    text "genai.GenerativeModel", fromQuoted "@google/generative-ai", text "GoogleGenerativeAI",
    fromImport "groq", spaced "import" "groq", openingParenthesis "Groq", importFrom "groq-sdk",
    fromImport "ollama", spaced "import" "ollama", importFrom "ollama", spaced "import" "cohere",
    text "cohere.Client", fromQuoted "cohere-ai", fromImport "huggingface_hub",
    text "InferenceClient", fromQuoted "@huggingface/inference"]

/-- The signs of a call to a model. -/
def modelCallPatterns : List Pattern :=
  [".chat.completions.create", ".completions.create", ".messages.create", ".generate_content",
    ".generateContent", ".chat(", ".generate("].map text

/-- The workflow frameworks with their signs, in order of precedence. -/
def frameworks : List (String × List Pattern) :=
  [("langgraph", [spaced "from" "langgraph", importFrom "@langchain/langgraph", text "StateGraph",
      text "MessageGraph"]),
    ("mastra", [spaced "from" "mastra", importFrom "mastra", text "@mastra/"]),
    ("langchain", [spaced "from" "langchain", importOf "@langchain", text "LLMChain",
      text "SequentialChain"]),
    ("crewai", [spaced "from" "crewai", importFrom "crewai", openingParenthesis "Crew"])]

/-- The client libraries that are named where no framework is used, in order of precedence. -/
def clients : List (String × List Pattern) :=
  [("openai", [fromImport "openai", spaced "import" "openai", openingParenthesis "OpenAI"]),
    ("anthropic",
      [fromImport "anthropic", spaced "import" "anthropic", openingParenthesis "Anthropic"]),
    ("gemini", [spaced "import" "google.generativeai", text "genai.", text "GoogleGenerativeAI"]),
    ("groq", [fromImport "groq", spaced "import" "groq", openingParenthesis "Groq"]),
    ("ollama", [fromImport "ollama", spaced "import" "ollama"])]

/-! ## Decisions -/

def occursAny (ps : List Pattern) (code : List Char) : Bool := ps.any (·.occursIn code)

/-- The first name of which a sign occurs. -/
def firstNamed (table : List (String × List Pattern)) (code : List Char) : Option String :=
  (table.find? fun entry => occursAny entry.2 code).map Prod.fst

/-- Whether a text is workflow code. -/
def isWorkflow (code : String) : Bool :=
  (occursAny clientPatterns code.toList && occursAny modelCallPatterns code.toList) ||
    (firstNamed frameworks code.toList).isSome

/-- The framework a text is built on, or else its client library. -/
def framework? (code : String) : Option String :=
  match firstNamed frameworks code.toList with
  | some name => some name
  | none =>
    match firstNamed clients code.toList with
    | some name => some name
    | none => if isWorkflow code then some "generic-llm" else none

/-- The extensions of the files that can be analyzed. -/
def analyzableExtensions : List String := ["py", "ts", "js", "tsx", "jsx"]

/-- Whether the file at `path` can be analyzed. -/
def isAnalyzable (path : String) : Bool :=
  match Path.extension? path with
  | some ext => analyzableExtensions.contains ext
  | none => false

/-- Whether the file at `path` is workflow code that can be analyzed. -/
def isWorkflowFile (path content : String) : Bool := isAnalyzable path && isWorkflow content

end Flowgraph.Relevance
