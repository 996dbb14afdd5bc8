set_option autoImplicit false

namespace OrsonHighlight.Cli

inductive Switch where
  | help
  | output
  | format
  | range
  | config
  | debug
  | verbose
  deriving DecidableEq, Repr

namespace Switch

/-- Every spelling, in the order in which they are offered. -/
def spellings : List (String × Switch) :=
  [("-h", help), ("--help", help), ("-o", output), ("--output", output), ("-f", format),
   ("--format", format), ("--range", range), ("--config", config),
   ("--debug", debug), ("-v", verbose), ("--verbose", verbose)]

def ofSpelling? (s : String) : Option Switch := (spellings.find? (·.1 == s)).map (·.2)

def takesValue : Switch → Bool
  | output | format | range | config => true
  | help | debug | verbose => false

def title : Switch → String
  | help => "-h/--help"
  | output => "-o/--output"
  | format => "-f/--format"
  | range => "--range"
  | config => "--config"
  | debug => "--debug"
  | verbose => "-v/--verbose"

end Switch

inductive OutputFormat where
  | spans
  | json
  | html
  | ansi
  deriving DecidableEq, Repr

namespace OutputFormat

def all : List OutputFormat := [spans, json, html, ansi]

def name : OutputFormat → String
  | spans => "spans"
  | json => "json"
  | html => "html"
  | ansi => "ansi"

def ofName? (s : String) : Option OutputFormat := all.find? (·.name == s)

end OutputFormat

def usage : String :=
  "usage: orsonlex [-h] [-o OUTPUT] [-f \x7bspans,json,html,ansi\x7d]\n" ++
  "                [--range START:END] [--config FILE] [--debug] [-v]\n" ++
  "                input\n"

def help : String :=
  usage ++
  "\n" ++
  "Classify the tokens of an Orson source file\n" ++
  "\n" ++
  "positional arguments:\n" ++
  "  input                 Input Orson source file\n" ++
  "\n" ++
  "options:\n" ++
  "  -h, --help            show this help message and exit\n" ++
  "  -o OUTPUT, --output OUTPUT\n" ++
  "                        Output file (default: stdout)\n" ++
  "  -f \x7bspans,json,html,ansi\x7d, --format \x7bspans,json,html,ansi\x7d\n" ++
  "                        Output format (default: spans)\n" ++
  "  --range START:END     Character range to classify (either side may be\n" ++
  "                        omitted)\n" ++
  "  --config FILE         Config file (default: auto-discover orsonlex.toml)\n" ++
  "  --debug               Dump the classification to stderr\n" ++
  "  -v, --verbose         Enable debug logging\n"

end OrsonHighlight.Cli
