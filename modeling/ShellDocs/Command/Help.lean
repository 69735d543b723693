import ShellDocs.Text.Basic

/-!
# Texts of the command

The help, the version, and what a usage error shows before its message. They do not depend on the
width of the terminal.
-/

namespace ShellDocs.Command

/-- The form of a command line. -/
def usageLine : Text := "Usage: docsh [OPTIONS] [DOC_STRINGS]..."

/-- What a usage error shows before its message. -/
def usageHint : Text := usageLine ++ "\nTry 'docsh --help' for help.\n\n"

/-- The lines of the help after the first. -/
def helpLines : List String :=
  ["",
    "  Print documentation for shell functions and scripts.",
    "",
    "  DOC_STRINGS may be a function name, '-' to read the doc-string from stdin, or",
    "  one or more strings that are joined with newlines.",
    "",
    "  Function docs are read from the first lines of the function body: colon lines",
    "  (: \"docs...\";), quoted multi-line strings, or colon here-docs (: <<'EOF' ...",
    "  EOF). A guard test on the first line is skipped.",
    "",
    "  Examples:",
    "      docsh myfunc",
    "      docsh -TD -f myfunc",
    "      docsh -s ~/.bash_lib/myfunc.sh myfunc",
    "      declare -pf myfunc | docsh --defn - -T",
    "",
    "  Exit status:",
    "      0  docs printed",
    "      1  no docs found",
    "      2  usage error",
    "      3  unknown function",
    "      4  malformed here-doc",
    "      5  config error",
    "",
    "Options:",
    "  -D                    Use the first docstring line as description",
    "  -d TEXT               Render this description above the docs",
    "  -f TEXT               Get the doc-strings from this function",
    "  -T                    Render the function name as a title",
    "  --defn FILENAME       Read function definitions (declare -pf output) from",
    "                        FILE, '-' for stdin",
    "  -s, --source PATH     Shell file to source before lookup",
    "  --config PATH         Config file path",
    "  --init-config         Write a default config file and exit",
    "  --color / --no-color  Force styled output on or off",
    "  --pager / --no-pager  Page output on a terminal",
    "  -v, --verbose         Show debug output",
    "  --version             Show the version and exit.",
    "  -h, --help            Show this message and exit."]

/-- The help: the form of a command line, what the program does, and its options. -/
def help : Text :=
  usageLine ++ '\n' :: helpLines.flatMap fun line => line.toList ++ ['\n']

/-- The version. -/
def version : Text := "docsh, version 0.1.0\n"

end ShellDocs.Command
