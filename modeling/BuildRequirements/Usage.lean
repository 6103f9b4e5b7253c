import BuildRequirements.Discovery

namespace BuildRequirements

def usage : String :=
  "\n".intercalate
    ["Usage: " ++ generator ++ " [options] REQUIREMENTS_FILE...",
      "",
      "Find build dependencies for all your runtime dependencies. The input must be",
      "a requirements.txt file containing all the *recursive* runtime dependencies",
      "(pip-compile can generate one). The output is an intermediate file that must",
      "go through pip-compile before it is used as a lockfile.",
      "",
      "Options:",
      "  -o, --output-file FILE    Write output to this file",
      "  -a, --append              Append to the output file instead of overwriting",
      "  --no-cache                Do not use pip cache when downloading packages",
      "  --ignore-errors           Generate partial output even if pip download fails",
      "  --only-write-on-update    Only write the output file if dependencies changed (or,",
      "                            with --append, if new dependencies were found)",
      "  -h, --help                Show this help message",
      "",
      "Environment:",
      "  FIND_BUILDDEPS_PIP        Downloader command (default: pip)",
      "  FIND_BUILDDEPS_TMPDIR     Parent directory for scratch workspaces",
      "  FIND_BUILDDEPS_LOG_LEVEL  debug | info | warn | error (default: info)"]

end BuildRequirements
