/-!
The settings file that is given to users to start from: it says every default, with comments.
-/

namespace SuiteMetrics.Settings

/-- The lines of the settings file. -/
def sampleLines : List String :=
  [
    "# cxlens configuration",
    "#",
    "# Place this file at `cxlens.toml` or `.cxlens/cxlens.toml` in the analyzed",
    "# directory. Every key can be overridden with a CXLENS_ environment variable,",
    "# using `__` between section and key (e.g. CXLENS_PMD__PROGRAM=pmd.bat).",
    "",
    "# Glob patterns for files to skip. EvoSuite scaffolding is not test logic.",
    "exclude = [\"**/*scaffolding*\"]",
    "",
    "[grouping]",
    "# Names of the grouping key columns. A file's key is the first N directory",
    "# components of its path relative to the analyzed root.",
    "labels = [\"dataset\", \"model\", \"project\"]",
    "",
    "[engine]",
    "# \"iterative\" or \"recursive\"",
    "traversal = \"iterative\"",
    "",
    "[pmd]",
    "program = \"pmd\"",
    "args = []",
    "rulesets = [",
    "    \"category/java/design.xml/CognitiveComplexity\",",
    "    \"category/java/design.xml/CyclomaticComplexity\",",
    "]",
    "",
    "[readability]",
    "program = \"java\"",
    "args = [\"-jar\", \"rsm.jar\"]",
    "# working_dir = \"/path/to/readability\"",
    "ignore_prefixes = [\"file\", \"[INFO]\"]",
    "",
    "[output]",
    "# \"text\", \"json\", \"markdown\" or \"csv\"",
    "format = \"text\"",
    ""
  ]

/-- The text of the settings file. -/
def sample : String := "\n".intercalate sampleLines

end SuiteMetrics.Settings
