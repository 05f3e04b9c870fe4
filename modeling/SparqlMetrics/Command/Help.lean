import SparqlMetrics.Text.Basic

/-!
# Help texts

What the program prints about its use: a summary when it is called without arguments, and the full
list of options on request.
-/
namespace SparqlMetrics.Help

def lines (strings : List String) : Text := strings.flatMap fun s => utf8 s ++ [Byte.newline]

def summaryLines : List String := [
  "sparqlstats - structural statistics for SPARQL queries",
  "",
  "Usage:",
  "  sparqlstats --query \"<sparql>\" [--format text|json]",
  "  sparqlstats --query-file <file.rq> [--format text|json]",
  "  sparqlstats --lint \"<sparql>\" [--format text|json]",
  "  sparqlstats --dataset <queries.txt> --out <dir> [--prefixes <prefixes.json>]",
  "  sparqlstats --version",
  "",
  "Notes:",
  "  - Dataset lines are question/||\\queryUri/||\\queryText.",
  "  - Upload to a SPARQL endpoint is available when libcurl is available.",
  "  - Exit codes: 0=success, 1=parse/analysis error, 2=CLI/IO usage error.",
  "",
  "Examples:",
  "  sparqlstats --query \"SELECT ?s WHERE \x7b ?s ?p ?o \x7d LIMIT 10\"",
  "  sparqlstats --lint \"SELECT ?s WHERE \x7b ?s ?p\"",
  "  sparqlstats --dataset queries.txt --out analysis --prefixes prefixes.json"]

def optionLines : List String := [
  "Usage: sparqlstats --query \"<sparql>\" [--format text|json]",
  "       sparqlstats --query-file <file.rq> [--format text|json]",
  "       sparqlstats --lint \"<sparql>\" [--format text|json]",
  "       sparqlstats --dataset <queries.txt> --out <dir> [--prefixes <prefixes.json>]",
  "                   [--batch-size <n>] [--export csv|json|ndjson|parquet --export-path <file>]",
  "                   [--upload-endpoint <url> [--upload-user <u>] [--upload-password <p>]",
  "                    [--upload-retries <n>]] [--timeout-ms <n>] [--quiet]",
  "       sparqlstats --version",
  "--query/--query-file print every metric of one query.",
  "--lint validates syntax without computing metrics.",
  "--format json emits metrics or diagnostics as JSON.",
  "--dataset writes <out>/<n>.sparql INSERT statements and <out>/statistics.json.",
  "--prefixes names a JSON object of prefix -> namespace; key \"base\" is the base IRI.",
  "Exit codes: 0=success, 1=parse/analysis error, 2=CLI/IO usage error."]

def summary : Text := lines summaryLines

def options : Text := lines optionLines

end SparqlMetrics.Help
