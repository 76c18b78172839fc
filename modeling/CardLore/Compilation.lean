import CardLore.Declaration.Parser
import CardLore.Merge.Basic

namespace CardLore

structure Compilation where
  corpus : Option Corpus
  diagnostics : List Diagnostic
  files : List ParsedFile

namespace Compilation

def ok (c : Compilation) : Bool :=
  c.corpus.isSome

def errors (c : Compilation) : List (String × Text) :=
  (c.diagnostics.filter (·.severity = .error)).map fun d =>
    (d.fileName, d.summary)

def ofFiles (files : List ParsedFile) : Compilation :=
  let reading := files.flatMap (·.diagnostics)
  match mergeTrees (files.filterMap (·.tree?)) with
  | .ok corpus =>
    if reading.isEmpty then ⟨some corpus, [], files⟩ else ⟨none, reading, files⟩
  | .error conflicts => ⟨none, reading ++ conflicts.map (·.diagnostic), files⟩

def ofSources (sources : List (String × List Char)) (limit : Nat := defaultLimit) :
    Except Mismatch Compilation := do
  let files ← sources.mapM fun (file, source) => ParsedFile.ofSource file source limit
  return ofFiles files

end Compilation

end CardLore
