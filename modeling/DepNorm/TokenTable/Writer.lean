import DepNorm.Graph.Basic
import DepNorm.Text.Numeral

/-!
From a graph to a token table, one line of eight columns for each token. A root has the head `0`
and the relation `root`. Any other token has the governor of its first primary edge as head, edges
being sorted by governor and relation. All other edges into the token go to the last column.
-/

namespace DepNorm.TokenTable

/-- What is written about the edges into a token. -/
structure Attachment where
  head : List Char
  relation : List Char
  /-- The edges that the last column lists. -/
  extras : List Edge

def attachment (graph : Graph) (index : Nat) : Attachment :=
  let incoming := Edge.sort Edge.byGovernor (graph.incoming index)
  if index ∈ graph.roots then ⟨['0'], "root".toList, incoming⟩
  else
    match incoming.find? (!·.extra) with
    | some edge =>
      ⟨Text.writeIndex edge.governor, edge.relation.toList, incoming.eraseP (!·.extra)⟩
    | none => ⟨['_'], ['_'], incoming⟩

def writeExtra (edge : Edge) : List Char :=
  Text.writeIndex edge.governor ++ ':' :: edge.relation.toList

def writeExtras : List Edge → List Char
  | [] => ['_']
  | edges => ['|'].intercalate (edges.map writeExtra)

def writeToken (graph : Graph) (token : Token) : List Char :=
  let attachment := attachment graph token.index
  ['\t'].intercalate
    [Text.writeIndex token.index, token.word.toList, token.baseForm.toList, token.tag.toList,
      attachment.head, attachment.relation, (token.operator.getD "_").toList,
      writeExtras attachment.extras]

def write (graph : Graph) : String :=
  String.ofList (graph.tokens.flatMap fun token => writeToken graph token ++ ['\n'])

end DepNorm.TokenTable
