import DepNorm.Proofs.TokenTable.RoundTrip

/-!
Graphs that a table can hold, however they were made. A table says nothing of weights, nor which
edges a rule has made, so what is written of a graph is written of the graph with all edges as the
parser makes them. If that graph can be read back, nothing is lost of the first one but weights and
origins of edges.
-/

namespace DepNorm

open DepNorm.Graph

/-! ### Edges as the parser makes them -/

/-- The edge as it comes from a parser: only its key is kept. -/
def Edge.plain (edge : Edge) : Edge := { edge with weight := .one, synthetic := false }

theorem Edge.parsed_plain (edge : Edge) : edge.plain.Parsed := ⟨rfl, rfl⟩

@[simp] theorem Edge.key_plain (edge : Edge) : edge.plain.key = edge.key := rfl

namespace Graph

variable {graph : Graph} {edge : Edge} {index : Nat}

def plain (graph : Graph) : Graph :=
  { graph with arcs := graph.arcs.map fun arc => (arc.1, arc.2.plain) }

theorem edges_plain : graph.plain.edges = graph.edges.map Edge.plain := by
  simp [plain, edges]

theorem mem_edges_plain : edge ∈ graph.plain.edges ↔ ∃ old ∈ graph.edges, old.plain = edge := by
  rw [edges_plain, List.mem_map]

@[simp] theorem keys_plain : graph.plain.keys = graph.keys := by
  ext key
  simp [mem_keys, mem_edges_plain]

theorem incoming_plain : graph.plain.incoming index = (graph.incoming index).map Edge.plain := by
  rw [incoming, incoming, edges_plain, List.filter_map]
  rfl

theorem WellFormed.plain (h : graph.WellFormed) : graph.plain.WellFormed where
  tokens_ascending := h.tokens_ascending
  numbers_ascending := List.pairwise_map.mpr h.numbers_ascending
  roots_ascending := h.roots_ascending
  number_lt := List.forall_mem_map.mpr h.number_lt
  keys_distinct := by
    rw [edges_plain]
    exact List.pairwise_map.mpr h.keys_distinct
  governor_mem := by
    rw [edges_plain]
    exact List.forall_mem_map.mpr h.governor_mem
  dependent_mem := by
    rw [edges_plain]
    exact List.forall_mem_map.mpr h.dependent_mem
  root_mem := h.root_mem

end Graph

namespace TokenTable

variable {graph : Graph} {edge : Edge} {index : Nat}

/-! ### What is written of an edge -/

theorem sort_plain (edges : List Edge) :
    Edge.sort Edge.byGovernor (edges.map Edge.plain) =
      (Edge.sort Edge.byGovernor edges).map Edge.plain := by
  refine (List.map_mergeSort (f := Edge.plain) fun edge _ other _ => ?_).symm
  rfl

theorem writeExtras_plain (edges : List Edge) :
    writeExtras (edges.map Edge.plain) = writeExtras edges := by
  cases edges with
  | nil => rfl
  | cons edge edges =>
      rw [writeExtras_of_ne_nil (by simp), writeExtras_of_ne_nil (by simp), List.map_map]
      rfl

theorem attachment_plain (graph : Graph) (index : Nat) :
    attachment graph.plain index =
      { attachment graph index with extras := (attachment graph index).extras.map Edge.plain } := by
  have hroots : graph.plain.roots = graph.roots := rfl
  have hprimary : (fun edge : Edge => !edge.extra) ∘ Edge.plain = fun edge => !edge.extra := rfl
  simp only [attachment, hroots, incoming_plain, sort_plain, List.find?_map, hprimary,
    List.eraseP_map]
  split
  · rfl
  · cases (Edge.sort Edge.byGovernor (graph.incoming index)).find? (!·.extra) <;> rfl

theorem write_plain (graph : Graph) : write graph.plain = write graph := by
  have hline (token : Token) : writeToken graph.plain token = writeToken graph token := by
    simp only [writeToken, attachment_plain, writeExtras_plain]
  have htokens : graph.plain.tokens = graph.tokens := rfl
  simp only [write, htokens, hline]

/-! ### Graphs that a table can hold -/

instance (field : List Char) : Decidable (IsField field) :=
  decidable_of_iff ('\t' ∉ field ∧ '\n' ∉ field)
    ⟨fun h => ⟨h.1, h.2⟩, fun h => ⟨h.no_tab, h.no_feed⟩⟩

instance (token : Token) : Decidable token.Writable :=
  decidable_of_iff
    (token.index ≠ 0 ∧ token.index < Text.indexBound ∧ IsField token.word.toList ∧
      IsField token.baseForm.toList ∧ IsField token.tag.toList ∧
      ∀ mark ∈ token.operator, mark ≠ "_" ∧ IsField mark.toList)
    ⟨fun ⟨hzero, hlt, hword, hbase, htag, hmark⟩ => ⟨hzero, hlt, hword, hbase, htag, hmark⟩,
      fun h => ⟨h.index_ne_zero, h.index_lt, h.word, h.baseForm, h.tag, h.operator⟩⟩

/-- A relation in the list of the secondary edges: it cannot have the character that separates
them, and the end of a line must not be white space. -/
structure IsSecondary (relation : List Char) : Prop where
  no_bar : '|' ∉ relation
  no_blank : ∀ last ∈ relation.getLast?, isBlank last = false

instance (relation : List Char) : Decidable (IsSecondary relation) :=
  decidable_of_iff ('|' ∉ relation ∧ relation.getLast?.all (!isBlank ·) = true)
    ⟨fun h => ⟨h.1, by simpa [Option.all_eq_true] using h.2⟩,
      fun h => ⟨h.no_bar, by simpa [Option.all_eq_true] using h.no_blank⟩⟩

theorem IsSecondary.trimEnd_eq {relation : List Char} (h : IsSecondary relation) :
    Text.trimEnd relation = relation := by
  rcases List.eq_nil_or_concat relation with rfl | ⟨front, last, rfl⟩
  · rfl
  · rw [List.concat_eq_append] at h ⊢
    exact Text.trimEnd_append_cons (h.no_blank last (by simp)) front []

/-- Tokens and relations fit into their columns, and each token has one head at most. Nothing is
asked of weights and origins of edges. -/
structure Representable (graph : Graph) : Prop where
  token : ∀ token ∈ graph.tokens, token.Writable
  relation : ∀ edge ∈ graph.edges, IsField edge.relation.toList
  secondary : ∀ edge ∈ graph.edges, edge.extra = true → IsSecondary edge.relation.toList
  head_unique : ∀ edge ∈ graph.edges, ∀ other ∈ graph.edges, edge.extra = false →
    other.extra = false → edge.dependent = other.dependent → edge = other
  root_headless : ∀ edge ∈ graph.edges, edge.extra = false → edge.dependent ∉ graph.roots

instance (graph : Graph) : Decidable (Representable graph) :=
  decidable_of_iff
    ((∀ token ∈ graph.tokens, token.Writable) ∧
      (∀ edge ∈ graph.edges, IsField edge.relation.toList) ∧
      (∀ edge ∈ graph.edges, edge.extra = true → IsSecondary edge.relation.toList) ∧
      (∀ edge ∈ graph.edges, ∀ other ∈ graph.edges, edge.extra = false → other.extra = false →
        edge.dependent = other.dependent → edge = other) ∧
      ∀ edge ∈ graph.edges, edge.extra = false → edge.dependent ∉ graph.roots)
    ⟨fun ⟨htoken, hrelation, hsecondary, hunique, hroot⟩ =>
        ⟨htoken, hrelation, hsecondary, hunique, hroot⟩,
      fun h => ⟨h.token, h.relation, h.secondary, h.head_unique, h.root_headless⟩⟩

theorem Representable.tabular_plain (h : Representable graph) (hwf : graph.WellFormed) :
    graph.plain.Tabular := by
  constructor
  case wellFormed => exact hwf.plain
  case token => exact h.token
  case edge =>
    intro edge hedge
    obtain ⟨old, hold, rfl⟩ := mem_edges_plain.mp hedge
    exact ⟨old.parsed_plain, h.relation old hold,
      fun hextra => (h.secondary old hold hextra).no_bar⟩
  case head_unique =>
    intro edge hedge other hother hextra hextra' hdependent
    obtain ⟨old, hold, rfl⟩ := mem_edges_plain.mp hedge
    obtain ⟨old', hold', rfl⟩ := mem_edges_plain.mp hother
    rw [h.head_unique old hold old' hold' hextra hextra' hdependent]
  case root_headless =>
    intro edge hedge hextra
    obtain ⟨old, hold, rfl⟩ := mem_edges_plain.mp hedge
    exact h.root_headless old hold hextra

theorem Representable.reread_eq (h : Representable graph) (hwf : graph.WellFormed)
    (hedge : edge ∈ graph.plain.edges) : reread graph.plain edge = edge := by
  unfold reread
  split
  · next hlast =>
    obtain ⟨-, -, hextra⟩ :=
      (mem_attachment_extras (h.tabular_plain hwf)).mp (List.mem_of_getLast? hlast)
    obtain ⟨old, hold, rfl⟩ := mem_edges_plain.mp hedge
    exact trimmed_eq_iff.mpr (h.secondary old hold hextra).trimEnd_eq
  · rfl

/-- A graph that a table can hold is read back with each edge as the parser would have made it. -/
theorem Representable.exists_read_write (h : Representable graph) (hwf : graph.WellFormed) :
    ∃ again, read (write graph) = .ok again ∧ again.tokens = graph.tokens ∧
      again.roots = graph.roots ∧ again.keys = graph.keys := by
  have htabular := h.tabular_plain hwf
  obtain ⟨again, hread, hdescribes⟩ := TokenTable.exists_read_write htabular
  have htokens : again.tokens = graph.plain.tokens := tokens_eq_of_describes htabular hdescribes
  have hroots : again.roots = graph.plain.roots := roots_eq_of_describes htabular hdescribes
  have hkeys : again.keys = graph.plain.keys := by
    ext key
    simp only [mem_keys, mem_edges_of_describes htabular hdescribes]
    constructor
    · rintro ⟨edge, ⟨old, hold, rfl⟩, rfl⟩
      exact ⟨old, hold, congrArg Edge.key (h.reread_eq hwf hold).symm⟩
    · rintro ⟨edge, hedge, rfl⟩
      exact ⟨edge, ⟨edge, hedge, h.reread_eq hwf hedge⟩, rfl⟩
  exact ⟨again, write_plain graph ▸ hread, htokens, hroots, hkeys.trans keys_plain⟩

/-- Whatever operations and rules have made of a graph, if a table can hold it then reading what is
written of it succeeds and gives its tokens, its roots and the keys of its edges. -/
theorem recovered_of_representable (h : graph.Reachable) (hgraph : Representable graph) :
    ∃ again, read (write graph) = .ok again ∧ again.tokens = graph.tokens ∧
      again.roots = graph.roots ∧ again.keys = graph.keys :=
  hgraph.exists_read_write h.wellFormed

/-- Texts with a comment sign, white space, a carriage return and nothing at all, marks of operators
that are empty, relations with colons, and tokens that only a secondary edge enters or none. Two
edges differ only in that one of them is secondary. The edge between the first two tokens has been
turned round by the rule for operators at the root. -/
def oddTexts : List Operation :=
  [.insertToken { index := 3, word := "#no\r", baseForm := "", tag := " ", operator := some "" },
   .insertToken { index := 7, word := "", baseForm := "_", tag := "#", operator := some "no" },
   .insertToken { index := 8, word := "a:b|c\r", baseForm := "0", tag := "_" },
   .insertToken { index := 9, word := "end", baseForm := "end", tag := "" },
   .addRoot 3,
   .addEdge { governor := 3, dependent := 7, relation := "dep", weight := .zero },
   .operatorRoot,
   .addEdge { governor := 7, dependent := 8, relation := "nmod:of:" },
   .addEdge { governor := 7, dependent := 8, relation := "nmod:of:", extra := true },
   .addEdge { governor := 3, dependent := 8, relation := "", extra := true },
   .addEdge { governor := 8, dependent := 9, relation := " conj", extra := true }]

/-- The graph of `oddTexts` is read back, with the edge that the rule has made. -/
theorem recovered_oddTexts :
    let graph := oddTexts.foldl (fun graph op => op.on graph) {}
    graph.Reachable ∧ Representable graph ∧
      { governor := 7, dependent := 3, relation := "op" } ∈ graph.keys ∧
      ∃ again, read (write graph) = .ok again ∧ again.tokens = graph.tokens ∧
        again.roots = graph.roots ∧ again.keys = graph.keys := by
  intro graph
  have hreachable : graph.Reachable := Reachable.empty.run oddTexts
  have hrepresentable : Representable graph := by decide +kernel
  refine ⟨hreachable, hrepresentable, ?_, recovered_of_representable hreachable hrepresentable⟩
  exact ⟨{ Edge.made 7 3 "op" with weight := .zero }, by decide +kernel, rfl⟩

end TokenTable

end DepNorm
