import DepNorm.Proofs.Graph.Heads
import DepNorm.Proofs.Graph.Incoming
import DepNorm.Proofs.Graph.Reachable
import DepNorm.Proofs.TokenTable.Rows

/-!
What the graph of a table is made of. Its tokens are those of the rows, its edges are those that the
rows name, each of them once, and its roots are the tokens of the rows that have the head of a root.
Rows make a graph if every head that they name is the index of a row.
-/

namespace DepNorm

open DepNorm.Graph Outcome

namespace Graph

/-- The graph can stand in a table: each token has one head at most. -/
structure Tabular (graph : Graph) : Prop where
  wellFormed : graph.WellFormed
  token : ∀ token ∈ graph.tokens, token.Writable
  edge : ∀ edge ∈ graph.edges, edge.Writable
  head_unique : ∀ edge ∈ graph.edges, ∀ other ∈ graph.edges, edge.extra = false →
    other.extra = false → edge.dependent = other.dependent → edge = other
  root_headless : ∀ edge ∈ graph.edges, edge.extra = false → edge.dependent ∉ graph.roots

theorem Tabular.oneHead {graph : Graph} (h : graph.Tabular) (index : Nat) :
    graph.OneHead index := by
  constructor
  · rintro _ ⟨edge, hedge, rfl⟩ _ ⟨other, hother, rfl⟩ hextra hextra' hinto hinto'
    rw [h.head_unique edge hedge other hother hextra hextra' (hinto.trans hinto'.symm)]
  · rintro hroot _ ⟨edge, hedge, rfl⟩ rfl
    by_contra hextra
    exact h.root_headless edge hedge (Bool.eq_false_iff.mpr hextra) hroot

end Graph

namespace TokenTable

variable {graph next : Graph}

/-- The graph has the tokens, the edges and the roots of the rows. -/
structure Describes (rows : List Row) (graph : Graph) : Prop where
  wellFormed : graph.WellFormed
  mem_tokens : ∀ token, token ∈ graph.tokens ↔ ∃ row ∈ rows, row.token = token
  mem_edges : ∀ edge, edge ∈ graph.edges ↔ ∃ row ∈ rows, edge ∈ row.edges
  mem_roots : ∀ index, index ∈ graph.roots ↔
    ∃ row ∈ rows, row.head = .root ∧ row.token.index = index

/-! ### Tokens and roots -/

theorem mem_tokens_insertToken {token other : Token} :
    other ∈ (graph.insertToken token).tokens ↔
      other = token ∨ other ∈ graph.tokens ∧ other.index ≠ token.index := by
  simp only [insertToken, List.mem_append, List.mem_cons, List.mem_filter, decide_eq_true_eq]
  grind

theorem mem_tokens_foldl_insertToken {rows : List (Nat × Row)}
    (hdistinct : rows.Pairwise (·.2.token.index ≠ ·.2.token.index))
    (hnew : ∀ row ∈ rows, row.2.token.index ∉ graph) {token : Token} :
    token ∈ (rows.foldl (fun graph row => graph.insertToken row.2.token) graph).tokens ↔
      token ∈ graph.tokens ∨ ∃ row ∈ rows, row.2.token = token := by
  induction hdistinct generalizing graph with
  | nil => simp
  | @cons row rows hrow _ ih =>
      have hrows : ∀ other ∈ rows, other.2.token.index ∉ graph.insertToken row.2.token := by
        intro other hother hmem
        rcases mem_insertToken.mp hmem with heq | hmem
        · exact hrow other hother heq.symm
        · exact hnew other (List.mem_cons_of_mem _ hother) hmem
      have hkept : token ∈ graph.tokens → token.index ≠ row.2.token.index := fun htoken heq =>
        hnew row List.mem_cons_self (heq ▸ ⟨token, htoken, rfl⟩)
      rw [List.foldl_cons, ih hrows, mem_tokens_insertToken]
      simp only [List.mem_cons, exists_eq_or_imp]
      grind

theorem foldl_insertToken (rows : List (Nat × Row)) (graph : Graph) :
    let extended := rows.foldl (fun graph row => graph.insertToken row.2.token) graph
    extended.edges = graph.edges ∧ extended.roots = graph.roots := by
  induction rows generalizing graph with
  | nil => exact ⟨rfl, rfl⟩
  | cons row rows ih => exact ih _

theorem foldl_markRoot (rows : List (Nat × Row)) (graph : Graph) :
    let marked := rows.foldl (fun graph row => graph.markRoot row.2.token.index) graph
    marked.tokens = graph.tokens ∧ marked.edges = graph.edges ∧
      ∀ index, index ∈ marked.roots ↔
        index ∈ graph.roots ∨ ∃ row ∈ rows, row.2.token.index = index := by
  induction rows generalizing graph with
  | nil => simp
  | cons row rows ih =>
      obtain ⟨htokens, hedges, hroots⟩ := ih (graph.markRoot row.2.token.index)
      refine ⟨htokens, hedges, fun index => ?_⟩
      rw [List.foldl_cons, hroots, mem_roots_markRoot]
      simp only [List.mem_cons, exists_eq_or_imp]
      grind

/-! ### Edges -/

theorem appends_addEdges {line : Nat} {edges : List Edge} (hgraph : graph.WellFormed)
    (h : addEdges line graph edges = .ok next) : Appends edges graph next := by
  refine of_foldlM_eq_ok (P := fun done mid => Appends done graph mid)
    (fun done mid after edge _ hmid hmove => ?_) (.refl hgraph) h
  split at hmove
  · next number result hadd =>
    cases hmove
    exact hmid.append (appends_addEdge hmid.wellFormed hadd)
  · cases hmove

/-- What the edges of all rows, added row by row, make of a graph. -/
theorem appends_rows {rows : List (Nat × Row)} (hgraph : graph.WellFormed)
    (h : rows.foldlM (fun graph row => addEdges row.1 graph row.2.edges) graph = .ok next) :
    Appends (rows.flatMap fun row => row.2.edges) graph next := by
  have hmove (done : List (Nat × Row)) (mid after : Graph) (row : Nat × Row) (_ : row ∈ rows)
      (hmid : Appends (done.flatMap fun row => row.2.edges) graph mid)
      (hmove : addEdges row.1 mid row.2.edges = .ok after) :
      Appends ((done ++ [row]).flatMap fun row => row.2.edges) graph after := by
    simpa using hmid.append (appends_addEdges hmid.wellFormed hmove)
  refine of_foldlM_eq_ok hmove ?_ h
  exact .refl hgraph

/-- Of edges that come from the parser, none is lost: if the key of one is there already, the edge
there is the edge itself. -/
theorem mem_foldl_append {edges added : List Edge} {edge : Edge}
    (hedges : ∀ edge ∈ edges, edge.Parsed) (hadded : ∀ edge ∈ added, edge.Parsed) :
    edge ∈ added.foldl Edge.append edges ↔ edge ∈ edges ∨ edge ∈ added := by
  induction added generalizing edges with
  | nil => simp
  | cons new added ih =>
      obtain ⟨hnew, hadded⟩ := List.forall_mem_cons.mp hadded
      have hmem (edge : Edge) : edge ∈ Edge.append edges new ↔ edge ∈ edges ∨ edge = new := by
        unfold Edge.append
        split
        · next hkey =>
          obtain ⟨other, hother, hkey⟩ := List.mem_map.mp hkey
          cases (hedges other hother).eq_of_key_eq hnew hkey
          exact ⟨.inl, fun hmem => hmem.elim id fun heq => heq ▸ hother⟩
        · rw [List.mem_append, List.mem_singleton]
      have hedges : ∀ edge ∈ Edge.append edges new, edge.Parsed := fun edge hedge =>
        ((hmem edge).mp hedge).elim (hedges edge) fun heq => heq ▸ hnew
      rw [List.foldl_cons, ih hedges hadded, hmem, List.mem_cons, or_assoc]

/-! ### The graph of the rows -/

def tokensOf (rows : List (Nat × Row)) : Graph :=
  rows.foldl (fun graph row => graph.insertToken row.2.token) {}

theorem edges_tokensOf (rows : List (Nat × Row)) : (tokensOf rows).edges = [] :=
  (foldl_insertToken rows {}).1

theorem wellFormed_tokensOf (rows : List (Nat × Row)) : (tokensOf rows).WellFormed :=
  (steps_foldl_insertToken rows {}).wellFormed wellFormed_empty

theorem of_build {rows : List (Nat × Row)} (h : build rows = .ok graph) :
    graph.tokens = (tokensOf rows).tokens ∧
      (∀ index, graph.incoming index =
        ((rows.flatMap fun row => row.2.edges).filter (·.dependent == index)).foldl
          Edge.append []) ∧
      ∀ index, index ∈ graph.roots ↔
        ∃ row ∈ rows, row.2.head = .root ∧ row.2.token.index = index := by
  obtain ⟨linked, hlinked, h⟩ := exists_of_bind_eq_ok h
  cases h
  have happends := appends_rows (wellFormed_tokensOf rows) hlinked
  obtain ⟨htokens, hedges, hroots⟩ :=
    foldl_markRoot (rows.filter fun row => row.2.head = .root) linked
  refine ⟨htokens.trans happends.tokens, fun index => ?_, fun index => ?_⟩
  · rw [incoming, hedges, ← incoming, happends.incoming, incoming, edges_tokensOf]
    rfl
  · rw [hroots, happends.roots, tokensOf, (foldl_insertToken rows {}).2]
    simp [and_assoc]

theorem describes_of_build {rows : List (Nat × Row)}
    (hdistinct : rows.Pairwise (·.2.token.index ≠ ·.2.token.index)) (h : build rows = .ok graph) :
    Describes (rows.map Prod.snd) graph := by
  obtain ⟨htokens, hincoming, hroots⟩ := of_build h
  constructor
  case wellFormed => exact (steps_of_build h).wellFormed wellFormed_empty
  all_goals simp only [List.mem_map, exists_exists_and_eq_and]
  case mem_tokens =>
    intro token
    rw [htokens, tokensOf, mem_tokens_foldl_insertToken hdistinct (by simp [Graph.mem_iff])]
    simp
  case mem_edges =>
    intro edge
    have hparsed : ∀ other ∈ (rows.flatMap fun row => row.2.edges).filter
        (·.dependent == edge.dependent), other.Parsed := by
      intro other hother
      obtain ⟨row, -, hother⟩ := List.mem_flatMap.mp (List.mem_filter.mp hother).1
      exact (Row.mem_edges.mp hother).2.1
    rw [mem_edges_iff_incoming, hincoming, mem_foldl_append (by simp) hparsed]
    simp
  case mem_roots => exact hroots

/-! ### Heads that have a row -/

theorem mem_iff_of_tokens_eq {rows : List (Nat × Row)}
    (h : graph.tokens = (tokensOf rows).tokens) {index : Nat} :
    index ∈ graph ↔ ∃ row ∈ rows, row.2.token.index = index := by
  rw [mem_of_tokens_eq h, tokensOf, mem_foldl_insertToken]
  simp [Graph.mem_iff]

theorem exists_addEdges (line : Nat) {edges : List Edge} (h : graph.WellFormed)
    (hends : ∀ edge ∈ edges, edge.governor ∈ graph ∧ edge.dependent ∈ graph) :
    ∃ next, addEdges line graph edges = .ok next ∧
      next.WellFormed ∧ next.tokens = graph.tokens := by
  refine exists_of_foldlM (fun mid hmid edge hedge => ?_) ⟨h, rfl⟩
  obtain ⟨hgovernor, hdependent⟩ := hends edge hedge
  obtain ⟨number, next, hadd, hnext⟩ := hmid.1.exists_addEdge
    ((mem_of_tokens_eq hmid.2).mpr hgovernor) ((mem_of_tokens_eq hmid.2).mpr hdependent)
  exact ⟨next, by simp [hadd], hnext.wellFormed, hnext.tokens.trans hmid.2⟩

theorem exists_addEdges_error (line : Nat) {edges : List Edge} (h : graph.WellFormed)
    (hdependent : ∀ edge ∈ edges, edge.dependent ∈ graph)
    (hmissing : ∃ edge ∈ edges, edge.governor ∉ graph) :
    ∃ fault, addEdges line graph edges = .error fault ∧ ∃ cause, fault = .malformed line cause := by
  obtain ⟨before, edge, after, rfl, hbefore, hedge⟩ := exists_first hmissing
  obtain ⟨mid, hmid, -, htokens⟩ := exists_addEdges line h fun other hother =>
    ⟨not_not.mp (hbefore other hother), hdependent other (List.mem_append_left _ hother)⟩
  have hgovernor : edge.governor ∉ mid := by rwa [mem_of_tokens_eq htokens]
  refine ⟨_, ?_, .headIsNoToken edge.governor, rfl⟩
  rw [addEdges, List.foldlM_append, ← addEdges, hmid]
  simp [Graph.addEdge, hgovernor, bind, Except.bind]

/-- Every head that the row names has a row. -/
def Grounded (rows : List (Nat × Row)) (row : Row) : Prop :=
  ∀ edge ∈ row.edges, ∃ other ∈ rows, other.2.token.index = edge.governor

theorem Grounded.exists_addEdges {rows : List (Nat × Row)} {row : Nat × Row}
    (h : Grounded rows row.2) (hrow : row ∈ rows)
    (hgraph : graph.WellFormed ∧ graph.tokens = (tokensOf rows).tokens) :
    ∃ next, addEdges row.1 graph row.2.edges = .ok next ∧
      next.WellFormed ∧ next.tokens = (tokensOf rows).tokens := by
  obtain ⟨hwf, htokens⟩ := hgraph
  obtain ⟨next, hnext, hwf', htokens'⟩ := TokenTable.exists_addEdges row.1 hwf fun edge hedge =>
    ⟨(mem_iff_of_tokens_eq htokens).mpr (h edge hedge),
      (mem_iff_of_tokens_eq htokens).mpr ⟨row, hrow, (Row.mem_edges.mp hedge).1.symm⟩⟩
  exact ⟨next, hnext, hwf', htokens'.trans htokens⟩

/-- The rows make a graph if every head that they name has a row. -/
theorem exists_build {rows : List (Nat × Row)} (h : ∀ row ∈ rows, Grounded rows row.2) :
    ∃ graph, build rows = .ok graph := by
  obtain ⟨linked, hlinked, -⟩ := exists_of_foldlM
    (fun _ hgraph row hrow => (h row hrow).exists_addEdges hrow hgraph)
    ⟨wellFormed_tokensOf rows, rfl⟩
  rw [build, ← tokensOf, hlinked]
  exact ⟨_, rfl⟩

/-- The first row with a head that has no row is the one that is at fault. -/
theorem exists_build_error {before after : List (Nat × Row)} {row : Nat × Row}
    (hbefore : ∀ earlier ∈ before, Grounded (before ++ row :: after) earlier.2)
    (hrow : ¬ Grounded (before ++ row :: after) row.2) :
    ∃ cause, build (before ++ row :: after) = .error (.malformed row.1 cause) := by
  have hmem : row ∈ before ++ row :: after := by simp
  have hfault (graph : Graph)
      (hgraph : graph.WellFormed ∧ graph.tokens = (tokensOf (before ++ row :: after)).tokens) :
      ∃ fault, addEdges row.1 graph row.2.edges = .error fault ∧
        ∃ cause, fault = .malformed row.1 cause := by
    refine exists_addEdges_error row.1 hgraph.1 (fun edge hedge => ?_) ?_
    · exact (mem_iff_of_tokens_eq hgraph.2).mpr ⟨row, hmem, (Row.mem_edges.mp hedge).1.symm⟩
    · simpa only [Grounded, not_forall, exists_prop, mem_iff_of_tokens_eq hgraph.2] using hrow
  obtain ⟨fault, hlinked, cause, rfl⟩ := exists_foldlM_error
    (fun _ hgraph earlier hearlier => (hbefore earlier hearlier).exists_addEdges
      (List.mem_append_left _ hearlier) hgraph)
    hfault ⟨wellFormed_tokensOf _, rfl⟩
  refine ⟨cause, ?_⟩
  rw [build, ← tokensOf, hlinked]
  rfl

/-! ### Graphs that come from a table -/

theorem Describes.tabular {rows : List Row} {graph : Graph} (h : Describes rows graph)
    (hdistinct : rows.Pairwise (·.token.index ≠ ·.token.index))
    (htoken : ∀ row ∈ rows, row.token.Writable)
    (hedge : ∀ row ∈ rows, ∀ edge ∈ row.edges, edge.Writable) : graph.Tabular := by
  have hsame (row other : Row) (hrow : row ∈ rows) (hother : other ∈ rows)
      (hindex : row.token.index = other.token.index) : row = other := by
    have : Std.Symm fun row other : Row => row.token.index ≠ other.token.index :=
      ⟨fun _ _ => Ne.symm⟩
    by_contra hne
    exact hdistinct.forall hrow hother hne hindex
  constructor
  case wellFormed => exact h.wellFormed
  case token =>
    intro token hmem
    obtain ⟨row, hrow, rfl⟩ := (h.mem_tokens token).mp hmem
    exact htoken row hrow
  case edge =>
    intro edge hmem
    obtain ⟨row, hrow, hmem⟩ := (h.mem_edges edge).mp hmem
    exact hedge row hrow edge hmem
  case head_unique =>
    intro edge hmem other hmem' hextra hextra' hdependent
    obtain ⟨row, hrow, hmem⟩ := (h.mem_edges edge).mp hmem
    obtain ⟨row', hrow', hmem'⟩ := (h.mem_edges other).mp hmem'
    obtain ⟨hindex, hparsed, hhead, hrelation⟩ := (Row.mem_edges_of_primary hextra).mp hmem
    obtain ⟨hindex', hparsed', hhead', hrelation'⟩ := (Row.mem_edges_of_primary hextra').mp hmem'
    cases hsame row row' hrow hrow' (hindex.symm.trans (hdependent.trans hindex'))
    have hgovernor := Head.token.inj (hhead.symm.trans hhead')
    refine hparsed.eq_of_key_eq hparsed' ?_
    simp [Edge.key, hgovernor, hdependent, hextra, hextra', hrelation.symm.trans hrelation']
  case root_headless =>
    intro edge hmem hextra hroot
    obtain ⟨row, hrow, hmem⟩ := (h.mem_edges edge).mp hmem
    obtain ⟨row', hrow', hhead', hindex'⟩ := (h.mem_roots _).mp hroot
    obtain ⟨hindex, -, hhead, -⟩ := (Row.mem_edges_of_primary hextra).mp hmem
    cases hsame row row' hrow hrow' (hindex.symm.trans hindex'.symm)
    cases hhead'.symm.trans hhead

/-- What is read from a table can stand in one. -/
theorem tabular_of_read {text : String} {graph : Graph} (h : read text = .ok graph) :
    graph.Tabular := by
  obtain ⟨rows, hrows, hbuild⟩ := exists_of_bind_eq_ok h
  obtain ⟨hwritable, hdistinct⟩ := of_readRows (fun line => Text.not_mem_of_mem_lines) hrows
  refine (describes_of_build hdistinct hbuild).tabular (List.pairwise_map.mpr hdistinct) ?_ ?_
  · exact List.forall_mem_map.mpr fun row hrow => (hwritable row hrow).1
  · exact List.forall_mem_map.mpr fun row hrow => (hwritable row hrow).2.2

end TokenTable

end DepNorm
