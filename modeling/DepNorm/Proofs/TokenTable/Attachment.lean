import DepNorm.Proofs.Graph.Forest
import DepNorm.Proofs.Graph.Sort
import DepNorm.Proofs.TokenTable.Build
import DepNorm.Proofs.TokenTable.Columns

/-!
What the line of a token says about the edges into it. In a graph that comes from a table they are
split between the head column, which has the primary edge, and the last column, which lists the
secondary ones. So a row that is read back from the line has the edges into the token, except that
the last secondary edge loses the white space at the end of its relation.
-/

namespace DepNorm

open DepNorm.Graph

namespace TokenTable

variable {graph : Graph} {edge : Edge} {index : Nat}

/-! ### The edges into a token, sorted -/

theorem eraseP_eq_filter {α : Type} {test : α → Bool} {items : List α}
    (h : items.Pairwise fun a b => test a = true → test b = false) :
    items.eraseP test = items.filter fun a => !test a := by
  induction h with
  | nil => rfl
  | @cons a items ha _ ih =>
      cases htest : test a with
      | false => simp [htest, ih]
      | true => simpa [htest] using (List.filter_eq_self.mpr (by simpa [htest] using ha)).symm

/-- The edges into a token, as they are sorted for its line. -/
def sortedIncoming (graph : Graph) (index : Nat) : List Edge :=
  Edge.sort Edge.byGovernor (graph.incoming index)

theorem mem_sortedIncoming :
    edge ∈ sortedIncoming graph index ↔ edge ∈ graph.edges ∧ edge.dependent = index := by
  rw [sortedIncoming, Edge.sort, List.mem_mergeSort, mem_incoming]

theorem nodup_sortedIncoming (h : graph.WellFormed) : (sortedIncoming graph index).Nodup :=
  (List.mergeSort_perm _ _).nodup_iff.mpr ((nodup_edges h).filter _)

theorem byGovernor_eq_eq {edge other : Edge} :
    Edge.byGovernor edge other = .eq ↔
      edge.governor = other.governor ∧ edge.relation = other.relation := by
  simp [Edge.byGovernor, compareLex, compareOn]

theorem pairwise_sortedIncoming :
    (sortedIncoming graph index).Pairwise fun a b => (Edge.byGovernor a b).isLE = true :=
  Edge.sorted_sort _

theorem pairwise_extra (h : graph.WellFormed) (hone : graph.OneHead index) :
    (sortedIncoming graph index).Pairwise fun a b => (!a.extra) = true → (!b.extra) = false := by
  refine (nodup_sortedIncoming h).imp_of_mem fun {a b} ha hb hne hextra => ?_
  obtain ⟨ha, hinto⟩ := mem_sortedIncoming.mp ha
  obtain ⟨hb, hinto'⟩ := mem_sortedIncoming.mp hb
  by_contra hextra'
  have hprimary : a.extra = false := by simpa using hextra
  have hprimary' : b.extra = false := by simpa using hextra'
  exact hne (h.edge_eq_of_key_eq ha hb (hone.unique a.key (key_mem_keys ha) b.key (key_mem_keys hb)
    hprimary hprimary' hinto hinto'))

/-! ### Primary and secondary edges -/

def primary? (graph : Graph) (index : Nat) : Option Edge :=
  (sortedIncoming graph index).find? (!·.extra)

theorem primary?_eq_some_iff (h : graph.Tabular) :
    primary? graph index = some edge ↔
      edge ∈ graph.edges ∧ edge.dependent = index ∧ edge.extra = false := by
  constructor
  · intro hfind
    obtain ⟨hedge, hindex⟩ := mem_sortedIncoming.mp (List.mem_of_find?_eq_some hfind)
    exact ⟨hedge, hindex, by simpa using List.find?_some hfind⟩
  · rintro ⟨hedge, rfl, hextra⟩
    cases hfind : primary? graph edge.dependent with
    | none =>
        have hmem : edge ∈ sortedIncoming graph edge.dependent :=
          mem_sortedIncoming.mpr ⟨hedge, rfl⟩
        simpa [hextra] using List.find?_eq_none.mp hfind edge hmem
    | some other =>
        obtain ⟨hother, hindex⟩ := mem_sortedIncoming.mp (List.mem_of_find?_eq_some hfind)
        have hprimary : other.extra = false := by simpa using List.find?_some hfind
        rw [h.head_unique other hother edge hedge hprimary hextra hindex]

def secondary (graph : Graph) (index : Nat) : List Edge :=
  (sortedIncoming graph index).filter (·.extra)

theorem mem_secondary :
    edge ∈ secondary graph index ↔
      edge ∈ graph.edges ∧ edge.dependent = index ∧ edge.extra = true := by
  rw [secondary, List.mem_filter, mem_sortedIncoming, and_assoc]

theorem nodup_secondary (h : graph.WellFormed) : (secondary graph index).Nodup :=
  (nodup_sortedIncoming h).filter _

/-- Where edges come from a table, the last column lists the secondary edges. -/
theorem attachment_eq (h : graph.Tabular) (index : Nat) :
    attachment graph index =
      if index ∈ graph.roots then ⟨['0'], "root".toList, secondary graph index⟩
      else
        match primary? graph index with
        | some edge =>
          ⟨Text.writeIndex edge.governor, edge.relation.toList, secondary graph index⟩
        | none => ⟨['_'], ['_'], secondary graph index⟩ := by
  have hall (hnone : ∀ edge ∈ sortedIncoming graph index, edge.extra = true) :
      sortedIncoming graph index = secondary graph index := (List.filter_eq_self.mpr hnone).symm
  simp only [attachment]
  rw [← sortedIncoming, ← primary?]
  by_cases hroot : index ∈ graph.roots
  · rw [if_pos hroot, if_pos hroot, hall fun edge hedge => ?_]
    -- A root has no primary edge.
    obtain ⟨hmem, rfl⟩ := mem_sortedIncoming.mp hedge
    by_contra hextra
    exact h.root_headless edge hmem (by simpa using hextra) hroot
  · rw [if_neg hroot, if_neg hroot]
    cases hprimary : primary? graph index with
    | none =>
        have hnone := List.find?_eq_none.mp hprimary
        rw [hall fun edge hedge => by simpa using hnone edge hedge]
    | some edge =>
        have herase : (sortedIncoming graph index).eraseP (!·.extra) = secondary graph index := by
          simpa [secondary] using eraseP_eq_filter (pairwise_extra h.wellFormed (h.oneHead index))
        simp only [herase]

/-! ### Columns of the line -/

def headAt (graph : Graph) (index : Nat) : Head :=
  if index ∈ graph.roots then .root
  else
    match primary? graph index with
    | some edge => .token edge.governor
    | none => .none

theorem headAt_eq_root_iff : headAt graph index = .root ↔ index ∈ graph.roots := by
  unfold headAt
  split
  · simpa
  · split <;> simpa

theorem attachment_head (h : graph.Tabular) (index : Nat) :
    (attachment graph index).head = (headAt graph index).text := by
  rw [attachment_eq h, headAt]
  split
  · rfl
  · split <;> rfl

theorem attachment_extras (h : graph.Tabular) (index : Nat) :
    (attachment graph index).extras = secondary graph index := by
  rw [attachment_eq h]
  split
  · rfl
  · split <;> rfl

theorem mem_attachment_extras (h : graph.Tabular) :
    edge ∈ (attachment graph index).extras ↔
      edge ∈ graph.edges ∧ edge.dependent = index ∧ edge.extra = true := by
  rw [attachment_extras h, mem_secondary]

theorem nodup_attachment_extras (h : graph.Tabular) (index : Nat) :
    (attachment graph index).extras.Nodup := by
  rw [attachment_extras h]
  exact nodup_secondary h.wellFormed

theorem headAt_eq_token_iff (h : graph.Tabular) {governor : Nat} {relation : String} :
    headAt graph index = .token governor ∧
        String.ofList (attachment graph index).relation = relation ↔
      ∃ edge, primary? graph index = some edge ∧ edge.governor = governor ∧
        edge.relation = relation := by
  rw [attachment_eq h, headAt]
  by_cases hroot : index ∈ graph.roots
  · rw [if_pos hroot, if_pos hroot]
    constructor
    · rintro ⟨hhead, -⟩
      cases hhead
    · rintro ⟨edge, hprimary, -⟩
      obtain ⟨hedge, rfl, hextra⟩ := (primary?_eq_some_iff h).mp hprimary
      exact absurd hroot (h.root_headless edge hedge hextra)
  · rw [if_neg hroot, if_neg hroot]
    cases primary? graph index with
    | none => simp
    | some edge => simp

theorem isField_relation (h : graph.Tabular) (index : Nat) :
    IsField (attachment graph index).relation := by
  rw [attachment_eq h]
  split
  · exact show IsField "root".toList from ⟨by decide, by decide⟩
  · split
    · next edge hprimary =>
      exact (h.edge edge ((primary?_eq_some_iff h).mp hprimary).1).relation
    · exact show IsField ['_'] from ⟨by decide, by decide⟩

/-! ### Edges that are read back -/

/-- What becomes of an edge when the graph is written and read again: the edge that ends a line
loses the white space at its end. -/
def reread (graph : Graph) (edge : Edge) : Edge :=
  if (attachment graph edge.dependent).extras.getLast? = some edge then edge.trimmed else edge

@[simp] theorem governor_reread : (reread graph edge).governor = edge.governor := by
  unfold reread
  split <;> rfl

@[simp] theorem dependent_reread : (reread graph edge).dependent = edge.dependent := by
  unfold reread
  split <;> rfl

@[simp] theorem extra_reread : (reread graph edge).extra = edge.extra := by
  unfold reread
  split <;> rfl

theorem writable_reread (h : edge.Writable) : (reread graph edge).Writable := by
  unfold reread
  split
  · exact h.trimmed
  · exact h

theorem reread_of_primary (h : graph.Tabular) (hextra : edge.extra = false) :
    reread graph edge = edge := by
  refine if_neg fun hlast => ?_
  obtain ⟨-, -, hsecondary⟩ := (mem_attachment_extras h).mp (List.mem_of_getLast? hlast)
  cases hextra.symm.trans hsecondary

/-- The row that the line of a token is read as. -/
def readBack (graph : Graph) (token : Token) : Row where
  token
  head := headAt graph token.index
  relation := String.ofList (attachment graph token.index).relation
  extras := ((attachment graph token.index).extras.map (reread graph)).map fun edge =>
    (edge.governor, edge.relation)

theorem mem_edges_readBack (h : graph.Tabular) {token : Token} :
    edge ∈ (readBack graph token).edges ↔
      ∃ old ∈ graph.edges, old.dependent = token.index ∧ reread graph old = edge := by
  constructor
  · intro hedge
    cases hextra : edge.extra with
    | false =>
        obtain ⟨hdependent, hparsed, hhead⟩ := (Row.mem_edges_of_primary hextra).mp hedge
        obtain ⟨old, hprimary, hgovernor, hrelation⟩ := (headAt_eq_token_iff h).mp hhead
        obtain ⟨hold, hindex, hprimary⟩ := (primary?_eq_some_iff h).mp hprimary
        refine ⟨old, hold, hindex, ?_⟩
        rw [reread_of_primary h hprimary]
        -- Both edges come from the parser, so it is enough that their keys are the same.
        refine (h.edge old hold).toParsed.eq_of_key_eq hparsed ?_
        simp [Edge.key, hgovernor, hrelation, hindex, hdependent, hprimary, hextra, readBack]
    | true =>
        obtain ⟨hdependent, hparsed, hmem⟩ := (Row.mem_edges_of_extra hextra).mp hedge
        obtain ⟨changed, hchanged, heq⟩ := List.mem_map.mp hmem
        obtain ⟨old, hold, rfl⟩ := List.mem_map.mp hchanged
        obtain ⟨hold, hindex, hsecondary⟩ := (mem_attachment_extras h).mp hold
        refine ⟨old, hold, hindex, ?_⟩
        refine (writable_reread (h.edge old hold)).toParsed.eq_of_key_eq hparsed ?_
        obtain ⟨hgovernor, hrelation⟩ := Prod.mk.inj heq
        rw [governor_reread] at hgovernor
        simp [Edge.key, hgovernor, hrelation, hindex, hdependent, hsecondary, hextra, readBack]
  · rintro ⟨old, hold, hindex, rfl⟩
    have hparsed : (reread graph old).Parsed := (writable_reread (h.edge old hold)).toParsed
    have hdependent : (reread graph old).dependent = token.index := dependent_reread.trans hindex
    cases hextra : old.extra with
    | false =>
        have hprimary := (primary?_eq_some_iff h).mpr ⟨hold, hindex, hextra⟩
        refine (Row.mem_edges_of_primary (extra_reread.trans hextra)).mpr ⟨hdependent, hparsed, ?_⟩
        rw [reread_of_primary h hextra]
        exact (headAt_eq_token_iff h).mpr ⟨old, hprimary, rfl, rfl⟩
    | true =>
        have hmem := (mem_attachment_extras h).mpr ⟨hold, hindex, hextra⟩
        refine (Row.mem_edges_of_extra (extra_reread.trans hextra)).mpr ⟨hdependent, hparsed, ?_⟩
        exact List.mem_map_of_mem (List.mem_map_of_mem hmem)

/-! ### Reading the line of a token -/

theorem trimEnd_writeToken (h : graph.Tabular) (token : Token) :
    Text.trimEnd (writeToken graph token) =
      ['\t'].intercalate (writtenColumns token (headAt graph token.index).text
        (attachment graph token.index).relation
        ((attachment graph token.index).extras.map (reread graph))) := by
  have hreread : (attachment graph token.index).extras.map (reread graph) =
      (attachment graph token.index).extras.map fun edge =>
        if (attachment graph token.index).extras.getLast? = some edge then edge.trimmed
        else edge := by
    refine List.map_congr_left fun edge hedge => ?_
    rw [reread, ((mem_attachment_extras h).mp hedge).2.1]
  rw [hreread, ← trimEnd_writtenColumns (nodup_attachment_extras h _), ← attachment_head h]
  rfl

theorem read_writeToken (h : graph.Tabular) {token : Token} (htoken : token ∈ graph.tokens)
    {seen : List Nat} (hseen : token.index ∉ seen) :
    Row.read seen (columns (Text.trimEnd (writeToken graph token))) =
      .ok (readBack graph token) := by
  have hindex {index : Nat} (hmem : index ∈ graph) : index ≠ 0 ∧ index < Text.indexBound := by
    obtain ⟨other, hother, rfl⟩ := hmem
    exact ⟨(h.token other hother).index_ne_zero, (h.token other hother).index_lt⟩
  have hextras : ∀ edge ∈ (attachment graph token.index).extras.map (reread graph),
      edge.Writable ∧ edge.extra = true ∧ edge.governor ∈ graph := by
    intro edge hedge
    obtain ⟨old, hold, rfl⟩ := List.mem_map.mp hedge
    obtain ⟨hold, -, hextra⟩ := (mem_attachment_extras h).mp hold
    refine ⟨writable_reread (h.edge old hold), extra_reread.trans hextra, ?_⟩
    rw [governor_reread]
    exact h.wellFormed.governor_mem old hold
  rw [trimEnd_writeToken h, columns_writtenColumns (h.token token htoken) (Head.isField_text _)
    (isField_relation h _) fun edge hedge => (hextras edge hedge).1]
  refine Row.read_writtenColumns (h.token token htoken) hseen (fun governor hhead => ?_) _
    fun edge hedge => ?_
  · obtain ⟨edge, hprimary, rfl, -⟩ := (headAt_eq_token_iff h).mp ⟨hhead, rfl⟩
    exact hindex (h.wellFormed.governor_mem edge ((primary?_eq_some_iff h).mp hprimary).1)
  · obtain ⟨hwritable, hextra, hgovernor⟩ := hextras edge hedge
    exact ⟨(hindex hgovernor).2, hwritable.bar hextra⟩

theorem feed_not_mem_writeToken (h : graph.Tabular) {token : Token}
    (htoken : token ∈ graph.tokens) : '\n' ∉ writeToken graph token := by
  refine feed_not_mem_writtenColumns (h.token token htoken) ?_ (isField_relation h token.index)
    fun edge hedge => h.edge edge ((mem_attachment_extras h).mp hedge).1
  rw [attachment_head h]
  exact Head.isField_text _

end TokenTable

end DepNorm
