import DepNorm.Proofs.TokenTable.Build
import DepNorm.Proofs.TokenTable.Format
import Mathlib.Order.Bounds.Basic

/-!
Which texts are tables, what graph a table is read as, and at which line another text is refused.
Lines are looked at twice: first each is read after the lines before it, then the heads that it
names are looked up among all lines. So a line that cannot be read is reported rather than an
earlier one that names a head which no line describes.
-/

namespace DepNorm.TokenTable

open Outcome

/-! ### What the lines of a text say -/

/-- The line at the place, counted from zero, describes the row. -/
def RowAt (lines : List (List Char)) (place : Nat) (row : Row) : Prop :=
  ∃ line, lines[place]? = some line ∧ IsTokenLine line ∧ IsRow (columns (Text.trimEnd line)) row

/-- If there is a line at the place that describes a token, it has the right form, and no line
before it has its index. -/
def Fits (lines : List (List Char)) (place : Nat) : Prop :=
  ∀ line, lines[place]? = some line → IsTokenLine line →
    ∃ row, IsRow (columns (Text.trimEnd line)) row ∧
      ∀ earlier < place, ∀ other, RowAt lines earlier other → other.token.index ≠ row.token.index

/-- The row names the head as its own or as that of a secondary edge. -/
def Row.Names (row : Row) (head : Nat) : Prop :=
  row.head = .token head ∨ ∃ relation, (head, relation) ∈ row.extras

/-- The heads that the line at the place names are described by lines. -/
def HeadsKnown (lines : List (List Char)) (place : Nat) : Prop :=
  ∀ row, RowAt lines place row → ∀ head, row.Names head →
    ∃ other found, RowAt lines other found ∧ found.token.index = head

/-- The line that is reported: the first one that does not fit or, if all lines do, the first one
that names an unknown head. -/
def FirstFault (lines : List (List Char)) (place : Nat) : Prop :=
  IsLeast {place | ¬ Fits lines place} place ∨
    (∀ place, Fits lines place) ∧ IsLeast {place | ¬ HeadsKnown lines place} place

/-- The graph is what the lines describe: one token for each line, one primary edge for each head
that is a number, one secondary edge for each head and relation that a line lists, and a root for
each head that is that of a root. -/
structure Depicts (lines : List (List Char)) (graph : Graph) : Prop where
  mem_tokens : ∀ token, token ∈ graph.tokens ↔
    ∃ place row, RowAt lines place row ∧ row.token = token
  tokens_ascending : graph.tokens.Pairwise (·.index < ·.index)
  place_unique : ∀ {place other : Nat} {row found : Row}, RowAt lines place row →
    RowAt lines other found → row.token.index = found.token.index → place = other
  mem_edges : ∀ edge, edge ∈ graph.edges ↔ ∃ place row, RowAt lines place row ∧
    edge.dependent = row.token.index ∧ edge.weight = .one ∧ edge.synthetic = false ∧
      if edge.extra then (edge.governor, edge.relation) ∈ row.extras
      else row.head = .token edge.governor ∧ row.relation = edge.relation
  keys_distinct : graph.edges.Pairwise (·.key ≠ ·.key)
  mem_roots : ∀ index, index ∈ graph.roots ↔
    ∃ place row, RowAt lines place row ∧ row.head = .root ∧ row.token.index = index
  roots_ascending : graph.roots.Pairwise (· < ·)

variable {lines : List (List Char)} {line : List Char} {place : Nat} {row : Row}

theorem rowAt_iff (hline : lines[place]? = some line) :
    RowAt lines place row ↔ IsTokenLine line ∧ IsRow (columns (Text.trimEnd line)) row := by
  constructor
  · rintro ⟨found, hfound, h⟩
    cases hline.symm.trans hfound
    exact h
  · exact fun h => ⟨line, hline, h⟩

theorem RowAt.unique {other : Row} (h : RowAt lines place row) (h' : RowAt lines place other) :
    row = other := by
  obtain ⟨line, hline, -, hrow⟩ := h
  obtain ⟨-, hother⟩ := (rowAt_iff hline).mp h'
  exact Except.ok.inj
    ((row_read_eq_ok_iff.mpr hrow).symm.trans (row_read_eq_ok_iff.mpr hother))

theorem Row.names_iff {head : Nat} : row.Names head ↔ ∃ edge ∈ row.edges, edge.governor = head := by
  constructor
  · rintro (hhead | ⟨relation, hextra⟩)
    · exact ⟨{ governor := head, dependent := row.token.index, relation := row.relation },
        Row.mem_edges.mpr ⟨rfl, ⟨rfl, rfl⟩, hhead, rfl⟩, rfl⟩
    · exact ⟨{ governor := head, dependent := row.token.index, relation, extra := true },
        Row.mem_edges.mpr ⟨rfl, ⟨rfl, rfl⟩, hextra⟩, rfl⟩
  · rintro ⟨edge, hedge, rfl⟩
    obtain ⟨-, -, hends⟩ := Row.mem_edges.mp hedge
    split at hends
    · exact .inr ⟨_, hends⟩
    · exact .inl hends.1

/-! ### The lines one by one -/

/-- The indices that the lines before the place have used. -/
def Used (lines : List (List Char)) (place index : Nat) : Prop :=
  ∃ earlier < place, ∃ row, RowAt lines earlier row ∧ row.token.index = index

theorem used_succ_of_none {index : Nat} (hnone : ∀ row, ¬ RowAt lines place row) :
    Used lines (place + 1) index ↔ Used lines place index := by
  refine Nat.exists_lt_succ_right.trans (or_iff_left ?_)
  rintro ⟨row, hrow, -⟩
  exact hnone row hrow

theorem RowAt.used_succ {index : Nat} (h : RowAt lines place row) :
    Used lines (place + 1) index ↔ index = row.token.index ∨ Used lines place index := by
  refine Nat.exists_lt_succ_right.trans (or_comm.trans (or_congr_left ⟨?_, fun heq => ?_⟩))
  · rintro ⟨other, hother, rfl⟩
    rw [hother.unique h]
  · exact ⟨row, h, heq.symm⟩

theorem not_rowAt (hline : lines[place]? = some line) (htoken : ¬ IsTokenLine line) (row : Row) :
    ¬ RowAt lines place row := fun h => htoken ((rowAt_iff hline).mp h).1

theorem fits_of_not_isTokenLine (hline : lines[place]? = some line) (htoken : ¬ IsTokenLine line) :
    Fits lines place := by
  intro found hfound htoken'
  cases hline.symm.trans hfound
  exact absurd htoken' htoken

theorem fits_iff {seen : List Nat} (hline : lines[place]? = some line) (htoken : IsTokenLine line)
    (hseen : ∀ index, index ∈ seen ↔ Used lines place index) :
    Fits lines place ↔ ∃ row, Row.read seen (columns (Text.trimEnd line)) = .ok row := by
  have hread (row : Row) : Row.read seen (columns (Text.trimEnd line)) = .ok row ↔
      IsRow (columns (Text.trimEnd line)) row ∧
        ∀ earlier < place, ∀ other, RowAt lines earlier other →
          other.token.index ≠ row.token.index := by
    rw [Row.read_eq_ok_iff_not_mem, row_read_eq_ok_iff, hseen]
    simp only [Used, not_exists, not_and, ne_eq]
  simp only [hread]
  constructor
  · exact fun h => h line hline htoken
  · intro h found hfound _
    cases hline.symm.trans hfound
    exact h

/-- The rows are those of the lines from the place on, each with the number of its line. -/
structure RowsFrom (lines : List (List Char)) (place : Nat) (rows : List (Nat × Row)) : Prop where
  ascending : rows.Pairwise (·.1 < ·.1)
  mem_iff : ∀ entry, entry ∈ rows ↔
    ∃ later ≥ place, ∃ row, RowAt lines later row ∧ entry = (later + 1, row)

theorem exists_from_iff (place : Nat) {p : Nat → Prop} :
    (∃ later ≥ place, p later) ↔ p place ∨ ∃ later ≥ place + 1, p later := by
  grind

theorem rowsFrom_nil (hnone : ∀ later ≥ place, lines[later]? = none) :
    RowsFrom lines place [] := by
  refine ⟨.nil, fun entry => iff_of_false List.not_mem_nil ?_⟩
  rintro ⟨later, hlater, row, ⟨line, hline, -⟩, -⟩
  cases (hnone later hlater).symm.trans hline

theorem RowsFrom.skip {rows : List (Nat × Row)} (h : RowsFrom lines (place + 1) rows)
    (hnone : ∀ row, ¬ RowAt lines place row) : RowsFrom lines place rows := by
  refine ⟨h.ascending, fun entry => ?_⟩
  rw [h.mem_iff, exists_from_iff place, or_iff_right]
  rintro ⟨row, hrow, -⟩
  exact hnone row hrow

theorem RowsFrom.cons {rows : List (Nat × Row)} (h : RowsFrom lines (place + 1) rows)
    (hrow : RowAt lines place row) : RowsFrom lines place ((place + 1, row) :: rows) := by
  refine ⟨.cons (fun entry hentry => ?_) h.ascending, fun entry => ?_⟩
  · obtain ⟨later, hlater, other, -, rfl⟩ := (h.mem_iff entry).mp hentry
    exact Nat.succ_lt_succ hlater
  · rw [List.mem_cons, h.mem_iff, exists_from_iff place]
    refine or_congr_left ⟨fun heq => ⟨row, hrow, heq⟩, ?_⟩
    rintro ⟨other, hother, rfl⟩
    rw [hother.unique hrow]

/-- The lines from a place on are read, or the first line that does not fit is reported. -/
theorem readRows_cases {rest : List (List Char)} (hrest : lines.drop place = rest)
    {seen : List Nat} (hseen : ∀ index, index ∈ seen ↔ Used lines place index)
    (hbefore : ∀ earlier < place, Fits lines earlier) :
    (∃ rows, readRows seen (place + 1) rest = .ok rows ∧ (∀ place, Fits lines place) ∧
      RowsFrom lines place rows) ∨
    ∃ fault cause, readRows seen (place + 1) rest = .error (.malformed (fault + 1) cause) ∧
      IsLeast {place | ¬ Fits lines place} fault := by
  -- What the lines before the place give is in `hseen` and `hbefore`, which each line carries on.
  induction rest generalizing place seen with
  | nil =>
      have hnone (later : Nat) (hlater : later ≥ place) : lines[later]? = none :=
        List.getElem?_eq_none ((List.drop_eq_nil_iff.mp hrest).trans hlater)
      refine .inl ⟨[], rfl, fun later => ?_, rowsFrom_nil hnone⟩
      rcases Nat.lt_or_ge later place with hlater | hlater
      · exact hbefore later hlater
      · intro line hline
        cases (hnone later hlater).symm.trans hline
  | cons line rest ih =>
      have hline : lines[place]? = some line := by
        rw [← Nat.add_zero place, ← List.getElem?_drop, hrest, List.getElem?_cons_zero]
      have hdrop : lines.drop (place + 1) = rest := by
        rw [← List.tail_drop, hrest, List.tail_cons]
      have hnext (hfits : Fits lines place) : ∀ earlier < place + 1, Fits lines earlier :=
        Nat.forall_lt_succ_right.mpr ⟨hbefore, hfits⟩
      cases hskip : isSkipped (Text.trimEnd line) with
      | true =>
          have htoken : ¬ IsTokenLine line := by simp [← isSkipped_eq_false_iff, hskip]
          have hnone := not_rowAt hline htoken
          have hseen' (index : Nat) : index ∈ seen ↔ Used lines (place + 1) index :=
            (hseen index).trans (used_succ_of_none hnone).symm
          rw [readRows_cons_of_skipped hskip]
          exact (ih hdrop hseen' (hnext (fits_of_not_isTokenLine hline htoken))).imp_left
            fun ⟨rows, hrows, hall, hfrom⟩ => ⟨rows, hrows, hall, hfrom.skip hnone⟩
      | false =>
          have htoken : IsTokenLine line := isSkipped_eq_false_iff.mp hskip
          cases hread : Row.read seen (columns (Text.trimEnd line)) with
          | error cause =>
              -- The first fault: all lines before this one fit.
              refine .inr ⟨place, cause, readRows_cons_of_error hskip hread _, fun hfits => ?_,
                fun other hother => not_lt.mp fun hlt => hother (hbefore other hlt)⟩
              obtain ⟨row, hrow⟩ := (fits_iff hline htoken hseen).mp hfits
              cases hread.symm.trans hrow
          | ok row =>
              have hfits : Fits lines place := (fits_iff hline htoken hseen).mpr ⟨row, hread⟩
              have hrow : RowAt lines place row := (rowAt_iff hline).mpr
                ⟨htoken, row_read_eq_ok_iff.mp (Row.read_eq_ok_iff_not_mem.mp hread).1⟩
              have hseen' (index : Nat) :
                  index ∈ row.token.index :: seen ↔ Used lines (place + 1) index := by
                rw [List.mem_cons, hseen, hrow.used_succ]
              rw [readRows_cons_of_ok hskip hread]
              rcases ih hdrop hseen' (hnext hfits) with
                ⟨rows, hrows, hall, hfrom⟩ | ⟨fault, cause, hfault, hleast⟩
              · exact .inl ⟨_, by rw [hrows]; rfl, hall, hfrom.cons hrow⟩
              · exact .inr ⟨fault, cause, by rw [hfault]; rfl, hleast⟩

/-! ### The heads that the lines name -/

theorem build_cases {rows : List (Nat × Row)} (hascending : rows.Pairwise (·.1 < ·.1)) :
    (∃ graph, build rows = .ok graph ∧ ∀ entry ∈ rows, Grounded rows entry.2) ∨
    ∃ entry ∈ rows, ∃ cause, build rows = .error (.malformed entry.1 cause) ∧
      ¬ Grounded rows entry.2 ∧
      ∀ other ∈ rows, ¬ Grounded rows other.2 → entry.1 ≤ other.1 := by
  by_cases hall : ∀ entry ∈ rows, Grounded rows entry.2
  · exact .inl ((exists_build hall).imp fun _ hbuild => ⟨hbuild, hall⟩)
  · obtain ⟨before, entry, after, hrows, hbefore, hentry⟩ :=
      exists_first (p := fun entry : Nat × Row => ¬ Grounded rows entry.2) (by simpa using hall)
    subst hrows
    obtain ⟨cause, hfault⟩ :=
      exists_build_error (fun earlier hearlier => not_not.mp (hbefore earlier hearlier)) hentry
    refine .inr ⟨entry, by simp, cause, hfault, hentry, fun other hother hungrounded => ?_⟩
    obtain ⟨-, hafter, -⟩ := List.pairwise_append.mp hascending
    rcases List.mem_append.mp hother with hother | hother
    · exact absurd hungrounded (hbefore other hother)
    · rcases List.mem_cons.mp hother with rfl | hother
      · exact le_rfl
      · exact (List.rel_of_pairwise_cons hafter hother).le

namespace RowsFrom

variable {rows : List (Nat × Row)}

theorem exists_mem_iff (h : RowsFrom lines 0 rows) {p : Row → Prop} :
    (∃ entry ∈ rows, p entry.2) ↔ ∃ place row, RowAt lines place row ∧ p row := by
  simp only [h.mem_iff, ge_iff_le, Nat.zero_le, true_and]
  constructor
  · rintro ⟨_, ⟨place, row, hrow, rfl⟩, hp⟩
    exact ⟨place, row, hrow, hp⟩
  · rintro ⟨place, row, hrow, hp⟩
    exact ⟨(place + 1, row), ⟨place, row, hrow, rfl⟩, hp⟩

theorem headsKnown_iff (h : RowsFrom lines 0 rows) :
    HeadsKnown lines place ↔ ∀ row, RowAt lines place row → Grounded rows row := by
  refine forall₂_congr fun row _ => ⟨fun hknown edge hedge => ?_, fun hgrounded head hnames => ?_⟩
  · exact h.exists_mem_iff.mpr (hknown _ (Row.names_iff.mpr ⟨edge, hedge, rfl⟩))
  · obtain ⟨edge, hedge, rfl⟩ := Row.names_iff.mp hnames
    exact h.exists_mem_iff.mp (hgrounded edge hedge)

end RowsFrom

/-! ### The whole text -/

theorem place_eq_of_fits (hfits : ∀ place, Fits lines place) {other : Nat} {found : Row}
    (hrow : RowAt lines place row) (hfound : RowAt lines other found)
    (hindex : row.token.index = found.token.index) : place = other := by
  have hnew {place other : Nat} {row found : Row} (hrow : RowAt lines place row)
      (hfound : RowAt lines other found) (hlt : other < place) :
      found.token.index ≠ row.token.index := by
    obtain ⟨line, hline, htoken, -⟩ := id hrow
    obtain ⟨new, hnew, hindices⟩ := hfits place line hline htoken
    cases hrow.unique ⟨line, hline, htoken, hnew⟩
    exact hindices other hlt found hfound
  rcases lt_trichotomy place other with hlt | heq | hlt
  · exact absurd hindex (hnew hfound hrow hlt)
  · exact heq
  · exact absurd hindex.symm (hnew hrow hfound hlt)

theorem RowsFrom.distinct {rows : List (Nat × Row)} (h : RowsFrom lines 0 rows)
    (hfits : ∀ place, Fits lines place) :
    rows.Pairwise (·.2.token.index ≠ ·.2.token.index) := by
  refine h.ascending.imp_of_mem fun {entry other} hentry hother hlt hindex => ?_
  obtain ⟨place, -, row, hrow, rfl⟩ := (h.mem_iff entry).mp hentry
  obtain ⟨later, -, found, hfound, rfl⟩ := (h.mem_iff other).mp hother
  cases place_eq_of_fits hfits hrow hfound hindex
  exact lt_irrefl _ hlt

theorem depicts_of_describes {rows : List (Nat × Row)} {graph : Graph} (h : RowsFrom lines 0 rows)
    (hfits : ∀ place, Fits lines place) (hgraph : Describes (rows.map Prod.snd) graph) :
    Depicts lines graph := by
  have hrows (p : Row → Prop) :
      (∃ row ∈ rows.map Prod.snd, p row) ↔ ∃ place row, RowAt lines place row ∧ p row := by
    simp only [List.mem_map, exists_exists_and_eq_and]
    exact h.exists_mem_iff
  constructor
  case mem_tokens => exact fun token => (hgraph.mem_tokens token).trans (hrows _)
  case tokens_ascending => exact hgraph.wellFormed.tokens_ascending
  case place_unique => exact place_eq_of_fits hfits
  case mem_edges =>
    intro edge
    have hparsed : edge.Parsed ↔ edge.weight = .one ∧ edge.synthetic = false :=
      ⟨fun h => ⟨h.weight, h.synthetic⟩, fun ⟨hweight, hsynthetic⟩ => ⟨hweight, hsynthetic⟩⟩
    rw [hgraph.mem_edges, hrows]
    simp only [Row.mem_edges, hparsed, and_assoc]
  case keys_distinct => exact hgraph.wellFormed.keys_distinct
  case mem_roots => exact fun index => (hgraph.mem_roots index).trans (hrows _)
  case roots_ascending => exact hgraph.wellFormed.roots_ascending

/-- A text is read as the graph that its lines describe, or its first fault is reported. -/
theorem read_cases (text : String) :
    let lines := Text.lines text.toList
    (∃ graph, read text = .ok graph ∧ (∀ place, Fits lines place ∧ HeadsKnown lines place) ∧
      Depicts lines graph) ∨
    ∃ place cause, read text = .error (.malformed (place + 1) cause) ∧ FirstFault lines place := by
  intro lines
  have hnone (index : Nat) : index ∈ [] ↔ Used lines 0 index := by simp [Used]
  rcases readRows_cases (List.drop_zero (l := lines)) hnone (by simp) with
    ⟨rows, hrows, hfits, hfrom⟩ | ⟨place, cause, hfault, hleast⟩
  · have hread : read text = build rows := by
      rw [read, hrows]
      rfl
    rcases build_cases hfrom.ascending with
      ⟨graph, hbuild, hgrounded⟩ | ⟨entry, hentry, cause, hfault, hungrounded, hfirst⟩
    · refine .inl ⟨graph, hread.trans hbuild, fun place => ⟨hfits place, ?_⟩,
        depicts_of_describes hfrom hfits (describes_of_build (hfrom.distinct hfits) hbuild)⟩
      refine hfrom.headsKnown_iff.mpr fun row hrow => ?_
      exact hgrounded _ ((hfrom.mem_iff _).mpr ⟨place, Nat.zero_le _, row, hrow, rfl⟩)
    · obtain ⟨place, -, row, hrow, rfl⟩ := (hfrom.mem_iff entry).mp hentry
      refine .inr ⟨place, cause, hread.trans hfault, .inr ⟨hfits, fun hknown => ?_,
        fun other hother => ?_⟩⟩
      · exact hungrounded (hfrom.headsKnown_iff.mp hknown row hrow)
      · have hother : ∃ found, RowAt lines other found ∧ ¬ Grounded rows found := by
          simpa [hfrom.headsKnown_iff] using hother
        obtain ⟨found, hfound, hungrounded⟩ := hother
        exact Nat.le_of_succ_le_succ (hfirst (other + 1, found)
          ((hfrom.mem_iff _).mpr ⟨other, Nat.zero_le _, found, hfound, rfl⟩) hungrounded)
  · exact .inr ⟨place, cause, by rw [read, hfault]; rfl, .inl hleast⟩

/-- A text is a table if all its lines fit and all heads that they name are known. It is then read
as the graph that the lines describe; of any other text the first fault is reported. -/
theorem read_iff (text : String) :
    let lines := Text.lines text.toList
    ((∃ graph, read text = .ok graph) ↔ ∀ place, Fits lines place ∧ HeadsKnown lines place) ∧
      (∀ graph, read text = .ok graph → Depicts lines graph) ∧
      ∀ fault, read text = .error fault →
        ∃ place cause, fault = .malformed (place + 1) cause ∧ FirstFault lines place := by
  intro lines
  rcases read_cases text with
    ⟨graph, hread, hall, hdepicts⟩ | ⟨place, cause, hread, hfirst⟩
  · refine ⟨iff_of_true ⟨graph, hread⟩ hall, fun other hother => ?_, fun fault hfault => ?_⟩
    · cases hread.symm.trans hother
      exact hdepicts
    · cases hread.symm.trans hfault
  · refine ⟨iff_of_false ?_ fun hall => ?_, fun graph hgraph => ?_, fun fault hfault => ?_⟩
    · rintro ⟨graph, hgraph⟩
      cases hread.symm.trans hgraph
    · rcases hfirst with hleast | ⟨-, hleast⟩
      · exact hleast.1 (hall place).1
      · exact hleast.1 (hall place).2
    · cases hread.symm.trans hgraph
    · cases hread.symm.trans hfault
      exact ⟨place, cause, rfl, hfirst⟩

/-- A head may stand on a later line, and of two equal items one edge is made. Of a text whose first
line names an unknown head and whose second line cannot be read, the second line is reported. -/
theorem read_iff_cats :
    let accepted := "# two tokens\n1 cats cat NNS 2 nsubj\n\n2 sleep sleep VBP 0 root _ 1:dep|1:dep"
    let refused := "1 cats cat NNS 7 nsubj\n2 sleep\n"
    (∃ graph, read accepted = .ok graph ∧ Depicts (Text.lines accepted.toList) graph ∧
      graph.edges = [{ governor := 2, dependent := 1, relation := "nsubj" },
        { governor := 1, dependent := 2, relation := "dep", extra := true }]) ∧
    read refused = .error (.malformed 2 (.tooFewColumns 2)) ∧
      FirstFault (Text.lines refused.toList) 1 := by
  intro accepted refused
  have hedges : (read accepted).map Graph.edges =
      .ok [{ governor := 2, dependent := 1, relation := "nsubj" },
        { governor := 1, dependent := 2, relation := "dep", extra := true }] := by decide +kernel
  obtain ⟨graph, haccepted, hgraph⟩ := exists_of_map_eq_ok hedges
  have hrefused : read refused = .error (.malformed 2 (.tooFewColumns 2)) := by decide +kernel
  obtain ⟨place, cause, hfault, hfirst⟩ := (read_iff refused).2.2 _ hrefused
  cases hfault
  exact ⟨⟨graph, haccepted, (read_iff accepted).2.1 graph haccepted, hgraph⟩, hrefused, hfirst⟩

end DepNorm.TokenTable
