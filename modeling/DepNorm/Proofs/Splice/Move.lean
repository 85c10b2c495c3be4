import DepNorm.Proofs.Graph.Ends
import DepNorm.Splice.Clause

/-!
What the rules do to a graph. Each rule is a sequence of the moves that `Move` lists, so a property
of graphs that each of them keeps is one that the rules keep. A move says which tokens, roots and
keys are left; the keys are given as a function of those before.
-/

namespace DepNorm.Splice

open EditM

/-! ### The keys that moves leave -/

/-- The verb governs the object instead of the quantity, and the object the quantity. -/
def loweredKeys (keys : Set EdgeKey) (relation : String) (verb quantity object : Nat) :
    Set EdgeKey :=
  insert { governor := object, dependent := quantity, relation := "amod" }
    (insert { governor := verb, dependent := object, relation }
      ((keys \ {{ governor := verb, dependent := quantity, relation }}) \
        {{ governor := quantity, dependent := object, relation := "nmod:of" }}))

/-- Some of the keys become keys of determiner edges. -/
def relabelledKeys (keys targets : Set EdgeKey) : Set EdgeKey :=
  keys \ targets ∪ {key | ∃ target ∈ targets, { target with relation := "det" } = key}

/-- An edge is turned round and called `op`. -/
def turnedKeys (keys : Set EdgeKey) (key : EdgeKey) : Set EdgeKey :=
  insert { governor := key.dependent, dependent := key.governor, relation := "op" } (keys \ {key})

/-- The keys of a clause's graph before its verb gives up its dependents: the main verb no longer
governs the verb of the clause, nor that verb its object, and the preposition is gone. -/
def cutKeys (keys : Set EdgeKey) (root verb preposition object : Nat) (relation : String) :
    Set EdgeKey :=
  {key ∈ keys | key.governor ≠ preposition ∧ key.dependent ≠ preposition ∧
    key ≠ { governor := root, dependent := verb, relation } ∧
    key ≠ { governor := verb, dependent := object, relation := "nsubj" }}

/-- What is left of the keys once the main verb governs the object and the dependents of the
clause's verb, and the object that verb. -/
def collapsedKeys (keys : Set EdgeKey) (root verb object : Nat) (relation : String) :
    Set EdgeKey :=
  {key | key ∈ keys ∧ key.governor ≠ verb ∨
    key = { governor := root, dependent := object, relation } ∨
    key = { governor := object, dependent := verb, relation := "mark" } ∨
    ∃ detached ∈ keys, detached.governor = verb ∧
      key = { governor := root, dependent := detached.dependent, relation := detached.relation }}

/-! ### Moves -/

/-- The main verb governs the verb of a clause, and this one a preposition and an object. -/
structure ClauseAt (graph : Graph) (root verb preposition object : Nat) (relation : String) :
    Prop where
  distinct : [root, verb, preposition, object].Nodup
  verb_mem : { governor := root, dependent := verb, relation } ∈ graph.keys
  mark_mem : { governor := verb, dependent := preposition, relation := "mark" } ∈ graph.keys
  object_mem : { governor := verb, dependent := object, relation := "nsubj" } ∈ graph.keys

theorem ClauseAt.ne {graph : Graph} {root verb preposition object : Nat} {relation : String}
    (hclause : ClauseAt graph root verb preposition object relation) :
    (root ≠ verb ∧ root ≠ preposition ∧ root ≠ object) ∧
      (verb ≠ preposition ∧ verb ≠ object) ∧ preposition ≠ object := by
  simpa using hclause.distinct

inductive Move : Rule → Graph → Graph → Prop
  /-- A quantity goes below its object, and the object takes its place below the verb. -/
  | lower {graph next : Graph} {relation : String} {verb quantity object : Nat}
      (hdistinct : [verb, quantity, object].Nodup)
      (hquantity : { governor := verb, dependent := quantity, relation } ∈ graph.keys)
      (hobject : { governor := quantity, dependent := object, relation := "nmod:of" } ∈ graph.keys)
      (hnext : graph.Rekeyed (loweredKeys graph.keys relation verb quantity object) next) :
      Move .quantity graph next
  /-- Some edges become determiner edges. -/
  | relabel {rule : Rule} {graph next : Graph} {targets : Set EdgeKey}
      (hrule : rule = .quantity ∨ rule = .determiner) (htargets : targets ⊆ graph.keys)
      (hnext : graph.Rekeyed (relabelledKeys graph.keys targets) next) : Move rule graph next
  /-- A root changes places with one of its dependents. -/
  | turn {graph next : Graph} {key : EdgeKey} (hroot : key.governor ∈ graph.roots)
      (hkey : key ∈ graph.keys)
      (hnext : ((graph.eraseRoot key.governor).markRoot key.dependent).Rekeyed
        (turnedKeys graph.keys key) next) :
      Move .operatorRoot graph next
  /-- A leaf is dropped. -/
  | drop {graph : Graph} {index : Nat} (hindex : index ∈ graph)
      (hleaf : ∀ key ∈ graph.keys, key.governor ≠ index) :
      Move .determiner graph (graph.eraseToken index)
  /-- A clause is collapsed: its preposition goes, its verb goes below its object, and the object
  and the other dependents of the verb go below the main verb. The relation to the object is named
  for the preposition. -/
  | collapse {graph next : Graph} {root verb preposition object : Nat} {relation name : String}
      (hclause : ClauseAt graph root verb preposition object relation)
      (hnext : (graph.eraseToken preposition).Rekeyed
        (collapsedKeys (cutKeys graph.keys root verb preposition object relation) root verb object
          name) next)
      (hname : ∃ token ∈ graph.tokens, prepositionRelation token.word = name) :
      Move .clause graph next

abbrev Moves (rule : Rule) : Graph → Graph → Prop := Relation.ReflTransGen (Move rule)

/-- The graph that a collapse leaves. -/
abbrev Collapsed (graph : Graph) (root verb preposition object : Nat) (relation name : String) :
    Graph → Prop :=
  (graph.eraseToken preposition).Rekeyed
    (collapsedKeys (cutKeys graph.keys root verb preposition object relation) root verb object name)

variable {rule : Rule} {graph next : Graph}

theorem Move.wellFormed (move : Move rule graph next) (h : graph.WellFormed) :
    next.WellFormed := by
  cases move with
  | lower _ _ _ hnext => exact hnext.wellFormed
  | relabel _ _ hnext => exact hnext.wellFormed
  | turn _ _ hnext => exact hnext.wellFormed
  | drop => exact h.eraseToken _
  | collapse _ hnext _ => exact hnext.wellFormed

theorem Moves.keep (moves : Moves rule graph next) (holds : Graph → Prop)
    (hmove : ∀ {before after : Graph}, Move rule before after → holds before → holds after)
    (h : holds graph) : holds next := by
  induction moves with
  | refl => exact h
  | tail _ move ih => exact hmove move ih

theorem Moves.wellFormed (moves : Moves rule graph next) (h : graph.WellFormed) :
    next.WellFormed := moves.keep Graph.WellFormed Move.wellFormed h

/-! ### Secondary edges and roots -/

theorem Move.primary (move : Move rule graph next) (h : ∀ key ∈ graph.keys, key.extra = false) :
    ∀ key ∈ next.keys, key.extra = false := by
  cases move with
  | lower _ _ _ hnext =>
      rw [hnext.keys]
      rintro key (rfl | rfl | ⟨⟨hkey, -⟩, -⟩)
      · rfl
      · rfl
      · exact h key hkey
  | relabel _ htargets hnext =>
      rw [hnext.keys]
      rintro key (⟨hkey, -⟩ | ⟨target, htarget, rfl⟩)
      · exact h key hkey
      · exact h target (htargets htarget)
  | turn _ _ hnext =>
      rw [hnext.keys]
      rintro key (rfl | ⟨hkey, -⟩)
      · rfl
      · exact h key hkey
  | drop =>
      rw [Graph.keys_eraseToken]
      exact fun key hkey => h key hkey.1
  | collapse _ hnext _ =>
      rw [hnext.keys]
      rintro key (⟨⟨hkey, -⟩, -⟩ | rfl | rfl | ⟨_, -, -, rfl⟩)
      · exact h key hkey
      · rfl
      · rfl
      · rfl

theorem Moves.primary (moves : Moves rule graph next)
    (h : ∀ key ∈ graph.keys, key.extra = false) : ∀ key ∈ next.keys, key.extra = false :=
  moves.keep (fun graph => ∀ key ∈ graph.keys, key.extra = false) Move.primary h

theorem Move.rooted (move : Move rule graph next) (hrule : rule = .quantity ∨ rule = .operatorRoot)
    (h : graph.roots ≠ []) : next.roots ≠ [] := by
  cases move with
  | lower _ _ _ hnext => rwa [hnext.roots]
  | relabel _ _ hnext => rwa [hnext.roots]
  | turn _ _ hnext =>
      rw [hnext.roots]
      simp [Graph.markRoot]
  | drop => simp at hrule
  | collapse => simp at hrule

theorem Moves.rooted (moves : Moves rule graph next)
    (hrule : rule = .quantity ∨ rule = .operatorRoot) (h : graph.roots ≠ []) : next.roots ≠ [] :=
  moves.keep (fun graph => graph.roots ≠ []) (fun move => move.rooted hrule) h

/-! ### Rules that stop -/

/-- The rule has stopped since it needed a primary edge and there is only a secondary one. -/
def Missed (rule : Rule) (fault : Fault) (failed : Graph) : Prop :=
  ∃ key, fault = .missingEdge rule key ∧ key.extra = false ∧ key ∉ failed.keys ∧
    { key with extra := true } ∈ failed.keys

/-- The rule has stopped after some moves and within another one, which has only taken edges out. -/
def Stopped (rule : Rule) (graph : Graph) (fault : Fault) (failed : Graph) : Prop :=
  Missed rule fault failed ∧
    ∃ last keys, Moves rule graph last ∧ keys ⊆ last.keys ∧ last.Rekeyed keys failed

theorem Stopped.of_moves {mid : Graph} {fault : Fault} {failed : Graph}
    (h : Stopped rule mid fault failed) (moves : Moves rule graph mid) :
    Stopped rule graph fault failed := by
  obtain ⟨hmissed, last, keys, hmoves, hcut⟩ := h
  exact ⟨hmissed, last, keys, moves.trans hmoves, hcut⟩

theorem Stopped.rooted {fault : Fault} {failed : Graph} (h : Stopped rule graph fault failed)
    (hrule : rule = .quantity ∨ rule = .operatorRoot) (hroots : graph.roots ≠ []) :
    failed.roots ≠ [] := by
  obtain ⟨-, last, keys, hmoves, -, hcut⟩ := h
  rw [hcut.roots]
  exact hmoves.rooted hrule hroots

/-- Within a move that has only taken edges out, taking out the edge between tokens that are joined
stops the rule at a secondary edge only. -/
theorem ends_takeJoined {mid : Graph} {keys : Set EdgeKey} (hmid : graph.Rekeyed keys mid)
    (hsubset : keys ⊆ graph.keys) {governor dependent : Nat} {relation : String}
    (hjoins : mid.Joins governor relation dependent) {good : Unit → Graph → Prop}
    (hgood : ∀ rest, { governor, dependent, relation } ∈ keys →
      graph.Rekeyed (keys \ {{ governor, dependent, relation }}) rest → good () rest) :
    Ends (discard <| takeEdge rule { governor, dependent, relation }) mid good
      (Stopped rule graph) := by
  refine .discard (ends_takeEdge hmid.wellFormed (fun edge rest hedge hkey hrest => ?_)
    fun hmissing => ?_)
  · rw [hmid.keys] at hrest
    exact hgood rest (hmid.keys ▸ ⟨edge, hedge, hkey⟩) (hmid.trans hrest)
  · exact ⟨⟨_, rfl, rfl, hmissing, hjoins.extra_mem hmissing⟩, graph, keys, .refl, hsubset, hmid⟩

theorem not_stopped_of_primary {fault : Fault} {failed : Graph}
    (h : ∀ key ∈ graph.keys, key.extra = false) : ¬ Stopped rule graph fault failed := by
  rintro ⟨⟨key, -, -, -, hextra⟩, last, keys, hmoves, hsubset, hcut⟩
  rw [hcut.keys] at hextra
  cases hmoves.primary h _ (hsubset hextra)

end DepNorm.Splice
