/-!
The operators of natural logic that open a noun phrase, by the words that express them. Multi-word
forms stand before the forms they begin with.
-/

namespace DepNorm

structure Operator where
  name : String
  surface : String
  deriving DecidableEq, Repr

namespace Operator

def universal : List Operator :=
  [⟨"the_lot_of", "the lot of"⟩, ⟨"all_of", "all of"⟩, ⟨"each_of", "each of"⟩,
   ⟨"for_all", "for all"⟩, ⟨"for_every", "for every"⟩, ⟨"for_each", "for each"⟩, ⟨"all", "all"⟩,
   ⟨"every", "every"⟩, ⟨"any", "any"⟩, ⟨"each", "each"⟩, ⟨"everyone", "everyone"⟩,
   ⟨"everything", "everything"⟩, ⟨"everybody", "everybody"⟩, ⟨"both", "both"⟩]

def negative : List Operator :=
  [⟨"not_all", "not all"⟩, ⟨"not_every", "not every"⟩, ⟨"no_one", "no one"⟩,
   ⟨"nobody", "nobody"⟩, ⟨"nothing", "nothing"⟩, ⟨"none", "none"⟩, ⟨"neither", "neither"⟩,
   ⟨"no", "no"⟩, ⟨"not", "not"⟩, ⟨"few", "few"⟩, ⟨"but", "but"⟩, ⟨"except", "except"⟩,
   ⟨"at_most", "at most"⟩, ⟨"less_than", "less than"⟩, ⟨"fewer_than", "fewer than"⟩]

def existential : List Operator :=
  [⟨"at_least_a_few", "at least a few"⟩, ⟨"at_least", "at least"⟩,
   ⟨"there_be_a_few", "there be a few"⟩, ⟨"there_be", "there be"⟩,
   ⟨"there_exist", "there exist"⟩, ⟨"some_of", "some of"⟩, ⟨"one_of", "one of"⟩,
   ⟨"a_few", "a few"⟩, ⟨"a_lot_of", "a lot of"⟩, ⟨"a_lot", "a lot"⟩, ⟨"lots_of", "lots of"⟩,
   ⟨"more_than", "more than"⟩, ⟨"some", "some"⟩, ⟨"someone", "someone"⟩,
   ⟨"something", "something"⟩, ⟨"several", "several"⟩, ⟨"either", "either"⟩, ⟨"an", "an"⟩,
   ⟨"a", "a"⟩, ⟨"the", "the"⟩]

def nonMonotone : List Operator :=
  [⟨"most", "most"⟩, ⟨"more", "more"⟩, ⟨"many", "many"⟩, ⟨"enough", "enough"⟩]

/-- Every operator, in the order in which they are looked up. -/
def all : List Operator := universal ++ negative ++ existential ++ nonMonotone

end Operator

/-- Equality up to the case of ASCII letters. -/
def sameLetters (s t : String) : Bool := s.toList.map Char.toLower == t.toList.map Char.toLower

/-- The operator that the whole text expresses, whatever the case of its letters. -/
def Operator.ofSurface? (text : String) : Option Operator :=
  Operator.all.find? fun op => sameLetters op.surface text

/-- Whether the text begins with the letters of an operator. The letters need not end with a word,
so "apples" begins with "a", and their case counts. -/
def opensWithOperator (text : List Char) : Bool :=
  Operator.all.any fun op => op.surface.toList.isPrefixOf text

example : Operator.ofSurface? "At Least" = some ⟨"at_least", "at least"⟩ := by decide

example : opensWithOperator "apples".toList = true ∧
    opensWithOperator "No dogs".toList = false := by decide

end DepNorm
