import DatedCounts.Cursor.Rollup
import DatedCounts.Cursor.Sieve
import DatedCounts.Cursor.Store

/-!
# Stacks of cursors

Sieves and rollups can stand on one another in any number and order, with a store beneath them. The
layers of a stack are listed from the outermost to the one on the store.
-/

namespace DatedCounts

inductive Layer where
  | sieve (filter : Filter) (maxNext : Nat)
  | rollup (combiner : Option Combiner)

/-- The states of a stack with the given layers. -/
def Stack : List Layer → Type
  | [] => Store
  | .sieve .. :: below => Sieve (Stack below)
  | .rollup _ :: below => Rollup (Stack below)

inductive LayerStats where
  | store (stats : Store.Stats)
  | sieve (filter : Filter) (stats : Sieve.Stats)
  | rollup (combines : Bool) (stats : Rollup.Stats)
  deriving DecidableEq

namespace Stack

instance cursor : (layers : List Layer) → Cursor (Stack layers)
  | [] => inferInstanceAs (Cursor Store)
  | .sieve .. :: below =>
    have := cursor below
    inferInstanceAs (Cursor (Sieve (Stack below)))
  | .rollup _ :: below =>
    have := cursor below
    inferInstanceAs (Cursor (Rollup (Stack below)))

def ofData (data : OrderedMap Key Bytes) : (layers : List Layer) → Stack layers
  | [] => Store.ofData data
  | .sieve filter maxNext :: below => Sieve.ofSource filter maxNext (ofData data below)
  | .rollup combiner :: below => Rollup.ofSource combiner (ofData data below)

/-- What the layers have counted, from the outermost to the store. -/
def stats : (layers : List Layer) → Stack layers → List LayerStats
  | [], (s : Store) => [.store s.stats]
  | .sieve .. :: below, (s : Sieve (Stack below)) => .sieve s.filter s.stats :: stats below s.source
  | .rollup _ :: below, (s : Rollup (Stack below)) =>
    .rollup s.combiner.isSome s.stats :: stats below s.source

end Stack

end DatedCounts
