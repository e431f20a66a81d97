import ScriptCheck.Bracket

/-!
# The layout of a text

The regions, bracket pairs and open ends of a text, computed once and asked by byte
offset.
-/

namespace ScriptCheck

structure Layout where
  regions : List Region
  /-- Offsets of an opener and the closer it goes with. -/
  pairs : List (Nat × Nat)
  balance : Balance
  deriving Repr

/-- The layout of a text. -/
def Text.layout (text : Text) : Layout :=
  let code := text.codeChars
  { regions := text.regions
    pairs := Bracket.brace.pairs code ++ Bracket.paren.pairs code ++ Bracket.square.pairs code
    balance := text.balance }

/-- Whether a region covers the byte at an offset. -/
def Region.covers (region : Region) (offset : Nat) : Bool :=
  region.start ≤ offset && offset < region.stop

namespace Layout

/-- The closer that goes with the opener at an offset. -/
def matchingClose? (layout : Layout) (opened : Nat) : Option Nat := layout.pairs.lookup opened

/-- The regions from the first that stops after `offset` on. -/
def regionsAfter (layout : Layout) (offset : Nat) : List Region :=
  layout.regions.dropWhile fun region => region.stop ≤ offset

/-- The regions that reach into a span, cut to it. -/
def regionsWithin (layout : Layout) (start stop : Nat) : List Region :=
  ((layout.regionsAfter start).takeWhile fun region => region.start < stop).map fun region =>
    { region with start := max region.start start, stop := min region.stop stop }

/-- The region of the byte at an offset. -/
def regionAt? (layout : Layout) (offset : Nat) : Option Region :=
  (layout.regionsAfter offset).head?.filter fun region => region.covers offset

/-- Whether the byte at an offset is code. -/
def inCode (layout : Layout) (offset : Nat) : Bool :=
  (layout.regionAt? offset).any fun region => region.kind = .code

end Layout

end ScriptCheck
