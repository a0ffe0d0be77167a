import UrlRouting.Pattern.Basic

/-
  The ranks by which rules are ordered.
  Matching tries rules without variables first, then those with more segments, then compares
  segment by segment: literal text before variables, longer text before shorter, lighter
  converters before heavier. Building tries rules with more variables first.
-/

namespace UrlRouting

/-- The rank of a segment. -/
structure SegmentRank where
  isVariable : Bool
  weight : Int
  deriving DecidableEq, Repr

/-- The place of a rule in the order of matching; less is tried earlier. -/
structure MatchRank where
  hasVariables : Bool
  segmentCount : Nat
  weights : List SegmentRank
  deriving DecidableEq, Repr

/-- The place of a rule in the order of building; less is tried earlier. -/
structure BuildRank where
  variableCount : Nat
  deriving DecidableEq, Repr

namespace SegmentRank

instance : Ord SegmentRank where
  compare := compareLex (compareOn isVariable) (compareOn weight)

instance : Std.TransOrd SegmentRank :=
  inferInstanceAs (Std.TransCmp (compareLex (compareOn _) (compareOn _)))

def ofPart : Part → SegmentRank
  | .literal text => ⟨false, -(text.length : Int)⟩
  | .capture _ c => ⟨true, c.weight⟩

end SegmentRank

namespace MatchRank

/-- More segments come first. -/
instance : Ord MatchRank where
  compare :=
    compareLex (compareOn hasVariables)
      (compareLex (compareOn fun r => -(r.segmentCount : Int)) (compareOn weights))

instance : Std.TransOrd MatchRank :=
  inferInstanceAs (Std.TransCmp (compareLex (compareOn _) (compareLex (compareOn _) (compareOn _))))

def ofWeights (weights : List SegmentRank) : MatchRank where
  hasVariables := weights.any SegmentRank.isVariable
  segmentCount := weights.length
  weights

end MatchRank

namespace BuildRank

/-- More variables come first. -/
instance : Ord BuildRank where
  compare := compareOn fun r => -(r.variableCount : Int)

instance : Std.TransOrd BuildRank := inferInstanceAs (Std.TransCmp (compareOn _))

def ofWeights (weights : List SegmentRank) : BuildRank :=
  ⟨(weights.filter SegmentRank.isVariable).length⟩

end BuildRank

end UrlRouting
