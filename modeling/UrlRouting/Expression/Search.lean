import UrlRouting.Expression.Basic

/-
  Searching a text for an expression.
  `ends` lists where what an expression stands for may end, best first and each place once: only
  the best way to a place counts, since whatever follows does not depend on the way there. In a
  repetition without bound no place is gone through twice, so that an empty time ends it.
-/

namespace UrlRouting.Expression

/-- A place in a text, and the spans of the labelled groups on the way there, the latest first. -/
structure Stop where
  pos : Nat
  spans : List (List Char × Nat × Nat)
  deriving DecidableEq, Repr

/-- The first of the stops at every place. -/
def firstStops (stops : List Stop) : List Stop :=
  (stops.foldl (fun kept s => if kept.any (·.pos = s.pos) then kept else s :: kept) []).reverse

/-- Goes on from every stop. -/
def thenEach (step : Stop → List Stop) (stops : List Stop) : List Stop :=
  firstStops (stops.flatMap step)

/-- Goes on `n` times. -/
def exactly (step : Stop → List Stop) : (n : Nat) → List Stop → List Stop
  | 0, stops => stops
  | n + 1, stops => exactly step n (thenEach step stops)

/-- A stop before or behind those that come of going on, as the repetition is lazy or greedy. -/
def arrange (greedy : Bool) (here : Stop) (later : List Stop) : List Stop :=
  if greedy then later ++ [here] else here :: later

/-- Goes on from every stop in turn, each time with the record that the time before left. -/
def inTurn {σ : Type} (go : σ → Stop → σ × List Stop) (record : σ) (stops : List Stop) :
    σ × List Stop :=
  stops.foldl (fun (record, found) s =>
    let (record, later) := go record s
    (record, found ++ later)) (record, [])

/-- Goes on up to `n` times; the record holds the places gone through by how many times were
left. -/
def upTo (step : Stop → List Stop) (greedy : Bool) :
    (n : Nat) → List (Nat × Nat) → Stop → List (Nat × Nat) × List Stop
  | 0, visited, s => (visited, [s])
  | n + 1, visited, s =>
    if (n, s.pos) ∈ visited then (visited, [])
    else
      let (visited, later) := inTurn (upTo step greedy n) ((n, s.pos) :: visited) (step s)
      (visited, arrange greedy s later)

/-- The places where times of a repetition have begun and where they have ended. -/
structure Visited where
  starts : List Nat
  joints : List Nat
  deriving DecidableEq, Repr

/-- Goes on once or more; no time begins or ends where one did before. -/
def onceOrMore (step : Stop → List Stop) (greedy : Bool) :
    (fuel : Nat) → Visited → Stop → Visited × List Stop
  | 0, visited, _ => (visited, [])
  | fuel + 1, visited, s =>
    if s.pos ∈ visited.starts then (visited, [])
    else
      inTurn (fun visited t =>
        if t.pos ∈ visited.joints then (visited, [])
        else
          let visited := { visited with joints := t.pos :: visited.joints }
          let (visited, later) := onceOrMore step greedy fuel visited t
          (visited, arrange greedy t later))
        { visited with starts := s.pos :: visited.starts } (step s)

/-- The stops of a repetition. The times that may not be left out come first. -/
def repeated (step : Stop → List Stop) (greedy : Bool) (fuel min : Nat) (max : Option Nat)
    (s : Stop) : List Stop :=
  let unbounded (stops : List Stop) : List Stop :=
    (inTurn (onceOrMore step greedy fuel) ⟨[], []⟩ stops).2
  match min, max with
  | min, some max =>
    firstStops (inTurn (upTo step greedy (max - min)) [] (exactly step min [s])).2
  | 0, none => firstStops (arrange greedy s (unbounded [s]))
  | min + 1, none => unbounded (exactly step min [s])

/-- The stops of an expression from a stop on, best first. -/
def ends (text : Array Char) : Expression → Stop → List Stop
  | .literal cs, s =>
    if cs.isPrefixOf (text.extract s.pos (s.pos + cs.length)).toList then
      [{ s with pos := s.pos + cs.length }]
    else []
  | .set cs, s =>
    if (text[s.pos]?).any cs.contains then [{ s with pos := s.pos + 1 }] else []
  | .look l, s =>
    let before := if s.pos = 0 then none else text[s.pos - 1]?
    if l.holds before text[s.pos]? then [s] else []
  | .seq a b, s => thenEach (ends text b) (ends text a s)
  | .alt a b, s => firstStops (ends text a s ++ ends text b s)
  | .times min max greedy a, s =>
    repeated (ends text a) greedy (text.size + 2) min max s
  | .group none a, s => ends text a s
  | .group (some label) a, s =>
    (ends text a s).map fun t => { t with spans := (label, s.pos, t.pos) :: t.spans }

/-- The spans of the labelled groups where the expression is first found. -/
def search? (e : Expression) (text : List Char) : Option (List (List Char × Nat × Nat)) :=
  let chars := text.toArray
  (List.range (text.length + 1)).findSome? fun start =>
    (e.ends chars ⟨start, []⟩).head?.map Stop.spans

/-- The part of a text that a label stands for, empty if there is no such label. -/
def spanText (text : List Char) (spans : List (List Char × Nat × Nat)) (label : List Char) :
    List Char :=
  match spans.lookup label with
  | some (start, stop) => (text.take stop).drop start
  | none => []

end UrlRouting.Expression
