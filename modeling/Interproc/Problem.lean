namespace Interproc

/-- A monotone problem: the join of facts and the flow of facts along each kind of edge. `S` is what a
problem remembers besides the facts and `E` what it reports. -/
structure Problem (N M D S E : Type) where
  bottom : D
  join : D → D → D
  le : D → D → Bool
  normal : N → D → D
  call : N → M → D → D
  ret : N → M → N → D → D
  bypass : N → N → D → D
  seeds : List (N × D)
  recompute : M → Bool := fun _ => false
  remember : N → N → D → S → S × List E := fun _ _ _ s => (s, [])
  reportable : N → N → D → Bool := fun _ _ _ => true
  nodeText : N → Option String
  factsText : D → Option String

end Interproc
