namespace Interproc

structure Icfg (N M : Type) where
  functionOf : N → M
  succs : N → List N
  isCall : N → Bool
  isExit : N → Bool
  callees : N → List M
  returnSites : N → List N
  starts : M → List N
  exits : M → List N
  hasNode : N → Bool := fun _ => true
  hasFunction : M → Bool := fun _ => true

end Interproc
