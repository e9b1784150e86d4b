import Interproc.Log

namespace Interproc

structure ContextKind (N D C : Type) where
  enter : C → N → N → D → C
  leave : C → C
  unsure : C → Bool
  same : C → C → Bool
  before : C → C → Bool
  text : C → String
  missing : N → N → D → List String := fun _ _ _ => []
  compared : String → C → C → List Record := fun _ _ _ => []

end Interproc
