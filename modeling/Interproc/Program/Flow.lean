import Interproc.Icfg
import Interproc.Program.Basic

namespace Interproc

def Program.icfg (p : Program) : Icfg Nat Nat where
  functionOf := p.functionOf
  succs := p.succs
  isCall := p.isCall
  isExit := p.isExit
  callees := p.calleesAt
  returnSites := p.succs
  starts := p.entryOf
  exits := p.exitsOf
  hasNode := p.hasNode
  hasFunction := p.hasFunction

end Interproc
