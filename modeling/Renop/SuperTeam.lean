import Mathlib.Data.Int.Basic
import Mathlib.Order.Lattice

/-!
# Global teams

A package, an artifact or a Maven domain may be bound to a global team. Its members then have a level there
that follows from their role, beside the level of their own row (`super_team_binding.go`).
-/

namespace Renop

/-- `core.SuperTeamPackagePermission`; the roles are read, write, manage and owner. -/
def superTeamPackagePermission (role : Int) : Int :=
  if role = 1 then 0 else if role = 2 then 2 else if role = 3 then 3 else if role = 4 then 4 else -1

def effectiveBoundPermission (explicit superTeam : Option Int) : Int × Bool :=
  let level := explicit.getD 0
  let level := match superTeam with
    | some role =>
      if explicit.isNone ∨ superTeamPackagePermission role > level then superTeamPackagePermission role else level
    | none => level
  (max level 0, explicit.isSome || superTeam.isSome)

end Renop
