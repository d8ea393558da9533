import Stellara.Host

/-!
# Shared access control (`shared/src/acl.rs`)

Roles are symbols; a user has a list of roles, a role a list of permissions and at most
one parent role, whose permissions it inherits.  `hasPermission` walks up from each of
the user's roles and panics on a chain of more than eleven roles.
-/

namespace Stellara.Acl

open Outcome

/-! ## Roles and permissions -/

def roleAdmin : Symbol := "admin"
def roleApprover : Symbol := "approver"
def roleExecutor : Symbol := "executor"

def permissionSetRate : Symbol := "set_rate"
def permissionPremium : Symbol := "premium"
def permissionPause : Symbol := "pause"
def permissionUnpause : Symbol := "unpause"
def permissionMgrAcl : Symbol := "mgr_acl"
def permissionNewPool : Symbol := "new_pool"
def permissionPropose : Symbol := "propose"
def permissionApprove : Symbol := "approve"
def permissionExecute : Symbol := "execute"

/-- What the ACL keeps in storage. -/
structure State where
  /-- `roles_ex` -/
  roles : Store Symbol Bool := ∅
  /-- `u_roles` -/
  userRoles : Store Address (List Symbol) := ∅
  /-- `r_perms` -/
  rolePerms : Store Symbol (List Symbol) := ∅
  /-- `r_parent` -/
  roleParent : Store Symbol Symbol := ∅

variable {ε : Type}

def createRole (s : State) (role : Symbol) : State :=
  { s with roles := s.roles.insert role true }

def roleExists (s : State) (role : Symbol) : Bool := (s.roles.lookup role).getD false

/-- `if !role_exists { create_role }`. -/
def ensureRole (s : State) (role : Symbol) : State :=
  if roleExists s role then s else createRole s role

/-- `push_back` unless already there. -/
def pushNew (l : List Symbol) (x : Symbol) : List Symbol := if x ∈ l then l else l ++ [x]

def getUserRoles (s : State) (user : Address) : List Symbol := (s.userRoles.lookup user).getD []

def getRolePermissions (s : State) (role : Symbol) : List Symbol := (s.rolePerms.lookup role).getD []

def getParentRole (s : State) (role : Symbol) : Option Symbol := s.roleParent.lookup role

def assignRole (s : State) (user : Address) (role : Symbol) : State :=
  let s := ensureRole s role
  { s with userRoles := s.userRoles.insert user (pushNew (getUserRoles s user) role) }

def assignPermission (s : State) (role permission : Symbol) : State :=
  let s := ensureRole s role
  { s with rolePerms := s.rolePerms.insert role (pushNew (getRolePermissions s role) permission) }

def assignPermissionsBatch (s : State) (role : Symbol) (permissions : List Symbol) : State :=
  permissions.foldl (fun s permission => assignPermission s role permission) (ensureRole s role)

def setParentRole (s : State) (child parent : Symbol) : Except (Fault ε) State := do
  require (child ≠ parent) (.panic "INVALID_ROLE_HIERARCHY")
  let s := ensureRole (ensureRole s child) parent
  pure { s with roleParent := s.roleParent.insert child parent }

/-- `check_role` with `n` levels left before `depth > 10`. -/
def checkRole (s : State) (permission : Symbol) : Nat → Symbol → Except (Fault ε) Bool
  | 0, _ => .error (.panic "ROLE_HIERARCHY_TOO_DEEP")
  | n + 1, role =>
    if permission ∈ getRolePermissions s role then .ok true
    else
      match getParentRole s role with
      | some parent => checkRole s permission n parent
      | none => .ok false

/-- The first of `roles` that carries the permission decides. -/
def anyRole (s : State) (permission : Symbol) : List Symbol → Except (Fault ε) Bool
  | [] => .ok false
  | role :: roles => do
    if ← checkRole s permission 11 role then .ok true else anyRole s permission roles

def hasPermission (s : State) (user : Address) (permission : Symbol) : Except (Fault ε) Bool :=
  anyRole s permission (getUserRoles s user)

def requirePermission (s : State) (user : Address) (permission : Symbol) :
    Except (Fault ε) Unit := do
  require (← hasPermission s user permission) (.panic "UNAUTHORIZED")

/-! ## The operations as calls -/

/-- The changes an administrator can make. -/
inductive Call
  | createRole (role : Symbol)
  | assignRole (user : Address) (role : Symbol)
  | assignPermission (role permission : Symbol)
  | assignPermissionsBatch (role : Symbol) (permissions : List Symbol)
  | setParentRole (child parent : Symbol)
deriving DecidableEq, Repr

def Call.exec (s : State) : Call → Except (Fault ε) State
  | .createRole role => .ok (Acl.createRole s role)
  | .assignRole user role => .ok (Acl.assignRole s user role)
  | .assignPermission role permission => .ok (Acl.assignPermission s role permission)
  | .assignPermissionsBatch role permissions => .ok (Acl.assignPermissionsBatch s role permissions)
  | .setParentRole child parent => Acl.setParentRole s child parent

end Stellara.Acl
