import Mathlib.Tactic.Tauto
import Stellara.Lib.Ancestry
import Stellara.Shared.Acl

/-!
# Permissions and the role hierarchy

`hasPermission` walks up from the roles of the user, in the order in which they were
assigned, and visits at most eleven roles on each way.  The roles, the grants and the
parents are read here from the calls made so far (`rolesOf`, `grantsOf`, `parentOf`), not
from the storage; `books_run` says that the storage agrees with them.

* `permission_resolution`: an answer is the answer of the graph; there is no answer exactly
  when a role with too long a chain comes before every role that carries the permission.
-/

namespace Stellara.Acl

open Outcome

/-! ## The operations as a machine -/

/-- Runs start with an empty storage; any of the operations may come next. -/
def machine : Machine Unit Call Unit (Fault Empty) State where
  init s := s = {}
  valid _ _ := True
  clock _ := 0
  exec _ call s := do pure ((), ← call.exec s)

/-- The operations of a run, newest first. -/
abbrev Trace : Type := List (Event Unit Call Unit State)

instance (env : Unit) (call : Call) : Decidable (machine.valid env call) :=
  inferInstanceAs (Decidable True)

/-! ## What was assigned and granted -/

/-- The roles of the user in the order of their first assignment. -/
def rolesOf (user : Address) : Trace → List Symbol
  | [] => []
  | e :: tr =>
    match e.call with
    | .assignRole u role => if u = user then pushNew (rolesOf user tr) role else rolesOf user tr
    | _ => rolesOf user tr

/-- The permissions granted to the role itself. -/
def grantsOf (role : Symbol) : Trace → List Symbol
  | [] => []
  | e :: tr =>
    match e.call with
    | .assignPermission r permission =>
      if r = role then pushNew (grantsOf role tr) permission else grantsOf role tr
    | .assignPermissionsBatch r permissions =>
      if r = role then permissions.foldl pushNew (grantsOf role tr) else grantsOf role tr
    | _ => grantsOf role tr

/-- The parent of the role that was set last. -/
def parentOf (tr : Trace) (role : Symbol) : Option Symbol :=
  match tr with
  | [] => none
  | e :: tr =>
    match e.call with
    | .setParentRole child parent => if child = role then some parent else parentOf tr role
    | _ => parentOf tr role

/-- The role itself was granted the permission. -/
def granted (tr : Trace) (permission role : Symbol) : Bool := decide (permission ∈ grantsOf role tr)

/-- Some role of the user reaches, along parents, a role with the permission. -/
def Holds (tr : Trace) (user : Address) (permission : Symbol) : Prop :=
  ∃ role ∈ rolesOf user tr, Ancestry.Reaches (granted tr permission) (parentOf tr) role

/-- The role has at least eleven ancestors, and neither it nor the first ten of them has
the permission. -/
def TooDeep (tr : Trace) (permission role : Symbol) : Prop :=
  Ancestry.TooLong (granted tr permission) (parentOf tr) 11 role

/-- The storage says what the calls said. -/
structure Books (tr : Trace) (s : State) : Prop where
  roles : ∀ user, getUserRoles s user = rolesOf user tr
  grants : ∀ role, getRolePermissions s role = grantsOf role tr
  parents : ∀ role, getParentRole s role = parentOf tr role

@[simp] theorem ensureRole_userRoles (s : State) (role : Symbol) :
    (ensureRole s role).userRoles = s.userRoles := by
  unfold ensureRole
  split <;> rfl

@[simp] theorem ensureRole_rolePerms (s : State) (role : Symbol) :
    (ensureRole s role).rolePerms = s.rolePerms := by
  unfold ensureRole
  split <;> rfl

@[simp] theorem ensureRole_roleParent (s : State) (role : Symbol) :
    (ensureRole s role).roleParent = s.roleParent := by
  unfold ensureRole
  split <;> rfl

theorem getUserRoles_assignRole (s : State) (user u : Address) (role : Symbol) :
    getUserRoles (assignRole s u role) user =
      if u = user then pushNew (getUserRoles s user) role else getUserRoles s user := by
  by_cases h : u = user
  · subst h
    simp [getUserRoles, assignRole]
  · simp [getUserRoles, assignRole, h, Ne.symm h]

theorem getRolePermissions_assignPermission (s : State) (role r permission : Symbol) :
    getRolePermissions (assignPermission s r permission) role =
      if r = role then pushNew (getRolePermissions s role) permission
      else getRolePermissions s role := by
  by_cases h : r = role
  · subst h
    simp [getRolePermissions, assignPermission]
  · simp [getRolePermissions, assignPermission, h, Ne.symm h]

/-- A batch of permissions is the permissions one after another. -/
theorem getRolePermissions_batch (s : State) (role r : Symbol) (permissions : List Symbol) :
    getRolePermissions (assignPermissionsBatch s r permissions) role =
      if r = role then permissions.foldl pushNew (getRolePermissions s role)
      else getRolePermissions s role := by
  have hfold : ∀ s : State,
      getRolePermissions (permissions.foldl (fun s p => assignPermission s r p) s) role =
        if r = role then permissions.foldl pushNew (getRolePermissions s role)
        else getRolePermissions s role := by
    induction permissions with
    | nil => simp
    | cons p permissions ih =>
      intro s
      rw [List.foldl_cons, ih, getRolePermissions_assignPermission]
      by_cases h : r = role <;> simp [h]
  rw [assignPermissionsBatch, hfold]
  simp [getRolePermissions]

theorem batch_frame (s : State) (r : Symbol) (permissions : List Symbol) :
    (assignPermissionsBatch s r permissions).userRoles = s.userRoles ∧
    (assignPermissionsBatch s r permissions).roleParent = s.roleParent := by
  have hfold : ∀ s : State,
      (permissions.foldl (fun s p => assignPermission s r p) s).userRoles = s.userRoles ∧
      (permissions.foldl (fun s p => assignPermission s r p) s).roleParent = s.roleParent := by
    induction permissions with
    | nil => simp
    | cons p permissions ih =>
      intro s
      rw [List.foldl_cons, (ih _).1, (ih _).2]
      simp [assignPermission]
  simpa [assignPermissionsBatch] using hfold (ensureRole s r)

theorem books_step {tr : Trace} {call : Call} {s s' : State} (h : Books tr s)
    (hx : (call.exec s : Except (Fault Empty) State) = .ok s') :
    Books (⟨(), call, (), s, s'⟩ :: tr) s' := by
  cases call with
  | createRole role =>
    cases hx
    exact ⟨h.roles, h.grants, h.parents⟩
  | assignRole u role =>
    cases hx
    refine ⟨?_, ?_, ?_⟩
    · intro user
      rw [getUserRoles_assignRole, h.roles]
      rfl
    · intro r
      simpa [getRolePermissions, assignRole, grantsOf] using h.grants r
    · intro r
      simpa [getParentRole, assignRole, parentOf] using h.parents r
  | assignPermission r permission =>
    cases hx
    refine ⟨?_, ?_, ?_⟩
    · intro user
      simpa [getUserRoles, assignPermission, rolesOf] using h.roles user
    · intro role
      rw [getRolePermissions_assignPermission, h.grants]
      rfl
    · intro role
      simpa [getParentRole, assignPermission, parentOf] using h.parents role
  | assignPermissionsBatch r permissions =>
    cases hx
    obtain ⟨huser, hparent⟩ := batch_frame s r permissions
    refine ⟨?_, ?_, ?_⟩
    · intro user
      rw [getUserRoles, huser]
      exact h.roles user
    · intro role
      rw [getRolePermissions_batch, h.grants]
      rfl
    · intro role
      rw [getParentRole, hparent]
      exact h.parents role
  | setParentRole child parent =>
    simp only [Call.exec, setParentRole, bind_eq_ok, require_eq_ok, exists_unit_and,
      pure_eq_ok] at hx
    obtain ⟨-, rfl⟩ := hx
    refine ⟨?_, ?_, ?_⟩
    · intro user
      simpa [getUserRoles, rolesOf] using h.roles user
    · intro role
      simpa [getRolePermissions, grantsOf] using h.grants role
    · intro role
      by_cases hc : child = role
      · subst hc
        simp [getParentRole, parentOf]
      · simpa [getParentRole, parentOf, Store.lookup_insert_eq, hc, Ne.symm hc] using h.parents role

theorem books_run {tr : Trace} {s : State} (h : Run machine tr s) : Books tr s := by
  refine h.invariant_trace ?_ ?_
  · rintro s rfl
    exact ⟨fun _ => rfl, fun _ => rfl, fun _ => rfl⟩
  · intro tr env call r s s' _ _ hb hx
    simp only [machine, bind_eq_ok, pure_eq_ok] at hx
    obtain ⟨s1, hcall, heq⟩ := hx
    obtain ⟨-, rfl⟩ := Prod.mk.inj heq
    exact books_step hb hcall

/-! ## The walk -/

variable {ε : Type}

/-- What `check_role` returns when the search ends with `r`. -/
def ofSearch : Option Bool → Except (Fault ε) Bool
  | some b => .ok b
  | none => .error (.panic "ROLE_HIERARCHY_TOO_DEEP")

/-- **`check_role` is the bounded search** on the graph of the run. -/
theorem checkRole_eq {tr : Trace} {s : State} (h : Books tr s) (permission : Symbol) (n : Nat)
    (role : Symbol) :
    (checkRole s permission n role : Except (Fault ε) Bool) =
      ofSearch (Ancestry.search (granted tr permission) (parentOf tr) n role) := by
  induction n generalizing role with
  | zero => rfl
  | succ n ih =>
    unfold checkRole Ancestry.search
    rw [h.grants, h.parents]
    by_cases hp : permission ∈ grantsOf role tr
    · simp [granted, hp, ofSearch]
    · cases hparent : parentOf tr role with
      | none => simp [granted, hp, ofSearch]
      | some parent => simpa [granted, hp] using ih parent

/-- The walk from one role, by its three outcomes. -/
theorem checkRole_cases {tr : Trace} {s : State} (h : Books tr s) (permission role : Symbol) :
    ((checkRole s permission 11 role : Except (Fault ε) Bool) = .ok true ∧
      ¬ TooDeep tr permission role ∧
      Ancestry.Reaches (granted tr permission) (parentOf tr) role) ∨
    ((checkRole s permission 11 role : Except (Fault ε) Bool) = .ok false ∧
      ¬ TooDeep tr permission role ∧
      ¬ Ancestry.Reaches (granted tr permission) (parentOf tr) role) ∨
    ((checkRole s permission 11 role : Except (Fault ε) Bool) =
      .error (.panic "ROLE_HIERARCHY_TOO_DEEP") ∧ TooDeep tr permission role) := by
  rw [checkRole_eq h]
  have hdeep : Ancestry.search (granted tr permission) (parentOf tr) 11 role = none ↔
      TooDeep tr permission role :=
    Ancestry.search_eq_none_iff 11 role
  cases hsearch : Ancestry.search (granted tr permission) (parentOf tr) 11 role with
  | none => exact .inr (.inr ⟨rfl, hdeep.mp hsearch⟩)
  | some b =>
    have hok : ¬ TooDeep tr permission role := by
      intro ht
      rw [hdeep.mpr ht] at hsearch
      cases hsearch
    cases b with
    | true => exact .inl ⟨rfl, hok, Ancestry.reaches_of_search hsearch⟩
    | false => exact .inr (.inl ⟨rfl, hok, Ancestry.not_reaches_of_search hsearch⟩)

/-- The first role of the list whose walk gets anywhere is one with too long a chain. -/
def Blocked (tr : Trace) (permission : Symbol) (roles : List Symbol) : Prop :=
  ∃ before role after, roles = before ++ role :: after ∧ TooDeep tr permission role ∧
    ∀ r ∈ before, ¬ TooDeep tr permission r ∧
      ¬ Ancestry.Reaches (granted tr permission) (parentOf tr) r

theorem not_blocked_nil (tr : Trace) (permission : Symbol) : ¬ Blocked tr permission [] := by
  rintro ⟨before, role, after, hsplit, -⟩
  simp at hsplit

theorem blocked_cons_iff {tr : Trace} {permission role : Symbol} {roles : List Symbol} :
    Blocked tr permission (role :: roles) ↔ TooDeep tr permission role ∨
      ¬ TooDeep tr permission role ∧
        ¬ Ancestry.Reaches (granted tr permission) (parentOf tr) role ∧
        Blocked tr permission roles := by
  constructor
  · rintro ⟨before, r, after, hsplit, hdeep, hbefore⟩
    cases before with
    | nil =>
      obtain ⟨rfl, -⟩ := List.cons.inj hsplit
      exact .inl hdeep
    | cons b before =>
      obtain ⟨rfl, hrest⟩ := List.cons.inj hsplit
      rw [List.forall_mem_cons] at hbefore
      exact .inr ⟨hbefore.1.1, hbefore.1.2, before, r, after, hrest, hdeep, hbefore.2⟩
  · rintro (hdeep | ⟨hshort, hno, before, r, after, rfl, hdeep, hbefore⟩)
    · exact ⟨[], role, roles, rfl, hdeep, by simp⟩
    · refine ⟨role :: before, r, after, rfl, hdeep, ?_⟩
      rw [List.forall_mem_cons]
      exact ⟨⟨hshort, hno⟩, hbefore⟩

/-- The loop over the user's roles, by induction on the roles still to be tried. -/
theorem anyRole_spec {tr : Trace} {s : State} (h : Books tr s) (permission : Symbol)
    (roles : List Symbol) :
    (Blocked tr permission roles → (anyRole s permission roles : Except (Fault ε) Bool) =
      .error (.panic "ROLE_HIERARCHY_TOO_DEEP")) ∧
    (¬ Blocked tr permission roles → ∃ b,
      (anyRole s permission roles : Except (Fault ε) Bool) = .ok b ∧
      (b = true ↔ ∃ role ∈ roles,
        Ancestry.Reaches (granted tr permission) (parentOf tr) role)) := by
  induction roles with
  | nil => exact ⟨fun hb => absurd hb (not_blocked_nil tr permission), fun _ => ⟨false, rfl, by simp⟩⟩
  | cons role roles ih =>
    rw [blocked_cons_iff]
    unfold anyRole
    rcases checkRole_cases (ε := ε) h permission role with
      ⟨hcheck, hshort, hreach⟩ | ⟨hcheck, hshort, hno⟩ | ⟨hcheck, hdeep⟩
    · rw [hcheck]
      refine ⟨fun hb => ?_, fun _ => ⟨true, rfl, ?_⟩⟩
      · tauto
      · exact ⟨fun _ => ⟨role, List.mem_cons_self, hreach⟩, fun _ => rfl⟩
    · -- the role says nothing: the rest of the list decides
      rw [hcheck]
      have hmem : (∃ r ∈ role :: roles, Ancestry.Reaches (granted tr permission) (parentOf tr) r) ↔
          ∃ r ∈ roles, Ancestry.Reaches (granted tr permission) (parentOf tr) r := by
        simp [hno]
      rw [hmem]
      refine ⟨fun hb => ih.1 (by tauto), fun hb => ih.2 (by tauto)⟩
    · rw [hcheck]
      exact ⟨fun _ => rfl, fun hb => absurd (.inl hdeep) hb⟩

/-- **Permission resolution.**  In every reachable state `has_permission` answers, and
answers what the graph of the roles says, unless a role with too long a chain comes first;
then it stops with `ROLE_HIERARCHY_TOO_DEEP`.  Where it answers, the order in which the
roles were assigned makes no difference. -/
theorem permission_resolution {tr : Trace} {s : State} (h : Run machine tr s) (user : Address)
    (permission : Symbol) :
    (Blocked tr permission (rolesOf user tr) →
      (hasPermission s user permission : Except (Fault Empty) Bool) =
        .error (.panic "ROLE_HIERARCHY_TOO_DEEP")) ∧
    (¬ Blocked tr permission (rolesOf user tr) → ∃ b,
      (hasPermission s user permission : Except (Fault Empty) Bool) = .ok b ∧
      (b = true ↔ Holds tr user permission)) ∧
    ∀ tr' s', Run machine tr' s' → (∀ role, role ∈ rolesOf user tr' ↔ role ∈ rolesOf user tr) →
      (∀ role p, p ∈ grantsOf role tr' ↔ p ∈ grantsOf role tr) →
      (∀ role, parentOf tr' role = parentOf tr role) →
      ¬ Blocked tr permission (rolesOf user tr) → ¬ Blocked tr' permission (rolesOf user tr') →
      (hasPermission s' user permission : Except (Fault Empty) Bool) =
        hasPermission s user permission := by
  have hanswer : ∀ {tr : Trace} {s : State}, Run machine tr s →
      (Blocked tr permission (rolesOf user tr) →
        (hasPermission s user permission : Except (Fault Empty) Bool) =
          .error (.panic "ROLE_HIERARCHY_TOO_DEEP")) ∧
      (¬ Blocked tr permission (rolesOf user tr) → ∃ b,
        (hasPermission s user permission : Except (Fault Empty) Bool) = .ok b ∧
        (b = true ↔ Holds tr user permission)) := by
    intro tr s h
    unfold hasPermission Holds
    rw [(books_run h).roles]
    exact anyRole_spec (books_run h) permission (rolesOf user tr)
  refine ⟨(hanswer h).1, (hanswer h).2, ?_⟩
  intro tr' s' h' hroles hgrants hparents hfree hfree'
  obtain ⟨b, hb, hiff⟩ := (hanswer h).2 hfree
  obtain ⟨b', hb', hiff'⟩ := (hanswer h').2 hfree'
  have hsame : Holds tr' user permission ↔ Holds tr user permission := by
    have hg : granted tr' permission = granted tr permission := by
      funext role
      simp [granted, hgrants]
    have hp : parentOf tr' = parentOf tr := funext hparents
    unfold Holds
    rw [hg, hp]
    constructor
    · rintro ⟨role, hrole, hreach⟩; exact ⟨role, (hroles role).mp hrole, hreach⟩
    · rintro ⟨role, hrole, hreach⟩; exact ⟨role, (hroles role).mpr hrole, hreach⟩
  rw [hb, hb', Bool.eq_iff_iff.mpr (hiff'.trans (hsame.trans hiff.symm))]

/-- The roles `a` and `b` are each other's parents, and `c` may pause.  User 1 has role `a`,
users 2 and 3 have `a` and `c`, in different orders. -/
def cyclicRoles : List (Unit × Call) :=
  [((), .setParentRole "a" "b"), ((), .setParentRole "b" "a"), ((), .assignPermission "c" "pause"),
    ((), .assignRole 1 "a"), ((), .assignRole 2 "a"), ((), .assignRole 2 "c"),
    ((), .assignRole 3 "c"), ((), .assignRole 3 "a")]

/-- Below a cycle there is no answer: not for user 1, whom nobody gave the permission to
unpause, and not for user 2, who may pause as user 3 may. -/
theorem cyclic_roles_trap :
    ∃ (tr : Trace) (s : State), Run machine tr s ∧ ¬ Holds tr 1 "unpause" ∧
      (hasPermission s 1 "unpause" : Except (Fault Empty) Bool) ≠ .ok false ∧
      Holds tr 2 "pause" ∧ (hasPermission s 2 "pause" : Except (Fault Empty) Bool) ≠ .ok true ∧
      (rolesOf 3 tr).Perm (rolesOf 2 tr) ∧
      (hasPermission s 3 "pause" : Except (Fault Empty) Bool) = .ok true := by
  have hinit : machine.init {} := rfl
  obtain ⟨tr, s, hrun, hok⟩ := Machine.exists_run_of_replay hinit cyclicRoles
    (fun tr s => (s.rolePerms.entries.all fun e => "unpause" ∉ e.2) ∧
      getRolePermissions s "c" = ["pause"] ∧ rolesOf 2 tr = ["a", "c"] ∧ rolesOf 3 tr = ["c", "a"] ∧
      (hasPermission s 1 "unpause" : Except (Fault Empty) Bool).toOption = none ∧
      (hasPermission s 2 "pause" : Except (Fault Empty) Bool).toOption = none ∧
      (hasPermission s 3 "pause" : Except (Fault Empty) Bool).toOption = some true)
    (by decide) (by decide) (by decide)
  obtain ⟨hnone, hc, h2, h3, hans1, hans2, hans3⟩ := of_decide_eq_true hok
  have hb := books_run hrun
  refine ⟨tr, s, hrun, ?_, ?_, ?_, ?_, ?_, ?_⟩
  · rintro ⟨role, -, top, -, hgranted⟩
    have hmem : "unpause" ∈ getRolePermissions s top := by
      rw [hb.grants]
      exact of_decide_eq_true hgranted
    unfold getRolePermissions at hmem
    cases hlook : s.rolePerms.lookup top with
    | none => simp [hlook] at hmem
    | some perms =>
      have hentry := List.all_eq_true.mp hnone _ (AList.mem_lookup_iff.mp hlook)
      rw [hlook] at hmem
      exact absurd hmem (of_decide_eq_true hentry)
  · intro h; rw [h] at hans1; cases hans1
  · refine ⟨"c", by rw [h2]; decide, Ancestry.reaches_self ?_⟩
    simp [granted, ← hb.grants, hc]
  · intro h; rw [h] at hans2; cases hans2
  · rw [h2, h3]; exact List.Perm.swap _ _ _
  · cases h : (hasPermission s 3 "pause" : Except (Fault Empty) Bool) with
    | error e => rw [h] at hans3; cases hans3
    | ok b => rw [h] at hans3; cases hans3; rfl

/-- User 1 holds the permission to pause through the parent of the role. -/
theorem permission_resolution_inherited :
    ∃ (tr : Trace) (s : State), Run machine tr s ∧ Holds tr 1 "pause" ∧
      ∃ b, (hasPermission s 1 "pause" : Except (Fault Empty) Bool) = .ok b ∧
        (b = true ↔ Holds tr 1 "pause") := by
  have hinit : machine.init {} := rfl
  obtain ⟨tr, s, hrun, hok⟩ := Machine.exists_run_of_replay hinit
    [((), .assignPermission "admin" "pause"), ((), .setParentRole "deputy" "admin"),
      ((), .assignRole 1 "deputy")]
    (fun tr s => rolesOf 1 tr = ["deputy"] ∧ parentOf tr "deputy" = some "admin" ∧
      grantsOf "admin" tr = ["pause"] ∧
      (hasPermission s 1 "pause" : Except (Fault Empty) Bool).toOption = some true)
    (by decide) (by decide) (by decide)
  obtain ⟨hroles, hparent, hgrant, hans⟩ := of_decide_eq_true hok
  have hreach : Ancestry.Reaches (granted tr "pause") (parentOf tr) "deputy" :=
    (Ancestry.reaches_self (by simp [granted, hgrant])).step hparent
  refine ⟨tr, s, hrun, ⟨"deputy", by simp [hroles], hreach⟩,
    (permission_resolution hrun 1 "pause").2.1 ?_⟩
  intro hblocked
  rw [(permission_resolution hrun 1 "pause").1 hblocked] at hans
  cases hans

end Stellara.Acl
